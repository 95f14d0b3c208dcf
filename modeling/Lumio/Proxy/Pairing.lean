import Lumio.Proxy.History

/-!
# Tool results and their calls

A chat provider takes a tool message only right after the assistant message with its call, other tool messages aside.
The converter emits a result as soon as its call has been seen anywhere, so whether it stands in the right place is up
to the order of the input: a call is open until something other than a result, or another call after a result, follows.
-/

namespace Lumio.Proxy

/-! ## Paired messages -/

/-- The call may be answered after these messages: they end in the assistant message that holds it, and tool
messages. -/
def OpenCall (messages : List ChatMessage) (id : Text) : Prop :=
  ∃ (earlier : List ChatMessage) (assistant : ChatMessage) (tools : List ChatMessage), messages = earlier ++ assistant :: tools ∧ assistant.role = .assistant ∧
    (∀ tool ∈ tools, tool.role = .tool) ∧ id ∈ assistant.calls.map (·.id)

/-- Every tool message follows the assistant message with its call, with only tool messages in between. -/
def Paired (messages : List ChatMessage) : Prop :=
  ∀ (before : List ChatMessage) (message : ChatMessage) after, messages = before ++ message :: after → message.role = .tool →
    ∃ id, message.toolCallId = some id ∧ OpenCall before id

def AnswersOpen (messages : List ChatMessage) (message : ChatMessage) : Prop :=
  message.role = .tool → ∃ id, message.toolCallId = some id ∧ OpenCall messages id

variable {messages : List ChatMessage} {message : ChatMessage} {id : Text}

theorem concat_split {α : Type} {xs before after : List α} {x y : α} :
    xs ++ [x] = before ++ y :: after ↔
      (before = xs ∧ y = x ∧ after = []) ∨ ∃ start, after = start ++ [x] ∧ xs = before ++ y :: start := by
  constructor
  · intro h
    rcases List.eq_nil_or_concat after with rfl | ⟨start, last, rfl⟩
    · obtain ⟨hbefore, hlast⟩ := List.append_inj' h rfl
      exact .inl ⟨hbefore.symm, (List.cons.inj hlast).1.symm, rfl⟩
    · have h' : xs ++ [x] = (before ++ y :: start) ++ [last] := by simpa using h
      obtain ⟨hbefore, hlast⟩ := List.append_inj' h' rfl
      obtain rfl := (List.cons.inj hlast).1
      exact .inr ⟨start, by simp, hbefore⟩
  · rintro (⟨rfl, rfl, rfl⟩ | ⟨start, rfl, rfl⟩)
    · rfl
    · simp

theorem openCall_assistant (h : message.role = .assistant) :
    OpenCall (messages ++ [message]) id ↔ id ∈ message.calls.map (·.id) := by
  constructor
  · rintro ⟨earlier, assistant, tools, hsplit, -, htools, hid⟩
    rcases concat_split.mp hsplit with ⟨-, rfl, -⟩ | ⟨start, rfl, -⟩
    · exact hid
    · exact absurd (htools message (by simp)) (by simp [h])
  · intro hid
    exact ⟨messages, message, [], rfl, h, by simp, hid⟩

theorem openCall_tool (h : message.role = .tool) : OpenCall (messages ++ [message]) id ↔ OpenCall messages id := by
  constructor
  · rintro ⟨earlier, assistant, tools, hsplit, hassistant, htools, hid⟩
    rcases concat_split.mp hsplit with ⟨-, rfl, -⟩ | ⟨start, rfl, hstart⟩
    · exact absurd hassistant (by simp [h])
    · exact ⟨earlier, assistant, start, hstart, hassistant, fun tool htool => htools tool (by simp [htool]), hid⟩
  · rintro ⟨earlier, assistant, tools, rfl, hassistant, htools, hid⟩
    refine ⟨earlier, assistant, tools ++ [message], by simp, hassistant, fun tool htool => ?_, hid⟩
    rcases List.mem_append.mp htool with hearlier | hlast
    · exact htools tool hearlier
    · rw [List.mem_singleton.mp hlast, h]

theorem not_openCall_other (hassistant : message.role ≠ .assistant) (htool : message.role ≠ .tool) :
    ¬OpenCall (messages ++ [message]) id := by
  rintro ⟨earlier, assistant, tools, hsplit, hrole, htools, -⟩
  rcases concat_split.mp hsplit with ⟨-, rfl, -⟩ | ⟨start, rfl, -⟩
  · exact hassistant hrole
  · exact htool (htools message (by simp))

theorem paired_append : Paired (messages ++ [message]) ↔ Paired messages ∧ AnswersOpen messages message := by
  constructor
  · intro h
    refine ⟨fun before inner after hsplit => ?_, h messages message [] rfl⟩
    exact h before inner (after ++ [message]) (by rw [hsplit]; simp)
  · rintro ⟨hmessages, hmessage⟩ before inner after hsplit
    rcases concat_split.mp hsplit with ⟨rfl, rfl, -⟩ | ⟨start, -, hstart⟩
    · exact hmessage
    · exact hmessages before inner start hstart

theorem paired_append_of_ne (h : message.role ≠ .tool) : Paired (messages ++ [message]) ↔ Paired messages := by
  rw [paired_append]
  exact and_iff_left fun htool => absurd htool h

/-! ## The calls that are open at an item -/

/-- What the items so far say about the calls a result may answer: the calls that are buffered, whether the last message
is one of the assistant, the calls that are open, and those that have been seen. -/
structure Exchange where
  pending : List Text := []
  attached : Bool := false
  opened : List Text := []
  seen : List Text := []
deriving DecidableEq

namespace Exchange

/-- Buffered calls join the calls of an assistant message at the end, or are the only open ones. -/
def flush (e : Exchange) : Exchange :=
  if e.pending.isEmpty then e
  else { e with opened := (if e.attached then e.opened else []) ++ e.pending, attached := true, pending := [] }

def step (e : Exchange) : HistoryItem → Exchange
  | .skipped | .reasoning _ => e
  | .silent => e.flush
  | .call call => { e with pending := e.pending ++ [call.id], seen := call.id :: e.seen }
  | .output callId _ =>
    if callId ∈ e.seen then { e.flush with attached := false } else { e.flush with opened := [], attached := false }
  | .message role _ => { e.flush with opened := [], attached := role == .assistant }

/-- The item is no message of a tool, and a result only if its call is open or has not been seen at all. -/
def Allows (e : Exchange) : HistoryItem → Prop
  | .output callId _ => callId ∈ e.seen → callId ∈ e.flush.opened
  | .message role _ => role ≠ .tool
  | _ => True

/-- Every result comes while its call is open. -/
def InTurn (e : Exchange) : List HistoryItem → Prop
  | [] => True
  | item :: items => e.Allows item ∧ (e.step item).InTurn items

end Exchange

/-! ## The converter keeps to them -/

namespace History

variable {s : History} {e : Exchange}

structure Follows (s : History) (e : Exchange) : Prop where
  pending : s.pendingToolCalls.map (·.id) = e.pending
  attached : s.lastAssistant.isSome = e.attached
  opened : ∀ id, OpenCall s.messages id ↔ id ∈ e.opened
  seen : s.seenToolCallIds = e.seen

theorem paired_replaceLast {last : ChatMessage} (h : s.lastAssistant = some last) (hrole : message.role = .assistant) :
    Paired (s.replaceLast message).messages ↔ Paired s.messages := by
  obtain ⟨hlast, hmessages⟩ := lastAssistant_eq_some h
  conv_rhs => rw [hmessages]
  rw [replaceLast, paired_append_of_ne (by simp [hrole]), paired_append_of_ne (by simp [hlast])]

theorem follows_flush (h : s.Follows e) : s.flushToolCalls.Follows e.flush := by
  cases hpending : s.pendingToolCalls with
  | nil =>
    have hempty : e.pending = [] := by rw [← h.pending, hpending]; rfl
    rw [flushToolCalls, hpending, Exchange.flush, hempty]
    exact h
  | cons call calls =>
    have hids : e.pending = (call :: calls).map (·.id) := by rw [← h.pending, hpending]
    have hflush : e.flush = { e with opened := (if e.attached then e.opened else []) ++ e.pending
                                     attached := true
                                     pending := [] } := by rw [Exchange.flush, hids]; rfl
    rw [flushToolCalls, hpending, hflush]
    cases hlast : s.lastAssistant with
    | some last =>
      have hattached : e.attached = true := by rw [← h.attached, hlast]; rfl
      obtain ⟨hrole, hmessages⟩ := lastAssistant_eq_some hlast
      have hmerged : (last.mergeToolCalls (call :: calls)).role = .assistant := by
        rw [role_mergeToolCalls, hrole]
      refine ⟨rfl, ?_, fun id => ?_, h.seen⟩
      · exact (lastAssistant_push { s with messages := s.messages.dropLast } _).trans (by simp [hmerged])
      · have hopened := h.opened id
        rw [hmessages, openCall_assistant hrole] at hopened
        simp only [List.isEmpty_cons, Bool.false_eq_true, if_false]
        rw [replaceLast, openCall_assistant hmerged, calls_mergeToolCalls, mem_foldl_addCall, hopened, hattached,
          if_pos rfl, List.mem_append, hids]
    | none =>
      have hattached : e.attached = false := by rw [← h.attached, hlast]; rfl
      refine ⟨rfl, lastAssistant_push _ _, fun id => ?_, h.seen⟩
      simp only [List.isEmpty_cons, Bool.false_eq_true, if_false]
      rw [push, openCall_assistant rfl, hattached, if_neg Bool.false_ne_true, List.nil_append, hids]
      rfl

theorem paired_flushToolCalls : Paired s.flushToolCalls.messages ↔ Paired s.messages := by
  rw [flushToolCalls]
  split
  · rfl
  · split
    · rename_i last hlast
      exact paired_replaceLast hlast (by rw [role_mergeToolCalls, (lastAssistant_eq_some hlast).1])
    · exact paired_append_of_ne (by simp)

theorem paired_flushReasoning : Paired s.flushReasoning.messages ↔ Paired s.messages := by
  rw [flushReasoning]
  split
  · rfl
  · dsimp only
    split
    · rename_i last hlast
      exact paired_replaceLast hlast (by rw [role_appendReasoning, (lastAssistant_eq_some hlast).1])
    · exact paired_append_of_ne (by simp)

theorem follows_push {before : History} (h : s.Follows e) (hcalls : before.pendingToolCalls = s.pendingToolCalls)
    (hseen : before.seenToolCallIds = s.seenToolCallIds) (hnone : message.calls = []) (htool : message.role ≠ .tool) :
    (before.push message).Follows { e with opened := [], attached := message.role == .assistant } := by
  refine ⟨by rw [← h.pending, ← hcalls]; rfl, lastAssistant_push before message, fun id => ?_, ?_⟩
  · rw [push]
    by_cases hrole : message.role = .assistant
    · simp [openCall_assistant hrole, hnone]
    · simpa using not_openCall_other hrole htool
  · rw [← h.seen, ← hseen]
    rfl

theorem paired_addMessage (s : History) (role : ChatRole) (content : Value) :
    Paired (s.addMessage role content).messages ↔ Paired s.messages ∧ role ≠ .tool := by
  have htool : ∀ {before : History} {message : ChatMessage}, message.toolCallId = none →
      (Paired (before.push message).messages ↔ Paired before.messages ∧ message.role ≠ .tool) := by
    intro before message hnone
    rw [push, paired_append]
    refine and_congr_right fun _ => ⟨fun hanswers hrole => ?_, fun hne hrole => absurd hrole hne⟩
    obtain ⟨id, hid, -⟩ := hanswers hrole
    simp [hnone] at hid
  by_cases hassistant : role = .assistant
  · subst hassistant
    rw [addMessage_assistant]
    exact (htool rfl).trans (and_congr_left fun _ => paired_flushToolCalls)
  · rw [addMessage_other s hassistant, htool rfl, paired_flushReasoning, paired_flushToolCalls]

theorem follows_addMessage (h : s.Follows e) {role : ChatRole} (hrole : role ≠ .tool) (content : Value) :
    (s.addMessage role content).Follows { e.flush with opened := [], attached := role == .assistant } := by
  have hflush := follows_flush h
  by_cases hassistant : role = .assistant
  · subst hassistant
    have hnone : ChatMessage.calls
        { role := .assistant, content := content, reasoningContent := s.flushToolCalls.reasoningText } = [] := rfl
    have hpush := follows_push hflush rfl rfl hnone hrole
    rw [addMessage_assistant]
    exact ⟨hpush.pending, hpush.attached, hpush.opened, hpush.seen⟩
  · have hframe := s.flushToolCalls.flushReasoning_frame
    rw [addMessage_other s hassistant]
    exact follows_push hflush hframe.1 hframe.2 rfl hrole

variable [SerdeJson]

theorem paired_addOutput (s : History) (callId : Text) (output : Value) :
    Paired (s.addOutput callId output).messages ↔
      Paired s.messages ∧ (callId ∈ s.seenToolCallIds → OpenCall s.flushToolCalls.messages callId) := by
  rw [addOutput]
  by_cases hseen : callId ∈ s.seenToolCallIds
  · rw [if_neg (not_not.mpr hseen), push, paired_append, paired_flushToolCalls]
    refine and_congr_right fun _ => ⟨fun hanswers _ => ?_, fun hopen _ => ⟨callId, rfl, hopen hseen⟩⟩
    obtain ⟨id, hid, hopen⟩ := hanswers rfl
    obtain rfl := Option.some.inj hid
    exact hopen
  · rw [if_pos hseen, push, paired_append_of_ne (by simp [orphanToolOutputMessage]), paired_flushReasoning,
      paired_flushToolCalls]
    exact (and_iff_left fun h => absurd h hseen).symm

theorem follows_addOutput (h : s.Follows e) (callId : Text) (output : Value) :
    (s.addOutput callId output).Follows (e.step (.output callId output)) := by
  have hflush := follows_flush h
  rw [addOutput, Exchange.step, ← h.seen]
  by_cases hseen : callId ∈ s.seenToolCallIds
  · rw [if_neg (not_not.mpr hseen), if_pos hseen]
    refine ⟨hflush.pending, lastAssistant_push _ _, fun id => ?_, hflush.seen⟩
    rw [push, openCall_tool rfl]
    exact hflush.opened id
  · rw [if_pos hseen, if_neg hseen]
    have hframe := s.flushToolCalls.flushReasoning_frame
    exact follows_push hflush hframe.1 hframe.2 rfl (by simp [orphanToolOutputMessage])

theorem paired_step (s : History) (item : HistoryItem) :
    Paired (s.step item).messages ↔
      Paired s.messages ∧
        match item with
        | .output callId _ => callId ∈ s.seenToolCallIds → OpenCall s.flushToolCalls.messages callId
        | .message role _ => role ≠ .tool
        | _ => True := by
  cases item with
  | skipped => exact (and_iff_left trivial).symm
  | silent => exact paired_flushToolCalls.trans (and_iff_left trivial).symm
  | call call => exact (and_iff_left trivial).symm
  | output callId output => exact paired_addOutput s callId output
  | reasoning text =>
    rw [step, addReasoning]
    split <;> exact (and_iff_left trivial).symm
  | message role content => exact paired_addMessage s role content

theorem paired_step_iff (h : s.Follows e) (item : HistoryItem) :
    Paired (s.step item).messages ↔ Paired s.messages ∧ e.Allows item := by
  rw [paired_step]
  cases item with
  | output callId output =>
    dsimp only
    rw [Exchange.Allows, ← h.seen, (follows_flush h).opened]
  | _ => rfl

theorem follows_step (h : s.Follows e) {item : HistoryItem} (hallows : e.Allows item) :
    (s.step item).Follows (e.step item) := by
  cases item with
  | skipped => exact h
  | silent => exact follows_flush h
  | call call =>
    refine ⟨?_, h.attached, h.opened, congrArg (call.id :: ·) h.seen⟩
    simp [step, addCall, Exchange.step, h.pending]
  | output callId output => exact follows_addOutput h callId output
  | reasoning text =>
    rw [step, addReasoning]
    split
    · exact h
    · exact ⟨h.pending, h.attached, h.opened, h.seen⟩
  | message role content => exact follows_addMessage h hallows content

theorem paired_of_run (items : List HistoryItem) (h : Paired (items.foldl step s).messages) : Paired s.messages := by
  induction items generalizing s with
  | nil => exact h
  | cons item items ih => exact ((paired_step s item).mp (ih h)).1

theorem paired_run_iff (h : s.Follows e) (items : List HistoryItem) :
    Paired (items.foldl step s).messages ↔ Paired s.messages ∧ e.InTurn items := by
  induction items generalizing s e with
  | nil => exact (and_iff_left trivial).symm
  | cons item items ih =>
    by_cases hallows : e.Allows item
    · rw [List.foldl_cons, ih (follows_step h hallows), paired_step_iff h, Exchange.InTurn]
      tauto
    · refine iff_of_false (fun hpaired => ?_) fun hturn => hallows hturn.2.1
      exact hallows ((paired_step_iff h item).mp (paired_of_run items hpaired)).2

end History

theorem instructionMessages_cases (body : Value) :
    instructionMessages body = [] ∨ ∃ text, instructionMessages body = [{ role := .system, content := .string text }] := by
  rw [instructionMessages]
  split
  · exact .inl rfl
  · rename_i instructions _
    dsimp only
    split
    · exact .inl rfl
    · exact .inr ⟨_, rfl⟩

theorem follows_start (body : Value) :
    History.Follows { messages := instructionMessages body } {} ∧ Paired (instructionMessages body) := by
  have hnil : Paired [] := fun before message after hsplit => by simp at hsplit
  rcases instructionMessages_cases body with hmessages | ⟨text, hmessages⟩
  · rw [hmessages]
    refine ⟨⟨rfl, rfl, fun id => iff_of_false ?_ (by simp), rfl⟩, hnil⟩
    rintro ⟨earlier, assistant, tools, hsplit, -⟩
    simp at hsplit
  · rw [hmessages]
    refine ⟨⟨rfl, rfl, fun id => iff_of_false ?_ (by simp), rfl⟩, ?_⟩
    · exact @not_openCall_other [] _ id (by simp) (by simp)
    · exact (@paired_append_of_ne [] _ (by simp)).mpr hnil

/-- The tool messages of a request are paired exactly if every result comes while its call is open. -/
theorem paired_appendResponsesInput_iff [SerdeJson] (body : Value) (items : List Value) :
    Paired (appendResponsesInput (instructionMessages body) (.array items)) ↔
      Exchange.InTurn {} (items.map readItem) := by
  obtain ⟨hfollows, hpaired⟩ := follows_start body
  rw [appendResponsesInput_array, convert, History.paired_flushReasoning, History.paired_flushToolCalls,
    History.paired_run_iff hfollows]
  exact and_iff_right hpaired

/-- A call, a word of the user, and the result. -/
def interruptedExchange : List Value :=
  [.object [("type", .ofStr "function_call"), ("call_id", .ofStr "c"), ("name", .ofStr "f"), ("arguments", .ofStr "\x7b\x7d")],
    .object [("type", .ofStr "message"), ("role", .ofStr "user"), ("content", .ofStr "wait")],
    .object [("type", .ofStr "function_call_output"), ("call_id", .ofStr "c"), ("output", .ofStr "done")]]

abbrev emptyObjectJson : SerdeJson := printing (.object []) "\x7b\x7d".toList

/-- The message of the user stands between the call and its result. -/
theorem not_paired_interruptedExchange :
    (@appendResponsesInput emptyObjectJson [] (.array interruptedExchange)).map (·.role) = [.assistant, .user, .tool] ∧
      ¬Paired (@appendResponsesInput emptyObjectJson [] (.array interruptedExchange)) := by
  have hroles : (@appendResponsesInput emptyObjectJson [] (.array interruptedExchange)).map (·.role) =
      [.assistant, .user, .tool] := by decide +kernel
  refine ⟨hroles, fun hpaired => ?_⟩
  generalize @appendResponsesInput emptyObjectJson [] (.array interruptedExchange) = messages at hroles hpaired
  obtain ⟨call, rest, rfl, -, hrest⟩ := List.map_eq_cons_iff.mp hroles
  obtain ⟨word, rest, rfl, hword, hlast⟩ := List.map_eq_cons_iff.mp hrest
  obtain ⟨result, rest, rfl, hresult, -⟩ := List.map_eq_cons_iff.mp hlast
  obtain ⟨id, -, hopen⟩ := hpaired [call, word] result rest rfl hresult
  exact @not_openCall_other [call] word id (by simp [hword]) (by simp [hword]) hopen

end Lumio.Proxy
