import Lumio.Proxy.Converter
import Lumio.Proxy.Frame

/-!
# The end of a stream

A stream should start with the created event and end with its only terminal event. The converter keeps to this as long
as no error arrives before the first chunk, and nothing but silent chunks arrives after the first terminal event.
-/

namespace Lumio.Proxy

/-- The stream starts with the created event, and its only terminal event is its last one. -/
structure OneTerminal (events : List Event) : Prop where
  starts : ∃ response rest, events = .created response :: rest
  ends : ∃ (pre : List Event) (last : Event), events = pre ++ [last] ∧ last.isTerminal = true ∧ ∀ e ∈ pre, e.isTerminal = false

/-! ## Silent chunks -/

/-- The tool call neither announces its item nor adds to its arguments. -/
def SilentCall (s : ChatSseState) (delta : ToolCallDelta) : Prop :=
  let state := (s.toolState delta.chatIndex).merge delta
  if state.added then delta.arguments = [] else state.callId = [] ∧ state.name = []

/-- The chunk carries no reasoning, no content and no fragment of a tool call, and finds nothing to be finished. -/
def Silent (s : ChatSseState) (chunk : Value) : Prop :=
  ∀ delta, (firstChoice chunk).bind (·.get "delta") = some delta →
    extractReasoningFieldText delta = none ∧ delta.nonEmptyStr "content" = none ∧
      ∀ toolCalls, (delta.get "tool_calls").bind Value.asArray = some toolCalls →
        s.inlineThink.buffer = [] ∧ (s.reasoning.added && !s.reasoning.done) = false ∧
          ∀ toolCall ∈ toolCalls, SilentCall s (.ofValue toolCall)

section Silent

variable {s : ChatSseState}

theorem flush_silent (h : s.inlineThink.buffer = []) :
    flushInlineThinkAtBoundary s = (s.withThink .text [], []) := by
  unfold flushInlineThinkAtBoundary
  split
  · rename_i hmode
    have hthink : s.inlineThink = ⟨.text, []⟩ := by
      rw [← hmode, ← h]
    unfold ChatSseState.withThink
    rw [← hthink]
  · rw [h]
    rfl
  · rw [h]
    rfl

theorem applyToolCallDelta_silent {delta : ToolCallDelta} (h : SilentCall s delta) :
    applyToolCallDelta delta s = (mergeToolCallDelta delta s, []) := by
  have hstate : (mergeToolCallDelta delta s).toolState delta.chatIndex = (s.toolState delta.chatIndex).merge delta :=
    toolState_setTool _ _
  have htell : tellToolCallDelta delta (mergeToolCallDelta delta s) = (mergeToolCallDelta delta s, []) := by
    unfold SilentCall at h
    dsimp only at h
    unfold tellToolCallDelta
    simp only [hstate]
    split at h
    · rename_i hadded
      rw [if_neg (by simp [hadded])]
      simp [pushToolArguments, pushSse, h]
    · rename_i hadded
      rw [if_neg (by simp [h.1, h.2])]
      simp [pushToolArguments, pushSse, hstate, hadded]
  simp [applyToolCallDelta, htell]

theorem SilentCall.merge {delta other : ToolCallDelta} (h : SilentCall s delta) (hother : SilentCall s other) :
    SilentCall (mergeToolCallDelta delta s) other := by
  by_cases heq : other.chatIndex = delta.chatIndex
  · unfold SilentCall at h hother ⊢
    dsimp only at h hother ⊢
    rw [mergeToolCallDelta, heq, toolState_setTool]
    rw [heq] at hother
    cases hadded : (s.toolState delta.chatIndex).added with
    | true => simpa [ToolCallState.merge, hadded] using hother
    | false =>
      simp only [ToolCallState.merge, hadded, Bool.false_eq_true, if_false] at h hother ⊢
      constructor
      · cases hid : other.id with
        | none => exact h.1
        | some id => simpa [hid] using hother.1
      · cases hname : other.name.filter (!·.isEmpty) with
        | none => exact h.2
        | some name => simpa [hname] using hother.2
  · unfold SilentCall
    rw [mergeToolCallDelta, toolState_setTool_of_ne heq]
    exact hother

theorem pushToolCalls_silent {toolCalls : List Value} (h : ∀ toolCall ∈ toolCalls, SilentCall s (.ofValue toolCall)) :
    (Emit.each pushToolCallDelta toolCalls s).2 = [] := by
  induction toolCalls generalizing s with
  | nil => rfl
  | cons toolCall toolCalls ih =>
    have hfirst := h toolCall (by simp)
    rw [Emit.each_cons, Emit.seq_apply, pushToolCallDelta, applyToolCallDelta_silent hfirst]
    exact ih fun other hother => hfirst.merge (h other (by simp [hother]))

theorem handleDelta_silent {delta : Value} (hreasoning : extractReasoningFieldText delta = none)
    (hcontent : delta.nonEmptyStr "content" = none)
    (htools : ∀ toolCalls, (delta.get "tool_calls").bind Value.asArray = some toolCalls →
      s.inlineThink.buffer = [] ∧ (s.reasoning.added && !s.reasoning.done) = false ∧
        ∀ toolCall ∈ toolCalls, SilentCall s (.ofValue toolCall)) : (handleDelta delta s).2 = [] := by
  simp only [handleDelta, hreasoning, hcontent, Emit.all_cons, Emit.seq_apply, Emit.forSome_none, Emit.skip_apply,
    Emit.all_nil, List.nil_append, List.append_nil]
  cases heq : (delta.get "tool_calls").bind Value.asArray with
  | none => rfl
  | some toolCalls =>
    obtain ⟨hbuffer, hopen, hcalls⟩ := htools toolCalls heq
    have hfinalize : finalizeReasoning (s.withThink .text []) = (s.withThink .text [], []) :=
      Emit.onlyIf_of_false (s := s.withThink .text []) hopen finishReasoning
    simp only [Emit.forSome_some, pushToolCalls, Emit.all_cons, Emit.seq_apply, flush_silent hbuffer, hfinalize,
      Emit.all_nil, List.nil_append, List.append_nil]
    exact pushToolCalls_silent (s := s.withThink .text []) hcalls

theorem ensureResponseStarted_of_started (h : s.responseStarted = true) : ensureResponseStarted s = (s, []) :=
  Emit.onlyIf_of_false (by simp [h]) _

theorem handleChatChunk_silent {chunk : Value} (hstarted : s.responseStarted = true) (h : Silent s chunk) :
    (handleChatChunk chunk s).2 = [] := by
  have hheader : ensureResponseStarted (readChunkHeader chunk s) = (readChunkHeader chunk s, []) :=
    ensureResponseStarted_of_started hstarted
  rw [handleChatChunk_eq, Emit.seq_apply, hheader]
  simp only [chunkBody, Emit.all_cons, Emit.seq_apply, Emit.update_apply, Emit.all_nil, List.nil_append, List.append_nil]
  cases hchoice : firstChoice chunk with
  | none => rfl
  | some choice =>
    simp only [Emit.forSome_some, handleChoice, Emit.all_cons, Emit.seq_apply, Emit.update_apply, Emit.all_nil,
      List.append_nil]
    cases hdelta : choice.get "delta" with
    | none => rfl
    | some delta =>
      obtain ⟨hreasoning, hcontent, htools⟩ := h delta (by rw [hchoice]; exact hdelta)
      have hread : (handleDelta delta (readUsage chunk (readChunkHeader chunk s))).2 = [] := by
        unfold readUsage
        split
        · exact handleDelta_silent hreasoning hcontent htools
        · exact handleDelta_silent hreasoning hcontent htools
      simp only [Emit.forSome_some, hread]

end Silent

/-! ## The phases of a stream -/

inductive Phase (s : ChatSseState) (events : List Event) : Prop where
  | fresh (unstarted : s.responseStarted = false) (incomplete : s.completed = false) (silent : events = [])
  | running (started : s.responseStarted = true) (incomplete : s.completed = false) {response : Response}
      {rest : List Event} (events_eq : events = .created response :: rest) (plain : ∀ e ∈ rest, e.isTerminal = false)
  | ended (started : s.responseStarted = true) (completed : s.completed = true) (one : OneTerminal events)

def Running (s : ChatSseState) (events : List Event) : Prop :=
  s.responseStarted = true ∧ s.completed = false ∧
    ∃ response rest, events = .created response :: rest ∧ ∀ e ∈ rest, e.isTerminal = false

section Phase

variable {s : ChatSseState} {events : List Event}

theorem Running.phase (h : Running s events) : Phase s events := by
  obtain ⟨hstarted, hopen, response, rest, hevents, hplain⟩ := h
  exact .running hstarted hopen hevents hplain

theorem Running.not_terminal (h : Running s events) : ∀ e ∈ events, e.isTerminal = false := by
  obtain ⟨-, -, response, rest, rfl, hplain⟩ := h
  intro e he
  rcases List.mem_cons.mp he with rfl | he
  · rfl
  · exact hplain e he

theorem isTerminal_of_isPlain {output : List Sse} (h : output.all Sse.isPlain = true) :
    ∀ e ∈ eventsOf output, e.isTerminal = false := by
  intro e he
  obtain ⟨sse, hmem, hevent⟩ := List.mem_filterMap.mp he
  cases sse with
  | doneMarker => cases hevent
  | event e' =>
    cases hevent
    have hplain := List.all_eq_true.mp h _ hmem
    simp only [Sse.isPlain, Bool.and_eq_true, Bool.not_eq_true'] at hplain
    exact hplain.1

theorem Running.append {t : ChatSseState} {more : List Event} (h : Running s events) (hfixed : t.fixed = s.fixed)
    (hmore : ∀ e ∈ more, e.isTerminal = false) : Running t (events ++ more) := by
  obtain ⟨hstarted, hopen, response, rest, rfl, hplain⟩ := h
  have hst : t.responseStarted = s.responseStarted := congrArg Prod.fst hfixed
  have hco : t.completed = s.completed := congrArg (fun fixed => fixed.2.1) hfixed
  refine ⟨hst.trans hstarted, hco.trans hopen, response, rest ++ more, rfl, fun e he => ?_⟩
  rcases List.mem_append.mp he with he | he
  · exact hplain e he
  · exact hmore e he

theorem Running.step {f : Step} (hf : Tame f) (h : Running s events) :
    Running (f s).1 (events ++ eventsOf (f s).2) :=
  h.append (hf.fixed s) (isTerminal_of_isPlain (hf.plain s))

theorem Running.oneTerminal {last : Event} (h : Running s events) (hlast : last.isTerminal = true) :
    OneTerminal (events ++ [last]) := by
  refine ⟨?_, events, last, rfl, hlast, h.not_terminal⟩
  obtain ⟨-, -, response, rest, rfl, -⟩ := h
  exact ⟨response, rest ++ [last], rfl⟩

theorem Phase.ensureResponseStarted (h : Phase s events) (hopen : s.completed = false) :
    Running (ensureResponseStarted s).1 (events ++ eventsOf (ensureResponseStarted s).2) := by
  cases h with
  | fresh hunstarted _ hsilent =>
    subst hsilent
    have hstart : Proxy.ensureResponseStarted s = _ := Emit.onlyIf_of_true (by simp [hunstarted]) _
    rw [hstart]
    refine ⟨rfl, hopen, _, _, rfl, fun e he => ?_⟩
    cases List.mem_singleton.mp he
    rfl
  | running hstarted _ hevents hplain =>
    rw [ensureResponseStarted_of_started hstarted, eventsOf_nil, List.append_nil]
    exact ⟨hstarted, hopen, _, _, hevents, hplain⟩
  | ended _ hcompleted _ => rw [hopen] at hcompleted; cases hcompleted

theorem Phase.started (h : Phase s events) (hcompleted : s.completed = true) : s.responseStarted = true := by
  cases h with
  | fresh _ hopen _ => rw [hopen] at hcompleted; cases hcompleted
  | running hstarted => exact hstarted
  | ended hstarted => exact hstarted

theorem Phase.oneTerminal (h : Phase s events) (hcompleted : s.completed = true) : OneTerminal events := by
  cases h with
  | fresh _ hopen _ => rw [hopen] at hcompleted; cases hcompleted
  | running _ hopen => rw [hopen] at hcompleted; cases hcompleted
  | ended _ _ hone => exact hone

theorem Phase.handleChatChunk {chunk : Value} (h : Phase s events) (hmeets : s.completed = true → Silent s chunk) :
    Phase (handleChatChunk chunk s).1 (events ++ eventsOf (handleChatChunk chunk s).2) := by
  cases hcompleted : s.completed with
  | true =>
    have hstarted := h.started hcompleted
    have hkeeps := (chunkBody_tame chunk).fixed (readChunkHeader chunk s)
    have hstep : (Proxy.handleChatChunk chunk s).1 = (chunkBody chunk (readChunkHeader chunk s)).1 := by
      rw [handleChatChunk_eq, Emit.seq_apply]
      rw [ensureResponseStarted_of_started (s := readChunkHeader chunk s) hstarted]
    rw [handleChatChunk_silent hstarted (hmeets hcompleted), eventsOf_nil, List.append_nil, hstep]
    have hst := congrArg Prod.fst hkeeps
    have hco := congrArg (fun fixed => fixed.2.1) hkeeps
    exact .ended (hst.trans hstarted) (hco.trans hcompleted) (h.oneTerminal hcompleted)
  | false =>
    have hheader : Phase (readChunkHeader chunk s) events := by
      cases h with
      | fresh hunstarted hopen hsilent => exact .fresh hunstarted hopen hsilent
      | running hstarted hopen hevents hplain => exact .running hstarted hopen hevents hplain
      | ended hstarted hclosed hone => exact .ended hstarted hclosed hone
    have hrun := (hheader.ensureResponseStarted hcompleted).step (chunkBody_tame chunk)
    rw [handleChatChunk_eq, Emit.seq_apply, eventsOf_append, ← List.append_assoc]
    exact hrun.phase

section Ends

variable [SerdeJson]

theorem Phase.finalize (h : Phase s events) :
    Phase (finalize s).1 (events ++ eventsOf (finalize s).2) ∧ (finalize s).1.completed = true := by
  cases hcompleted : s.completed with
  | true =>
    rw [finalize_of_completed hcompleted, eventsOf_nil, List.append_nil]
    exact ⟨h, hcompleted⟩
  | false =>
    have hrun := (h.ensureResponseStarted hcompleted).step closeItems_tame
    rw [finalize_of_open hcompleted]
    simp only [Emit.all_cons, Emit.seq_apply, Emit.all_nil, eventsOf_append, List.append_nil, ← List.append_assoc]
    exact ⟨.ended hrun.1 rfl (hrun.oneTerminal rfl), rfl⟩

omit [SerdeJson] in
theorem Phase.failed (h : Phase s events) (hstarted : s.responseStarted = true) (hopen : s.completed = false)
    (message : Text) (errorType : Option Text) :
    Phase (failed message errorType s).1 (events ++ eventsOf (failed message errorType s).2) := by
  have hrun := h.ensureResponseStarted hopen
  rw [ensureResponseStarted_of_started hstarted, eventsOf_nil, List.append_nil] at hrun
  exact .ended hstarted rfl (hrun.oneTerminal rfl)

end Ends

end Phase

/-! ## Runs -/

/-- The block is one that the converter can take in the state: no error before the response is started, and after its
end neither an error nor a chunk that writes something. -/
def Meets (s : ChatSseState) : Block → Prop
  | .ignored | .done => True
  | .error .. => s.responseStarted = true ∧ s.completed = false
  | .chunk chunk => s.completed = true → Silent s chunk

/-- How a stream is closed: after its last bytes, or with an error of the connection. -/
inductive Ending where
  | finish
  | fail (message : Text) (errorType : Option Text)

def Ending.Meets (s : ChatSseState) : Ending → Prop
  | finish => True
  | fail .. => s.responseStarted = true ∧ s.completed = false

namespace ChatSseToResponsesConverter

variable [SerdeJson]

def drainTrace : Nat → ChatSseToResponsesConverter → List (ChatSseState × Block)
  | 0, _ => []
  | fuel + 1, c =>
    match takeSseBlock c.buffer with
    | none => []
    | some (block, rest) =>
      let c := { c with buffer := rest }
      if (Text.trim block).isEmpty then drainTrace fuel c
      else
        (c.state, readBlock block) ::
          if (handleBlock block c).1.failed then [] else drainTrace fuel (handleBlock block c).1

def pushTrace (bytes : List UInt8) (c : ChatSseToResponsesConverter) : List (ChatSseState × Block) :=
  drainTrace (c.append bytes).buffer.length (c.append bytes)

def pushAllTrace : List (List UInt8) → ChatSseToResponsesConverter → List (ChatSseState × Block)
  | [], _ => []
  | bytes :: pieces, c => pushTrace bytes c ++ pushAllTrace pieces (pushBytes bytes c).1

def close : Ending → ChatSseToResponsesConverter → ChatSseToResponsesConverter × List Sse
  | .finish => finish
  | .fail message errorType => fail message errorType

structure InPhase (c : ChatSseToResponsesConverter) (events : List Event) : Prop where
  phase : Phase c.state events
  failed : c.failed = true → c.state.completed = true

variable {c : ChatSseToResponsesConverter} {events : List Event}

theorem InPhase.handleBlock {block : Text} (h : InPhase c events) (hmeets : Meets c.state (readBlock block)) :
    InPhase (handleBlock block c).1 (events ++ eventsOf (handleBlock block c).2) := by
  unfold ChatSseToResponsesConverter.handleBlock
  cases hblock : readBlock block with
  | ignored => simpa using h
  | done => exact ⟨h.phase.finalize.1, fun _ => h.phase.finalize.2⟩
  | error message errorType =>
    rw [hblock] at hmeets
    exact ⟨h.phase.failed hmeets.1 hmeets.2 message errorType, fun _ => rfl⟩
  | chunk chunk =>
    rw [hblock] at hmeets
    refine ⟨h.phase.handleChatChunk hmeets, fun hfailed => ?_⟩
    exact (handleChatChunk_completed chunk c.state).trans (h.failed hfailed)

theorem InPhase.drain {fuel : Nat} (h : InPhase c events)
    (hmeets : ∀ entry ∈ drainTrace fuel c, Meets entry.1 entry.2) :
    InPhase (drain fuel c).1 (events ++ eventsOf (drain fuel c).2) := by
  induction fuel generalizing c events with
  | zero => simpa [ChatSseToResponsesConverter.drain] using h
  | succ fuel ih =>
    unfold drainTrace at hmeets
    unfold ChatSseToResponsesConverter.drain
    cases hblock : takeSseBlock c.buffer with
    | none => simpa using h
    | some found =>
      obtain ⟨block, rest⟩ := found
      have hcut : InPhase { c with buffer := rest } events := ⟨h.phase, h.failed⟩
      simp only [hblock] at hmeets ⊢
      split
      · rename_i hblank
        rw [if_pos hblank] at hmeets
        exact ih hcut hmeets
      · rename_i hblank
        rw [if_neg hblank] at hmeets
        have hnext := hcut.handleBlock (hmeets (c.state, readBlock block) List.mem_cons_self)
        split
        · exact hnext
        · rename_i hfailed
          rw [if_neg hfailed] at hmeets
          rw [eventsOf_append, ← List.append_assoc]
          exact ih hnext fun entry hentry => hmeets entry (List.mem_cons_of_mem _ hentry)

theorem InPhase.pushBytes {bytes : List UInt8} (h : InPhase c events)
    (hmeets : ∀ entry ∈ pushTrace bytes c, Meets entry.1 entry.2) :
    InPhase (pushBytes bytes c).1 (events ++ eventsOf (pushBytes bytes c).2) :=
  InPhase.drain (c := c.append bytes) ⟨h.phase, h.failed⟩ hmeets

theorem InPhase.pushAll {pieces : List (List UInt8)} (h : InPhase c events)
    (hmeets : ∀ entry ∈ pushAllTrace pieces c, Meets entry.1 entry.2) :
    InPhase (pushAll pieces c).1 (events ++ eventsOf (pushAll pieces c).2) := by
  induction pieces generalizing c events with
  | nil => simpa [ChatSseToResponsesConverter.pushAll] using h
  | cons bytes pieces ih =>
    have hnext := h.pushBytes fun entry hentry => hmeets entry (List.mem_append_left _ hentry)
    have hrest := ih hnext fun entry hentry => hmeets entry (List.mem_append_right _ hentry)
    rw [List.append_assoc, ← eventsOf_append] at hrest
    exact hrest

theorem finish_output (c : ChatSseToResponsesConverter) :
    (finish c).2 = if c.failed then [] else (finalize c.state).2 := by
  unfold finish
  cases c.utf8Remainder.isEmpty <;> cases hfailed : c.failed <;> simp [hfailed, run]

theorem InPhase.close {ending : Ending} (h : InPhase c events) (hmeets : ending.Meets c.state) :
    OneTerminal (events ++ eventsOf (close ending c).2) := by
  cases ending with
  | fail message errorType =>
    exact (h.phase.failed hmeets.1 hmeets.2 message errorType).oneTerminal rfl
  | finish =>
    rw [ChatSseToResponsesConverter.close, finish_output]
    split
    · rename_i hfailed
      rw [eventsOf_nil, List.append_nil]
      exact h.phase.oneTerminal (h.failed hfailed)
    · exact h.phase.finalize.1.oneTerminal h.phase.finalize.2

def stream (pieces : List (List UInt8)) (ending : Ending) (c : ChatSseToResponsesConverter) : List Sse :=
  (Emit.seq (pushAll pieces) (close ending) c).2

end ChatSseToResponsesConverter

open ChatSseToResponsesConverter

/-- The stream of every run has one terminal event, its last one, if no error comes before the first chunk, and neither
an error nor a chunk with something to tell comes after the first terminal event. -/
theorem one_terminal [SerdeJson] (request : Option Value) (pieces : List (List UInt8)) (ending : Ending)
    (hblocks : ∀ entry ∈ pushAllTrace pieces (.start request), Meets entry.1 entry.2)
    (hending : ending.Meets (pushAll pieces (.start request)).1.state) :
    OneTerminal (eventsOf (stream pieces ending (.start request))) := by
  have hstart : InPhase (.start request) [] := by
    cases request with
    | none => exact ⟨.fresh rfl rfl rfl, fun h => nomatch h⟩
    | some request => exact ⟨.fresh rfl rfl rfl, fun h => nomatch h⟩
  have hone := (hstart.pushAll hblocks).close hending
  rwa [List.nil_append, ← eventsOf_append] at hone

@[reducible] def sampleJson : SerdeJson where
  fromStr text :=
    if text = "\x7b\"id\":\"a\"\x7d".toList then some (.object [("id", .ofStr "a")])
    else if text = "\x7b\"error\":\"x\"\x7d".toList then some (.object [("error", .ofStr "x")])
    else none
  toText _ := []

def asciiBytes (text : String) : List UInt8 := text.toList.map fun c => c.toNat.toUInt8

def Block.isError : Block → Bool
  | .error .. => true
  | _ => false

theorem meets_of_open {s : ChatSseState} {block : Block} (hopen : s.completed = false)
    (herror : s.responseStarted = true ∨ block.isError = false) : Meets s block := by
  cases block with
  | ignored => trivial
  | done => trivial
  | error message errorType =>
    rcases herror with hstarted | herror
    · exact ⟨hstarted, hopen⟩
    · cases herror
  | chunk chunk => exact fun hcompleted => absurd hcompleted (by simp [hopen])

def samplePieces : List (List UInt8) :=
  [asciiBytes "data: \x7b\"id\"", asciiBytes ":\"a\"\x7d\n\ndata: \x7b\"error\":\"x\"\x7d\n\n"]

theorem one_terminal_of_error :
    OneTerminal (eventsOf (@stream sampleJson samplePieces .finish (.start none))) := by
  have htrace : ∀ entry ∈ @pushAllTrace sampleJson samplePieces (.start none),
      entry.1.completed = false ∧ (entry.1.responseStarted = true ∨ entry.2.isError = false) := by
    decide +kernel
  exact @one_terminal sampleJson none samplePieces .finish
    (fun entry hentry => meets_of_open (htrace entry hentry).1 (htrace entry hentry).2) trivial

/-- A connection that breaks after the end marker: the stream is completed, and then it fails. -/
theorem two_terminals_after_done :
    ¬ OneTerminal (eventsOf (@stream sampleJson [asciiBytes "data: [DONE]\n\n"]
      (.fail "Stream error: connection reset".toList (some "stream_error".toList)) (.start none))) := by
  intro h
  obtain ⟨pre, last, heq, hterminal, hplain⟩ := h.ends
  have hcount := congrArg (List.countP Event.isTerminal) heq
  have hpre : pre.countP Event.isTerminal = 0 := List.countP_eq_zero.mpr fun e he => by simp [hplain e he]
  rw [List.countP_append, hpre] at hcount
  have htwo : List.countP Event.isTerminal (eventsOf (@stream sampleJson [asciiBytes "data: [DONE]\n\n"]
      (.fail "Stream error: connection reset".toList (some "stream_error".toList)) (.start none))) = 2 := by
    decide +kernel
  rw [htwo, List.countP_singleton, if_pos hterminal] at hcount
  cases hcount

end Lumio.Proxy
