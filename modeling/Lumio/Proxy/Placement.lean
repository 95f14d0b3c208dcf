import Lumio.Lib.Boxes
import Lumio.Proxy.Pairing

/-!
# Where calls and reasoning go

The two buffers of the converter are a packing: calls and reasoning texts are put into messages as things are into
boxes, a message of the assistant being a box that is open. Every thing carries the position of its item, so one can
say which message an item ended up in.
-/

namespace Lumio.Proxy

abbrev MessageBox := Box (Option (HistoryItem × Nat)) (ChatToolCall × Nat) (Text × Nat)

structure Placement where
  packing : Packing (Option (HistoryItem × Nat)) (ChatToolCall × Nat) (Text × Nat) := {}
  seen : List Text := []

namespace Placement

/-- Places an item, which comes with its position. -/
def step (p : Placement) : HistoryItem × Nat → Placement
  | (.skipped, _) => p
  | (.silent, _) => { p with packing := p.packing.packFirsts none }
  | (.call call, i) => { packing := p.packing.addFirst (call, i), seen := call.id :: p.seen }
  | (.output callId output, i) =>
    let flushed := p.packing.packFirsts none
    { p with
      packing :=
        (if callId ∉ p.seen then flushed.packSeconds none else flushed).closedBox (some (.output callId output, i)) }
  | (.reasoning text, i) => if text.isEmpty then p else { p with packing := p.packing.addSecond (text, i) }
  | (.message role content, i) =>
    let flushed := p.packing.packFirsts none
    { p with
      packing :=
        if role = .assistant then flushed.openBox (some (.message role content, i))
        else (flushed.packSeconds none).closedBox (some (.message role content, i)) }

def run (items : List HistoryItem) : Placement := items.zipIdx.foldl step {}

end Placement

def placed (items : List HistoryItem) : List MessageBox :=
  (((Placement.run items).packing.packFirsts none).packSeconds none).boxes

/-! ## The messages are the boxes -/

def joinedText (texts : List Text) : Option Text := if texts.isEmpty then none else some (Text.join ['\n'] texts)

theorem forall₂_concat {α β : Type} {R : α → β → Prop} {xs : List α} {x : α} {ys : List β}
    (h : List.Forall₂ R (xs ++ [x]) ys) : ∃ zs z, ys = zs ++ [z] ∧ List.Forall₂ R xs zs ∧ R x z := by
  induction xs generalizing ys with
  | nil =>
    cases h with
    | cons hx hnil =>
      cases hnil
      exact ⟨[], _, rfl, .nil, hx⟩
  | cons first xs ih =>
    cases h with
    | cons hfirst hrest =>
      obtain ⟨zs, z, rfl, hzs, hz⟩ := ih hrest
      exact ⟨_ :: zs, z, rfl, .cons hfirst hzs, hz⟩

section Shows

variable [SerdeJson]

def Says : HistoryItem → ChatMessage → Prop
  | .output callId output, message =>
    message = toolOutputMessage callId output ∨ message = orphanToolOutputMessage callId output
  | .message role content, message =>
    message.role = role ∧ message.toolCallId = none ∧
      (message.content = content ∨ content.isNull = true ∧ message.content = .string [])
  | _, _ => False

def SaysLabel : Option (HistoryItem × Nat) → ChatMessage → Prop
  | none, message => message.role = .assistant ∧ message.toolCallId = none ∧ message.content = .string []
  | some (item, _), message => Says item message

/-- The message of a box: it has the calls of the box, calls of one id counting once, and its reasoning texts. -/
structure Shows (box : MessageBox) (message : ChatMessage) : Prop where
  role : message.role = .assistant ↔ box.opened = true
  ids : ∀ id, id ∈ message.calls.map (·.id) ↔ id ∈ box.firsts.map (·.1.id)
  calls : (box.firsts.map (·.1.id)).Nodup → message.calls = box.firsts.map (·.1)
  reasoning : message.reasoningContent = joinedText (box.seconds.map (·.1))
  texts : ∀ text ∈ box.seconds, text.1 ≠ []
  saying : SaysLabel box.label message

variable {box : MessageBox} {message : ChatMessage}

omit [SerdeJson] in
theorem content_withContent (message : ChatMessage) :
    message.withContent.content = message.content ∨
      message.content.isNull = true ∧ message.withContent.content = .string [] := by
  rw [ChatMessage.withContent]
  split
  · rename_i hnull
    exact .inr ⟨hnull, rfl⟩
  · exact .inl rfl

theorem saysLabel_of_open {label : Option (HistoryItem × Nat)} {before after : ChatMessage} (h : SaysLabel label before)
    (hopen : before.role = .assistant) (hrole : after.role = before.role) (hid : after.toolCallId = before.toolCallId)
    (hcontent : after.content = before.content ∨ before.content.isNull = true ∧ after.content = .string []) :
    SaysLabel label after := by
  cases label with
  | none =>
    obtain ⟨-, hnone, hempty⟩ := h
    refine ⟨hrole.trans hopen, hid.trans hnone, ?_⟩
    rcases hcontent with hsame | ⟨-, hnull⟩
    · rw [hsame, hempty]
    · exact hnull
  | some tagged =>
    obtain ⟨item, i⟩ := tagged
    cases item with
    | output callId output =>
      rcases h with rfl | rfl <;> simp [toolOutputMessage, orphanToolOutputMessage] at hopen
    | message role content =>
      obtain ⟨hsaying, hnone, hsaid⟩ := h
      refine ⟨hrole.trans hsaying, hid.trans hnone, ?_⟩
      rcases hcontent with hsame | ⟨hnull, hempty⟩
      · rwa [hsame]
      · rcases hsaid with hcontent | ⟨hnull, -⟩
        · exact .inr ⟨hcontent ▸ hnull, hempty⟩
        · exact .inr ⟨hnull, hempty⟩
    | skipped => exact h
    | silent => exact h
    | call call => exact h
    | reasoning text => exact h

omit [SerdeJson] in
theorem foldl_addCall_of_nodup {existing incoming : List ChatToolCall} (h : ((existing ++ incoming).map (·.id)).Nodup) :
    incoming.foldl ChatMessage.addCall existing = existing ++ incoming := by
  induction incoming generalizing existing with
  | nil => simp
  | cons call incoming ih =>
    have hnew : call.id ∉ existing.map (·.id) := by
      rw [List.map_append, List.map_cons] at h
      intro hmem
      exact List.disjoint_of_nodup_append h hmem List.mem_cons_self
    have hadd : ChatMessage.addCall existing call = existing ++ [call] := by
      rw [ChatMessage.addCall, if_neg]
      rintro ⟨-, hany⟩
      exact hnew (by simpa using hany)
    rw [List.foldl_cons, hadd, ih (by simpa using h), List.append_assoc]
    rfl

theorem Shows.mergeToolCalls (h : Shows box message) (hopen : box.opened = true) (calls : List (ChatToolCall × Nat)) :
    Shows { box with firsts := box.firsts ++ calls } (message.mergeToolCalls (calls.map (·.1))) := by
  have hrole : message.role = .assistant := h.role.mpr hopen
  refine ⟨?_, fun id => ?_, fun hnodup => ?_, ?_, h.texts, ?_⟩
  · rw [role_mergeToolCalls]
    exact h.role
  · rw [calls_mergeToolCalls, mem_foldl_addCall, h.ids]
    simp
  · have hids : (box.firsts.map (·.1.id)).Nodup := by
      rw [List.map_append] at hnodup
      exact (List.nodup_append.mp hnodup).1
    rw [calls_mergeToolCalls, h.calls hids, foldl_addCall_of_nodup, List.map_append]
    simpa [Function.comp_def] using hnodup
  · rw [ChatMessage.mergeToolCalls, ChatMessage.withContent, ← h.reasoning]
    split <;> rfl
  · refine saysLabel_of_open h.saying hrole (role_mergeToolCalls message _) ?_ (content_withContent _)
    rw [ChatMessage.mergeToolCalls, ChatMessage.withContent]
    split <;> rfl

omit [SerdeJson] in
theorem joinedText_append {first second : List Text} (hne : ∀ text ∈ first, text ≠ []) (hsecond : second ≠ []) :
    joinedText (first ++ second) =
      some (if ((joinedText first).getD []).isEmpty then Text.join ['\n'] second
        else (joinedText first).getD [] ++ '\n' :: Text.join ['\n'] second) := by
  cases first with
  | nil => cases second <;> simp [joinedText] at hsecond ⊢
  | cons text first =>
    have htext := hne text List.mem_cons_self
    cases second with
    | nil => exact absurd rfl hsecond
    | cons next second =>
      have hjoin : (joinedText (text :: first)).getD [] = text ++ first.flatMap ('\n' :: ·) := Text.join_newline _ _
      have hfull : (text ++ first.flatMap ('\n' :: ·)).isEmpty = false := by simp [htext]
      rw [hjoin, hfull, if_neg Bool.false_ne_true, Text.join_newline]
      simp [joinedText, Text.join_newline]

theorem Shows.appendReasoning (h : Shows box message) (hopen : box.opened = true) {texts : List (Text × Nat)}
    (hne : texts ≠ []) (htexts : ∀ text ∈ texts, text.1 ≠ []) :
    Shows { box with seconds := box.seconds ++ texts }
      (message.appendReasoning (Text.join ['\n'] (texts.map fun text => text.1))) := by
  have hrole : message.role = .assistant := h.role.mpr hopen
  have hjoined : (Text.join ['\n'] (texts.map fun text => text.1)).isEmpty = false := by
    cases texts with
    | nil => exact absurd rfl hne
    | cons text texts =>
      have htext := htexts text List.mem_cons_self
      rw [List.map_cons, Text.join_newline]
      simp [htext]
  have hbox : ∀ text ∈ box.seconds.map (·.1), text ≠ [] := by
    intro text hmem
    obtain ⟨tagged, htagged, rfl⟩ := List.mem_map.mp hmem
    exact h.texts tagged htagged
  have hsecond : texts.map (fun text => text.1) ≠ [] := by simpa using hne
  have happend : message.appendReasoning (Text.join ['\n'] (texts.map fun text => text.1)) =
      ChatMessage.withContent
        { message with reasoningContent := joinedText ((box.seconds ++ texts).map fun text : Text × Nat => text.1) } := by
    rw [ChatMessage.appendReasoning, if_neg (by simp [hjoined]), h.reasoning, List.map_append,
      joinedText_append hbox hsecond]
  rw [happend]
  refine { role := ?_, ids := ?_, calls := ?_, reasoning := ?_, texts := ?_, saying := ?_ }
  · rw [role_withContent]
    exact h.role
  · rw [calls_withContent]
    exact h.ids
  · rw [calls_withContent]
    exact h.calls
  · rw [ChatMessage.withContent]
    split <;> rfl
  · intro text hmem
    rcases List.mem_append.mp hmem with hbefore | hadded
    · exact h.texts text hbefore
    · exact htexts text hadded
  · refine saysLabel_of_open h.saying hrole (role_withContent _) ?_ (content_withContent _)
    rw [ChatMessage.withContent]
    split <;> rfl

/-! ## The converter packs -/

/-- The messages after the first ones are those of the boxes, and the same things wait. -/
structure Packs (start : List ChatMessage) (s : History) (p : Placement) : Prop where
  messages : ∃ rest, s.messages = start ++ rest ∧ List.Forall₂ Shows p.packing.boxes rest
  calls : s.pendingToolCalls = p.packing.firsts.map (·.1)
  reasoning : s.pendingReasoning = p.packing.seconds.map (·.1)
  texts : ∀ text ∈ p.packing.seconds, text.1 ≠ []
  seen : s.seenToolCallIds = p.seen

variable {start : List ChatMessage} {s : History} {p : Placement}

theorem Packs.lastOpen (h : Packs start s p) {before : List MessageBox} (hboxes : p.packing.boxes = before ++ [box])
    (hopen : box.opened = true) :
    ∃ rest last, s.messages = (start ++ rest) ++ [last] ∧ s.lastAssistant = some last ∧
      List.Forall₂ Shows before rest ∧ Shows box last := by
  obtain ⟨rest, hmessages, hshows⟩ := h.messages
  rw [hboxes] at hshows
  obtain ⟨rest, last, rfl, hrest, hlast⟩ := forall₂_concat hshows
  refine ⟨rest, last, by rw [hmessages, List.append_assoc], ?_, hrest, hlast⟩
  rw [History.lastAssistant, hmessages, ← List.append_assoc, List.getLast?_concat]
  simp [Option.filter, hlast.role.mpr hopen]

theorem Packs.put (h : Packs start s p) (hshows : Shows box message) {s' : History}
    {packing : Packing (Option (HistoryItem × Nat)) (ChatToolCall × Nat) (Text × Nat)}
    (hmessages : s'.messages = s.messages ++ [message]) (hboxes : packing.boxes = p.packing.boxes ++ [box])
    (hcalls : s'.pendingToolCalls = packing.firsts.map (·.1)) (hreasoning : s'.pendingReasoning = packing.seconds.map (·.1))
    (htexts : ∀ text ∈ packing.seconds, text.1 ≠ []) (hseen : s'.seenToolCallIds = s.seenToolCallIds) :
    Packs start s' { p with packing := packing } := by
  obtain ⟨rest, hrest, hforall⟩ := h.messages
  refine ⟨⟨rest ++ [message], by rw [hmessages, hrest, List.append_assoc], ?_⟩, hcalls, hreasoning, htexts,
    hseen.trans h.seen⟩
  rw [hboxes]
  exact List.rel_append hforall (.cons hshows .nil)

theorem shows_label {label : Option (HistoryItem × Nat)} {seconds : List (Text × Nat)} (opened : Bool)
    (hrole : message.role = .assistant ↔ opened = true) (hcalls : message.toolCalls = none)
    (hreasoning : message.reasoningContent = joinedText (seconds.map (·.1))) (htexts : ∀ text ∈ seconds, text.1 ≠ [])
    (hsaying : SaysLabel label message) :
    Shows { label := label, opened := opened, seconds := seconds } message :=
  { role := hrole
    ids := fun id => by simp [ChatMessage.calls, hcalls]
    calls := fun _ => by simp [ChatMessage.calls, hcalls]
    reasoning := hreasoning
    texts := htexts
    saying := hsaying }

def NoAssistantLast (start : List ChatMessage) : Prop := ∀ last, start.getLast? = some last → last.role ≠ .assistant

variable (hstart : NoAssistantLast start)

include hstart

theorem Packs.lastAssistant (h : Packs start s p) (hnone : p.packing.lastOpen = none) : s.lastAssistant = none := by
  obtain ⟨rest, hmessages, hshows⟩ := h.messages
  rw [History.lastAssistant, hmessages, Option.filter_eq_none_iff]
  intro last hlast
  rcases List.eq_nil_or_concat p.packing.boxes with hboxes | ⟨before, box, hboxes⟩
  · rw [hboxes] at hshows
    cases hshows
    rw [List.append_nil] at hlast
    simpa using hstart last hlast
  · rw [List.concat_eq_append] at hboxes
    rw [hboxes] at hshows
    obtain ⟨rest, shown, rfl, -, hshown⟩ := forall₂_concat hshows
    rw [← List.append_assoc, List.getLast?_concat] at hlast
    obtain rfl := Option.some.inj hlast
    have hclosed : box.opened = false := by
      cases hopen : box.opened with
      | false => rfl
      | true => simp [Packing.lastOpen_eq_some.mpr ⟨before, hboxes, hopen⟩] at hnone
    simpa [hclosed] using hshown.role

theorem Packs.flushToolCalls (h : Packs start s p) :
    Packs start s.flushToolCalls { p with packing := p.packing.packFirsts none } := by
  rcases p.packing.packFirsts_cases none with ⟨hnil, hp⟩ | ⟨before, box, hne, hboxes, hopen, hp⟩ | ⟨hne, hlast, hp⟩
  · have hflush : s.flushToolCalls = s := by rw [History.flushToolCalls, h.calls, hnil]; rfl
    rw [hflush, hp]
    exact h
  · obtain ⟨rest, last, hmessages, hassistant, hrest, hshown⟩ := h.lastOpen hboxes hopen
    have hflush : s.flushToolCalls =
        { s.replaceLast (last.mergeToolCalls s.pendingToolCalls) with pendingToolCalls := [] } := by
      rw [History.flushToolCalls, if_neg (by simpa [h.calls] using hne), hassistant]
    rw [hflush, hp, h.calls]
    refine ⟨⟨rest ++ [last.mergeToolCalls (p.packing.firsts.map fun call => call.1)], ?_, ?_⟩, rfl, h.reasoning, h.texts, h.seen⟩
    · simp [History.replaceLast, hmessages]
    · exact List.rel_append hrest (.cons (hshown.mergeToolCalls hopen p.packing.firsts) .nil)
  · have hflush : s.flushToolCalls =
        { s.push { role := .assistant, content := .string [], toolCalls := some s.pendingToolCalls
                   reasoningContent := s.reasoningText } with pendingToolCalls := [], pendingReasoning := [] } := by
      rw [History.flushToolCalls, if_neg (by simpa [h.calls] using hne), h.lastAssistant hstart hlast]
    have hshown : Shows ⟨none, true, p.packing.firsts, p.packing.seconds⟩
        { role := .assistant, content := .string [], toolCalls := some s.pendingToolCalls
          reasoningContent := s.reasoningText } :=
      { role := by simp
        ids := fun id => by simp [ChatMessage.calls, h.calls]
        calls := fun _ => h.calls
        reasoning := by rw [History.reasoningText, h.reasoning]; rfl
        texts := h.texts
        saying := ⟨rfl, rfl, rfl⟩ }
    rw [hflush, hp]
    exact h.put hshown rfl rfl rfl rfl (by simp) rfl

theorem Packs.flushReasoning (h : Packs start s p) :
    Packs start s.flushReasoning { p with packing := p.packing.packSeconds none } := by
  rcases p.packing.packSeconds_cases none with ⟨hnil, hp⟩ | ⟨before, box, hne, hboxes, hopen, hp⟩ | ⟨hne, hlast, hp⟩
  · have hflush : s.flushReasoning = s := by rw [History.flushReasoning, h.reasoning, hnil]; rfl
    rw [hflush, hp]
    exact h
  · obtain ⟨rest, last, hmessages, hassistant, hrest, hshown⟩ := h.lastOpen hboxes hopen
    have hflush : s.flushReasoning =
        { s.replaceLast (last.appendReasoning (Text.join ['\n'] s.pendingReasoning)) with pendingReasoning := [] } := by
      rw [History.flushReasoning, if_neg (by simpa [h.reasoning] using hne)]
      dsimp only
      rw [hassistant]
    rw [hflush, hp, h.reasoning]
    refine ⟨⟨rest ++ [last.appendReasoning (Text.join ['\n'] (p.packing.seconds.map fun text => text.1))], ?_, ?_⟩,
      h.calls, rfl, by simp, h.seen⟩
    · simp [History.replaceLast, hmessages]
    · exact List.rel_append hrest (.cons (hshown.appendReasoning hopen hne h.texts) .nil)
  · have hflush : s.flushReasoning =
        { s.push { role := .assistant, content := .string []
                   reasoningContent := some (Text.join ['\n'] s.pendingReasoning) } with pendingReasoning := [] } := by
      rw [History.flushReasoning, if_neg (by simpa [h.reasoning] using hne)]
      dsimp only
      rw [h.lastAssistant hstart hlast]
    have hshown : Shows ⟨none, true, [], p.packing.seconds⟩
        { role := .assistant, content := .string [], reasoningContent := some (Text.join ['\n'] s.pendingReasoning) } :=
      { role := by simp
        ids := fun id => by simp [ChatMessage.calls]
        calls := fun _ => rfl
        reasoning := by rw [h.reasoning, joinedText, if_neg (by simpa using hne)]
        texts := h.texts
        saying := ⟨rfl, rfl, rfl⟩ }
    rw [hflush, hp]
    exact h.put hshown rfl rfl h.calls rfl (by simp) rfl

theorem Packs.addMessage (h : Packs start s p) (role : ChatRole) (content : Value) (i : Nat) :
    Packs start (s.addMessage role content) (p.step (.message role content, i)) := by
  have hflush := h.flushToolCalls hstart
  by_cases hrole : role = .assistant
  · subst hrole
    have hreasoning : s.flushToolCalls.reasoningText = joinedText ((p.packing.packFirsts none).seconds.map (·.1)) := by
      rw [History.reasoningText, hflush.reasoning]
      rfl
    have hshown : Shows { label := some (.message .assistant content, i), opened := true
                          seconds := (p.packing.packFirsts none).seconds }
        { role := .assistant, content := content, reasoningContent := s.flushToolCalls.reasoningText } :=
      shows_label true (by simp) rfl hreasoning hflush.texts ⟨rfl, rfl, .inl rfl⟩
    rw [History.addMessage_assistant]
    exact hflush.put hshown rfl rfl hflush.calls rfl (by simp [Packing.openBox]) rfl
  · have hboth := hflush.flushReasoning hstart
    have hshown : Shows { label := some (.message role content, i), opened := false }
        { role := role, content := content } :=
      shows_label false (by simp [hrole]) rfl rfl (by simp) ⟨rfl, rfl, .inl rfl⟩
    rw [History.addMessage_other s hrole, Placement.step, if_neg hrole]
    exact hboth.put hshown rfl rfl hboth.calls hboth.reasoning hboth.texts rfl

theorem Packs.addOutput (h : Packs start s p) (callId : Text) (output : Value) (i : Nat) :
    Packs start (s.addOutput callId output) (p.step (.output callId output, i)) := by
  have hflush := h.flushToolCalls hstart
  rw [History.addOutput, Placement.step, h.seen]
  by_cases hseen : callId ∈ p.seen
  · have hshown : Shows { label := some (.output callId output, i), opened := false } (toolOutputMessage callId output) :=
      shows_label false (by simp [toolOutputMessage]) rfl rfl (by simp) (.inl rfl)
    rw [if_neg (not_not.mpr hseen), if_neg (not_not.mpr hseen)]
    exact hflush.put hshown rfl rfl hflush.calls hflush.reasoning hflush.texts rfl
  · have hboth := hflush.flushReasoning hstart
    have hshown : Shows { label := some (.output callId output, i), opened := false }
        (orphanToolOutputMessage callId output) :=
      shows_label false (by simp [orphanToolOutputMessage]) rfl rfl (by simp) (.inr rfl)
    rw [if_pos hseen, if_pos hseen]
    exact hboth.put hshown rfl rfl hboth.calls hboth.reasoning hboth.texts rfl

theorem Packs.step (h : Packs start s p) (item : HistoryItem) (i : Nat) : Packs start (s.step item) (p.step (item, i)) := by
  cases item with
  | skipped => exact h
  | silent => exact h.flushToolCalls hstart
  | call call =>
    refine ⟨h.messages, ?_, h.reasoning, h.texts, congrArg (call.id :: ·) h.seen⟩
    simp [History.step, History.addCall, Placement.step, Packing.addFirst, h.calls]
  | output callId output => exact h.addOutput hstart callId output i
  | reasoning text =>
    rw [History.step, History.addReasoning, Placement.step]
    split
    · exact h
    · rename_i htext
      refine ⟨h.messages, h.calls, by simp [Packing.addSecond, h.reasoning], fun tagged hmem => ?_, h.seen⟩
      rcases List.mem_append.mp hmem with hbefore | hadded
      · exact h.texts tagged hbefore
      · rw [List.mem_singleton.mp hadded]
        simpa using htext
  | message role content => exact h.addMessage hstart role content i

theorem Packs.run (h : Packs start s p) (items : List (HistoryItem × Nat)) :
    Packs start ((items.map (·.1)).foldl History.step s) (items.foldl Placement.step p) := by
  induction items generalizing s p with
  | nil => exact h
  | cons tagged items ih => exact ih (h.step hstart tagged.1 tagged.2)

theorem shows_placed (items : List HistoryItem) :
    ∃ rest, convert start items = start ++ rest ∧ List.Forall₂ Shows (placed items) rest := by
  have hempty : Packs start { messages := start } {} :=
    ⟨⟨[], (List.append_nil start).symm, .nil⟩, rfl, rfl, by simp, rfl⟩
  have hrun := hempty.run hstart items.zipIdx
  rw [List.zipIdx_map_fst] at hrun
  exact ((hrun.flushToolCalls hstart).flushReasoning hstart).messages

end Shows

end Lumio.Proxy
