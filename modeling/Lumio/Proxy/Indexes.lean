import Lumio.Lib.Ledger
import Lumio.Proxy.Frame

/-!
# Output indexes

The stream state is a ledger of output items: reasoning, text and every tool call have a slot of their own. Every step
of the converter is a sequence of moves of that ledger, with the events as its notes.
-/

namespace Lumio.Proxy

open Ledger (Note Moves Consistent)

inductive Slot where
  | reasoning
  | text
  | tool (chatIndex : Nat)
deriving DecidableEq

def ChatSseState.slot (s : ChatSseState) : Slot → Option (Nat × Bool)
  | .reasoning => s.reasoning.outputIndex.map (·, s.reasoning.done)
  | .text => s.text.outputIndex.map (·, s.text.done)
  | .tool k => (s.toolState k).outputIndex.map (·, (s.toolState k).done)

def ChatSseState.ledger (s : ChatSseState) : Ledger Slot Item :=
  { next := s.nextOutputIndex, slot := s.slot, finished := s.outputItems }

def Event.note : Event → Note Item
  | .itemAdded i _ => .announced i
  | .itemDone i item => .finished i item
  | e =>
    match e.outputIndex with
    | some i => .told i
    | none => .other

theorem ledger_eq {s : ChatSseState} {L : Ledger Slot Item} (hnext : s.nextOutputIndex = L.next) (hslot : s.slot = L.slot)
    (hfinished : s.outputItems = L.finished) : s.ledger = L := by
  cases L
  simp only [ChatSseState.ledger, hnext, hslot, hfinished]

def notesOf (output : List Sse) : List (Note Item) := (eventsOf output).map Event.note

@[simp] theorem notesOf_nil : notesOf [] = [] := rfl

@[simp] theorem notesOf_append (xs ys : List Sse) : notesOf (xs ++ ys) = notesOf xs ++ notesOf ys := by
  simp [notesOf]

structure ItemSound (outputIndex : Option Nat) (added done : Bool) : Prop where
  index : added = outputIndex.isSome
  finished : done = true → added = true

structure Sound (s : ChatSseState) : Prop where
  reasoning : ItemSound s.reasoning.outputIndex s.reasoning.added s.reasoning.done
  text : ItemSound s.text.outputIndex s.text.added s.text.done
  tool : ∀ k tool, s.tools.lookup k = some tool → ItemSound tool.outputIndex tool.added tool.done

theorem ItemSound.none {outputIndex : Option Nat} {added done : Bool} (h : ItemSound outputIndex added done)
    (hadded : added = false) : outputIndex = none ∧ done = false := by
  refine ⟨?_, ?_⟩
  · have hindex := h.index
    rw [hadded] at hindex
    exact Option.isNone_iff_eq_none.mp (by simpa using hindex.symm)
  · cases done with
    | false => rfl
    | true => exact absurd (h.finished rfl) (by simp [hadded])

theorem ItemSound.some {outputIndex : Option Nat} {added done : Bool} (h : ItemSound outputIndex added done)
    (hadded : added = true) : ∃ i, outputIndex = some i :=
  Option.isSome_iff_exists.mp (h.index ▸ hadded)

/-- From `s`, the step is a sequence of moves of the ledger. -/
def SimulatesAt (f : Step) (s : ChatSseState) : Prop :=
  Sound s → Sound (f s).1 ∧ Moves s.ledger (f s).1.ledger (notesOf (f s).2)

def Simulates (f : Step) : Prop := ∀ s, SimulatesAt f s

section Rules

variable {f g : Step} {s : ChatSseState}

theorem SimulatesAt.seq (hf : SimulatesAt f s) (hg : SimulatesAt g (f s).1) : SimulatesAt (Emit.seq f g) s := by
  intro hs
  obtain ⟨hsound, hmoves⟩ := hf hs
  obtain ⟨hsound', hmoves'⟩ := hg hsound
  refine ⟨hsound', ?_⟩
  rw [Emit.seq_apply, notesOf_append]
  exact hmoves.trans hmoves'

theorem SimulatesAt.skip : SimulatesAt Emit.skip s := fun hs => ⟨hs, .refl _⟩

theorem Simulates.skip : Simulates Emit.skip := fun _ => .skip

theorem Simulates.seq (hf : Simulates f) (hg : Simulates g) : Simulates (Emit.seq f g) := fun s => (hf s).seq (hg _)

theorem Simulates.all {fs : List Step} (h : ∀ f ∈ fs, Simulates f) : Simulates (Emit.all fs) := by
  induction fs with
  | nil => exact .skip
  | cons f fs ih => exact .seq (h f (by simp)) (ih fun g hg => h g (by simp [hg]))

theorem Simulates.each {α : Type} {f : α → Step} {xs : List α} (h : ∀ x ∈ xs, Simulates (f x)) :
    Simulates (Emit.each f xs) := by
  refine .all fun g hg => ?_
  obtain ⟨x, hx, rfl⟩ := List.mem_map.mp hg
  exact h x hx

theorem Simulates.onlyIf {c : ChatSseState → Bool} (h : ∀ s, c s = true → SimulatesAt f s) :
    Simulates (Emit.onlyIf c f) := by
  intro s
  unfold SimulatesAt Emit.onlyIf
  split
  · rename_i hc; exact h s hc
  · exact SimulatesAt.skip

theorem Simulates.forSome {α : Type} {value : Option α} {f : α → Step} (hf : ∀ a, Simulates (f a)) :
    Simulates (Emit.forSome value f) := by
  cases value with
  | none => exact .skip
  | some a => exact hf a

theorem SimulatesAt.frame (hslot : (f s).1.ledger = s.ledger) (hsound : Sound s → Sound (f s).1)
    (hout : notesOf (f s).2 = []) : SimulatesAt f s := by
  intro hs
  refine ⟨hsound hs, ?_⟩
  rw [hslot, hout]
  exact .refl _

end Rules

/-! ## Reasoning and text -/

section Items

variable {s : ChatSseState}

variable {d : Bool} {i j : Nat} {t : ChatSseState} (delta : Text) (k : Nat)

theorem slot_of_reasoning (hreasoning : t.slot .reasoning = some (i, d)) (htext : t.text = s.text)
    (htools : t.tools = s.tools) : t.slot = Function.update s.slot .reasoning (some (i, d)) := by
  funext a
  cases a with
  | reasoning => rw [Function.update_self, hreasoning]
  | text => rw [Function.update_of_ne (by simp)]; simp only [ChatSseState.slot, htext]
  | tool k => rw [Function.update_of_ne (by simp)]; simp only [ChatSseState.slot, ChatSseState.toolState, htools]

theorem slot_of_text (htext : t.slot .text = some (i, d)) (hreasoning : t.reasoning = s.reasoning)
    (htools : t.tools = s.tools) : t.slot = Function.update s.slot .text (some (i, d)) := by
  funext a
  cases a with
  | reasoning => rw [Function.update_of_ne (by simp)]; simp only [ChatSseState.slot, hreasoning]
  | text => rw [Function.update_self, htext]
  | tool k => rw [Function.update_of_ne (by simp)]; simp only [ChatSseState.slot, ChatSseState.toolState, htools]

theorem addReasoning_simulates (h : s.reasoning.added = false) : SimulatesAt addReasoning s := by
  intro hs
  obtain ⟨hindex, hopen⟩ := hs.reasoning.none h
  have hnone : s.slot .reasoning = none := by simp only [ChatSseState.slot, hindex, Option.map_none]
  have hslot : (addReasoning s).1.slot .reasoning = some (s.nextOutputIndex, false) := by rw [← hopen]; rfl
  have hledger : (addReasoning s).1.ledger = s.ledger.announce .reasoning := ledger_eq rfl (slot_of_reasoning hslot rfl rfl) rfl
  refine ⟨⟨⟨rfl, fun _ => rfl⟩, hs.text, hs.tool⟩, ?_⟩
  rw [hledger]
  exact (Moves.announce hnone).trans (.tell (Ledger.slot_announce _ Slot.reasoning))

theorem ledger_appendReasoning : (appendReasoning delta s).ledger = s.ledger :=
  ledger_eq rfl (by funext a; cases a <;> rfl) rfl

theorem tellReasoning_simulates (h : s.reasoning.added = true) (delta : Text) :
    SimulatesAt (pushSse fun s => [.summaryTextDelta s.reasoning.itemId (s.reasoning.outputIndex.getD 0) delta]) s := by
  intro hs
  obtain ⟨i, hi⟩ := hs.reasoning.some h
  have hslot : s.ledger.slot .reasoning = some (i, s.reasoning.done) := by
    simp only [ChatSseState.ledger, ChatSseState.slot, hi, Option.map_some]
  refine ⟨hs, ?_⟩
  change Moves _ _ [.told (s.reasoning.outputIndex.getD 0)]
  rw [hi, Option.getD_some]
  exact .tell hslot

theorem pushReasoningDelta_simulates : Simulates (pushReasoningDelta delta) := by
  have hadd : Simulates (Emit.onlyIf (!·.reasoning.added) addReasoning) :=
    .onlyIf fun s h => addReasoning_simulates (by simpa using h)
  intro s
  refine (hadd s).seq ?_
  have hadded : (Emit.onlyIf (!·.reasoning.added) addReasoning s).1.reasoning.added = true := by
    unfold Emit.onlyIf
    split
    · rfl
    · rename_i h; simpa using h
  generalize (Emit.onlyIf (!·.reasoning.added) addReasoning s).1 = t at hadded ⊢
  exact .seq (.frame (ledger_appendReasoning delta) (fun ht => ⟨ht.reasoning, ht.text, ht.tool⟩) rfl)
    (.seq (tellReasoning_simulates (s := appendReasoning delta t) hadded delta) .skip)

theorem finalizeReasoning_simulates : Simulates finalizeReasoning := by
  refine .onlyIf fun s h hs => ?_
  obtain ⟨hadded, hopen⟩ : s.reasoning.added = true ∧ s.reasoning.done = false := by simpa using h
  obtain ⟨i, hi⟩ := hs.reasoning.some hadded
  have hslot : s.ledger.slot .reasoning = some (i, false) := by
    simp only [ChatSseState.ledger, ChatSseState.slot, hi, hopen, Option.map_some]
  have hdone : (finishReasoning s).1.slot .reasoning = some (i, true) := by
    change (s.reasoning.outputIndex.map (·, true) : Option (Nat × Bool)) = _
    rw [hi]
    rfl
  have hledger : (finishReasoning s).1.ledger = s.ledger.finish .reasoning i s.reasoningItem :=
    ledger_eq rfl (slot_of_reasoning hdone rfl rfl) (by
      change s.outputItems ++ [(s.reasoning.outputIndex.getD 0, s.reasoningItem)] = _
      rw [hi]
      rfl)
  refine ⟨⟨⟨hs.reasoning.index, fun _ => hadded⟩, hs.text, hs.tool⟩, ?_⟩
  rw [hledger]
  change Moves _ _ [.told (s.reasoning.outputIndex.getD 0), .told (s.reasoning.outputIndex.getD 0),
    .finished (s.reasoning.outputIndex.getD 0) s.reasoningItem]
  rw [hi, Option.getD_some]
  exact (Moves.tell hslot).trans ((Moves.tell hslot).trans (.finish hslot))

theorem addText_simulates (h : s.text.added = false) : SimulatesAt addText s := by
  intro hs
  obtain ⟨hindex, hopen⟩ := hs.text.none h
  have hnone : s.slot .text = none := by simp only [ChatSseState.slot, hindex, Option.map_none]
  have hslot : (addText s).1.slot .text = some (s.nextOutputIndex, false) := by rw [← hopen]; rfl
  have hledger : (addText s).1.ledger = s.ledger.announce .text := ledger_eq rfl (slot_of_text hslot rfl rfl) rfl
  refine ⟨⟨hs.reasoning, ⟨rfl, fun _ => rfl⟩, hs.tool⟩, ?_⟩
  rw [hledger]
  exact (Moves.announce hnone).trans (.tell (Ledger.slot_announce _ Slot.text))

theorem ledger_appendText : (appendText delta s).ledger = s.ledger :=
  ledger_eq rfl (by funext a; cases a <;> rfl) rfl

theorem tellText_simulates (h : s.text.added = true) (delta : Text) :
    SimulatesAt (pushSse fun s => [.outputTextDelta s.text.itemId (s.text.outputIndex.getD 0) delta]) s := by
  intro hs
  obtain ⟨i, hi⟩ := hs.text.some h
  have hslot : s.ledger.slot .text = some (i, s.text.done) := by
    simp only [ChatSseState.ledger, ChatSseState.slot, hi, Option.map_some]
  refine ⟨hs, ?_⟩
  change Moves _ _ [.told (s.text.outputIndex.getD 0)]
  rw [hi, Option.getD_some]
  exact .tell hslot

theorem pushTextDelta_simulates : Simulates (pushTextDelta delta) := by
  have hadd : Simulates (Emit.onlyIf (!·.text.added) addText) :=
    .onlyIf fun s h => addText_simulates (by simpa using h)
  intro s
  refine (hadd s).seq ?_
  have hadded : (Emit.onlyIf (!·.text.added) addText s).1.text.added = true := by
    unfold Emit.onlyIf
    split
    · rfl
    · rename_i h; simpa using h
  generalize (Emit.onlyIf (!·.text.added) addText s).1 = t at hadded ⊢
  exact .seq (.frame (ledger_appendText delta) (fun ht => ⟨ht.reasoning, ht.text, ht.tool⟩) rfl)
    (.seq (tellText_simulates (s := appendText delta t) hadded delta) .skip)

theorem finalizeText_simulates : Simulates finalizeText := by
  refine .onlyIf fun s h hs => ?_
  obtain ⟨hadded, hopen⟩ : s.text.added = true ∧ s.text.done = false := by simpa using h
  obtain ⟨i, hi⟩ := hs.text.some hadded
  have hslot : s.ledger.slot .text = some (i, false) := by
    simp only [ChatSseState.ledger, ChatSseState.slot, hi, hopen, Option.map_some]
  have hdone : (finishText s).1.slot .text = some (i, true) := by
    change (s.text.outputIndex.map (·, true) : Option (Nat × Bool)) = _
    rw [hi]
    rfl
  have hledger : (finishText s).1.ledger = s.ledger.finish .text i s.textItem :=
    ledger_eq rfl (slot_of_text hdone rfl rfl) (by
      change s.outputItems ++ [(s.text.outputIndex.getD 0, s.textItem)] = _
      rw [hi]
      rfl)
  refine ⟨⟨hs.reasoning, ⟨hs.text.index, fun _ => hadded⟩, hs.tool⟩, ?_⟩
  rw [hledger]
  change Moves _ _ [.told (s.text.outputIndex.getD 0), .told (s.text.outputIndex.getD 0),
    .finished (s.text.outputIndex.getD 0) s.textItem]
  rw [hi, Option.getD_some]
  exact (Moves.tell hslot).trans ((Moves.tell hslot).trans (.finish hslot))

/-! ## Inline think blocks -/

theorem Simulates.ite {c : Prop} [Decidable c] {f g : Step} (hf : Simulates f) (hg : Simulates g) :
    Simulates (if c then f else g) := by
  split
  · exact hf
  · exact hg

theorem SimulatesAt.withThink {f : Step} (hf : Simulates f) (mode : InlineThinkMode) (buffer : Text) :
    SimulatesAt (fun s => f (s.withThink mode buffer)) s := by
  intro hs
  have h := hf (s.withThink mode buffer) ⟨hs.reasoning, hs.text, hs.tool⟩
  have hledger : (s.withThink mode buffer).ledger = s.ledger := ledger_eq rfl (by funext a; cases a <;> rfl) rfl
  rwa [hledger] at h

theorem pushThinkBlock_simulates (reasoning answer : Text) : Simulates (pushThinkBlock reasoning answer) := by
  refine .seq (.ite .skip ?_) (.seq (.ite .skip (pushTextDelta_simulates answer)) .skip)
  exact .seq (pushReasoningDelta_simulates reasoning) (.seq finalizeReasoning_simulates .skip)

theorem finishThenText_simulates : Simulates (Emit.all [finalizeReasoning, pushTextDelta delta]) :=
  .seq finalizeReasoning_simulates (.seq (pushTextDelta_simulates delta) .skip)

theorem drainCompleteInlineThink_simulates : Simulates drainCompleteInlineThink := by
  intro s
  unfold SimulatesAt drainCompleteInlineThink
  split
  · exact SimulatesAt.skip
  · exact SimulatesAt.withThink (pushThinkBlock_simulates _ _) _ _

theorem pushContentDelta_simulates : Simulates (pushContentDelta delta) := by
  intro s
  unfold SimulatesAt pushContentDelta
  split
  · exact finishThenText_simulates delta s
  · split
    · exact SimulatesAt.withThink Simulates.skip _ _
    · exact SimulatesAt.withThink drainCompleteInlineThink_simulates _ _
    · exact SimulatesAt.withThink (finishThenText_simulates _) _ _
  · exact SimulatesAt.withThink drainCompleteInlineThink_simulates _ _

theorem flushInlineThinkAtBoundary_simulates : Simulates flushInlineThinkAtBoundary := by
  intro s
  unfold SimulatesAt flushInlineThinkAtBoundary
  split
  · exact SimulatesAt.skip
  · split
    · exact SimulatesAt.withThink Simulates.skip _ _
    · exact SimulatesAt.withThink (finishThenText_simulates _) _ _
  · split
    · exact SimulatesAt.withThink (pushThinkBlock_simulates _ _) _ _
    · exact SimulatesAt.withThink (pushThinkBlock_simulates _ _) _ _

/-! ## Tool calls -/

theorem slot_of_tool {k : Nat} {tool : ToolCallState} {slot : Option (Nat × Bool)}
    (htools : t.tools = (s.setTool k tool).tools) (hslot : tool.outputIndex.map (·, tool.done) = slot)
    (htext : t.text = s.text) (hreasoning : t.reasoning = s.reasoning) :
    t.slot = Function.update s.slot (.tool k) slot := by
  have htool : ∀ j, t.toolState j = (s.setTool k tool).toolState j := fun j => by
    unfold ChatSseState.toolState
    rw [htools]
  funext a
  cases a with
  | reasoning => rw [Function.update_of_ne (by simp)]; simp only [ChatSseState.slot, hreasoning]
  | text => rw [Function.update_of_ne (by simp)]; simp only [ChatSseState.slot, htext]
  | tool j =>
    by_cases hjk : j = k
    · subst hjk
      rw [Function.update_self]
      simpa only [ChatSseState.slot, htool, toolState_setTool] using hslot
    · rw [Function.update_of_ne (by simpa using hjk)]
      simp only [ChatSseState.slot, htool, toolState_setTool_of_ne hjk]

theorem sound_insert {k : Nat} {tool : ToolCallState} (hs : Sound s) (htools : t.tools = s.tools.insert k tool)
    (htool : ItemSound tool.outputIndex tool.added tool.done) (htext : t.text = s.text)
    (hreasoning : t.reasoning = s.reasoning) : Sound t := by
  refine ⟨hreasoning ▸ hs.reasoning, htext ▸ hs.text, fun j other hj => ?_⟩
  rw [htools] at hj
  by_cases hjk : j = k
  · subst hjk
    rw [AList.lookup_insert] at hj
    cases hj
    exact htool
  · rw [AList.lookup_insert_ne hjk] at hj
    exact hs.tool j other hj

theorem Sound.toolState (hs : Sound s) (k : Nat) :
    ItemSound (s.toolState k).outputIndex (s.toolState k).added (s.toolState k).done := by
  unfold ChatSseState.toolState
  cases hk : s.tools.lookup k with
  | none => exact ⟨rfl, fun h => absurd h (by decide)⟩
  | some tool => exact hs.tool k tool hk

theorem announceTool_simulates {k : Nat} (h : (s.toolState k).added = false) : SimulatesAt (announceTool k) s := by
  intro hs
  obtain ⟨hindex, hopen⟩ := (hs.toolState k).none h
  have hnone : s.ledger.slot (.tool k) = none := by
    simp only [ChatSseState.ledger, ChatSseState.slot, hindex, Option.map_none]
  have hslot : (s.announcedTool k).outputIndex.map (·, (s.announcedTool k).done) = some (s.nextOutputIndex, false) := by
    rw [← hopen]
    rfl
  have hledger : (announceTool k s).1.ledger = s.ledger.announce (.tool k) :=
    ledger_eq rfl (slot_of_tool rfl hslot rfl rfl) rfl
  refine ⟨sound_insert hs rfl ⟨rfl, fun _ => rfl⟩ rfl rfl, ?_⟩
  rw [hledger]
  exact .announce hnone

theorem toolState_announceTool : (announceTool k s).1.toolState k = s.announcedTool k := toolState_setTool ..

theorem pushToolArguments_simulates (delta : Text) : Simulates (pushToolArguments k delta) := by
  intro s hs
  refine ⟨hs, ?_⟩
  simp only [pushToolArguments, pushSse, Emit.say_apply, notesOf, eventsOf_map]
  split
  · exact .refl _
  · split
    · rename_i i hi
      have hslot : s.ledger.slot (.tool k) = some (i, (s.toolState k).done) := by
        simp only [ChatSseState.ledger, ChatSseState.slot, hi, Option.map_some]
      unfold toolCallDeltaEvents
      split
      · exact .refl _
      · exact .tell hslot
    · exact .refl _

theorem mergeToolCallDelta_simulates (delta : ToolCallDelta) : Simulates (Emit.update (mergeToolCallDelta delta)) := by
  intro s
  refine .frame (ledger_eq rfl ?_ rfl) ?_ rfl
  · have h : (mergeToolCallDelta delta s).slot =
        Function.update s.slot (.tool delta.chatIndex) (s.slot (.tool delta.chatIndex)) := slot_of_tool rfl rfl rfl rfl
    rw [Function.update_eq_self] at h
    exact h
  · exact fun hs => sound_insert hs rfl (hs.toolState delta.chatIndex) rfl rfl

theorem tellToolCallDelta_simulates (delta : ToolCallDelta) : Simulates (tellToolCallDelta delta) := by
  intro s
  unfold SimulatesAt tellToolCallDelta
  dsimp only
  split
  · rename_i h
    exact SimulatesAt.seq (announceTool_simulates (by simp_all)) (.seq (pushToolArguments_simulates _ _ _) .skip)
  · exact pushToolArguments_simulates _ _ s

theorem pushToolCallDelta_simulates (toolCall : Value) : Simulates (pushToolCallDelta toolCall) :=
  .seq (mergeToolCallDelta_simulates _) (.seq (tellToolCallDelta_simulates _) .skip)

/-! ## Chunks -/

theorem ensureResponseStarted_simulates : Simulates ensureResponseStarted := by
  refine .onlyIf fun s _ hs => ⟨⟨hs.reasoning, hs.text, hs.tool⟩, ?_⟩
  have hledger : ({ s with responseStarted := true } : ChatSseState).ledger = s.ledger :=
    ledger_eq rfl (by funext a; cases a <;> rfl) rfl
  change Moves _ (ChatSseState.ledger { s with responseStarted := true }) ([Note.other] ++ [Note.other])
  rw [hledger]
  exact (Moves.other _).trans (.other _)

theorem update_simulates {u : ChatSseState → ChatSseState} (hnext : ∀ s, (u s).nextOutputIndex = s.nextOutputIndex)
    (htext : ∀ s, (u s).text = s.text) (hreasoning : ∀ s, (u s).reasoning = s.reasoning)
    (htools : ∀ s, (u s).tools = s.tools) (hitems : ∀ s, (u s).outputItems = s.outputItems) :
    Simulates (Emit.update u) := by
  intro s
  refine .frame (ledger_eq (hnext s) ?_ (hitems s)) (fun hs => ?_) rfl
  · funext a
    cases a with
    | reasoning => simp only [Emit.update_apply, ChatSseState.ledger, ChatSseState.slot, hreasoning]
    | text => simp only [Emit.update_apply, ChatSseState.ledger, ChatSseState.slot, htext]
    | tool k => simp only [Emit.update_apply, ChatSseState.ledger, ChatSseState.slot, ChatSseState.toolState, htools]
  · exact ⟨(hreasoning s).symm ▸ hs.reasoning, (htext s).symm ▸ hs.text, (htools s).symm ▸ hs.tool⟩

theorem pushToolCalls_simulates (toolCalls : List Value) : Simulates (pushToolCalls toolCalls) :=
  .seq flushInlineThinkAtBoundary_simulates (.seq finalizeReasoning_simulates
    (.seq (.each fun toolCall _ => pushToolCallDelta_simulates toolCall) .skip))

theorem handleDelta_simulates (delta : Value) : Simulates (handleDelta delta) :=
  .seq (.forSome pushReasoningDelta_simulates) (.seq (.forSome pushContentDelta_simulates)
    (.seq (.forSome pushToolCalls_simulates) .skip))

theorem handleChoice_simulates (choice : Value) : Simulates (handleChoice choice) := by
  refine .seq (.forSome handleDelta_simulates) (.seq (update_simulates ?_ ?_ ?_ ?_ ?_) .skip)
  all_goals exact fun _ => rfl

theorem handleChatChunk_simulates (chunk : Value) : Simulates (handleChatChunk chunk) := by
  refine .seq (update_simulates ?_ ?_ ?_ ?_ ?_) (.seq ensureResponseStarted_simulates
    (.seq (update_simulates ?_ ?_ ?_ ?_ ?_) (.seq (.forSome handleChoice_simulates) .skip)))
  iterate 5 exact fun _ => rfl
  iterate 5 (intro s; unfold readUsage; split <;> rfl)

/-! ## The end of a stream -/

variable [SerdeJson]

theorem finishTool_simulates {k : Nat} (hadded : (s.toolState k).added = true) (hopen : (s.toolState k).done = false) :
    SimulatesAt (finishTool k) s := by
  intro hs
  obtain ⟨i, hi⟩ := (hs.toolState k).some hadded
  have hslot : s.ledger.slot (.tool k) = some (i, false) := by
    simp only [ChatSseState.ledger, ChatSseState.slot, hi, hopen, Option.map_some]
  have hledger : (finishTool k s).1.ledger =
      s.ledger.finish (.tool k) i (toolCallDoneItem s.toolContext (s.toolState k)) := by
    refine ledger_eq rfl (slot_of_tool rfl ?_ rfl rfl) ?_
    · change (s.toolState k).outputIndex.map (·, true) = _
      rw [hi]
      rfl
    · change s.outputItems ++ [((s.toolState k).outputIndex.getD 0, _)] = _
      rw [hi]
      rfl
  refine ⟨sound_insert hs rfl ⟨(hs.toolState k).index, fun _ => hadded⟩ rfl rfl, ?_⟩
  rw [hledger]
  have hnote : (toolCallDoneEvent s.toolContext (s.toolState k) ((s.toolState k).outputIndex.getD 0)).note = .told i := by
    rw [hi]
    unfold toolCallDoneEvent
    split <;> rfl
  change Moves _ _ [(toolCallDoneEvent s.toolContext (s.toolState k) ((s.toolState k).outputIndex.getD 0)).note,
    .finished ((s.toolState k).outputIndex.getD 0) _]
  rw [hnote, hi, Option.getD_some]
  exact (Moves.tell hslot).trans (.finish hslot)

theorem finalizeTool_simulates : Simulates (finalizeTool k) := by
  refine .onlyIf fun s h => ?_
  have hopen : (s.toolState k).done = false := by
    unfold ChatSseState.toolState
    cases hk : s.tools.lookup k with
    | none => rfl
    | some tool => simpa [hk] using h
  by_cases hadded : (s.toolState k).added = true
  · refine .seq ?_ (.seq ?_ .skip)
    · rw [SimulatesAt, Emit.onlyIf_of_false (by simp [hadded])]
      exact SimulatesAt.skip
    · rw [Emit.onlyIf_of_false (by simp [hadded])]
      exact finishTool_simulates hadded hopen
  · have hnew : (s.toolState k).added = false := by simpa using hadded
    refine .seq ?_ (.seq ?_ .skip)
    · rw [SimulatesAt, Emit.onlyIf_of_true (by simp [hnew])]
      exact announceTool_simulates hnew
    · rw [Emit.onlyIf_of_true (by simp [hnew])]
      exact finishTool_simulates (by rw [toolState_announceTool]; rfl) (by rw [toolState_announceTool]; exact hopen)

theorem finalizeTools_simulates : Simulates finalizeTools := fun s =>
  Simulates.each (fun k _ => finalizeTool_simulates k) s

theorem closeItems_simulates : Simulates closeItems :=
  .seq flushInlineThinkAtBoundary_simulates
    (.seq finalizeReasoning_simulates (.seq finalizeText_simulates (.seq finalizeTools_simulates .skip)))

/-! ### Every item is finished -/

def ChatSseState.Closed (s : ChatSseState) (a : Slot) : Prop := ∀ i d, s.slot a = some (i, d) → d = true

section

omit [SerdeJson]

theorem closed_of_done {outputIndex : Option Nat} {added done : Bool} (h : ItemSound outputIndex added done)
    (hclosed : ¬ (added && !done) = true) (hslot : outputIndex.map (·, done) = some (i, d)) : d = true := by
  cases hadded : added with
  | false =>
    rw [(h.none hadded).1] at hslot
    cases hslot
  | true =>
    obtain ⟨j, hj⟩ := h.some hadded
    rw [hj] at hslot
    cases hslot
    simpa [hadded] using hclosed

theorem finalizeReasoning_closed (hs : Sound s) : (finalizeReasoning s).1.Closed .reasoning := by
  intro i d
  unfold finalizeReasoning Emit.onlyIf
  split
  · intro h
    obtain ⟨_, _, heq⟩ := Option.map_eq_some_iff.mp h
    cases heq
    rfl
  · rename_i hclosed
    exact closed_of_done hs.reasoning hclosed

theorem finalizeText_closed (hs : Sound s) : (finalizeText s).1.Closed .text := by
  intro i d
  unfold finalizeText Emit.onlyIf
  split
  · intro h
    obtain ⟨_, _, heq⟩ := Option.map_eq_some_iff.mp h
    cases heq
    rfl
  · rename_i hclosed
    exact closed_of_done hs.text hclosed

end

theorem finalizeTool_other {k : Nat} (h : j ≠ k) : (finalizeTool k s).1.toolState j = s.toolState j := by
  have hannounce : ∀ t : ChatSseState,
      (Emit.onlyIf (fun s => !(s.toolState k).added) (announceTool k) t).1.toolState j = t.toolState j := by
    intro t
    unfold Emit.onlyIf
    split
    · exact toolState_setTool_of_ne h _
    · rfl
  unfold finalizeTool Emit.onlyIf
  split
  · exact (toolState_setTool_of_ne h _).trans (hannounce s)
  · rfl

theorem finalizeTool_closed (hs : Sound s) (k : Nat) : (finalizeTool k s).1.Closed (.tool k) := by
  intro i d
  unfold finalizeTool Emit.onlyIf
  split
  · intro h
    obtain ⟨_, _, heq⟩ := Option.map_eq_some_iff.mp h
    cases heq
    exact congrArg ToolCallState.done (toolState_setTool k _)
  · rename_i hclosed
    refine closed_of_done (hs.toolState k) ?_
    intro hopen
    apply hclosed
    unfold ChatSseState.toolState at hopen
    cases hk : s.tools.lookup k with
    | none => simp [hk] at hopen
    | some tool => simp_all

theorem finalizeTools_closed {ks : List Nat} (hs : Sound s) (hj : j ∈ ks ∨ s.Closed (.tool j)) :
    (Emit.each finalizeTool ks s).1.Closed (.tool j) := by
  induction ks generalizing s with
  | nil => simpa using hj
  | cons k ks ih =>
    rw [Emit.each_cons, Emit.seq_apply]
    refine ih ((finalizeTool_simulates k s) hs).1 ?_
    by_cases hjk : j = k
    · subst hjk
      exact .inr (finalizeTool_closed hs j)
    · rcases hj with hj | hj
      · exact .inl (by simpa [hjk] using hj)
      · refine .inr fun i d h => hj i d ?_
        simpa only [ChatSseState.slot, finalizeTool_other hjk] using h

theorem finalizeTool_keeps : Emit.Keeps (fun s => (s.reasoning, s.text)) (finalizeTool k) := by
  refine .onlyIf (.seq (.onlyIf fun _ => rfl) (.seq (fun _ => rfl) .skip))

theorem finalizeTools_other {ks : List Nat} (h : j ∉ ks) :
    (Emit.each finalizeTool ks s).1.toolState j = s.toolState j := by
  induction ks generalizing s with
  | nil => rfl
  | cons k ks ih =>
    rw [Emit.each_cons, Emit.seq_apply, ih (by simp_all), finalizeTool_other (by simp_all)]

omit [SerdeJson] in
theorem toolState_of_not_mem (h : j ∉ s.tools.keys) : s.toolState j = {} := by
  unfold ChatSseState.toolState
  rw [AList.lookup_eq_none.mpr (by simpa [AList.mem_keys] using h)]
  rfl

theorem finalizeTools_keeps : Emit.Keeps (fun s => (s.reasoning, s.text)) finalizeTools := fun s =>
  Emit.Keeps.each (fun k _ => finalizeTool_keeps k) s

omit [SerdeJson] in
theorem finalizeText_keeps : Emit.Keeps (·.reasoning) finalizeText := .onlyIf fun _ => rfl

theorem closeItems_closed (hs : Sound s) (a : Slot) : (closeItems s).1.Closed a := by
  obtain ⟨t, ht, hclose⟩ : ∃ t, Sound t ∧ (closeItems s).1 = (finalizeTools (finalizeText (finalizeReasoning t).1).1).1 :=
    ⟨_, (flushInlineThinkAtBoundary_simulates s hs).1, rfl⟩
  have hafter := (finalizeReasoning_simulates t ht).1
  have hbefore := (finalizeText_simulates _ hafter).1
  rw [hclose]
  generalize hu : (finalizeText (finalizeReasoning t).1).1 = u at hbefore ⊢
  obtain ⟨hreasoning, htext⟩ := Prod.mk.inj (finalizeTools_keeps u)
  cases a with
  | reasoning =>
    intro i d h
    have hkept : (finalizeText (finalizeReasoning t).1).1.reasoning = (finalizeReasoning t).1.reasoning :=
      finalizeText_keeps _
    rw [ChatSseState.slot, hreasoning, ← hu, hkept] at h
    exact finalizeReasoning_closed ht i d h
  | text =>
    intro i d h
    rw [ChatSseState.slot, htext, ← hu] at h
    exact finalizeText_closed hafter i d h
  | tool j =>
    by_cases hj : j ∈ u.tools.keys
    · exact finalizeTools_closed hbefore (.inl (List.mem_mergeSort.mpr hj))
    · intro i d h
      have hother : (finalizeTools u).1.toolState j = u.toolState j :=
        finalizeTools_other (by simpa using hj)
      rw [ChatSseState.slot, hother, toolState_of_not_mem hj] at h
      cases h

end Items

/-! ## The events of a run -/

/-- The added events carry the indexes from 0 on in order, and every other event with an index comes later than the
added event of that index. -/
structure IndexesInOrder (events : List Event) : Prop where
  added : ∃ n, events.filterMap Event.addedIndex = List.range n
  first : ∀ (pre : List Event) (e : Event) (post : List Event), events = pre ++ e :: post → e.addedIndex = none → ∀ i, e.outputIndex = some i →
    i ∈ pre.filterMap Event.addedIndex

theorem announcedIndex_note (e : Event) : e.note.announcedIndex = e.addedIndex := by
  cases e <;> rfl

theorem finishedItem_note (e : Event) : e.note.finishedItem = e.doneItem := by
  cases e <;> rfl

theorem laterIndex_note {e : Event} (h : e.addedIndex = none) : e.note.laterIndex = e.outputIndex := by
  cases e <;> first | rfl | cases h

theorem filterMap_note (events : List Event) :
    (events.map Event.note).filterMap Note.announcedIndex = events.filterMap Event.addedIndex ∧
      (events.map Event.note).filterMap Note.finishedItem = events.filterMap Event.doneItem := by
  simp only [List.filterMap_map]
  exact ⟨congrArg (List.filterMap · events) (funext announcedIndex_note),
    congrArg (List.filterMap · events) (funext finishedItem_note)⟩

theorem indexesInOrder_of_consistent {L : Ledger Slot Item} {events : List Event}
    (h : Consistent L (events.map Event.note)) : IndexesInOrder events := by
  refine ⟨⟨L.next, (filterMap_note events).1 ▸ h.announced⟩, ?_⟩
  intro pre e post heq hadded i hi
  rw [← (filterMap_note pre).1]
  refine h.ordered _ e.note (post.map Event.note) (by rw [heq]; simp) i ?_
  rw [laterIndex_note hadded, hi]

theorem consistent_start (request : Option Value) : Consistent (ChatSseState.start request).ledger [] := by
  have hledger : (ChatSseState.start request).ledger = {} := by
    cases request with
    | none => exact ledger_eq rfl (by funext a; cases a <;> rfl) rfl
    | some request => exact ledger_eq rfl (by funext a; cases a <;> rfl) rfl
  rw [hledger]
  exact .empty

theorem sound_start (request : Option Value) : Sound (ChatSseState.start request) := by
  have hitem : ItemSound none false false := ⟨rfl, fun h => absurd h (by decide)⟩
  cases request with
  | none => exact ⟨hitem, hitem, fun k tool h => by simp [ChatSseState.start] at h⟩
  | some request => exact ⟨hitem, hitem, fun k tool h => by simp [ChatSseState.start, ChatSseState.withRequest] at h⟩

variable [SerdeJson]

omit [SerdeJson] in
theorem events_complete (s : ChatSseState) :
    ∃ response : Response, response.output = s.completedOutputItems ∧ eventsOf (complete s).2 = [.completed response] :=
  ⟨_, rfl, rfl⟩

/-- Output indexes of every run: the items of a stream are announced under consecutive indexes, each before anything
else is said about it, and a completed response lists every announced item, finished exactly once, in that order. -/
theorem output_indexes (request : Option Value) (chunks : List Value) :
    let run := Emit.each handleChatChunk chunks (ChatSseState.start request)
    let events := eventsOf run.2
    IndexesInOrder events ∧
    (∀ message errorType, IndexesInOrder (events ++ eventsOf (failed message errorType run.1).2)) ∧
    ∃ (closing : List Event) (response : Response), eventsOf (finalize run.1).2 = closing ++ [Event.completed response] ∧
      IndexesInOrder (events ++ closing ++ [Event.completed response]) ∧
      (∀ i ∈ (events ++ closing).filterMap Event.addedIndex,
        (((events ++ closing).filterMap Event.doneItem).map (·.1)).count i = 1) ∧
      (∀ i ∈ ((events ++ closing).filterMap Event.doneItem).map (·.1),
        i ∈ (events ++ closing).filterMap Event.addedIndex) ∧
      response.output =
        (((events ++ closing).filterMap Event.doneItem).mergeSort fun a b => a.1 ≤ b.1).map (·.2) := by
  intro run events
  obtain ⟨hsound, hmoves⟩ := Simulates.each (fun chunk (_ : chunk ∈ chunks) => handleChatChunk_simulates chunk)
    (ChatSseState.start request) (sound_start request)
  have hconsistent : Consistent run.1.ledger (events.map Event.note) := hmoves.consistent (consistent_start request)
  have hopen : run.1.completed = false := by
    have hkept := handleChatChunks_completed chunks (ChatSseState.start request)
    cases request <;> exact hkept
  refine ⟨indexesInOrder_of_consistent hconsistent, fun message errorType => ?_, ?_⟩
  · refine indexesInOrder_of_consistent (L := run.1.ledger) ?_
    rw [List.map_append]
    exact hconsistent.other
  obtain ⟨hsound', hmoves'⟩ := Simulates.seq ensureResponseStarted_simulates closeItems_simulates run.1 hsound
  generalize hclose : Emit.seq ensureResponseStarted closeItems run.1 = closed at hsound' hmoves'
  obtain ⟨response, houtput, hcompleted⟩ := events_complete closed.1
  have hclosing : eventsOf (finalize run.1).2 = eventsOf closed.2 ++ [Event.completed response] := by
    rw [finalize_of_open hopen, ← hcompleted, ← hclose]
    simp [Emit.seq_apply]
  have hclosed : Consistent closed.1.ledger ((events ++ eventsOf closed.2).map Event.note) := by
    rw [List.map_append]
    exact hmoves'.consistent hconsistent
  have hdone : ∀ a, closed.1.Closed a := by
    rw [← hclose]
    exact closeItems_closed (ensureResponseStarted_simulates run.1 hsound).1
  have hadded := (filterMap_note (events ++ eventsOf closed.2)).1
  have hfinished := (filterMap_note (events ++ eventsOf closed.2)).2
  refine ⟨_, response, hclosing, ?_, ?_, ?_, ?_⟩
  · refine indexesInOrder_of_consistent (L := closed.1.ledger) ?_
    rw [List.map_append]
    exact hclosed.other
  · intro i hi
    rw [← hadded, hclosed.announced, List.mem_range] at hi
    rw [← hfinished]
    exact hclosed.count_finished hdone hi
  · intro i hi
    rw [← hfinished, hclosed.finished] at hi
    rw [← hadded, hclosed.announced, List.mem_range]
    exact hclosed.known i hi
  · rw [houtput, ← hfinished, hclosed.finished]
    rfl

end Lumio.Proxy
