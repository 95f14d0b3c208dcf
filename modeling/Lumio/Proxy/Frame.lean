import Lumio.Proxy.Stream

/-!
# What the steps of a delta leave alone

A delta neither starts nor ends a response: all its steps keep the same part of the state and write only events about
items.
-/

namespace Lumio.Proxy

/-- An event that neither starts nor ends a response. -/
def Sse.isPlain : Sse → Bool
  | event e => !e.isTerminal && !e.isCreated
  | doneMarker => false

def ChatSseState.fixed (s : ChatSseState) : Bool × Bool × Text × CodexToolContext × Option Value :=
  (s.responseStarted, s.completed, s.responseId, s.toolContext, s.originalRequest)

structure Tame (f : Step) : Prop where
  fixed : Emit.Keeps ChatSseState.fixed f
  plain : ∀ s, (f s).2.all Sse.isPlain = true

namespace Tame

variable {f g : Step}

theorem skip : Tame Emit.skip := ⟨.skip, fun _ => rfl⟩

theorem seq (hf : Tame f) (hg : Tame g) : Tame (Emit.seq f g) := by
  refine ⟨.seq hf.fixed hg.fixed, fun s => ?_⟩
  rw [Emit.seq_apply, List.all_append, hf.plain, hg.plain]
  rfl

theorem each {α : Type} {f : α → Step} {xs : List α} (h : ∀ x ∈ xs, Tame (f x)) : Tame (Emit.each f xs) := by
  induction xs with
  | nil => exact .skip
  | cons x xs ih => exact .seq (h x (by simp)) (ih fun y hy => h y (by simp [hy]))

theorem onlyIf {c : ChatSseState → Bool} (hf : Tame f) : Tame (Emit.onlyIf c f) := by
  refine ⟨.onlyIf hf.fixed, fun s => ?_⟩
  unfold Emit.onlyIf
  split
  · exact hf.plain s
  · rfl

theorem ite {c : Prop} [Decidable c] (hf : Tame f) (hg : Tame g) : Tame (if c then f else g) := by
  split
  · exact hf
  · exact hg

theorem forSome {α : Type} {value : Option α} {f : α → Step} (hf : ∀ a, Tame (f a)) : Tame (Emit.forSome value f) := by
  cases value with
  | none => exact skip
  | some a => exact hf a

theorem of_withThink (h : ∀ s, f s = (s, []) ∨ ∃ g mode buffer, Tame g ∧ f s = g (s.withThink mode buffer)) :
    Tame f := by
  constructor
  · intro s
    rcases h s with hs | ⟨g, mode, buffer, hg, hs⟩
    · rw [hs]
    · rw [hs]; exact hg.fixed (s.withThink mode buffer)
  · intro s
    rcases h s with hs | ⟨g, mode, buffer, hg, hs⟩
    · rw [hs]; rfl
    · rw [hs]; exact hg.plain _

end Tame

variable (chunk : Value) (delta : Text)

theorem pushReasoningDelta_tame : Tame (pushReasoningDelta delta) :=
  .seq (.onlyIf ⟨fun _ => rfl, fun _ => rfl⟩) ⟨fun _ => rfl, fun _ => rfl⟩

theorem pushTextDelta_tame : Tame (pushTextDelta delta) :=
  .seq (.onlyIf ⟨fun _ => rfl, fun _ => rfl⟩) ⟨fun _ => rfl, fun _ => rfl⟩

theorem finalizeReasoning_tame : Tame finalizeReasoning := .onlyIf ⟨fun _ => rfl, fun _ => rfl⟩

theorem finalizeText_tame : Tame finalizeText := .onlyIf ⟨fun _ => rfl, fun _ => rfl⟩

theorem finishThenText_tame : Tame (Emit.all [finalizeReasoning, pushTextDelta delta]) :=
  .seq finalizeReasoning_tame (.seq (pushTextDelta_tame delta) .skip)

theorem pushThinkBlock_tame (reasoning answer : Text) : Tame (pushThinkBlock reasoning answer) :=
  .seq (.ite .skip (.seq (pushReasoningDelta_tame reasoning) (.seq finalizeReasoning_tame .skip)))
    (.seq (.ite .skip (pushTextDelta_tame answer)) .skip)

theorem drainCompleteInlineThink_tame : Tame drainCompleteInlineThink := by
  refine .of_withThink fun s => ?_
  unfold drainCompleteInlineThink
  split
  · exact .inl rfl
  · exact .inr ⟨_, _, _, pushThinkBlock_tame _ _, rfl⟩

theorem pushContentDelta_tame : Tame (pushContentDelta delta) := by
  refine .of_withThink fun s => ?_
  unfold pushContentDelta
  split
  · exact .inr ⟨_, _, _, finishThenText_tame delta, rfl⟩
  · split
    · exact .inr ⟨_, _, _, .skip, rfl⟩
    · exact .inr ⟨_, _, _, drainCompleteInlineThink_tame, rfl⟩
    · exact .inr ⟨_, _, _, finishThenText_tame _, rfl⟩
  · exact .inr ⟨_, _, _, drainCompleteInlineThink_tame, rfl⟩

theorem flushInlineThinkAtBoundary_tame : Tame flushInlineThinkAtBoundary := by
  refine .of_withThink fun s => ?_
  unfold flushInlineThinkAtBoundary
  split
  · exact .inl rfl
  · split
    · exact .inr ⟨_, _, _, .skip, rfl⟩
    · exact .inr ⟨_, _, _, finishThenText_tame _, rfl⟩
  · split
    · exact .inr ⟨_, _, _, pushThinkBlock_tame _ _, rfl⟩
    · exact .inr ⟨_, _, _, pushThinkBlock_tame _ _, rfl⟩

theorem announceTool_tame (k : Nat) : Tame (announceTool k) := ⟨fun _ => rfl, fun _ => rfl⟩

theorem pushToolArguments_tame (k : Nat) (delta : Text) : Tame (pushToolArguments k delta) := by
  refine ⟨fun _ => rfl, fun s => ?_⟩
  simp only [pushToolArguments, pushSse, Emit.say_apply]
  split
  · rfl
  · split
    · unfold toolCallDeltaEvents
      split <;> rfl
    · rfl

theorem tellToolCallDelta_tame (delta : ToolCallDelta) : Tame (tellToolCallDelta delta) := by
  refine .of_withThink fun s => ?_
  unfold tellToolCallDelta
  dsimp only
  split
  · exact .inr ⟨_, _, _, .seq (announceTool_tame _) (.seq (pushToolArguments_tame _ _) .skip), rfl⟩
  · exact .inr ⟨_, _, _, pushToolArguments_tame _ _, rfl⟩

theorem pushToolCallDelta_tame (toolCall : Value) : Tame (pushToolCallDelta toolCall) :=
  .seq ⟨fun _ => rfl, fun _ => rfl⟩ (.seq (tellToolCallDelta_tame _) .skip)

theorem pushToolCalls_tame (toolCalls : List Value) : Tame (pushToolCalls toolCalls) :=
  .seq flushInlineThinkAtBoundary_tame
    (.seq finalizeReasoning_tame (.seq (.each fun toolCall _ => pushToolCallDelta_tame toolCall) .skip))

theorem handleDelta_tame (delta : Value) : Tame (handleDelta delta) :=
  .seq (.forSome pushReasoningDelta_tame) (.seq (.forSome pushContentDelta_tame) (.seq (.forSome pushToolCalls_tame) .skip))

theorem handleChoice_tame (choice : Value) : Tame (handleChoice choice) :=
  .seq (.forSome handleDelta_tame) ⟨fun _ => rfl, fun _ => rfl⟩

/-- What a chunk does after the response has been started. -/
def chunkBody (chunk : Value) : Step := Emit.all [
  Emit.update (readUsage chunk),
  Emit.forSome (firstChoice chunk) handleChoice]

theorem chunkBody_tame : Tame (chunkBody chunk) := by
  refine .seq ⟨fun s => ?_, fun _ => rfl⟩ (.seq (.forSome handleChoice_tame) .skip)
  simp only [Emit.update_apply, readUsage]
  split <;> rfl

theorem handleChatChunk_eq (s : ChatSseState) :
    handleChatChunk chunk s = Emit.seq ensureResponseStarted (chunkBody chunk) (readChunkHeader chunk s) := rfl

section Finish

variable [SerdeJson]

theorem finalizeTool_tame (k : Nat) : Tame (finalizeTool k) := by
  refine .onlyIf (.seq (.onlyIf (announceTool_tame k)) (.seq ⟨fun _ => rfl, fun s => ?_⟩ .skip))
  simp only [finishTool, toolCallDoneEvent]
  split <;> rfl

theorem finalizeTools_tame : Tame finalizeTools :=
  ⟨fun s => (Tame.each fun k _ => finalizeTool_tame k).fixed s, fun s => (Tame.each fun k _ => finalizeTool_tame k).plain s⟩

/-- The steps of `finalize` between the start of the response and its completion. -/
def closeItems : Step := Emit.all [flushInlineThinkAtBoundary, finalizeReasoning, finalizeText, finalizeTools]

theorem closeItems_tame : Tame closeItems :=
  .seq flushInlineThinkAtBoundary_tame
    (.seq finalizeReasoning_tame (.seq finalizeText_tame (.seq finalizeTools_tame .skip)))

theorem finalize_of_open {s : ChatSseState} (h : s.completed = false) :
    finalize s = Emit.all [ensureResponseStarted, closeItems, complete] s := by
  unfold finalize
  rw [Emit.onlyIf_of_true (by simp [h])]
  have happend : ∀ t, Emit.all [flushInlineThinkAtBoundary, finalizeReasoning, finalizeText, finalizeTools, complete] t =
      Emit.all [closeItems, complete] t :=
    Emit.all_append [flushInlineThinkAtBoundary, finalizeReasoning, finalizeText, finalizeTools] [complete]
  rw [Emit.all_cons, Emit.seq_apply, happend]
  rfl

theorem finalize_of_completed {s : ChatSseState} (h : s.completed = true) : finalize s = (s, []) :=
  Emit.onlyIf_of_false (by simp [h]) _

end Finish

/-! ## The table of tool calls -/

section Tools

variable {s : ChatSseState}

@[simp] theorem toolState_setTool (k : Nat) (tool : ToolCallState) : (s.setTool k tool).toolState k = tool := by
  unfold ChatSseState.toolState ChatSseState.setTool
  rw [AList.lookup_insert]
  rfl

theorem toolState_setTool_of_ne {j k : Nat} (h : j ≠ k) (tool : ToolCallState) :
    (s.setTool k tool).toolState j = s.toolState j := by
  unfold ChatSseState.toolState ChatSseState.setTool
  rw [AList.lookup_insert_ne h]

end Tools

/-! ## Whole chunks -/

theorem ensureResponseStarted_completed : Emit.Keeps (·.completed) ensureResponseStarted := .onlyIf fun _ => rfl

theorem handleChatChunk_completed : Emit.Keeps (·.completed) (handleChatChunk chunk) := by
  intro s
  have hbody := (chunkBody_tame chunk).fixed (ensureResponseStarted (readChunkHeader chunk s)).1
  have hcompleted := congrArg (fun fixed => fixed.2.1) hbody
  exact hcompleted.trans (ensureResponseStarted_completed (readChunkHeader chunk s))

theorem handleChatChunks_completed (chunks : List Value) :
    Emit.Keeps (·.completed) (Emit.each handleChatChunk chunks) := .each fun chunk _ => handleChatChunk_completed chunk

end Lumio.Proxy
