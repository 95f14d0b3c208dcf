import Lumio.Protocol.Message

/-!
# What validated messages satisfy
-/

namespace Lumio.Protocol

theorem bind_eq_ok {ε α β : Type} {m : Except ε α} {f : α → Except ε β} {b : β} :
    m >>= f = .ok b ↔ ∃ a, m = .ok a ∧ f a = .ok b := by
  cases m with
  | error e => simp [bind, Except.bind]
  | ok a => simp [bind, Except.bind]

theorem refuse_eq_ok {c : Prop} [Decidable c] {field reason : String}
    {rest : Unit → Except WorkspaceValidationError Unit} :
    (if c then validationError field reason >>= rest else rest ()) = .ok () ↔ ¬c ∧ rest () = .ok () := by
  by_cases h : c
  · simp [h, validationError, bind, Except.bind]
  · simp [h]

theorem WorkspacePathState.tombstone_of_validate {state : WorkspacePathState} (h : state.validate = .ok ()) :
    state.tombstone = (state.kind == .tombstone) := by
  simp only [WorkspacePathState.validate, refuse_eq_ok] at h
  simpa using h.1

theorem WorkspaceSnapshotEndMessage.final_of_validateAgainst {message : WorkspaceSnapshotEndMessage}
    {begin_ : WorkspaceSnapshotBeginMessage} (h : message.validateAgainst begin_ = .ok ()) :
    message.finalRevision = begin_.finalRevision := by
  simp only [WorkspaceSnapshotEndMessage.validateAgainst, bind_eq_ok, refuse_eq_ok, not_or, not_not] at h
  obtain ⟨_, -, ⟨-, -, -, hfinal⟩, -⟩ := h
  exact hfinal

theorem WorkspaceEventMessage.states_of_validate {event : WorkspaceEventMessage} (h : event.validate = .ok ()) :
    event.pathState.validate = .ok () ∧
      (event.mutation.kind = .rename → ∃ old new, event.oldPathState = some old ∧ event.newPathState = some new ∧
        old.validate = .ok () ∧ new.validate = .ok () ∧ old.path = event.mutation.path ∧
          event.mutation.newPath = some new.path) := by
  simp only [WorkspaceEventMessage.validate, bind_eq_ok, refuse_eq_ok] at h
  obtain ⟨_, -, -, -, _, hstate, h⟩ := h
  refine ⟨hstate, fun hrename => ?_⟩
  rw [if_pos hrename] at h
  cases hold : event.oldPathState with
  | none => simp [hold, validationError] at h
  | some old =>
  cases hnew : event.newPathState with
  | none => simp [hold, hnew, validationError] at h
  | some new =>
  cases htarget : event.mutation.newPath with
  | none => simp [hold, hnew, htarget, validationError] at h
  | some expectedNewPath =>
  simp only [hold, hnew, htarget, bind_eq_ok, refuse_eq_ok] at h
  obtain ⟨_, holdValid, _, hnewValid, hpath, hnewPath, -⟩ := h
  exact ⟨old, new, rfl, rfl, holdValid, hnewValid, not_not.mp hpath, congrArg some (not_not.mp hnewPath).symm⟩

end Lumio.Protocol
