import Lumio.Sync.Lemmas.Content

/-!
# Writes to the path states

What an operation may do to the stored path states: put some given states, and drop the rows of some given
paths. Everything the processing of one message writes is among the states the message reports.
-/

namespace Lumio.Sync

open Lumio.Protocol Lumio.Fs Prog

/-- Every row is what it was, or one of `posts`; only the rows of `drops` may be gone. -/
def Rewrites (posts : List WorkspacePathState) (drops : List WorkspacePath) (before after : PathStates) : Prop :=
  ∀ path, after.lookup path = before.lookup path ∨ (path ∈ drops ∧ after.lookup path = none) ∨
    ∃ state ∈ posts, state.path = path ∧ after.lookup path = some state

namespace Rewrites

variable {posts : List WorkspacePathState} {drops : List WorkspacePath} {a b c : PathStates}

theorem of_eq (h : b = a) : Rewrites posts drops a b := fun path => .inl (by rw [h])

theorem trans (hab : Rewrites posts drops a b) (hbc : Rewrites posts drops b c) : Rewrites posts drops a c := by
  intro path
  rcases hbc path with hkept | hrest
  · rw [hkept]
    exact hab path
  · exact .inr hrest

theorem insert {state : WorkspacePathState} (h : state ∈ posts) : Rewrites posts drops a (a.insert state.path state) := by
  intro path
  by_cases hpath : path = state.path
  · subst hpath
    exact .inr (.inr ⟨state, h, rfl, by simp⟩)
  · exact .inl (AList.lookup_insert_ne hpath)

theorem erase {path : WorkspacePath} (h : path ∈ drops) : Rewrites posts drops a (a.erase path) := by
  intro other
  by_cases hpath : other = path
  · subst hpath
    exact .inr (.inl ⟨h, by simp⟩)
  · exact .inl (AList.lookup_erase_ne hpath)

theorem le_of_fresh (h : Rewrites posts drops a b) {path : WorkspacePath} {old : WorkspacePathState}
    (hstored : a.lookup path = some old) (hkept : path ∉ drops)
    (hfresh : ∀ state ∈ posts, state.path = path → old.pathRevision ≤ state.pathRevision) :
    ∃ new, b.lookup path = some new ∧ old.pathRevision ≤ new.pathRevision := by
  rcases h path with hsame | ⟨hdropped, -⟩ | ⟨state, hmem, hpath, hnew⟩
  · exact ⟨old, hsame.trans hstored, le_rfl⟩
  · exact absurd hdropped hkept
  · exact ⟨state, hnew, hfresh state hmem hpath⟩

end Rewrites

/-! ## Transactions -/

/-- A transaction body that writes nothing but `posts` and drops nothing but `drops`. -/
def WritesTx {α : Type} (posts : List WorkspacePathState) (drops : List WorkspacePath) (m : TxM α) : Prop :=
  Moves (fun s t => Rewrites posts drops s.pathStates t.pathStates) m

section

variable {α β : Type}

@[grind .] theorem recordAppliedOperation_pathStates (record : AppliedOperationRecord) :
    Keeps Db.pathStates (recordAppliedOperation record) := by
  intro db
  simp only [recordAppliedOperation, wp_bind, wp_get]
  split
  · split <;> rfl
  · rfl

@[grind .] theorem recordMutationAppliedOperation_pathStates (originClientId : ClientId) (operationId : OperationId)
    (revision : WorkspaceRevision) (bodyDigest : AppliedOperationResult) (mutation : WorkspaceMutation) :
    Keeps Db.pathStates
      (recordMutationAppliedOperation originClientId operationId revision bodyDigest mutation) := by
  unfold recordMutationAppliedOperation
  grind

namespace WritesTx

variable {posts : List WorkspacePathState} {drops : List WorkspacePath}

@[grind .] theorem bind {m : TxM α} {f : α → TxM β} (hm : WritesTx posts drops m)
    (hf : ∀ a, WritesTx posts drops (f a)) : WritesTx posts drops (m >>= f) :=
  Moves.bind Rewrites.trans hm hf

@[grind .] theorem of_keeps {m : TxM α} (h : Keeps Db.pathStates m) : WritesTx posts drops m :=
  Moves.mono h fun _ _ => .of_eq

@[grind .] theorem of_core {m : TxM α} (h : Keeps Db.core m) : WritesTx posts drops m :=
  of_keeps (h.comp fun _ _ => Db.pathStates_of_core)

@[grind .] theorem of_content {m : TxM α} (h : Keeps Db.content m) : WritesTx posts drops m :=
  of_keeps (h.comp fun _ _ => Db.pathStates_of_content)

@[grind .] theorem onlyIf {m : TxM Unit} (hm : WritesTx posts drops m) (condition : Bool) :
    WritesTx posts drops (onlyIf condition m) := by
  cases condition with
  | true => exact hm
  | false => exact of_keeps (.pure _)

theorem forTx {xs : List α} {step : α → TxM Unit} (h : ∀ x ∈ xs, WritesTx posts drops (step x)) :
    WritesTx posts drops (forTx xs step) := by
  induction xs with
  | nil => exact of_keeps (.pure _)
  | cons x xs ih => exact bind (h x (by simp)) fun _ => ih fun y hy => h y (by simp [hy])

theorem putPathState {state : WorkspacePathState} (h : state ∈ posts) :
    WritesTx posts drops (putPathState state) := by
  intro db
  unfold Sync.putPathState
  split
  · exact Rewrites.of_eq rfl
  · exact Rewrites.insert h

@[grind .] theorem putPosts : WritesTx posts drops (Sync.forTx posts Sync.putPathState) :=
  forTx fun _ h => putPathState h

theorem removePathState {path : WorkspacePath} (h : path ∈ drops) :
    WritesTx posts drops (removePathState path) := fun _ => Rewrites.erase h

end WritesTx

end

/-! ## Calls -/

/-- A program that writes nothing but `posts` and drops nothing but `drops`. -/
def Writes {F α : Type} (posts : List WorkspacePathState) (drops : List WorkspacePath) (m : EngineM F α) : Prop :=
  Moves (fun s t => Rewrites posts drops s.db.pathStates t.db.pathStates) m

def Engine.pathStates {F : Type} (engine : Engine F) : PathStates := engine.db.pathStates

theorem Engine.pathStates_of_core {F : Type} {s t : Engine F} (h : s.core = t.core) :
    s.pathStates = t.pathStates := by
  have hdb : s.core.db = t.core.db := by rw [h]
  exact Db.pathStates_of_core hdb

section

variable {F α β : Type}

@[grind .] theorem keeps_pathStates {m : EngineM F α} (h : Keeps Engine.core m) : Keeps Engine.pathStates m :=
  h.comp fun _ _ => Engine.pathStates_of_core

namespace Writes

variable {posts : List WorkspacePathState} {drops : List WorkspacePath}

@[grind .] theorem bind {m : EngineM F α} {f : α → EngineM F β} (hm : Writes posts drops m)
    (hf : ∀ a, Writes posts drops (f a)) : Writes posts drops (m >>= f) :=
  Moves.bind Rewrites.trans hm hf

theorem of_keeps {m : EngineM F α} (h : Keeps Engine.pathStates m) : Writes posts drops m :=
  Moves.mono h fun _ _ => .of_eq

@[grind .] theorem of_core {m : EngineM F α} (h : Keeps Engine.core m) : Writes posts drops m :=
  of_keeps (keeps_pathStates h)

@[grind .] theorem transaction {body : TxM α} (h : WritesTx posts drops body) :
    Writes posts drops (transaction (F := F) body) := by
  intro engine
  rw [wp_transaction]
  exact wp_mono (h engine.db) (fun _ _ hdb => hdb) (fun _ _ _ => .of_eq rfl)

end Writes

end

end Lumio.Sync
