import Lumio.Sync.Paths.Items

/-!
# A snapshot that waits for its acknowledgement

A finished snapshot stream stays stored until its acknowledgement is confirmed, and every call that resumes the
inbound work finishes it again. This module says what such a round leaves alone at a path the snapshot has.
-/

namespace Lumio.Sync

open Lumio.Protocol Lumio.Fs Prog

/-! ## The waiting store -/

/-- Every stored conflict is of the staged generation, or is only kept for its outstanding resolution. -/
def Db.conflictsReplaced (db : Db) : Prop :=
  ∀ conflictId conflict, db.conflicts.lookup conflictId = some conflict →
    conflict.created.conflictId = conflictId ∧
    match db.streamConflicts.lookup conflictId with
    | some staged => staged.created.conflictRevision = conflict.created.conflictRevision
    | none => conflict.resolution.isSome

structure Waiting (active : StreamState) (db : Db) : Prop where
  stored : db.stream = some active
  mode : active.mode = .snapshot
  ended : active.endReceived = true
  ready : db.streamItemsReady active = true
  unacknowledged : db.cursor.lastAckRevision < active.finalRevision
  stagedIds : ∀ conflictId staged, db.streamConflicts.lookup conflictId = some staged →
    staged.created.conflictId = conflictId
  conflicts : db.conflictsReplaced

def Db.noIntent (db : Db) (path : WorkspacePath) : Prop :=
  ∀ key row, db.localIntents.lookup key = some row → path ∉ (desiredFromIntent row.intent).paths

/-- Every outbox mutation of `db` on the path is one of `base`. -/
def Db.noneAdded (base db : Db) (path : WorkspacePath) : Prop :=
  ∀ operationId row mutation, db.outbox.lookup operationId = some row → row.body = .mutation mutation →
    path ∈ mutationPaths mutation →
      ∃ row', base.outbox.lookup operationId = some row' ∧ row'.body = .mutation mutation

/-- What holds at a path of the waiting snapshot, compared with an earlier store: it is still stored, and without a
deferred change that names it no mutation on it has been added. -/
structure Steady (active : StreamState) (path : WorkspacePath) (base db : Db) : Prop where
  waiting : Waiting active db
  contained : db.snapshotStreamContainsPath path = true
  stored : (base.pathStates.lookup path).isSome → (db.pathStates.lookup path).isSome
  quiet : base.noIntent path → db.noIntent path ∧ base.noneAdded db path

/-- What `Steady` depends on. -/
def Db.steadyPart (db : Db) : Db :=
  { db with
    cursor := ⟨db.cursor.lastAckRevision, 0, none, none⟩
    appliedOperations := ∅
    applyJournals := ∅ }

section

variable {active : StreamState} {path : WorkspacePath} {base : Db}

theorem Waiting.of_steadyPart {s t : Db} (h : t.steadyPart = s.steadyPart) (hs : Waiting active s) : Waiting active t := by
  have hfields : t.stream = s.stream ∧ t.entries = s.entries ∧ t.items = s.items ∧
      t.streamConflicts = s.streamConflicts ∧ t.conflicts = s.conflicts ∧
      t.cursor.lastAckRevision = s.cursor.lastAckRevision := by
    simp only [Db.steadyPart, Db.mk.injEq, WorkspaceCursor.mk.injEq] at h
    tauto
  obtain ⟨hstream, hentries, hitems, hstaged, hconflicts, hack⟩ := hfields
  have hready := hs.ready
  refine ⟨hstream.trans hs.stored, hs.mode, hs.ended, ?_, hack ▸ hs.unacknowledged, ?_, ?_⟩
  · have hsummary : t.streamTableSummary = s.streamTableSummary := by
      simp only [Db.streamTableSummary, hentries, hitems, hstaged]
    unfold Db.streamItemsReady at hready ⊢
    rw [hsummary]
    exact hready
  · rw [hstaged]
    exact hs.stagedIds
  · simpa only [Db.conflictsReplaced, hstaged, hconflicts] using hs.conflicts

theorem Steady.of_steadyPart {s t : Db} (h : t.steadyPart = s.steadyPart) (hs : Steady active path base s) :
    Steady active path base t := by
  have hfields : t.entries = s.entries ∧ t.pathStates = s.pathStates ∧ t.localIntents = s.localIntents ∧
      t.outbox = s.outbox := by
    simp only [Db.steadyPart, Db.mk.injEq] at h
    tauto
  obtain ⟨hentries, hpaths, hintents, houtbox⟩ := hfields
  refine ⟨hs.waiting.of_steadyPart h, ?_, ?_, ?_⟩
  · simpa only [Db.snapshotStreamContainsPath, hentries] using hs.contained
  · rw [hpaths]
    exact hs.stored
  · simpa only [Db.noIntent, Db.noneAdded, hintents, houtbox] using hs.quiet

theorem steady_of_steadyPart {α : Type} {m : TxM α} (h : Keeps Db.steadyPart m) : Maintains (Steady active path base) m :=
  .of_keeps h fun _ _ => Steady.of_steadyPart

/-! ## Writes to the store -/

theorem removePathState_steady {other : WorkspacePath} (h : path ≠ other) :
    Maintains (Steady active path base) (removePathState other) := by
  intro db hdb
  refine ⟨{ hdb.waiting with }, hdb.contained, fun hbase => ?_, hdb.quiet⟩
  rw [AList.lookup_erase_ne h]
  exact hdb.stored hbase

theorem putPathState_steady (state : WorkspacePathState) : Maintains (Steady active path base) (putPathState state) := by
  intro db hdb
  unfold putPathState
  split
  · exact hdb
  refine ⟨{ hdb.waiting with }, hdb.contained, fun hbase => ?_, hdb.quiet⟩
  by_cases hpath : path = state.path
  · rw [hpath, AList.lookup_insert]
    rfl
  · rw [AList.lookup_insert_ne hpath]
    exact hdb.stored hbase

theorem Steady.of_outbox {db : Db} {outbox : Table OperationId OutboxRecord} (hdb : Steady active path base db)
    (h : base.noIntent path → ∀ operationId row mutation, outbox.lookup operationId = some row →
      row.body = .mutation mutation → path ∈ mutationPaths mutation →
        ∃ row', db.outbox.lookup operationId = some row' ∧ row'.body = .mutation mutation) :
    Steady active path base { db with outbox } := by
  refine ⟨{ hdb.waiting with }, hdb.contained, hdb.stored, fun hbase => ?_⟩
  refine ⟨(hdb.quiet hbase).1, fun operationId row mutation hrow hbody hmem => ?_⟩
  obtain ⟨row', hrow', hbody'⟩ := h hbase operationId row mutation hrow hbody hmem
  exact (hdb.quiet hbase).2 operationId row' mutation hrow' hbody' hmem

theorem enqueueMutationAt_steady [Env] {mutation : WorkspaceMutation} {createdAtMs : Int}
    (h : base.noIntent path → path ∉ mutationPaths mutation) :
    Maintains (Steady active path base) (enqueueMutationAt mutation createdAtMs) := by
  intro db hdb
  unfold enqueueMutationAt
  split
  · exact hdb
  split
  · exact hdb
  have hinsert : ∀ row : OutboxRecord, row.body = .mutation mutation →
      Steady active path base { db with outbox := db.outbox.insert mutation.operationId row } := by
    intro row hbody
    refine hdb.of_outbox fun hbase operationId row' mutation' hrow' hbody' hmem => ?_
    rcases (Table.lookup_insert_iff row').mp hrow' with ⟨-, rfl⟩ | ⟨-, hold⟩
    · rw [hbody] at hbody'
      cases hbody'
      exact absurd hmem (h hbase)
    · exact ⟨row', hold, hbody'⟩
  simp only [enqueueOutbox, wp_bind, wp_get]
  split
  · split
    · exact hdb
    split
    · exact hdb
    · exact hinsert _ rfl
  · exact hinsert _ rfl

theorem removeOutbox_steady (operationId : OperationId) : Maintains (Steady active path base) (removeOutbox operationId) := by
  intro db hdb
  refine hdb.of_outbox fun _ other row mutation hrow hbody _ => ⟨row, ?_, hbody⟩
  by_cases hid : other = operationId
  · rw [hid, AList.lookup_erase] at hrow
    cases hrow
  · rwa [AList.lookup_erase_ne hid] at hrow

theorem Steady.of_intents {db : Db} {localIntents : Table WorkspacePath LocalIntentRecord}
    (hdb : Steady active path base db)
    (h : ∀ key row, localIntents.lookup key = some row → db.localIntents.lookup key = some row ∨
      path ∉ (desiredFromIntent row.intent).paths) : Steady active path base { db with localIntents } := by
  refine ⟨{ hdb.waiting with }, hdb.contained, hdb.stored, fun hbase => ?_⟩
  refine ⟨fun key row hrow => ?_, (hdb.quiet hbase).2⟩
  rcases h key row hrow with hold | hnot
  · exact (hdb.quiet hbase).1 key row hold
  · exact hnot

theorem removeLocalIntent_steady (key : WorkspacePath) :
    Maintains (Steady active path base) (removeLocalIntent key) := by
  intro db hdb
  refine hdb.of_intents fun other row hrow => .inl ?_
  by_cases hkey : other = key
  · rw [hkey, AList.lookup_erase] at hrow
    cases hrow
  · rwa [AList.lookup_erase_ne hkey] at hrow

theorem putLocalIntent_steady {key : WorkspacePath} {intent : LocalIntent} {updatedAtMs : Int}
    (h : path ∉ (desiredFromIntent intent).paths) :
    Maintains (Steady active path base) (putLocalIntent key intent updatedAtMs) := by
  intro db hdb
  refine hdb.of_intents fun other row hrow => ?_
  rcases (Table.lookup_insert_iff row).mp hrow with ⟨-, rfl⟩ | ⟨-, hold⟩
  · exact .inr h
  · exact .inl hold

theorem forTx_steady {α : Type} {xs : List α} {step : α → TxM Unit}
    (h : ∀ x ∈ xs, Maintains (Steady active path base) (step x)) : Maintains (Steady active path base) (forTx xs step) := .forM h

end

end Lumio.Sync
