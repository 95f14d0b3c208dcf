import Lumio.Sync.Lemmas.Frame
import Lumio.Sync.Streams.Moves

/-!
# The content of the store

The content is what the store knows of the workspace and of its operations: path states, receipts, outbox,
intents and conflicts. Staging a stream, moving the cursor and keeping the apply journal do not touch it.
-/

namespace Lumio.Sync

open Lumio.Protocol Lumio.Fs Prog

def Db.content (db : Db) : Db :=
  { db with
    cursor := ⟨0, 0, none, none⟩
    stream := none
    entries := ∅
    items := ∅
    streamConflicts := ∅
    applyJournals := ∅ }

def Db.retained (db : Db) : Db :=
  { db with cursor := ⟨0, 0, none, none⟩, stream := none, entries := ∅, items := ∅, applyJournals := ∅ }

class OfRetained {β : Type} (π : Db → β) : Prop where
  of_retained : ∀ a b : Db, a.retained = b.retained → π a = π b

instance : OfRetained Db.retained := ⟨fun _ _ h => h⟩

instance : OfRetained Db.content where
  of_retained a b h := by
    have hcontent : ∀ db : Db, db.content = db.retained.content := fun _ => rfl
    rw [hcontent a, hcontent b, h]

theorem Keeps.of_retained {α β : Type} {π : Db → β} [OfRetained π] {m : TxM α} (h : Keeps Db.retained m) :
    Keeps π m := h.comp OfRetained.of_retained

theorem Db.pathStates_of_core {a b : Db} (h : a.core = b.core) : a.pathStates = b.pathStates := by
  have hpaths : a.core.pathStates = b.core.pathStates := by rw [h]
  exact hpaths

theorem Db.pathStates_of_content {a b : Db} (h : a.content = b.content) : a.pathStates = b.pathStates := by
  have hpaths : a.content.pathStates = b.content.pathStates := by rw [h]
  exact hpaths

/-! ## Cursor -/

section

variable {β : Type} {π : Db → β} [OfRetained π]

variable (revision : WorkspaceRevision)

theorem setPendingAck_content : Keeps π (setPendingAck revision) := by
  apply Keeps.of_retained
  intro db
  simp only [setPendingAck, wp_bind, wp_get]
  split <;> rfl

theorem setLastAckRevision_content : Keeps π (setLastAckRevision revision) := by
  apply Keeps.of_retained
  intro db
  simp only [setLastAckRevision, wp_bind, wp_get]
  split <;> rfl

theorem setLastAppliedRevision_content : Keeps π (setLastAppliedRevision revision) := by
  apply Keeps.of_retained
  intro db
  simp only [setLastAppliedRevision, wp_bind, wp_get]
  split <;> rfl

theorem clearPendingAck_content : Keeps π clearPendingAck := Keeps.of_retained (.modify fun _ => rfl)

theorem clearPendingSegmentAck_content : Keeps π clearPendingSegmentAck := Keeps.of_retained (.modify fun _ => rfl)

/-! ## Stored stream -/

variable [Env]

omit [Env] [OfRetained π] in
theorem clearStream_content : Keeps Db.content clearStream := .modify fun _ => rfl

omit [Env] in
theorem setStreamEndReceived_content : Keeps π setStreamEndReceived := by
  apply Keeps.of_retained
  intro db
  simp only [setStreamEndReceived, wp_bind, wp_get]
  split <;> rfl

theorem putStreamEntry_content (entry : WorkspaceSnapshotEntryMessage) (status : StreamItemStatus) :
    Keeps π (putStreamEntry entry status) := by
  apply Keeps.of_retained
  intro db
  refine wp_mono (putStreamEntry_wp entry status db) (fun _ after h => ?_) (fun _ after h => h ▸ rfl)
  cases h <;> rfl

omit [Env] in
theorem putStreamRevisionItem_content (streamId : StreamId) (item : StreamRevisionItem)
    (status : StreamItemStatus) : Keeps π (putStreamRevisionItem streamId item status) := by
  apply Keeps.of_retained
  intro db
  refine wp_mono (putStreamRevisionItem_wp streamId item status db) (fun _ after h => ?_) (fun _ after h => h ▸ rfl)
  cases h <;> rfl

theorem putStreamEvent_content (event : WorkspaceEventMessage) (status : StreamItemStatus) :
    Keeps π (putStreamEvent event status) := by
  unfold putStreamEvent
  split
  · exact .throw _
  split
  · exact .throw _
  · exact putStreamRevisionItem_content _ _ _

theorem putStreamConflictResolved_content (message : WorkspaceConflictResolvedMessage)
    (status : StreamItemStatus) : Keeps π (putStreamConflictResolved message status) := by
  unfold putStreamConflictResolved
  split
  · exact .throw _
  split
  · exact .throw _
  · refine .bind .get fun db => ?_
    split
    · exact .throw _
    · exact putStreamRevisionItem_content _ _ _

theorem commitResolutionSource_content (message : WorkspaceConflictResolvedMessage) (status : StreamItemStatus)
    (preserveNewerGeneration : Bool) (source : ConflictResolutionSource) :
    Keeps π (commitResolutionSource message status preserveNewerGeneration source) := by
  cases source with
  | stream =>
    exact .bind (.onlyIf (setLastAppliedRevision_content _) _) fun _ =>
      .bind (putStreamConflictResolved_content _ _) fun _ => .pure _
  | live =>
    exact .onlyIf (.bind (setLastAppliedRevision_content _) fun _ => setPendingAck_content _) _

theorem settleResolutionSource_content (message : WorkspaceConflictResolvedMessage) (cursor : WorkspaceCursor)
    (source : ConflictResolutionSource) : Keeps π (settleResolutionSource message cursor source) := by
  cases source with
  | stream => exact .bind (putStreamConflictResolved_content _ _) fun _ => .pure _
  | live =>
    exact .onlyIf (.bind (.onlyIf (setLastAppliedRevision_content _) _) fun _ =>
      .onlyIf (setPendingAck_content _) _) _

end

attribute [grind .] setPendingAck_content setLastAckRevision_content setLastAppliedRevision_content
  clearPendingAck_content clearPendingSegmentAck_content clearStream_content
  setStreamEndReceived_content putStreamEntry_content putStreamRevisionItem_content
  putStreamEvent_content putStreamConflictResolved_content

/-! ## Path states and receipts -/

/-- The outbox, the intents and the conflicts: the store without what it has taken over from the server. -/
def Db.outward (db : Db) : Db :=
  { db.retained with pathStates := ∅, appliedOperations := ∅ }

/-- A part of the store that can be read off the outbox, the intents and the conflicts. -/
class OfOutward {β : Type} (π : Db → β) : Prop where
  of_outward : ∀ a b : Db, a.outward = b.outward → π a = π b

instance {β : Type} {π : Db → β} [OfOutward π] : OfRetained π where
  of_retained a b h := by
    have houtward : ∀ db : Db, db.outward = db.retained.outward := fun _ => rfl
    exact OfOutward.of_outward a b (by rw [houtward a, houtward b, h])

section

variable {β : Type} {π : Db → β} [OfOutward π]

theorem Keeps.of_outward {α : Type} {m : TxM α} (h : Keeps Db.outward m) : Keeps π m :=
  h.comp OfOutward.of_outward

theorem putPathState_outward (state : WorkspacePathState) : Keeps π (putPathState state) := by
  apply Keeps.of_outward
  intro db
  unfold putPathState
  split <;> rfl

theorem removePathState_outward (path : WorkspacePath) : Keeps π (removePathState path) :=
  Keeps.of_outward (.modify fun _ => rfl)

theorem recordAppliedOperation_outward (record : AppliedOperationRecord) :
    Keeps π (recordAppliedOperation record) := by
  apply Keeps.of_outward
  intro db
  simp only [recordAppliedOperation, wp_bind, wp_get]
  split
  · split <;> rfl
  · rfl

theorem recordMutationAppliedOperation_outward (originClientId : ClientId) (operationId : OperationId)
    (revision : WorkspaceRevision) (bodyDigest : AppliedOperationResult) (mutation : WorkspaceMutation) :
    Keeps π (recordMutationAppliedOperation originClientId operationId revision bodyDigest mutation) := by
  unfold recordMutationAppliedOperation
  split
  · exact .throw _
  split
  · exact .throw _
  · exact recordAppliedOperation_outward _

theorem commitJournal_outward (applyId : Option ApplyId) : Keeps π (commitJournal applyId) := by
  refine Keeps.of_outward ((commitJournal_exceptJournals applyId).comp fun a b h => ?_)
  have houtward : ∀ db : Db, db.outward = db.exceptJournals.outward := fun _ => rfl
  rw [houtward a, houtward b, h]

end

/-! ## Rows of the outbox -/

structure Restaged (before after : Db) : Prop where
  rest : { after with outbox := ∅ } = { before with outbox := ∅ }
  rows : ∀ {operationId row}, after.outbox.lookup operationId = some row →
    ∃ old, before.outbox.lookup operationId = some old ∧ row.body = old.body

theorem Restaged.refl (db : Db) : Restaged db db := ⟨rfl, fun hrow => ⟨_, hrow, rfl⟩⟩

theorem removeOutbox_restages (operationId : OperationId) : Moves Restaged (removeOutbox operationId) := by
  refine fun db => ⟨rfl, fun {id row} hrow => ?_⟩
  exact ⟨row, (Table.lookup_erase_iff.mp hrow).2, rfl⟩

theorem setOutboxStage_restages (operationId : OperationId) (stage : OutboxStage) :
    Moves Restaged (setOutboxStage operationId stage) := by
  intro db
  simp only [setOutboxStage, wp_bind, wp_get]
  split
  · exact .refl db
  rename_i existing hexisting
  split
  · refine ⟨rfl, fun {id row} hrow => ?_⟩
    rcases (Table.lookup_insert_iff row).mp hrow with ⟨rfl, rfl⟩ | ⟨-, hold⟩
    · exact ⟨existing, hexisting, rfl⟩
    · exact ⟨row, hold, rfl⟩
  · exact .refl db

theorem replayAwaitingBlobMutations_restages : Moves Restaged replayAwaitingBlobMutations := by
  refine fun db => ⟨rfl, fun {id row} hrow => ?_⟩
  obtain ⟨old, hold, rfl⟩ := Table.lookup_mapRows.mp hrow
  refine ⟨old, hold, ?_⟩
  split <;> rfl

theorem dispatchRow_body (row : OutboxRecord) : (dispatchRow row).body = row.body := by
  unfold dispatchRow
  split <;> rfl

theorem lookup_dispatchAll {records : List OutboxRecord} {outbox : Table OperationId OutboxRecord}
    {operationId : OperationId} {row : OutboxRecord}
    (hrow : (records.foldl (fun outbox record => Table.modify record.operationId dispatchRow outbox) outbox).lookup
      operationId = some row) : ∃ old, outbox.lookup operationId = some old ∧ row.body = old.body := by
  induction records generalizing outbox with
  | nil => exact ⟨row, hrow, rfl⟩
  | cons record records ih =>
    obtain ⟨middle, hmiddle, hbody⟩ := ih hrow
    obtain ⟨old, hold, rfl | rfl⟩ := Table.lookup_modify hmiddle
    · exact ⟨middle, hold, hbody⟩
    · exact ⟨old, hold, hbody.trans (dispatchRow_body old)⟩

theorem pendingOutboxReplay_restages (limit : Nat) : Moves Restaged (pendingOutboxReplay limit) :=
  fun _ => ⟨rfl, lookup_dispatchAll⟩

end Lumio.Sync
