import Lumio.Sync.Ack.Defs
import Lumio.Sync.Streams.Moves

/-!
# What the transactions do to the acknowledgement view
-/

namespace Lumio.Sync

open Lumio.Protocol Lumio.Fs Prog

/-! ## Receipts and rows -/

theorem Receipts.Grow.refl (receipts : Receipts) : Receipts.Grow receipts receipts := fun _ _ h => h

theorem Receipts.Grow.trans {a b c : Receipts} (hab : Receipts.Grow a b) (hbc : Receipts.Grow b c) :
    Receipts.Grow a c := fun key record h => hbc key record (hab key record h)

theorem Processed.grow {before after : Receipts} {item : StreamRevisionItem} (h : Processed before item)
    (grow : Receipts.Grow before after) : Processed after item := by
  cases item with
  | event event =>
    obtain ⟨record, hlookup, hrecord⟩ := h
    exact ⟨record, grow _ _ hlookup, hrecord⟩
  | conflictResolved message =>
    obtain ⟨record, hlookup, hrecord⟩ := h
    exact ⟨record, grow _ _ hlookup, hrecord⟩

namespace AckStore.Row

theorem refl (store : AckStore) : Row store store := ⟨rfl, le_rfl, rfl, .refl _⟩

theorem trans {a b c : AckStore} (hab : Row a b) (hbc : Row b c) : Row a c where
  cursor := by rw [hbc.cursor, hab.cursor]
  applied := hab.applied.trans hbc.applied
  final := hbc.final.trans hab.final
  receipts := hab.receipts.trans hbc.receipts

theorem of_eq {a b : AckStore} (h : b = a) : Row a b := h ▸ refl a

end AckStore.Row

/-! ## Frames -/

theorem Db.ack_of_core {a b : Db} (h : a.core = b.core) : a.ack = b.ack := by
  have hcore : ∀ db : Db, db.ack = db.core.ack := fun _ => rfl
  rw [hcore a, hcore b, h]

theorem Engine.ack_of_core {F : Type} {s t : Engine F} (h : s.core = t.core) : s.ack = t.ack := by
  have hcore : ∀ e : Engine F, e.ack = e.core.ack := fun _ => rfl
  rw [hcore s, hcore t, h]

section

variable {F α : Type}

theorem keeps_ack {m : EngineM F α} (h : Keeps Engine.core m) : Keeps Engine.ack m :=
  h.comp fun _ _ => Engine.ack_of_core

theorem keeps_ackTx {m : TxM α} (h : Keeps Db.core m) : Keeps Db.ack m := h.comp fun _ _ => Db.ack_of_core

@[grind .] theorem putPathState_ack (state : WorkspacePathState) : Keeps Db.ack (putPathState state) := by
  intro db
  unfold putPathState
  split <;> rfl

@[grind .] theorem removePathState_ack (path : WorkspacePath) : Keeps Db.ack (removePathState path) :=
  .modify fun _ => rfl

theorem putStreamConflict_ack [Env] (message : WorkspaceConflictCreatedMessage) (streamId : StreamId)
    (status : StreamConflictStatus) : Keeps Db.ack (putStreamConflict message streamId status) := by
  intro db
  refine wp_mono (putStreamConflict_wp message streamId status db) (fun _ after h => ?_) (fun _ after h => h ▸ rfl)
  cases h <;> rfl

@[grind .] theorem transaction_ack {body : TxM α} (h : Keeps Db.ack body) :
    Keeps Engine.ack (transaction (F := F) body) := by
  intro engine
  rw [wp_transaction]
  refine wp_mono (h engine.db) (fun _ db hdb => ?_) (fun _ _ _ => rfl)
  simp only [Engine.ack, hdb]

end

/-! ## Writes to the cursor -/

section

variable {Q : Unit → Db → Prop} {E : SyncError → Db → Prop} {db : Db}

theorem wp_setLastAppliedRevision (revision : WorkspaceRevision)
    (hQ : db.cursor.lastAppliedRevision ≤ revision →
      Q () { db with cursor := { db.cursor with lastAppliedRevision := revision } })
    (hE : ∀ e, E e db) : wp (setLastAppliedRevision revision) Q E db := by
  simp only [setLastAppliedRevision, wp_bind, wp_get]
  split
  · exact hE _
  · rename_i h
    exact hQ (Nat.le_of_not_lt h)

theorem wp_setPendingAck (revision : WorkspaceRevision)
    (hQ : Q () { db with cursor := { db.cursor with pendingAckRevision := some revision } })
    (hE : ∀ e, E e db) : wp (setPendingAck revision) Q E db := by
  simp only [setPendingAck, wp_bind, wp_get]
  split
  · exact hE _
  · exact hQ

theorem wp_recordAppliedOperation (record : AppliedOperationRecord)
    (hQ : ∀ receipts, Receipts.Grow db.appliedOperations receipts →
      receipts.lookup (record.originClientId, record.operationId) = some record →
      Q () { db with appliedOperations := receipts })
    (hE : ∀ e, E e db) : wp (recordAppliedOperation record) Q E db := by
  simp only [recordAppliedOperation, wp_bind, wp_get]
  split
  · rename_i existing hexisting
    split
    · rename_i heq
      exact hQ db.appliedOperations (.refl _) (by rw [hexisting, heq])
    · exact hE _
  · rename_i hnone
    refine hQ _ (fun key other hother => ?_) (AList.lookup_insert _)
    rw [AList.lookup_insert_ne]
    · exact hother
    · rintro rfl
      rw [hnone] at hother
      cases hother

theorem wp_recordMutationAppliedOperation {event : WorkspaceEventMessage}
    (hQ : ∀ receipts, Receipts.Grow db.appliedOperations receipts → Processed receipts (.event event) →
      Q () { db with appliedOperations := receipts })
    (hE : ∀ e, E e db) : wp (recordMutationAppliedOperation event.originClientId event.operationId event.revision
      (appliedEventDigest event) event.mutation) Q E db := by
  unfold recordMutationAppliedOperation
  split
  · exact hE _
  · split
    · exact hE _
    · exact wp_recordAppliedOperation _ (fun receipts grow hlookup => hQ receipts grow ⟨_, hlookup, rfl, rfl⟩) hE

theorem wp_recordConflictAppliedOperation {message : WorkspaceConflictResolvedMessage}
    (hQ : ∀ receipts, Receipts.Grow db.appliedOperations receipts → Processed receipts (.conflictResolved message) →
      Q () { db with appliedOperations := receipts })
    (hE : ∀ e, E e db) : wp (recordConflictAppliedOperation message.resolvedByClientId message.operationId
      message.revision message) Q E db :=
  wp_recordAppliedOperation _ (fun receipts grow hlookup => hQ receipts grow ⟨_, hlookup, rfl, rfl⟩) hE

end

/-! ## Transactions as row moves -/

def RowTx {α : Type} (body : TxM α) : Prop := Moves (fun a b => AckStore.Row a.ack b.ack) body

namespace RowTx

variable {α β : Type}

@[grind .] theorem bind {m : TxM α} {f : α → TxM β} (hm : RowTx m) (hf : ∀ a, RowTx (f a)) : RowTx (m >>= f) :=
  Moves.bind .trans hm hf

@[grind .] theorem of_keeps {m : TxM α} (h : Keeps Db.ack m) : RowTx m := Moves.mono h fun _ _ => .of_eq

@[grind .] theorem of_core {m : TxM α} (h : Keeps Db.core m) : RowTx m := of_keeps (keeps_ackTx h)

@[grind .] theorem pure (a : α) : RowTx (Pure.pure a : TxM α) := fun _ => .refl _

@[grind .] theorem onlyIf {m : TxM Unit} (hm : RowTx m) (condition : Bool) : RowTx (onlyIf condition m) := by
  unfold Prog.onlyIf
  split
  · exact hm
  · exact .pure _

@[grind .] theorem forTx {xs : List α} {step : α → TxM Unit} (h : ∀ x, RowTx (step x)) :
    RowTx (forTx xs step) := by
  unfold Sync.forTx
  induction xs with
  | nil => exact .pure _
  | cons x xs ih =>
    rw [List.forM_cons]
    exact .bind (h x) fun _ => ih

@[grind .] theorem setLastAppliedRevision (revision : WorkspaceRevision) :
    RowTx (setLastAppliedRevision revision) := by
  intro db
  exact wp_setLastAppliedRevision revision (fun h => ⟨rfl, h, rfl, .refl _⟩) (fun _ => .refl _)

@[grind .] theorem recordAppliedOperation (record : AppliedOperationRecord) :
    RowTx (recordAppliedOperation record) := by
  intro db
  exact wp_recordAppliedOperation record (fun _ grow _ => ⟨rfl, le_rfl, rfl, grow⟩) (fun _ => .refl _)

@[grind .] theorem recordMutationAppliedOperation (originClientId : ClientId) (operationId : OperationId)
    (revision : WorkspaceRevision) (bodyDigest : AppliedOperationResult) (mutation : WorkspaceMutation) :
    RowTx (recordMutationAppliedOperation originClientId operationId revision bodyDigest mutation) := by
  unfold Sync.recordMutationAppliedOperation
  split
  · exact fun _ => .refl _
  · split
    · exact fun _ => .refl _
    · exact recordAppliedOperation _

@[grind .] theorem recordConflictAppliedOperation (originClientId : ClientId) (operationId : OperationId)
    (revision : WorkspaceRevision) (bodyDigest : WorkspaceConflictResolvedMessage) :
    RowTx (recordConflictAppliedOperation originClientId operationId revision bodyDigest) := recordAppliedOperation _

@[grind .] theorem putStreamEntry [Env] (entry : WorkspaceSnapshotEntryMessage) (status : StreamItemStatus) :
    RowTx (putStreamEntry entry status) := by
  intro db
  refine wp_mono (putStreamEntry_wp entry status db) (fun _ after h => ?_) (fun _ after h => h ▸ .refl _)
  cases h with
  | settled => exact .refl _
  | moved => exact ⟨rfl, le_rfl, rfl, .refl _⟩
  | added => exact ⟨rfl, le_rfl, rfl, .refl _⟩

@[grind .] theorem putStreamRevisionItem (streamId : StreamId) (item : StreamRevisionItem)
    (status : StreamItemStatus) : RowTx (putStreamRevisionItem streamId item status) := by
  intro db
  refine wp_mono (putStreamRevisionItem_wp streamId item status db) (fun _ after h => ?_) (fun _ after h => h ▸ .refl _)
  cases h with
  | settled => exact .refl _
  | moved => exact ⟨rfl, le_rfl, rfl, .refl _⟩
  | @added active hactive =>
    refine ⟨rfl, le_rfl, ?_, .refl _⟩
    simp only [Db.ack, hactive, Option.map_some, StreamState.withItem]
    cases item.eventIndex <;> rfl

@[grind .] theorem putStreamEvent [Env] (event : WorkspaceEventMessage) (status : StreamItemStatus) :
    RowTx (putStreamEvent event status) := by
  unfold Sync.putStreamEvent
  split
  · exact fun _ => .refl _
  split
  · exact fun _ => .refl _
  · exact putStreamRevisionItem _ _ _

@[grind .] theorem putStreamConflictResolved [Env] (message : WorkspaceConflictResolvedMessage)
    (status : StreamItemStatus) : RowTx (putStreamConflictResolved message status) := by
  unfold Sync.putStreamConflictResolved
  split
  · exact fun _ => .refl _
  split
  · exact fun _ => .refl _
  · refine bind (of_core .get) fun db => ?_
    split
    · exact fun _ => .refl _
    · exact putStreamRevisionItem _ _ _

end RowTx

end Lumio.Sync
