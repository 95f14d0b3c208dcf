import Lumio.Sync.Lemmas.Frame
import Mathlib.Logic.Relation

/-!
# Acknowledgements

What an acknowledgement depends on: the cursor, the final revision and the unsettled rows of the stored stream,
the live queue, and the receipts, which tell whether a queued item has been processed. `Move` lists all that a
single write inside a call can do to it.
-/

namespace Lumio.Sync

open Lumio.Protocol Lumio.Fs Prog

abbrev Receipts := Table (ClientId × OperationId) AppliedOperationRecord

/-- Rows of the stored stream that are neither applied nor preserved. -/
def Db.unsettled (db : Db) : Nat :=
  db.streamTableSummary.pendingEntryCount + db.streamTableSummary.pendingRevisionCount

/-- The final revision of a stream, and whether its end has been received. -/
structure StreamFinal where
  revision : WorkspaceRevision
  received : Bool

/-- The part of the store an acknowledgement depends on. -/
structure AckStore where
  cursor : WorkspaceCursor
  /-- That of the stored stream. -/
  final : Option StreamFinal
  unsettled : Nat
  receipts : Receipts

structure AckView where
  store : AckStore
  queue : List StreamRevisionItem

def Db.ack (db : Db) : AckStore :=
  ⟨db.cursor, db.stream.map fun active => ⟨active.finalRevision, active.endReceived⟩, db.unsettled, db.appliedOperations⟩

def Engine.ack {F : Type} (engine : Engine F) : AckView :=
  ⟨engine.db.ack, engine.pendingLiveEvents.map (·.message)⟩

/-- A live item whose receipt is in the store. -/
def Processed (receipts : Receipts) : StreamRevisionItem → Prop
  | .event event => ∃ record, receipts.lookup (event.originClientId, event.operationId) = some record ∧
      record.revision = event.revision ∧ record.receipt = .mutationResult (appliedEventDigest event) event.mutation
  | .conflictResolved message => ∃ record,
      receipts.lookup (message.resolvedByClientId, message.operationId) = some record ∧
      record.revision = message.revision ∧ record.receipt = .conflictResolution message

/-- Receipts are never changed and never removed. -/
def Receipts.Grow (before after : Receipts) : Prop :=
  ∀ key record, before.lookup key = some record → after.lookup key = some record

/-- What the rows of the stored stream can do: nothing but the applied revision of the cursor moves. -/
structure AckStore.Row (before after : AckStore) : Prop where
  cursor : after.cursor = { before.cursor with lastAppliedRevision := after.cursor.lastAppliedRevision }
  applied : before.cursor.lastAppliedRevision ≤ after.cursor.lastAppliedRevision
  final : after.final = before.final
  receipts : Receipts.Grow before.receipts after.receipts

/-- The cursor after a live item has been committed. -/
def WorkspaceCursor.commit (cursor : WorkspaceCursor) (revision : WorkspaceRevision) : WorkspaceCursor :=
  { cursor with lastAppliedRevision := revision, pendingAckRevision := some revision }

/-- A cursor that a processed revision may have moved forward. -/
structure WorkspaceCursor.Raised (before after : WorkspaceCursor) (revision : WorkspaceRevision) : Prop where
  lastAck : after.lastAckRevision = before.lastAckRevision
  segment : after.pendingSegmentAckRevision = before.pendingSegmentAckRevision
  lastApplied : after.lastAppliedRevision = before.lastAppliedRevision ∨
    (before.lastAppliedRevision < revision ∧ after.lastAppliedRevision = revision)
  pending : after.pendingAckRevision = before.pendingAckRevision ∨
    (after.pendingAckRevision = some revision ∧ before.lastAckRevision < revision ∧
      revision ≤ after.lastAppliedRevision)

/-- One write to the store or to the live queue, inside a call. -/
inductive Move : AckView → AckView → Prop where
  /-- The event at the head of the queue is committed. -/
  | liveEvent {cursor final unsettled before after event queue}
      (missing : before.lookup (event.originClientId, event.operationId) = none)
      (applied : cursor.lastAppliedRevision ≤ event.revision)
      (grow : Receipts.Grow before after) (processed : Processed after (.event event)) :
      Move ⟨⟨cursor, final, unsettled, before⟩, .event event :: queue⟩
        ⟨⟨cursor.commit event.revision, final, unsettled, after⟩, .event event :: queue⟩
  /-- The resolution at the head of the queue is committed. -/
  | liveResolution {cursor final unsettled before after message queue}
      (applied : cursor.lastAppliedRevision < message.revision)
      (grow : Receipts.Grow before after) (processed : Processed after (.conflictResolved message)) :
      Move ⟨⟨cursor, final, unsettled, before⟩, .conflictResolved message :: queue⟩
        ⟨⟨cursor.commit message.revision, final, unsettled, after⟩, .conflictResolved message :: queue⟩
  /-- The head of the queue is processed, and the cursor catches up with it. -/
  | raise {cursor cursor' final unsettled before after item queue} (raised : cursor.Raised cursor' item.revision)
      (grow : Receipts.Grow before after) (processed : Processed after item) :
      Move ⟨⟨cursor, final, unsettled, before⟩, item :: queue⟩ ⟨⟨cursor', final, unsettled, after⟩, item :: queue⟩
  /-- The processed head leaves the queue. -/
  | pop {store item queue} (processed : Processed store.receipts item) : Move ⟨store, item :: queue⟩ ⟨store, queue⟩
  /-- An unsettled row of the stored stream moves on. -/
  | row {before after queue} (pos : 0 < before.unsettled) (row : AckStore.Row before after) :
      Move ⟨before, queue⟩ ⟨after, queue⟩
  /-- The settled stream asks for its acknowledgement. -/
  | finish {cursor revision receipts queue} (applied : cursor.lastAppliedRevision ≤ revision)
      (needsAck : cursor.lastAckRevision < revision) :
      Move ⟨⟨cursor, some ⟨revision, true⟩, 0, receipts⟩, queue⟩
        ⟨⟨{ cursor.commit revision with pendingSegmentAckRevision := none }, some ⟨revision, true⟩, 0, receipts⟩, queue⟩
  /-- The settled stream is acknowledged already. -/
  | drop {cursor revision receipts queue} (applied : cursor.lastAppliedRevision ≤ revision)
      (acked : revision ≤ cursor.lastAckRevision) :
      Move ⟨⟨cursor, some ⟨revision, true⟩, 0, receipts⟩, queue⟩
        ⟨⟨{ cursor with lastAppliedRevision := revision, pendingSegmentAckRevision := none }, none, 0, receipts⟩, queue⟩
  /-- The settled stream has not ended, and asks for the acknowledgement of what is applied. -/
  | segment {cursor final receipts queue} (idle : cursor.pendingAckRevision = none) :
      Move ⟨⟨cursor, some final, 0, receipts⟩, queue⟩
        ⟨⟨{ cursor with pendingSegmentAckRevision := some cursor.lastAppliedRevision }, some final, 0, receipts⟩,
          queue⟩

/-- What the work inside a call does to the view. -/
def Moved {F : Type} (s t : Engine F) : Prop := Relation.ReflTransGen Move s.ack t.ack

end Lumio.Sync
