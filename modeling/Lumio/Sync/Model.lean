import Lumio.Fs.Interface
import Lumio.Lib.Table

/-!
# Records of the synchronisation store

A JSON body is the value it encodes, and a digest is the body it was taken of: two digests are equal
exactly when their bodies are. Every row belongs to the one workspace of the store.

Receipts and journals that only a migration from an older schema can leave behind are not represented:
the store refuses to write them.
-/

namespace Lumio.Sync

open Lumio.Protocol Lumio.Fs

inductive OutboxStage where
  | queued
  | dispatched
  | awaitingBlob
  | blockedConflict
deriving DecidableEq

inductive StreamItemStatus where
  | received
  | waitingBlob
  | ready
  | applied
  | preserved
deriving DecidableEq

def StreamItemStatus.settled : StreamItemStatus → Bool
  | .applied | .preserved => true
  | .received | .waitingBlob | .ready => false

inductive StreamConflictStatus where
  | received
  | replaced
  | pruned
deriving DecidableEq

inductive ApplyItemKind where
  | entry
  | event
  | conflictResolved
deriving DecidableEq

inductive ApplyNamespace where
  | snapshotEntry
  | streamEvent
  | liveEvent
  | streamConflictResolved
  | liveConflictResolved
deriving DecidableEq

inductive ApplyStage where
  | prepared
  | filesystemStarted
  | filesystemApplied
  | databaseCommitted
  | finalized
deriving DecidableEq

inductive ConflictStatus where
  | waitingBlobs
  | manual
  | autoReady
  | resolving
  | refreshRequired
deriving DecidableEq

inductive ConflictBlockedReason where
  | waitingBlobs
  | automaticResolutionPending
  | resolutionPending
  | refreshRequired
  | selectedSideDeleted
deriving DecidableEq

/-! ## Errors -/

inductive SyncError where
  | invalidConfiguration (reason : String)
  | storageUnavailable
  | operationChanged
  | streamInvariant (reason : String)
  | protocolInvariant (reason : String)
  | resourceLimit (resource : String)
  | corruptState (table field : String)
  | filesystem (error : FsError)
  | scanIncomplete
  | conflictUnavailable
  | conflictRevisionStale
  | conflictResolutionChanged
  | conflictResolutionBlocked (reason : ConflictBlockedReason)
  | mergeRejected (reason : String)
deriving DecidableEq

/-! ## Rows -/

structure WorkspaceCursor where
  lastAckRevision : WorkspaceRevision
  lastAppliedRevision : WorkspaceRevision
  pendingAckRevision : Option WorkspaceRevision
  pendingSegmentAckRevision : Option WorkspaceRevision
deriving DecidableEq

inductive OutboxBody where
  | mutation (mutation : WorkspaceMutation)
  | conflictResolution (request : WorkspaceConflictResolvedRequest)
deriving DecidableEq

structure OutboxRecord where
  operationId : OperationId
  body : OutboxBody
  stage : OutboxStage
  createdAtMs : Int
deriving DecidableEq

def OutboxRecord.mutation? (record : OutboxRecord) : Option WorkspaceMutation :=
  match record.body with
  | .mutation mutation => some mutation
  | .conflictResolution _ => none

/-- The local postimage of a filesystem observation. It holds no server revision. -/
structure LocalDesiredEntry where
  path : WorkspacePath
  kind : WorkspaceEntryKind
  contentHash : Option WorkspaceContentHash
  metadata : WorkspaceFileMetadata
deriving DecidableEq

/-- A deferred local intent. The row of a rename is written under both of its paths. -/
inductive LocalIntent where
  | desired (entry : LocalDesiredEntry)
  | delete (path : WorkspacePath)
  | rename (source target : WorkspacePath) (kind : WorkspaceEntryKind)
      (contentHash : Option WorkspaceContentHash) (metadata : WorkspaceFileMetadata)
deriving DecidableEq

structure LocalIntentRecord where
  path : WorkspacePath
  intent : LocalIntent
  updatedAtMs : Int
deriving DecidableEq

structure StreamState where
  streamId : StreamId
  mode : WorkspaceSnapshotMode
  fromRevision : WorkspaceRevision
  finalRevision : WorkspaceRevision
  expectedEntryCount : Nat
  expectedEventCount : Nat
  expectedConflictCount : Nat
  nextEventIndex : Nat
  endReceived : Bool
deriving DecidableEq

structure StreamEntryRecord where
  body : WorkspaceSnapshotEntryMessage
  status : StreamItemStatus
deriving DecidableEq

inductive StreamRevisionItem where
  | event (message : WorkspaceEventMessage)
  | conflictResolved (message : WorkspaceConflictResolvedMessage)
deriving DecidableEq

def StreamRevisionItem.revision : StreamRevisionItem → WorkspaceRevision
  | .event message => message.revision
  | .conflictResolved message => message.revision

structure StreamRevisionItemRecord where
  revision : WorkspaceRevision
  body : StreamRevisionItem
  eventIndex : Option Nat
  status : StreamItemStatus
deriving DecidableEq

structure StreamConflictRecord where
  created : WorkspaceConflictCreatedMessage
  status : StreamConflictStatus
deriving DecidableEq

/-- The result of a mutation: what a mutation receipt takes its digest of. -/
structure AppliedOperationResult where
  mutation : WorkspaceMutation
  pathState : WorkspacePathState
  oldPathState : Option WorkspacePathState
  newPathState : Option WorkspacePathState
deriving DecidableEq

/-- The receipt of an applied operation: its kind, with the body its digest was taken of. A mutation
receipt also stores the mutation. -/
inductive AppliedOperationReceipt where
  | mutationResult (bodyDigest : AppliedOperationResult) (mutation : WorkspaceMutation)
  | conflictResolution (bodyDigest : WorkspaceConflictResolvedMessage)
deriving DecidableEq

structure AppliedOperationRecord where
  originClientId : ClientId
  operationId : OperationId
  revision : WorkspaceRevision
  receipt : AppliedOperationReceipt
deriving DecidableEq

structure ConflictRecord where
  created : WorkspaceConflictCreatedMessage
  status : ConflictStatus
  candidateHash : Option WorkspaceContentHash
  resolution : Option WorkspaceConflictResolvedRequest
deriving DecidableEq

/-! ## Apply journal -/

inductive ApplyCommitPlan where
  | snapshotEntry (entry : WorkspaceSnapshotEntryMessage)
  | streamEvent (event : WorkspaceEventMessage) (removeOutbox : Bool)
  | liveEvent (event : WorkspaceEventMessage) (removeOutbox : Bool)
  | streamConflictResolved (message : WorkspaceConflictResolvedMessage)
  | liveConflictResolved (message : WorkspaceConflictResolvedMessage)
deriving DecidableEq

def ApplyCommitPlan.namespace : ApplyCommitPlan → ApplyNamespace
  | .snapshotEntry _ => .snapshotEntry
  | .streamEvent _ _ => .streamEvent
  | .liveEvent _ _ => .liveEvent
  | .streamConflictResolved _ => .streamConflictResolved
  | .liveConflictResolved _ => .liveConflictResolved

inductive RemoteApplyOperation where
  | upsert (state : WorkspacePathState)
  | delete (state : WorkspacePathState)
  | rename (oldState newState : WorkspacePathState)
deriving DecidableEq

/-- The key of a journaled item within its kind: a path or a revision. -/
inductive ApplyItemKey where
  | path (path : WorkspacePath)
  | revision (revision : WorkspaceRevision)
deriving DecidableEq

structure ApplyJournalRecord where
  applyId : ApplyId
  streamId : StreamId
  itemKind : ApplyItemKind
  itemKey : ApplyItemKey
  applyNamespace : ApplyNamespace
  operation : RemoteApplyOperation
  filesystemOperation : FsOperation
  commitPlan : ApplyCommitPlan
  postimage : List WorkspacePathState
  filesystemReceipt : Option ApplyReceipt
  stage : ApplyStage
deriving DecidableEq

end Lumio.Sync
