import Lumio.Sync.Reconcile
import Lumio.Lib.Prog

/-!
# The durable store

`Db` is the SQLite database of one workspace and client, and `TxM` a transaction body on it. A body that
throws is rolled back by the caller.
-/

namespace Lumio.Sync

open Lumio.Protocol Lumio.Fs

structure InboundWorkLimits where
  maxItemsPerCall : Nat
  maxSerializedBytesPerCall : Nat
  maxPendingLiveItems : Nat
  maxPendingLiveSerializedBytes : Nat
deriving DecidableEq

/-- Identity and limits of the client, its sources of random identifiers and of time, and the length of
the canonical JSON text of a stored or queued message. -/
class Env where
  workspaceId : WorkspaceId
  clientId : ClientId
  limits : InboundWorkLimits
  uuid : Nat → Nat
  nowMs : Nat → Int
  entryLength : WorkspaceSnapshotEntryMessage → Nat
  itemLength : StreamRevisionItem → Nat

structure Db where
  cursor : WorkspaceCursor
  stream : Option StreamState
  entries : Table Nat StreamEntryRecord
  items : Table WorkspaceRevision StreamRevisionItemRecord
  streamConflicts : Table ConflictId StreamConflictRecord
  pathStates : PathStates
  appliedOperations : Table (ClientId × OperationId) AppliedOperationRecord
  outbox : Table OperationId OutboxRecord
  localIntents : Table WorkspacePath LocalIntentRecord
  conflicts : Table ConflictId ConflictRecord
  applyJournals : Table ApplyId ApplyJournalRecord

/-- The store `ensure_identity` creates. -/
def Db.initial : Db where
  cursor := ⟨0, 0, none, none⟩
  stream := none
  entries := ∅
  items := ∅
  streamConflicts := ∅
  pathStates := ∅
  appliedOperations := ∅
  outbox := ∅
  localIntents := ∅
  conflicts := ∅
  applyJournals := ∅

abbrev TxM := EStateM SyncError Db

/-! ## Cursor -/

def setPendingAck (revision : WorkspaceRevision) : TxM Unit := do
  let db ← get
  if db.cursor.pendingAckRevision.any (revision < ·) then
    throw (.streamInvariant "pending_ack_regression")
  else
    set { db with cursor := { db.cursor with pendingAckRevision := some revision } }

def clearPendingAck : TxM Unit :=
  modify fun db => { db with cursor := { db.cursor with pendingAckRevision := none } }

def setPendingSegmentAck (revision : WorkspaceRevision) : TxM Unit :=
  modify fun db => { db with cursor := { db.cursor with pendingSegmentAckRevision := some revision } }

def clearPendingSegmentAck : TxM Unit :=
  modify fun db => { db with cursor := { db.cursor with pendingSegmentAckRevision := none } }

def setLastAckRevision (revision : WorkspaceRevision) : TxM Unit := do
  let db ← get
  if revision < db.cursor.lastAckRevision then throw (.streamInvariant "last_ack_regression")
  else set { db with cursor := { db.cursor with lastAckRevision := revision } }

def setLastAppliedRevision (revision : WorkspaceRevision) : TxM Unit := do
  let db ← get
  if revision < db.cursor.lastAppliedRevision then throw (.streamInvariant "last_applied_regression")
  else set { db with cursor := { db.cursor with lastAppliedRevision := revision } }

/-! ## Path states -/

def putPathState (state : WorkspacePathState) : TxM Unit :=
  match state.validate with
  | .error _ => throw (.protocolInvariant "invalid_path_state")
  | .ok _ => modify fun db => { db with pathStates := db.pathStates.insert state.path state }

def removePathState (path : WorkspacePath) : TxM Unit :=
  modify fun db => { db with pathStates := db.pathStates.erase path }

/-! ## Outbox -/

def Db.outboxRecords (db : Db) : List OutboxRecord :=
  db.outbox.orderBy fun a b =>
    a.createdAtMs < b.createdAtMs || (a.createdAtMs == b.createdAtMs && a.operationId ≤ b.operationId)

def enqueueOutbox (operationId : OperationId) (body : OutboxBody) (createdAtMs : Int) : TxM Unit := do
  let db ← get
  match db.outbox.lookup operationId with
  | some existing =>
    if existing.body = body then pure ()
    else if existing.stage ≠ .queued then throw .operationChanged
    else set { db with outbox := db.outbox.insert operationId { existing with body, createdAtMs } }
  | none =>
    set { db with outbox := db.outbox.insert operationId ⟨operationId, body, .queued, createdAtMs⟩ }

def enqueueMutationAt [Env] (mutation : WorkspaceMutation) (createdAtMs : Int) : TxM Unit :=
  match mutation.validate with
  | .error _ => throw (.protocolInvariant "invalid_mutation")
  | .ok _ =>
    if mutation.workspaceId ≠ Env.workspaceId ∨ mutation.clientId ≠ Env.clientId then
      throw (.protocolInvariant "outbox_identity_mismatch")
    else enqueueOutbox mutation.operationId (.mutation mutation) createdAtMs

def outboxStageTransitionAllowed : OutboxStage → OutboxStage → Bool
  | .queued, _ => true
  | .dispatched, target | .awaitingBlob, target | .blockedConflict, target => target ≠ .queued

def setOutboxStage (operationId : OperationId) (stage : OutboxStage) : TxM Unit := do
  let db ← get
  match db.outbox.lookup operationId with
  | none => throw (.protocolInvariant "outbox_not_found")
  | some existing =>
    if outboxStageTransitionAllowed existing.stage stage then
      set { db with outbox := db.outbox.insert operationId { existing with stage } }
    else throw (.protocolInvariant "outbox_stage_regression")

def removeOutbox (operationId : OperationId) : TxM Unit :=
  modify fun db => { db with outbox := db.outbox.erase operationId }

def dispatchRow (row : OutboxRecord) : OutboxRecord :=
  if row.stage = .queued then { row with stage := .dispatched } else row

/-- The first `limit` rows still to be sent, oldest first; those that were queued become dispatched. -/
def pendingOutboxReplay (limit : Nat) : TxM (List OutboxRecord) := do
  let db ← get
  let records := (db.outboxRecords.filter fun row => row.stage = .queued || row.stage = .dispatched).take limit
  set { db with outbox := records.foldl (fun outbox (row : OutboxRecord) => Table.modify row.operationId dispatchRow outbox) db.outbox }
  pure (records.map dispatchRow)

def replayAwaitingBlobMutations : TxM Unit :=
  modify fun db =>
    { db with outbox := db.outbox.mapRows fun _ row =>
        if row.stage = .awaitingBlob then { row with stage := .dispatched } else row }

/-! ## Local intents -/

def Db.localIntentRecords (db : Db) : List LocalIntentRecord :=
  db.localIntents.orderBy fun a b => a.path.le b.path

def putLocalIntent (path : WorkspacePath) (intent : LocalIntent) (updatedAtMs : Int) : TxM Unit :=
  modify fun db => { db with localIntents := db.localIntents.insert path ⟨path, intent, updatedAtMs⟩ }

def removeLocalIntent (path : WorkspacePath) : TxM Unit :=
  modify fun db => { db with localIntents := db.localIntents.erase path }

/-! ## Streams -/

def clearStream : TxM Unit :=
  modify fun db => { db with stream := none, entries := ∅, items := ∅, streamConflicts := ∅ }

def streamStateFromBegin (begin_ : WorkspaceSnapshotBeginMessage) : StreamState where
  streamId := begin_.streamId
  mode := begin_.mode
  fromRevision := begin_.fromRevision
  finalRevision := begin_.finalRevision
  expectedEntryCount := begin_.entryCount
  expectedEventCount := begin_.eventCount
  expectedConflictCount := begin_.conflictCount
  nextEventIndex := 0
  endReceived := false

def streamBeginMatches (existing : StreamState) (begin_ : WorkspaceSnapshotBeginMessage) : Bool :=
  existing.streamId = begin_.streamId && existing.mode = begin_.mode &&
    existing.fromRevision = begin_.fromRevision && existing.finalRevision = begin_.finalRevision &&
    existing.expectedEntryCount = begin_.entryCount && existing.expectedEventCount = begin_.eventCount &&
    existing.expectedConflictCount = begin_.conflictCount

def beginStream [Env] (begin_ : WorkspaceSnapshotBeginMessage) : TxM Unit := do
  if begin_.validate.isOk = false then throw (.streamInvariant "invalid_begin")
  else if begin_.workspaceId ≠ Env.workspaceId then throw (.protocolInvariant "stream_workspace_mismatch")
  else
    let db ← get
    match db.stream with
    | some existing =>
      if existing.streamId = begin_.streamId then
        if streamBeginMatches existing begin_ then pure ()
        else throw (.streamInvariant "stream_begin_changed")
      else if begin_.fromRevision ≠ db.cursor.lastAckRevision then
        throw (.streamInvariant "stream_begin_not_at_ack")
      else if db.applyJournals.entries ≠ [] then throw (.streamInvariant "stream_apply_in_progress")
      else do
        clearStream
        modify fun db => { db with stream := some (streamStateFromBegin begin_) }
    | none => set { db with stream := some (streamStateFromBegin begin_) }

def setStreamEndReceived : TxM Unit := do
  let db ← get
  match db.stream with
  | none => throw (.streamInvariant "no_active_stream")
  | some existing => set { db with stream := some { existing with endReceived := true } }

def streamStatusTransitionAllowed : StreamItemStatus → StreamItemStatus → Bool
  | .received, _ => true
  | .waitingBlob, target => target ≠ .received
  | .ready, target => target = .ready || target = .applied || target = .preserved
  | .applied, target => target = .applied
  | .preserved, target => target = .preserved

/-- Stages a snapshot entry, or moves a staged one to `status`. A settled entry stays as it is. -/
def putStreamEntry [Env] (entry : WorkspaceSnapshotEntryMessage) (status : StreamItemStatus) :
    TxM StreamItemStatus := do
  if entry.validate.isOk = false then throw (.streamInvariant "invalid_stream_entry")
  else if entry.workspaceId ≠ Env.workspaceId then throw (.protocolInvariant "stream_workspace_mismatch")
  else
    let db ← get
    match db.stream with
    | none => throw (.streamInvariant "no_active_stream")
    | some active =>
      if active.streamId ≠ entry.streamId then throw (.streamInvariant "active_stream_mismatch")
      else if active.mode ≠ .snapshot then throw (.streamInvariant "entry_not_allowed_in_incremental")
      else
        match db.entries.lookup entry.index with
        | some existing =>
          if existing.body ≠ entry then throw .operationChanged
          else if existing.status.settled then pure existing.status
          else if streamStatusTransitionAllowed existing.status status then do
            set { db with entries := db.entries.insert entry.index ⟨entry, status⟩ }
            pure status
          else throw (.streamInvariant "stream_status_regression")
        | none =>
          -- the entries arrive in the order of their indexes and of their paths
          if entry.index ≠ db.entries.entries.length ∨ active.expectedEntryCount ≤ entry.index then
            throw (.streamInvariant "stream_entry_order")
          else if (db.entries.orderBy fun a b => b.body.index ≤ a.body.index).head?.any fun previous =>
              entry.entry.path.le previous.body.entry.path then
            throw (.streamInvariant "stream_entry_path_order")
          else do
            set { db with entries := db.entries.insert entry.index ⟨entry, status⟩ }
            pure status

def StreamRevisionItem.eventIndex : StreamRevisionItem → Option Nat
  | .event message => some message.index
  | .conflictResolved _ => none

/-- Stages a revision item of an incremental stream, or moves a staged one to `status`. -/
def putStreamRevisionItem (streamId : StreamId) (item : StreamRevisionItem) (status : StreamItemStatus) :
    TxM StreamItemStatus := do
  let db ← get
  match db.stream with
  | none => throw (.streamInvariant "no_active_stream")
  | some active =>
    if active.streamId ≠ streamId then throw (.streamInvariant "active_stream_mismatch")
    else if active.mode ≠ .incremental then throw (.streamInvariant "revision_item_not_allowed_in_snapshot")
    else
      match db.items.lookup item.revision with
      | some existing =>
        if existing.eventIndex ≠ item.eventIndex then throw (.streamInvariant "stream_revision_order")
        else if existing.body ≠ item then throw .operationChanged
        else if existing.status.settled then pure existing.status
        else if streamStatusTransitionAllowed existing.status status then do
          set { db with items := db.items.insert item.revision { existing with status } }
          pure status
        else throw (.streamInvariant "stream_status_regression")
      | none =>
        if active.expectedEventCount ≤ db.items.entries.length then
          throw (.streamInvariant "stream_event_count_exceeded")
        else if item.revision ≤ active.fromRevision ∨ active.finalRevision < item.revision then
          throw (.streamInvariant "stream_revision_out_of_range")
        else if db.items.keys.any (item.revision ≤ ·) then throw (.streamInvariant "stream_revision_order")
        else if item.eventIndex.any fun index =>
            index ≠ active.nextEventIndex || active.expectedEventCount ≤ index then
          throw (.streamInvariant "event_index_order")
        else do
          let stream := match item.eventIndex with
            | some index => { active with nextEventIndex := index + 1 }
            | none => active
          set { db with
            stream := some stream
            items := db.items.insert item.revision ⟨item.revision, item, item.eventIndex, status⟩ }
          pure status

def putStreamEvent [Env] (event : WorkspaceEventMessage) (status : StreamItemStatus) : TxM StreamItemStatus :=
  if event.validate.isOk = false then throw (.streamInvariant "invalid_stream_event")
  else if event.workspaceId ≠ Env.workspaceId then throw (.protocolInvariant "stream_workspace_mismatch")
  else putStreamRevisionItem event.streamId (.event event) status

def putStreamConflictResolved [Env] (message : WorkspaceConflictResolvedMessage) (status : StreamItemStatus) :
    TxM StreamItemStatus := do
  if message.validate.isOk = false then throw (.streamInvariant "invalid_stream_conflict_resolution")
  else if message.workspaceId ≠ Env.workspaceId then throw (.protocolInvariant "stream_workspace_mismatch")
  else
    let db ← get
    match db.stream with
    | none => throw (.streamInvariant "no_active_stream")
    | some active => putStreamRevisionItem active.streamId (.conflictResolved message) status

def streamConflictStatusTransitionAllowed : StreamConflictStatus → StreamConflictStatus → Bool
  | .received, _ => true
  | .replaced, target => target = .replaced
  | .pruned, target => target = .pruned

def putStreamConflict [Env] (message : WorkspaceConflictCreatedMessage) (streamId : StreamId)
    (status : StreamConflictStatus) : TxM Unit := do
  if message.validate.isOk = false then throw (.streamInvariant "invalid_stream_conflict")
  else if message.workspaceId ≠ Env.workspaceId then throw (.protocolInvariant "stream_workspace_mismatch")
  else
    let db ← get
    match db.stream with
    | none => throw (.streamInvariant "no_active_stream")
    | some active =>
      if active.streamId ≠ streamId then throw (.streamInvariant "active_stream_mismatch")
      else
        match db.streamConflicts.lookup message.conflictId with
        | some existing =>
          if existing.created ≠ message then throw .operationChanged
          else if existing.status ≠ .received then pure ()
          else if streamConflictStatusTransitionAllowed existing.status status then
            set { db with streamConflicts := db.streamConflicts.insert message.conflictId ⟨message, status⟩ }
          else throw (.streamInvariant "stream_conflict_status_regression")
        | none =>
          if active.expectedConflictCount ≤ db.streamConflicts.entries.length then
            throw (.streamInvariant "stream_conflict_count_exceeded")
          else
            set { db with streamConflicts := db.streamConflicts.insert message.conflictId ⟨message, status⟩ }

structure StreamTableSummary where
  entryCount : Nat
  pendingEntryCount : Nat
  revisionCount : Nat
  pendingRevisionCount : Nat
  conflictCount : Nat
deriving DecidableEq

def Db.streamTableSummary (db : Db) : StreamTableSummary where
  entryCount := db.entries.entries.length
  pendingEntryCount := (db.entries.values.filter (!·.status.settled)).length
  revisionCount := db.items.entries.length
  pendingRevisionCount := (db.items.values.filter (!·.status.settled)).length
  conflictCount := db.streamConflicts.entries.length

def Db.snapshotStreamContainsPath (db : Db) (path : WorkspacePath) : Bool :=
  db.entries.values.any (·.body.entry.path = path)

def Db.pendingStreamEntry (db : Db) : Option StreamEntryRecord :=
  ((db.entries.orderBy fun a b => a.body.index ≤ b.body.index).filter (!·.status.settled)).head?

def Db.pendingStreamRevisionItem (db : Db) : Option StreamRevisionItemRecord :=
  ((db.items.orderBy fun a b => a.revision ≤ b.revision).filter (!·.status.settled)).head?

/-! ## Receipts -/

def recordAppliedOperation (record : AppliedOperationRecord) : TxM Unit := do
  let db ← get
  match db.appliedOperations.lookup (record.originClientId, record.operationId) with
  | some existing => if existing = record then pure () else throw .operationChanged
  | none =>
    set { db with
      appliedOperations := db.appliedOperations.insert (record.originClientId, record.operationId) record }

def recordMutationAppliedOperation (originClientId : ClientId) (operationId : OperationId)
    (revision : WorkspaceRevision) (bodyDigest : AppliedOperationResult) (mutation : WorkspaceMutation) :
    TxM Unit :=
  if mutation.validate.isOk = false then throw (.invalidConfiguration "mutation_receipt_invalid_mutation")
  else if mutation.clientId ≠ originClientId ∨ mutation.operationId ≠ operationId then
    throw (.invalidConfiguration "mutation_receipt_identity_mismatch")
  else recordAppliedOperation ⟨originClientId, operationId, revision, .mutationResult bodyDigest mutation⟩

def recordConflictAppliedOperation (originClientId : ClientId) (operationId : OperationId)
    (revision : WorkspaceRevision) (bodyDigest : WorkspaceConflictResolvedMessage) : TxM Unit :=
  recordAppliedOperation ⟨originClientId, operationId, revision, .conflictResolution bodyDigest⟩

def Db.mutationReceiptsAtRevision (db : Db) (revision : WorkspaceRevision) : List AppliedOperationRecord :=
  ((db.appliedOperations.orderBy fun a b =>
      a.originClientId < b.originClientId ||
        (a.originClientId == b.originClientId && a.operationId ≤ b.operationId)).filter fun record =>
    record.revision = revision && (match record.receipt with
      | .mutationResult _ _ => true
      | .conflictResolution _ => false)).take 2

/-! ## Conflicts -/

def Db.conflictRecords (db : Db) : List ConflictRecord :=
  db.conflicts.orderBy fun a b => a.created.conflictId ≤ b.created.conflictId

def putConflict [Env] (conflict : ConflictRecord) : TxM Unit :=
  if conflict.created.workspaceId ≠ Env.workspaceId then throw (.protocolInvariant "conflict_workspace_mismatch")
  else if conflict.created.validate.isOk = false then throw (.protocolInvariant "invalid_conflict")
  else modify fun db => { db with conflicts := db.conflicts.insert conflict.created.conflictId conflict }

def removeConflict (conflictId : ConflictId) : TxM Unit :=
  modify fun db => { db with conflicts := db.conflicts.erase conflictId }

/-- A stored conflict whose resolution has been overtaken by the staged generation. -/
def resolutionOvertaken (existing : ConflictRecord) (staged : StreamConflictRecord) : Bool :=
  existing.created.conflictRevision ≠ staged.created.conflictRevision || existing.status = .refreshRequired

/-- The conflict row after the staged generation of the same conflict has replaced it. -/
def replacedConflict (existing : ConflictRecord) (staged : StreamConflictRecord) : ConflictRecord where
  created := staged.created
  status :=
    if resolutionOvertaken existing staged || existing.resolution.isNone then .manual else .resolving
  candidateHash := if resolutionOvertaken existing staged then none else existing.candidateHash
  resolution := if resolutionOvertaken existing staged then none else existing.resolution

/-- Makes the staged conflicts of the finished stream the conflicts of the workspace. A conflict that is
not staged is dropped, unless a resolution of it is still outstanding. -/
def replaceAuthoritativeConflicts : TxM Unit := do
  let db ← get
  let changedSameGeneration := db.conflicts.values.any fun existing =>
    (db.streamConflicts.lookup existing.created.conflictId).any fun staged =>
      existing.created.conflictRevision = staged.created.conflictRevision && existing.created ≠ staged.created
  if changedSameGeneration then throw .operationChanged
  else
    let overtakenResolution (row : OutboxRecord) : Bool := db.conflicts.values.any fun existing =>
      (db.streamConflicts.lookup existing.created.conflictId).any fun staged =>
        resolutionOvertaken existing staged &&
          existing.resolution.any fun resolution => row.body = .conflictResolution resolution
    let replaced := (db.conflicts.mapRows fun conflictId existing =>
        match db.streamConflicts.lookup conflictId with
        | some staged => replacedConflict existing staged
        | none => if existing.resolution.isSome then { existing with status := .refreshRequired } else existing).keep
      fun conflictId existing => (db.streamConflicts.lookup conflictId).isSome || existing.resolution.isSome
    let inserted := db.streamConflicts.entries.foldl (fun conflicts staged =>
      if (db.conflicts.lookup staged.1).isSome then conflicts
      else conflicts.insert staged.1 ⟨staged.2.created, .manual, none, none⟩) replaced
    set { db with
      outbox := db.outbox.keep fun _ row => !overtakenResolution row
      conflicts := inserted }

/-! ## Apply journal -/

def applyStageTransitionAllowed : ApplyStage → ApplyStage → Bool
  | .prepared, target => target = .prepared || target = .filesystemStarted
  | .filesystemStarted, target => target = .filesystemStarted
  | .filesystemApplied, target => target = .filesystemApplied || target = .databaseCommitted
  | .databaseCommitted, target => target = .databaseCommitted || target = .finalized
  | .finalized, target => target = .finalized

def putApplyJournal (record : ApplyJournalRecord) : TxM Unit := do
  let db ← get
  match db.applyJournals.lookup record.applyId with
  | some existing =>
    if { existing with stage := record.stage } ≠ record then throw .operationChanged
    else if applyStageTransitionAllowed existing.stage record.stage then
      set { db with applyJournals := db.applyJournals.insert record.applyId record }
    else throw (.protocolInvariant "apply_stage_regression")
  | none =>
    if db.applyJournals.values.any fun other =>
        other.streamId = record.streamId && other.itemKind = record.itemKind && other.itemKey = record.itemKey then
      throw .operationChanged
    else set { db with applyJournals := db.applyJournals.insert record.applyId record }

def setApplyFilesystemApplied (applyId : ApplyId) (receipt : ApplyReceipt) : TxM Unit := do
  let db ← get
  match db.applyJournals.lookup applyId with
  | none => throw (.protocolInvariant "apply_journal_not_found")
  | some current =>
    if current.stage = .filesystemApplied then
      if current.filesystemReceipt = some receipt then pure () else throw .operationChanged
    else if current.stage ≠ .filesystemStarted then throw (.protocolInvariant "apply_stage_regression")
    else
      let applied := { current with filesystemReceipt := some receipt, stage := .filesystemApplied }
      set { db with applyJournals := db.applyJournals.insert applyId applied }

def setApplyStage (applyId : ApplyId) (stage : ApplyStage) : TxM Unit := do
  let db ← get
  match db.applyJournals.lookup applyId with
  | none => throw (.protocolInvariant "apply_journal_not_found")
  | some current =>
    if (stage = .databaseCommitted ∨ stage = .finalized) ∧ current.filesystemReceipt.isNone then
      throw (.protocolInvariant "apply_receipt_missing")
    else if applyStageTransitionAllowed current.stage stage then
      set { db with applyJournals := db.applyJournals.insert applyId { current with stage } }
    else throw (.protocolInvariant "apply_stage_regression")

def removeApplyJournal (applyId : ApplyId) : TxM Unit :=
  modify fun db => { db with applyJournals := db.applyJournals.erase applyId }

end Lumio.Sync
