import Lumio.Sync.Engine.Local
import Lumio.Protocol.Error

/-!
# Conflicts that the user resolves

The user lists the conflicts and picks a side, the merged file or the deletion. The request is stored with the
conflict and sent from the outbox; the server's answer settles the outbox row, and the resolution itself comes
back like one of another client.
-/

namespace Lumio.Sync

open Lumio.Protocol Lumio.Fs Prog

/-! ## Views -/

structure ConflictSideView where
  path : Option WorkspacePath
  pathRevision : WorkspaceRevision
  contentHash : Option WorkspaceContentHash
  size : Nat
  modifiedAtMs : Int
  executable : Bool
  tombstone : Bool
deriving DecidableEq

def ConflictSideView.of (side : WorkspaceConflictSide) : ConflictSideView :=
  ⟨side.path, side.pathRevision, side.contentHash, side.metadata.size, side.metadata.modifiedAtMs,
    side.metadata.executable, side.tombstone⟩

structure PendingConflictResolutionView where
  operationId : OperationId
  choice : WorkspaceConflictChoice
  contentHash : Option WorkspaceContentHash
  size : Option Nat
deriving DecidableEq

def PendingConflictResolutionView.of (request : WorkspaceConflictResolvedRequest) :
    PendingConflictResolutionView :=
  ⟨request.operationId, request.choice, request.contentHash,
    if request.choice = .delete then none else some request.metadata.size⟩

structure ConflictView where
  conflictId : ConflictId
  conflictRevision : WorkspaceConflictRevision
  path : WorkspacePath
  kind : WorkspaceConflictKind
  status : ConflictStatus
  ancestor : ConflictSideView
  current : ConflictSideView
  incoming : ConflictSideView
  createdByOperationId : OperationId
  pendingResolution : Option PendingConflictResolutionView
  canResolve : Bool
  blockedReason : Option ConflictBlockedReason
deriving DecidableEq

def ConflictStatus.blockedReason : ConflictStatus → Option ConflictBlockedReason
  | .manual => none
  | .waitingBlobs => some .waitingBlobs
  | .autoReady => some .automaticResolutionPending
  | .resolving => some .resolutionPending
  | .refreshRequired => some .refreshRequired

def decodeConflictCreated [Env] (conflictId : ConflictId) (conflict : ConflictRecord) :
    Except SyncError WorkspaceConflictCreatedMessage :=
  if conflict.created.validate.isOk = false ∨ conflict.created.workspaceId ≠ Env.workspaceId ∨
      conflict.created.conflictId ≠ conflictId then
    .error (.corruptState "conflicts" "created_json")
  else .ok conflict.created

def conflictView [Env] (conflictId : ConflictId) (conflict : ConflictRecord) : Except SyncError ConflictView := do
  let created ← decodeConflictCreated conflictId conflict
  let pendingResolution ← decodePendingResolution conflict
  if decide (conflict.status = .resolving) ≠ pendingResolution.isSome ∧ conflict.status ≠ .refreshRequired then
    .error (.corruptState "conflicts" "resolution_json")
  else
    .ok {
      conflictId := created.conflictId
      conflictRevision := created.conflictRevision
      path := created.path
      kind := created.kind
      status := conflict.status
      ancestor := .of created.ancestor
      current := .of created.current
      incoming := .of created.incoming
      createdByOperationId := created.createdByOperationId
      pendingResolution := pendingResolution.map .of
      canResolve := conflict.status = .manual
      blockedReason := conflict.status.blockedReason }

def conflictViews [Env] : List (ConflictId × ConflictRecord) → Except SyncError (List ConflictView)
  | [] => .ok []
  | (conflictId, conflict) :: rest => do
    let view ← conflictView conflictId conflict
    let views ← conflictViews rest
    pure (view :: views)

def Db.conflictRows (db : Db) : List (ConflictId × ConflictRecord) :=
  (db.conflicts.entries.map fun row => (row.1, row.2)).insertionSort fun a b => a.1 ≤ b.1

section

variable {F : Type} [Env]

def listConflicts : EngineM F (List ConflictView) := do
  ensureOpen
  let views ← readDb fun db => conflictViews db.conflictRows
  pure (views.insertionSort fun a b => a.conflictId ≤ b.conflictId)

end

/-! ## The proposal -/

structure ConflictResolutionProposal where
  choice : WorkspaceConflictChoice
  path : WorkspacePath
  contentHash : Option WorkspaceContentHash
  metadata : WorkspaceFileMetadata
deriving DecidableEq

def ConflictResolutionProposal.matches (proposal : ConflictResolutionProposal)
    (request : WorkspaceConflictResolvedRequest) : Bool :=
  request.choice = proposal.choice && request.path = proposal.path && request.contentHash = proposal.contentHash &&
    request.metadata = proposal.metadata

def ConflictResolutionProposal.intoRequest (proposal : ConflictResolutionProposal) (workspaceId : WorkspaceId)
    (clientId : ClientId) (operationId : OperationId) (conflictId : ConflictId)
    (conflictRevision : WorkspaceConflictRevision) : WorkspaceConflictResolvedRequest :=
  ⟨workspaceId, clientId, operationId, conflictId, conflictRevision, proposal.choice, proposal.path,
    proposal.contentHash, proposal.metadata⟩

def proposalForSide (choice : WorkspaceConflictChoice) (side : WorkspaceConflictSide) :
    Except SyncError ConflictResolutionProposal :=
  if side.tombstone then .error (.conflictResolutionBlocked .selectedSideDeleted)
  else
    match side.path with
    | none => .error (.corruptState "conflicts" "created_json")
    | some path => .ok ⟨choice, path, side.contentHash, side.metadata⟩

section

variable {F : Type} [Filesystem F]

def conflictResolutionProposal (created : WorkspaceConflictCreatedMessage) (choice : WorkspaceConflictChoice) :
    EngineM F ConflictResolutionProposal :=
  match choice with
  | .current => readDb fun _ => proposalForSide .current created.current
  | .incoming => readDb fun _ => proposalForSide .incoming created.incoming
  | .merged => do
    let observed ← inspect created.path
    if observed.all (·.kind ≠ .file) then throw (.mergeRejected "merged_file_required")
    else do
      let descriptor ← writeFiles (Filesystem.stageWorkspaceEntry · created.path)
      pure ⟨.merged, created.path, some descriptor.contentHash, descriptor.metadata⟩
  | .delete => pure ⟨.delete, created.path, none, zeroMetadata⟩

end

/-! ## Queueing a resolution -/

def setConflictStatus (conflictId : ConflictId) (status : ConflictStatus) : TxM Unit :=
  modify fun db => { db with
    conflicts := Table.modify conflictId (fun (conflict : ConflictRecord) => { conflict with status }) db.conflicts }

def enqueueConflictResolution [Env] (request : WorkspaceConflictResolvedRequest) (createdAtMs : Int) : TxM Unit :=
  if request.validate.isOk = false then throw (.protocolInvariant "invalid_conflict_resolution")
  else if request.workspaceId ≠ Env.workspaceId ∨ request.clientId ≠ Env.clientId then
    throw (.protocolInvariant "outbox_identity_mismatch")
  else enqueueOutbox request.operationId (.conflictResolution request) createdAtMs

def Db.outboxDiffers (db : Db) (request : WorkspaceConflictResolvedRequest) : Bool :=
  (db.outbox.lookup request.operationId).any fun row => row.body ≠ .conflictResolution request

def resolutionMismatch (error : WorkspaceValidationError) : SyncError :=
  if error.reason = "conflict_revision_stale" then .conflictRevisionStale
  else .protocolInvariant "conflict_resolution_mismatch"

/-- The checks on a request before it is stored. A request that is stored already is not stored again. -/
def Db.checkConflictResolution (db : Db) (conflict : ConflictRecord) (request : WorkspaceConflictResolvedRequest) :
    Except SyncError Bool :=
  match request.validateAgainst conflict.created with
  | .error error => .error (resolutionMismatch error)
  | .ok _ =>
    match conflict.resolution with
    | some existing => if existing ≠ request ∨ db.outboxDiffers request then .error .operationChanged else .ok true
    | none => if db.outboxDiffers request then .error .operationChanged else .ok false

section

variable {F : Type} [Filesystem F] [Env]

def candidateForRequest (conflict : ConflictRecord) (request : WorkspaceConflictResolvedRequest) :
    EngineM F (Option WorkspaceContentHash) :=
  if request.choice = .merged then
    match request.contentHash with
    | none => throw (.protocolInvariant "merged_resolution_without_content_hash")
    | some hash => do
      let available ← contentAvailable hash request.metadata.size
      if available then pure (some hash) else throw (.mergeRejected "merged_content_unavailable")
  else pure conflict.candidateHash

def storeNow : EngineM F Int := do
  let engine ← get
  set { engine with draws := engine.draws + 1 }
  pure (Env.nowMs engine.draws)

def queueConflictResolution (request : WorkspaceConflictResolvedRequest) : EngineM F Unit := do
  ensureOpen
  requireValid request.validate (.protocolInvariant "invalid_conflict_resolution")
  validateIdentity request.workspaceId request.clientId
  let db := (← get).db
  match db.conflicts.lookup request.conflictId with
  | none => throw .conflictUnavailable
  | some conflict => do
    let stored ← readDb (·.checkConflictResolution conflict request)
    if stored then pure ()
    else do
      let candidateHash ← candidateForRequest conflict request
      let createdAtMs ← storeNow
      transaction do
        enqueueConflictResolution request createdAtMs
        putConflict ⟨conflict.created, .resolving, candidateHash, some request⟩

def repeatResolution (conflict : ConflictRecord) (proposal : ConflictResolutionProposal) :
    EngineM F OperationId := do
  match ← readDb fun _ => decodePendingResolution conflict with
  | none => throw (.corruptState "conflicts" "resolution_json")
  | some existing =>
    if proposal.matches existing then do
      queueConflictResolution existing
      pure existing.operationId
    else throw .conflictResolutionChanged

/-- Resolves a conflict by the choice of the user. Returns the operation that is queued for it. -/
def resolveConflict (conflictId : ConflictId) (conflictRevision : WorkspaceConflictRevision)
    (choice : WorkspaceConflictChoice) : EngineM F OperationId := do
  ensureOpen
  let db := (← get).db
  match db.conflicts.lookup conflictId with
  | none => throw .conflictUnavailable
  | some conflict => do
    let created ← readDb fun _ => decodeConflictCreated conflictId conflict
    if conflictRevision ≠ created.conflictRevision then throw .conflictRevisionStale
    else
      match conflict.status with
      | .waitingBlobs => throw (.conflictResolutionBlocked .waitingBlobs)
      | .autoReady => throw (.conflictResolutionBlocked .automaticResolutionPending)
      | .refreshRequired => throw (.conflictResolutionBlocked .refreshRequired)
      | .resolving => do
        let proposal ← conflictResolutionProposal created choice
        repeatResolution conflict proposal
      | .manual => do
        let proposal ← conflictResolutionProposal created choice
        if conflict.resolution.isSome then throw (.corruptState "conflicts" "resolution_json")
        else do
          let operationId ← nextOperationId
          queueConflictResolution
            (proposal.intoRequest Env.workspaceId Env.clientId operationId conflictId conflictRevision)
          pure operationId

/-! ## Answers of the server -/

def Db.acceptedResolution (db : Db) (message : WorkspaceConflictResolvedMessage) :
    Except SyncError (Option OperationId) :=
  match db.conflicts.lookup message.conflictId with
  | none => do
    let receiptMatch ← db.conflictResolutionReceiptMatch message
    if receiptMatch = .exact then pure none else .error .conflictUnavailable
  | some conflict =>
    match conflict.resolution with
    | none => .error (.protocolInvariant "conflict_resolution_not_outstanding")
    | some request => do
      let created ← decodeConflictCreated message.conflictId conflict
      if !resolvedMatchesRequest message request (some created) then .error .operationChanged
      else if db.outboxDiffers request then .error .operationChanged
      else pure ((db.outbox.lookup request.operationId).map fun _ => request.operationId)

/-- Settles the outbox row of a resolution. The conflict itself waits for the resolution to arrive. -/
def conflictResolutionAccepted (message : WorkspaceConflictResolvedMessage) : EngineM F Unit := do
  ensureOpen
  requireValid message.validate (.protocolInvariant "invalid_conflict_resolution")
  requireThat (message.workspaceId = Env.workspaceId) (.protocolInvariant "conflict_workspace_mismatch")
  let settled ← readDb (·.acceptedResolution message)
  transaction (forTx settled.toList removeOutbox)

def outstandingResolution (record : OutboxRecord) : Except SyncError WorkspaceConflictResolvedRequest :=
  match record.body with
  | .mutation _ => .error (.protocolInvariant "operation_not_conflict_resolution")
  | .conflictResolution request => .ok request

def conflictResolutionRejected (operationId : OperationId) (code : WorkspaceV2ErrorCode) :
    EngineM F (List SyncCommand) := do
  ensureOpen
  let db := (← get).db
  match db.outbox.lookup operationId with
  | none =>
    -- the resolution of another client may have settled the conflict and its row in the meantime
    if code = .conflictRevisionStale ∨ code = .conflictNotFound then pure []
    else throw (.protocolInvariant "conflict_resolution_not_outstanding")
  | some record => do
    let request ← readDb fun _ => outstandingResolution record
    match code with
    | .blobRequired =>
      match request.contentHash with
      | none => throw (.protocolInvariant "blob_required_without_content_hash")
      | some hash => do
        transaction (setOutboxStage operationId .awaitingBlob)
        pure [.uploadBlob request.workspaceId operationId hash request.metadata.size]
    | .conflictRevisionStale | .conflictNotFound => do
      transaction do
        removeOutbox operationId
        setConflictStatus request.conflictId .refreshRequired
      pure []
    | _ => pure []

end

end Lumio.Sync
