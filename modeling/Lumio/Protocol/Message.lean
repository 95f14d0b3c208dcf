import Lumio.Protocol.Value

/-!
# Messages of the workspace protocol

Each `validate` checks the fields in the order of the source and names the field it refuses.
-/

namespace Lumio.Protocol

structure WorkspacePathState where
  path : WorkspacePath
  pathRevision : WorkspaceRevision
  kind : WorkspaceEntryKind
  contentHash : Option WorkspaceContentHash
  metadata : WorkspaceFileMetadata
  tombstone : Bool
deriving DecidableEq

def WorkspacePathState.validate (state : WorkspacePathState) : Except WorkspaceValidationError Unit := do
  if state.tombstone != (state.kind == .tombstone) then validationError "tombstone" "kind_mismatch"
  match state.kind with
  | .file | .symlink => if state.contentHash.isNone then validationError "contentHash" "required_for_kind"
  | .directory | .tombstone =>
    if state.contentHash.isSome then validationError "contentHash" "must_be_null_for_kind"
  state.metadata.validate state.kind

/-! ## Streams -/

structure WorkspaceSnapshotBeginMessage where
  workspaceId : WorkspaceId
  streamId : StreamId
  mode : WorkspaceSnapshotMode
  fromRevision : WorkspaceRevision
  finalRevision : WorkspaceRevision
  entryCount : Nat
  eventCount : Nat
  conflictCount : Nat
deriving DecidableEq

def WorkspaceSnapshotBeginMessage.validate (begin_ : WorkspaceSnapshotBeginMessage) :
    Except WorkspaceValidationError Unit :=
  if begin_.finalRevision < begin_.fromRevision then validationError "finalRevision" "before_from_revision"
  else match begin_.mode with
  | .snapshot =>
    if begin_.eventCount ≠ 0 then validationError "eventCount" "must_be_zero_for_snapshot" else .ok ()
  | .incremental =>
    if begin_.entryCount ≠ 0 then validationError "entryCount" "must_be_zero_for_incremental" else .ok ()

structure WorkspaceSnapshotEntryMessage where
  workspaceId : WorkspaceId
  streamId : StreamId
  index : Nat
  entry : WorkspacePathState
deriving DecidableEq

def WorkspaceSnapshotEntryMessage.validate (message : WorkspaceSnapshotEntryMessage) :
    Except WorkspaceValidationError Unit :=
  message.entry.validate

structure WorkspaceSnapshotEndMessage where
  workspaceId : WorkspaceId
  streamId : StreamId
  mode : WorkspaceSnapshotMode
  deliveredCount : Nat
  finalRevision : WorkspaceRevision
deriving DecidableEq

def WorkspaceSnapshotEndMessage.validateAgainst (message : WorkspaceSnapshotEndMessage)
    (begin_ : WorkspaceSnapshotBeginMessage) : Except WorkspaceValidationError Unit := do
  begin_.validate
  if message.workspaceId ≠ begin_.workspaceId ∨ message.streamId ≠ begin_.streamId ∨
      message.mode ≠ begin_.mode ∨ message.finalRevision ≠ begin_.finalRevision then
    validationError "snapshotEnd" "begin_mismatch"
  let selectedCount := match begin_.mode with
    | .snapshot => begin_.entryCount
    | .incremental => begin_.eventCount
  -- the counts are `u32` and their sum is checked
  if 2 ^ 32 ≤ selectedCount + begin_.conflictCount then validationError "deliveredCount" "count_overflow"
  if message.deliveredCount ≠ selectedCount + begin_.conflictCount then
    validationError "deliveredCount" "count_mismatch"

/-! ## Mutations and their replies -/

structure WorkspaceMutation where
  workspaceId : WorkspaceId
  clientId : ClientId
  operationId : OperationId
  path : WorkspacePath
  basePathRevision : WorkspaceRevision
  kind : WorkspaceMutationKind
  contentHash : Option WorkspaceContentHash
  metadata : WorkspaceFileMetadata
  newPath : Option WorkspacePath
  targetBasePathRevision : Option WorkspaceRevision
deriving DecidableEq

/-- `path` lies below `ancestor`: it continues it after a slash. -/
def pathIsDescendant (path ancestor : WorkspacePath) : Bool :=
  (ancestor.chars ++ ['/']).isPrefixOf path.chars

def WorkspaceMutation.validate (mutation : WorkspaceMutation) : Except WorkspaceValidationError Unit := do
  if mutation.kind = .rename then
    match mutation.newPath with
    | none => validationError "newPath" "required_for_rename"
    | some newPath =>
      if mutation.targetBasePathRevision.isNone then
        validationError "targetBasePathRevision" "required_for_rename"
      if newPath = mutation.path then validationError "newPath" "same_as_path"
      if pathIsDescendant newPath mutation.path then validationError "newPath" "directory_into_child"
  else
    if mutation.newPath.isSome then validationError "newPath" "forbidden_for_kind"
    if mutation.targetBasePathRevision.isSome then
      validationError "targetBasePathRevision" "forbidden_for_kind"
  match mutation.kind with
  | .upsertFile | .upsertSymlink =>
    if mutation.contentHash.isNone then validationError "contentHash" "required_for_kind"
    mutation.metadata.validate (if mutation.kind = .upsertFile then .file else .symlink)
  | .mkdir | .delete =>
    if mutation.contentHash.isSome then validationError "contentHash" "must_be_null_for_kind"
    mutation.metadata.validate (if mutation.kind = .mkdir then .directory else .tombstone)
  | .rename => pure ()

structure WorkspaceMutationAcceptedMessage where
  workspaceId : WorkspaceId
  clientId : ClientId
  operationId : OperationId
  revision : WorkspaceRevision
  pathState : WorkspacePathState
  oldPathState : Option WorkspacePathState
  newPathState : Option WorkspacePathState
deriving DecidableEq

def WorkspaceMutationAcceptedMessage.validate (accepted : WorkspaceMutationAcceptedMessage) :
    Except WorkspaceValidationError Unit := do
  if accepted.revision = 0 ∨ accepted.pathState.pathRevision ≠ accepted.revision then
    validationError "revision" "path_state_mismatch"
  accepted.pathState.validate
  if accepted.oldPathState.isSome ≠ accepted.newPathState.isSome then
    validationError "pathState" "rename_pair_required"
  match accepted.oldPathState, accepted.newPathState with
  | some old, some new =>
    old.validate
    new.validate
    if old.path = new.path then validationError "oldPathState.path" "rename_path_required"
    if old.pathRevision ≠ accepted.revision then
      validationError "oldPathState.pathRevision" "revision_mismatch"
    if new.pathRevision ≠ accepted.revision then
      validationError "newPathState.pathRevision" "revision_mismatch"
    if accepted.pathState ≠ new then validationError "pathState" "new_path_state_mismatch"
  | _, _ => pure ()

structure WorkspaceMutationRejectedMessage where
  workspaceId : WorkspaceId
  clientId : ClientId
  operationId : OperationId
  reason : WorkspaceMutationRejectReason
  currentPathState : Option WorkspacePathState
  conflictId : Option ConflictId
  requiredHash : Option WorkspaceContentHash
deriving DecidableEq

def WorkspaceMutationRejectedMessage.validate (rejected : WorkspaceMutationRejectedMessage) :
    Except WorkspaceValidationError Unit := do
  match rejected.currentPathState with
  | some state => state.validate
  | none => pure ()
  match rejected.reason with
  | .staleBaseRevision | .operationReused =>
    if rejected.conflictId.isSome ∨ rejected.requiredHash.isSome then
      validationError "reason" "payload_mismatch"
  | .blobRequired =>
    if rejected.requiredHash.isNone ∨ rejected.conflictId.isSome then
      validationError "requiredHash" "required_for_reason"
  | .conflictCreated =>
    if rejected.conflictId.isNone then validationError "conflictId" "required_for_reason"
    if rejected.requiredHash.isSome then validationError "requiredHash" "forbidden_for_reason"

/-! ## Events -/

structure WorkspaceEventMessage where
  workspaceId : WorkspaceId
  streamId : StreamId
  index : Nat
  revision : WorkspaceRevision
  operationId : OperationId
  originClientId : ClientId
  mutation : WorkspaceMutation
  pathState : WorkspacePathState
  oldPathState : Option WorkspacePathState
  newPathState : Option WorkspacePathState
deriving DecidableEq

def WorkspaceEventMessage.validate (event : WorkspaceEventMessage) : Except WorkspaceValidationError Unit := do
  event.mutation.validate
  if event.mutation.workspaceId ≠ event.workspaceId ∨ event.mutation.operationId ≠ event.operationId ∨
      event.mutation.clientId ≠ event.originClientId then
    validationError "mutation" "event_identity_mismatch"
  if event.pathState.pathRevision ≠ event.revision then
    validationError "pathState.pathRevision" "revision_mismatch"
  event.pathState.validate
  if event.mutation.kind = .rename then
    match event.oldPathState, event.newPathState, event.mutation.newPath with
    | some old, some new, some expectedNewPath =>
      old.validate
      new.validate
      if old.path ≠ event.mutation.path then
        validationError "oldPathState.path" "mutation_path_mismatch"
      if new.path ≠ expectedNewPath then
        validationError "newPathState.path" "mutation_new_path_mismatch"
      if old.pathRevision ≠ event.revision then
        validationError "oldPathState.pathRevision" "revision_mismatch"
      if new.pathRevision ≠ event.revision then
        validationError "newPathState.pathRevision" "revision_mismatch"
      if event.pathState ≠ new then validationError "pathState" "new_path_state_mismatch"
    | _, _, _ => validationError "pathState" "rename_pair_required"
  else
    if event.oldPathState.isSome ∨ event.newPathState.isSome then
      validationError "pathState" "forbidden_for_kind"

structure WorkspaceAckRequest where
  workspaceId : WorkspaceId
  clientId : ClientId
  revision : WorkspaceRevision
deriving DecidableEq

/-! ## Conflicts -/

structure WorkspaceConflictSide where
  path : Option WorkspacePath
  pathRevision : WorkspaceRevision
  contentHash : Option WorkspaceContentHash
  metadata : WorkspaceFileMetadata
  tombstone : Bool
deriving DecidableEq

def WorkspaceConflictSide.validateWithField (side : WorkspaceConflictSide) (field : String) :
    Except WorkspaceValidationError Unit := do
  if side.path.isNone ∧ !side.tombstone then
    validationError (field ++ ".path") "null_requires_tombstone"
  if side.tombstone then
    if side.contentHash.isSome then
      validationError (field ++ ".contentHash") "must_be_null_for_tombstone"
    side.metadata.validate .tombstone
  else side.metadata.validate (if side.contentHash.isNone then .directory else .file)

structure WorkspaceConflictCreatedMessage where
  workspaceId : WorkspaceId
  conflictId : ConflictId
  conflictRevision : WorkspaceConflictRevision
  path : WorkspacePath
  kind : WorkspaceConflictKind
  ancestor : WorkspaceConflictSide
  current : WorkspaceConflictSide
  incoming : WorkspaceConflictSide
  createdByOperationId : OperationId
deriving DecidableEq

def sideIsLiveFileAt (side : WorkspaceConflictSide) (path : WorkspacePath) : Bool :=
  !side.tombstone && side.path == some path && side.contentHash.isSome

def WorkspaceConflictCreatedMessage.validate (created : WorkspaceConflictCreatedMessage) :
    Except WorkspaceValidationError Unit := do
  created.ancestor.validateWithField "ancestor"
  created.current.validateWithField "current"
  created.incoming.validateWithField "incoming"
  match created.kind with
  | .content | .binary =>
    if !sideIsLiveFileAt created.current created.path then validationError "current" "kind_mismatch"
    if !sideIsLiveFileAt created.incoming created.path then validationError "incoming" "kind_mismatch"
  | .deleteModify =>
    if created.current.tombstone = created.incoming.tombstone then
      validationError "incoming" "kind_mismatch"
    let live := if created.current.tombstone then created.incoming else created.current
    if !sideIsLiveFileAt live created.path then validationError "incoming" "kind_mismatch"
  | .rename =>
    match created.current.path, created.incoming.path with
    | some current, some incoming =>
      if created.current.tombstone ∨ created.incoming.tombstone then
        validationError "incoming" "kind_mismatch"
      if current = incoming then validationError "incoming.path" "rename_path_required"
    | _, _ => validationError "incoming" "kind_mismatch"

structure WorkspaceConflictResolvedRequest where
  workspaceId : WorkspaceId
  clientId : ClientId
  operationId : OperationId
  conflictId : ConflictId
  conflictRevision : WorkspaceConflictRevision
  choice : WorkspaceConflictChoice
  path : WorkspacePath
  contentHash : Option WorkspaceContentHash
  metadata : WorkspaceFileMetadata
deriving DecidableEq

/-- A resolution that deletes carries no content. -/
def validateDeleteResolution (request : WorkspaceConflictResolvedRequest) :
    Except WorkspaceValidationError Unit := do
  if request.contentHash.isSome then validationError "contentHash" "must_be_null_for_delete"
  if request.metadata.size ≠ 0 then validationError "metadata.size" "must_be_zero_for_delete"
  if request.metadata.modifiedAtMs ≠ 0 then validationError "metadata.modifiedAtMs" "must_be_zero_for_delete"
  if request.metadata.executable then validationError "metadata.executable" "must_be_false_for_delete"

def WorkspaceConflictResolvedRequest.validate (request : WorkspaceConflictResolvedRequest) :
    Except WorkspaceValidationError Unit :=
  match request.choice with
  | .merged =>
    if request.contentHash.isNone then validationError "contentHash" "required_for_merged"
    else request.metadata.validate .file
  | .delete => validateDeleteResolution request
  | .current | .incoming => .ok ()

/-- A resolution that picks a side repeats it. -/
def validateSideReplay (request : WorkspaceConflictResolvedRequest) (side : WorkspaceConflictSide) :
    Except WorkspaceValidationError Unit :=
  if !side.tombstone ∧ side.path = some request.path ∧ request.contentHash = side.contentHash ∧
      request.metadata = side.metadata then .ok ()
  else validationError "choice" "side_mismatch"

def WorkspaceConflictResolvedRequest.validateAgainst (request : WorkspaceConflictResolvedRequest)
    (created : WorkspaceConflictCreatedMessage) : Except WorkspaceValidationError Unit := do
  if request.conflictRevision ≠ created.conflictRevision then
    validationError "conflictRevision" "conflict_revision_stale"
  created.validate
  if request.workspaceId ≠ created.workspaceId ∨ request.conflictId ≠ created.conflictId then
    validationError "conflictId" "conflict_mismatch"
  match request.choice with
  | .current => validateSideReplay request created.current
  | .incoming => validateSideReplay request created.incoming
  | .merged | .delete =>
    if request.path ≠ created.path then validationError "path" "conflict_path_mismatch"
    request.validate

structure WorkspaceConflictResolvedMessage where
  workspaceId : WorkspaceId
  conflictId : ConflictId
  conflictRevision : WorkspaceConflictRevision
  operationId : OperationId
  revision : WorkspaceRevision
  choice : WorkspaceConflictChoice
  pathState : WorkspacePathState
  resolvedByClientId : ClientId
deriving DecidableEq

def WorkspaceConflictResolvedMessage.validate (message : WorkspaceConflictResolvedMessage) :
    Except WorkspaceValidationError Unit := do
  if message.revision = 0 then validationError "revision" "must_be_positive"
  if message.pathState.pathRevision ≠ message.revision then
    validationError "pathState.pathRevision" "revision_mismatch"
  message.pathState.validate

end Lumio.Protocol
