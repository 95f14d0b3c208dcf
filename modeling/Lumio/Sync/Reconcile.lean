import Lumio.Sync.Model

/-!
# Reconciling local intents with remote states

The pure part of the engine: what a local change asks for, which mutation expresses it, and when two
operations concern the same paths.
-/

namespace Lumio.Sync

open Lumio.Protocol Lumio.Fs

abbrev PathStates := Table WorkspacePath WorkspacePathState

inductive DesiredOperation where
  | upsert (entry : LocalDesiredEntry)
  | delete (path : WorkspacePath)
  | rename (source target : WorkspacePath) (kind : WorkspaceEntryKind)
      (contentHash : Option WorkspaceContentHash) (metadata : WorkspaceFileMetadata)
deriving DecidableEq

namespace DesiredOperation

def paths : DesiredOperation → List WorkspacePath
  | .upsert entry => [entry.path]
  | .delete path => [path]
  | .rename source target _ _ _ => [source, target]

def intentForPath : DesiredOperation → LocalIntent
  | .upsert entry => .desired entry
  | .delete path => .delete path
  | .rename source target kind contentHash metadata => .rename source target kind contentHash metadata

end DesiredOperation

def desiredFromIntent : LocalIntent → DesiredOperation
  | .desired entry => .upsert entry
  | .delete path => .delete path
  | .rename source target kind contentHash metadata => .rename source target kind contentHash metadata

def desiredFromMutation (mutation : WorkspaceMutation) (renameKind : Option WorkspaceEntryKind) :
    DesiredOperation :=
  match mutation.kind with
  | .upsertFile => .upsert ⟨mutation.path, .file, mutation.contentHash, mutation.metadata⟩
  | .upsertSymlink => .upsert ⟨mutation.path, .symlink, mutation.contentHash, mutation.metadata⟩
  | .mkdir => .upsert ⟨mutation.path, .directory, none, zeroMetadata⟩
  | .delete => .delete mutation.path
  | .rename =>
    let kind := renameKind.getD (if mutation.contentHash.isNone then .directory else .file)
    -- a validated rename has a target
    let target := mutation.newPath.getD mutation.path
    if kind = .directory then .rename mutation.path target kind none zeroMetadata
    else .rename mutation.path target kind mutation.contentHash mutation.metadata

def upsertMutationKind : WorkspaceEntryKind → WorkspaceMutationKind
  | .file => .upsertFile
  | .symlink => .upsertSymlink
  | .directory => .mkdir
  | .tombstone => .delete

def baseRevision (states : PathStates) (path : WorkspacePath) : WorkspaceRevision :=
  ((states.lookup path).map (·.pathRevision)).getD 0

def mutationForDesired (desired : DesiredOperation) (workspaceId : WorkspaceId) (clientId : ClientId)
    (operationId : OperationId) (states : PathStates) : WorkspaceMutation :=
  match desired with
  | .upsert entry =>
    let kind := upsertMutationKind entry.kind
    let live := (states.lookup entry.path).filter (·.kind ≠ .tombstone)
    { workspaceId, clientId, operationId, path := entry.path, kind
      basePathRevision :=
        if kind = .upsertFile ∨ kind = .upsertSymlink then (live.map (·.pathRevision)).getD 0
        else baseRevision states entry.path
      contentHash := if kind = .mkdir ∨ kind = .delete then none else entry.contentHash
      metadata := if kind = .mkdir ∨ kind = .delete then zeroMetadata else entry.metadata
      newPath := none
      targetBasePathRevision := none }
  | .delete path =>
    { workspaceId, clientId, operationId, path, kind := .delete
      basePathRevision := baseRevision states path
      contentHash := none
      metadata := zeroMetadata
      newPath := none
      targetBasePathRevision := none }
  | .rename source target kind contentHash metadata =>
    { workspaceId, clientId, operationId, path := source, kind := .rename
      basePathRevision := baseRevision states source
      contentHash := if kind = .directory then none else contentHash
      metadata := if kind = .directory then zeroMetadata else metadata
      newPath := some target
      targetBasePathRevision := some (baseRevision states target) }

def mutationMatchesDesired (mutation : WorkspaceMutation) (desired : DesiredOperation) : Bool :=
  let renameKind := match desired with
    | .rename _ _ kind _ _ => some kind
    | _ => none
  desiredFromMutation mutation renameKind = desired

/-! ## Paths of operations -/

def pathsIntersect (left right : WorkspacePath) : Bool :=
  left = right || pathIsDescendant left right || pathIsDescendant right left

def mutationPaths (mutation : WorkspaceMutation) : List WorkspacePath :=
  mutation.path :: mutation.newPath.toList

def uniquePaths (paths : List WorkspacePath) : List WorkspacePath :=
  paths.foldl (fun unique path => if path ∈ unique then unique else unique ++ [path]) []

def pathsForDesiredOperations (touched : List WorkspacePath) (desired : List DesiredOperation) :
    List WorkspacePath :=
  uniquePaths (touched ++ desired.flatMap (·.paths))

def desiredOperationCoversPath (desired : DesiredOperation) (path : WorkspacePath) : Bool :=
  match desired with
  | .rename source target .directory _ _ =>
    path = source || path = target || pathIsDescendant path source || pathIsDescendant path target
  | _ => path ∈ desired.paths

/-- Lexicographic comparison of the keys by which operations are sorted. -/
def desiredOperationKeyLe (left right : DesiredOperation) : Bool :=
  let key : DesiredOperation → List Char × List Char × Nat
    | .upsert entry => (entry.path.chars, [], 0)
    | .delete path => (path.chars, [], 1)
    | .rename source target _ _ _ => (source.chars, target.chars, 2)
  let (a, b, c) := key left
  let (a', b', c') := key right
  if a ≠ a' then bytesLe a a' else if b ≠ b' then bytesLe b b' else c ≤ c'

def sortDesiredOperations (operations : List DesiredOperation) : List DesiredOperation :=
  operations.insertionSort fun a b => desiredOperationKeyLe a b

/-! ## Comparing with the remote state -/

def remoteMatchesEntry (state : WorkspacePathState) (entry : LocalDesiredEntry) : Bool :=
  state.path = entry.path && state.kind = entry.kind && state.contentHash = entry.contentHash &&
    state.metadata = entry.metadata && state.tombstone == (entry.kind == .tombstone)

def desiredMatchesRemote (desired : DesiredOperation) (states : PathStates) : Bool :=
  match desired with
  | .upsert entry => (states.lookup entry.path).any (remoteMatchesEntry · entry)
  | .delete path =>
    (states.lookup path).all fun state =>
      state.kind = .tombstone && state.tombstone && state.contentHash.isNone
  | .rename source target kind contentHash metadata =>
    (states.lookup source).any (fun state => state.kind = .tombstone && state.tombstone) &&
      (states.lookup target).any fun state =>
        state.kind = kind && state.contentHash = contentHash && state.metadata = metadata &&
          state.tombstone == (kind == .tombstone)

def replacementDesiredAgainstStates (desired : DesiredOperation) (states : PathStates) : DesiredOperation :=
  match desired with
  | .rename source target kind contentHash metadata =>
    if desiredMatchesRemote desired states ||
        (states.lookup source).any (fun state => state.kind ≠ .tombstone && !state.tombstone) then desired
    else .upsert ⟨target, kind, contentHash, metadata⟩
  | _ => desired

def mergeDeferredDesired (current incoming : DesiredOperation) : DesiredOperation :=
  match current, incoming with
  | .rename source target _ _ _, .upsert entry =>
    if entry.path = target then .rename source target entry.kind entry.contentHash entry.metadata
    else incoming
  | .rename source target _ _ _, .rename incomingSource incomingTarget kind contentHash metadata =>
    if incomingSource = target then .rename source incomingTarget kind contentHash metadata else incoming
  | .rename source target _ _ _, .delete path => if path = target then .delete source else incoming
  | _, _ => incoming

/-! ## Contents and post states -/

def requiredContent (state : WorkspacePathState) : Option (WorkspaceContentHash × Nat) :=
  match state.kind with
  | .file | .symlink => state.contentHash.map (·, state.metadata.size)
  | .directory | .tombstone => none

def eventPostStates (event : WorkspaceEventMessage) : List WorkspacePathState :=
  if event.mutation.kind = .rename then event.oldPathState.toList ++ event.newPathState.toList
  else [event.pathState]

def requiredEventContent (event : WorkspaceEventMessage) : Option (WorkspaceContentHash × Nat) :=
  (eventPostStates event).findSome? requiredContent

def RemoteApplyOperation.fromState (state : WorkspacePathState) : RemoteApplyOperation :=
  if state.kind = .tombstone then .delete state else .upsert state

def RemoteApplyOperation.fromEvent (event : WorkspaceEventMessage) : RemoteApplyOperation :=
  match event.mutation.kind, event.oldPathState, event.newPathState with
  | .rename, some oldState, some newState => .rename oldState newState
  | _, _, _ => .fromState event.pathState

def appliedEventDigest (event : WorkspaceEventMessage) : AppliedOperationResult :=
  ⟨event.mutation, event.pathState, event.oldPathState, event.newPathState⟩

def appliedAcceptanceDigest (mutation : WorkspaceMutation) (accepted : WorkspaceMutationAcceptedMessage) :
    AppliedOperationResult :=
  ⟨mutation, accepted.pathState, accepted.oldPathState, accepted.newPathState⟩

def validateAcceptanceShape (mutation : WorkspaceMutation) (accepted : WorkspaceMutationAcceptedMessage) :
    Except SyncError Unit :=
  if mutation.kind = .rename then
    match accepted.oldPathState, accepted.newPathState, mutation.newPath with
    | some old, some new, some expectedNew =>
      if old.path ≠ mutation.path ∨ new.path ≠ expectedNew ∨ accepted.pathState ≠ new then
        .error (.protocolInvariant "rename_acceptance_path_mismatch")
      else .ok ()
    | _, _, _ => .error (.protocolInvariant "rename_acceptance_pair_missing")
  else if accepted.oldPathState.isSome ∨ accepted.newPathState.isSome ∨ accepted.pathState.path ≠ mutation.path then
    .error (.protocolInvariant "mutation_acceptance_path_mismatch")
  else .ok ()

/-! ## Conflict resolutions -/

def resolutionIdentityMatchesRequest (message : WorkspaceConflictResolvedMessage)
    (request : WorkspaceConflictResolvedRequest) : Bool :=
  message.workspaceId = request.workspaceId && message.conflictId = request.conflictId &&
    message.conflictRevision = request.conflictRevision && message.operationId = request.operationId &&
    message.resolvedByClientId = request.clientId && message.choice = request.choice &&
    message.pathState.path = request.path

def renameCurrentResolvedAsAuthoritativeTombstone (message : WorkspaceConflictResolvedMessage)
    (request : WorkspaceConflictResolvedRequest) (created : Option WorkspaceConflictCreatedMessage) : Bool :=
  created.any fun created =>
    created.workspaceId = request.workspaceId && created.conflictId = request.conflictId &&
      created.conflictRevision = request.conflictRevision && created.kind = .rename &&
      request.choice = .current && created.path = request.path && created.current.path = some request.path &&
      message.pathState.kind = .tombstone && message.pathState.contentHash.isNone &&
      message.pathState.metadata = zeroMetadata && message.pathState.tombstone

def resolvedMatchesRequest (message : WorkspaceConflictResolvedMessage)
    (request : WorkspaceConflictResolvedRequest) (created : Option WorkspaceConflictCreatedMessage) : Bool :=
  let expectedKind : WorkspaceEntryKind :=
    if request.choice = .delete then .tombstone
    else if request.contentHash.isNone then .directory else .file
  let exactBody := message.pathState.kind = expectedKind &&
    message.pathState.contentHash = request.contentHash && message.pathState.metadata = request.metadata &&
    message.pathState.tombstone == (request.choice == .delete)
  resolutionIdentityMatchesRequest message request &&
    (exactBody || renameCurrentResolvedAsAuthoritativeTombstone message request created)

def mutationMatchesConflictOrigin (mutation : WorkspaceMutation) (created : WorkspaceConflictCreatedMessage) :
    Bool :=
  let incoming : Option WorkspaceConflictSide :=
    match mutation.kind with
    | .upsertFile =>
      if created.kind = .rename then none
      else some ⟨some mutation.path, mutation.basePathRevision, mutation.contentHash, mutation.metadata, false⟩
    | .delete =>
      if created.kind = .rename then none
      else some ⟨none, mutation.basePathRevision, mutation.contentHash, mutation.metadata, true⟩
    | .rename =>
      if created.kind = .rename then
        mutation.newPath.map fun newPath =>
          ⟨some newPath, mutation.targetBasePathRevision.getD mutation.basePathRevision,
            mutation.contentHash, mutation.metadata, false⟩
      else none
    | .mkdir | .upsertSymlink => none
  mutation.workspaceId = created.workspaceId && mutation.operationId = created.createdByOperationId &&
    mutation.path = created.path && mutation.basePathRevision = created.ancestor.pathRevision &&
    incoming = some created.incoming

end Lumio.Sync
