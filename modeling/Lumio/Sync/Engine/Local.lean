import Lumio.Sync.Engine.Inbound

/-!
# Local changes and pending commands

Changes observed in the workspace are filtered by the synchronisation rules and recorded, or deferred while a
stream is stored. `pendingCommands` is what the transport polls.
-/

namespace Lumio.Sync

open Lumio.Protocol Lumio.Fs Prog

/-! ## Comparing a scan with the remote state -/

def sameRenameIdentity (state : WorkspacePathState) (entry : LocalDesiredEntry) : Bool :=
  state.kind = entry.kind && state.contentHash = entry.contentHash && state.metadata.size = entry.metadata.size &&
    state.metadata.executable = entry.metadata.executable

def descendantSuffix (path root : WorkspacePath) : Option (List Char) :=
  if pathIsDescendant path root then some (path.chars.drop (root.chars.length + 1)) else none

def orderedStates (remote : PathStates) : List (WorkspacePath × WorkspacePathState) :=
  (sortPaths remote.keys).filterMap fun path => (remote.lookup path).map (path, ·)

abbrev SubtreeEntry := List Char × WorkspaceEntryKind × Option WorkspaceContentHash × Nat × Bool

def remoteSubtree (root : WorkspacePath) (remote : PathStates) : List SubtreeEntry :=
  ((orderedStates remote).filter fun (_, state) => state.kind ≠ .tombstone && !state.tombstone).filterMap
    fun (path, state) => (descendantSuffix path root).map
      (·, state.kind, state.contentHash, state.metadata.size, state.metadata.executable)

def currentSubtree (root : WorkspacePath) (current : List LocalDesiredEntry) : List SubtreeEntry :=
  current.filterMap fun entry => (descendantSuffix entry.path root).map
    (·, entry.kind, entry.contentHash, entry.metadata.size, entry.metadata.executable)

/-- The two directories hold the same entries. The digests that the program compares first are equal then. -/
def directorySubtreesExactMatch (oldRoot newRoot : WorkspacePath) (remote : PathStates)
    (current : List LocalDesiredEntry) : Bool :=
  remoteSubtree oldRoot remote = currentSubtree newRoot current

def renameCandidates (remote : PathStates) (current additions : List LocalDesiredEntry)
    (deleted : WorkspacePath × WorkspacePathState) : List LocalDesiredEntry :=
  additions.filter fun entry =>
    sameRenameIdentity deleted.2 entry &&
      (deleted.2.kind ≠ .directory || directorySubtreesExactMatch deleted.1 entry.path remote current)

/-- A deletion and an addition that are each other's only candidates, unless the deletion lies below a
directory that is renamed as a whole. -/
structure RenamePair where
  source : WorkspacePath
  target : WorkspacePath
  kind : WorkspaceEntryKind

def pairedDirectory (pairs : List RenamePair) (select : RenamePair → WorkspacePath) (path : WorkspacePath) : Bool :=
  pairs.any fun pair => pair.kind = .directory && pathIsDescendant path (select pair)

def pairRenames (candidates : WorkspacePath × WorkspacePathState → List LocalDesiredEntry)
    (deletions : List (WorkspacePath × WorkspacePathState)) : List RenamePair :=
  deletions.foldl (fun pairs deleted =>
    match candidates deleted with
    | [entry] =>
      if (deletions.filter fun other => (candidates other).any (·.path = entry.path)).length = 1 ∧
          !pairedDirectory pairs (·.source) deleted.1 then
        pairs ++ [⟨deleted.1, entry.path, entry.kind⟩]
      else pairs
    | _ => pairs) []

/-- The changes between the remote state and a scan, the renames last. -/
def changesBetween (remote : PathStates) (current : List LocalDesiredEntry) : List FsChange :=
  let additions := current.filter fun entry => (remote.lookup entry.path).all (·.kind = .tombstone)
  let updates := current.filter fun entry => (remote.lookup entry.path).any fun state =>
    state.kind ≠ .tombstone && !remoteMatchesEntry state entry
  let deletions := (orderedStates remote).filter fun (path, state) =>
    state.kind ≠ .tombstone && !current.any (·.path = path)
  let pairs := pairRenames (renameCandidates remote current additions) deletions
  let created := additions.filter fun entry =>
    !pairs.any (·.target = entry.path) && !pairedDirectory pairs (·.target) entry.path
  let deleted := deletions.filter fun (path, _) =>
    !pairs.any (·.source = path) && !pairedDirectory pairs (·.source) path
  let renamed := (pairs.filter fun pair => !pairedDirectory pairs (·.source) pair.source).insertionSort
    fun a b => if a.source = b.source then a.target.le b.target else a.source.le b.source
  created.map (FsChange.create ·.path) ++ updates.map (FsChange.update ·.path) ++ deleted.map (FsChange.delete ·.1) ++
    renamed.map fun pair => FsChange.rename pair.source pair.target

section

variable {F : Type} [Filesystem F] [Env]

def scanChanges : EngineM F (List FsChange) := do
  ensureOpen
  let entries ← scanComplete
  let staged ← entries.mapM desiredEntryFromObserved
  let engine ← get
  pure (changesBetween engine.db.pathStates (staged.insertionSort fun a b => a.path.le b.path))

/-! ## Recording -/

def pathIsSynced (path : WorkspacePath) : EngineM F Bool := do
  let observed ← inspect path
  let engine ← get
  pure (Filesystem.included engine.files path (observed.any (·.kind = .directory)))

/-- A rename that crosses the boundary of the rules becomes the half that is in scope. -/
def admitLocalChange (change : FsChange) : EngineM F (Option FsChange) :=
  match change with
  | .create path | .update path | .delete path => do
    let synced ← pathIsSynced path
    pure (if synced then some change else none)
  | .rename source target => do
    let sourceSynced ← pathIsSynced source
    let targetSynced ← pathIsSynced target
    pure (match sourceSynced, targetSynced with
      | true, true => some change
      | true, false => some (.delete source)
      | false, true => some (.create target)
      | false, false => none)
  | .rescanRequired => pure (some .rescanRequired)

def desiredFromChange (change : FsChange) : EngineM F DesiredOperation :=
  match change with
  | .create path | .update path => do
    match ← inspect path with
    | none => throw (.filesystem (.io "observe local change"))
    | some observed => do
      let entry ← desiredEntryFromObserved observed
      pure (.upsert entry)
  | .delete path => pure (.delete path)
  | .rename source target => do
    match ← inspect target with
    | none => throw (.filesystem (.io "observe local rename target"))
    | some observed => do
      let entry ← desiredEntryFromObserved observed
      pure (.rename source target entry.kind entry.contentHash entry.metadata)
  | .rescanRequired => throw (.protocolInvariant "rescan changes are expanded before reconciliation")

def recordOrDefer (desired : DesiredOperation) : EngineM F Unit := do
  let db := (← get).db
  if db.stream.isSome then
    if desiredMatchesRemote desired db.pathStates then pure () else deferDesired desired
  else recordDesired desired

def recordLocalChange (change : FsChange) : EngineM F Unit := do
  match ← admitLocalChange change with
  | none => pure ()
  | some admitted => do
    let desired ← desiredFromChange admitted
    recordOrDefer desired

/-- One pass over the pending changes. The changes a rescan finds come after all others. -/
def recordPass : List FsChange → EngineM F (List FsChange)
  | [] => pure []
  | .rescanRequired :: rest => do
    let found ← scanChanges
    let later ← recordPass rest
    pure (found ++ later)
  | change :: rest => do
    recordLocalChange change
    recordPass rest

def recordLocalChanges (changes : List FsChange) : EngineM F Unit := do
  ensureOpen
  let found ← recordPass changes
  -- a scan never asks for another scan
  let _ ← recordPass found

/-! ## Commands -/

def outboxCommand (record : OutboxRecord) : SyncCommand :=
  match record.body with
  | .mutation mutation => .mutation mutation
  | .conflictResolution request => .resolveConflict request

def uploadCommand (record : OutboxRecord) : Except SyncError SyncCommand :=
  let (workspaceId, operationId, contentHash, size) := match record.body with
    | .mutation mutation =>
      (mutation.workspaceId, mutation.operationId, mutation.contentHash, mutation.metadata.size)
    | .conflictResolution request =>
      (request.workspaceId, request.operationId, request.contentHash, request.metadata.size)
  match contentHash with
  | some hash => .ok (.uploadBlob workspaceId operationId hash size)
  | none => .error (.protocolInvariant "blob_without_content_hash")

/-- The acknowledgement the cursor asks for: the terminal one, or that of a stalled stream. -/
def ackCommand (cursor : WorkspaceCursor) : List SyncCommand :=
  match cursor.pendingAckRevision.or cursor.pendingSegmentAckRevision with
  | some revision => [.sendAck ⟨Env.workspaceId, Env.clientId, revision⟩]
  | none => []

def pendingCommands (limit : Nat) : EngineM F (List SyncCommand) := do
  ensureOpen
  if limit = 0 then pure []
  else do
    let inbound ← resumeInboundWork limit true
    if inbound.length = limit then pure inbound
    else do
      let engine ← get
      onlyIf (inbound.isEmpty ∧ engine.db.stream.isNone ∧ engine.pendingLiveEvents.isEmpty ∧
        engine.db.applyJournals.entries = []) materializeLocalIntents
      let records ← transaction (pendingOutboxReplay (limit - inbound.length))
      let commands := inbound ++ records.map outboxCommand
      let db := (← get).db
      let awaiting := db.outboxRecords.filter (·.stage = .awaitingBlob)
      let uploads ← readDb fun _ => (awaiting.take (limit - commands.length)).mapM uploadCommand
      let commands := commands ++ uploads
      pure (if commands.length < limit then commands ++ ackCommand db.cursor else commands)

def prepareConnectionAttempt : EngineM F Unit := do
  ensureOpen
  transaction replayAwaitingBlobMutations

end

end Lumio.Sync
