import Lumio.Sync.Store

/-!
# The engine and its runtime

The engine is modelled over any implementation `F` of the workspace. A call that fails keeps what its
earlier transactions have committed and what it has written to the workspace.
-/

namespace Lumio.Sync

open Lumio.Protocol Lumio.Fs

inductive InboundWorkSource where
  | stream
  | live
deriving DecidableEq

def InboundWorkSource.other : InboundWorkSource → InboundWorkSource
  | .stream => .live
  | .live => .stream

/-- A live revision item that waits for its blob or for its turn. -/
structure PendingLiveItem where
  message : StreamRevisionItem
  serializedBytes : Nat
deriving DecidableEq

structure Engine (F : Type) where
  db : Db
  files : F
  operationIds : List OperationId
  timestamps : List Int
  /-- How many random identifiers and clock readings have been taken. -/
  draws : Nat
  pendingLiveEvents : List PendingLiveItem
  pendingLiveSerializedBytes : Nat
  nextInboundSource : InboundWorkSource
  closed : Bool

/-- A new engine on a new store. -/
def Engine.initial {F : Type} (files : F) (operationIds : List OperationId) (timestamps : List Int) :
    Engine F where
  db := .initial
  files
  operationIds
  timestamps
  draws := 0
  pendingLiveEvents := []
  pendingLiveSerializedBytes := 0
  nextInboundSource := .stream
  closed := false

abbrev EngineM (F : Type) := EStateM SyncError (Engine F)

inductive SyncCommand where
  | mutation (mutation : WorkspaceMutation)
  | resolveConflict (request : WorkspaceConflictResolvedRequest)
  | uploadBlob (workspaceId : WorkspaceId) (operationId : OperationId) (contentHash : WorkspaceContentHash)
      (size : Nat)
  | downloadBlob (workspaceId : WorkspaceId) (operationId : Option OperationId)
      (contentHash : WorkspaceContentHash) (size : Nat)
  | sendAck (request : WorkspaceAckRequest)
deriving DecidableEq

section

variable {F α : Type}

/-- Runs a transaction body. A body that throws leaves the store as it was. -/
def transaction (body : TxM α) : EngineM F α := fun engine =>
  match body engine.db with
  | .ok a db => .ok a { engine with db }
  | .error e _ => .error e engine

def readFiles (result : Except FsError α) : EngineM F α :=
  match result with
  | .ok a => pure a
  | .error e => throw (.filesystem e)

def writeFiles (operation : F → Except FsError α × F) : EngineM F α := fun engine =>
  match operation engine.files with
  | (.ok a, files) => .ok a { engine with files }
  | (.error e, files) => .error (.filesystem e) { engine with files }

/-- The result of a check that only reads the store. -/
def readDb (check : Db → Except SyncError α) : EngineM F α := fun engine =>
  match check engine.db with
  | .ok a => .ok a engine
  | .error e => .error e engine

def ensureOpen : EngineM F Unit := do
  let engine ← get
  if engine.closed then throw (.protocolInvariant "engine_closed") else pure ()

def requireValid (result : Except WorkspaceValidationError Unit) (error : SyncError) : EngineM F Unit :=
  match result with
  | .ok _ => pure ()
  | .error _ => throw error

def requireThat (condition : Bool) (error : SyncError) : EngineM F Unit :=
  if condition then pure () else throw error

variable [Env]

def validateIdentity (workspaceId : WorkspaceId) (clientId : ClientId) : EngineM F Unit :=
  if workspaceId ≠ Env.workspaceId ∨ clientId ≠ Env.clientId then
    throw (.protocolInvariant "mutation_result_identity_mismatch")
  else pure ()

/-- An operation id that an outbox row or a receipt of this client already has. -/
def Db.operationIdUsed (db : Db) (operationId : OperationId) : Bool :=
  (db.outbox.lookup operationId).isSome || (db.appliedOperations.lookup (Env.clientId, operationId)).isSome

def nextOperationId : EngineM F OperationId := do
  let engine ← get
  match engine.operationIds.dropWhile engine.db.operationIdUsed with
  | operationId :: rest => do
    set { engine with operationIds := rest }
    pure operationId
  | [] => do
    set { engine with operationIds := [], draws := engine.draws + 1 }
    pure (Env.uuid engine.draws)

def nextTimestamp : EngineM F Int := do
  let engine ← get
  match engine.timestamps with
  | timestamp :: rest => do
    set { engine with timestamps := rest }
    pure timestamp
  | [] => do
    set { engine with draws := engine.draws + 1 }
    pure (Env.nowMs engine.draws)

end

/-! ## Observing the workspace -/

section

variable {F : Type} [Filesystem F]

def inspect (path : WorkspacePath) : EngineM F (Option ObservedEntry) := do
  let engine ← get
  readFiles (Filesystem.inspect engine.files path)

def desiredEntryFromObserved (observed : ObservedEntry) : EngineM F LocalDesiredEntry :=
  if observed.kind = .directory then pure ⟨observed.path, observed.kind, none, zeroMetadata⟩
  else do
    let descriptor ← writeFiles (Filesystem.stageWorkspaceEntry · observed.path)
    pure ⟨observed.path, observed.kind, some descriptor.contentHash, descriptor.metadata⟩

def observedContentHash (observed : ObservedEntry) : EngineM F (Option WorkspaceContentHash) :=
  if observed.kind = .directory then pure none
  else do
    let entry ← desiredEntryFromObserved observed
    pure entry.contentHash

def observedMatchesPost (state : WorkspacePathState) (observed : Option ObservedEntry) : EngineM F Bool :=
  match observed with
  | none => pure (state.kind = .tombstone)
  | some observed =>
    if observed.kind ≠ state.kind ∨ state.kind = .tombstone then pure false
    else do
      let hash ← observedContentHash observed
      pure (state.contentHash = hash && (state.kind = .directory || observed.metadata.size = state.metadata.size))

def baselineMatchesObserved (baseline : Option WorkspacePathState) (observed : Option ObservedEntry) :
    EngineM F Bool :=
  match baseline with
  | none => pure observed.isNone
  | some baseline =>
    if baseline.kind = .tombstone ∨ baseline.tombstone then pure observed.isNone
    else
      match observed with
      | none => pure false
      | some observed =>
        if observed.kind ≠ baseline.kind ∨ observed.metadata ≠ baseline.metadata then pure false
        else do
          let hash ← observedContentHash observed
          pure (baseline.contentHash = hash)

def contentAvailable (hash : WorkspaceContentHash) (size : Nat) : EngineM F Bool := do
  let engine ← get
  readFiles (Filesystem.contentAvailable engine.files hash size)

def statusForState (state : WorkspacePathState) : EngineM F StreamItemStatus :=
  match requiredContent state with
  | none => pure .ready
  | some (hash, size) => do
    let available ← contentAvailable hash size
    pure (if available then .ready else .waitingBlob)

def desiredFromCurrent (path : WorkspacePath) : EngineM F DesiredOperation := do
  match ← inspect path with
  | none => pure (.delete path)
  | some observed => do
    let entry ← desiredEntryFromObserved observed
    pure (.upsert entry)

def expectedFromObserved (observed : Option ObservedEntry) : EngineM F ExpectedEntry :=
  match observed with
  | none => pure .missing
  | some observed => do
    let contentHash ← observedContentHash observed
    if observed.kind = .directory then do
      let engine ← get
      let snapshot ← readFiles (Filesystem.directorySnapshot engine.files observed.path)
      pure (.present observed.kind contentHash (some snapshot) observed.fingerprint)
    else pure (.present observed.kind contentHash none observed.fingerprint)

/-! ## What an item does to the workspace -/

def observedForEvent (event : WorkspaceEventMessage) :
    EngineM F (List (WorkspacePath × Option ObservedEntry)) :=
  (mutationPaths event.mutation).mapM fun path => do
    let observed ← inspect path
    pure (path, observed)

def pathStatesForEvent (db : Db) (event : WorkspaceEventMessage) :
    List (WorkspacePath × Option WorkspacePathState) :=
  (mutationPaths event.mutation).map fun path => (path, db.pathStates.lookup path)

def observedAt (observed : List (WorkspacePath × Option ObservedEntry)) (path : WorkspacePath) :
    Option ObservedEntry :=
  ((observed.find? (·.1 = path)).map (·.2)).join

/-- Whether every check of a list holds, stopping at the first that does not. -/
def allM (checks : List (EngineM F Bool)) : EngineM F Bool :=
  match checks with
  | [] => pure true
  | check :: rest => do
    let holds ← check
    if holds then allM rest else pure false

def eventPostMatches (states : List WorkspacePathState) (observed : List (WorkspacePath × Option ObservedEntry)) :
    EngineM F Bool :=
  allM (states.map fun state => observedMatchesPost state (observedAt observed state.path))

def eventBaselineMatches (previous : List (WorkspacePath × Option WorkspacePathState))
    (observed : List (WorkspacePath × Option ObservedEntry)) : EngineM F Bool :=
  allM (previous.map fun (path, state) => baselineMatchesObserved state (observedAt observed path))

def eventIsDiverged (event : WorkspaceEventMessage) : EngineM F Bool := do
  let engine ← get
  let previous := pathStatesForEvent engine.db event
  let observed ← observedForEvent event
  let postMatches ← eventPostMatches (eventPostStates event) observed
  if postMatches then pure false
  else do
    let baselineMatches ← eventBaselineMatches previous observed
    pure !baselineMatches

def operationForState (post : WorkspacePathState) (observed : Option ObservedEntry) :
    EngineM F (Option FsOperation) := do
  let expected ← expectedFromObserved observed
  match post.kind with
  | .file =>
    match post.contentHash with
    | some contentHash => pure (some (.upsertFile post.path contentHash post.metadata expected))
    | none => throw (.protocolInvariant "file_content_hash_missing")
  | .directory => pure (some (.mkdir post.path post.metadata expected))
  | .symlink =>
    match post.contentHash with
    | some contentHash => pure (some (.upsertSymlink post.path contentHash post.metadata expected))
    | none => throw (.protocolInvariant "symlink_content_hash_missing")
  | .tombstone => pure (if expected = .missing then none else some (.delete post.path expected))

def operationForEvent (event : WorkspaceEventMessage) (observed : List (WorkspacePath × Option ObservedEntry)) :
    EngineM F (Option FsOperation) :=
  if event.mutation.kind ≠ .rename then operationForState event.pathState (observed.head?.map (·.2)).join
  else
    match event.mutation.newPath with
    | none => throw (.protocolInvariant "rename_target_missing")
    | some newPath =>
      match observedAt observed event.mutation.path with
      | none => pure none
      | some sourceObserved => do
        let sourceExpected ← expectedFromObserved (some sourceObserved)
        let targetExpected ← expectedFromObserved (observedAt observed newPath)
        match event.newPathState with
        | none => throw (.protocolInvariant "rename_target_state_missing")
        | some targetState =>
          pure (some (.rename event.mutation.path newPath targetState.contentHash targetState.metadata
            sourceExpected targetExpected))

end

end Lumio.Sync
