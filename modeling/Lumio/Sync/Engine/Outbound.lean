import Lumio.Sync.Engine.Basic

/-!
# Local changes on their way to the server

A local change becomes a mutation in the outbox, or a deferred intent while an earlier operation on one
of its paths is outstanding.
-/

namespace Lumio.Sync

open Lumio.Protocol Lumio.Fs

def forTx {α : Type} (xs : List α) (step : α → TxM Unit) : TxM Unit := forM xs step

/-- The first outstanding mutation, in replay order, that shares a path with `touched`. -/
def Db.overlappingMutation (db : Db) (touched : List WorkspacePath) : Option (OutboxRecord × WorkspaceMutation) :=
  db.outboxRecords.findSome? fun record =>
    match record.mutation? with
    | some mutation => if (mutationPaths mutation).any (· ∈ touched) then some (record, mutation) else none
    | none => none

/-! ## Deferred intents -/

def dedupOperations (operations : List DesiredOperation) : List DesiredOperation :=
  operations.foldl (fun seen operation => if operation ∈ seen then seen else seen ++ [operation]) []

def Db.deferredOperations (db : Db) (touched : List WorkspacePath) : List DesiredOperation :=
  let rows := db.localIntentRecords.filter (·.path ∈ touched)
  sortDesiredOperations (dedupOperations (rows.map fun row => desiredFromIntent row.intent))

/-- One round over the available operations: those that intersect join, with their paths. -/
def expandOperations (available : List DesiredOperation)
    (closure : List WorkspacePath × List DesiredOperation) : List WorkspacePath × List DesiredOperation :=
  available.foldl (fun (intersecting, operations) operation =>
    if operation ∈ operations ||
        !operation.paths.any (fun path => intersecting.any (pathsIntersect path ·)) then (intersecting, operations)
    else (intersecting ++ operation.paths, operations ++ [operation])) closure

def closeOperations (available : List DesiredOperation) :
    Nat → List WorkspacePath × List DesiredOperation → List WorkspacePath × List DesiredOperation
  | 0, closure => closure
  | fuel + 1, closure =>
    let expanded := expandOperations available closure
    if expanded.2.length = closure.2.length then expanded else closeOperations available fuel expanded

/-- The deferred operations reachable from `touched` over intersecting paths. Each round but the last adds
an operation, so one round more than there are operations is enough. -/
def Db.deferredOperationsIntersecting (db : Db) (touched : List WorkspacePath) : List DesiredOperation :=
  let available := dedupOperations (db.localIntentRecords.map fun row => desiredFromIntent row.intent)
  sortDesiredOperations (closeOperations available (available.length + 1) (touched, [])).2

/-- The incoming change merged with the deferred operations on its paths, and the paths of those. -/
def Db.compactDeferred (db : Db) (incoming : DesiredOperation) (touched : List WorkspacePath) :
    Option (DesiredOperation × List WorkspacePath) :=
  match db.deferredOperations touched with
  | [] => none
  | existing =>
    some (existing.foldl (fun merged current => mergeDeferredDesired current merged) incoming,
      uniquePaths (existing.flatMap (·.paths)))

section

variable {F : Type} [Env]

def nextMutations (desired : List DesiredOperation) (states : PathStates) :
    EngineM F (List (WorkspaceMutation × Int)) :=
  match desired with
  | [] => pure []
  | operation :: rest =>
    if desiredMatchesRemote operation states then nextMutations rest states
    else do
      let operationId ← nextOperationId
      let timestamp ← nextTimestamp
      let next ← nextMutations rest states
      pure ((mutationForDesired operation Env.workspaceId Env.clientId operationId states, timestamp) :: next)

/-! ## Recording a change -/

def recordDesired (desired : DesiredOperation) : EngineM F Unit := do
  let db := (← get).db
  let states := db.pathStates
  let touched := desired.paths
  match db.overlappingMutation touched with
  | some (record, mutation) =>
    if mutationMatchesDesired mutation desired then pure ()
    else if record.stage = .queued then do
      -- a row that was never sent is replaced by the new change
      let operationId ← nextOperationId
      let timestamp ← nextTimestamp
      transaction do
        removeOutbox record.operationId
        enqueueMutationAt (mutationForDesired desired Env.workspaceId Env.clientId operationId states) timestamp
        forTx (mutationPaths mutation) removeLocalIntent
    else do
      let timestamp ← nextTimestamp
      transaction (forTx touched fun path => putLocalIntent path desired.intentForPath timestamp)
  | none =>
    match db.compactDeferred desired touched with
    | some (merged, existingPaths) => do
      let timestamp ← nextTimestamp
      transaction do
        forTx existingPaths removeLocalIntent
        forTx merged.paths fun path => putLocalIntent path merged.intentForPath timestamp
    | none =>
      if desiredMatchesRemote desired states then transaction (forTx touched removeLocalIntent)
      else do
        let operationId ← nextOperationId
        let mutation := mutationForDesired desired Env.workspaceId Env.clientId operationId states
        requireValid mutation.validate (.protocolInvariant "invalid_local_mutation")
        let timestamp ← nextTimestamp
        transaction do
          enqueueMutationAt mutation timestamp
          forTx touched removeLocalIntent

def deferDesired (desired : DesiredOperation) : EngineM F Unit := do
  let timestamp ← nextTimestamp
  transaction (forTx desired.paths fun path => putLocalIntent path desired.intentForPath timestamp)

/-- Queues a change against the given states, or defers it behind an outstanding mutation. -/
def queueDesiredWithStates (desired : DesiredOperation) (states : PathStates) : EngineM F Unit := do
  let db := (← get).db
  let touched := desired.paths
  match db.overlappingMutation touched with
  | some (record, mutation) =>
    if record.stage = .queued ∧ mutationMatchesDesired mutation desired then pure ()
    else do
      let timestamps ← touched.mapM fun _ => nextTimestamp
      transaction (forTx (touched.zip timestamps) fun (path, timestamp) =>
        putLocalIntent path desired.intentForPath timestamp)
  | none => do
    let operationId ← nextOperationId
    let timestamp ← nextTimestamp
    transaction (enqueueMutationAt
      (mutationForDesired desired Env.workspaceId Env.clientId operationId states) timestamp)

def Db.conflictPaths (db : Db) : List WorkspacePath :=
  db.conflictRecords.flatMap fun conflict =>
    conflict.created.path :: (conflict.created.current.path.toList ++ conflict.created.incoming.path.toList)

/-- Turns one deferred intent into a mutation, unless a conflict or an outstanding mutation is in its way. -/
def materializeLocalIntent (conflictPaths : List WorkspacePath) (states : PathStates) (record : LocalIntentRecord) :
    EngineM F Unit := do
  let desired := desiredFromIntent record.intent
  let touched := desired.paths
  if touched.any fun path => conflictPaths.any (pathsIntersect path ·) then pure ()
  else if desiredMatchesRemote desired states then transaction (removeLocalIntent record.path)
  else
    let db := (← get).db
    if (db.overlappingMutation touched).isSome then pure ()
    else do
      let operationId ← nextOperationId
      let timestamp ← nextTimestamp
      transaction do
        enqueueMutationAt (mutationForDesired desired Env.workspaceId Env.clientId operationId states) timestamp
        forTx touched removeLocalIntent

def materializeLocalIntents : EngineM F Unit := do
  let db := (← get).db
  forM db.localIntentRecords (materializeLocalIntent db.conflictPaths db.pathStates)

/-! ## Replies to mutations -/

def setReportedState (path : WorkspacePath) (current : Option WorkspacePathState) : TxM Unit :=
  match current with
  | none => removePathState path
  | some state => putPathState state

/-- Requeues what a stale mutation asked for against the state the server reports. -/
def reconcileStale (mutation : WorkspaceMutation) (current : Option WorkspacePathState) : EngineM F Unit := do
  if current.any (·.path ≠ mutation.path) then throw (.protocolInvariant "stale_state_path_mismatch")
  else
    let db := (← get).db
    let touched := mutationPaths mutation
    let states := match current with
      | none => db.pathStates.erase mutation.path
      | some state => db.pathStates.insert state.path state
    let desired := match db.deferredOperations touched with
      | [] => [desiredFromMutation mutation none]
      | intents => intents
    let next ← nextMutations desired states
    transaction do
      setReportedState mutation.path current
      removeOutbox mutation.operationId
      forTx (pathsForDesiredOperations touched desired) removeLocalIntent
      forTx next fun (mutation, timestamp) => enqueueMutationAt mutation timestamp

def outstandingMutation (operationId : OperationId) : EngineM F WorkspaceMutation := do
  let db := (← get).db
  match db.outbox.lookup operationId with
  | none => throw (.protocolInvariant "mutation_not_outstanding")
  | some record =>
    match record.mutation? with
    | none => throw (.protocolInvariant "outbox_not_mutation")
    | some mutation => pure mutation

def mutationRejected (rejected : WorkspaceMutationRejectedMessage) : EngineM F Unit := do
  ensureOpen
  requireValid rejected.validate (.protocolInvariant "invalid_mutation_rejected")
  validateIdentity rejected.workspaceId rejected.clientId
  if rejected.reason = .operationReused then throw (.protocolInvariant "operation_reused")
  else
    let mutation ← outstandingMutation rejected.operationId
    match rejected.reason with
    | .blobRequired =>
      if mutation.contentHash ≠ rejected.requiredHash then throw (.protocolInvariant "blob_hash_mismatch")
      else transaction (setOutboxStage rejected.operationId .awaitingBlob)
    | .conflictCreated => transaction (setOutboxStage rejected.operationId .blockedConflict)
    | .staleBaseRevision => reconcileStale mutation rejected.currentPathState
    | .operationReused => throw (.protocolInvariant "operation_reused")

def blobUploaded (operationId : OperationId) : EngineM F Unit := do
  ensureOpen
  let db := (← get).db
  match db.outbox.lookup operationId with
  | none => throw (.protocolInvariant "mutation_not_outstanding")
  | some record =>
    match record.stage with
    | .awaitingBlob => transaction (setOutboxStage operationId .dispatched)
    | .dispatched => pure ()
    | .queued | .blockedConflict => throw (.protocolInvariant "blob_upload_not_awaiting")

end

/-! ## Keeping local content -/

/-- The mutations that put back what the workspace holds, and the intents they settle. -/
structure PreservedReplacements where
  mutations : List (WorkspaceMutation × Int)
  settledPaths : List WorkspacePath

section

variable {F : Type} [Filesystem F] [Env]

/-- Adds, for each observed path that no deferred operation covers, the operation that recreates it. -/
def desiredForObserved (desired : List DesiredOperation) :
    List (WorkspacePath × Option ObservedEntry) → EngineM F (List DesiredOperation)
  | [] => pure desired
  | (path, observed) :: rest =>
    if desired.any (desiredOperationCoversPath · path) then desiredForObserved desired rest
    else do
      let operation ← if observed.isSome then desiredFromCurrent path else pure (.delete path)
      desiredForObserved (if operation ∈ desired then desired else desired ++ [operation]) rest

def preservedReplacements (event : WorkspaceEventMessage)
    (observed : List (WorkspacePath × Option ObservedEntry)) (postStates : List WorkspacePathState) :
    EngineM F PreservedReplacements := do
  let db := (← get).db
  let eventPaths := mutationPaths event.mutation
  let desired ← desiredForObserved (db.deferredOperationsIntersecting eventPaths) observed
  let states := postStates.foldl (fun states state => states.insert state.path state) db.pathStates
  let mutations ← nextMutations (desired.map (replacementDesiredAgainstStates · states)) states
  pure ⟨mutations, pathsForDesiredOperations eventPaths desired⟩

end

end Lumio.Sync
