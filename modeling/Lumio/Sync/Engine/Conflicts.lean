import Lumio.Sync.Engine.Outbound

/-!
# Receipts and conflicts

Matching a delivery against the receipts of applied operations, and settling the conflict a resolution
is about.
-/

namespace Lumio.Sync

open Lumio.Protocol Lumio.Fs Prog

/-! ## Receipts -/

inductive AppliedReceiptMatch where
  | missing
  | exact
deriving DecidableEq

inductive MutationAcceptanceMatch where
  | missing
  | exact
deriving DecidableEq

def receiptMatchesAcceptance (record : AppliedOperationRecord) (accepted : WorkspaceMutationAcceptedMessage) :
    Bool :=
  match record.receipt with
  | .conflictResolution _ => false
  | .mutationResult bodyDigest mutation =>
    (validateAcceptanceShape mutation accepted).isOk && bodyDigest = appliedAcceptanceDigest mutation accepted

def Db.mutationAcceptanceMatch (db : Db) (accepted : WorkspaceMutationAcceptedMessage) :
    Except SyncError MutationAcceptanceMatch :=
  match db.appliedOperations.lookup (accepted.clientId, accepted.operationId) with
  | some record =>
    if record.revision ≠ accepted.revision then .error .operationChanged
    else
      match record.receipt with
      | .conflictResolution _ => .error .operationChanged
      | .mutationResult _ mutation =>
        if mutation.workspaceId ≠ accepted.workspaceId ∨ !receiptMatchesAcceptance record accepted then
          .error .operationChanged
        else .ok .exact
  | none =>
    -- a result that another operation of the same revision already has is a changed replay
    let replays := (db.mutationReceiptsAtRevision accepted.revision).filter (receiptMatchesAcceptance · accepted)
    if replays.length = 1 then .error .operationChanged else .ok .missing

def Db.eventReceiptMatch (db : Db) (event : WorkspaceEventMessage) : Except SyncError AppliedReceiptMatch :=
  match db.appliedOperations.lookup (event.originClientId, event.operationId) with
  | none => .ok .missing
  | some record =>
    if record.revision ≠ event.revision then .error .operationChanged
    else
      match record.receipt with
      | .conflictResolution _ => .error .operationChanged
      | .mutationResult bodyDigest mutation =>
        if mutation ≠ event.mutation ∨ bodyDigest ≠ appliedEventDigest event then .error .operationChanged
        else .ok .exact

def Db.conflictResolutionReceiptMatch (db : Db) (message : WorkspaceConflictResolvedMessage) :
    Except SyncError AppliedReceiptMatch :=
  match db.appliedOperations.lookup (message.resolvedByClientId, message.operationId) with
  | none => .ok .missing
  | some record =>
    if record.revision = message.revision ∧ record.receipt = .conflictResolution message then .ok .exact
    else .error .operationChanged

/-! ## The local side of a resolution -/

section

variable [Env]

def decodePendingResolution (conflict : ConflictRecord) :
    Except SyncError (Option WorkspaceConflictResolvedRequest) :=
  match conflict.resolution with
  | none => .ok none
  | some request =>
    if request.workspaceId ≠ conflict.created.workspaceId ∨ request.clientId ≠ Env.clientId ∨
        request.conflictId ≠ conflict.created.conflictId ∨
        (request.validateAgainst conflict.created).isOk = false then
      .error (.corruptState "conflicts" "resolution_json")
    else if request.choice = .merged then
      if request.contentHash.isNone then .error (.corruptState "conflicts" "resolution_json")
      else if conflict.candidateHash ≠ request.contentHash then
        .error (.corruptState "conflicts" "candidate_hash")
      else .ok (some request)
    else if conflict.candidateHash.isSome then .error (.corruptState "conflicts" "candidate_hash")
    else .ok (some request)

structure ConflictCleanup where
  resolutionOperationId : Option OperationId
  originatingOperationId : Option OperationId
  removeConflict : Bool
  preserveNewerGeneration : Bool
deriving DecidableEq

def ConflictCleanup.none : ConflictCleanup := ⟨.none, .none, false, false⟩

structure LocalConflictResolutionWitness where
  matchingOutboxOperationId : Option OperationId
  exact : Bool
  preserveNewerGeneration : Bool
deriving DecidableEq

def Db.conflictResolutionIsCoveredByNewerGeneration (db : Db) (message : WorkspaceConflictResolvedMessage) :
    Bool :=
  (db.conflicts.lookup message.conflictId).any fun conflict =>
    conflict.created.conflictRevision ≠ message.conflictRevision &&
      (message.revision ≤ db.cursor.lastAppliedRevision ||
        message.revision ≤ conflict.created.current.pathRevision)

/-- Walks over the conflicts and collects whether one of them asked for the resolution. -/
def resolutionWitnessed (message : WorkspaceConflictResolvedMessage) (preserveNewerGeneration : Bool) :
    List ConflictRecord → Bool → Except SyncError Bool
  | [], exact => .ok exact
  | conflict :: rest, exact => do
    match ← decodePendingResolution conflict with
    | none => resolutionWitnessed message preserveNewerGeneration rest exact
    | some request =>
      if request.operationId = message.operationId then
        if resolvedMatchesRequest message request (some conflict.created) then
          resolutionWitnessed message preserveNewerGeneration rest true
        else .error .operationChanged
      else if request.conflictId = message.conflictId then
        if preserveNewerGeneration && request.conflictRevision ≠ message.conflictRevision then
          resolutionWitnessed message preserveNewerGeneration rest exact
        else if resolvedMatchesRequest message request (some conflict.created) then
          resolutionWitnessed message preserveNewerGeneration rest true
        else .error .operationChanged
      else resolutionWitnessed message preserveNewerGeneration rest exact

def Db.matchingResolutionRow (db : Db) (message : WorkspaceConflictResolvedMessage) :
    Except SyncError (Option OperationId) :=
  match db.outbox.lookup message.operationId with
  | none => .ok none
  | some row =>
    match row.body with
    | .mutation _ => .error .operationChanged
    | .conflictResolution request =>
      let created := (db.conflictRecords.map (·.created)).find? fun created =>
        created.conflictId = request.conflictId && created.conflictRevision = request.conflictRevision
      if resolvedMatchesRequest message request created then .ok (some request.operationId)
      else .error .operationChanged

def Db.validateLocalConflictResolutionOperation (db : Db) (message : WorkspaceConflictResolvedMessage) :
    Except SyncError LocalConflictResolutionWitness := do
  let preserveNewerGeneration := db.conflictResolutionIsCoveredByNewerGeneration message
  if message.resolvedByClientId ≠ Env.clientId then pure ⟨none, false, preserveNewerGeneration⟩
  else
    let matchingOutboxOperationId ← db.matchingResolutionRow message
    let exact ← resolutionWitnessed message preserveNewerGeneration db.conflictRecords
      matchingOutboxOperationId.isSome
    pure ⟨matchingOutboxOperationId, exact, preserveNewerGeneration⟩

def Db.inboundConflictResolutionReceiptMatch (db : Db) (message : WorkspaceConflictResolvedMessage) :
    Except SyncError AppliedReceiptMatch := do
  let receiptMatch ← db.conflictResolutionReceiptMatch message
  if receiptMatch = .exact then pure .exact
  else
    let witness ← db.validateLocalConflictResolutionOperation message
    if message.resolvedByClientId = Env.clientId ∧ !witness.exact ∧ !witness.preserveNewerGeneration then
      .error .operationChanged
    else pure receiptMatch

def Db.originatingOperationId (db : Db) (created : WorkspaceConflictCreatedMessage) : Option OperationId :=
  match db.outbox.lookup created.createdByOperationId with
  | some ⟨_, .mutation mutation, .blockedConflict, _⟩ =>
    if mutationMatchesConflictOrigin mutation created then some created.createdByOperationId else none
  | _ => none

def Db.conflictCleanupOperations (db : Db) (message : WorkspaceConflictResolvedMessage) :
    Except SyncError ConflictCleanup := do
  let witness ← db.validateLocalConflictResolutionOperation message
  match db.conflicts.lookup message.conflictId with
  | none => pure ⟨witness.matchingOutboxOperationId, none, false, false⟩
  | some conflict =>
    if witness.preserveNewerGeneration then pure ⟨witness.matchingOutboxOperationId, none, false, true⟩
    else
      let pendingResolution ← decodePendingResolution conflict
      if pendingResolution.any fun request =>
          request.clientId = message.resolvedByClientId && request.operationId = message.operationId &&
            !resolvedMatchesRequest message request (some conflict.created) then
        .error .operationChanged
      else if pendingResolution.any fun request =>
          (db.outbox.lookup request.operationId).any fun row =>
            row.body ≠ .conflictResolution request then
        .error .operationChanged
      else
        let pendingOperationId := pendingResolution.map (·.operationId)
        if pendingOperationId.isSome ∧ witness.matchingOutboxOperationId.isSome ∧
            pendingOperationId ≠ witness.matchingOutboxOperationId then
          .error .operationChanged
        else
          pure ⟨pendingOperationId.or witness.matchingOutboxOperationId,
            db.originatingOperationId conflict.created, true, false⟩

def Db.exactConflictResolutionReplayCleanup (db : Db) (message : WorkspaceConflictResolvedMessage) :
    Except SyncError ConflictCleanup :=
  if message.resolvedByClientId ≠ Env.clientId then .ok .none
  else
    match db.outbox.lookup message.operationId with
    | none => .ok .none
    | some row =>
      match row.body with
      | .mutation _ => .error .operationChanged
      | .conflictResolution request =>
        if resolutionIdentityMatchesRequest message request then
          .ok ⟨some message.operationId, none, false, false⟩
        else .error .operationChanged

end

def cleanupConflictResolution (conflictId : ConflictId) (cleanup : ConflictCleanup) : TxM Unit := do
  forTx cleanup.resolutionOperationId.toList removeOutbox
  forTx cleanup.originatingOperationId.toList removeOutbox
  onlyIf cleanup.removeConflict (removeConflict conflictId)

/-! ## Replacing a conflict by a newer generation -/

structure ConflictGenerationReplacementPlan where
  blockedOperationId : OperationId
  removeIntentPaths : List WorkspacePath
  replacementIntents : List (WorkspacePath × LocalIntent)
  updatedAtMs : Int

def applyConflictGenerationReplacement (plan : ConflictGenerationReplacementPlan) : TxM Unit := do
  removeOutbox plan.blockedOperationId
  forTx plan.removeIntentPaths removeLocalIntent
  forTx plan.replacementIntents fun (path, intent) => putLocalIntent path intent plan.updatedAtMs

def sortPaths (paths : List WorkspacePath) : List WorkspacePath :=
  (paths.insertionSort fun a b => a.le b).dedup

def pathIsInScopes (path : WorkspacePath) (scopes : List WorkspacePath) : Bool :=
  scopes.any fun scope => path = scope || pathIsDescendant path scope

/-- One round of the closure: the paths of every operation that intersects it join. -/
def expandClosure (existing : List (WorkspacePath × DesiredOperation)) (closure : List WorkspacePath) :
    List WorkspacePath :=
  existing.foldl (fun closure (_, desired) =>
    if desired.paths.any (fun path => closure.any (pathsIntersect path ·)) then
      desired.paths.foldl (fun closure path => if path ∈ closure then closure else closure ++ [path]) closure
    else closure) closure

def closeClosure (existing : List (WorkspacePath × DesiredOperation)) :
    Nat → List WorkspacePath → List WorkspacePath
  | 0, closure => closure
  | fuel + 1, closure =>
    let expanded := expandClosure existing closure
    if expanded.length = closure.length then expanded else closeClosure existing fuel expanded

/-- The closure of the paths under the operations that intersect it, and the rows of those operations.
Each round but the last adds a path of an operation. -/
def renameIntentClosure (initialPaths : List WorkspacePath) (existing : List (WorkspacePath × DesiredOperation)) :
    List WorkspacePath × List WorkspacePath :=
  let closure := sortPaths (closeClosure existing (2 * existing.length + 1) initialPaths)
  let rows := existing.filter fun (_, desired) =>
    desired.paths.any fun path => closure.any (pathsIntersect path ·)
  (closure, sortPaths (rows.map (·.1)))

section

variable {F : Type} [Filesystem F] [Env]

def scanComplete : EngineM F (List ObservedEntry) := do
  let engine ← get
  let scan ← readFiles (Filesystem.scan engine.files)
  if scan.complete then pure scan.entries else throw .scanIncomplete

/-- What one path of a rename scope needs, comparing the workspace with the remote state. -/
def independentIntent (current : List LocalDesiredEntry) (remote : PathStates) (path : WorkspacePath) :
    Option (WorkspacePath × LocalIntent) :=
  match current.find? (·.path = path), remote.lookup path with
  | some entry, some state =>
    if remoteMatchesEntry state entry then none else some (path, .desired entry)
  | some entry, none => some (path, .desired entry)
  | none, some state =>
    if state.kind ≠ .tombstone ∧ !state.tombstone then some (path, .delete path) else none
  | none, none => none

def independentIntentsForRenameScope (scopes : List WorkspacePath) :
    EngineM F (List (WorkspacePath × LocalIntent)) := do
  let entries ← scanComplete
  let current ← (entries.filter fun observed => pathIsInScopes observed.path scopes).mapM desiredEntryFromObserved
  let db := (← get).db
  let remote := (db.pathStates.keys.filter (pathIsInScopes · scopes))
  let paths := sortPaths (current.map (·.path) ++ remote)
  pure (paths.filterMap (independentIntent current db.pathStates))

/-- What becomes of the intents of the paths of a blocked mutation that goes back to being one. -/
def replacementIntents (db : Db) (mutation : WorkspaceMutation) (desired : DesiredOperation) :
    EngineM F (List WorkspacePath × List (WorkspacePath × LocalIntent)) := do
  let existing := db.localIntentRecords.map fun row => (row.path, desiredFromIntent row.intent)
  let hasNewerIntent := existing.any fun (_, operation) =>
    operation.paths.any fun path => desired.paths.any (pathsIntersect path ·)
  if hasNewerIntent then
    if mutation.kind = .rename then do
      let (closure, removeIntentPaths) := renameIntentClosure desired.paths existing
      let intents ← independentIntentsForRenameScope closure
      pure (removeIntentPaths, intents)
    else pure ([], [])
  else pure ([], desired.paths.map fun path => (path, desired.intentForPath))

def conflictGenerationReplacementPlan (old : WorkspaceConflictCreatedMessage)
    (replacement : Option WorkspaceConflictCreatedMessage) :
    EngineM F (Option ConflictGenerationReplacementPlan) := do
  let db := (← get).db
  if replacement.any fun new =>
      new.conflictRevision = old.conflictRevision || new.createdByOperationId = old.createdByOperationId then
    pure none
  else
    match db.outbox.lookup old.createdByOperationId with
    | some ⟨_, .mutation mutation, .blockedConflict, _⟩ =>
      if mutationMatchesConflictOrigin mutation old then do
        let renameKind : Option WorkspaceEntryKind :=
          if mutation.kind = .rename then
            some (if old.current.contentHash.isNone then .directory else .file)
          else none
        let desired := desiredFromMutation mutation renameKind
        let (removeIntentPaths, intents) ← replacementIntents db mutation desired
        let updatedAtMs ← nextTimestamp
        pure (some ⟨mutation.operationId, removeIntentPaths, intents, updatedAtMs⟩)
      else pure none
    | _ => pure none

def replacementPlans : List ConflictRecord → EngineM F (List ConflictGenerationReplacementPlan)
  | [] => pure []
  | conflict :: rest => do
    let db := (← get).db
    let replacement := (db.streamConflicts.lookup conflict.created.conflictId).map (·.created)
    if replacement.isNone ∧ conflict.resolution.isSome then replacementPlans rest
    else do
      let plan ← conflictGenerationReplacementPlan conflict.created replacement
      let plans ← replacementPlans rest
      pure (plan.toList ++ plans)

def authoritativeConflictGenerationReplacementPlans : EngineM F (List ConflictGenerationReplacementPlan) := do
  let db := (← get).db
  replacementPlans db.conflictRecords

end

end Lumio.Sync
