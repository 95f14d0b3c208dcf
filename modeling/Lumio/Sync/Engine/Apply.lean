import Lumio.Sync.Engine.Conflicts

/-!
# Applying remote items

An item is written to the workspace under a journal row, and its database side is committed in one
transaction. An item that meets local content it does not know is preserved: the local content goes back
to the outbox and the remote state becomes the new baseline.
-/

namespace Lumio.Sync

open Lumio.Protocol Lumio.Fs Prog

inductive ConflictResolutionSource where
  | live
  | stream
deriving DecidableEq

/-- The stream id under which live resolutions are journaled. -/
def liveApplyStreamId : StreamId := 0x000000000000400080000000000000c0

def commitJournal (applyId : Option ApplyId) : TxM Unit :=
  forTx applyId.toList fun applyId => setApplyStage applyId .databaseCommitted

/-- The revision an acknowledgement moves to, when it is past the acknowledged and the pending one. -/
def raisePendingAck (cursor : WorkspaceCursor) (revision : WorkspaceRevision) : TxM Unit :=
  onlyIf (cursor.lastAckRevision < revision ∧ cursor.pendingAckRevision.all (· < revision)) (setPendingAck revision)

section

variable {F : Type} [Env]

/-! ## Database side of an item -/

/-- An event that was applied before: only the cursor moves. -/
def markLiveEventApplied (revision : WorkspaceRevision) : EngineM F Unit := do
  let cursor := (← get).db.cursor
  if revision ≤ cursor.lastAckRevision then pure ()
  else
    transaction do
      onlyIf (cursor.lastAppliedRevision < revision) (setLastAppliedRevision revision)
      onlyIf (cursor.pendingAckRevision.all (· < revision)) (setPendingAck revision)

def commitLiveEventWithJournal (event : WorkspaceEventMessage) (postStates : List WorkspacePathState)
    (removeOutbox_ : Bool) (applyId : Option ApplyId) : EngineM F Unit :=
  transaction do
    forTx postStates putPathState
    recordMutationAppliedOperation event.originClientId event.operationId event.revision
      (appliedEventDigest event) event.mutation
    onlyIf removeOutbox_ (removeOutbox event.operationId)
    setLastAppliedRevision event.revision
    setPendingAck event.revision
    commitJournal applyId

def commitEntryWithJournal (entry : WorkspaceSnapshotEntryMessage) (status : StreamItemStatus)
    (postStates : List WorkspacePathState) (applyId : Option ApplyId) : EngineM F Unit :=
  transaction do
    forTx postStates putPathState
    let _ ← putStreamEntry entry status
    commitJournal applyId

def commitEventWithJournal (event : WorkspaceEventMessage) (status : StreamItemStatus)
    (postStates : List WorkspacePathState) (removeOutbox_ : Bool) (applyId : Option ApplyId) : EngineM F Unit :=
  transaction do
    forTx postStates putPathState
    recordMutationAppliedOperation event.originClientId event.operationId event.revision
      (appliedEventDigest event) event.mutation
    onlyIf removeOutbox_ (removeOutbox event.operationId)
    onlyIf (status = .applied) (setLastAppliedRevision event.revision)
    let _ ← putStreamEvent event status
    commitJournal applyId

def commitResolutionSource (message : WorkspaceConflictResolvedMessage) (status : StreamItemStatus)
    (preserveNewerGeneration : Bool) (source : ConflictResolutionSource) : TxM Unit :=
  match source with
  | .stream => do
    onlyIf (status = .applied ∧ !preserveNewerGeneration) (setLastAppliedRevision message.revision)
    let _ ← putStreamConflictResolved message status
  | .live =>
    onlyIf (!preserveNewerGeneration) do
      setLastAppliedRevision message.revision
      setPendingAck message.revision

def commitConflictResolvedWithJournal (message : WorkspaceConflictResolvedMessage) (status : StreamItemStatus)
    (source : ConflictResolutionSource) (applyId : Option ApplyId) : EngineM F Unit := do
  let _ ← readDb (·.conflictResolutionReceiptMatch message)
  let cleanup ← readDb (·.conflictCleanupOperations message)
  transaction do
    onlyIf (!cleanup.preserveNewerGeneration) (putPathState message.pathState)
    recordConflictAppliedOperation message.resolvedByClientId message.operationId message.revision message
    cleanupConflictResolution message.conflictId cleanup
    commitResolutionSource message status cleanup.preserveNewerGeneration source
    commitJournal applyId

/-- A resolution of a generation that a newer one has overtaken. -/
def commitSupersededConflictResolution (message : WorkspaceConflictResolvedMessage) (cleanup : ConflictCleanup) :
    EngineM F Unit :=
  transaction do
    recordConflictAppliedOperation message.resolvedByClientId message.operationId message.revision message
    cleanupConflictResolution message.conflictId cleanup
    let _ ← putStreamConflictResolved message .applied

def commitSupersededLiveConflictResolution (message : WorkspaceConflictResolvedMessage)
    (cleanup : ConflictCleanup) : EngineM F Unit := do
  let cursor := (← get).db.cursor
  transaction do
    recordConflictAppliedOperation message.resolvedByClientId message.operationId message.revision message
    cleanupConflictResolution message.conflictId cleanup
    onlyIf (cursor.lastAppliedRevision < message.revision) (setLastAppliedRevision message.revision)
    raisePendingAck cursor message.revision

def settleResolutionSource (message : WorkspaceConflictResolvedMessage) (cursor : WorkspaceCursor)
    (source : ConflictResolutionSource) : TxM Unit :=
  match source with
  | .stream => do
    let _ ← putStreamConflictResolved message .applied
  | .live =>
    onlyIf (cursor.lastAckRevision < message.revision) do
      onlyIf (cursor.lastAppliedRevision < message.revision) (setLastAppliedRevision message.revision)
      onlyIf (cursor.pendingAckRevision.all (· < message.revision)) (setPendingAck message.revision)

/-- The conflict a replayed resolution settles, or only its own outbox row when that conflict is gone. -/
def Db.replayCleanup (db : Db) (message : WorkspaceConflictResolvedMessage) :
    Except SyncError (Bool × ConflictCleanup) :=
  let matchingConflict := (db.conflicts.lookup message.conflictId).any
    (·.created.conflictRevision = message.conflictRevision)
  if matchingConflict then (true, ·) <$> db.conflictCleanupOperations message
  else (false, ·) <$> db.exactConflictResolutionReplayCleanup message

/-- A resolution whose receipt is already there. -/
def settleExactConflictResolutionReplay (message : WorkspaceConflictResolvedMessage)
    (source : ConflictResolutionSource) : EngineM F Unit := do
  let (matchingConflict, cleanup) ← readDb (·.replayCleanup message)
  let cursor := (← get).db.cursor
  transaction do
    onlyIf matchingConflict (cleanupConflictResolution message.conflictId cleanup)
    onlyIf (!matchingConflict) (forTx cleanup.resolutionOperationId.toList removeOutbox)
    settleResolutionSource message cursor source

end

section

variable {F : Type} [Filesystem F] [Env]

def preserveEvent (event : WorkspaceEventMessage) (observed : List (WorkspacePath × Option ObservedEntry))
    (postStates : List WorkspacePathState) (removeOutbox_ : Bool) : EngineM F Unit := do
  let replacements ← preservedReplacements event observed postStates
  transaction do
    forTx postStates putPathState
    recordMutationAppliedOperation event.originClientId event.operationId event.revision
      (appliedEventDigest event) event.mutation
    onlyIf removeOutbox_ (removeOutbox event.operationId)
    forTx replacements.settledPaths removeLocalIntent
    forTx replacements.mutations fun (mutation, timestamp) => enqueueMutationAt mutation timestamp
    let _ ← putStreamEvent event .preserved

def preserveLiveEvent (event : WorkspaceEventMessage) (observed : List (WorkspacePath × Option ObservedEntry))
    (postStates : List WorkspacePathState) (removeOutbox_ : Bool) : EngineM F Unit := do
  let replacements ← preservedReplacements event observed postStates
  transaction do
    forTx postStates putPathState
    recordMutationAppliedOperation event.originClientId event.operationId event.revision
      (appliedEventDigest event) event.mutation
    onlyIf removeOutbox_ (removeOutbox event.operationId)
    forTx replacements.settledPaths removeLocalIntent
    forTx replacements.mutations fun (mutation, timestamp) => enqueueMutationAt mutation timestamp
    setLastAppliedRevision event.revision
    setPendingAck event.revision

/-! ## Workspace side of an item -/

/-- Writes to the workspace under a journal row, up to the stage before the database commit. -/
def applyWithJournal (streamId : StreamId) (itemKind : ApplyItemKind) (itemKey : ApplyItemKey)
    (operationSpec : RemoteApplyOperation) (postStates : List WorkspacePathState) (commitPlan : ApplyCommitPlan)
    (operation : FsOperation) : EngineM F ApplyReceipt := do
  let engine ← get
  set { engine with draws := engine.draws + 1 }
  let applyId : ApplyId := Env.uuid engine.draws
  transaction (putApplyJournal
    { applyId, streamId, itemKind, itemKey
      applyNamespace := commitPlan.namespace
      operation := operationSpec
      filesystemOperation := operation
      commitPlan
      postimage := postStates
      filesystemReceipt := none
      stage := .prepared })
  transaction (setApplyStage applyId .filesystemStarted)
  let receipt ← writeFiles (Filesystem.apply · applyId operation)
  transaction (setApplyFilesystemApplied applyId receipt)
  pure receipt

def finishApplyJournal (receipt : ApplyReceipt) : EngineM F Unit := do
  writeFiles (Filesystem.finalize · receipt)
  transaction (setApplyStage receipt.applyId .finalized)
  transaction (removeApplyJournal receipt.applyId)

/-! ## Items -/

def applySnapshotEntry (entry : WorkspaceSnapshotEntryMessage) : EngineM F Unit := do
  let post := entry.entry
  let previous := (← get).db.pathStates.lookup post.path
  let observed ← inspect post.path
  let postMatches ← observedMatchesPost post observed
  let baselineMatches ← baselineMatchesObserved previous observed
  if postMatches then commitEntryWithJournal entry .applied [post] none
  else if !baselineMatches ∧ observed.isSome then do
    let desired ← desiredFromCurrent post.path
    queueDesiredWithStates desired ∅
    commitEntryWithJournal entry .preserved [post] none
  else if !baselineMatches ∧ previous.isSome then do
    queueDesiredWithStates (.delete post.path) ∅
    commitEntryWithJournal entry .preserved [post] none
  else
    match ← operationForState post observed with
    | none => commitEntryWithJournal entry .applied [post] none
    | some operation => do
      let receipt ← applyWithJournal entry.streamId .entry (.path post.path) (.fromState post) [post]
        (.snapshotEntry entry) operation
      commitEntryWithJournal entry .applied [post] (some receipt.applyId)
      finishApplyJournal receipt

/-- The checks on an event of this client: its mutation must be outstanding, with the same body. -/
def checkOwnEvent (db : Db) (event : WorkspaceEventMessage) : Except SyncError Unit :=
  if event.originClientId = Env.clientId then
    match db.outbox.lookup event.operationId with
    | some record =>
      if record.body ≠ .mutation event.mutation then
        .error (.protocolInvariant "event_operation_body_mismatch")
      else .ok ()
    | none => .error (.protocolInvariant "event_operation_not_outstanding")
  else .ok ()

def applyEvent (event : WorkspaceEventMessage) : EngineM F Unit := do
  let db := (← get).db
  let receiptMatch ← readDb (·.eventReceiptMatch event)
  if receiptMatch = .exact then do
    let _ ← transaction (putStreamEvent event .applied)
  else do
    readDb (checkOwnEvent · event)
    let postStates := eventPostStates event
    if event.originClientId = Env.clientId then
      -- an own event is in the workspace already
      commitEventWithJournal event .applied postStates true none
    else do
      let previous := pathStatesForEvent db event
      let observed ← observedForEvent event
      let postMatches ← eventPostMatches postStates observed
      let baselineMatches ← eventBaselineMatches previous observed
      if postMatches then commitEventWithJournal event .applied postStates false none
      else if !baselineMatches then preserveEvent event observed postStates false
      else
        match ← operationForEvent event observed with
        | none => commitEventWithJournal event .applied postStates false none
        | some operation => do
          let receipt ← applyWithJournal event.streamId .event (.revision event.revision) (.fromEvent event)
            postStates (.streamEvent event false) operation
          commitEventWithJournal event .applied postStates false (some receipt.applyId)
          finishApplyJournal receipt

def applyLiveEvent (event : WorkspaceEventMessage) : EngineM F Unit := do
  let db := (← get).db
  let receiptMatch ← readDb (·.eventReceiptMatch event)
  if receiptMatch = .exact then markLiveEventApplied event.revision
  else do
    readDb (checkOwnEvent · event)
    let removeOutbox_ := event.originClientId = Env.clientId && (db.outbox.lookup event.operationId).isSome
    let postStates := eventPostStates event
    let previous := pathStatesForEvent db event
    let observed ← observedForEvent event
    let postMatches ← eventPostMatches postStates observed
    if postMatches then commitLiveEventWithJournal event postStates removeOutbox_ none
    else do
      let baselineMatches ← eventBaselineMatches previous observed
      if !baselineMatches then preserveLiveEvent event observed postStates removeOutbox_
      else
        match ← operationForEvent event observed with
        | none => commitLiveEventWithJournal event postStates removeOutbox_ none
        | some operation => do
          let receipt ← applyWithJournal event.streamId .event (.revision event.revision) (.fromEvent event)
            postStates (.liveEvent event removeOutbox_) operation
          commitLiveEventWithJournal event postStates removeOutbox_ (some receipt.applyId)
          finishApplyJournal receipt

/-- The stream id under which a resolution is journaled. -/
def resolutionStreamId (source : ConflictResolutionSource) : EngineM F StreamId := do
  match source with
  | .live => pure liveApplyStreamId
  | .stream =>
    match (← get).db.stream with
    | some active => pure active.streamId
    | none => throw (.streamInvariant "no_active_stream")

def applyConflictResolvedFrom (message : WorkspaceConflictResolvedMessage) (source : ConflictResolutionSource) :
    EngineM F Unit := do
  let receiptMatch ← readDb (·.inboundConflictResolutionReceiptMatch message)
  if receiptMatch = .exact then settleExactConflictResolutionReplay message source
  else do
    let cleanup ← readDb (·.conflictCleanupOperations message)
    let db := (← get).db
    if cleanup.preserveNewerGeneration then
      match source with
      | .stream => commitSupersededConflictResolution message cleanup
      | .live => commitSupersededLiveConflictResolution message cleanup
    else if source = .live ∧ message.revision ≤ db.cursor.lastAppliedRevision then
      throw (.streamInvariant "live_revision_regression")
    else do
      let path := message.pathState.path
      let previous := db.pathStates.lookup path
      let observed ← inspect path
      let postMatches ← observedMatchesPost message.pathState observed
      if postMatches then commitConflictResolvedWithJournal message .applied source none
      else do
        let baselineMatches ← baselineMatchesObserved previous observed
        if !baselineMatches then do
          let desired ← desiredFromCurrent path
          let baseline : PathStates := match previous with
            | some state => AList.singleton path state
            | none => ∅
          queueDesiredWithStates desired baseline
          commitConflictResolvedWithJournal message .preserved source none
        else
          match ← operationForState message.pathState observed with
          | none => commitConflictResolvedWithJournal message .applied source none
          | some operation => do
            let streamId ← resolutionStreamId source
            let plan : ApplyCommitPlan := match source with
              | .stream => .streamConflictResolved message
              | .live => .liveConflictResolved message
            let receipt ← applyWithJournal streamId .conflictResolved (.revision message.revision)
              (.fromState message.pathState) [message.pathState] plan operation
            commitConflictResolvedWithJournal message .applied source (some receipt.applyId)
            finishApplyJournal receipt

end

end Lumio.Sync
