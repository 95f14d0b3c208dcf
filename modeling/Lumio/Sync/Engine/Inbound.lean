import Lumio.Sync.Engine.Apply

/-!
# Messages from the server

A message is staged or queued, and `resumeInboundWork` then drains the stored stream and the live queue
within a budget. A stream that is complete is finished, and its final revision waits for acknowledgement.
-/

namespace Lumio.Sync

open Lumio.Protocol Lumio.Fs Prog

/-! ## Budget and downloads -/

structure InboundWorkBudget where
  maxItems : Nat
  maxSerializedBytes : Nat
  usedItems : Nat
  usedSerializedBytes : Nat
deriving DecidableEq

def InboundWorkBudget.new (limits : InboundWorkLimits) : InboundWorkBudget :=
  ⟨limits.maxItemsPerCall, limits.maxSerializedBytesPerCall, 0, 0⟩

def InboundWorkBudget.remainingItems (budget : InboundWorkBudget) : Nat := budget.maxItems - budget.usedItems

def InboundWorkBudget.remainingSerializedBytes (budget : InboundWorkBudget) : Nat :=
  budget.maxSerializedBytes - budget.usedSerializedBytes

def InboundWorkBudget.allowsOversizedFirstItem (budget : InboundWorkBudget) : Bool := budget.usedItems == 0

/-- Takes an item out of the budget. The first item of a call may be larger than the budget. -/
def InboundWorkBudget.consume (budget : InboundWorkBudget) (serializedBytes : Nat) : Option InboundWorkBudget :=
  if budget.usedItems = budget.maxItems then none
  else if budget.remainingSerializedBytes < serializedBytes ∧ !budget.allowsOversizedFirstItem then none
  else
    some { budget with
      usedItems := budget.usedItems + 1
      usedSerializedBytes := budget.usedSerializedBytes + serializedBytes }

inductive ResumeStep where
  | progressed
  | blocked
  | idle
  | budgetExhausted
deriving DecidableEq

structure InboundWork where
  budget : InboundWorkBudget
  commands : List SyncCommand

def pushDownload [Env] (commands : List SyncCommand) (limit : Nat) (operationId : Option OperationId)
    (contentHash : WorkspaceContentHash) (size : Nat) : List SyncCommand :=
  let requested := commands.any fun command =>
    match command with
    | .downloadBlob _ _ existing _ => existing = contentHash
    | _ => false
  if limit ≤ commands.length ∨ requested then commands
  else commands ++ [SyncCommand.downloadBlob Env.workspaceId operationId contentHash size]

def StreamRevisionItem.operationId : StreamRevisionItem → OperationId
  | .event message => message.operationId
  | .conflictResolved message => message.operationId

def StreamRevisionItem.required : StreamRevisionItem → Option (WorkspaceContentHash × Nat)
  | .event message => requiredEventContent message
  | .conflictResolved message => requiredContent message.pathState

section

variable {F : Type} [Filesystem F] [Env]

def missingContent (required : Option (WorkspaceContentHash × Nat)) :
    EngineM F (Option (WorkspaceContentHash × Nat)) :=
  match required with
  | none => pure none
  | some (hash, size) => do
    let available ← contentAvailable hash size
    pure (if available then none else some (hash, size))

def InboundWork.waiting (work : InboundWork) (commandLimit : Nat) (reissueWaiting : Bool)
    (operationId : Option OperationId) (content : WorkspaceContentHash × Nat) : InboundWork :=
  if reissueWaiting then
    { work with commands := pushDownload work.commands commandLimit operationId content.1 content.2 }
  else work

/-! ## Draining the live queue -/

def popLiveItem (serializedBytes : Nat) : EngineM F Unit := do
  let engine ← get
  match engine.pendingLiveEvents with
  | [] => throw (.protocolInvariant "pending_live_queue_changed")
  | _ :: rest =>
    if engine.pendingLiveSerializedBytes < serializedBytes then
      throw (.protocolInvariant "pending_live_bytes_underflow")
    else
      set { engine with
        pendingLiveEvents := rest
        pendingLiveSerializedBytes := engine.pendingLiveSerializedBytes - serializedBytes }

def resumeLiveStep (work : InboundWork) (commandLimit : Nat) (reissueWaiting : Bool) :
    EngineM F (ResumeStep × InboundWork) := do
  let engine ← get
  match engine.pendingLiveEvents with
  | [] => pure (.idle, work)
  | pending :: _ =>
    match work.budget.consume pending.serializedBytes with
    | none => pure (.budgetExhausted, work)
    | some budget => do
      let work := { work with budget }
      match ← missingContent pending.message.required with
      | some content =>
        pure (.blocked,
          work.waiting commandLimit reissueWaiting (some pending.message.operationId) content)
      | none => do
        match pending.message with
        | .event event => applyLiveEvent event
        | .conflictResolved message => applyConflictResolvedFrom message .live
        popLiveItem pending.serializedBytes
        pure (.progressed, work)

/-! ## Draining the stored stream -/

def resumeStreamEntry (record : StreamEntryRecord) (work : InboundWork) (commandLimit : Nat)
    (reissueWaiting : Bool) : EngineM F (ResumeStep × InboundWork) := do
  let entry := record.body
  match ← missingContent (requiredContent entry.entry) with
  | some content => do
    let _ ← transaction (putStreamEntry entry .waitingBlob)
    pure (.blocked, work.waiting commandLimit reissueWaiting none content)
  | none => do
    onlyIf (record.status ≠ .ready) do
      let _ ← transaction (putStreamEntry entry .ready)
    applySnapshotEntry entry
    pure (.progressed, work)

def resumeStreamEvent (event : WorkspaceEventMessage) (status : StreamItemStatus) (work : InboundWork)
    (commandLimit : Nat) (reissueWaiting : Bool) : EngineM F (ResumeStep × InboundWork) := do
  let receiptMatch ← readDb (·.eventReceiptMatch event)
  if receiptMatch = .exact then do
    let _ ← transaction (putStreamEvent event .applied)
    pure (.progressed, work)
  else if status = .ready then do
    applyEvent event
    pure (.progressed, work)
  else
    match ← missingContent (requiredContent event.pathState) with
    | some content => do
      let _ ← transaction (putStreamEvent event .waitingBlob)
      pure (.blocked, work.waiting commandLimit reissueWaiting (some event.operationId) content)
    | none => do
      let _ ← transaction (putStreamEvent event .ready)
      applyEvent event
      pure (.progressed, work)

def resumeStreamConflictResolved (message : WorkspaceConflictResolvedMessage) (status : StreamItemStatus)
    (work : InboundWork) (commandLimit : Nat) (reissueWaiting : Bool) :
    EngineM F (ResumeStep × InboundWork) := do
  let receiptMatch ← readDb (·.inboundConflictResolutionReceiptMatch message)
  if receiptMatch = .exact then do
    settleExactConflictResolutionReplay message .stream
    pure (.progressed, work)
  else
    match ← missingContent (requiredContent message.pathState) with
    | some content => do
      let _ ← transaction (putStreamConflictResolved message .waitingBlob)
      pure (.blocked, work.waiting commandLimit reissueWaiting (some message.operationId) content)
    | none => do
      onlyIf (status ≠ .ready) do
        let _ ← transaction (putStreamConflictResolved message .ready)
      applyConflictResolvedFrom message .stream
      pure (.progressed, work)

/-- One unsettled item of the stored stream, in the order of the stream. A page that holds no item for
want of bytes and a budget that refuses the item end the step alike. -/
def resumeStreamStep (work : InboundWork) (commandLimit : Nat) (reissueWaiting : Bool) :
    EngineM F (ResumeStep × InboundWork) := do
  let db := (← get).db
  match db.stream with
  | none => pure (.idle, work)
  | some active =>
    if work.budget.remainingItems = 0 then pure (.idle, work)
    else
      match active.mode with
      | .snapshot =>
        match db.pendingStreamEntry with
        | none => pure (.idle, work)
        | some record =>
          match work.budget.consume (Env.entryLength record.body) with
          | none => pure (.budgetExhausted, work)
          | some budget => resumeStreamEntry record { work with budget } commandLimit reissueWaiting
      | .incremental =>
        match db.pendingStreamRevisionItem with
        | none => pure (.idle, work)
        | some record =>
          match work.budget.consume (Env.itemLength record.body) with
          | none => pure (.budgetExhausted, work)
          | some budget =>
            match record.body with
            | .event event =>
              resumeStreamEvent event record.status { work with budget } commandLimit reissueWaiting
            | .conflictResolved message =>
              resumeStreamConflictResolved message record.status { work with budget } commandLimit
                reissueWaiting

/-! ## Finishing a stream -/

def Db.streamItemsReady (db : Db) (active : StreamState) : Bool :=
  let summary := db.streamTableSummary
  match active.mode with
  | .snapshot =>
    summary.entryCount = active.expectedEntryCount && summary.pendingEntryCount = 0 && summary.revisionCount = 0
  | .incremental =>
    summary.revisionCount = active.expectedEventCount && summary.pendingRevisionCount = 0 &&
      summary.entryCount = 0

/-- Forgets a path the snapshot does not have; what the workspace holds there is queued as new. -/
def reconcilePath (path : WorkspacePath) : EngineM F Unit := do
  let db := (← get).db
  if db.snapshotStreamContainsPath path then pure ()
  else do
    transaction (removePathState path)
    match ← inspect path with
    | none => pure ()
    | some _ => do
      let desired ← desiredFromCurrent path
      queueDesiredWithStates desired ∅

/-- Queues an entry of the workspace that the snapshot does not have. -/
def reconcileEntry (observed : ObservedEntry) : EngineM F Unit := do
  let db := (← get).db
  if db.snapshotStreamContainsPath observed.path then pure ()
  else do
    let entry ← desiredEntryFromObserved observed
    queueDesiredWithStates (.upsert entry) ∅

def reconcileFullSnapshot : EngineM F Unit := do
  let db := (← get).db
  forM (sortPaths db.pathStates.keys) reconcilePath
  let entries ← scanComplete
  forM entries reconcileEntry

def finishStreamTx (active : StreamState) (plans : List ConflictGenerationReplacementPlan) : TxM Unit := do
  let needsAck := (← get).cursor.lastAckRevision < active.finalRevision
  forTx plans applyConflictGenerationReplacement
  replaceAuthoritativeConflicts
  setLastAppliedRevision active.finalRevision
  clearPendingSegmentAck
  if needsAck then setPendingAck active.finalRevision else clearStream

def finishStreamIfReady : EngineM F Bool := do
  let db := (← get).db
  match db.stream with
  | none => pure false
  | some active =>
    if !active.endReceived then pure false
    else if !db.streamItemsReady active ∨ db.streamTableSummary.conflictCount ≠ active.expectedConflictCount then
      pure false
    else if db.applyJournals.entries ≠ [] then pure false
    else do
      onlyIf (active.mode = .snapshot) reconcileFullSnapshot
      let plans ← authoritativeConflictGenerationReplacementPlans
      transaction (finishStreamTx active plans)
      materializeLocalIntents
      pure true

def advanceSegmentAckIfStalled : EngineM F Unit := do
  let db := (← get).db
  let cursor := db.cursor
  match db.stream with
  | none => pure ()
  | some active =>
    if cursor.pendingAckRevision.isSome then pure ()
    else if active.mode ≠ .incremental then pure ()
    else if cursor.lastAppliedRevision ≤ cursor.lastAckRevision then pure ()
    else if active.finalRevision ≤ cursor.lastAppliedRevision then pure ()
    else if !db.streamItemsReady active then pure ()
    else transaction (setPendingSegmentAck cursor.lastAppliedRevision)

/-! ## The work loop -/

/-- The loop over the two sources. Each round uses up an item of the budget, makes a source unavailable, or
turns to the source that is still available. -/
def resumeLoop (commandLimit : Nat) (reissueWaiting : Bool) :
    Nat → InboundWorkSource → (streamUnavailable liveUnavailable : Bool) → InboundWork → EngineM F InboundWork
  | 0, _, _, _, work => pure work
  | fuel + 1, source, streamUnavailable, liveUnavailable, work =>
    if work.budget.remainingItems = 0 ∨ (streamUnavailable ∧ liveUnavailable) then pure work
    else
      match source with
      | .stream =>
        if streamUnavailable then
          resumeLoop commandLimit reissueWaiting fuel .live streamUnavailable liveUnavailable work
        else do
          let (step, work) ← resumeStreamStep work commandLimit reissueWaiting
          resumeLoop commandLimit reissueWaiting fuel .live (step ≠ .progressed) liveUnavailable work
      | .live =>
        if liveUnavailable then
          resumeLoop commandLimit reissueWaiting fuel .stream streamUnavailable liveUnavailable work
        else do
          let (step, work) ← resumeLiveStep work commandLimit reissueWaiting
          resumeLoop commandLimit reissueWaiting fuel .stream streamUnavailable (step ≠ .progressed) work

/-- Rounds that are enough for the loop to end by itself. -/
def resumeRounds (limits : InboundWorkLimits) : Nat := 2 * (limits.maxItemsPerCall + 2)

def resumeInboundWork (commandLimit : Nat) (reissueWaiting : Bool) : EngineM F (List SyncCommand) := do
  let engine ← get
  let source := engine.nextInboundSource
  set { engine with nextInboundSource := source.other }
  let work ← resumeLoop commandLimit reissueWaiting (resumeRounds Env.limits) source false false
    ⟨.new Env.limits, []⟩
  let _ ← finishStreamIfReady
  advanceSegmentAckIfStalled
  pure work.commands

/-! ## Live messages -/

def pendingLiveRevisionPrecedesOrMatches (engine : Engine F) (revision : WorkspaceRevision) : Bool :=
  engine.pendingLiveEvents.head?.any (·.message.revision ≤ revision)

def enqueueLiveMessage (message : StreamRevisionItem) : EngineM F (List SyncCommand) := do
  let engine ← get
  match engine.pendingLiveEvents.find? (·.message.revision = message.revision) with
  | some pending =>
    if pending.message ≠ message then throw .operationChanged
    else resumeInboundWork Env.limits.maxItemsPerCall true
  | none =>
    if engine.pendingLiveEvents.getLast?.any (message.revision < ·.message.revision) then
      throw (.streamInvariant "live_revision_order")
    else
      let nextSerializedBytes := engine.pendingLiveSerializedBytes + Env.itemLength message
      if Env.limits.maxPendingLiveItems ≤ engine.pendingLiveEvents.length ∨
          Env.limits.maxPendingLiveSerializedBytes < nextSerializedBytes then
        throw (.resourceLimit "pending_live_events")
      else do
        set { engine with
          pendingLiveEvents := engine.pendingLiveEvents ++ [PendingLiveItem.mk message (Env.itemLength message)]
          pendingLiveSerializedBytes := nextSerializedBytes }
        resumeInboundWork Env.limits.maxItemsPerCall true

def event (message : WorkspaceEventMessage) : EngineM F (List SyncCommand) := do
  ensureOpen
  requireValid message.validate (.protocolInvariant "invalid_workspace_event")
  requireThat (message.workspaceId = Env.workspaceId) (.protocolInvariant "event_workspace_mismatch")
  let receiptMatch ← readDb (·.eventReceiptMatch message)
  let engine ← get
  match receiptMatch with
  | .exact =>
    if !pendingLiveRevisionPrecedesOrMatches engine message.revision then do
      markLiveEventApplied message.revision
      pure []
    else enqueueLiveMessage (.event message)
  | .missing =>
    if message.originClientId = Env.clientId ∧ (engine.db.outbox.lookup message.operationId).isNone then
      throw (.protocolInvariant "event_operation_not_outstanding")
    else enqueueLiveMessage (.event message)

/-! ## Streams -/

def snapshotBegin (message : WorkspaceSnapshotBeginMessage) : EngineM F Unit := do
  ensureOpen
  requireValid message.validate (.streamInvariant "invalid_begin")
  requireThat (message.workspaceId = Env.workspaceId) (.protocolInvariant "stream_workspace_mismatch")
  let engine ← get
  let startsNewStream := engine.db.stream.all (·.streamId ≠ message.streamId)
  transaction (beginStream message)
  onlyIf startsNewStream do
    modify fun engine => { engine with
      pendingLiveEvents := []
      pendingLiveSerializedBytes := 0
      nextInboundSource := .stream }

def withDownload (commands : List SyncCommand) (status : StreamItemStatus) (operationId : Option OperationId)
    (required : Option (WorkspaceContentHash × Nat)) : List SyncCommand :=
  match required with
  | some (hash, size) =>
    if status = .waitingBlob then pushDownload commands Env.limits.maxItemsPerCall operationId hash size
    else commands
  | none => commands

def snapshotEntry (message : WorkspaceSnapshotEntryMessage) : EngineM F (List SyncCommand) := do
  ensureOpen
  requireValid message.validate (.streamInvariant "invalid_stream_entry")
  requireThat (message.workspaceId = Env.workspaceId) (.protocolInvariant "stream_workspace_mismatch")
  let status ← statusForState message.entry
  let staged ← transaction (putStreamEntry message status)
  if staged.settled then pure []
  else do
    let commands ← resumeInboundWork Env.limits.maxItemsPerCall false
    pure (withDownload commands status none (requiredContent message.entry))

def Db.storedItem (db : Db) (streamId : StreamId) (revision : WorkspaceRevision) :
    Option StreamRevisionItemRecord :=
  match db.stream with
  | some active => if active.streamId = streamId then db.items.lookup revision else none
  | none => none

/-- The checks on a delivery that repeats a stored item, and whether that item is settled. -/
def repeatsStored (existing : Option StreamRevisionItemRecord) (item : StreamRevisionItem) :
    Except SyncError (Option StreamItemStatus) :=
  match existing with
  | none => .ok none
  | some record =>
    if record.body ≠ item then .error .operationChanged else .ok (some record.status)

def workspaceEvent (message : WorkspaceEventMessage) : EngineM F (List SyncCommand) := do
  ensureOpen
  requireValid message.validate (.protocolInvariant "invalid_workspace_event")
  requireThat (message.workspaceId = Env.workspaceId) (.protocolInvariant "event_workspace_mismatch")
  let db := (← get).db
  let existing := db.storedItem message.streamId message.revision
  if existing.any (·.eventIndex ≠ some message.index) then throw (.streamInvariant "stream_revision_order")
  else
    match repeatsStored existing (.event message) with
    | .error e => throw e
    | .ok stored =>
      if stored.any (·.settled) then pure []
      else do
        let receiptMatch ← readDb (·.eventReceiptMatch message)
        if receiptMatch = .exact then do
          let _ ← transaction (putStreamEvent message .applied)
          resumeInboundWork Env.limits.maxItemsPerCall false
        else do
          let diverged ← eventIsDiverged message
          let status ← if diverged then pure .ready else statusForState message.pathState
          let _ ← transaction (putStreamEvent message status)
          let commands ← resumeInboundWork Env.limits.maxItemsPerCall false
          pure (withDownload commands status (some message.operationId) (requiredContent message.pathState))

/-- A conflict outside a stream replaces the stored generation of the same conflict. -/
def replaceConflict (message : WorkspaceConflictCreatedMessage) (existing : ConflictRecord) : EngineM F Unit := do
  if existing.created.conflictRevision = message.conflictRevision then
    if existing.created = message then pure () else throw .operationChanged
  else do
    let priorResolution ← readDb fun _ => decodePendingResolution existing
    let plan ← conflictGenerationReplacementPlan existing.created (some message)
    let db := (← get).db
    if priorResolution.any fun resolution => (db.outbox.lookup resolution.operationId).any fun row =>
        row.body ≠ .conflictResolution resolution then
      throw .operationChanged
    else
      transaction do
        forTx (priorResolution.map (·.operationId)).toList removeOutbox
        forTx plan.toList applyConflictGenerationReplacement
        putConflict ⟨message, .manual, none, none⟩

def conflictCreated (message : WorkspaceConflictCreatedMessage) : EngineM F (List SyncCommand) := do
  ensureOpen
  requireValid message.validate (.protocolInvariant "invalid_conflict")
  requireThat (message.workspaceId = Env.workspaceId) (.protocolInvariant "stream_workspace_mismatch")
  let db := (← get).db
  match db.stream with
  | some active => do
    transaction (putStreamConflict message active.streamId .received)
    resumeInboundWork Env.limits.maxItemsPerCall false
  | none =>
    match db.conflicts.lookup message.conflictId with
    | some existing => do
      replaceConflict message existing
      pure []
    | none => do
      transaction (putConflict ⟨message, .manual, none, none⟩)
      pure []

def conflictResolvedLive (message : WorkspaceConflictResolvedMessage) : EngineM F (List SyncCommand) := do
  let receiptMatch ← readDb (·.inboundConflictResolutionReceiptMatch message)
  let engine ← get
  if receiptMatch = .exact ∧ !pendingLiveRevisionPrecedesOrMatches engine message.revision then do
    settleExactConflictResolutionReplay message .live
    pure []
  else if receiptMatch = .missing ∧ message.revision ≤ engine.db.cursor.lastAppliedRevision then do
    let cleanup ← readDb (·.conflictCleanupOperations message)
    if cleanup.preserveNewerGeneration then do
      commitSupersededLiveConflictResolution message cleanup
      pure []
    else throw (.streamInvariant "live_revision_regression")
  else enqueueLiveMessage (.conflictResolved message)

def conflictResolvedStream (message : WorkspaceConflictResolvedMessage) (active : StreamState) :
    EngineM F (List SyncCommand) := do
  let db := (← get).db
  match repeatsStored (db.storedItem active.streamId message.revision) (.conflictResolved message) with
  | .error e => throw e
  | .ok (some .applied) => do
    let receiptMatch ← readDb (·.inboundConflictResolutionReceiptMatch message)
    onlyIf (receiptMatch = .exact) (settleExactConflictResolutionReplay message .stream)
    pure []
  | .ok (some .preserved) => pure []
  | .ok _ => do
    let receiptMatch ← readDb (·.inboundConflictResolutionReceiptMatch message)
    if receiptMatch = .exact then do
      settleExactConflictResolutionReplay message .stream
      resumeInboundWork Env.limits.maxItemsPerCall false
    else do
      let status ← statusForState message.pathState
      let _ ← transaction (putStreamConflictResolved message status)
      let commands ← resumeInboundWork Env.limits.maxItemsPerCall false
      pure (withDownload commands status (some message.operationId) (requiredContent message.pathState))

def conflictResolved (message : WorkspaceConflictResolvedMessage) : EngineM F (List SyncCommand) := do
  ensureOpen
  requireValid message.validate (.protocolInvariant "invalid_stream_conflict_resolution")
  requireThat (message.workspaceId = Env.workspaceId) (.protocolInvariant "stream_workspace_mismatch")
  match (← get).db.stream with
  | none => conflictResolvedLive message
  | some active => conflictResolvedStream message active

def streamBegin (active : StreamState) : WorkspaceSnapshotBeginMessage :=
  ⟨Env.workspaceId, active.streamId, active.mode, active.fromRevision, active.finalRevision,
    active.expectedEntryCount, active.expectedEventCount, active.expectedConflictCount⟩

def snapshotEnd (message : WorkspaceSnapshotEndMessage) : EngineM F (List SyncCommand) := do
  ensureOpen
  match (← get).db.stream with
  | none => throw (.streamInvariant "no_active_stream")
  | some active => do
    requireValid (message.validateAgainst (streamBegin active)) (.streamInvariant "end_mismatch")
    transaction setStreamEndReceived
    resumeInboundWork Env.limits.maxItemsPerCall false

/-! ## Blobs, acknowledgements and replies -/

def blobAvailable (hash : WorkspaceContentHash) (size : Nat) (bytes : List Nat) :
    EngineM F (List SyncCommand) := do
  ensureOpen
  writeFiles (Filesystem.importBlob · hash size bytes)
  resumeInboundWork Env.limits.maxItemsPerCall false

/-- The confirmation of an acknowledgement. The revision may be one the server had before the pending one;
only the pending one ends the stream. -/
def ackConfirmed (message : WorkspaceAckRequest) : EngineM F Unit := do
  ensureOpen
  validateIdentity message.workspaceId message.clientId
  let cursor := (← get).db.cursor
  match cursor.pendingAckRevision with
  | none =>
    if message.revision = cursor.lastAckRevision then pure ()
    else if cursor.pendingSegmentAckRevision = some message.revision ∧
        cursor.lastAckRevision < message.revision ∧ message.revision ≤ cursor.lastAppliedRevision then
      transaction do
        setLastAckRevision message.revision
        clearPendingSegmentAck
    else throw (.protocolInvariant "ack_not_pending")
  | some pending =>
    if message.revision ≤ cursor.lastAckRevision ∨ pending < message.revision ∨
        cursor.lastAppliedRevision < message.revision then
      throw (.protocolInvariant "ack_mismatch")
    else
      transaction do
        setLastAckRevision message.revision
        onlyIf (message.revision = pending) do
          clearPendingAck
          clearPendingSegmentAck
          clearStream

def acceptedStates (accepted : WorkspaceMutationAcceptedMessage) : List WorkspacePathState :=
  accepted.oldPathState.toList ++ accepted.newPathState.toList ++ [accepted.pathState]

def mutationAccepted (accepted : WorkspaceMutationAcceptedMessage) : EngineM F (List SyncCommand) := do
  ensureOpen
  requireValid accepted.validate (.protocolInvariant "invalid_mutation_accepted")
  let receiptMatch ← readDb (·.mutationAcceptanceMatch accepted)
  validateIdentity accepted.workspaceId accepted.clientId
  if receiptMatch = .exact then pure []
  else do
    let mutation ← outstandingMutation accepted.operationId
    readDb fun _ => validateAcceptanceShape mutation accepted
    let db := (← get).db
    let touched := mutationPaths mutation
    let intents := db.deferredOperations touched
    let states := (acceptedStates accepted).foldl (fun states state => states.insert state.path state) db.pathStates
    let next ← nextMutations intents states
    transaction do
      forTx (acceptedStates accepted) putPathState
      removeOutbox accepted.operationId
      recordMutationAppliedOperation Env.clientId accepted.operationId accepted.revision
        (appliedAcceptanceDigest mutation accepted) mutation
      forTx (pathsForDesiredOperations touched intents) removeLocalIntent
      forTx next fun (mutation, timestamp) => enqueueMutationAt mutation timestamp
    pure []

/-! ## What the transport reads -/

def Db.activeStreamMode (db : Db) : Option WorkspaceSnapshotMode := db.stream.map (·.mode)

def Db.completedStreamAckRevision (db : Db) : Option WorkspaceRevision :=
  match db.stream with
  | none => none
  | some active =>
    if active.endReceived && db.streamItemsReady active &&
        db.streamTableSummary.conflictCount = active.expectedConflictCount &&
        db.applyJournals.entries = [] && db.cursor.pendingAckRevision = some active.finalRevision then
      some active.finalRevision
    else none

end

end Lumio.Sync
