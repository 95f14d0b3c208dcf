import Lumio.Sync.Journal.Unseen
import Lumio.Sync.Lemmas.Frame
import Lumio.Sync.Run

/-!
# The items of the server and their writes

An item either is settled without a write, and then the apply journal plays no part in it, or comes to one write
under a journal row of its own.
-/

namespace Lumio.Sync

open Lumio.Protocol Lumio.Fs Prog

/-! ## Items and their writes -/

inductive RemoteItem where
  | entry (message : WorkspaceSnapshotEntryMessage)
  | event (message : WorkspaceEventMessage)
  | liveEvent (message : WorkspaceEventMessage)
  | conflictResolved (message : WorkspaceConflictResolvedMessage) (source : ConflictResolutionSource)

def RemoteItem.itemKind : RemoteItem → ApplyItemKind
  | .entry _ => .entry
  | .event _ | .liveEvent _ => .event
  | .conflictResolved _ _ => .conflictResolved

def RemoteItem.itemKey : RemoteItem → ApplyItemKey
  | .entry message => .path message.entry.path
  | .event message | .liveEvent message => .revision message.revision
  | .conflictResolved message _ => .revision message.revision

def RemoteItem.streamId (item : RemoteItem) (db : Db) : Option StreamId :=
  match item with
  | .entry message => some message.streamId
  | .event message | .liveEvent message => some message.streamId
  | .conflictResolved _ .live => some liveApplyStreamId
  | .conflictResolved _ .stream => db.stream.map (·.streamId)

def RemoteItem.operationSpec : RemoteItem → RemoteApplyOperation
  | .entry message => .fromState message.entry
  | .event message | .liveEvent message => .fromEvent message
  | .conflictResolved message _ => .fromState message.pathState

def RemoteItem.postStates : RemoteItem → List WorkspacePathState
  | .entry message => [message.entry]
  | .event message | .liveEvent message => eventPostStates message
  | .conflictResolved message _ => [message.pathState]

/-- The database side of an item, for an event with or without the row of its own mutation. -/
def RemoteItem.commitPlan (item : RemoteItem) (removeOutbox_ : Bool) : ApplyCommitPlan :=
  match item with
  | .entry message => .snapshotEntry message
  | .event message => .streamEvent message removeOutbox_
  | .liveEvent message => .liveEvent message removeOutbox_
  | .conflictResolved message .stream => .streamConflictResolved message
  | .conflictResolved message .live => .liveConflictResolved message

/-- What `applyWithJournal` is given of an item. -/
structure JournaledWrite where
  streamId : StreamId
  itemKind : ApplyItemKind
  itemKey : ApplyItemKey
  operationSpec : RemoteApplyOperation
  postStates : List WorkspacePathState
  commitPlan : ApplyCommitPlan
  operation : FsOperation

structure JournaledWrite.Of (write : JournaledWrite) (item : RemoteItem) (db : Db) : Prop where
  itemKind : write.itemKind = item.itemKind
  itemKey : write.itemKey = item.itemKey
  streamId : item.streamId db = some write.streamId
  operationSpec : write.operationSpec = item.operationSpec
  postStates : write.postStates = item.postStates
  commitPlan : ∃ removeOutbox_, write.commitPlan = item.commitPlan removeOutbox_

section

variable {F : Type} [Filesystem F] [Env]

def RemoteItem.apply : RemoteItem → EngineM F Unit
  | .entry message => applySnapshotEntry message
  | .event message => applyEvent message
  | .liveEvent message => applyLiveEvent message
  | .conflictResolved message source => applyConflictResolvedFrom message source

/-- A write under its journal row, followed by `commit` and the end of the row. -/
def JournaledWrite.run (write : JournaledWrite) (commit : ApplyReceipt → EngineM F Unit) : EngineM F Unit := do
  let receipt ← applyWithJournal write.streamId write.itemKind write.itemKey write.operationSpec write.postStates
    write.commitPlan write.operation
  commit receipt
  finishApplyJournal receipt

/-! ## The operation an item needs -/

/-- The operation that brings an entry to the workspace. There is none where the workspace shows the entry, or
something else than what the client knows of the path. -/
def entryOperation (entry : WorkspaceSnapshotEntryMessage) : EngineM F (Option FsOperation) := do
  let post := entry.entry
  let previous := (← get).db.pathStates.lookup post.path
  let observed ← inspect post.path
  let postMatches ← observedMatchesPost post observed
  let baselineMatches ← baselineMatchesObserved previous observed
  if postMatches then pure none
  else if !baselineMatches ∧ observed.isSome then pure none
  else if !baselineMatches ∧ previous.isSome then pure none
  else operationForState post observed

def eventOperation (event : WorkspaceEventMessage) : EngineM F (Option FsOperation) := do
  let db := (← get).db
  let receiptMatch ← readDb (·.eventReceiptMatch event)
  if receiptMatch = .exact then pure none
  else do
    readDb (checkOwnEvent · event)
    if event.originClientId = Env.clientId then pure none
    else do
      let observed ← observedForEvent event
      let postMatches ← eventPostMatches (eventPostStates event) observed
      let baselineMatches ← eventBaselineMatches (pathStatesForEvent db event) observed
      if postMatches then pure none
      else if !baselineMatches then pure none
      else operationForEvent event observed

def liveEventOperation (event : WorkspaceEventMessage) : EngineM F (Option FsOperation) := do
  let db := (← get).db
  let receiptMatch ← readDb (·.eventReceiptMatch event)
  if receiptMatch = .exact then pure none
  else do
    readDb (checkOwnEvent · event)
    let observed ← observedForEvent event
    let postMatches ← eventPostMatches (eventPostStates event) observed
    if postMatches then pure none
    else do
      let baselineMatches ← eventBaselineMatches (pathStatesForEvent db event) observed
      if !baselineMatches then pure none
      else operationForEvent event observed

def conflictResolvedOperation (message : WorkspaceConflictResolvedMessage) (source : ConflictResolutionSource) :
    EngineM F (Option FsOperation) := do
  let receiptMatch ← readDb (·.inboundConflictResolutionReceiptMatch message)
  if receiptMatch = .exact then pure none
  else do
    let cleanup ← readDb (·.conflictCleanupOperations message)
    let db := (← get).db
    if cleanup.preserveNewerGeneration then pure none
    else if source = .live ∧ message.revision ≤ db.cursor.lastAppliedRevision then pure none
    else do
      let path := message.pathState.path
      let observed ← inspect path
      let postMatches ← observedMatchesPost message.pathState observed
      if postMatches then pure none
      else do
        let baselineMatches ← baselineMatchesObserved (db.pathStates.lookup path) observed
        if !baselineMatches then pure none
        else
          match ← operationForState message.pathState observed with
          | none => pure none
          | some operation => do
            let _ ← resolutionStreamId source
            pure (some operation)

/-- The operation an item still has to write, if any. Finding it changes nothing but the content cache. -/
def RemoteItem.operation : RemoteItem → EngineM F (Option FsOperation)
  | .entry message => entryOperation message
  | .event message => eventOperation message
  | .liveEvent message => liveEventOperation message
  | .conflictResolved message source => conflictResolvedOperation message source

theorem RemoteItem.operation_keeps {β : Type} {π : Engine F → β} [StagingFree π] (item : RemoteItem) :
    Keeps π item.operation := by
  cases item with
  | entry message =>
    unfold RemoteItem.operation entryOperation
    grind
  | event message =>
    unfold RemoteItem.operation eventOperation
    grind
  | liveEvent message =>
    unfold RemoteItem.operation liveEventOperation
    grind
  | conflictResolved message source =>
    refine .bind (readDb_keeps _) fun receiptMatch => ?_
    split
    · exact .pure _
    refine .bind (readDb_keeps _) fun cleanup => .bind .get fun engine => ?_
    dsimp only
    have hwrite : ∀ operation : Option FsOperation, Keeps π (match operation with
        | none => (pure none : EngineM F (Option FsOperation))
        | some operation => do
          let _ ← resolutionStreamId source
          pure (some operation)) := fun operation => by
      cases operation with
      | none => exact .pure _
      | some operation => exact .bind (resolutionStreamId_keeps source) fun _ => .pure _
    grind

/-! ## An item up to its write -/

/-- `check` finds the operation `m` writes for `item`. Where it finds none, `m` does not see the journal. -/
def WritesUnder (item : RemoteItem) (check : EngineM F (Option FsOperation)) (m : EngineM F Unit) : Prop :=
  ∀ engine rows,
    match check engine with
    | .ok (some operation) reached => ∃ (write : JournaledWrite) (commit : ApplyReceipt → EngineM F Unit),
        write.operation = operation ∧ write.Of item reached.db ∧
        m (engine.withJournals rows) = write.run commit (reached.withJournals rows)
    | _ => m (engine.withJournals rows) = changed (Engine.withJournals · rows) (m engine)

variable {item : RemoteItem}

theorem WritesUnder.of_unseen {check : EngineM F (Option FsOperation)} {m : EngineM F Unit} (hm : Unseen m)
    (hcheck : ∀ engine operation reached, check engine ≠ .ok (some operation) reached) : WritesUnder item check m := by
  intro engine rows
  split
  · rename_i operation reached hfound
    exact absurd hfound (hcheck engine operation reached)
  · exact hm rows engine

theorem WritesUnder.settles {m : EngineM F Unit} (hm : Unseen m) : WritesUnder item (pure none) m :=
  .of_unseen hm fun _ _ _ => nofun

theorem WritesUnder.bind {α : Type} {m : EngineM F α} {check : α → EngineM F (Option FsOperation)}
    {rest : α → EngineM F Unit} (hm : Unseen m) (hrest : ∀ a, WritesUnder item (check a) (rest a)) :
    WritesUnder item (m >>= check) (m >>= rest) := by
  intro engine rows
  have hrun := hm rows engine
  simp only [Bind.bind, EStateM.bind, hrun]
  cases m engine with
  | ok a reached => exact hrest a reached rows
  | error e reached => rfl

theorem WritesUnder.get_bind {check : Engine F → EngineM F (Option FsOperation)} {rest : Engine F → EngineM F Unit}
    (hread : ∀ engine rows, rest (engine.withJournals rows) = rest engine)
    (hrest : ∀ engine, WritesUnder item (check engine) (rest engine)) :
    WritesUnder item (get >>= check) (get >>= rest) := by
  intro engine rows
  change match check engine engine with
    | .ok (some operation) reached => ∃ (write : JournaledWrite) (commit : ApplyReceipt → EngineM F Unit),
        write.operation = operation ∧ write.Of item reached.db ∧
        rest (engine.withJournals rows) (engine.withJournals rows) = write.run commit (reached.withJournals rows)
    | _ => rest (engine.withJournals rows) (engine.withJournals rows) =
        changed (Engine.withJournals · rows) (rest engine engine)
  rw [hread engine rows]
  exact hrest engine engine rows

theorem WritesUnder.run {w : JournaledWrite} {commit : ApplyReceipt → EngineM F Unit}
    (hof : ∀ db, w.Of item db) : WritesUnder item (pure (some w.operation)) (w.run commit) :=
  fun engine _ => ⟨w, commit, rfl, hof engine.db, rfl⟩

theorem WritesUnder.found {found : EngineM F (Option FsOperation)} {rest : Option FsOperation → EngineM F Unit}
    (hfound : Unseen found) (hrest : ∀ operation, WritesUnder item (pure operation) (rest operation)) :
    WritesUnder item found (found >>= rest) := by
  have hbind := @WritesUnder.bind _ _ _ item _ _ _ _ hfound hrest
  rwa [bind_pure] at hbind

theorem applySnapshotEntry_writesUnder (entry : WorkspaceSnapshotEntryMessage) :
    WritesUnder (.entry entry) (entryOperation (F := F) entry) (applySnapshotEntry entry) := by
  refine .get_bind (fun _ _ => rfl) fun engine => .bind (inspect_unseen _) fun observed =>
    .bind (observedMatchesPost_unseen _ _) fun postMatches =>
      .bind (baselineMatchesObserved_unseen _ _) fun baselineMatches => ?_
  split
  · exact .settles (commitEntryWithJournal_unseen _ _ _)
  split
  · exact .settles (by grind)
  split
  · exact .settles (by grind)
  refine .found (operationForState_unseen _ _) fun operation => ?_
  cases operation with
  | none => exact .settles (commitEntryWithJournal_unseen _ _ _)
  | some operation => exact WritesUnder.run (w := ⟨_, _, _, _, _, _, operation⟩) fun _ => ⟨rfl, rfl, rfl, rfl, rfl, false, rfl⟩

theorem applyEvent_writesUnder (event : WorkspaceEventMessage) :
    WritesUnder (.event event) (eventOperation (F := F) event) (applyEvent event) := by
  refine .get_bind (fun _ _ => rfl) fun engine => .bind (readDb_unseen fun _ _ => rfl) fun receiptMatch => ?_
  split
  · exact .settles (by grind)
  refine .bind (readDb_unseen fun _ _ => rfl) fun _ => ?_
  dsimp only
  split
  · exact .settles (commitEventWithJournal_unseen _ _ _ _)
  refine .bind (observedForEvent_unseen _) fun observed => .bind (eventPostMatches_unseen _ _) fun postMatches =>
    .bind (eventBaselineMatches_unseen _ _) fun baselineMatches => ?_
  split
  · exact .settles (commitEventWithJournal_unseen _ _ _ _)
  split
  · exact .settles (preserveEvent_unseen _ _ _ _)
  refine .found (operationForEvent_unseen _ _) fun operation => ?_
  cases operation with
  | none => exact .settles (commitEventWithJournal_unseen _ _ _ _)
  | some operation => exact WritesUnder.run (w := ⟨_, _, _, _, _, _, operation⟩) fun _ => ⟨rfl, rfl, rfl, rfl, rfl, false, rfl⟩

theorem applyLiveEvent_writesUnder (event : WorkspaceEventMessage) :
    WritesUnder (.liveEvent event) (liveEventOperation (F := F) event) (applyLiveEvent event) := by
  refine .get_bind (fun _ _ => rfl) fun engine => .bind (readDb_unseen fun _ _ => rfl) fun receiptMatch => ?_
  split
  · exact .settles (markLiveEventApplied_unseen _)
  refine .bind (readDb_unseen fun _ _ => rfl) fun _ => .bind (observedForEvent_unseen _) fun observed =>
    .bind (eventPostMatches_unseen _ _) fun postMatches => ?_
  split
  · exact .settles (commitLiveEventWithJournal_unseen _ _ _)
  refine .bind (eventBaselineMatches_unseen _ _) fun baselineMatches => ?_
  split
  · exact .settles (preserveLiveEvent_unseen _ _ _ _)
  refine .found (operationForEvent_unseen _ _) fun operation => ?_
  cases operation with
  | none => exact .settles (commitLiveEventWithJournal_unseen _ _ _)
  | some operation => exact WritesUnder.run (w := ⟨_, _, _, _, _, _, operation⟩) fun _ => ⟨rfl, rfl, rfl, rfl, rfl, _, rfl⟩

/-- The write of a resolution, whose stream id comes from the stored stream or is that of the live ones. -/
theorem resolutionStreamId_writesUnder {message : WorkspaceConflictResolvedMessage} {source : ConflictResolutionSource}
    {operation : FsOperation} {w : StreamId → JournaledWrite} {commit : ApplyReceipt → EngineM F Unit}
    (hoperation : ∀ streamId, (w streamId).operation = operation)
    (hof : ∀ db streamId, (RemoteItem.conflictResolved message source).streamId db = some streamId →
      (w streamId).Of (.conflictResolved message source) db) :
    WritesUnder (.conflictResolved message source)
      (do
        let _ ← resolutionStreamId source
        pure (some operation))
      (do
        let streamId ← resolutionStreamId source
        (w streamId).run commit) := by
  intro engine rows
  cases source with
  | live => exact ⟨w liveApplyStreamId, commit, hoperation _, hof engine.db liveApplyStreamId rfl, rfl⟩
  | stream =>
    cases hstream : engine.db.stream with
    | none =>
      simp only [resolutionStreamId, bind, EStateM.bind, get_apply,
        Engine.withJournals_db, Db.withJournals_stream, hstream]
      rfl
    | some active =>
      have hrun := hof engine.db active.streamId (by simp only [RemoteItem.streamId, hstream, Option.map_some])
      simp only [resolutionStreamId, bind, EStateM.bind, get_apply,
        Engine.withJournals_db, Db.withJournals_stream, hstream]
      exact ⟨w active.streamId, commit, hoperation _, hrun, rfl⟩

theorem applyConflictResolvedFrom_writesUnder (message : WorkspaceConflictResolvedMessage)
    (source : ConflictResolutionSource) :
    WritesUnder (.conflictResolved message source) (conflictResolvedOperation (F := F) message source)
      (applyConflictResolvedFrom message source) := by
  refine .bind (readDb_unseen fun _ _ => rfl) fun receiptMatch => ?_
  split
  · exact .settles (settleExactConflictResolutionReplay_unseen _ _)
  refine .bind (readDb_unseen fun _ _ => rfl) fun cleanup => .get_bind (fun _ _ => rfl) fun engine => ?_
  dsimp only
  split
  · refine .settles ?_
    cases source <;> grind
  split
  · exact .settles (.throw _)
  refine .bind (inspect_unseen _) fun observed => .bind (observedMatchesPost_unseen _ _) fun postMatches => ?_
  split
  · exact .settles (commitConflictResolvedWithJournal_unseen _ _ _)
  refine .bind (baselineMatchesObserved_unseen _ _) fun baselineMatches => ?_
  split
  · exact .settles (by grind)
  refine .bind (operationForState_unseen _ _) fun operation => ?_
  cases operation with
  | none => exact .settles (commitConflictResolvedWithJournal_unseen _ _ _)
  | some operation =>
    refine resolutionStreamId_writesUnder (w := fun streamId => ⟨streamId, _, _, _, _, _, operation⟩) (fun _ => rfl)
      fun db streamId hstream => ⟨rfl, rfl, hstream, rfl, rfl, false, ?_⟩
    cases source <;> rfl

theorem RemoteItem.writesUnder (item : RemoteItem) : WritesUnder item (item.operation (F := F)) item.apply := by
  cases item with
  | entry message => exact applySnapshotEntry_writesUnder message
  | event message => exact applyEvent_writesUnder message
  | liveEvent message => exact applyLiveEvent_writesUnder message
  | conflictResolved message source => exact applyConflictResolvedFrom_writesUnder message source

omit [Filesystem F] [Env] in
theorem putApplyJournal_wp {record : ApplyJournalRecord} {db : Db} :
    wp (putApplyJournal record) (fun _ after => after = { db with
        applyJournals := db.applyJournals.insert record.applyId record })
      (fun error _ => ∀ e, error ≠ .filesystem e) db := by
  simp only [putApplyJournal, wp_bind, wp_get]
  split
  · split
    · simp
    · split
      · rfl
      · simp
  · split
    · simp
    · rfl

end

end Lumio.Sync
