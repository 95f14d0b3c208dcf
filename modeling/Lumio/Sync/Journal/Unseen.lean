import Lumio.Lib.Blind
import Lumio.Sync.Engine.Apply

/-!
# What does not see the apply journal

Observing the workspace, queueing local changes and the database side of an item run the same whatever rows the
apply journal holds. Only the writes under a journal row, the begin of a stream and its end look at it.
-/

namespace Lumio.Sync

open Lumio.Protocol Lumio.Fs Prog

@[simps] def Db.withJournals (db : Db) (rows : Table ApplyId ApplyJournalRecord) : Db :=
  { db with applyJournals := rows }

@[simps] def Engine.withJournals {F : Type} (engine : Engine F) (rows : Table ApplyId ApplyJournalRecord) : Engine F :=
  { engine with db := engine.db.withJournals rows }

def UnseenTx {α : Type} (body : TxM α) : Prop := ∀ rows, Blind (Db.withJournals · rows) body

def Unseen {F α : Type} (m : EngineM F α) : Prop := ∀ rows, Blind (Engine.withJournals · rows) m

/-! ## Transaction bodies -/

section

variable {α β : Type}

@[grind .] theorem UnseenTx.pure (a : α) : UnseenTx (Pure.pure a) := fun _ => .pure a

@[grind .] theorem UnseenTx.throw (e : SyncError) : UnseenTx (MonadExcept.throw e : TxM α) := fun _ => .throw e

@[grind .] theorem UnseenTx.bind {body : TxM α} {rest : α → TxM β} (hbody : UnseenTx body)
    (hrest : ∀ a, UnseenTx (rest a)) : UnseenTx (body >>= rest) :=
  fun rows => .bind (hbody rows) fun a => hrest a rows

@[grind .] theorem UnseenTx.onlyIf {body : TxM Unit} (h : UnseenTx body) (condition : Bool) :
    UnseenTx (Prog.onlyIf condition body) := fun rows => .onlyIf (h rows) condition

@[grind .] theorem forTx_unseen {xs : List α} {step : α → TxM Unit} (h : ∀ x, UnseenTx (step x)) :
    UnseenTx (forTx xs step) := fun rows => .forM fun x => h x rows

theorem UnseenTx.modify {g : Db → Db} (h : ∀ db rows, g (db.withJournals rows) = (g db).withJournals rows) :
    UnseenTx (modify g) := fun rows => .modify fun db => h db rows

variable (message : WorkspaceConflictResolvedMessage) (operationId : OperationId) (revision : WorkspaceRevision)
  (status : StreamItemStatus)

@[grind .] theorem setPendingAck_unseen : UnseenTx (setPendingAck revision) := by
  intro rows
  refine .of_run fun db => ?_
  simp only [Db.withJournals_cursor]
  split_ifs <;> rfl

@[grind .] theorem setLastAppliedRevision_unseen : UnseenTx (setLastAppliedRevision revision) := by
  intro rows
  refine .of_run fun db => ?_
  simp only [Db.withJournals_cursor]
  split_ifs <;> rfl

@[grind .] theorem putPathState_unseen (state : WorkspacePathState) : UnseenTx (putPathState state) := by
  unfold putPathState
  split
  · exact .throw _
  · exact .modify fun _ _ => rfl

@[grind .] theorem removeOutbox_unseen : UnseenTx (removeOutbox operationId) :=
  .modify fun _ _ => rfl

@[grind .] theorem removeLocalIntent_unseen (path : WorkspacePath) : UnseenTx (removeLocalIntent path) :=
  .modify fun _ _ => rfl

@[grind .] theorem putLocalIntent_unseen (path : WorkspacePath) (intent : LocalIntent) (updatedAtMs : Int) :
    UnseenTx (putLocalIntent path intent updatedAtMs) := .modify fun _ _ => rfl

@[grind .] theorem removeConflict_unseen (conflictId : ConflictId) : UnseenTx (removeConflict conflictId) :=
  .modify fun _ _ => rfl

@[grind .] theorem enqueueOutbox_unseen (body : OutboxBody) (createdAtMs : Int) :
    UnseenTx (enqueueOutbox operationId body createdAtMs) := by
  intro rows
  refine .of_run fun db => ?_
  simp only [Db.withJournals_outbox]
  cases hrow : db.outbox.lookup operationId with
  | none => rfl
  | some existing =>
    dsimp only
    split_ifs <;> rfl

@[grind .] theorem enqueueMutationAt_unseen [Env] (mutation : WorkspaceMutation) (createdAtMs : Int) :
    UnseenTx (enqueueMutationAt mutation createdAtMs) := by
  unfold enqueueMutationAt
  grind

@[grind .] theorem recordAppliedOperation_unseen (record : AppliedOperationRecord) :
    UnseenTx (recordAppliedOperation record) := by
  intro rows
  refine .of_run fun db => ?_
  simp only [Db.withJournals_appliedOperations]
  cases hrow : db.appliedOperations.lookup (record.originClientId, record.operationId) with
  | none => rfl
  | some existing =>
    dsimp only
    split_ifs <;> rfl

@[grind .] theorem recordMutationAppliedOperation_unseen (originClientId : ClientId) (operationId : OperationId)
    (revision : WorkspaceRevision) (bodyDigest : AppliedOperationResult) (mutation : WorkspaceMutation) :
    UnseenTx (recordMutationAppliedOperation originClientId operationId revision bodyDigest mutation) := by
  unfold recordMutationAppliedOperation
  grind

@[grind .] theorem recordConflictAppliedOperation_unseen (originClientId : ClientId) (operationId : OperationId)
    (revision : WorkspaceRevision) (bodyDigest : WorkspaceConflictResolvedMessage) :
    UnseenTx (recordConflictAppliedOperation originClientId operationId revision bodyDigest) :=
  recordAppliedOperation_unseen _

@[grind .] theorem putStreamEntry_unseen [Env] (entry : WorkspaceSnapshotEntryMessage) (status : StreamItemStatus) :
    UnseenTx (putStreamEntry entry status) := by
  intro rows
  unfold putStreamEntry
  split
  · exact .throw _
  split
  · exact .throw _
  refine .of_run fun db => ?_
  simp only [Db.withJournals_stream, Db.withJournals_entries]
  cases hstream : db.stream with
  | none => rfl
  | some active =>
    refine ite_eq_changed (fun _ => rfl) fun _ => ite_eq_changed (fun _ => rfl) fun _ => ?_
    cases hrow : db.entries.lookup entry.index with
    | none => exact ite_eq_changed (fun _ => rfl) fun _ => ite_eq_changed (fun _ => rfl) fun _ => rfl
    | some existing =>
      refine ite_eq_changed (fun _ => rfl) fun _ => ite_eq_changed (fun _ => rfl) fun _ => ?_
      exact ite_eq_changed (fun _ => rfl) fun _ => rfl

@[grind .] theorem putStreamRevisionItem_unseen (streamId : StreamId) (item : StreamRevisionItem)
    (status : StreamItemStatus) : UnseenTx (putStreamRevisionItem streamId item status) := by
  intro rows
  refine .of_run fun db => ?_
  simp only [Db.withJournals_stream, Db.withJournals_items]
  cases hstream : db.stream with
  | none => rfl
  | some active =>
    refine ite_eq_changed (fun _ => rfl) fun _ => ite_eq_changed (fun _ => rfl) fun _ => ?_
    cases hrow : db.items.lookup item.revision with
    | none =>
      refine ite_eq_changed (fun _ => rfl) fun _ => ite_eq_changed (fun _ => rfl) fun _ => ?_
      exact ite_eq_changed (fun _ => rfl) fun _ => ite_eq_changed (fun _ => rfl) fun _ => rfl
    | some existing =>
      refine ite_eq_changed (fun _ => rfl) fun _ => ite_eq_changed (fun _ => rfl) fun _ => ?_
      exact ite_eq_changed (fun _ => rfl) fun _ => ite_eq_changed (fun _ => rfl) fun _ => rfl

@[grind .] theorem putStreamEvent_unseen [Env] (event : WorkspaceEventMessage) (status : StreamItemStatus) :
    UnseenTx (putStreamEvent event status) := by
  unfold putStreamEvent
  split
  · exact .throw _
  split
  · exact .throw _
  · exact putStreamRevisionItem_unseen _ _ _

@[grind .] theorem putStreamConflictResolved_unseen [Env] : UnseenTx (putStreamConflictResolved message status) := by
  unfold putStreamConflictResolved
  split
  · exact .throw _
  split
  · exact .throw _
  intro rows
  refine .get_bind (fun _ => rfl) fun db => ?_
  split
  · exact .throw _
  · exact putStreamRevisionItem_unseen _ _ _ rows

@[grind .] theorem cleanupConflictResolution_unseen (conflictId : ConflictId) (cleanup : ConflictCleanup) :
    UnseenTx (cleanupConflictResolution conflictId cleanup) := by
  unfold cleanupConflictResolution
  grind

@[grind .] theorem raisePendingAck_unseen (cursor : WorkspaceCursor) (revision : WorkspaceRevision) :
    UnseenTx (raisePendingAck cursor revision) := by
  unfold raisePendingAck
  grind

@[grind .] theorem commitJournal_none_unseen : UnseenTx (commitJournal none) := .pure _

@[grind .] theorem commitResolutionSource_unseen [Env] (preserveNewerGeneration : Bool)
    (source : ConflictResolutionSource) :
    UnseenTx (commitResolutionSource message status preserveNewerGeneration source) := by
  unfold commitResolutionSource
  cases source <;> grind

@[grind .] theorem settleResolutionSource_unseen [Env] (cursor : WorkspaceCursor) (source : ConflictResolutionSource) :
    UnseenTx (settleResolutionSource message cursor source) := by
  unfold settleResolutionSource
  cases source <;> grind

end

/-! ## Calls -/

section

variable {F α β : Type}

@[grind .] theorem Unseen.pure (a : α) : Unseen (Pure.pure a : EngineM F α) := fun _ => .pure a

@[grind .] theorem Unseen.throw (e : SyncError) : Unseen (MonadExcept.throw e : EngineM F α) := fun _ => .throw e

@[grind .] theorem Unseen.bind {m : EngineM F α} {rest : α → EngineM F β} (hm : Unseen m)
    (hrest : ∀ a, Unseen (rest a)) : Unseen (m >>= rest) := fun rows => .bind (hm rows) fun a => hrest a rows

@[grind .] theorem Unseen.mapM {f : α → EngineM F β} {xs : List α} (h : ∀ x, Unseen (f x)) : Unseen (xs.mapM f) :=
  fun rows => .mapM fun x => h x rows

theorem Unseen.get_bind {f : Engine F → EngineM F α}
    (hread : ∀ engine rows, f (engine.withJournals rows) = f engine) (hf : ∀ engine, Unseen (f engine)) :
    Unseen (get >>= f) := fun rows => .get_bind (fun engine => hread engine rows) fun engine => hf engine rows

@[grind .] theorem transaction_unseen {body : TxM α} (h : UnseenTx body) : Unseen (transaction (F := F) body) := by
  intro rows engine
  simp only [transaction, Engine.withJournals_db, h rows engine.db]
  cases body engine.db <;> rfl

@[grind .] theorem readFiles_unseen (result : Except FsError α) : Unseen (readFiles (F := F) result) := by
  unfold readFiles
  grind

@[grind .] theorem writeFiles_unseen (operation : F → Except FsError α × F) : Unseen (writeFiles operation) := by
  intro rows engine
  simp only [writeFiles, Engine.withJournals_files]
  obtain ⟨result, files⟩ := operation engine.files
  cases result <;> rfl

theorem readDb_unseen {check : Db → Except SyncError α} (h : ∀ db rows, check (db.withJournals rows) = check db) :
    Unseen (readDb (F := F) check) := by
  intro rows engine
  simp only [readDb, Engine.withJournals_db, h]
  cases check engine.db <;> rfl

variable [Env]

@[grind .] theorem nextOperationId_unseen : Unseen (nextOperationId (F := F)) := by
  intro rows
  refine .of_run fun engine => ?_
  have hused : (engine.withJournals rows).db.operationIdUsed = engine.db.operationIdUsed := rfl
  simp only [Engine.withJournals_operationIds, hused]
  cases engine.operationIds.dropWhile engine.db.operationIdUsed <;> rfl

@[grind .] theorem nextTimestamp_unseen : Unseen (nextTimestamp (F := F)) := by
  intro rows
  refine .of_run fun engine => ?_
  simp only [Engine.withJournals_timestamps]
  cases engine.timestamps <;> rfl

@[grind .] theorem nextMutations_unseen (desired : List DesiredOperation) (states : PathStates) :
    Unseen (nextMutations (F := F) desired states) := by
  induction desired with
  | nil => exact .pure _
  | cons operation rest ih =>
    unfold nextMutations
    grind

@[grind .] theorem queueDesiredWithStates_unseen (desired : DesiredOperation) (states : PathStates) :
    Unseen (queueDesiredWithStates (F := F) desired states) := by
  unfold queueDesiredWithStates
  refine .get_bind (fun _ _ => rfl) fun engine => ?_
  dsimp only
  split
  · split
    · exact .pure _
    · exact .bind (.mapM fun _ => nextTimestamp_unseen) fun _ => by grind
  · grind

variable (message : WorkspaceConflictResolvedMessage) (status : StreamItemStatus)

@[grind .] theorem commitEntryWithJournal_unseen (entry : WorkspaceSnapshotEntryMessage) (status : StreamItemStatus)
    (postStates : List WorkspacePathState) :
    Unseen (commitEntryWithJournal (F := F) entry status postStates none) := by
  unfold commitEntryWithJournal
  exact transaction_unseen (.bind (forTx_unseen putPathState_unseen) fun _ =>
    .bind (putStreamEntry_unseen _ _) fun _ => commitJournal_none_unseen)

@[grind .] theorem commitEventWithJournal_unseen (event : WorkspaceEventMessage) (status : StreamItemStatus)
    (postStates : List WorkspacePathState) (removeOutbox_ : Bool) :
    Unseen (commitEventWithJournal (F := F) event status postStates removeOutbox_ none) := by
  unfold commitEventWithJournal
  refine transaction_unseen (.bind (forTx_unseen putPathState_unseen) fun _ =>
    .bind (recordMutationAppliedOperation_unseen _ _ _ _ _) fun _ => .bind (.onlyIf (removeOutbox_unseen _) _) fun _ => ?_)
  exact .bind (.onlyIf (setLastAppliedRevision_unseen _) _) fun _ =>
    .bind (putStreamEvent_unseen _ _) fun _ => commitJournal_none_unseen

omit [Env] in
@[grind .] theorem commitLiveEventWithJournal_unseen (event : WorkspaceEventMessage)
    (postStates : List WorkspacePathState) (removeOutbox_ : Bool) :
    Unseen (commitLiveEventWithJournal (F := F) event postStates removeOutbox_ none) := by
  unfold commitLiveEventWithJournal
  grind

omit [Env] in
@[grind .] theorem markLiveEventApplied_unseen (revision : WorkspaceRevision) :
    Unseen (markLiveEventApplied (F := F) revision) := by
  refine .get_bind (fun _ _ => rfl) fun engine => ?_
  dsimp only
  grind

@[grind .] theorem commitConflictResolvedWithJournal_unseen (source : ConflictResolutionSource) :
    Unseen (commitConflictResolvedWithJournal (F := F) message status source none) := by
  refine .bind (readDb_unseen fun _ _ => rfl) fun _ => .bind (readDb_unseen fun _ _ => rfl) fun cleanup => ?_
  grind

@[grind .] theorem commitSupersededConflictResolution_unseen (cleanup : ConflictCleanup) :
    Unseen (commitSupersededConflictResolution (F := F) message cleanup) := by
  unfold commitSupersededConflictResolution
  grind

omit [Env] in
@[grind .] theorem commitSupersededLiveConflictResolution_unseen (cleanup : ConflictCleanup) :
    Unseen (commitSupersededLiveConflictResolution (F := F) message cleanup) := by
  refine .get_bind (fun _ _ => rfl) fun engine => ?_
  dsimp only
  grind

@[grind .] theorem settleExactConflictResolutionReplay_unseen (source : ConflictResolutionSource) :
    Unseen (settleExactConflictResolutionReplay (F := F) message source) := by
  refine .bind (readDb_unseen fun _ _ => rfl) fun settled => ?_
  obtain ⟨matchingConflict, cleanup⟩ := settled
  refine .get_bind (fun _ _ => rfl) fun engine => ?_
  dsimp only
  grind

end

/-! ## Observing the workspace -/

section

variable {F : Type} [Filesystem F]

@[grind .] theorem inspect_unseen (path : WorkspacePath) : Unseen (inspect (F := F) path) :=
  .get_bind (fun _ _ => rfl) fun _ => readFiles_unseen _

@[grind .] theorem desiredEntryFromObserved_unseen (observed : ObservedEntry) :
    Unseen (desiredEntryFromObserved (F := F) observed) := by
  unfold desiredEntryFromObserved
  grind

@[grind .] theorem observedContentHash_unseen (observed : ObservedEntry) :
    Unseen (observedContentHash (F := F) observed) := by
  unfold observedContentHash
  grind

@[grind .] theorem observedMatchesPost_unseen (state : WorkspacePathState) (observed : Option ObservedEntry) :
    Unseen (observedMatchesPost (F := F) state observed) := by
  unfold observedMatchesPost
  grind

@[grind .] theorem baselineMatchesObserved_unseen (baseline : Option WorkspacePathState)
    (observed : Option ObservedEntry) : Unseen (baselineMatchesObserved (F := F) baseline observed) := by
  unfold baselineMatchesObserved
  grind

@[grind .] theorem desiredFromCurrent_unseen (path : WorkspacePath) :
    Unseen (desiredFromCurrent (F := F) path) := by
  unfold desiredFromCurrent
  grind

@[grind .] theorem expectedFromObserved_unseen (observed : Option ObservedEntry) :
    Unseen (expectedFromObserved (F := F) observed) := by
  unfold expectedFromObserved
  split
  · exact .pure _
  · refine .bind (observedContentHash_unseen _) fun hash => ?_
    split
    · exact .get_bind (fun _ _ => rfl) fun _ => by grind
    · exact .pure _

variable (event : WorkspaceEventMessage) (observed : List (WorkspacePath × Option ObservedEntry))
  (postStates : List WorkspacePathState)

@[grind .] theorem observedForEvent_unseen : Unseen (observedForEvent (F := F) event) := by
  unfold observedForEvent
  grind

omit [Filesystem F] in
theorem allM_unseen {checks : List (EngineM F Bool)} (h : ∀ check ∈ checks, Unseen check) :
    Unseen (allM checks) := by
  induction checks with
  | nil => exact .pure _
  | cons check rest ih =>
    unfold allM
    refine .bind (h check (by simp)) fun holds => ?_
    split
    · exact ih fun check hcheck => h check (by simp [hcheck])
    · exact .pure _

@[grind .] theorem eventPostMatches_unseen (states : List WorkspacePathState)
    (observed : List (WorkspacePath × Option ObservedEntry)) :
    Unseen (eventPostMatches (F := F) states observed) := by
  refine allM_unseen fun check hcheck => ?_
  obtain ⟨state, -, rfl⟩ := List.mem_map.mp hcheck
  exact observedMatchesPost_unseen _ _

@[grind .] theorem eventBaselineMatches_unseen (previous : List (WorkspacePath × Option WorkspacePathState))
    (observed : List (WorkspacePath × Option ObservedEntry)) :
    Unseen (eventBaselineMatches (F := F) previous observed) := by
  refine allM_unseen fun check hcheck => ?_
  obtain ⟨⟨path, state⟩, -, rfl⟩ := List.mem_map.mp hcheck
  exact baselineMatchesObserved_unseen _ _

@[grind .] theorem operationForState_unseen (post : WorkspacePathState) (observed : Option ObservedEntry) :
    Unseen (operationForState (F := F) post observed) := by
  unfold operationForState
  grind

@[grind .] theorem operationForEvent_unseen : Unseen (operationForEvent (F := F) event observed) := by
  unfold operationForEvent
  split
  · exact operationForState_unseen _ _
  · split
    · exact .throw _
    · split <;> grind

@[grind .] theorem desiredForObserved_unseen (desired : List DesiredOperation)
    (observed : List (WorkspacePath × Option ObservedEntry)) :
    Unseen (desiredForObserved (F := F) desired observed) := by
  induction observed generalizing desired with
  | nil => exact .pure _
  | cons first rest ih =>
    obtain ⟨path, observed⟩ := first
    unfold desiredForObserved
    grind

variable [Env]

@[grind .] theorem preservedReplacements_unseen :
    Unseen (preservedReplacements (F := F) event observed postStates) := by
  refine .get_bind (fun _ _ => rfl) fun engine => ?_
  dsimp only
  grind

@[grind .] theorem preserveEvent_unseen (removeOutbox_ : Bool) :
    Unseen (preserveEvent (F := F) event observed postStates removeOutbox_) := by
  refine .bind (preservedReplacements_unseen _ _ _) fun replacements => transaction_unseen ?_
  refine .bind (forTx_unseen putPathState_unseen) fun _ => .bind (recordMutationAppliedOperation_unseen _ _ _ _ _) fun _ =>
    .bind (.onlyIf (removeOutbox_unseen _) _) fun _ => .bind (forTx_unseen removeLocalIntent_unseen) fun _ => ?_
  exact .bind (forTx_unseen fun _ => enqueueMutationAt_unseen _ _) fun _ => .bind (putStreamEvent_unseen _ _) fun _ => .pure _

@[grind .] theorem preserveLiveEvent_unseen (removeOutbox_ : Bool) :
    Unseen (preserveLiveEvent (F := F) event observed postStates removeOutbox_) := by
  refine .bind (preservedReplacements_unseen _ _ _) fun replacements => transaction_unseen ?_
  refine .bind (forTx_unseen putPathState_unseen) fun _ => .bind (recordMutationAppliedOperation_unseen _ _ _ _ _) fun _ =>
    .bind (.onlyIf (removeOutbox_unseen _) _) fun _ => .bind (forTx_unseen removeLocalIntent_unseen) fun _ => ?_
  refine .bind (forTx_unseen fun _ => enqueueMutationAt_unseen _ _) fun _ => ?_
  grind

end

end Lumio.Sync
