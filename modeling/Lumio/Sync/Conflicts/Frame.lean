import Lumio.Sync.Lemmas.Steps

/-!
# What leaves the conflicts alone

Most of the engine does not write the conflicts, and brings no resolution into the outbox. It may still take
outbox rows away, and put a mutation where another row was.
-/

namespace Lumio.Sync

open Lumio.Protocol Lumio.Fs Prog

structure Sheds (before after : Db) : Prop where
  conflicts : after.conflicts = before.conflicts
  staged : after.streamConflicts = before.streamConflicts
  rows : ∀ {operationId row request}, after.outbox.lookup operationId = some row →
    row.body = .conflictResolution request →
      ∃ old, before.outbox.lookup operationId = some old ∧ old.body = .conflictResolution request

theorem Sheds.refl (db : Db) : Sheds db db := ⟨rfl, rfl, fun hrow hbody => ⟨_, hrow, hbody⟩⟩

theorem Sheds.trans {a b c : Db} (hab : Sheds a b) (hbc : Sheds b c) : Sheds a c := by
  refine ⟨hbc.conflicts.trans hab.conflicts, hbc.staged.trans hab.staged, fun hrow hbody => ?_⟩
  obtain ⟨middle, hmiddle, hbody⟩ := hbc.rows hrow hbody
  exact hab.rows hmiddle hbody

def Db.conflictTables (db : Db) : Table ConflictId ConflictRecord × Table ConflictId StreamConflictRecord ×
    Table OperationId OutboxRecord := (db.conflicts, db.streamConflicts, db.outbox)

instance : OfOutward Db.conflictTables where
  of_outward a b h := by
    have htables : ∀ db : Db, db.conflictTables = db.outward.conflictTables := fun _ => rfl
    rw [htables a, htables b, h]

theorem Sheds.of_tables {a b : Db} (h : b.conflictTables = a.conflictTables) : Sheds a b := by
  have hconflicts : b.conflicts = a.conflicts := congrArg Prod.fst h
  have hstaged : b.streamConflicts = a.streamConflicts := congrArg (·.2.1) h
  have houtbox : b.outbox = a.outbox := congrArg (·.2.2) h
  refine ⟨hconflicts, hstaged, fun {operationId row request} hrow hbody => ⟨row, ?_, hbody⟩⟩
  rw [← houtbox]
  exact hrow

/-! ## Transactions -/

def ShedsTx {α : Type} (m : TxM α) : Prop := Moves Sheds m

namespace ShedsTx

variable {α β : Type}

theorem bind {m : TxM α} {f : α → TxM β} (hm : ShedsTx m) (hf : ∀ a, ShedsTx (f a)) : ShedsTx (m >>= f) :=
  Moves.bind Sheds.trans hm hf

theorem of_tables {m : TxM α} (h : Keeps Db.conflictTables m) : ShedsTx m := Moves.mono h fun _ _ => .of_tables

theorem pure (a : α) : ShedsTx (pure a) := of_tables (.pure _)

theorem onlyIf {m : TxM Unit} (hm : ShedsTx m) (condition : Bool) : ShedsTx (onlyIf condition m) := by
  cases condition with
  | true => exact hm
  | false => exact .pure _

theorem forTx {xs : List α} {step : α → TxM Unit} (h : ∀ x, ShedsTx (step x)) : ShedsTx (forTx xs step) := by
  induction xs with
  | nil => exact .pure _
  | cons x xs ih => exact bind (h x) fun _ => ih

theorem putPathState (state : WorkspacePathState) : ShedsTx (putPathState state) :=
  of_tables (putPathState_outward state)

variable (operationId : OperationId)

theorem recordMutationAppliedOperation (originClientId : ClientId) (operationId : OperationId)
    (revision : WorkspaceRevision) (bodyDigest : AppliedOperationResult) (mutation : WorkspaceMutation) :
    ShedsTx (recordMutationAppliedOperation originClientId operationId revision bodyDigest mutation) :=
  of_tables (recordMutationAppliedOperation_outward _ _ _ _ _)

theorem putLocalIntent (path : WorkspacePath) (intent : LocalIntent) (updatedAtMs : Int) :
    ShedsTx (putLocalIntent path intent updatedAtMs) := of_tables (.modify fun _ => rfl)

theorem removeLocalIntent (path : WorkspacePath) : ShedsTx (removeLocalIntent path) :=
  of_tables (.modify fun _ => rfl)

theorem commitJournal (applyId : Option ApplyId) : ShedsTx (commitJournal applyId) :=
  of_tables (commitJournal_outward applyId)

theorem of_restaged {m : TxM α} (h : Moves Restaged m) : ShedsTx m := by
  refine Moves.mono h fun before after hrestaged => ⟨?_, ?_, fun hrow hbody => ?_⟩
  · have hconflicts := congrArg Db.conflicts hrestaged.rest
    exact hconflicts
  · have hstaged := congrArg Db.streamConflicts hrestaged.rest
    exact hstaged
  · obtain ⟨old, hold, hsame⟩ := hrestaged.rows hrow
    exact ⟨old, hold, hsame ▸ hbody⟩

theorem removeOutbox : ShedsTx (removeOutbox operationId) :=
  of_restaged (removeOutbox_restages operationId)

theorem enqueueMutationAt [Env] (mutation : WorkspaceMutation) (createdAtMs : Int) :
    ShedsTx (enqueueMutationAt mutation createdAtMs) := by
  intro db
  have insert : ∀ row : OutboxRecord, row.body = .mutation mutation →
      Sheds db { db with outbox := db.outbox.insert mutation.operationId row } := by
    intro row hmutation
    refine ⟨rfl, rfl, fun {operationId after request} hrow hbody => ?_⟩
    rcases (Table.lookup_insert_iff after).mp hrow with ⟨-, rfl⟩ | ⟨-, hold⟩
    · rw [hmutation] at hbody
      cases hbody
    · exact ⟨after, hold, hbody⟩
  unfold Sync.enqueueMutationAt
  split
  · exact .refl db
  split
  · exact .refl db
  simp only [enqueueOutbox, wp_bind, wp_get]
  split
  · split
    · exact .refl db
    split
    · exact .refl db
    · exact insert _ rfl
  · exact insert _ rfl

theorem setOutboxStage (stage : OutboxStage) :
    ShedsTx (setOutboxStage operationId stage) := of_restaged (setOutboxStage_restages operationId stage)

theorem replayAwaitingBlobMutations : ShedsTx replayAwaitingBlobMutations :=
  of_restaged replayAwaitingBlobMutations_restages

theorem pendingOutboxReplay (limit : Nat) : ShedsTx (pendingOutboxReplay limit) :=
  of_restaged (pendingOutboxReplay_restages limit)

end ShedsTx

/-! ## Programs -/

def ShedsM {F α : Type} (m : EngineM F α) : Prop := Moves (fun s t => Sheds s.db t.db) m

namespace ShedsM

variable {F α β : Type}

theorem bind {m : EngineM F α} {f : α → EngineM F β} (hm : ShedsM m) (hf : ∀ a, ShedsM (f a)) : ShedsM (m >>= f) :=
  Moves.bind Sheds.trans hm hf

theorem reads {m : EngineM F α} (h : Keeps Engine.exceptJournals m) : ShedsM m := by
  refine Moves.mono h fun s t hst => .of_tables ?_
  have hdb : t.exceptJournals.db = s.exceptJournals.db := by rw [hst]
  have htables : ∀ e : Engine F, e.db.conflictTables = e.exceptJournals.db.conflictTables := fun _ => rfl
  rw [htables t, htables s, hdb]

theorem transaction {body : TxM α} (h : ShedsTx body) : ShedsM (transaction (F := F) body) := by
  intro engine
  rw [wp_transaction]
  exact wp_mono (h engine.db) (fun _ _ hdb => hdb) (fun _ _ _ => .refl _)

theorem retain {body : TxM α} (h : Keeps Db.conflictTables body) : ShedsM (Sync.transaction (F := F) body) :=
  transaction (.of_tables h)

theorem forM {γ : Type} {f : γ → EngineM F PUnit} {xs : List γ} (h : ∀ x, ShedsM (f x)) : ShedsM (forM xs f) := by
  induction xs with
  | nil => exact reads (.pure _)
  | cons x xs ih =>
    rw [List.forM_cons]
    exact bind (h x) fun _ => ih

section Local

variable [Env]

theorem enqueueAll (next : List (WorkspaceMutation × Int)) :
    ShedsTx (forTx next fun (mutation, timestamp) => enqueueMutationAt mutation timestamp) :=
  .forTx fun next => .enqueueMutationAt next.1 next.2

variable (desired : DesiredOperation)

theorem recordDesired : ShedsM (recordDesired (F := F) desired) := by
  refine bind (reads .get) fun engine => ?_
  dsimp only
  split
  · split
    · exact reads (.pure _)
    split
    · exact bind (reads nextOperationId_keeps) fun _ => bind (reads nextTimestamp_keeps) fun _ =>
        transaction (.bind (.removeOutbox _) fun _ => .bind (.enqueueMutationAt _ _) fun _ =>
          .forTx .removeLocalIntent)
    · exact bind (reads nextTimestamp_keeps) fun _ => transaction (.forTx fun _ => .putLocalIntent _ _ _)
  split
  · exact bind (reads nextTimestamp_keeps) fun _ =>
      transaction (.bind (.forTx .removeLocalIntent) fun _ => .forTx fun _ => .putLocalIntent _ _ _)
  split
  · exact transaction (.forTx .removeLocalIntent)
  · exact bind (reads nextOperationId_keeps) fun _ => bind (reads (requireValid_keeps _ _)) fun _ =>
      bind (reads nextTimestamp_keeps) fun _ =>
        transaction (.bind (.enqueueMutationAt _ _) fun _ => .forTx .removeLocalIntent)

theorem deferDesired : ShedsM (deferDesired (F := F) desired) :=
  bind (reads nextTimestamp_keeps) fun _ => transaction (.forTx fun _ => .putLocalIntent _ _ _)

theorem queueDesiredWithStates (states : PathStates) : ShedsM (queueDesiredWithStates (F := F) desired states) := by
  refine bind (reads .get) fun engine => ?_
  dsimp only
  split
  · split
    · exact reads (.pure _)
    · exact bind (reads (.mapM fun _ => nextTimestamp_keeps)) fun _ =>
        transaction (.forTx fun _ => .putLocalIntent _ _ _)
  · exact bind (reads nextOperationId_keeps) fun _ => bind (reads nextTimestamp_keeps) fun _ =>
      transaction (.enqueueMutationAt _ _)

theorem materializeLocalIntent (conflictPaths : List WorkspacePath) (states : PathStates)
    (record : LocalIntentRecord) : ShedsM (materializeLocalIntent (F := F) conflictPaths states record) := by
  unfold Sync.materializeLocalIntent
  dsimp only
  split
  · exact reads (.pure _)
  split
  · exact transaction (.removeLocalIntent _)
  refine bind (reads .get) fun engine => ?_
  split
  · exact reads (.pure _)
  · exact bind (reads nextOperationId_keeps) fun _ => bind (reads nextTimestamp_keeps) fun _ =>
      transaction (.bind (.enqueueMutationAt _ _) fun _ => .forTx .removeLocalIntent)

theorem materializeLocalIntents : ShedsM (materializeLocalIntents (F := F)) :=
  bind (reads .get) fun _ => forM fun _ => materializeLocalIntent _ _ _

/-! ### Replies to mutations -/

theorem mutationAccepted (accepted : WorkspaceMutationAcceptedMessage) :
    ShedsM (mutationAccepted (F := F) accepted) := by
  refine bind (reads ensureOpen_keeps) fun _ => bind (reads (requireValid_keeps _ _)) fun _ =>
    bind (reads (readDb_keeps _)) fun receiptMatch => bind (reads (validateIdentity_keeps _ _)) fun _ => ?_
  split
  · exact reads (.pure _)
  refine bind (reads (outstandingMutation_keeps _)) fun mutation => bind (reads (readDb_keeps _)) fun _ =>
    bind (reads .get) fun engine => bind (reads (nextMutations_keeps _ _)) fun next => ?_
  refine bind (transaction (.bind (.forTx .putPathState) fun _ => .bind (.removeOutbox _) fun _ => ?_)) fun _ =>
    reads (.pure _)
  exact .bind (.recordMutationAppliedOperation _ _ _ _ _) fun _ => .bind (.forTx .removeLocalIntent) fun _ =>
    enqueueAll next

theorem mutationRejected (rejected : WorkspaceMutationRejectedMessage) :
    ShedsM (mutationRejected (F := F) rejected) := by
  refine bind (reads ensureOpen_keeps) fun _ => bind (reads (requireValid_keeps _ _)) fun _ =>
    bind (reads (validateIdentity_keeps _ _)) fun _ => ?_
  split
  · exact reads (.throw _)
  refine bind (reads (outstandingMutation_keeps _)) fun mutation => ?_
  split
  · split
    · exact reads (.throw _)
    · exact transaction (.setOutboxStage _ _)
  · exact transaction (.setOutboxStage _ _)
  · unfold reconcileStale
    split
    · exact reads (.throw _)
    refine bind (reads .get) fun engine => bind (reads (nextMutations_keeps _ _)) fun next => ?_
    refine transaction (.bind ?_ fun _ => .bind (.removeOutbox _) fun _ => .bind (.forTx .removeLocalIntent) fun _ =>
      enqueueAll next)
    cases rejected.currentPathState with
    | none => exact .of_tables (removePathState_outward _)
    | some state => exact .putPathState state
  · exact reads (.throw _)

omit [Env] in
theorem blobUploaded (operationId : OperationId) : ShedsM (blobUploaded (F := F) operationId) := by
  refine bind (reads ensureOpen_keeps) fun _ => bind (reads .get) fun engine => ?_
  dsimp only
  split
  · exact reads (.throw _)
  split
  · exact transaction (.setOutboxStage _ _)
  · exact reads (.pure _)
  · exact reads (.throw _)
  · exact reads (.throw _)

omit [Env] in
theorem prepareConnectionAttempt : ShedsM (prepareConnectionAttempt (F := F)) :=
  bind (reads ensureOpen_keeps) fun _ => transaction .replayAwaitingBlobMutations

end Local

section Items

variable [Filesystem F] [Env]

variable (event : WorkspaceEventMessage) (postStates : List WorkspacePathState) (removeOutbox_ : Bool)
  (applyId : Option ApplyId)

section

omit [Filesystem F] [Env]

theorem eventBody {rest : TxM Unit} (hrest : ShedsTx rest) : ShedsTx (do
      forTx postStates putPathState
      recordMutationAppliedOperation event.originClientId event.operationId event.revision
        (appliedEventDigest event) event.mutation
      Prog.onlyIf removeOutbox_ (removeOutbox event.operationId)
      rest) :=
  .bind (.forTx .putPathState) fun _ => .bind (.recordMutationAppliedOperation _ _ _ _ _) fun _ =>
    .bind (.onlyIf (.removeOutbox _) _) fun _ => hrest

theorem commitLiveEventWithJournal :
    ShedsM (commitLiveEventWithJournal (F := F) event postStates removeOutbox_ applyId) :=
  transaction (eventBody event postStates removeOutbox_ (.bind (.of_tables (setLastAppliedRevision_content _))
    fun _ => .bind (.of_tables (setPendingAck_content _)) fun _ => .commitJournal _))

end

omit [Filesystem F] in
theorem commitEventWithJournal (status : StreamItemStatus) (postStates : List WorkspacePathState)
    (removeOutbox_ : Bool) (applyId : Option ApplyId) :
    ShedsM (commitEventWithJournal (F := F) event status postStates removeOutbox_ applyId) :=
  transaction (eventBody event postStates removeOutbox_
    (.bind (.onlyIf (.of_tables (setLastAppliedRevision_content _)) _) fun _ =>
      .bind (.of_tables (putStreamEvent_content _ _)) fun _ => .commitJournal _))

omit [Filesystem F] in
theorem commitEntryWithJournal (entry : WorkspaceSnapshotEntryMessage) (status : StreamItemStatus)
    (postStates : List WorkspacePathState) (applyId : Option ApplyId) :
    ShedsM (commitEntryWithJournal (F := F) entry status postStates applyId) :=
  transaction (.bind (.forTx .putPathState) fun _ => .bind (.of_tables (putStreamEntry_content _ _)) fun _ =>
    .commitJournal _)

theorem preserveEvent (observed : List (WorkspacePath × Option ObservedEntry)) (postStates : List WorkspacePathState)
    (removeOutbox_ : Bool) : ShedsM (preserveEvent (F := F) event observed postStates removeOutbox_) :=
  bind (reads (preservedReplacements_keeps _ _ _)) fun replacements =>
    transaction (eventBody event postStates removeOutbox_ (.bind (.forTx .removeLocalIntent) fun _ =>
      .bind (enqueueAll replacements.mutations) fun _ =>
        .bind (.of_tables (putStreamEvent_content _ _)) fun _ => .pure _))

theorem preserveLiveEvent (observed : List (WorkspacePath × Option ObservedEntry))
    (postStates : List WorkspacePathState) (removeOutbox_ : Bool) :
    ShedsM (preserveLiveEvent (F := F) event observed postStates removeOutbox_) :=
  bind (reads (preservedReplacements_keeps _ _ _)) fun replacements =>
    transaction (eventBody event postStates removeOutbox_ (.bind (.forTx .removeLocalIntent) fun _ =>
      .bind (enqueueAll replacements.mutations) fun _ =>
        .bind (.of_tables (setLastAppliedRevision_content _)) fun _ => .of_tables (setPendingAck_content _)))

section

omit [Filesystem F] [Env]

theorem markLiveEventApplied (revision : WorkspaceRevision) : ShedsM (markLiveEventApplied (F := F) revision) := by
  refine bind (reads .get) fun engine => ?_
  dsimp only
  split
  · exact reads (.pure _)
  · exact retain (.bind (.onlyIf (setLastAppliedRevision_content _) _) fun _ => .onlyIf (setPendingAck_content _) _)

theorem composes : Composes (Engine.exceptJournals (F := F)) (fun {_} m => ShedsM m) := ⟨reads, bind⟩

end

theorem applyLiveEvent : ShedsM (applyLiveEvent (F := F) event) :=
  composes.applyLiveEvent (markLiveEventApplied _) (fun _ _ => commitLiveEventWithJournal _ _ _ _)
    fun _ _ => preserveLiveEvent _ _ _ _

theorem applyEvent : ShedsM (applyEvent (F := F) event) :=
  composes.applyEvent (retain (putStreamEvent_content _ _)) (fun _ _ _ => commitEventWithJournal _ _ _ _ _)
    fun _ _ => preserveEvent _ _ _ _

theorem applySnapshotEntry (entry : WorkspaceSnapshotEntryMessage) : ShedsM (applySnapshotEntry (F := F) entry) :=
  composes.applySnapshotEntry (fun _ _ => commitEntryWithJournal _ _ _ _) queueDesiredWithStates

/-! ### Reconciling and recording -/

theorem reconcilePath (path : WorkspacePath) : ShedsM (reconcilePath (F := F) path) := by
  refine bind (reads .get) fun engine => ?_
  dsimp only
  split
  · exact reads (.pure _)
  refine bind (transaction (.of_tables (removePathState_outward _))) fun _ => bind (reads (inspect_keeps _)) fun observed => ?_
  cases observed with
  | none => exact reads (.pure _)
  | some observed => exact bind (reads (desiredFromCurrent_keeps _)) fun _ => queueDesiredWithStates _ _

theorem reconcileFullSnapshot : ShedsM (reconcileFullSnapshot (F := F)) := by
  refine bind (reads .get) fun engine => bind (forM reconcilePath) fun _ => bind (reads scanComplete_keeps)
    fun entries => forM fun observed => bind (reads .get) fun engine => ?_
  dsimp only
  split
  · exact reads (.pure _)
  · exact bind (reads (desiredEntryFromObserved_keeps _)) fun _ => queueDesiredWithStates _ _

theorem recordLocalChange (change : FsChange) : ShedsM (recordLocalChange (F := F) change) := by
  refine bind (reads (admitLocalChange_keeps _)) fun admitted => ?_
  cases admitted with
  | none => exact reads (.pure _)
  | some admitted =>
    refine bind (reads (desiredFromChange_keeps _)) fun desired => bind (reads .get) fun engine => ?_
    dsimp only
    split
    · split
      · exact reads (.pure _)
      · exact deferDesired _
    · exact recordDesired _

theorem recordPass (changes : List FsChange) : ShedsM (recordPass (F := F) changes) := by
  induction changes with
  | nil => exact reads (.pure _)
  | cons change rest ih =>
    cases change with
    | rescanRequired =>
      exact bind (reads scanChanges_keeps) fun _ => bind ih fun _ => reads (.pure _)
    | _ => exact bind (recordLocalChange _) fun _ => ih

theorem recordLocalChanges (changes : List FsChange) : ShedsM (recordLocalChanges (F := F) changes) :=
  bind (reads ensureOpen_keeps) fun _ => bind (recordPass _) fun _ => bind (recordPass _) fun _ => reads (.pure _)

end Items

end ShedsM

end Lumio.Sync
