import Lumio.Sync.Engine.Resolutions

/-!
# What the auxiliary operations leave alone

The core of the engine is what the inbound side decides on: cursor, stored stream, path states, receipts and
live queue. Observing the workspace, queueing local changes, planning conflict replacements and writing the
apply journal do not touch it.
-/

namespace Lumio.Sync

open Lumio.Protocol Lumio.Fs Prog

/-- The store without outbox, intents, conflicts and journals. -/
def Db.core (db : Db) : Db :=
  { db with outbox := ∅, localIntents := ∅, conflicts := ∅, applyJournals := ∅ }

def Db.exceptJournals (db : Db) : Db := { db with applyJournals := ∅ }

theorem Db.core_of_exceptJournals {a b : Db} (h : a.exceptJournals = b.exceptJournals) : a.core = b.core := by
  have hcore : ∀ db : Db, db.core = db.exceptJournals.core := fun _ => rfl
  rw [hcore a, hcore b, h]

def Engine.core {F : Type} (engine : Engine F) : Engine Unit where
  db := engine.db.core
  files := ()
  operationIds := []
  timestamps := []
  draws := 0
  pendingLiveEvents := engine.pendingLiveEvents
  pendingLiveSerializedBytes := engine.pendingLiveSerializedBytes
  nextInboundSource := engine.nextInboundSource
  closed := engine.closed

/-- The engine without its workspace and its sources of identifiers and time. -/
def Engine.ledger {F : Type} (engine : Engine F) : Engine Unit where
  db := engine.db
  files := ()
  operationIds := []
  timestamps := []
  draws := 0
  pendingLiveEvents := engine.pendingLiveEvents
  pendingLiveSerializedBytes := engine.pendingLiveSerializedBytes
  nextInboundSource := engine.nextInboundSource
  closed := engine.closed

/-- A part of the engine that can be read off the ledger. -/
class OfLedger {F β : Type} (π : Engine F → β) : Prop where
  of_ledger : ∀ s t : Engine F, s.ledger = t.ledger → π s = π t

instance {F : Type} : OfLedger (Engine.ledger (F := F)) := ⟨fun _ _ h => h⟩

instance {F : Type} : OfLedger (Engine.db (F := F)) where
  of_ledger s t h := by
    have hdb : s.ledger.db = t.ledger.db := by rw [h]
    exact hdb

instance {F : Type} : OfLedger (Engine.core (F := F)) where
  of_ledger s t h := by
    have hcore : ∀ e : Engine F, e.core = e.ledger.core := fun _ => rfl
    rw [hcore s, hcore t, h]

def Engine.exceptJournals {F : Type} (engine : Engine F) : Engine Unit :=
  { engine.ledger with db := engine.db.exceptJournals }

/-- A part of the engine that does not show the apply journal. -/
class JournalFree {F β : Type} (π : Engine F → β) : Prop where
  of_exceptJournals : ∀ s t : Engine F, s.exceptJournals = t.exceptJournals → π s = π t

instance {F : Type} : JournalFree (Engine.exceptJournals (F := F)) := ⟨fun _ _ h => h⟩

instance {F : Type} : JournalFree (Engine.core (F := F)) where
  of_exceptJournals s t h := by
    have hcore : ∀ e : Engine F, e.core = e.exceptJournals.core := fun _ => rfl
    rw [hcore s, hcore t, h]

instance {F : Type} : OfLedger (Engine.exceptJournals (F := F)) where
  of_ledger s t h := by
    have hledger : ∀ e : Engine F, e.exceptJournals = e.ledger.exceptJournals := fun _ => rfl
    rw [hledger s, hledger t, h]

class StagingFree {F β : Type} [Filesystem F] (π : Engine F → β) : Prop where
  of_staged : ∀ (s : Engine F) (path : WorkspacePath),
    π { s with files := (Filesystem.stageWorkspaceEntry s.files path).2 } = π s

instance {F β : Type} [Filesystem F] {π : Engine F → β} [OfLedger π] : StagingFree π where
  of_staged _ _ := OfLedger.of_ledger _ _ rfl

/-! ## Transactions -/

section

variable {α : Type}

variable (operationId : OperationId) (applyId : ApplyId)

@[grind .] theorem removeOutbox_keeps : Keeps Db.core (removeOutbox operationId) :=
  .modify fun _ => rfl

@[grind .] theorem removeLocalIntent_keeps (path : WorkspacePath) : Keeps Db.core (removeLocalIntent path) :=
  .modify fun _ => rfl

@[grind .] theorem putLocalIntent_keeps (path : WorkspacePath) (intent : LocalIntent) (updatedAtMs : Int) :
    Keeps Db.core (putLocalIntent path intent updatedAtMs) := .modify fun _ => rfl

@[grind .] theorem removeConflict_keeps (conflictId : ConflictId) : Keeps Db.core (removeConflict conflictId) :=
  .modify fun _ => rfl

@[grind .] theorem replayAwaitingBlobMutations_keeps : Keeps Db.core replayAwaitingBlobMutations :=
  .modify fun _ => rfl

@[grind .] theorem forTx_keeps {β : Type} {π : Db → β} {xs : List α} {step : α → TxM Unit}
    (h : ∀ x, Keeps π (step x)) : Keeps π (forTx xs step) := .forM h

@[grind .] theorem enqueueOutbox_keeps (body : OutboxBody) (createdAtMs : Int) :
    Keeps Db.core (enqueueOutbox operationId body createdAtMs) := by
  intro db
  simp only [enqueueOutbox, wp_bind, wp_get]
  split
  · split
    · rfl
    · split <;> rfl
  · rfl

@[grind .] theorem setOutboxStage_keeps (stage : OutboxStage) :
    Keeps Db.core (setOutboxStage operationId stage) := by
  intro db
  simp only [setOutboxStage, wp_bind, wp_get]
  split
  · rfl
  · split <;> rfl

@[grind .] theorem pendingOutboxReplay_keeps (limit : Nat) : Keeps Db.core (pendingOutboxReplay limit) :=
  fun _ => rfl

@[grind .] theorem replaceAuthoritativeConflicts_keeps : Keeps Db.core replaceAuthoritativeConflicts := by
  intro db
  simp only [replaceAuthoritativeConflicts, wp_bind, wp_get]
  split <;> rfl

theorem removeApplyJournal_exceptJournals :
    Keeps Db.exceptJournals (removeApplyJournal applyId) := .modify fun _ => rfl

theorem putApplyJournal_exceptJournals (record : ApplyJournalRecord) :
    Keeps Db.exceptJournals (putApplyJournal record) := by
  intro db
  simp only [putApplyJournal, wp_bind, wp_get]
  split
  · split
    · rfl
    · split <;> rfl
  · split <;> rfl

theorem setApplyFilesystemApplied_exceptJournals (receipt : ApplyReceipt) :
    Keeps Db.exceptJournals (setApplyFilesystemApplied applyId receipt) := by
  intro db
  simp only [setApplyFilesystemApplied, wp_bind, wp_get]
  split
  · rfl
  · split
    · split <;> rfl
    · split <;> rfl

theorem setApplyStage_exceptJournals (stage : ApplyStage) :
    Keeps Db.exceptJournals (setApplyStage applyId stage) := by
  intro db
  simp only [setApplyStage, wp_bind, wp_get]
  split
  · rfl
  · split
    · rfl
    · split <;> rfl

theorem commitJournal_exceptJournals (applyId : Option ApplyId) :
    Keeps Db.exceptJournals (commitJournal applyId) :=
  forTx_keeps fun applyId => setApplyStage_exceptJournals applyId _

@[grind .] theorem commitJournal_keeps (applyId : Option ApplyId) : Keeps Db.core (commitJournal applyId) :=
  (commitJournal_exceptJournals applyId).comp fun _ _ => Db.core_of_exceptJournals

@[grind .] theorem cleanupConflictResolution_keeps (conflictId : ConflictId) (cleanup : ConflictCleanup) :
    Keeps Db.core (cleanupConflictResolution conflictId cleanup) := by
  unfold cleanupConflictResolution
  grind

@[grind .] theorem applyConflictGenerationReplacement_keeps (plan : ConflictGenerationReplacementPlan) :
    Keeps Db.core (applyConflictGenerationReplacement plan) := by
  unfold applyConflictGenerationReplacement
  grind

@[grind .] theorem putConflict_keeps [Env] (conflict : ConflictRecord) : Keeps Db.core (putConflict conflict) := by
  intro db
  unfold putConflict
  split
  · rfl
  · split <;> rfl

@[grind .] theorem enqueueMutationAt_keeps [Env] (mutation : WorkspaceMutation) (createdAtMs : Int) :
    Keeps Db.core (enqueueMutationAt mutation createdAtMs) := by
  unfold enqueueMutationAt
  grind

end

/-! ## Calls without an effect on the core -/

section

variable {F α β : Type} {π : Engine F → β}

variable {E : SyncError → Engine F → Prop} {Q : α → Engine F → Prop} {body : TxM α} {engine : Engine F}

@[simp] theorem wp_transaction : wp (transaction body) Q E engine ↔
      wp body (fun a db => Q a { engine with db }) (fun e _ => E e engine) engine.db := by
  simp only [wp, transaction]
  cases body engine.db <;> rfl

theorem wp_transaction_of (h : wp body (fun a db => Q a { engine with db }) (fun _ _ => True) engine.db)
    (hE : ∀ e, E e engine) : wp (transaction body) Q E engine :=
  wp_transaction.mpr (wp_mono h (fun _ _ hQ => hQ) (fun e _ _ => hE e))

@[grind .] theorem transaction_keeps (h : Keeps Db.core body) : Keeps Engine.core (transaction (F := F) body) := by
  intro engine
  rw [wp_transaction]
  refine wp_mono (h engine.db) (fun _ db hdb => ?_) (fun _ _ _ => rfl)
  simp only [Engine.core, hdb]

theorem wp_readDb {check : Db → Except SyncError α} (hQ : ∀ a, check engine.db = .ok a → Q a engine)
    (hE : ∀ e, E e engine) : wp (readDb check) Q E engine := by
  simp only [wp, readDb]
  cases hcheck : check engine.db with
  | ok a => exact hQ a hcheck
  | error e => exact hE e

@[grind .] theorem readFiles_keeps (result : Except FsError α) : Keeps π (readFiles result) := by
  intro engine
  unfold readFiles
  split <;> rfl

@[grind .] theorem readDb_keeps (check : Db → Except SyncError α) : Keeps π (readDb check) := by
  intro engine
  simp only [readDb, wp]
  cases check engine.db <;> rfl

@[grind .] theorem ensureOpen_keeps : Keeps π (ensureOpen (F := F)) := by
  unfold ensureOpen
  grind

@[grind .] theorem requireValid_keeps (result : Except WorkspaceValidationError Unit) (error : SyncError) :
    Keeps π (requireValid result error) := by
  unfold requireValid
  grind

@[grind .] theorem requireThat_keeps (condition : Bool) (error : SyncError) :
    Keeps π (requireThat condition error) := by
  unfold requireThat
  grind

theorem Keeps.of_ledger [OfLedger π] {m : EngineM F α} (h : Keeps Engine.ledger m) : Keeps π m :=
  h.comp OfLedger.of_ledger

@[grind .] theorem writeFiles_keeps [OfLedger π] (operation : F → Except FsError α × F) :
    Keeps π (writeFiles operation) := by
  refine Keeps.of_ledger fun engine => ?_
  simp only [writeFiles, wp]
  obtain ⟨result, files⟩ := operation engine.files
  cases result <;> rfl

@[grind .] theorem resolutionStreamId_keeps (source : ConflictResolutionSource) :
    Keeps π (resolutionStreamId (F := F) source) := by
  unfold resolutionStreamId
  cases source with
  | live => exact .pure _
  | stream =>
    refine .bind .get fun engine => ?_
    split
    · exact .pure _
    · exact .throw _

variable [Env]

@[grind .] theorem validateIdentity_keeps (workspaceId : WorkspaceId) (clientId : ClientId) :
    Keeps π (validateIdentity workspaceId clientId) := by
  unfold validateIdentity
  grind

@[grind .] theorem nextOperationId_keeps [OfLedger π] : Keeps π (nextOperationId (F := F)) := by
  refine Keeps.of_ledger fun engine => ?_
  simp only [nextOperationId, wp_bind, wp_get]
  split <;> rfl

@[grind .] theorem nextTimestamp_keeps [OfLedger π] : Keeps π (nextTimestamp (F := F)) := by
  refine Keeps.of_ledger fun engine => ?_
  simp only [nextTimestamp, wp_bind, wp_get]
  split <;> rfl

end

/-! ## Observing -/

section

variable {F β : Type} {π : Engine F → β} [Filesystem F]

variable (path : WorkspacePath) (event : WorkspaceEventMessage) (observed : Option ObservedEntry)

@[grind .] theorem inspect_keeps : Keeps π (inspect path) := by
  unfold inspect
  grind

theorem stageWorkspaceEntry_keeps [StagingFree π] :
    Keeps π (writeFiles (Filesystem.stageWorkspaceEntry · path)) := by
  intro engine
  have hstaged := StagingFree.of_staged (π := π) engine path
  simp only [writeFiles, wp]
  cases hrun : Filesystem.stageWorkspaceEntry engine.files path with
  | mk result files =>
    rw [hrun] at hstaged
    cases result <;> exact hstaged

@[grind .] theorem desiredEntryFromObserved_keeps [StagingFree π] (observed : ObservedEntry) :
    Keeps π (desiredEntryFromObserved (F := F) observed) := by
  unfold desiredEntryFromObserved
  split
  · exact .pure _
  · exact .bind (stageWorkspaceEntry_keeps _) fun _ => .pure _

@[grind .] theorem observedContentHash_keeps [StagingFree π] (observed : ObservedEntry) :
    Keeps π (observedContentHash (F := F) observed) := by
  unfold observedContentHash
  grind

@[grind .] theorem observedMatchesPost_keeps [StagingFree π] (state : WorkspacePathState) (observed : Option ObservedEntry) :
    Keeps π (observedMatchesPost (F := F) state observed) := by
  unfold observedMatchesPost
  grind

@[grind .] theorem baselineMatchesObserved_keeps [StagingFree π] (baseline : Option WorkspacePathState)
    (observed : Option ObservedEntry) : Keeps π (baselineMatchesObserved (F := F) baseline observed) := by
  unfold baselineMatchesObserved
  grind

@[grind .] theorem contentAvailable_keeps (hash : WorkspaceContentHash) (size : Nat) :
    Keeps π (contentAvailable hash size) := by
  unfold contentAvailable
  grind

@[grind .] theorem missingContent_keeps
    (required : Option (WorkspaceContentHash × Nat)) : Keeps π (missingContent required) := by
  unfold missingContent
  grind

@[grind .] theorem statusForState_keeps (state : WorkspacePathState) :
    Keeps π (statusForState state) := by
  unfold statusForState
  grind

@[grind .] theorem desiredFromCurrent_keeps [StagingFree π] : Keeps π (desiredFromCurrent (F := F) path) := by
  unfold desiredFromCurrent
  grind

@[grind .] theorem expectedFromObserved_keeps [StagingFree π] :
    Keeps π (expectedFromObserved (F := F) observed) := by
  unfold expectedFromObserved
  grind

@[grind .] theorem observedForEvent_keeps : Keeps π (observedForEvent (F := F) event) := by
  unfold observedForEvent
  grind

omit [Filesystem F] in
theorem allM_keeps {checks : List (EngineM F Bool)}
    (h : ∀ check ∈ checks, Keeps π check) : Keeps π (allM checks) := by
  induction checks with
  | nil => exact .pure _
  | cons check rest ih =>
    unfold allM
    refine .bind (h check (by simp)) fun holds => ?_
    split
    · exact ih fun check hcheck => h check (by simp [hcheck])
    · exact .pure _

@[grind .] theorem eventPostMatches_keeps [StagingFree π] (states : List WorkspacePathState)
    (observed : List (WorkspacePath × Option ObservedEntry)) :
    Keeps π (eventPostMatches (F := F) states observed) := by
  refine allM_keeps fun check hcheck => ?_
  obtain ⟨state, -, rfl⟩ := List.mem_map.mp hcheck
  exact observedMatchesPost_keeps _ _

@[grind .] theorem eventBaselineMatches_keeps [StagingFree π] (previous : List (WorkspacePath × Option WorkspacePathState))
    (observed : List (WorkspacePath × Option ObservedEntry)) :
    Keeps π (eventBaselineMatches (F := F) previous observed) := by
  refine allM_keeps fun check hcheck => ?_
  obtain ⟨⟨path, state⟩, -, rfl⟩ := List.mem_map.mp hcheck
  exact baselineMatchesObserved_keeps _ _

@[grind .] theorem eventIsDiverged_keeps [StagingFree π] : Keeps π (eventIsDiverged (F := F) event) := by
  unfold eventIsDiverged
  grind

@[grind .] theorem operationForState_keeps [StagingFree π] (post : WorkspacePathState) (observed : Option ObservedEntry) :
    Keeps π (operationForState (F := F) post observed) := by
  unfold operationForState
  grind

@[grind .] theorem operationForEvent_keeps [StagingFree π] (observed : List (WorkspacePath × Option ObservedEntry)) :
    Keeps π (operationForEvent (F := F) event observed) := by
  unfold operationForEvent
  split
  · exact operationForState_keeps _ _
  · split
    · exact .throw _
    · split <;> grind

@[grind .] theorem scanComplete_keeps : Keeps π (scanComplete (F := F)) := by
  unfold scanComplete
  grind

end

/-! ## Local changes -/

section

variable {F β : Type} {π : Engine F → β} [Env]

variable (desired : DesiredOperation) (states : PathStates)

@[grind .] theorem nextMutations_keeps [OfLedger π] (desired : List DesiredOperation) (states : PathStates) :
    Keeps π (nextMutations (F := F) desired states) := by
  induction desired with
  | nil => exact .pure _
  | cons operation rest ih =>
    unfold nextMutations
    grind

@[grind .] theorem recordDesired_keeps : Keeps Engine.core (recordDesired (F := F) desired) := by
  unfold recordDesired
  refine .bind .get fun engine => ?_
  dsimp only
  split
  · -- a row of the outbox overlaps
    split
    · exact .pure _
    · split <;> grind
  · split
    · grind
    · split
      · grind
      · refine .bind nextOperationId_keeps fun operationId => .bind (requireValid_keeps _ _) fun _ => ?_
        grind

@[grind .] theorem deferDesired_keeps : Keeps Engine.core (deferDesired (F := F) desired) := by
  unfold deferDesired
  grind

@[grind .] theorem queueDesiredWithStates_keeps :
    Keeps Engine.core (queueDesiredWithStates (F := F) desired states) := by
  unfold queueDesiredWithStates
  refine .bind .get fun engine => ?_
  dsimp only
  split
  · split
    · exact .pure _
    · exact .bind (.mapM fun _ => nextTimestamp_keeps) fun _ => by grind
  · grind

@[grind .] theorem materializeLocalIntent_keeps (conflictPaths : List WorkspacePath) (states : PathStates)
    (record : LocalIntentRecord) :
    Keeps Engine.core (materializeLocalIntent (F := F) conflictPaths states record) := by
  unfold materializeLocalIntent
  grind

@[grind .] theorem materializeLocalIntents_keeps : Keeps Engine.core (materializeLocalIntents (F := F)) := by
  unfold materializeLocalIntents
  grind

section

omit [Env]

@[grind .] theorem blobUploaded_keeps (operationId : OperationId) :
    Keeps Engine.core (blobUploaded (F := F) operationId) := by
  unfold blobUploaded
  grind

theorem outstandingMutation_keeps (operationId : OperationId) : Keeps π (outstandingMutation operationId) := by
  unfold outstandingMutation
  grind

@[grind .] theorem prepareConnectionAttempt_keeps : Keeps Engine.core (prepareConnectionAttempt (F := F)) := by
  unfold prepareConnectionAttempt
  grind

end

end

section

variable {F β : Type} {π : Engine F → β} [Filesystem F] [Env]

omit [Env] in
@[grind .] theorem desiredForObserved_keeps [StagingFree π] (desired : List DesiredOperation)
    (observed : List (WorkspacePath × Option ObservedEntry)) :
    Keeps π (desiredForObserved (F := F) desired observed) := by
  induction observed generalizing desired with
  | nil => exact .pure _
  | cons first rest ih =>
    obtain ⟨path, observed⟩ := first
    unfold desiredForObserved
    grind

@[grind .] theorem preservedReplacements_keeps [OfLedger π] (event : WorkspaceEventMessage)
    (observed : List (WorkspacePath × Option ObservedEntry)) (postStates : List WorkspacePathState) :
    Keeps π (preservedReplacements (F := F) event observed postStates) := by
  unfold preservedReplacements
  grind

omit [Env] in
@[grind .] theorem independentIntentsForRenameScope_keeps [StagingFree π] (scopes : List WorkspacePath) :
    Keeps π (independentIntentsForRenameScope (F := F) scopes) := by
  unfold independentIntentsForRenameScope
  grind

omit [Env] in
@[grind .] theorem replacementIntents_keeps [StagingFree π] (db : Db) (mutation : WorkspaceMutation) (desired : DesiredOperation) :
    Keeps π (replacementIntents (F := F) db mutation desired) := by
  unfold replacementIntents
  grind

@[grind .] theorem conflictGenerationReplacementPlan_keeps [OfLedger π] (old : WorkspaceConflictCreatedMessage)
    (replacement : Option WorkspaceConflictCreatedMessage) :
    Keeps π (conflictGenerationReplacementPlan (F := F) old replacement) := by
  unfold conflictGenerationReplacementPlan
  grind

@[grind .] theorem replacementPlans_keeps [OfLedger π] (conflicts : List ConflictRecord) :
    Keeps π (replacementPlans (F := F) conflicts) := by
  induction conflicts with
  | nil => exact .pure _
  | cons conflict rest ih =>
    unfold replacementPlans
    grind

@[grind .] theorem authoritativeConflictGenerationReplacementPlans_keeps [OfLedger π] :
    Keeps π (authoritativeConflictGenerationReplacementPlans (F := F)) := by
  unfold authoritativeConflictGenerationReplacementPlans
  grind

@[grind .] theorem replaceConflict_keeps (message : WorkspaceConflictCreatedMessage) (existing : ConflictRecord) :
    Keeps Engine.core (replaceConflict (F := F) message existing) := by
  unfold replaceConflict
  split
  · grind
  · refine .bind (readDb_keeps _) fun prior => .bind (conflictGenerationReplacementPlan_keeps _ _) fun plan => ?_
    grind

omit [Env] in
@[grind .] theorem scanChanges_keeps [StagingFree π] : Keeps π (scanChanges (F := F)) := by
  unfold scanChanges
  grind

variable (change : FsChange) (request : WorkspaceConflictResolvedRequest)

omit [Env] in
@[grind .] theorem admitLocalChange_keeps : Keeps π (admitLocalChange (F := F) change) := by
  unfold admitLocalChange pathIsSynced
  grind

omit [Env] in
@[grind .] theorem desiredFromChange_keeps [StagingFree π] : Keeps π (desiredFromChange (F := F) change) := by
  unfold desiredFromChange
  grind

@[grind .] theorem recordLocalChange_keeps : Keeps Engine.core (recordLocalChange (F := F) change) := by
  unfold recordLocalChange recordOrDefer
  grind

@[grind .] theorem recordPass_keeps (changes : List FsChange) :
    Keeps Engine.core (recordPass (F := F) changes) := by
  induction changes with
  | nil => exact .pure _
  | cons change rest ih => cases change <;> (unfold recordPass; grind)

theorem recordLocalChanges_keeps (changes : List FsChange) :
    Keeps Engine.core (recordLocalChanges (F := F) changes) := by
  unfold recordLocalChanges
  grind

/-! ## Resolutions -/

omit [Filesystem F] in
@[grind .] theorem storeNow_keeps [OfLedger π] : Keeps π (storeNow (F := F)) :=
  Keeps.of_ledger fun _ => rfl

omit [Filesystem F] [Env] in
@[grind .] theorem setConflictStatus_keeps (conflictId : ConflictId) (status : ConflictStatus) :
    Keeps Db.core (setConflictStatus conflictId status) := .modify fun _ => rfl

omit [Filesystem F] in
@[grind .] theorem enqueueConflictResolution_keeps (createdAtMs : Int) :
    Keeps Db.core (enqueueConflictResolution request createdAtMs) := by
  unfold enqueueConflictResolution
  grind

omit [Env] in
@[grind .] theorem conflictResolutionProposal_keeps [StagingFree π] (created : WorkspaceConflictCreatedMessage)
    (choice : WorkspaceConflictChoice) : Keeps π (conflictResolutionProposal (F := F) created choice) := by
  unfold conflictResolutionProposal
  cases choice with
  | current => exact readDb_keeps _
  | incoming => exact readDb_keeps _
  | delete => exact .pure _
  | merged =>
    refine .bind (inspect_keeps _) fun observed => ?_
    split
    · exact .throw _
    · exact .bind (stageWorkspaceEntry_keeps _) fun _ => .pure _

omit [Env] in
@[grind .] theorem candidateForRequest_keeps (conflict : ConflictRecord) (request : WorkspaceConflictResolvedRequest) :
    Keeps π (candidateForRequest (F := F) conflict request) := by
  unfold candidateForRequest
  grind

theorem queueConflictResolution_keeps : Keeps Engine.core (queueConflictResolution (F := F) request) := by
  refine .bind ensureOpen_keeps fun _ => .bind (requireValid_keeps _ _) fun _ =>
    .bind (validateIdentity_keeps _ _) fun _ => .bind .get fun engine => ?_
  dsimp only
  split
  · exact .throw _
  refine .bind (readDb_keeps _) fun stored => ?_
  split
  · exact .pure _
  · exact .bind (candidateForRequest_keeps _ _) fun _ => .bind storeNow_keeps fun _ =>
      transaction_keeps (.bind (enqueueConflictResolution_keeps _ _) fun _ => putConflict_keeps _)

theorem repeatResolution_keeps (conflict : ConflictRecord) (proposal : ConflictResolutionProposal) :
    Keeps Engine.core (repeatResolution (F := F) conflict proposal) := by
  refine .bind (readDb_keeps _) fun existing => ?_
  split
  · exact .throw _
  split
  · exact .bind (queueConflictResolution_keeps _) fun _ => .pure _
  · exact .throw _

theorem resolveConflict_keeps (conflictId : ConflictId) (conflictRevision : WorkspaceConflictRevision)
    (choice : WorkspaceConflictChoice) :
    Keeps Engine.core (resolveConflict (F := F) conflictId conflictRevision choice) := by
  refine .bind ensureOpen_keeps fun _ => .bind .get fun engine => ?_
  dsimp only
  split
  · exact .throw _
  refine .bind (readDb_keeps _) fun created => ?_
  split
  · exact .throw _
  split
  · exact .throw _
  · exact .throw _
  · exact .throw _
  · exact .bind (conflictResolutionProposal_keeps _ _) fun _ => repeatResolution_keeps _ _
  · refine .bind (conflictResolutionProposal_keeps _ _) fun proposal => ?_
    split
    · exact .throw _
    · exact .bind nextOperationId_keeps fun _ => .bind (queueConflictResolution_keeps _) fun _ => .pure _

omit [Filesystem F] in
theorem conflictResolutionAccepted_keeps (message : WorkspaceConflictResolvedMessage) :
    Keeps Engine.core (conflictResolutionAccepted (F := F) message) := by
  unfold conflictResolutionAccepted
  grind

omit [Filesystem F] [Env] in
theorem conflictResolutionRejected_keeps (operationId : OperationId) (code : WorkspaceV2ErrorCode) :
    Keeps Engine.core (conflictResolutionRejected (F := F) operationId code) := by
  refine .bind ensureOpen_keeps fun _ => .bind .get fun engine => ?_
  dsimp only
  split
  · split
    · exact .pure _
    · exact .throw _
  refine .bind (readDb_keeps _) fun request => ?_
  have hstale : Keeps Engine.core (do
      transaction (F := F) (do
        removeOutbox operationId
        setConflictStatus request.conflictId .refreshRequired)
      pure ([] : List SyncCommand)) :=
    .bind (transaction_keeps (.bind (removeOutbox_keeps _) fun _ => setConflictStatus_keeps _ _)) fun _ => .pure _
  split
  · split
    · exact .throw _
    · exact .bind (transaction_keeps (setOutboxStage_keeps _ _)) fun _ => .pure _
  · exact hstale
  · exact hstale
  · exact .pure _

/-! ## The journal around a write to the workspace -/

omit [Filesystem F] [Env] in
theorem transaction_exceptJournals {α : Type} {body : TxM α} (h : Keeps Db.exceptJournals body) :
    Keeps Engine.exceptJournals (transaction (F := F) body) := by
  intro engine
  rw [wp_transaction]
  refine wp_mono (h engine.db) (fun _ db hdb => ?_) (fun _ _ _ => rfl)
  simp only [Engine.exceptJournals, hdb, Engine.ledger]

@[grind .] theorem applyWithJournal_keeps [JournalFree π] (streamId : StreamId) (itemKind : ApplyItemKind)
    (itemKey : ApplyItemKey) (operationSpec : RemoteApplyOperation) (postStates : List WorkspacePathState)
    (commitPlan : ApplyCommitPlan) (operation : FsOperation) : Keeps π (applyWithJournal (F := F) streamId itemKind
      itemKey operationSpec postStates commitPlan operation) := by
  refine Keeps.comp (fun engine => ?_) JournalFree.of_exceptJournals
  simp only [applyWithJournal, wp_bind, wp_get, wp_set]
  have hrest : ∀ applyId, Keeps Engine.exceptJournals (do
      transaction (putApplyJournal ⟨applyId, streamId, itemKind, itemKey, commitPlan.namespace, operationSpec,
        operation, commitPlan, postStates, none, .prepared⟩)
      transaction (setApplyStage applyId .filesystemStarted)
      let receipt ← writeFiles (F := F) (Filesystem.apply · applyId operation)
      transaction (setApplyFilesystemApplied applyId receipt)
      pure receipt) := by
    intro applyId
    refine .bind (transaction_exceptJournals (putApplyJournal_exceptJournals _)) fun _ => ?_
    refine .bind (transaction_exceptJournals (setApplyStage_exceptJournals _ _)) fun _ => ?_
    refine .bind (writeFiles_keeps _) fun receipt => ?_
    exact .bind (transaction_exceptJournals (setApplyFilesystemApplied_exceptJournals _ _)) fun _ => .pure _
  have hrun := hrest (Env.uuid engine.draws) { engine with draws := engine.draws + 1 }
  simp only [wp_bind] at hrun
  exact hrun

omit [Env] in
@[grind .] theorem finishApplyJournal_keeps [JournalFree π] (receipt : ApplyReceipt) :
    Keeps π (finishApplyJournal (F := F) receipt) := by
  refine Keeps.comp ?_ JournalFree.of_exceptJournals
  unfold finishApplyJournal
  refine .bind (writeFiles_keeps _) fun _ => ?_
  exact .bind (transaction_exceptJournals (setApplyStage_exceptJournals _ _)) fun _ =>
    transaction_exceptJournals (removeApplyJournal_exceptJournals _)

end

end Lumio.Sync
