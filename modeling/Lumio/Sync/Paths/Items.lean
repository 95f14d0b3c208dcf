import Lumio.Sync.Paths.Writes
import Lumio.Sync.Lemmas.Steps

/-!
# What the processing of a message writes

The engine writes path states when it processes a reply to a mutation, a live event, an item of the stored
stream or the resolution of a conflict. Each writes the states its message reports, unless a receipt or a
newer generation of the conflict settles the message beforehand.
-/

namespace Lumio.Sync

open Lumio.Protocol Lumio.Fs Prog

/-- The states a rejection reports: only a stale mutation is answered with the current state. -/
def reportedStates (message : WorkspaceMutationRejectedMessage) : List WorkspacePathState :=
  if message.reason = .staleBaseRevision then message.currentPathState.toList else []

/-- The path a rejection drops: that of a stale mutation whose path the server does not know. -/
def Db.forgottenPaths (db : Db) (message : WorkspaceMutationRejectedMessage) : List WorkspacePath :=
  if message.reason = .staleBaseRevision ∧ message.currentPathState.isNone then
    (((db.outbox.lookup message.operationId).bind (·.mutation?)).map (·.path)).toList
  else []

section

variable [Env]

def Db.settlesResolution (db : Db) (message : WorkspaceConflictResolvedMessage) : Bool :=
  match db.inboundConflictResolutionReceiptMatch message with
  | .ok .exact => true
  | _ =>
    match db.conflictCleanupOperations message with
    | .ok cleanup => cleanup.preserveNewerGeneration
    | .error _ => false

def Processing.posts (db : Db) : Processing → List WorkspacePathState
  | .accepted message => if db.mutationAcceptanceMatch message = .ok .exact then [] else acceptedStates message
  | .rejected message => reportedStates message
  | .liveEvent message | .streamEvent message =>
    if db.eventReceiptMatch message = .ok .exact then [] else eventPostStates message
  | .snapshotEntry message => [message.entry]
  | .resolution message _ => if db.settlesResolution message then [] else [message.pathState]

def Processing.drops (db : Db) : Processing → List WorkspacePath
  | .rejected message => db.forgottenPaths message
  | _ => []

end

/-! ## Events -/

section

variable {F : Type} [Env] {posts : List WorkspacePathState} {drops : List WorkspacePath}

omit [Env] in
@[grind .] theorem markLiveEventApplied_pathStates (revision : WorkspaceRevision) :
    Writes posts drops (markLiveEventApplied (F := F) revision) := by
  unfold markLiveEventApplied
  refine .bind (.of_core .get) fun engine => ?_
  dsimp only
  split
  · exact .of_core (.pure _)
  · exact .transaction (.bind (.onlyIf (.of_content (setLastAppliedRevision_content _)) _) fun _ =>
      .onlyIf (.of_content (setPendingAck_content _)) _)

variable (event : WorkspaceEventMessage) (removeOutbox_ : Bool) (applyId : Option ApplyId)

omit [Env] in
@[grind .] theorem commitLiveEventWithJournal_writes :
    Writes posts drops (commitLiveEventWithJournal (F := F) event posts removeOutbox_ applyId) := by
  unfold commitLiveEventWithJournal
  grind

@[grind .] theorem commitEventWithJournal_writes (status : StreamItemStatus) (removeOutbox_ : Bool)
    (applyId : Option ApplyId) :
    Writes posts drops (commitEventWithJournal (F := F) event status posts removeOutbox_ applyId) := by
  unfold commitEventWithJournal
  grind

@[grind .] theorem commitEntryWithJournal_writes (entry : WorkspaceSnapshotEntryMessage) (status : StreamItemStatus)
    (applyId : Option ApplyId) :
    Writes posts drops (commitEntryWithJournal (F := F) entry status posts applyId) := by
  unfold commitEntryWithJournal
  grind

variable [Filesystem F]

theorem preserved_writes {rest : TxM Unit} (hrest : Keeps Db.content rest)
    (observed : List (WorkspacePath × Option ObservedEntry)) (removeOutbox_ : Bool) :
    Writes (F := F) posts drops (do
      let replacements ← preservedReplacements event observed posts
      transaction do
        forTx posts putPathState
        recordMutationAppliedOperation event.originClientId event.operationId event.revision
          (appliedEventDigest event) event.mutation
        Prog.onlyIf removeOutbox_ (removeOutbox event.operationId)
        forTx replacements.settledPaths removeLocalIntent
        forTx replacements.mutations fun (mutation, timestamp) => enqueueMutationAt mutation timestamp
        rest) := by
  refine .bind (.of_core (preservedReplacements_keeps _ _ _)) fun replacements => ?_
  refine .transaction (.bind .putPosts fun _ => .bind (.of_keeps (recordMutationAppliedOperation_pathStates _ _ _ _ _))
    fun _ => .bind (.onlyIf (.of_core (removeOutbox_keeps _)) _) fun _ => ?_)
  refine .bind (.of_core (forTx_keeps removeLocalIntent_keeps)) fun _ => ?_
  exact .bind (.of_core (forTx_keeps fun next => enqueueMutationAt_keeps next.1 next.2)) fun _ => .of_content hrest

omit [Env] [Filesystem F] in
theorem writes_composes : Composes (Engine.core (F := F)) (fun {_} m => Writes posts drops m) := ⟨.of_core, .bind⟩

theorem applyLiveEvent_writes : Writes (eventPostStates event) drops (applyLiveEvent (F := F) event) :=
  writes_composes.applyLiveEvent (markLiveEventApplied_pathStates _) (fun _ _ => commitLiveEventWithJournal_writes _ _ _)
    fun _ _ => preserved_writes _ (.bind (setLastAppliedRevision_content _) fun _ => setPendingAck_content _) _ _

theorem applyEvent_writes : Writes (eventPostStates event) drops (applyEvent (F := F) event) :=
  writes_composes.applyEvent (.transaction (.of_content (putStreamEvent_content _ _)))
    (fun _ _ _ => commitEventWithJournal_writes _ _ _ _) fun _ _ =>
      preserved_writes _ (.bind (putStreamEvent_content _ _) fun _ => .pure _) _ _

theorem applySnapshotEntry_writes (entry : WorkspaceSnapshotEntryMessage) :
    Writes [entry.entry] drops (applySnapshotEntry (F := F) entry) :=
  writes_composes.applySnapshotEntry (fun _ _ => commitEntryWithJournal_writes _ _ _)
    fun _ _ => .of_core (queueDesiredWithStates_keeps _ _)

end

/-! ## Resolutions -/

section

variable {F : Type} [Env] {posts : List WorkspacePathState} {drops : List WorkspacePath}

omit [Env] in
theorem recordConflictAppliedOperation_pathStates (originClientId : ClientId) (operationId : OperationId)
    (revision : WorkspaceRevision) (bodyDigest : WorkspaceConflictResolvedMessage) :
    Keeps Db.pathStates (recordConflictAppliedOperation originClientId operationId revision bodyDigest) :=
  recordAppliedOperation_pathStates _

variable {s : Engine F} (message : WorkspaceConflictResolvedMessage) (source : ConflictResolutionSource)

theorem commitConflictResolvedWithJournal_writes (status : StreamItemStatus) (source : ConflictResolutionSource)
    (applyId : Option ApplyId) :
    Writes [message.pathState] drops
      (commitConflictResolvedWithJournal (F := F) message status source applyId) := by
  unfold commitConflictResolvedWithJournal
  refine .bind (.of_core (readDb_keeps _)) fun _ => .bind (.of_core (readDb_keeps _)) fun cleanup => ?_
  refine .transaction (.bind (.onlyIf (.putPathState (by simp)) _) fun _ => ?_)
  refine .bind (.of_keeps (recordConflictAppliedOperation_pathStates _ _ _ _)) fun _ => ?_
  refine .bind (.of_core (cleanupConflictResolution_keeps _ _)) fun _ => ?_
  exact .bind (.of_content (commitResolutionSource_content _ _ _ _)) fun _ => .of_core (commitJournal_keeps _)

theorem settleExactConflictResolutionReplay_writes :
    Writes posts drops (settleExactConflictResolutionReplay (F := F) message source) := by
  unfold settleExactConflictResolutionReplay
  refine .bind (.of_core (readDb_keeps _)) fun cleanup => .bind (.of_core .get) fun engine => ?_
  refine .transaction (.bind (.onlyIf (.of_core (cleanupConflictResolution_keeps _ _)) _) fun _ => ?_)
  exact .bind (.onlyIf (.of_core (forTx_keeps removeOutbox_keeps)) _) fun _ =>
    .of_content (settleResolutionSource_content _ _ _)

theorem commitSupersededConflictResolution_writes (cleanup : ConflictCleanup) :
    Writes posts drops (commitSupersededConflictResolution (F := F) message cleanup) :=
  .transaction (.bind (.of_keeps (recordConflictAppliedOperation_pathStates _ _ _ _)) fun _ =>
    .bind (.of_core (cleanupConflictResolution_keeps _ _)) fun _ =>
      .bind (.of_content (putStreamConflictResolved_content _ _)) fun _ => .of_core (.pure _))

omit [Env] in
theorem commitSupersededLiveConflictResolution_writes (cleanup : ConflictCleanup) :
    Writes posts drops (commitSupersededLiveConflictResolution (F := F) message cleanup) := by
  refine .bind (.of_core .get) fun engine => .transaction ?_
  refine .bind (.of_keeps (recordConflictAppliedOperation_pathStates _ _ _ _)) fun _ =>
    .bind (.of_core (cleanupConflictResolution_keeps _ _)) fun _ => .of_content ?_
  exact .bind (.onlyIf (setLastAppliedRevision_content _) _) fun _ => .onlyIf (setPendingAck_content _) _

variable [Filesystem F]

theorem applyConflictResolvedFrom_writes :
    Writes [message.pathState] drops (applyConflictResolvedFrom (F := F) message source) :=
  writes_composes.applyConflictResolvedFrom (settleExactConflictResolutionReplay_writes _ _)
    (fun _ _ => commitSupersededConflictResolution_writes _ _)
    (fun _ _ => commitSupersededLiveConflictResolution_writes _ _)
    (fun _ _ => commitConflictResolvedWithJournal_writes _ _ _ _)
    fun _ _ => .of_core (queueDesiredWithStates_keeps _ _)

/-! ## Replies to mutations -/

omit [Filesystem F] in
theorem mutationAccepted_writes (accepted : WorkspaceMutationAcceptedMessage) :
    Writes (acceptedStates accepted) drops (mutationAccepted (F := F) accepted) := by
  unfold mutationAccepted
  refine .bind (.of_core ensureOpen_keeps) fun _ => .bind (.of_core (requireValid_keeps _ _)) fun _ => ?_
  refine .bind (.of_core (readDb_keeps _)) fun receiptMatch => .bind (.of_core (validateIdentity_keeps _ _)) fun _ => ?_
  split
  · exact .of_core (.pure _)
  refine .bind (.of_core (outstandingMutation_keeps _)) fun mutation => .bind (.of_core (readDb_keeps _)) fun _ => ?_
  refine .bind (.of_core .get) fun engine => .bind (.of_core (nextMutations_keeps _ _)) fun next => ?_
  refine .bind (.transaction ?_) fun _ => .of_core (.pure _)
  refine .bind .putPosts fun _ => .bind (.of_core (removeOutbox_keeps _)) fun _ => ?_
  refine .bind (.of_keeps (recordMutationAppliedOperation_pathStates _ _ _ _ _)) fun _ => ?_
  exact .bind (.of_core (forTx_keeps removeLocalIntent_keeps)) fun _ =>
    .of_core (forTx_keeps fun next => enqueueMutationAt_keeps next.1 next.2)

omit [Filesystem F] in
theorem reconcileStale_writes (mutation : WorkspaceMutation) (current : Option WorkspacePathState)
    (hdrops : current = none → mutation.path ∈ drops) :
    Writes current.toList drops (reconcileStale (F := F) mutation current) := by
  unfold reconcileStale
  split
  · exact .of_core (.throw _)
  refine .bind (.of_core .get) fun engine => .bind (.of_core (nextMutations_keeps _ _)) fun next => ?_
  refine .transaction (.bind ?_ fun _ => .bind (.of_core (removeOutbox_keeps _)) fun _ =>
    .bind (.of_core (forTx_keeps removeLocalIntent_keeps)) fun _ =>
      .of_core (forTx_keeps fun next => enqueueMutationAt_keeps next.1 next.2))
  cases current with
  | none => exact .removePathState (hdrops rfl)
  | some state => exact .putPathState (by simp)

omit [Filesystem F] [Env] in
theorem wp_outstandingMutation {operationId : OperationId} {Q : WorkspaceMutation → Engine F → Prop}
    {E : SyncError → Engine F → Prop}
    (hQ : ∀ mutation, (s.db.outbox.lookup operationId).bind (·.mutation?) = some mutation → Q mutation s)
    (hE : ∀ e, E e s) : wp (outstandingMutation operationId) Q E s := by
  simp only [outstandingMutation, wp_bind, wp_get]
  split
  · exact hE _
  rename_i record hrecord
  split
  · exact hE _
  · rename_i mutation hmutation
    exact hQ mutation (by rw [hrecord]; exact hmutation)

omit [Filesystem F] in
theorem mutationRejected_writes (rejected : WorkspaceMutationRejectedMessage) (s : Engine F) :
    wp (mutationRejected rejected)
      (fun _ t => Rewrites (reportedStates rejected) (s.db.forgottenPaths rejected) s.db.pathStates t.db.pathStates)
      (fun _ t => Rewrites (reportedStates rejected) (s.db.forgottenPaths rejected) s.db.pathStates t.db.pathStates)
      s := by
  have same : Rewrites (reportedStates rejected) (s.db.forgottenPaths rejected) s.db.pathStates s.db.pathStates :=
    .of_eq rfl
  unfold mutationRejected
  refine Keeps.wp_check ensureOpen_keeps (fun _ => ?_) fun _ => same
  refine Keeps.wp_check (requireValid_keeps _ _) (fun _ => ?_) fun _ => same
  refine Keeps.wp_check (validateIdentity_keeps _ _) (fun _ => ?_) fun _ => same
  split
  · exact same
  rw [wp_bind]
  refine wp_outstandingMutation (fun mutation hmutation => ?_) fun _ => same
  split
  · split
    · exact same
    · exact (Writes.of_core (transaction_keeps (setOutboxStage_keeps _ _))) s
  · exact (Writes.of_core (transaction_keeps (setOutboxStage_keeps _ _))) s
  · -- only here the reported state is taken over
    rename_i hreason
    have hposts : reportedStates rejected = rejected.currentPathState.toList := by
      simp only [reportedStates, hreason, if_true]
    rw [hposts]
    refine reconcileStale_writes mutation rejected.currentPathState (fun hnone => ?_) s
    simp [Db.forgottenPaths, hreason, hnone, hmutation]
  · exact same

omit [Filesystem F] in
theorem mutationAccepted_exact {accepted : WorkspaceMutationAcceptedMessage}
    (hexact : s.db.mutationAcceptanceMatch accepted = .ok .exact) :
    wp (mutationAccepted accepted) (fun _ t => t = s) (fun _ t => t = s) s := by
  unfold mutationAccepted
  refine Keeps.wp_check ensureOpen_keeps (fun _ => ?_) fun _ => rfl
  refine Keeps.wp_check (requireValid_keeps _ _) (fun _ => ?_) fun _ => rfl
  rw [wp_bind]
  refine wp_readDb (fun receiptMatch hmatch => ?_) fun _ => rfl
  have hreceipt : receiptMatch = .exact := by
    rw [hexact] at hmatch
    cases hmatch
    rfl
  subst hreceipt
  exact Keeps.wp_check (validateIdentity_keeps _ _) (fun _ => rfl) fun _ => rfl

theorem applyLiveEvent_exact {event : WorkspaceEventMessage} (hexact : s.db.eventReceiptMatch event = .ok .exact) :
    wp (applyLiveEvent event) (fun _ t => Rewrites posts drops s.db.pathStates t.db.pathStates)
      (fun _ t => Rewrites posts drops s.db.pathStates t.db.pathStates) s := by
  unfold applyLiveEvent
  simp only [wp_bind, wp_get]
  refine wp_readDb (fun receiptMatch hmatch => ?_) fun _ => .of_eq rfl
  rw [hexact] at hmatch
  cases hmatch
  exact markLiveEventApplied_pathStates _ s

theorem applyEvent_exact {event : WorkspaceEventMessage} (hexact : s.db.eventReceiptMatch event = .ok .exact) :
    wp (applyEvent event) (fun _ t => Rewrites posts drops s.db.pathStates t.db.pathStates)
      (fun _ t => Rewrites posts drops s.db.pathStates t.db.pathStates) s := by
  unfold applyEvent
  simp only [wp_bind, wp_get]
  refine wp_readDb (fun receiptMatch hmatch => ?_) fun _ => .of_eq rfl
  rw [hexact] at hmatch
  cases hmatch
  exact (Writes.bind (.transaction (.of_content (putStreamEvent_content _ _))) fun _ => .of_core (.pure _)) s

theorem applyConflictResolvedFrom_settled {message : WorkspaceConflictResolvedMessage}
    {source : ConflictResolutionSource} (hsettled : s.db.settlesResolution message = true) :
    wp (applyConflictResolvedFrom message source) (fun _ t => Rewrites posts drops s.db.pathStates t.db.pathStates)
      (fun _ t => Rewrites posts drops s.db.pathStates t.db.pathStates) s := by
  unfold applyConflictResolvedFrom
  rw [wp_bind]
  refine wp_readDb (fun receiptMatch hmatch => ?_) fun _ => .of_eq rfl
  split
  · exact settleExactConflictResolutionReplay_writes _ _ s
  rename_i hreceipt
  rw [wp_bind]
  refine wp_readDb (fun cleanup hcleanup => ?_) fun _ => .of_eq rfl
  have hnewer : cleanup.preserveNewerGeneration = true := by
    cases receiptMatch with
    | exact => exact absurd rfl hreceipt
    | missing => simpa only [Db.settlesResolution, hmatch, hcleanup] using hsettled
  simp only [wp_bind, wp_get, hnewer, if_true]
  cases source with
  | stream => exact commitSupersededConflictResolution_writes _ _ s
  | live => exact commitSupersededLiveConflictResolution_writes _ _ s

theorem Processing.run_writes (item : Processing) (s : Engine F) :
    wp item.run
      (fun _ t => Rewrites (item.posts s.db) (item.drops s.db) s.db.pathStates t.db.pathStates)
      (fun _ t => Rewrites (item.posts s.db) (item.drops s.db) s.db.pathStates t.db.pathStates) s := by
  cases item with
  | accepted message =>
    rw [Processing.run, wp_bind]
    by_cases hexact : s.db.mutationAcceptanceMatch message = .ok .exact
    · exact wp_mono (mutationAccepted_exact hexact) (fun _ t ht => .of_eq (by rw [ht]))
        (fun _ t ht => .of_eq (by rw [ht]))
    · simp only [Processing.posts, hexact, if_false]
      exact mutationAccepted_writes message s
  | rejected message => exact mutationRejected_writes message s
  | liveEvent message =>
    by_cases hexact : s.db.eventReceiptMatch message = .ok .exact
    · exact applyLiveEvent_exact hexact
    · simp only [Processing.posts, hexact, if_false]
      exact applyLiveEvent_writes message s
  | streamEvent message =>
    by_cases hexact : s.db.eventReceiptMatch message = .ok .exact
    · exact applyEvent_exact hexact
    · simp only [Processing.posts, hexact, if_false]
      exact applyEvent_writes message s
  | snapshotEntry message => exact applySnapshotEntry_writes message s
  | resolution message source =>
    by_cases hsettled : s.db.settlesResolution message = true
    · exact applyConflictResolvedFrom_settled hsettled
    · simp only [Processing.posts, hsettled, Bool.false_eq_true, if_false]
      exact applyConflictResolvedFrom_writes message source s

end

end Lumio.Sync
