import Lumio.Sync.Ack.Calls

/-!
# The live queue and the turn of the sources

Only the arrival of a live item, the work loop and the start of a stream touch the live queue, its byte counter
and the source that comes first in the next call. All else leaves them alone.
-/

namespace Lumio.Sync

open Lumio.Protocol Lumio.Fs Prog

/-- The live queue, its byte counter, and the source that comes first in the next call. -/
structure Feed where
  pendingLiveEvents : List PendingLiveItem
  pendingLiveSerializedBytes : Nat
  nextInboundSource : InboundWorkSource

def Engine.feed {F : Type} (engine : Engine F) : Feed :=
  ⟨engine.pendingLiveEvents, engine.pendingLiveSerializedBytes, engine.nextInboundSource⟩

section

variable {F α : Type}

theorem feed_of_core {s t : Engine F} (h : s.core = t.core) : s.feed = t.feed := by
  have hfeed : ∀ engine : Engine F, engine.feed = engine.core.feed := fun _ => rfl
  rw [hfeed s, hfeed t, h]

instance : OfLedger (Engine.feed (F := F)) where
  of_ledger s t h := by
    have hfeed : ∀ engine : Engine F, engine.feed = engine.ledger.feed := fun _ => rfl
    rw [hfeed s, hfeed t, h]

instance : JournalFree (Engine.feed (F := F)) where
  of_exceptJournals s t h := feed_of_core (JournalFree.of_exceptJournals s t h)

@[grind .] theorem keeps_feed {m : EngineM F α} (h : Keeps Engine.core m) : Keeps Engine.feed m :=
  h.comp fun _ _ hst => feed_of_core hst

@[grind .] theorem transaction_feed (body : TxM α) : Keeps Engine.feed (transaction (F := F) body) := by
  intro engine
  simp only [transaction, wp]
  cases body engine.db <;> rfl

/-! ## Replies to mutations -/

variable [Env]

@[grind .] theorem reconcileStale_feed (mutation : WorkspaceMutation) (current : Option WorkspacePathState) :
    Keeps Engine.feed (reconcileStale (F := F) mutation current) := by
  unfold reconcileStale
  split
  · exact .throw _
  · exact .bind .get fun _ => .bind (nextMutations_keeps _ _) fun _ => transaction_feed _

@[grind .] theorem mutationRejected_feed (rejected : WorkspaceMutationRejectedMessage) :
    Keeps Engine.feed (mutationRejected (F := F) rejected) := by
  unfold mutationRejected
  refine .bind ensureOpen_keeps fun _ => .bind (requireValid_keeps _ _) fun _ =>
    .bind (validateIdentity_keeps _ _) fun _ => ?_
  split
  · exact .throw _
  refine .bind (outstandingMutation_keeps _) fun mutation => ?_
  cases rejected.reason with
  | blobRequired => grind
  | conflictCreated => exact transaction_feed _
  | staleBaseRevision => exact reconcileStale_feed _ _
  | operationReused => exact .throw _

@[grind .] theorem mutationAccepted_feed (accepted : WorkspaceMutationAcceptedMessage) :
    Keeps Engine.feed (mutationAccepted (F := F) accepted) := by
  unfold mutationAccepted
  refine .bind ensureOpen_keeps fun _ => .bind (requireValid_keeps _ _) fun _ => .bind (readDb_keeps _) fun _ =>
    .bind (validateIdentity_keeps _ _) fun _ => ?_
  split
  · exact .pure _
  refine .bind (outstandingMutation_keeps _) fun _ => .bind (readDb_keeps _) fun _ => .bind .get fun _ => ?_
  exact .bind (nextMutations_keeps _ _) fun _ => .bind (transaction_feed _) fun _ => .pure _

@[grind .] theorem ackConfirmed_feed (message : WorkspaceAckRequest) :
    Keeps Engine.feed (ackConfirmed (F := F) message) := by
  unfold ackConfirmed
  grind

end

/-! ## Items of the stream and of the queue -/

section

variable {F : Type} [Filesystem F] [Env]

variable (event : WorkspaceEventMessage) (message : WorkspaceConflictResolvedMessage) (work : InboundWork)
  (source : ConflictResolutionSource) (commandLimit : Nat) (reissueWaiting : Bool)

section

omit [Filesystem F] [Env]

theorem feed_composes : Composes (Engine.feed (F := F)) (fun {_} m => Keeps Engine.feed m) := .keeps _

@[grind .] theorem markLiveEventApplied_feed (revision : WorkspaceRevision) :
    Keeps Engine.feed (markLiveEventApplied (F := F) revision) := by
  unfold markLiveEventApplied
  grind

end

omit [Filesystem F] in
@[grind .] theorem settleExactConflictResolutionReplay_feed :
    Keeps Engine.feed (settleExactConflictResolutionReplay (F := F) message source) := by
  unfold settleExactConflictResolutionReplay
  grind

theorem applyEvent_feed : Keeps Engine.feed (applyEvent (F := F) event) :=
  feed_composes.applyEvent (transaction_feed _) (fun _ _ _ => transaction_feed _) fun _ _ =>
    .bind (preservedReplacements_keeps _ _ _) fun _ => transaction_feed _

theorem applyLiveEvent_feed : Keeps Engine.feed (applyLiveEvent (F := F) event) :=
  feed_composes.applyLiveEvent (markLiveEventApplied_feed _) (fun _ _ => transaction_feed _) fun _ _ =>
    .bind (preservedReplacements_keeps _ _ _) fun _ => transaction_feed _

theorem applyConflictResolvedFrom_feed : Keeps Engine.feed (applyConflictResolvedFrom (F := F) message source) := by
  have hcommit : ∀ status applyId,
      Keeps Engine.feed (commitConflictResolvedWithJournal (F := F) message status source applyId) := by
    intro status applyId
    unfold commitConflictResolvedWithJournal
    grind
  exact feed_composes.applyConflictResolvedFrom (settleExactConflictResolutionReplay_feed _ _)
    (fun _ _ => transaction_feed _) (fun _ _ => .bind .get fun _ => transaction_feed _) hcommit
    fun _ _ => keeps_feed (queueDesiredWithStates_keeps _ _)

/-! ## The stored stream -/

theorem resumeStreamStep_feed : Keeps Engine.feed (resumeStreamStep (F := F) work commandLimit reissueWaiting) := by
  refine feed_composes.resumeStreamStep (fun record work => ?_) (fun event status work => ?_) fun message status work => ?_
  · exact feed_composes.resumeStreamEntry (fun _ => transaction_feed _) (feed_composes.applySnapshotEntry
      (fun _ _ => transaction_feed _) fun _ _ => keeps_feed (queueDesiredWithStates_keeps _ _))
  · exact feed_composes.resumeStreamEvent (fun _ => transaction_feed _) (applyEvent_feed _)
  · exact feed_composes.resumeStreamConflictResolved (fun _ => transaction_feed _)
      (settleExactConflictResolutionReplay_feed _ _) (applyConflictResolvedFrom_feed _ _)

theorem reconcileFullSnapshot_feed : Keeps Engine.feed (reconcileFullSnapshot (F := F)) := by
  unfold reconcileFullSnapshot
  refine .bind .get fun _ => .bind (.forM fun path => ?_) fun _ => .bind scanComplete_keeps fun _ => .forM fun entry => ?_
  · unfold reconcilePath
    grind
  · unfold reconcileEntry
    grind

@[grind .] theorem finishStreamIfReady_feed : Keeps Engine.feed (finishStreamIfReady (F := F)) := by
  unfold finishStreamIfReady
  refine .bind .get fun _ => ?_
  dsimp only
  split
  · exact .pure _
  split
  · exact .pure _
  split
  · exact .pure _
  split
  · exact .pure _
  refine .bind (reconcileFullSnapshot_feed.onlyIf _) fun _ => ?_
  refine .bind (.bind .get fun _ => replacementPlans_keeps _) fun _ => ?_
  exact .bind (transaction_feed _) fun _ => .bind (keeps_feed materializeLocalIntents_keeps) fun _ => .pure _

omit [Filesystem F] [Env] in
@[grind .] theorem advanceSegmentAckIfStalled_feed : Keeps Engine.feed (advanceSegmentAckIfStalled (F := F)) := by
  unfold advanceSegmentAckIfStalled
  grind

end

end Lumio.Sync
