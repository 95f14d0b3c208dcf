import Lumio.Sync.Ack.Store
import Lumio.Sync.Lemmas.Composes

/-!
# The stored stream and the acknowledgement view

Processing an item of the stored stream moves its row and the applied revision, and nothing else.
-/

namespace Lumio.Sync

open Lumio.Protocol Lumio.Fs Prog

def RowCall {F α : Type} (m : EngineM F α) : Prop :=
  Moves (fun s t => t.ack.queue = s.ack.queue ∧ AckStore.Row s.ack.store t.ack.store) m

namespace RowCall

section

variable {F α β : Type}

@[grind .] theorem bind {m : EngineM F α} {f : α → EngineM F β} (hm : RowCall m) (hf : ∀ a, RowCall (f a)) :
    RowCall (m >>= f) :=
  Moves.bind (fun h h' => ⟨h'.1.trans h.1, h.2.trans h'.2⟩) hm hf

theorem of_ack {m : EngineM F α} (h : Keeps Engine.ack m) : RowCall m :=
  Moves.mono h fun _ _ hst => ⟨congrArg AckView.queue hst, .of_eq (congrArg AckView.store hst)⟩

@[grind .] theorem of_core {m : EngineM F α} (h : Keeps Engine.core m) : RowCall m := of_ack (keeps_ack h)

@[grind .] theorem transaction {body : TxM α} (h : RowTx body) : RowCall (transaction (F := F) body) := by
  intro engine
  rw [wp_transaction]
  exact wp_mono (h engine.db) (fun _ _ hdb => ⟨rfl, hdb⟩) (fun _ _ _ => ⟨rfl, .refl _⟩)

variable [Env]

/-! ## Commits -/

variable (message : WorkspaceConflictResolvedMessage) (status : StreamItemStatus) (applyId : Option ApplyId)

@[grind .] theorem commitEntryWithJournal (entry : WorkspaceSnapshotEntryMessage) (status : StreamItemStatus)
    (postStates : List WorkspacePathState) (applyId : Option ApplyId) :
    RowCall (commitEntryWithJournal (F := F) entry status postStates applyId) := by
  unfold Sync.commitEntryWithJournal
  grind

@[grind .] theorem commitEventWithJournal (event : WorkspaceEventMessage) (status : StreamItemStatus)
    (postStates : List WorkspacePathState) (removeOutbox_ : Bool) (applyId : Option ApplyId) :
    RowCall (commitEventWithJournal (F := F) event status postStates removeOutbox_ applyId) := by
  unfold Sync.commitEventWithJournal
  refine transaction (.bind (.forTx fun state => .of_keeps (putPathState_ack state)) fun _ => ?_)
  refine .bind (.recordMutationAppliedOperation _ _ _ _ _) fun _ => ?_
  grind

@[grind .] theorem commitConflictResolvedWithJournal :
    RowCall (commitConflictResolvedWithJournal (F := F) message status .stream applyId) := by
  unfold Sync.commitConflictResolvedWithJournal
  refine .bind (.of_core (readDb_keeps _)) fun _ => .bind (.of_core (readDb_keeps _)) fun cleanup => ?_
  refine transaction (.bind (.onlyIf (.of_keeps (putPathState_ack _)) _) fun _ => ?_)
  refine .bind (.recordConflictAppliedOperation _ _ _ _) fun _ => ?_
  refine .bind (.of_core (cleanupConflictResolution_keeps _ _)) fun _ => ?_
  refine .bind ?_ fun _ => .of_core (commitJournal_keeps _)
  exact .bind (.onlyIf (.setLastAppliedRevision _) _) fun _ => .bind (.putStreamConflictResolved _ _) fun _ => .pure _

@[grind .] theorem commitSupersededConflictResolution (cleanup : ConflictCleanup) :
    RowCall (commitSupersededConflictResolution (F := F) message cleanup) := by
  unfold Sync.commitSupersededConflictResolution
  grind

@[grind .] theorem settleExactConflictResolutionReplay :
    RowCall (settleExactConflictResolutionReplay (F := F) message .stream) := by
  unfold Sync.settleExactConflictResolutionReplay
  refine .bind (.of_core (readDb_keeps _)) fun (matchingConflict, cleanup) => .bind (.of_core .get) fun engine => ?_
  unfold settleResolutionSource
  grind

end

/-! ## Items -/

section

variable {F : Type} [Filesystem F] [Env]

variable (event : WorkspaceEventMessage)

@[grind .] theorem preserveEvent (observed : List (WorkspacePath × Option ObservedEntry))
    (postStates : List WorkspacePathState) (removeOutbox_ : Bool) :
    RowCall (preserveEvent (F := F) event observed postStates removeOutbox_) := by
  unfold Sync.preserveEvent
  refine .bind (.of_core (preservedReplacements_keeps _ _ _)) fun replacements => ?_
  refine transaction (.bind (.forTx fun state => .of_keeps (putPathState_ack state)) fun _ => ?_)
  refine .bind (.recordMutationAppliedOperation _ _ _ _ _) fun _ => ?_
  refine .bind (.onlyIf (.of_core (removeOutbox_keeps _)) _) fun _ => ?_
  grind

omit [Filesystem F] [Env] in
theorem composes : Composes (Engine.core (F := F)) (fun {_} m => RowCall m) := ⟨of_core, bind⟩

omit [Filesystem F] in
theorem queued (desired : DesiredOperation) (states : PathStates) :
    RowCall (queueDesiredWithStates (F := F) desired states) := of_core (queueDesiredWithStates_keeps _ _)

theorem resumeStreamEntry (record : StreamEntryRecord) (work : InboundWork) (commandLimit : Nat)
    (reissueWaiting : Bool) : RowCall (resumeStreamEntry (F := F) record work commandLimit reissueWaiting) :=
  composes.resumeStreamEntry (fun _ => transaction (.putStreamEntry _ _))
    (composes.applySnapshotEntry (fun _ _ => commitEntryWithJournal _ _ _ _) queued)

theorem resumeStreamEvent (status : StreamItemStatus) (work : InboundWork) (commandLimit : Nat)
    (reissueWaiting : Bool) :
    RowCall (resumeStreamEvent (F := F) event status work commandLimit reissueWaiting) := by
  have hput : ∀ status, RowCall (Sync.transaction (F := F) (putStreamEvent event status)) :=
    fun _ => transaction (.putStreamEvent _ _)
  exact composes.resumeStreamEvent hput (composes.applyEvent (hput _) (fun _ _ _ => commitEventWithJournal _ _ _ _ _)
    fun _ _ => preserveEvent _ _ _ _)

theorem resumeStreamConflictResolved (message : WorkspaceConflictResolvedMessage) (status : StreamItemStatus)
    (work : InboundWork) (commandLimit : Nat) (reissueWaiting : Bool) :
    RowCall (resumeStreamConflictResolved (F := F) message status work commandLimit reissueWaiting) := by
  have happly : RowCall (applyConflictResolvedFrom (F := F) message .stream) :=
    composes.applyConflictResolvedFrom (settleExactConflictResolutionReplay message)
      (fun _ => commitSupersededConflictResolution message) (fun hlive => by cases hlive)
      (fun status => commitConflictResolvedWithJournal message status) queued
  exact composes.resumeStreamConflictResolved (fun _ => transaction (.putStreamConflictResolved _ _))
    (settleExactConflictResolutionReplay message) happly

end

end RowCall

end Lumio.Sync
