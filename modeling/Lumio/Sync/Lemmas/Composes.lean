import Lumio.Sync.Lemmas.Frame

/-!
# Properties that sequencing keeps

A property of programs that holds of what only reads, and that sequencing keeps, holds of an item's application as soon
as it holds of the commits, and of the work loop as soon as it holds of its steps.
-/

namespace Lumio.Sync

open Lumio.Protocol Lumio.Fs Prog

/-- A property that holds of all programs that leave `π` alone, and that sequencing keeps. -/
structure Composes {F β : Type} (π : Engine F → β) (P : ∀ {α : Type}, EngineM F α → Prop) : Prop where
  reads : ∀ {α : Type} {m : EngineM F α}, Keeps π m → P m
  bind : ∀ {α γ : Type} {m : EngineM F α} {f : α → EngineM F γ}, P m → (∀ a, P (f a)) → P (m >>= f)

theorem Composes.keeps {F β : Type} (π : Engine F → β) : Composes π (fun {_} m => Keeps π m) :=
  ⟨fun h => h, fun hm hf => .bind hm hf⟩

namespace Composes

variable {F β : Type} {π : Engine F → β} {P : ∀ {α : Type}, EngineM F α → Prop}

theorem pure (h : Composes π P) {α : Type} (a : α) : P (pure a : EngineM F α) := h.reads (.pure a)

theorem after (h : Composes π P) {α γ : Type} {m : EngineM F α} {f : α → EngineM F γ} (hm : Keeps π m)
    (hf : ∀ a, P (f a)) : P (m >>= f) := h.bind (h.reads hm) hf

theorem onlyIf (h : Composes π P) {m : EngineM F Unit} (hm : P m) (condition : Bool) : P (onlyIf condition m) := by
  cases condition with
  | true => exact hm
  | false => exact h.pure _

variable [Filesystem F] [Env] (h : Composes π P)

include h

/-! ## Items -/

section

variable [JournalFree π]

theorem journaled {streamId : StreamId} {itemKind : ApplyItemKind} {itemKey : ApplyItemKey}
    {operationSpec : RemoteApplyOperation} {postStates : List WorkspacePathState} {commitPlan : ApplyCommitPlan}
    {operation : FsOperation} {commit : ApplyReceipt → EngineM F Unit} (hcommit : ∀ receipt, P (commit receipt)) :
    P (do
      let receipt ← applyWithJournal streamId itemKind itemKey operationSpec postStates commitPlan operation
      commit receipt
      finishApplyJournal receipt) :=
  h.after (applyWithJournal_keeps _ _ _ _ _ _ _) fun receipt => h.bind (hcommit receipt) fun _ =>
    h.reads (finishApplyJournal_keeps _)

variable [StagingFree π]

theorem applySnapshotEntry {entry : WorkspaceSnapshotEntryMessage}
    (hcommit : ∀ status applyId, P (commitEntryWithJournal entry status [entry.entry] applyId))
    (hqueue : ∀ desired states, P (queueDesiredWithStates desired states)) : P (applySnapshotEntry entry) := by
  unfold Sync.applySnapshotEntry
  refine h.after .get fun engine => h.after (inspect_keeps _) fun observed => ?_
  refine h.after (observedMatchesPost_keeps _ _) fun postMatches => h.after (baselineMatchesObserved_keeps _ _) fun _ => ?_
  split
  · exact hcommit _ _
  split
  · exact h.after (desiredFromCurrent_keeps _) fun _ => h.bind (hqueue _ _) fun _ => hcommit _ _
  split
  · exact h.bind (hqueue _ _) fun _ => hcommit _ _
  refine h.after (operationForState_keeps _ _) fun operation => ?_
  cases operation with
  | none => exact hcommit _ _
  | some operation => exact h.journaled fun _ => hcommit _ _

variable {event : WorkspaceEventMessage}

theorem applyEvent (hstaged : P (transaction (putStreamEvent event .applied)))
    (hcommit : ∀ status removeOutbox_ applyId,
      P (commitEventWithJournal event status (eventPostStates event) removeOutbox_ applyId))
    (hpreserve : ∀ observed removeOutbox_, P (preserveEvent event observed (eventPostStates event) removeOutbox_)) :
    P (applyEvent event) := by
  unfold Sync.applyEvent
  refine h.after .get fun engine => h.after (readDb_keeps _) fun receiptMatch => ?_
  split
  · exact h.bind hstaged fun _ => h.pure _
  refine h.after (readDb_keeps _) fun _ => ?_
  dsimp only
  split
  · exact hcommit _ _ _
  refine h.after (observedForEvent_keeps _) fun observed => h.after (eventPostMatches_keeps _ _) fun postMatches => ?_
  refine h.after (eventBaselineMatches_keeps _ _) fun baselineMatches => ?_
  split
  · exact hcommit _ _ _
  split
  · exact hpreserve _ _
  refine h.after (operationForEvent_keeps _ _) fun operation => ?_
  cases operation with
  | none => exact hcommit _ _ _
  | some operation => exact h.journaled fun _ => hcommit _ _ _

theorem applyLiveEvent (hmark : P (markLiveEventApplied event.revision))
    (hcommit : ∀ removeOutbox_ applyId,
      P (commitLiveEventWithJournal event (eventPostStates event) removeOutbox_ applyId))
    (hpreserve : ∀ observed removeOutbox_, P (preserveLiveEvent event observed (eventPostStates event) removeOutbox_)) :
    P (applyLiveEvent event) := by
  unfold Sync.applyLiveEvent
  refine h.after .get fun engine => h.after (readDb_keeps _) fun receiptMatch => ?_
  split
  · exact hmark
  refine h.after (readDb_keeps _) fun _ => h.after (observedForEvent_keeps _) fun observed => ?_
  refine h.after (eventPostMatches_keeps _ _) fun postMatches => ?_
  split
  · exact hcommit _ _
  refine h.after (eventBaselineMatches_keeps _ _) fun baselineMatches => ?_
  split
  · exact hpreserve _ _
  refine h.after (operationForEvent_keeps _ _) fun operation => ?_
  cases operation with
  | none => exact hcommit _ _
  | some operation => exact h.journaled fun _ => hcommit _ _

theorem applyConflictResolvedFrom {message : WorkspaceConflictResolvedMessage} {source : ConflictResolutionSource}
    (hsettle : P (settleExactConflictResolutionReplay message source))
    (hstream : source = .stream → ∀ cleanup, P (commitSupersededConflictResolution message cleanup))
    (hlive : source = .live → ∀ cleanup, P (commitSupersededLiveConflictResolution message cleanup))
    (hcommit : ∀ status applyId, P (commitConflictResolvedWithJournal message status source applyId))
    (hqueue : ∀ desired states, P (queueDesiredWithStates desired states)) :
    P (applyConflictResolvedFrom message source) := by
  unfold Sync.applyConflictResolvedFrom
  refine h.after (readDb_keeps _) fun receiptMatch => ?_
  split
  · exact hsettle
  refine h.after (readDb_keeps _) fun cleanup => h.after .get fun engine => ?_
  dsimp only
  split
  · cases source with
    | stream => exact hstream rfl _
    | live => exact hlive rfl _
  split
  · exact h.reads (.throw _)
  refine h.after (inspect_keeps _) fun observed => h.after (observedMatchesPost_keeps _ _) fun postMatches => ?_
  split
  · exact hcommit _ _
  refine h.after (baselineMatchesObserved_keeps _ _) fun baselineMatches => ?_
  split
  · exact h.after (desiredFromCurrent_keeps _) fun _ => h.bind (hqueue _ _) fun _ => hcommit _ _
  refine h.after (operationForState_keeps _ _) fun operation => ?_
  cases operation with
  | none => exact hcommit _ _
  | some operation => exact h.after (resolutionStreamId_keeps _) fun _ => h.journaled fun _ => hcommit _ _

end

/-! ## The work loop -/

variable {work : InboundWork} {commandLimit : Nat} {reissueWaiting : Bool} {status : StreamItemStatus}

theorem resumeStreamEntry {record : StreamEntryRecord}
    (hput : ∀ status, P (transaction (putStreamEntry record.body status)))
    (happly : P (Sync.applySnapshotEntry record.body)) :
    P (resumeStreamEntry record work commandLimit reissueWaiting) := by
  unfold Sync.resumeStreamEntry
  refine h.after (missingContent_keeps _) fun missing => ?_
  split
  · exact h.bind (hput _) fun _ => h.pure _
  · exact h.bind (h.onlyIf (h.bind (hput _) fun _ => h.pure _) _) fun _ => h.bind happly fun _ => h.pure _

theorem resumeStreamEvent {event : WorkspaceEventMessage}
    (hput : ∀ status, P (transaction (putStreamEvent event status))) (happly : P (Sync.applyEvent event)) :
    P (resumeStreamEvent event status work commandLimit reissueWaiting) := by
  unfold Sync.resumeStreamEvent
  refine h.after (readDb_keeps _) fun receiptMatch => ?_
  split
  · exact h.bind (hput _) fun _ => h.pure _
  split
  · exact h.bind happly fun _ => h.pure _
  refine h.after (missingContent_keeps _) fun missing => ?_
  split
  · exact h.bind (hput _) fun _ => h.pure _
  · exact h.bind (hput _) fun _ => h.bind happly fun _ => h.pure _

theorem resumeStreamConflictResolved {message : WorkspaceConflictResolvedMessage}
    (hput : ∀ status, P (transaction (putStreamConflictResolved message status)))
    (hsettle : P (settleExactConflictResolutionReplay message .stream))
    (happly : P (Sync.applyConflictResolvedFrom message .stream)) :
    P (resumeStreamConflictResolved message status work commandLimit reissueWaiting) := by
  unfold Sync.resumeStreamConflictResolved
  refine h.after (readDb_keeps _) fun receiptMatch => ?_
  split
  · exact h.bind hsettle fun _ => h.pure _
  refine h.after (missingContent_keeps _) fun missing => ?_
  split
  · exact h.bind (hput _) fun _ => h.pure _
  · exact h.bind (h.onlyIf (h.bind (hput _) fun _ => h.pure _) _) fun _ => h.bind happly fun _ => h.pure _

theorem resumeStreamStep (hentry : ∀ record work, P (Sync.resumeStreamEntry record work commandLimit reissueWaiting))
    (hevent : ∀ event status work, P (Sync.resumeStreamEvent event status work commandLimit reissueWaiting))
    (hresolved : ∀ message status work,
      P (Sync.resumeStreamConflictResolved message status work commandLimit reissueWaiting)) :
    P (resumeStreamStep work commandLimit reissueWaiting) := by
  unfold Sync.resumeStreamStep
  refine h.after .get fun engine => ?_
  dsimp only
  split
  · exact h.pure _
  split
  · exact h.pure _
  split
  · split
    · exact h.pure _
    split
    · exact h.pure _
    · exact hentry _ _
  · split
    · exact h.pure _
    split
    · exact h.pure _
    split
    · exact hevent _ _ _
    · exact hresolved _ _ _

theorem resumeLoop (hstream : ∀ work, P (Sync.resumeStreamStep work commandLimit reissueWaiting))
    (hlive : ∀ work, P (Sync.resumeLiveStep work commandLimit reissueWaiting)) (fuel : Nat) :
    ∀ (source : InboundWorkSource) (streamUnavailable liveUnavailable : Bool) (work : InboundWork),
      P (resumeLoop commandLimit reissueWaiting fuel source streamUnavailable liveUnavailable work) := by
  induction fuel with
  | zero => exact fun _ _ _ _ => h.pure _
  | succ fuel ih =>
    intro source streamUnavailable liveUnavailable work
    unfold Sync.resumeLoop
    split
    · exact h.pure _
    cases source with
    | stream =>
      dsimp only
      split
      · exact ih _ _ _ _
      · exact h.bind (hstream _) fun _ => ih _ _ _ _
    | live =>
      dsimp only
      split
      · exact ih _ _ _ _
      · exact h.bind (hlive _) fun _ => ih _ _ _ _

end Composes

end Lumio.Sync
