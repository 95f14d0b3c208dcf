import Lumio.Sync.Ack.Rows

/-!
# The live queue and the acknowledgement view
-/

namespace Lumio.Sync

open Lumio.Protocol Lumio.Fs Prog

/-! ## Receipts of live items -/

variable {db : Db}

theorem Processed.of_eventReceiptMatch {event : WorkspaceEventMessage} (h : db.eventReceiptMatch event = .ok .exact) :
    Processed db.appliedOperations (.event event) := by
  unfold Db.eventReceiptMatch at h
  split at h
  · cases h
  rename_i record hrecord
  split at h
  · cases h
  rename_i hrevision
  split at h
  · cases h
  rename_i bodyDigest mutation hreceipt
  split at h
  · cases h
  rename_i hbody
  push Not at hrevision hbody
  exact ⟨record, hrecord, hrevision, by rw [hreceipt, hbody.1, hbody.2]⟩

theorem missing_of_eventReceiptMatch {event : WorkspaceEventMessage} (h : db.eventReceiptMatch event = .ok .missing) :
    db.appliedOperations.lookup (event.originClientId, event.operationId) = none := by
  unfold Db.eventReceiptMatch at h
  split at h
  · assumption
  split at h
  · cases h
  split at h
  · cases h
  split at h <;> cases h

theorem Processed.of_conflictResolutionReceiptMatch {message : WorkspaceConflictResolvedMessage}
    (h : db.conflictResolutionReceiptMatch message = .ok .exact) :
    Processed db.appliedOperations (.conflictResolved message) := by
  unfold Db.conflictResolutionReceiptMatch at h
  split at h
  · cases h
  rename_i record hrecord
  split at h
  · rename_i hmatch
    exact ⟨record, hrecord, hmatch.1, hmatch.2⟩
  · cases h

theorem Processed.of_inboundReceiptMatch [Env] {message : WorkspaceConflictResolvedMessage}
    (h : db.inboundConflictResolutionReceiptMatch message = .ok .exact) :
    Processed db.appliedOperations (.conflictResolved message) := by
  apply Processed.of_conflictResolutionReceiptMatch
  unfold Db.inboundConflictResolutionReceiptMatch at h
  cases hmatch : db.conflictResolutionReceiptMatch message with
  | error e =>
    rw [hmatch] at h
    cases h
  | ok receiptMatch =>
    rw [hmatch] at h
    cases receiptMatch with
    | exact => rfl
    | missing =>
      -- without its receipt the resolution is missing or refused
      simp only [bind, Except.bind, reduceCtorEq, if_false] at h
      split at h
      · cases h
      · split at h <;> cases h

/-! ## Raising the cursor -/

theorem WorkspaceCursor.Raised.refl (cursor : WorkspaceCursor) (revision : WorkspaceRevision) :
    cursor.Raised cursor revision := ⟨rfl, rfl, .inl rfl, .inl rfl⟩

/-- The cursor catches up with `revision`, and receipts may join. -/
def RaisedTo (revision : WorkspaceRevision) (before after : AckStore) : Prop :=
  before.cursor.Raised after.cursor revision ∧ after.final = before.final ∧ after.unsettled = before.unsettled ∧
    Receipts.Grow before.receipts after.receipts

theorem RaisedTo.of_eq {revision : WorkspaceRevision} {a b : AckStore} (h : b = a) : RaisedTo revision a b := by
  subst h
  exact ⟨.refl _ _, rfl, rfl, .refl _⟩

/-- The applied revision catches up, and the pending acknowledgement if it is past the acknowledged one. -/
theorem wp_catchUp {cursor : WorkspaceCursor} {revision : WorkspaceRevision} {raise : Bool}
    (hcursor : db.cursor = cursor) (hack : raise = true → cursor.lastAckRevision < revision) :
    wp (do
        onlyIf (cursor.lastAppliedRevision < revision) (setLastAppliedRevision revision)
        onlyIf raise (setPendingAck revision))
      (fun _ db' => ∃ cursor', cursor.Raised cursor' revision ∧
        db'.ack = ⟨cursor', db.ack.final, db.unsettled, db.appliedOperations⟩)
      (fun _ _ => True) db := by
  subst hcursor
  rw [wp_bind, wp_onlyIf]
  constructor
  · intro hlt
    have hlt : db.cursor.lastAppliedRevision < revision := by simpa using hlt
    refine wp_setLastAppliedRevision revision (fun _ => ?_) (fun _ => trivial)
    rw [wp_onlyIf]
    refine ⟨fun hraise => wp_setPendingAck revision ?_ (fun _ => trivial), fun _ => ?_⟩
    · refine ⟨_, ?_, rfl⟩
      exact ⟨rfl, rfl, .inr ⟨hlt, rfl⟩, .inr ⟨rfl, hack hraise, le_rfl⟩⟩
    · refine ⟨_, ?_, rfl⟩
      exact ⟨rfl, rfl, .inr ⟨hlt, rfl⟩, .inl rfl⟩
  · intro hge
    have hge : revision ≤ db.cursor.lastAppliedRevision := by simpa using hge
    rw [wp_onlyIf]
    refine ⟨fun hraise => wp_setPendingAck revision ?_ (fun _ => trivial), fun _ => ?_⟩
    · refine ⟨_, ?_, rfl⟩
      exact ⟨rfl, rfl, .inl rfl, .inr ⟨rfl, hack hraise, hge⟩⟩
    · exact ⟨_, .refl _ _, rfl⟩

section

variable {F : Type} {engine : Engine F}

/-- A state whose queue is that of `s` and whose cursor has caught up with `revision`. -/
def CaughtUp (revision : WorkspaceRevision) (s t : Engine F) : Prop :=
  t.ack.queue = s.ack.queue ∧ RaisedTo revision s.ack.store t.ack.store

variable {s t : Engine F} (message : WorkspaceConflictResolvedMessage)

theorem CaughtUp.of_ack {revision : WorkspaceRevision} (h : t.ack = s.ack) :
    CaughtUp revision s t := ⟨congrArg AckView.queue h, .of_eq (congrArg AckView.store h)⟩

theorem CaughtUp.of_store {revision : WorkspaceRevision} {cursor : WorkspaceCursor} {receipts : Receipts} {db : Db}
    (raised : engine.db.cursor.Raised cursor revision) (grow : Receipts.Grow engine.db.appliedOperations receipts)
    (hdb : db.ack = ⟨cursor, engine.db.ack.final, engine.db.unsettled, receipts⟩) :
    CaughtUp revision engine { engine with db } := by
  have hstore : (Engine.ack { engine with db }).store = db.ack := rfl
  refine ⟨rfl, ?_⟩
  rw [hstore, hdb]
  exact ⟨raised, rfl, rfl, grow⟩

theorem markLiveEventApplied_wp (revision : WorkspaceRevision) :
    wp (markLiveEventApplied revision)
      (fun _ t => CaughtUp revision engine t) (fun _ t => t = engine) engine := by
  simp only [markLiveEventApplied, wp_bind, wp_get]
  split
  · exact .of_ack rfl
  rename_i hack
  refine wp_transaction_of (wp_mono (wp_catchUp rfl fun _ => Nat.lt_of_not_le hack) ?_ (fun _ _ h => h)) (fun _ => rfl)
  rintro _ db ⟨cursor, hraised, hdb⟩
  exact .of_store hraised (.refl _) hdb

/-! ## Committing a live item -/

/-- The live item has been committed: its receipt is there and its revision waits for acknowledgement. -/
structure Committed (item : StreamRevisionItem) (s t : Engine F) : Prop where
  applied : s.ack.store.cursor.lastAppliedRevision ≤ item.revision
  queue : t.ack.queue = s.ack.queue
  cursor : t.ack.store.cursor = s.ack.store.cursor.commit item.revision
  final : t.ack.store.final = s.ack.store.final
  unsettled : t.ack.store.unsettled = s.ack.store.unsettled
  grow : Receipts.Grow s.ack.store.receipts t.ack.store.receipts
  processed : Processed t.ack.store.receipts item

theorem Committed.of_ack {item : StreamRevisionItem} {s' t' : Engine F} (h : Committed item s t)
    (hs : s.ack = s'.ack) (ht : t'.ack = t.ack) : Committed item s' t' := by
  obtain ⟨applied, queue, cursor, final, unsettled, grow, processed⟩ := h
  rw [hs] at applied queue cursor final unsettled grow
  rw [← ht] at queue cursor final unsettled grow processed
  exact ⟨applied, queue, cursor, final, unsettled, grow, processed⟩

theorem wp_commitCursor (item : StreamRevisionItem) {db₁ : Db} {receipts : Receipts} {finish : TxM Unit}
    (hack : db₁.ack = ⟨engine.db.cursor, engine.db.ack.final, engine.db.unsettled, receipts⟩)
    (grow : Receipts.Grow engine.db.appliedOperations receipts) (processed : Processed receipts item)
    (hfinish : Keeps Db.core finish) :
    wp (do
        setLastAppliedRevision item.revision
        setPendingAck item.revision
        finish)
      (fun _ db' => Committed item engine { engine with db := db' }) (fun _ _ => True) db₁ := by
  have hcursor : db₁.cursor = engine.db.cursor := congrArg AckStore.cursor hack
  rw [wp_bind]
  refine wp_setLastAppliedRevision _ (fun happlied => ?_) (fun _ => trivial)
  rw [wp_bind]
  refine wp_setPendingAck _ ?_ (fun _ => trivial)
  refine wp_mono (hfinish _) (fun _ db' hcore => ?_) (fun _ _ _ => trivial)
  have hdone := Db.ack_of_core hcore
  have hstore : db'.ack =
      ⟨engine.db.cursor.commit item.revision, engine.db.ack.final, engine.db.unsettled, receipts⟩ := by
    rw [hdone]
    simp only [Db.ack, AckStore.mk.injEq] at hack ⊢
    exact ⟨by rw [hack.1]; rfl, hack.2.1, hack.2.2.1, hack.2.2.2⟩
  have hengine : (Engine.ack { engine with db := db' }).store = db'.ack := rfl
  rw [hcursor] at happlied
  constructor
  · exact happlied
  · rfl
  all_goals rw [hengine, hstore]
  · rfl
  · rfl
  · rfl
  · exact grow
  · exact processed

variable [Env]

omit [Env] in
theorem commitLiveEventWithJournal_wp (event : WorkspaceEventMessage) (postStates : List WorkspacePathState)
    (removeOutbox_ : Bool) (applyId : Option ApplyId) :
    wp (commitLiveEventWithJournal event postStates removeOutbox_ applyId)
      (fun _ t => Committed (.event event) engine t) (fun _ t => t = engine) engine := by
  unfold commitLiveEventWithJournal
  refine wp_transaction_of ?_ (fun _ => rfl)
  refine Keeps.wp_bind (forTx_keeps putPathState_ack) (fun _ db₁ h₁ => ?_) (fun _ _ _ => trivial)
  rw [wp_bind]
  refine wp_recordMutationAppliedOperation (fun receipts grow processed => ?_) (fun _ => trivial)
  refine Keeps.wp_bind (keeps_ackTx ((removeOutbox_keeps _).onlyIf _)) (fun _ db₃ h₃ => ?_) (fun _ _ _ => trivial)
  have hreceipts : db₁.appliedOperations = engine.db.appliedOperations := congrArg AckStore.receipts h₁
  refine wp_commitCursor (.event event) ?_ (hreceipts ▸ grow) processed (commitJournal_keeps _)
  simp only [Db.ack, AckStore.mk.injEq] at h₁ h₃ ⊢
  exact ⟨h₃.1.trans h₁.1, h₃.2.1.trans h₁.2.1, h₃.2.2.1.trans h₁.2.2.1, h₃.2.2.2⟩

/-! ## Live resolutions -/

def Settled (message : WorkspaceConflictResolvedMessage) (s t : Engine F) : Prop :=
  CaughtUp message.revision s t ∧ Processed t.ack.store.receipts (.conflictResolved message)

omit [Env] in
theorem Settled.of_ack {message : WorkspaceConflictResolvedMessage} {s' t' : Engine F} (h : Settled message s t)
    (hs : s.ack = s'.ack) (ht : t'.ack = t.ack) : Settled message s' t' := by
  unfold Settled CaughtUp at *
  rw [← hs, ht]
  exact h

theorem commitConflictResolvedWithJournal_wp (status : StreamItemStatus) (applyId : Option ApplyId) :
    wp (commitConflictResolvedWithJournal message status .live applyId)
      (fun _ t => Committed (.conflictResolved message) engine t ∨ Settled message engine t)
      (fun _ t => t = engine) engine := by
  unfold commitConflictResolvedWithJournal
  rw [wp_bind]
  refine wp_readDb (fun _ _ => ?_) (fun _ => rfl)
  rw [wp_bind]
  refine wp_readDb (fun cleanup _ => ?_) (fun _ => rfl)
  refine wp_transaction_of ?_ (fun _ => rfl)
  refine Keeps.wp_bind ((putPathState_ack _).onlyIf _) (fun _ db₁ h₁ => ?_) (fun _ _ _ => trivial)
  rw [wp_bind]
  refine wp_recordConflictAppliedOperation (fun receipts grow processed => ?_) (fun _ => trivial)
  refine Keeps.wp_bind (keeps_ackTx (cleanupConflictResolution_keeps _ _)) (fun _ db₃ h₃ => ?_) (fun _ _ _ => trivial)
  have hreceipts : db₁.appliedOperations = engine.db.appliedOperations := congrArg AckStore.receipts h₁
  have hack : db₃.ack = ⟨engine.db.cursor, engine.db.ack.final, engine.db.unsettled, receipts⟩ := by
    simp only [Db.ack, AckStore.mk.injEq] at h₁ h₃ ⊢
    exact ⟨h₃.1.trans h₁.1, h₃.2.1.trans h₁.2.1, h₃.2.2.1.trans h₁.2.2.1, h₃.2.2.2⟩
  rw [wp_bind, commitResolutionSource, wp_onlyIf]
  constructor
  · intro _
    have hcommit := wp_commitCursor (.conflictResolved message) hack (hreceipts ▸ grow) processed
      (commitJournal_keeps applyId)
    simp only [← bind_assoc] at hcommit
    rw [wp_bind] at hcommit
    exact wp_mono hcommit (fun _ _ h => wp_mono h (fun _ _ h => .inl h) (fun _ _ h => h)) (fun _ _ h => h)
  · intro _
    refine wp_mono (keeps_ackTx (commitJournal_keeps applyId) db₃) (fun _ db₄ h₄ => .inr ?_) (fun _ _ _ => trivial)
    have hdb := h₄.trans hack
    refine ⟨.of_store (.refl _ _) (hreceipts ▸ grow) hdb, ?_⟩
    rw [show (Engine.ack { engine with db := db₄ }).store = db₄.ack from rfl, hdb]
    exact processed

omit [Env] in
theorem commitSupersededLiveConflictResolution_wp (cleanup : ConflictCleanup) :
    wp (commitSupersededLiveConflictResolution message cleanup)
      (fun _ t => Settled message engine t) (fun _ t => t = engine) engine := by
  unfold commitSupersededLiveConflictResolution
  rw [wp_bind, wp_get]
  refine wp_transaction_of ?_ (fun _ => rfl)
  rw [wp_bind]
  refine wp_recordConflictAppliedOperation (fun receipts grow processed => ?_) (fun _ => trivial)
  refine Keeps.wp_bind (keeps_ackTx (cleanupConflictResolution_keeps _ _)) (fun _ db₂ h₂ => ?_) (fun _ _ _ => trivial)
  simp only [Db.ack, AckStore.mk.injEq] at h₂
  obtain ⟨hcursor, hfinal, hunsettled, hreceipts⟩ := h₂
  refine wp_mono (wp_catchUp hcursor fun hraise => ?_) ?_ (fun _ _ h => h)
  · exact (of_decide_eq_true hraise).1
  rintro _ db ⟨cursor, hraised, hdb⟩
  have hdb : db.ack = ⟨cursor, engine.db.ack.final, engine.db.unsettled, receipts⟩ := by
    rw [hdb, hunsettled, hreceipts]
    simp only [Db.ack, hfinal]
    rfl
  refine ⟨.of_store hraised grow hdb, ?_⟩
  rw [show (Engine.ack { engine with db }).store = db.ack from rfl, hdb]
  exact processed

theorem settleExactConflictResolutionReplay_wp :
    wp (settleExactConflictResolutionReplay message .live)
      (fun _ t => CaughtUp message.revision engine t) (fun _ t => t = engine) engine := by
  unfold settleExactConflictResolutionReplay
  rw [wp_bind]
  refine wp_readDb (fun (matchingConflict, cleanup) _ => ?_) (fun _ => rfl)
  rw [wp_bind, wp_get]
  refine wp_transaction_of ?_ (fun _ => rfl)
  refine Keeps.wp_bind (keeps_ackTx ((cleanupConflictResolution_keeps _ _).onlyIf _)) (fun _ db₁ h₁ => ?_)
    (fun _ _ _ => trivial)
  refine Keeps.wp_bind (keeps_ackTx ((forTx_keeps removeOutbox_keeps).onlyIf _)) (fun _ db₂ h₂ => ?_)
    (fun _ _ _ => trivial)
  have h₂ := h₂.trans h₁
  rw [settleResolutionSource, wp_onlyIf]
  refine ⟨fun hack => ?_, fun _ => .of_ack (congrArg (AckView.mk · _) h₂)⟩
  have hack : engine.db.cursor.lastAckRevision < message.revision := of_decide_eq_true hack
  refine wp_mono (wp_catchUp (congrArg AckStore.cursor h₂) fun _ => hack) ?_ (fun _ _ h => h)
  rintro _ db ⟨cursor, hraised, hdb⟩
  simp only [Db.ack, AckStore.mk.injEq] at h₂
  obtain ⟨-, hfinal, hunsettled, hreceipts⟩ := h₂
  refine .of_store hraised (.refl engine.db.appliedOperations) ?_
  rw [hdb, hunsettled, hreceipts]
  simp only [Db.ack, hfinal]

end

section

variable {F : Type} [Filesystem F] [Env] {engine : Engine F}

theorem preserveLiveEvent_wp (event : WorkspaceEventMessage) (observed : List (WorkspacePath × Option ObservedEntry))
    (postStates : List WorkspacePathState) (removeOutbox_ : Bool) :
    wp (preserveLiveEvent event observed postStates removeOutbox_)
      (fun _ t => Committed (.event event) engine t) (fun _ t => t.ack = engine.ack) engine := by
  unfold preserveLiveEvent
  refine Keeps.wp_bind (keeps_ack (preservedReplacements_keeps _ _ _)) (fun replacements s hs => ?_) (fun _ _ h => h)
  refine wp_mono (Q := fun _ t => Committed (.event event) s t) (E := fun _ t => t = s) ?_
    (fun _ _ h => h.of_ack hs rfl) (fun _ _ h => h ▸ hs)
  refine wp_transaction_of ?_ (fun _ => rfl)
  refine Keeps.wp_bind (forTx_keeps putPathState_ack) (fun _ db₁ h₁ => ?_) (fun _ _ _ => trivial)
  rw [wp_bind]
  refine wp_recordMutationAppliedOperation (fun receipts grow processed => ?_) (fun _ => trivial)
  refine Keeps.wp_bind (keeps_ackTx ((removeOutbox_keeps _).onlyIf _)) (fun _ db₃ h₃ => ?_) (fun _ _ _ => trivial)
  refine Keeps.wp_bind (keeps_ackTx (forTx_keeps removeLocalIntent_keeps)) (fun _ db₄ h₄ => ?_) (fun _ _ _ => trivial)
  refine Keeps.wp_bind (keeps_ackTx (forTx_keeps fun _ => enqueueMutationAt_keeps _ _)) (fun _ db₅ h₅ => ?_)
    (fun _ _ _ => trivial)
  have hreceipts : db₁.appliedOperations = s.db.appliedOperations := congrArg AckStore.receipts h₁
  have hack : db₅.ack = ⟨s.db.cursor, s.db.ack.final, s.db.unsettled, receipts⟩ := by
    rw [h₅, h₄]
    simp only [Db.ack, AckStore.mk.injEq] at h₁ h₃ ⊢
    exact ⟨h₃.1.trans h₁.1, h₃.2.1.trans h₁.2.1, h₃.2.2.1.trans h₁.2.2.1, h₃.2.2.2⟩
  have hcommit := wp_commitCursor (.event event) hack (hreceipts ▸ grow) processed (.pure ())
  simp only [bind_pure_unit] at hcommit
  exact hcommit

/-! ## Applying the head of the queue -/

variable {s t : Engine F} {queue : List StreamRevisionItem}

section

omit [Filesystem F] [Env]

theorem Moved.of_ack (h : t.ack = s.ack) : Moved s t := by
  unfold Moved
  rw [h]

theorem Moved.of_committedEvent {event : WorkspaceEventMessage} (hqueue : s.ack.queue = .event event :: queue)
    (hmissing : s.ack.store.receipts.lookup (event.originClientId, event.operationId) = none)
    (h : Committed (.event event) s t) : Moved s t := by
  obtain ⟨applied, hq, cursor, final, unsettled, grow, processed⟩ := h
  refine .single ?_
  have hs : s.ack = ⟨⟨s.ack.store.cursor, s.ack.store.final, s.ack.store.unsettled, s.ack.store.receipts⟩,
      .event event :: queue⟩ := by rw [← hqueue]
  have ht : t.ack = ⟨⟨s.ack.store.cursor.commit event.revision, s.ack.store.final, s.ack.store.unsettled,
      t.ack.store.receipts⟩, .event event :: queue⟩ := by
    rw [← hqueue, ← hq, ← final, ← unsettled]
    exact congrArg (fun c => AckView.mk ⟨c, t.ack.store.final, t.ack.store.unsettled, t.ack.store.receipts⟩
      t.ack.queue) cursor
  rw [hs, ht]
  exact .liveEvent hmissing applied grow processed

theorem Moved.of_committedResolution {message : WorkspaceConflictResolvedMessage}
    (hqueue : s.ack.queue = .conflictResolved message :: queue)
    (hlt : s.ack.store.cursor.lastAppliedRevision < message.revision) (h : Committed (.conflictResolved message) s t) :
    Moved s t := by
  obtain ⟨-, hq, cursor, final, unsettled, grow, processed⟩ := h
  refine .single ?_
  have hs : s.ack = ⟨⟨s.ack.store.cursor, s.ack.store.final, s.ack.store.unsettled, s.ack.store.receipts⟩,
      .conflictResolved message :: queue⟩ := by rw [← hqueue]
  have ht : t.ack = ⟨⟨s.ack.store.cursor.commit message.revision, s.ack.store.final, s.ack.store.unsettled,
      t.ack.store.receipts⟩, .conflictResolved message :: queue⟩ := by
    rw [← hqueue, ← hq, ← final, ← unsettled]
    exact congrArg (fun c => AckView.mk ⟨c, t.ack.store.final, t.ack.store.unsettled, t.ack.store.receipts⟩
      t.ack.queue) cursor
  rw [hs, ht]
  exact .liveResolution hlt grow processed

theorem Moved.of_caughtUp {item : StreamRevisionItem} (hqueue : s.ack.queue = item :: queue)
    (h : CaughtUp item.revision s t) (processed : Processed t.ack.store.receipts item) : Moved s t := by
  obtain ⟨hq, raised, final, unsettled, grow⟩ := h
  refine .single ?_
  have hs : s.ack = ⟨⟨s.ack.store.cursor, s.ack.store.final, s.ack.store.unsettled, s.ack.store.receipts⟩,
      item :: queue⟩ := by rw [← hqueue]
  have ht : t.ack = ⟨⟨t.ack.store.cursor, s.ack.store.final, s.ack.store.unsettled, t.ack.store.receipts⟩,
      item :: queue⟩ := by rw [← hqueue, ← hq, ← final, ← unsettled]
  rw [hs, ht]
  exact .raise raised grow processed

end

def Done (item : StreamRevisionItem) (s t : Engine F) : Prop :=
  Moved s t ∧ t.ack.queue = s.ack.queue ∧ Processed t.ack.store.receipts item

omit [Filesystem F] [Env] in
theorem Done.of_ack {item : StreamRevisionItem} {s' t' : Engine F} (h : Done item s t) (hs : s.ack = s'.ack)
    (ht : t'.ack = t.ack) : Done item s' t' := by
  unfold Done Moved at *
  rw [← hs, ht]
  exact h

/-- The program is done with the item, from any engine with the same view as `s`. -/
def Finishes (item : StreamRevisionItem) (s : Engine F) (m : EngineM F Unit) : Prop :=
  ∀ t, t.ack = s.ack → wp m (fun _ u => Done item s u) (fun _ u => Moved s u) t

omit [Filesystem F] [Env] in
theorem Finishes.after {item : StreamRevisionItem} {α : Type} {m : EngineM F α} {f : α → EngineM F Unit}
    (hm : Keeps Engine.core m) (hf : ∀ a, Finishes item s (f a)) : Finishes item s (m >>= f) := fun _ h =>
  (keeps_ack hm).wp_bind (fun a u hu => hf a u (hu.trans h)) fun _ _ hu => .of_ack (hu.trans h)

theorem Finishes.finished {item : StreamRevisionItem} {streamId : StreamId} {itemKind : ApplyItemKind}
    {itemKey : ApplyItemKey} {operationSpec : RemoteApplyOperation} {postStates : List WorkspacePathState}
    {commitPlan : ApplyCommitPlan} {operation : FsOperation} {commit : ApplyReceipt → EngineM F Unit}
    (hcommit : ∀ receipt, Finishes item s (commit receipt)) :
    Finishes item s (do
      let receipt ← applyWithJournal streamId itemKind itemKey operationSpec postStates commitPlan operation
      commit receipt
      finishApplyJournal receipt) := by
  refine .after (applyWithJournal_keeps _ _ _ _ _ _ _) fun receipt t h => wp_seq (hcommit receipt t h) fun _ u hu => ?_
  exact wp_mono (keeps_ack (finishApplyJournal_keeps _) u) (fun _ _ h => hu.of_ack rfl h)
    (fun _ _ h => (hu.of_ack rfl h).1)

theorem applyLiveEvent_wp (event : WorkspaceEventMessage) (hqueue : engine.ack.queue = .event event :: queue) :
    wp (applyLiveEvent event) (fun _ t => Done (.event event) engine t) (fun _ t => Moved engine t) engine := by
  unfold applyLiveEvent
  rw [wp_bind, wp_get, wp_bind]
  refine wp_readDb (fun receiptMatch hmatch => ?_) (fun _ => .of_ack rfl)
  split
  · rename_i hexact
    have processed := Processed.of_eventReceiptMatch (hexact ▸ hmatch)
    refine wp_mono (markLiveEventApplied_wp event.revision) (fun _ t hcaught => ?_) (fun _ _ h => .of_ack (by rw [h]))
    have processed := processed.grow hcaught.2.2.2.2
    exact ⟨.of_caughtUp hqueue hcaught processed, hcaught.1, processed⟩
  have hmissing : engine.ack.store.receipts.lookup (event.originClientId, event.operationId) = none := by
    cases receiptMatch with
    | missing => exact missing_of_eventReceiptMatch hmatch
    | exact => contradiction
  -- what is committed from a state with the same view is done
  have hdone : ∀ s t : Engine F, s.ack = engine.ack → Committed (.event event) s t → Done (.event event) engine t := by
    intro s t hs hcommitted
    have hcommitted := hcommitted.of_ack hs rfl
    exact ⟨.of_committedEvent hqueue hmissing hcommitted, hcommitted.queue, hcommitted.processed⟩
  have hcommit : ∀ removeOutbox_ applyId, Finishes (.event event) engine
      (commitLiveEventWithJournal event (eventPostStates event) removeOutbox_ applyId) := by
    intro removeOutbox_ applyId s hs
    exact wp_mono (commitLiveEventWithJournal_wp _ _ _ _) (fun _ t h => hdone s t hs h)
      (fun _ t h => .of_ack (h ▸ hs))
  refine Finishes.after (readDb_keeps _) (fun _ => ?_) engine rfl
  refine .after (observedForEvent_keeps _) fun observed => .after (eventPostMatches_keeps _ _) fun postMatches => ?_
  split
  · exact hcommit _ _
  refine .after (eventBaselineMatches_keeps _ _) fun baselineMatches => ?_
  split
  · intro s hs
    exact wp_mono (preserveLiveEvent_wp _ _ _ _) (fun _ t h => hdone s t hs h) (fun _ t h => .of_ack (h.trans hs))
  refine .after (operationForEvent_keeps _ _) fun operation => ?_
  split
  · exact hcommit _ _
  · exact .finished fun receipt => hcommit _ _

theorem applyConflictResolvedFrom_wp (message : WorkspaceConflictResolvedMessage)
    (hqueue : engine.ack.queue = .conflictResolved message :: queue) :
    wp (applyConflictResolvedFrom message .live) (fun _ t => Done (.conflictResolved message) engine t)
      (fun _ t => Moved engine t) engine := by
  have hsettled : ∀ s t : Engine F, s.ack = engine.ack → Settled message s t →
      Done (.conflictResolved message) engine t := by
    intro s t hs h
    obtain ⟨hcaught, processed⟩ := h.of_ack hs rfl
    exact ⟨.of_caughtUp hqueue hcaught processed, hcaught.1, processed⟩
  unfold applyConflictResolvedFrom
  rw [wp_bind]
  refine wp_readDb (fun receiptMatch hmatch => ?_) (fun _ => .of_ack rfl)
  split
  · rename_i hexact
    have processed := Processed.of_inboundReceiptMatch (hexact ▸ hmatch)
    refine wp_mono (settleExactConflictResolutionReplay_wp message) (fun _ t hcaught => ?_)
      (fun _ _ h => .of_ack (by rw [h]))
    exact hsettled engine t rfl ⟨hcaught, processed.grow hcaught.2.2.2.2⟩
  rw [wp_bind]
  refine wp_readDb (fun cleanup _ => ?_) (fun _ => .of_ack rfl)
  rw [wp_bind, wp_get]
  dsimp only
  split
  · exact wp_mono (commitSupersededLiveConflictResolution_wp _ _) (fun _ t => hsettled engine t rfl)
      (fun _ _ h => .of_ack (by rw [h]))
  split
  · exact .of_ack rfl
  rename_i hregression
  have hlt : engine.ack.store.cursor.lastAppliedRevision < message.revision := by
    by_contra hle
    exact hregression ⟨rfl, Nat.le_of_not_lt hle⟩
  have hcommit : ∀ status applyId, Finishes (.conflictResolved message) engine
      (commitConflictResolvedWithJournal message status .live applyId) := by
    intro status applyId s hs
    refine wp_mono (commitConflictResolvedWithJournal_wp _ _ _) (fun _ t h => ?_) (fun _ t h => .of_ack (h ▸ hs))
    obtain h | h := h
    · have h := h.of_ack hs rfl
      exact ⟨.of_committedResolution hqueue hlt h, h.queue, h.processed⟩
    · exact hsettled s t hs h
  refine Finishes.after (inspect_keeps _) (fun observed => ?_) engine rfl
  refine .after (observedMatchesPost_keeps _ _) fun postMatches => ?_
  split
  · exact hcommit _ _
  refine .after (baselineMatchesObserved_keeps _ _) fun baselineMatches => ?_
  split
  · exact .after (desiredFromCurrent_keeps _) fun desired => .after (queueDesiredWithStates_keeps _ _) fun _ =>
      hcommit _ _
  refine .after (operationForState_keeps _ _) fun operation => ?_
  split
  · exact hcommit _ _
  · exact .after (resolutionStreamId_keeps _) fun streamId => .finished fun receipt => hcommit _ _

end

end Lumio.Sync
