import Lumio.Sync.Ack.Calls

/-!
# When an acknowledgement is safe

The invariant: what waits for acknowledgement is applied, an unsettled row of the stored stream and an
outstanding acknowledgement exclude each other, and every unprocessed live item is past what is applied and
past the end of the stored stream.
-/

namespace Lumio.Sync

open Lumio.Protocol Lumio.Fs Prog

structure AckSafe (view : AckView) : Prop where
  sorted : view.queue.Pairwise (·.revision < ·.revision)
  applied : ∀ item ∈ view.queue, ¬Processed view.store.receipts item →
    view.store.cursor.lastAppliedRevision < item.revision
  beyond : ∀ item ∈ view.queue, ¬Processed view.store.receipts item →
    ∀ final ∈ view.store.final, final.revision < item.revision
  pending : ∀ revision ∈ view.store.cursor.pendingAckRevision, revision ≤ view.store.cursor.lastAppliedRevision
  segment : ∀ revision ∈ view.store.cursor.pendingSegmentAckRevision,
    revision ≤ view.store.cursor.lastAppliedRevision
  quiet : 0 < view.store.unsettled → view.store.cursor.pendingAckRevision = none ∧
    view.store.cursor.pendingSegmentAckRevision = none ∧ view.queue = []
  stored : view.store.final = none → view.store.unsettled = 0

namespace AckSafe

variable {item : StreamRevisionItem} {queue : List StreamRevisionItem}

theorem settled_of_queue {store : AckStore} (h : AckSafe ⟨store, item :: queue⟩) : store.unsettled = 0 := by
  by_contra hne
  have := (h.quiet (Nat.pos_of_ne_zero hne)).2.2
  cases this

theorem head {before after : AckStore} (h : AckSafe ⟨before, item :: queue⟩)
    (processed : Processed after.receipts item) (grow : Receipts.Grow before.receipts after.receipts)
    (final : after.final = before.final) (unsettled : after.unsettled = before.unsettled)
    (lastApplied : before.cursor.lastAppliedRevision ≤ after.cursor.lastAppliedRevision)
    (bounded : after.cursor.lastAppliedRevision = before.cursor.lastAppliedRevision ∨
      after.cursor.lastAppliedRevision = item.revision)
    (pending : ∀ revision ∈ after.cursor.pendingAckRevision, revision ≤ after.cursor.lastAppliedRevision)
    (segment : after.cursor.pendingSegmentAckRevision = before.cursor.pendingSegmentAckRevision) :
    AckSafe ⟨after, item :: queue⟩ := by
  have hzero : after.unsettled = 0 := unsettled.trans h.settled_of_queue
  have hlater := (List.pairwise_cons.mp h.sorted).1
  have hbefore : ∀ other, ¬Processed after.receipts other → ¬Processed before.receipts other :=
    fun other hnot hprocessed => hnot (hprocessed.grow grow)
  constructor
  · exact h.sorted
  · intro other hmem hnot
    obtain rfl | hmem' := List.mem_cons.mp hmem
    · exact absurd processed hnot
    have hbefore := h.applied other hmem (hbefore other hnot)
    obtain hsame | hitem := bounded
    · exact hsame ▸ hbefore
    · exact hitem ▸ hlater other hmem'
  · intro other hmem hnot
    rw [show (AckView.mk after (item :: queue)).store.final = before.final from final]
    exact h.beyond other hmem (hbefore other hnot)
  · exact pending
  · intro revision hrevision
    rw [show (AckView.mk after (item :: queue)).store.cursor.pendingSegmentAckRevision =
      before.cursor.pendingSegmentAckRevision from segment] at hrevision
    exact (h.segment revision hrevision).trans lastApplied
  · intro hpos
    exact absurd hzero (Nat.pos_iff_ne_zero.mp hpos)
  · exact fun _ => hzero

theorem move {before after : AckView} (h : AckSafe before) (hmove : Move before after) : AckSafe after := by
  cases hmove with
  | liveEvent missing applied grow processed =>
    refine h.head processed grow rfl rfl applied (.inr rfl) (fun revision hrevision => ?_) rfl
    cases hrevision
    exact le_rfl
  | liveResolution applied grow processed =>
    refine h.head processed grow rfl rfl (Nat.le_of_lt applied) (.inr rfl) (fun revision hrevision => ?_) rfl
    cases hrevision
    exact le_rfl
  | @raise cursor cursor' final unsettled before after item queue raised grow processed =>
    have hle : cursor.lastAppliedRevision ≤ cursor'.lastAppliedRevision := by
      obtain hsame | ⟨hlt, hitem⟩ := raised.lastApplied
      · exact Nat.le_of_eq hsame.symm
      · exact hitem ▸ Nat.le_of_lt hlt
    refine h.head processed grow rfl rfl hle (raised.lastApplied.imp_right And.right) (fun revision hrevision => ?_)
      raised.segment
    obtain hsame | ⟨hsome, -, happlied⟩ := raised.pending
    · exact (h.pending revision (hsame ▸ hrevision)).trans hle
    · cases hsome.symm.trans hrevision
      exact happlied
  | pop processed =>
    exact ⟨(List.pairwise_cons.mp h.sorted).2, fun other hmem => h.applied other (List.mem_cons_of_mem _ hmem),
      fun other hmem => h.beyond other (List.mem_cons_of_mem _ hmem), h.pending, h.segment,
      fun hpos => absurd h.settled_of_queue (Nat.pos_iff_ne_zero.mp hpos), h.stored⟩
  | @row before after queue pos row =>
    -- an unsettled row leaves the cursor and the queue without anything to acknowledge
    obtain ⟨hpending, hsegment, rfl⟩ := h.quiet pos
    have hpending' : after.cursor.pendingAckRevision = none := by rw [row.cursor]; exact hpending
    have hsegment' : after.cursor.pendingSegmentAckRevision = none := by rw [row.cursor]; exact hsegment
    refine ⟨.nil, by simp, by simp, by simp [hpending'], by simp [hsegment'], fun _ => ⟨hpending', hsegment', rfl⟩,
      fun hnone => ?_⟩
    have hzero := h.stored (row.final.symm.trans hnone)
    exact absurd hzero (Nat.pos_iff_ne_zero.mp pos)
  | finish applied needsAck =>
    refine ⟨h.sorted, fun item hmem hnot => h.beyond item hmem hnot _ rfl, h.beyond, fun revision hrevision => ?_,
      by simp, by simp, by simp⟩
    cases hrevision
    exact le_rfl
  | drop applied acked =>
    exact ⟨h.sorted, fun item hmem hnot => h.beyond item hmem hnot _ rfl, by simp,
      fun revision hrevision => (h.pending revision hrevision).trans applied, by simp, by simp, by simp⟩
  | segment idle =>
    refine ⟨h.sorted, h.applied, h.beyond, h.pending, fun revision hrevision => ?_, by simp, by simp⟩
    cases hrevision
    exact le_rfl

theorem moves {before after : AckView} (h : AckSafe before) (hmoves : Relation.ReflTransGen Move before after) :
    AckSafe after := by
  induction hmoves with
  | refl => exact h
  | tail _ hmove ih => exact ih.move hmove

theorem later_of_last (sorted : queue.Pairwise (·.revision < ·.revision))
    (order : ∀ last ∈ queue.getLast?, last.revision < item.revision) :
    ∀ other ∈ queue, other.revision < item.revision := by
  intro other hmem
  obtain ⟨front, last, rfl⟩ := (List.eq_nil_or_concat' queue).resolve_left (List.ne_nil_of_mem hmem)
  have hlast := order last (by simp)
  obtain hmem | hmem := List.mem_append.mp hmem
  · exact ((List.pairwise_append.mp sorted).2.2 other hmem last (by simp)).trans hlast
  · obtain rfl := List.mem_singleton.mp hmem
    exact hlast

theorem later_of_head {revision : WorkspaceRevision} (sorted : queue.Pairwise (·.revision < ·.revision))
    (ahead : ∀ first ∈ queue.head?, revision < first.revision) : ∀ other ∈ queue, revision < other.revision := by
  cases queue with
  | nil => simp
  | cons first rest =>
    have hfirst := ahead first rfl
    intro other hmem
    obtain rfl | hmem := List.mem_cons.mp hmem
    · exact hfirst
    · exact hfirst.trans ((List.pairwise_cons.mp sorted).1 other hmem)

theorem push {store : AckStore} (h : AckSafe ⟨store, queue⟩)
    (order : ∀ last ∈ queue.getLast?, last.revision < item.revision) (hsettled : store.unsettled = 0)
    (hfresh : ¬Processed store.receipts item →
      store.cursor.lastAppliedRevision < item.revision ∧ ∀ final ∈ store.final, final.revision < item.revision) :
    AckSafe ⟨store, queue ++ [item]⟩ := by
  have hlater := later_of_last h.sorted order
  refine ⟨?_, fun other hmem hnot => ?_, fun other hmem hnot => ?_, h.pending, h.segment,
    fun hpos => absurd hsettled (Nat.pos_iff_ne_zero.mp hpos), h.stored⟩
  · exact List.pairwise_append.mpr ⟨h.sorted, List.pairwise_singleton _ _, by simpa using hlater⟩
  · obtain hmem | hmem := List.mem_append.mp hmem
    · exact h.applied other hmem hnot
    · obtain rfl := List.mem_singleton.mp hmem
      exact (hfresh hnot).1
  · obtain hmem | hmem := List.mem_append.mp hmem
    · exact h.beyond other hmem hnot
    · obtain rfl := List.mem_singleton.mp hmem
      exact (hfresh hnot).2

theorem raise {before after : AckStore} {queue : List StreamRevisionItem} {revision : WorkspaceRevision}
    (h : AckSafe ⟨before, queue⟩) (hraised : RaisedTo revision before after) (hsettled : before.unsettled = 0)
    (ahead : (∀ first ∈ queue.head?, revision < first.revision) ∨ revision ≤ before.cursor.lastAppliedRevision) :
    AckSafe ⟨after, queue⟩ := by
  obtain ⟨raised, hfinal, hunsettled, grow⟩ := hraised
  have hzero : after.unsettled = 0 := hunsettled.trans hsettled
  have hbefore : ∀ other, ¬Processed after.receipts other → ¬Processed before.receipts other :=
    fun other hnot hprocessed => hnot (hprocessed.grow grow)
  have hle : before.cursor.lastAppliedRevision ≤ after.cursor.lastAppliedRevision := by
    obtain hsame | ⟨hlt, hitem⟩ := raised.lastApplied
    · exact Nat.le_of_eq hsame.symm
    · exact hitem ▸ Nat.le_of_lt hlt
  refine ⟨h.sorted, fun other hmem hnot => ?_, fun other hmem hnot => ?_, fun revision' hrevision => ?_,
    fun revision' hrevision => ?_, fun hpos => absurd hzero (Nat.pos_iff_ne_zero.mp hpos), fun _ => hzero⟩
  · have hold := h.applied other hmem (hbefore other hnot)
    obtain hsame | ⟨hlt, hitem⟩ := raised.lastApplied
    · exact hsame ▸ hold
    · obtain ahead | hpast := ahead
      · exact hitem ▸ later_of_head h.sorted ahead other hmem
      · exact absurd hlt (Nat.not_lt.mpr hpast)
  · exact h.beyond other hmem (hbefore other hnot) |> fun hold final hmem' => hold final (hfinal ▸ hmem')
  · obtain hsame | ⟨hsome, -, happlied⟩ := raised.pending
    · exact (h.pending revision' (hsame ▸ hrevision)).trans hle
    · cases hsome.symm.trans hrevision
      exact happlied
  · exact (h.segment revision' (raised.segment ▸ hrevision)).trans hle

end AckSafe

section

variable {F : Type} [Filesystem F] [Env]

/-- The deliveries after which acknowledgements stay safe. A live event needs a store without unsettled rows,
and a revision past the applied one and past the stored stream, unless it has its receipt. A new row of the
stored stream needs that nothing waits for acknowledgement and the live queue is empty. -/
def AckAllowed (engine : Engine F) : Call F → Prop
  | .event event => engine.db.unsettled = 0 ∧ (engine.db.eventReceiptMatch event = .ok .exact ∨
      engine.db.cursor.lastAppliedRevision < event.revision ∧
        ∀ active ∈ engine.db.stream, active.finalRevision < event.revision)
  | call => Stages engine call → engine.db.cursor.pendingAckRevision = none ∧
      engine.db.cursor.pendingSegmentAckRevision = none ∧ engine.pendingLiveEvents = []

omit [Filesystem F] in
theorem AckSafe.deliver {s : Engine F} {call : Call F} {view : AckView} (h : AckSafe s.ack)
    (hallowed : AckAllowed s call) (hdeliver : Deliver s call view) : AckSafe view := by
  have hidle : s.ack.store.final = none → s.ack.store.unsettled = 0 := h.stored
  cases hdeliver with
  | nothing => exact h
  | queueEvent order =>
    refine AckSafe.push h order hallowed.1 fun hnot => ?_
    obtain hexact | ⟨happlied, hbeyond⟩ := hallowed.2
    · exact absurd (Processed.of_eventReceiptMatch hexact) hnot
    · refine ⟨happlied, fun final hfinal => ?_⟩
      obtain ⟨active, hactive, rfl⟩ := Option.map_eq_some_iff.mp hfinal
      exact hbeyond active hactive
  | replayEvent raised ahead => exact AckSafe.raise h raised hallowed.1 (.inl ahead)
  | queueResolution idle order fresh =>
    refine AckSafe.push h order (hidle idle) fun hnot => ⟨fresh.resolve_left hnot, fun final hfinal => ?_⟩
    rw [idle] at hfinal
    cases hfinal
  | replayResolution idle raised ahead => exact AckSafe.raise h raised (hidle idle) ahead
  | @stage call after cursor final grow stored new =>
    have hquiet : 0 < after.unsettled → s.ack.store.cursor.pendingAckRevision = none ∧
        s.ack.store.cursor.pendingSegmentAckRevision = none ∧ s.ack.queue = [] := by
      intro hpos
      obtain hunsettled | hle | hstages := new
      · exact h.quiet hunsettled
      · exact h.quiet (Nat.lt_of_lt_of_le hpos hle)
      · have hnone : s.db.cursor.pendingAckRevision = none ∧ s.db.cursor.pendingSegmentAckRevision = none ∧
            s.pendingLiveEvents = [] := by
          cases call <;> first | exact hallowed hstages | exact absurd hstages (by simp [Stages])
        exact ⟨hnone.1, hnone.2.1, by simp [Engine.ack, hnone.2.2]⟩
    have hbefore : ∀ other, ¬Processed after.receipts other → ¬Processed s.ack.store.receipts other :=
      fun other hnot hprocessed => hnot (hprocessed.grow grow)
    refine ⟨h.sorted, fun item hmem hnot => ?_, fun item hmem hnot => ?_, ?_, ?_, fun hpos => ?_, fun hnone => ?_⟩
    · rw [cursor]
      exact h.applied item hmem (hbefore item hnot)
    · rw [final]
      exact h.beyond item hmem (hbefore item hnot)
    · rw [cursor]
      exact h.pending
    · rw [cursor]
      exact h.segment
    · rw [cursor]
      exact hquiet hpos
    · exact absurd (final.symm.trans hnone) stored
  | start rows =>
    have hzero : ∀ {unsettled}, unsettled = 0 ∨ s.ack.store.final = none ∧ unsettled = s.ack.store.unsettled →
        unsettled = 0 := by
      rintro unsettled (hzero | ⟨hnone, hsame⟩)
      · exact hzero
      · exact hsame.trans (h.stored hnone)
    exact ⟨.nil, by simp, by simp, h.pending, h.segment, fun hpos =>
      absurd (hzero rows) (Nat.pos_iff_ne_zero.mp hpos), by simp⟩
  | @finishing _ active stored =>
    refine ⟨h.sorted, h.applied, fun item hmem hnot final hfinal => ?_, h.pending, h.segment, h.quiet, by simp⟩
    cases hfinal
    exact h.beyond item hmem hnot ⟨active.finalRevision, active.endReceived⟩ (by simp [Engine.ack, Db.ack, stored])
  | accept grow =>
    have hbefore : ∀ {receipts} other, Receipts.Grow s.ack.store.receipts receipts → ¬Processed receipts other →
        ¬Processed s.ack.store.receipts other := fun other grow hnot hprocessed => hnot (hprocessed.grow grow)
    exact ⟨h.sorted, fun item hmem hnot => h.applied item hmem (hbefore item grow hnot),
      fun item hmem hnot => h.beyond item hmem (hbefore item grow hnot), h.pending, h.segment, h.quiet, h.stored⟩

omit [Env] in
theorem AckSafe.confirm {view view' : AckView} {revision : WorkspaceRevision} (h : AckSafe view)
    (hconfirm : Confirm view revision view') : AckSafe view' := by
  cases hconfirm with
  | nothing => exact h
  | segment idle segment acked applied =>
    refine ⟨h.sorted, h.applied, h.beyond, h.pending, by simp, fun hpos => ?_, h.stored⟩
    have hquiet := h.quiet hpos
    rw [segment] at hquiet
    cases hquiet.2.1
  | partly waiting below acked applied =>
    exact ⟨h.sorted, h.applied, h.beyond, h.pending, h.segment, h.quiet, h.stored⟩
  | pending waiting acked applied =>
    exact ⟨h.sorted, h.applied, by simp, by simp, by simp, by simp, by simp⟩

omit [Filesystem F] [Env] in
theorem AckSafe.initial (files : F) (operationIds : List OperationId) (timestamps : List Int) :
    AckSafe (Engine.initial files operationIds timestamps).ack := by
  refine ⟨.nil, by simp [Engine.ack, Engine.initial], by simp [Engine.ack, Engine.initial], ?_, ?_, ?_, fun _ => rfl⟩
  · simp [Engine.ack, Engine.initial, Db.ack, Db.initial]
  · simp [Engine.ack, Engine.initial, Db.ack, Db.initial]
  · intro hpos
    cases hpos

/-- The invariant along a run. -/
theorem AckSafe.run {files : F} {operationIds : List OperationId} {timestamps : List Int} {engine : Engine F}
    (run : Run AckAllowed (Engine.initial files operationIds timestamps) engine) : AckSafe engine.ack := by
  refine run.invariant (I := fun engine => AckSafe engine.ack) (AckSafe.initial _ _ _) fun s call hs hallowed => ?_
  obtain ⟨view, hdeliver, hmoves⟩ | ⟨message, -, hconfirm⟩ := s.effect_after call
  · exact (hs.deliver hallowed hdeliver).moves hmoves
  · exact hs.confirm hconfirm

end

end Lumio.Sync
