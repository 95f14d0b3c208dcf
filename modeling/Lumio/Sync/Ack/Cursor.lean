import Lumio.Sync.Ack.Calls

/-!
# The cursor

The acknowledged revision is not past the applied one, and an outstanding acknowledgement lies between them.
A live event is committed without a look at the acknowledged revision: what keeps the invariant is that no live
event without a receipt has that revision.
-/

namespace Lumio.Sync

open Lumio.Protocol Lumio.Fs Prog

structure WorkspaceCursor.Ordered (cursor : WorkspaceCursor) : Prop where
  acked : cursor.lastAckRevision ≤ cursor.lastAppliedRevision
  pending : ∀ revision ∈ cursor.pendingAckRevision,
    cursor.lastAckRevision < revision ∧ revision ≤ cursor.lastAppliedRevision

def CursorSafe (store : AckStore) : StreamRevisionItem → Prop
  | .event event => store.receipts.lookup (event.originClientId, event.operationId) = none →
      event.revision ≠ store.cursor.lastAckRevision
  | .conflictResolved _ => True

structure CursorView (view : AckView) : Prop where
  ordered : view.store.cursor.Ordered
  queue : ∀ item ∈ view.queue, CursorSafe view.store item

theorem WorkspaceCursor.Ordered.raised {before after : WorkspaceCursor} {revision : WorkspaceRevision}
    (h : before.Ordered) (raised : before.Raised after revision) : after.Ordered := by
  have hle : before.lastAppliedRevision ≤ after.lastAppliedRevision := by
    obtain hsame | ⟨hlt, hrevision⟩ := raised.lastApplied
    · exact Nat.le_of_eq hsame.symm
    · exact hrevision ▸ Nat.le_of_lt hlt
  constructor
  · rw [raised.lastAck]
    exact h.acked.trans hle
  · intro revision' hpending
    rw [raised.lastAck]
    obtain hsame | ⟨hsome, hacked, happlied⟩ := raised.pending
    · obtain ⟨hacked, happlied⟩ := h.pending revision' (hsame ▸ hpending)
      exact ⟨hacked, happlied.trans hle⟩
    · cases hsome.symm.trans hpending
      exact ⟨hacked, happlied⟩

theorem WorkspaceCursor.Ordered.commit {cursor : WorkspaceCursor} {revision : WorkspaceRevision}
    (hacked : cursor.lastAckRevision < revision) : (cursor.commit revision).Ordered := by
  constructor
  · exact Nat.le_of_lt hacked
  · intro revision' hpending
    cases hpending
    exact ⟨hacked, le_rfl⟩

theorem CursorSafe.grow {before after : AckStore} {item : StreamRevisionItem} (h : CursorSafe before item)
    (grow : Receipts.Grow before.receipts after.receipts)
    (lastAck : after.cursor.lastAckRevision = before.cursor.lastAckRevision) : CursorSafe after item := by
  cases item with
  | conflictResolved => trivial
  | event event =>
    intro hnone
    rw [lastAck]
    refine h ?_
    cases hlookup : before.receipts.lookup (event.originClientId, event.operationId) with
    | none => rfl
    | some record => rw [grow _ _ hlookup] at hnone; cases hnone

namespace CursorView

theorem write {before after : AckStore} {queue : List StreamRevisionItem} (h : CursorView ⟨before, queue⟩)
    (ordered : after.cursor.Ordered) (grow : Receipts.Grow before.receipts after.receipts)
    (lastAck : after.cursor.lastAckRevision = before.cursor.lastAckRevision) : CursorView ⟨after, queue⟩ :=
  ⟨ordered, fun item hmem => (h.queue item hmem).grow grow lastAck⟩

theorem move {before after : AckView} (h : CursorView before) (hmove : Move before after) : CursorView after := by
  cases hmove with
  | @liveEvent cursor final unsettled before after event queue missing applied grow processed =>
    refine h.write ?_ grow rfl
    have hne : event.revision ≠ cursor.lastAckRevision := h.queue (.event event) (List.mem_cons_self ..) missing
    exact .commit (Nat.lt_of_le_of_ne (h.ordered.acked.trans applied) hne.symm)
  | liveResolution applied grow processed =>
    exact h.write (.commit (Nat.lt_of_le_of_lt h.ordered.acked applied)) grow rfl
  | raise raised grow processed => exact h.write (h.ordered.raised raised) grow raised.lastAck
  | pop processed => exact ⟨h.ordered, fun item hmem => h.queue item (List.mem_cons_of_mem _ hmem)⟩
  | row pos row =>
    have hlastAck := congrArg WorkspaceCursor.lastAckRevision row.cursor
    have hpending := congrArg WorkspaceCursor.pendingAckRevision row.cursor
    refine h.write ⟨?_, fun revision hrevision => ?_⟩ row.receipts hlastAck
    · rw [hlastAck]
      exact h.ordered.acked.trans row.applied
    · obtain ⟨hacked, happlied⟩ := h.ordered.pending revision (hpending ▸ hrevision)
      rw [hlastAck]
      exact ⟨hacked, happlied.trans row.applied⟩
  | finish applied needsAck =>
    have hcommit := WorkspaceCursor.Ordered.commit needsAck
    exact h.write ⟨hcommit.acked, hcommit.pending⟩ (.refl _) rfl
  | drop applied acked =>
    refine h.write ⟨h.ordered.acked.trans applied, fun revision hrevision => ?_⟩ (.refl _) rfl
    obtain ⟨hacked, happlied⟩ := h.ordered.pending revision hrevision
    exact ⟨hacked, happlied.trans applied⟩
  | segment idle => exact h.write ⟨h.ordered.acked, h.ordered.pending⟩ (.refl _) rfl

theorem moves {before after : AckView} (h : CursorView before) (hmoves : Relation.ReflTransGen Move before after) :
    CursorView after := by
  induction hmoves with
  | refl => exact h
  | tail _ hmove ih => exact ih.move hmove

end CursorView

section

variable {F : Type} [Filesystem F] [Env]

/-- No live event of the acknowledged revision is processed without its receipt: neither one that waits in the
queue nor the one the call delivers. -/
def CursorAllowed (engine : Engine F) (call : Call F) : Prop :=
  (∀ pending ∈ engine.pendingLiveEvents, CursorSafe engine.db.ack pending.message) ∧
    ∀ event, call = .event event → CursorSafe engine.db.ack (.event event)

omit [Filesystem F] in
theorem CursorView.deliver {s : Engine F} {call : Call F} {view : AckView} (ordered : s.db.cursor.Ordered)
    (hallowed : CursorAllowed s call) (hdeliver : Deliver s call view) : CursorView view := by
  have hview : CursorView s.ack := by
    refine ⟨ordered, fun item hmem => ?_⟩
    obtain ⟨pending, hpending, rfl⟩ := List.mem_map.mp hmem
    exact hallowed.1 pending hpending
  cases hdeliver with
  | nothing => exact hview
  | queueEvent order =>
    refine ⟨ordered, fun item hmem => ?_⟩
    obtain hmem | hmem := List.mem_append.mp hmem
    · exact hview.queue item hmem
    · obtain rfl := List.mem_singleton.mp hmem
      exact hallowed.2 _ rfl
  | replayEvent raised ahead => exact hview.write (ordered.raised raised.1) raised.2.2.2 raised.1.lastAck
  | queueResolution idle order fresh =>
    refine ⟨ordered, fun item hmem => ?_⟩
    obtain hmem | hmem := List.mem_append.mp hmem
    · exact hview.queue item hmem
    · obtain rfl := List.mem_singleton.mp hmem
      trivial
  | replayResolution idle raised ahead =>
    exact hview.write (ordered.raised raised.1) raised.2.2.2 raised.1.lastAck
  | stage cursor final grow stored new =>
    refine hview.write ?_ grow (congrArg _ cursor)
    rw [cursor]
    exact ordered
  | start rows => exact ⟨ordered, by simp⟩
  | finishing stored => exact hview.write ordered (.refl _) rfl
  | accept grow => exact hview.write ordered grow rfl

omit [Env] in
theorem WorkspaceCursor.Ordered.confirm {view view' : AckView} {revision : WorkspaceRevision}
    (h : view.store.cursor.Ordered) (hconfirm : Confirm view revision view') : view'.store.cursor.Ordered := by
  cases hconfirm with
  | nothing => exact h
  | segment idle segment acked applied =>
    refine ⟨applied, fun revision' hpending => ?_⟩
    have hpending : view.store.cursor.pendingAckRevision = some revision' := hpending
    rw [idle] at hpending
    cases hpending
  | partly waiting below acked applied =>
    refine ⟨applied, fun revision' hpending => ?_⟩
    have hpending : view.store.cursor.pendingAckRevision = some revision' := hpending
    obtain ⟨-, happlied⟩ := h.pending revision' hpending
    cases waiting.symm.trans hpending
    exact ⟨below, happlied⟩
  | pending waiting acked applied => exact ⟨applied, by simp⟩

/-- The invariant along a run. -/
theorem WorkspaceCursor.Ordered.run {files : F} {operationIds : List OperationId} {timestamps : List Int}
    {engine : Engine F} (run : Run CursorAllowed (Engine.initial files operationIds timestamps) engine) :
    engine.db.cursor.Ordered := by
  refine run.invariant (I := fun engine => engine.db.cursor.Ordered) ⟨le_rfl, by simp [Engine.initial, Db.initial]⟩
    fun s call hs hallowed => ?_
  obtain ⟨view, hdeliver, hmoves⟩ | ⟨message, -, hconfirm⟩ := s.effect_after call
  · exact ((CursorView.deliver hs hallowed hdeliver).moves hmoves).ordered
  · have hordered : s.ack.store.cursor.Ordered := hs
    exact hordered.confirm hconfirm

omit [Filesystem F] in
theorem ackConfirmed_of_ordered {engine : Engine F} {revision : WorkspaceRevision}
    (h : engine.db.cursor.Ordered) (hpending : engine.db.cursor.pendingAckRevision = some revision)
    (hopen : engine.closed = false) :
    ∃ after, ackConfirmed ⟨Env.workspaceId, Env.clientId, revision⟩ engine = .ok () after ∧ after.db.stream = none := by
  obtain ⟨hacked, happlied⟩ := h.pending revision hpending
  have hmatch : ¬(revision ≤ engine.db.cursor.lastAckRevision ∨ revision < revision ∨
      engine.db.cursor.lastAppliedRevision < revision) := by
    simp only [not_or, Nat.not_le, Nat.not_lt]
    exact ⟨hacked, le_rfl, happlied⟩
  have hregress : ¬revision < engine.db.cursor.lastAckRevision := Nat.not_lt.mpr (Nat.le_of_lt hacked)
  have hwp : wp (ackConfirmed (F := F) ⟨Env.workspaceId, Env.clientId, revision⟩) (fun _ after => after.db.stream = none)
      (fun _ _ => False) engine := by
    simp only [ackConfirmed, ensureOpen, validateIdentity, wp_bind, wp_get, hopen, hpending, ne_eq, not_true_eq_false,
      or_self, Bool.false_eq_true, if_false, wp_pure, hmatch]
    rw [wp_transaction]
    simp only [setLastAckRevision, wp_bind, wp_get, hregress, if_false, wp_set, wp_onlyIf]
    exact ⟨fun _ => rfl, fun hpartly => by simp at hpartly⟩
  obtain ⟨_, after, hafter, hcleared⟩ := exists_ok_of_wp hwp
  exact ⟨after, hafter, hcleared⟩

/-- The acknowledged revision is not past the applied one, an outstanding acknowledgement lies between them, and
its confirmation succeeds while the engine is open. -/
def Engine.ConfirmsPending (engine : Engine F) : Prop :=
  engine.db.cursor.lastAckRevision ≤ engine.db.cursor.lastAppliedRevision ∧
    ∀ revision, engine.db.cursor.pendingAckRevision = some revision →
      engine.db.cursor.lastAckRevision < revision ∧ revision ≤ engine.db.cursor.lastAppliedRevision ∧
      (engine.closed = false →
        ∃ after, ackConfirmed ⟨Env.workspaceId, Env.clientId, revision⟩ engine = .ok () after)

/-- The outstanding acknowledgement can be confirmed along every run of allowed calls. -/
theorem confirms_pending {files : F} {operationIds : List OperationId} {timestamps : List Int}
    {engine : Engine F} (run : Run CursorAllowed (Engine.initial files operationIds timestamps) engine) :
    engine.ConfirmsPending := by
  have hordered := WorkspaceCursor.Ordered.run run
  refine ⟨hordered.acked, fun revision hpending => ?_⟩
  obtain ⟨hacked, happlied⟩ := hordered.pending revision hpending
  refine ⟨hacked, happlied, fun hopen => ?_⟩
  obtain ⟨after, hafter, -⟩ := ackConfirmed_of_ordered hordered hpending hopen
  exact ⟨after, hafter⟩

end

section

open scoped Sample

/-- The revision of the stream waits for acknowledgement, and a later event for its content. -/
theorem confirms_pending_of_event :
    (Sample.waitingEngine.db.cursor.pendingAckRevision = some 3 ∧ Sample.waitingEngine.db.stream.isSome ∧
      Sample.waitingEngine.pendingLiveEvents.map (·.message) = [.event (Sample.writing Sample.pathB 5 [1, 2, 3])]) ∧
    Sample.waitingEngine.ConfirmsPending := by
  constructor
  · decide +kernel
  · have hquiet : ∀ (engine : Engine Disk) (call : Call Disk), engine.pendingLiveEvents.isEmpty = true →
        (∀ event, call = .event event → CursorSafe engine.db.ack (.event event)) → CursorAllowed engine call := by
      refine fun engine call hqueue hevent => ⟨fun pending hmem => ?_, hevent⟩
      rw [List.isEmpty_iff.mp hqueue] at hmem
      cases hmem
    refine confirms_pending (.step (.step (.step (.step (.refl _) (hquiet _ _ rfl ?_)) (hquiet _ _ ?_ ?_))
      (hquiet _ _ ?_ ?_)) (hquiet _ _ ?_ ?_))
    · exact fun event hevent => by cases hevent
    · decide +kernel
    · exact fun event hevent => by cases hevent
    · decide +kernel
    · exact fun event hevent => by cases hevent
    · decide +kernel
    · intro event hevent
      cases hevent
      intro _
      decide +kernel

/-- An empty snapshot of revision 3 is received and acknowledged, and then the event of revision 3 arrives. -/
def redeliveredEngine : Engine Disk :=
  (((Sample.engine.after (.snapshotBegin ⟨1, 7, .snapshot, 0, 3, 0, 0, 0⟩)).after
    (.snapshotEnd ⟨1, 7, .snapshot, 0, 3⟩)).after (.ackConfirmed ⟨1, 1, 3⟩)).after
    (.event (Sample.deletion Sample.pathA 3))

theorem not_confirmsPending_redeliveredEngine :
    Run (fun _ _ => True) Sample.engine redeliveredEngine ∧ ¬redeliveredEngine.ConfirmsPending := by
  constructor
  · exact .step (.step (.step (.step (.refl _) trivial) trivial) trivial) trivial
  · rintro ⟨-, hpending⟩
    have hcursor : redeliveredEngine.db.cursor.pendingAckRevision = some 3 ∧
        redeliveredEngine.db.cursor.lastAckRevision = 3 := by decide +kernel
    have hacked := (hpending 3 hcursor.1).1
    rw [hcursor.2] at hacked
    exact absurd hacked (Nat.lt_irrefl 3)

end

end Lumio.Sync
