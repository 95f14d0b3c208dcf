import Lumio.Protocol.Valid
import Lumio.Sync.Ack.Work
import Lumio.Sync.Run

/-!
# Calls and the acknowledgement view

A call first delivers its message, which is one write of its own kind, and then works.
-/

namespace Lumio.Sync

open Lumio.Protocol Lumio.Fs Prog

variable {F : Type} [Filesystem F] [Env]

/-- A call that stages a new row of the stored stream which its receipt does not settle at once. -/
def Stages (engine : Engine F) : Call F → Prop
  | .snapshotEntry message => engine.db.entries.lookup message.index = none
  | .workspaceEvent message => engine.db.storedItem message.streamId message.revision = none ∧
      engine.db.eventReceiptMatch message ≠ .ok .exact
  | .conflictResolved message => ∃ active, engine.db.stream = some active ∧
      engine.db.storedItem active.streamId message.revision = none ∧
      engine.db.inboundConflictResolutionReceiptMatch message ≠ .ok .exact
  | _ => False

/-- What the delivery of a call's message does to the view. -/
inductive Deliver (engine : Engine F) : Call F → AckView → Prop where
  | nothing {call : Call F} : Deliver engine call engine.ack
  /-- A live event joins the queue. -/
  | queueEvent {event : WorkspaceEventMessage} (order : ∀ last ∈ engine.ack.queue.getLast?, last.revision < event.revision) :
      Deliver engine (.event event) ⟨engine.ack.store, engine.ack.queue ++ [StreamRevisionItem.event event]⟩
  /-- A live event that has its receipt moves the cursor at most. -/
  | replayEvent {event : WorkspaceEventMessage} {after} (raised : RaisedTo event.revision engine.ack.store after)
      (ahead : ∀ first ∈ engine.ack.queue.head?, event.revision < first.revision) :
      Deliver engine (.event event) ⟨after, engine.ack.queue⟩
  /-- A live resolution joins the queue. -/
  | queueResolution {message : WorkspaceConflictResolvedMessage} (idle : engine.ack.store.final = none)
      (order : ∀ last ∈ engine.ack.queue.getLast?, last.revision < message.revision)
      (fresh : Processed engine.ack.store.receipts (.conflictResolved message) ∨
        engine.ack.store.cursor.lastAppliedRevision < message.revision) :
      Deliver engine (.conflictResolved message) ⟨engine.ack.store, engine.ack.queue ++ [StreamRevisionItem.conflictResolved message]⟩
  /-- A live resolution that has its receipt, or that a newer generation has overtaken. -/
  | replayResolution {message after} (idle : engine.ack.store.final = none)
      (raised : RaisedTo message.revision engine.ack.store after)
      (ahead : (∀ first ∈ engine.ack.queue.head?, message.revision < first.revision) ∨
        message.revision ≤ engine.ack.store.cursor.lastAppliedRevision) :
      Deliver engine (.conflictResolved message) ⟨after, engine.ack.queue⟩
  /-- An item of the stored stream is staged or moved. -/
  | stage {call after} (cursor : after.cursor = engine.ack.store.cursor) (final : after.final = engine.ack.store.final)
      (grow : Receipts.Grow engine.ack.store.receipts after.receipts) (stored : engine.ack.store.final ≠ none)
      (new : 0 < engine.ack.store.unsettled ∨ after.unsettled ≤ engine.ack.store.unsettled ∨ Stages engine call) :
      Deliver engine call ⟨after, engine.ack.queue⟩
  /-- A stream begins. -/
  | start {message unsettled} (rows : unsettled = 0 ∨
        engine.ack.store.final = none ∧ unsettled = engine.ack.store.unsettled) :
      Deliver engine (.snapshotBegin message)
        ⟨⟨engine.ack.store.cursor, some ⟨message.finalRevision, false⟩, unsettled, engine.ack.store.receipts⟩, []⟩
  /-- The end of the stored stream is received. -/
  | finishing {message} {active : StreamState} (stored : engine.db.stream = some active) :
      Deliver engine (.snapshotEnd message)
        ⟨{ engine.ack.store with final := some ⟨active.finalRevision, true⟩ }, engine.ack.queue⟩
  /-- The receipt of an accepted mutation. -/
  | accept {accepted receipts} (grow : Receipts.Grow engine.ack.store.receipts receipts) :
      Deliver engine (.mutationAccepted accepted) ⟨{ engine.ack.store with receipts }, engine.ack.queue⟩

/-- What the confirmation of an acknowledgement does to the view. -/
inductive Confirm (view : AckView) (revision : WorkspaceRevision) : AckView → Prop where
  | nothing : Confirm view revision view
  | segment (idle : view.store.cursor.pendingAckRevision = none)
      (segment : view.store.cursor.pendingSegmentAckRevision = some revision)
      (acked : view.store.cursor.lastAckRevision < revision)
      (applied : revision ≤ view.store.cursor.lastAppliedRevision) :
      Confirm view revision ⟨{ view.store with cursor := { view.store.cursor with
        lastAckRevision := revision, pendingSegmentAckRevision := none } }, view.queue⟩
  | partly {pending} (waiting : view.store.cursor.pendingAckRevision = some pending) (below : revision < pending)
      (acked : view.store.cursor.lastAckRevision < revision)
      (applied : revision ≤ view.store.cursor.lastAppliedRevision) :
      Confirm view revision ⟨{ view.store with cursor := { view.store.cursor with lastAckRevision := revision } },
        view.queue⟩
  | pending (waiting : view.store.cursor.pendingAckRevision = some revision)
      (acked : view.store.cursor.lastAckRevision < revision)
      (applied : revision ≤ view.store.cursor.lastAppliedRevision) :
      Confirm view revision ⟨⟨{ view.store.cursor with
        lastAckRevision := revision, pendingAckRevision := none, pendingSegmentAckRevision := none },
        none, 0, view.store.receipts⟩, view.queue⟩

def Delivered (s : Engine F) (call : Call F) (t : Engine F) : Prop :=
  ∃ view, Deliver s call view ∧ Relation.ReflTransGen Move view t.ack

variable {t : Engine F} (db : Db) (s : Engine F) (message : WorkspaceConflictResolvedMessage) (active : StreamState)

section

omit [Filesystem F]

theorem Delivered.of_moved {s : Engine F} {call : Call F} (h : Moved s t) : Delivered s call t :=
  ⟨s.ack, .nothing, h⟩

theorem Delivered.of_ack {s : Engine F} {call : Call F} (h : t.ack = s.ack) : Delivered s call t :=
  .of_moved (.of_ack h)

theorem Working.delivered {α : Type} {m : EngineM F α} (hm : Working m) {s : Engine F} {call : Call F}
    (h : Deliver s call t.ack) : wp m (fun _ u => Delivered s call u) (fun _ u => Delivered s call u) t :=
  wp_mono (hm t) (fun _ _ hu => ⟨_, h, hu⟩) (fun _ _ hu => ⟨_, h, hu⟩)

theorem Working.call {α : Type} {m : EngineM F α} (hm : Working m) (s : Engine F) (call : Call F) :
    wp m (fun _ u => Delivered s call u) (fun _ u => Delivered s call u) s :=
  hm.delivered .nothing

end

/-! ## Live messages -/

theorem enqueueLiveMessage_wp {s : Engine F} {call : Call F} (message : StreamRevisionItem)
    (hqueue : (∀ last ∈ s.ack.queue.getLast?, last.revision < message.revision) →
      Deliver s call ⟨s.ack.store, s.ack.queue ++ [message]⟩) :
    wp (enqueueLiveMessage message) (fun _ t => Delivered s call t) (fun _ t => Delivered s call t) s := by
  unfold enqueueLiveMessage
  rw [wp_bind, wp_get]
  split
  · split
    · exact .of_ack rfl
    · exact (resumeInboundWork_working _ _).call s call
  rename_i hfind
  split
  · exact .of_ack rfl
  rename_i hlast
  dsimp only
  split
  · exact .of_ack rfl
  rw [wp_bind, wp_set]
  refine (resumeInboundWork_working _ _).delivered ?_
  have hview : Engine.ack { s with
      pendingLiveEvents := s.pendingLiveEvents ++ [PendingLiveItem.mk message (Env.itemLength message)]
      pendingLiveSerializedBytes := s.pendingLiveSerializedBytes + Env.itemLength message } =
      ⟨s.ack.store, s.ack.queue ++ [message]⟩ := by
    simp only [Engine.ack, List.map_append, List.map_cons, List.map_nil]
  rw [hview]
  refine hqueue fun last hmem => ?_
  -- the last item is neither of the same revision nor of a later one
  simp only [Engine.ack, List.getLast?_map, Option.mem_def, Option.map_eq_some_iff] at hmem
  obtain ⟨item, hitem, rfl⟩ := hmem
  have hne := List.find?_eq_none.mp hfind item (List.mem_of_getLast? hitem)
  have hle : ¬ message.revision < item.message.revision := fun hlt => hlast (by simp [hitem, hlt])
  simp only [decide_eq_true_eq] at hne
  exact Nat.lt_of_le_of_ne (Nat.le_of_not_lt hle) hne

omit [Filesystem F] [Env] in
theorem ahead_of_not_precedes {s : Engine F} {revision : WorkspaceRevision}
    (h : (!pendingLiveRevisionPrecedesOrMatches s revision) = true) :
    ∀ first ∈ s.ack.queue.head?, revision < first.revision := by
  intro first hfirst
  simp only [Engine.ack, List.head?_map, Option.mem_def, Option.map_eq_some_iff] at hfirst
  obtain ⟨item, hitem, rfl⟩ := hfirst
  simp only [pendingLiveRevisionPrecedesOrMatches, hitem, Option.any_some, Bool.not_eq_true',
    decide_eq_false_iff_not] at h
  exact Nat.lt_of_not_le h

omit [Filesystem F] in
theorem CaughtUp.delivered {s : Engine F} {call : Call F} {revision : WorkspaceRevision} (h : CaughtUp revision s t)
    (hdeliver : Deliver s call ⟨t.ack.store, s.ack.queue⟩) : Delivered s call t := by
  rw [← h.1] at hdeliver
  exact ⟨t.ack, hdeliver, .refl⟩

omit [Filesystem F] [Env] in
theorem wp_validated {β : Type} {valid : Except WorkspaceValidationError Unit} {invalid refused : SyncError}
    {condition : Bool} {rest : EngineM F β} {Q : β → Engine F → Prop} {E : SyncError → Engine F → Prop} {s : Engine F}
    (h : wp rest Q E s) (hE : ∀ e, E e s) :
    wp (do ensureOpen; requireValid valid invalid; requireThat condition refused; rest) Q E s := by
  refine ensureOpen_keeps.wp_check (fun _ => ?_) hE
  refine (requireValid_keeps _ _).wp_check (fun _ => ?_) hE
  exact (requireThat_keeps _ _).wp_check (fun _ => h) hE

theorem event_wp (message : WorkspaceEventMessage) :
    wp (event message) (fun _ t => Delivered s (.event message) t) (fun _ t => Delivered s (.event message) t) s := by
  have hsame : Delivered s (.event message) s := .of_ack rfl
  have henqueue : wp (enqueueLiveMessage (.event message)) (fun _ t => Delivered s (.event message) t)
      (fun _ t => Delivered s (.event message) t) s := enqueueLiveMessage_wp (.event message) .queueEvent
  unfold event
  refine wp_validated ?_ (fun _ => hsame)
  rw [wp_bind]
  refine wp_readDb (fun receiptMatch hmatch => ?_) (fun e => hsame)
  rw [wp_bind, wp_get]
  cases receiptMatch with
  | missing =>
    dsimp only
    split
    · exact hsame
    · exact henqueue
  | exact =>
    dsimp only
    split
    · rename_i hahead
      rw [wp_bind]
      refine wp_mono (markLiveEventApplied_wp message.revision) (fun _ t ht => ?_) (fun e t h => h ▸ hsame)
      exact ht.delivered (.replayEvent ht.2 (ahead_of_not_precedes hahead))
    · exact henqueue

theorem conflictResolvedLive_wp (hidle : s.db.stream = none) :
    wp (conflictResolvedLive message) (fun _ t => Delivered s (.conflictResolved message) t)
      (fun _ t => Delivered s (.conflictResolved message) t) s := by
  have hsame : Delivered s (.conflictResolved message) s := .of_ack rfl
  have hidle : s.ack.store.final = none := by simp only [Engine.ack, Db.ack, hidle, Option.map_none]
  unfold conflictResolvedLive
  rw [wp_bind]
  refine wp_readDb (fun receiptMatch hmatch => ?_) (fun e => hsame)
  rw [wp_bind, wp_get]
  split
  · rename_i hexact
    rw [wp_bind]
    refine wp_mono (settleExactConflictResolutionReplay_wp message) (fun _ t ht => ?_) (fun e t h => h ▸ hsame)
    exact ht.delivered (.replayResolution hidle ht.2 (.inl (ahead_of_not_precedes hexact.2)))
  split
  · rename_i hmissing
    rw [wp_bind]
    refine wp_readDb (fun cleanup _ => ?_) (fun e => hsame)
    split
    · rw [wp_bind]
      refine wp_mono (commitSupersededLiveConflictResolution_wp message cleanup) (fun _ t ht => ?_)
        (fun e t h => h ▸ hsame)
      exact ht.1.delivered (.replayResolution hidle ht.1.2 (.inr hmissing.2))
    · exact hsame
  · rename_i hfresh
    refine enqueueLiveMessage_wp _ fun horder => .queueResolution hidle horder ?_
    cases receiptMatch with
    | exact => exact .inl (.of_inboundReceiptMatch hmatch)
    | missing => exact .inr (Nat.lt_of_not_le fun hle => hfresh ⟨rfl, hle⟩)

/-! ## Rows of the stored stream -/

/-- What staging a row does: the row was there and unsettled, or it is settled, or it was absent. -/
def StagedRow (absent : Prop) (before after : Db) : Prop :=
  AckStore.Row before.ack after.ack ∧ after.cursor = before.cursor ∧ before.ack.final ≠ none ∧
    (0 < before.unsettled ∨ after.unsettled ≤ before.unsettled ∨ absent)

omit [Filesystem F] in
theorem putStreamEntry_staged (entry : WorkspaceSnapshotEntryMessage) (status : StreamItemStatus) :
    wp (putStreamEntry entry status) (fun _ db' => StagedRow (db.entries.lookup entry.index = none) db db')
      (fun _ _ => True) db := by
  refine wp_mono (wp_and (RowTx.putStreamEntry entry status db) (putStreamEntry_wp entry status db))
    (fun _ after h => ?_) (fun _ _ _ => trivial)
  obtain ⟨hrow, h⟩ := h
  have hstored : ∀ {active : StreamState}, db.stream = some active → db.ack.final ≠ none := fun hactive => by
    simp [Db.ack, hactive]
  cases h with
  | settled hactive => exact ⟨hrow, rfl, hstored hactive, .inr (.inl le_rfl)⟩
  | moved hactive hexisting _ hmoves =>
    have hpos : 0 < Table.count (!·.status.settled) db.entries :=
      Table.count_pos_of_mem (Table.mem_values_iff.mpr ⟨_, hexisting⟩) (by simp [hmoves.1])
    exact ⟨hrow, rfl, hstored hactive, .inl (Nat.lt_of_lt_of_le hpos (Nat.le_add_right _ _))⟩
  | added hactive _ hfollows => exact ⟨hrow, rfl, hstored hactive, .inr (.inr hfollows.fresh)⟩

omit [Env] in
theorem putStreamRevisionItem_staged (streamId : StreamId) (item : StreamRevisionItem) (status : StreamItemStatus) :
    wp (putStreamRevisionItem streamId item status)
      (fun _ db' => StagedRow (db.storedItem streamId item.revision = none ∧ status.settled = false) db db')
      (fun _ _ => True) db := by
  refine wp_mono (wp_and (RowTx.putStreamRevisionItem streamId item status db)
    (putStreamRevisionItem_wp streamId item status db)) (fun _ after h => ?_) (fun _ _ _ => trivial)
  obtain ⟨hrow, h⟩ := h
  have hstored : ∀ {active : StreamState}, db.stream = some active → db.ack.final ≠ none := fun hactive => by
    simp [Db.ack, hactive]
  cases h with
  | settled hactive => exact ⟨hrow, rfl, hstored hactive, .inr (.inl le_rfl)⟩
  | moved hactive hexisting _ _ hmoves =>
    have hpos : 0 < Table.count (!·.status.settled) db.items :=
      Table.count_pos_of_mem (Table.mem_values_iff.mpr ⟨_, hexisting⟩) (by simp [hmoves.1])
    exact ⟨hrow, rfl, hstored hactive, .inl (Nat.lt_of_lt_of_le hpos (Nat.le_add_left _ _))⟩
  | added hactive _ _ hfollows =>
    refine ⟨hrow, rfl, hstored hactive, .inr ?_⟩
    cases hstatus : status.settled with
    | false =>
      refine .inr ⟨?_, rfl⟩
      simp only [Db.storedItem, hactive, hfollows.fresh]
      split <;> rfl
    | true =>
      refine .inl (Nat.add_le_add_left (Table.count_insert_le ?_) _)
      simp only [StreamRevisionItem.row, hstatus, Bool.not_true]

theorem putStreamEvent_staged (event : WorkspaceEventMessage) (status : StreamItemStatus) :
    wp (putStreamEvent event status)
      (fun _ db' => StagedRow (db.storedItem event.streamId event.revision = none ∧ status.settled = false) db db')
      (fun _ _ => True) db := by
  unfold putStreamEvent
  split
  · trivial
  split
  · trivial
  · exact putStreamRevisionItem_staged db event.streamId (.event event) status

theorem putStreamConflictResolved_staged (message : WorkspaceConflictResolvedMessage) (status : StreamItemStatus)
    (hactive : db.stream = some active) :
    wp (putStreamConflictResolved message status) (fun _ db' => StagedRow
        (db.storedItem active.streamId message.revision = none ∧ status.settled = false) db db')
      (fun _ _ => True) db := by
  unfold putStreamConflictResolved
  split
  · trivial
  split
  · trivial
  · simp only [wp_bind, wp_get, hactive]
    exact putStreamRevisionItem_staged db active.streamId (.conflictResolved message) status

omit [Filesystem F] in
theorem StagedRow.deliver {s : Engine F} {call : Call F} {absent : Prop} {db : Db} (h : StagedRow absent t.db db)
    (hack : t.ack = s.ack) (habsent : absent → Stages s call) : Deliver s call (Engine.ack { t with db }) := by
  have hstore : t.db.ack = s.ack.store := congrArg AckView.store hack
  have hqueue : t.ack.queue = s.ack.queue := congrArg AckView.queue hack
  have hunsettled : t.db.unsettled = s.ack.store.unsettled := congrArg AckStore.unsettled hstore
  obtain ⟨hrow, hcursor, hfinal, hnew⟩ := h
  rw [hstore] at hrow hfinal
  rw [hunsettled] at hnew
  have hcursor : db.ack.cursor = s.ack.store.cursor := hcursor.trans (congrArg AckStore.cursor hstore)
  have hdeliver : Deliver s call ⟨db.ack, s.ack.queue⟩ :=
    .stage hcursor hrow.final hrow.receipts hfinal (hnew.imp_right (Or.imp_right habsent))
  rw [← hqueue] at hdeliver
  exact hdeliver

/-! ## Stream messages -/

theorem snapshotEntry_wp (message : WorkspaceSnapshotEntryMessage) :
    wp (snapshotEntry message) (fun _ t => Delivered s (.snapshotEntry message) t)
      (fun _ t => Delivered s (.snapshotEntry message) t) s := by
  have hsame : Delivered s (.snapshotEntry message) s := .of_ack rfl
  unfold snapshotEntry
  refine wp_validated ?_ (fun _ => hsame)
  refine (statusForState_keeps _).wp_check (fun status => ?_) (fun _ => hsame)
  rw [wp_bind]
  refine wp_transaction_of ?_ (fun _ => hsame)
  refine wp_mono (putStreamEntry_staged s.db message status) (fun staged db hdb => ?_) (fun _ _ h => h)
  have hdeliver : Deliver s (.snapshotEntry message) (Engine.ack { s with db }) := hdb.deliver rfl (fun h => h)
  split
  · exact ⟨_, hdeliver, .refl⟩
  · exact (Working.bind (resumeInboundWork_working _ _) fun _ => .of_core (.pure _)).delivered hdeliver

theorem workspaceEvent_wp (message : WorkspaceEventMessage) :
    wp (workspaceEvent message) (fun _ t => Delivered s (.workspaceEvent message) t)
      (fun _ t => Delivered s (.workspaceEvent message) t) s := by
  have hsame : Delivered s (.workspaceEvent message) s := .of_ack rfl
  unfold workspaceEvent
  refine wp_validated ?_ (fun _ => hsame)
  rw [wp_bind, wp_get]
  dsimp only
  split
  · exact hsame
  split
  · exact hsame
  split
  · exact hsame
  rw [wp_bind]
  refine wp_readDb (fun receiptMatch hmatch => ?_) (fun _ => hsame)
  split
  · rw [wp_bind]
    refine wp_transaction_of ?_ (fun _ => hsame)
    refine wp_mono (putStreamEvent_staged s.db message .applied) (fun _ db hdb => ?_) (fun _ _ h => h)
    exact (resumeInboundWork_working _ _).delivered (hdb.deliver rfl fun h => by cases h.2)
  · rename_i hexact
    have hnew : s.db.eventReceiptMatch message ≠ .ok .exact := by
      intro h
      rw [h] at hmatch
      cases hmatch
      exact hexact rfl
    -- observing the workspace leaves the rows alone
    have hrows : ∀ t : Engine F, t.core = s.core →
        t.db.storedItem message.streamId message.revision = s.db.storedItem message.streamId message.revision := by
      intro t ht
      exact congrArg (fun core : Engine Unit => core.db.storedItem message.streamId message.revision) ht
    have hrest : ∀ (t : Engine F) status, t.core = s.core →
        wp (do
            let _ ← transaction (putStreamEvent message status)
            let commands ← resumeInboundWork Env.limits.maxItemsPerCall false
            pure (withDownload commands status (some message.operationId) (requiredContent message.pathState)))
          (fun _ u => Delivered s (.workspaceEvent message) u) (fun _ u => Delivered s (.workspaceEvent message) u)
          t := by
      intro t status ht
      rw [wp_bind]
      refine wp_transaction_of ?_ (fun _ => .of_ack (Engine.ack_of_core ht))
      refine wp_mono (putStreamEvent_staged t.db message status) (fun _ db hdb => ?_) (fun _ _ h => h)
      refine (Working.bind (resumeInboundWork_working _ _) fun _ => .of_core (.pure _)).delivered ?_
      exact hdb.deliver (Engine.ack_of_core ht) fun h => ⟨(hrows t ht).symm.trans h.1, hnew⟩
    refine (eventIsDiverged_keeps message).wp_bind (fun diverged t ht => ?_)
      (fun _ _ h => .of_ack (Engine.ack_of_core h))
    cases diverged with
    | true => exact hrest t .ready ht
    | false =>
      refine (statusForState_keeps message.pathState).wp_check (fun status => hrest t status ht) (fun _ => ?_)
      exact .of_ack (Engine.ack_of_core ht)

omit [Filesystem F] in
theorem settleExactStream_wp (hactive : s.db.stream = some active) :
    wp (settleExactConflictResolutionReplay message .stream)
      (fun _ t => Deliver s (.conflictResolved message) t.ack) (fun _ t => t = s) s := by
  unfold settleExactConflictResolutionReplay
  rw [wp_bind]
  refine wp_readDb (fun (matchingConflict, cleanup) _ => ?_) (fun _ => rfl)
  rw [wp_bind, wp_get]
  refine wp_transaction_of ?_ (fun _ => rfl)
  refine ((cleanupConflictResolution_keeps _ _).onlyIf _).wp_bind (fun _ db₁ h₁ => ?_) (fun _ _ _ => trivial)
  refine ((forTx_keeps removeOutbox_keeps).onlyIf _).wp_bind (fun _ db₂ h₂ => ?_) (fun _ _ _ => trivial)
  have hcore := h₂.trans h₁
  have hactive₂ : db₂.stream = some active := (congrArg Db.stream hcore).trans hactive
  rw [settleResolutionSource]
  refine wp_seq (putStreamConflictResolved_staged db₂ active message .applied hactive₂) fun _ db hdb => ?_
  exact StagedRow.deliver (t := { s with db := db₂ }) hdb (congrArg (AckView.mk · _) (Db.ack_of_core hcore))
    fun h => by cases h.2

theorem conflictResolvedStream_wp (hactive : s.db.stream = some active) :
    wp (conflictResolvedStream message active) (fun _ t => Delivered s (.conflictResolved message) t)
      (fun _ t => Delivered s (.conflictResolved message) t) s := by
  have hsame : Delivered s (.conflictResolved message) s := .of_ack rfl
  unfold conflictResolvedStream
  rw [wp_bind, wp_get]
  dsimp only
  split
  · exact hsame
  · -- the row is applied already
    rw [wp_bind]
    refine wp_readDb (fun receiptMatch hmatch => ?_) (fun _ => hsame)
    rw [wp_bind, wp_onlyIf]
    refine ⟨fun _ => ?_, fun _ => hsame⟩
    exact wp_mono (settleExactStream_wp s message active hactive) (fun _ t h => ⟨t.ack, h, .refl⟩)
      (fun _ t h => h ▸ hsame)
  · exact hsame
  · rw [wp_bind]
    refine wp_readDb (fun receiptMatch hmatch => ?_) (fun _ => hsame)
    split
    · rw [wp_bind]
      exact wp_mono (settleExactStream_wp s message active hactive)
        (fun _ t h => (resumeInboundWork_working _ _).delivered h) (fun _ t h => h ▸ hsame)
    rename_i hexact
    have hnew : s.db.inboundConflictResolutionReceiptMatch message ≠ .ok .exact := by
      intro h
      rw [h] at hmatch
      cases hmatch
      exact hexact rfl
    refine (statusForState_keeps message.pathState).wp_check (fun status => ?_) (fun _ => hsame)
    rw [wp_bind]
    refine wp_transaction_of ?_ (fun _ => hsame)
    refine wp_mono (putStreamConflictResolved_staged s.db active message status hactive) (fun _ db hdb => ?_)
      (fun _ _ h => h)
    refine (Working.bind (resumeInboundWork_working _ _) fun _ => .of_core (.pure _)).delivered ?_
    exact hdb.deliver rfl fun h => ⟨active, hactive, h.1, hnew⟩

theorem conflictResolved_wp :
    wp (conflictResolved message) (fun _ t => Delivered s (.conflictResolved message) t)
      (fun _ t => Delivered s (.conflictResolved message) t) s := by
  have hsame : Delivered s (.conflictResolved message) s := .of_ack rfl
  unfold conflictResolved
  refine wp_validated ?_ (fun _ => hsame)
  rw [wp_bind, wp_get]
  split
  · rename_i hidle
    exact conflictResolvedLive_wp s message hidle
  · rename_i active hactive
    exact conflictResolvedStream_wp s message active hactive

omit [Filesystem F] in
theorem snapshotBegin_wp (message : WorkspaceSnapshotBeginMessage) :
    wp (snapshotBegin message) (fun _ t => Delivered s (.snapshotBegin message) t)
      (fun _ t => Delivered s (.snapshotBegin message) t) s := by
  have hsame : Delivered s (.snapshotBegin message) s := .of_ack rfl
  unfold snapshotBegin
  refine wp_validated ?_ (fun _ => hsame)
  rw [wp_bind, wp_get]
  dsimp only
  rw [wp_bind]
  refine wp_transaction_of ?_ (fun _ => hsame)
  have hbegun : ∀ unsettled, unsettled = 0 ∨ s.ack.store.final = none ∧ unsettled = s.ack.store.unsettled →
      Deliver s (.snapshotBegin message)
        ⟨⟨s.db.cursor, some ⟨message.finalRevision, false⟩, unsettled, s.db.appliedOperations⟩, []⟩ := fun _ h =>
    .start h
  unfold beginStream
  split
  · trivial
  split
  · trivial
  rw [wp_bind, wp_get]
  split
  · rename_i existing hexisting
    split
    · rename_i hid
      split
      · -- the same stream begins again
        rw [wp_pure, wp_onlyIf]
        refine ⟨fun hnew => ?_, fun _ => hsame⟩
        simp [hexisting, hid] at hnew
      · trivial
    rename_i hid
    split
    · trivial
    split
    · trivial
    simp only [clearStream, wp_bind, wp_modify, wp_onlyIf]
    refine ⟨fun _ => ⟨_, hbegun 0 (.inl rfl), .refl⟩, fun hold => ?_⟩
    simp [hexisting, hid] at hold
  · rename_i hidle
    rw [wp_set, wp_onlyIf]
    refine ⟨fun _ => ⟨_, hbegun s.db.unsettled (.inr ⟨?_, rfl⟩), .refl⟩, fun hold => ?_⟩
    · simp [Engine.ack, Db.ack, hidle]
    · simp [hidle] at hold

/-! ## Other calls -/

theorem conflictCreated_wp (message : WorkspaceConflictCreatedMessage) :
    wp (conflictCreated message) (fun _ t => Delivered s (.conflictCreated message) t)
      (fun _ t => Delivered s (.conflictCreated message) t) s := by
  refine Working.call ?_ s _
  unfold conflictCreated
  refine .bind (.of_core ensureOpen_keeps) fun _ => .bind (.of_core (requireValid_keeps _ _)) fun _ => ?_
  refine .bind (.of_core (requireThat_keeps _ _)) fun _ => .bind (.of_core .get) fun engine => ?_
  dsimp only
  split
  · refine .bind ?_ fun _ => resumeInboundWork_working _ _
    exact .of_ack (transaction_ack (putStreamConflict_ack _ _ _))
  · split
    · exact .bind (.of_core (replaceConflict_keeps _ _)) fun _ => .of_core (.pure _)
    · exact .bind (.of_core (transaction_keeps (putConflict_keeps _))) fun _ => .of_core (.pure _)

/-- What the end of a stream leaves when it is received. -/
theorem snapshotEnd_ends (message : WorkspaceSnapshotEndMessage) :
    wp (snapshotEnd message) (fun _ t => ∃ active, s.db.stream = some active ∧
        message.finalRevision = active.finalRevision ∧ Relation.ReflTransGen Move
          ⟨{ s.ack.store with final := some ⟨active.finalRevision, true⟩ }, s.ack.queue⟩ t.ack)
      (fun _ t => Delivered s (.snapshotEnd message) t) s := by
  have hsame : Delivered s (.snapshotEnd message) s := .of_ack rfl
  unfold snapshotEnd
  refine ensureOpen_keeps.wp_check (fun _ => ?_) (fun _ => hsame)
  rw [wp_bind, wp_get]
  split
  · exact hsame
  rename_i active hactive
  rw [wp_bind]
  cases hvalid : message.validateAgainst (streamBegin active) with
  | error error => exact hsame
  | ok _ =>
    simp only [requireValid, wp_pure]
    rw [wp_bind]
    refine wp_transaction_of ?_ (fun _ => hsame)
    simp only [setStreamEndReceived, wp_bind, wp_get, hactive, wp_set]
    have hview : Engine.ack { s with db := { s.db with stream := some { active with endReceived := true } } } =
        ⟨{ s.ack.store with final := some ⟨active.finalRevision, true⟩ }, s.ack.queue⟩ := rfl
    refine wp_mono (resumeInboundWork_working _ _ _) (fun _ t h => ?_) (fun _ t h => ?_)
    · rw [Moved, hview] at h
      exact ⟨active, rfl, WorkspaceSnapshotEndMessage.final_of_validateAgainst hvalid, h⟩
    · rw [Moved, hview] at h
      exact ⟨_, .finishing hactive, h⟩

theorem snapshotEnd_wp (message : WorkspaceSnapshotEndMessage) :
    wp (snapshotEnd message) (fun _ t => Delivered s (.snapshotEnd message) t)
      (fun _ t => Delivered s (.snapshotEnd message) t) s := by
  refine wp_mono (snapshotEnd_ends s message) (fun _ t h => ?_) (fun _ _ h => h)
  obtain ⟨active, hactive, -, hmoves⟩ := h
  exact ⟨_, .finishing hactive, hmoves⟩

theorem blobAvailable_wp (hash : WorkspaceContentHash) (size : Nat) (bytes : List Nat) :
    wp (blobAvailable hash size bytes) (fun _ t => Delivered s (.blobAvailable hash size bytes) t)
      (fun _ t => Delivered s (.blobAvailable hash size bytes) t) s := by
  refine Working.call ?_ s _
  unfold blobAvailable
  exact .bind (.of_core ensureOpen_keeps) fun _ => .bind (.of_core (writeFiles_keeps _)) fun _ =>
    resumeInboundWork_working _ _

theorem pendingCommands_working (limit : Nat) : Working (pendingCommands (F := F) limit) := by
  unfold pendingCommands
  refine .bind (.of_core ensureOpen_keeps) fun _ => ?_
  split
  · exact .of_core (.pure _)
  refine .bind (resumeInboundWork_working _ _) fun inbound => ?_
  split
  · exact .of_core (.pure _)
  refine .of_core (.bind .get fun engine => .bind (materializeLocalIntents_keeps.onlyIf _) fun _ => ?_)
  grind

section

omit [Filesystem F]

theorem mutationAccepted_wp (accepted : WorkspaceMutationAcceptedMessage) :
    wp (mutationAccepted accepted) (fun _ t => Delivered s (.mutationAccepted accepted) t)
      (fun _ t => Delivered s (.mutationAccepted accepted) t) s := by
  have hsame : Delivered s (.mutationAccepted accepted) s := .of_ack rfl
  unfold mutationAccepted
  refine ensureOpen_keeps.wp_check (fun _ => ?_) (fun _ => hsame)
  refine (requireValid_keeps _ _).wp_check (fun _ => ?_) (fun _ => hsame)
  refine (readDb_keeps _).wp_check (fun receiptMatch => ?_) (fun _ => hsame)
  refine (validateIdentity_keeps _ _).wp_check (fun _ => ?_) (fun _ => hsame)
  split
  · exact hsame
  refine Keeps.wp_check (by unfold outstandingMutation; grind) (fun mutation => ?_) (fun _ => hsame)
  refine (readDb_keeps _).wp_check (fun _ => ?_) (fun _ => hsame)
  rw [wp_bind, wp_get]
  dsimp only
  refine (keeps_ack (nextMutations_keeps _ _)).wp_bind (fun next s₁ h₁ => ?_) (fun _ _ => .of_ack)
  rw [wp_bind]
  refine wp_transaction_of ?_ (fun _ => .of_ack h₁)
  refine (forTx_keeps putPathState_ack).wp_bind (fun _ db₁ h₁' => ?_) (fun _ _ _ => trivial)
  refine (keeps_ackTx (removeOutbox_keeps _)).wp_bind (fun _ db₂ h₂ => ?_) (fun _ _ _ => trivial)
  rw [wp_bind]
  unfold recordMutationAppliedOperation
  split
  · trivial
  split
  · trivial
  refine wp_recordAppliedOperation _ (fun receipts grow _ => ?_) (fun _ => trivial)
  refine (keeps_ackTx (forTx_keeps removeLocalIntent_keeps)).wp_bind (fun _ db₄ h₄ => ?_) (fun _ _ _ => trivial)
  refine wp_mono (keeps_ackTx (forTx_keeps fun _ => enqueueMutationAt_keeps _ _) db₄) (fun _ db₅ h₅ => ?_)
    (fun _ _ _ => trivial)
  have hstore : s₁.db.ack = s.ack.store := congrArg AckView.store h₁
  have hdb₂ : db₂.ack = s.ack.store := h₂.trans (h₁'.trans hstore)
  have hview : Engine.ack { s₁ with db := db₅ } = ⟨{ s.ack.store with receipts }, s.ack.queue⟩ := by
    rw [← hdb₂, ← h₁, show Engine.ack { s₁ with db := db₅ } = ⟨db₅.ack, s₁.ack.queue⟩ from rfl, h₅, h₄]
    rfl
  have hgrow : Receipts.Grow s.ack.store.receipts receipts := by
    rw [← hdb₂]
    exact grow
  exact ⟨_, .accept hgrow, by rw [← hview]⟩

theorem mutationRejected_ack (rejected : WorkspaceMutationRejectedMessage) :
    Keeps Engine.ack (mutationRejected (F := F) rejected) := by
  unfold mutationRejected
  refine .bind ensureOpen_keeps fun _ => .bind (requireValid_keeps _ _) fun _ => ?_
  refine .bind (validateIdentity_keeps _ _) fun _ => ?_
  split
  · exact .throw _
  refine .bind (by unfold outstandingMutation; grind) fun mutation => ?_
  split
  · split
    · exact .throw _
    · exact keeps_ack (transaction_keeps (setOutboxStage_keeps _ _))
  · exact keeps_ack (transaction_keeps (setOutboxStage_keeps _ _))
  · unfold reconcileStale
    split
    · exact .throw _
    refine .bind .get fun engine => ?_
    dsimp only
    refine .bind (keeps_ack (nextMutations_keeps _ _)) fun next => transaction_ack (.bind ?_ fun _ => keeps_ackTx ?_)
    · unfold setReportedState
      grind
    · grind
  · exact .throw _

theorem ackConfirmed_wp (message : WorkspaceAckRequest) :
    wp (ackConfirmed message) (fun _ t => Confirm s.ack message.revision t.ack) (fun _ t => t = s) s := by
  unfold ackConfirmed
  refine ensureOpen_keeps.wp_check (fun _ => ?_) (fun _ => rfl)
  refine (validateIdentity_keeps _ _).wp_check (fun _ => ?_) (fun _ => rfl)
  rw [wp_bind, wp_get]
  dsimp only
  split
  · rename_i hidle
    split
    · exact .nothing
    split
    · rename_i hsegment
      refine wp_transaction_of ?_ (fun _ => rfl)
      simp only [setLastAckRevision, clearPendingSegmentAck, wp_bind, wp_get]
      split
      · trivial
      · exact .segment hidle hsegment.1 hsegment.2.1 hsegment.2.2
    · rfl
  · rename_i pending hpending
    split
    · rfl
    rename_i hmatch
    simp only [not_or, Nat.not_le, Nat.not_lt] at hmatch
    obtain ⟨hacked, hbelow, happlied⟩ := hmatch
    refine wp_transaction_of ?_ (fun _ => rfl)
    simp only [setLastAckRevision, wp_bind, wp_get]
    split
    · trivial
    rw [wp_set, wp_onlyIf]
    constructor
    · intro heq
      obtain rfl : message.revision = pending := of_decide_eq_true heq
      exact .pending hpending hacked happlied
    · intro hne
      exact .partly hpending (Nat.lt_of_le_of_ne hbelow (of_decide_eq_false hne)) hacked happlied

end

/-! ## Every call -/

def Engine.Effect (s : Engine F) (call : Call F) (t : Engine F) : Prop :=
  Delivered s call t ∨ ∃ message, call = .ackConfirmed message ∧ Confirm s.ack message.revision t.ack

omit [Filesystem F] [Env] in
theorem wp_silently {s : Engine F} {m : EngineM F Unit} {P : Engine F → Prop}
    (h : wp m (fun _ t => P t) (fun _ t => P t) s) :
    wp (silently m) (fun _ t => P t) (fun _ t => P t) s := by
  unfold silently
  exact wp_seq h fun _ _ h => h

theorem Call.run_wp (call : Call F) : wp call.run (fun _ t => s.Effect call t) (fun _ t => s.Effect call t) s := by
  have hdelivered : ∀ m : EngineM F (List SyncCommand),
      wp m (fun _ t => Delivered s call t) (fun _ t => Delivered s call t) s →
      wp m (fun _ t => s.Effect call t) (fun _ t => s.Effect call t) s :=
    fun _ h => wp_mono h (fun _ _ => .inl) (fun _ _ => .inl)
  have hcore : ∀ m : EngineM F Unit, Keeps Engine.ack m →
      wp (silently m) (fun _ t => s.Effect call t) (fun _ t => s.Effect call t) s :=
    fun m h => hdelivered _ (wp_silently ((Working.of_ack h).call s call))
  cases call with
  | event message => exact hdelivered _ (event_wp s message)
  | snapshotBegin message => exact hdelivered _ (wp_silently (snapshotBegin_wp s message))
  | snapshotEntry message => exact hdelivered _ (snapshotEntry_wp s message)
  | workspaceEvent message => exact hdelivered _ (workspaceEvent_wp s message)
  | conflictCreated message => exact hdelivered _ (conflictCreated_wp s message)
  | conflictResolved message => exact hdelivered _ (conflictResolved_wp s message)
  | snapshotEnd message => exact hdelivered _ (snapshotEnd_wp s message)
  | blobAvailable hash size bytes => exact hdelivered _ (blobAvailable_wp s hash size bytes)
  | resumeInboundWork commandLimit reissueWaiting =>
    exact hdelivered _ ((resumeInboundWork_working commandLimit reissueWaiting).call s _)
  | pendingCommands limit => exact hdelivered _ ((pendingCommands_working limit).call s _)
  | ackConfirmed message =>
    refine wp_silently (P := fun t => s.Effect (.ackConfirmed message) t) ?_
    exact wp_mono (ackConfirmed_wp s message) (fun _ t h => .inr ⟨message, rfl, h⟩)
      (fun _ t h => .inl (.of_ack (congrArg Engine.ack h)))
  | mutationAccepted accepted => exact hdelivered _ (mutationAccepted_wp s accepted)
  | mutationRejected rejected => exact hcore _ (mutationRejected_ack rejected)
  | blobUploaded operationId => exact hcore _ (keeps_ack (blobUploaded_keeps operationId))
  | recordLocalChanges changes => exact hcore _ (keeps_ack (recordLocalChanges_keeps changes))
  | prepareConnectionAttempt => exact hcore _ (keeps_ack prepareConnectionAttempt_keeps)
  | resolveConflict conflictId conflictRevision choice =>
    exact hcore _ (keeps_ack (.bind (resolveConflict_keeps _ _ _) fun _ => .pure _))
  | queueConflictResolution request => exact hcore _ (keeps_ack (queueConflictResolution_keeps request))
  | conflictResolutionAccepted message => exact hcore _ (keeps_ack (conflictResolutionAccepted_keeps message))
  | conflictResolutionRejected operationId code =>
    exact hdelivered _ ((Working.of_ack (keeps_ack (conflictResolutionRejected_keeps operationId code))).call s _)
  | close => exact hcore _ (.modify fun _ => rfl)
  | edit files => exact hcore _ (.modify fun _ => rfl)

theorem Engine.effect_after (call : Call F) : s.Effect call (s.after call) :=
  wp_final (Call.run_wp s call)

end Lumio.Sync
