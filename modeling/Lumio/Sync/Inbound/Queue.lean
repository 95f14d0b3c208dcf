import Lumio.Sync.Inbound.Feed

/-!
# The live queue

Live items wait in the order of their revisions. An item joins at the end, within the limits, and leaves at the
front once its receipt is in the store; only the start of another stream empties the queue.
-/

namespace Lumio.Sync

open Lumio.Protocol Lumio.Fs Prog

/-- The live queue is ordered, its byte counter is exact, and it stays within the limits. -/
structure Feed.Sound [Env] (feed : Feed) : Prop where
  sorted : feed.pendingLiveEvents.Pairwise (·.message.revision < ·.message.revision)
  sizes : ∀ pending ∈ feed.pendingLiveEvents, pending.serializedBytes = Env.itemLength pending.message
  bytes : feed.pendingLiveSerializedBytes = (feed.pendingLiveEvents.map (·.serializedBytes)).sum
  items : feed.pendingLiveEvents.length ≤ Env.limits.maxPendingLiveItems
  within : feed.pendingLiveSerializedBytes ≤ Env.limits.maxPendingLiveSerializedBytes

namespace Feed.Sound

variable [Env]

theorem empty (source : InboundWorkSource) : Feed.Sound ⟨[], 0, source⟩ :=
  ⟨.nil, by simp, rfl, Nat.zero_le _, Nat.zero_le _⟩

variable {bytes : Nat} {source : InboundWorkSource}

theorem turn {queue : List PendingLiveItem} (h : Feed.Sound ⟨queue, bytes, source⟩) (other : InboundWorkSource) :
    Feed.Sound ⟨queue, bytes, other⟩ :=
  ⟨h.sorted, h.sizes, h.bytes, h.items, h.within⟩

theorem push {queue : List PendingLiveItem} (h : Feed.Sound ⟨queue, bytes, source⟩) {message : StreamRevisionItem}
    (later : ∀ pending ∈ queue, pending.message.revision < message.revision)
    (items : queue.length < Env.limits.maxPendingLiveItems)
    (within : bytes + Env.itemLength message ≤ Env.limits.maxPendingLiveSerializedBytes) :
    Feed.Sound ⟨queue ++ [⟨message, Env.itemLength message⟩], bytes + Env.itemLength message, source⟩ where
  sorted := by
    refine List.pairwise_append.mpr ⟨h.sorted, List.pairwise_singleton _ _, fun pending hpending last hlast => ?_⟩
    rw [List.mem_singleton.mp hlast]
    exact later pending hpending
  sizes pending hpending := by
    rcases List.mem_append.mp hpending with hold | hnew
    · exact h.sizes pending hold
    · rw [List.mem_singleton.mp hnew]
  bytes := by
    have hbytes : bytes = (queue.map (·.serializedBytes)).sum := h.bytes
    simp [hbytes]
  items := by
    simp only [List.length_append, List.length_singleton]
    omega
  within

theorem pop {first : PendingLiveItem} {rest : List PendingLiveItem} (h : Feed.Sound ⟨first :: rest, bytes, source⟩) :
    Feed.Sound ⟨rest, bytes - first.serializedBytes, source⟩ where
  sorted := (List.pairwise_cons.mp h.sorted).2
  sizes pending hpending := h.sizes pending (List.mem_cons_of_mem _ hpending)
  bytes := by
    have hbytes : bytes = first.serializedBytes + (rest.map (·.serializedBytes)).sum := by
      simpa using h.bytes
    simp only
    omega
  items := by
    have hitems : rest.length + 1 ≤ Env.limits.maxPendingLiveItems := by simpa using h.items
    simp only
    omega
  within := Nat.le_trans (Nat.sub_le _ _) h.within

end Feed.Sound

theorem find?_revision {queue : List PendingLiveItem} (sorted : queue.Pairwise (·.message.revision < ·.message.revision))
    {pending : PendingLiveItem} (hpending : pending ∈ queue) :
    queue.find? (·.message.revision = pending.message.revision) = some pending := by
  induction queue with
  | nil => cases hpending
  | cons first rest ih =>
    rw [List.pairwise_cons] at sorted
    rcases List.mem_cons.mp hpending with rfl | hrest
    · simp
    · have hne := Nat.ne_of_lt (sorted.1 pending hrest)
      rw [List.find?_cons_of_neg (by simpa using hne)]
      exact ih sorted.2 hrest

theorem le_getLast? {queue : List PendingLiveItem} (sorted : queue.Pairwise (·.message.revision < ·.message.revision))
    {pending : PendingLiveItem} (hpending : pending ∈ queue) :
    ∃ last, queue.getLast? = some last ∧ pending.message.revision ≤ last.message.revision := by
  obtain ⟨front, last, rfl⟩ := (List.eq_nil_or_concat' queue).resolve_left (List.ne_nil_of_mem hpending)
  refine ⟨last, by simp, ?_⟩
  rcases List.mem_append.mp hpending with hfront | hend
  · exact Nat.le_of_lt ((List.pairwise_append.mp sorted).2.2 pending hfront last (by simp))
  · rw [List.mem_singleton.mp hend]

section

variable {F : Type} [Filesystem F] [Env]

abbrev Orderly {α : Type} (m : EngineM F α) : Prop := Maintains (fun engine : Engine F => engine.feed.Sound) m

omit [Filesystem F] in
theorem Orderly.of_feed {α : Type} {m : EngineM F α} (h : Keeps Engine.feed m) : Orderly m :=
  .of_keeps h fun _ _ heq hs => heq ▸ hs

/-! ## The work loop -/

variable {s : Engine F} {after before : AckView} (commandLimit : Nat) (reissueWaiting : Bool)

omit [Filesystem F] in
theorem popLiveItem_orderly {pending : PendingLiveItem} {rest : List PendingLiveItem}
    (hqueue : s.pendingLiveEvents = pending :: rest) (hs : s.feed.Sound) :
    wp (popLiveItem pending.serializedBytes) (fun _ t => t.feed.Sound) (fun _ t => t.feed.Sound) s := by
  simp only [popLiveItem, wp_bind, wp_get, hqueue]
  split
  · exact hs
  · rw [Engine.feed, hqueue] at hs
    exact hs.pop

theorem resumeLiveStep_orderly (work : InboundWork) (commandLimit : Nat) (reissueWaiting : Bool) :
    Orderly (resumeLiveStep (F := F) work commandLimit reissueWaiting) := by
  refine .get_bind fun s hs => ?_
  split
  · exact hs
  rename_i pending rest hqueue
  split
  · exact hs
  refine Keeps.wp_bind (π := Engine.feed) (missingContent_keeps _) (fun missing t ht => ?_) (fun _ t ht => ?_)
  · have hfeed : ∀ u : Engine F, u.feed = t.feed → u.feed.Sound := by
      intro u hu
      rw [hu, ht]
      exact hs
    split
    · exact hfeed t rfl
    -- the item is applied, and is still at the front when it leaves
    have hpop : ∀ (u : Engine F) (done : ResumeStep × InboundWork), u.feed = s.feed → wp (do
        popLiveItem pending.serializedBytes
        pure done) (fun _ u => u.feed.Sound) (fun _ u => u.feed.Sound) u := by
      intro u done hu
      have hfront : u.pendingLiveEvents = pending :: rest := by
        have hsame := congrArg Feed.pendingLiveEvents hu
        simpa only [Engine.feed, hqueue] using hsame
      rw [wp_bind]
      refine popLiveItem_orderly hfront ?_
      rw [hu]
      exact hs
    split
    · exact (applyLiveEvent_feed _).wp_bind (fun _ u hu => hpop u _ (hu.trans ht)) fun _ u hu => hfeed u hu
    · exact (applyConflictResolvedFrom_feed _ _).wp_bind (fun _ u hu => hpop u _ (hu.trans ht)) fun _ u hu => hfeed u hu
  · rw [ht]
    exact hs

omit [Filesystem F] in
theorem orderly_composes : Composes (Engine.feed (F := F)) (fun {_} m => Orderly m) := ⟨.of_feed, .bind⟩

theorem resumeInboundWork_orderly : Orderly (resumeInboundWork (F := F) commandLimit reissueWaiting) := by
  refine .get_bind fun s hs => ?_
  rw [wp_bind, wp_set]
  have hloop := orderly_composes.resumeLoop (F := F)
    (fun work => .of_feed (resumeStreamStep_feed work commandLimit reissueWaiting))
    fun work => resumeLiveStep_orderly work commandLimit reissueWaiting
  refine Maintains.bind (I := fun engine : Engine F => engine.feed.Sound) (hloop _ _ _ _ _) (fun work => ?_) _
    (Feed.Sound.turn hs _)
  exact Orderly.of_feed (.bind finishStreamIfReady_feed fun _ => .bind advanceSegmentAckIfStalled_feed fun _ => .pure _)

/-! ## Arrivals -/

theorem enqueueLiveMessage_orderly (message : StreamRevisionItem) :
    Orderly (enqueueLiveMessage (F := F) message) := by
  refine .get_bind fun s hs => ?_
  split
  · split
    · exact hs
    · exact resumeInboundWork_orderly _ _ s hs
  rename_i hfind
  split
  · exact hs
  rename_i hlast
  dsimp only
  split
  · exact hs
  rename_i hroom
  rw [wp_bind, wp_set]
  refine resumeInboundWork_orderly _ _ _ (Feed.Sound.push hs (fun pending hpending => ?_) ?_ ?_)
  · -- the last item is neither of the same revision nor of a later one, and the others come before it
    have hne := List.find?_eq_none.mp hfind pending hpending
    simp only [decide_eq_true_eq] at hne
    refine Nat.lt_of_le_of_ne (Nat.le_of_not_lt fun hlt => hlast ?_) hne
    obtain ⟨last, hget, hle⟩ := le_getLast? hs.sorted hpending
    rw [show s.pendingLiveEvents.getLast? = some last from hget, Option.any_some, decide_eq_true_eq]
    exact Nat.lt_of_lt_of_le hlt hle
  · exact Nat.lt_of_not_le fun hfull => hroom (.inl hfull)
  · exact Nat.le_of_not_lt fun hfull => hroom (.inr hfull)

theorem event_orderly (message : WorkspaceEventMessage) : Orderly (event (F := F) message) := by
  unfold event
  refine .bind (Orderly.of_feed ensureOpen_keeps) fun _ => .bind (Orderly.of_feed (requireValid_keeps _ _)) fun _ =>
    .bind (Orderly.of_feed (requireThat_keeps _ _)) fun _ => .bind (Orderly.of_feed (readDb_keeps _)) fun receiptMatch =>
    .bind (Orderly.of_feed .get) fun engine => ?_
  cases receiptMatch with
  | missing =>
    dsimp only
    split
    · exact .throw _
    · exact enqueueLiveMessage_orderly _
  | exact =>
    dsimp only
    split
    · exact .bind (Orderly.of_feed (markLiveEventApplied_feed _)) fun _ => .pure _
    · exact enqueueLiveMessage_orderly _

theorem conflictResolvedLive_orderly (message : WorkspaceConflictResolvedMessage) :
    Orderly (conflictResolvedLive (F := F) message) := by
  unfold conflictResolvedLive
  refine .bind (Orderly.of_feed (readDb_keeps _)) fun receiptMatch => .bind (Orderly.of_feed .get) fun engine => ?_
  split
  · exact .bind (Orderly.of_feed (settleExactConflictResolutionReplay_feed _ _)) fun _ => .pure _
  split
  · refine .bind (Orderly.of_feed (readDb_keeps _)) fun cleanup => ?_
    split
    · exact .bind (Orderly.of_feed (.bind .get fun _ => transaction_feed _)) fun _ => .pure _
    · exact .throw _
  · exact enqueueLiveMessage_orderly _

theorem conflictResolvedStream_orderly (message : WorkspaceConflictResolvedMessage) (active : StreamState) :
    Orderly (conflictResolvedStream (F := F) message active) := by
  unfold conflictResolvedStream
  refine .bind (Orderly.of_feed .get) fun engine => ?_
  dsimp only
  split
  · exact .throw _
  · exact .bind (Orderly.of_feed (readDb_keeps _)) fun _ =>
      .bind (Orderly.of_feed ((settleExactConflictResolutionReplay_feed _ _).onlyIf _)) fun _ => .pure _
  · exact .pure _
  refine .bind (Orderly.of_feed (readDb_keeps _)) fun receiptMatch => ?_
  split
  · exact .bind (Orderly.of_feed (settleExactConflictResolutionReplay_feed _ _)) fun _ => resumeInboundWork_orderly _ _
  · exact .bind (Orderly.of_feed (statusForState_keeps _)) fun _ => .bind (Orderly.of_feed (transaction_feed _)) fun _ =>
      .bind (resumeInboundWork_orderly _ _) fun _ => .pure _

omit [Filesystem F] in
theorem snapshotBegin_orderly (message : WorkspaceSnapshotBeginMessage) :
    Orderly (snapshotBegin (F := F) message) := by
  unfold snapshotBegin
  refine .bind (Orderly.of_feed ensureOpen_keeps) fun _ => .bind (Orderly.of_feed (requireValid_keeps _ _)) fun _ =>
    .bind (Orderly.of_feed (requireThat_keeps _ _)) fun _ => .bind (Orderly.of_feed .get) fun engine => ?_
  refine .bind (Orderly.of_feed (transaction_feed _)) fun _ => .onlyIf (fun s _ => ?_) _
  exact Feed.Sound.empty .stream

/-! ## Every call -/

omit [Filesystem F] [Env] in
theorem silently_feed {call : EngineM F Unit} (h : Keeps Engine.feed call) : Keeps Engine.feed (silently call) :=
  .bind h fun _ => .pure _

theorem Call.run_orderly (call : Call F) : Orderly call.run := by
  cases call with
  | event message => exact event_orderly message
  | snapshotBegin message => exact .bind (snapshotBegin_orderly message) fun _ => .pure _
  | snapshotEntry message =>
    refine .bind (Orderly.of_feed ensureOpen_keeps) fun _ => .bind (Orderly.of_feed (requireValid_keeps _ _)) fun _ =>
      .bind (Orderly.of_feed (requireThat_keeps _ _)) fun _ => .bind (Orderly.of_feed (statusForState_keeps _)) fun _ =>
      .bind (Orderly.of_feed (transaction_feed _)) fun staged => ?_
    split
    · exact .pure _
    · exact .bind (resumeInboundWork_orderly _ _) fun _ => .pure _
  | workspaceEvent message =>
    refine .bind (Orderly.of_feed ensureOpen_keeps) fun _ => .bind (Orderly.of_feed (requireValid_keeps _ _)) fun _ =>
      .bind (Orderly.of_feed (requireThat_keeps _ _)) fun _ => .bind (Orderly.of_feed .get) fun engine => ?_
    dsimp only
    split
    · exact .throw _
    split
    · exact .throw _
    split
    · exact .pure _
    refine .bind (Orderly.of_feed (readDb_keeps _)) fun receiptMatch => ?_
    split
    · exact .bind (Orderly.of_feed (transaction_feed _)) fun _ => resumeInboundWork_orderly _ _
    · refine .bind (Orderly.of_feed (eventIsDiverged_keeps _)) fun diverged => ?_
      split
      · exact .bind (.pure _) fun _ => .bind (Orderly.of_feed (transaction_feed _)) fun _ =>
          .bind (resumeInboundWork_orderly _ _) fun _ => .pure _
      · exact .bind (Orderly.of_feed (statusForState_keeps _)) fun _ => .bind (Orderly.of_feed (transaction_feed _))
          fun _ => .bind (resumeInboundWork_orderly _ _) fun _ => .pure _
  | conflictCreated message =>
    refine .bind (Orderly.of_feed ensureOpen_keeps) fun _ => .bind (Orderly.of_feed (requireValid_keeps _ _)) fun _ =>
      .bind (Orderly.of_feed (requireThat_keeps _ _)) fun _ => .bind (Orderly.of_feed .get) fun engine => ?_
    dsimp only
    split
    · exact .bind (Orderly.of_feed (transaction_feed _)) fun _ => resumeInboundWork_orderly _ _
    split
    · exact .bind (Orderly.of_feed (keeps_feed (replaceConflict_keeps _ _))) fun _ => .pure _
    · exact .bind (Orderly.of_feed (transaction_feed _)) fun _ => .pure _
  | conflictResolved message =>
    refine .bind (Orderly.of_feed ensureOpen_keeps) fun _ => .bind (Orderly.of_feed (requireValid_keeps _ _)) fun _ =>
      .bind (Orderly.of_feed (requireThat_keeps _ _)) fun _ => .bind (Orderly.of_feed .get) fun engine => ?_
    split
    · exact conflictResolvedLive_orderly _
    · exact conflictResolvedStream_orderly _ _
  | snapshotEnd message =>
    refine .bind (Orderly.of_feed ensureOpen_keeps) fun _ => .bind (Orderly.of_feed .get) fun engine => ?_
    split
    · exact .throw _
    · exact .bind (Orderly.of_feed (requireValid_keeps _ _)) fun _ => .bind (Orderly.of_feed (transaction_feed _)) fun _ =>
        resumeInboundWork_orderly _ _
  | blobAvailable hash size bytes =>
    exact .bind (Orderly.of_feed ensureOpen_keeps) fun _ => .bind (Orderly.of_feed (writeFiles_keeps _)) fun _ =>
      resumeInboundWork_orderly _ _
  | resumeInboundWork commandLimit reissueWaiting => exact resumeInboundWork_orderly _ _
  | pendingCommands limit =>
    refine .bind (Orderly.of_feed ensureOpen_keeps) fun _ => ?_
    split
    · exact .pure _
    refine .bind (resumeInboundWork_orderly _ _) fun inbound => ?_
    split
    · exact .pure _
    refine Orderly.of_feed (.bind .get fun engine => .bind (.onlyIf (keeps_feed materializeLocalIntents_keeps) _) fun _ =>
      .bind (transaction_feed _) fun _ => .bind .get fun _ => .bind (readDb_keeps _) fun _ => ?_)
    exact .pure _
  | ackConfirmed message => exact Orderly.of_feed (silently_feed (ackConfirmed_feed message))
  | mutationAccepted accepted => exact Orderly.of_feed (mutationAccepted_feed accepted)
  | mutationRejected rejected => exact Orderly.of_feed (silently_feed (mutationRejected_feed rejected))
  | blobUploaded operationId => exact Orderly.of_feed (silently_feed (keeps_feed (blobUploaded_keeps operationId)))
  | recordLocalChanges changes => exact Orderly.of_feed (silently_feed (keeps_feed (recordLocalChanges_keeps changes)))
  | prepareConnectionAttempt => exact Orderly.of_feed (silently_feed (keeps_feed prepareConnectionAttempt_keeps))
  | resolveConflict conflictId conflictRevision choice =>
    exact Orderly.of_feed (silently_feed (.bind (keeps_feed (resolveConflict_keeps _ _ _)) fun _ => .pure _))
  | queueConflictResolution request => exact Orderly.of_feed (silently_feed (keeps_feed (queueConflictResolution_keeps request)))
  | conflictResolutionAccepted message =>
    exact Orderly.of_feed (silently_feed (keeps_feed (conflictResolutionAccepted_keeps message)))
  | conflictResolutionRejected operationId code =>
    exact Orderly.of_feed (keeps_feed (conflictResolutionRejected_keeps operationId code))
  | close => exact Orderly.of_feed (silently_feed (.modify fun _ => rfl))
  | edit files => exact Orderly.of_feed (silently_feed (.modify fun _ => rfl))

theorem Feed.Sound.run {files : F} {operationIds : List OperationId} {timestamps : List Int} {engine : Engine F}
    {Allowed : Engine F → Call F → Prop} (run : Run Allowed (Engine.initial files operationIds timestamps) engine) :
    engine.feed.Sound :=
  Run.invariant (I := fun engine : Engine F => engine.feed.Sound) run (Feed.Sound.empty .stream)
    fun _ call hs _ => (Call.run_orderly call).final hs

/-! ## Leaving the queue -/

/-- Items left the front of the queue, and the receipts of those that left are in the store. -/
def Left (before after : AckView) : Prop :=
  ∃ left, before.queue = left ++ after.queue ∧ (∀ item ∈ left, Processed after.store.receipts item) ∧
    Receipts.Grow before.store.receipts after.store.receipts

section

omit [Env]

theorem Left.of_same (hqueue : after.queue = before.queue)
    (grow : Receipts.Grow before.store.receipts after.store.receipts) : Left before after :=
  ⟨[], hqueue.symm, by simp, grow⟩

theorem Left.trans {a b c : AckView} (hab : Left a b) (hbc : Left b c) : Left a c := by
  obtain ⟨left, hqueue, hprocessed, hgrow⟩ := hab
  obtain ⟨left', hqueue', hprocessed', hgrow'⟩ := hbc
  refine ⟨left ++ left', by rw [hqueue, hqueue', List.append_assoc], fun item hitem => ?_, hgrow.trans hgrow'⟩
  rcases List.mem_append.mp hitem with hfirst | hsecond
  · exact (hprocessed item hfirst).grow hgrow'
  · exact hprocessed' item hsecond

theorem Move.left (h : Move before after) : Left before after := by
  cases h with
  | liveEvent _ _ grow _ => exact .of_same rfl grow
  | liveResolution _ grow _ => exact .of_same rfl grow
  | raise _ grow _ => exact .of_same rfl grow
  | pop processed =>
    refine ⟨[_], rfl, fun item hitem => ?_, .refl _⟩
    rw [List.mem_singleton.mp hitem]
    exact processed
  | row _ row => exact .of_same rfl row.receipts
  | finish _ _ => exact .of_same rfl (.refl _)
  | drop _ _ => exact .of_same rfl (.refl _)
  | segment _ => exact .of_same rfl (.refl _)

theorem left_of_moves (h : Relation.ReflTransGen Move before after) : Left before after := by
  induction h with
  | refl => exact .of_same rfl (.refl _)
  | tail _ move ih => exact ih.trans move.left

theorem Confirm.queue {view view' : AckView} {revision : WorkspaceRevision} (h : Confirm view revision view') :
    view'.queue = view.queue := by
  cases h <;> rfl

end

def Call.delivers : Call F → Option StreamRevisionItem
  | .event message => some (.event message)
  | .conflictResolved message => some (.conflictResolved message)
  | _ => none

/-- What a call does to the queue: the item it delivers may join at the end, and processed items leave at the front.
Only the start of a stream drops items. -/
def Engine.QueueEffect (before : Engine F) (call : Call F) (after : Engine F) : Prop :=
  (∃ arrived left, (arrived = [] ∨ ∃ message, call.delivers = some message ∧ arrived = [message] ∧
      ∀ pending ∈ before.pendingLiveEvents, pending.message.revision < message.revision) ∧
    before.pendingLiveEvents.map (·.message) ++ arrived = left ++ after.pendingLiveEvents.map (·.message) ∧
    ∀ item ∈ left, Processed after.db.appliedOperations item) ∨
  ∃ message, call = .snapshotBegin message ∧ after.pendingLiveEvents = []

omit [Filesystem F] in
theorem later_than_all (hs : s.feed.Sound) {message : StreamRevisionItem}
    (order : ∀ last ∈ s.ack.queue.getLast?, last.revision < message.revision) :
    ∀ pending ∈ s.pendingLiveEvents, pending.message.revision < message.revision := by
  intro pending hpending
  obtain ⟨last, hlast, hle⟩ := le_getLast? hs.sorted hpending
  have hget : s.pendingLiveEvents.getLast? = some last := hlast
  refine Nat.lt_of_le_of_lt hle (order last.message ?_)
  simp only [Engine.ack, List.getLast?_map, hget, Option.map_some, Option.mem_some_iff]

theorem Engine.queueEffect_after (s : Engine F) (hs : s.feed.Sound) (call : Call F) :
    s.QueueEffect call (s.after call) := by
  -- work after a delivery only takes from the front
  have hwork : ∀ arrived store, (arrived = [] ∨ ∃ message, call.delivers = some message ∧ arrived = [message] ∧
      ∀ pending ∈ s.pendingLiveEvents, pending.message.revision < message.revision) →
      Relation.ReflTransGen Move ⟨store, s.ack.queue ++ arrived⟩ (s.after call).ack →
      s.QueueEffect call (s.after call) := by
    intro arrived store harrived hmoves
    obtain ⟨left, hqueue, hprocessed, -⟩ := left_of_moves hmoves
    exact .inl ⟨arrived, left, harrived, hqueue, hprocessed⟩
  rcases s.effect_after call with ⟨view, hdeliver, hmoves⟩ | ⟨message, rfl, hconfirm⟩
  · have hnone : ∀ store, view = ⟨store, s.ack.queue⟩ → s.QueueEffect call (s.after call) := by
      rintro store rfl
      exact hwork [] store (.inl rfl) (by rwa [List.append_nil])
    cases hdeliver with
    | nothing => exact hnone _ rfl
    | queueEvent order => exact hwork _ _ (.inr ⟨_, rfl, rfl, later_than_all hs order⟩) hmoves
    | replayEvent _ _ => exact hnone _ rfl
    | queueResolution _ order _ => exact hwork _ _ (.inr ⟨_, rfl, rfl, later_than_all hs order⟩) hmoves
    | replayResolution _ _ _ => exact hnone _ rfl
    | stage _ _ _ _ _ => exact hnone _ rfl
    | start _ =>
      obtain ⟨left, hqueue, -, -⟩ := left_of_moves hmoves
      refine .inr ⟨_, rfl, ?_⟩
      have hempty := (List.append_eq_nil_iff.mp hqueue.symm).2
      exact List.map_eq_nil_iff.mp hempty
    | finishing _ => exact hnone _ rfl
    | accept _ => exact hnone _ rfl
  · refine .inl ⟨[], [], .inl rfl, ?_, by simp⟩
    simpa [Engine.ack] using hconfirm.queue.symm

/-! ## Duplicates -/

theorem enqueueLiveMessage_duplicate (hs : s.feed.Sound) {pending : PendingLiveItem}
    (hpending : pending ∈ s.pendingLiveEvents) :
    enqueueLiveMessage pending.message s = resumeInboundWork Env.limits.maxItemsPerCall true s := by
  have hfind : s.pendingLiveEvents.find? (·.message.revision = pending.message.revision) = some pending :=
    find?_revision hs.sorted hpending
  unfold enqueueLiveMessage
  refine (bind_of_ok (m := get) (a := s) (t := s) rfl).trans ?_
  simp only [hfind, ne_eq, not_true, if_false]

/-- The outcome of a call that fails and changes nothing, or that only works on the queue. -/
def AddsNothing (s : Engine F) (outcome : EStateM.Result SyncError (Engine F) (List SyncCommand)) : Prop :=
  (∃ e, outcome = .error e s) ∨ outcome = resumeInboundWork Env.limits.maxItemsPerCall true s

theorem event_duplicate (hs : s.feed.Sound) {message : WorkspaceEventMessage}
    (hqueued : ∃ pending ∈ s.pendingLiveEvents, pending.message = .event message) :
    AddsNothing s (event message s) := by
  obtain ⟨pending, hpending, hmessage⟩ := hqueued
  have henqueue := enqueueLiveMessage_duplicate hs hpending
  rw [hmessage] at henqueue
  have hfirst : pendingLiveRevisionPrecedesOrMatches s message.revision = true := by
    obtain ⟨first, rest, hqueue⟩ := List.exists_cons_of_ne_nil (List.ne_nil_of_mem hpending)
    have hsorted : (first :: rest).Pairwise (·.message.revision < ·.message.revision) := hqueue ▸ hs.sorted
    have hrevision : pending.message.revision = message.revision := by rw [hmessage]; rfl
    simp only [pendingLiveRevisionPrecedesOrMatches, hqueue, List.head?_cons, Option.any_some, decide_eq_true_eq]
    rw [hqueue] at hpending
    rcases List.mem_cons.mp hpending with rfl | hrest
    · exact Nat.le_of_eq hrevision
    · exact hrevision ▸ Nat.le_of_lt ((List.pairwise_cons.mp hsorted).1 pending hrest)
  unfold event
  have herror : ∀ e, AddsNothing s (.error e s) := fun e => .inl ⟨e, rfl⟩
  refine ensureOpen_keeps.check_cases (P := AddsNothing s) herror fun _ _ => ?_
  refine (requireValid_keeps _ _).check_cases (P := AddsNothing s) herror fun _ _ => ?_
  refine (requireThat_keeps _ _).check_cases (P := AddsNothing s) herror fun _ _ => ?_
  refine (readDb_keeps _).check_cases (P := AddsNothing s) herror fun receiptMatch _ => ?_
  refine Keeps.get.check_cases (P := AddsNothing s) herror fun engine hengine => ?_
  cases hengine
  cases receiptMatch with
  | missing =>
    dsimp only
    split
    · exact herror _
    · exact .inr henqueue
  | exact =>
    simp only [hfirst, Bool.not_true, Bool.false_eq_true, if_false]
    exact .inr henqueue

/-- The live queue along every run of the engine: it is ordered by revision, its byte counter is the sum of the
sizes and within the limits, an item that is queued already changes nothing, and items join at the end and leave
at the front, after their receipts are stored. -/
theorem liveQueue_of_run {files : F} {operationIds : List OperationId} {timestamps : List Int} {engine : Engine F}
    (run : Run (fun _ _ => True) (Engine.initial files operationIds timestamps) engine) :
    engine.feed.Sound ∧
    (∀ pending ∈ engine.pendingLiveEvents,
      enqueueLiveMessage pending.message engine = resumeInboundWork Env.limits.maxItemsPerCall true engine) ∧
    (∀ message, (∃ pending ∈ engine.pendingLiveEvents, pending.message = .event message) →
      AddsNothing engine (event message engine)) ∧
    ∀ call, engine.QueueEffect call (engine.after call) :=
  have hsound := Feed.Sound.run run
  ⟨hsound, fun _ hpending => enqueueLiveMessage_duplicate hsound hpending,
    fun _ hqueued => event_duplicate hsound hqueued, engine.queueEffect_after hsound⟩

end

section

open scoped Sample

/-- Two events wait for their contents, in the order of their revisions. -/
theorem liveQueue_of_run_waiting :
    (((Sample.engine.after (.event (Sample.writing Sample.pathA 4 [1]))).after
      (.event (Sample.writing Sample.pathB 5 [2]))).pendingLiveEvents.map (·.message.revision) = [4, 5]) ∧
    ((Sample.engine.after (.event (Sample.writing Sample.pathA 4 [1]))).after
      (.event (Sample.writing Sample.pathB 5 [2]))).feed.Sound :=
  ⟨by decide +kernel, (liveQueue_of_run (.step (.step (.refl Sample.engine) trivial) trivial)).1⟩

end

end Lumio.Sync
