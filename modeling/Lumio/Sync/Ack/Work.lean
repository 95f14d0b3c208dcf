import Lumio.Sync.Ack.Live

/-!
# The work loop and the acknowledgement view

Whatever `resumeInboundWork` does is a sequence of moves.
-/

namespace Lumio.Sync

open Lumio.Protocol Lumio.Fs Prog

section

variable {F α β : Type}

theorem Moved.refl (s : Engine F) : Moved s s := Relation.ReflTransGen.refl

theorem Moved.trans {s t u : Engine F} (hst : Moved s t) (htu : Moved t u) : Moved s u :=
  Relation.ReflTransGen.trans hst htu

theorem Moved.of_store {s : Engine F} {db : Db} {store store' : AckStore} (hs : s.db.ack = store)
    (hdb : db.ack = store') (h : Move ⟨store, s.ack.queue⟩ ⟨store', s.ack.queue⟩) : Moved s { s with db } := by
  subst hs hdb
  exact .single h

def Working (m : EngineM F α) : Prop := Moves Moved m

theorem Working.bind {m : EngineM F α} {f : α → EngineM F β} (hm : Working m) (hf : ∀ a, Working (f a)) :
    Working (m >>= f) := Moves.bind .trans hm hf

theorem Working.of_ack {m : EngineM F α} (h : Keeps Engine.ack m) : Working m :=
  Moves.mono h fun _ _ => .of_ack

theorem Working.of_core {m : EngineM F α} (h : Keeps Engine.core m) : Working m := of_ack (keeps_ack h)

theorem RowCall.moved {m : EngineM F α} (h : RowCall m) {s : Engine F} (hpos : 0 < s.db.unsettled) :
    wp m (fun _ t => Moved s t) (fun _ t => Moved s t) s := by
  have hmove : ∀ t : Engine F, t.ack.queue = s.ack.queue ∧ AckStore.Row s.ack.store t.ack.store → Moved s t := by
    rintro t ⟨hqueue, hrow⟩
    refine .single ?_
    rw [show t.ack = ⟨t.ack.store, s.ack.queue⟩ by rw [← hqueue]]
    exact .row hpos hrow
  exact wp_mono (h s) (fun _ => hmove) (fun _ => hmove)

end

section

variable {F : Type} [Filesystem F] [Env]

/-! ## One step of each source -/

omit [Filesystem F] [Env] in
theorem popLiveItem_wp {s : Engine F} {item : StreamRevisionItem} {queue : List StreamRevisionItem}
    (serializedBytes : Nat) (hqueue : s.ack.queue = item :: queue) (processed : Processed s.ack.store.receipts item) :
    wp (popLiveItem serializedBytes) (fun _ t => Moved s t) (fun _ t => Moved s t) s := by
  simp only [popLiveItem, wp_bind, wp_get]
  split
  · exact .refl s
  rename_i first rest hevents
  split
  · exact .refl s
  simp only [Engine.ack, hevents, List.map_cons, List.cons.injEq] at hqueue
  refine .single ?_
  simp only [Engine.ack, hevents, List.map_cons, hqueue.1]
  exact .pop processed

variable {db : Db} (commandLimit : Nat) (reissueWaiting : Bool)

theorem resumeLiveStep_working (work : InboundWork) (commandLimit : Nat) (reissueWaiting : Bool) :
    Working (resumeLiveStep (F := F) work commandLimit reissueWaiting) := by
  intro s
  simp only [resumeLiveStep, wp_bind, wp_get]
  split
  · exact .refl s
  rename_i pending rest hevents
  have hqueue : s.ack.queue = pending.message :: rest.map (·.message) := by
    simp only [Engine.ack, hevents, List.map_cons]
  split
  · exact .refl s
  rename_i budget hbudget
  refine Keeps.wp_bind (keeps_ack (missingContent_keeps _)) (fun missing s₁ h₁ => ?_) (fun _ _ => .of_ack)
  split
  · exact .of_ack h₁
  have hqueue₁ : s₁.ack.queue = pending.message :: rest.map (·.message) := by rw [h₁, hqueue]
  -- the head is applied, and leaves the queue
  have hpop : ∀ t, Done pending.message s₁ t →
      wp (do popLiveItem pending.serializedBytes; pure (ResumeStep.progressed, { work with budget }))
        (fun _ u => Moved s u) (fun _ u => Moved s u) t := by
    rintro t ⟨hmoved, htqueue, processed⟩
    have hmoved := (Moved.of_ack h₁).trans hmoved
    rw [wp_bind]
    exact wp_mono (popLiveItem_wp _ (htqueue.trans hqueue₁) processed) (fun _ _ h => hmoved.trans h)
      (fun _ _ h => hmoved.trans h)
  split
  · rename_i event hevent
    rw [hevent] at hqueue₁ hpop
    rw [wp_bind]
    exact wp_mono (applyLiveEvent_wp event hqueue₁) (fun _ => hpop) (fun _ _ h => (Moved.of_ack h₁).trans h)
  · rename_i message hmessage
    rw [hmessage] at hqueue₁ hpop
    rw [wp_bind]
    exact wp_mono (applyConflictResolvedFrom_wp message hqueue₁) (fun _ => hpop)
      (fun _ _ h => (Moved.of_ack h₁).trans h)

omit [Env] in
theorem unsettled_pos_of_entry {record : StreamEntryRecord} (h : db.pendingStreamEntry = some record) :
    0 < db.unsettled := by
  have hmem := List.mem_filter.mp (List.mem_of_mem_head? (Option.mem_def.mpr h))
  have hvalue : record ∈ db.entries.values := Table.mem_values_iff.mpr (Table.mem_orderBy_iff.mp hmem.1)
  have hpos : 0 < Table.count (!·.status.settled) db.entries := Table.count_pos_of_mem hvalue hmem.2
  exact Nat.lt_of_lt_of_le hpos (Nat.le_add_right _ _)

omit [Env] in
theorem unsettled_pos_of_item {record : StreamRevisionItemRecord} (h : db.pendingStreamRevisionItem = some record) :
    0 < db.unsettled := by
  have hmem := List.mem_filter.mp (List.mem_of_mem_head? (Option.mem_def.mpr h))
  have hvalue : record ∈ db.items.values := Table.mem_values_iff.mpr (Table.mem_orderBy_iff.mp hmem.1)
  have hpos : 0 < Table.count (!·.status.settled) db.items := Table.count_pos_of_mem hvalue hmem.2
  exact Nat.lt_of_lt_of_le hpos (Nat.le_add_left _ _)

theorem resumeStreamStep_working (work : InboundWork) (commandLimit : Nat) (reissueWaiting : Bool) :
    Working (resumeStreamStep (F := F) work commandLimit reissueWaiting) := by
  intro s
  simp only [resumeStreamStep, wp_bind, wp_get]
  split
  · exact .refl s
  split
  · exact .refl s
  split
  · split
    · exact .refl s
    rename_i record hrecord
    split
    · exact .refl s
    · exact (RowCall.resumeStreamEntry _ _ _ _).moved (unsettled_pos_of_entry hrecord)
  · split
    · exact .refl s
    rename_i record hrecord
    split
    · exact .refl s
    split
    · exact (RowCall.resumeStreamEvent _ _ _ _ _).moved (unsettled_pos_of_item hrecord)
    · exact (RowCall.resumeStreamConflictResolved _ _ _ _ _).moved (unsettled_pos_of_item hrecord)

/-! ## The end of a stream -/

omit [Filesystem F] [Env] in
theorem unsettled_of_ready (active : StreamState) (h : db.streamItemsReady active = true) : db.unsettled = 0 := by
  unfold Db.streamItemsReady at h
  unfold Db.unsettled
  split at h
  · simp only [Bool.and_eq_true, decide_eq_true_eq] at h
    obtain ⟨⟨-, hentries⟩, hrevisions⟩ := h
    have hitems : db.streamTableSummary.pendingRevisionCount ≤ db.streamTableSummary.revisionCount := by
      simp only [Db.streamTableSummary, Table.values]
      exact (List.length_filter_le _ _).trans (by rw [List.length_map])
    omega
  · simp only [Bool.and_eq_true, decide_eq_true_eq] at h
    obtain ⟨⟨-, hitems⟩, hcount⟩ := h
    have hentries : db.streamTableSummary.pendingEntryCount ≤ db.streamTableSummary.entryCount := by
      simp only [Db.streamTableSummary, Table.values]
      exact (List.length_filter_le _ _).trans (by rw [List.length_map])
    omega

@[grind .] theorem reconcilePath_ack (path : WorkspacePath) : Keeps Engine.ack (reconcilePath (F := F) path) := by
  unfold reconcilePath
  refine .bind .get fun engine => ?_
  dsimp only
  split
  · exact .pure _
  refine .bind (transaction_ack (removePathState_ack _)) fun _ => .bind (inspect_keeps _) fun observed => ?_
  split
  · exact .pure _
  · exact .bind (keeps_ack (desiredFromCurrent_keeps _)) fun _ => keeps_ack (queueDesiredWithStates_keeps _ _)

@[grind .] theorem reconcileEntry_ack (observed : ObservedEntry) :
    Keeps Engine.ack (reconcileEntry (F := F) observed) := by
  refine keeps_ack ?_
  unfold reconcileEntry
  grind

theorem reconcileFullSnapshot_ack : Keeps Engine.ack (reconcileFullSnapshot (F := F)) := by
  unfold reconcileFullSnapshot
  grind

omit [Filesystem F] [Env] in
theorem finishStreamTx_wp {s : Engine F} {active : StreamState} (plans : List ConflictGenerationReplacementPlan)
    (hfinal : s.ack.store.final = some ⟨active.finalRevision, true⟩) (hsettled : s.ack.store.unsettled = 0) :
    wp (transaction (finishStreamTx active plans)) (fun _ t => Moved s t) (fun _ t => Moved s t) s := by
  refine wp_transaction_of ?_ (fun _ => .refl s)
  unfold finishStreamTx
  rw [wp_bind, wp_get]
  refine Keeps.wp_bind (forTx_keeps applyConflictGenerationReplacement_keeps) (fun _ db₁ h₁ => ?_)
    (fun _ _ _ => trivial)
  refine Keeps.wp_bind replaceAuthoritativeConflicts_keeps (fun _ db₂ h₂ => ?_) (fun _ _ _ => trivial)
  have hack : db₂.ack = s.db.ack := Db.ack_of_core (h₂.trans h₁)
  have hview : s.db.ack = ⟨s.db.cursor, some ⟨active.finalRevision, true⟩, 0, s.db.appliedOperations⟩ := by
    rw [← hfinal, ← hsettled]
    rfl
  rw [hview] at hack
  simp only [Db.ack, AckStore.mk.injEq] at hack
  obtain ⟨hcursor, hfinal, hunsettled, hreceipts⟩ := hack
  rw [wp_bind]
  refine wp_setLastAppliedRevision _ (fun happlied => ?_) (fun _ => trivial)
  rw [hcursor] at happlied
  simp only [clearPendingSegmentAck, wp_bind, wp_modify]
  split
  · rename_i hneeds
    refine wp_setPendingAck _ (.of_store hview ?_ (Move.finish happlied hneeds)) (fun _ => trivial)
    simp only [Db.ack, AckStore.mk.injEq]
    exact ⟨by rw [hcursor]; rfl, hfinal, hunsettled, hreceipts⟩
  · rename_i hneeds
    refine .of_store hview ?_ (Move.drop happlied (Nat.le_of_not_lt hneeds))
    simp only [Db.ack, AckStore.mk.injEq]
    exact ⟨by rw [hcursor], rfl, rfl, hreceipts⟩

theorem finishStreamIfReady_working : Working (finishStreamIfReady (F := F)) := by
  intro s
  simp only [finishStreamIfReady, wp_bind, wp_get]
  split
  · exact .refl s
  rename_i active hstream
  split
  · exact .refl s
  rename_i hended
  have hended : active.endReceived = true := by simpa using hended
  split
  · exact .refl s
  rename_i hready
  split
  · exact .refl s
  have hsettled : s.ack.store.unsettled = 0 := by
    refine unsettled_of_ready active ?_
    by_contra hnot
    exact hready (.inl (by simpa using hnot))
  have hfinal : s.ack.store.final = some ⟨active.finalRevision, true⟩ := by
    simp only [Engine.ack, Db.ack, hstream, Option.map_some, hended]
  refine Keeps.wp_bind (reconcileFullSnapshot_ack.onlyIf _) (fun _ s₁ h₁ => ?_) (fun _ _ => .of_ack)
  refine Keeps.wp_bind (keeps_ack authoritativeConflictGenerationReplacementPlans_keeps) (fun plans s₂ h₂ => ?_)
    (fun _ _ h => .of_ack (h.trans h₁))
  have h₂ := h₂.trans h₁
  rw [wp_bind]
  refine wp_mono (finishStreamTx_wp plans (by rw [h₂, hfinal]) (by rw [h₂, hsettled])) (fun _ s₃ h₃ => ?_)
    (fun _ _ h => (Moved.of_ack h₂).trans h)
  have h₃ := (Moved.of_ack h₂).trans h₃
  exact Keeps.wp_bind (keeps_ack materializeLocalIntents_keeps) (fun _ _ h => h₃.trans (.of_ack h))
    (fun _ _ h => h₃.trans (.of_ack h))

omit [Filesystem F] [Env] in
theorem advanceSegmentAckIfStalled_working : Working (advanceSegmentAckIfStalled (F := F)) := by
  intro s
  simp only [advanceSegmentAckIfStalled, wp_bind, wp_get]
  split
  · exact .refl s
  rename_i active hstream
  split
  · exact .refl s
  rename_i hidle
  split
  · exact .refl s
  split
  · exact .refl s
  split
  · exact .refl s
  split
  · exact .refl s
  rename_i hready
  have hsettled : s.db.unsettled = 0 := unsettled_of_ready active (by simpa using hready)
  have hidle : s.db.cursor.pendingAckRevision = none := by simpa using hidle
  refine wp_transaction_of ?_ (fun _ => .refl s)
  have hview : s.db.ack =
      ⟨s.db.cursor, some ⟨active.finalRevision, active.endReceived⟩, 0, s.db.appliedOperations⟩ := by
    simp only [Db.ack, hstream, hsettled, Option.map_some]
  refine .of_store hview ?_ (Move.segment hidle)
  · simp only [Db.ack, hstream, Option.map_some, AckStore.mk.injEq]
    exact ⟨trivial, trivial, hsettled, trivial⟩

/-! ## The loop -/

omit [Filesystem F] [Env] in
theorem working_composes : Composes (Engine.core (F := F)) (fun {_} m => Working m) := ⟨.of_core, .bind⟩

theorem resumeInboundWork_working : Working (resumeInboundWork (F := F) commandLimit reissueWaiting) := by
  intro s
  unfold resumeInboundWork
  rw [wp_bind, wp_get, wp_bind, wp_set]
  have hloop := working_composes.resumeLoop (F := F) (fun work => resumeStreamStep_working work commandLimit reissueWaiting)
    fun work => resumeLiveStep_working work commandLimit reissueWaiting
  refine Working.bind (hloop _ _ _ _ _) (fun work => ?_) { s with nextInboundSource := _ }
  exact .bind finishStreamIfReady_working fun _ => .bind advanceSegmentAckIfStalled_working fun _ =>
    .of_core (.pure _)

end

end Lumio.Sync
