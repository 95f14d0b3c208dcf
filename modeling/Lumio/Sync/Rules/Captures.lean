import Lumio.Sync.Rules.Queue

/-!
# Content that is put back

An item from the server that meets local content it does not know is not applied: what the workspace holds at
its paths is queued instead. Nothing asks the rules there, so the queues stay within the rules where the
workspace holds nothing excluded at such a path.
-/

namespace Lumio.Sync

open Lumio.Protocol Lumio.Fs Prog

variable {rules : SyncRules}

/-! ## Conditions -/

section

variable {F : Type} [Filesystem F]

def Engine.view (engine : Engine F) : WorkspacePath → Except FsError (Option ObservedEntry) :=
  Filesystem.inspect engine.files

def HoldsIncluded (rules : SyncRules) (engine : Engine F) (path : WorkspacePath) : Prop :=
  ∀ entry, engine.view path = .ok (some entry) → Includes rules path (entry.kind = .directory)

def Finds (check : EngineM F Bool) (engine : Engine F) : Prop := ∃ after, check engine = .ok true after

/-- Whether the workspace holds at a path neither the state to be taken over nor the stored one. -/
def stateIsDiverged (post : WorkspacePathState) : EngineM F Bool := do
  let previous := (← get).db.pathStates.lookup post.path
  let observed ← inspect post.path
  let postMatches ← observedMatchesPost post observed
  if postMatches then pure false
  else do
    let baselineMatches ← baselineMatchesObserved previous observed
    pure !baselineMatches

/-- The path takes part in a deferred operation that an event on the given paths comes across. -/
def Db.defers (db : Db) (touched : List WorkspacePath) (path : WorkspacePath) : Bool :=
  (db.deferredOperationsIntersecting touched).any (desiredOperationCoversPath · path)

def EventRuled (rules : SyncRules) (engine : Engine F) (event : WorkspaceEventMessage) : Prop :=
  engine.db.eventReceiptMatch event = .ok .missing → Finds (eventIsDiverged event) engine →
    ∀ path ∈ mutationPaths event.mutation, engine.db.defers (mutationPaths event.mutation) path = false →
      HoldsIncluded rules engine path

def StateRuled (rules : SyncRules) (engine : Engine F) (post : WorkspacePathState) : Prop :=
  Finds (stateIsDiverged post) engine → HoldsIncluded rules engine post.path

def Processing.Ruled [Env] (rules : SyncRules) (engine : Engine F) : Processing → Prop
  | .accepted _ | .rejected _ => True
  | .liveEvent message => EventRuled rules engine message
  | .streamEvent message => message.originClientId ≠ Env.clientId → EventRuled rules engine message
  | .snapshotEntry message => StateRuled rules engine message.entry
  | .resolution message _ =>
    ∀ cleanup, engine.db.inboundConflictResolutionReceiptMatch message = .ok .missing →
      engine.db.conflictCleanupOperations message = .ok cleanup → cleanup.preserveNewerGeneration = false →
        StateRuled rules engine message.pathState

end

/-! ## Observing -/

section

variable {F : Type} [Filesystem F]

def Engine.seen (engine : Engine F) : Db × (WorkspacePath → Except FsError (Option ObservedEntry)) :=
  (engine.db, engine.view)

variable {s t : Engine F} {path : WorkspacePath} {observed : List (WorkspacePath × Option ObservedEntry)}

theorem Engine.db_of_seen (h : t.seen = s.seen) : t.db = s.db := congrArg Prod.fst h

theorem Db.Ruled.of_seen (hs : s.db.Ruled rules) (h : t.seen = s.seen) : t.db.Ruled rules := by
  rw [Engine.db_of_seen h]
  exact hs

theorem HoldsIncluded.of_seen (h : HoldsIncluded rules s path) (hseen : t.seen = s.seen) :
    HoldsIncluded rules t path := by
  have hview : t.view = s.view := congrArg Prod.snd hseen
  intro entry hentry
  rw [hview] at hentry
  exact h entry hentry

instance [StagingFilesystem F] : StagingFree (Engine.seen (F := F)) where
  of_staged s path := by
    have hview := StagingFilesystem.inspect_staged s.files path
    simp only [Engine.seen, Engine.view, hview]

theorem wp_inspect {Q : Option ObservedEntry → Engine F → Prop} {E : SyncError → Engine F → Prop}
    (hQ : ∀ observed, s.view path = .ok observed → Q observed s) (hE : ∀ e, E e s) : wp (inspect path) Q E s := by
  unfold Engine.view at hQ
  simp only [inspect, wp_bind, wp_get]
  cases hinspect : Filesystem.inspect s.files path with
  | ok observed => exact hQ observed hinspect
  | error e => exact hE _

omit [Filesystem F] in
theorem wp_of_finds {check : EngineM F Bool} {P : Prop} (h : Finds check s → P) :
    wp check (fun found _ => found = true → P) (fun _ _ => True) s := by
  unfold wp
  cases hrun : check s with
  | ok found t =>
    rintro rfl
    exact h ⟨t, hrun⟩
  | error e t => trivial

theorem desiredEntryFromObserved_included {observed : ObservedEntry}
    (h : Includes rules observed.path (observed.kind = .directory)) :
    Returns (fun entry => (DesiredOperation.upsert entry).Included rules)
      (desiredEntryFromObserved (F := F) observed) := by
  unfold desiredEntryFromObserved
  split
  · rename_i hkind
    exact .pure (.of_content h fun hother => absurd hkind hother)
  · exact .after fun descriptor => .pure (.of_content h fun _ => rfl)

theorem desiredEntryFromObserved_path (observed : ObservedEntry) :
    Returns (fun entry => entry.path = observed.path) (desiredEntryFromObserved (F := F) observed) := by
  unfold desiredEntryFromObserved
  split
  · exact .pure rfl
  · exact .after fun descriptor => .pure rfl

variable [LawfulFilesystem F]

theorem desiredFromCurrent_included (h : HoldsIncluded rules s path) :
    wp (desiredFromCurrent path) (fun desired _ => desired.Included rules) (fun _ _ => True) s := by
  unfold desiredFromCurrent
  rw [wp_bind]
  refine wp_inspect (fun observed hobserved => ?_) fun _ => trivial
  cases observed with
  | none => trivial
  | some observed =>
    have hpath : observed.path = path := LawfulFilesystem.inspect_path _ _ _ hobserved
    have hincluded := h observed hobserved
    rw [← hpath] at hincluded
    exact (desiredEntryFromObserved_included hincluded).bind (fun entry hentry => .pure hentry) s

variable [StagingFilesystem F]

theorem desiredForObserved_included {desired : List DesiredOperation}
    (hdesired : ∀ operation ∈ desired, operation.Included rules)
    (hholds : ∀ item ∈ observed, desired.any (desiredOperationCoversPath · item.1) = false →
      HoldsIncluded rules s item.1) :
    wp (desiredForObserved desired observed) (fun operations _ => ∀ operation ∈ operations, operation.Included rules)
      (fun _ _ => True) s := by
  induction observed generalizing desired s with
  | nil => exact hdesired
  | cons first rest ih =>
    obtain ⟨path, entry⟩ := first
    unfold desiredForObserved
    split
    · exact ih hdesired fun item hitem => hholds item (by simp [hitem])
    rename_i huncovered
    -- the operations that are added cover no fewer paths
    have hstep : ∀ (operation : DesiredOperation) (t : Engine F), operation.Included rules → t.seen = s.seen →
        wp (desiredForObserved (if operation ∈ desired then desired else desired ++ [operation]) rest)
          (fun operations _ => ∀ operation ∈ operations, operation.Included rules) (fun _ _ => True) t := by
      intro operation t hoperation hseen
      refine ih (fun other hother => ?_) fun item hitem hcovered => ?_
      · split at hother
        · exact hdesired other hother
        · rcases List.mem_append.mp hother with hother | hother
          · exact hdesired other hother
          · rw [List.mem_singleton.mp hother]
            exact hoperation
      · refine (hholds item (by simp [hitem]) ?_).of_seen hseen
        split at hcovered
        · exact hcovered
        · rw [List.any_append, Bool.or_eq_false_iff] at hcovered
          exact hcovered.1
    split
    · have hheld := hholds (path, entry) (by simp) (by simpa using huncovered)
      exact wp_seq_any (wp_and (desiredFromCurrent_included hheld)
        ((desiredFromCurrent_keeps (π := Engine.seen) path).wp s))
        fun operation t ht => hstep operation t ht.1 ht.2
    · exact hstep (.delete path) s trivial rfl

omit [LawfulFilesystem F] [StagingFilesystem F] in
theorem observedForEvent_paths (event : WorkspaceEventMessage) :
    Returns (fun observed => ∀ item ∈ observed, item.1 ∈ mutationPaths event.mutation)
      (observedForEvent (F := F) event) := by
  refine fun s => wp_mono ((Returns.mapM (P := fun path item => item.1 = path) fun path _ => ?_) s)
    (fun observed _ h item hitem => ?_) (fun _ _ h => h)
  · exact .after fun observed => .pure rfl
  · obtain ⟨path, hpath, hitem⟩ := h item hitem
    exact hitem ▸ hpath

/-! ## Events -/

variable [Env]

theorem preservedReplacements_included {event : WorkspaceEventMessage} (postStates : List WorkspacePathState)
    (hs : s.db.Ruled rules) (hholds : ∀ item ∈ observed, s.db.defers (mutationPaths event.mutation) item.1 = false →
      HoldsIncluded rules s item.1) :
    wp (preservedReplacements event observed postStates)
      (fun replacements _ => ∀ item ∈ replacements.mutations, MutationIncluded rules item.1) (fun _ _ => True) s := by
  unfold preservedReplacements
  rw [wp_bind, wp_get]
  refine wp_seq (desiredForObserved_included (fun operation => hs.deferredOperationsIntersecting) hholds)
    fun desired t hdesired => ?_
  refine (RuledM.nextMutations_returns (fun operation hoperation => ?_) _).bind (fun next hnext => .pure hnext) t
  obtain ⟨original, horiginal, rfl⟩ := List.mem_map.mp hoperation
  exact replacementDesiredAgainstStates_included (hdesired original horiginal) _

omit [LawfulFilesystem F] [StagingFilesystem F] [Env] in
theorem holds_of_seen {event : WorkspaceEventMessage} (hseen : t.seen = s.seen)
    (hpaths : ∀ item ∈ observed, item.1 ∈ mutationPaths event.mutation)
    (h : ∀ path ∈ mutationPaths event.mutation, s.db.defers (mutationPaths event.mutation) path = false →
      HoldsIncluded rules s path) :
    ∀ item ∈ observed, t.db.defers (mutationPaths event.mutation) item.1 = false → HoldsIncluded rules t item.1 := by
  intro item hitem huncovered
  rw [Engine.db_of_seen hseen] at huncovered
  exact (h item.1 (hpaths item hitem) huncovered).of_seen hseen

end

namespace RuledM

variable {F : Type} [Filesystem F] [Env]

variable (event : WorkspaceEventMessage) (message : WorkspaceConflictResolvedMessage) (status : StreamItemStatus)
  (cleanup : ConflictCleanup) (postStates : List WorkspacePathState) (source : ConflictResolutionSource)
  (removeOutbox_ : Bool) (applyId : Option ApplyId)

omit [Env] in
theorem eventBody {rest : TxM Unit} (hrest : RuledTx rules rest) : RuledTx rules (do
      forTx postStates putPathState
      recordMutationAppliedOperation event.originClientId event.operationId event.revision
        (appliedEventDigest event) event.mutation
      Prog.onlyIf removeOutbox_ (removeOutbox event.operationId)
      rest) :=
  .bind (.forTx fun state _ => .of_queues (putPathState_outward state)) fun _ =>
    .bind (.of_queues (recordMutationAppliedOperation_outward _ _ _ _ _)) fun _ =>
      .bind (.onlyIf (.removeOutbox _) _) fun _ => hrest

omit [Env] in
omit [Filesystem F] in
theorem commitLiveEventWithJournal :
    RuledM rules (commitLiveEventWithJournal (F := F) event postStates removeOutbox_ applyId) :=
  transaction (eventBody event postStates removeOutbox_ (.bind (.of_queues (setLastAppliedRevision_content _))
    fun _ => .bind (.of_queues (setPendingAck_content _)) fun _ => .of_queues (commitJournal_outward _)))

omit [Filesystem F] in
theorem commitEventWithJournal :
    RuledM rules (commitEventWithJournal (F := F) event status postStates removeOutbox_ applyId) :=
  transaction (eventBody event postStates removeOutbox_
    (.bind (.onlyIf (.of_queues (setLastAppliedRevision_content _)) _) fun _ =>
      .bind (.of_queues (putStreamEvent_content _ _)) fun _ => .of_queues (commitJournal_outward _)))

omit [Filesystem F] in
theorem commitEntryWithJournal (entry : WorkspaceSnapshotEntryMessage) (status : StreamItemStatus)
    (postStates : List WorkspacePathState) (applyId : Option ApplyId) :
    RuledM rules (commitEntryWithJournal (F := F) entry status postStates applyId) :=
  transaction (.bind (.forTx fun state _ => .of_queues (putPathState_outward state)) fun _ =>
    .bind (.of_queues (putStreamEntry_content _ _)) fun _ => .of_queues (commitJournal_outward _))

section

omit [Filesystem F] [Env]

theorem markLiveEventApplied (revision : WorkspaceRevision) :
    RuledM rules (markLiveEventApplied (F := F) revision) := by
  refine bind (reads .get) fun engine => ?_
  dsimp only
  split
  · exact reads (.pure _)
  · exact transaction (.bind (.onlyIf (.of_queues (setLastAppliedRevision_content _)) _) fun _ =>
      .onlyIf (.of_queues (setPendingAck_content _)) _)

theorem composes : Composes (Engine.exceptJournals (F := F)) (fun {_} m => RuledM rules m) := ⟨reads, bind⟩

end

/-! ## Resolutions -/

omit [Filesystem F] [Env] in
theorem cleanupConflictResolution (conflictId : ConflictId) (cleanup : ConflictCleanup) :
    RuledTx rules (cleanupConflictResolution conflictId cleanup) :=
  .bind (.forTx fun _ _ => .removeOutbox _) fun _ => .bind (.forTx fun _ _ => .removeOutbox _) fun _ =>
    .onlyIf (.removeConflict _) _

omit [Filesystem F] in
theorem commitConflictResolvedWithJournal :
    RuledM rules (commitConflictResolvedWithJournal (F := F) message status source applyId) := by
  refine bind (reads (readDb_keeps _)) fun _ => bind (reads (readDb_keeps _)) fun cleanup => transaction ?_
  exact .bind (.onlyIf (.of_queues (putPathState_outward _)) _) fun _ =>
    .bind (.of_queues (recordAppliedOperation_outward _)) fun _ => .bind (cleanupConflictResolution _ _) fun _ =>
      .bind (.of_queues (commitResolutionSource_content _ _ _ _)) fun _ => .of_queues (commitJournal_outward _)

omit [Filesystem F] in
theorem commitSupersededConflictResolution :
    RuledM rules (commitSupersededConflictResolution (F := F) message cleanup) :=
  transaction (.bind (.of_queues (recordAppliedOperation_outward _)) fun _ =>
    .bind (cleanupConflictResolution _ _) fun _ =>
      .bind (.of_queues (putStreamConflictResolved_content _ _)) fun _ => .pure _)

omit [Filesystem F] [Env] in
theorem commitSupersededLiveConflictResolution :
    RuledM rules (commitSupersededLiveConflictResolution (F := F) message cleanup) := by
  refine bind (reads .get) fun engine => transaction ?_
  exact .bind (.of_queues (recordAppliedOperation_outward _)) fun _ => .bind (cleanupConflictResolution _ _) fun _ =>
    .bind (.onlyIf (.of_queues (setLastAppliedRevision_content _)) _) fun _ =>
      .onlyIf (.of_queues (setPendingAck_content _)) _

omit [Filesystem F] in
theorem settleExactConflictResolutionReplay :
    RuledM rules (settleExactConflictResolutionReplay (F := F) message source) := by
  refine bind (reads (readDb_keeps _)) fun replay => bind (reads .get) fun engine => transaction ?_
  exact .bind (.onlyIf (cleanupConflictResolution _ _) _) fun _ =>
    .bind (.onlyIf (.forTx fun _ _ => .removeOutbox _) _) fun _ => .of_queues (settleResolutionSource_content _ _ _)

end RuledM

section

variable {F : Type} [Filesystem F] [LawfulFilesystem F] [StagingFilesystem F] [Env]

variable {s : Engine F} {event : WorkspaceEventMessage}

omit [LawfulFilesystem F] [StagingFilesystem F] [Env] in
theorem wp_read_alike {α β γ : Type} {m : EngineM F α} {check : α → EngineM F β} {rest : α → EngineM F γ}
    {P : β → Engine F → Prop} {E : SyncError → Engine F → Prop} (hm : Keeps Engine.seen m) (hs : s.db.Ruled rules)
    (hcheck : wp (m >>= check) P E s)
    (h : ∀ a t, m s = .ok a t → t.seen = s.seen → t.db.Ruled rules → wp (check a) P E t →
      wp (rest a) (fun _ u => u.db.Ruled rules) (fun _ u => u.db.Ruled rules) t) :
    wp (m >>= rest) (fun _ u => u.db.Ruled rules) (fun _ u => u.db.Ruled rules) s := by
  have hrun : wp m (fun a t => m s = .ok a t) (fun _ _ => True) s := by
    unfold wp
    cases m s with
    | ok a t => rfl
    | error e t => trivial
  rw [wp_bind] at hcheck ⊢
  exact wp_mono (wp_and (wp_and hrun hcheck) (hm.wp s))
    (fun a t ht => h a t ht.1.1 ht.2 (hs.of_seen ht.2) ht.1.2) fun _ _ ht => hs.of_seen ht.2

theorem preserved_ruled {observed : List (WorkspacePath × Option ObservedEntry)} {rest : TxM Unit}
    (hrest : RuledTx rules rest) (postStates : List WorkspacePathState) (removeOutbox_ : Bool) (hs : s.db.Ruled rules)
    (hholds : ∀ item ∈ observed, s.db.defers (mutationPaths event.mutation) item.1 = false →
      HoldsIncluded rules s item.1) :
    wp (do
      let replacements ← preservedReplacements event observed postStates
      transaction do
        forTx postStates putPathState
        recordMutationAppliedOperation event.originClientId event.operationId event.revision
          (appliedEventDigest event) event.mutation
        Prog.onlyIf removeOutbox_ (removeOutbox event.operationId)
        forTx replacements.settledPaths removeLocalIntent
        forTx replacements.mutations fun (mutation, timestamp) => enqueueMutationAt mutation timestamp
        rest) (fun _ t => t.db.Ruled rules) (fun _ t => t.db.Ruled rules) s := by
  rw [wp_bind]
  refine wp_mono (wp_and (preservedReplacements_included postStates hs hholds)
    ((RuledM.reads (preservedReplacements_keeps _ _ _)) s hs)) (fun replacements t ht => ?_) (fun _ _ h => h.2)
  refine RuledM.transaction (RuledM.eventBody event postStates removeOutbox_ ?_) t ht.2
  exact .bind (.forTx fun path _ => .removeLocalIntent path) fun _ => .bind (.enqueueAll ht.1) fun _ => hrest

theorem applyLiveEvent_ruled (hs : s.db.Ruled rules) (h : EventRuled rules s event) :
    wp (applyLiveEvent event) (fun _ t => t.db.Ruled rules) (fun _ t => t.db.Ruled rules) s := by
  unfold applyLiveEvent
  rw [wp_bind, wp_get, wp_bind]
  refine wp_readDb (fun receiptMatch hreceipt => ?_) fun _ => hs
  split
  · exact RuledM.markLiveEventApplied _ s hs
  rename_i hnew
  refine Keeps.wp_check (readDb_keeps _) (fun _ => ?_) fun _ => hs
  have hmissing : s.db.eventReceiptMatch event = .ok .missing := by
    cases receiptMatch with
    | missing => exact hreceipt
    | exact => exact absurd rfl hnew
  have hdiverged := wp_of_finds (h hmissing)
  rw [eventIsDiverged, wp_bind, wp_get] at hdiverged
  refine wp_read_alike (observedForEvent_keeps event) hs hdiverged fun observed t hrun hseen ht hdiverged => ?_
  have hpaths := wp_of_ok (observedForEvent_paths event s) hrun
  refine wp_read_alike (eventPostMatches_keeps _ _) ht hdiverged fun postMatches u _ hseen' hu hdiverged => ?_
  cases postMatches with
  | true => exact RuledM.commitLiveEventWithJournal _ _ _ _ u hu
  | false =>
    rw [if_neg Bool.false_ne_true] at hdiverged ⊢
    refine wp_read_alike (eventBaselineMatches_keeps _ _) hu hdiverged fun baselineMatches v _ hseen'' hv hheld => ?_
    cases baselineMatches with
    | false =>
      have hrest : RuledTx rules (setLastAppliedRevision event.revision >>= fun _ => setPendingAck event.revision) :=
        .bind (.of_queues (setLastAppliedRevision_content _)) fun _ => .of_queues (setPendingAck_content _)
      exact preserved_ruled hrest _ _ hv (holds_of_seen ((hseen''.trans hseen').trans hseen) hpaths (hheld rfl))
    | true =>
      refine RuledM.bind (RuledM.reads (operationForEvent_keeps _ _)) (fun operation => ?_) v hv
      cases operation with
      | none => exact RuledM.commitLiveEventWithJournal _ _ _ _
      | some operation => exact RuledM.composes.journaled fun receipt => RuledM.commitLiveEventWithJournal _ _ _ _

theorem applyEvent_ruled (hs : s.db.Ruled rules) (h : event.originClientId ≠ Env.clientId → EventRuled rules s event) :
    wp (applyEvent event) (fun _ t => t.db.Ruled rules) (fun _ t => t.db.Ruled rules) s := by
  unfold applyEvent
  rw [wp_bind, wp_get, wp_bind]
  refine wp_readDb (fun receiptMatch hreceipt => ?_) fun _ => hs
  split
  · exact RuledM.bind (RuledM.transaction (.of_queues (putStreamEvent_content _ _))) (fun _ => RuledM.reads (.pure _)) s hs
  rename_i hnew
  refine Keeps.wp_check (readDb_keeps _) (fun _ => ?_) fun _ => hs
  dsimp only
  split
  · exact RuledM.commitEventWithJournal _ _ _ _ _ s hs
  rename_i hforeign
  have hmissing : s.db.eventReceiptMatch event = .ok .missing := by
    cases receiptMatch with
    | missing => exact hreceipt
    | exact => exact absurd rfl hnew
  have hdiverged := wp_of_finds (h hforeign hmissing)
  rw [eventIsDiverged, wp_bind, wp_get] at hdiverged
  refine wp_read_alike (observedForEvent_keeps event) hs hdiverged fun observed t hrun hseen ht hdiverged => ?_
  have hpaths := wp_of_ok (observedForEvent_paths event s) hrun
  refine wp_read_alike (eventPostMatches_keeps _ _) ht hdiverged fun postMatches u _ hseen' hu hdiverged => ?_
  cases postMatches with
  | true =>
    exact RuledM.bind (RuledM.reads (eventBaselineMatches_keeps _ _))
      (fun _ => RuledM.commitEventWithJournal _ _ _ _ _) u hu
  | false =>
    rw [if_neg Bool.false_ne_true] at hdiverged
    refine wp_read_alike (eventBaselineMatches_keeps _ _) hu hdiverged fun baselineMatches v _ hseen'' hv hheld => ?_
    cases baselineMatches with
    | false =>
      have hrest : RuledTx rules (putStreamEvent event .preserved >>= fun _ => pure ()) :=
        .bind (.of_queues (putStreamEvent_content _ _)) fun _ => .pure _
      exact preserved_ruled hrest _ _ hv (holds_of_seen ((hseen''.trans hseen').trans hseen) hpaths (hheld rfl))
    | true =>
      refine RuledM.bind (RuledM.reads (operationForEvent_keeps _ _)) (fun operation => ?_) v hv
      cases operation with
      | none => exact RuledM.commitEventWithJournal _ _ _ _ _
      | some operation => exact RuledM.composes.journaled fun receipt => RuledM.commitEventWithJournal _ _ _ _ _

/-! ## Entries and resolutions -/

omit [StagingFilesystem F] in
theorem capture_ruled {path : WorkspacePath} {states : PathStates} {rest : EngineM F Unit} (hs : s.db.Ruled rules)
    (hholds : HoldsIncluded rules s path) (hrest : RuledM rules rest) :
    wp (do
      let desired ← desiredFromCurrent path
      queueDesiredWithStates desired states
      rest) (fun _ t => t.db.Ruled rules) (fun _ t => t.db.Ruled rules) s := by
  rw [wp_bind]
  refine wp_mono (wp_and (desiredFromCurrent_included hholds) (RuledM.reads (desiredFromCurrent_keeps path) s hs))
    (fun desired t ht => ?_) (fun _ _ h => h.2)
  exact RuledM.bind (RuledM.queueDesiredWithStates ht.1 states) (fun _ => hrest) t ht.2

theorem applySnapshotEntry_ruled {entry : WorkspaceSnapshotEntryMessage} (hs : s.db.Ruled rules)
    (h : StateRuled rules s entry.entry) :
    wp (applySnapshotEntry entry) (fun _ t => t.db.Ruled rules) (fun _ t => t.db.Ruled rules) s := by
  have hdiverged := wp_of_finds h
  rw [stateIsDiverged, wp_bind, wp_get] at hdiverged
  unfold applySnapshotEntry
  rw [wp_bind, wp_get]
  dsimp only
  refine wp_read_alike (inspect_keeps _) hs hdiverged fun observed t _ hseen ht hdiverged => ?_
  refine wp_read_alike (observedMatchesPost_keeps _ _) ht hdiverged fun postMatches u _ hseen' hu hdiverged => ?_
  cases postMatches with
  | true =>
    exact RuledM.bind (RuledM.reads (baselineMatchesObserved_keeps _ _))
      (fun _ => RuledM.commitEntryWithJournal _ _ _ _) u hu
  | false =>
    rw [if_neg Bool.false_ne_true] at hdiverged
    refine wp_read_alike (baselineMatchesObserved_keeps _ _) hu hdiverged
      fun baselineMatches v _ hseen'' hv hheld => ?_
    rw [if_neg Bool.false_ne_true]
    split
    · rename_i hcapture
      have hholds := (hheld (by simpa using hcapture.1)).of_seen ((hseen''.trans hseen').trans hseen)
      exact capture_ruled hv hholds (RuledM.commitEntryWithJournal _ _ _ _)
    split
    · have hdelete : (DesiredOperation.delete entry.entry.path).Included rules := trivial
      exact RuledM.bind (RuledM.queueDesiredWithStates hdelete _) (fun _ => RuledM.commitEntryWithJournal _ _ _ _) v hv
    refine RuledM.bind (RuledM.reads (operationForState_keeps _ _)) (fun operation => ?_) v hv
    cases operation with
    | none => exact RuledM.commitEntryWithJournal _ _ _ _
    | some operation => exact RuledM.composes.journaled fun receipt => RuledM.commitEntryWithJournal _ _ _ _

theorem applyConflictResolvedFrom_ruled {message : WorkspaceConflictResolvedMessage}
    {source : ConflictResolutionSource} (hs : s.db.Ruled rules)
    (h : (Processing.resolution message source).Ruled rules s) :
    wp (applyConflictResolvedFrom message source) (fun _ t => t.db.Ruled rules) (fun _ t => t.db.Ruled rules) s := by
  unfold applyConflictResolvedFrom
  rw [wp_bind]
  refine wp_readDb (fun receiptMatch hreceipt => ?_) fun _ => hs
  split
  · exact RuledM.settleExactConflictResolutionReplay _ _ s hs
  rename_i hnew
  have hmissing : s.db.inboundConflictResolutionReceiptMatch message = .ok .missing := by
    cases receiptMatch with
    | missing => exact hreceipt
    | exact => exact absurd rfl hnew
  rw [wp_bind]
  refine wp_readDb (fun cleanup hcleanup => ?_) fun _ => hs
  rw [wp_bind, wp_get]
  dsimp only
  split
  · cases source with
    | stream => exact RuledM.commitSupersededConflictResolution _ _ s hs
    | live => exact RuledM.commitSupersededLiveConflictResolution _ _ s hs
  rename_i hgeneration
  split
  · exact hs
  have hdiverged := wp_of_finds (h cleanup hmissing hcleanup (by simpa using hgeneration))
  rw [stateIsDiverged, wp_bind, wp_get] at hdiverged
  refine wp_read_alike (inspect_keeps _) hs hdiverged fun observed t _ hseen ht hdiverged => ?_
  refine wp_read_alike (observedMatchesPost_keeps _ _) ht hdiverged fun postMatches u _ hseen' hu hdiverged => ?_
  cases postMatches with
  | true => exact RuledM.commitConflictResolvedWithJournal _ _ _ _ u hu
  | false =>
    rw [if_neg Bool.false_ne_true] at hdiverged ⊢
    refine wp_read_alike (baselineMatchesObserved_keeps _ _) hu hdiverged
      fun baselineMatches v _ hseen'' hv hheld => ?_
    cases baselineMatches with
    | false =>
      have hholds := (hheld rfl).of_seen ((hseen''.trans hseen').trans hseen)
      exact capture_ruled hv hholds (RuledM.commitConflictResolvedWithJournal _ _ _ _)
    | true =>
      refine RuledM.bind (RuledM.reads (operationForState_keeps _ _)) (fun operation => ?_) v hv
      cases operation with
      | none => exact RuledM.commitConflictResolvedWithJournal _ _ _ _
      | some operation =>
        exact RuledM.bind (RuledM.reads (resolutionStreamId_keeps source)) fun _ =>
          RuledM.composes.journaled fun receipt => RuledM.commitConflictResolvedWithJournal _ _ _ _

theorem Processing.run_ruled {item : Processing} (hs : s.db.Ruled rules) (h : item.Ruled rules s) :
    wp item.run (fun _ t => t.db.Ruled rules) (fun _ t => t.db.Ruled rules) s := by
  cases item with
  | accepted message =>
    exact RuledM.bind (RuledM.mutationAccepted message) (fun _ => RuledM.reads (.pure _)) s hs
  | rejected message => exact RuledM.mutationRejected message s hs
  | liveEvent message => exact applyLiveEvent_ruled hs h
  | streamEvent message => exact applyEvent_ruled hs h
  | snapshotEntry message => exact applySnapshotEntry_ruled hs h
  | resolution message source => exact applyConflictResolvedFrom_ruled hs h

end

end Lumio.Sync
