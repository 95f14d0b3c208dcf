import Lumio.Fs.Ruled
import Lumio.Sync.Rules.Captures

/-!
# What is uploaded

Local changes are admitted by the rules, and a full snapshot and the end of a stream queue what a scan has found.
So every run stays within the rules in which no item from the server meets excluded local content.
-/

namespace Lumio.Sync

open Lumio.Protocol Lumio.Fs Prog

variable {rules : SyncRules}

/-! ## Local changes -/

section

variable {F : Type} [Filesystem F] [ruled : RuledFilesystem F rules]

theorem scanComplete_included (rules : SyncRules) [ruled : RuledFilesystem F rules] :
    Returns (fun entries => ∀ entry ∈ entries, Includes rules entry.path (entry.kind = .directory))
      (scanComplete (F := F)) := by
  intro s
  simp only [scanComplete, wp_bind, wp_get]
  cases hscan : Filesystem.scan s.files with
  | error e => trivial
  | ok scan =>
    simp only [readFiles, wp_pure]
    split
    · exact ruled.scan_included s.files scan hscan
    · trivial

theorem pathIsSynced_included (rules : SyncRules) [ruled : RuledFilesystem F rules] (path : WorkspacePath) (s : Engine F) :
    wp (pathIsSynced path) (fun synced t => t = s ∧ (synced = true → HoldsIncluded rules s path ∧
      EitherIncluded rules path)) (fun _ t => t = s) s := by
  unfold pathIsSynced
  rw [wp_bind]
  refine wp_inspect (fun observed hobserved => ?_) fun _ => rfl
  rw [wp_bind, wp_get, wp_pure, ruled.included_eq]
  refine ⟨rfl, fun hincluded => ⟨fun entry hentry => ?_, ?_⟩⟩
  · rw [hobserved] at hentry
    cases hentry
    exact hincluded
  · cases hdir : observed.any (·.kind = .directory) with
    | true => exact .inl (by rw [hdir] at hincluded; exact hincluded)
    | false => exact .inr (by rw [hdir] at hincluded; exact hincluded)

def Admitted (rules : SyncRules) (engine : Engine F) : FsChange → Prop
  | .create path | .update path => HoldsIncluded rules engine path
  | .delete _ | .rescanRequired => True
  | .rename source target => EitherIncluded rules source ∧ HoldsIncluded rules engine target

theorem admitLocalChange_admitted (rules : SyncRules) [RuledFilesystem F rules] (change : FsChange) (s : Engine F) :
    wp (admitLocalChange change) (fun admitted t => t = s ∧ ∀ change ∈ admitted, Admitted rules s change)
      (fun _ t => t = s) s := by
  have single : ∀ (change : FsChange) (path : WorkspacePath),
      (HoldsIncluded rules s path → Admitted rules s change) →
        wp (do
          let synced ← pathIsSynced path
          pure (if synced then some change else none))
          (fun admitted t => t = s ∧ ∀ change ∈ admitted, Admitted rules s change) (fun _ t => t = s) s := by
    intro change path hadmitted
    refine wp_seq (pathIsSynced_included rules path s) fun synced t ht => ?_
    refine ⟨ht.1, fun other hother => ?_⟩
    cases synced with
    | true =>
      cases hother
      exact hadmitted (ht.2 rfl).1
    | false => cases hother
  cases change with
  | create path => exact single _ path fun h => h
  | update path => exact single _ path fun h => h
  | delete path => exact single _ path fun _ => trivial
  | rescanRequired => exact ⟨rfl, fun other hother => by cases hother; trivial⟩
  | rename source target =>
    unfold admitLocalChange
    refine wp_seq (pathIsSynced_included rules source s) fun sourceSynced t ht => ?_
    obtain ⟨rfl, hsource⟩ := ht
    refine wp_seq (pathIsSynced_included rules target t) fun targetSynced u hu => ?_
    obtain ⟨rfl, htarget⟩ := hu
    refine ⟨rfl, fun change hchange => ?_⟩
    cases sourceSynced with
    | true =>
      cases targetSynced with
      | true => cases hchange; exact ⟨(hsource rfl).2, (htarget rfl).1⟩
      | false => cases hchange; trivial
    | false =>
      cases targetSynced with
      | true => cases hchange; exact (htarget rfl).1
      | false => cases hchange

variable [LawfulFilesystem F]

variable {s : Engine F}

section

omit ruled

theorem describe_included {path : WorkspacePath} {observed : ObservedEntry} (h : HoldsIncluded rules s path)
    (hobserved : s.view path = .ok (some observed)) :
    Returns (fun entry => EntryIncluded rules path entry.kind entry.contentHash)
      (desiredEntryFromObserved (F := F) observed) := by
  have hpath : observed.path = path := LawfulFilesystem.inspect_path _ _ _ hobserved
  have hincluded := h observed hobserved
  rw [← hpath] at hincluded ⊢
  intro t
  refine wp_mono (wp_and (desiredEntryFromObserved_included hincluded t) (desiredEntryFromObserved_path observed t))
    (fun entry _ hentry => ?_) (fun _ _ h => h.1)
  rw [← hentry.2]
  exact hentry.1

theorem observed_included {path : WorkspacePath} (hholds : HoldsIncluded rules s path) :
    wp (do
      match ← inspect (F := F) path with
      | none => throw (.filesystem (.io "observe local change"))
      | some observed => do
        let entry ← desiredEntryFromObserved observed
        pure (DesiredOperation.upsert entry)) (fun desired _ => desired.Included rules) (fun _ _ => True) s := by
  rw [wp_bind]
  refine wp_inspect (fun observed hobserved => ?_) fun _ => trivial
  cases observed with
  | none => trivial
  | some observed =>
    have hpath : observed.path = path := LawfulFilesystem.inspect_path _ _ _ hobserved
    have hincluded := hholds observed hobserved
    rw [← hpath] at hincluded
    exact (desiredEntryFromObserved_included hincluded).bind (fun entry hentry => .pure hentry) s

theorem desiredFromChange_included {change : FsChange} (h : Admitted rules s change) :
    wp (desiredFromChange change) (fun desired _ => desired.Included rules) (fun _ _ => True) s := by
  cases change with
  | create path => exact observed_included h
  | update path => exact observed_included h
  | delete path => trivial
  | rescanRequired => trivial
  | rename source target =>
    unfold desiredFromChange
    rw [wp_bind]
    refine wp_inspect (fun observed hobserved => ?_) fun _ => trivial
    cases observed with
    | none => trivial
    | some observed => exact (describe_included h.2 hobserved).bind (fun entry hentry => .pure ⟨h.1, hentry⟩) s

end

variable [Env]

theorem recordLocalChange_ruled (change : FsChange) : RuledM rules (recordLocalChange (F := F) change) := by
  intro s hs
  unfold recordLocalChange
  rw [wp_bind]
  refine wp_mono (admitLocalChange_admitted rules change s) (fun admitted t ht => ?_)
    (fun _ t ht => by rw [ht]; exact hs)
  obtain ⟨rfl, hadmitted⟩ := ht
  cases admitted with
  | none => exact hs
  | some admitted =>
    rw [wp_bind]
    refine wp_mono (wp_and (desiredFromChange_included (hadmitted admitted rfl))
      (RuledM.reads (desiredFromChange_keeps admitted) t hs)) (fun desired u hu => ?_) (fun _ _ h => h.2)
    refine RuledM.bind (RuledM.reads .get) (fun engine => ?_) u hu.2
    dsimp only
    split
    · split
      · exact RuledM.reads (.pure _)
      · exact RuledM.deferDesired hu.1
    · exact RuledM.recordDesired hu.1

theorem recordPass_ruled (changes : List FsChange) : RuledM rules (recordPass (F := F) changes) := by
  induction changes with
  | nil => exact RuledM.reads (.pure _)
  | cons change rest ih =>
    cases change with
    | rescanRequired =>
      exact RuledM.bind (RuledM.reads scanChanges_keeps) fun _ => RuledM.bind ih fun _ => RuledM.reads (.pure _)
    | _ => exact RuledM.bind (recordLocalChange_ruled _) fun _ => ih

theorem recordLocalChanges_ruled (changes : List FsChange) : RuledM rules (recordLocalChanges (F := F) changes) :=
  RuledM.bind (RuledM.reads ensureOpen_keeps) fun _ => RuledM.bind (recordPass_ruled _) fun _ =>
    RuledM.bind (recordPass_ruled _) fun _ => RuledM.reads (.pure _)

end

/-! ## Full snapshots -/

section

variable {F : Type} [Filesystem F]

/-- What the workspace holds at a stored path that a full snapshot does not have is included. -/
def SnapshotRuled (rules : SyncRules) (engine : Engine F) : Prop :=
  ∀ path ∈ engine.db.pathStates.keys, engine.db.snapshotStreamContainsPath path = false →
    HoldsIncluded rules engine path

/-- What reconciling reads: the entries of the stored snapshot and what the engine sees of the workspace. -/
def Engine.surveyed (engine : Engine F) :
    Table Nat StreamEntryRecord × (WorkspacePath → Except FsError (Option ObservedEntry)) :=
  (engine.db.entries, engine.view)

variable {s : Engine F}

theorem Engine.surveyed_of_seen {t : Engine F} (h : t.seen = s.seen) : t.surveyed = s.surveyed := by
  have hread : ∀ e : Engine F, e.surveyed = (e.seen.1.entries, e.seen.2) := fun _ => rfl
  rw [hread t, hread s, h]

variable [Env]

omit [Env] in
theorem transaction_surveyed {α : Type} {body : TxM α} (h : Keeps Db.core body) :
    Keeps Engine.surveyed (transaction (F := F) body) := by
  intro s
  rw [wp_transaction]
  refine wp_mono (h s.db) (fun _ db hdb => ?_) (fun _ _ _ => rfl)
  have hentries : db.core.entries = s.db.core.entries := by rw [hdb]
  have hsame : db.entries = s.db.entries := hentries
  simp only [Engine.surveyed, Engine.view, hsame]

theorem nextOperationId_surveyed : Keeps Engine.surveyed (nextOperationId (F := F)) := by
  intro s
  simp only [nextOperationId, wp_bind, wp_get]
  split <;> rfl

theorem nextTimestamp_surveyed : Keeps Engine.surveyed (nextTimestamp (F := F)) := by
  intro s
  simp only [nextTimestamp, wp_bind, wp_get]
  split <;> rfl

theorem queueDesiredWithStates_surveyed (desired : DesiredOperation) (states : PathStates) :
    Keeps Engine.surveyed (queueDesiredWithStates (F := F) desired states) := by
  refine .bind .get fun engine => ?_
  dsimp only
  split
  · split
    · exact .pure _
    · exact .bind (.mapM fun _ => nextTimestamp_surveyed) fun _ =>
        transaction_surveyed (forTx_keeps fun _ => putLocalIntent_keeps _ _ _)
  · exact .bind nextOperationId_surveyed fun _ => .bind nextTimestamp_surveyed fun _ =>
      transaction_surveyed (enqueueMutationAt_keeps _ _)

variable [LawfulFilesystem F] [StagingFilesystem F]

theorem reconcilePath_ruled {path : WorkspacePath} {t : Engine F} (hsurveyed : t.surveyed = s.surveyed)
    (ht : t.db.Ruled rules) (hholds : s.db.snapshotStreamContainsPath path = false → HoldsIncluded rules s path) :
    wp (reconcilePath path) (fun _ u => u.surveyed = s.surveyed ∧ u.db.Ruled rules) (fun _ u => u.db.Ruled rules) t := by
  have hentries : t.db.entries = s.db.entries := congrArg Prod.fst hsurveyed
  have hview : t.view = s.view := congrArg Prod.snd hsurveyed
  unfold reconcilePath
  rw [wp_bind, wp_get]
  dsimp only
  split
  · exact ⟨hsurveyed, ht⟩
  rename_i habsent
  have hheld : HoldsIncluded rules s path := by
    refine hholds ?_
    unfold Db.snapshotStreamContainsPath at habsent ⊢
    rw [← hentries]
    simpa using habsent
  -- the path is forgotten before the workspace is looked at
  rw [wp_bind, wp_transaction]
  have hremoved : wp (removePathState path) (fun _ db => ({ t with db } : Engine F).surveyed = s.surveyed ∧
      db.Ruled rules) (fun _ _ => t.db.Ruled rules) t.db :=
    ⟨hsurveyed, ht.of_queues rfl⟩
  refine wp_mono hremoved (fun _ db hdb => ?_) (fun _ _ h => h)
  refine Keeps.wp_check (inspect_keeps path) (fun observed => ?_) fun _ => hdb.2
  cases observed with
  | none => exact hdb
  | some observed =>
    have hheld' : HoldsIncluded rules ({ t with db } : Engine F) path := by
      intro entry hentry
      refine hheld entry ?_
      rw [← hview]
      exact hentry
    rw [wp_bind]
    refine wp_mono (wp_and (wp_and (desiredFromCurrent_included hheld')
      ((desiredFromCurrent_keeps (π := Engine.seen) path).wp _))
      (RuledM.reads (desiredFromCurrent_keeps path) _ hdb.2)) (fun desired u hu => ?_) (fun _ _ h => h.2)
    obtain ⟨⟨hdesired, hseen⟩, hu⟩ := hu
    refine wp_mono (wp_and ((queueDesiredWithStates_surveyed desired ∅).wp u)
      (RuledM.queueDesiredWithStates hdesired ∅ u hu)) (fun _ v hv => ?_) (fun _ _ h => h.2)
    exact ⟨(hv.1.trans (Engine.surveyed_of_seen hseen)).trans hdb.1, hv.2⟩

theorem reconcileFullSnapshot_ruled [RuledFilesystem F rules] (hs : s.db.Ruled rules) (h : SnapshotRuled rules s) :
    wp reconcileFullSnapshot (fun _ t => t.db.Ruled rules) (fun _ t => t.db.Ruled rules) s := by
  unfold reconcileFullSnapshot
  rw [wp_bind, wp_get]
  dsimp only
  refine wp_seq (wp_forM (I := fun t => t.surveyed = s.surveyed ∧ t.db.Ruled rules) ⟨rfl, hs⟩
    fun path hpath t ht => reconcilePath_ruled ht.1 ht.2 (h path (mem_of_mem_sortPaths hpath)))
    fun _ t ht => ?_
  refine RuledM.bind_returns (RuledM.reads scanComplete_keeps) (scanComplete_included rules) (fun entries hentries => ?_) t ht.2
  refine RuledM.forM fun observed hobserved => RuledM.bind (RuledM.reads .get) fun engine => ?_
  dsimp only
  split
  · exact RuledM.reads (.pure _)
  · exact RuledM.bind_returns (RuledM.reads (desiredEntryFromObserved_keeps _))
      (desiredEntryFromObserved_included (hentries observed hobserved)) fun entry hentry =>
        RuledM.queueDesiredWithStates hentry ∅

end

/-! ## Conflicts -/

section

def Db.hasNewerIntent (db : Db) (desired : DesiredOperation) : Bool :=
  (db.localIntentRecords.map fun row => (row.path, desiredFromIntent row.intent)).any fun (_, operation) =>
    operation.paths.any fun path => desired.paths.any (pathsIntersect path ·)

/-- The blocked rename of a conflict that is replaced keeps its target within the rules when it becomes an
intent, which takes its kind from the current side of the conflict. -/
def ReplacementRuled (rules : SyncRules) (db : Db) (old : WorkspaceConflictCreatedMessage)
    (replacement : Option WorkspaceConflictCreatedMessage) : Prop :=
  ∀ operationId mutation createdAtMs,
    (replacement.any fun new => new.conflictRevision = old.conflictRevision ||
      new.createdByOperationId = old.createdByOperationId) = false →
    db.outbox.lookup old.createdByOperationId = some ⟨operationId, .mutation mutation, .blockedConflict, createdAtMs⟩ →
      mutationMatchesConflictOrigin mutation old = true → mutation.kind = .rename →
        db.hasNewerIntent (desiredFromMutation mutation
          (some (if old.current.contentHash.isNone then .directory else .file))) = false →
          ∀ target ∈ mutation.newPath, Includes rules target old.current.contentHash.isNone

def FinishRuled (rules : SyncRules) (db : Db) : Prop :=
  ∀ conflict ∈ db.conflictRecords,
    ¬((db.streamConflicts.lookup conflict.created.conflictId).isNone ∧ conflict.resolution.isSome) →
      ReplacementRuled rules db conflict.created
        ((db.streamConflicts.lookup conflict.created.conflictId).map (·.created))

def ConflictGenerationReplacementPlan.Included (rules : SyncRules) (plan : ConflictGenerationReplacementPlan) : Prop :=
  ∀ item ∈ plan.replacementIntents, (desiredFromIntent item.2).Included rules

theorem applyConflictGenerationReplacement_ruled {plan : ConflictGenerationReplacementPlan} (h : plan.Included rules) :
    RuledTx rules (applyConflictGenerationReplacement plan) :=
  .bind (.removeOutbox _) fun _ => .bind (.forTx fun path _ => .removeLocalIntent path) fun _ =>
    .forTx fun item hitem => .putLocalIntent _ _ (h item hitem)

theorem replaceAuthoritativeConflicts_ruled : RuledTx rules replaceAuthoritativeConflicts := by
  intro db hdb
  simp only [replaceAuthoritativeConflicts, wp_bind, wp_get]
  split
  · exact hdb
  · refine ⟨fun operationId row mutation hrow => ?_, hdb.intents⟩
    exact hdb.mutations operationId row mutation (Table.lookup_keep.mp hrow).1

variable {F : Type} [Filesystem F] [RuledFilesystem F rules]

theorem independentIntentsForRenameScope_included (rules : SyncRules) [RuledFilesystem F rules]
    (scopes : List WorkspacePath) :
    Returns (fun intents => ∀ item ∈ intents, (desiredFromIntent item.2).Included rules)
      (independentIntentsForRenameScope (F := F) scopes) := by
  refine (scanComplete_included rules).bind fun entries hentries => ?_
  refine (Returns.mapM (P := fun _ entry => (DesiredOperation.upsert entry).Included rules) fun observed hobserved =>
    desiredEntryFromObserved_included (hentries observed (List.mem_of_mem_filter hobserved))).bind fun current hcurrent => ?_
  refine .after fun engine => .pure fun item hitem => ?_
  obtain ⟨path, -, hintent⟩ := List.mem_filterMap.mp hitem
  have hfound : ∀ entry, current.find? (·.path = path) = some entry → (DesiredOperation.upsert entry).Included rules :=
    fun entry hentry => (hcurrent entry (List.mem_of_find?_eq_some hentry)).elim fun _ h => h.2
  unfold independentIntent at hintent
  split at hintent
  · rename_i entry state hentry _
    split at hintent
    · cases hintent
    · cases hintent
      exact hfound entry hentry
  · rename_i entry hentry _
    cases hintent
    exact hfound entry hentry
  · split at hintent
    · cases hintent
      trivial
    · cases hintent
  · cases hintent

theorem replacementIntents_included (rules : SyncRules) [RuledFilesystem F rules] (db : Db) {mutation : WorkspaceMutation} {desired : DesiredOperation}
    (h : db.hasNewerIntent desired = false → desired.Included rules) :
    Returns (fun plan => ∀ item ∈ plan.2, (desiredFromIntent item.2).Included rules)
      (replacementIntents (F := F) db mutation desired) := by
  unfold replacementIntents
  dsimp only
  split
  · split
    · exact (independentIntentsForRenameScope_included rules _).bind fun intents hintents => .pure hintents
    · exact .pure (by simp)
  · rename_i hnone
    refine .pure fun item hitem => ?_
    obtain ⟨path, -, rfl⟩ := List.mem_map.mp hitem
    rw [desiredFromIntent_intentForPath]
    exact h (by simpa [Db.hasNewerIntent] using hnone)

variable [Env]

variable {s : Engine F}

theorem conflictGenerationReplacementPlan_included {old : WorkspaceConflictCreatedMessage}
    {replacement : Option WorkspaceConflictCreatedMessage} (hs : s.db.Ruled rules)
    (h : ReplacementRuled rules s.db old replacement) :
    wp (conflictGenerationReplacementPlan old replacement) (fun found _ => ∀ plan ∈ found, ConflictGenerationReplacementPlan.Included rules plan)
      (fun _ _ => True) s := by
  unfold conflictGenerationReplacementPlan
  rw [wp_bind, wp_get]
  dsimp only
  split
  · simp
  rename_i hreplaced
  split
  · rename_i operationId mutation createdAtMs hrow
    split
    · rename_i horigin
      refine (replacementIntents_included rules s.db fun hnewer => ?_).bind (fun intents hintents => .after fun timestamp =>
        .pure ?_) s
      · refine desiredFromMutation_included (hs.mutations _ _ mutation hrow rfl) _ fun hkind kind hmem target htarget => ?_
        rw [if_pos hkind] at hmem hnewer
        cases hmem
        have hincluded := h operationId mutation createdAtMs (by simpa using hreplaced) hrow horigin hkind hnewer target
          htarget
        cases hhash : old.current.contentHash <;> simpa [hhash] using hincluded
      · intro plan hplan
        cases hplan
        exact hintents
    · simp
  · simp

theorem replacementPlans_included {conflicts : List ConflictRecord} (hs : s.db.Ruled rules)
    (h : ∀ conflict ∈ conflicts,
      ¬((s.db.streamConflicts.lookup conflict.created.conflictId).isNone ∧ conflict.resolution.isSome) →
        ReplacementRuled rules s.db conflict.created
          ((s.db.streamConflicts.lookup conflict.created.conflictId).map (·.created))) :
    wp (replacementPlans conflicts) (fun plans _ => ∀ plan ∈ plans, plan.Included rules) (fun _ _ => True) s := by
  induction conflicts generalizing s with
  | nil => simp [replacementPlans]
  | cons conflict rest ih =>
    unfold replacementPlans
    rw [wp_bind, wp_get]
    dsimp only
    have hrest := fun other hother => h other (List.mem_cons_of_mem conflict hother)
    split
    · exact ih hs hrest
    rename_i hreplaces
    rw [wp_bind]
    refine wp_mono (wp_and (conflictGenerationReplacementPlan_included hs
      (h conflict (by simp) fun hskip => hreplaces (by simpa using hskip)))
      ((conflictGenerationReplacementPlan_keeps (π := Engine.db) _ _).wp s)) (fun plan t ht => ?_) (fun _ _ h => h.1)
    obtain ⟨hplan, hdb⟩ := ht
    refine wp_seq (ih (hdb ▸ hs) (by rw [show t.db = s.db from hdb]; exact hrest)) fun plans u hplans => ?_
    intro other hother
    rcases List.mem_append.mp hother with hother | hother
    · exact hplan other (Option.mem_toList.mp hother)
    · exact hplans other hother

theorem finishStream_ruled (active : StreamState) (hs : s.db.Ruled rules) (h : FinishRuled rules s.db) :
    wp (finishStream active) (fun _ t => t.db.Ruled rules) (fun _ t => t.db.Ruled rules) s := by
  unfold finishStream authoritativeConflictGenerationReplacementPlans
  rw [wp_bind, wp_bind, wp_get]
  refine wp_mono (wp_and (replacementPlans_included hs h) (RuledM.reads (replacementPlans_keeps _) s hs))
    (fun plans t ht => ?_) (fun _ _ h => h.2)
  refine RuledM.transaction (.bind (.of_queues .get) fun db => ?_) t ht.2
  refine .bind (.forTx fun plan hplan => applyConflictGenerationReplacement_ruled (ht.1 plan hplan)) fun _ =>
    .bind replaceAuthoritativeConflicts_ruled fun _ => .bind (.of_queues (setLastAppliedRevision_content _)) fun _ =>
      .bind (.of_queues clearPendingSegmentAck_content) fun _ => ?_
  split
  · exact .of_queues (setPendingAck_content _)
  · exact .of_queues (.modify fun _ => rfl)

theorem replaceConflict_ruled {message : WorkspaceConflictCreatedMessage} {existing : ConflictRecord}
    (hs : s.db.Ruled rules) (h : ReplacementRuled rules s.db existing.created (some message)) :
    wp (replaceConflict message existing) (fun _ t => t.db.Ruled rules) (fun _ t => t.db.Ruled rules) s := by
  unfold replaceConflict
  split
  · split
    · exact hs
    · exact hs
  refine Keeps.wp_check (readDb_keeps _) (fun prior => ?_) fun _ => hs
  rw [wp_bind]
  refine wp_mono (wp_and (conflictGenerationReplacementPlan_included hs h)
    (RuledM.reads (conflictGenerationReplacementPlan_keeps _ _) s hs)) (fun plan t ht => ?_) (fun _ _ h => h.2)
  refine RuledM.bind (RuledM.reads .get) (fun engine => ?_) t ht.2
  dsimp only
  split
  · exact RuledM.reads (.throw _)
  · refine RuledM.transaction (.bind (.forTx fun _ _ => .removeOutbox _) fun _ => .bind (.forTx fun item hitem => ?_)
      fun _ => .putConflict _)
    exact applyConflictGenerationReplacement_ruled (ht.1 item (Option.mem_toList.mp hitem))

end

/-! ## Every run -/

section

variable {F : Type} [Filesystem F] [Env]

theorem queueConflictResolution_ruled (request : WorkspaceConflictResolvedRequest) :
    RuledM rules (queueConflictResolution (F := F) request) := by
  refine RuledM.bind (RuledM.reads ensureOpen_keeps) fun _ => RuledM.bind (RuledM.reads (requireValid_keeps _ _))
    fun _ => RuledM.bind (RuledM.reads (validateIdentity_keeps _ _)) fun _ => RuledM.bind (RuledM.reads .get)
      fun engine => ?_
  dsimp only
  split
  · exact RuledM.reads (.throw _)
  refine RuledM.bind (RuledM.reads (readDb_keeps _)) fun stored => ?_
  split
  · exact RuledM.reads (.pure _)
  · exact RuledM.bind (RuledM.reads (candidateForRequest_keeps _ _)) fun _ =>
      RuledM.bind (RuledM.reads storeNow_keeps) fun _ =>
        RuledM.transaction (.bind (.enqueueConflictResolution _ _) fun _ => .putConflict _)

theorem resolveConflict_ruled (conflictId : ConflictId) (conflictRevision : WorkspaceConflictRevision)
    (choice : WorkspaceConflictChoice) :
    RuledM rules (resolveConflict (F := F) conflictId conflictRevision choice) := by
  refine RuledM.bind (RuledM.reads ensureOpen_keeps) fun _ => RuledM.bind (RuledM.reads .get) fun engine => ?_
  dsimp only
  split
  · exact RuledM.reads (.throw _)
  refine RuledM.bind (RuledM.reads (readDb_keeps _)) fun created => ?_
  split
  · exact RuledM.reads (.throw _)
  split
  · exact RuledM.reads (.throw _)
  · exact RuledM.reads (.throw _)
  · exact RuledM.reads (.throw _)
  · refine RuledM.bind (RuledM.reads (conflictResolutionProposal_keeps _ _)) fun proposal =>
      RuledM.bind (RuledM.reads (readDb_keeps _)) fun existing => ?_
    split
    · exact RuledM.reads (.throw _)
    split
    · exact RuledM.bind (queueConflictResolution_ruled _) fun _ => RuledM.reads (.pure _)
    · exact RuledM.reads (.throw _)
  · refine RuledM.bind (RuledM.reads (conflictResolutionProposal_keeps _ _)) fun proposal => ?_
    split
    · exact RuledM.reads (.throw _)
    · exact RuledM.bind (RuledM.reads nextOperationId_keeps) fun _ =>
        RuledM.bind (queueConflictResolution_ruled _) fun _ => RuledM.reads (.pure _)

omit [Filesystem F] in
theorem conflictResolutionAccepted_ruled (message : WorkspaceConflictResolvedMessage) :
    RuledM rules (conflictResolutionAccepted (F := F) message) :=
  RuledM.bind (RuledM.reads ensureOpen_keeps) fun _ => RuledM.bind (RuledM.reads (requireValid_keeps _ _)) fun _ =>
    RuledM.bind (RuledM.reads (requireThat_keeps _ _)) fun _ => RuledM.bind (RuledM.reads (readDb_keeps _)) fun _ =>
      RuledM.transaction (.forTx fun _ _ => .removeOutbox _)

omit [Filesystem F] [Env] in
theorem conflictResolutionRejected_ruled (operationId : OperationId) (code : WorkspaceV2ErrorCode) :
    RuledM rules (conflictResolutionRejected (F := F) operationId code) := by
  refine RuledM.bind (RuledM.reads ensureOpen_keeps) fun _ => RuledM.bind (RuledM.reads .get) fun engine => ?_
  dsimp only
  split
  · split
    · exact RuledM.reads (.pure _)
    · exact RuledM.reads (.throw _)
  refine RuledM.bind (RuledM.reads (readDb_keeps _)) fun request => ?_
  have hstale : RuledM rules (do
      transaction (F := F) (do
        removeOutbox operationId
        setConflictStatus request.conflictId .refreshRequired)
      pure ([] : List SyncCommand)) :=
    RuledM.bind (RuledM.transaction (.bind (.removeOutbox _) fun _ => .setConflictStatus _ _)) fun _ =>
      RuledM.reads (.pure _)
  split
  · split
    · exact RuledM.reads (.throw _)
    · exact RuledM.bind (RuledM.transaction (.setOutboxStage _ _)) fun _ => RuledM.reads (.pure _)
  · exact hstale
  · exact hstale
  · exact RuledM.reads (.pure _)

/-- The work finds no excluded local content that it would queue. -/
def Work.Ruled (rules : SyncRules) (engine : Engine F) : Work → Prop
  | .process item => item.Ruled rules engine
  | .reconcile => SnapshotRuled rules engine
  | .finish _ => FinishRuled rules engine.db
  | .replaceConflict message existing => ReplacementRuled rules engine.db existing.created (some message)
  | _ => True

variable [LawfulFilesystem F] [StagingFilesystem F] [RuledFilesystem F rules]

variable {s : Engine F}

theorem Work.run_ruled {work : Work} (hs : s.db.Ruled rules) (h : work.Ruled rules s) :
    (final work.run s).db.Ruled rules := by
  have maintains : ∀ {m : EngineM F Unit}, RuledM rules m → (final m s).db.Ruled rules := fun hm => hm.final hs
  cases work with
  | process item => exact wp_final (item.run_ruled hs h)
  | settle message source => exact maintains (RuledM.settleExactConflictResolutionReplay _ _)
  | supersede message cleanup => exact maintains (RuledM.commitSupersededLiveConflictResolution _ _)
  | reconcile => exact wp_final (reconcileFullSnapshot_ruled hs h)
  | finish active => exact wp_final (finishStream_ruled active hs h)
  | materialize => exact maintains RuledM.materializeLocalIntents
  | replay limit =>
    exact maintains (RuledM.bind (RuledM.transaction (.of_restaged (pendingOutboxReplay_restages _))) fun _ =>
      RuledM.reads (.pure _))
  | openConflict message => exact maintains (RuledM.transaction (.putConflict _))
  | replaceConflict message existing => exact wp_final (replaceConflict_ruled hs h)
  | upload operationId => exact maintains (RuledM.blobUploaded _)
  | record changes => exact maintains (recordLocalChanges_ruled _)
  | reconnect => exact maintains RuledM.prepareConnectionAttempt
  | resolve conflictId conflictRevision choice =>
    exact maintains (RuledM.bind (resolveConflict_ruled _ _ _) fun _ => RuledM.reads (.pure _))
  | queue request => exact maintains (queueConflictResolution_ruled _)
  | accept message => exact maintains (conflictResolutionAccepted_ruled _)
  | reject operationId code =>
    exact maintains (RuledM.bind (conflictResolutionRejected_ruled _ _) fun _ => RuledM.reads (.pure _))

omit [Filesystem F] [Env] in
theorem Db.Ruled.staging {t : Engine F} [Env] (hs : s.db.Ruled rules) (h : Staging s.db t.db) :
    t.db.Ruled rules := by
  refine hs.of_queues ?_
  have hqueues : ∀ db : Db, db.queues = db.content.queues := fun _ => rfl
  rw [hqueues t.db, hqueues s.db, h.content]

theorem Step.ruled {t : Engine F} (hs : s.db.Ruled rules) (step : Step (Work.Ruled rules) s t) :
    t.db.Ruled rules := by
  cases step with
  | stage h => exact hs.staging h
  | work work ready allowed => exact work.run_ruled hs allowed

/-- Every run of a new engine does some units of work in turn, and in a run whose work finds no excluded local
content that it would queue, every mutation in the outbox that is no deletion and every deferred intent that is no
deletion has only paths that the rules include. -/
theorem uploads_within_rules :
    (∀ (files : F) (operationIds : List OperationId) (timestamps : List Int) (last : Engine F),
      Run (fun _ _ => True) (Engine.initial files operationIds timestamps) last →
        ∃ works, Traced (Engine.initial files operationIds timestamps) works last) ∧
    ∀ (files : F) (operationIds : List OperationId) (timestamps : List Int) (works : List (Engine F × Work))
      (last : Engine F), Traced (Engine.initial files operationIds timestamps) works last →
        (∀ unit ∈ works, unit.2.Ruled rules unit.1) → last.db.Ruled rules :=
  ⟨fun _ _ _ _ run => run.traced, fun _ _ _ _ _ run hall =>
    Steps.invariant (I := fun t => t.db.Ruled rules) (run.steps hall) .initial fun _ _ hs step => step.ruled hs⟩

end

/-! ## A secret that the server asks to delete -/

section

open scoped Sample

instance {rules : SyncRules} : StagingFilesystem (RuledDisk rules) where
  inspect_staged ruled path := by
    funext other
    simp only [Filesystem.inspect, Filesystem.stageWorkspaceEntry, RuledDisk.lift, Disk.stageWorkspaceEntry]
    split
    · rfl
    · split <;> rfl

instance {rules : SyncRules} : RuledFilesystem (RuledDisk rules) rules where
  included_eq _ _ _ := rfl
  scan_included ruled scan hscan entry hentry := by
    cases hscan
    have hscanned := List.of_mem_filter hentry
    simp only [RuledDisk.scanned, Bool.and_eq_true] at hscanned
    exact hscanned.1

def secretPath : WorkspacePath := ⟨".env".toList, by decide⟩

/-- A new client in a workspace that holds the file `a` and a secret. -/
def secretEngine : Engine (RuledDisk defaultRules) :=
  .initial ⟨(Disk.empty.create Sample.pathA .file [1]).create secretPath .file [2]⟩ [] []

/-- The upload of `a`, which a watcher has reported. -/
theorem uploads_of_watched_file :
    ∃ row mutation, (secretEngine.after (.recordLocalChanges [.create Sample.pathA])).db.outbox.lookup 1000 = some row ∧
      row.body = .mutation mutation ∧ mutation.kind = .upsertFile ∧ MutationIncluded defaultRules mutation := by
  have hwork : Does (Call.recordLocalChanges (F := RuledDisk defaultRules) [.create Sample.pathA]).run secretEngine
      [(secretEngine, .record [.create Sample.pathA])] :=
    (Does.work secretEngine (.record [.create Sample.pathA]) trivial).before_pure _
  have hall : ∀ unit ∈ [(secretEngine, Work.record [.create Sample.pathA])], unit.2.Ruled defaultRules unit.1 := by
    intro unit hunit
    rw [List.mem_singleton.mp hunit]
    trivial
  have hruled : (secretEngine.after (.recordLocalChanges [.create Sample.pathA])).db.Ruled defaultRules :=
    uploads_within_rules.2 _ _ _ _ _ (Traced.refl.step hwork) hall
  let mutation : WorkspaceMutation :=
    ⟨1, 1, 1000, Sample.pathA, 0, .upsertFile, some (contentDigest [1]), ⟨1, 0, false⟩, none, none⟩
  have hrow : (secretEngine.after (.recordLocalChanges [.create Sample.pathA])).db.outbox.lookup 1000 =
      some ⟨1000, .mutation mutation, .queued, 1⟩ := by decide +kernel
  exact ⟨⟨1000, .mutation mutation, .queued, 1⟩, mutation, hrow, rfl, rfl, hruled.mutations 1000 _ mutation hrow rfl⟩

/-- Client 2 deletes a path at which this client holds a secret, and the secret is queued for upload. -/
theorem not_uploads_within_rules_secret :
    ¬ ∀ last, Run (fun _ _ => True) secretEngine last → last.db.Ruled defaultRules := by
  intro h
  have hruled := h (secretEngine.after (.event (Sample.deletion secretPath 5))) ((Run.refl _).step trivial)
  have hincluded := hruled.mutations 1000 ⟨1000, .mutation
    ⟨1, 1, 1000, secretPath, 0, .upsertFile, some (contentDigest [2]), ⟨1, 0, false⟩, none, none⟩, .queued, 1⟩ _
    (by decide +kernel) rfl
  exact absurd hincluded.ofKind (by unfold Includes; decide +kernel)

end

end Lumio.Sync
