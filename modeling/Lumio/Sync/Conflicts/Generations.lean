import Lumio.Sync.Rules.Protection
import Lumio.Protocol.Valid

/-!
# Local work behind a replaced conflict

When a newer generation replaces a conflict, the blocked mutation that opened it leaves the outbox. The plan puts
an intent in its place, unless a deferred intent meets one of its paths: then a rename is taken apart by a scan,
and any other mutation is left to the intent, also when that is about a directory above its path or about
something below it.
-/

namespace Lumio.Sync

open Lumio.Protocol Lumio.Fs Prog

/-! ## What covers a path -/

def operationPaths (mutation : WorkspaceMutation) : List WorkspacePath := (desiredFromMutation mutation none).paths

def Db.blockedMutation (db : Db) (operationId : OperationId) : Option WorkspaceMutation :=
  match db.outbox.lookup operationId with
  | some ⟨_, .mutation mutation, .blockedConflict, _⟩ => some mutation
  | _ => none

def Db.HasRowBeside (db : Db) (operationId : OperationId) (path : WorkspacePath) : Prop :=
  ∃ other row mutation, other ≠ operationId ∧ db.outbox.lookup other = some row ∧ row.body = .mutation mutation ∧
    path ∈ mutationPaths mutation

def Db.Covers (db : Db) (path : WorkspacePath) : Prop :=
  (db.localIntents.lookup path).isSome ∨
    ∃ operationId row mutation, db.outbox.lookup operationId = some row ∧ row.body = .mutation mutation ∧
      path ∈ mutationPaths mutation

section

variable {rules : SyncRules}

def describe (path : WorkspacePath) (node : Node) : LocalDesiredEntry :=
  if node.kind = .directory then ⟨path, .directory, none, zeroMetadata⟩
  else ⟨path, node.kind, node.contentHash, node.metadata⟩

def MatchesRemote (engine : Engine (RuledDisk rules)) (path : WorkspacePath) : Prop :=
  match engine.files.disk.node path with
  | some node => ∃ state ∈ engine.db.pathStates.lookup path, remoteMatchesEntry state (describe path node) = true
  | none => ∀ state ∈ engine.db.pathStates.lookup path, state.kind = .tombstone ∨ state.tombstone = true

def RemoteLive (engine : Engine (RuledDisk rules)) (path : WorkspacePath) : Prop :=
  ∃ state ∈ engine.db.pathStates.lookup path, state.kind ≠ .tombstone ∧ state.tombstone = false

def Scanned (engine : Engine (RuledDisk rules)) (path : WorkspacePath) : Prop :=
  ∃ observed ∈ engine.files.scan.entries, observed.path = path

end

def Db.deferredRows (db : Db) : List (WorkspacePath × DesiredOperation) :=
  db.localIntentRecords.map fun row => (row.path, desiredFromIntent row.intent)

def Db.takenApart (db : Db) (mutation : WorkspaceMutation) : List WorkspacePath :=
  if mutation.kind = .rename then (renameIntentClosure (operationPaths mutation) db.deferredRows).2 else []

/-- A deferred intent that meets a path of the mutation leaves none of its paths uncovered. -/
def CoveredApart {rules : SyncRules} (engine : Engine (RuledDisk rules)) (operationId : OperationId)
    (mutation : WorkspaceMutation) : Prop :=
  engine.db.hasNewerIntent (desiredFromMutation mutation none) = true → ∀ path ∈ operationPaths mutation,
    ((engine.db.localIntents.lookup path).isSome ∧ path ∉ engine.db.takenApart mutation) ∨
      engine.db.HasRowBeside operationId path ∨ MatchesRemote engine path ∨
        (mutation.kind = .rename ∧ (Scanned engine path ∨ RemoteLive engine path))

/-! ## Applying a plan -/

section

variable {db : Db} {path : WorkspacePath}

theorem isSome_lookup_erase {κ ν : Type} [DecidableEq κ] {table : Table κ ν} {k k' : κ} :
    ((table.erase k).lookup k').isSome ↔ k' ≠ k ∧ (table.lookup k').isSome := by
  simp only [Option.isSome_iff_exists, Table.lookup_erase_iff, exists_and_left]

theorem isSome_lookup_insert {κ ν : Type} [DecidableEq κ] {table : Table κ ν} {k k' : κ} {v : ν} :
    ((table.insert k v).lookup k').isSome ↔ k' = k ∨ (table.lookup k').isSome := by
  by_cases h : k' = k
  · subst h
    simp [AList.lookup_insert]
  · simp [h, AList.lookup_insert_ne h]

theorem removeLocalIntents_wp (paths : List WorkspacePath) (db : Db) (path : WorkspacePath) :
    wp (forTx paths removeLocalIntent) (fun _ left => left.outbox = db.outbox ∧
      ((left.localIntents.lookup path).isSome ↔ path ∉ paths ∧ (db.localIntents.lookup path).isSome))
      (fun _ _ => False) db := by
  induction paths generalizing db with
  | nil => exact ⟨rfl, by simp⟩
  | cons first rest ih =>
    simp only [forTx, List.forM_cons, wp_bind, removeLocalIntent, wp_modify]
    refine wp_mono (ih _) (fun _ left hleft => ⟨hleft.1, ?_⟩) fun _ _ h => h
    rw [hleft.2, isSome_lookup_erase, List.mem_cons, not_or]
    tauto

theorem putLocalIntents_wp (intents : List (WorkspacePath × LocalIntent)) (updatedAtMs : Int) (db : Db)
    (path : WorkspacePath) :
    wp (forTx intents fun (path, intent) => putLocalIntent path intent updatedAtMs)
      (fun _ left => left.outbox = db.outbox ∧ ((left.localIntents.lookup path).isSome ↔
        (∃ intent, (path, intent) ∈ intents) ∨ (db.localIntents.lookup path).isSome)) (fun _ _ => False) db := by
  induction intents generalizing db with
  | nil => exact ⟨rfl, by simp⟩
  | cons first rest ih =>
    obtain ⟨own, intent⟩ := first
    simp only [forTx, List.forM_cons, wp_bind, putLocalIntent, wp_modify]
    refine wp_mono (ih _) (fun _ left hleft => ⟨hleft.1, ?_⟩) fun _ _ h => h
    rw [hleft.2, isSome_lookup_insert]
    simp only [List.mem_cons, Prod.mk.injEq]
    constructor
    · rintro (⟨other, hother⟩ | rfl | hstored)
      · exact .inl ⟨other, .inr hother⟩
      · exact .inl ⟨intent, .inl ⟨rfl, rfl⟩⟩
      · exact .inr hstored
    · rintro (⟨other, ⟨rfl, -⟩ | hother⟩ | hstored)
      · exact .inr (.inl rfl)
      · exact .inl ⟨other, hother⟩
      · exact .inr (.inr hstored)

theorem covers_applied_iff (plan : ConflictGenerationReplacementPlan) (db : Db) (path : WorkspacePath) :
    (final (applyConflictGenerationReplacement plan) db).Covers path ↔
      (∃ intent, (path, intent) ∈ plan.replacementIntents) ∨
        (path ∉ plan.removeIntentPaths ∧ (db.localIntents.lookup path).isSome) ∨
          db.HasRowBeside plan.blockedOperationId path := by
  have happlied : wp (applyConflictGenerationReplacement plan)
      (fun _ left => left.outbox = db.outbox.erase plan.blockedOperationId ∧
        ((left.localIntents.lookup path).isSome ↔ (∃ intent, (path, intent) ∈ plan.replacementIntents) ∨
          (path ∉ plan.removeIntentPaths ∧ (db.localIntents.lookup path).isSome))) (fun _ _ => False) db := by
    simp only [applyConflictGenerationReplacement, wp_bind, removeOutbox, wp_modify]
    refine wp_mono (removeLocalIntents_wp _ _ path) (fun _ between hbetween => ?_) fun _ _ h => h
    refine wp_mono (putLocalIntents_wp _ _ between path) (fun _ left hleft => ?_) fun _ _ h => h
    exact ⟨hleft.1.trans hbetween.1, hleft.2.trans (or_congr_right hbetween.2)⟩
  obtain ⟨_, left, hrun, houtbox, hintents⟩ := exists_ok_of_wp happlied
  simp only [final, hrun, Db.Covers, hintents, houtbox, Table.lookup_erase_iff, Db.HasRowBeside, or_assoc, and_assoc]

end

/-! ## A rename taken apart -/

section

variable {rules : SyncRules} {engine : Engine (RuledDisk rules)}

theorem describe_path (path : WorkspacePath) (node : Node) : (describe path node).path = path := by
  unfold describe
  split <;> rfl

variable {path : WorkspacePath}

theorem desiredEntryFromObserved_describes {node : Node} (hnode : engine.files.disk.node path = some node) :
    wp (desiredEntryFromObserved (node.observe path)) (fun entry after => entry = describe path node ∧
      after.files.disk.node = engine.files.disk.node) (fun _ _ => True) engine := by
  unfold desiredEntryFromObserved describe
  by_cases hkind : node.kind = .directory
  · simp [Node.observe, hkind]
  · have hobserved : (node.observe path).kind ≠ .directory := hkind
    rw [if_neg hobserved, if_neg hkind, wp_bind]
    simp only [wp, writeFiles, Filesystem.stageWorkspaceEntry, RuledDisk.lift, Disk.stageWorkspaceEntry, Node.observe,
      hnode]
    cases hhash : node.contentHash with
    | none => trivial
    | some hash => exact ⟨rfl, rfl⟩

theorem describeAll_wp {entries : List ObservedEntry}
    (h : ∀ observed ∈ entries, ∃ node, engine.files.disk.node observed.path = some node ∧
      observed = node.observe observed.path) :
    wp (entries.mapM desiredEntryFromObserved) (fun current after => (∀ entry ∈ current,
        ∃ observed ∈ entries, ∃ node, engine.files.disk.node observed.path = some node ∧
          entry = describe observed.path node) ∧
      (∀ observed ∈ entries, ∃ entry ∈ current, entry.path = observed.path) ∧ after.db = engine.db) (fun _ _ => True)
      engine := by
  induction entries generalizing engine with
  | nil => exact ⟨by simp, by simp, rfl⟩
  | cons first rest ih =>
    obtain ⟨node, hnode, hfirst⟩ := h first (by simp)
    rw [List.mapM_cons, wp_bind]
    have hdescribed := wp_and (desiredEntryFromObserved_describes hnode)
      (desiredEntryFromObserved_keeps (π := Engine.db) (node.observe first.path) engine)
    rw [← hfirst] at hdescribed
    refine wp_mono hdescribed (fun entry between hbetween => ?_) fun _ _ _ => trivial
    obtain ⟨⟨rfl, hsame⟩, hdb⟩ := hbetween
    rw [wp_bind]
    have hrest : ∀ observed ∈ rest, ∃ node, between.files.disk.node observed.path = some node ∧
        observed = node.observe observed.path := by
      rw [hsame]
      exact fun observed hobserved => h observed (by simp [hobserved])
    refine wp_mono (ih hrest) (fun current after hafter => ?_) fun _ _ _ => trivial
    obtain ⟨hfrom, hall, hkept⟩ := hafter
    rw [hsame] at hfrom
    refine ⟨fun entry hentry => ?_, fun observed hobserved => ?_, hkept.trans hdb⟩
    · rcases List.mem_cons.mp hentry with rfl | hentry
      · exact ⟨first, by simp, node, hnode, rfl⟩
      · obtain ⟨observed, hobserved, hrest⟩ := hfrom entry hentry
        exact ⟨observed, by simp [hobserved], hrest⟩
    · rcases List.mem_cons.mp hobserved with rfl | hobserved
      · exact ⟨_, List.mem_cons_self, describe_path _ _⟩
      · obtain ⟨entry, hentry, hpath⟩ := hall observed hobserved
        exact ⟨entry, by simp [hentry], hpath⟩

theorem scan_entries {observed : ObservedEntry} (h : observed ∈ engine.files.scan.entries) :
    ∃ node, engine.files.disk.node observed.path = some node ∧ observed = node.observe observed.path := by
  have hobserved := List.mem_of_mem_filter h
  obtain ⟨path, -, hpath⟩ := List.mem_filterMap.mp hobserved
  cases hnode : engine.files.disk.node path with
  | none => simp [hnode] at hpath
  | some node =>
    obtain rfl : node.observe path = observed := by simpa [hnode] using hpath
    exact ⟨node, hnode, rfl⟩

theorem independentIntent_path {current : List LocalDesiredEntry} {remote : PathStates}
    {item : WorkspacePath × LocalIntent} (h : independentIntent current remote path = some item) :
    item.1 = path := by
  unfold independentIntent at h
  split at h
  · split at h <;> cases h
    rfl
  · cases h
    rfl
  · split at h <;> cases h
    rfl
  · cases h

theorem mem_sortPaths {paths : List WorkspacePath} : path ∈ sortPaths paths ↔ path ∈ paths := by
  rw [sortPaths, List.mem_dedup, List.mem_insertionSort]

theorem independentIntent_iff {current : List LocalDesiredEntry}
    (hsome : ∀ entry, current.find? (·.path = path) = some entry →
      Scanned engine path ∧ ∃ node, engine.files.disk.node path = some node ∧ entry = describe path node)
    (hnone : current.find? (·.path = path) = none → ¬Scanned engine path) :
    (∃ intent, independentIntent current engine.db.pathStates path = some (path, intent)) ↔
      (Scanned engine path ∧ ¬MatchesRemote engine path) ∨ (¬Scanned engine path ∧ RemoteLive engine path) := by
  unfold independentIntent
  cases hfound : current.find? (·.path = path) with
  | some entry =>
    obtain ⟨hscanned, node, hnode, rfl⟩ := hsome entry hfound
    cases hstored : engine.db.pathStates.lookup path with
    | none => simp [hscanned, MatchesRemote, hnode, hstored]
    | some state =>
      by_cases hmatches : remoteMatchesEntry state (describe path node) = true <;>
        simp [hscanned, MatchesRemote, hnode, hstored, hmatches]
  | none =>
    have hunscanned := hnone hfound
    cases hstored : engine.db.pathStates.lookup path with
    | none => simp [hunscanned, RemoteLive, hstored]
    | some state =>
      by_cases hlive : state.kind ≠ .tombstone ∧ state.tombstone = false <;>
        simp [hunscanned, RemoteLive, hstored, hlive]

/-- Taking a rename apart defers what differs: an entry that the scan reports and the server does not have like
that, or an entry of the server that the scan does not report. -/
theorem independentIntents_wp {scopes : List WorkspacePath} (hscope : pathIsInScopes path scopes = true) :
    wp (independentIntentsForRenameScope scopes) (fun intents _ => (∃ intent, (path, intent) ∈ intents) ↔
      (Scanned engine path ∧ ¬MatchesRemote engine path) ∨ (¬Scanned engine path ∧ RemoteLive engine path))
      (fun _ _ => True) engine := by
  have hscan : scanComplete engine = .ok engine.files.scan.entries engine := rfl
  unfold independentIntentsForRenameScope wp
  rw [bind_of_ok hscan]
  change wp _ _ _ engine
  have hentries : ∀ observed ∈ engine.files.scan.entries.filter fun observed => pathIsInScopes observed.path scopes,
      ∃ node, engine.files.disk.node observed.path = some node ∧ observed = node.observe observed.path :=
    fun observed hobserved => scan_entries (List.mem_of_mem_filter hobserved)
  refine wp_seq_any (describeAll_wp hentries) fun current after hafter => ?_
  obtain ⟨hfrom, hall, hdb⟩ := hafter
  simp only [wp_bind, wp_get, wp_pure, hdb]
  have hsome : ∀ entry, current.find? (·.path = path) = some entry →
      Scanned engine path ∧ ∃ node, engine.files.disk.node path = some node ∧ entry = describe path node := by
    intro entry hfound
    obtain ⟨observed, hobserved, node, hnode, rfl⟩ := hfrom entry (List.mem_of_find?_eq_some hfound)
    have hpath : observed.path = path := by
      have := List.find?_some hfound
      rwa [decide_eq_true_eq, describe_path] at this
    subst hpath
    exact ⟨⟨observed, List.mem_of_mem_filter hobserved, rfl⟩, node, hnode, rfl⟩
  have hnone : current.find? (·.path = path) = none → ¬Scanned engine path := by
    rintro hfound ⟨observed, hobserved, rfl⟩
    obtain ⟨entry, hentry, hpath⟩ := hall observed (List.mem_filter.mpr ⟨hobserved, hscope⟩)
    exact absurd (decide_eq_true hpath) (List.find?_eq_none.mp hfound entry hentry)
  rw [← independentIntent_iff hsome hnone]
  constructor
  · rintro ⟨intent, hintent⟩
    obtain ⟨other, -, hother⟩ := List.mem_filterMap.mp hintent
    obtain rfl : path = other := independentIntent_path hother
    exact ⟨intent, hother⟩
  · rintro ⟨intent, hintent⟩
    refine ⟨intent, List.mem_filterMap.mpr ⟨path, mem_sortPaths.mpr ?_, hintent⟩⟩
    rw [List.mem_append]
    -- a path without an entry and without a state needs nothing
    cases hfound : current.find? (·.path = path) with
    | some entry =>
      have hpath : entry.path = path := by simpa using List.find?_some hfound
      exact .inl (List.mem_map.mpr ⟨entry, List.mem_of_find?_eq_some hfound, hpath⟩)
    | none =>
      cases hstored : engine.db.pathStates.lookup path with
      | none => simp [independentIntent, hfound, hstored] at hintent
      | some state => exact .inr (List.mem_filter.mpr ⟨Table.mem_keys_iff.mpr ⟨state, hstored⟩, hscope⟩)

end

/-! ## The plan -/

section

variable {rules : SyncRules} {engine : Engine (RuledDisk rules)} {mutation : WorkspaceMutation}

theorem desiredFromMutation_paths (mutation : WorkspaceMutation) (renameKind : Option WorkspaceEntryKind) :
    (desiredFromMutation mutation renameKind).paths = operationPaths mutation := by
  simp only [operationPaths, desiredFromMutation]
  cases mutation.kind with
  | rename => dsimp only; split <;> split <;> rfl
  | _ => rfl

theorem subset_addPaths (paths closure : List WorkspacePath) :
    closure ⊆ paths.foldl (fun closure path => if path ∈ closure then closure else closure ++ [path]) closure := by
  induction paths generalizing closure with
  | nil => exact List.Subset.refl closure
  | cons path rest ih =>
    refine List.Subset.trans ?_ (ih _)
    dsimp only
    split
    · exact List.Subset.refl closure
    · exact List.subset_append_left _ _

theorem subset_expandClosure (existing : List (WorkspacePath × DesiredOperation)) (closure : List WorkspacePath) :
    closure ⊆ expandClosure existing closure := by
  unfold expandClosure
  induction existing generalizing closure with
  | nil => exact List.Subset.refl closure
  | cons row rest ih =>
    refine List.Subset.trans ?_ (ih _)
    dsimp only
    split
    · exact subset_addPaths _ _
    · exact List.Subset.refl closure

theorem subset_closeClosure (existing : List (WorkspacePath × DesiredOperation)) (fuel : Nat)
    (closure : List WorkspacePath) : closure ⊆ closeClosure existing fuel closure := by
  induction fuel generalizing closure with
  | zero => exact List.Subset.refl closure
  | succ fuel ih =>
    have hround := subset_expandClosure existing closure
    simp only [closeClosure]
    split
    · exact hround
    · exact List.Subset.trans hround (ih _)

theorem mem_renameIntentClosure {initial : List WorkspacePath} {existing : List (WorkspacePath × DesiredOperation)}
    {path : WorkspacePath} (h : path ∈ initial) : path ∈ (renameIntentClosure initial existing).1 :=
  mem_sortPaths.mpr (subset_closeClosure _ _ _ h)

structure Rebuilds (engine : Engine (RuledDisk rules)) (mutation : WorkspaceMutation)
    (plan : ConflictGenerationReplacementPlan) : Prop where
  alone : engine.db.hasNewerIntent (desiredFromMutation mutation none) = false →
    ∀ path ∈ operationPaths mutation, ∃ intent, (path, intent) ∈ plan.replacementIntents
  removed : engine.db.hasNewerIntent (desiredFromMutation mutation none) = true →
    plan.removeIntentPaths = engine.db.takenApart mutation
  left : engine.db.hasNewerIntent (desiredFromMutation mutation none) = true → mutation.kind ≠ .rename →
    plan.replacementIntents = []
  apart : engine.db.hasNewerIntent (desiredFromMutation mutation none) = true → mutation.kind = .rename →
    ∀ path ∈ operationPaths mutation, (∃ intent, (path, intent) ∈ plan.replacementIntents) ↔
      (Scanned engine path ∧ ¬MatchesRemote engine path) ∨ (¬Scanned engine path ∧ RemoteLive engine path)

theorem hasNewerIntent_congr (db : Db) {a b : DesiredOperation} (h : a.paths = b.paths) :
    db.hasNewerIntent a = db.hasNewerIntent b := by
  simp only [Db.hasNewerIntent, h]

theorem replacementIntents_wp {desired : DesiredOperation} (hpaths : desired.paths = operationPaths mutation) :
    wp (replacementIntents engine.db mutation desired) (fun found _ => ∀ operationId updatedAtMs,
      Rebuilds engine mutation ⟨operationId, found.1, found.2, updatedAtMs⟩) (fun _ _ => True) engine := by
  have hsame : engine.db.hasNewerIntent desired = engine.db.hasNewerIntent (desiredFromMutation mutation none) :=
    hasNewerIntent_congr engine.db hpaths
  have hrows : engine.db.takenApart mutation =
      if mutation.kind = .rename then (renameIntentClosure desired.paths engine.db.deferredRows).2 else [] := by
    rw [Db.takenApart, hpaths]
  unfold replacementIntents
  change wp (if engine.db.hasNewerIntent desired = true then _ else _) _ _ engine
  split
  · rename_i hnewer
    rw [hsame] at hnewer
    split
    · rename_i hrename
      rw [if_pos hrename] at hrows
      have hintents : ∀ path ∈ operationPaths mutation,
          wp (independentIntentsForRenameScope (renameIntentClosure desired.paths engine.db.deferredRows).1)
            (fun intents _ => (∃ intent, (path, intent) ∈ intents) ↔ (Scanned engine path ∧ ¬MatchesRemote engine path) ∨
              (¬Scanned engine path ∧ RemoteLive engine path)) (fun _ _ => True) engine := by
        intro path hpath
        refine independentIntents_wp (List.any_eq_true.mpr ⟨path, ?_, by simp⟩)
        exact mem_renameIntentClosure (by rw [hpaths]; exact hpath)
      rw [wp_bind]
      unfold wp
      cases hrun : independentIntentsForRenameScope (renameIntentClosure desired.paths engine.db.deferredRows).1 engine with
      | error e after => simp only [Db.deferredRows] at hrun; simp only [hrun]
      | ok intents after =>
        have hdiffers := fun path hpath => wp_of_ok (hintents path hpath) hrun
        simp only [Db.deferredRows] at hrun
        simp only [hrun]
        exact fun operationId updatedAtMs => {
          alone := fun halone => absurd halone (by simp [hnewer])
          removed := fun _ => hrows.symm
          left := fun _ hkind => absurd hrename hkind
          apart := fun _ _ => hdiffers }
    · rename_i hrename
      rw [if_neg hrename] at hrows
      exact fun operationId updatedAtMs => {
        alone := fun halone => absurd halone (by simp [hnewer])
        removed := fun _ => hrows.symm
        left := fun _ _ => rfl
        apart := fun _ hkind => absurd hkind hrename }
  · rename_i hnewer
    rw [hsame, Bool.not_eq_true] at hnewer
    exact fun operationId updatedAtMs => {
      alone := fun _ path hpath => ⟨desired.intentForPath, List.mem_map.mpr ⟨path, by rw [hpaths]; exact hpath, rfl⟩⟩
      removed := fun h => absurd h (by simp [hnewer])
      left := fun h => absurd h (by simp [hnewer])
      apart := fun h => absurd h (by simp [hnewer]) }

variable [Env]

theorem plan_wp (old : WorkspaceConflictCreatedMessage) (replacement : Option WorkspaceConflictCreatedMessage)
    (engine : Engine (RuledDisk rules)) :
    wp (conflictGenerationReplacementPlan old replacement) (fun found after => after.db = engine.db ∧
      ∀ plan ∈ found, ∃ mutation, engine.db.blockedMutation plan.blockedOperationId = some mutation ∧
        Rebuilds engine mutation plan) (fun _ _ => True) engine := by
  unfold conflictGenerationReplacementPlan
  rw [wp_bind, wp_get]
  dsimp only
  split
  · exact ⟨rfl, by simp⟩
  split
  · rename_i operationId mutation createdAtMs hrow
    split
    · rename_i horigin
      have hown : mutation.operationId = old.createdByOperationId := by
        simp only [mutationMatchesConflictOrigin, Bool.and_eq_true, decide_eq_true_eq] at horigin
        exact horigin.1.1.1.2
      have hblocked : engine.db.blockedMutation mutation.operationId = some mutation := by
        unfold Db.blockedMutation
        rw [hown, hrow]
      rw [wp_bind]
      have hrebuilt := wp_and (@replacementIntents_wp _ engine _ _ (desiredFromMutation_paths mutation
          (if mutation.kind = .rename then some (if old.current.contentHash.isNone then .directory else .file) else none)))
        (replacementIntents_keeps (π := Engine.db) engine.db mutation _ engine)
      refine wp_mono hrebuilt (fun found between hbetween => ?_) fun _ _ _ => trivial
      refine wp_seq_any (nextTimestamp_keeps (π := Engine.db) between) fun updatedAtMs after hafter => ?_
      refine ⟨hafter.trans hbetween.2, fun plan hplan => ?_⟩
      cases hplan
      exact ⟨mutation, hblocked, hbetween.1 _ _⟩
    · exact ⟨rfl, by simp⟩
  · exact ⟨rfl, by simp⟩

/-- A plan that takes a blocked mutation out of the outbox leaves each of its paths covered, or as the server has it,
exactly if no deferred intent meets the mutation, or it is a rename whose ends a scan or the server shows, or each
path is covered by an intent or a row of its own. -/
theorem replacementPlan_covers_iff {old : WorkspaceConflictCreatedMessage}
    {replacement : Option WorkspaceConflictCreatedMessage} {plan : ConflictGenerationReplacementPlan}
    {after : Engine (RuledDisk rules)}
    (hplan : conflictGenerationReplacementPlan old replacement engine = .ok (some plan) after) :
    ∃ mutation, engine.db.blockedMutation plan.blockedOperationId = some mutation ∧
      ((∀ path ∈ operationPaths mutation,
          (final (applyConflictGenerationReplacement plan) after.db).Covers path ∨ MatchesRemote engine path) ↔
        CoveredApart engine plan.blockedOperationId mutation) := by
  obtain ⟨hdb, hfound⟩ := wp_of_ok (plan_wp old replacement engine) hplan
  obtain ⟨mutation, hblocked, hrebuilds⟩ := hfound plan rfl
  refine ⟨mutation, hblocked, ?_⟩
  simp only [covers_applied_iff, hdb]
  cases hnewer : engine.db.hasNewerIntent (desiredFromMutation mutation none) with
  | false =>
    refine iff_of_true (fun path hpath => .inl (.inl (hrebuilds.alone hnewer path hpath))) fun h => ?_
    rw [hnewer] at h
    cases h
  | true =>
    rw [CoveredApart, hnewer, hrebuilds.removed hnewer]
    simp only [true_imp_iff]
    refine forall₂_congr fun path hpath => ?_
    by_cases hrename : mutation.kind = .rename
    · rw [hrebuilds.apart hnewer hrename path hpath]
      simp only [hrename, true_and]
      tauto
    · simp only [hrebuilds.left hnewer hrename, List.not_mem_nil, exists_false, false_or, hrename, false_and, or_false]
      tauto

end

/-! ## A file in a directory that is recreated -/

section

open scoped Sample

namespace Sample

theorem folder_valid : pathError ['d'] = none := by decide

theorem note_valid : pathError ['d', '/', 'x'] = none := by decide

def folder : WorkspacePath := ⟨['d'], folder_valid⟩

def note : WorkspacePath := ⟨['d', '/', 'x'], note_valid⟩

def noteState : WorkspacePathState := file note 3 [1]

def noteSide (content : List Nat) : WorkspaceConflictSide :=
  ⟨some note, 3, some (contentDigest content), ⟨content.length, 0, false⟩, false⟩

def noteConflict : WorkspaceConflictCreatedMessage :=
  ⟨1, 9, 1, note, .content, noteSide [1], noteSide [1], noteSide [1, 2], 500⟩

def noteEdit : WorkspaceMutation :=
  ⟨1, 1, 500, note, 3, .upsertFile, some (contentDigest [1, 2]), ⟨2, 0, false⟩, none, none⟩

def editedNote (intents : Table WorkspacePath LocalIntentRecord) : Engine (RuledDisk defaultRules) :=
  let disk := (Disk.empty.create folder .directory []).create note .file [1, 2]
  let db : Db := { Db.initial with
    pathStates := (∅ : PathStates).insert note noteState
    outbox := (∅ : Table OperationId OutboxRecord).insert 500 ⟨500, .mutation noteEdit, .blockedConflict, 0⟩
    localIntents := intents }
  { Engine.initial ⟨disk⟩ [] [] with db }

def folderIntent : Table WorkspacePath LocalIntentRecord :=
  (∅ : Table WorkspacePath LocalIntentRecord).insert folder ⟨folder, .desired ⟨folder, .directory, none, zeroMetadata⟩, 0⟩

end Sample

theorem replacementPlan_covers_iff_note :
    ∃ mutation, (Sample.editedNote Sample.folderIntent).db.blockedMutation 500 = some mutation ∧
      ((∀ path ∈ operationPaths mutation,
          (final (applyConflictGenerationReplacement ⟨500, [], [], 0⟩) (Sample.editedNote Sample.folderIntent).db).Covers
            path ∨ MatchesRemote (Sample.editedNote Sample.folderIntent) path) ↔
        CoveredApart (Sample.editedNote Sample.folderIntent) 500 mutation) := by
  have hplan : conflictGenerationReplacementPlan Sample.noteConflict none (Sample.editedNote Sample.folderIntent) =
      .ok (some ⟨500, [], [], 0⟩) { Sample.editedNote Sample.folderIntent with draws := 1 } := rfl
  exact replacementPlan_covers_iff hplan

/-- The edit of the note is gone once the conflict is replaced: the deferred intent is about the directory only. -/
theorem replacementPlan_drops_edit :
    ¬∀ (engine after : Engine (RuledDisk defaultRules)) (old : WorkspaceConflictCreatedMessage)
      (replacement : Option WorkspaceConflictCreatedMessage) (plan : ConflictGenerationReplacementPlan),
      conflictGenerationReplacementPlan old replacement engine = .ok (some plan) after →
        ∀ mutation ∈ engine.db.blockedMutation plan.blockedOperationId, ∀ path ∈ operationPaths mutation,
          (final (applyConflictGenerationReplacement plan) after.db).Covers path ∨ MatchesRemote engine path := by
  intro h
  have hcovered := h (Sample.editedNote Sample.folderIntent) { Sample.editedNote Sample.folderIntent with draws := 1 }
    Sample.noteConflict none ⟨500, [], [], 0⟩ rfl Sample.noteEdit rfl Sample.note (by decide)
  rcases hcovered with hcovers | hmatches
  · obtain ⟨_, hintent⟩ | ⟨-, hstored⟩ | ⟨other, row, _, hother, hrow, -⟩ := (covers_applied_iff _ _ _).mp hcovers
    · cases hintent
    · exact absurd hstored (by decide)
    · have hrows : (Sample.editedNote Sample.folderIntent).db.outbox.lookup other = none := by
        simp only [Sample.editedNote]
        rw [AList.lookup_insert_ne hother]
        rfl
      exact absurd (hrow.symm.trans hrows) (by simp)
  · obtain ⟨state, hstate, hsame⟩ := hmatches
    obtain rfl : Sample.noteState = state := Option.some.inj hstate
    exact absurd hsame (by decide)

end

end Lumio.Sync
