import Lumio.Data.ProviderSync

/-!
# Failed syncs

A sync that fails leaves everything as it was exactly if nothing had been committed before the failure that is not put
back afterwards.
-/

namespace Lumio.Data

open Proxy (Value SerdeJson)

def SameContents (before after : Home) : Prop :=
  after.rollouts = before.rollouts ∧ after.databases = before.databases ∧ after.globalState = before.globalState

/-! ## Rollout files -/

section Rollouts

variable {write : Text → (text : Text) → WriteOutcome text} {changes : List SessionChange} {files : Text → Option Text}

def Collected (changes : List SessionChange) (files : Text → Option Text) : Prop :=
  (changes.map (·.path)).Nodup ∧ ∀ change ∈ changes, files change.path = some change.originalText

/-- The write that fails leaves its file as it was, and no file written before it is changed. -/
def RewritesHeld (write : Text → (text : Text) → WriteOutcome text) : List SessionChange → Prop
  | [] => True
  | change :: changes =>
    match write change.path change.nextText with
    | .ok => changes.any (fun c => (write c.path c.nextText).isFailed) = true →
        change.nextText = change.originalText ∧ RewritesHeld write changes
    | .locked => RewritesHeld write changes
    | .failed left _ => left = change.originalText

/-- Every write that puts a file back succeeds; one that does not is for a file that was not changed. -/
def RestoresHeld (write : Text → (text : Text) → WriteOutcome text) : List SessionChange → Prop
  | [] => True
  | change :: changes =>
    match write change.path change.originalText with
    | .ok => RestoresHeld write changes
    | .locked => ∀ c ∈ change :: changes, c.nextText = c.originalText
    | .failed .. => False

theorem Collected.tail {change : SessionChange} (h : Collected (change :: changes) files) : Collected changes files :=
  ⟨(List.nodup_cons.mp h.1).2, fun c hc => h.2 c (by simp [hc])⟩

theorem Collected.update {change : SessionChange} (h : Collected (change :: changes) files) (text : Option Text) :
    Collected changes (Function.update files change.path text) := by
  obtain ⟨hfresh, hnodup⟩ := List.nodup_cons.mp h.1
  refine ⟨hnodup, fun c hc => ?_⟩
  rw [Function.update_of_ne]
  · exact h.2 c (by simp [hc])
  · intro heq
    exact hfresh (List.mem_map.mpr ⟨c, hc, heq⟩)

theorem applySessionChanges_other {path : Text} (h : path ∉ changes.map (·.path)) :
    (applySessionChanges write changes files).1 path = files path := by
  induction changes generalizing files with
  | nil => rfl
  | cons change changes ih =>
    have hne : path ≠ change.path := fun heq => h (by simp [heq])
    have hrest : path ∉ changes.map (·.path) := fun hmem => h (List.mem_cons_of_mem _ hmem)
    unfold applySessionChanges
    split
    · dsimp only
      rw [ih hrest, Function.update_of_ne hne]
    · exact ih hrest
    · exact Function.update_of_ne hne _ _

variable (files) in
theorem applySessionChanges_failed :
    (applySessionChanges write changes files).2 = none ↔
      changes.any (fun c => (write c.path c.nextText).isFailed) = true := by
  induction changes generalizing files with
  | nil => simp [applySessionChanges]
  | cons change changes ih =>
    unfold applySessionChanges
    rw [List.any_cons]
    cases hwrite : write change.path change.nextText with
    | ok => simp [WriteOutcome.isFailed, ih]
    | locked => simp [WriteOutcome.isFailed, ih]
    | failed left hleft => simp [WriteOutcome.isFailed]

theorem applySessionChanges_eq_self_iff (h : Collected changes files)
    (hfailed : changes.any (fun c => (write c.path c.nextText).isFailed) = true) :
    (applySessionChanges write changes files).1 = files ↔ RewritesHeld write changes := by
  induction changes generalizing files with
  | nil => cases hfailed
  | cons change changes ih =>
    have hhere := h.2 change (by simp)
    have hfresh := (List.nodup_cons.mp h.1).1
    unfold applySessionChanges RewritesHeld
    rw [List.any_cons] at hfailed
    cases hwrite : write change.path change.nextText with
    | ok =>
      simp only [hwrite, WriteOutcome.isFailed, Bool.false_or] at hfailed
      have hrest := ih (h.update (some change.nextText)) hfailed
      have hkept : (applySessionChanges write changes (Function.update files change.path (some change.nextText))).1
          change.path = some change.nextText := by
        rw [applySessionChanges_other hfresh, Function.update_self]
      dsimp only
      constructor
      · intro hsame _
        have htext : change.nextText = change.originalText := by
          rw [hsame, hhere] at hkept
          exact (Option.some.inj hkept).symm
        rw [htext, ← hhere, Function.update_eq_self] at hsame hrest
        exact ⟨htext, hrest.mp hsame⟩
      · intro hheld
        obtain ⟨htext, hheld⟩ := hheld hfailed
        rw [htext, ← hhere, Function.update_eq_self] at hrest ⊢
        exact hrest.mpr hheld
    | locked =>
      simp only [hwrite, WriteOutcome.isFailed, Bool.false_or] at hfailed
      exact ih h.tail hfailed
    | failed left hleft =>
      dsimp only
      constructor
      · intro hsame
        have hleft := congrFun hsame change.path
        rw [Function.update_self, hhere] at hleft
        exact Option.some.inj hleft
      · rintro rfl
        rw [← hhere, Function.update_eq_self]

theorem applySessionChanges_applied {applied : List SessionChange} (h : Collected changes files)
    (happlied : (applySessionChanges write changes files).2 = some applied) :
    applied.Sublist changes ∧
      (∀ change ∈ applied, (applySessionChanges write changes files).1 change.path = some change.nextText) ∧
      ∀ path, path ∉ applied.map (·.path) → (applySessionChanges write changes files).1 path = files path := by
  induction changes generalizing files applied with
  | nil =>
    obtain rfl : [] = applied := Option.some.inj happlied
    exact ⟨List.Sublist.refl _, fun c hc => absurd hc List.not_mem_nil, fun _ _ => rfl⟩
  | cons change changes ih =>
    have hfresh := (List.nodup_cons.mp h.1).1
    unfold applySessionChanges at happlied ⊢
    cases hwrite : write change.path change.nextText with
    | ok =>
      simp only [hwrite] at happlied
      obtain ⟨rest, hrest, rfl⟩ := Option.map_eq_some_iff.mp happlied
      obtain ⟨hsub, hwritten, hother⟩ := ih (h.update (some change.nextText)) hrest
      dsimp only
      refine ⟨hsub.cons_cons change, fun c hc => ?_, fun path hpath => ?_⟩
      · rcases List.mem_cons.mp hc with rfl | hc
        · rw [applySessionChanges_other hfresh, Function.update_self]
        · exact hwritten c hc
      · rw [hother path fun hmem => hpath (List.mem_cons_of_mem _ hmem), Function.update_of_ne]
        exact fun heq => hpath (by simp [heq])
    | locked =>
      simp only [hwrite] at happlied
      obtain ⟨hsub, hwritten, hother⟩ := ih h.tail happlied
      exact ⟨hsub.cons change, hwritten, hother⟩
    | failed left hleft =>
      simp only [hwrite] at happlied
      cases happlied

theorem applySessionChanges_some {applied : List SessionChange}
    (happlied : (applySessionChanges write changes files).2 = some applied) :
    applied = changes.filter fun c => (write c.path c.nextText).isOk := by
  induction changes generalizing files applied with
  | nil => exact (Option.some.inj happlied).symm
  | cons change changes ih =>
    unfold applySessionChanges at happlied
    rw [List.filter_cons]
    cases hwrite : write change.path change.nextText with
    | ok =>
      simp only [hwrite] at happlied
      obtain ⟨rest, hrest, rfl⟩ := Option.map_eq_some_iff.mp happlied
      simp [WriteOutcome.isOk, ih hrest]
    | locked =>
      simp only [hwrite] at happlied
      simp [WriteOutcome.isOk, ih happlied]
    | failed left hleft =>
      simp only [hwrite] at happlied
      cases happlied

theorem Collected.sublist {part : List SessionChange} (h : Collected changes files) (hsub : part.Sublist changes) :
    Collected part files :=
  ⟨h.1.sublist (hsub.map _), fun c hc => h.2 c (hsub.subset hc)⟩

theorem restoreSessionChanges_eq_iff {now : Text → Option Text} (h : Collected changes files)
    (hnow : ∀ change ∈ changes, now change.path = some change.nextText)
    (hother : ∀ path, path ∉ changes.map (·.path) → now path = files path) :
    restoreSessionChanges write changes now = files ↔ RestoresHeld write changes := by
  induction changes generalizing now with
  | nil =>
    exact ⟨fun _ => trivial, fun _ => funext fun path => hother path (by simp)⟩
  | cons change changes ih =>
    have hhere := h.2 change (by simp)
    have hfresh := (List.nodup_cons.mp h.1).1
    unfold restoreSessionChanges RestoresHeld
    cases hwrite : write change.path change.originalText with
    | ok =>
      dsimp only
      refine ih h.tail (fun c hc => ?_) fun path hpath => ?_
      · rw [Function.update_of_ne]
        · exact hnow c (by simp [hc])
        · exact fun heq => hfresh (List.mem_map.mpr ⟨c, hc, heq⟩)
      · by_cases heq : path = change.path
        · rw [heq, Function.update_self, hhere]
        · rw [Function.update_of_ne heq]
          exact hother path (by simp [heq, hpath] )
    | locked =>
      dsimp only
      constructor
      · intro hsame c hc
        have htext := hnow c hc
        rw [hsame, h.2 c hc] at htext
        exact (Option.some.inj htext).symm
      · intro hsame
        funext path
        by_cases hpath : path ∈ (change :: changes).map (·.path)
        · obtain ⟨c, hc, rfl⟩ := List.mem_map.mp hpath
          rw [hnow c hc, h.2 c hc, hsame c hc]
        · exact hother path hpath
    | failed left hleft =>
      dsimp only
      refine ⟨fun hsame => hleft ?_, fun hfalse => hfalse.elim⟩
      have htext := congrFun hsame change.path
      rw [Function.update_self, hhere] at htext
      exact Option.some.inj htext

end Rollouts

section Collect

variable [SerdeJson] {read : Text → Option IoFault} {files : Text → Option Text} {targetProvider : Text}

theorem sessionChange_path {path text : Text} {change : SessionChange}
    (h : sessionChange targetProvider path text = some change) : change.path = path ∧ change.originalText = text := by
  unfold sessionChange at h
  simp only at h
  split at h
  · cases h
  · cases h
    exact ⟨rfl, rfl⟩

theorem collectSessionChanges_collected {paths : List Text} {changes : List SessionChange} (hnodup : paths.Nodup)
    (h : collectSessionChanges read files targetProvider paths = some changes) :
    Collected changes files ∧ ∀ change ∈ changes, change.path ∈ paths := by
  induction paths generalizing changes with
  | nil =>
    cases h
    exact ⟨⟨List.nodup_nil, fun c hc => absurd hc List.not_mem_nil⟩, fun c hc => absurd hc List.not_mem_nil⟩
  | cons path paths ih =>
    obtain ⟨hfresh, hrest⟩ := List.nodup_cons.mp hnodup
    unfold collectSessionChanges at h
    split at h
    · obtain ⟨hcollected, hpaths⟩ := ih hrest h
      exact ⟨hcollected, fun c hc => List.mem_cons_of_mem _ (hpaths c hc)⟩
    · cases h
    · split at h
      · cases h
      · rename_i text htext
        split at h
        · cases h
        · rename_i rest hchanges
          cases h
          obtain ⟨hcollected, hpaths⟩ := ih hrest hchanges
          cases hchange : sessionChange targetProvider path text with
          | none => exact ⟨hcollected, fun c hc => List.mem_cons_of_mem _ (hpaths c hc)⟩
          | some change =>
            obtain ⟨rfl, rfl⟩ := sessionChange_path hchange
            refine ⟨⟨List.nodup_cons.mpr ⟨fun hmem => ?_, hcollected.1⟩, fun c hc => ?_⟩, fun c hc => ?_⟩
            · obtain ⟨c, hc, heq⟩ := List.mem_map.mp hmem
              have heq : c.path = change.path := heq
              rw [← heq] at hfresh
              exact hfresh (hpaths c hc)
            · rcases List.mem_cons.mp hc with rfl | hc
              · exact htext
              · exact hcollected.2 c hc
            · rcases List.mem_cons.mp hc with rfl | hc
              · exact List.mem_cons_self
              · exact List.mem_cons_of_mem _ (hpaths c hc)

end Collect

/-! ## Databases -/

section Databases

variable (setting : Setting) (faults : Faults)

def UpdatesHeld (facts : ThreadFacts) (databases : Text → Option Database) : Prop :=
  ∀ path ∈ committed (updateStep faults facts) setting.databasePaths databases, ∀ db, databases path = some db →
    namesProvider db = true → countSqliteUpdates facts db = 0

def UpdatesDone (facts : ThreadFacts) (databases : Text → Option Database) : Prop :=
  ∀ path ∈ setting.databasePaths, (updateStep faults facts path (databases path)).isSome = true

def RepairsHeld (databases : Text → Option Database) : Prop :=
  faults.collect = false → ∀ threads, repairThreads setting databases = some threads →
    ∀ path ∈ committed (repairStep setting faults threads) setting.databasePaths databases, ∀ db,
      databases path = some db → catalogComplete threads db

def RepairsDone (databases : Text → Option Database) : Prop :=
  faults.collect = false ∧ ∃ threads, repairThreads setting databases = some threads ∧
    (threads = [] ∨ ∀ path ∈ setting.databasePaths, (repairStep setting faults threads path (databases path)).isSome = true)

variable {setting faults} {facts : ThreadFacts} {databases : Text → Option Database}

theorem applySqliteUpdateForPaths_done :
    (applySqliteUpdateForPaths setting faults facts databases).2 = true ↔ UpdatesDone setting faults facts databases :=
  commitEach_done setting.paths_nodup

theorem applySqliteUpdateForPaths_eq_self_iff :
    (applySqliteUpdateForPaths setting faults facts databases).1 = databases ↔
      UpdatesHeld setting faults facts databases := by
  unfold applySqliteUpdateForPaths UpdatesHeld
  rw [commitEach_eq_self_iff setting.paths_nodup]
  refine forall₂_congr fun path hpath => ?_
  have hsome := isSome_of_mem_committed hpath
  cases hdb : databases path with
  | none => simp [updateStep]
  | some db =>
    simp only [hdb, updateStep] at hsome ⊢
    split at hsome
    · cases hsome
    · rename_i hok
      rw [if_neg hok]
      simp [applySqliteUpdate_eq_self_iff]

theorem repairThreads_provider {threads : List CatalogRepairThread} (h : repairThreads setting databases = some threads) :
    ∀ thread ∈ threads, thread.modelProvider = setting.targetProvider := by
  obtain ⟨table, htable, rfl⟩ := Option.map_eq_some_iff.mp h
  exact collectCatalogRepairThreads_provider htable

theorem repairMissingLocalThreadCatalogRows_done :
    (repairMissingLocalThreadCatalogRows setting faults databases).2 = true ↔ RepairsDone setting faults databases := by
  unfold repairMissingLocalThreadCatalogRows RepairsDone
  cases hcollect : faults.collect with
  | true => simp
  | false =>
    cases hthreads : repairThreads setting databases with
    | none => simp
    | some threads =>
      cases threads with
      | nil => simp
      | cons thread threads => simp [commitEach_done setting.paths_nodup]

theorem repairMissingLocalThreadCatalogRows_eq_self_iff :
    (repairMissingLocalThreadCatalogRows setting faults databases).1 = databases ↔
      RepairsHeld setting faults databases := by
  unfold repairMissingLocalThreadCatalogRows RepairsHeld
  cases hcollect : faults.collect with
  | true => simp
  | false =>
    cases hthreads : repairThreads setting databases with
    | none => simp
    | some threads =>
      cases threads with
      | nil => simp [catalogComplete]
      | cons thread threads =>
        simp only [Bool.false_eq_true, if_false, commitEach_eq_self_iff setting.paths_nodup, forall_const,
          Option.some.injEq, forall_eq']
        refine forall₂_congr fun path hpath => ?_
        have hsome := isSome_of_mem_committed hpath
        cases hdb : databases path with
        | none => simp [repairStep]
        | some db =>
          simp only [hdb, repairStep] at hsome ⊢
          split at hsome
          · cases hsome
          · rename_i hok
            rw [if_neg hok]
            rw [Option.isSome_map] at hsome
            obtain ⟨db', hrepair⟩ := Option.isSome_iff_exists.mp hsome
            have hsame := (repairDatabase_spec (repairThreads_provider hthreads) hrepair).2.2
            simp [hrepair, hsame]

variable (setting faults databases) in
theorem repairMissingLocalThreadCatalogRows_apply (path : Text) :
    (repairMissingLocalThreadCatalogRows setting faults databases).1 path = databases path ∨
      ∃ threads db db', repairThreads setting databases = some threads ∧ databases path = some db ∧
        repairDatabase threads setting.now db = some db' ∧
        (repairMissingLocalThreadCatalogRows setting faults databases).1 path = some db' := by
  unfold repairMissingLocalThreadCatalogRows
  split
  · exact .inl rfl
  · cases hthreads : repairThreads setting databases with
    | none => exact .inl rfl
    | some threads =>
      cases threads with
      | nil => exact .inl rfl
      | cons thread threads =>
        dsimp only
        rcases commitEach_apply (repairStep setting faults (thread :: threads)) databases setting.paths_nodup path with hkept | hstep
        · exact .inl hkept
        · cases hdb : databases path with
          | none =>
            rw [hdb] at hstep
            exact .inl (Option.some.inj hstep).symm
          | some db =>
            simp only [hdb, repairStep] at hstep
            split at hstep
            · cases hstep
            · obtain ⟨db', hrepair, hafter⟩ := Option.map_eq_some_iff.mp hstep
              exact .inr ⟨_, db, db', rfl, rfl, hrepair, hafter.symm⟩

theorem updates_idle_of_repaired (hprovider : facts.targetProvider = setting.targetProvider)
    (hdone : UpdatesDone setting faults facts databases)
    (hsame : (repairMissingLocalThreadCatalogRows setting faults
      (applySqliteUpdateForPaths setting faults facts databases).1).1 = databases) :
    (applySqliteUpdateForPaths setting faults facts databases).1 = databases := by
  rw [applySqliteUpdateForPaths_eq_self_iff]
  intro path hpath db hdb hnames
  have hmem := mem_of_mem_committed hpath
  have hupdated : (applySqliteUpdateForPaths setting faults facts databases).1 path =
      some (applySqliteUpdate facts db) := by
    have hstep := commitEach_apply_of_done setting.paths_nodup (applySqliteUpdateForPaths_done.mpr hdone) hmem
    simp only [hdb, updateStep] at hstep
    split at hstep
    · cases hstep
    · exact (Option.some.inj hstep).symm
  rw [countSqliteUpdates_eq_zero_iff]
  intro u hu
  have hzero := count_applySqliteUpdate hnames hu
  rcases repairMissingLocalThreadCatalogRows_apply setting faults
    (applySqliteUpdateForPaths setting faults facts databases).1 path with hkept | hrepaired
  · rw [hsame, hdb, hupdated] at hkept
    rwa [← Option.some.inj hkept] at hzero
  · obtain ⟨threads, before, after, hthreads, hbefore, hrepair, hafter⟩ := hrepaired
    rw [hupdated] at hbefore
    rw [hsame, hdb] at hafter
    cases hbefore
    cases hafter
    refine count_repairDatabase (fun thread hthread => ?_) hrepair hu hzero
    rw [hprovider]
    exact repairThreads_provider hthreads thread hthread

end Databases

/-! ## The whole sync -/

section Sync

variable [SerdeJson] (setting : Setting) (faults : Faults)

def StateHeld (globalState : Option Text) : Prop :=
  faults.loadState = false → ∀ state text, loadGlobalState globalState = some state →
    updatedGlobalState setting.print state = some text →
      match faults.state text with
      | .ok => globalState = some text
      | .locked => True
      | .failed left _ => globalState = some left

def StoresHeld (facts : ThreadFacts) (home : Home) : Prop :=
  UpdatesHeld setting faults facts home.databases ∧
    (UpdatesDone setting faults facts home.databases → RepairsHeld setting faults home.databases ∧
      (RepairsDone setting faults home.databases → StateHeld setting faults home.globalState))

/-- A failure among the rollout files has no rollback; after it every rollout file is put back, and nothing else. -/
def PlanHeld (plan : SyncPlan) (home : Home) : Prop :=
  if plan.rewriteChanges.any fun change => (faults.rollout change.path change.nextText).isFailed then
    RewritesHeld faults.rollout plan.rewriteChanges
  else
    RestoresHeld faults.restore
      (plan.rewriteChanges.filter fun change => (faults.rollout change.path change.nextText).isOk) ∧
    StoresHeld setting faults plan.facts home

def Held (home : Home) : Prop :=
  faults.start = false → faults.count = false → faults.backup = false →
    ∀ plan, preparePlan setting faults home = some plan → PlanHeld setting faults plan home

variable {setting faults} {facts : ThreadFacts} {home : Home} {plan : SyncPlan}

theorem applyGlobalStateUpdate_frame :
    (applyGlobalStateUpdate setting faults home).1.rollouts = home.rollouts ∧
      (applyGlobalStateUpdate setting faults home).1.databases = home.databases := by
  unfold applyGlobalStateUpdate
  split
  · exact ⟨rfl, rfl⟩
  · split
    · exact ⟨rfl, rfl⟩
    · split
      · exact ⟨rfl, rfl⟩
      · exact ⟨rfl, rfl⟩
      · split <;> exact ⟨rfl, rfl⟩

variable (setting faults home) in
theorem applyGlobalStateUpdate_eq_iff :
    (applyGlobalStateUpdate setting faults home).1.globalState = home.globalState ↔
      StateHeld setting faults home.globalState := by
  unfold applyGlobalStateUpdate StateHeld
  cases hload : faults.loadState with
  | true => simp
  | false =>
    cases hstate : loadGlobalState home.globalState with
    | none => simp
    | some state =>
      simp only [Bool.false_eq_true, if_false, forall_const]
      cases htext : updatedGlobalState setting.print state with
      | none =>
        refine ⟨fun _ found text hfound hupdated => ?_, fun _ => rfl⟩
        cases hfound
        rw [htext] at hupdated
        cases hupdated
      | some text =>
        dsimp only
        constructor
        · intro hsame found other hfound hupdated
          cases hfound
          rw [htext] at hupdated
          cases hupdated
          cases hwrite : faults.state text with
          | ok =>
            rw [hwrite] at hsame
            cases hbak : faults.stateBak text <;> simp only [hbak] at hsame <;> exact hsame.symm
          | locked => trivial
          | failed left hleft =>
            rw [hwrite] at hsame
            exact hsame.symm
        · intro hheld
          have hheld := hheld state text rfl htext
          cases hwrite : faults.state text with
          | ok =>
            rw [hwrite] at hheld
            cases hbak : faults.stateBak text <;> exact hheld.symm
          | locked => rfl
          | failed left hleft =>
            rw [hwrite] at hheld
            exact hheld.symm

variable (setting faults facts home) in
theorem applyStores_rollouts : (applyStores setting faults facts home).1.rollouts = home.rollouts := by
  unfold applyStores
  dsimp only
  split
  · rfl
  · split
    · rfl
    · exact applyGlobalStateUpdate_frame.1

variable (setting faults home) in
theorem applyStores_eq_iff (hprovider : facts.targetProvider = setting.targetProvider) :
    ((applyStores setting faults facts home).1.databases = home.databases ∧
      (applyStores setting faults facts home).1.globalState = home.globalState) ↔
      StoresHeld setting faults facts home := by
  unfold applyStores StoresHeld
  dsimp only
  rw [← applySqliteUpdateForPaths_eq_self_iff]
  split
  · rename_i hfailed
    have hfailed : ¬ UpdatesDone setting faults facts home.databases := by
      rw [← applySqliteUpdateForPaths_done]
      simpa using hfailed
    simp [hfailed]
  · rename_i hdone
    have hdone : UpdatesDone setting faults facts home.databases := by
      rw [← applySqliteUpdateForPaths_done]
      simpa using hdone
    have hidle := updates_idle_of_repaired hprovider hdone
    simp only [hdone, forall_const]
    split
    · rename_i hfailed
      constructor
      · rintro ⟨hsame, -⟩
        have hfirst := hidle hsame
        rw [hfirst] at hsame hfailed
        refine ⟨hfirst, repairMissingLocalThreadCatalogRows_eq_self_iff.mp hsame, fun hrepaired => ?_⟩
        rw [repairMissingLocalThreadCatalogRows_done.mpr hrepaired] at hfailed
        cases hfailed
      · rintro ⟨hfirst, hrepairs, -⟩
        refine ⟨?_, rfl⟩
        dsimp only
        rw [hfirst]
        exact repairMissingLocalThreadCatalogRows_eq_self_iff.mpr hrepairs
    · rename_i hrepaired
      rw [applyGlobalStateUpdate_frame.2]
      dsimp only
      constructor
      · rintro ⟨hsame, hstate⟩
        have hfirst := hidle hsame
        rw [hfirst] at hsame
        have hheld := (applyGlobalStateUpdate_eq_iff setting faults _).mp hstate
        exact ⟨hfirst, repairMissingLocalThreadCatalogRows_eq_self_iff.mp hsame, fun _ => hheld⟩
      · rintro ⟨hfirst, hrepairs, hstate⟩
        rw [hfirst] at hrepaired
        have hrepaired : RepairsDone setting faults home.databases := by
          rw [← repairMissingLocalThreadCatalogRows_done]
          simpa using hrepaired
        refine ⟨?_, (applyGlobalStateUpdate_eq_iff setting faults _).mpr (hstate hrepaired)⟩
        rw [hfirst]
        exact repairMissingLocalThreadCatalogRows_eq_self_iff.mpr hrepairs

theorem preparePlan_spec (h : preparePlan setting faults home = some plan) :
    Collected plan.rewriteChanges home.rollouts ∧ plan.facts.targetProvider = setting.targetProvider := by
  unfold preparePlan at h
  obtain ⟨changes, hchanges, h⟩ := Option.bind_eq_some_iff.mp h
  obtain ⟨projectless, -, h⟩ := Option.bind_eq_some_iff.mp h
  obtain ⟨missing, -, h⟩ := Option.bind_eq_some_iff.mp h
  obtain ⟨state, -, h⟩ := Option.bind_eq_some_iff.mp h
  cases h
  exact ⟨(collectSessionChanges_collected setting.files_nodup hchanges).1.sublist List.filter_sublist, rfl⟩

theorem applyPlan_eq_iff (h : preparePlan setting faults home = some plan)
    (hstatus : (applyPlan setting faults plan home).2 ≠ .synced) :
    SameContents home (applyPlan setting faults plan home).1 ↔ PlanHeld setting faults plan home := by
  obtain ⟨hcollected, hprovider⟩ := preparePlan_spec h
  unfold applyPlan at hstatus ⊢
  unfold PlanHeld SameContents
  cases hfiles : applySessionChanges faults.rollout plan.rewriteChanges home.rollouts with
  | mk rollouts applied =>
    cases applied with
    | none =>
      have hfailed := (applySessionChanges_failed home.rollouts).mp (congrArg Prod.snd hfiles)
      rw [if_pos hfailed, ← applySessionChanges_eq_self_iff hcollected hfailed, hfiles]
      simp
    | some applied =>
      have hok : ¬ (plan.rewriteChanges.any fun change => (faults.rollout change.path change.nextText).isFailed) = true := by
        rw [← applySessionChanges_failed home.rollouts, hfiles]
        simp
      have happlied := congrArg Prod.snd hfiles
      have hwhich := applySessionChanges_some happlied
      obtain ⟨hsub, hwritten, hother⟩ := applySessionChanges_applied hcollected happlied
      rw [hfiles] at hwritten hother
      have hstores := applyStores_eq_iff setting faults { home with rollouts } hprovider
      have hkept := applyStores_rollouts setting faults plan.facts { home with rollouts }
      rw [if_neg hok, ← hwhich, ← restoreSessionChanges_eq_iff (hcollected.sublist hsub) hwritten hother]
      simp only [hfiles] at hstatus ⊢
      cases hrun : applyStores setting faults plan.facts { home with rollouts } with
      | mk after done =>
        rw [hrun] at hstatus hstores hkept
        cases done with
        | true => exact absurd rfl hstatus
        | false =>
          dsimp only at hkept ⊢
          rw [hkept]
          exact and_congr_right fun _ => hstores

/-- A sync that does not end as synced leaves everything as it was exactly if nothing was written before the failure
that the sync does not put back. -/
theorem failed_sync_restores (hstatus : (runProviderSyncWithTarget setting faults home).2 ≠ .synced) :
    SameContents home (runProviderSyncWithTarget setting faults home).1 ↔ Held setting faults home := by
  unfold runProviderSyncWithTarget at hstatus ⊢
  unfold Held
  cases hstart : faults.start with
  | true => simp [SameContents]
  | false =>
    cases hplan : preparePlan setting faults home with
    | none => simp [SameContents]
    | some plan =>
      cases hcount : faults.count with
      | true => simp [SameContents]
      | false =>
        simp only [hstart, hplan, hcount, Bool.false_eq_true, if_false] at hstatus ⊢
        split at hstatus
        · exact absurd rfl hstatus
        · rename_i hstale
          rw [if_neg hstale]
          cases hbackup : faults.backup with
          | true => simp [SameContents]
          | false =>
            simp only [hbackup, Bool.false_eq_true, if_false] at hstatus
            simp [applyPlan_eq_iff hplan hstatus]

end Sync

/-! ## Two rollout files -/

def sampleRecord (provider : String) : Value :=
  .object [("type", .ofStr "session_meta"), ("payload", .object [("model_provider", .ofStr provider)])]

def sampleLine (provider : String) : Text :=
  ("\x7b\"type\":\"session_meta\",\"payload\":\x7b\"model_provider\":\"" ++ provider ++ "\"\x7d\x7d").toList

@[reducible] def sampleJson : SerdeJson where
  fromStr text := if text = sampleLine "old" then some (sampleRecord "old") else none
  toText _ := sampleLine "new"

def sampleSetting : Setting where
  targetProvider := "new".toList
  rolloutFiles := ["first".toList, "second".toList]
  databasePaths := []
  print := sampleJson.toText
  now := 0
  files_nodup := by decide
  paths_nodup := List.nodup_nil

def sampleHome : Home where
  rollouts path := if path ∈ sampleSetting.rolloutFiles then some (sampleLine "old") else none
  databases _ := none
  globalState := none
  globalStateBak := none

def lateFault : Faults where
  start := false
  read _ := none
  count := false
  backup := false
  rollout _ _ := .ok
  restore _ _ := .ok
  update _ := false
  collect := false
  repair _ := false
  loadState := false
  state _ := .ok
  stateBak _ := .ok
  prune := true

def secondWriteFault : Faults :=
  { lateFault with
    rollout := fun path text =>
      if path = "second".toList then
        if h : sampleLine "old" = text then .locked else .failed (sampleLine "old") h
      else .ok }

theorem restoresHeld_of_ok {write : Text → (text : Text) → WriteOutcome text} {changes : List SessionChange}
    (h : ∀ change ∈ changes, write change.path change.originalText = .ok) : RestoresHeld write changes := by
  induction changes with
  | nil => trivial
  | cons change changes ih =>
    unfold RestoresHeld
    rw [h change (by simp)]
    exact ih fun c hc => h c (by simp [hc])

theorem late_fault_restores :
    (@runProviderSyncWithTarget sampleSetting lateFault sampleJson sampleHome).2 = .skipped ∧
      SameContents sampleHome (@runProviderSyncWithTarget sampleSetting lateFault sampleJson sampleHome).1 := by
  have hstatus : (@runProviderSyncWithTarget sampleSetting lateFault sampleJson sampleHome).2 = .skipped := by
    decide +kernel
  refine ⟨hstatus, (@failed_sync_restores sampleJson sampleSetting lateFault sampleHome ?_).mpr ?_⟩
  · rw [hstatus]
    decide
  · intro _ _ _ plan _
    have hok : ¬ (plan.rewriteChanges.any fun change => (lateFault.rollout change.path change.nextText).isFailed) = true := by
      simp [lateFault, WriteOutcome.isFailed]
    unfold PlanHeld
    rw [if_neg hok]
    refine ⟨restoresHeld_of_ok fun _ _ => rfl, ?_, fun _ => ⟨?_, fun _ _ state text hstate htext => ?_⟩⟩
    · intro path hpath
      cases mem_of_mem_committed hpath
    · intro _ threads _ path hpath
      cases mem_of_mem_committed hpath
    · cases hstate
      cases htext

/-- The first rollout file has been rewritten when the write of the second one fails, and it stays so. -/
theorem first_rollout_stays_rewritten :
    (@runProviderSyncWithTarget sampleSetting secondWriteFault sampleJson sampleHome).2 ≠ .synced ∧
      ¬ SameContents sampleHome (@runProviderSyncWithTarget sampleSetting secondWriteFault sampleJson sampleHome).1 := by
  refine ⟨by decide +kernel, fun hsame => ?_⟩
  have hfirst := congrFun hsame.1 "first".toList
  exact absurd hfirst (by decide +kernel)

end Lumio.Data
