import Lumio.Sync.Local.Pairs

/-!
# Changes found by a scan

Applied to the live part of the stored states, the changes of a scan give the entries the scan has found.
-/

namespace Lumio.Sync

open Lumio.Protocol Lumio.Fs

section

variable {remote : PathStates} {current : List LocalDesiredEntry} {path : WorkspacePath}

namespace Scan

/-! ## The changes of one path each -/

theorem uncovered_iff {pairs : List RenamePair} {select : RenamePair → WorkspacePath} :
    (!pairs.any (fun pair => decide (select pair = path)) && !pairedDirectory pairs select path) = true ↔
      ∀ pair ∈ pairs, ¬Covers pair (select pair) path := by
  simp only [pairedDirectory, Bool.and_eq_true, Bool.not_eq_true', List.any_eq_false, decide_eq_true_eq, not_and,
    Covers, not_or]
  constructor
  · exact fun h pair hpair => ⟨fun hpath => h.1 pair hpair hpath.symm, fun hdirectory => h.2 pair hpair hdirectory⟩
  · exact fun h => ⟨fun pair hpair hpath => (h pair hpair).1 hpath.symm, fun pair hpair => (h pair hpair).2⟩

theorem mem_created {entry : LocalDesiredEntry} : entry ∈ created remote current ↔
    entry ∈ current ∧ liveTree remote entry.path = none ∧
      ∀ pair ∈ pairs remote current, ¬Covers pair pair.target entry.path := by
  rw [created, List.mem_filter, mem_additions, uncovered_iff, and_assoc]

theorem mem_deleted {state : WorkspacePathState} : (path, state) ∈ deleted remote current ↔
    remote.lookup path = some state ∧ state.kind ≠ .tombstone ∧ currentTree current path = none ∧
      ∀ pair ∈ pairs remote current, ¬Covers pair pair.source path := by
  rw [deleted, List.mem_filter, mem_deletions]
  dsimp only
  rw [uncovered_iff, and_assoc, and_assoc]

def IsSingle (change : FsChange) (path : WorkspacePath) : Prop :=
  change = .create path ∨ change = .update path ∨ change = .delete path

variable {change : FsChange} {tree : LiveTree}

theorem concerns_single {own : WorkspacePath} (h : IsSingle change own) :
    tree.concerns change path = true ↔ path = own := by
  rcases h with rfl | rfl | rfl <;> exact decide_eq_true_iff

theorem mem_single : change ∈ single remote current ↔
    (∃ entry ∈ created remote current, change = .create entry.path) ∨
      (∃ entry ∈ updates remote current, change = .update entry.path) ∨
        ∃ gone ∈ deleted remote current, change = .delete gone.1 := by
  simp only [single, List.mem_append, List.mem_map, or_assoc, eq_comm]

theorem isSingle_of_mem (h : change ∈ single remote current) : ∃ own, IsSingle change own := by
  rcases mem_single.mp h with ⟨entry, -, rfl⟩ | ⟨entry, -, rfl⟩ | ⟨gone, -, rfl⟩
  · exact ⟨_, .inl rfl⟩
  · exact ⟨_, .inr (.inl rfl)⟩
  · exact ⟨_, .inr (.inr rfl)⟩

abbrev part (tree : LiveTree) (change : FsChange) : Set WorkspacePath := {path | tree.concerns change path = true}

theorem single_local {seen start : LiveTree} {own : WorkspacePath} (h : IsSingle change own) :
    Footprint.Local seen.apply (part tree) start change where
  outside := by
    intro now _ path hpath
    have hne : path ≠ own := fun heq => hpath ((concerns_single h).mpr heq)
    rcases h with rfl | rfl | rfl <;> simp [LiveTree.apply, Function.update_of_ne hne]
  inside := by
    intro now _ path hpath
    have heq : path = own := (concerns_single h).mp hpath
    rcases h with rfl | rfl | rfl <;> simp [LiveTree.apply, heq]

section

variable (htree : IsTree current)

include htree

theorem nodup_map_path {entries : List LocalDesiredEntry} (h : entries.Sublist current) :
    (entries.map (·.path)).Nodup := htree.distinct.sublist (h.map _)

theorem single_disjoint (tree : LiveTree) :
    (single remote current).Pairwise fun a b => Disjoint (part tree a) (part tree b) := by
  have hdistinct : ∀ {a b : FsChange} {pathA pathB : WorkspacePath}, IsSingle a pathA → IsSingle b pathB →
      pathA ≠ pathB → Disjoint (part tree a) (part tree b) := by
    intro a b pathA pathB ha hb hne
    rw [Set.disjoint_left]
    intro path hpathA hpathB
    exact hne (((concerns_single ha).mp hpathA).symm.trans ((concerns_single hb).mp hpathB))
  have hcreated : ((created remote current).map (·.path)).Nodup :=
    nodup_map_path htree (List.filter_sublist.trans List.filter_sublist)
  have hupdates : ((updates remote current).map (·.path)).Nodup := nodup_map_path htree List.filter_sublist
  have hdeleted : (deleted remote current).Pairwise fun a b => a.1 ≠ b.1 :=
    ((deletions_pairwise remote current).filter _).imp fun h => h.1
  refine List.pairwise_append.mpr ⟨List.pairwise_append.mpr ⟨?_, ?_, ?_⟩, ?_, ?_⟩
  · exact List.pairwise_map.mpr ((List.pairwise_map.mp hcreated).imp fun h => hdistinct (.inl rfl) (.inl rfl) h)
  · exact List.pairwise_map.mpr ((List.pairwise_map.mp hupdates).imp fun h =>
      hdistinct (.inr (.inl rfl)) (.inr (.inl rfl)) h)
  · intro a ha b hb
    obtain ⟨entry, hentry, rfl⟩ := List.mem_map.mp ha
    obtain ⟨other, hother, rfl⟩ := List.mem_map.mp hb
    refine hdistinct (.inl rfl) (.inr (.inl rfl)) fun heq => ?_
    obtain ⟨-, state, hlookup, hkind, -⟩ := mem_updates.mp hother
    have hnone := (mem_created.mp hentry).2.1
    rw [heq, liveTree_eq_none] at hnone
    exact hkind (hnone state hlookup)
  · exact List.pairwise_map.mpr (hdeleted.imp fun h => hdistinct (.inr (.inr rfl)) (.inr (.inr rfl)) h)
  · intro a ha b hb
    obtain ⟨⟨gone, state⟩, hgone, rfl⟩ := List.mem_map.mp hb
    have hnone := currentTree_eq_none.mp (mem_deleted.mp hgone).2.2.1
    rcases List.mem_append.mp ha with ha | ha
    · obtain ⟨entry, hentry, rfl⟩ := List.mem_map.mp ha
      exact hdistinct (.inl rfl) (.inr (.inr rfl)) (hnone entry (mem_created.mp hentry).1)
    · obtain ⟨entry, hentry, rfl⟩ := List.mem_map.mp ha
      exact hdistinct (.inr (.inl rfl)) (.inr (.inr rfl)) (hnone entry (mem_updates.mp hentry).1)

/-! ## The tree after the changes of one path each -/

def afterSingle (remote : PathStates) (current : List LocalDesiredEntry) : LiveTree :=
  (single remote current).foldl (currentTree current).apply (liveTree remote)

theorem afterSingle_of_concerned {change : FsChange} (h : change ∈ single remote current)
    (hconcerns : (liveTree remote).concerns change path = true) :
    afterSingle remote current path = (currentTree current).apply (liveTree remote) change path := by
  refine Footprint.foldl_inside (part (liveTree remote)) hconcerns h (fun op hop => ?_) (single_disjoint htree _) fun _ _ _ _ => rfl
  obtain ⟨own, hown⟩ := isSingle_of_mem hop
  exact single_local hown

theorem afterSingle_of_untouched
    (h : ∀ change ∈ single remote current, (liveTree remote).concerns change path = false) :
    afterSingle remote current path = liveTree remote path := by
  refine Footprint.foldl_outside (part (liveTree remote)) (fun op hop => ?_) (single_disjoint htree _)
    (fun _ _ _ _ => rfl) fun op hop => ?_
  · obtain ⟨own, hown⟩ := isSingle_of_mem hop
    exact single_local hown
  · simp [h op hop]

theorem afterSingle_of_found {entry : LocalDesiredEntry} (hentry : entry ∈ current)
    (h : (liveTree remote entry.path).isSome ∨ ∀ pair ∈ pairs remote current, ¬Covers pair pair.target entry.path) :
    afterSingle remote current entry.path = currentTree current entry.path := by
  cases hlive : liveTree remote entry.path with
  | none =>
    have huncovered := h.resolve_left (by simp [hlive])
    have hcreated : entry ∈ created remote current := mem_created.mpr ⟨hentry, hlive, huncovered⟩
    rw [afterSingle_of_concerned htree (mem_single.mpr (.inl ⟨entry, hcreated, rfl⟩))
      ((concerns_single (.inl rfl)).mpr rfl)]
    simp [LiveTree.apply]
  | some treeEntry =>
    obtain ⟨state, hlookup, hkind, rfl⟩ := liveTree_eq_some.mp hlive
    cases hmatches : remoteMatchesEntry state entry with
    | false =>
      have hupdate : entry ∈ updates remote current := mem_updates.mpr ⟨hentry, state, hlookup, hkind, hmatches⟩
      rw [afterSingle_of_concerned htree (mem_single.mpr (.inr (.inl ⟨entry, hupdate, rfl⟩)))
        ((concerns_single (.inr (.inl rfl))).mpr rfl)]
      simp [LiveTree.apply]
    | true =>
      rw [afterSingle_of_untouched htree, hlive, htree.currentTree_of_mem hentry]
      · simp only [remoteMatchesEntry, Bool.and_eq_true, decide_eq_true_eq] at hmatches
        obtain ⟨⟨⟨⟨-, hkind⟩, hhash⟩, hmetadata⟩, -⟩ := hmatches
        rw [hkind, hhash, hmetadata]
      · intro change hchange
        rw [Bool.eq_false_iff]
        intro hconcerns
        rcases mem_single.mp hchange with ⟨other, hother, rfl⟩ | ⟨other, hother, rfl⟩ | ⟨⟨gone, _⟩, hgone, rfl⟩
        · have hpath := (concerns_single (.inl rfl)).mp hconcerns
          have hnone := (mem_created.mp hother).2.1
          rw [← hpath, hlive] at hnone
          cases hnone
        · have hpath := (concerns_single (.inr (.inl rfl))).mp hconcerns
          obtain ⟨hmem, other', hlookup', -, hdiffers⟩ := mem_updates.mp hother
          rw [htree.eq_of_path hmem hentry hpath.symm] at hlookup' hdiffers
          cases hlookup.symm.trans hlookup'
          rw [hmatches] at hdiffers
          cases hdiffers
        · have hpath := (concerns_single (.inr (.inr rfl))).mp hconcerns
          exact currentTree_eq_none.mp (mem_deleted.mp hgone).2.2.1 entry hentry hpath

theorem afterSingle_of_source {pair : RenamePair} (h : pair ∈ pairs remote current)
    (hcovers : Covers pair pair.source path) : afterSingle remote current path = liveTree remote path := by
  have hgone := currentTree_eq_none.mp (gone_of_covered htree h hcovers)
  refine afterSingle_of_untouched htree fun change hchange => ?_
  rw [Bool.eq_false_iff]
  intro hconcerns
  rcases mem_single.mp hchange with ⟨other, hother, rfl⟩ | ⟨other, hother, rfl⟩ | ⟨⟨gone, state⟩, hdeleted, rfl⟩
  · exact hgone other (mem_created.mp hother).1 ((concerns_single (.inl rfl)).mp hconcerns).symm
  · exact hgone other (mem_updates.mp hother).1 ((concerns_single (.inr (.inl rfl))).mp hconcerns).symm
  · have hpath : path = gone := (concerns_single (.inr (.inr rfl))).mp hconcerns
    exact (mem_deleted.mp hdeleted).2.2.2 pair h (hpath ▸ hcovers)

theorem afterSingle_of_gone (hgone : currentTree current path = none)
    (huncovered : ∀ pair ∈ pairs remote current, ¬Covers pair pair.source path) :
    afterSingle remote current path = none := by
  cases hlive : liveTree remote path with
  | some treeEntry =>
    obtain ⟨state, hlookup, hkind, -⟩ := liveTree_eq_some.mp hlive
    have hdeleted := mem_deleted.mpr ⟨hlookup, hkind, hgone, huncovered⟩
    rw [afterSingle_of_concerned htree (mem_single.mpr (.inr (.inr ⟨_, hdeleted, rfl⟩)))
      ((concerns_single (.inr (.inr rfl))).mpr rfl)]
    simp [LiveTree.apply]
  | none =>
    rw [afterSingle_of_untouched htree, hlive]
    intro change hchange
    rw [Bool.eq_false_iff]
    intro hconcerns
    rcases mem_single.mp hchange with ⟨other, hother, rfl⟩ | ⟨other, hother, rfl⟩ | ⟨⟨gone, state⟩, hdeleted, rfl⟩
    · exact currentTree_eq_none.mp hgone other (mem_created.mp hother).1
        ((concerns_single (.inl rfl)).mp hconcerns).symm
    · exact currentTree_eq_none.mp hgone other (mem_updates.mp hother).1
        ((concerns_single (.inr (.inl rfl))).mp hconcerns).symm
    · have hpath : path = gone := (concerns_single (.inr (.inr rfl))).mp hconcerns
      obtain ⟨hlookup, hkind, -⟩ := mem_deleted.mp hdeleted
      rw [← hpath] at hlookup
      exact hkind (liveTree_eq_none.mp hlive state hlookup)

end

/-! ## The tree after the renames -/

theorem rename_apply {pair : RenamePair} (h : pair ∈ pairs remote current)
    (htreeSource : tree pair.source = liveTree remote pair.source) : tree.rename pair.source pair.target path =
      if pair.kind = .directory then
        ((relocate pair.target pair.source path).bind tree).or
          (if path = pair.source ∨ pathIsDescendant path pair.source then none else tree path)
      else if path = pair.target then tree pair.source
      else if path = pair.source then none
      else tree path := by
  obtain ⟨state, entry, hjoins⟩ := joins_of_mem h
  simp only [LiveTree.rename, htreeSource, liveTree_source hjoins, Option.any_some, hjoins.stored_kind,
    decide_eq_true_eq]

theorem source_covers_of_relocate {pair : RenamePair} (hdirectory : pair.kind = .directory) {origin : WorkspacePath}
    (h : relocate pair.target pair.source path = some origin) : Covers pair pair.source origin := by
  rcases relocate_eq_some.mp h with ⟨-, rfl⟩ | ⟨suffix, -, horigin⟩
  · exact .inl rfl
  · exact .inr ⟨hdirectory, pathIsDescendant_iff.mpr ⟨suffix, horigin⟩⟩

theorem applyAll_eq : LiveTree.applyAll (currentTree current) (liveTree remote) (changesBetween remote current) =
    ((renamed remote current).map fun pair => FsChange.rename pair.source pair.target).foldl (currentTree current).apply
      (afterSingle remote current) := by
  rw [LiveTree.applyAll, changesBetween_eq, List.foldl_append]
  rfl

section

variable (hvalid : ValidStates remote) (htree : IsTree current)

include hvalid htree

variable {pair : RenamePair}

theorem rename_local (h : pair ∈ pairs remote current) (seen : LiveTree) :
    Footprint.Local seen.apply (part (liveTree remote)) (afterSingle remote current)
      (.rename pair.source pair.target) := by
  have hsource : ∀ {origin}, Covers pair pair.source origin →
      origin ∈ part (liveTree remote) (.rename pair.source pair.target) :=
    fun hcovers => (concerns_rename_iff hvalid htree h).mpr (.inl hcovers)
  have hnow : ∀ {now : LiveTree}, Set.EqOn now (afterSingle remote current)
      (part (liveTree remote) (.rename pair.source pair.target)) → ∀ {origin}, Covers pair pair.source origin →
        now origin = liveTree remote origin := fun heq origin hcovers => by
    rw [heq (hsource hcovers), afterSingle_of_source htree h hcovers]
  constructor
  · intro now heq path hpath
    have huncovered : ¬Covers pair pair.source path := fun hcovers => hpath (hsource hcovers)
    simp only [LiveTree.apply, rename_apply h (hnow heq (.inl rfl))]
    simp only [Covers, not_or, not_and] at huncovered
    split
    · rename_i hdirectory
      have hnone : (relocate pair.target pair.source path).bind now = none := by
        rw [Option.bind_eq_none_iff]
        intro origin horigin
        have hcovers := source_covers_of_relocate hdirectory horigin
        rw [hnow heq hcovers, ← Option.not_isSome_iff_eq_none]
        intro hlive
        obtain ⟨hfound, htarget, -⟩ := found_of_relocated hvalid h hdirectory horigin hlive
        exact hpath ((concerns_rename_iff hvalid htree h).mpr (.inr ⟨currentTree_isSome.mpr hfound, htarget⟩))
      rw [hnone, Option.none_or, if_neg]
      rintro (hsame | hbelow)
      · exact huncovered.1 hsame
      · exact huncovered.2 hdirectory hbelow
    · have htarget : path ≠ pair.target := by
        rintro rfl
        obtain ⟨state, entry, hjoins⟩ := joins_of_mem h
        exact hpath ((concerns_rename_iff hvalid htree h).mpr
          (.inr ⟨currentTree_isSome.mpr ⟨entry, hjoins.mem, hjoins.target⟩, .inl rfl⟩))
      rw [if_neg htarget, if_neg huncovered.1]
  · intro now heq path hpath
    have hself : Set.EqOn (afterSingle remote current) (afterSingle remote current)
        (part (liveTree remote) (.rename pair.source pair.target)) := fun _ _ => rfl
    simp only [LiveTree.apply, rename_apply h (hnow heq (.inl rfl)),
      rename_apply h (hnow hself (.inl rfl)), heq hpath, heq (hsource (.inl rfl))]
    split
    · rename_i hdirectory
      congr 1
      refine Option.bind_congr fun origin horigin => ?_
      exact heq (hsource (source_covers_of_relocate hdirectory horigin))
    · rfl

theorem renamed_disjoint : ((renamed remote current).map fun pair => FsChange.rename pair.source pair.target).Pairwise
    fun a b => Disjoint (part (liveTree remote) a) (part (liveTree remote) b) := by
  refine List.pairwise_map.mpr ((renamed_nodup remote current).pairwise_of_forall_ne fun a ha b hb hne => ?_)
  rw [Set.disjoint_left]
  exact fun path hpathA hpathB =>
    hne (pair_of_concerned hvalid htree (mem_renamed.mp ha) (mem_renamed.mp hb) hpathA hpathB)

theorem applyAll_of_concerned (h : pair ∈ pairs remote current)
    (hconcerns : (liveTree remote).concerns (.rename pair.source pair.target) path = true) :
    LiveTree.applyAll (currentTree current) (liveTree remote) (changesBetween remote current) path =
      (afterSingle remote current).rename pair.source pair.target path := by
  rw [applyAll_eq]
  refine Footprint.foldl_inside (part (liveTree remote)) hconcerns
    (List.mem_map.mpr ⟨pair, mem_renamed.mpr h, rfl⟩) (fun op hop => ?_) (renamed_disjoint hvalid htree)
    fun _ _ _ _ => rfl
  obtain ⟨other, hother, rfl⟩ := List.mem_map.mp hop
  exact rename_local hvalid htree (mem_renamed.mp hother) _

theorem applyAll_of_untouched (h : ∀ pair ∈ pairs remote current,
      (liveTree remote).concerns (.rename pair.source pair.target) path = false) :
    LiveTree.applyAll (currentTree current) (liveTree remote) (changesBetween remote current) path =
      afterSingle remote current path := by
  rw [applyAll_eq]
  refine Footprint.foldl_outside (part (liveTree remote)) (fun op hop => ?_) (renamed_disjoint hvalid htree)
    (fun _ _ _ _ => rfl) fun op hop => ?_
  · obtain ⟨other, hother, rfl⟩ := List.mem_map.mp hop
    exact rename_local hvalid htree (mem_renamed.mp hother) _
  · obtain ⟨other, hother, rfl⟩ := List.mem_map.mp hop
    simp [h other (mem_renamed.mp hother)]

theorem applyAll_of_source (h : pair ∈ pairs remote current) (hcovers : Covers pair pair.source path) :
    LiveTree.applyAll (currentTree current) (liveTree remote) (changesBetween remote current) path = none := by
  have hgone := gone_of_covered htree h hcovers
  rw [applyAll_of_concerned hvalid htree h ((concerns_rename_iff hvalid htree h).mpr (.inl hcovers)),
    rename_apply h (afterSingle_of_source htree h (.inl rfl))]
  split
  · rename_i hdirectory
    have hnone : (relocate pair.target pair.source path).bind (afterSingle remote current) = none := by
      rw [Option.bind_eq_none_iff]
      intro origin horigin
      rw [afterSingle_of_source htree h (source_covers_of_relocate hdirectory horigin),
        ← Option.not_isSome_iff_eq_none]
      intro hlive
      obtain ⟨⟨entry, hentry, hpath⟩, -⟩ := found_of_relocated hvalid h hdirectory horigin hlive
      exact currentTree_eq_none.mp hgone entry hentry hpath
    rw [hnone, Option.none_or, if_pos]
    exact hcovers.imp id And.right
  · rename_i hdirectory
    have hpath : path = pair.source := hcovers.resolve_right fun hbelow => hdirectory hbelow.1
    have htarget : path ≠ pair.target := by
      rintro rfl
      obtain ⟨state, entry, hjoins⟩ := joins_of_mem h
      exact currentTree_eq_none.mp hgone entry hjoins.mem hjoins.target
    rw [if_neg htarget, if_pos hpath]

theorem applyAll_of_target (h : pair ∈ pairs remote current) {entry : LocalDesiredEntry} (hentry : entry ∈ current)
    (hcovers : Covers pair pair.target entry.path) :
    ∃ a b, LiveTree.applyAll (currentTree current) (liveTree remote) (changesBetween remote current) entry.path = some a ∧
      currentTree current entry.path = some b ∧ a.SameButTime b := by
  obtain ⟨origin, state, hlookup, hkind, hidentity, hsource, hmoved, -⟩ := arrives_of_covered htree h hentry hcovers
  refine ⟨⟨state.kind, state.contentHash, state.metadata⟩, _, ?_, htree.currentTree_of_mem hentry,
    sameRenameIdentity_iff.mp hidentity⟩
  have hlive : afterSingle remote current origin = some ⟨state.kind, state.contentHash, state.metadata⟩ := by
    rw [afterSingle_of_source htree h hsource]
    exact liveTree_eq_some.mpr ⟨state, hlookup, hkind, rfl⟩
  rw [applyAll_of_concerned hvalid htree h
    ((concerns_rename_iff hvalid htree h).mpr (.inr ⟨currentTree_isSome.mpr ⟨entry, hentry, rfl⟩, hcovers⟩)),
    rename_apply h (afterSingle_of_source htree h (.inl rfl))]
  split
  · rw [hmoved, Option.bind_some, hlive, Option.some_or]
  · rename_i hdirectory
    have horigin : origin = pair.source := hsource.resolve_right fun hbelow => hdirectory hbelow.1
    have hpath : entry.path = pair.target := hcovers.resolve_right fun hbelow => hdirectory hbelow.1
    rw [if_pos hpath, ← horigin, hlive]

theorem applyAll_of_uncovered (hsource : ∀ pair ∈ pairs remote current, ¬Covers pair pair.source path)
    (htarget : (currentTree current path).isSome → ∀ pair ∈ pairs remote current, ¬Covers pair pair.target path) :
    LiveTree.applyAll (currentTree current) (liveTree remote) (changesBetween remote current) path =
      currentTree current path := by
  rw [applyAll_of_untouched hvalid htree fun pair hpair => ?_]
  · cases hfound : currentTree current path with
    | none => exact afterSingle_of_gone htree hfound hsource
    | some treeEntry =>
      obtain ⟨entry, hentry, rfl⟩ := currentTree_isSome.mp (by rw [hfound]; rfl)
      rw [afterSingle_of_found htree hentry (.inr (htarget (by rw [hfound]; rfl))), hfound]
  · rw [Bool.eq_false_iff, Ne, concerns_rename_iff hvalid htree hpair, not_or, not_and]
    exact ⟨hsource pair hpair, fun hfound => htarget hfound pair hpair⟩

/-- The tree after the changes is that of the scan, but for the modification times of what a rename has moved. -/
theorem applyAll_reaches (path : WorkspacePath) :
    LiveTree.applyAll (currentTree current) (liveTree remote) (changesBetween remote current) path =
        currentTree current path ∨
      ∃ pair ∈ pairs remote current, Covers pair pair.target path ∧ ∃ a b,
        LiveTree.applyAll (currentTree current) (liveTree remote) (changesBetween remote current) path = some a ∧
          currentTree current path = some b ∧ a.SameButTime b := by
  by_cases hsource : ∃ pair ∈ pairs remote current, Covers pair pair.source path
  · obtain ⟨pair, hpair, hcovers⟩ := hsource
    rw [applyAll_of_source hvalid htree hpair hcovers, gone_of_covered htree hpair hcovers]
    exact .inl rfl
  · by_cases htarget : (currentTree current path).isSome ∧ ∃ pair ∈ pairs remote current, Covers pair pair.target path
    · obtain ⟨hfound, pair, hpair, hcovers⟩ := htarget
      obtain ⟨entry, hentry, rfl⟩ := currentTree_isSome.mp hfound
      exact .inr ⟨pair, hpair, hcovers, applyAll_of_target hvalid htree hpair hentry hcovers⟩
    · refine .inl (applyAll_of_uncovered hvalid htree (fun pair hpair hcovers => hsource ⟨pair, hpair, hcovers⟩) ?_)
      exact fun hfound pair hpair hcovers => htarget ⟨hfound, pair, hpair, hcovers⟩

/-! ## Each differing path once -/

theorem exists_change_of_differs (hdiffers : liveTree remote path ≠ currentTree current path) :
    ∃ change ∈ changesBetween remote current, (liveTree remote).concerns change path = true := by
  by_contra hnone
  push Not at hnone
  have hpairs : ∀ pair ∈ pairs remote current,
      (liveTree remote).concerns (.rename pair.source pair.target) path = false := by
    intro pair hpair
    rw [Bool.eq_false_iff]
    refine hnone _ ?_
    rw [changesBetween_eq]
    exact List.mem_append_right _ (List.mem_map.mpr ⟨pair, mem_renamed.mpr hpair, rfl⟩)
  have hsingle : afterSingle remote current path = liveTree remote path := by
    refine afterSingle_of_untouched htree fun change hchange => ?_
    rw [Bool.eq_false_iff]
    refine hnone change ?_
    rw [changesBetween_eq]
    exact List.mem_append_left _ hchange
  have huncovered : ∀ pair ∈ pairs remote current, ¬(Covers pair pair.source path ∨
      (currentTree current path).isSome ∧ Covers pair pair.target path) := fun pair hpair => by
    rw [← concerns_rename_iff hvalid htree hpair, hpairs pair hpair]
    exact Bool.false_ne_true
  refine hdiffers ?_
  rw [← applyAll_of_uncovered hvalid htree (fun pair hpair hcovers => huncovered pair hpair (.inl hcovers))
    fun hfound pair hpair hcovers => huncovered pair hpair (.inr ⟨hfound, hcovers⟩),
    applyAll_of_untouched hvalid htree hpairs, hsingle]

theorem concerned_once (hrooted : ∀ root, pathIsDescendant path root = true → (liveTree remote path).isSome →
      (liveTree remote root).isSome) :
    (changesBetween remote current).Pairwise fun a b =>
      ¬((liveTree remote).concerns a path = true ∧ (liveTree remote).concerns b path = true) := by
  rw [changesBetween_eq, List.pairwise_append]
  refine ⟨(single_disjoint htree (liveTree remote)).imp fun hdisjoint h => ?_,
    (renamed_disjoint hvalid htree).imp fun hdisjoint h => ?_, fun change hchange rename hrename h => ?_⟩
  · exact Set.disjoint_left.mp hdisjoint h.1 h.2
  · exact Set.disjoint_left.mp hdisjoint h.1 h.2
  obtain ⟨pair, hpair, rfl⟩ := List.mem_map.mp hrename
  rw [mem_renamed] at hpair
  rw [concerns_rename_iff hvalid htree hpair] at h
  rcases mem_single.mp hchange with ⟨entry, hcreated, rfl⟩ | ⟨entry, hupdate, rfl⟩ | ⟨⟨gone, state⟩, hdeleted, rfl⟩
  · have hpath := (concerns_single (.inl rfl)).mp h.1
    obtain ⟨hentry, -, huncovered⟩ := mem_created.mp hcreated
    rcases h.2 with hsource | ⟨-, htarget⟩
    · exact currentTree_eq_none.mp (gone_of_covered htree hpair hsource) entry hentry hpath.symm
    · exact huncovered pair hpair (hpath ▸ htarget)
  · have hpath := (concerns_single (.inr (.inl rfl))).mp h.1
    obtain ⟨hentry, state, hlookup, hkind, -⟩ := mem_updates.mp hupdate
    rcases h.2 with hsource | ⟨-, htarget⟩
    · exact currentTree_eq_none.mp (gone_of_covered htree hpair hsource) entry hentry hpath.symm
    · obtain ⟨_, _, hjoins⟩ := joins_of_mem hpair
      have hlive : (liveTree remote path).isSome := by
        rw [hpath, liveTree_eq_some.mpr ⟨state, hlookup, hkind, rfl⟩]
        rfl
      rcases htarget with rfl | ⟨-, hbelow⟩
      · simp [hjoins.new] at hlive
      · have hroot := hrooted pair.target hbelow hlive
        simp [hjoins.new] at hroot
  · have hpath : path = gone := (concerns_single (.inr (.inr rfl))).mp h.1
    obtain ⟨-, -, hnone, huncovered⟩ := mem_deleted.mp hdeleted
    rcases h.2 with hsource | ⟨hfound, -⟩
    · exact huncovered pair hpair (hpath ▸ hsource)
    · simp [hpath, hnone] at hfound

end

theorem rename_mem {source target : WorkspacePath} :
    FsChange.rename source target ∈ changesBetween remote current ↔
      ∃ pair ∈ pairs remote current, pair.source = source ∧ pair.target = target := by
  rw [changesBetween_eq, List.mem_append]
  constructor
  · rintro (h | h)
    · rcases mem_single.mp h with ⟨_, -, h⟩ | ⟨_, -, h⟩ | ⟨_, -, h⟩ <;> cases h
    · obtain ⟨pair, hpair, h⟩ := List.mem_map.mp h
      cases h
      exact ⟨pair, mem_renamed.mp hpair, rfl, rfl⟩
  · rintro ⟨pair, hpair, rfl, rfl⟩
    exact .inr (List.mem_map.mpr ⟨pair, mem_renamed.mpr hpair, rfl⟩)

end Scan

/-! ## The changes of a scan -/

theorem length_filter_eq_one {α : Type} {p : α → Bool} {xs : List α} (hsome : ∃ x ∈ xs, p x = true)
    (honce : xs.Pairwise fun a b => ¬(p a = true ∧ p b = true)) : (xs.filter p).length = 1 := by
  obtain ⟨x, hx, hpx⟩ := hsome
  have hmem : x ∈ xs.filter p := List.mem_filter.mpr ⟨hx, hpx⟩
  have hpairwise := honce.filter p
  cases hfilter : xs.filter p with
  | nil => simp [hfilter] at hmem
  | cons a rest =>
    cases rest with
    | nil => rfl
    | cons b rest =>
      rw [hfilter, List.pairwise_cons] at hpairwise
      have ha : p a = true := (List.mem_filter.mp (hfilter ▸ List.mem_cons_self)).2
      have hb : p b = true := (List.mem_filter.mp (hfilter ▸ List.mem_cons_of_mem _ List.mem_cons_self)).2
      exact absurd ⟨ha, hb⟩ (hpairwise.1 b List.mem_cons_self)

def renameEnds (changes : List FsChange) : List (WorkspacePath × WorkspacePath) :=
  changes.filterMap fun change => match change with
    | .rename source target => some (source, target)
    | _ => none

theorem renameEnds_changesBetween (remote : PathStates) (current : List LocalDesiredEntry) :
    renameEnds (changesBetween remote current) = (Scan.renamed remote current).map fun pair =>
      (pair.source, pair.target) := by
  rw [Scan.changesBetween_eq, renameEnds, List.filterMap_append, List.filterMap_map]
  have hsingle : (Scan.single remote current).filterMap (fun change => match change with
      | .rename source target => some (source, target)
      | _ => none) = [] := by
    rw [List.filterMap_eq_nil_iff]
    intro change hchange
    obtain ⟨own, rfl | rfl | rfl⟩ := Scan.isSingle_of_mem hchange <;> rfl
  rw [hsingle, List.nil_append, ← List.filterMap_eq_map]
  rfl

/-- What the changes of a scan have to achieve. Only what a rename has moved may differ, in the modification time. -/
structure Reconciles (remote : PathStates) (current : List LocalDesiredEntry) (changes : List FsChange) : Prop where
  reaches : ∀ path, LiveTree.applyAll (currentTree current) (liveTree remote) changes path = currentTree current path ∨
    ∃ source target, .rename source target ∈ changes ∧ (path = target ∨ pathIsDescendant path target = true) ∧
      ∃ a b, LiveTree.applyAll (currentTree current) (liveTree remote) changes path = some a ∧
        currentTree current path = some b ∧ a.SameButTime b
  covers : ∀ path, liveTree remote path ≠ currentTree current path →
    ∃ change ∈ changes, (liveTree remote).concerns change path = true
  /-- A path is covered twice only if it is stored below a path that is not. -/
  once : ∀ path, liveTree remote path ≠ currentTree current path →
    (∀ root, pathIsDescendant path root = true → (liveTree remote path).isSome → (liveTree remote root).isSome) →
      (changes.filter fun change => (liveTree remote).concerns change path).length = 1
  identity : ∀ source target, .rename source target ∈ changes → ∃ state entry, remote.lookup source = some state ∧
    state.kind ≠ .tombstone ∧ currentTree current source = none ∧ entry ∈ current ∧ entry.path = target ∧
      liveTree remote target = none ∧ sameRenameIdentity state entry = true ∧
        (state.kind = .directory → directorySubtreesExactMatch source target remote current = true)
  sources : ((renameEnds changes).map (·.1)).Nodup
  targets : ((renameEnds changes).map (·.2)).Nodup

theorem changesBetween_reconciles (remote : PathStates) (current : List LocalDesiredEntry)
    (hvalid : ValidStates remote) (htree : IsTree current) :
    Reconciles remote current (changesBetween remote current) where
  reaches := by
    intro path
    rcases Scan.applyAll_reaches hvalid htree path with h | ⟨pair, hpair, hcovers, h⟩
    · exact .inl h
    · exact .inr ⟨pair.source, pair.target, Scan.rename_mem.mpr ⟨pair, hpair, rfl, rfl⟩, hcovers.imp id And.right, h⟩
  covers := fun _ hdiffers => Scan.exists_change_of_differs hvalid htree hdiffers
  once := fun _ hdiffers hrooted =>
    length_filter_eq_one (Scan.exists_change_of_differs hvalid htree hdiffers)
      (Scan.concerned_once hvalid htree hrooted)
  identity := by
    intro source target hmem
    obtain ⟨pair, hpair, rfl, rfl⟩ := Scan.rename_mem.mp hmem
    obtain ⟨state, entry, hjoins⟩ := Scan.joins_of_mem hpair
    exact ⟨state, entry, hjoins.stored, hjoins.live, hjoins.gone, hjoins.mem, hjoins.target, hjoins.new,
      hjoins.identity, fun hdirectory => hjoins.subtree (by rw [← hjoins.stored_kind, hdirectory])⟩
  sources := by
    rw [renameEnds_changesBetween, List.map_map]
    refine (List.nodup_map_iff_inj_on (Scan.renamed_nodup remote current)).mpr fun a ha b hb h => ?_
    exact Scan.pair_of_covered_source (Scan.mem_renamed.mp ha) (Scan.mem_renamed.mp hb) (.inl h)
  targets := by
    rw [renameEnds_changesBetween, List.map_map]
    refine (List.nodup_map_iff_inj_on (Scan.renamed_nodup remote current)).mpr fun a ha b hb h => ?_
    exact Scan.pair_of_covered_target htree (Scan.mem_renamed.mp ha) (Scan.mem_renamed.mp hb) (.inl h)

end

/-! ## Small trees -/

theorem validStates_of_entries {remote : PathStates}
    (h : ∀ row ∈ remote.entries, row.2.validate = .ok ()) : ValidStates remote := by
  intro path state hlookup
  exact h ⟨path, state⟩ (Table.lookup_eq_some_iff.mp hlookup)

theorem rooted_of_parts {current : List LocalDesiredEntry} (h : ∀ entry ∈ current,
      ∀ i ∈ List.range entry.path.chars.length, entry.path.chars[i]? = some '/' →
        ∃ parent ∈ current, parent.path.chars = entry.path.chars.take i ∧ parent.kind = .directory) :
    ∀ entry ∈ current, ∀ path, pathIsDescendant entry.path path = true →
      ∃ parent ∈ current, parent.path = path ∧ parent.kind = .directory := by
  intro entry hentry path hbelow
  obtain ⟨suffix, hsuffix⟩ := pathIsDescendant_iff.mp hbelow
  obtain ⟨parent, hparent, hchars, hkind⟩ := h entry hentry path.chars.length
    (List.mem_range.mpr (by rw [hsuffix]; simp)) (by rw [hsuffix]; simp)
  exact ⟨parent, hparent, chars_injective (by rw [hchars, hsuffix, List.take_left]), hkind⟩

namespace Sample

def storedFile (path : WorkspacePath) (contentHash size : Nat) (modifiedAtMs : Int) : WorkspacePathState :=
  ⟨path, 4, .file, some contentHash, ⟨size, modifiedAtMs, false⟩, false⟩

def storedDirectory (path : WorkspacePath) : WorkspacePathState := ⟨path, 4, .directory, none, zeroMetadata, false⟩

def foundFile (path : WorkspacePath) (contentHash size : Nat) (modifiedAtMs : Int) : LocalDesiredEntry :=
  ⟨path, .file, some contentHash, ⟨size, modifiedAtMs, false⟩⟩

def foundDirectory (path : WorkspacePath) : LocalDesiredEntry := ⟨path, .directory, none, zeroMetadata⟩

def dir : WorkspacePath := ⟨['d'], by decide⟩
def dirFile : WorkspacePath := ⟨['d', '/', 'y'], by decide⟩
def moved : WorkspacePath := ⟨['t'], by decide⟩
def movedFile : WorkspacePath := ⟨['t', '/', 'y'], by decide⟩
def left : WorkspacePath := ⟨['x'], by decide⟩

def table (states : List WorkspacePathState) : PathStates :=
  states.foldl (fun table state => table.insert state.path state) ∅

def storedTree : PathStates := table [storedDirectory dir, storedFile dirFile 1 1 5, storedFile left 2 1 5]

def movedTree : List LocalDesiredEntry := [foundDirectory moved, foundFile movedFile 1 1 7]

/-- The same directory beside a file that is stored below a path without an entry. -/
def orphanStored : PathStates := table [storedDirectory dir, storedFile dirFile 1 1 5, storedFile movedFile 2 1 5]

theorem movedTree_isTree : IsTree movedTree where
  distinct := by decide
  present := by decide
  rooted := rooted_of_parts (by decide)

end Sample

example : changesBetween Sample.storedTree Sample.movedTree = [.delete Sample.left, .rename Sample.dir Sample.moved] := by
  decide +kernel

theorem changesBetween_reconciles_moved :
    Reconciles Sample.storedTree Sample.movedTree (changesBetween Sample.storedTree Sample.movedTree) :=
  changesBetween_reconciles Sample.storedTree Sample.movedTree (validStates_of_entries (by decide +kernel))
    Sample.movedTree_isTree

/-- A file that is stored below a path without an entry is updated, and comes with the renamed directory again. -/
theorem changesBetween_covers_twice :
    ¬∀ (remote : PathStates) (current : List LocalDesiredEntry), ValidStates remote → IsTree current →
      ∀ path, liveTree remote path ≠ currentTree current path →
        ((changesBetween remote current).filter fun change => (liveTree remote).concerns change path).length = 1 := by
  intro h
  have honce := h Sample.orphanStored Sample.movedTree (validStates_of_entries (by decide +kernel))
    Sample.movedTree_isTree Sample.movedFile (by decide +kernel)
  have htwice : ((changesBetween Sample.orphanStored Sample.movedTree).filter fun change =>
      (liveTree Sample.orphanStored).concerns change Sample.movedFile).length = 2 := by decide +kernel
  omega

end Lumio.Sync
