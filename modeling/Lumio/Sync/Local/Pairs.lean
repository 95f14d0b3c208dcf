import Lumio.Sync.Local.Trees
import Lumio.Protocol.Valid

/-!
# Pairs of gone and new entries

A scan pairs entries that are gone with new ones of the same content into renames. A pair is the only one that
concerns what it moves: what lies below the source of a directory, and where that goes.
-/

namespace Lumio.Sync

open Lumio.Protocol Lumio.Fs

/-- The entries of a scan form a tree: one entry a path, and a directory above each entry. -/
structure IsTree (current : List LocalDesiredEntry) : Prop where
  distinct : (current.map (·.path)).Nodup
  present : ∀ entry ∈ current, entry.kind ≠ .tombstone
  rooted : ∀ entry ∈ current, ∀ path, pathIsDescendant entry.path path = true →
    ∃ parent ∈ current, parent.path = path ∧ parent.kind = .directory

def ValidStates (remote : PathStates) : Prop :=
  ∀ path state, remote.lookup path = some state → state.validate = .ok ()

/-! ## The parts of the comparison -/

namespace Scan

variable (remote : PathStates) (current : List LocalDesiredEntry)

def additions : List LocalDesiredEntry :=
  current.filter fun entry => (remote.lookup entry.path).all (·.kind = .tombstone)

def updates : List LocalDesiredEntry :=
  current.filter fun entry => (remote.lookup entry.path).any fun state =>
    state.kind ≠ .tombstone && !remoteMatchesEntry state entry

def deletions : List (WorkspacePath × WorkspacePathState) :=
  (orderedStates remote).filter fun (path, state) => state.kind ≠ .tombstone && !current.any (·.path = path)

def candidates (deleted : WorkspacePath × WorkspacePathState) : List LocalDesiredEntry :=
  renameCandidates remote current (additions remote current) deleted

def pairs : List RenamePair := pairRenames (candidates remote current) (deletions remote current)

def created : List LocalDesiredEntry :=
  (additions remote current).filter fun entry =>
    !(pairs remote current).any (·.target = entry.path) &&
      !pairedDirectory (pairs remote current) (·.target) entry.path

def deleted : List (WorkspacePath × WorkspacePathState) :=
  (deletions remote current).filter fun (path, _) =>
    !(pairs remote current).any (·.source = path) && !pairedDirectory (pairs remote current) (·.source) path

def renamed : List RenamePair :=
  ((pairs remote current).filter fun pair =>
    !pairedDirectory (pairs remote current) (·.source) pair.source).insertionSort
      fun a b => if a.source = b.source then a.target.le b.target = true else a.source.le b.source = true

def single : List FsChange :=
  (created remote current).map (FsChange.create ·.path) ++ (updates remote current).map (FsChange.update ·.path) ++
    (deleted remote current).map (FsChange.delete ·.1)

theorem changesBetween_eq : changesBetween remote current =
    single remote current ++ (renamed remote current).map fun pair => FsChange.rename pair.source pair.target := rfl

end Scan

/-! ## The two trees -/

section

variable {remote : PathStates} {current : List LocalDesiredEntry} {path : WorkspacePath}

theorem liveTree_eq_some {entry : TreeEntry} : liveTree remote path = some entry ↔ ∃ state,
    remote.lookup path = some state ∧ state.kind ≠ .tombstone ∧
      entry = ⟨state.kind, state.contentHash, state.metadata⟩ := by
  simp only [liveTree, Option.map_eq_some_iff, Option.filter_eq_some_iff, decide_eq_true_eq]
  constructor
  · rintro ⟨state, ⟨hlookup, hkind⟩, rfl⟩
    exact ⟨state, hlookup, hkind, rfl⟩
  · rintro ⟨state, hlookup, hkind, rfl⟩
    exact ⟨state, ⟨hlookup, hkind⟩, rfl⟩

theorem liveTree_eq_none : liveTree remote path = none ↔
    ∀ state, remote.lookup path = some state → state.kind = .tombstone := by
  simp only [liveTree, Option.map_eq_none_iff, Option.filter_eq_none_iff, decide_eq_true_eq, not_not]

theorem currentTree_eq_none : currentTree current path = none ↔ ∀ entry ∈ current, entry.path ≠ path := by
  simp [currentTree]

theorem currentTree_isSome : (currentTree current path).isSome ↔ ∃ entry ∈ current, entry.path = path := by
  simp [currentTree]

namespace IsTree

variable (htree : IsTree current)

include htree

theorem eq_of_path {a b : LocalDesiredEntry} (ha : a ∈ current) (hb : b ∈ current) (h : a.path = b.path) : a = b :=
  List.inj_on_of_nodup_map htree.distinct ha hb h

theorem currentTree_of_mem {entry : LocalDesiredEntry} (h : entry ∈ current) :
    currentTree current entry.path = some ⟨entry.kind, entry.contentHash, entry.metadata⟩ := by
  cases hfind : current.find? (·.path = entry.path) with
  | none =>
    have hnone := List.find?_eq_none.mp hfind entry h
    simp at hnone
  | some found =>
    have hpath : found.path = entry.path := by simpa using List.find?_some hfind
    have hsame := htree.eq_of_path (List.mem_of_find?_eq_some hfind) h hpath
    simp [currentTree, hfind, hsame]

theorem none_below {root : WorkspacePath} (hroot : currentTree current root = none)
    (hbelow : pathIsDescendant path root = true) : currentTree current path = none := by
  rw [currentTree_eq_none]
  rintro entry hentry rfl
  obtain ⟨parent, hparent, rfl, -⟩ := htree.rooted entry hentry root hbelow
  exact currentTree_eq_none.mp hroot parent hparent rfl

end IsTree

/-! ## What the parts hold -/

namespace Scan

theorem mem_additions {entry : LocalDesiredEntry} :
    entry ∈ additions remote current ↔ entry ∈ current ∧ liveTree remote entry.path = none := by
  simp [additions, liveTree_eq_none, Option.all_eq_true]

theorem mem_updates {entry : LocalDesiredEntry} : entry ∈ updates remote current ↔ entry ∈ current ∧
    ∃ state, remote.lookup entry.path = some state ∧ state.kind ≠ .tombstone ∧
      remoteMatchesEntry state entry = false := by
  simp [updates, Option.any_eq_true]

theorem mem_deletions {state : WorkspacePathState} : (path, state) ∈ deletions remote current ↔
    remote.lookup path = some state ∧ state.kind ≠ .tombstone ∧ currentTree current path = none := by
  simp [deletions, mem_orderedStates, currentTree_eq_none]

end Scan

/-! ## Pairs -/

theorem sortPaths_pairwise (paths : List WorkspacePath) :
    (sortPaths paths).Pairwise fun a b => a ≠ b ∧ pathIsDescendant a b = false := by
  have : Std.Total fun a b : WorkspacePath => a.le b = true := ⟨fun a b => bytesLe_total a.chars b.chars⟩
  have : IsTrans WorkspacePath fun a b => a.le b = true := ⟨fun _ _ _ => bytesLe_trans⟩
  have hsorted : (sortPaths paths).Pairwise fun a b => a.le b = true :=
    (List.pairwise_insertionSort _ paths).sublist (List.dedup_sublist _)
  refine (hsorted.and (List.nodup_dedup _)).imp fun {a b} h => ⟨h.2, ?_⟩
  rw [Bool.eq_false_iff]
  intro hbelow
  rw [le_of_descendant hbelow] at h
  exact absurd h.1 (by simp)

namespace Scan

theorem deletions_pairwise (remote : PathStates) (current : List LocalDesiredEntry) :
    (deletions remote current).Pairwise fun a b => a.1 ≠ b.1 ∧ pathIsDescendant a.1 b.1 = false := by
  refine List.Pairwise.filter _ (List.Pairwise.filterMap _ (fun a b hab x hx y hy => ?_) (sortPaths_pairwise _))
  obtain ⟨_, -, rfl⟩ := Option.map_eq_some_iff.mp hx
  obtain ⟨_, -, rfl⟩ := Option.map_eq_some_iff.mp hy
  exact hab

/-- A deletion and an addition that are each other's only candidates. -/
structure Matched (candidates : WorkspacePath × WorkspacePathState → List LocalDesiredEntry)
    (deletions : List (WorkspacePath × WorkspacePathState)) (deleted : WorkspacePath × WorkspacePathState)
    (entry : LocalDesiredEntry) : Prop where
  mem : deleted ∈ deletions
  only : candidates deleted = [entry]
  unique : ∀ other ∈ deletions, entry ∈ candidates other → other = deleted

structure PairedUpTo (candidates : WorkspacePath × WorkspacePathState → List LocalDesiredEntry)
    (deletions done : List (WorkspacePath × WorkspacePathState)) (pairs : List RenamePair) : Prop where
  matched : ∀ pair ∈ pairs, ∃ deleted entry, Matched candidates deletions deleted entry ∧
    pair = ⟨deleted.1, entry.path, entry.kind⟩
  seen : ∀ pair ∈ pairs, ∃ deleted ∈ done, deleted.1 = pair.source
  distinct : (pairs.map (·.source)).Nodup
  outermost : ∀ pair ∈ pairs, pairedDirectory pairs (·.source) pair.source = false

section

variable {candidates : WorkspacePath × WorkspacePathState → List LocalDesiredEntry}
  {deletions done : List (WorkspacePath × WorkspacePathState)} {pairs : List RenamePair}

theorem Matched.of_count {deleted : WorkspacePath × WorkspacePathState} {entry : LocalDesiredEntry}
    (hmem : deleted ∈ deletions) (honly : candidates deleted = [entry])
    (hcount : (deletions.filter fun other => (candidates other).any (·.path = entry.path)).length = 1) :
    Matched candidates deletions deleted entry where
  mem := hmem
  only := honly
  unique := by
    obtain ⟨single, hsingle⟩ := List.length_eq_one_iff.mp hcount
    have hfound : ∀ other ∈ deletions, entry ∈ candidates other → other = single := by
      intro other hother hentry
      rw [← List.mem_singleton, ← hsingle, List.mem_filter]
      exact ⟨hother, List.any_eq_true.mpr ⟨entry, hentry, by simp⟩⟩
    intro other hother hentry
    rw [hfound other hother hentry, hfound deleted hmem (by simp [honly])]

theorem PairedUpTo.add (h : PairedUpTo candidates deletions done pairs)
    {deleted : WorkspacePath × WorkspacePathState} {entry : LocalDesiredEntry}
    (hmatched : Matched candidates deletions deleted entry)
    (hlater : ∀ earlier ∈ done, earlier.1 ≠ deleted.1 ∧ pathIsDescendant earlier.1 deleted.1 = false)
    (houter : pairedDirectory pairs (·.source) deleted.1 = false) :
    PairedUpTo candidates deletions (done ++ [deleted]) (pairs ++ [⟨deleted.1, entry.path, entry.kind⟩]) where
  matched := by
    intro pair hpair
    rcases List.mem_append.mp hpair with hpair | hpair
    · exact h.matched pair hpair
    · exact ⟨deleted, entry, hmatched, List.mem_singleton.mp hpair⟩
  seen := by
    intro pair hpair
    rcases List.mem_append.mp hpair with hpair | hpair
    · obtain ⟨earlier, hearlier, hsource⟩ := h.seen pair hpair
      exact ⟨earlier, by simp [hearlier], hsource⟩
    · cases List.mem_singleton.mp hpair
      exact ⟨deleted, by simp, rfl⟩
  distinct := by
    rw [List.map_append, List.nodup_append]
    refine ⟨h.distinct, by simp, ?_⟩
    intro source hsource other hother
    obtain ⟨pair, hpair, rfl⟩ := List.mem_map.mp hsource
    obtain ⟨earlier, hearlier, hpath⟩ := h.seen pair hpair
    simp only [List.map_cons, List.map_nil, List.mem_singleton] at hother
    rw [hother, ← hpath]
    exact (hlater earlier hearlier).1
  outermost := by
    intro pair hpair
    simp only [pairedDirectory, List.any_append, List.any_cons, List.any_nil, Bool.or_false, Bool.or_eq_false_iff,
      Bool.and_eq_false_iff] at houter ⊢
    rcases List.mem_append.mp hpair with hpair | hpair
    · obtain ⟨earlier, hearlier, hpath⟩ := h.seen pair hpair
      exact ⟨h.outermost pair hpair, .inr (by rw [← hpath]; exact (hlater earlier hearlier).2)⟩
    · cases List.mem_singleton.mp hpair
      refine ⟨houter, .inr ?_⟩
      rw [Bool.eq_false_iff]
      exact fun hbelow => ne_of_descendant hbelow rfl

theorem PairedUpTo.skip (h : PairedUpTo candidates deletions done pairs)
    (deleted : WorkspacePath × WorkspacePathState) :
    PairedUpTo candidates deletions (done ++ [deleted]) pairs :=
  { h with
    seen := fun pair hpair => by
      obtain ⟨earlier, hearlier, hsource⟩ := h.seen pair hpair
      exact ⟨earlier, by simp [hearlier], hsource⟩ }

theorem foldl_pairedUpTo (horder : deletions.Pairwise fun a b => a.1 ≠ b.1 ∧ pathIsDescendant a.1 b.1 = false)
    (rest : List (WorkspacePath × WorkspacePathState)) :
    ∀ done pairs, deletions = done ++ rest → PairedUpTo candidates deletions done pairs →
      PairedUpTo candidates deletions deletions (rest.foldl (fun pairs deleted =>
        match candidates deleted with
        | [entry] =>
          if (deletions.filter fun other => (candidates other).any (·.path = entry.path)).length = 1 ∧
              !pairedDirectory pairs (·.source) deleted.1 then
            pairs ++ [⟨deleted.1, entry.path, entry.kind⟩]
          else pairs
        | _ => pairs) pairs) := by
  induction rest with
  | nil =>
    intro done pairs hsplit h
    rw [List.append_nil] at hsplit
    rw [hsplit]
    rwa [hsplit] at h
  | cons deleted rest ih =>
    intro done pairs hsplit h
    have hlater : ∀ earlier ∈ done, earlier.1 ≠ deleted.1 ∧ pathIsDescendant earlier.1 deleted.1 = false := by
      intro earlier hearlier
      rw [hsplit] at horder
      exact (List.pairwise_append.mp horder).2.2 earlier hearlier deleted (by simp)
    rw [List.foldl_cons]
    refine ih (done ++ [deleted]) _ (by rw [hsplit]; simp) ?_
    split
    · rename_i entry honly
      split
      · rename_i hpaired
        have hmem : deleted ∈ deletions := by rw [hsplit]; simp
        exact h.add (.of_count hmem honly hpaired.1) hlater (by simpa using hpaired.2)
      · exact h.skip deleted
    · exact h.skip deleted

theorem pairRenames_pairedUpTo
    (horder : deletions.Pairwise fun a b => a.1 ≠ b.1 ∧ pathIsDescendant a.1 b.1 = false) :
    PairedUpTo candidates deletions deletions (pairRenames candidates deletions) :=
  foldl_pairedUpTo horder deletions [] [] rfl ⟨by simp, by simp, by simp, by simp⟩

end

theorem pairs_pairedUpTo (remote : PathStates) (current : List LocalDesiredEntry) :
    PairedUpTo (candidates remote current) (deletions remote current) (deletions remote current)
      (pairs remote current) :=
  pairRenames_pairedUpTo (deletions_pairwise remote current)

/-! ## What a pair moves -/

/-- A renamed path, or one below a renamed directory. -/
def Covers (pair : RenamePair) (root path : WorkspacePath) : Prop :=
  path = root ∨ pair.kind = .directory ∧ pathIsDescendant path root = true

theorem covers_comparable {a b : RenamePair} {rootA rootB : WorkspacePath} (ha : Covers a rootA path)
    (hb : Covers b rootB path) : Covers a rootA rootB ∨ Covers b rootB rootA := by
  rcases ha with rfl | ⟨hdirA, hbelowA⟩
  · exact .inr hb
  · rcases hb with rfl | ⟨hdirB, hbelowB⟩
    · exact .inl (.inr ⟨hdirA, hbelowA⟩)
    · rcases descendant_comparable hbelowA hbelowB with rfl | h | h
      · exact .inl (.inl rfl)
      · exact .inr (.inr ⟨hdirB, h⟩)
      · exact .inl (.inr ⟨hdirA, h⟩)

theorem mem_candidates {deleted : WorkspacePath × WorkspacePathState} {entry : LocalDesiredEntry} :
    entry ∈ candidates remote current deleted ↔ entry ∈ additions remote current ∧
      sameRenameIdentity deleted.2 entry = true ∧ (deleted.2.kind = .directory →
        directorySubtreesExactMatch deleted.1 entry.path remote current = true) := by
  simp only [candidates, renameCandidates, List.mem_filter, Bool.and_eq_true, Bool.or_eq_true, decide_eq_true_eq]
  refine and_congr_right fun _ => and_congr_right fun _ => ?_
  by_cases h : deleted.2.kind = .directory <;> simp [h]

/-- What a pair has to do with the stored states and the scan. -/
structure Joins (remote : PathStates) (current : List LocalDesiredEntry) (pair : RenamePair)
    (state : WorkspacePathState) (entry : LocalDesiredEntry) : Prop where
  stored : remote.lookup pair.source = some state
  live : state.kind ≠ .tombstone
  gone : currentTree current pair.source = none
  mem : entry ∈ current
  target : entry.path = pair.target
  new : liveTree remote pair.target = none
  kind : entry.kind = pair.kind
  identity : sameRenameIdentity state entry = true
  subtree : pair.kind = .directory → directorySubtreesExactMatch pair.source pair.target remote current = true
  unique : ∀ other ∈ deletions remote current, entry ∈ candidates remote current other → other.1 = pair.source

theorem Joins.stored_kind {pair : RenamePair} {state : WorkspacePathState} {entry : LocalDesiredEntry}
    (h : Joins remote current pair state entry) : state.kind = pair.kind := by
  rw [(sameRenameIdentity_iff.mp h.identity).1, h.kind]

theorem joins_of_mem {pair : RenamePair} (h : pair ∈ pairs remote current) :
    ∃ state entry, Joins remote current pair state entry := by
  obtain ⟨⟨source, state⟩, entry, hmatched, rfl⟩ := (pairs_pairedUpTo remote current).matched pair h
  obtain ⟨hlookup, hkind, hgone⟩ := mem_deletions.mp hmatched.mem
  have hcandidate : entry ∈ candidates remote current (source, state) := by simp [hmatched.only]
  obtain ⟨haddition, hidentity, hsubtree⟩ := mem_candidates.mp hcandidate
  obtain ⟨hentry, hnew⟩ := mem_additions.mp haddition
  refine ⟨state, entry, hlookup, hkind, hgone, hentry, rfl, hnew, rfl, hidentity, fun hdirectory => ?_,
    fun other hother hmem => by rw [hmatched.unique other hother hmem]⟩
  exact hsubtree (by rw [(sameRenameIdentity_iff.mp hidentity).1]; exact hdirectory)

theorem pair_of_covered_source {a b : RenamePair} (ha : a ∈ pairs remote current) (hb : b ∈ pairs remote current)
    (h : Covers b b.source a.source) : a = b := by
  rcases h with h | ⟨hdirectory, hbelow⟩
  · exact List.inj_on_of_nodup_map (pairs_pairedUpTo remote current).distinct ha hb h
  · have houter := (pairs_pairedUpTo remote current).outermost a ha
    simp only [pairedDirectory, List.any_eq_false, Bool.and_eq_true, decide_eq_true_eq, not_and] at houter
    exact absurd hbelow (houter b hb hdirectory)

section

variable (hvalid : ValidStates remote) (htree : IsTree current)

include hvalid in
theorem tombstone_of_live {state : WorkspacePathState} (hlookup : remote.lookup path = some state)
    (hkind : state.kind ≠ .tombstone) : state.tombstone = false := by
  rw [WorkspacePathState.tombstone_of_validate (hvalid path state hlookup)]
  exact beq_eq_false_iff_ne.mpr hkind

variable {pair : RenamePair}

include htree in
theorem gone_of_covered (h : pair ∈ pairs remote current) (hcovers : Covers pair pair.source path) :
    currentTree current path = none := by
  obtain ⟨state, entry, hjoins⟩ := joins_of_mem h
  rcases hcovers with rfl | ⟨-, hbelow⟩
  · exact hjoins.gone
  · exact htree.none_below hjoins.gone hbelow

include htree in
theorem arrives_of_covered (h : pair ∈ pairs remote current) {entry : LocalDesiredEntry} (hentry : entry ∈ current)
    (hcovers : Covers pair pair.target entry.path) :
    ∃ origin state, remote.lookup origin = some state ∧ state.kind ≠ .tombstone ∧
      sameRenameIdentity state entry = true ∧ Covers pair pair.source origin ∧
      relocate pair.target pair.source entry.path = some origin ∧
      (state.kind = .directory → directorySubtreesExactMatch origin entry.path remote current = true) := by
  obtain ⟨state, found, hjoins⟩ := joins_of_mem h
  rcases hcovers with hpath | ⟨hdirectory, hbelow⟩
  · have hsame : found = entry := htree.eq_of_path hjoins.mem hentry (by rw [hpath, hjoins.target])
    subst hsame
    refine ⟨pair.source, state, hjoins.stored, hjoins.live, hjoins.identity, .inl rfl, ?_, fun hkind => ?_⟩
    · exact relocate_eq_some.mpr (.inl ⟨hpath, rfl⟩)
    · rw [hpath]
      exact hjoins.subtree (by rw [← hjoins.stored_kind, hkind])
  · obtain ⟨suffix, hsuffix⟩ := pathIsDescendant_iff.mp hbelow
    have hmatch := hjoins.subtree hdirectory
    obtain ⟨origin, other, hlookup, hkind, hchars, hidentity⟩ := exactMatch_backward hmatch hentry hsuffix
    exact ⟨origin, other, hlookup, hkind, hidentity, .inr ⟨hdirectory, pathIsDescendant_iff.mpr ⟨suffix, hchars⟩⟩,
      relocate_eq_some.mpr (.inr ⟨suffix, hsuffix, hchars⟩), fun _ => exactMatch_nested hmatch hchars hsuffix⟩

include htree in
theorem pair_of_covered_target {a b : RenamePair} (ha : a ∈ pairs remote current) (hb : b ∈ pairs remote current)
    (h : Covers b b.target a.target) : a = b := by
  obtain ⟨state, entry, hjoins⟩ := joins_of_mem ha
  rw [← hjoins.target] at h
  obtain ⟨origin, found, hlookup, hkind, hidentity, hcovers, -, hsubtree⟩ := arrives_of_covered htree hb hjoins.mem h
  have hdeletion : (origin, found) ∈ deletions remote current :=
    mem_deletions.mpr ⟨hlookup, hkind, gone_of_covered htree hb hcovers⟩
  have haddition : entry ∈ additions remote current :=
    mem_additions.mpr ⟨hjoins.mem, by rw [hjoins.target]; exact hjoins.new⟩
  have hsource := hjoins.unique _ hdeletion (mem_candidates.mpr ⟨haddition, hidentity, hsubtree⟩)
  exact pair_of_covered_source ha hb (hsource ▸ hcovers)

include hvalid in
theorem found_of_relocated (h : pair ∈ pairs remote current) {origin : WorkspacePath}
    (hdirectory : pair.kind = .directory) (hmoved : relocate pair.target pair.source path = some origin)
    (hlive : (liveTree remote origin).isSome) :
    (∃ entry ∈ current, entry.path = path) ∧ Covers pair pair.target path ∧ Covers pair pair.source origin := by
  obtain ⟨state, entry, hjoins⟩ := joins_of_mem h
  rcases relocate_eq_some.mp hmoved with ⟨rfl, rfl⟩ | ⟨suffix, hpath, horigin⟩
  · exact ⟨⟨entry, hjoins.mem, hjoins.target⟩, .inl rfl, .inl rfl⟩
  · obtain ⟨treeEntry, htreeEntry⟩ := Option.isSome_iff_exists.mp hlive
    obtain ⟨other, hlookup, hkind, -⟩ := liveTree_eq_some.mp htreeEntry
    obtain ⟨found, hfound, hchars, -⟩ := exactMatch_forward (hjoins.subtree hdirectory) hlookup hkind
      (tombstone_of_live hvalid hlookup hkind) horigin
    refine ⟨⟨found, hfound, chars_injective (by rw [hchars, hpath])⟩, ?_, ?_⟩
    · exact .inr ⟨hdirectory, pathIsDescendant_iff.mpr ⟨suffix, hpath⟩⟩
    · exact .inr ⟨hdirectory, pathIsDescendant_iff.mpr ⟨suffix, horigin⟩⟩

theorem liveTree_source {state : WorkspacePathState} {entry : LocalDesiredEntry}
    (h : Joins remote current pair state entry) :
    liveTree remote pair.source = some ⟨state.kind, state.contentHash, state.metadata⟩ :=
  liveTree_eq_some.mpr ⟨state, h.stored, h.live, rfl⟩

include hvalid htree in
theorem concerns_rename_iff (h : pair ∈ pairs remote current) :
    (liveTree remote).concerns (.rename pair.source pair.target) path = true ↔
      Covers pair pair.source path ∨ (currentTree current path).isSome ∧ Covers pair pair.target path := by
  obtain ⟨state, entry, hjoins⟩ := joins_of_mem h
  simp only [LiveTree.concerns, liveTree_source hjoins, Option.any_some, hjoins.stored_kind, Bool.or_eq_true,
    Bool.and_eq_true, decide_eq_true_eq]
  have hfound : ∀ found ∈ current, (currentTree current found.path).isSome := fun found hmem =>
    currentTree_isSome.mpr ⟨found, hmem, rfl⟩
  constructor
  · rintro ((rfl | rfl) | ⟨hdirectory, hbelow | hmoved⟩)
    · exact .inl (.inl rfl)
    · exact .inr ⟨hjoins.target ▸ hfound entry hjoins.mem, .inl rfl⟩
    · exact .inl (.inr ⟨hdirectory, hbelow⟩)
    · obtain ⟨treeEntry, htreeEntry⟩ := Option.isSome_iff_exists.mp hmoved
      obtain ⟨origin, horigin, hlive⟩ := Option.bind_eq_some_iff.mp htreeEntry
      obtain ⟨⟨found, hmem, rfl⟩, hcovers, -⟩ := found_of_relocated hvalid h hdirectory horigin (by rw [hlive]; rfl)
      exact .inr ⟨hfound found hmem, hcovers⟩
  · rintro ((rfl | ⟨hdirectory, hbelow⟩) | ⟨hsome, hcovers⟩)
    · exact .inl (.inl rfl)
    · exact .inr ⟨hdirectory, .inl hbelow⟩
    · rcases hcovers with rfl | ⟨hdirectory, hbelow⟩
      · exact .inl (.inr rfl)
      · obtain ⟨found, hmem, rfl⟩ := currentTree_isSome.mp hsome
        obtain ⟨origin, other, hlookup, hkind, -, -, hmoved, -⟩ :=
          arrives_of_covered htree h hmem (.inr ⟨hdirectory, hbelow⟩)
        refine .inr ⟨hdirectory, .inr ?_⟩
        rw [hmoved, Option.bind_some, liveTree_eq_some.mpr ⟨other, hlookup, hkind, rfl⟩]
        rfl

include hvalid htree in
theorem pair_of_concerned {a b : RenamePair} (ha : a ∈ pairs remote current) (hb : b ∈ pairs remote current)
    (hconcernsA : (liveTree remote).concerns (.rename a.source a.target) path = true)
    (hconcernsB : (liveTree remote).concerns (.rename b.source b.target) path = true) : a = b := by
  rcases (concerns_rename_iff hvalid htree ha).mp hconcernsA with hA | ⟨hsomeA, hA⟩
  · rcases (concerns_rename_iff hvalid htree hb).mp hconcernsB with hB | ⟨hsomeB, -⟩
    · rcases covers_comparable hA hB with h | h
      · exact (pair_of_covered_source hb ha h).symm
      · exact pair_of_covered_source ha hb h
    · simp [gone_of_covered htree ha hA] at hsomeB
  · rcases (concerns_rename_iff hvalid htree hb).mp hconcernsB with hB | ⟨-, hB⟩
    · simp [gone_of_covered htree hb hB] at hsomeA
    · rcases covers_comparable hA hB with h | h
      · exact (pair_of_covered_target htree hb ha h).symm
      · exact pair_of_covered_target htree ha hb h

theorem mem_renamed : pair ∈ renamed remote current ↔ pair ∈ pairs remote current := by
  simp only [renamed, List.mem_insertionSort, List.mem_filter, Bool.not_eq_true', and_iff_left_iff_imp]
  exact fun h => (pairs_pairedUpTo remote current).outermost pair h

theorem renamed_nodup (remote : PathStates) (current : List LocalDesiredEntry) : (renamed remote current).Nodup := by
  refine (List.perm_insertionSort _ _).nodup_iff.mpr (List.Nodup.filter _ ?_)
  exact (pairs_pairedUpTo remote current).distinct.of_map _

end

end Scan

end

end Lumio.Sync
