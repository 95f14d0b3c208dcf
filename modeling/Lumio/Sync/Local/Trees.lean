import Lumio.Sync.Engine.Local
import Lumio.Protocol.Paths
import Lumio.Lib.Footprint
import Lumio.Fs.Disk
import Mathlib.Data.List.Dedup

/-!
# Trees of entries and the changes between them

A tree gives the entry of each path. A change of one path replaces its entry; the rename of a directory takes along
the entries below it.
-/

namespace Lumio.Sync

open Lumio.Protocol Lumio.Fs

/-! ## Paths below a path -/

theorem descendantSuffix_eq_some {path root : WorkspacePath} {suffix : List Char} :
    descendantSuffix path root = some suffix ↔ path.chars = root.chars ++ '/' :: suffix := by
  unfold descendantSuffix
  split
  · rename_i h
    obtain ⟨other, hother⟩ := pathIsDescendant_iff.mp h
    rw [Option.some.injEq, hother]
    simp
  · rename_i h
    simp only [reduceCtorEq, false_iff]
    exact fun hsuffix => h (pathIsDescendant_iff.mpr ⟨suffix, hsuffix⟩)

theorem relocate_eq_some {source target path moved : WorkspacePath} :
    relocate source target path = some moved ↔ (path = source ∧ moved = target) ∨
      ∃ suffix, path.chars = source.chars ++ '/' :: suffix ∧ moved.chars = target.chars ++ '/' :: suffix := by
  unfold relocate
  by_cases hpath : path = source
  · subst hpath
    simp only [if_true, Option.some.injEq, true_and]
    constructor
    · exact fun h => .inl h.symm
    · rintro (h | ⟨suffix, h, -⟩)
      · exact h.symm
      · have hlength := congrArg List.length h
        simp at hlength
  · simp only [hpath, if_false, false_and, false_or]
    by_cases hbelow : pathIsDescendant path source = true
    · obtain ⟨suffix, hsuffix⟩ := pathIsDescendant_iff.mp hbelow
      rw [if_pos hbelow, parse_eq_some, hsuffix]
      simp only [List.drop_left]
      constructor
      · intro h
        exact ⟨suffix, rfl, h.symm⟩
      · rintro ⟨other, hother, hmoved⟩
        have := List.append_cancel_left hother
        rw [this, hmoved]
    · rw [if_neg hbelow]
      simp only [reduceCtorEq, false_iff]
      rintro ⟨suffix, hsuffix, -⟩
      exact hbelow (pathIsDescendant_iff.mpr ⟨suffix, hsuffix⟩)

/-! ## Trees -/

/-- An entry as the trees have it. -/
structure TreeEntry where
  kind : WorkspaceEntryKind
  contentHash : Option WorkspaceContentHash
  metadata : WorkspaceFileMetadata
deriving DecidableEq

abbrev LiveTree := WorkspacePath → Option TreeEntry

def TreeEntry.SameButTime (a b : TreeEntry) : Prop :=
  a.kind = b.kind ∧ a.contentHash = b.contentHash ∧ a.metadata.size = b.metadata.size ∧
    a.metadata.executable = b.metadata.executable

def liveTree (remote : PathStates) : LiveTree := fun path =>
  ((remote.lookup path).filter (·.kind ≠ .tombstone)).map fun state => ⟨state.kind, state.contentHash, state.metadata⟩

def currentTree (current : List LocalDesiredEntry) : LiveTree := fun path =>
  (current.find? (·.path = path)).map fun entry => ⟨entry.kind, entry.contentHash, entry.metadata⟩

namespace LiveTree

def rename (tree : LiveTree) (source target : WorkspacePath) : LiveTree := fun path =>
  if (tree source).any (·.kind = .directory) then
    ((relocate target source path).bind tree).or
      (if path = source ∨ pathIsDescendant path source then none else tree path)
  else if path = target then tree source
  else if path = source then none
  else tree path

/-- What a change makes of a tree, where the entries that are new or changed are those of `current`. -/
def apply (current tree : LiveTree) : FsChange → LiveTree
  | .create path | .update path => Function.update tree path (current path)
  | .delete path => Function.update tree path none
  | .rename source target => tree.rename source target
  | .rescanRequired => tree

def applyAll (current tree : LiveTree) (changes : List FsChange) : LiveTree := changes.foldl (apply current) tree

/-- Whether a change to a tree is about a path: a rename is about its ends, and that of a directory about the entries
below it and about where they go. -/
def concerns (tree : LiveTree) (change : FsChange) (path : WorkspacePath) : Bool :=
  match change with
  | .create other | .update other | .delete other => path = other
  | .rename source target =>
    path = source || path = target ||
      ((tree source).any (·.kind = .directory) &&
        (pathIsDescendant path source || ((relocate target source path).bind tree).isSome))
  | .rescanRequired => false

end LiveTree

/-! ## Subtrees that match -/

section

variable {remote : PathStates} {current : List LocalDesiredEntry} {source target : WorkspacePath}

variable {state : WorkspacePathState} {path root inner : WorkspacePath} {suffix directory : List Char}

theorem sameRenameIdentity_iff {entry : LocalDesiredEntry} :
    sameRenameIdentity state entry = true ↔ state.kind = entry.kind ∧ state.contentHash = entry.contentHash ∧
      state.metadata.size = entry.metadata.size ∧ state.metadata.executable = entry.metadata.executable := by
  simp [sameRenameIdentity, and_assoc]

theorem mem_orderedStates : (path, state) ∈ orderedStates remote ↔ remote.lookup path = some state := by
  simp only [orderedStates, sortPaths, List.mem_filterMap, List.mem_dedup, List.mem_insertionSort,
    Option.map_eq_some_iff, Prod.mk.injEq]
  constructor
  · rintro ⟨other, -, found, hfound, rfl, rfl⟩
    exact hfound
  · intro h
    exact ⟨path, Table.mem_keys_iff.mpr ⟨state, h⟩, state, h, rfl, rfl⟩

theorem mem_remoteSubtree {subentry : SubtreeEntry} :
    subentry ∈ remoteSubtree root remote ↔ ∃ path state, remote.lookup path = some state ∧
      state.kind ≠ .tombstone ∧ state.tombstone = false ∧ path.chars = root.chars ++ '/' :: subentry.1 ∧
      subentry.2 = (state.kind, state.contentHash, state.metadata.size, state.metadata.executable) := by
  simp only [remoteSubtree, List.mem_filterMap, List.mem_filter, Option.map_eq_some_iff, descendantSuffix_eq_some]
  constructor
  · rintro ⟨⟨path, state⟩, ⟨hmem, hlive⟩, suffix, hsuffix, rfl⟩
    simp only [Bool.and_eq_true, decide_eq_true_eq, Bool.not_eq_true'] at hlive
    exact ⟨path, state, mem_orderedStates.mp hmem, hlive.1, hlive.2, hsuffix, rfl⟩
  · rintro ⟨path, state, hlookup, hkind, htombstone, hsuffix, hrest⟩
    exact ⟨(path, state), ⟨mem_orderedStates.mpr hlookup, by simp [hkind, htombstone]⟩, subentry.1, hsuffix,
      by rw [← hrest]⟩

theorem mem_currentSubtree {subentry : SubtreeEntry} :
    subentry ∈ currentSubtree root current ↔ ∃ entry ∈ current,
      entry.path.chars = root.chars ++ '/' :: subentry.1 ∧
      subentry.2 = (entry.kind, entry.contentHash, entry.metadata.size, entry.metadata.executable) := by
  simp only [currentSubtree, List.mem_filterMap, Option.map_eq_some_iff, descendantSuffix_eq_some]
  constructor
  · rintro ⟨entry, hmem, suffix, hsuffix, rfl⟩
    exact ⟨entry, hmem, hsuffix, rfl⟩
  · rintro ⟨entry, hmem, hsuffix, hrest⟩
    exact ⟨entry, hmem, subentry.1, hsuffix, by rw [← hrest]⟩

theorem exactMatch_forward (h : directorySubtreesExactMatch source target remote current = true)
    (hlookup : remote.lookup path = some state) (hkind : state.kind ≠ .tombstone)
    (htombstone : state.tombstone = false) (hpath : path.chars = source.chars ++ '/' :: suffix) :
    ∃ entry ∈ current, entry.path.chars = target.chars ++ '/' :: suffix ∧ sameRenameIdentity state entry = true := by
  have hmem : (suffix, state.kind, state.contentHash, state.metadata.size, state.metadata.executable) ∈
      remoteSubtree source remote :=
    mem_remoteSubtree.mpr ⟨path, state, hlookup, hkind, htombstone, hpath, rfl⟩
  rw [of_decide_eq_true h] at hmem
  obtain ⟨entry, hentry, hchars, hsame⟩ := mem_currentSubtree.mp hmem
  simp only [Prod.mk.injEq] at hsame
  exact ⟨entry, hentry, hchars, sameRenameIdentity_iff.mpr hsame⟩

theorem exactMatch_backward (h : directorySubtreesExactMatch source target remote current = true)
    {entry : LocalDesiredEntry} (hentry : entry ∈ current) (hpath : entry.path.chars = target.chars ++ '/' :: suffix) :
    ∃ path state, remote.lookup path = some state ∧ state.kind ≠ .tombstone ∧
      path.chars = source.chars ++ '/' :: suffix ∧ sameRenameIdentity state entry = true := by
  have hmem : (suffix, entry.kind, entry.contentHash, entry.metadata.size, entry.metadata.executable) ∈
      currentSubtree target current :=
    mem_currentSubtree.mpr ⟨entry, hentry, hpath, rfl⟩
  rw [← of_decide_eq_true h] at hmem
  obtain ⟨path, state, hlookup, hkind, -, hchars, hsame⟩ := mem_remoteSubtree.mp hmem
  simp only [Prod.mk.injEq] at hsame
  obtain ⟨hk, hh, hs, he⟩ := hsame
  exact ⟨path, state, hlookup, hkind, hchars, sameRenameIdentity_iff.mpr ⟨hk.symm, hh.symm, hs.symm, he.symm⟩⟩

def suffixBelow (directory suffix : List Char) : Option (List Char) :=
  if (directory ++ ['/']).isPrefixOf suffix then some (suffix.drop (directory.length + 1)) else none

theorem suffixBelow_eq_some {rest : List Char} :
    suffixBelow directory suffix = some rest ↔ suffix = directory ++ '/' :: rest := by
  unfold suffixBelow
  split
  · rename_i h
    obtain ⟨other, hother⟩ := List.isPrefixOf_iff_prefix.mp h
    rw [Option.some.injEq, ← hother]
    simp
  · rename_i h
    simp only [reduceCtorEq, false_iff]
    rintro rfl
    exact h (List.isPrefixOf_iff_prefix.mpr ⟨rest, by simp⟩)

theorem descendantSuffix_nested (h : inner.chars = root.chars ++ '/' :: directory) :
    descendantSuffix path inner = (descendantSuffix path root).bind (suffixBelow directory) := by
  ext rest
  rw [descendantSuffix_eq_some, h, Option.bind_eq_some_iff]
  constructor
  · intro hpath
    exact ⟨directory ++ '/' :: rest, descendantSuffix_eq_some.mpr (by simpa using hpath),
      suffixBelow_eq_some.mpr rfl⟩
  · rintro ⟨suffix, hsuffix, hrest⟩
    rw [descendantSuffix_eq_some.mp hsuffix, suffixBelow_eq_some.mp hrest]
    simp

def narrow (directory : List Char) (subentry : SubtreeEntry) : Option SubtreeEntry :=
  (suffixBelow directory subentry.1).map (·, subentry.2)

theorem remoteSubtree_nested (h : inner.chars = root.chars ++ '/' :: directory) :
    remoteSubtree inner remote = (remoteSubtree root remote).filterMap (narrow directory) := by
  simp only [remoteSubtree, List.filterMap_filterMap]
  congr 1
  funext ⟨path, state⟩
  rw [descendantSuffix_nested h]
  cases descendantSuffix path root <;> rfl

theorem currentSubtree_nested (h : inner.chars = root.chars ++ '/' :: directory) :
    currentSubtree inner current = (currentSubtree root current).filterMap (narrow directory) := by
  simp only [currentSubtree, List.filterMap_filterMap]
  congr 1
  funext entry
  rw [descendantSuffix_nested h]
  cases descendantSuffix entry.path root <;> rfl

theorem exactMatch_nested (h : directorySubtreesExactMatch source target remote current = true)
    {innerSource innerTarget : WorkspacePath} (hsource : innerSource.chars = source.chars ++ '/' :: directory)
    (htarget : innerTarget.chars = target.chars ++ '/' :: directory) :
    directorySubtreesExactMatch innerSource innerTarget remote current = true := by
  apply decide_eq_true
  rw [remoteSubtree_nested hsource, currentSubtree_nested htarget, of_decide_eq_true h]

end

end Lumio.Sync
