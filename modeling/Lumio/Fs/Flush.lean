import Lumio.Fs.Capacity

/-!
# What a flush leaves behind

Of the four buffers a flush takes exactly the entries that have been quiet for their window.
-/

namespace Lumio.Fs

open Lumio.Protocol Prog

namespace EventCoalescer

def renameBuffers (self : EventCoalescer) :=
  (self.cookieHalves, self.unmatchedRenames, self.directRenames, self.debounce, self.rename)

/-- Of the buffers only the pending entries of some paths are gone. -/
def Without (paths : List WorkspacePath) (before after : EventCoalescer) : Prop :=
  after.renameBuffers = before.renameBuffers ∧
    ∀ path, after.pending.lookup path = if path ∈ paths then none else before.pending.lookup path

variable {now : Instant} {prior : PriorEntryLookup}

theorem Without.refl (self : EventCoalescer) : Without [] self self := ⟨rfl, fun _ => (if_neg List.not_mem_nil).symm⟩

theorem Without.trans {a b c : EventCoalescer} {paths rest : List WorkspacePath} (hab : Without paths a b)
    (hbc : Without rest b c) : Without (paths ++ rest) a c := by
  refine ⟨hbc.1.trans hab.1, fun path => ?_⟩
  rw [hbc.2, hab.2]
  by_cases hpaths : path ∈ paths <;> by_cases hrest : path ∈ rest <;> simp [hpaths, hrest]

theorem isSuppressed_keeps (path : WorkspacePath) : Yields (Without []) (isSuppressed path now prior) := by
  intro self
  simp only [isSuppressed, wp_bind, wp_get]
  split
  · exact .refl _
  split
  · exact ⟨rfl, (Without.refl self).2⟩
  split
  · exact .refl _
  split
  · exact .refl _
  split
  · split <;> exact .refl _
  · exact .refl _

theorem release_keeps (paths : List WorkspacePath) : Yields (Without []) (release paths) :=
  .modify fun self => ⟨rfl, (Without.refl self).2⟩

theorem flushRename_keeps (paths : List WorkspacePath) (changes : Changes) (source target : WorkspacePath) :
    Yields (Without []) (flushRename now prior paths changes source target) := by
  have hsuppressed : Yields (Without []) (bothSuppressed source target now prior) := by
    refine .bind Without.trans (isSuppressed_keeps source) fun suppressed => ?_
    split
    · exact isSuppressed_keeps target
    · exact .pure Without.refl _
  refine .bind Without.trans (release_keeps paths) fun _ => ?_
  refine .bind Without.trans hsuppressed fun suppressed => ?_
  split <;> exact .pure Without.refl _

theorem flushHalf_keeps (change : WorkspacePath → FsChange) (changes : Changes) (half : RenameHalf) :
    Yields (Without []) (flushHalf now prior change changes half) := by
  refine .bind Without.trans (release_keeps _) fun _ => ?_
  refine .bind Without.trans (isSuppressed_keeps half.path) fun suppressed => ?_
  split <;> exact .pure Without.refl _

theorem flushTaken_keeps (window : Nat) (changes : Changes) (halves : List RenameHalf) :
    Yields (Without []) (flushTaken now prior window changes halves) := by
  have hhalves : ∀ (change : WorkspacePath → FsChange) (changes : Changes) (halves : List RenameHalf),
      Yields (Without []) (halves.foldlM (flushHalf now prior change) changes) := fun change changes halves =>
    .foldlM Without.refl Without.trans fun changes half _ => flushHalf_keeps change changes half
  refine .bind Without.trans (.foldlM Without.refl Without.trans fun changes pair _ => ?_) fun changes =>
    .bind Without.trans (hhalves _ _ _) fun changes => hhalves _ _ _
  unfold flushPair
  split
  · exact flushRename_keeps _ changes _ _
  · exact .pure Without.refl _

theorem flushPath_without (changes : Changes) (path : WorkspacePath) :
    Yields (Without [path]) (flushPath now prior changes path) := by
  intro self
  simp only [flushPath, wp_bind, wp_get]
  split
  · rename_i hnone
    refine ⟨rfl, fun other => ?_⟩
    obtain rfl | hother := eq_or_ne other path
    · simp [hnone]
    · simp [hother]
  have herase : Without [path] self { self with pending := self.pending.erase path } := by
    refine ⟨rfl, fun other => ?_⟩
    obtain rfl | hother := eq_or_ne other path
    · simp
    · simp [hother]
  simp only [wp_bind, wp_set]
  refine (release_keeps [path]).wp_bind fun _ t ht => (isSuppressed_keeps path).wp_bind fun _ u hu => ?_
  split <;> exact (herase.trans ht).trans hu

theorem flushPaths_without : ∀ (paths : List WorkspacePath) (changes : Changes),
    Yields (Without paths) (paths.foldlM (flushPath now prior) changes)
  | [], _ => .pure Without.refl _
  | path :: paths, changes => fun self => by
    rw [List.foldlM_cons]
    refine (flushPath_without changes path).wp_bind fun changes t ht => ?_
    exact wp_mono (flushPaths_without paths changes t) (fun _ _ hu => ht.trans hu) fun _ _ h => h

structure Leaves (now : Instant) (before after : EventCoalescer) : Prop where
  pending : ∀ path pending, after.pending.lookup path = some pending ↔
    before.pending.lookup path = some pending ∧ ready now pending.lastSeen before.debounce = false
  cookieHalves : after.cookieHalves =
    before.cookieHalves.keep fun _ half => !ready now half.observedAt before.rename
  unmatchedRenames : after.unmatchedRenames =
    before.unmatchedRenames.filter fun half => !ready now half.observedAt before.rename
  directRenames : after.directRenames =
    before.directRenames.filter fun rename => !ready now rename.observedAt before.debounce

theorem mem_readyPaths_iff {self : EventCoalescer} {path : WorkspacePath} {pending : PendingPath}
    (h : self.pending.lookup path = some pending) :
    path ∈ self.readyPaths now ↔ ready now pending.lastSeen self.debounce = true := by
  refine ⟨fun hmem => ?_, mem_readyPaths h⟩
  have hready := (List.mem_filter.mp ((List.mem_insertionSort _).mp hmem)).2
  rwa [h] at hready

theorem flushBuffers_leaves (self : EventCoalescer) :
    wp (flushBuffers now prior) (fun _ => Leaves now self) (fun _ _ => False) self := by
  simp only [flushBuffers, wp_bind, wp_get]
  refine wp_mono (flushPaths_without (self.readyPaths now) ∅ self) (fun changes t ht => ?_) fun _ _ h => h
  simp only [flushHalves, takeHalves, wp_bind, wp_get, wp_set, wp_pure]
  refine wp_mono (flushTaken_keeps t.rename changes (t.readyHalves now) _) (fun changes u hu => ?_) fun _ _ h => h
  simp only [flushDirect, wp_bind, wp_get, wp_set]
  have hfold : ∀ raw, Yields (Without []) ((collapseRenames (u.readyRenames now)).foldlM
      (flushCollapsed now prior raw) changes) := fun raw =>
    .foldlM Without.refl Without.trans fun changes rename _ => flushRename_keeps _ changes _ _
  refine wp_mono (hfold _ _) (fun _ after hafter => ?_) fun _ _ h => h
  have hpending : ∀ path, after.pending.lookup path = if path ∈ self.readyPaths now then none
      else self.pending.lookup path := fun path => by
    rw [hafter.2, if_neg List.not_mem_nil, hu.2, if_neg List.not_mem_nil, ht.2]
  have hfirst := ht.1
  have hsecond := hu.1
  have hthird := hafter.1
  simp only [renameBuffers, Prod.mk.injEq] at hfirst hsecond hthird
  obtain ⟨hcookies, hunmatched, hdirect, hdebounce, hwindow⟩ := hfirst
  constructor
  case pending =>
    intro path pending
    rw [hpending]
    split
    · rename_i hmem
      constructor
      · intro hnone
        cases hnone
      · rintro ⟨hlookup, hready⟩
        rw [(mem_readyPaths_iff hlookup).mp hmem] at hready
        cases hready
    · rename_i hmem
      refine ⟨fun hlookup => ⟨hlookup, ?_⟩, And.left⟩
      exact Bool.eq_false_iff.mpr fun hready => hmem ((mem_readyPaths_iff hlookup).mpr hready)
  case cookieHalves => rw [hthird.1, hsecond.1, hcookies, hwindow]
  case unmatchedRenames => rw [hthird.2.1, hsecond.2.1, hunmatched, hwindow]
  case directRenames =>
    rw [hthird.2.2.1, hsecond.2.2.1, hsecond.2.2.2.1, hdirect, hdebounce]

/-- After a flush a path is held exactly if some entry that names it has not been quiet for its window, and nothing is held
after a flush that asks for a rescan. -/
theorem flush_leaves_waiting (now : Instant) (prior : PriorEntryLookup) (self : EventCoalescer) :
    ∃ changes after, flushReady now prior self = .ok changes after ∧
      ∀ path, path ∈ after.held ↔ self.rescanRequired = false ∧ self.WaitsAt now path := by
  apply exists_ok_of_wp
  simp only [flushReady, pruneSuppressions, wp_bind, wp_modify, wp_get]
  split
  · rename_i hscan
    intro path
    simp [EventCoalescer.held, renamePaths, Table.values, hscan]
  rename_i hscan
  have hidle : self.rescanRequired = false := Bool.not_eq_true _ ▸ hscan
  refine wp_seq (flushBuffers_leaves _) fun _ after h path => ?_
  simp only [mem_held, mem_renamePaths, WaitsAt, h.pending, h.cookieHalves, h.unmatchedRenames, h.directRenames,
    Table.lookup_keep, List.mem_filter, Bool.not_eq_true', hidle, true_and, and_assoc]
  grind

end EventCoalescer

end Lumio.Fs
