import Lumio.Fs.Coalesce
import Mathlib.Logic.Relation

/-!
# The bound on what the coalescer holds

Paths are reserved before they enter a buffer and released when an entry that names them leaves one. The
reservations stay below the capacity whatever happens. The buffers stay within the reservations only as
long as no path is released that another entry still names.
-/

namespace Lumio.Fs

open Lumio.Protocol Prog

namespace EventCoalescer

/-! ## The invariant -/

def renamePaths (self : EventCoalescer) : List WorkspacePath :=
  self.cookieHalves.values.map (·.path) ++ self.unmatchedRenames.map (·.path) ++
    self.directRenames.map (·.source) ++ self.directRenames.map (·.target)

def held (self : EventCoalescer) : List WorkspacePath := self.pending.keys ++ self.renamePaths

structure Bounded (state : EventCoalescer) : Prop where
  reserved : state.occupied.card + state.suppressions.entries.length ≤ state.capacity
  renames : state.cookieHalves.entries.length + state.unmatchedRenames.length + state.directRenames.length ≤
    state.capacity

structure Reserved (state : EventCoalescer) : Prop extends Bounded state where
  held : ∀ path ∈ state.held, path ∈ state.occupied

variable {path : WorkspacePath} {self : EventCoalescer} {released : List WorkspacePath} {kind : NativeWatchKind}
  {half : RenameHalf}

theorem mem_renamePaths :
    path ∈ self.renamePaths ↔ (∃ cookie half, self.cookieHalves.lookup cookie = some half ∧ half.path = path) ∨
      (∃ half ∈ self.unmatchedRenames, half.path = path) ∨
      ∃ rename ∈ self.directRenames, rename.source = path ∨ rename.target = path := by
  simp only [renamePaths, List.mem_append, List.mem_map, Table.mem_values_iff]
  constructor
  · rintro (((⟨half, ⟨cookie, hlookup⟩, rfl⟩ | ⟨half, hmem, rfl⟩) | ⟨rename, hmem, rfl⟩) | ⟨rename, hmem, rfl⟩)
    · exact .inl ⟨cookie, half, hlookup, rfl⟩
    · exact .inr (.inl ⟨half, hmem, rfl⟩)
    · exact .inr (.inr ⟨rename, hmem, .inl rfl⟩)
    · exact .inr (.inr ⟨rename, hmem, .inr rfl⟩)
  · rintro (⟨cookie, half, hlookup, rfl⟩ | ⟨half, hmem, rfl⟩ | ⟨rename, hmem, rfl | rfl⟩)
    · exact .inl (.inl (.inl ⟨half, ⟨cookie, hlookup⟩, rfl⟩))
    · exact .inl (.inl (.inr ⟨half, hmem, rfl⟩))
    · exact .inl (.inr ⟨rename, hmem, rfl⟩)
    · exact .inr ⟨rename, hmem, rfl⟩

theorem mem_held :
    path ∈ self.held ↔ (∃ pending, self.pending.lookup path = some pending) ∨ path ∈ self.renamePaths := by
  rw [held, List.mem_append, Table.mem_keys_iff]

/-! ## Draining the buffers -/

/-- Entries leave the buffers, and of the reservations only those of `released` are given up. -/
structure Drains (released : List WorkspacePath) (before after : EventCoalescer) : Prop where
  capacity : after.capacity = before.capacity
  debounce : after.debounce = before.debounce
  rename : after.rename = before.rename
  occupied_subset : after.occupied ⊆ before.occupied
  occupied : ∀ path ∈ before.occupied, path ∉ released → path ∈ after.occupied
  suppressions : after.suppressions.entries.length ≤ before.suppressions.entries.length
  pending : ∀ {path pending}, after.pending.lookup path = some pending → before.pending.lookup path = some pending
  cookies : ∀ {cookie half}, after.cookieHalves.lookup cookie = some half → before.cookieHalves.lookup cookie = some half
  cookiesLength : after.cookieHalves.entries.length ≤ before.cookieHalves.entries.length
  unmatched : after.unmatchedRenames.Sublist before.unmatchedRenames
  direct : after.directRenames = before.directRenames

theorem Drains.refl (released : List WorkspacePath) (self : EventCoalescer) : Drains released self self :=
  ⟨rfl, rfl, rfl, Finset.Subset.refl _, fun _ h _ => h, le_rfl, id, id, le_rfl, .refl _, rfl⟩

theorem Drains.trans {a b c : EventCoalescer} (hab : Drains released a b) (hbc : Drains released b c) :
    Drains released a c where
  capacity := hbc.capacity.trans hab.capacity
  debounce := hbc.debounce.trans hab.debounce
  rename := hbc.rename.trans hab.rename
  occupied_subset := hbc.occupied_subset.trans hab.occupied_subset
  occupied := fun path hpath hfree => hbc.occupied path (hab.occupied path hpath hfree) hfree
  suppressions := hbc.suppressions.trans hab.suppressions
  pending := fun h => hab.pending (hbc.pending h)
  cookies := fun h => hab.cookies (hbc.cookies h)
  cookiesLength := hbc.cookiesLength.trans hab.cookiesLength
  unmatched := hbc.unmatched.trans hab.unmatched
  direct := hbc.direct.trans hab.direct

theorem Drains.foldlM {α β : Type} {f : β → α → CoalesceM β} {xs : List α} {b : β}
    (h : ∀ b, ∀ x ∈ xs, Yields (Drains released) (f b x)) : Yields (Drains released) (xs.foldlM f b) :=
  Yields.foldlM (Drains.refl released) Drains.trans h

theorem Drains.bounded {before after : EventCoalescer} (h : Drains released before after) (hbefore : Bounded before) :
    Bounded after where
  reserved := by
    have hcard := Finset.card_le_card h.occupied_subset
    have hlength := h.suppressions
    have hbound := hbefore.reserved
    rw [h.capacity]
    omega
  renames := by
    have hcookies := h.cookiesLength
    have hunmatched := h.unmatched.length_le
    have hdirect := congrArg List.length h.direct
    have hbound := hbefore.renames
    rw [h.capacity]
    omega

section Flush

variable {now : Instant} {prior : PriorEntryLookup} {released : List WorkspacePath}

variable {self after before : EventCoalescer} {half : RenameHalf} {path : WorkspacePath}

theorem drains_suppressions {suppressions : Table WorkspacePath Suppression}
    (h : suppressions.entries.length ≤ self.suppressions.entries.length) :
    Drains released self { self with suppressions } :=
  ⟨rfl, rfl, rfl, Finset.Subset.refl _, fun _ h _ => h, h, id, id, le_rfl, .refl _, rfl⟩

theorem isSuppressed_drains (path : WorkspacePath) : Yields (Drains released) (isSuppressed path now prior) := by
  intro self
  simp only [isSuppressed, wp_bind, wp_get]
  split
  · exact .refl _ _
  split
  · apply drains_suppressions
    exact Table.length_erase_le
  split
  · exact .refl _ _
  split
  · exact .refl _ _
  split
  · split <;> exact .refl _ _
  · exact .refl _ _

theorem release_drains {paths : List WorkspacePath} (h : ∀ path ∈ paths, path ∈ released) :
    Yields (Drains released) (release paths) := by
  apply Yields.modify
  intro self
  refine ⟨rfl, rfl, rfl, Finset.sdiff_subset, ?_, le_rfl, id, id, le_rfl, .refl _, rfl⟩
  intro path hpath hfree
  rw [Finset.mem_sdiff, List.mem_toFinset]
  exact ⟨hpath, fun hmem => hfree (h path hmem)⟩

theorem drains_erase (self : EventCoalescer) (path : WorkspacePath) :
    Drains released self { self with pending := self.pending.erase path } := by
  refine ⟨rfl, rfl, rfl, Finset.Subset.refl _, fun _ h _ => h, le_rfl, ?_, id, le_rfl, .refl _, rfl⟩
  exact fun hother => (Table.lookup_erase_iff.mp hother).2

theorem flushRename_drains {paths : List WorkspacePath} (h : ∀ path ∈ paths, path ∈ released) (changes : Changes)
    (source target : WorkspacePath) : Yields (Drains released) (flushRename now prior paths changes source target) := by
  have hsuppressed : Yields (Drains released) (bothSuppressed source target now prior) := by
    refine Yields.bind Drains.trans (isSuppressed_drains source) fun suppressed => ?_
    split
    · exact isSuppressed_drains target
    · exact .pure (.refl _) _
  refine Yields.bind Drains.trans (release_drains h) fun _ => ?_
  refine Yields.bind Drains.trans hsuppressed fun suppressed => ?_
  split <;> exact .pure (.refl _) _

theorem flushHalf_drains (h : half.path ∈ released) (change : WorkspacePath → FsChange) (changes : Changes) :
    Yields (Drains released) (flushHalf now prior change changes half) := by
  unfold flushHalf
  refine Yields.bind Drains.trans (release_drains (by simpa using h)) fun _ => ?_
  refine Yields.bind Drains.trans (isSuppressed_drains half.path) fun suppressed => ?_
  split <;> exact .pure (.refl _) _

/-! ## The stages of a flush -/

theorem flushPath_spec (h : path ∈ released) (changes : Changes) (self : EventCoalescer) :
    wp (flushPath now prior changes path)
      (fun _ after => Drains released self after ∧ after.pending.lookup path = none) (fun _ _ => False) self := by
  simp only [flushPath, wp_bind, wp_get]
  split
  · rename_i hnone
    exact ⟨.refl _ _, hnone⟩
  have hrelease : Yields (Drains released) (release [path]) := release_drains (by simpa using h)
  have hsuppressed : Yields (Drains released) (isSuppressed path now prior) := isSuppressed_drains path
  simp only [wp_bind, wp_set]
  refine wp_mono (hrelease _) ?_ fun _ _ h => h
  intro _ t ht
  refine hsuppressed.wp_bind fun suppressed u hu => ?_
  have hgone : u.pending.lookup path = none := by
    cases hlookup : u.pending.lookup path with
    | none => rfl
    | some pending =>
      have := ht.pending (hu.pending hlookup)
      simp at this
  split <;> exact ⟨((drains_erase self path).trans ht).trans hu, hgone⟩

theorem flushPaths_spec : ∀ {paths : List WorkspacePath} (_ : ∀ path ∈ paths, path ∈ released) (changes : Changes)
    (self : EventCoalescer), wp (paths.foldlM (flushPath now prior) changes)
      (fun _ after => Drains released self after ∧ ∀ path ∈ paths, after.pending.lookup path = none)
      (fun _ _ => False) self
  | [], _, _, self => ⟨.refl _ self, by simp⟩
  | path :: paths, h, changes, self => by
    rw [List.foldlM_cons]
    refine wp_seq (flushPath_spec (h path (by simp)) changes self) ?_
    rintro changes' t ⟨ht, hgone⟩
    refine wp_mono (flushPaths_spec (fun other hother => h other (by simp [hother])) changes' t) ?_ fun _ _ h => h
    rintro _ u ⟨hu, hpaths⟩
    refine ⟨ht.trans hu, ?_⟩
    intro other hother
    rcases List.mem_cons.mp hother with rfl | hrest
    · cases hlookup : u.pending.lookup other with
      | none => rfl
      | some pending => rw [hu.pending hlookup] at hgone; cases hgone
    · exact hpaths other hrest

def HalvesWait (now : Instant) (self : EventCoalescer) : Prop :=
  (∀ {cookie half}, self.cookieHalves.lookup cookie = some half → ready now half.observedAt self.rename = false) ∧
    ∀ half ∈ self.unmatchedRenames, ready now half.observedAt self.rename = false

theorem HalvesWait.drains (h : HalvesWait now before) (hdrains : Drains released before after) :
    HalvesWait now after := by
  constructor
  · intro cookie half hlookup
    rw [hdrains.rename]
    exact h.1 (hdrains.cookies hlookup)
  · intro half hmem
    rw [hdrains.rename]
    exact h.2 half (hdrains.unmatched.subset hmem)

theorem takeHalves_spec (self : EventCoalescer) :
    wp (takeHalves now) (fun halves after => halves = self.readyHalves now ∧ Drains released self after ∧
      HalvesWait now after) (fun _ _ => False) self := by
  simp only [takeHalves, wp_bind, wp_get, wp_set, wp_pure]
  refine ⟨trivial, ⟨rfl, rfl, rfl, Finset.Subset.refl _, fun _ h _ => h, le_rfl, id, ?_, ?_, List.filter_sublist, rfl⟩,
    ?_, ?_⟩
  · exact fun hlookup => (Table.lookup_keep.mp hlookup).1
  · exact List.length_filter_le _ _
  · intro cookie half hlookup
    simpa using (Table.lookup_keep.mp hlookup).2
  · intro half hmem
    simpa using (List.mem_filter.mp hmem).2

theorem mem_of_mem_unpaired {halves : List RenameHalf} {paired : List Nat} (h : half ∈ unpaired halves paired) :
    half ∈ halves := by
  obtain ⟨⟨other, index⟩, hmem, rfl⟩ := List.mem_map.mp h
  exact List.fst_mem_of_mem_zipIdx (List.mem_filter.mp hmem).1

theorem flushTaken_drains {halves : List RenameHalf} (h : ∀ half ∈ halves, half.path ∈ released) (window : Nat)
    (changes : Changes) : Yields (Drains released) (flushTaken now prior window changes halves) := by
  have hkind : ∀ {kind : NativeWatchKind}, ∀ half ∈ halves.filter (·.kind = kind), half.path ∈ released :=
    fun half hhalf => h half (List.mem_filter.mp hhalf).1
  refine Yields.bind Drains.trans (Drains.foldlM ?_) fun changes => ?_
  · intro changes pair _
    unfold flushPair
    split
    · rename_i source target hsource htarget
      apply flushRename_drains
      intro path hpath
      rcases List.mem_pair.mp hpath with rfl | rfl
      · exact hkind _ (List.mem_of_getElem? hsource)
      · exact hkind _ (List.mem_of_getElem? htarget)
    · exact .pure (.refl _) _
  refine Yields.bind Drains.trans (Drains.foldlM ?_) fun changes => Drains.foldlM ?_
  · exact fun changes half hhalf => flushHalf_drains (hkind half (mem_of_mem_unpaired hhalf)) _ changes
  · exact fun changes half hhalf => flushHalf_drains (hkind half (mem_of_mem_unpaired hhalf)) _ changes

theorem flushHalves_spec (self : EventCoalescer) (h : ∀ half ∈ self.readyHalves now, half.path ∈ released)
    (changes : Changes) :
    wp (flushHalves now prior changes) (fun _ after => Drains released self after ∧ HalvesWait now after)
      (fun _ _ => False) self := by
  have htake : wp (takeHalves now) (fun halves after => halves = self.readyHalves now ∧ Drains released self after ∧
      HalvesWait now after) (fun _ _ => False) self := takeHalves_spec self
  simp only [flushHalves, wp_bind, wp_get]
  refine wp_mono htake ?_ fun _ _ h => h
  rintro halves t ⟨rfl, ht, hwait⟩
  have hflush : Yields (Drains released) (flushTaken now prior self.rename changes (self.readyHalves now)) :=
    flushTaken_drains h self.rename changes
  exact wp_mono (hflush t) (fun _ u hu => ⟨ht.trans hu, hwait.drains hu⟩) fun _ _ h => h

theorem mem_joinChains {source target : WorkspacePath} : ∀ {fuel : Nat} {renames : List (WorkspacePath × WorkspacePath)},
    (source, target) ∈ joinChains fuel renames → source ∈ renames.map (·.1) ∧ target ∈ renames.map (·.2)
  | 0, renames, h => ⟨List.mem_map_of_mem h, List.mem_map_of_mem h⟩
  | fuel + 1, renames, h => by
    unfold joinChains at h
    split at h
    · exact ⟨List.mem_map_of_mem h, List.mem_map_of_mem h⟩
    split at h
    · rename_i left right _ _ _ first _ _ last hleft hright
      have hold : ∀ other ∈ (renames.set left (first, last)).eraseIdx right,
          other.1 ∈ renames.map (·.1) ∧ other.2 ∈ renames.map (·.2) := by
        intro other hother
        rcases List.mem_or_eq_of_mem_set (List.mem_of_mem_eraseIdx hother) with hmem | rfl
        · exact ⟨List.mem_map_of_mem hmem, List.mem_map_of_mem hmem⟩
        · exact ⟨List.mem_map.mpr ⟨_, List.mem_of_getElem? hleft, rfl⟩,
            List.mem_map.mpr ⟨_, List.mem_of_getElem? hright, rfl⟩⟩
      obtain ⟨hsource, htarget⟩ := mem_joinChains h
      obtain ⟨other, hother, rfl⟩ := List.mem_map.mp hsource
      obtain ⟨other', hother', rfl⟩ := List.mem_map.mp htarget
      exact ⟨(hold other hother).1, (hold other' hother').2⟩
    · exact ⟨List.mem_map_of_mem h, List.mem_map_of_mem h⟩

theorem mem_collapseRenames {renames : List (WorkspacePath × WorkspacePath)} {rename : WorkspacePath × WorkspacePath}
    (h : rename ∈ collapseRenames renames) : rename.1 ∈ endsOf renames ∧ rename.2 ∈ endsOf renames := by
  have hmem := List.destutter_sublist _ _ |>.subset (List.mem_filter.mp h).1
  obtain ⟨hsource, htarget⟩ := mem_joinChains (List.mem_insertionSort _ |>.mp hmem)
  exact ⟨List.mem_append_left _ hsource, List.mem_append_right _ htarget⟩

def withoutReadyRenames (self : EventCoalescer) (now : Instant) : EventCoalescer :=
  { self with directRenames := self.directRenames.filter fun rename => !ready now rename.observedAt self.debounce }

theorem flushDirect_spec (self : EventCoalescer)
    (h : collapseRenames (self.readyRenames now) ≠ [] → ∀ path ∈ endsOf (self.readyRenames now), path ∈ released)
    (changes : Changes) :
    wp (flushDirect now prior changes) (fun _ after => Drains released (self.withoutReadyRenames now) after)
      (fun _ _ => False) self := by
  have hfold : Yields (Drains released) ((collapseRenames (self.readyRenames now)).foldlM
      (flushCollapsed now prior (endsOf (self.readyRenames now))) changes) := by
    apply Drains.foldlM
    intro changes rename hrename
    have hends := h (List.ne_nil_of_mem hrename)
    obtain ⟨hsource, htarget⟩ := mem_collapseRenames hrename
    apply flushRename_drains
    intro path hpath
    rcases List.mem_cons.mp hpath with rfl | hpath
    · exact hends _ hsource
    rcases List.mem_cons.mp hpath with rfl | hpath
    · exact hends _ htarget
    · exact hends _ hpath
  simp only [flushDirect, wp_bind, wp_get, wp_set]
  exact hfold _

/-! ## A whole flush -/

def releasedAt (self : EventCoalescer) (now : Instant) : List WorkspacePath :=
  self.readyPaths now ++ (self.readyHalves now).map (·.path) ++
    if collapseRenames (self.readyRenames now) = [] then [] else endsOf (self.readyRenames now)

/-- The path is named by an entry that a flush leaves in its buffer. -/
def WaitsAt (self : EventCoalescer) (now : Instant) (path : WorkspacePath) : Prop :=
  (∃ pending, self.pending.lookup path = some pending ∧ ready now pending.lastSeen self.debounce = false) ∨
    (∃ cookie half, self.cookieHalves.lookup cookie = some half ∧ half.path = path ∧
      ready now half.observedAt self.rename = false) ∨
    (∃ half ∈ self.unmatchedRenames, half.path = path ∧ ready now half.observedAt self.rename = false) ∨
    ∃ rename ∈ self.directRenames, (rename.source = path ∨ rename.target = path) ∧
      ready now rename.observedAt self.debounce = false

theorem mem_readyPaths {pending : PendingPath} (hlookup : self.pending.lookup path = some pending)
    (hready : ready now pending.lastSeen self.debounce = true) : path ∈ self.readyPaths now := by
  apply (List.mem_insertionSort _).mpr
  rw [List.mem_filter]
  exact ⟨Table.mem_keys_iff.mpr ⟨pending, hlookup⟩, by simpa [hlookup] using hready⟩

theorem clearPending_reserved (h : Bounded self) (rescan : Bool) :
    Reserved { self with
      pending := ∅, occupied := ∅, cookieHalves := ∅, unmatchedRenames := [], directRenames := [],
      rescanRequired := rescan } where
  reserved := by
    have := h.reserved
    simp only [Finset.card_empty]
    omega
  renames := by simp
  held := by simp [EventCoalescer.held, renamePaths, Table.values]

theorem readyHalves_of_drains (h : Drains released before after) (hhalf : half ∈ after.readyHalves now) :
    half ∈ before.readyHalves now := by
  obtain ⟨hmem, hready⟩ := List.mem_filter.mp hhalf
  rw [h.rename] at hready
  refine List.mem_filter.mpr ⟨?_, hready⟩
  rcases List.mem_append.mp hmem with hcookie | hunmatched
  · obtain ⟨cookie, hlookup⟩ := Table.mem_values_iff.mp hcookie
    exact List.mem_append_left _ (Table.mem_values_iff.mpr ⟨cookie, h.cookies hlookup⟩)
  · exact List.mem_append_right _ (h.unmatched.subset hunmatched)

theorem waitsAt_of_held {middle : EventCoalescer} (hfirst : Drains released before middle)
    (hpending : ∀ path ∈ before.readyPaths now, middle.pending.lookup path = none) (hhalves : HalvesWait now middle)
    (hlast : Drains released (middle.withoutReadyRenames now) after) (h : path ∈ after.held) :
    before.WaitsAt now path := by
  have hstart : HalvesWait now (middle.withoutReadyRenames now) := hhalves
  have hwait : HalvesWait now after := hstart.drains hlast
  rcases mem_held.mp h with ⟨pending, hlookup⟩ | hrename
  · have hmiddle : middle.pending.lookup path = some pending := hlast.pending hlookup
    have hbefore := hfirst.pending hmiddle
    refine .inl ⟨pending, hbefore, Bool.eq_false_iff.mpr fun hready => ?_⟩
    rw [hpending path (mem_readyPaths hbefore hready)] at hmiddle
    cases hmiddle
  have hwindow : after.rename = before.rename := hlast.rename.trans hfirst.rename
  rcases mem_renamePaths.mp hrename with ⟨cookie, half, hlookup, rfl⟩ | ⟨half, hmem, rfl⟩ | ⟨rename, hmem, hends⟩
  · exact .inr (.inl ⟨cookie, half, hfirst.cookies (hlast.cookies hlookup), rfl, hwindow ▸ hwait.1 hlookup⟩)
  · exact .inr (.inr (.inl ⟨half, hfirst.unmatched.subset (hlast.unmatched.subset hmem), rfl, hwindow ▸ hwait.2 half hmem⟩))
  · rw [hlast.direct] at hmem
    obtain ⟨hmem, hready⟩ := List.mem_filter.mp hmem
    rw [hfirst.direct] at hmem
    rw [hfirst.debounce] at hready
    exact .inr (.inr (.inr ⟨rename, hmem, hends, by simpa using hready⟩))

theorem held_of_waitsAt (h : self.WaitsAt now path) : path ∈ self.held := by
  rcases h with ⟨pending, hlookup, -⟩ | ⟨cookie, half, hlookup, hpath, -⟩ | ⟨half, hmem, hpath, -⟩ | ⟨rename, hmem, hends, -⟩
  · exact mem_held.mpr (.inl ⟨pending, hlookup⟩)
  · exact mem_held.mpr (.inr (mem_renamePaths.mpr (.inl ⟨cookie, half, hlookup, hpath⟩)))
  · exact mem_held.mpr (.inr (mem_renamePaths.mpr (.inr (.inl ⟨half, hmem, hpath⟩))))
  · exact mem_held.mpr (.inr (mem_renamePaths.mpr (.inr (.inr ⟨rename, hmem, hends⟩))))

theorem withoutReadyRenames_bounded (h : Bounded self) : Bounded (self.withoutReadyRenames now) where
  reserved := h.reserved
  renames := by
    have hlength : (self.withoutReadyRenames now).directRenames.length ≤ self.directRenames.length :=
      List.length_filter_le _ _
    have := h.renames
    simp only [withoutReadyRenames] at hlength ⊢
    omega

theorem flushBuffers_reserved (h : Reserved self) (hfree : ∀ path ∈ self.releasedAt now, ¬self.WaitsAt now path) :
    wp (flushBuffers now prior) (fun _ => Reserved) (fun _ _ => False) self := by
  have hreadyPaths : ∀ path ∈ self.readyPaths now, path ∈ self.releasedAt now := fun path hpath =>
    List.mem_append_left _ (List.mem_append_left _ hpath)
  simp only [flushBuffers, wp_bind, wp_get]
  refine wp_mono (flushPaths_spec hreadyPaths ∅ self) ?_ fun _ _ h => h
  rintro changes t ⟨ht, hpending⟩
  have hreadyHalves : ∀ half ∈ t.readyHalves now, half.path ∈ self.releasedAt now := fun half hhalf =>
    List.mem_append_left _ (List.mem_append_right _ (List.mem_map_of_mem (readyHalves_of_drains ht hhalf)))
  refine wp_seq (flushHalves_spec t hreadyHalves changes) ?_
  rintro changes u ⟨hu, hwait⟩
  have hmiddle := ht.trans hu
  have hsame : u.readyRenames now = self.readyRenames now := by
    simp only [readyRenames, hmiddle.direct, hmiddle.debounce]
  have hends : collapseRenames (u.readyRenames now) ≠ [] →
      ∀ path ∈ endsOf (u.readyRenames now), path ∈ self.releasedAt now := by
    intro hsome path hpath
    rw [hsame] at hsome hpath
    apply List.mem_append_right
    rwa [if_neg hsome]
  refine wp_mono (flushDirect_spec u hends changes) ?_ fun _ _ h => h
  intro changes after hafter
  have hgone : ∀ path ∈ self.readyPaths now, u.pending.lookup path = none := by
    intro path hpath
    cases hlookup : u.pending.lookup path with
    | none => rfl
    | some pending =>
      have := hpending path hpath
      rw [hu.pending hlookup] at this
      cases this
  have hbounded : Bounded after := hafter.bounded (withoutReadyRenames_bounded (hmiddle.bounded h.toBounded))
  refine { hbounded with held := fun path hpath => ?_ }
  have hwaits := waitsAt_of_held hmiddle hgone hwait hafter hpath
  have hnotReleased : path ∉ self.releasedAt now := fun hmem => hfree path hmem hwaits
  exact hafter.occupied path (hmiddle.occupied path (h.held path (held_of_waitsAt hwaits)) hnotReleased) hnotReleased

theorem reserved_suppressions (h : Reserved self) {suppressions : Table WorkspacePath Suppression}
    (hlength : self.occupied.card + suppressions.entries.length ≤ self.capacity) :
    Reserved { self with suppressions } := ⟨⟨hlength, h.renames⟩, h.held⟩

theorem pruneSuppressions_reserved (h : Reserved self) (now : Instant) :
    Reserved { self with
      suppressions := self.suppressions.keep fun _ suppression => now < suppression.expiresAt } := by
  apply reserved_suppressions h
  have hlength : (self.suppressions.keep fun _ suppression => now < suppression.expiresAt).entries.length ≤
      self.suppressions.entries.length := List.length_filter_le _ _
  have := h.reserved
  omega

theorem flushReady_reserved (h : Reserved self)
    (hfree : self.rescanRequired = false → ∀ path ∈ self.releasedAt now, ¬self.WaitsAt now path) :
    wp (flushReady now prior) (fun _ => Reserved) (fun _ _ => False) self := by
  have hpruned := pruneSuppressions_reserved h now
  simp only [flushReady, pruneSuppressions, wp_bind, wp_modify, wp_get]
  split
  · exact clearPending_reserved hpruned.toBounded false
  rename_i hscan
  exact wp_seq (flushBuffers_reserved hpruned (hfree (by simpa using hscan))) fun _ _ h => h

end Flush

/-! ## Receiving an event -/

theorem reservePaths_spec (h : Reserved self) (paths : List WorkspacePath) :
    wp (reservePaths paths) (fun reserved after =>
      (reserved = true → after = { self with occupied := self.occupied ∪ paths.toFinset } ∧ Reserved after) ∧
        (reserved = false → after = self)) (fun _ _ => False) self := by
  simp only [reservePaths, wp_bind, wp_get]
  split
  · exact ⟨fun hfalse => (Bool.false_ne_true hfalse).elim, fun _ => rfl⟩
  rename_i hroom
  refine ⟨fun _ => ⟨rfl, ⟨⟨?_, h.renames⟩, ?_⟩⟩, fun hfalse => (Bool.false_ne_true hfalse.symm).elim⟩
  · have hunion : self.occupied ∪ paths.toFinset ⊆ self.occupied ∪ (paths.filter (· ∉ self.occupied)).toFinset := by
      intro path hpath
      rw [Finset.mem_union] at hpath ⊢
      by_cases hold : path ∈ self.occupied
      · exact .inl hold
      · refine .inr ?_
        rw [List.mem_toFinset, List.mem_filter]
        exact ⟨List.mem_toFinset.mp (hpath.resolve_left hold), by simpa using hold⟩
    have hcard := (Finset.card_le_card hunion).trans (Finset.card_union_le _ _)
    have hnew := List.toFinset_card_le (paths.filter (· ∉ self.occupied))
    simp only
    omega
  · intro path hpath
    exact Finset.mem_union_left _ (h.held path hpath)

theorem requireRescan_reserved (h : Bounded self) :
    wp requireRescan (fun pushed after => pushed = .rescanRequired ∧ Reserved after) (fun _ _ => False) self :=
  ⟨rfl, clearPending_reserved h true⟩

/-- The removal of a path that waits as created. -/
def CancelsCreate (self : EventCoalescer) (kind : NativeWatchKind) (path : WorkspacePath) : Prop :=
  kind = .remove ∧ ∃ pending, self.pending.lookup path = some pending ∧ pending.kind = .create

theorem fold_eq_none {previous : PendingKind} {next : PendingKind} (hkind : PendingKind.ofWatch kind = some next)
    (h : PendingKind.fold previous next = none) : previous = .create ∧ kind = .remove := by
  cases kind <;> cases hkind <;> cases previous <;> simp_all [PendingKind.fold]

theorem reserved_pending (h : Reserved self) (hpath : path ∈ self.occupied) (entry : PendingPath) :
    Reserved { self with pending := self.pending.insert path entry } := by
  refine ⟨⟨h.reserved, h.renames⟩, ?_⟩
  intro other hother
  rcases mem_held.mp hother with ⟨pending, hlookup⟩ | hrename
  · rcases (Table.lookup_insert_iff _).mp hlookup with ⟨rfl, -⟩ | ⟨-, hold⟩
    · exact hpath
    · exact h.held other (mem_held.mpr (.inl ⟨pending, hold⟩))
  · exact h.held other (mem_held.mpr (.inr hrename))

structure Records (kind : NativeWatchKind) (before after : EventCoalescer) : Prop where
  rules : after.rules = before.rules
  renamePaths : after.renamePaths = before.renamePaths
  creates : kind = .remove → ∀ {path pending}, after.pending.lookup path = some pending → pending.kind = .create →
    before.pending.lookup path = some pending

theorem recordPath_spec (h : Reserved self) (hpath : path ∈ self.occupied)
    (hfree : self.CancelsCreate kind path → path ∉ self.renamePaths) (observedAt : Instant) :
    wp (recordPath path kind observedAt) (fun _ after => Reserved after ∧ Records kind self after)
      (fun _ _ => False) self := by
  simp only [recordPath, wp_bind, wp_get]
  split
  · exact ⟨h, rfl, rfl, fun _ _ _ hlookup _ => hlookup⟩
  rename_i next hnext
  split
  · refine ⟨reserved_pending h hpath _, rfl, rfl, ?_⟩
    intro hremove other pending hlookup hcreate
    rcases (Table.lookup_insert_iff _).mp hlookup with ⟨rfl, rfl⟩ | ⟨-, hold⟩
    · subst hremove
      cases hnext
      cases hcreate
    · exact hold
  rename_i previous hprevious
  split
  · rename_i hfold
    obtain ⟨hcreate, hremove⟩ := fold_eq_none hnext hfold
    have hunnamed := hfree ⟨hremove, previous, hprevious, hcreate⟩
    refine ⟨⟨⟨?_, h.renames⟩, ?_⟩, rfl, rfl, ?_⟩
    · have hcard := Finset.card_le_card (Finset.erase_subset path self.occupied)
      have := h.reserved
      simp only
      omega
    · intro other hother
      rcases mem_held.mp hother with ⟨pending, hlookup⟩ | hrename
      · obtain ⟨hne, hold⟩ := Table.lookup_erase_iff.mp hlookup
        exact Finset.mem_erase.mpr ⟨hne, h.held other (mem_held.mpr (.inl ⟨pending, hold⟩))⟩
      · have hne : other ≠ path := fun heq => hunnamed (heq ▸ hrename)
        exact Finset.mem_erase.mpr ⟨hne, h.held other (mem_held.mpr (.inr hrename))⟩
    · exact fun _ _ _ hlookup _ => (Table.lookup_erase_iff.mp hlookup).2
  · rename_i folded hfold
    refine ⟨reserved_pending h hpath _, rfl, rfl, ?_⟩
    intro hremove other pending hlookup hcreate
    rcases (Table.lookup_insert_iff _).mp hlookup with ⟨rfl, rfl⟩ | ⟨-, hold⟩
    · subst hremove
      cases hnext
      cases hkind : previous.kind <;> simp_all [PendingKind.fold]
    · exact hold

theorem reserveAndRecord_spec (h : Reserved self) (hfree : self.CancelsCreate kind path → path ∉ self.renamePaths)
    (observedAt : Instant) :
    wp (reserveAndRecord path kind observedAt)
      (fun pushed after => Reserved after ∧ (pushed = .accepted → Records kind self after)) (fun _ _ => False) self := by
  simp only [reserveAndRecord, wp_bind]
  refine wp_mono (reservePaths_spec h [path]) ?_ fun _ _ h => h
  rintro reserved t ⟨htrue, hfalse⟩
  cases reserved with
  | true =>
    obtain ⟨rfl, ht⟩ := htrue rfl
    have hpath : path ∈ self.occupied ∪ [path].toFinset := by simp
    simp only [if_true, wp_bind]
    refine wp_mono (recordPath_spec ht hpath hfree observedAt) ?_ fun _ _ h => h
    rintro _ u ⟨hu, hrecords⟩
    exact ⟨hu, fun _ => ⟨hrecords.rules, hrecords.renamePaths, hrecords.creates⟩⟩
  | false =>
    obtain rfl := hfalse rfl
    refine wp_mono (requireRescan_reserved h.toBounded) ?_ fun _ _ h => h
    rintro pushed u ⟨rfl, hu⟩
    exact ⟨hu, fun haccepted => by cases haccepted⟩

theorem pushPaths_reserved (kind : NativeWatchKind) (observedAt : Instant) :
    ∀ (paths : List (Option (List Char))) {self : EventCoalescer}, Reserved self →
      (∀ raw ∈ paths, ∀ path, self.pathKey raw = some (.accepted path) → self.CancelsCreate kind path →
        path ∉ self.renamePaths) → wp (pushPaths kind observedAt paths) (fun _ => Reserved) (fun _ _ => False) self
  | [], _, h, _ => h
  | raw :: paths, self, h, hfree => by
    simp only [pushPaths, wp_bind, wp_get]
    split
    · exact wp_mono (requireRescan_reserved h.toBounded) (fun _ _ h => h.2) fun _ _ h => h
    · exact pushPaths_reserved kind observedAt paths h fun other hother => hfree other (by simp [hother])
    rename_i path hkey
    refine wp_seq (reserveAndRecord_spec h (hfree raw (by simp) path hkey) observedAt) ?_
    rintro pushed t ⟨ht, hrecords⟩
    cases pushed with
    | rescanRequired => exact ht
    | accepted =>
      obtain ⟨hrules, hrename, hcreates⟩ := hrecords rfl
      apply pushPaths_reserved kind observedAt paths ht
      rintro other hother path' hkey' ⟨hremove, pending, hlookup, hcreate⟩
      rw [hrename]
      apply hfree other (by simp [hother]) path'
      · simpa only [pathKey, hrules] using hkey'
      · exact ⟨hremove, pending, hcreates hremove hlookup hcreate, hcreate⟩

theorem map_modify_of_eq {α β : Type} {f : α → α} {g : α → β} (h : ∀ a, g (f a) = g a) :
    ∀ (xs : List α) (index : Nat), (xs.modify index f).map g = xs.map g
  | [], index => by simp
  | x :: xs, 0 => by simp [h]
  | x :: xs, index + 1 => by simp [map_modify_of_eq h xs index]

theorem hasRenameSlot_iff : self.hasRenameSlot = true ↔
    self.suppressions.entries.length + self.pending.entries.length + self.cookieHalves.entries.length +
      self.unmatchedRenames.length + self.directRenames.length < self.capacity := by
  simp [hasRenameSlot]

theorem pushUnmatched_spec (h : Reserved self) (hpath : half.path ∈ self.occupied) :
    wp (pushUnmatched half) (fun _ after => Reserved after ∧ after.occupied = self.occupied) (fun _ _ => False)
      self := by
  simp only [pushUnmatched, wp_bind, wp_get]
  split
  · refine ⟨⟨⟨h.reserved, ?_⟩, ?_⟩, rfl⟩
    · simpa using h.renames
    · intro path hheld
      have hsame : ∀ index, (self.unmatchedRenames.modify index fun previous =>
          { previous with observedAt := max previous.observedAt half.observedAt }).map (·.path) =
          self.unmatchedRenames.map (·.path) := by
        intro index
        apply map_modify_of_eq
        exact fun _ => rfl
      apply h.held path
      simpa only [held, renamePaths, hsame] using hheld
  split
  · rename_i hslot
    have hroom := hasRenameSlot_iff.mp hslot
    refine ⟨⟨⟨h.reserved, ?_⟩, ?_⟩, rfl⟩
    · simp only [List.length_append, List.length_singleton]
      omega
    · intro path hheld
      simp only [held, renamePaths, List.map_append, List.map_singleton, List.mem_append, List.mem_singleton] at hheld
      by_cases heq : path = half.path
      · exact heq ▸ hpath
      · apply h.held path
        simp only [held, renamePaths, List.mem_append]
        tauto
  · exact ⟨h, rfl⟩

theorem reserved_insert_cookie (h : Reserved self) (hpath : half.path ∈ self.occupied)
    (hslot : self.hasRenameSlot = true) (cookie : Nat) :
    Reserved { self with cookieHalves := self.cookieHalves.insert cookie half } := by
  have hroom := hasRenameSlot_iff.mp hslot
  have hlength : (self.cookieHalves.insert cookie half).entries.length ≤ self.cookieHalves.entries.length + 1 :=
    Table.length_insert_le
  refine ⟨⟨h.reserved, ?_⟩, ?_⟩
  · simp only
    omega
  · intro path hheld
    rcases mem_held.mp hheld with ⟨pending, hlookup⟩ | hrename
    · exact h.held path (mem_held.mpr (.inl ⟨pending, hlookup⟩))
    rcases mem_renamePaths.mp hrename with ⟨other, half', hlookup, rfl⟩ | hrest
    · rcases (Table.lookup_insert_iff _).mp hlookup with ⟨-, rfl⟩ | ⟨-, hold⟩
      · exact hpath
      · exact h.held _ (mem_held.mpr (.inr (mem_renamePaths.mpr (.inl ⟨other, half', hold, rfl⟩))))
    · exact h.held path (mem_held.mpr (.inr (mem_renamePaths.mpr (.inr hrest))))

theorem reserved_erase_cookie (h : Reserved self) (cookie : Nat) :
    Reserved { self with cookieHalves := self.cookieHalves.erase cookie } := by
  have hlength : (self.cookieHalves.erase cookie).entries.length ≤ self.cookieHalves.entries.length :=
    Table.length_erase_le
  refine ⟨⟨h.reserved, ?_⟩, ?_⟩
  · have := h.renames
    simp only
    omega
  · intro path hheld
    rcases mem_held.mp hheld with ⟨pending, hlookup⟩ | hrename
    · exact h.held path (mem_held.mpr (.inl ⟨pending, hlookup⟩))
    rcases mem_renamePaths.mp hrename with ⟨other, half, hlookup, rfl⟩ | hrest
    · have hold := (Table.lookup_erase_iff.mp hlookup).2
      exact h.held _ (mem_held.mpr (.inr (mem_renamePaths.mpr (.inl ⟨other, half, hold, rfl⟩))))
    · exact h.held path (mem_held.mpr (.inr (mem_renamePaths.mpr (.inr hrest))))

theorem reserved_append_direct (h : Reserved self) {rename : PendingRename} (hsource : rename.source ∈ self.occupied)
    (htarget : rename.target ∈ self.occupied)
    (hroom : self.cookieHalves.entries.length + self.unmatchedRenames.length + self.directRenames.length < self.capacity) :
    Reserved { self with directRenames := self.directRenames ++ [rename] } := by
  refine ⟨⟨h.reserved, ?_⟩, ?_⟩
  · simp only [List.length_append, List.length_singleton]
    omega
  · intro path hheld
    rcases mem_held.mp hheld with ⟨pending, hlookup⟩ | hrename
    · exact h.held path (mem_held.mpr (.inl ⟨pending, hlookup⟩))
    rcases mem_renamePaths.mp hrename with hcookie | hunmatched | ⟨other, hmem, hends⟩
    · exact h.held path (mem_held.mpr (.inr (mem_renamePaths.mpr (.inl hcookie))))
    · exact h.held path (mem_held.mpr (.inr (mem_renamePaths.mpr (.inr (.inl hunmatched)))))
    rcases List.mem_append.mp hmem with hold | hnew
    · exact h.held path (mem_held.mpr (.inr (mem_renamePaths.mpr (.inr (.inr ⟨other, hold, hends⟩)))))
    · obtain rfl := List.mem_singleton.mp hnew
      rcases hends with rfl | rfl
      · exact hsource
      · exact htarget

theorem pushCookieHalf_reserved (h : Reserved self) (hpath : half.path ∈ self.occupied) (cookie : Nat) :
    wp (pushCookieHalf cookie half) (fun _ => Reserved) (fun _ _ => False) self := by
  simp only [pushCookieHalf, wp_bind, wp_get]
  split
  · split
    · rename_i hslot
      exact reserved_insert_cookie h hpath hslot cookie
    · exact wp_mono (requireRescan_reserved h.toBounded) (fun _ _ h => h.2) fun _ _ h => h
  rename_i previous hprevious
  have hprevPath : previous.path ∈ self.occupied :=
    h.held _ (mem_held.mpr (.inr (mem_renamePaths.mpr (.inl ⟨cookie, previous, hprevious, rfl⟩))))
  have herased := reserved_erase_cookie h cookie
  split
  · simp only [wp_bind, wp_set]
    refine wp_mono (pushUnmatched_spec herased hprevPath) ?_ fun _ _ h => h
    rintro pushed t ⟨ht, hoccupied⟩
    simp only [wp_bind, wp_get]
    split
    · rename_i hboth
      exact reserved_insert_cookie ht (hoccupied ▸ hpath) (Bool.and_eq_true_iff.mp hboth).2 cookie
    · exact wp_mono (requireRescan_reserved ht.toBounded) (fun _ _ h => h.2) fun _ _ h => h
  · have hlength := Table.length_erase_of_some hprevious
    have hbound := h.renames
    have hends : (pairOf previous half).source ∈ self.occupied ∧ (pairOf previous half).target ∈ self.occupied := by
      unfold pairOf
      split
      · exact ⟨hprevPath, hpath⟩
      · exact ⟨hpath, hprevPath⟩
    simp only [wp_bind, wp_set, wp_pure]
    exact reserved_append_direct herased hends.1 hends.2 (by simp only; omega)

theorem pushRenameHalf_reserved (h : Reserved self) (event : NormalizedWatchEvent) :
    wp (pushRenameHalf event) (fun _ => Reserved) (fun _ _ => False) self := by
  simp only [pushRenameHalf, wp_bind, wp_get]
  split
  · split
    · exact wp_mono (requireRescan_reserved h.toBounded) (fun _ _ h => h.2) fun _ _ h => h
    · exact h
    rename_i path hkey
    refine wp_seq (reservePaths_spec h [path]) ?_
    rintro reserved t ⟨htrue, hfalse⟩
    cases reserved with
    | true =>
      obtain ⟨rfl, ht⟩ := htrue rfl
      have hpath : path ∈ self.occupied ∪ [path].toFinset := by simp
      simp only [if_true]
      split
      · rename_i cookie hcookie
        exact pushCookieHalf_reserved ht hpath cookie
      · refine wp_seq (pushUnmatched_spec ht hpath) ?_
        rintro pushed u ⟨hu, -⟩
        cases pushed with
        | true => exact hu
        | false => exact wp_mono (requireRescan_reserved hu.toBounded) (fun _ _ h => h.2) fun _ _ h => h
    | false =>
      obtain rfl := hfalse rfl
      exact wp_mono (requireRescan_reserved h.toBounded) (fun _ _ h => h.2) fun _ _ h => h
  · exact wp_mono (requireRescan_reserved h.toBounded) (fun _ _ h => h.2) fun _ _ h => h

theorem pushRenameBoth_reserved (h : Reserved self) {event : NormalizedWatchEvent}
    (hfree : ∀ first second path, event.paths = [first, second] → self.pathKey first = some (.accepted path) →
      self.pathKey second = some .ignored → self.CancelsCreate .remove path → path ∉ self.renamePaths) :
    wp (pushRenameBoth event) (fun _ => Reserved) (fun _ _ => False) self := by
  have hrescan : wp requireRescan (fun _ => Reserved) (fun _ _ => False) self :=
    wp_mono (requireRescan_reserved h.toBounded) (fun _ _ h => h.2) fun _ _ h => h
  simp only [pushRenameBoth, wp_bind, wp_get]
  split
  · rename_i first second hpaths
    split
    · rename_i source target hsource htarget
      refine wp_seq (reservePaths_spec h [source, target]) ?_
      rintro reserved t ⟨htrue, hfalse⟩
      cases reserved with
      | true =>
        obtain ⟨rfl, ht⟩ := htrue rfl
        simp only [if_true, wp_bind, wp_get]
        split
        · rename_i hslot
          have hroom := hasRenameSlot_iff.mp hslot
          have hsourceIn : source ∈ self.occupied ∪ [source, target].toFinset := by simp
          have htargetIn : target ∈ self.occupied ∪ [source, target].toFinset := by simp
          exact reserved_append_direct ht hsourceIn htargetIn (by omega)
        · exact wp_mono (requireRescan_reserved ht.toBounded) (fun _ _ h => h.2) fun _ _ h => h
      | false =>
        obtain rfl := hfalse rfl
        exact hrescan
    · rename_i path hsource htarget
      refine wp_mono (reserveAndRecord_spec h (hfree first second path hpaths hsource htarget) _) ?_ fun _ _ h => h
      exact fun _ _ hafter => hafter.1
    · rename_i path hsource htarget
      have hkeeps : self.CancelsCreate .create path → path ∉ self.renamePaths := fun hcancels => by cases hcancels.1
      exact wp_mono (reserveAndRecord_spec h hkeeps _) (fun _ _ hafter => hafter.1) fun _ _ h => h
    · exact h
    · exact hrescan
  · exact hrescan

/-- An event cancels the creation of a path that a rename buffer names. -/
def CancelsRenamed (self : EventCoalescer) (event : NormalizedWatchEvent) : Prop :=
  match event.kind with
  | .remove => ∃ raw ∈ event.paths, ∃ path, self.pathKey raw = some (.accepted path) ∧
      self.CancelsCreate .remove path ∧ path ∈ self.renamePaths
  | .renameBoth => ∃ first second path, event.paths = [first, second] ∧ self.pathKey first = some (.accepted path) ∧
      self.pathKey second = some .ignored ∧ self.CancelsCreate .remove path ∧ path ∈ self.renamePaths
  | .create | .modify | .renameFrom | .renameTo => False

theorem push_reserved (h : Reserved self) (clock : Instant) {event : NormalizedWatchEvent}
    (hfree : self.rescanRequired = false → ¬self.CancelsRenamed event) :
    wp (push clock event) (fun _ => Reserved) (fun _ _ => False) self := by
  have hpruned := pruneSuppressions_reserved h clock
  simp only [push, pruneSuppressions, wp_bind, wp_modify, wp_get]
  split
  · exact hpruned
  rename_i hscan
  have hkept := hfree (by simpa using hscan)
  split
  · rename_i hkind
    simp only [CancelsRenamed, hkind] at hkept
    apply pushRenameBoth_reserved hpruned
    intro first second path hpaths hfirst hsecond hcancels hmem
    exact hkept ⟨first, second, path, hpaths, hfirst, hsecond, hcancels, hmem⟩
  · exact pushRenameHalf_reserved hpruned event
  · exact pushRenameHalf_reserved hpruned event
  · rename_i hkind
    apply pushPaths_reserved _ _ _ hpruned
    intro raw _ path _ hcancels
    rw [hkind] at hcancels
    cases hcancels.1
  · rename_i hkind
    apply pushPaths_reserved _ _ _ hpruned
    intro raw _ path _ hcancels
    rw [hkind] at hcancels
    cases hcancels.1
  · rename_i hkind
    simp only [CancelsRenamed, hkind] at hkept
    apply pushPaths_reserved _ _ _ hpruned
    intro raw hraw path hkey hcancels hmem
    rw [hkind] at hcancels
    exact hkept ⟨raw, hraw, path, hkey, hcancels, hmem⟩

/-! ## Suppressing -/

theorem oldestSuppression_tracked (h : self.oldestSuppression = some path) :
    ∃ suppression, self.suppressions.lookup path = some suppression := by
  have hmem := List.argmin_mem (Option.mem_def.mpr h)
  exact Table.mem_keys_iff.mp ((List.mem_insertionSort _).mp hmem)

theorem suppressPath_reserved (h : Reserved self) (path : WorkspacePath) (suppression : Suppression) :
    wp (suppressPath path suppression) (fun _ => Reserved) (fun _ _ => False) self := by
  have hbound := h.reserved
  simp only [suppressPath, wp_bind, wp_get]
  split
  · split
    · exact h
    · rename_i oldest holdest
      obtain ⟨tracked, htracked⟩ := oldestSuppression_tracked holdest
      have herase := Table.length_erase_of_some htracked
      have hinsert : ((self.suppressions.erase oldest).insert path suppression).entries.length ≤
          (self.suppressions.erase oldest).entries.length + 1 := Table.length_insert_le
      exact reserved_suppressions h (by omega)
  · rename_i hroom
    apply reserved_suppressions h
    cases htracked : self.suppressions.lookup path with
    | some tracked =>
      rw [Table.length_insert_of_some htracked]
      exact hbound
    | none =>
      rw [Table.length_insert_of_none htracked]
      simp [htracked] at hroom
      omega

theorem suppress_reserved (h : Reserved self) (clock : Instant) (receipt : ApplyReceipt) :
    wp (suppress clock receipt) (fun _ => Reserved) (fun _ _ => False) self := by
  simp only [suppress, pruneSuppressions, wp_bind, wp_modify, wp_get]
  exact wp_forM (pruneSuppressions_reserved h clock) fun _ _ _ ht => suppressPath_reserved ht _ _

/-! ## Whole runs -/

end EventCoalescer

inductive CoalescerCall where
  | push (clock : Instant) (event : NormalizedWatchEvent)
  | flushReady (now : Instant) (prior : PriorEntryLookup)
  | suppress (clock : Instant) (receipt : ApplyReceipt)

namespace CoalescerCall

open EventCoalescer

def after (self : EventCoalescer) : CoalescerCall → EventCoalescer
  | push clock event => final (EventCoalescer.push clock event) self
  | flushReady now prior => final (EventCoalescer.flushReady now prior) self
  | suppress clock receipt => final (EventCoalescer.suppress clock receipt) self

def ReleasesUnnamed (self : EventCoalescer) : CoalescerCall → Prop
  | push _ event => self.rescanRequired = false → ¬self.CancelsRenamed event
  | flushReady now _ => self.rescanRequired = false → ∀ path ∈ self.releasedAt now, ¬self.WaitsAt now path
  | suppress _ _ => True

theorem after_reserved {self : EventCoalescer} (h : Reserved self) {call : CoalescerCall}
    (hcall : call.ReleasesUnnamed self) : Reserved (call.after self) := by
  cases call with
  | push clock event => exact wp_final (wp_mono (push_reserved h clock hcall) (fun _ _ h => h) fun _ _ h => h.elim)
  | flushReady now prior =>
    exact wp_final (wp_mono (flushReady_reserved h hcall) (fun _ _ h => h) fun _ _ h => h.elim)
  | suppress clock receipt =>
    exact wp_final (wp_mono (suppress_reserved h clock receipt) (fun _ _ h => h) fun _ _ h => h.elim)

end CoalescerCall

/-- The states a run of calls goes through, each call meeting a condition on the state it starts from. -/
inductive CoalescerRun (Meets : EventCoalescer → CoalescerCall → Prop) (start : EventCoalescer) : EventCoalescer → Prop
  | start : CoalescerRun Meets start start
  | step {self : EventCoalescer} {call : CoalescerCall} (run : CoalescerRun Meets start self) (meets : Meets self call) :
      CoalescerRun Meets start (call.after self)

structure EventCoalescer.WithinCapacity (state : EventCoalescer) : Prop where
  held : ∀ path ∈ state.held, path ∈ state.occupied
  reserved : state.occupied.card + state.suppressions.entries.length ≤ state.capacity
  pending : state.pending.entries.length ≤ state.capacity
  cookieHalves : state.cookieHalves.entries.length ≤ state.capacity
  unmatchedRenames : state.unmatchedRenames.length ≤ state.capacity
  directRenames : state.directRenames.length ≤ state.capacity

namespace EventCoalescer

theorem withRules_reserved (debounce rename capacity : Nat) (rules : SyncRules) :
    Reserved (withRules debounce rename capacity rules) where
  reserved := by simp [withRules]
  renames := by simp [withRules]
  held := by simp [withRules, EventCoalescer.held, renamePaths, Table.values]

theorem Reserved.withinCapacity {self : EventCoalescer} (h : Reserved self) : WithinCapacity self where
  held := h.held
  reserved := h.reserved
  pending := by
    -- The keys of the pending table are distinct, so they are no more than the reserved paths.
    have hsubset : self.pending.keys.toFinset ⊆ self.occupied := by
      intro path hpath
      exact h.held path (List.mem_append_left _ (List.mem_toFinset.mp hpath))
    have hcard := Finset.card_le_card hsubset
    rw [List.toFinset_card_of_nodup self.pending.keys_nodup] at hcard
    have hlength : self.pending.keys.length = self.pending.entries.length := List.length_map _
    have := h.reserved
    omega
  cookieHalves := by have := h.renames; omega
  unmatchedRenames := by have := h.renames; omega
  directRenames := by have := h.renames; omega

/-- In a run whose calls release no path that an entry still names, what is held stays reserved and bounded. -/
theorem coalescer_within_capacity {debounce rename capacity : Nat} {rules : SyncRules} {self : EventCoalescer}
    (run : CoalescerRun (fun state call => call.ReleasesUnnamed state) (withRules debounce rename capacity rules) self) :
    self.WithinCapacity := by
  have hreserved : Reserved self := by
    induction run with
    | start => exact withRules_reserved debounce rename capacity rules
    | step _ meets ih => exact CoalescerCall.after_reserved ih meets
  exact hreserved.withinCapacity

def openRules : SyncRules := ⟨[], [], [], [], [], [], [fun _ => true], [], true⟩

def nothingKnown : PriorEntryLookup := ⟨fun _ => none, fun _ => none⟩

def eventAt (kind : NativeWatchKind) (paths : List String) (observedAt : Instant) : CoalescerCall :=
  .push observedAt ⟨kind, paths.map fun path => some path.toList, none, observedAt⟩

def twoCreated : EventCoalescer :=
  (eventAt .create ["c"] 100).after ((eventAt .create ["a"] 0).after (withRules 200 500 2 openRules))

/-- A flush releases the earlier path, and only the later one waits. -/
theorem withinCapacity_of_twoCreated :
    CoalescerRun (fun state call => call.ReleasesUnnamed state) (withRules 200 500 2 openRules)
      ((CoalescerCall.flushReady 200 nothingKnown).after twoCreated) ∧
      ((CoalescerCall.flushReady 200 nothingKnown).after twoCreated).WithinCapacity := by
  have hready : ∀ path ∈ twoCreated.releasedAt 200, (twoCreated.pending.lookup path).any fun pending =>
      ready 200 pending.lastSeen twoCreated.debounce := by decide +kernel
  have hcookies : twoCreated.cookieHalves.entries = [] := by decide +kernel
  have hunmatched : twoCreated.unmatchedRenames = [] := by decide +kernel
  have hdirect : twoCreated.directRenames = [] := by decide +kernel
  have hflush : (CoalescerCall.flushReady 200 nothingKnown).ReleasesUnnamed twoCreated := by
    rintro - path hpath (⟨pending, hlookup, hwaits⟩ | ⟨cookie, half, hlookup, -⟩ | ⟨half, hmem, -⟩ | ⟨rename, hmem, -⟩)
    · have := hready path hpath
      rw [hlookup, Option.any_some, hwaits] at this
      cases this
    · rw [Table.lookup_of_nil hcookies] at hlookup
      cases hlookup
    · rw [hunmatched] at hmem
      cases hmem
    · rw [hdirect] at hmem
      cases hmem
  have run := CoalescerRun.step (.step (.step .start fun _ h => h) fun _ h => h) hflush
  exact ⟨run, coalescer_within_capacity run⟩

/-- A path is renamed away and created again. The flush of the rename releases it though it is pending. -/
def recreatedSource : EventCoalescer :=
  let created := (eventAt .create ["a"] 150).after
    ((eventAt .renameBoth ["a", "b"] 0).after (withRules 200 500 2 openRules))
  let flushed := (CoalescerCall.flushReady 200 nothingKnown).after created
  (eventAt .create ["d"] 210).after ((eventAt .create ["c"] 210).after flushed)

theorem not_withinCapacity_of_recreatedSource :
    ¬∀ debounce rename capacity rules self,
      CoalescerRun (fun _ _ => True) (withRules debounce rename capacity rules) self → self.WithinCapacity := by
  intro h
  have run : CoalescerRun (fun _ _ => True) (withRules 200 500 2 openRules) recreatedSource := by
    unfold recreatedSource
    exact .step (.step (.step (.step (.step .start trivial) trivial) trivial) trivial) trivial
  have hpending := (h 200 500 2 openRules recreatedSource run).pending
  have hthree : ¬recreatedSource.pending.entries.length ≤ recreatedSource.capacity := by decide +kernel
  exact hthree hpending

end EventCoalescer

end Lumio.Fs
