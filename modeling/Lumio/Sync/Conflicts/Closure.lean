import Lumio.Lib.Saturation
import Lumio.Sync.Conflicts.Generations

/-!
# Intents that hang together

Deferred intents on related paths are settled together. Two loops compute which those are, one from the operations and
one from the rows; both end, with the least set that is closed under intersection of the paths.
-/

namespace Lumio.Sync

open Lumio.Protocol Saturation

def Related (left right : WorkspacePath) : Prop :=
  left = right ∨ (∃ suffix, left.chars = right.chars ++ '/' :: suffix) ∨
    ∃ suffix, right.chars = left.chars ++ '/' :: suffix

theorem pathsIntersect_iff {left right : WorkspacePath} : pathsIntersect left right = true ↔ Related left right := by
  simp only [pathsIntersect, Related, Bool.or_eq_true, decide_eq_true_eq, pathIsDescendant_iff, or_assoc]

abbrev Touches (operation : DesiredOperation) (paths : List WorkspacePath) : Prop :=
  Joins DesiredOperation.paths Related operation paths

variable {operation : DesiredOperation}

theorem any_pathsIntersect_iff {paths : List WorkspacePath} :
    operation.paths.any (fun path => paths.any (pathsIntersect path ·)) = true ↔ Touches operation paths := by
  simp only [List.any_eq_true, pathsIntersect_iff, Touches, Joins]

/-! ## From the operations -/

section Operations

variable {available rest : List DesiredOperation} {start : List WorkspacePath}
  {closure : List WorkspacePath × List DesiredOperation}

/-- What the rounds keep: the operations that have joined meet the paths, and have brought theirs. -/
structure Gathered (available : List DesiredOperation) (start : List WorkspacePath)
    (closure : List WorkspacePath × List DesiredOperation) : Prop where
  grown : Grown DesiredOperation.paths Related {o | o ∈ available} start closure.1
  nodup : closure.2.Nodup
  joined : ∀ operation ∈ closure.2, operation ∈ available ∧ Touches operation closure.1 ∧
    ∀ path ∈ operation.paths, path ∈ closure.1

theorem Gathered.join {operation : DesiredOperation} (h : Gathered available start closure)
    (hin : operation ∈ available) (hnew : operation ∉ closure.2) (htouches : Touches operation closure.1) :
    Gathered available start (closure.1 ++ operation.paths, closure.2 ++ [operation]) where
  grown := h.grown.join hin htouches (fun _ he => List.mem_append_left _ he) fun _ he => List.mem_append.mp he
  nodup := List.nodup_append.mpr ⟨h.nodup, List.nodup_singleton _, fun a ha b hb hab => by
    obtain rfl := List.mem_singleton.mp hb
    exact hnew (hab ▸ ha)⟩
  joined other hother := by
    rcases List.mem_append.mp hother with hother | hother
    · obtain ⟨hothers, hmeets, hpaths⟩ := h.joined other hother
      exact ⟨hothers, hmeets.mono fun _ he => List.mem_append_left _ he,
        fun path hpath => List.mem_append_left _ (hpaths path hpath)⟩
    · obtain rfl := List.mem_singleton.mp hother
      exact ⟨hin, htouches.mono fun _ he => List.mem_append_left _ he, fun path hpath => List.mem_append_right _ hpath⟩

theorem Gathered.expand (hrest : ∀ operation ∈ rest, operation ∈ available) (h : Gathered available start closure) :
    Gathered available start (expandOperations rest closure) ∧
      (closure.2.length < (expandOperations rest closure).2.length ∨ expandOperations rest closure = closure ∧
        ∀ operation ∈ rest, operation ∈ closure.2 ∨ ¬Touches operation closure.1) := by
  induction rest generalizing closure with
  | nil => exact ⟨h, .inr ⟨rfl, nofun⟩⟩
  | cons operation rest ih =>
    have hlater : ∀ other ∈ rest, other ∈ available := fun other hother => hrest other (List.mem_cons_of_mem _ hother)
    have hround : expandOperations (operation :: rest) closure = expandOperations rest
        (if operation ∈ closure.2 || !operation.paths.any (fun path => closure.1.any (pathsIntersect path ·))
          then closure else (closure.1 ++ operation.paths, closure.2 ++ [operation])) := rfl
    rw [hround]
    split
    · rename_i hskip
      have hstays : operation ∈ closure.2 ∨ ¬Touches operation closure.1 := by
        rw [Bool.or_eq_true, decide_eq_true_eq, Bool.not_eq_true', ← Bool.not_eq_true, any_pathsIntersect_iff] at hskip
        exact hskip
      obtain ⟨hgathered, hmore | ⟨hsame, hnone⟩⟩ := ih hlater h
      · exact ⟨hgathered, .inl hmore⟩
      · exact ⟨hgathered, .inr ⟨hsame, List.forall_mem_cons.mpr ⟨hstays, hnone⟩⟩⟩
    · rename_i hjoin
      have hjoins : operation ∉ closure.2 ∧ Touches operation closure.1 := by
        rw [Bool.or_eq_true, decide_eq_true_eq, Bool.not_eq_true', ← Bool.not_eq_true, any_pathsIntersect_iff,
          not_or, not_not] at hjoin
        exact hjoin
      have hnext := h.join (hrest operation (List.mem_cons_self ..)) hjoins.1 hjoins.2
      obtain ⟨hgathered, hmore⟩ := ih hlater hnext
      refine ⟨hgathered, .inl ?_⟩
      rcases hmore with hmore | ⟨hsame, -⟩
      · have hone : (closure.2 ++ [operation]).length = closure.2.length + 1 := List.length_append
        have hlater : (closure.2 ++ [operation]).length < _ := hmore
        omega
      · rw [hsame]
        simp

theorem closeOperations_eq (fuel : Nat) :
    closeOperations available fuel closure = rounds (expandOperations available) (·.2.length) fuel closure := by
  induction fuel generalizing closure with
  | zero => rfl
  | succ fuel ih => simp only [closeOperations, rounds, ih]

theorem closeOperations_ends (start : List WorkspacePath) :
    Ends (expandOperations available) (·.2.length) (start, [])
      (closeOperations available (available.length + 1) (start, [])) := by
  have hround : ∀ s, Gathered available start s → Gathered available start (expandOperations available s) :=
    fun s hs => (hs.expand fun _ h => h).1
  have hgrows : ∀ s, Gathered available start s → s.2.length ≤ (expandOperations available s).2.length := by
    intro s hs
    rcases (hs.expand fun _ h => h).2 with hmore | ⟨hsame, -⟩
    · exact hmore.le
    · exact (congrArg (·.2.length) hsame).ge
  have hbound : ∀ s, Gathered available start s → s.2.length ≤ available.length :=
    fun s hs => (List.subperm_of_subset hs.nodup fun o ho => (hs.joined o ho).1).length_le
  rw [closeOperations_eq]
  exact rounds_ends hround hgrows hbound _ _ ⟨.refl, List.nodup_nil, nofun⟩ (by simp)

theorem closeOperations_least (h : Ends (expandOperations available) (·.2.length) (start, []) closure) :
    closure.2.Nodup ∧
      IsLeast {S | Closed DesiredOperation.paths Related {o | o ∈ available} start S} {o | o ∈ closure.2} := by
  have hround : ∀ s, Gathered available start s → Gathered available start (expandOperations available s) :=
    fun s hs => (hs.expand fun _ h => h).1
  obtain ⟨before, hgathered, hlast, rfl⟩ := h.exists_last hround ⟨.refl, List.nodup_nil, nofun⟩
  obtain ⟨hafter, hmore | ⟨hsame, hnone⟩⟩ := hgathered.expand fun _ h => h
  · exact absurd hlast hmore.ne'
  rw [hsame]
  have hjoined : ∀ o ∈ available, Touches o before.1 → o ∈ before.2 :=
    fun o ho htouches => (hnone o ho).resolve_right (not_not_intro htouches)
  have hset : {o | o ∈ before.2} = {o | o ∈ {o | o ∈ available} ∧ Touches o before.1} := by
    ext o
    constructor
    · intro ho
      obtain ⟨hin, htouches, -⟩ := hgathered.joined o ho
      exact ⟨hin, htouches⟩
    · rintro ⟨hin, htouches⟩
      exact hjoined o hin htouches
  rw [hset]
  exact ⟨hgathered.nodup, hgathered.grown.isLeast fun o ho htouches path hpath =>
    (hgathered.joined o (hjoined o ho htouches)).2.2 path hpath⟩

end Operations

/-! ## From the rows -/

section Rows

variable {existing rest : List (WorkspacePath × DesiredOperation)} {start closure : List WorkspacePath}

def addPaths (closure paths : List WorkspacePath) : List WorkspacePath :=
  paths.foldl (fun closure path => if path ∈ closure then closure else closure ++ [path]) closure

/-- What the rounds keep: the paths that were added are other ones, and paths of the rows. -/
structure Spread (existing : List (WorkspacePath × DesiredOperation)) (start closure : List WorkspacePath) : Prop where
  grown : Grown DesiredOperation.paths Related {o | ∃ row ∈ existing, row.2 = o} start closure
  added : ∃ added, closure = start ++ added ∧ added.Nodup ∧ added ⊆ existing.flatMap (·.2.paths)

theorem Spread.add {row : WorkspacePath × DesiredOperation} (hrow : row ∈ existing) {paths : List WorkspacePath}
    (hpaths : ∀ path ∈ paths, path ∈ row.2.paths) (h : Spread existing start closure)
    (htouches : Touches row.2 closure) :
    Spread existing start (addPaths closure paths) ∧ (closure.length < (addPaths closure paths).length ∨
      addPaths closure paths = closure ∧ ∀ path ∈ paths, path ∈ closure) := by
  induction paths generalizing closure with
  | nil => exact ⟨h, .inr ⟨rfl, nofun⟩⟩
  | cons path paths ih =>
    have hlater : ∀ other ∈ paths, other ∈ row.2.paths :=
      fun other hother => hpaths other (List.mem_cons_of_mem _ hother)
    have hround : addPaths closure (path :: paths) =
        addPaths (if path ∈ closure then closure else closure ++ [path]) paths := rfl
    rw [hround]
    split
    · rename_i hin
      obtain ⟨hspread, hmore | ⟨hsame, hall⟩⟩ := ih hlater h htouches
      · exact ⟨hspread, .inl hmore⟩
      · exact ⟨hspread, .inr ⟨hsame, List.forall_mem_cons.mpr ⟨hin, hall⟩⟩⟩
    · rename_i hnew
      have hpath := hpaths path (List.mem_cons_self ..)
      obtain ⟨added, hadded, hnodup, hsub⟩ := h.added
      have hnext : Spread existing start (closure ++ [path]) := by
        refine ⟨h.grown.join ⟨row, hrow, rfl⟩ htouches (fun _ he => List.mem_append_left _ he) fun e he => ?_,
          added ++ [path], by rw [hadded, List.append_assoc], ?_, ?_⟩
        · rcases List.mem_append.mp he with he | he
          · exact .inl he
          · obtain rfl := List.mem_singleton.mp he
            exact .inr hpath
        · refine List.nodup_append.mpr ⟨hnodup, List.nodup_singleton _, fun a ha b hb hab => ?_⟩
          obtain rfl := List.mem_singleton.mp hb
          exact hnew (hadded ▸ List.mem_append_right _ (hab ▸ ha))
        · exact List.append_subset.mpr ⟨hsub, fun e he => by
            obtain rfl := List.mem_singleton.mp he
            exact List.mem_flatMap.mpr ⟨row, hrow, hpath⟩⟩
      obtain ⟨hspread, hmore⟩ := ih hlater hnext (htouches.mono fun _ he => List.mem_append_left _ he)
      refine ⟨hspread, .inl ?_⟩
      have hone : (closure ++ [path]).length = closure.length + 1 := List.length_append
      rcases hmore with hmore | ⟨hsame, -⟩
      · omega
      · rw [hsame]
        omega

theorem Spread.expand (hrest : ∀ row ∈ rest, row ∈ existing) (h : Spread existing start closure) :
    Spread existing start (expandClosure rest closure) ∧
      (closure.length < (expandClosure rest closure).length ∨ expandClosure rest closure = closure ∧
        ∀ row ∈ rest, Touches row.2 closure → ∀ path ∈ row.2.paths, path ∈ closure) := by
  induction rest generalizing closure with
  | nil => exact ⟨h, .inr ⟨rfl, nofun⟩⟩
  | cons row rest ih =>
    have hlater : ∀ other ∈ rest, other ∈ existing := fun other hother => hrest other (List.mem_cons_of_mem _ hother)
    have hround : expandClosure (row :: rest) closure = expandClosure rest
        (if row.2.paths.any (fun path => closure.any (pathsIntersect path ·)) then addPaths closure row.2.paths
          else closure) := rfl
    rw [hround]
    split
    · rename_i htouches
      have htouches := any_pathsIntersect_iff.mp htouches
      obtain ⟨hnext, hmore⟩ := h.add (hrest row (List.mem_cons_self ..)) (fun _ h => h) htouches
      obtain ⟨hspread, hlast⟩ := ih hlater hnext
      refine ⟨hspread, ?_⟩
      rcases hmore with hmore | ⟨hsame, hall⟩
      · rcases hlast with hlast | ⟨hlast, -⟩
        · exact .inl (hmore.trans hlast)
        · refine .inl ?_
          rw [hlast]
          exact hmore
      · rw [hsame] at hlast ⊢
        rcases hlast with hlast | ⟨hlast, hnone⟩
        · exact .inl hlast
        · exact .inr ⟨hlast, List.forall_mem_cons.mpr ⟨fun _ => hall, hnone⟩⟩
    · rename_i hapart
      have hapart : ¬Touches row.2 closure := fun htouches => hapart (any_pathsIntersect_iff.mpr htouches)
      obtain ⟨hspread, hmore | ⟨hsame, hnone⟩⟩ := ih hlater h
      · exact ⟨hspread, .inl hmore⟩
      · exact ⟨hspread, .inr ⟨hsame, List.forall_mem_cons.mpr ⟨fun htouches => absurd htouches hapart, hnone⟩⟩⟩

theorem closeClosure_eq (fuel : Nat) :
    closeClosure existing fuel closure = rounds (expandClosure existing) List.length fuel closure := by
  induction fuel generalizing closure with
  | zero => rfl
  | succ fuel ih => simp only [closeClosure, rounds, ih]

theorem length_flatMap_paths_le (existing : List (WorkspacePath × DesiredOperation)) :
    (existing.flatMap (·.2.paths)).length ≤ 2 * existing.length := by
  induction existing with
  | nil => simp
  | cons row rest ih =>
    have hrow : row.2.paths.length ≤ 2 := by cases row.2 <;> simp [DesiredOperation.paths]
    rw [List.flatMap_cons, List.length_append, List.length_cons]
    omega

theorem closeClosure_ends (existing : List (WorkspacePath × DesiredOperation)) (start : List WorkspacePath) :
    Ends (expandClosure existing) List.length start (closeClosure existing (2 * existing.length + 1) start) := by
  have hround : ∀ s, Spread existing start s → Spread existing start (expandClosure existing s) :=
    fun s hs => (hs.expand fun _ h => h).1
  have hgrows : ∀ s, Spread existing start s → s.length ≤ (expandClosure existing s).length := by
    intro s hs
    rcases (hs.expand fun _ h => h).2 with hmore | ⟨hsame, -⟩
    · exact hmore.le
    · exact (congrArg List.length hsame).ge
  have hbound : ∀ s, Spread existing start s → s.length ≤ start.length + 2 * existing.length := by
    intro s hs
    obtain ⟨added, rfl, hnodup, hsub⟩ := hs.added
    have hadded := (List.subperm_of_subset hnodup hsub).length_le
    have hpaths := length_flatMap_paths_le existing
    rw [List.length_append]
    omega
  rw [closeClosure_eq]
  exact rounds_ends hround hgrows hbound _ _ ⟨.refl, [], (List.append_nil _).symm, List.nodup_nil, nofun⟩ (by omega)

theorem closeClosure_least (h : Ends (expandClosure existing) List.length start closure) :
    IsLeast {S | Closed DesiredOperation.paths Related {o | ∃ row ∈ existing, row.2 = o} start S}
        {o | o ∈ {o | ∃ row ∈ existing, row.2 = o} ∧ Touches o closure} ∧
      ∀ path, path ∈ closure ↔
        path ∈ start ∨ ∃ o, (o ∈ {o | ∃ row ∈ existing, row.2 = o} ∧ Touches o closure) ∧ path ∈ o.paths := by
  have hround : ∀ s, Spread existing start s → Spread existing start (expandClosure existing s) :=
    fun s hs => (hs.expand fun _ h => h).1
  obtain ⟨before, hspread, hlast, rfl⟩ :=
    h.exists_last hround ⟨.refl, [], (List.append_nil _).symm, List.nodup_nil, nofun⟩
  obtain ⟨-, hmore | ⟨hsame, hfull⟩⟩ := hspread.expand fun _ h => h
  · exact absurd hlast hmore.ne'
  rw [hsame]
  have hbrought : ∀ o ∈ {o | ∃ row ∈ existing, row.2 = o}, Touches o before → ∀ path ∈ o.paths, path ∈ before := by
    rintro o ⟨row, hrow, rfl⟩ htouches
    exact hfull row hrow htouches
  exact ⟨hspread.grown.isLeast hbrought, hspread.grown.mem_iff hbrought⟩

end Rows

/-! ## Both -/

/-- The deferred operations that the loop starts from, each once. -/
def Db.available (db : Db) : List DesiredOperation :=
  dedupOperations (db.localIntentRecords.map fun row => desiredFromIntent row.intent)

/-- The operations are the least set that has those on paths related to the start, and with each operation those on paths
related to its own. -/
def LeastClosed (available : Set DesiredOperation) (start : List WorkspacePath) (S : Set DesiredOperation) : Prop :=
  IsLeast {S | Closed DesiredOperation.paths Related available start S} S

theorem mem_dedupOperations_iff {operations : List DesiredOperation} :
    operation ∈ dedupOperations operations ↔ operation ∈ operations := by
  refine ⟨mem_dedupOperations, fun h => ?_⟩
  have hall : ∀ (rest seen : List DesiredOperation), (operation ∈ seen ∨ operation ∈ rest) →
      operation ∈ rest.foldl (fun seen operation => if operation ∈ seen then seen else seen ++ [operation]) seen := by
    intro rest
    induction rest with
    | nil => exact fun _ h => h.resolve_right nofun
    | cons first rest ih =>
      intro seen hseen
      refine ih _ ?_
      dsimp only
      split
      · rename_i hfirst
        rcases hseen with hseen | hseen
        · exact .inl hseen
        · rcases List.mem_cons.mp hseen with rfl | hseen
          · exact .inl hfirst
          · exact .inr hseen
      · rcases hseen with hseen | hseen
        · exact .inl (List.mem_append_left _ hseen)
        · rcases List.mem_cons.mp hseen with rfl | hseen
          · exact .inl (List.mem_append_right _ (List.mem_singleton_self _))
          · exact .inr hseen
  exact hall operations [] (.inr h)

theorem mem_sortDesiredOperations {operations : List DesiredOperation} :
    operation ∈ sortDesiredOperations operations ↔ operation ∈ operations := List.mem_insertionSort _

/-- Both loops end. From the operations of the store comes the least closed set of them, each operation once; from rows
come the paths of the least closed set of their operations, besides the start, and the rows of its operations. -/
theorem intent_closures_least (start : List WorkspacePath) :
    (∀ db : Db, ∃ (closure : List WorkspacePath × List DesiredOperation) (S : Set DesiredOperation),
      Ends (expandOperations db.available) (·.2.length) (start, []) closure ∧
      db.deferredOperationsIntersecting start = sortDesiredOperations closure.2 ∧
      LeastClosed {o | ∃ row ∈ db.deferredRows, row.2 = o} start S ∧
      (db.deferredOperationsIntersecting start).Nodup ∧ ∀ o, o ∈ db.deferredOperationsIntersecting start ↔ o ∈ S) ∧
    ∀ existing : List (WorkspacePath × DesiredOperation), ∃ (closure : List WorkspacePath) (S : Set DesiredOperation),
      Ends (expandClosure existing) List.length start closure ∧
      (renameIntentClosure start existing).1 = sortPaths closure ∧
      LeastClosed {o | ∃ row ∈ existing, row.2 = o} start S ∧
      (∀ path, path ∈ (renameIntentClosure start existing).1 ↔ path ∈ start ∨ ∃ o ∈ S, path ∈ o.paths) ∧
      ∀ path, path ∈ (renameIntentClosure start existing).2 ↔ ∃ o ∈ S, (path, o) ∈ existing := by
  constructor
  · intro db
    obtain ⟨hnodup, hleast⟩ := closeOperations_least (@closeOperations_ends db.available start)
    have hsame : {o | o ∈ db.available} = {o | ∃ row ∈ db.deferredRows, row.2 = o} := by
      ext o
      simp [Db.available, mem_dedupOperations_iff, Db.deferredRows]
    rw [hsame] at hleast
    exact ⟨_, _, closeOperations_ends start, rfl, hleast,
      (List.perm_insertionSort _ _).nodup_iff.mpr hnodup, fun o => mem_sortDesiredOperations⟩
  · intro existing
    obtain ⟨hleast, hpaths⟩ := closeClosure_least (closeClosure_ends existing start)
    refine ⟨_, _, closeClosure_ends existing start, rfl, hleast, fun path => ?_, fun path => ?_⟩
    · exact mem_sortPaths.trans (hpaths path)
    · have hrow : path ∈ (renameIntentClosure start existing).2 ↔
          ∃ row ∈ existing, Touches row.2 (sortPaths (closeClosure existing (2 * existing.length + 1) start)) ∧
            row.1 = path := by
        simp only [renameIntentClosure, mem_sortPaths, List.mem_map, List.mem_filter, any_pathsIntersect_iff, and_assoc]
      rw [hrow]
      have hsorted : ∀ o, Touches o (sortPaths (closeClosure existing (2 * existing.length + 1) start)) ↔
          Touches o (closeClosure existing (2 * existing.length + 1) start) :=
        fun o => ⟨fun h => h.mono fun _ => mem_sortPaths.mp, fun h => h.mono fun _ => mem_sortPaths.mpr⟩
      constructor
      · rintro ⟨⟨recordPath, o⟩, hin, htouches, rfl⟩
        exact ⟨o, ⟨⟨_, hin, rfl⟩, (hsorted o).mp htouches⟩, hin⟩
      · rintro ⟨o, ⟨-, htouches⟩, hin⟩
        exact ⟨(path, o), hin, (hsorted o).mpr htouches, rfl⟩

end Lumio.Sync
