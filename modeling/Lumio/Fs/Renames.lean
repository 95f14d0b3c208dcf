import Lumio.Fs.Coalesce
import Lumio.Lib.Renames
import Lumio.Protocol.Paths

/-!
# What collapsed renames do

The renames of a flush are collapsed before they are emitted: two of which the second starts where the first ends
become one, whatever happened between them and whichever came first. The order of time is lost with the sorting.
Where no join mistakes the entry and the net renames may be sorted, the collapsed renames do what the list does.
-/

namespace Lumio.Fs.EventCoalescer

open Lumio.Protocol

abbrev NameTree (V : Type) := Renames.Tree Char V

def Executes {V : Type} (renames : List (WorkspacePath × WorkspacePath)) (tree final : NameTree V) : Prop :=
  Renames.Runs '/' (Renames.texts WorkspacePath.chars renames) tree final

/-! ## What becomes of each entry -/

/-- Where an entry is carried to from a name, by the first later rename that starts there and so on, and the renames
of other entries. -/
def follow (name : WorkspacePath) :
    List (WorkspacePath × WorkspacePath) → WorkspacePath × List (WorkspacePath × WorkspacePath)
  | [] => (name, [])
  | rename :: rest =>
    if rename.1 = name then follow rename.2 rest else ((follow name rest).1, rename :: (follow name rest).2)

theorem follow_sublist (name : WorkspacePath) (renames : List (WorkspacePath × WorkspacePath)) :
    (follow name renames).2.Sublist renames := by
  induction renames generalizing name with
  | nil => exact List.Sublist.refl _
  | cons rename rest ih =>
    rw [follow]
    split
    · exact (ih rename.2).cons rename
    · exact (ih name).cons_cons rename

/-- The net renames: one for each entry, in the order of their first renames. -/
def netRenames : List (WorkspacePath × WorkspacePath) → List (WorkspacePath × WorkspacePath)
  | [] => []
  | (source, name) :: rest => (source, (follow name rest).1) :: netRenames (follow name rest).2
termination_by renames => renames.length
decreasing_by exact Nat.lt_succ_of_le (follow_sublist name rest).length_le

/-- The entry that is followed is never carried to a name of `starts`, where one of the entries followed before has
started, nor to a name where a rename that stands earlier in the list and belongs to an entry not yet followed starts. -/
def Followed (starts : List WorkspacePath) (name : WorkspacePath) : List (WorkspacePath × WorkspacePath) → Prop
  | [] => name ∉ starts
  | rename :: rest =>
    if rename.1 = name then name ∉ starts ∧ Followed starts rename.2 rest
    else Followed (rename.1 :: starts) name rest

def Unmistaken (starts : List WorkspacePath) : List (WorkspacePath × WorkspacePath) → Prop
  | [] => True
  | (source, name) :: rest => Followed starts name rest ∧ Unmistaken (source :: starts) (follow name rest).2
termination_by renames => renames.length
decreasing_by exact Nat.lt_succ_of_le (follow_sublist name rest).length_le

/-- The order in which renames are sorted: by the source, and by the target where the sources are the same. -/
abbrev SortsBefore (a b : WorkspacePath × WorkspacePath) : Prop :=
  if a.1 = b.1 then a.2.le b.2 = true else a.1.le b.1 = true

/-- Each join is of two renames of one entry; and regrouping tells the entries apart, into net renames of which each two
are independent or in the order of sorting. -/
structure Collapsible (renames : List (WorkspacePath × WorkspacePath)) : Prop where
  unmistaken : Unmistaken [] renames
  told : ∃ net : List (WorkspacePath × WorkspacePath),
    net.Perm ((netRenames renames).filter fun rename => rename.1 ≠ rename.2) ∧
    Relation.ReflTransGen (Renames.Regroups '/') (Renames.texts WorkspacePath.chars renames)
      (Renames.texts WorkspacePath.chars net) ∧
    net.Pairwise fun a b => Renames.Independent '/' (Prod.map WorkspacePath.chars WorkspacePath.chars a)
      (Prod.map WorkspacePath.chars WorkspacePath.chars b) ∨ (a ≠ b ∧ SortsBefore a b)

/-! ## The pair to join -/

theorem findSome?_range_eq_none {α : Type} {f : Nat → Option α} {n : Nat} (h : (List.range n).findSome? f = none) :
    ∀ i < n, f i = none := fun i hi => List.findSome?_eq_none_iff.mp h i (List.mem_range.mpr hi)

theorem findSome?_range_eq_some {α : Type} {f : Nat → Option α} {a : α} : ∀ {n : Nat},
    (List.range n).findSome? f = some a → ∃ i < n, f i = some a ∧ ∀ j < i, f j = none
  | 0, h => by simp at h
  | n + 1, h => by
    rw [List.range_succ, List.findSome?_append] at h
    cases hbefore : (List.range n).findSome? f with
    | some found =>
      rw [hbefore, Option.some_or] at h
      obtain ⟨i, hi, hfound, hfirst⟩ := findSome?_range_eq_some hbefore
      exact ⟨i, by omega, by rw [hfound, h], hfirst⟩
    | none =>
      rw [hbefore, Option.none_or] at h
      exact ⟨n, by omega, by simpa using h, findSome?_range_eq_none hbefore⟩

section

variable {renames : List (WorkspacePath × WorkspacePath)} {left right : Nat}

def Meets (renames : List (WorkspacePath × WorkspacePath)) (left right : Nat) : Prop :=
  left ≠ right ∧ (renames[left]?).map (·.2) = (renames[right]?).map (·.1)

theorem chainedPair_eq_some (h : chainedPair renames = some (left, right)) :
    left < renames.length ∧ right < renames.length ∧ Meets renames left right ∧
      (∀ i < left, ∀ j < renames.length, ¬Meets renames i j) ∧ ∀ j < right, ¬Meets renames left j := by
  obtain ⟨i, hi, hfound, hfirst⟩ := findSome?_range_eq_some h
  obtain ⟨j, hj, hmeets, hsecond⟩ := findSome?_range_eq_some hfound
  simp only [Option.ite_none_right_eq_some, Option.some.injEq, Prod.mk.injEq, Bool.and_eq_true, decide_eq_true_eq]
    at hmeets
  obtain ⟨hmeets, rfl, rfl⟩ := hmeets
  refine ⟨hi, hj, hmeets, fun i' hi' j' hj' hmeets' => ?_, fun j' hj' hmeets' => ?_⟩
  · have hnone := findSome?_range_eq_none (hfirst i' hi') j' hj'
    simp [hmeets'.1, hmeets'.2] at hnone
  · have hnone := hsecond j' hj'
    simp [hmeets'.1, hmeets'.2] at hnone

theorem chainedPair_eq_none (h : chainedPair renames = none) :
    ∀ i < renames.length, ∀ j < renames.length, ¬Meets renames i j := by
  intro i hi j hj hmeets
  have hnone := findSome?_range_eq_none (findSome?_range_eq_none h i hi) j hj
  simp [hmeets.1, hmeets.2] at hnone

theorem chainedPair_of_meets (hleft : left < renames.length) (hright : right < renames.length)
    (hmeets : Meets renames left right) (hfirst : ∀ i < left, ∀ j < renames.length, ¬Meets renames i j)
    (hsecond : ∀ j < right, ¬Meets renames left j) : chainedPair renames = some (left, right) := by
  cases hpair : chainedPair renames with
  | none => exact absurd hmeets (chainedPair_eq_none hpair left hleft right hright)
  | some pair =>
    obtain ⟨i, j⟩ := pair
    obtain ⟨hi, hj, hmeets', hfirst', hsecond'⟩ := chainedPair_eq_some hpair
    rcases Nat.lt_trichotomy i left with h | rfl | h
    · exact absurd hmeets' (hfirst i h j hj)
    · rcases Nat.lt_trichotomy j right with h | rfl | h
      · exact absurd hmeets' (hsecond j h)
      · rfl
      · exact absurd hmeets (hsecond' right h)
    · exact absurd hmeets (hfirst' left h right hright)

end

/-! ## Joining -/

section

variable {α : Type} (before between after : List α) (x y z : α)

theorem getElem?_first : (before ++ x :: between ++ y :: after)[before.length]? = some x := by
  rw [List.append_assoc, List.getElem?_append_right (Nat.le_refl _)]
  simp

theorem getElem?_second :
    (before ++ x :: between ++ y :: after)[before.length + 1 + between.length]? = some y := by
  have hlength : before.length + 1 + between.length = (before ++ x :: between).length := by simp; omega
  rw [hlength, List.getElem?_append_right (Nat.le_refl _)]
  simp

theorem set_eraseIdx :
    ((before ++ x :: between ++ y :: after).set before.length z).eraseIdx (before.length + 1 + between.length) =
      before ++ z :: between ++ after := by
  have hset : (before ++ x :: between ++ y :: after).set before.length z = before ++ z :: between ++ y :: after := by
    rw [List.append_assoc, List.set_append_right _ _ (Nat.le_refl _)]
    simp
  have hlength : before.length + 1 + between.length = (before ++ z :: between).length := by simp; omega
  rw [hset, hlength, List.eraseIdx_append_of_length_le (Nat.le_refl _)]
  simp

end

section

variable {done skipped rest : List (WorkspacePath × WorkspacePath)} {source name target : WorkspacePath}

/-- No rename of `done` ends where another one of the list starts. -/
structure Idle (done others : List (WorkspacePath × WorkspacePath)) : Prop where
  inside : done.Pairwise fun a b => a.2 ≠ b.1 ∧ b.2 ≠ a.1
  outside : ∀ a ∈ done, ∀ b ∈ others, a.2 ≠ b.1

theorem Idle.not_meets {others : List (WorkspacePath × WorkspacePath)} (h : Idle done others) {i j : Nat}
    (hi : i < done.length) (hj : j < (done ++ others).length) : ¬Meets (done ++ others) i j := by
  rintro ⟨hne, hmeets⟩
  rw [List.getElem?_append_left hi, List.getElem?_eq_getElem hi, Option.map_some] at hmeets
  by_cases hinside : j < done.length
  · rw [List.getElem?_append_left hinside, List.getElem?_eq_getElem hinside, Option.map_some, Option.some.injEq] at hmeets
    rcases Nat.lt_or_gt_of_ne hne with hlt | hlt
    · exact (List.pairwise_iff_getElem.mp h.inside i j hi hinside hlt).1 hmeets
    · exact (List.pairwise_iff_getElem.mp h.inside j i hinside hi hlt).2 hmeets
  · have hother : j - done.length < others.length := by
      rw [List.length_append] at hj
      omega
    rw [List.getElem?_append_right (Nat.le_of_not_lt hinside), List.getElem?_eq_getElem hother, Option.map_some,
      Option.some.injEq] at hmeets
    exact h.outside _ (List.getElem_mem hi) _ (List.getElem_mem hother) hmeets

theorem chainedPair_of_idle (h : Idle done []) : chainedPair done = none := by
  cases hpair : chainedPair done with
  | none => rfl
  | some pair =>
    obtain ⟨hi, hj, hmeets, -⟩ := chainedPair_eq_some hpair
    exact absurd (by simpa using hmeets) (h.not_meets hi (by simpa using hj))

theorem chainedPair_next (h : Idle done ((source, name) :: skipped ++ (name, target) :: rest))
    (hdone : ∀ x ∈ done, name ≠ x.1) (hskipped : ∀ x ∈ skipped, name ≠ x.1) :
    chainedPair (done ++ (source, name) :: skipped ++ (name, target) :: rest) =
      some (done.length, done.length + 1 + skipped.length) := by
  have hlength : (done ++ (source, name) :: skipped ++ (name, target) :: rest).length =
      done.length + 1 + skipped.length + 1 + rest.length := by
    simp
    omega
  refine chainedPair_of_meets (by omega) (by omega) ⟨by omega, ?_⟩ (fun i hi j hj => ?_) (fun j hj => ?_)
  · rw [getElem?_first, getElem?_second]
    rfl
  · rw [List.append_assoc] at hj ⊢
    exact h.not_meets hi hj
  · rintro ⟨hne, hmeets⟩
    rw [getElem?_first] at hmeets
    obtain ⟨x, hx, hsame⟩ := Option.map_eq_some_iff.mp hmeets.symm
    rcases Nat.lt_or_gt_of_ne hne with hlt | hlt
    · rw [List.append_assoc, List.getElem?_append_right (Nat.le_of_lt hlt), List.cons_append,
        List.getElem?_cons, if_neg (by omega), List.getElem?_append_left (by omega)] at hx
      exact hskipped x (List.mem_of_getElem? hx) hsame.symm
    · rw [List.append_assoc, List.getElem?_append_left hlt] at hx
      exact hdone x (List.mem_of_getElem? hx) hsame.symm

/-- The entry at hand is carried to its end, past the renames of other entries. -/
theorem joinChains_follow (fuel : Nat) (skipped : List (WorkspacePath × WorkspacePath)) {starts : List WorkspacePath}
    (hidle : Idle done ((source, name) :: skipped ++ rest)) (hstarts : ∀ x ∈ done ++ skipped, x.1 ∈ starts)
    (hfollowed : Followed starts name rest) (hfuel : (done ++ (source, name) :: skipped ++ rest).length ≤ fuel) :
    (∀ x ∈ done ++ skipped ++ (follow name rest).2, (follow name rest).1 ≠ x.1) ∧
      ∃ left, (done ++ (source, (follow name rest).1) :: skipped ++ (follow name rest).2).length ≤ left ∧
        joinChains fuel (done ++ (source, name) :: skipped ++ rest) =
          joinChains left (done ++ (source, (follow name rest).1) :: skipped ++ (follow name rest).2) := by
  induction rest generalizing skipped starts name fuel with
  | nil =>
    refine ⟨fun x hx hsame => hfollowed ?_, fuel, hfuel, rfl⟩
    have hstart := hstarts x (by simpa [follow] using hx)
    rwa [← hsame] at hstart
  | cons rename rest ih =>
    obtain ⟨start, reached⟩ := rename
    rw [Followed] at hfollowed
    rw [follow]
    split at hfollowed
    · rename_i hsame
      cases hsame
      obtain ⟨hnot, hfollowed⟩ := hfollowed
      rw [if_pos rfl]
      have hleft : ∀ x ∈ done ++ skipped, start ≠ x.1 := by
        rintro x hx rfl
        exact hnot (hstarts x hx)
      have hpair := chainedPair_next hidle (fun x hx => hleft x (by simp [hx])) (fun x hx => hleft x (by simp [hx]))
      have hidle' : Idle done ((source, reached) :: skipped ++ rest) := by
        refine ⟨hidle.inside, fun x hx y hy => ?_⟩
        rcases List.mem_append.mp hy with hy | hy
        · rcases List.mem_cons.mp hy with rfl | hy
          · exact hidle.outside x hx (source, start) (by simp)
          · exact hidle.outside x hx y (by simp [hy])
        · exact hidle.outside x hx y (by simp [hy])
      cases fuel with
      | zero => simp at hfuel
      | succ fuel =>
        simp only [joinChains, hpair, getElem?_first, getElem?_second, set_eraseIdx]
        refine ih fuel skipped hidle' hstarts hfollowed ?_
        simp at hfuel ⊢
        omega
    · rename_i hother
      rw [if_neg hother]
      have hstarts' : ∀ x ∈ done ++ (skipped ++ [(start, reached)]), x.1 ∈ start :: starts := by
        intro x hx
        rcases List.mem_append.mp (List.append_assoc .. ▸ hx) with hx | hx
        · exact List.mem_cons_of_mem _ (hstarts x hx)
        · cases List.mem_singleton.mp hx
          exact List.mem_cons_self
      have hcarried := ih fuel (skipped ++ [(start, reached)]) (by simpa using hidle) hstarts'
        hfollowed (by simpa using hfuel)
      simpa using hcarried

/-- What joining leaves are the net renames. -/
theorem joinChains_append (done : List (WorkspacePath × WorkspacePath)) {starts : List WorkspacePath} {fuel : Nat}
    (hidle : Idle done rest) (hstarts : ∀ x ∈ done, x.1 ∈ starts) (hunmistaken : Unmistaken starts rest)
    (hfuel : (done ++ rest).length ≤ fuel) : joinChains fuel (done ++ rest) = done ++ netRenames rest := by
  induction rest using netRenames.induct generalizing done starts fuel with
  | case1 =>
    rw [netRenames, List.append_nil]
    cases fuel with
    | zero => rfl
    | succ fuel => simp only [joinChains, chainedPair_of_idle hidle]
  | case2 source name rest ih =>
    rw [Unmistaken] at hunmistaken
    have hcarried := joinChains_follow fuel [] hidle (by simpa using hstarts) hunmistaken.1
      (by simpa using hfuel)
    simp only [List.append_nil, List.append_assoc, List.cons_append, List.nil_append] at hcarried
    obtain ⟨hend, left, hleft, hjoined⟩ := hcarried
    have hidle' : Idle (done ++ [(source, (follow name rest).1)]) (follow name rest).2 := by
      refine ⟨List.pairwise_append.mpr ⟨hidle.inside, List.pairwise_singleton _ _, fun x hx y hy => ?_⟩,
        fun x hx y hy => ?_⟩
      · cases List.mem_singleton.mp hy
        exact ⟨hidle.outside x hx (source, name) (by simp), hend x (by simp [hx])⟩
      · rcases List.mem_append.mp hx with hx | hx
        · exact hidle.outside x hx y (List.mem_cons_of_mem _ ((follow_sublist name rest).subset hy))
        · cases List.mem_singleton.mp hx
          exact hend y (by simp [hy])
    have hstarts' : ∀ x ∈ done ++ [(source, (follow name rest).1)], x.1 ∈ source :: starts := by
      intro x hx
      rcases List.mem_append.mp hx with hx | hx
      · exact List.mem_cons_of_mem _ (hstarts x hx)
      · cases List.mem_singleton.mp hx
        exact List.mem_cons_self
    have hrest := ih _ hidle' hstarts' hunmistaken.2 (by simpa using hleft)
    rw [netRenames, hjoined]
    simpa using hrest

end

theorem joinChains_eq (h : Unmistaken [] renames) : joinChains renames.length renames = netRenames renames :=
  joinChains_append [] ⟨List.Pairwise.nil, by simp⟩ (by simp) h (Nat.le_refl _)

/-! ## Sorting -/

theorem path_le_antisymm {a b : WorkspacePath} (hab : a.le b = true) (hba : b.le a = true) : a = b :=
  chars_injective (bytesLe_antisymm hab hba)

theorem path_le_trans {a b c : WorkspacePath} (hab : a.le b = true) (hbc : b.le c = true) : a.le c = true :=
  bytesLe_trans hab hbc

theorem sortsBefore_iff {a b : WorkspacePath × WorkspacePath} :
    SortsBefore a b ↔ a.1.le b.1 = true ∧ (a.1 = b.1 → a.2.le b.2 = true) := by
  have hrefl : b.1.le b.1 = true := (bytesLe_total b.1.chars b.1.chars).elim id id
  unfold SortsBefore
  split
  · rename_i hsame
    simp [hsame, hrefl]
  · rename_i hother
    simp [hother]

instance totalSortsBefore : Std.Total SortsBefore where
  total := by
    intro a b
    simp only [sortsBefore_iff]
    by_cases hsame : a.1 = b.1
    · have hrefl : b.1.le b.1 = true := (bytesLe_total b.1.chars b.1.chars).elim id id
      rw [hsame]
      exact (bytesLe_total a.2.chars b.2.chars).imp (fun h => ⟨hrefl, fun _ => h⟩) (fun h => ⟨hrefl, fun _ => h⟩)
    · exact (bytesLe_total a.1.chars b.1.chars).imp (fun h => ⟨h, fun h => absurd h hsame⟩)
        (fun h => ⟨h, fun h => absurd h.symm hsame⟩)

instance transSortsBefore : IsTrans (WorkspacePath × WorkspacePath) SortsBefore where
  trans := by
    intro a b c hab hbc
    rw [sortsBefore_iff] at *
    refine ⟨path_le_trans hab.1 hbc.1, fun hsame => ?_⟩
    have hmiddle : a.1 = b.1 := path_le_antisymm hab.1 (hsame ▸ hbc.1)
    exact path_le_trans (hab.2 hmiddle) (hbc.2 (hmiddle ▸ hsame))

instance antisymmSortsBefore : Std.Antisymm SortsBefore where
  antisymm := by
    intro a b hab hba
    rw [sortsBefore_iff] at hab hba
    have hsame : a.1 = b.1 := path_le_antisymm hab.1 hba.1
    exact Prod.ext hsame (path_le_antisymm (hab.2 hsame) (hba.2 hsame.symm))

/-- Sorting, dropping repetitions and dropping what has returned leave the sorted net renames. -/
theorem collapseRenames_eq {net : List (WorkspacePath × WorkspacePath)} (h : Unmistaken [] renames)
    (hperm : net.Perm ((netRenames renames).filter fun rename => rename.1 ≠ rename.2)) (hnodup : net.Nodup) :
    collapseRenames renames = net.insertionSort SortsBefore := by
  have hsorted : ((netRenames renames).insertionSort SortsBefore).Pairwise SortsBefore :=
    List.pairwise_insertionSort _ _
  have hcollapsed : collapseRenames renames = (((netRenames renames).insertionSort SortsBefore).dedup).filter
      fun rename => rename.1 ≠ rename.2 := by
    rw [← hsorted.destutter_eq_dedup, ← joinChains_eq h]
    rfl
  have hsublist := (List.dedup_sublist ((netRenames renames).insertionSort SortsBefore)).filter
    fun rename => decide (rename.1 ≠ rename.2)
  have hpermed : (((netRenames renames).insertionSort SortsBefore).dedup.filter
      fun rename => rename.1 ≠ rename.2).Perm net := by
    refine (List.perm_ext_iff_of_nodup ((List.nodup_dedup _).filter _) hnodup).mpr fun rename => ?_
    rw [hperm.mem_iff]
    simp
  rw [hcollapsed]
  refine List.Perm.eq_of_pairwise' (r := SortsBefore) ?_ (List.pairwise_insertionSort _ _)
    (hpermed.trans (List.perm_insertionSort _ _).symm)
  exact (hsorted.sublist (List.dedup_sublist _)).filter _

/-- Renames that can be told apart may be collapsed. -/
theorem collapseRenames_executes {V : Type} {tree final : NameTree V} (h : Collapsible renames)
    (hruns : Executes renames tree final) : Executes (collapseRenames renames) tree final := by
  obtain ⟨net, hperm, hregroups, hpairwise⟩ := h.told
  have hnodup : net.Nodup := hpairwise.imp fun hab hsame => by
    rcases hab with hab | hab
    · exact hab.sources.ne (by rw [hsame])
    · exact hab.1 hsame
  rw [collapseRenames_eq h.unmistaken hperm hnodup]
  refine Renames.Runs.insertionSort _ (hpairwise.imp fun hab => hab.imp id And.right) ?_
  exact Renames.runs_of_regrouped hregroups hruns

/-! ## A rotation of two files -/

namespace Sample

theorem fileD_valid : pathError ['d'] = none := by decide

def fileA : WorkspacePath := ⟨['a'], by decide⟩
def fileB : WorkspacePath := ⟨['b'], by decide⟩
def fileC : WorkspacePath := ⟨['c'], by decide⟩
def fileD : WorkspacePath := ⟨['d'], fileD_valid⟩

def twoFiles : NameTree Nat := fun path => if path = ['a'] then some 1 else if path = ['b'] then some 2 else none

def rotation : List (WorkspacePath × WorkspacePath) := [(fileB, fileC), (fileA, fileB)]

/-- The second file is moved twice, and the first to the name that it has left in between. -/
def reuse : List (WorkspacePath × WorkspacePath) := [(fileB, fileC), (fileC, fileD), (fileA, fileC)]

theorem rotation_executes : Executes rotation twoFiles
    (Renames.move '/' (['a'], ['b']) (Renames.move '/' (['b'], ['c']) twoFiles)) := by
  refine ⟨⟨rfl, .inr ⟨by decide, fun path hpath => ?_⟩⟩, ⟨rfl, .inr ⟨by decide, fun path hpath => ?_⟩⟩, rfl⟩
  · obtain ⟨rest, hrest⟩ := Option.isSome_iff_exists.mp hpath
    obtain ⟨rfl, -⟩ := Renames.remainder_eq_some.mp hrest
    simp [twoFiles, fileC]
  · obtain ⟨rest, hrest⟩ := Option.isSome_iff_exists.mp hpath
    exact Renames.move_source (Renames.Apart.remainder_none (by decide) hrest) hrest

theorem reuse_executes : Executes reuse twoFiles (Renames.move '/' (['a'], ['c'])
    (Renames.move '/' (['c'], ['d']) (Renames.move '/' (['b'], ['c']) twoFiles))) := by
  have hfree : ∀ path, (Renames.remainder '/' ['d'] path).isSome → twoFiles path = none := by
    intro path hpath
    obtain ⟨rest, hrest⟩ := Option.isSome_iff_exists.mp hpath
    obtain ⟨rfl, -⟩ := Renames.remainder_eq_some.mp hrest
    simp [twoFiles]
  refine ⟨⟨rfl, .inr ⟨by decide, fun path hpath => ?_⟩⟩, ⟨rfl, .inr ⟨by decide, fun path hpath => ?_⟩⟩,
    ⟨rfl, .inr ⟨by decide, fun path hpath => ?_⟩⟩, rfl⟩
  · obtain ⟨rest, hrest⟩ := Option.isSome_iff_exists.mp hpath
    obtain ⟨rfl, -⟩ := Renames.remainder_eq_some.mp hrest
    simp [twoFiles, fileC]
  · obtain ⟨rest, hrest⟩ := Option.isSome_iff_exists.mp hpath
    exact (Renames.move_of_apart (by decide) (by decide) hrest).trans (hfree path hpath)
  · obtain ⟨rest, hrest⟩ := Option.isSome_iff_exists.mp hpath
    exact Renames.move_source (Renames.Apart.remainder_none (by decide) hrest) hrest

theorem reuse_collapsible : Collapsible reuse where
  unmistaken := by simp [Unmistaken, Followed, follow, reuse, fileA, fileB, fileC, fileD]
  told := by
    refine ⟨[(fileB, fileD), (fileA, fileC)], ?_, ?_, ?_⟩
    · simp [netRenames, follow, reuse, fileA, fileB, fileC, fileD]
    · exact Relation.ReflTransGen.single (.join [] [(['a'], ['c'])] (List.cons_ne_nil (['b'], ['c']) [(['c'], ['d'])])
        ⟨rfl, rfl, rfl⟩ (.inr (by decide)))
    · refine List.pairwise_pair.mpr (.inl ⟨?_, ?_, ?_, ?_⟩) <;> decide

end Sample

theorem collapseRenames_executes_reuse : Executes (collapseRenames Sample.reuse) Sample.twoFiles
    (Renames.move '/' (['a'], ['c'])
      (Renames.move '/' (['c'], ['d']) (Renames.move '/' (['b'], ['c']) Sample.twoFiles))) :=
  collapseRenames_executes Sample.reuse_collapsible Sample.reuse_executes

/-- The two renames of a rotation are taken for one, which moves the newer file to the place of the older. -/
theorem collapseRenames_loses_rotation :
    ¬∀ (renames : List (WorkspacePath × WorkspacePath)) (tree final : NameTree Nat), Executes renames tree final →
      Executes (collapseRenames renames) tree final := by
  intro h
  have hruns := h _ _ _ Sample.rotation_executes
  rw [show collapseRenames Sample.rotation = [(Sample.fileA, Sample.fileC)] by decide] at hruns
  have hfinal := congrFun hruns.2 ['b']
  revert hfinal
  decide

end Lumio.Fs.EventCoalescer
