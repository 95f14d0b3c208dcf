import Mathlib.Data.List.Sort
import Mathlib.Logic.Relation

/-!
# Renames in a tree of names

A tree gives what is stored under each name. A rename moves what is stored under a name, and under the names that
extend it after a separator, to a name that is free. Renames of names that have nothing to do with each other may
change places, and renames of which each goes on where the one before it has ended are one.
-/

namespace Renames

variable {A V : Type} [DecidableEq A] {separator : A}

def remainder (separator : A) (name path : List A) : Option (List A) :=
  if name.isPrefixOf path then
    let rest := path.drop name.length
    if rest = [] ∨ rest.head? = some separator then some rest else none
  else none

def Apart (separator : A) (a b : List A) : Prop := remainder separator a b = none ∧ remainder separator b a = none

instance (a b : List A) : Decidable (Apart separator a b) :=
  inferInstanceAs (Decidable (remainder separator a b = none ∧ remainder separator b a = none))

abbrev Tree (A V : Type) := List A → Option V

abbrev Rename (A : Type) := List A × List A

def move (separator : A) (rename : Rename A) (tree : Tree A V) : Tree A V := fun path =>
  match remainder separator rename.2 path with
  | some rest => tree (rename.1 ++ rest)
  | none => if (remainder separator rename.1 path).isSome then none else tree path

/-- The name that is moved is there, and the name it is moved to is free. A rename to the same name does nothing. -/
def Movable (separator : A) (rename : Rename A) (tree : Tree A V) : Prop :=
  (tree rename.1).isSome ∧ (rename.1 = rename.2 ∨ Apart separator rename.1 rename.2 ∧
    ∀ path, (remainder separator rename.2 path).isSome → tree path = none)

/-- The renames can be carried out one after the other, from the first tree to the second. -/
def Runs (separator : A) : List (Rename A) → Tree A V → Tree A V → Prop
  | [], tree, final => final = tree
  | rename :: rest, tree, final => Movable separator rename tree ∧ Runs separator rest (move separator rename tree) final

/-! ## Names -/

variable {name path rest a b : List A}

theorem remainder_eq_some : remainder separator name path = some rest ↔
    path = name ++ rest ∧ (rest = [] ∨ rest.head? = some separator) := by
  unfold remainder
  split
  · rename_i h
    obtain ⟨other, rfl⟩ := List.isPrefixOf_iff_prefix.mp h
    simp only [List.drop_left, Option.ite_none_right_eq_some, Option.some.injEq, List.append_cancel_left_eq]
    constructor
    · rintro ⟨hrest, rfl⟩
      exact ⟨rfl, hrest⟩
    · rintro ⟨rfl, hrest⟩
      exact ⟨hrest, rfl⟩
  · rename_i h
    simp only [reduceCtorEq, false_iff, not_and]
    rintro rfl
    exact absurd (List.isPrefixOf_iff_prefix.mpr (List.prefix_append name rest)) h

theorem remainder_append (h : rest = [] ∨ rest.head? = some separator) :
    remainder separator name (name ++ rest) = some rest := remainder_eq_some.mpr ⟨rfl, h⟩

@[simp] theorem remainder_self (name : List A) : remainder separator name name = some [] :=
  remainder_eq_some.mpr ⟨by simp, .inl rfl⟩

theorem remainder_valid (h : remainder separator name path = some rest) :
    rest = [] ∨ rest.head? = some separator := (remainder_eq_some.mp h).2

theorem Apart.symm (h : Apart separator a b) : Apart separator b a := ⟨h.2, h.1⟩

theorem Apart.ne (h : Apart separator a b) : a ≠ b := by
  rintro rfl
  have hnone := h.1
  simp at hnone

theorem Apart.not_both {x y : List A} (h : Apart separator a b) (ha : remainder separator a path = some x)
    (hb : remainder separator b path = some y) : False := by
  obtain ⟨hpathA, hx⟩ := remainder_eq_some.mp ha
  obtain ⟨hpathB, hy⟩ := remainder_eq_some.mp hb
  have hboth : a ++ x = b ++ y := hpathA.symm.trans hpathB
  rcases List.append_eq_append_iff.mp hboth with ⟨rest, hb', hrest⟩ | ⟨rest, ha', hrest⟩
  · have hvalid : rest = [] ∨ rest.head? = some separator := by
      cases rest with
      | nil => exact .inl rfl
      | cons c cs =>
        rcases hx with hx | hx
        · simp [hx] at hrest
        · exact .inr (by simpa [hrest] using hx)
    have hnone := h.1
    rw [hb', remainder_append hvalid] at hnone
    cases hnone
  · have hvalid : rest = [] ∨ rest.head? = some separator := by
      cases rest with
      | nil => exact .inl rfl
      | cons c cs =>
        rcases hy with hy | hy
        · simp [hy] at hrest
        · exact .inr (by simpa [hrest] using hy)
    have hnone := h.2
    rw [ha', remainder_append hvalid] at hnone
    cases hnone

theorem Apart.remainder_none {x : List A} (h : Apart separator a b) (ha : remainder separator a path = some x) :
    remainder separator b path = none := by
  cases hb : remainder separator b path with
  | none => rfl
  | some y => exact (h.not_both ha hb).elim

/-! ## One rename -/

section

variable {tree : Tree A V} {rename : Rename A} {path rest : List A}

theorem move_target (h : remainder separator rename.2 path = some rest) :
    move separator rename tree path = tree (rename.1 ++ rest) := by
  simp [move, h]

theorem move_source (htarget : remainder separator rename.2 path = none)
    (hsource : remainder separator rename.1 path = some rest) : move separator rename tree path = none := by
  simp [move, htarget, hsource]

theorem move_other (htarget : remainder separator rename.2 path = none)
    (hsource : remainder separator rename.1 path = none) : move separator rename tree path = tree path := by
  simp [move, htarget, hsource]

theorem move_self (h : rename.1 = rename.2) : move separator rename tree = tree := by
  funext path
  cases hpath : remainder separator rename.2 path with
  | some rest => rw [move_target hpath, h, (remainder_eq_some.mp hpath).1]
  | none => rw [move_other hpath (by rw [h, hpath])]

end

/-! ## Renames that may change places -/

structure Independent (separator : A) (a b : Rename A) : Prop where
  sources : Apart separator a.1 b.1
  across : Apart separator a.1 b.2
  back : Apart separator a.2 b.1
  targets : Apart separator a.2 b.2

theorem Independent.symm {a b : Rename A} (h : Independent separator a b) : Independent separator b a :=
  ⟨h.sources.symm, h.back.symm, h.across.symm, h.targets.symm⟩

section

variable {tree final : Tree A V} {a b : Rename A} {xs ys : List (Rename A)}

theorem move_of_apart {name path rest : List A} (hsource : Apart separator a.1 name) (htarget : Apart separator a.2 name)
    (hpath : remainder separator name path = some rest) : move separator a tree path = tree path :=
  move_other (htarget.symm.remainder_none hpath) (hsource.symm.remainder_none hpath)

theorem Movable.of_move (h : Independent separator a b) :
    Movable separator b (move separator a tree) ↔ Movable separator b tree := by
  have hfree : ∀ path, (remainder separator b.2 path).isSome → move separator a tree path = tree path := by
    intro path hpath
    obtain ⟨rest, hrest⟩ := Option.isSome_iff_exists.mp hpath
    exact move_of_apart h.across h.targets hrest
  have hsource : move separator a tree b.1 = tree b.1 := move_of_apart h.sources h.back (remainder_self _)
  unfold Movable
  rw [hsource]
  refine and_congr_right fun _ => or_congr_right (and_congr_right fun _ => forall₂_congr fun path hpath => ?_)
  rw [hfree path hpath]

theorem move_comm (h : Independent separator a b) :
    move separator b (move separator a tree) = move separator a (move separator b tree) := by
  funext path
  have hbSource : ∀ rest, rest = [] ∨ rest.head? = some separator →
      move separator a tree (b.1 ++ rest) = tree (b.1 ++ rest) := fun rest hrest =>
    move_of_apart h.sources h.back (remainder_append hrest)
  have haSource : ∀ rest, rest = [] ∨ rest.head? = some separator →
      move separator b tree (a.1 ++ rest) = tree (a.1 ++ rest) := fun rest hrest =>
    move_of_apart h.symm.sources h.symm.back (remainder_append hrest)
  cases hbTarget : remainder separator b.2 path with
  | some rest =>
    rw [move_target hbTarget, hbSource rest (remainder_valid hbTarget),
      move_other (h.targets.symm.remainder_none hbTarget) (h.across.symm.remainder_none hbTarget),
      move_target hbTarget]
  | none =>
    cases haTarget : remainder separator a.2 path with
    | some rest =>
      rw [move_target haTarget, haSource rest (remainder_valid haTarget),
        move_other hbTarget (h.back.remainder_none haTarget), move_target haTarget]
    | none =>
      cases hb : remainder separator b.1 path with
      | some rest =>
        rw [move_source hbTarget hb, move_other haTarget (h.sources.symm.remainder_none hb),
          move_source hbTarget hb]
      | none =>
        rw [move_other hbTarget hb]
        cases ha : remainder separator a.1 path with
        | some rest => rw [move_source haTarget ha, move_source haTarget ha]
        | none => rw [move_other haTarget ha, move_other haTarget ha, move_other hbTarget hb]

theorem Runs.append : Runs separator (xs ++ ys) tree final ↔
    ∃ middle, Runs separator xs tree middle ∧ Runs separator ys middle final := by
  induction xs generalizing tree with
  | nil => simp [Runs]
  | cons x xs ih => simp only [List.cons_append, Runs, ih, and_assoc, exists_and_left]

theorem Runs.swap (h : Independent separator a b) (hruns : Runs separator (a :: b :: xs) tree final) :
    Runs separator (b :: a :: xs) tree final := by
  obtain ⟨ha, hb, hrest⟩ := hruns
  refine ⟨(Movable.of_move h).mp hb, (Movable.of_move h.symm).mpr ha, ?_⟩
  rwa [← move_comm h]

theorem Runs.orderedInsert {α : Type} (text : α → Rename A) {before : α → α → Prop} [DecidableRel before] {x : α}
    {ys : List α} (h : ∀ y ∈ ys, Independent separator (text x) (text y) ∨ before x y)
    (hruns : Runs separator ((x :: ys).map text) tree final) :
    Runs separator ((ys.orderedInsert before x).map text) tree final := by
  induction ys generalizing tree with
  | nil => exact hruns
  | cons y ys ih =>
    rw [List.orderedInsert_cons]
    split
    · exact hruns
    · rename_i hbefore
      have hindependent := (h y (by simp)).resolve_right hbefore
      obtain ⟨hy, hrest⟩ := Runs.swap hindependent hruns
      exact ⟨hy, ih (fun z hz => h z (by simp [hz])) hrest⟩

/-- Renames can be sorted when each two of them are independent or in order. -/
theorem Runs.insertionSort {α : Type} (text : α → Rename A) {before : α → α → Prop} [DecidableRel before]
    {xs : List α} (h : xs.Pairwise fun a b => Independent separator (text a) (text b) ∨ before a b)
    (hruns : Runs separator (xs.map text) tree final) :
    Runs separator ((xs.insertionSort before).map text) tree final := by
  induction xs generalizing tree with
  | nil => exact hruns
  | cons x xs ih =>
    obtain ⟨hx, hrest⟩ := List.pairwise_cons.mp h
    refine Runs.orderedInsert text (fun y hy => hx y ((List.mem_insertionSort before).mp hy)) ⟨hruns.1, ?_⟩
    exact ih hrest hruns.2

end

/-! ## Renames that are one -/

section

variable {tree final : Tree A V} {source name next target : List A} {links xs ys : List (Rename A)}

def texts {N : Type} (text : N → List A) (xs : List (N × N)) : List (Rename A) := xs.map (Prod.map text text)

/-- Each rename goes on where the one before it has ended, from the first name to the last. -/
def Linked : List A → List (Rename A) → List A → Prop
  | name, [], target => name = target
  | name, rename :: rest, target => rename.1 = name ∧ Linked rename.2 rest target

theorem move_move (hfree : ∀ path, (remainder separator name path).isSome →
      (remainder separator source path).isSome ∨ tree path = none)
    (hmovable : Movable separator (name, next) (move separator (source, name) tree)) :
    move separator (name, next) (move separator (source, name) tree) = move separator (source, next) tree ∧
      ∀ path, (remainder separator next path).isSome →
        (remainder separator source path).isSome ∨ tree path = none := by
  obtain ⟨-, hsame | ⟨haway, hnext⟩⟩ := hmovable
  · cases hsame
    exact ⟨move_self rfl, hfree⟩
  -- what is below neither name is as before the first of the two renames, less the source
  have hother : ∀ path, remainder separator name path = none → remainder separator next path = none →
      move separator (source, name) tree path = move separator (source, next) tree path := by
    intro path hname hnot
    cases hsource : remainder separator source path with
    | some rest => rw [move_source hname hsource, move_source hnot hsource]
    | none => rw [move_other hname hsource, move_other hnot hsource]
  constructor
  · funext path
    cases hpath : remainder separator next path with
    | some rest =>
      have hkept : move separator (source, name) tree (name ++ rest) = tree (source ++ rest) :=
        move_target (remainder_append (remainder_valid hpath))
      rw [move_target hpath, hkept, move_target hpath]
    | none =>
      cases hname : remainder separator name path with
      | none => rw [move_other hpath hname, hother path hname hpath]
      | some rest =>
        rw [move_source hpath hname]
        cases hsource : remainder separator source path with
        | some _ => rw [move_source hpath hsource]
        | none =>
          rw [move_other hpath hsource]
          exact ((hfree path (by simp [hname])).resolve_left (by simp [hsource])).symm
  · intro path hpath
    obtain ⟨rest, hrest⟩ := Option.isSome_iff_exists.mp hpath
    have hname := haway.symm.remainder_none hrest
    have hnone := hnext path hpath
    cases hsource : remainder separator source path with
    | some _ => exact .inl rfl
    | none =>
      rw [move_other hname hsource] at hnone
      exact .inr hnone

theorem Linked.runs_move (hlinked : Linked name links target)
    (hfree : ∀ path, (remainder separator name path).isSome →
      (remainder separator source path).isSome ∨ tree path = none)
    (hruns : Runs separator links (move separator (source, name) tree) final) :
    final = move separator (source, target) tree ∧ ∀ path, (remainder separator target path).isSome →
      (remainder separator source path).isSome ∨ tree path = none := by
  induction links generalizing name with
  | nil =>
    cases hlinked
    exact ⟨hruns, hfree⟩
  | cons link links ih =>
    obtain ⟨rfl, hlinked⟩ := hlinked
    obtain ⟨hmovable, hruns⟩ := hruns
    have hmovable : Movable separator (link.1, link.2) (move separator (source, link.1) tree) := hmovable
    obtain ⟨hmove, hfree⟩ := move_move hfree hmovable
    rw [hmove] at hruns
    exact ih hlinked hfree hruns

theorem Linked.runs (hlinked : Linked source links target) (hne : links ≠ [])
    (hends : source = target ∨ Apart separator source target) (hruns : Runs separator links tree final) :
    Movable separator (source, target) tree ∧ final = move separator (source, target) tree := by
  have hsource : (tree source).isSome := by
    cases links with
    | nil => exact absurd rfl hne
    | cons link links =>
      obtain ⟨rfl, -⟩ := hlinked
      exact hruns.1.1
  have hself : move separator (source, source) tree = tree := move_self rfl
  obtain ⟨hfinal, hfree⟩ := hlinked.runs_move (fun _ hpath => .inl hpath) (by rwa [hself])
  refine ⟨⟨hsource, hends.imp id fun hapart => ⟨hapart, fun path hpath => ?_⟩⟩, hfinal⟩
  obtain ⟨rest, hrest⟩ := Option.isSome_iff_exists.mp hpath
  exact (hfree path hpath).resolve_left (by simp [hapart.symm.remainder_none hrest])

/-! ## Telling renames apart -/

/-- One step that does not change what a list of renames does: independent neighbours change places, renames of one
entry that stand together become one, and a rename to the same name is dropped. -/
inductive Regroups (separator : A) : List (Rename A) → List (Rename A) → Prop
  | swap (xs ys : List (Rename A)) {a b : Rename A} (h : Independent separator a b) :
      Regroups separator (xs ++ a :: b :: ys) (xs ++ b :: a :: ys)
  | join (xs ys : List (Rename A)) {links : List (Rename A)} {source target : List A} (hne : links ≠ [])
      (h : Linked source links target) (hends : source = target ∨ Apart separator source target) :
      Regroups separator (xs ++ (links ++ ys)) (xs ++ (source, target) :: ys)
  | drop (xs ys : List (Rename A)) (name : List A) : Regroups separator (xs ++ (name, name) :: ys) (xs ++ ys)

theorem Regroups.runs (h : Regroups separator xs ys) (hruns : Runs separator xs tree final) :
    Runs separator ys tree final := by
  cases h with
  | swap before after hindependent =>
    obtain ⟨reached, hbefore, hafter⟩ := Runs.append.mp hruns
    exact Runs.append.mpr ⟨reached, hbefore, Runs.swap hindependent hafter⟩
  | join before after hne hlinked hends =>
    obtain ⟨reached, hbefore, hafter⟩ := Runs.append.mp hruns
    obtain ⟨joined, hlinks, hafter⟩ := Runs.append.mp hafter
    obtain ⟨hmovable, rfl⟩ := hlinked.runs hne hends hlinks
    exact Runs.append.mpr ⟨reached, hbefore, hmovable, hafter⟩
  | drop before after name =>
    obtain ⟨reached, hbefore, -, hafter⟩ := Runs.append.mp hruns
    rw [move_self rfl] at hafter
    exact Runs.append.mpr ⟨reached, hbefore, hafter⟩

theorem runs_of_regrouped (h : Relation.ReflTransGen (Regroups separator) xs ys)
    (hruns : Runs separator xs tree final) : Runs separator ys tree final := by
  induction h with
  | refl => exact hruns
  | tail _ hstep ih => exact hstep.runs ih

end

end Renames
