import Mathlib.Data.List.Basic

/-!
# Cutting a growing list

Input that arrives in pieces is collected and cut into blocks from the front. A cut that does not depend on what comes
later yields the same blocks for every way the input was split.
-/

/-- A way to cut the first block off a list. More input after it changes neither the block nor where it ends. -/
structure Cutter (α β : Type) where
  cut : List α → Option (β × List α)
  shortens : ∀ {xs b rest}, cut xs = some (b, rest) → rest.length < xs.length
  stable : ∀ {xs b rest}, cut xs = some (b, rest) → ∀ more, cut (xs ++ more) = some (b, rest ++ more)

namespace Cutter

variable {α β : Type} (C : Cutter α β)

def blocksFuel : Nat → List α → List β × List α
  | 0, xs => ([], xs)
  | fuel + 1, xs =>
    match C.cut xs with
    | some (b, rest) => (b :: (blocksFuel fuel rest).1, (blocksFuel fuel rest).2)
    | none => ([], xs)

def blocks (xs : List α) : List β × List α := C.blocksFuel xs.length xs

variable {C} {xs rest : List α} {b : β}

theorem cut_nil : C.cut [] = none := by
  cases h : C.cut [] with
  | none => rfl
  | some found =>
    obtain ⟨b, rest⟩ := found
    exact absurd (C.shortens h) (Nat.not_lt_zero _)

theorem blocksFuel_eq {m n : Nat} (hm : xs.length ≤ m) (hn : xs.length ≤ n) : C.blocksFuel m xs = C.blocksFuel n xs := by
  induction m generalizing n xs with
  | zero =>
    have hnil : xs = [] := List.length_eq_zero_iff.mp (Nat.le_zero.mp hm)
    subst hnil
    cases n with
    | zero => rfl
    | succ n => simp [blocksFuel, cut_nil]
  | succ m ih =>
    cases n with
    | zero =>
      have hnil : xs = [] := List.length_eq_zero_iff.mp (Nat.le_zero.mp hn)
      subst hnil
      simp [blocksFuel, cut_nil]
    | succ n =>
      unfold blocksFuel
      cases h : C.cut xs with
      | none => rfl
      | some found =>
        obtain ⟨b, rest⟩ := found
        have hshort := C.shortens h
        have htail : C.blocksFuel m rest = C.blocksFuel n rest := ih (by omega) (by omega)
        simp only [htail]

theorem blocks_of_none (h : C.cut xs = none) : C.blocks xs = ([], xs) := by
  unfold blocks
  cases hlength : xs.length with
  | zero => rfl
  | succ n => simp [blocksFuel, h]

theorem blocks_of_some (h : C.cut xs = some (b, rest)) :
    C.blocks xs = (b :: (C.blocks rest).1, (C.blocks rest).2) := by
  have hshort := C.shortens h
  have hfuel : C.blocks xs = C.blocksFuel (rest.length + 1) xs := by
    cases hlength : xs.length with
    | zero => omega
    | succ n =>
      have htail : C.blocksFuel n rest = C.blocksFuel rest.length rest := blocksFuel_eq (by omega) (by omega)
      rw [blocks, hlength]
      simp only [blocksFuel, h, htail]
  rw [hfuel]
  simp only [blocksFuel, h]
  rfl

theorem blocks_induction {P : List α → Prop} (xs : List α) (hnone : ∀ xs, C.cut xs = none → P xs)
    (hsome : ∀ xs b rest, C.cut xs = some (b, rest) → P rest → P xs) : P xs := by
  induction hlength : xs.length using Nat.strongRecOn generalizing xs with
  | _ n ih =>
    cases h : C.cut xs with
    | none => exact hnone xs h
    | some found =>
      obtain ⟨b, rest⟩ := found
      exact hsome xs b rest h (ih rest.length (hlength ▸ C.shortens h) rest rfl)

theorem cut_blocks (xs : List α) : C.cut (C.blocks xs).2 = none := by
  induction xs using blocks_induction (C := C) with
  | hnone xs h => rw [blocks_of_none h]; exact h
  | hsome xs b rest h ih => rw [blocks_of_some h]; exact ih

/-- The blocks of a longer list are those of its start, and those of what is left there together with the rest. -/
theorem blocks_append (xs ys : List α) :
    C.blocks (xs ++ ys) =
      ((C.blocks xs).1 ++ (C.blocks ((C.blocks xs).2 ++ ys)).1, (C.blocks ((C.blocks xs).2 ++ ys)).2) := by
  induction xs using blocks_induction (C := C) with
  | hnone xs h => rw [blocks_of_none h]; rfl
  | hsome xs b rest h ih => rw [blocks_of_some (C.stable h ys), blocks_of_some h, ih]; rfl

end Cutter
