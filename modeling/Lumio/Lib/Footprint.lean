import Mathlib.Data.Set.BooleanAlgebra
import Mathlib.Data.Set.Function
import Mathlib.Order.CompletePartialOrder

/-!
# Operations on disjoint parts of a map

Each operation of a list reads and writes a part of a map only. Where the parts are disjoint, an operation finds in
its own part what was there before the whole list, and what it leaves there is what is there afterwards.
-/

namespace Footprint

variable {K V Op : Type} {apply : (K → V) → Op → K → V} {start : K → V}

/-- An operation that finds its part as it is in `start` leaves the rest of the map alone, and what it leaves in
its part does not depend on the rest. -/
structure Local (apply : (K → V) → Op → K → V) (part : Op → Set K) (start : K → V) (op : Op) : Prop where
  outside : ∀ {now : K → V}, Set.EqOn now start (part op) → ∀ {k}, k ∉ part op → apply now op k = now k
  inside : ∀ {now : K → V}, Set.EqOn now start (part op) → ∀ {k}, k ∈ part op → apply now op k = apply start op k

variable (part : Op → Set K)

theorem foldl_outside {k : K} : ∀ {ops : List Op} {now : K → V}, (∀ op ∈ ops, Local apply part start op) →
    ops.Pairwise (fun a b => Disjoint (part a) (part b)) → (∀ op ∈ ops, Set.EqOn now start (part op)) →
    (∀ op ∈ ops, k ∉ part op) → ops.foldl apply now k = now k
  | [], _, _, _, _, _ => rfl
  | op :: ops, now, hlocal, hdisjoint, hnow, hk => by
    rw [List.pairwise_cons] at hdisjoint
    have hop := hlocal op (by simp)
    have hlater : ∀ other ∈ ops, Set.EqOn (apply now op) start (part other) := by
      intro other hother k hk
      rw [hop.outside (hnow op (by simp)) (Set.disjoint_right.mp (hdisjoint.1 other hother) hk)]
      exact hnow other (by simp [hother]) hk
    rw [List.foldl_cons, foldl_outside (fun o h => hlocal o (by simp [h])) hdisjoint.2 hlater
      (fun o h => hk o (by simp [h])), hop.outside (hnow op (by simp)) (hk op (by simp))]

theorem foldl_inside {op : Op} {k : K} (hk : k ∈ part op) : ∀ {ops : List Op} {now : K → V}, op ∈ ops →
    (∀ op ∈ ops, Local apply part start op) → ops.Pairwise (fun a b => Disjoint (part a) (part b)) →
    (∀ op ∈ ops, Set.EqOn now start (part op)) → ops.foldl apply now k = apply start op k
  | first :: ops, now, hmem, hlocal, hdisjoint, hnow => by
    rw [List.pairwise_cons] at hdisjoint
    have hfirst := hlocal first (by simp)
    have hlater : ∀ other ∈ ops, Set.EqOn (apply now first) start (part other) := by
      intro other hother k hk
      rw [hfirst.outside (hnow first (by simp)) (Set.disjoint_right.mp (hdisjoint.1 other hother) hk)]
      exact hnow other (by simp [hother]) hk
    rw [List.foldl_cons]
    rcases List.mem_cons.mp hmem with rfl | hmem
    · rw [foldl_outside part (fun o h => hlocal o (by simp [h])) hdisjoint.2 hlater
        fun o h => Set.disjoint_left.mp (hdisjoint.1 o h) hk]
      exact hfirst.inside (hnow op (by simp)) hk
    · exact foldl_inside hk hmem (fun o h => hlocal o (by simp [h])) hdisjoint.2 hlater

end Footprint
