import Mathlib.Algebra.Order.BigOperators.Group.List
import Mathlib.Algebra.Order.Group.Nat

/-!
# Walking a worklist

A walk takes the first item off a stack, visits it and puts what the visit found on top, until the stack is
empty or a visit fails. It ends whenever each item found ranks below the one it was found from.
-/

namespace Walk

variable {ε α β : Type} {visit : α → β → Except ε (List α × β)} {stack : List α} {acc : β}

/-- The outcome of a walk that takes at most as many rounds as it has fuel, and nothing if these are too few. -/
def walk (visit : α → β → Except ε (List α × β)) : Nat → List α → β → Option (Except ε β)
  | 0, _, _ => none
  | _ + 1, [], acc => some (.ok acc)
  | fuel + 1, item :: rest, acc =>
    match visit item acc with
    | .error e => some (.error e)
    | .ok (found, acc) => walk visit fuel (found ++ rest) acc

theorem walk_succ {result : Except ε β} : ∀ {fuel : Nat} {stack : List α} {acc : β},
    walk visit fuel stack acc = some result → walk visit (fuel + 1) stack acc = some result
  | 0, _, _, h => by cases h
  | _ + 1, [], _, h => h
  | fuel + 1, item :: rest, acc, h => by
    unfold walk at h ⊢
    split at h
    · exact h
    · exact walk_succ h

theorem walk_add {result : Except ε β} {fuel : Nat} (h : walk visit fuel stack acc = some result) (more : Nat) :
    walk visit (fuel + more) stack acc = some result := by
  induction more with
  | zero => exact h
  | succ more ih => exact walk_succ ih

theorem walk_halts_append {rank : α → Nat}
    (hrank : ∀ {item acc found acc'}, visit item acc = .ok (found, acc') → ∀ x ∈ found, rank x < rank item) :
    ∀ (bound : Nat) (items rest : List α), (∀ item ∈ items, rank item < bound) →
      (∀ acc, ∃ fuel result, walk visit fuel rest acc = some result) →
      ∀ acc, ∃ fuel result, walk visit fuel (items ++ rest) acc = some result
  | 0, [], _, _, hrest => hrest
  | 0, item :: _, _, hbound, _ => absurd (hbound item (by simp)) (Nat.not_lt_zero _)
  | _ + 1, [], _, _, hrest => hrest
  | bound + 1, item :: items, rest, hbound, hrest => by
    intro acc
    have hitems : ∀ acc, ∃ fuel result, walk visit fuel (items ++ rest) acc = some result :=
      walk_halts_append hrank (bound + 1) items rest (fun other hother => hbound other (by simp [hother])) hrest
    cases hvisit : visit item acc with
    | error e => exact ⟨1, .error e, by simp [walk, hvisit]⟩
    | ok next =>
      obtain ⟨found, acc'⟩ := next
      have hfound : ∀ other ∈ found, rank other < bound := by
        intro other hother
        have hless := hrank hvisit other hother
        have hitem := hbound item (by simp)
        omega
      obtain ⟨fuel, result, h⟩ := walk_halts_append hrank bound found (items ++ rest) hfound hitems acc'
      exact ⟨fuel + 1, result, by simp [walk, hvisit, h]⟩

theorem walk_halts {rank : α → Nat}
    (hrank : ∀ {item acc found acc'}, visit item acc = .ok (found, acc') → ∀ x ∈ found, rank x < rank item)
    (stack : List α) (acc : β) : ∃ fuel result, walk visit fuel stack acc = some result := by
  have hempty : ∀ acc, ∃ fuel result, walk visit fuel [] acc = some result := fun acc => ⟨1, .ok acc, rfl⟩
  have hbound : ∀ item ∈ stack, rank item < (stack.map rank).sum + 1 := by
    intro item hitem
    have hsum : rank item ≤ (stack.map rank).sum :=
      List.single_le_sum (fun _ _ => Nat.zero_le _) _ (List.mem_map_of_mem hitem)
    omega
  simpa using walk_halts_append hrank _ stack [] hbound hempty acc

/-- An invariant of the stack and what has been gathered holds at the end, for the empty stack. -/
theorem walk_invariant {I : List α → β → Prop}
    (hstep : ∀ {item rest acc found acc'}, I (item :: rest) acc → visit item acc = .ok (found, acc') →
      I (found ++ rest) acc') :
    ∀ {fuel : Nat} {stack : List α} {acc result : β}, I stack acc → walk visit fuel stack acc = some (.ok result) →
      I [] result
  | 0, _, _, _, _, h => by cases h
  | _ + 1, [], _, _, hI, h => by
    cases h
    exact hI
  | fuel + 1, item :: rest, acc, result, hI, h => by
    unfold walk at h
    split at h
    · cases h
    · rename_i found acc' hvisit
      exact walk_invariant hstep (hstep hI hvisit) h

theorem exists_visit_of_walk_error {e : ε} : ∀ {fuel : Nat} {stack : List α} {acc : β},
    walk visit fuel stack acc = some (.error e) → ∃ item acc, visit item acc = .error e
  | 0, _, _, h => by cases h
  | _ + 1, [], _, h => by cases h
  | fuel + 1, item :: rest, acc, h => by
    unfold walk at h
    split at h
    · rename_i e' hvisit
      cases h
      exact ⟨item, acc, hvisit⟩
    · exact exists_visit_of_walk_error h

end Walk
