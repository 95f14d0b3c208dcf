import Mathlib.Data.List.Basic
import Mathlib.Data.List.TakeWhile
import Mathlib.Logic.Function.Basic

/-!
# Committing one component after the other

A loop changes the components of a state one by one and stops at the first one that fails. What was committed before
stays, so the state as a whole is unchanged only if the steps before the failure had nothing to change.
-/

section Commit

variable {ι ν : Type} [DecidableEq ι]

/-- Runs the step on each component of the list, up to the first failure; says whether there was none. -/
def commitEach (step : ι → ν → Option ν) : List ι → (ι → ν) → (ι → ν) × Bool
  | [], s => (s, true)
  | i :: is, s =>
    match step i (s i) with
    | none => (s, false)
    | some v => commitEach step is (Function.update s i v)

def committed (step : ι → ν → Option ν) (is : List ι) (s : ι → ν) : List ι :=
  is.takeWhile fun i => (step i (s i)).isSome

variable {step : ι → ν → Option ν} {is : List ι} {s : ι → ν}

omit [DecidableEq ι] in
theorem isSome_of_mem_committed {i : ι} (h : i ∈ committed step is s) : (step i (s i)).isSome = true := by
  unfold committed at h
  exact List.mem_takeWhile_imp (p := fun i => (step i (s i)).isSome) h

omit [DecidableEq ι] in
theorem mem_of_mem_committed {i : ι} (h : i ∈ committed step is s) : i ∈ is :=
  (List.takeWhile_sublist _).subset h

theorem commitEach_other {j : ι} (h : j ∉ is) : (commitEach step is s).1 j = s j := by
  induction is generalizing s with
  | nil => rfl
  | cons i is ih =>
    unfold commitEach
    split
    · rfl
    · rw [ih fun hj => h (by simp [hj]), Function.update_of_ne (by rintro rfl; exact h (by simp))]

theorem commitEach_done (hnodup : is.Nodup) :
    (commitEach step is s).2 = true ↔ ∀ i ∈ is, (step i (s i)).isSome = true := by
  induction is generalizing s with
  | nil => simp [commitEach]
  | cons i is ih =>
    obtain ⟨hfresh, hrest⟩ := List.nodup_cons.mp hnodup
    unfold commitEach
    cases hstep : step i (s i) with
    | none => simp [hstep]
    | some v =>
      rw [ih hrest]
      have hkept : ∀ j ∈ is, Function.update s i v j = s j :=
        fun j hj => Function.update_of_ne (by rintro rfl; exact hfresh hj) v s
      constructor
      · intro h j hj
        rcases List.mem_cons.mp hj with rfl | hj
        · rw [hstep]; rfl
        · rw [← hkept j hj]; exact h j hj
      · intro h j hj
        rw [hkept j hj]
        exact h j (List.mem_cons_of_mem _ hj)

variable (step s) in
theorem commitEach_apply (hnodup : is.Nodup) (j : ι) :
    (commitEach step is s).1 j = s j ∨ step j (s j) = some ((commitEach step is s).1 j) := by
  induction is generalizing s with
  | nil => exact .inl rfl
  | cons i is ih =>
    obtain ⟨hfresh, hrest⟩ := List.nodup_cons.mp hnodup
    unfold commitEach
    cases hstep : step i (s i) with
    | none => exact .inl rfl
    | some v =>
      dsimp only
      by_cases hj : j = i
      · rw [hj, commitEach_other hfresh, Function.update_self]
        exact .inr hstep
      · have hnext := ih (Function.update s i v) hrest
        rwa [Function.update_of_ne hj] at hnext

theorem commitEach_apply_of_done (hnodup : is.Nodup) (hdone : (commitEach step is s).2 = true) {j : ι} (hj : j ∈ is) :
    step j (s j) = some ((commitEach step is s).1 j) := by
  induction is generalizing s with
  | nil => cases hj
  | cons i is ih =>
    obtain ⟨hfresh, hrest⟩ := List.nodup_cons.mp hnodup
    unfold commitEach at hdone ⊢
    cases hstep : step i (s i) with
    | none =>
      rw [hstep] at hdone
      cases hdone
    | some v =>
      rw [hstep] at hdone
      dsimp only at hdone ⊢
      rcases List.mem_cons.mp hj with rfl | hmem
      · rw [commitEach_other hfresh, Function.update_self]
        exact hstep
      · have hne : j ≠ i := by
          rintro rfl
          exact hfresh hmem
        have hnext := ih hrest hdone hmem
        rwa [Function.update_of_ne hne] at hnext

theorem commitEach_eq_self_iff (hnodup : is.Nodup) :
    (commitEach step is s).1 = s ↔ ∀ i ∈ committed step is s, step i (s i) = some (s i) := by
  induction is generalizing s with
  | nil => simp [commitEach, committed]
  | cons i is ih =>
    obtain ⟨hfresh, hrest⟩ := List.nodup_cons.mp hnodup
    unfold commitEach committed
    rw [List.takeWhile_cons]
    cases hstep : step i (s i) with
    | none => simp
    | some v =>
      have hkept : ∀ j ∈ is, Function.update s i v j = s j :=
        fun j hj => Function.update_of_ne (by rintro rfl; exact hfresh hj) v s
      have hfirst : (commitEach step is (Function.update s i v)).1 i = v := by
        rw [commitEach_other hfresh, Function.update_self]
      simp only [Option.isSome_some, if_true, List.mem_cons, forall_eq_or_imp, hstep, Option.some.injEq]
      constructor
      · intro h
        have hv : v = s i := by rw [← hfirst, h]
        rw [hv, Function.update_eq_self] at h
        exact ⟨hv, (ih hrest).mp h⟩
      · rintro ⟨rfl, h⟩
        rw [Function.update_eq_self]
        exact (ih hrest).mpr h

end Commit
