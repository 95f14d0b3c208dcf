import Mathlib.Data.List.Basic

/-!
# Machines that answer calls

A machine takes one call after the other, changes its state and gives an answer. The log of a run keeps, for every
call, the state before it and the answer. An invariant is a property of the state together with the log.
-/

structure Machine (σ ι ρ : Type) where
  step : σ → ι → σ × ρ

namespace Machine

variable {σ ι ρ : Type}

structure Entry (σ ι ρ : Type) where
  before : σ
  call : ι
  answer : ρ

variable (M : Machine σ ι ρ)

def entry (s : σ) (i : ι) : Entry σ ι ρ := ⟨s, i, (M.step s i).2⟩

def run : σ → List ι → σ
  | s, [] => s
  | s, i :: is => run (M.step s i).1 is

def log : σ → List ι → List (Entry σ ι ρ)
  | _, [] => []
  | s, i :: is => M.entry s i :: log (M.step s i).1 is

def Meets (C : σ → ι → Prop) (s : σ) (is : List ι) : Prop := ∀ e ∈ M.log s is, C e.before e.call

instance (C : σ → ι → Prop) [∀ s i, Decidable (C s i)] (s : σ) (is : List ι) : Decidable (M.Meets C s is) :=
  inferInstanceAs (Decidable (∀ e ∈ M.log s is, C e.before e.call))

variable {M} {C : σ → ι → Prop} {s : σ} {i : ι} {is : List ι}

theorem Meets.head (h : M.Meets C s (i :: is)) : C s i := h (M.entry s i) (by simp [log])

theorem Meets.tail (h : M.Meets C s (i :: is)) : M.Meets C (M.step s i).1 is := fun e he => h e (by simp [log, he])

theorem run_append (is js : List ι) : M.run s (is ++ js) = M.run (M.run s is) js := by
  induction is generalizing s with
  | nil => rfl
  | cons i is ih => exact ih

theorem log_append (is js : List ι) : M.log s (is ++ js) = M.log s is ++ M.log (M.run s is) js := by
  induction is generalizing s with
  | nil => rfl
  | cons i is ih => exact congrArg (M.entry s i :: ·) ih

/-- What one call keeps, every run keeps. -/
theorem invariant_from {I : σ → List (Entry σ ι ρ) → Prop}
    (hstep : ∀ s past i, C s i → I s past → I (M.step s i).1 (past ++ [M.entry s i])) {past : List (Entry σ ι ρ)}
    (hmeets : M.Meets C s is) (hstart : I s past) : I (M.run s is) (past ++ M.log s is) := by
  induction is generalizing s past with
  | nil =>
    rw [log, List.append_nil]
    exact hstart
  | cons i is ih =>
    have hnext := ih hmeets.tail (hstep s past i hmeets.head hstart)
    rwa [List.append_assoc, List.singleton_append] at hnext

theorem invariant {I : σ → List (Entry σ ι ρ) → Prop}
    (hstep : ∀ s past i, C s i → I s past → I (M.step s i).1 (past ++ [M.entry s i]))
    (hmeets : M.Meets C s is) (hstart : I s []) : I (M.run s is) (M.log s is) :=
  invariant_from hstep hmeets hstart

theorem exists_before {e : Entry σ ι ρ} (h : e ∈ M.log s is) :
    ∃ pre post, is = pre ++ e.call :: post ∧ e = M.entry (M.run s pre) e.call := by
  induction is generalizing s with
  | nil => cases h
  | cons i is ih =>
    rcases List.mem_cons.mp h with rfl | h
    · exact ⟨[], is, rfl, rfl⟩
    · obtain ⟨pre, post, hsplit, heq⟩ := ih h
      exact ⟨i :: pre, post, by rw [hsplit]; rfl, heq⟩

theorem answer_eq {e : Entry σ ι ρ} (h : e ∈ M.log s is) : e.answer = (M.step e.before e.call).2 := by
  obtain ⟨pre, post, -, heq⟩ := exists_before h
  rw [heq]
  rfl

/-! ## Logs that grow -/

theorem nodup_filterMap_append {α β γ : Type} {f : α → Option β} {g : β → γ} {log : List α} {e : α}
    (h : ((log.filterMap f).map g).Nodup) (hnew : ∀ x, f e = some x → ∀ y ∈ log.filterMap f, g y ≠ g x) :
    (((log ++ [e]).filterMap f).map g).Nodup := by
  rw [List.filterMap_append, List.map_append, List.nodup_append]
  cases hx : f e with
  | none => simp [hx, h]
  | some x =>
    refine ⟨h, by simp [hx], fun a ha b hb heq => ?_⟩
    obtain ⟨y, hy, rfl⟩ := List.mem_map.mp ha
    simp only [List.filterMap_cons, hx, List.filterMap_nil, List.map_cons, List.map_nil, List.mem_singleton] at hb
    exact hnew x hx y hy (heq.trans hb)

theorem forall_filterMap_append {α β : Type} {f : α → Option β} {P : β → Prop} {log : List α} {e : α}
    (h : ∀ x ∈ log.filterMap f, P x) (hlast : ∀ x, f e = some x → P x) : ∀ x ∈ (log ++ [e]).filterMap f, P x := by
  intro x hx
  rw [List.filterMap_append, List.mem_append] at hx
  rcases hx with hx | hx
  · exact h x hx
  · obtain ⟨e', he', hx⟩ := List.mem_filterMap.mp hx
    rw [List.mem_singleton.mp he'] at hx
    exact hlast x hx

end Machine
