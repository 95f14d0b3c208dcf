import Mathlib.Data.List.Basic

/-!
# Machines that emit

A step of such a machine changes its state and emits a list of events. Steps are run one after the other, and what
they emit is joined. An invariant is a property of the state together with everything emitted so far.
-/

/-- A step: the next state, and what is emitted on the way to it. -/
abbrev Emit (σ ε : Type) := σ → σ × List ε

namespace Emit

variable {σ τ ε α : Type}

def skip : Emit σ ε := fun s => (s, [])

def update (g : σ → σ) : Emit σ ε := fun s => (g s, [])

def say (g : σ → List ε) : Emit σ ε := fun s => (s, g s)

def seq (f g : Emit σ ε) : Emit σ ε := fun s => ((g (f s).1).1, (f s).2 ++ (g (f s).1).2)

def all : List (Emit σ ε) → Emit σ ε
  | [] => skip
  | f :: fs => seq f (all fs)

def each (f : α → Emit σ ε) (xs : List α) : Emit σ ε := all (xs.map f)

/-- A step that is taken only where the condition holds. -/
def onlyIf (c : σ → Bool) (f : Emit σ ε) : Emit σ ε := fun s => if c s then f s else (s, [])

/-- A step for the value that is there, if there is one. -/
def forSome (value : Option α) (f : α → Emit σ ε) : Emit σ ε :=
  match value with
  | some a => f a
  | none => skip

variable (f : α → Emit σ ε) (s : σ)

@[simp] theorem forSome_some (a : α) (f : α → Emit σ ε) : forSome (some a) f = f a := rfl

@[simp] theorem forSome_none : forSome none f = skip := rfl

@[simp] theorem skip_apply : (skip s : σ × List ε) = (s, []) := rfl

@[simp] theorem update_apply (g : σ → σ) (s : σ) : (update g s : σ × List ε) = (g s, []) := rfl

@[simp] theorem say_apply (g : σ → List ε) (s : σ) : say g s = (s, g s) := rfl

@[simp] theorem seq_apply (f g : Emit σ ε) (s : σ) :
    seq f g s = ((g (f s).1).1, (f s).2 ++ (g (f s).1).2) := rfl

@[simp] theorem all_nil : (all [] s : σ × List ε) = (s, []) := rfl

@[simp] theorem all_cons (f : Emit σ ε) (fs : List (Emit σ ε)) : all (f :: fs) = seq f (all fs) := rfl

@[simp] theorem each_nil : each f [] s = (s, []) := rfl

@[simp] theorem each_cons (x : α) (xs : List α) : each f (x :: xs) = seq (f x) (each f xs) := rfl

theorem all_append (fs gs : List (Emit σ ε)) (s : σ) : all (fs ++ gs) s = seq (all fs) (all gs) s := by
  induction fs generalizing s with
  | nil => simp
  | cons f fs ih => simp [ih]

theorem each_append (xs ys : List α) (s : σ) : each f (xs ++ ys) s = seq (each f xs) (each f ys) s := by
  rw [each, List.map_append, all_append]
  rfl

theorem onlyIf_of_true {c : σ → Bool} {s : σ} (h : c s = true) (f : Emit σ ε) : onlyIf c f s = f s := if_pos h

theorem onlyIf_of_false {c : σ → Bool} {s : σ} (h : c s = false) (f : Emit σ ε) : onlyIf c f s = (s, []) := by
  simp [onlyIf, h]

/-! ## Invariants -/

def Maintains (I : σ → List ε → Prop) (f : Emit σ ε) : Prop :=
  ∀ s log, I s log → I (f s).1 (log ++ (f s).2)

section Maintains

variable {I : σ → List ε → Prop} {f g : Emit σ ε}

theorem Maintains.skip : Maintains I (skip : Emit σ ε) := by
  intro s log h
  simpa using h

theorem Maintains.seq (hf : Maintains I f) (hg : Maintains I g) : Maintains I (seq f g) := by
  intro s log h
  have hnext := hg _ _ (hf s log h)
  rwa [List.append_assoc] at hnext

theorem Maintains.all {fs : List (Emit σ ε)} (h : ∀ f ∈ fs, Maintains I f) : Maintains I (all fs) := by
  induction fs with
  | nil => exact .skip
  | cons f fs ih => exact .seq (h f (by simp)) (ih fun g hg => h g (by simp [hg]))

theorem Maintains.each {f : α → Emit σ ε} {xs : List α} (h : ∀ x ∈ xs, Maintains I (f x)) :
    Maintains I (each f xs) := by
  refine .all fun g hg => ?_
  obtain ⟨x, hx, rfl⟩ := List.mem_map.mp hg
  exact h x hx

end Maintains

/-! ## What a step leaves alone -/

def Keeps (π : σ → τ) (f : Emit σ ε) : Prop := ∀ s, π (f s).1 = π s

section Keeps

variable {π : σ → τ} {f g : Emit σ ε}

theorem Keeps.skip : Keeps π (skip : Emit σ ε) := fun _ => rfl

theorem Keeps.seq (hf : Keeps π f) (hg : Keeps π g) : Keeps π (seq f g) := fun s => (hg _).trans (hf s)

theorem Keeps.all {fs : List (Emit σ ε)} (h : ∀ f ∈ fs, Keeps π f) : Keeps π (all fs) := by
  induction fs with
  | nil => exact .skip
  | cons f fs ih => exact .seq (h f (by simp)) (ih fun g hg => h g (by simp [hg]))

theorem Keeps.each {f : α → Emit σ ε} {xs : List α} (h : ∀ x ∈ xs, Keeps π (f x)) : Keeps π (each f xs) := by
  refine .all fun g hg => ?_
  obtain ⟨x, hx, rfl⟩ := List.mem_map.mp hg
  exact h x hx

theorem Keeps.onlyIf {c : σ → Bool} (hf : Keeps π f) : Keeps π (onlyIf c f) := by
  intro s
  unfold Emit.onlyIf
  split
  · exact hf s
  · rfl

end Keeps

end Emit
