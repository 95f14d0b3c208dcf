import Lumio.Lib.Prog

/-!
# Programs that do not see a part of the state

A program is blind to a change `u` of the state when it neither sees the change nor undoes it: a run from the
changed state has the same outcome, and ends in the changed final state.
-/

namespace Prog

variable {ε σ α β γ : Type}

/-- The outcome of a run, with the state it ends in changed by `u`. -/
def changed (u : σ → σ) : EStateM.Result ε σ α → EStateM.Result ε σ α
  | .ok a s => .ok a (u s)
  | .error e s => .error e (u s)

/-- Changing the state by `u` before a run of `m` comes to the same as changing it afterwards. -/
def Blind (u : σ → σ) (m : EStateM ε σ α) : Prop := ∀ s, m (u s) = changed u (m s)

/-- The run of `m` from `s` returns. -/
def Succeeds (m : EStateM ε σ α) (s : σ) : Prop := wp m (fun _ _ => True) (fun _ _ => False) s

instance (m : EStateM ε σ α) (s : σ) : Decidable (Succeeds m s) :=
  inferInstanceAs (Decidable (wp m (fun _ _ => True) (fun _ _ => False) s))

theorem not_succeeds_of_error {m : EStateM ε σ α} {e : ε} {s t : σ} (h : m s = .error e t) : ¬Succeeds m s := by
  simp only [Succeeds, wp, h, not_false_eq_true]

-- a goal about a closed run is not to be evaluated by looking at its shape
attribute [irreducible] Succeeds

section Blind

variable {u : σ → σ} {m : EStateM ε σ α} {f : α → EStateM ε σ β} {s : σ}

theorem succeeds_of_changed {s' : σ} (h : m s' = changed u (m s)) : Succeeds m s' ↔ Succeeds m s := by
  unfold Succeeds wp
  rw [h]
  cases m s <;> exact Iff.rfl

@[grind .] theorem Blind.pure (a : α) : Blind u (Pure.pure a : EStateM ε σ α) := fun _ => rfl

@[grind .] theorem Blind.throw (e : ε) : Blind u (MonadExcept.throw e : EStateM ε σ α) := fun _ => rfl

@[grind .] theorem Blind.bind (hm : Blind u m) (hf : ∀ a, Blind u (f a)) : Blind u (m >>= f) := by
  intro s
  simp only [Bind.bind, EStateM.bind, hm s]
  cases m s with
  | ok a t => exact hf a t
  | error e t => rfl

theorem Blind.get_bind {f : σ → EStateM ε σ β} (hread : ∀ s, f (u s) = f s) (hf : ∀ s, Blind u (f s)) :
    Blind u (MonadState.get >>= f) := by
  intro s
  change f (u s) (u s) = changed u (f s s)
  rw [hread s]
  exact hf s s

/-- A program that reads and writes the state, by its runs. -/
theorem Blind.of_run {f : σ → EStateM ε σ β} (h : ∀ s, f (u s) (u s) = changed u (f s s)) :
    Blind u (MonadState.get >>= f) := h

theorem ite_eq_changed {c : Prop} [Decidable c] {a a' b b' : EStateM ε σ α} {t : σ} (ha : c → a t = changed u (b s))
    (ha' : ¬c → a' t = changed u (b' s)) : (if c then a else a') t = changed u ((if c then b else b') s) := by
  by_cases hc : c
  · rw [if_pos hc, if_pos hc]
    exact ha hc
  · rw [if_neg hc, if_neg hc]
    exact ha' hc

@[grind .] theorem Blind.modify {g : σ → σ} (h : ∀ s, g (u s) = u (g s)) :
    Blind u (modify g : EStateM ε σ PUnit) := fun s => congrArg (EStateM.Result.ok PUnit.unit) (h s)

@[grind .] theorem Blind.onlyIf {m : EStateM ε σ PUnit} (hm : Blind u m) (condition : Bool) :
    Blind u (onlyIf condition m) := by
  unfold Prog.onlyIf
  split
  · exact hm
  · exact .pure _

@[grind .] theorem Blind.forM {f : γ → EStateM ε σ PUnit} {xs : List γ} (h : ∀ x, Blind u (f x)) :
    Blind u (forM xs f) := by
  induction xs with
  | nil => exact .pure _
  | cons x xs ih =>
    rw [List.forM_cons]
    exact .bind (h x) fun _ => ih

@[grind .] theorem Blind.mapM {f : γ → EStateM ε σ β} : ∀ {xs : List γ}, (∀ x, Blind u (f x)) →
    Blind u (xs.mapM f)
  | [], _ => by
    rw [List.mapM_nil]
    exact .pure _
  | x :: xs, h => by
    rw [List.mapM_cons]
    exact .bind (h x) fun _ => .bind (Blind.mapM h) fun _ => .pure _

end Blind

end Prog
