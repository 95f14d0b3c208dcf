import Mathlib.Order.Defs.PartialOrder
import Mathlib.Data.List.Basic

/-!
# Weakest preconditions for programs with state and errors

The programs are those of `EStateM`: a program that throws keeps the state it had reached.
`wp m Q E s` says that a run of `m` from `s` ends with `Q` when it returns and with `E` when it throws.
-/

namespace Prog

variable {ε σ τ α β : Type}

/-- The weakest precondition of `m` for the postcondition `Q` on returning and `E` on throwing. -/
def wp (m : EStateM ε σ α) (Q : α → σ → Prop) (E : ε → σ → Prop) (s : σ) : Prop :=
  match m s with
  | .ok a s' => Q a s'
  | .error e s' => E e s'

instance (m : EStateM ε σ α) (Q : α → σ → Prop) (E : ε → σ → Prop) (s : σ) [∀ a s', Decidable (Q a s')]
    [∀ e s', Decidable (E e s')] : Decidable (wp m Q E s) :=
  match h : m s with
  | .ok a s' => decidable_of_iff (Q a s') (by simp only [wp, h])
  | .error e s' => decidable_of_iff (E e s') (by simp only [wp, h])

/-- The state in which a run stops, whether it returns or throws. -/
def final (m : EStateM ε σ α) (s : σ) : σ :=
  match m s with
  | .ok _ s' => s'
  | .error _ s' => s'

/-- Runs `m` only if the condition holds. -/
def onlyIf (condition : Bool) (m : EStateM ε σ PUnit) : EStateM ε σ PUnit := if condition then m else pure ⟨⟩

/-- A run of `m` ends in a state related by `R` to the one it started from, whatever its outcome. -/
def Moves (R : σ → σ → Prop) (m : EStateM ε σ α) : Prop :=
  ∀ s, wp m (fun _ => R s) (fun _ => R s) s

section Rules

variable {m : EStateM ε σ α} {f : α → EStateM ε σ β} {s : σ}
variable {Q Q' : α → σ → Prop} {E E' : ε → σ → Prop} {P : β → σ → Prop}

theorem get_apply : (get : EStateM ε σ σ) s = .ok s s := rfl

theorem wp_mono (h : wp m Q E s) (hQ : ∀ a s', Q a s' → Q' a s') (hE : ∀ e s', E e s' → E' e s') :
    wp m Q' E' s := by
  unfold wp at *
  cases hm : m s with
  | ok a s' => simp only [hm] at h; exact hQ a s' h
  | error e s' => simp only [hm] at h; exact hE e s' h

theorem wp_and (h : wp m Q E s) (h' : wp m Q' E' s) :
    wp m (fun a s' => Q a s' ∧ Q' a s') (fun e s' => E e s' ∧ E' e s') s := by
  unfold wp at *
  cases hm : m s with
  | ok a s' => simp only [hm] at h h'; exact ⟨h, h'⟩
  | error e s' => simp only [hm] at h h'; exact ⟨h, h'⟩

theorem wp_of_ok {a : α} {s' : σ} (h : wp m Q E s) (hm : m s = .ok a s') : Q a s' := by
  simpa only [wp, hm] using h

variable {e : ε} {R : σ → Prop} {t : σ}

theorem wp_of_error {s' : σ} (h : wp m Q E s) (hm : m s = .error e s') : E e s' := by
  simpa only [wp, hm] using h

theorem exists_ok_of_wp (h : wp m Q (fun _ _ => False) s) : ∃ a s', m s = .ok a s' ∧ Q a s' := by
  unfold wp at h
  cases hm : m s with
  | ok a s' => simp only [hm] at h; exact ⟨a, s', rfl, h⟩
  | error e s' => simp only [hm] at h

theorem exists_ok_of_decide [∀ a s', Decidable (Q a s')]
    (h : decide (wp m Q (fun _ _ => False) s) = true) : ∃ a s', m s = .ok a s' ∧ Q a s' :=
  exists_ok_of_wp (of_decide_eq_true h)

theorem wp_final (h : wp m (fun _ => R) (fun _ => R) s) : R (final m s) := by
  unfold wp at h
  unfold final
  cases hm : m s with
  | ok a s' => simpa only [hm] using h
  | error e s' => simpa only [hm] using h

theorem eq_error_of_wp (h : wp m (fun _ _ => False) (fun e' t' => e' = e ∧ t' = t) s) : m s = .error e t := by
  unfold wp at h
  cases hm : m s with
  | ok a t' => simp only [hm] at h
  | error e' t' =>
    simp only [hm] at h
    rw [h.1, h.2]

theorem exists_error_of_wp (h : wp m (fun _ _ => False) (fun _ => R) s) : ∃ e t, m s = .error e t ∧ R t := by
  unfold wp at h
  cases hm : m s with
  | ok a t => simp only [hm] at h
  | error e t => simp only [hm] at h; exact ⟨e, t, rfl, h⟩

theorem final_discard {b : β} : final (m >>= fun _ => pure b) s = final m s := by
  simp only [final, bind, EStateM.bind]
  cases m s <;> rfl

@[simp] theorem wp_pure (a : α) : wp (pure a : EStateM ε σ α) Q E s ↔ Q a s := Iff.rfl

@[simp] theorem wp_throw (e : ε) : wp (throw e : EStateM ε σ α) Q E s ↔ E e s := Iff.rfl

@[simp] theorem wp_bind : wp (m >>= f) P E s ↔ wp m (fun a => wp (f a) P E) E s := by
  simp only [wp, bind, EStateM.bind]
  cases m s <;> rfl

theorem wp_seq (h : wp m Q E s) (hf : ∀ a t, Q a t → wp (f a) P E t) : wp (m >>= f) P E s :=
  wp_bind.mpr (wp_mono h hf fun _ _ he => he)

theorem wp_seq_any (h : wp m Q E s) (hf : ∀ a t, Q a t → wp (f a) P (fun _ _ => True) t) :
    wp (m >>= f) P (fun _ _ => True) s :=
  wp_bind.mpr (wp_mono h hf fun _ _ _ => trivial)

@[simp] theorem wp_map (g : α → β) : wp (g <$> m) P E s ↔ wp m (fun a => P (g a)) E s := by
  simp only [wp, Functor.map, EStateM.map]
  cases m s <;> rfl

@[simp] theorem wp_get {Q : σ → σ → Prop} : wp (get : EStateM ε σ σ) Q E s ↔ Q s s := Iff.rfl

@[simp] theorem wp_set {Q : PUnit → σ → Prop} (t : σ) : wp (set t : EStateM ε σ PUnit) Q E s ↔ Q ⟨⟩ t := Iff.rfl

@[simp] theorem wp_modify {Q : PUnit → σ → Prop} (g : σ → σ) :
    wp (modify g : EStateM ε σ PUnit) Q E s ↔ Q ⟨⟩ (g s) := Iff.rfl

theorem bind_of_ok {a : α} (h : m s = .ok a t) : (m >>= f) s = f a t := by
  simp only [bind, EStateM.bind, h]

theorem bind_of_error (h : m s = .error e t) : (m >>= f) s = .error e t := by
  simp only [bind, EStateM.bind, h]

theorem final_modify (g : σ → σ) : final (modify g : EStateM ε σ PUnit) s = g s := rfl

theorem wp_onlyIf {c : Bool} {m : EStateM ε σ PUnit} {Q : PUnit → σ → Prop} :
    wp (onlyIf c m) Q E s ↔ (c = true → wp m Q E s) ∧ (c = false → Q ⟨⟩ s) := by
  cases c <;> simp [onlyIf]

end Rules

/-! ## Loops -/

section Loops

variable {γ : Type}

theorem wp_forM {I : σ → Prop} {E : ε → σ → Prop} {f : γ → EStateM ε σ PUnit} :
    ∀ {xs : List γ} {s : σ}, I s → (∀ x ∈ xs, ∀ t, I t → wp (f x) (fun _ => I) E t) →
      wp (forM xs f) (fun _ => I) E s
  | [], _, hs, _ => hs
  | x :: xs, s, hs, hstep => by
    rw [List.forM_cons]
    refine wp_seq (hstep x (by simp) s hs) fun _ t ht => ?_
    exact wp_forM ht fun y hy => hstep y (by simp [hy])

end Loops

/-! ## Programs that move the state along a preorder -/

section Moves

variable {R : σ → σ → Prop} {m : EStateM ε σ α} {f : α → EStateM ε σ β}

theorem Moves.final (h : Moves R m) (s : σ) : R s (final m s) := wp_final (h s)

theorem Moves.mono {R' : σ → σ → Prop} (h : Moves R m) (hR : ∀ s t, R s t → R' s t) : Moves R' m :=
  fun s => wp_mono (h s) (fun _ t => hR s t) (fun _ t => hR s t)

theorem Moves.bind (ht : ∀ {s t u}, R s t → R t u → R s u) (hm : Moves R m) (hf : ∀ a, Moves R (f a)) :
    Moves R (m >>= f) := by
  intro s
  exact wp_seq (hm s) fun a t hst => wp_mono (hf a t) (fun _ _ => ht hst) (fun _ _ => ht hst)

end Moves

/-! ## Programs that always return -/

/-- A run of `m` returns, in a state related by `R` to the one it started from. -/
def Yields (R : σ → σ → Prop) (m : EStateM ε σ α) : Prop := ∀ s, wp m (fun _ => R s) (fun _ _ => False) s

section Yields

variable {γ : Type} {R : σ → σ → Prop} {m : EStateM ε σ α} {f : α → EStateM ε σ β}

theorem Yields.pure (refl : ∀ s, R s s) (a : α) : Yields R (Pure.pure a : EStateM ε σ α) := fun s => refl s

theorem Yields.modify {g : σ → σ} (h : ∀ s, R s (g s)) : Yields R (modify g : EStateM ε σ PUnit) := h

theorem Yields.bind (trans : ∀ {s t u}, R s t → R t u → R s u) (hm : Yields R m) (hf : ∀ a, Yields R (f a)) :
    Yields R (m >>= f) := by
  intro s
  exact wp_seq (hm s) fun a t hst => wp_mono (hf a t) (fun _ _ => trans hst) (fun _ _ h => h)

theorem Yields.foldlM (refl : ∀ s, R s s) (trans : ∀ {s t u}, R s t → R t u → R s u)
    {f : β → γ → EStateM ε σ β} : ∀ {xs : List γ} {b : β}, (∀ b, ∀ x ∈ xs, Yields R (f b x)) → Yields R (xs.foldlM f b)
  | [], _, _ => .pure refl _
  | x :: xs, b, h => by
    rw [List.foldlM_cons]
    exact .bind trans (h b x (by simp)) fun b => .foldlM refl trans fun b y hy => h b y (by simp [hy])

theorem Yields.wp_bind {Q : β → σ → Prop} {E : ε → σ → Prop} {s : σ} (hm : Yields R m)
    (hf : ∀ a t, R s t → wp (f a) Q E t) : wp (m >>= f) Q E s := by
  rw [Prog.wp_bind]
  exact wp_mono (hm s) hf fun _ _ h => h.elim

end Yields

/-! ## What a program returns -/

/-- Whatever a run of `m` returns satisfies `P`. -/
def Returns (P : α → Prop) (m : EStateM ε σ α) : Prop := ∀ s, wp m (fun a _ => P a) (fun _ _ => True) s

section Returns

variable {P : α → Prop} {R : β → Prop} {m : EStateM ε σ α} {f : α → EStateM ε σ β}

theorem Returns.pure {a : α} (h : P a) : Returns P (Pure.pure a : EStateM ε σ α) := fun _ => h

theorem Returns.throw (e : ε) : Returns P (MonadExcept.throw e : EStateM ε σ α) := fun _ => trivial

theorem Returns.any (m : EStateM ε σ α) : Returns (fun _ => True) m := by
  intro s
  unfold Prog.wp
  split <;> trivial

theorem Returns.bind (hm : Returns P m) (hf : ∀ a, P a → Returns R (f a)) : Returns R (m >>= f) := by
  intro s
  exact wp_seq_any (hm s) fun a t ha => hf a ha t

theorem Returns.after (hf : ∀ a, Returns R (f a)) : Returns R (m >>= f) :=
  (Returns.any m).bind fun a _ => hf a

theorem Returns.mapM {γ : Type} {P : γ → β → Prop} {f : γ → EStateM ε σ β} :
    ∀ {xs : List γ}, (∀ x ∈ xs, Returns (P x) (f x)) → Returns (fun ys => ∀ y ∈ ys, ∃ x ∈ xs, P x y) (xs.mapM f)
  | [], _ => by
    rw [List.mapM_nil]
    exact .pure (by simp)
  | x :: xs, h => by
    rw [List.mapM_cons]
    refine (h x (by simp)).bind fun y hy => (Returns.mapM fun x hx => h x (by simp [hx])).bind fun ys hys => .pure ?_
    intro z hz
    rcases List.mem_cons.mp hz with rfl | hz
    · exact ⟨x, by simp, hy⟩
    · obtain ⟨other, hother, hP⟩ := hys z hz
      exact ⟨other, by simp [hother], hP⟩

theorem Returns.of_ok {a : α} {s t : σ} (h : Returns P m) (hm : m s = .ok a t) : P a := wp_of_ok (h s) hm

end Returns

/-! ## Programs that leave a part of the state alone -/

/-- No run of `m` changes what `π` reads of the state. -/
def Keeps (π : σ → τ) (m : EStateM ε σ α) : Prop := Moves (fun s t => π t = π s) m

section Keeps

variable {γ : Type} {π : σ → τ} {m : EStateM ε σ α} {f : α → EStateM ε σ β}

theorem Keeps.wp (h : Keeps π m) (s : σ) : wp m (fun _ t => π t = π s) (fun _ t => π t = π s) s := h s

variable {s : σ}

theorem Keeps.of_ok {a : α} {t : σ} (h : Keeps π m) (hm : m s = .ok a t) : π t = π s := by
  have hkept := h.wp s
  simpa only [Prog.wp, hm] using hkept

@[grind .] theorem Keeps.pure (a : α) : Keeps π (Pure.pure a : EStateM ε σ α) := fun _ => rfl

@[grind .] theorem Keeps.throw (e : ε) : Keeps π (MonadExcept.throw e : EStateM ε σ α) := fun _ => rfl

@[grind .] theorem Keeps.get : Keeps π (MonadState.get : EStateM ε σ σ) := fun _ => rfl

@[grind .] theorem Keeps.bind (hm : Keeps π m) (hf : ∀ a, Keeps π (f a)) : Keeps π (m >>= f) :=
  Moves.bind (fun h h' => h'.trans h) hm hf

theorem Keeps.modify {g : σ → σ} (h : ∀ s, π (g s) = π s) :
    Keeps π (modify g : EStateM ε σ PUnit) := h

@[grind .] theorem Keeps.onlyIf {m : EStateM ε σ PUnit} (hm : Keeps π m) (condition : Bool) :
    Keeps π (onlyIf condition m) := by
  unfold Prog.onlyIf
  split
  · exact hm
  · exact .pure _

theorem Keeps.comp {ρ : σ → γ} (hm : Keeps π m) (h : ∀ s t, π s = π t → ρ s = ρ t) : Keeps ρ m :=
  Moves.mono hm fun s t hst => h t s hst

@[grind .] theorem Keeps.forM {f : γ → EStateM ε σ PUnit} {xs : List γ} (h : ∀ x, Keeps π (f x)) :
    Keeps π (forM xs f) := by
  induction xs with
  | nil => exact .pure _
  | cons x xs ih =>
    rw [List.forM_cons]
    exact .bind (h x) fun _ => ih

@[grind .] theorem Keeps.mapM {f : γ → EStateM ε σ β} : ∀ {xs : List γ}, (∀ x, Keeps π (f x)) →
    Keeps π (xs.mapM f)
  | [], _ => by
    rw [List.mapM_nil]
    exact .pure _
  | x :: xs, h => by
    rw [List.mapM_cons]
    exact .bind (h x) fun _ => .bind (Keeps.mapM h) fun _ => .pure _

theorem Keeps.wp_bind {P : β → σ → Prop} {E : ε → σ → Prop} (hm : Keeps π m)
    (hf : ∀ a t, π t = π s → Prog.wp (f a) P E t) (hE : ∀ e t, π t = π s → E e t) : Prog.wp (m >>= f) P E s := by
  rw [Prog.wp_bind]
  exact wp_mono (hm s) hf hE

theorem Keeps.wp_check {P : β → σ → Prop} {E : ε → σ → Prop} (hm : Keeps (fun s => s) m)
    (hf : ∀ a, Prog.wp (f a) P E s) (hE : ∀ e, E e s) : Prog.wp (m >>= f) P E s := by
  refine hm.wp_bind (fun a t ht => ?_) (fun e t ht => ?_)
  · rw [show t = s from ht]
    exact hf a
  · rw [show t = s from ht]
    exact hE e

theorem Keeps.check_cases {P : EStateM.Result ε σ β → Prop} (hm : Keeps (fun s => s) m)
    (herror : ∀ e, P (.error e s)) (hok : ∀ a, m s = .ok a s → P (f a s)) : P ((m >>= f) s) := by
  have hkept := hm s
  cases hrun : m s with
  | ok a t =>
    obtain rfl : t = s := by simpa only [Prog.wp, hrun] using hkept
    have hrest : (m >>= f) t = f a t := bind_of_ok hrun
    exact Eq.mpr (congrArg P hrest) (hok a hrun)
  | error e t =>
    obtain rfl : t = s := by simpa only [Prog.wp, hrun] using hkept
    have hrest : (m >>= f) t = .error e t := bind_of_error hrun
    exact Eq.mpr (congrArg P hrest) (herror e)

end Keeps

/-! ## Programs that maintain an invariant -/

/-- A run of `m` from a state that satisfies `I` stays within `I`, whatever its outcome. -/
def Maintains (I : σ → Prop) (m : EStateM ε σ α) : Prop := ∀ s, I s → wp m (fun _ => I) (fun _ => I) s

section Maintains

variable {γ : Type} {I : σ → Prop} {m : EStateM ε σ α} {f : α → EStateM ε σ β}

theorem Maintains.final (h : Maintains I m) {s : σ} (hs : I s) : I (final m s) := wp_final (h s hs)

theorem Maintains.pure (a : α) : Maintains I (Pure.pure a : EStateM ε σ α) := fun _ hs => hs

theorem Maintains.throw (e : ε) : Maintains I (MonadExcept.throw e : EStateM ε σ α) := fun _ hs => hs

theorem Maintains.bind (hm : Maintains I m) (hf : ∀ a, Maintains I (f a)) : Maintains I (m >>= f) := by
  intro s hs
  exact wp_seq (hm s hs) fun a t ht => hf a t ht

theorem Maintains.bind_returns {P : α → Prop} (hm : Maintains I m) (hreturns : Returns P m)
    (hf : ∀ a, P a → Maintains I (f a)) : Maintains I (m >>= f) := by
  intro s hs
  rw [wp_bind]
  exact wp_mono (wp_and (hm s hs) (hreturns s)) (fun a t ht => hf a ht.2 t ht.1) (fun _ _ h => h.1)

theorem Maintains.get_bind {f : σ → EStateM ε σ β} (hf : ∀ s, I s → wp (f s) (fun _ => I) (fun _ => I) s) :
    Maintains I (MonadState.get >>= f) := by
  intro s hs
  rw [wp_bind, wp_get]
  exact hf s hs

theorem Maintains.onlyIf {m : EStateM ε σ PUnit} (hm : Maintains I m) (condition : Bool) :
    Maintains I (onlyIf condition m) := by
  cases condition with
  | true => exact hm
  | false => exact .pure _

theorem Maintains.forM {f : γ → EStateM ε σ PUnit} {xs : List γ} (h : ∀ x ∈ xs, Maintains I (f x)) :
    Maintains I (forM xs f) := fun _ hs => wp_forM hs fun x hx t ht => h x hx t ht

theorem Maintains.of_keeps {π : σ → τ} (hm : Keeps π m) (h : ∀ s t, π t = π s → I s → I t) : Maintains I m :=
  fun s hs => wp_mono (hm s) (fun _ t ht => h s t ht hs) (fun _ t ht => h s t ht hs)

end Maintains

end Prog
