import Lumio.Lib.Text

/-!
# Patterns with one star

A star between characters that stand for themselves matches the texts that begin and end with these characters and have no
slash in between.
-/

namespace Text

def IsPlain (c : Char) : Prop := c ≠ '*' ∧ c ≠ '?' ∧ c ≠ '[' ∧ c ≠ '\\'

instance (c : Char) : Decidable (IsPlain c) := inferInstanceAs (Decidable (_ ∧ _))

variable {fuel : Nat} {c : Char} {a b text : Text} {terms : List Term} {rest : Text → Bool}

theorem patternTerms_plain (hc : IsPlain c) (text : Text) :
    patternTerms (fuel + 1) (c :: text) = (patternTerms fuel text).map (.char c :: ·) := by
  obtain ⟨hstar, hone, hrange, hescape⟩ := hc
  rw [patternTerms] <;> intros <;> simp_all

theorem patternTerms_append (ha : ∀ c ∈ a, IsPlain c) (text : Text) :
    patternTerms (a.length + fuel) (a ++ text) = (patternTerms fuel text).map (a.map .char ++ ·) := by
  induction a with
  | nil => simp
  | cons c a ih =>
    have hlength : (c :: a).length + fuel = a.length + fuel + 1 := by
      rw [List.length_cons]
      omega
    have hrest := ih fun d hd => ha d (List.mem_cons_of_mem c hd)
    rw [hlength, List.cons_append, patternTerms_plain (ha c List.mem_cons_self), hrest, Option.map_map]
    rfl

theorem patternTerms_all (ha : ∀ c ∈ a, IsPlain c) : patternTerms a.length a = some (a.map .char) := by
  have happend := @patternTerms_append 0 _ ha []
  rw [List.append_nil] at happend
  rw [Nat.add_zero] at happend
  rw [happend]
  simp [patternTerms]

theorem termsMatch_append (a : Text) (terms : List Term) :
    termsMatch (a.map .char ++ terms) text = true ↔ ∃ rest, text = a ++ rest ∧ termsMatch terms rest = true := by
  induction a generalizing text with
  | nil => simp
  | cons c a ih =>
    cases text with
    | nil => simp [termsMatch]
    | cons d text =>
      rw [List.map_cons, List.cons_append, termsMatch, Bool.and_eq_true, beq_iff_eq, ih]
      constructor
      · rintro ⟨rfl, rest, rfl, hrest⟩
        exact ⟨rest, rfl, hrest⟩
      · rintro ⟨rest, htext, hrest⟩
        obtain ⟨rfl, rfl⟩ := List.cons.inj htext
        exact ⟨rfl, rest, rfl, hrest⟩

theorem termsMatch_all (a : Text) : termsMatch (a.map .char) text = true ↔ text = a := by
  have happend := @termsMatch_append text a []
  rw [List.append_nil] at happend
  rw [happend]
  constructor
  · rintro ⟨rest, rfl, hrest⟩
    rw [termsMatch, List.isEmpty_iff] at hrest
    rw [hrest, List.append_nil]
  · rintro rfl
    exact ⟨[], (List.append_nil _).symm, rfl⟩

theorem starMatch_iff : starMatch rest text = true ↔ ∃ run after, text = run ++ after ∧ '/' ∉ run ∧ rest after = true := by
  induction text with
  | nil =>
    rw [starMatch]
    constructor
    · intro h
      exact ⟨[], [], rfl, List.not_mem_nil, h⟩
    · rintro ⟨run, after, htext, -, h⟩
      obtain ⟨-, rfl⟩ := List.append_eq_nil_iff.mp htext.symm
      exact h
  | cons c text ih =>
    rw [starMatch, Bool.or_eq_true, Bool.and_eq_true, bne_iff_ne, ih]
    constructor
    · rintro (h | ⟨hc, run, after, rfl, hrun, h⟩)
      · exact ⟨[], c :: text, rfl, List.not_mem_nil, h⟩
      · refine ⟨c :: run, after, rfl, ?_, h⟩
        rw [List.mem_cons, not_or]
        exact ⟨Ne.symm hc, hrun⟩
    · rintro ⟨run, after, htext, hrun, h⟩
      cases run with
      | nil =>
        subst htext
        exact .inl h
      | cons d run =>
        obtain ⟨rfl, rfl⟩ := List.cons.inj htext
        rw [List.mem_cons, not_or] at hrun
        exact .inr ⟨Ne.symm hrun.1, run, after, rfl, hrun.2, h⟩

theorem pathMatch_star (ha : ∀ c ∈ a, IsPlain c) (hb : ∀ c ∈ b, IsPlain c) :
    pathMatch (a ++ '*' :: b) text = true ↔ ∃ run, '/' ∉ run ∧ text = a ++ run ++ b := by
  have hlength : (a ++ '*' :: b).length = a.length + (b.length + 1) := by simp
  have hterms : patternTerms (b.length + 1) ('*' :: b) = some (.star :: b.map .char) := by
    rw [patternTerms, patternTerms_all hb]
    rfl
  rw [pathMatch, hlength, patternTerms_append ha, hterms, Option.map_some]
  simp only
  rw [termsMatch_append]
  constructor
  · rintro ⟨rest, rfl, hrest⟩
    obtain ⟨run, after, rfl, hrun, hafter⟩ := starMatch_iff.mp hrest
    rw [(termsMatch_all b).mp hafter]
    exact ⟨run, hrun, (List.append_assoc _ _ _).symm⟩
  · rintro ⟨run, hrun, rfl⟩
    exact ⟨run ++ b, List.append_assoc _ _ _, starMatch_iff.mpr ⟨run, b, rfl, hrun, (termsMatch_all b).mpr rfl⟩⟩

end Text
