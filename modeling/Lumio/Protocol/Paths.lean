import Lumio.Protocol.Message

/-!
# Order and descent of paths
-/

namespace Lumio.Protocol

/-! ## Byte order -/

theorem bytesLe_total : ∀ as bs : List Char, bytesLe as bs = true ∨ bytesLe bs as = true
  | [], _ => .inl (by simp [bytesLe])
  | _ :: _, [] => .inr (by simp [bytesLe])
  | a :: as, b :: bs => by
    rcases Nat.lt_trichotomy a.toNat b.toNat with h | h | h
    · exact .inl (by simp [bytesLe, h])
    · simpa [bytesLe, h] using bytesLe_total as bs
    · exact .inr (by simp [bytesLe, h])

theorem bytesLe_trans : ∀ {as bs cs : List Char}, bytesLe as bs = true → bytesLe bs cs = true → bytesLe as cs = true
  | [], _, _, _, _ => by simp [bytesLe]
  | _ :: _, [], _, h, _ => by simp [bytesLe] at h
  | _ :: _, _ :: _, [], _, h => by simp [bytesLe] at h
  | a :: as, b :: bs, c :: cs, hab, hbc => by
    simp only [bytesLe, Bool.or_eq_true, decide_eq_true_eq, Bool.and_eq_true, beq_iff_eq] at *
    rcases hab with hab | ⟨hab, has⟩
    · rcases hbc with hbc | ⟨hbc, -⟩
      · exact .inl (by omega)
      · exact .inl (by omega)
    · rcases hbc with hbc | ⟨hbc, hbs⟩
      · exact .inl (by omega)
      · exact .inr ⟨by omega, bytesLe_trans has hbs⟩

theorem bytesLe_antisymm : ∀ {as bs : List Char}, bytesLe as bs = true → bytesLe bs as = true → as = bs
  | [], [], _, _ => rfl
  | [], _ :: _, _, h => by simp [bytesLe] at h
  | _ :: _, [], h, _ => by simp [bytesLe] at h
  | a :: as, b :: bs, hab, hba => by
    simp only [bytesLe, Bool.or_eq_true, decide_eq_true_eq, Bool.and_eq_true, beq_iff_eq] at hab hba
    obtain ⟨hsame, hab⟩ := hab.resolve_left (by omega)
    rw [Char.ext (UInt32.toNat_inj.mp hsame), bytesLe_antisymm hab (hba.resolve_left (by omega)).2]

theorem bytesLe_append (as : List Char) (c : Char) (cs : List Char) : bytesLe (as ++ c :: cs) as = false := by
  induction as with
  | nil => rfl
  | cons a as ih => simp [bytesLe, ih]

/-! ## Paths below a path -/

variable {path root : WorkspacePath}

theorem pathIsDescendant_iff :
    pathIsDescendant path root = true ↔ ∃ suffix, path.chars = root.chars ++ '/' :: suffix := by
  simp only [pathIsDescendant, List.isPrefixOf_iff_prefix]
  constructor
  · rintro ⟨suffix, h⟩
    exact ⟨suffix, by rw [← h]; simp⟩
  · rintro ⟨suffix, h⟩
    exact ⟨suffix, by rw [h]; simp⟩

theorem chars_injective {a b : WorkspacePath} (h : a.chars = b.chars) : a = b := by
  cases a
  cases b
  simpa using h

theorem ne_of_descendant (h : pathIsDescendant path root = true) : path ≠ root := by
  rintro rfl
  obtain ⟨suffix, hsuffix⟩ := pathIsDescendant_iff.mp h
  have hlength := congrArg List.length hsuffix
  simp at hlength

theorem descendant_comparable {a b : WorkspacePath} (ha : pathIsDescendant path a = true)
    (hb : pathIsDescendant path b = true) : a = b ∨ pathIsDescendant a b = true ∨ pathIsDescendant b a = true := by
  simp only [pathIsDescendant, List.isPrefixOf_iff_prefix] at ha hb ⊢
  rcases List.prefix_or_prefix_of_prefix ha hb with h | h
  · rcases List.prefix_concat_iff.mp h with h | h
    · exact .inl (chars_injective (List.append_cancel_right h))
    · exact .inr (.inr h)
  · rcases List.prefix_concat_iff.mp h with h | h
    · exact .inl (chars_injective (List.append_cancel_right h)).symm
    · exact .inr (.inl h)

theorem parse_eq_some {chars : List Char} :
    (WorkspacePath.parse chars).toOption = some path ↔ chars = path.chars := by
  unfold WorkspacePath.parse
  split
  · rename_i h
    simp only [Except.toOption, Option.some.injEq]
    constructor
    · rintro rfl
      rfl
    · rintro rfl
      rfl
  · rename_i reason h
    simp only [validationError, Except.toOption, reduceCtorEq, false_iff]
    rintro rfl
    rw [path.parsed] at h
    cases h

theorem le_of_descendant (h : pathIsDescendant path root = true) : path.le root = false := by
  obtain ⟨suffix, hsuffix⟩ := pathIsDescendant_iff.mp h
  rw [WorkspacePath.le, hsuffix]
  exact bytesLe_append _ _ _

/-! ## What the parser accepts -/

section

variable {chars : List Char}

def SegmentsPass (chars : List Char) : Prop := ∀ segment ∈ chars.splitOn '/', segmentError segment = none

theorem segmentsPass_append {a b : List Char} : SegmentsPass (a ++ '/' :: b) ↔ SegmentsPass a ∧ SegmentsPass b := by
  simp only [SegmentsPass, List.splitOn_append_cons_self, List.mem_append, or_imp, forall_and]

theorem SegmentsPass.ne_nil (h : SegmentsPass chars) : chars ≠ [] := by
  rintro rfl
  have hempty := h [] (by simp)
  simp [segmentError] at hempty

theorem exists_of_mem_zip_tail {c : Char} (h : (c, c) ∈ chars.zip chars.tail) : ∃ a b, chars = a ++ c :: c :: b := by
  induction chars with
  | nil => cases h
  | cons first chars ih =>
    cases chars with
    | nil => cases h
    | cons second chars =>
      rcases List.mem_cons.mp h with heq | h
      · cases heq
        exact ⟨[], chars, rfl⟩
      · obtain ⟨a, b, hsplit⟩ := ih h
        exact ⟨first :: a, b, by rw [hsplit, List.cons_append]⟩

/-- Slashes at the ends or side by side would leave an empty segment. -/
theorem pathError_eq_none_iff :
    pathError chars = none ↔ SegmentsPass chars ∧ '\\' ∉ chars ∧ (chars.map Char.utf8Size).sum ≤ 4096 := by
  have hlast : (chars.splitOn '/').findSome? segmentError = none ↔ SegmentsPass chars := List.findSome?_eq_none_iff
  unfold pathError
  constructor
  · intro h
    split_ifs at h with hlength hslash
    simp only [Bool.or_eq_true, decide_eq_true_eq, not_or, Nat.not_lt, List.contains_iff_mem] at hlength hslash
    exact ⟨hlast.mp h, hslash.2, hlength.2⟩
  · rintro ⟨hpass, hbackslash, hlength⟩
    rw [if_neg, if_neg]
    · exact hlast.mpr hpass
    · simp only [Bool.or_eq_true, beq_iff_eq, List.contains_iff_mem]
      rintro (((h | h) | h) | h)
      · obtain ⟨b, rfl⟩ := List.head?_eq_some_iff.mp h
        exact ((segmentsPass_append (a := [])).mp hpass).1.ne_nil rfl
      · obtain ⟨a, rfl⟩ := List.getLast?_eq_some_iff.mp h
        exact (segmentsPass_append.mp hpass).2.ne_nil rfl
      · obtain ⟨a, b, rfl⟩ := exists_of_mem_zip_tail h
        exact ((segmentsPass_append (a := [])).mp (segmentsPass_append.mp hpass).2).1.ne_nil rfl
      · exact hbackslash h
    · simp [hpass.ne_nil, hlength]

/-- The paths a parsed path is made of are paths themselves, and paths can be joined as far as the length allows it. No segment
of a path is empty or leads up. -/
theorem path_parts : (∀ a b : List Char, pathError (a ++ '/' :: b) = none ↔
      pathError a = none ∧ pathError b = none ∧ ((a ++ '/' :: b).map Char.utf8Size).sum ≤ 4096) ∧
    ∀ (path : WorkspacePath), ∀ segment ∈ path.chars.splitOn '/', segment ≠ [] ∧ segment ≠ ['.'] ∧ segment ≠ ['.', '.'] := by
  refine ⟨fun a b => ?_, fun path segment hsegment => ?_⟩
  · simp only [pathError_eq_none_iff, segmentsPass_append, List.mem_append, List.mem_cons, List.map_append, List.map_cons,
      List.sum_append, List.sum_cons]
    constructor
    · rintro ⟨⟨ha, hb⟩, hbackslash, hlength⟩
      simp only [not_or] at hbackslash
      exact ⟨⟨ha, hbackslash.1, by omega⟩, ⟨hb, hbackslash.2.2, by omega⟩, hlength⟩
    · rintro ⟨⟨ha, hbackslash, -⟩, ⟨hb, hbackslash', -⟩, hlength⟩
      exact ⟨⟨ha, hb⟩, by simp [hbackslash, hbackslash'], hlength⟩
  · have hpass := (pathError_eq_none_iff.mp path.parsed).1 segment hsegment
    refine ⟨?_, ?_, ?_⟩
    all_goals
      rintro rfl
      simp [segmentError] at hpass

end

end Lumio.Protocol
