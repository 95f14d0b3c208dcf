import Lumio.Lib.Lines
import Mathlib.Data.List.TakeWhile

/-!
# Trimmed lines

Programs that look at texts line by line often trim every line first. How a line ends is then of no account.
-/

namespace Text

def trimmedLines (text : Text) : List Text := (lines text).map trim

def Visible (c : Char) : Prop := isWhitespace c = false

instance (c : Char) : Decidable (Visible c) := inferInstanceAs (Decidable (_ = _))

section Trim

variable {a b text : Text} {c : Char}

theorem trimStart_append (h : ∀ c ∈ a, isWhitespace c = true) (b : Text) : trimStart (a ++ b) = trimStart b :=
  List.dropWhile_append_of_pos h

theorem trimStart_cons (h : Visible c) (b : Text) : trimStart (c :: b) = c :: b :=
  List.dropWhile_cons_of_neg (by simp [show isWhitespace c = false from h])

theorem trimEnd_append (h : ∀ c ∈ b, isWhitespace c = true) (a : Text) : trimEnd (a ++ b) = trimEnd a := by
  rw [trimEnd, List.reverse_append, List.dropWhile_append_of_pos fun c hc => h c (List.mem_reverse.mp hc), trimEnd]

theorem trimEnd_visible (h : Visible c) (a b : Text) : trimEnd (a ++ c :: b) = a ++ c :: trimEnd b := by
  unfold trimEnd
  rw [List.reverse_append, List.reverse_cons, List.append_assoc, List.dropWhile_append]
  split
  · rename_i hempty
    rw [List.isEmpty_iff.mp hempty, List.singleton_append, List.dropWhile_cons_of_neg (by simp [show isWhitespace c = false from h])]
    simp
  · simp

theorem trimEnd_white (h : ∀ c ∈ text, isWhitespace c = true) : trimEnd text = [] := by
  have happend := trimEnd_append h []
  rwa [List.nil_append] at happend

theorem trim_between {lead : Text} (hlead : ∀ c ∈ lead, isWhitespace c = true) (h : Visible c) (b : Text) :
    trim (lead ++ c :: b) = trimEnd (c :: b) := by
  rw [trim, trimStart_append hlead, trimStart_cons h]

theorem trim_white (h : ∀ c ∈ text, isWhitespace c = true) : trim text = [] := by
  have hstart := trimStart_append h []
  rw [List.append_nil] at hstart
  rw [trim, hstart]
  rfl

theorem trim_append_white (h : ∀ c ∈ b, isWhitespace c = true) (a : Text) : trim (a ++ b) = trim a := by
  by_cases ha : ∀ c ∈ a, isWhitespace c = true
  · rw [trim_white ha, trim_white]
    intro c hc
    rcases List.mem_append.mp hc with hc | hc
    · exact ha c hc
    · exact h c hc
  · have hstart : trimStart (a ++ b) = trimStart a ++ b := by
      unfold trimStart
      rw [List.dropWhile_append, if_neg]
      rw [List.isEmpty_iff, List.dropWhile_eq_nil_iff]
      exact ha
    rw [trim, hstart, trimEnd_append h, trim]

theorem trim_trimEnd (text : Text) : trim (trimEnd text) = trim text := by
  obtain ⟨rest, hrest⟩ := trimEnd_isPrefix text
  have hwhite : ∀ c ∈ rest, isWhitespace c = true := by
    intro c hc
    have hreverse : text.reverse = rest.reverse ++ (trimEnd text).reverse := by rw [← List.reverse_append, hrest]
    have htake : text.reverse = text.reverse.takeWhile isWhitespace ++ (trimEnd text).reverse := by
      rw [trimEnd, List.reverse_reverse, List.takeWhile_append_dropWhile]
    rw [htake] at hreverse
    have hsame := List.append_cancel_right hreverse
    have hmem : c ∈ text.reverse.takeWhile isWhitespace := by
      rw [hsame]
      exact List.mem_reverse.mpr hc
    exact List.mem_takeWhile_imp hmem
  conv_rhs => rw [← hrest, trim_append_white hwhite]

theorem trim_visible {d : Char} {lead trail : Text} (hlead : ∀ c ∈ lead, isWhitespace c = true)
    (htrail : ∀ c ∈ trail, isWhitespace c = true) (h : Visible c) (hd : Visible d) (a : Text) :
    trim (lead ++ c :: a ++ d :: trail) = c :: a ++ [d] := by
  have htext : lead ++ c :: a ++ d :: trail = lead ++ c :: (a ++ d :: trail) := by simp
  have hcons : c :: (a ++ d :: trail) = (c :: a) ++ d :: trail := rfl
  rw [htext, trim_between hlead h, hcons, trimEnd_visible hd, trimEnd_white htrail]

theorem trimStart_not_white (h : ¬∀ c ∈ a, isWhitespace c = true) (b : Text) : trimStart (a ++ b) = trimStart a ++ b := by
  unfold trimStart
  rw [List.dropWhile_append, if_neg]
  rw [List.isEmpty_iff, List.dropWhile_eq_nil_iff]
  exact h

theorem trim_cons_visible (h : Visible c) (a b : Text) : ∃ lead, trim (a ++ c :: b) = lead ++ c :: trimEnd b := by
  by_cases ha : ∀ d ∈ a, isWhitespace d = true
  · refine ⟨[], ?_⟩
    rw [trim_between ha h]
    exact trimEnd_visible h [] b
  · refine ⟨trimStart a, ?_⟩
    rw [trim, trimStart_not_white ha, trimEnd_visible h]

theorem mem_trim (h : Visible c) (hmem : c ∈ text) : c ∈ trim text := by
  obtain ⟨a, b, rfl, -⟩ := List.eq_append_cons_of_mem hmem
  obtain ⟨lead, htrim⟩ := trim_cons_visible h a b
  rw [htrim]
  exact List.mem_append_right _ List.mem_cons_self

theorem getLast?_trim (h : Visible c) (hlast : text.getLast? = some c) : (trim text).getLast? = some c := by
  obtain ⟨a, rfl⟩ := List.getLast?_eq_some_iff.mp hlast
  obtain ⟨lead, htrim⟩ := trim_cons_visible h a []
  have hend : trimEnd [] = [] := rfl
  rw [htrim, hend]
  exact List.getLast?_concat

theorem trim_sublist (text : Text) : List.Sublist (trim text) text := by
  unfold trim trimEnd trimStart
  rw [← List.reverse_sublist, List.reverse_reverse]
  exact (List.dropWhile_sublist _).trans (List.reverse_sublist.mpr (List.dropWhile_sublist _))

theorem trim_stripLineEnd (piece : Text) : trim (stripLineEnd piece) = trim piece := by
  have hdrop : ∀ {text : Text} {c : Char}, text.getLast? = some c → isWhitespace c = true →
      trim text.dropLast = trim text := by
    intro text c hlast hc
    have htext : text = text.dropLast ++ [c] := (List.dropLast_append_getLast? c hlast).symm
    conv_rhs => rw [htext]
    rw [trim_append_white]
    intro d hd
    rw [List.mem_singleton.mp hd]
    exact hc
  unfold stripLineEnd
  dsimp only
  split_ifs with hnewline hreturn
  · rw [hdrop hreturn rfl, hdrop hnewline rfl]
  · exact hdrop hnewline rfl
  · rfl

end Trim

section Lines

variable {a b : Text}

variable (text : Text)

theorem trimmedLines_eq : trimmedLines text = (splitInclusive text).map trim := by
  rw [trimmedLines, lines, List.map_map]
  exact List.map_congr_left fun piece _ => trim_stripLineEnd piece

theorem splitInclusive_append (a b : Text) :
    splitInclusive (a ++ '\n' :: b) = splitInclusive (a ++ ['\n']) ++ splitInclusive b := by
  induction a with
  | nil => rfl
  | cons c a ih =>
    rw [List.cons_append, List.cons_append, splitInclusive, splitInclusive, ih]
    split_ifs with hc
    · rfl
    · cases hsplit : splitInclusive (a ++ ['\n']) with
      | nil =>
        have hflatten := flatten_splitInclusive (a ++ ['\n'])
        rw [hsplit] at hflatten
        simp at hflatten
      | cons first rest => rfl

theorem splitInclusive_before (h : '\n' ∉ a) {piece : Text} {pieces : List Text} (hsplit : splitInclusive b = piece :: pieces) :
    splitInclusive (a ++ b) = (a ++ piece) :: pieces := by
  induction a with
  | nil => exact hsplit
  | cons c a ih =>
    obtain ⟨hc, ha⟩ : '\n' ≠ c ∧ '\n' ∉ a := by simpa using h
    rw [List.cons_append, splitInclusive, if_neg (Ne.symm hc), ih ha]
    rfl

theorem trimmedLines_append (a b : Text) :
    trimmedLines (a ++ '\n' :: b) = trimmedLines (a ++ ['\n']) ++ trimmedLines b := by
  rw [trimmedLines_eq, trimmedLines_eq, trimmedLines_eq, splitInclusive_append, List.map_append]

theorem lineInduction {p : Text → Prop} (last : ∀ a, '\n' ∉ a → p a) (line : ∀ a b, '\n' ∉ a → p b → p (a ++ '\n' :: b))
    (text : Text) : p text := by
  induction hlength : text.length using Nat.strong_induction_on generalizing text with
  | h length ih =>
    by_cases hmem : '\n' ∈ text
    · obtain ⟨a, b, rfl, ha⟩ := List.eq_append_cons_of_mem hmem
      refine line a b ha (ih b.length ?_ b rfl)
      rw [← hlength, List.length_append, List.length_cons]
      omega
    · exact last text hmem

theorem trimmedLines_line (h : '\n' ∉ a) : trimmedLines (a ++ ['\n']) = [trim a] := by
  have hpieces : splitInclusive (a ++ ['\n']) = [a ++ ['\n']] := splitInclusive_before h rfl
  rw [trimmedLines_eq, hpieces, List.map_singleton, trim_append_white (by decide)]

theorem trimmedLines_crlf (a b : Text) : trimmedLines (a ++ '\r' :: '\n' :: b) = trimmedLines (a ++ '\n' :: b) := by
  have hmiddle : trimmedLines (a ++ ['\r', '\n']) = trimmedLines (a ++ ['\n']) := by
    induction a using lineInduction with
    | last a ha =>
      have hreturn : '\n' ∉ a ++ ['\r'] := by simpa using ha
      have hline := trimmedLines_line hreturn
      rw [List.append_assoc] at hline
      rw [trimmedLines_line ha]
      exact hline.trans (congrArg (fun line => [line]) (trim_append_white (by decide) a))
    | line a b ha ih =>
      rw [List.append_assoc, List.append_assoc, List.cons_append, List.cons_append, trimmedLines_append a, ih,
        ← trimmedLines_append]
  have hsplit : a ++ '\r' :: '\n' :: b = (a ++ ['\r']) ++ '\n' :: b := by simp
  rw [hsplit, trimmedLines_append, List.append_assoc, trimmedLines_append a b]
  exact congrArg (· ++ trimmedLines b) hmiddle

theorem trimmedLines_last :
    trimmedLines (text ++ ['\n']) = trimmedLines text ∨ trimmedLines (text ++ ['\n']) = trimmedLines text ++ [[]] := by
  induction text using lineInduction with
  | last a ha =>
    cases a with
    | nil => exact .inr rfl
    | cons c a =>
      left
      rw [trimmedLines_line ha, trimmedLines_eq, splitInclusive_last ha (List.cons_ne_nil c a)]
      rfl
  | line a b ha ih =>
    rw [List.append_assoc, List.cons_append, trimmedLines_append, trimmedLines_append a b, List.append_assoc]
    rcases ih with ih | ih
    · exact .inl (by rw [ih])
    · exact .inr (by rw [ih])

theorem trimmedLines_before (h : '\n' ∉ a) (b : Text) :
    ∃ piece pieces, splitInclusive (b ++ ['\n']) = piece :: pieces ∧
      trimmedLines (a ++ b ++ ['\n']) = trim (a ++ piece) :: pieces.map trim := by
  cases hsplit : splitInclusive (b ++ ['\n']) with
  | nil =>
    have hflatten := flatten_splitInclusive (b ++ ['\n'])
    rw [hsplit] at hflatten
    simp at hflatten
  | cons piece pieces =>
    refine ⟨piece, pieces, rfl, ?_⟩
    rw [trimmedLines_eq, List.append_assoc, splitInclusive_before h hsplit, List.map_cons]

end Lines

end Text
