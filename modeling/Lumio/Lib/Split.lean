import Lumio.Lib.Lines
import Mathlib.Data.List.TakeWhile

/-!
# Cutting texts

More of Rust's `str`: what is split, trimmed or looked at on either side of a text.
-/

namespace Text

/-- `str::split_once` -/
def splitOnce (c : Char) : Text → Option (Text × Text)
  | [] => none
  | d :: text => if d = c then some ([], text) else (splitOnce c text).map fun (before, after) => (d :: before, after)

def startsWith (c : Char) (text : Text) : Bool := text.head? = some c

def endsWith (c : Char) (text : Text) : Bool := text.getLast? = some c

/-- `str::trim_matches` -/
def trimMatches (p : Char → Bool) (text : Text) : Text := ((text.dropWhile p).reverse.dropWhile p).reverse

variable {text : Text} {c : Char}

theorem isEmpty_trim_iff : (trim text).isEmpty = true ↔ ∀ c ∈ text, isWhitespace c = true := by
  rw [List.isEmpty_iff, trim, trimEnd, List.reverse_eq_nil_iff, List.dropWhile_eq_nil_iff]
  constructor
  · intro h c hc
    rw [← List.takeWhile_append_dropWhile (p := isWhitespace) (l := text), List.mem_append] at hc
    rcases hc with hc | hc
    · exact List.mem_takeWhile_imp hc
    · exact h c (List.mem_reverse.mpr hc)
  · intro h c hc
    exact h c ((List.dropWhile_suffix _).subset (List.mem_reverse.mp hc))

theorem mem_of_mem_lines {line : Text} (hline : line ∈ lines text) (hc : c ∈ line) : c ∈ text := by
  obtain ⟨piece, hpiece, rfl⟩ := List.mem_map.mp hline
  rw [← flatten_splitInclusive text]
  exact List.mem_flatten.mpr ⟨piece, hpiece, (stripLineEnd_isPrefix piece).subset hc⟩

theorem mem_of_mem_join {parts : List Text} (h : c ∈ join ['\n'] parts) : c = '\n' ∨ ∃ part ∈ parts, c ∈ part := by
  cases parts with
  | nil => cases h
  | cons part parts =>
    rw [join_newline, List.mem_append, List.mem_flatMap] at h
    rcases h with hc | ⟨next, hnext, hc⟩
    · exact .inr ⟨part, List.mem_cons_self, hc⟩
    · rcases List.mem_cons.mp hc with rfl | hc
      · exact .inl rfl
      · exact .inr ⟨next, List.mem_cons_of_mem part hnext, hc⟩

theorem splitOnce_append {before : Text} (h : c ∉ before) (after : Text) :
    splitOnce c (before ++ c :: after) = some (before, after) := by
  induction before with
  | nil => exact if_pos rfl
  | cons d before ih =>
    obtain ⟨hd, hbefore⟩ : c ≠ d ∧ c ∉ before := by simpa using h
    rw [List.cons_append, splitOnce, if_neg (Ne.symm hd), ih hbefore]
    rfl

theorem eq_of_splitOnce {before after : Text} (h : splitOnce c text = some (before, after)) :
    text = before ++ c :: after ∧ c ∉ before := by
  induction text generalizing before with
  | nil => cases h
  | cons d text ih =>
    rw [splitOnce] at h
    split_ifs at h with hd
    · cases h
      exact ⟨by rw [hd]; rfl, List.not_mem_nil⟩
    · obtain ⟨⟨start, rest⟩, hsplit, heq⟩ := Option.map_eq_some_iff.mp h
      cases heq
      obtain ⟨rfl, hstart⟩ := ih hsplit
      exact ⟨rfl, by simp [Ne.symm hd, hstart]⟩

theorem toNat_lt_of_isAlphanum (h : c.isAlphanum = true) : c.toNat < 0x80 := by
  have hupper : 'Z'.val.toNat = 0x5a := rfl
  have hlower : 'z'.val.toNat = 0x7a := rfl
  have hdigit : '9'.val.toNat = 0x39 := rfl
  have hnat : c.val.toNat = c.toNat := rfl
  have hdef : c.isAlphanum = (decide (c.val ≥ 'A'.val ∧ c.val ≤ 'Z'.val) ||
      c.val ≥ 'a'.val && c.val ≤ 'z'.val || c.val ≥ '0'.val && c.val ≤ '9'.val) := rfl
  simp only [hdef, Bool.or_eq_true, Bool.and_eq_true, decide_eq_true_eq, ge_iff_le, UInt32.le_iff_toNat_le, hupper, hlower,
    hdigit, hnat] at h
  omega

end Text
