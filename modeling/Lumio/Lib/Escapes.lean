import Lumio.Lib.Utf8

/-!
# Percent escapes

A decoder that walks over the bytes of a text and cuts the two bytes behind a percent sign out of the text. A cut inside a
character stops the program, and what is cut out is read as a number, which may begin with a plus sign. `unescape` is what
is meant: two hexadecimal digits behind a percent sign are a byte, and everything else stands for itself.
-/

namespace Escapes

open Utf8

def percent : UInt8 := 0x25

/-- `char::to_digit` -/
def toDigit (b : UInt8) : Option Nat :=
  if 0x30 ≤ b ∧ b ≤ 0x39 then some (b.toNat - 0x30)
  else if 0x41 ≤ b ∧ b ≤ 0x46 then some (b.toNat - 0x37)
  else if 0x61 ≤ b ∧ b ≤ 0x66 then some (b.toNat - 0x57)
  else none

/-- `u8::from_str_radix` on two bytes. -/
def fromStrRadix (a b : UInt8) : Option UInt8 :=
  if a = 0x2b then (toDigit b).map .ofNat
  else (toDigit a).bind fun x => (toDigit b).map fun y => .ofNat (x * 16 + y)

/-- No character begins before the bytes and ends in them. -/
def isBoundary : List UInt8 → Bool
  | [] => true
  | b :: _ => !isContinuation b

/-- What the bytes behind a percent sign stand for, or nothing if they stand for themselves. -/
def escaped : List UInt8 → Option (Option UInt8)
  | a :: b :: rest => if isBoundary (a :: b :: rest) && isBoundary rest then some (fromStrRadix a b) else none
  | _ => some none

/-- The bytes of a text with escapes, after some of them that are passed. -/
def decodeFrom (unescaped : UInt8 → UInt8) : Nat → List UInt8 → Option (List UInt8)
  | _, [] => some []
  | skip + 1, _ :: bytes => decodeFrom unescaped skip bytes
  | 0, byte :: bytes =>
    if byte = percent then
      match escaped bytes with
      | none => none
      | some none => (decodeFrom unescaped 0 bytes).map (unescaped byte :: ·)
      | some (some decoded) => (decodeFrom unescaped 2 bytes).map (decoded :: ·)
    else (decodeFrom unescaped 0 bytes).map (unescaped byte :: ·)

/-! ## What is meant -/

def hexDigit (c : Char) : Option Nat :=
  if 0x30 ≤ c.toNat ∧ c.toNat ≤ 0x39 then some (c.toNat - 0x30)
  else if 0x41 ≤ c.toNat ∧ c.toNat ≤ 0x46 then some (c.toNat - 0x37)
  else if 0x61 ≤ c.toNat ∧ c.toNat ≤ 0x66 then some (c.toNat - 0x57)
  else none

def hexByte : Text → Option UInt8
  | a :: b :: _ => (hexDigit a).bind fun x => (hexDigit b).map fun y => .ofNat (x * 16 + y)
  | _ => none

def unescapeFrom (unescaped : UInt8 → UInt8) : Nat → Text → List UInt8
  | _, [] => []
  | skip + 1, _ :: text => unescapeFrom unescaped skip text
  | 0, c :: text =>
    match if c = '%' then hexByte text else none with
    | some byte => byte :: unescapeFrom unescaped 2 text
    | none => (String.utf8EncodeChar c).map unescaped ++ unescapeFrom unescaped 0 text

/-- A percent sign is kept unless two hexadecimal digits follow. -/
def unescape (unescaped : UInt8 → UInt8) (text : Text) : List UInt8 := unescapeFrom unescaped 0 text

/-- Two bytes into the text, there is the middle of a character. -/
def cutsCharacter : Text → Bool
  | [] => false
  | [a] => 2 < a.utf8Size
  | a :: b :: _ => if a.utf8Size = 1 then b.utf8Size != 1 else 2 < a.utf8Size

/-- A plus sign and a digit, which are a number as well. -/
def signedDigit : Text → Bool
  | '+' :: b :: _ => (hexDigit b).isSome
  | _ => false

/-- No text behind a percent sign has the property. -/
def NoneBehind (p : Text → Bool) (text : Text) : Prop := ∀ before after, text = before ++ '%' :: after → p after = false

/-- No percent sign stands where the text behind it is cut inside a character. -/
abbrev Uncut (text : Text) : Prop := NoneBehind cutsCharacter text

/-- No percent sign has a signed digit behind it. -/
abbrev Unsigned (text : Text) : Prop := NoneBehind signedDigit text

section Behind

variable {p : Text → Bool} {c : Char} {text : Text}

theorem NoneBehind.nil : NoneBehind p [] := by
  intro before after hsplit
  cases before <;> cases hsplit

theorem noneBehind_cons_iff : NoneBehind p (c :: text) ↔ (c = '%' → p text = false) ∧ NoneBehind p text := by
  constructor
  · intro h
    refine ⟨?_, fun before after hsplit => h (c :: before) after (by rw [hsplit]; rfl)⟩
    rintro rfl
    exact h [] text rfl
  · rintro ⟨hfirst, htail⟩ before after hsplit
    cases before with
    | nil =>
      obtain ⟨hc, rfl⟩ := List.cons.inj hsplit
      exact hfirst hc
    | cons d before => exact htail before after (List.cons.inj hsplit).2

theorem NoneBehind.tail (h : NoneBehind p (c :: text)) : NoneBehind p text := (noneBehind_cons_iff.mp h).2

instance decidableNoneBehind (p : Text → Bool) : (text : Text) → Decidable (NoneBehind p text)
  | [] => .isTrue .nil
  | _ :: text =>
    have : Decidable (NoneBehind p text) := decidableNoneBehind p text
    decidable_of_iff' _ noneBehind_cons_iff

end Behind

/-! ## Bytes of characters -/

section Bytes

variable {c : Char} {text : Text} {b : UInt8}

theorem utf8EncodeChar_ascii (h : c.utf8Size = 1) : ∃ b, String.utf8EncodeChar c = [b] ∧ b.toNat = c.toNat ∧ c.toNat < 0x80 := by
  have hval : c.toNat ≤ 0x7f := by
    have hle := Char.utf8Size_eq_one_iff.mp h
    exact UInt32.le_iff_toNat_le.mp hle
  refine ⟨UInt8.ofNat c.toNat, ?_, toNat_ofNat (by omega), by omega⟩
  have hnat : c.val.toNat = c.toNat := rfl
  simp only [String.utf8EncodeChar, hnat, hval, if_true]

theorem utf8Size_of_lt (h : c.toNat < 0x80) : c.utf8Size = 1 := by
  rw [Char.utf8Size_eq_one_iff, UInt32.le_iff_toNat_le]
  exact Nat.le_of_lt_succ h

theorem utf8EncodeChar_high (h : c.utf8Size ≠ 1) :
    ∃ first rest, String.utf8EncodeChar c = first :: rest ∧ 0xc0 ≤ first.toNat ∧ rest ≠ [] ∧
      (∀ b ∈ rest, isContinuation b = true) := by
  have hval : ¬ c.val.toNat ≤ 0x7f := by
    intro hle
    exact h (utf8Size_of_lt (Nat.lt_succ_of_le hle))
  simp only [String.utf8EncodeChar, if_neg hval]
  split
  · refine ⟨_, _, rfl, ?_, by simp, ?_⟩
    · rw [toNat_ofNat (by omega)]
      omega
    · simp only [List.mem_cons, List.not_mem_nil, or_false, forall_eq]
      exact isContinuation_ofNat (by omega)
  · split
    · refine ⟨_, _, rfl, ?_, by simp, ?_⟩
      · rw [toNat_ofNat (by omega)]
        omega
      · simp only [List.mem_cons, List.not_mem_nil, or_false, forall_eq_or_imp, forall_eq]
        exact ⟨isContinuation_ofNat (by omega), isContinuation_ofNat (by omega)⟩
    · refine ⟨_, _, rfl, ?_, by simp, ?_⟩
      · rw [toNat_ofNat (by omega)]
        omega
      · simp only [List.mem_cons, List.not_mem_nil, or_false, forall_eq_or_imp, forall_eq]
        exact ⟨isContinuation_ofNat (by omega), isContinuation_ofNat (by omega), isContinuation_ofNat (by omega)⟩

theorem isContinuation_iff : isContinuation b = true ↔ 0x80 ≤ b.toNat ∧ b.toNat ≤ 0xbf := by
  simp [isContinuation, UInt8.le_iff_toNat_le]

theorem isBoundary_encode (text : Text) : isBoundary (encode text) = true := by
  cases text with
  | nil => rfl
  | cons c text =>
    have hfirst : ∀ {b : UInt8} {rest}, ¬(0x80 ≤ b.toNat ∧ b.toNat ≤ 0xbf) → isBoundary (b :: rest) = true := by
      intro b rest hb
      rw [isBoundary, Bool.not_eq_true', ← Bool.not_eq_true, isContinuation_iff]
      exact hb
    rw [encode_cons]
    by_cases hsize : c.utf8Size = 1
    · obtain ⟨b, hb, hnat, hlt⟩ := utf8EncodeChar_ascii hsize
      rw [hb, List.cons_append]
      exact hfirst (by omega)
    · obtain ⟨first, rest, hc, hhigh, -, -⟩ := utf8EncodeChar_high hsize
      rw [hc, List.cons_append]
      exact hfirst (by omega)

end Bytes

/-! ## Behind a percent sign -/

section Behind

variable {a b : UInt8} {c d : Char} {after : Text} {bytes : List UInt8}

theorem toDigit_ascii (h : b.toNat = c.toNat) : toDigit b = hexDigit c := by
  simp only [toDigit, hexDigit, UInt8.le_iff_toNat_le, h, UInt8.reduceToNat]

theorem toDigit_high (h : 0xc0 ≤ b.toNat) : toDigit b = none := by
  simp only [toDigit, UInt8.le_iff_toNat_le, UInt8.reduceToNat]
  rw [if_neg (by omega), if_neg (by omega), if_neg (by omega)]

theorem hexDigit_wide (h : c.utf8Size ≠ 1) : hexDigit c = none := by
  have hwide : ¬c.toNat < 0x80 := fun hlt => h (utf8Size_of_lt hlt)
  rw [hexDigit, if_neg (by omega), if_neg (by omega), if_neg (by omega)]

theorem hexDigit_plus : hexDigit '+' = none := by decide

theorem fromStrRadix_high (h : 0xc0 ≤ a.toNat) : fromStrRadix a b = none := by
  have hplus : a ≠ 0x2b := by
    rintro rfl
    exact absurd h (by decide)
  rw [fromStrRadix, if_neg hplus, toDigit_high h]
  rfl

theorem fromStrRadix_ascii (ha : a.toNat = c.toNat) (hb : b.toNat = d.toNat) (hsigned : signedDigit (c :: d :: after) = false) :
    fromStrRadix a b = hexByte (c :: d :: after) := by
  rw [fromStrRadix, hexByte, toDigit_ascii ha, toDigit_ascii hb]
  split
  · rename_i hplus
    have hc : c = '+' := by
      rw [← Char.toNat_inj, ← ha, hplus]
      rfl
    subst hc
    rw [signedDigit, Option.isSome_eq_false_iff, Option.isNone_iff_eq_none] at hsigned
    rw [hsigned, hexDigit_plus]
    rfl
  · rfl

theorem isBoundary_ascii (h : c.toNat < 0x80) (hb : b.toNat = c.toNat) : isBoundary (b :: bytes) = true := by
  rw [isBoundary, Bool.not_eq_true', ← Bool.not_eq_true, isContinuation_iff]
  omega

theorem isBoundary_high (h : 0xc0 ≤ b.toNat) : isBoundary (b :: bytes) = true := by
  rw [isBoundary, Bool.not_eq_true', ← Bool.not_eq_true, isContinuation_iff]
  omega

theorem cutsCharacter_ascii (hc : c.utf8Size = 1) : cutsCharacter (c :: d :: after) = (d.utf8Size != 1) := by
  rw [cutsCharacter, if_pos hc]

theorem cutsCharacter_wide (hc : c.utf8Size ≠ 1) : cutsCharacter (c :: after) = decide (2 < c.utf8Size) := by
  cases after with
  | nil => rfl
  | cons d after => rw [cutsCharacter, if_neg hc]

theorem escaped_wide (hc : c.utf8Size ≠ 1) (after : Text) :
    escaped (encode (c :: after)) = if cutsCharacter (c :: after) then none else some none := by
  obtain ⟨first, rest, hbytes, hhigh, hne, hcontinue⟩ := utf8EncodeChar_high hc
  have hlength : (first :: rest).length = c.utf8Size := by
    rw [← hbytes, String.length_utf8EncodeChar]
  rw [encode_cons, hbytes]
  cases rest with
  | nil => exact absurd rfl hne
  | cons second rest =>
    simp only [List.cons_append, escaped, isBoundary_high hhigh, Bool.true_and]
    cases rest with
    | nil =>
      have htwo : c.utf8Size = 2 := hlength.symm
      rw [List.nil_append, isBoundary_encode, fromStrRadix_high hhigh, cutsCharacter_wide hc, htwo]
      rfl
    | cons third rest =>
      have hthird : isBoundary (third :: (rest ++ encode after)) = false := by
        rw [isBoundary, hcontinue third (by simp)]
        rfl
      have hcuts : cutsCharacter (c :: after) = true := by
        simp only [List.length_cons] at hlength
        rw [cutsCharacter_wide hc, decide_eq_true_eq]
        omega
      rw [List.cons_append, hthird, hcuts]
      rfl

theorem escaped_encode_eq_none (after : Text) : escaped (encode after) = none ↔ cutsCharacter after = true := by
  cases after with
  | nil => exact ⟨fun h => absurd h (by decide), fun h => absurd h (by decide)⟩
  | cons c after =>
    by_cases hc : c.utf8Size = 1
    · obtain ⟨a, hbytes, ha, hlt⟩ := utf8EncodeChar_ascii hc
      cases after with
      | nil =>
        rw [encode_cons, hbytes, cutsCharacter, hc]
        exact ⟨fun h => absurd h (by simp [escaped]), fun h => absurd h (by decide)⟩
      | cons d after =>
        rw [cutsCharacter_ascii hc, encode_cons, hbytes, encode_cons, List.cons_append, List.nil_append]
        by_cases hd : d.utf8Size = 1
        · obtain ⟨b, hbytes', hb, hlt'⟩ := utf8EncodeChar_ascii hd
          rw [hbytes', List.cons_append, List.nil_append, escaped, isBoundary_ascii hlt ha, isBoundary_encode, hd]
          simp
        · obtain ⟨first, rest, hbytes', hhigh, hne, hcontinue⟩ := utf8EncodeChar_high hd
          rw [hbytes']
          cases rest with
          | nil => exact absurd rfl hne
          | cons second rest =>
            have hsecond : isBoundary (second :: (rest ++ encode after)) = false := by
              rw [isBoundary, hcontinue second (by simp)]
              rfl
            simp only [List.cons_append, escaped, isBoundary_ascii hlt ha, hsecond, Bool.and_false, Bool.false_eq_true, if_false]
            simpa using hd
    · rw [escaped_wide hc]
      split <;> simp_all

theorem escaped_encode (hcut : cutsCharacter after = false) (hsigned : signedDigit after = false) :
    escaped (encode after) = some (hexByte after) := by
  cases after with
  | nil => rfl
  | cons c after =>
    by_cases hc : c.utf8Size = 1
    · obtain ⟨a, hbytes, ha, hlt⟩ := utf8EncodeChar_ascii hc
      cases after with
      | nil =>
        rw [encode_cons, hbytes]
        rfl
      | cons d after =>
        have hd : d.utf8Size = 1 := by simpa [cutsCharacter_ascii hc] using hcut
        obtain ⟨b, hbytes', hb, hlt'⟩ := utf8EncodeChar_ascii hd
        rw [encode_cons, hbytes, encode_cons, hbytes', List.cons_append, List.nil_append, List.cons_append, List.nil_append,
          escaped, isBoundary_ascii hlt ha, isBoundary_encode, fromStrRadix_ascii ha hb hsigned]
        rfl
    · rw [escaped_wide hc, hcut]
      cases after with
      | nil => rfl
      | cons d after =>
        rw [hexByte, hexDigit_wide hc]
        rfl

theorem escaped_eq_some {byte : UInt8} (h : escaped (encode after) = some (some byte)) :
    ∃ c d rest, after = c :: d :: rest ∧ c.utf8Size = 1 ∧ d.utf8Size = 1 ∧ c ≠ '%' ∧ d ≠ '%' := by
  cases after with
  | nil => cases h
  | cons c after =>
    by_cases hc : c.utf8Size = 1
    · obtain ⟨a, hbytes, ha, hlt⟩ := utf8EncodeChar_ascii hc
      cases after with
      | nil =>
        rw [encode_cons, hbytes] at h
        cases h
      | cons d after =>
        have huncut : ¬cutsCharacter (c :: d :: after) = true := by
          rw [← escaped_encode_eq_none, h]
          simp
        have hd : d.utf8Size = 1 := by simpa [cutsCharacter_ascii hc] using huncut
        obtain ⟨b, hbytes', hb, hlt'⟩ := utf8EncodeChar_ascii hd
        rw [encode_cons, hbytes, encode_cons, hbytes', List.cons_append, List.nil_append, List.cons_append, List.nil_append,
          escaped, isBoundary_ascii hlt ha, isBoundary_encode] at h
        have hradix : fromStrRadix a b = some byte := Option.some.inj h
        refine ⟨c, d, after, rfl, hc, hd, ?_, ?_⟩
        · rintro rfl
          have hpercent : a ≠ 0x2b := by
            rintro rfl
            exact absurd ha (by decide)
          rw [fromStrRadix, if_neg hpercent, toDigit_ascii ha, (by decide : hexDigit '%' = none)] at hradix
          cases hradix
        · rintro rfl
          rw [fromStrRadix, toDigit_ascii hb, (by decide : hexDigit '%' = none)] at hradix
          split at hradix
          · cases hradix
          · obtain ⟨x, -, hnone⟩ := Option.bind_eq_some_iff.mp hradix
            cases hnone
    · rw [escaped_wide hc] at h
      split at h <;> cases h

end Behind

/-! ## Decoding -/

section Decoding

variable {unescaped : UInt8 → UInt8} {c d : Char} {text : Text} {bytes rest : List UInt8}

theorem decodeFrom_plain (h : ∀ b ∈ bytes, b ≠ percent) :
    decodeFrom unescaped 0 (bytes ++ rest) = (decodeFrom unescaped 0 rest).map (bytes.map unescaped ++ ·) := by
  induction bytes with
  | nil => simp
  | cons b bytes ih =>
    rw [List.cons_append, decodeFrom, if_neg (h b List.mem_cons_self), ih fun b' hb' => h b' (List.mem_cons_of_mem b hb'),
      Option.map_map]
    rfl

theorem ascii_not_mem {a : Char} {b : UInt8} (hlt : a.toNat < 0x80) (hb : b.toNat = a.toNat) (hc : c ≠ a) :
    b ∉ String.utf8EncodeChar c := by
  intro hmem
  by_cases hsize : c.utf8Size = 1
  · obtain ⟨byte, hbytes, hbyte, -⟩ := utf8EncodeChar_ascii hsize
    rw [hbytes, List.mem_singleton] at hmem
    refine hc (Char.toNat_inj.mp ?_)
    rw [← hbyte, ← hmem, hb]
  · obtain ⟨first, rest, hbytes, hhigh, -, hcontinue⟩ := utf8EncodeChar_high hsize
    rw [hbytes, List.mem_cons] at hmem
    rcases hmem with rfl | hmem
    · omega
    · have hrange := isContinuation_iff.mp (hcontinue _ hmem)
      omega

theorem percent_not_mem (hc : c ≠ '%') : ∀ b ∈ String.utf8EncodeChar c, b ≠ percent := by
  rintro b hb rfl
  exact ascii_not_mem (a := '%') (by decide) rfl hc hb

theorem decodeFrom_char (hc : c ≠ '%') (text : Text) :
    decodeFrom unescaped 0 (encode (c :: text)) =
      (decodeFrom unescaped 0 (encode text)).map ((String.utf8EncodeChar c).map unescaped ++ ·) := by
  rw [encode_cons, decodeFrom_plain (percent_not_mem hc)]

theorem unescape_char (hc : c ≠ '%') (text : Text) :
    unescape unescaped (c :: text) = (String.utf8EncodeChar c).map unescaped ++ unescape unescaped text := by
  simp only [unescape, unescapeFrom, if_neg hc]

theorem unescape_percent (text : Text) :
    unescape unescaped ('%' :: text) =
      match hexByte text with
      | some byte => byte :: unescapeFrom unescaped 2 text
      | none => unescaped percent :: unescape unescaped text := by
  simp only [unescape, unescapeFrom, if_true]
  cases hexByte text <;> rfl

theorem encode_percent (text : Text) : encode ('%' :: text) = percent :: encode text := by
  rw [encode_cons]
  rfl

theorem decodeFrom_skip (hc : c.utf8Size = 1) (hd : d.utf8Size = 1) (text : Text) :
    decodeFrom unescaped 2 (encode (c :: d :: text)) = decodeFrom unescaped 0 (encode text) := by
  obtain ⟨a, hbytes, -, -⟩ := utf8EncodeChar_ascii hc
  obtain ⟨b, hbytes', -, -⟩ := utf8EncodeChar_ascii hd
  rw [encode_cons, hbytes, encode_cons, hbytes']
  rfl

theorem uncut_cons_iff : Uncut (c :: text) ↔ (c = '%' → cutsCharacter text = false) ∧ Uncut text := noneBehind_cons_iff

theorem decodeFrom_isSome (text : Text) : (decodeFrom unescaped 0 (encode text)).isSome ↔ Uncut text := by
  match text with
  | [] => exact ⟨fun _ => .nil, fun _ => rfl⟩
  | c :: text =>
    by_cases hc : c = '%'
    · subst hc
      rw [uncut_cons_iff, encode_percent, decodeFrom, if_pos rfl]
      cases hescaped : escaped (encode text) with
      | none =>
        have hcuts := (escaped_encode_eq_none text).mp hescaped
        simp [hcuts]
      | some found =>
        have huncut : cutsCharacter text = false := by
          rw [← Bool.not_eq_true, ← escaped_encode_eq_none, hescaped]
          simp
        cases found with
        | none => simp [huncut, decodeFrom_isSome text]
        | some byte =>
          obtain ⟨a, b, rest, rfl, ha, hb, ha', hb'⟩ := escaped_eq_some hescaped
          simp only [Option.isSome_map, decodeFrom_skip ha hb, decodeFrom_isSome rest, uncut_cons_iff, huncut]
          simp [ha', hb']
    · rw [decodeFrom_char hc, Option.isSome_map, decodeFrom_isSome text, uncut_cons_iff]
      simp [hc]
termination_by text.length

theorem decodeFrom_encode {text : Text} (hcut : Uncut text) (hsigned : Unsigned text) :
    decodeFrom unescaped 0 (encode text) = some (unescape unescaped text) := by
  match text with
  | [] => rfl
  | c :: text =>
    by_cases hc : c = '%'
    · subst hc
      have hescaped := escaped_encode (hcut [] text rfl) (hsigned [] text rfl)
      rw [encode_percent, decodeFrom, if_pos rfl, hescaped, unescape_percent]
      cases hbyte : hexByte text with
      | none =>
        simp only [decodeFrom_encode hcut.tail hsigned.tail]
        rfl
      | some byte =>
        rw [hbyte] at hescaped
        obtain ⟨a, b, rest, rfl, ha, hb, -, -⟩ := escaped_eq_some hescaped
        simp only [decodeFrom_skip ha hb, decodeFrom_encode hcut.tail.tail.tail hsigned.tail.tail.tail]
        rfl
    · rw [decodeFrom_char hc, decodeFrom_encode hcut.tail hsigned.tail, unescape_char hc]
      rfl
termination_by text.length

end Decoding

/-! ## Encoding -/

section Encoding

/-- A hexadecimal digit, written with a capital letter. -/
def hexChar (n : Nat) : Char := Char.ofNat (if n < 10 then 0x30 + n else 0x37 + n)

def escapeByte (b : UInt8) : Text := ['%', hexChar (b.toNat / 16), hexChar (b.toNat % 16)]

/-- Every character that is not kept becomes the escapes of its bytes. -/
def escape (kept : Char → Bool) (text : Text) : Text :=
  text.flatMap fun c => if kept c then [c] else (String.utf8EncodeChar c).flatMap escapeByte

variable {kept : Char → Bool} {unescaped : UInt8 → UInt8} {text rest : Text} {n : Nat}

theorem hexDigit_hexChar (h : n < 16) : hexDigit (hexChar n) = some n := by
  revert n
  decide

theorem hexChar_isAlphanum (h : n < 16) : (hexChar n).isAlphanum = true := by
  revert n
  decide

theorem signedDigit_hexChar (h : n < 16) (rest : Text) : signedDigit (hexChar n :: rest) = false := by
  unfold signedDigit
  split
  · rename_i heq
    have hplus := hexDigit_hexChar h
    rw [(List.cons.inj heq).1, hexDigit_plus] at hplus
    cases hplus
  · rfl

theorem utf8Size_hexChar (h : n < 16) : (hexChar n).utf8Size = 1 := by
  revert n
  decide

theorem decodeFrom_escapeByte (b : UInt8) (rest : Text) :
    decodeFrom unescaped 0 (encode (escapeByte b ++ rest)) = (decodeFrom unescaped 0 (encode rest)).map (b :: ·) := by
  have hb : b.toNat < 256 := b.toNat_lt
  have hhigh : b.toNat / 16 < 16 := by omega
  have hlow : b.toNat % 16 < 16 := by omega
  have hcut : cutsCharacter (hexChar (b.toNat / 16) :: hexChar (b.toNat % 16) :: rest) = false := by
    rw [cutsCharacter_ascii (utf8Size_hexChar hhigh), utf8Size_hexChar hlow]
    rfl
  have hbyte : hexByte (hexChar (b.toNat / 16) :: hexChar (b.toNat % 16) :: rest) = some b := by
    have hnat : b.toNat / 16 * 16 + b.toNat % 16 = b.toNat := by omega
    rw [hexByte, hexDigit_hexChar hhigh, hexDigit_hexChar hlow, Option.bind_some, Option.map_some, hnat, UInt8.ofNat_toNat]
  have hescaped := escaped_encode hcut (signedDigit_hexChar hhigh _)
  rw [hbyte] at hescaped
  have hskip := @decodeFrom_skip unescaped _ _ (utf8Size_hexChar hhigh) (utf8Size_hexChar hlow) rest
  have htext : escapeByte b ++ rest = '%' :: hexChar (b.toNat / 16) :: hexChar (b.toNat % 16) :: rest := rfl
  rw [htext, encode_percent, decodeFrom, if_pos rfl, hescaped]
  simp only [hskip]

theorem decodeFrom_escapeBytes (bytes : List UInt8) (rest : Text) :
    decodeFrom unescaped 0 (encode (bytes.flatMap escapeByte ++ rest)) =
      (decodeFrom unescaped 0 (encode rest)).map (bytes ++ ·) := by
  induction bytes with
  | nil => simp
  | cons b bytes ih =>
    rw [List.flatMap_cons, List.append_assoc, decodeFrom_escapeByte, ih, Option.map_map]
    rfl

/-- What is kept must stand for itself. -/
structure Kept (kept : Char → Bool) (unescaped : UInt8 → UInt8) : Prop where
  notPercent : kept '%' = false
  self : ∀ c, kept c = true → (String.utf8EncodeChar c).map unescaped = String.utf8EncodeChar c

theorem decodeFrom_escape (hkept : Kept kept unescaped) (text : Text) :
    decodeFrom unescaped 0 (encode (escape kept text)) = some (encode text) := by
  induction text with
  | nil => rfl
  | cons c text ih =>
    rw [escape, List.flatMap_cons, ← escape]
    by_cases hc : kept c = true
    · have hpercent : c ≠ '%' := by
        rintro rfl
        rw [hkept.notPercent] at hc
        cases hc
      rw [if_pos hc, List.singleton_append, decodeFrom_char hpercent, ih, hkept.self c hc, encode_cons]
      rfl
    · rw [if_neg hc, decodeFrom_escapeBytes, ih, encode_cons]
      rfl

theorem mem_escape {c : Char} (h : c ∈ escape kept text) : kept c = true ∨ c = '%' ∨ c.isAlphanum = true := by
  obtain ⟨d, -, hc⟩ := List.mem_flatMap.mp h
  split at hc
  · rename_i hd
    rw [List.mem_singleton] at hc
    exact .inl (hc ▸ hd)
  · obtain ⟨b, -, hb⟩ := List.mem_flatMap.mp hc
    have hlt : b.toNat < 256 := b.toNat_lt
    simp only [escapeByte, List.mem_cons, List.not_mem_nil, or_false] at hb
    rcases hb with rfl | rfl | rfl
    · exact .inr (.inl rfl)
    · exact .inr (.inr (hexChar_isAlphanum (by omega)))
    · exact .inr (.inr (hexChar_isAlphanum (by omega)))

end Encoding

end Escapes
