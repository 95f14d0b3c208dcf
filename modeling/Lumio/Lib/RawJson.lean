import Lumio.Lib.Escapes
import Mathlib.Data.List.TakeWhile

/-!
# JSON texts

A JSON text as `encoding/json` reads it: every value keeps the text it is written as, and an object all its members. What a
string stands for is another matter, which `unquote` settles.
-/

namespace RawJson

open Escapes (hexDigit toDigit)

def quote : UInt8 := 0x22

def backslash : UInt8 := 0x5c

def isSpace (b : UInt8) : Bool := b = 0x20 || b = 0x09 || b = 0x0a || b = 0x0d

def skipSpace (bytes : List UInt8) : List UInt8 := bytes.dropWhile isSpace

def isDigit (b : UInt8) : Bool := 0x30 ≤ b && b ≤ 0x39

/-! ## Strings -/

/-- The characters that may stand behind a backslash, besides `u`. -/
def simpleEscapes : List UInt8 := [quote, backslash, 0x2f, 0x62, 0x66, 0x6e, 0x72, 0x74]

/-- What stands before the closing quote, and what stands behind it; first come some hexadecimal digits of an escape. -/
def stringBody : Nat → List UInt8 → Option (List UInt8 × List UInt8)
  | _, [] => none
  | k + 1, b :: bytes =>
    if (toDigit b).isSome then (stringBody k bytes).map fun (body, rest) => (b :: body, rest) else none
  | 0, b :: bytes =>
    if b = quote then some ([], bytes)
    else if b = backslash then
      match bytes with
      | [] => none
      | e :: bytes =>
        if e = 0x75 then (stringBody 4 bytes).map fun (body, rest) => (b :: e :: body, rest)
        else if e ∈ simpleEscapes then (stringBody 0 bytes).map fun (body, rest) => (b :: e :: body, rest)
        else none
    else if b < 0x20 then none
    else (stringBody 0 bytes).map fun (body, rest) => (b :: body, rest)

def Quoted (bytes : List UInt8) : Prop := ∀ before after, bytes = before ++ quote :: after → backslash ∈ before

theorem Quoted.nil : Quoted [] := by
  intro before after hsplit
  cases before <;> cases hsplit

theorem Quoted.cons {b : UInt8} {bytes : List UInt8} (hb : b ≠ quote) (h : Quoted bytes) : Quoted (b :: bytes) := by
  intro before after hsplit
  cases before with
  | nil => exact absurd (List.cons.inj hsplit).1 hb
  | cons c before => exact List.mem_cons_of_mem c (h before after (List.cons.inj hsplit).2)

theorem Quoted.escape (bytes : List UInt8) : Quoted (backslash :: bytes) := by
  intro before after hsplit
  cases before with
  | nil => exact absurd (List.cons.inj hsplit).1 (by decide)
  | cons c before => exact List.mem_cons.mpr (.inl (List.cons.inj hsplit).1)

theorem stringBody_quoted {k : Nat} {bytes body rest : List UInt8} (h : stringBody k bytes = some (body, rest)) : Quoted body := by
  fun_induction stringBody k bytes generalizing body with
  | case1 => cases h
  | case2 k b bytes hhex ih =>
    obtain ⟨⟨body', rest'⟩, hbody, heq⟩ := Option.map_eq_some_iff.mp h
    cases heq
    refine .cons ?_ (ih hbody)
    rintro rfl
    exact absurd hhex (by decide)
  | case3 => cases h
  | case4 =>
    cases h
    exact .nil
  | case5 => cases h
  | case6 =>
    obtain ⟨⟨body', rest'⟩, -, heq⟩ := Option.map_eq_some_iff.mp h
    cases heq
    exact .escape _
  | case7 =>
    obtain ⟨⟨body', rest'⟩, -, heq⟩ := Option.map_eq_some_iff.mp h
    cases heq
    exact .escape _
  | case8 => cases h
  | case9 => cases h
  | case10 b bytes hquote hbackslash hcontrol ih =>
    obtain ⟨⟨body', rest'⟩, hbody, heq⟩ := Option.map_eq_some_iff.mp h
    cases heq
    exact .cons hquote (ih hbody)

structure Literal where
  bytes : List UInt8
  quoted : Quoted bytes

def literal (bytes : List UInt8) : Option (Literal × List UInt8) :=
  match h : stringBody 0 bytes with
  | none => none
  | some (body, rest) => some (⟨body, stringBody_quoted h⟩, rest)

/-! ## Numbers -/

def isNumberByte (b : UInt8) : Bool := isDigit b || b = 0x2d || b = 0x2b || b = 0x2e || b = 0x65 || b = 0x45

def digits (bytes : List UInt8) : Option (List UInt8 × List UInt8) :=
  match bytes.takeWhile isDigit with
  | [] => none
  | d :: more => some (d :: more, bytes.dropWhile isDigit)

/-- A number does not begin with a zero unless that is all of its integer part. -/
def integerPart (bytes : List UInt8) : Option (List UInt8 × List UInt8) :=
  if bytes.head? = some 0x30 then some ([0x30], bytes.tail) else digits bytes

def fractionPart (bytes : List UInt8) : Option (List UInt8 × List UInt8) :=
  if bytes.head? = some 0x2e then (digits bytes.tail).map fun (text, rest) => (0x2e :: text, rest) else some ([], bytes)

def signPart (bytes : List UInt8) : List UInt8 × List UInt8 :=
  match bytes with
  | b :: rest => if b = 0x2b || b = 0x2d then ([b], rest) else ([], bytes)
  | [] => ([], [])

def exponentPart (bytes : List UInt8) : Option (List UInt8 × List UInt8) :=
  match bytes with
  | b :: rest =>
    if b = 0x65 || b = 0x45 then
      (digits (signPart rest).2).map fun (text, rest') => (b :: (signPart rest).1 ++ text, rest')
    else some ([], bytes)
  | [] => some ([], [])

def unsignedNumber (bytes : List UInt8) : Option (List UInt8 × List UInt8) :=
  (integerPart bytes).bind fun (whole, rest) =>
    (fractionPart rest).bind fun (fraction, rest) =>
      (exponentPart rest).map fun (exponent, rest) => (whole ++ fraction ++ exponent, rest)

structure Number where
  text : List UInt8
  nonempty : text ≠ []
  bytes : ∀ b ∈ text, isNumberByte b = true

section Numbers

variable {b : UInt8} {bytes text rest : List UInt8}

theorem isNumberByte_of_isDigit (h : isDigit b = true) : isNumberByte b = true := by simp [isNumberByte, h]

theorem digits_spec (h : digits bytes = some (text, rest)) : text ≠ [] ∧ ∀ b ∈ text, isNumberByte b = true := by
  unfold digits at h
  split at h
  · cases h
  · rename_i d more hdigits
    cases h
    refine ⟨List.cons_ne_nil d more, fun b hb => isNumberByte_of_isDigit ?_⟩
    rw [← hdigits] at hb
    exact List.mem_takeWhile_imp hb

theorem integerPart_spec (h : integerPart bytes = some (text, rest)) : text ≠ [] ∧ ∀ b ∈ text, isNumberByte b = true := by
  unfold integerPart at h
  split at h
  · cases h
    refine ⟨by simp, fun b hb => ?_⟩
    rw [List.mem_singleton.mp hb]
    decide
  · exact digits_spec h

theorem fractionPart_spec (h : fractionPart bytes = some (text, rest)) : ∀ b ∈ text, isNumberByte b = true := by
  unfold fractionPart at h
  split at h
  · obtain ⟨⟨more, rest'⟩, hdigits, heq⟩ := Option.map_eq_some_iff.mp h
    cases heq
    intro b hb
    rcases List.mem_cons.mp hb with rfl | hb
    · decide
    · exact (digits_spec hdigits).2 b hb
  · cases h
    intro b hb
    cases hb

theorem signPart_spec (hb : b ∈ (signPart bytes).1) : isNumberByte b = true := by
  unfold signPart at hb
  split at hb
  · split at hb
    · rename_i c rest hsign
      rw [List.mem_singleton.mp hb]
      rw [Bool.or_eq_true, decide_eq_true_eq, decide_eq_true_eq] at hsign
      rcases hsign with rfl | rfl <;> decide
    · cases hb
  · cases hb

theorem exponentPart_spec (h : exponentPart bytes = some (text, rest)) : ∀ b ∈ text, isNumberByte b = true := by
  unfold exponentPart at h
  split at h
  · rename_i c more
    split at h
    · rename_i hmark
      obtain ⟨⟨digits', rest'⟩, hdigits, heq⟩ := Option.map_eq_some_iff.mp h
      cases heq
      intro b hb
      simp only [List.cons_append, List.mem_cons, List.mem_append] at hb
      rcases hb with rfl | hb | hb
      · rw [Bool.or_eq_true, decide_eq_true_eq, decide_eq_true_eq] at hmark
        rcases hmark with rfl | rfl <;> decide
      · exact signPart_spec hb
      · exact (digits_spec hdigits).2 b hb
    · cases h
      intro b hb
      cases hb
  · cases h
    intro b hb
    cases hb

theorem unsignedNumber_spec (h : unsignedNumber bytes = some (text, rest)) : text ≠ [] ∧ ∀ b ∈ text, isNumberByte b = true := by
  obtain ⟨⟨whole, rest₁⟩, hwhole, h⟩ := Option.bind_eq_some_iff.mp h
  obtain ⟨⟨fraction, rest₂⟩, hfraction, h⟩ := Option.bind_eq_some_iff.mp h
  obtain ⟨⟨exponent, rest₃⟩, hexponent, h⟩ := Option.map_eq_some_iff.mp h
  cases h
  obtain ⟨hne, hbytes⟩ := integerPart_spec hwhole
  refine ⟨by simp [hne], fun b hb => ?_⟩
  simp only [List.mem_append] at hb
  rcases hb with (hb | hb) | hb
  · exact hbytes b hb
  · exact fractionPart_spec hfraction b hb
  · exact exponentPart_spec hexponent b hb

end Numbers

def number (bytes : List UInt8) : Option (Number × List UInt8) :=
  if bytes.head? = some 0x2d then
    match h : unsignedNumber bytes.tail with
    | none => none
    | some (text, rest) => some (⟨0x2d :: text, List.cons_ne_nil _ _, by
        intro b hb
        rcases List.mem_cons.mp hb with rfl | hb
        · decide
        · exact (unsignedNumber_spec h).2 b hb⟩, rest)
  else
    match h : unsignedNumber bytes with
    | none => none
    | some (text, rest) => some (⟨text, (unsignedNumber_spec h).1, (unsignedNumber_spec h).2⟩, rest)

/-! ## Values -/

inductive Value where
  | null
  | bool (value : Bool)
  | number (number : Number)
  | string (literal : Literal)
  | array (inner : List UInt8)
  | object (inner : List UInt8) (members : List (Literal × Value))

def nullText : List UInt8 := [0x6e, 0x75, 0x6c, 0x6c]

def trueText : List UInt8 := [0x74, 0x72, 0x75, 0x65]

def falseText : List UInt8 := [0x66, 0x61, 0x6c, 0x73, 0x65]

/-- `json.RawMessage`: the value as it is written, without white space around it. -/
def Value.text : Value → List UInt8
  | .null => nullText
  | .bool true => trueText
  | .bool false => falseText
  | .number n => n.text
  | .string l => quote :: l.bytes ++ [quote]
  | .array inner => 0x5b :: inner ++ [0x5d]
  | .object inner _ => 0x7b :: inner ++ [0x7d]

/-- The rest behind a byte, which may have white space before it. -/
def expect (b : UInt8) (bytes : List UInt8) : Option (List UInt8) :=
  match skipSpace bytes with
  | c :: rest => if c = b then some rest else none
  | [] => none

/-- What was read between a bracket and the closing one, the first byte of which is not in the rest. -/
def inner (bytes rest : List UInt8) : List UInt8 := bytes.take (bytes.length - rest.length - 1)

section Nested

variable (value : List UInt8 → Option (Value × List UInt8))

/-- The items up to the closing bracket; at least one. -/
def items : Nat → List UInt8 → Option (List UInt8)
  | 0, _ => none
  | fuel + 1, bytes =>
    (value (skipSpace bytes)).bind fun (_, rest) =>
      match skipSpace rest with
      | [] => none
      | c :: rest => if c = 0x2c then items fuel rest else if c = 0x5d then some rest else none

def members : Nat → List UInt8 → Option (List (Literal × Value) × List UInt8)
  | 0, _ => none
  | fuel + 1, bytes =>
    (expect quote bytes).bind fun rest =>
      (literal rest).bind fun (key, rest) =>
        (expect 0x3a rest).bind fun rest =>
          (value (skipSpace rest)).bind fun (v, rest) =>
            match skipSpace rest with
            | [] => none
            | c :: rest =>
              if c = 0x2c then (members fuel rest).map fun (more, rest) => ((key, v) :: more, rest)
              else if c = 0x7d then some ([(key, v)], rest)
              else none

def array (bytes : List UInt8) : Option (Value × List UInt8) :=
  match expect 0x5d bytes with
  | some rest => some (.array (inner bytes rest), rest)
  | none => (items value bytes.length bytes).map fun rest => (.array (inner bytes rest), rest)

def object (bytes : List UInt8) : Option (Value × List UInt8) :=
  match expect 0x7d bytes with
  | some rest => some (.object (inner bytes rest) [], rest)
  | none => (members value bytes.length bytes).map fun (ms, rest) => (.object (inner bytes rest) ms, rest)

end Nested

def word (text : List UInt8) (value : Value) (bytes : List UInt8) : Option (Value × List UInt8) :=
  if text.isPrefixOf bytes then some (value, bytes.drop text.length) else none

def scalar (bytes : List UInt8) : Option (Value × List UInt8) :=
  match bytes with
  | [] => none
  | b :: rest =>
    if b = quote then (literal rest).map fun (l, rest) => (.string l, rest)
    else if b = 0x6e then word nullText .null bytes
    else if b = 0x74 then word trueText (.bool true) bytes
    else if b = 0x66 then word falseText (.bool false) bytes
    else (number bytes).map fun (n, rest) => (.number n, rest)

def value : Nat → List UInt8 → Option (Value × List UInt8)
  | 0, bytes => scalar bytes
  | depth + 1, bytes =>
    match bytes with
    | [] => none
    | b :: rest =>
      if b = 0x5b then array (value depth) rest
      else if b = 0x7b then object (value depth) rest
      else scalar bytes

def maxNestingDepth : Nat := 10000

def scan (bytes : List UInt8) : Option Value :=
  match value maxNestingDepth (skipSpace bytes) with
  | none => none
  | some (v, rest) => if skipSpace rest = [] then some v else none

/-! ## What strings stand for -/

/-- The characters of a Go string; a byte that begins none is read as the replacement character. -/
def runesFuel : Nat → List UInt8 → Text
  | 0, _ => []
  | _ + 1, [] => []
  | fuel + 1, b :: bytes =>
    match Utf8.front (b :: bytes) with
    | .char c rest => c :: runesFuel fuel rest
    | _ => '\ufffd' :: runesFuel fuel bytes

def runes (bytes : List UInt8) : Text := runesFuel bytes.length bytes

def hexFour : Text → Option (Nat × Text)
  | a :: b :: c :: d :: rest => do
    let w ← hexDigit a
    let x ← hexDigit b
    let y ← hexDigit c
    let z ← hexDigit d
    some (((w * 16 + x) * 16 + y) * 16 + z, rest)
  | _ => none

def surrogatePair (high low : Nat) : Option Char :=
  if 0xd800 ≤ high ∧ high < 0xdc00 ∧ 0xdc00 ≤ low ∧ low < 0xe000 then
    some (.ofNat ((high - 0xd800) * 0x400 + (low - 0xdc00) + 0x10000))
  else none

/-- What stands behind `\u`, and the rest. A surrogate without its partner is the replacement character. -/
def unicodeEscape (text : Text) : Char × Text :=
  match hexFour text with
  | none => ('u', text)
  | some (n, rest) =>
    if 0xd800 ≤ n ∧ n < 0xe000 then
      match rest with
      | '\\' :: 'u' :: more =>
        match hexFour more with
        | none => ('\ufffd', rest)
        | some (m, rest') =>
          match surrogatePair n m with
          | none => ('\ufffd', rest)
          | some c => (c, rest')
      | _ => ('\ufffd', rest)
    else (.ofNat n, rest)

def simpleEscape (c : Char) : Char :=
  if c = 'b' then '\x08' else if c = 'f' then '\x0c' else if c = 'n' then '\n' else if c = 'r' then '\r'
  else if c = 't' then '\t' else c

def unescapeFuel : Nat → Text → Text
  | 0, _ => []
  | _ + 1, [] => []
  | fuel + 1, c :: text =>
    if c = '\\' then
      match text with
      | [] => []
      | e :: text =>
        if e = 'u' then (unicodeEscape text).1 :: unescapeFuel fuel (unicodeEscape text).2
        else simpleEscape e :: unescapeFuel fuel text
    else c :: unescapeFuel fuel text

/-- The scanner has seen to it that escapes are complete. -/
def unescape (text : Text) : Text := unescapeFuel text.length text

def Literal.unquote (literal : Literal) : Text := unescape (runes literal.bytes)

theorem runes_encode (text : Text) : runes (Utf8.encode text) = text := by
  refine Utf8.fuelInduction (p := fun fuel text => runesFuel fuel (Utf8.encode text) = text) ?_ ?_ le_rfl
  · intro fuel
    cases fuel <;> rfl
  · intro fuel c text ih
    have hfront := Utf8.front_encodeChar c (Utf8.encode text)
    rw [Utf8.encode_cons]
    cases hbytes : String.utf8EncodeChar c with
    | nil =>
      have hlength := String.length_utf8EncodeChar c
      rw [hbytes] at hlength
      exact absurd hlength.symm c.utf8Size_pos.ne'
    | cons b bytes =>
      rw [hbytes, List.cons_append] at hfront
      simp only [List.cons_append, runesFuel, hfront]
      rw [ih]

theorem runes_cons {b : UInt8} (hb : b < 0x80) (bytes : List UInt8) : runes (b :: bytes) = .ofNat b.toNat :: runes bytes := by
  have hfront : Utf8.front (b :: bytes) = .char (.ofNat b.toNat) bytes := by rw [Utf8.front, if_pos hb]
  rw [runes, List.length_cons, runesFuel, hfront, runes]

section Unescape

variable {text : Text} {c : Char} {fuel : Nat}

theorem byteLength_cons (c : Char) (text : Text) : Text.byteLength (c :: text) = c.utf8Size + Text.byteLength text := rfl

variable {n : Nat}

theorem utf8Size_of_hexDigit (h : hexDigit c = some n) : c.utf8Size = 1 := by
  by_contra hwide
  rw [Escapes.hexDigit_wide hwide] at h
  cases h

theorem not_quote (h : hexDigit c = some n) : c ≠ '"' := by
  rintro rfl
  cases h

theorem getLast?_of_cons (hc : c ≠ '"') (h : (c :: text).getLast? = some '"') : text.getLast? = some '"' := by
  cases text with
  | nil => exact absurd (Option.some.inj h) hc
  | cons d text => rwa [List.getLast?_cons_cons] at h

theorem hexFour_spec {rest : Text} (h : hexFour text = some (n, rest)) :
    Text.byteLength text = 4 + Text.byteLength rest ∧ text.length = 4 + rest.length ∧ (text.getLast? = some '"' → rest.getLast? = some '"') := by
  unfold hexFour at h
  split at h
  · rename_i a b c d rest'
    simp only [Option.bind_eq_bind, Option.bind_eq_some_iff, Option.some.injEq, Prod.mk.injEq] at h
    obtain ⟨w, hw, x, hx, y, hy, z, hz, -, rfl⟩ := h
    refine ⟨?_, by simp only [List.length_cons]; omega, ?_⟩
    · simp only [byteLength_cons, utf8Size_of_hexDigit hw, utf8Size_of_hexDigit hx, utf8Size_of_hexDigit hy,
        utf8Size_of_hexDigit hz]
      omega
    · intro hlast
      exact getLast?_of_cons (not_quote hz) (getLast?_of_cons (not_quote hy) (getLast?_of_cons (not_quote hx)
        (getLast?_of_cons (not_quote hw) hlast)))
  · cases h

/-- An escape takes more bytes than the character it stands for, and does not end in a quote. -/
theorem unicodeEscape_spec (text : Text) :
    (unicodeEscape text).1.utf8Size + Text.byteLength (unicodeEscape text).2 < 2 + Text.byteLength text ∧
      (unicodeEscape text).2.length ≤ text.length ∧
      (text.getLast? = some '"' → (unicodeEscape text).2.getLast? = some '"') := by
  unfold unicodeEscape
  split
  · exact ⟨Nat.add_lt_add_right (show 'u'.utf8Size < 2 by decide) _, le_rfl, id⟩
  · rename_i n rest hfour
    obtain ⟨hbytes, hlength, hlast⟩ := hexFour_spec hfour
    have hwide : '\ufffd'.utf8Size = 3 := rfl
    have hlone : '\ufffd'.utf8Size + Text.byteLength rest < 2 + Text.byteLength text := by omega
    have hle : rest.length ≤ text.length := by omega
    split
    · split
      · rename_i more
        have hescape : Text.byteLength ('\\' :: 'u' :: more) = 2 + Text.byteLength more := by
          rw [byteLength_cons, byteLength_cons, ← Nat.add_assoc]
          rfl
        split
        · exact ⟨hlone, hle, hlast⟩
        · rename_i m rest' hpair
          obtain ⟨hbytes', hlength', hlast'⟩ := hexFour_spec hpair
          simp only [List.length_cons] at hlength
          split
          · exact ⟨hlone, hle, hlast⟩
          · rename_i c _
            have := c.utf8Size_le_four
            refine ⟨by dsimp only; omega, by dsimp only; omega, fun h => hlast' ?_⟩
            exact getLast?_of_cons (by decide) (getLast?_of_cons (by decide) (hlast h))
      · exact ⟨hlone, hle, hlast⟩
    · have := (Char.ofNat n).utf8Size_le_four
      exact ⟨by dsimp only; omega, hle, hlast⟩

theorem utf8Size_simpleEscape_le (c : Char) : (simpleEscape c).utf8Size ≤ c.utf8Size := by
  unfold simpleEscape
  split_ifs with hb hf hn hr ht
  · rw [hb]; decide
  · rw [hf]; decide
  · rw [hn]; decide
  · rw [hr]; decide
  · rw [ht]; decide
  · exact le_rfl

theorem getLast?_cons_of {d : Char} (h : text.getLast? = some d) : (c :: text).getLast? = some d := by
  cases text with
  | nil => cases h
  | cons e text => rwa [List.getLast?_cons_cons]

/-- Escapes only make a text shorter. -/
theorem unescapeFuel_spec (hfuel : text.length ≤ fuel) :
    Text.byteLength (unescapeFuel fuel text) ≤ Text.byteLength text ∧
      ('\\' ∈ text → Text.byteLength (unescapeFuel fuel text) < Text.byteLength text) ∧
      ('\\' ∉ text → unescapeFuel fuel text = text) ∧
      (text.getLast? = some '"' → (unescapeFuel fuel text).getLast? = some '"') := by
  fun_induction unescapeFuel fuel text with
  | case1 text =>
    rw [List.eq_nil_of_length_eq_zero (Nat.le_zero.mp hfuel)]
    simp
  | case2 => simp
  | case3 fuel =>
    have hpos := '\\'.utf8Size_pos
    rw [byteLength_cons]
    exact ⟨Nat.zero_le _, fun _ => by simp [Text.byteLength]; omega, fun h => absurd List.mem_cons_self h, fun h => by cases h⟩
  | case4 fuel text ih =>
    obtain ⟨hbytes, hlength, hlast⟩ := unicodeEscape_spec text
    simp only [List.length_cons] at hfuel
    obtain ⟨hle, -, -, hend⟩ := ih (by omega)
    have hlt : Text.byteLength ((unicodeEscape text).1 :: unescapeFuel fuel (unicodeEscape text).2) <
        Text.byteLength ('\\' :: 'u' :: text) := by
      have hescape : Text.byteLength ('\\' :: 'u' :: text) = 2 + Text.byteLength text := by
        rw [byteLength_cons, byteLength_cons, ← Nat.add_assoc]
        rfl
      rw [hescape, byteLength_cons]
      omega
    refine ⟨hlt.le, fun _ => hlt, fun h => absurd List.mem_cons_self h, fun h => ?_⟩
    exact getLast?_cons_of (hend (hlast (getLast?_of_cons (by decide) (getLast?_of_cons (by decide) h))))
  | case5 fuel e text hu ih =>
    simp only [List.length_cons] at hfuel
    obtain ⟨hle, -, -, hend⟩ := ih (by omega)
    have hlt : Text.byteLength (simpleEscape e :: unescapeFuel fuel text) < Text.byteLength ('\\' :: e :: text) := by
      have hpos := '\\'.utf8Size_pos
      have := utf8Size_simpleEscape_le e
      rw [byteLength_cons, byteLength_cons, byteLength_cons]
      omega
    refine ⟨hlt.le, fun _ => hlt, fun h => absurd List.mem_cons_self h, fun h => ?_⟩
    have h := getLast?_of_cons (by decide) h
    by_cases he : e = '"'
    · subst he
      cases text with
      | nil => cases fuel <;> rfl
      | cons d text =>
        rw [List.getLast?_cons_cons] at h
        exact getLast?_cons_of (hend h)
    · exact getLast?_cons_of (hend (getLast?_of_cons he h))
  | case6 fuel c text hc ih =>
    obtain ⟨hle, hlt, hplain, hend⟩ := ih (Nat.le_of_succ_le_succ hfuel)
    simp only [byteLength_cons, List.mem_cons, not_or]
    refine ⟨by omega, fun h => ?_, fun h => by rw [hplain h.2], fun h => ?_⟩
    · have := hlt (h.resolve_left (Ne.symm hc))
      omega
    · cases text with
      | nil =>
        cases fuel <;> exact h
      | cons d text =>
        rw [List.getLast?_cons_cons] at h
        exact getLast?_cons_of (hend h)

/-! ### Without escapes, and with them -/

theorem unescape_plain (h : '\\' ∉ text) : unescape text = text := (unescapeFuel_spec le_rfl).2.2.1 h

theorem unescape_shortens (h : '\\' ∈ text) : Text.byteLength (unescape text) < Text.byteLength text :=
  (unescapeFuel_spec le_rfl).2.1 h

theorem unescape_getLast (h : text.getLast? = some '"') : (unescape text).getLast? = some '"' :=
  (unescapeFuel_spec le_rfl).2.2.2 h

end Unescape

end RawJson
