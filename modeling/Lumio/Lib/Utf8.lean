import Lumio.Lib.Cut
import Lumio.Lib.Text

/-!
# UTF-8

Decoding as Rust's `std::str::from_utf8` does it: character by character, with the position of the first error and
whether that error could go away with more input. What is encoded is read back.
-/

namespace Utf8

/-- What stands at the front of a byte string. `invalid n` is an error of `n` bytes, and `incomplete` one at the end
of the input. -/
inductive Front where
  | done
  | char (c : Char) (rest : List UInt8)
  | incomplete
  | invalid (n : Nat)

def isContinuation (b : UInt8) : Bool := 0x80 ≤ b && b ≤ 0xbf

/-- The second bytes that may follow the first byte of a three-byte character. -/
def secondOfThree (first second : UInt8) : Bool :=
  if first = 0xe0 then 0xa0 ≤ second && second ≤ 0xbf
  else if first = 0xed then 0x80 ≤ second && second ≤ 0x9f
  else isContinuation second

/-- The second bytes that may follow the first byte of a four-byte character. -/
def secondOfFour (first second : UInt8) : Bool :=
  if first = 0xf0 then 0x90 ≤ second && second ≤ 0xbf
  else if first = 0xf4 then 0x80 ≤ second && second ≤ 0x8f
  else isContinuation second

def low (b : UInt8) : Nat := b.toNat % 64

def frontTwo (first : UInt8) : List UInt8 → Front
  | [] => .incomplete
  | b :: rest => if isContinuation b then .char (.ofNat (first.toNat % 32 * 64 + low b)) rest else .invalid 1

def frontThree (first : UInt8) : List UInt8 → Front
  | [] => .incomplete
  | b :: rest =>
    if !secondOfThree first b then .invalid 1
    else
      match rest with
      | [] => .incomplete
      | c :: rest =>
        if isContinuation c then .char (.ofNat ((first.toNat % 16 * 64 + low b) * 64 + low c)) rest
        else .invalid 2

def frontFour (first : UInt8) : List UInt8 → Front
  | [] => .incomplete
  | b :: rest =>
    if !secondOfFour first b then .invalid 1
    else
      match rest with
      | [] => .incomplete
      | c :: rest =>
        if !isContinuation c then .invalid 2
        else
          match rest with
          | [] => .incomplete
          | d :: rest =>
            if isContinuation d then
              .char (.ofNat (((first.toNat % 8 * 64 + low b) * 64 + low c) * 64 + low d)) rest
            else .invalid 3

def front : List UInt8 → Front
  | [] => .done
  | first :: rest =>
    if first < 0x80 then .char (.ofNat first.toNat) rest
    else if 0xc2 ≤ first && first ≤ 0xdf then frontTwo first rest
    else if 0xe0 ≤ first && first ≤ 0xef then frontThree first rest
    else if 0xf0 ≤ first && first ≤ 0xf4 then frontFour first rest
    else .invalid 1

/-- The characters before the first error, and the bytes from there on. -/
def decodeFuel : Nat → List UInt8 → Text × List UInt8
  | 0, bytes => ([], bytes)
  | fuel + 1, bytes =>
    match front bytes with
    | .char c rest => ((c :: (decodeFuel fuel rest).1), (decodeFuel fuel rest).2)
    | _ => ([], bytes)

def decode (bytes : List UInt8) : Text × List UInt8 := decodeFuel bytes.length bytes

/-- `from_utf8` accepts the bytes. -/
def Valid (bytes : List UInt8) : Prop := (decode bytes).2 = []

/-- Every error becomes one replacement character. -/
def lossyFuel : Nat → List UInt8 → Text
  | 0, _ => []
  | fuel + 1, bytes =>
    match front bytes with
    | .done => []
    | .char c rest => c :: lossyFuel fuel rest
    | .incomplete => ['\ufffd']
    | .invalid n => '\ufffd' :: lossyFuel fuel (bytes.drop n)

def fromUtf8Lossy (bytes : List UInt8) : Text := lossyFuel bytes.length bytes

/-! ## The front of a longer string -/

/-- The front as it is read with more input behind it. -/
def Front.append : Front → List UInt8 → Front
  | done, _ => .done
  | char c rest, more => .char c (rest ++ more)
  | incomplete, _ => .incomplete
  | invalid n, _ => .invalid n

/-- More input can only complete what is incomplete. -/
def Front.Settled : Front → Prop
  | char .. | invalid _ => True
  | done | incomplete => False

variable {first : UInt8} {rest : List UInt8} (bytes : List UInt8) (text : Text) (more : List UInt8)

theorem frontTwo_append (h : (frontTwo first rest).Settled) (more : List UInt8) :
    frontTwo first (rest ++ more) = (frontTwo first rest).append more := by
  cases rest with
  | nil => exact h.elim
  | cons b rest =>
    simp only [List.cons_append, frontTwo]
    split <;> rfl

theorem frontThree_append (h : (frontThree first rest).Settled) (more : List UInt8) :
    frontThree first (rest ++ more) = (frontThree first rest).append more := by
  cases rest with
  | nil => exact h.elim
  | cons b rest =>
    simp only [List.cons_append, frontThree] at h ⊢
    split
    · rfl
    · rename_i hsecond
      rw [if_neg hsecond] at h
      cases rest with
      | nil => exact h.elim
      | cons c rest =>
        simp only [List.cons_append]
        split <;> rfl

theorem frontFour_append (h : (frontFour first rest).Settled) (more : List UInt8) :
    frontFour first (rest ++ more) = (frontFour first rest).append more := by
  cases rest with
  | nil => exact h.elim
  | cons b rest =>
    simp only [List.cons_append, frontFour] at h ⊢
    split
    · rfl
    · rename_i hsecond
      rw [if_neg hsecond] at h
      cases rest with
      | nil => exact h.elim
      | cons c rest =>
        simp only [List.cons_append] at h ⊢
        split
        · rfl
        · rename_i hthird
          rw [if_neg hthird] at h
          cases rest with
          | nil => exact h.elim
          | cons d rest =>
            simp only [List.cons_append]
            split <;> rfl

theorem front_append {bytes : List UInt8} (h : (front bytes).Settled) (more : List UInt8) :
    front (bytes ++ more) = (front bytes).append more := by
  cases bytes with
  | nil => exact h.elim
  | cons first rest =>
    simp only [List.cons_append, front] at h ⊢
    split
    · rfl
    · rename_i hone
      rw [if_neg hone] at h
      split
      · rename_i htwo
        rw [if_pos htwo] at h
        exact frontTwo_append h more
      · rename_i htwo
        rw [if_neg htwo] at h
        split
        · rename_i hthree
          rw [if_pos hthree] at h
          exact frontThree_append h more
        · rename_i hthree
          rw [if_neg hthree] at h
          split
          · rename_i hfour
            rw [if_pos hfour] at h
            exact frontFour_append h more
          · rfl

section Shortens

variable {first : UInt8} {bytes rest : List UInt8} {c : Char}

theorem frontTwo_shortens (h : frontTwo first bytes = .char c rest) : rest.length < bytes.length := by
  cases bytes with
  | nil => cases h
  | cons b bytes =>
    simp only [frontTwo] at h
    split at h <;> cases h
    simp

theorem frontThree_shortens (h : frontThree first bytes = .char c rest) : rest.length < bytes.length := by
  cases bytes with
  | nil => cases h
  | cons b bytes =>
    simp only [frontThree] at h
    split at h
    · cases h
    · split at h
      · cases h
      · split at h <;> cases h
        simp only [List.length_cons]
        omega

theorem frontFour_shortens (h : frontFour first bytes = .char c rest) : rest.length < bytes.length := by
  cases bytes with
  | nil => cases h
  | cons b bytes =>
    simp only [frontFour] at h
    split at h
    · cases h
    · split at h
      · cases h
      · split at h
        · cases h
        · split at h
          · cases h
          · split at h <;> cases h
            simp only [List.length_cons]
            omega

theorem front_shortens (h : front bytes = .char c rest) : rest.length < bytes.length := by
  cases bytes with
  | nil => cases h
  | cons first tail =>
    have htail : tail.length < (first :: tail).length := by simp
    simp only [front] at h
    split at h
    · cases h
      exact htail
    · split at h
      · exact (frontTwo_shortens h).trans htail
      · split at h
        · exact (frontThree_shortens h).trans htail
        · split at h
          · exact (frontFour_shortens h).trans htail
          · cases h

end Shortens

/-- Characters are cut off the front of a byte string. -/
def chars : Cutter UInt8 Char where
  cut bytes :=
    match front bytes with
    | .char c rest => some (c, rest)
    | _ => none
  shortens := by
    intro bytes c rest h
    split at h
    · rename_i hfront
      cases h
      exact front_shortens hfront
    · cases h
  stable := by
    intro bytes c rest h more
    split at h
    · rename_i hfront
      cases h
      rw [front_append (by rw [hfront]; trivial), hfront]
      rfl
    · cases h

theorem decode_eq_blocks : decode bytes = chars.blocks bytes := by
  have hfuel : ∀ fuel bytes, decodeFuel fuel bytes = chars.blocksFuel fuel bytes := by
    intro fuel
    induction fuel with
    | zero => exact fun _ => rfl
    | succ fuel ih =>
      intro bytes
      simp only [decodeFuel, Cutter.blocksFuel, chars]
      cases front bytes with
      | char c rest => simp only [ih]; rfl
      | done => rfl
      | incomplete => rfl
      | invalid n => rfl
  exact hfuel bytes.length bytes

theorem decode_append :
    decode (bytes ++ more) =
      ((decode bytes).1 ++ (decode ((decode bytes).2 ++ more)).1, (decode ((decode bytes).2 ++ more)).2) := by
  simp only [decode_eq_blocks]
  exact Cutter.blocks_append bytes more

theorem decode_rest : decode (decode bytes).2 = ([], (decode bytes).2) := by
  simp only [decode_eq_blocks]
  exact Cutter.blocks_of_none (Cutter.cut_blocks bytes)

theorem Valid.front_rest {bytes more : List UInt8} (h : Valid (bytes ++ more)) (n : Nat) :
    front (decode bytes).2 ≠ .invalid n := by
  intro hfront
  have hrest : (decode ((decode bytes).2 ++ more)).2 = [] := by
    rw [Valid, decode_append] at h
    exact h
  have hsettled : (front (decode bytes).2).Settled := by
    rw [hfront]
    trivial
  have hlonger := front_append hsettled more
  have hcut : chars.cut ((decode bytes).2 ++ more) = none := by
    simp only [chars, hlonger, hfront, Front.append]
  rw [decode_eq_blocks, Cutter.blocks_of_none hcut] at hrest
  rw [(List.append_eq_nil_iff.mp hrest).1] at hfront
  cases hfront

/-! ## Encoding -/

def encode (text : Text) : List UInt8 := text.flatMap String.utf8EncodeChar

@[simp] theorem encode_nil : encode [] = [] := rfl

@[simp] theorem encode_cons (c : Char) (text : Text) : encode (c :: text) = String.utf8EncodeChar c ++ encode text := by
  simp [encode]

@[simp] theorem encode_append (a b : Text) : encode (a ++ b) = encode a ++ encode b := by
  simp [encode]

section Encoded

variable {n a b c d : Nat} {rest : List UInt8}

theorem toNat_ofNat (h : n < 256) : (UInt8.ofNat n).toNat = n := by
  rw [UInt8.toNat_ofNat']
  omega

theorem isContinuation_ofNat (h : b < 0x40) : isContinuation (.ofNat (b + 0x80)) = true := by
  simp only [isContinuation, UInt8.le_iff_toNat_le, toNat_ofNat (show b + 0x80 < 256 by omega), Bool.and_eq_true,
    decide_eq_true_eq, UInt8.reduceToNat]
  omega

theorem low_ofNat (h : b < 0x40) : low (.ofNat (b + 0x80)) = b := by
  rw [low, toNat_ofNat (by omega)]
  omega

theorem front_of_first {first : UInt8} :
    front (first :: rest) =
      if first.toNat < 0x80 then .char (.ofNat first.toNat) rest
      else if 0xc2 ≤ first.toNat ∧ first.toNat ≤ 0xdf then frontTwo first rest
      else if 0xe0 ≤ first.toNat ∧ first.toNat ≤ 0xef then frontThree first rest
      else if 0xf0 ≤ first.toNat ∧ first.toNat ≤ 0xf4 then frontFour first rest
      else .invalid 1 := by
  simp only [front, UInt8.lt_iff_toNat_lt, UInt8.le_iff_toNat_le, UInt8.reduceToNat, Bool.and_eq_true, decide_eq_true_eq]

theorem front_two (ha : 2 ≤ a) (ha' : a < 0x20) (hb : b < 0x40) :
    front (.ofNat (a + 0xc0) :: .ofNat (b + 0x80) :: rest) = .char (.ofNat (a * 64 + b)) rest := by
  have hfirst : (UInt8.ofNat (a + 0xc0)).toNat = a + 0xc0 := toNat_ofNat (by omega)
  have hmod : (a + 0xc0) % 32 = a := by omega
  rw [front_of_first, hfirst, if_neg (by omega), if_pos (by omega)]
  simp only [frontTwo, isContinuation_ofNat hb, low_ofNat hb, hfirst, hmod, if_true]

theorem front_three (ha : a < 0x10) (hb : b < 0x40) (hc : c < 0x40) (hlow : a = 0 → 0x20 ≤ b) (hhigh : a = 0xd → b < 0x20) :
    front (.ofNat (a + 0xe0) :: .ofNat (b + 0x80) :: .ofNat (c + 0x80) :: rest) =
      .char (.ofNat ((a * 64 + b) * 64 + c)) rest := by
  have hfirst : (UInt8.ofNat (a + 0xe0)).toNat = a + 0xe0 := toNat_ofNat (by omega)
  have hmod : (a + 0xe0) % 16 = a := by omega
  have hsecond : secondOfThree (.ofNat (a + 0xe0)) (.ofNat (b + 0x80)) = true := by
    simp only [secondOfThree, isContinuation_ofNat hb, UInt8.le_iff_toNat_le, ← UInt8.toNat_inj, hfirst,
      toNat_ofNat (show b + 0x80 < 256 by omega), UInt8.reduceToNat]
    split
    · simp only [Bool.and_eq_true, decide_eq_true_eq]
      omega
    · split
      · simp only [Bool.and_eq_true, decide_eq_true_eq]
        omega
      · rfl
  rw [front_of_first, hfirst, if_neg (by omega), if_neg (by omega), if_pos (by omega)]
  simp only [frontThree, isContinuation_ofNat hc, low_ofNat hb, low_ofNat hc, hsecond, hfirst, hmod, Bool.not_true, if_true,
    Bool.false_eq_true, if_false]

theorem front_four (ha : a < 5) (hb : b < 0x40) (hc : c < 0x40) (hd : d < 0x40) (hlow : a = 0 → 0x10 ≤ b)
    (hhigh : a = 4 → b < 0x10) :
    front (.ofNat (a + 0xf0) :: .ofNat (b + 0x80) :: .ofNat (c + 0x80) :: .ofNat (d + 0x80) :: rest) =
      .char (.ofNat (((a * 64 + b) * 64 + c) * 64 + d)) rest := by
  have hfirst : (UInt8.ofNat (a + 0xf0)).toNat = a + 0xf0 := toNat_ofNat (by omega)
  have hmod : (a + 0xf0) % 8 = a := by omega
  have hsecond : secondOfFour (.ofNat (a + 0xf0)) (.ofNat (b + 0x80)) = true := by
    simp only [secondOfFour, isContinuation_ofNat hb, UInt8.le_iff_toNat_le, ← UInt8.toNat_inj, hfirst,
      toNat_ofNat (show b + 0x80 < 256 by omega), UInt8.reduceToNat]
    split
    · simp only [Bool.and_eq_true, decide_eq_true_eq]
      omega
    · split
      · simp only [Bool.and_eq_true, decide_eq_true_eq]
        omega
      · rfl
  rw [front_of_first, hfirst, if_neg (by omega), if_neg (by omega), if_neg (by omega), if_pos (by omega)]
  simp only [frontFour, isContinuation_ofNat hc, isContinuation_ofNat hd, low_ofNat hb, low_ofNat hc, low_ofNat hd, hsecond,
    hfirst, hmod, Bool.not_true, if_true, Bool.false_eq_true, if_false]

end Encoded

theorem front_encodeChar (c : Char) (rest : List UInt8) : front (String.utf8EncodeChar c ++ rest) = .char c rest := by
  have hvalid : c.toNat < 0xd800 ∨ (0xdfff < c.toNat ∧ c.toNat < 0x110000) := c.valid
  have hnat : c.val.toNat = c.toNat := rfl
  have hself : ∀ {n : Nat}, n = c.toNat → Char.ofNat n = c := by
    rintro n rfl
    exact Char.ofNat_toNat c
  simp only [String.utf8EncodeChar, hnat]
  split
  · rw [List.cons_append, front_of_first, toNat_ofNat (by omega), if_pos (by omega), List.nil_append, hself rfl]
  · split
    · simp only [List.cons_append, List.nil_append]
      rw [front_two (by omega) (by omega) (by omega), hself (by omega)]
    · split
      · simp only [List.cons_append, List.nil_append]
        rw [front_three (by omega) (by omega) (by omega) (by omega) (by omega), hself (by omega)]
      · simp only [List.cons_append, List.nil_append]
        rw [front_four (by omega) (by omega) (by omega) (by omega) (by omega) (by omega), hself (by omega)]

theorem fuelInduction {p : Nat → Text → Prop} (nil : ∀ fuel, p fuel [])
    (cons : ∀ fuel c text, p fuel text → p (fuel + 1) (c :: text)) {fuel : Nat} {text : Text}
    (hfuel : (encode text).length ≤ fuel) : p fuel text := by
  induction text generalizing fuel with
  | nil => exact nil fuel
  | cons c text ih =>
    have hpos := c.utf8Size_pos
    simp only [encode_cons, List.length_append, String.length_utf8EncodeChar] at hfuel
    cases fuel with
    | zero => omega
    | succ fuel => exact cons fuel c text (ih (by omega))

theorem fromUtf8Lossy_encode : fromUtf8Lossy (encode text) = text := by
  refine fuelInduction (p := fun fuel text => lossyFuel fuel (encode text) = text) ?_ ?_ le_rfl
  · intro fuel
    cases fuel <;> rfl
  · intro fuel c text ih
    simp only [encode_cons, lossyFuel, front_encodeChar]
    rw [ih]

theorem decode_encode : decode (encode text) = (text, []) := by
  refine fuelInduction (p := fun fuel text => decodeFuel fuel (encode text) = (text, [])) ?_ ?_ le_rfl
  · intro fuel
    cases fuel <;> rfl
  · intro fuel c text ih
    simp only [encode_cons, decodeFuel, front_encodeChar]
    rw [ih]

end Utf8
