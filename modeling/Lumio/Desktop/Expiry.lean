import Lumio.Lib.Calendar
import Lumio.Lib.Trimmed
import Lumio.Lib.Utf8
import Mathlib.Algebra.Order.Floor.Ring
import Mathlib.Data.Rat.Floor

/-!
# Keys that expire

A key of the account is used again if it has not expired. The time in its record is read from the first nineteen bytes,
and compared with the clock as if it were in UTC.
-/

namespace Lumio.Desktop

open Calendar
open Text (trim)

/-! ## The check -/

structure ApiKeyRecord where
  name : Text
  status : Text
  groupId : Option Int
  expiresAt : Option Text
deriving DecidableEq

def desktopKeyName : Text := "Lumio Codex Desktop".toList

def isDigit (b : UInt8) : Bool := 0x30 ≤ b && b ≤ 0x39

def decimal (digits : List UInt8) : Nat := digits.foldl (fun value b => 10 * value + (b.toNat - 0x30)) 0

def parseDigits (digits : List UInt8) : Option Int :=
  if digits.isEmpty || !digits.all isDigit then none else some (decimal digits)

/-- `str::parse::<i64>`, for texts too short to overflow -/
def parseI64 : List UInt8 → Option Int
  | 0x2b :: digits => parseDigits digits
  | 0x2d :: digits => (parseDigits digits).map fun value => -value
  | digits => parseDigits digits

def isCharBoundary (bytes : List UInt8) (i : Nat) : Bool :=
  match bytes[i]? with
  | some b => !Utf8.isContinuation b
  | none => i = bytes.length

/-- `str::get` of a range, and its number -/
def parseField (bytes : List UInt8) (start stop : Nat) : Option Int :=
  if isCharBoundary bytes start && isCharBoundary bytes stop then parseI64 ((bytes.take stop).drop start) else none

def daysFromCivil (year month day : Int) : Int :=
  let year := if month ≤ 2 then year - 1 else year
  let era := (if 0 ≤ year then year else year - 399).tdiv 400
  let yearOfEra := year - era * 400
  let monthIndex := (month + 9).tmod 12
  let dayOfYear := (153 * monthIndex + 2).tdiv 5 + day - 1
  let dayOfEra := yearOfEra * 365 + yearOfEra.tdiv 4 - yearOfEra.tdiv 100 + dayOfYear
  era * 146097 + dayOfEra - 719468

def parseRfc3339Seconds (value : Text) : Option Int :=
  let bytes := Utf8.encode value
  if bytes.length < 19 || bytes[4]? ≠ some 0x2d || bytes[7]? ≠ some 0x2d then none
  else if bytes[10]? ≠ some 0x54 && bytes[10]? ≠ some 0x74 && bytes[10]? ≠ some 0x20 then none
  else do
    let year ← parseField bytes 0 4
    let month ← parseField bytes 5 7
    let day ← parseField bytes 8 10
    let hour ← parseField bytes 11 13
    let minute ← parseField bytes 14 16
    let second ← parseField bytes 17 19
    if !(1 ≤ month && month ≤ 12) || !(1 ≤ day && day ≤ 31) then none
    else some (daysFromCivil year month day * 86400 + hour * 3600 + minute * 60 + second)

/-- The whole seconds since the epoch, on a clock that shows `now`. A time before the epoch is taken for it. -/
def nowUnixSeconds (now : ℚ) : Int := if now < 0 then 0 else ⌊now⌋

def isExpired (now : ℚ) (expiresAt : Text) : Bool :=
  match parseRfc3339Seconds expiresAt with
  | some expiry => expiry ≤ nowUnixSeconds now
  | none => true

def isReusable (now : ℚ) (key : ApiKeyRecord) (allowedGroupIds : List Int) : Bool :=
  if key.name ≠ desktopKeyName || key.status ≠ "active".toList then false
  else if (key.expiresAt.map trim).any fun expiry => !expiry.isEmpty && isExpired now expiry then false
  else
    match key.groupId with
    | some groupId => allowedGroupIds.isEmpty || allowedGroupIds.contains groupId
    | none => true

/-! ## Days -/

def marchDays (year : Int) : Int := 365 * year + year / 4 - year / 100 + year / 400

variable (year : Int)

theorem daysFromCivil_march (month day : Int) (hpos : 1 ≤ month) :
    daysFromCivil year month day =
      marchDays (if month ≤ 2 then year - 1 else year) + ((153 * ((month + 9) % 12) + 2) / 5 + day - 1) - 719468 := by
  have hera : ∀ y : Int, (if 0 ≤ y then y else y - 399).tdiv 400 = y / 400 := by
    intro y
    split
    · exact Int.tdiv_eq_ediv_of_nonneg ‹_›
    · have hflip : y - 399 = -(399 - y) := by omega
      rw [hflip, Int.neg_tdiv, Int.tdiv_eq_ediv_of_nonneg (by omega)]
      omega
  simp only [daysFromCivil, hera, marchDays]
  generalize (if month ≤ 2 then year - 1 else year) = y
  rw [Int.tmod_eq_emod_of_nonneg (by omega), Int.tdiv_eq_ediv_of_nonneg (by omega),
    Int.tdiv_eq_ediv_of_nonneg (by omega), Int.tdiv_eq_ediv_of_nonneg (by omega)]
  omega

theorem daysBeforeYear_march : daysBeforeYear year = marchDays (year - 1) + 366 := by
  rw [daysBeforeYear_eq, marchDays]
  omega

theorem marchDays_step : marchDays year = marchDays (year - 1) + yearLength year := by
  have h := daysBeforeYear_succ year
  rw [daysBeforeYear_march, daysBeforeYear_march, Int.add_sub_cancel] at h
  omega

theorem daysBeforeMonth_march {month : Nat} (hpos : 1 ≤ month) (hle : month ≤ 12) :
    daysBeforeMonth year month + (if (month : Int) ≤ 2 then 306 else 0) =
      (153 * (((month : Int) + 9) % 12) + 2) / 5 + (if (month : Int) ≤ 2 then 0 else yearLength year - 306) := by
  have hsum : ∀ n, daysBeforeMonth year (n + 2) = daysBeforeMonth year (n + 1) + monthLength year (n + 1) := by
    intro n
    simp [daysBeforeMonth, List.range_succ]
  have hfirst : daysBeforeMonth year 1 = 0 := rfl
  cases hleap : isLeap year <;> interval_cases month <;> simp [hsum, hfirst, monthLength, yearLength, hleap]

theorem daysFromCivil_eq {year : Int} {month : Nat} (day : Int) (hpos : 1 ≤ month) (hle : month ≤ 12) :
    daysFromCivil year month day = dayNumber year month day := by
  have hstep := marchDays_step year
  have hmonth := daysBeforeMonth_march year hpos hle
  have hstart : daysBeforeYear 1970 = 719528 := by rw [daysBeforeYear_eq]; rfl
  rw [daysFromCivil_march _ _ _ (by omega), dayNumber, hstart, daysBeforeYear_march]
  split at hmonth
  · rename_i hearly
    rw [if_pos hearly]
    omega
  · rename_i hlate
    rw [if_neg hlate, hstep]
    omega

/-! ## What the parser takes -/

/-- The bytes are a number in decimal digits, perhaps with a sign. -/
inductive Numeral : List UInt8 → Int → Prop where
  | plain {digits : List UInt8} (hne : digits ≠ []) (hdigits : ∀ b ∈ digits, isDigit b = true) :
      Numeral digits (decimal digits)
  | plus {digits : List UInt8} (hne : digits ≠ []) (hdigits : ∀ b ∈ digits, isDigit b = true) :
      Numeral (0x2b :: digits) (decimal digits)
  | minus {digits : List UInt8} (hne : digits ≠ []) (hdigits : ∀ b ∈ digits, isDigit b = true) :
      Numeral (0x2d :: digits) (-decimal digits)

/-- The text begins with a date and a time, for the parser: it does not look at what stands between the numbers of the
time, a number may have a sign, and only month and day have bounds. The days are counted on over the end of a month. -/
inductive ReadsAs (text : Text) : Int → Prop where
  | intro {ye mo da ho mi se rest : List UInt8} {t c d : UInt8} {year month day hour minute second : Int}
      (htext : Utf8.encode text =
        ye ++ 0x2d :: (mo ++ 0x2d :: (da ++ t :: (ho ++ c :: (mi ++ d :: (se ++ rest))))))
      (hye : ye.length = 4) (hmo : mo.length = 2) (hda : da.length = 2) (hho : ho.length = 2) (hmi : mi.length = 2)
      (hse : se.length = 2) (ht : t = 0x54 ∨ t = 0x74 ∨ t = 0x20) (hyear : Numeral ye year) (hmonth : Numeral mo month)
      (hday : Numeral da day) (hhour : Numeral ho hour) (hminute : Numeral mi minute) (hsecond : Numeral se second)
      (hmonthIn : 1 ≤ month ∧ month ≤ 12) (hdayIn : 1 ≤ day ∧ day ≤ 31) :
      ReadsAs text (dayNumber year month.toNat day * 86400 + hour * 3600 + minute * 60 + second)

section Parser

variable {text : Text} {bytes before field after : List UInt8} {b : UInt8} {value seconds : Int}

theorem parseDigits_eq_some : parseDigits bytes = some value ↔
    bytes ≠ [] ∧ (∀ b ∈ bytes, isDigit b = true) ∧ (decimal bytes : Int) = value := by
  simp [parseDigits, and_assoc]

theorem parseI64_eq_some : parseI64 bytes = some value ↔ Numeral bytes value := by
  constructor
  · intro h
    unfold parseI64 at h
    split at h
    · obtain ⟨hne, hdigits, rfl⟩ := parseDigits_eq_some.mp h
      exact .plus hne hdigits
    · obtain ⟨value, hvalue, rfl⟩ := Option.map_eq_some_iff.mp h
      obtain ⟨hne, hdigits, rfl⟩ := parseDigits_eq_some.mp hvalue
      exact .minus hne hdigits
    · obtain ⟨hne, hdigits, rfl⟩ := parseDigits_eq_some.mp h
      exact .plain hne hdigits
  · intro h
    cases h with
    | plain hne hdigits =>
      unfold parseI64
      split
      · exact absurd (hdigits _ (List.mem_cons_self ..)) (by decide)
      · exact absurd (hdigits _ (List.mem_cons_self ..)) (by decide)
      · exact parseDigits_eq_some.mpr ⟨hne, hdigits, rfl⟩
    | plus hne hdigits => exact parseDigits_eq_some.mpr ⟨hne, hdigits, rfl⟩
    | minus hne hdigits => exact Option.map_eq_some_iff.mpr ⟨_, parseDigits_eq_some.mpr ⟨hne, hdigits, rfl⟩, rfl⟩

theorem Numeral.ascii (h : Numeral bytes value) : bytes ≠ [] ∧ ∀ b ∈ bytes, b < 0x80 := by
  have hdigit : ∀ b, isDigit b = true → b < 0x80 := by
    intro b hb
    simp only [isDigit, Bool.and_eq_true, decide_eq_true_eq, UInt8.le_iff_toNat_le] at hb
    exact UInt8.lt_iff_toNat_lt.mpr (Nat.lt_of_le_of_lt hb.2 (by decide))
  cases h with
  | plain hne hdigits => exact ⟨hne, fun b hb => hdigit b (hdigits b hb)⟩
  | plus hne hdigits =>
    exact ⟨List.cons_ne_nil _ _, List.forall_mem_cons.mpr ⟨by decide, fun b hb => hdigit b (hdigits b hb)⟩⟩
  | minus hne hdigits =>
    exact ⟨List.cons_ne_nil _ _, List.forall_mem_cons.mpr ⟨by decide, fun b hb => hdigit b (hdigits b hb)⟩⟩

/-! ### Where characters begin -/

theorem isContinuation_of_ascii (h : b < 0x80) : Utf8.isContinuation b = false := by
  have hlow : ¬(0x80 : UInt8) ≤ b := UInt8.not_le.mpr h
  simp [Utf8.isContinuation, hlow]

theorem encodeChar_cases (c : Char) :
    (∃ first rest, String.utf8EncodeChar c = first :: rest ∧ Utf8.isContinuation first = false) ∧
      ((String.utf8EncodeChar c).length = 1 ∨ ∀ b ∈ String.utf8EncodeChar c, ¬b < 0x80) := by
  have hbyte : ∀ n k : Nat, k ≤ n → n < 256 → ¬UInt8.ofNat n < UInt8.ofNat k := by
    intro n k hle hlt
    rw [UInt8.lt_iff_toNat_lt, Utf8.toNat_ofNat hlt, Utf8.toNat_ofNat (by omega)]
    omega
  have hfirst : ∀ n, n < 0x80 ∨ 0xc0 ≤ n → n < 256 → Utf8.isContinuation (.ofNat n) = false := by
    intro n hn hlt
    simp only [Utf8.isContinuation, Bool.and_eq_false_iff, decide_eq_false_iff_not, UInt8.le_iff_toNat_le,
      Utf8.toNat_ofNat hlt]
    rcases hn with hn | hn
    · exact .inl (Nat.not_le.mpr hn)
    · exact .inr (Nat.not_le.mpr hn)
  unfold String.utf8EncodeChar
  dsimp only
  split
  · exact ⟨⟨_, _, rfl, hfirst _ (by omega) (by omega)⟩, .inl rfl⟩
  · split
    · refine ⟨⟨_, _, rfl, hfirst _ (by omega) (by omega)⟩, .inr ?_⟩
      simp only [List.forall_mem_cons]
      exact ⟨hbyte _ 0x80 (by omega) (by omega), hbyte _ 0x80 (by omega) (by omega), by simp⟩
    · split
      · refine ⟨⟨_, _, rfl, hfirst _ (by omega) (by omega)⟩, .inr ?_⟩
        simp only [List.forall_mem_cons]
        exact ⟨hbyte _ 0x80 (by omega) (by omega), hbyte _ 0x80 (by omega) (by omega),
          hbyte _ 0x80 (by omega) (by omega), by simp⟩
      · refine ⟨⟨_, _, rfl, hfirst _ (by omega) (by omega)⟩, .inr ?_⟩
        simp only [List.forall_mem_cons]
        exact ⟨hbyte _ 0x80 (by omega) (by omega), hbyte _ 0x80 (by omega) (by omega),
          hbyte _ 0x80 (by omega) (by omega), hbyte _ 0x80 (by omega) (by omega), by simp⟩

theorem head_encode (text : Text) : ∀ b ∈ (Utf8.encode text).head?, Utf8.isContinuation b = false := by
  cases text with
  | nil => nofun
  | cons c text =>
    obtain ⟨⟨first, rest, hc, hfirst⟩, -⟩ := encodeChar_cases c
    rw [Utf8.encode_cons, hc]
    rintro b ⟨⟩
    exact hfirst

theorem after_ascii (htext : Utf8.encode text = before ++ b :: after) (hb : b < 0x80) :
    ∀ next ∈ after.head?, Utf8.isContinuation next = false := by
  induction text generalizing before with
  | nil => cases before <;> cases htext
  | cons c text ih =>
    rw [Utf8.encode_cons, List.append_eq_append_iff] at htext
    rcases htext with ⟨more, hmore, htext⟩ | ⟨more, hc, htext⟩
    · exact ih htext
    · cases more with
      | nil => exact @ih [] htext.symm
      | cons first more =>
        obtain ⟨rfl, hafter⟩ := List.cons.inj htext
        rcases (encodeChar_cases c).2 with hone | hnone
        · rw [hc, List.length_append, List.length_cons] at hone
          have hnil : more = [] := List.eq_nil_of_length_eq_zero (by omega)
          rw [hafter, hnil]
          exact head_encode text
        · exact absurd hb (hnone _ (by simp [hc]))

theorem isCharBoundary_append (h : ∀ next ∈ after.head?, Utf8.isContinuation next = false) :
    isCharBoundary (before ++ after) before.length = true := by
  have hget : (before ++ after)[before.length]? = after.head? := by
    rw [List.getElem?_append_right (Nat.le_refl _), Nat.sub_self, List.head?_eq_getElem?]
  unfold isCharBoundary
  rw [hget]
  cases after with
  | nil => simp
  | cons next after => simp [h next rfl]

theorem parseField_eq (htext : Utf8.encode text = before ++ (field ++ after)) (hfield : Numeral field value) :
    parseField (Utf8.encode text) before.length (before ++ field).length = some value := by
  obtain ⟨hne, hascii⟩ := hfield.ascii
  have hstart : isCharBoundary (Utf8.encode text) before.length = true := by
    obtain ⟨b, rest, rfl⟩ := List.exists_cons_of_ne_nil hne
    rw [htext]
    refine isCharBoundary_append ?_
    rintro _ ⟨⟩
    exact isContinuation_of_ascii (hascii b (List.mem_cons_self ..))
  have hstop : isCharBoundary (Utf8.encode text) (before ++ field).length = true := by
    have hlast : Utf8.encode text = (before ++ field.dropLast) ++ field.getLast hne :: after := by
      rw [htext, List.append_assoc, List.append_cons, List.dropLast_append_getLast hne]
    have hnext := after_ascii hlast (hascii _ (List.getLast_mem hne))
    rw [htext, ← List.append_assoc]
    exact isCharBoundary_append hnext
  have hslice : ((Utf8.encode text).take (before ++ field).length).drop before.length = field := by
    rw [htext, ← List.append_assoc, List.take_left, List.drop_left]
  rw [parseField, hstart, hstop, hslice]
  exact parseI64_eq_some.mpr hfield

theorem parseField_numeral {start stop : Nat} (h : parseField bytes start stop = some value) :
    Numeral ((bytes.take stop).drop start) value := by
  unfold parseField at h
  split at h
  · exact parseI64_eq_some.mp h
  · cases h

theorem parseRfc3339Seconds_eq_some : parseRfc3339Seconds text = some seconds ↔ ReadsAs text seconds := by
  have hdays : ∀ {year month day : Int}, 1 ≤ month ∧ month ≤ 12 →
      daysFromCivil year month day = dayNumber year month.toNat day := by
    intro year month day hmonth
    have heq := @daysFromCivil_eq year month.toNat day (by omega) (by omega)
    rwa [Int.toNat_of_nonneg (by omega)] at heq
  constructor
  · intro h
    simp only [parseRfc3339Seconds] at h
    split at h
    · cases h
    rename_i hshape
    split at h
    · cases h
    rename_i ht
    simp only [Option.bind_eq_bind, Option.bind_eq_some_iff] at h
    obtain ⟨year, hyear, month, hmonth, day, hday, hour, hhour, minute, hminute, second, hsecond, h⟩ := h
    split at h
    · cases h
    rename_i hbounds
    simp only [Bool.or_eq_true, not_or, Bool.not_eq_true', Bool.not_eq_false, Bool.and_eq_true,
      decide_eq_true_eq] at hbounds
    cases h
    generalize htext : Utf8.encode text = bytes at *
    match bytes, hshape with
    | b0 :: b1 :: b2 :: b3 :: b4 :: b5 :: b6 :: b7 :: b8 :: b9 :: b10 :: b11 :: b12 :: b13 :: b14 :: b15 :: b16 :: b17 ::
        b18 :: rest, hshape =>
      simp at hshape ht
      obtain ⟨rfl, rfl⟩ := hshape
      have ht : b10 = 0x54 ∨ b10 = 0x74 ∨ b10 = 0x20 := by
        by_contra hnone
        rw [not_or, not_or] at hnone
        exact hnone.2.2 (ht hnone.1 hnone.2.1)
      rw [hdays hbounds.1]
      exact @ReadsAs.intro text [b0, b1, b2, b3] [b5, b6] [b8, b9] [b11, b12] [b14, b15] [b17, b18] rest b10 b13 b16
        _ _ _ _ _ _ htext rfl rfl rfl rfl rfl rfl ht (parseField_numeral hyear) (parseField_numeral hmonth)
        (parseField_numeral hday) (parseField_numeral hhour) (parseField_numeral hminute) (parseField_numeral hsecond)
        hbounds.1 hbounds.2
  · rintro ⟨htext, hye, hmo, hda, hho, hmi, hse, ht, hyear, hmonth, hday, hhour, hminute, hsecond, hmonthIn, hdayIn⟩
    rename_i ye mo da ho mi se rest t c d year month day hour minute second
    match ye, mo, da, ho, mi, se, hye, hmo, hda, hho, hmi, hse with
    | [y0, y1, y2, y3], [m0, m1], [d0, d1], [h0, h1], [i0, i1], [s0, s1], _, _, _, _, _, _ =>
      have fyear := @parseField_eq text [] [y0, y1, y2, y3] _ _ htext hyear
      have fmonth := @parseField_eq text [y0, y1, y2, y3, 0x2d] [m0, m1] _ _ htext hmonth
      have fday := @parseField_eq text [y0, y1, y2, y3, 0x2d, m0, m1, 0x2d] [d0, d1] _ _ htext hday
      have fhour := @parseField_eq text [y0, y1, y2, y3, 0x2d, m0, m1, 0x2d, d0, d1, t] [h0, h1] _ _ htext hhour
      have fminute := @parseField_eq text [y0, y1, y2, y3, 0x2d, m0, m1, 0x2d, d0, d1, t, h0, h1, c] [i0, i1] _ _ htext
        hminute
      have fsecond := @parseField_eq text [y0, y1, y2, y3, 0x2d, m0, m1, 0x2d, d0, d1, t, h0, h1, c, i0, i1, d] [s0, s1]
        _ _ htext hsecond
      simp only [List.length_cons, List.length_nil, List.length_append] at fyear fmonth fday fhour fminute fsecond
      have hlong : (Utf8.encode text).length < 19 ↔ False := by rw [htext]; simp
      have hfour : (Utf8.encode text)[4]? = some 0x2d := by rw [htext]; rfl
      have hseven : (Utf8.encode text)[7]? = some 0x2d := by rw [htext]; rfl
      have hten : (Utf8.encode text)[10]? = some t := by rw [htext]; rfl
      simp only [parseRfc3339Seconds, fyear, fmonth, fday, fhour, fminute, fsecond, hlong, hfour, hseven, hten]
      rcases ht with rfl | rfl | rfl <;> simp [hmonthIn, hdayIn, hdays hmonthIn]

end Parser

/-! ## Timestamps -/

inductive TimeOffset where
  | utc (lower : Bool)
  | numeric (west : Bool) (hours : Fin 24) (minutes : Fin 60)

/-- A timestamp of RFC 3339; second 60 is a leap second. -/
structure Timestamp where
  date : Date
  year_nonneg : 0 ≤ date.year
  year_le : date.year ≤ 9999
  separator : Char
  separator_mem : separator ∈ ['T', 't', ' ']
  hour : Fin 24
  minute : Fin 60
  second : Fin 61
  fraction : List (Fin 10)
  offset : TimeOffset

def digit (n : Nat) : Char := Nat.digitChar (n % 10)

def twoDigits (n : Nat) : Text := [digit (n / 10), digit n]

def fourDigits (n : Nat) : Text := [digit (n / 1000), digit (n / 100), digit (n / 10), digit n]

namespace TimeOffset

def text : TimeOffset → Text
  | utc lower => [if lower then 'z' else 'Z']
  | numeric west hours minutes => (if west then '-' else '+') :: (twoDigits hours ++ ':' :: twoDigits minutes)

def seconds : TimeOffset → Int
  | utc _ => 0
  | numeric west hours minutes => (if west then -1 else 1) * (hours * 3600 + minutes * 60)

end TimeOffset

namespace Timestamp

variable (ts : Timestamp)

def fractionText : Text := if ts.fraction.isEmpty then [] else '.' :: ts.fraction.map fun d => digit d

def text : Text :=
  fourDigits ts.date.year.toNat ++ '-' :: (twoDigits ts.date.month ++ '-' :: (twoDigits ts.date.day.toNat ++
    ts.separator :: (twoDigits ts.hour ++ ':' :: (twoDigits ts.minute ++ ':' :: (twoDigits ts.second ++
      (ts.fractionText ++ ts.offset.text))))))

def localSeconds : Int := ts.date.number * 86400 + ts.hour * 3600 + ts.minute * 60 + ts.second

def instant : ℚ :=
  (ts.localSeconds - ts.offset.seconds : Int) + ts.fraction.foldr (fun d value => ((d.val : ℚ) + value) / 10) 0

end Timestamp

theorem digitChar_bytes : ∀ d < 10,
    String.utf8EncodeChar (Nat.digitChar d) = [.ofNat (0x30 + d)] ∧ isDigit (.ofNat (0x30 + d)) = true := by decide

theorem encode_digits (ns : List Nat) : Utf8.encode (ns.map digit) = ns.map fun n => .ofNat (0x30 + n % 10) := by
  induction ns with
  | nil => rfl
  | cons n ns ih =>
    rw [List.map_cons, Utf8.encode_cons, ih, digit, (digitChar_bytes (n % 10) (Nat.mod_lt _ (by decide))).1]
    rfl

theorem length_encode_digits (ns : List Nat) : (Utf8.encode (ns.map digit)).length = ns.length := by
  rw [encode_digits, List.length_map]

theorem numeral_digits {ns : List Nat} (hne : ns ≠ []) :
    Numeral (Utf8.encode (ns.map digit)) (ns.foldl (fun value n => 10 * value + n % 10) 0 : Nat) := by
  have hvalue : ∀ start, (ns.map fun n => UInt8.ofNat (0x30 + n % 10)).foldl
      (fun value b => 10 * value + (b.toNat - 0x30)) start = ns.foldl (fun value n => 10 * value + n % 10) start := by
    intro start
    rw [List.foldl_map]
    congr 1
    funext value n
    rw [Utf8.toNat_ofNat (by omega), Nat.add_sub_cancel_left]
  rw [encode_digits, ← hvalue]
  refine .plain (by simpa using hne) ?_
  simp only [List.mem_map, forall_exists_index, and_imp, forall_apply_eq_imp_iff₂]
  exact fun n _ => (digitChar_bytes (n % 10) (Nat.mod_lt _ (by decide))).2

theorem numeral_twoDigits {n : Nat} (h : n < 100) : Numeral (Utf8.encode (twoDigits n)) n := by
  have hnumeral := @numeral_digits [n / 10, n] (by simp)
  have hvalue : [n / 10, n].foldl (fun value n => 10 * value + n % 10) 0 = n := by
    simp only [List.foldl_cons, List.foldl_nil]
    omega
  rwa [hvalue] at hnumeral

theorem numeral_fourDigits {n : Nat} (h : n < 10000) : Numeral (Utf8.encode (fourDigits n)) n := by
  have hnumeral := @numeral_digits [n / 1000, n / 100, n / 10, n] (by simp)
  have hvalue : [n / 1000, n / 100, n / 10, n].foldl (fun value n => 10 * value + n % 10) 0 = n := by
    simp only [List.foldl_cons, List.foldl_nil]
    omega
  rwa [hvalue] at hnumeral

theorem Timestamp.readsAs (ts : Timestamp) : ReadsAs ts.text ts.localSeconds := by
  have hday : ts.date.day ≤ 31 := by
    have hle := ts.date.day_le
    unfold monthLength at hle
    split at hle
    · split at hle <;> omega
    all_goals omega
  have hpos := ts.date.day_pos
  have hyear := ts.year_nonneg
  have hle := ts.year_le
  have hmonth := ts.date.month_le
  have hsep : ∃ t : UInt8, String.utf8EncodeChar ts.separator = [t] ∧ (t = 0x54 ∨ t = 0x74 ∨ t = 0x20) := by
    have hmem := ts.separator_mem
    simp only [List.mem_cons, List.not_mem_nil, or_false] at hmem
    rcases hmem with h | h | h <;> rw [h]
    · exact ⟨0x54, rfl, .inl rfl⟩
    · exact ⟨0x74, rfl, .inr (.inl rfl)⟩
    · exact ⟨0x20, rfl, .inr (.inr rfl)⟩
  obtain ⟨t, hseparator, ht⟩ := hsep
  have hdash : String.utf8EncodeChar '-' = [0x2d] := rfl
  have hcolon : String.utf8EncodeChar ':' = [0x3a] := rfl
  have htext : Utf8.encode ts.text = Utf8.encode (fourDigits ts.date.year.toNat) ++ 0x2d ::
      (Utf8.encode (twoDigits ts.date.month) ++ 0x2d :: (Utf8.encode (twoDigits ts.date.day.toNat) ++ t ::
        (Utf8.encode (twoDigits ts.hour) ++ 0x3a :: (Utf8.encode (twoDigits ts.minute) ++ 0x3a ::
          (Utf8.encode (twoDigits ts.second) ++ Utf8.encode (ts.fractionText ++ ts.offset.text)))))) := by
    simp only [Timestamp.text, Utf8.encode_append, Utf8.encode_cons, hdash, hcolon, hseparator, List.singleton_append]
  have hreads := ReadsAs.intro htext (length_encode_digits [_, _, _, _]) (length_encode_digits [_, _])
    (length_encode_digits [_, _]) (length_encode_digits [_, _]) (length_encode_digits [_, _])
    (length_encode_digits [_, _]) ht (numeral_fourDigits (by omega)) (numeral_twoDigits (by omega))
    (numeral_twoDigits (by omega)) (numeral_twoDigits (by omega)) (numeral_twoDigits (by omega)) (numeral_twoDigits (by omega))
    ⟨by exact_mod_cast ts.date.month_pos, by exact_mod_cast hmonth⟩ ⟨by omega, by omega⟩
  rw [Int.toNat_of_nonneg hyear, Int.toNat_of_nonneg (by omega), Int.toNat_natCast] at hreads
  exact hreads

/-! ## Expired keys -/

section Keys

variable (now : ℚ) (key : ApiKeyRecord) (allowedGroupIds : List Int)

def ApiKeyRecord.expiry : Option Text := (key.expiresAt.map trim).filter fun expiry => !expiry.isEmpty

def ApiKeyRecord.Fits : Prop :=
  key.name = desktopKeyName ∧ key.status = "active".toList ∧
    ∀ groupId, key.groupId = some groupId → allowedGroupIds = [] ∨ groupId ∈ allowedGroupIds

/-- A key that is used again expires later than now, if it says when; and what is no timestamp counts as expired. -/
structure Honoured : Prop where
  later : ∀ ts : Timestamp, key.expiry = some ts.text → isReusable now key allowedGroupIds = true → now < ts.instant
  unreadable : ∀ text, key.expiry = some text → (∀ ts : Timestamp, ts.text ≠ text) → isExpired now text = true

/-- The clock does not stand between the instant of a timestamp and its local time read as UTC, and what is no timestamp
does not begin with nineteen bytes that are read as a later time. -/
structure Timely : Prop where
  offset : key.Fits allowedGroupIds → ∀ ts : Timestamp, key.expiry = some ts.text →
    ts.instant ≤ now → ts.localSeconds ≤ nowUnixSeconds now
  loose : ∀ text, key.expiry = some text → (∀ ts : Timestamp, ts.text ≠ text) →
    ∀ seconds, ReadsAs text seconds → seconds ≤ nowUnixSeconds now

variable {now key allowedGroupIds}

theorem isExpired_iff {text : Text} :
    isExpired now text = true ↔ ∀ seconds, ReadsAs text seconds → seconds ≤ nowUnixSeconds now := by
  simp only [← parseRfc3339Seconds_eq_some, isExpired]
  cases parseRfc3339Seconds text with
  | none => simp
  | some expiry => simp

theorem isReusable_iff : isReusable now key allowedGroupIds = true ↔
    key.Fits allowedGroupIds ∧ ∀ text, key.expiry = some text → isExpired now text = false := by
  have hexpired : ((key.expiresAt.map trim).any fun expiry => !expiry.isEmpty && isExpired now expiry) = true ↔
      ∃ text, key.expiry = some text ∧ isExpired now text = true := by
    simp only [ApiKeyRecord.expiry, Option.any_eq_true, Option.filter_eq_some_iff, Bool.and_eq_true, and_assoc]
  have hgroup : (match key.groupId with
      | some groupId => allowedGroupIds.isEmpty || allowedGroupIds.contains groupId
      | none => true) = true ↔
      ∀ groupId, key.groupId = some groupId → allowedGroupIds = [] ∨ groupId ∈ allowedGroupIds := by
    cases key.groupId <;> simp
  simp only [isReusable]
  split
  · rename_i hname
    refine ⟨nofun, ?_⟩
    rintro ⟨⟨h, hstatus, -⟩, -⟩
    simp [h, hstatus] at hname
  · rename_i hname
    simp only [ne_eq, Bool.or_eq_true, decide_eq_true_eq, not_or, not_not] at hname
    split
    · rename_i hany
      refine ⟨nofun, ?_⟩
      rintro ⟨-, hlive⟩
      obtain ⟨text, htext, hdead⟩ := hexpired.mp hany
      rw [hlive text htext] at hdead
      cases hdead
    · rename_i hany
      rw [hgroup]
      refine ⟨fun h => ⟨⟨hname.1, hname.2, h⟩, fun text htext => ?_⟩, fun h => h.1.2.2⟩
      rw [← Bool.not_eq_true]
      exact fun hdead => hany (hexpired.mpr ⟨text, htext, hdead⟩)

theorem isExpired_timestamp (ts : Timestamp) : isExpired now ts.text = true ↔ ts.localSeconds ≤ nowUnixSeconds now := by
  simp [isExpired, parseRfc3339Seconds_eq_some.mpr ts.readsAs]

/-- The days are those of the calendar. A key is honoured exactly if it is timely. -/
theorem expiry_honoured_iff (date : Date) (now : ℚ) (key : ApiKeyRecord) (allowedGroupIds : List Int) :
    daysFromCivil date.year date.month date.day = date.number ∧
      (Honoured now key allowedGroupIds ↔ Timely now key allowedGroupIds) := by
  refine ⟨daysFromCivil_eq date.day date.month_pos date.month_le, fun h => ?_, fun h => ?_⟩
  · refine ⟨fun hfits ts hexpiry hinstant => ?_,
      fun text hexpiry hnone => isExpired_iff.mp (h.unreadable text hexpiry hnone)⟩
    by_contra hlater
    have hlive : isExpired now ts.text = false := by
      rw [← Bool.not_eq_true, isExpired_timestamp]
      exact hlater
    refine not_lt_of_ge hinstant (h.later ts hexpiry (isReusable_iff.mpr ⟨hfits, fun text htext => ?_⟩))
    rw [hexpiry] at htext
    cases htext
    exact hlive
  · refine ⟨fun ts hexpiry hreusable => ?_, fun text hexpiry hnone => isExpired_iff.mpr (h.loose text hexpiry hnone)⟩
    obtain ⟨hfits, hlive⟩ := isReusable_iff.mp hreusable
    by_contra hinstant
    have hexpired := (isExpired_timestamp ts).mpr (h.offset hfits ts hexpiry (not_lt.mp hinstant))
    rw [hlive ts.text hexpiry] at hexpired
    cases hexpired

end Keys

/-! ### A timestamp with an offset -/

/-- Eight in the morning in Shanghai on the first of January 2026, which is midnight in UTC. -/
def newYear : Timestamp where
  date := ⟨2026, 1, 1, by decide, by decide, by decide, by decide⟩
  year_nonneg := by decide
  year_le := by decide
  separator := 'T'
  separator_mem := by decide
  hour := 8
  minute := 0
  second := 0
  fraction := []
  offset := .numeric false 8 0

def newYearKey : ApiKeyRecord := ⟨desktopKeyName, "active".toList, none, some "2026-01-01T08:00:00+08:00".toList⟩

/-- At one o'clock in UTC the key is still used. -/
theorem expired_key_reused :
    ¬∀ (now : ℚ) (key : ApiKeyRecord) (allowedGroupIds : List Int), Honoured now key allowedGroupIds := by
  intro h
  have hlocal : newYear.localSeconds = 1767254400 := by
    simp only [Timestamp.localSeconds, Date.number, dayNumber, daysBeforeYear_eq, newYear]
    rfl
  have hexpiry : newYearKey.expiry = some newYear.text := by decide
  have hnow : nowUnixSeconds 1767229200 = 1767229200 := by
    rw [nowUnixSeconds, if_neg (by norm_num)]
    exact Int.floor_natCast 1767229200
  have hlive : isExpired 1767229200 newYear.text = false := by
    rw [← Bool.not_eq_true, isExpired_timestamp, hlocal, hnow]
    decide
  have hreusable : isReusable 1767229200 newYearKey [] = true := by
    refine isReusable_iff.mpr ⟨⟨rfl, rfl, nofun⟩, fun text htext => ?_⟩
    rw [hexpiry] at htext
    cases htext
    exact hlive
  have hlater := (h 1767229200 newYearKey []).later newYear hexpiry hreusable
  have hoffset : newYear.offset.seconds = 28800 := rfl
  have hinstant : newYear.instant = 1767225600 := by
    rw [Timestamp.instant, hlocal, hoffset]
    norm_num [newYear]
  rw [hinstant] at hlater
  norm_num at hlater

end Lumio.Desktop
