import Lumio.Lib.Escapes
import Lumio.Lib.Split
import Lumio.Mobile.Relay

/-!
# Registrations in a query

A peer may name its room and its token in the query of the URL. What the decoder of the query makes of a page's own encoding,
and what else it returns.
-/

namespace Lumio.Mobile

open Escapes (Uncut Unsigned escape)
open Text (splitOnce trim)

/-- Outside escapes, a plus sign is a blank. -/
def plusAsSpace (b : UInt8) : UInt8 := if b = 0x2b then 0x20 else b

/-- Answers with nothing where the program stops. -/
def percentDecode (value : Text) : Option Text :=
  (Escapes.decodeFrom plusAsSpace 0 (Utf8.encode value)).map Utf8.fromUtf8Lossy

def pairValue (key pair : Text) : Option Text :=
  match splitOnce '=' pair with
  | none => none
  | some (name, value) => if name = key then some value else none

def rawValue (query key : Text) : Option Text := (query.splitOn '&').findSome? (pairValue key)

def queryValue (query key : Text) : Option (Option Text) :=
  match rawValue query key with
  | none => some none
  | some value => (percentDecode value).map some

def Role.fromStr (value : Text) : Option Role :=
  if value = "host".toList then some .host else if value = "client".toList then some .client else none

def roleFromPath (path query : Text) : Option (Option Role) :=
  if path = "/host".toList then some (some .host)
  else if path = "/client".toList then some (some .client)
  else if path = "/ws".toList then (queryValue query "role".toList).map fun role => role.bind Role.fromStr
  else some none

/-- A value that the program goes on with, if it has not stopped before. -/
def andThen {α β : Type} (value : Option (Option α)) (f : α → Option (Option β)) : Option (Option β) :=
  match value with
  | none => none
  | some none => some none
  | some (some a) => f a

def registrationFromUri (path : Text) (query : Option Text) : Option (Option Registration) :=
  andThen (some query) fun query =>
    andThen (roleFromPath path query) fun role =>
      andThen (queryValue query "room".toList) fun room =>
        andThen (queryValue query "token".toList) fun token =>
          if (trim room).isEmpty || (trim token).isEmpty then some none else some (some { role, room, token })

/-! ## What pages send -/

def isUnreserved (c : Char) : Bool := c.isAlphanum || "-_.!~*'()".toList.contains c

def encodeURIComponent (text : Text) : Text := escape isUnreserved text

def registrationQuery (room token : Text) : Text :=
  "room=".toList ++ encodeURIComponent room ++ '&' :: ("token=".toList ++ encodeURIComponent token)

section Decoding

variable {query key text room token : Text} {c : Char}

theorem isUnreserved_ne {d : Char} (hd : isUnreserved d = false) (h : isUnreserved c = true) : c ≠ d := by
  rintro rfl
  rw [hd] at h
  cases h

theorem isUnreserved_ascii (h : isUnreserved c = true) : c.toNat < 0x80 := by
  have hmarks : ∀ d ∈ "-_.!~*'()".toList, d.toNat < 0x80 := by decide
  rw [isUnreserved, Bool.or_eq_true] at h
  rcases h with h | h
  · exact Text.toNat_lt_of_isAlphanum h
  · exact hmarks c (List.contains_iff_mem.mp h)

theorem isUnreserved_kept : Escapes.Kept isUnreserved plusAsSpace where
  notPercent := by decide
  self := by
    intro c hc
    have hplus : c ≠ '+' := isUnreserved_ne (by decide) hc
    obtain ⟨b, hbytes, hb, -⟩ := Escapes.utf8EncodeChar_ascii (Escapes.utf8Size_of_lt (isUnreserved_ascii hc))
    have hbyte : b ≠ 0x2b := by
      rintro rfl
      exact hplus (Char.toNat_inj.mp hb.symm)
    rw [hbytes, List.map_singleton, plusAsSpace, if_neg hbyte]

theorem percentDecode_encodeURIComponent (text : Text) : percentDecode (encodeURIComponent text) = some text := by
  rw [percentDecode, encodeURIComponent, Escapes.decodeFrom_escape isUnreserved_kept, Option.map_some, Utf8.fromUtf8Lossy_encode]

theorem ampersand_not_mem (text : Text) : '&' ∉ encodeURIComponent text := by
  intro h
  rcases Escapes.mem_escape h with h | h | h
  · revert h
    decide
  · cases h
  · revert h
    decide

theorem splitOn_registrationQuery (room token : Text) :
    (registrationQuery room token).splitOn '&' =
      ["room".toList ++ '=' :: encodeURIComponent room, "token".toList ++ '=' :: encodeURIComponent token] := by
  have hroom : '&' ∉ "room=".toList ++ encodeURIComponent room := by
    rw [List.mem_append, not_or]
    exact ⟨by decide, ampersand_not_mem room⟩
  have htoken : '&' ∉ "token=".toList ++ encodeURIComponent token := by
    rw [List.mem_append, not_or]
    exact ⟨by decide, ampersand_not_mem token⟩
  have hquery : registrationQuery room token =
      ("room=".toList ++ encodeURIComponent room) ++ '&' :: ("token=".toList ++ encodeURIComponent token) := rfl
  rw [hquery, List.splitOn_append_cons_self_of_not_mem hroom, List.splitOn_eq_singleton htoken]
  rfl

theorem pairValue_append {name : Text} (h : '=' ∉ name) (key value : Text) :
    pairValue key (name ++ '=' :: value) = if name = key then some value else none := by
  rw [pairValue, Text.splitOnce_append h]

theorem rawValue_room (room token : Text) :
    rawValue (registrationQuery room token) "room".toList = some (encodeURIComponent room) := by
  rw [rawValue, splitOn_registrationQuery, List.findSome?_cons, pairValue_append (by decide), if_pos rfl]

theorem rawValue_token (room token : Text) :
    rawValue (registrationQuery room token) "token".toList = some (encodeURIComponent token) := by
  rw [rawValue, splitOn_registrationQuery, List.findSome?_cons, pairValue_append (by decide),
    if_neg (by decide), List.findSome?_cons, pairValue_append (by decide), if_pos rfl]

theorem registrationFromUri_query {path : Text} {role : Role}
    (hrole : roleFromPath path (registrationQuery room token) = some (some role)) :
    registrationFromUri path (some (registrationQuery room token)) =
      some (if (trim room).isEmpty || (trim token).isEmpty then none else some { role, room, token }) := by
  have hroom : queryValue (registrationQuery room token) "room".toList = some (some room) := by
    rw [queryValue, rawValue_room]
    exact congrArg (Option.map some) (percentDecode_encodeURIComponent room)
  have htoken : queryValue (registrationQuery room token) "token".toList = some (some token) := by
    rw [queryValue, rawValue_token]
    exact congrArg (Option.map some) (percentDecode_encodeURIComponent token)
  unfold registrationFromUri
  simp only [andThen, hrole, hroom, htoken]
  split <;> rfl

theorem percentDecode_eq (hcut : Uncut text) (hsigned : Unsigned text) :
    percentDecode text = some (Utf8.fromUtf8Lossy (Escapes.unescape plusAsSpace text)) := by
  rw [percentDecode, Escapes.decodeFrom_encode hcut hsigned, Option.map_some]

theorem percentDecode_isSome (text : Text) : (percentDecode text).isSome ↔ Uncut text := by
  rw [percentDecode, Option.isSome_map, Escapes.decodeFrom_isSome]

theorem queryValue_isSome (h : ∀ value ∈ rawValue query key, Uncut value) : (queryValue query key).isSome := by
  unfold queryValue
  cases hraw : rawValue query key with
  | none => rfl
  | some value =>
    rw [Option.isSome_map]
    exact (percentDecode_isSome value).mpr (h value hraw)

end Decoding

/-- A room and a token come back from the encoding of a page unless one of them is blank, which is refused. A value whose
percent signs cut no character is read without stopping, and without signed digits behind them it is read as it is
meant: escapes of two digits as bytes, and every other percent sign as itself. -/
theorem query_decoding :
    (∀ path role room token, roleFromPath path (registrationQuery room token) = some (some role) →
      registrationFromUri path (some (registrationQuery room token)) =
        some (if (trim room).isEmpty || (trim token).isEmpty then none else some { role, room, token })) ∧
    (∀ query key, (∀ value ∈ rawValue query key, Uncut value) → (queryValue query key).isSome) ∧
    ∀ value, Uncut value → Unsigned value →
      percentDecode value = some (Utf8.fromUtf8Lossy (Escapes.unescape plusAsSpace value)) :=
  ⟨fun _ _ _ _ hrole => registrationFromUri_query hrole, fun _ _ h => queryValue_isSome h,
    fun _ hcut hsigned => percentDecode_eq hcut hsigned⟩

/-- A page whose room has a blank, a plus sign, a percent sign and a wide character in it. -/
theorem query_decoding_page :
    registrationFromUri "/host".toList (some (registrationQuery "a +%€".toList "t".toList)) =
      some (some ⟨.host, "a +%€".toList, "t".toList⟩) ∧
    (queryValue "room=100%&x=%a€".toList "room".toList).isSome ∧
    percentDecode "100%+%zz".toList = some "100% %zz".toList :=
  ⟨query_decoding.1 "/host".toList .host _ _ rfl, query_decoding.2.1 _ _ (by decide),
    query_decoding.2.2 _ (by decide) (by decide)⟩

/-- A blank room is refused. The two slips besides: an escape that is cut inside a character stops the program, and a signed
digit is taken for a byte. -/
theorem blank_room_refused :
    ¬ ((∀ room token, registrationFromUri "/host".toList (some (registrationQuery room token)) =
        some (some ⟨.host, room, token⟩)) ∧
      (∀ query key, (queryValue query key).isSome) ∧
      ∀ value, percentDecode value = some (Utf8.fromUtf8Lossy (Escapes.unescape plusAsSpace value))) := by
  rintro ⟨hreturned, -, -⟩
  exact absurd (hreturned " ".toList "t".toList) (by decide)

example : percentDecode "%a€".toList = none ∧ percentDecode "%+f".toList = some ['\x0f'] := by decide

end Lumio.Mobile
