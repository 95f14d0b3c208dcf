import Lumio.Lib.RawJson
import Lumio.Lib.Trimmed
import Mathlib.Algebra.Order.BigOperators.Group.List
import Mathlib.Algebra.Order.Group.Nat
import Mathlib.Data.List.DropRight

/-!
# Two readers of one identity

A user is created by the migration tool, which takes the identifier out of the text of the answer, and logs in through the
server, which decodes the same answer. The account is found again if both read the same identifier.
-/

namespace Lumio.Control

open RawJson (Literal Value scan runes quote)

/-- Both read at most that many bytes of an answer. -/
def maxBodyBytes : Nat := 2 ^ 20

/-! ## Members of an answer -/

def foldRune (c : Char) : Char :=
  if c = 'ſ' then 'S' else if c = '\u212a' then 'K' else c.toUpper

/-- Names of members are compared without regard to case. -/
def isField (name : Text) (key : Literal) : Bool := key.unquote.map foldRune == name.map foldRune

/-- The member that a field is left with when all are stored. -/
def lastMember (name : Text) (members : List (Literal × Value)) : Option Value :=
  (members.reverse.find? fun member => isField name member.1).map Prod.snd

/-- What `json.Unmarshal` stores in a record: `null` stores nothing. -/
def membersOf : Value → Option (List (Literal × Value))
  | .null => some []
  | .object _ members => some members
  | _ => none

def fieldData : Text := "data".toList

def fieldID : Text := "id".toList

def fieldEmail : Text := "email".toList

def fieldBalance : Text := "balance".toList

def fieldStatus : Text := "status".toList

/-- The text under `data`, or the answer itself. -/
def payload (raw : List UInt8) : List UInt8 :=
  match (scan raw).bind membersOf with
  | none => raw
  | some members => (lastMember fieldData members).elim raw Value.text

def payloadMembers (raw : List UInt8) : Option (List (Literal × Value)) := (scan (payload raw)).bind membersOf

/-! ## The migration tool -/

/-- `strings.Trim` with a quote. -/
def trimQuotes (bytes : List UInt8) : List UInt8 := List.rdropWhile (· = quote) (bytes.dropWhile (· = quote))

def idOfMembers (members : List (Literal × Value)) : Option (List UInt8) :=
  let id := trimQuotes ((lastMember fieldID members).elim [] Value.text)
  if id = [] ∨ id = RawJson.nullText then none else some id

def decodeID (response : List UInt8) : Option (List UInt8) := (payloadMembers (response.take maxBodyBytes)).bind idOfMembers

/-! ## The server -/

/-- `strconv.ParseFloat` -/
class ParseFloat (F : Type) where
  parse : Text → Option F
  zero : F

structure Identity (F : Type) where
  id : List UInt8
  email : Text
  balance : F
  status : Text

/-- `flexString.UnmarshalJSON` -/
def flexString : Value → List UInt8
  | .null => []
  | .string l => Utf8.encode (Text.trim l.unquote)
  | value => value.text

def stringField (old : Text) : Value → Option Text
  | .null => some old
  | .string l => some l.unquote
  | _ => none

section Server

variable {F : Type} [ParseFloat F]

/-- `flexFloat.UnmarshalJSON` -/
def flexFloat : Value → Option F
  | .null => some ParseFloat.zero
  | .string l => if l.bytes = [] then some ParseFloat.zero else ParseFloat.parse (Text.trim l.unquote)
  | .number n => ParseFloat.parse (runes n.text)
  | _ => none

def meBody : Identity F := { id := [], email := [], balance := ParseFloat.zero, status := [] }

def setMember (body : Identity F) (member : Literal × Value) : Option (Identity F) :=
  if isField fieldID member.1 then some { body with id := flexString member.2 }
  else if isField fieldEmail member.1 then (stringField body.email member.2).map fun email => { body with email }
  else if isField fieldBalance member.1 then (flexFloat member.2).map fun balance => { body with balance }
  else if isField fieldStatus member.1 then (stringField body.status member.2).map fun status => { body with status }
  else some body

/-- `strings.TrimSpace` leaves nothing. -/
def isBlank (bytes : List UInt8) : Bool := (Text.trim (runes bytes)).isEmpty

def identityOfMembers (members : List (Literal × Value)) : Option (Identity F) :=
  (members.foldlM setMember meBody).bind fun body =>
    if isBlank body.id then none else some { body with email := Text.trim body.email }

def parseIdentity (raw : List UInt8) : Option (Identity F) := (payloadMembers raw).bind identityOfMembers

def fetchIdentity (response : List UInt8) : Option (Identity F) := parseIdentity (response.take maxBodyBytes)

/-- What the tool reads is what the server reads, and the tool reads something if the server does. -/
def Agree (F : Type) [ParseFloat F] (response : List UInt8) : Prop :=
  (∀ id, decodeID response = some id → ∃ identity : Identity F, fetchIdentity response = some identity ∧ identity.id = id) ∧
    ((fetchIdentity response : Option (Identity F)).isSome → (decodeID response).isSome)

end Server

/-! ## What the server accepts -/

def isStringOrNull : Value → Bool
  | .null => true
  | .string _ => true
  | _ => false

section Accepted

variable {F : Type} [ParseFloat F] {members : List (Literal × Value)} {member : Literal × Value} {body body' : Identity F}
  {name : Text}

/-- An amount is a number, or a text that reads as one; nothing is zero. -/
def isAmount (F : Type) [ParseFloat F] : Value → Bool
  | .null => true
  | .string l => l.bytes = [] || (ParseFloat.parse (F := F) (Text.trim l.unquote)).isSome
  | .number n => (ParseFloat.parse (F := F) (runes n.text)).isSome
  | _ => false

def isWellTyped (F : Type) [ParseFloat F] (member : Literal × Value) : Bool :=
  if isField fieldID member.1 then true
  else if isField fieldEmail member.1 then isStringOrNull member.2
  else if isField fieldBalance member.1 then isAmount F member.2
  else if isField fieldStatus member.1 then isStringOrNull member.2
  else true

def WellTyped (F : Type) [ParseFloat F] (members : List (Literal × Value)) : Prop := ∀ member ∈ members, isWellTyped F member

theorem stringField_isSome (old : Text) (value : Value) : (stringField old value).isSome = isStringOrNull value := by
  cases value <;> rfl

theorem flexFloat_isSome (value : Value) : (flexFloat value : Option F).isSome = isAmount F value := by
  cases value with
  | string l =>
    simp only [flexFloat, isAmount]
    split
    · simp [*]
    · simp [*]
  | _ => rfl

theorem setMember_isSome (body : Identity F) (member : Literal × Value) :
    (setMember body member).isSome = isWellTyped F member := by
  unfold setMember isWellTyped
  split
  · rfl
  · split
    · rw [Option.isSome_map, stringField_isSome]
    · split
      · rw [Option.isSome_map, flexFloat_isSome]
      · split
        · rw [Option.isSome_map, stringField_isSome]
        · rfl

theorem setMember_id (h : setMember body member = some body') :
    body'.id = if isField fieldID member.1 then flexString member.2 else body.id := by
  unfold setMember at h
  split at h
  · rename_i hid
    cases h
    rw [if_pos hid]
  · rename_i hid
    rw [if_neg hid]
    split at h
    · obtain ⟨email, -, rfl⟩ := Option.map_eq_some_iff.mp h
      rfl
    · split at h
      · obtain ⟨balance, -, rfl⟩ := Option.map_eq_some_iff.mp h
        rfl
      · split at h
        · obtain ⟨status, -, rfl⟩ := Option.map_eq_some_iff.mp h
          rfl
        · cases h
          rfl

theorem lastMember_cons (name : Text) (member : Literal × Value) (members : List (Literal × Value)) :
    lastMember name (member :: members) =
      (lastMember name members).or (if isField name member.1 then some member.2 else none) := by
  rw [lastMember, List.reverse_cons, List.find?_append, lastMember]
  cases members.reverse.find? fun member => isField name member.1 with
  | some found => rfl
  | none =>
    simp only [List.find?_cons, List.find?_nil, Option.none_or, Option.map_none]
    cases isField name member.1 <;> rfl

theorem foldlM_isSome (members : List (Literal × Value)) (body : Identity F) :
    (members.foldlM setMember body).isSome ↔ WellTyped F members := by
  induction members generalizing body with
  | nil => simp [WellTyped]
  | cons member members ih =>
    have htyped := setMember_isSome body member
    rw [List.foldlM_cons, WellTyped, List.forall_mem_cons, ← htyped]
    cases setMember body member with
    | none => simp
    | some body' =>
      simp only [Option.isSome_some, true_and]
      exact ih body'

theorem foldlM_id (h : members.foldlM setMember body = some body') :
    body'.id = (lastMember fieldID members).elim body.id flexString := by
  induction members generalizing body with
  | nil =>
    cases h
    rfl
  | cons member members ih =>
    rw [List.foldlM_cons] at h
    obtain ⟨next, hnext, h⟩ := Option.bind_eq_some_iff.mp h
    rw [ih h, setMember_id hnext, lastMember_cons]
    cases lastMember fieldID members with
    | some value => rfl
    | none => cases isField fieldID member.1 <;> rfl

def storedID (members : List (Literal × Value)) : List UInt8 := (lastMember fieldID members).elim [] flexString

theorem identityOfMembers_spec (members : List (Literal × Value)) :
    ((identityOfMembers members : Option (Identity F)).isSome ↔ WellTyped F members ∧ isBlank (storedID members) = false) ∧
      ∀ identity : Identity F, identityOfMembers members = some identity → identity.id = storedID members := by
  have hfold := foldlM_isSome (F := F) members meBody
  unfold identityOfMembers
  cases hbody : members.foldlM setMember (meBody : Identity F) with
  | none =>
    rw [hbody] at hfold
    refine ⟨⟨nofun, fun h => ?_⟩, nofun⟩
    exact absurd (hfold.mpr h.1) nofun
  | some body =>
    have hid : body.id = storedID members := foldlM_id hbody
    rw [hbody] at hfold
    simp only [Option.bind_some, hid, ← hfold, Option.isSome_some, true_and]
    cases isBlank (storedID members) with
    | true => simp
    | false =>
      refine ⟨by simp, fun identity h => ?_⟩
      cases h
      rfl

end Accepted

/-! ## What the tool reads -/

section Trimmed

variable {l : Literal} {value : Value} {text : Text} {bytes : List UInt8}

theorem trimQuotes_self (hfirst : bytes.head? ≠ some quote) (hlast : bytes.getLast? ≠ some quote) : trimQuotes bytes = bytes := by
  have hdrop : bytes.dropWhile (· = quote) = bytes := by
    cases bytes with
    | nil => rfl
    | cons b bytes => exact List.dropWhile_cons_of_neg (by simpa using hfirst)
  rw [trimQuotes, hdrop, List.rdropWhile_eq_self_iff]
  intro hne hquote
  rw [decide_eq_true_eq] at hquote
  rw [List.getLast?_eq_getLast_of_ne_nil hne, hquote] at hlast
  exact hlast rfl

theorem trimQuotes_literal (l : Literal) : trimQuotes (Value.string l).text = List.rdropWhile (· = quote) l.bytes := by
  have hdrop : (quote :: l.bytes ++ [quote]).dropWhile (· = quote) = l.bytes ++ [quote] ∨ l.bytes = [] := by
    cases hbytes : l.bytes with
    | nil => exact .inr rfl
    | cons b bytes =>
      refine .inl ?_
      have hb : b ≠ quote := by
        rintro rfl
        exact absurd (l.quoted [] bytes hbytes) List.not_mem_nil
      simp [hb]
  rw [trimQuotes, Value.text]
  rcases hdrop with hdrop | hnil
  · rw [hdrop, List.rdropWhile_concat_pos]
    rfl
  · rw [hnil]
    rfl

theorem rdropWhile_append (l : Literal) :
    ∃ n, l.bytes = List.rdropWhile (· = quote) l.bytes ++ List.replicate n quote := by
  refine ⟨(l.bytes.rtakeWhile (· = quote)).length, ?_⟩
  have hquotes : l.bytes.rtakeWhile (· = quote) = List.replicate _ quote :=
    List.eq_replicate_of_mem fun b hb => of_decide_eq_true (List.mem_rtakeWhile_imp (p := fun b => decide (b = quote)) hb)
  rw [← hquotes, List.rdropWhile_append_rtakeWhile]

theorem rdropWhile_self (h : RawJson.backslash ∉ List.rdropWhile (· = quote) l.bytes) :
    List.rdropWhile (· = quote) l.bytes = l.bytes := by
  obtain ⟨n, hbytes⟩ := rdropWhile_append l
  cases n with
  | zero =>
    rw [List.replicate_zero, List.append_nil] at hbytes
    exact hbytes.symm
  | succ n => exact absurd (l.quoted _ (List.replicate n quote) hbytes) h

/-- A string that is written as it is meant, without white space around it. -/
def IsPlain (l : Literal) : Prop := ∃ text, l.bytes = Utf8.encode text ∧ '\\' ∉ text ∧ Text.trim text = text

theorem backslash_not_mem (h : '\\' ∉ text) : RawJson.backslash ∉ Utf8.encode text := by
  intro hmem
  obtain ⟨c, hc, hbyte⟩ := List.mem_flatMap.mp hmem
  refine Escapes.ascii_not_mem (a := '\\') (by decide) rfl ?_ hbyte
  rintro rfl
  exact h hc

theorem unquote_plain (hbytes : l.bytes = Utf8.encode text) (h : '\\' ∉ text) : l.unquote = text := by
  rw [Literal.unquote, hbytes, RawJson.runes_encode, RawJson.unescape_plain h]

theorem byteLength_trim (text : Text) : Text.byteLength (Text.trim text) ≤ Text.byteLength text :=
  ((Text.trim_sublist text).map _).sum_le_sum fun _ _ => Nat.zero_le _

theorem encode_quotes (n : Nat) : Utf8.encode (List.replicate n '"') = List.replicate n quote := by
  induction n with
  | zero => rfl
  | succ n ih =>
    rw [List.replicate_succ, Utf8.encode_cons, ih, List.replicate_succ]
    rfl

theorem getLast?_encode (h : text.getLast? = some '"') : (Utf8.encode text).getLast? = some quote := by
  obtain ⟨before, rfl⟩ := List.getLast?_eq_some_iff.mp h
  rw [Utf8.encode_append]
  exact List.getLast?_concat

theorem trimQuotes_eq_iff (l : Literal) : trimQuotes (Value.string l).text = flexString (.string l) ↔ IsPlain l := by
  rw [trimQuotes_literal, flexString]
  constructor
  · intro heq
    obtain ⟨n, hbytes⟩ := rdropWhile_append l
    have hlast := List.rdropWhile_last_not (fun b => decide (b = quote)) l.bytes
    generalize htext : Text.trim l.unquote = text at heq
    rw [heq] at hbytes
    have hencode : l.bytes = Utf8.encode (text ++ List.replicate n '"') := by
      rw [hbytes, Utf8.encode_append, encode_quotes]
    rw [Literal.unquote, hencode, RawJson.runes_encode] at htext
    cases n with
    | zero =>
      rw [List.replicate_zero, List.append_nil] at htext hencode
      have hplain : '\\' ∉ text := by
        intro hmem
        have hshort := RawJson.unescape_shortens hmem
        have htrim := byteLength_trim (RawJson.unescape text)
        rw [htext] at htrim
        omega
      rw [RawJson.unescape_plain hplain] at htext
      exact ⟨text, hencode, hplain, htext⟩
    | succ n =>
      -- the server would read the quote at the end, which the tool has cut off
      have hend : (text ++ List.replicate (n + 1) '"').getLast? = some '"' := by
        rw [List.replicate_succ', ← List.append_assoc]
        exact List.getLast?_concat
      have htrim := Text.getLast?_trim (by decide) (RawJson.unescape_getLast hend)
      rw [htext] at htrim
      have hquote := getLast?_encode htrim
      rw [← heq] at hquote
      have hne : List.rdropWhile (· = quote) l.bytes ≠ [] := by
        intro hnil
        rw [hnil] at hquote
        cases hquote
      rw [List.getLast?_eq_getLast_of_ne_nil hne, Option.some.injEq] at hquote
      exact absurd (decide_eq_true hquote) (hlast hne)
  · rintro ⟨text, hbytes, hplain, htrim⟩
    rw [unquote_plain hbytes hplain, htrim, ← hbytes]
    refine rdropWhile_self fun hmem => ?_
    have hmem := (List.rdropWhile_prefix _ _).subset hmem
    rw [hbytes] at hmem
    exact backslash_not_mem hplain hmem

/-- A text that begins with such a byte is not blank, and quotes are not what it begins or ends with. -/
def IsInk (b : UInt8) : Prop := b < 0x80 ∧ b ≠ quote ∧ Text.Visible (.ofNat b.toNat)

instance (b : UInt8) : Decidable (IsInk b) := inferInstanceAs (Decidable (_ ∧ _ ∧ _))

theorem isInk_of_isNumberByte {b : UInt8} (h : RawJson.isNumberByte b = true) : IsInk b := by
  have hall : ∀ n < 256, RawJson.isNumberByte (.ofNat n) = true → IsInk (.ofNat n) := by decide +kernel
  have hb := hall b.toNat b.toNat_lt
  rw [UInt8.ofNat_toNat] at hb
  exact hb h

/-- Values other than strings and `null` are read as they are written. -/
structure Verbatim (value : Value) : Prop where
  first : ∃ b ∈ value.text.head?, IsInk b
  last : value.text.getLast? ≠ some quote
  word : value.text ≠ RawJson.nullText
  stored : flexString value = value.text

theorem isBlank_of_isInk {b : UInt8} (h : IsInk b) (bytes : List UInt8) : isBlank (b :: bytes) = false := by
  have hmem := Text.mem_trim h.2.2 (List.mem_cons_self (l := runes bytes))
  rw [isBlank, RawJson.runes_cons h.1]
  exact List.isEmpty_eq_false_iff.mpr (List.ne_nil_of_mem hmem)

theorem Verbatim.of_value (hnull : value ≠ .null) (hstring : ∀ l, value ≠ .string l) : Verbatim value := by
  cases value with
  | null => exact absurd rfl hnull
  | string l => exact absurd rfl (hstring l)
  | bool value =>
    cases value with
    | true => exact ⟨⟨0x74, rfl, by decide⟩, by decide, by decide, rfl⟩
    | false => exact ⟨⟨0x66, rfl, by decide⟩, by decide, by decide, rfl⟩
  | number n =>
    obtain ⟨text, hne, hbytes⟩ := n
    refine ⟨?_, ?_, ?_, rfl⟩
    · cases text with
      | nil => exact absurd rfl hne
      | cons b text => exact ⟨b, rfl, isInk_of_isNumberByte (hbytes b List.mem_cons_self)⟩
    · intro hlast
      exact (isInk_of_isNumberByte (hbytes _ (List.mem_of_getLast? hlast))).2.1 rfl
    · intro hnull
      have hn : (0x6e : UInt8) ∈ text := by
        rw [show text = RawJson.nullText from hnull]
        exact List.mem_cons_self
      exact absurd (hbytes _ hn) (by decide)
  | array inner =>
    refine ⟨⟨0x5b, rfl, by decide⟩, ?_, ?_, rfl⟩
    · rw [Value.text, List.getLast?_concat]
      decide
    · intro h
      cases h
  | object inner members =>
    refine ⟨⟨0x7b, rfl, by decide⟩, ?_, ?_, rfl⟩
    · rw [Value.text, List.getLast?_concat]
      decide
    · intro h
      cases h

theorem Verbatim.idOfMembers {members : List (Literal × Value)} (h : Verbatim value) (hid : lastMember fieldID members = some value) :
    idOfMembers members = some (storedID members) ∧ isBlank (storedID members) = false := by
  obtain ⟨b, hb, hink⟩ := h.first
  obtain ⟨bytes, htext⟩ : ∃ bytes, value.text = b :: bytes := ⟨_, List.eq_cons_of_mem_head? hb⟩
  have hfirst : value.text.head? ≠ some quote := by
    rw [htext]
    intro heq
    exact hink.2.1 (Option.some.inj heq)
  have hne : value.text ≠ [] := by simp [htext]
  have hstored : storedID members = value.text := by rw [storedID, hid]; exact h.stored
  have hread : trimQuotes ((lastMember fieldID members).elim [] Value.text) = value.text := by
    rw [hid]
    exact trimQuotes_self hfirst h.last
  constructor
  · unfold Control.idOfMembers
    rw [hread, hstored, if_neg (by simp [hne, h.word])]
  · rw [hstored, htext, isBlank_of_isInk hink]

end Trimmed

/-! ## When they agree -/

section Agreement

variable {F : Type} [ParseFloat F] {members : List (Literal × Value)} {l : Literal}

/-- A string that both read the same way, or neither. -/
def SameString (F : Type) [ParseFloat F] (members : List (Literal × Value)) (l : Literal) : Prop :=
  if l.bytes = [] then True else if l.bytes = RawJson.nullText then ¬WellTyped F members else WellTyped F members ∧ IsPlain l

def SameID (F : Type) [ParseFloat F] (members : List (Literal × Value)) : Prop :=
  match lastMember fieldID members with
  | none => True
  | some .null => True
  | some (.string l) => SameString F members l
  | some _ => WellTyped F members

def MembersAgree (F : Type) [ParseFloat F] (members : List (Literal × Value)) : Prop :=
  (∀ id, idOfMembers members = some id → ∃ identity : Identity F, identityOfMembers members = some identity ∧ identity.id = id) ∧
    ((identityOfMembers members : Option (Identity F)).isSome → (idOfMembers members).isSome)

theorem agree_iff (response : List UInt8) :
    Agree F response ↔ ∀ members, payloadMembers (response.take maxBodyBytes) = some members → MembersAgree F members := by
  unfold Agree decodeID fetchIdentity parseIdentity
  cases hmembers : payloadMembers (response.take maxBodyBytes) with
  | none => simp
  | some members =>
    simp only [Option.bind_some, Option.some.injEq, forall_eq']
    rfl

theorem membersAgree_none (hid : idOfMembers members = none) (hblank : isBlank (storedID members) = true) : MembersAgree F members := by
  refine ⟨fun id h => ?_, fun h => ?_⟩
  · rw [hid] at h
    cases h
  · have hink := ((identityOfMembers_spec members).1.mp h).2
    rw [hblank] at hink
    cases hink

theorem membersAgree_some (hid : idOfMembers members = some (storedID members)) (hink : isBlank (storedID members) = false) :
    MembersAgree F members ↔ WellTyped F members := by
  obtain ⟨hsome, hstored⟩ := identityOfMembers_spec (F := F) members
  constructor
  · intro h
    obtain ⟨identity, hread, -⟩ := h.1 _ hid
    refine (hsome.mp ?_).1
    rw [hread]
    rfl
  · intro htyped
    obtain ⟨identity, hread⟩ := Option.isSome_iff_exists.mp (hsome.mpr ⟨htyped, hink⟩)
    refine ⟨fun id h => ⟨identity, hread, ?_⟩, fun _ => by rw [hid]; rfl⟩
    rw [hid, Option.some.injEq] at h
    rw [hstored identity hread, h]

theorem membersAgree_refused (hid : idOfMembers members = none) (hink : isBlank (storedID members) = false) :
    MembersAgree F members ↔ ¬WellTyped F members := by
  have hsome := (identityOfMembers_spec (F := F) members).1
  constructor
  · intro h htyped
    have hread := h.2 (hsome.mpr ⟨htyped, hink⟩)
    rw [hid] at hread
    cases hread
  · intro htyped
    refine ⟨fun id h => ?_, fun h => absurd (hsome.mp h).1 htyped⟩
    rw [hid] at h
    cases h

theorem membersAgree_other {id : List UInt8} (hid : idOfMembers members = some id) (hother : id ≠ storedID members) :
    ¬MembersAgree F members := by
  intro h
  obtain ⟨identity, hread, heq⟩ := h.1 id hid
  exact hother (heq.symm.trans ((identityOfMembers_spec members).2 identity hread))

theorem isBlank_encode (text : Text) : isBlank (Utf8.encode (Text.trim text)) = (Text.trim text).isEmpty := by
  rw [isBlank, RawJson.runes_encode, Text.trim_trim]

theorem trimQuotes_eq_nil (l : Literal) : trimQuotes (Value.string l).text = [] ↔ l.bytes = [] := by
  rw [trimQuotes_literal]
  constructor
  · intro h
    rw [← rdropWhile_self (l := l) (by rw [h]; exact List.not_mem_nil), h]
  · intro h
    rw [h]
    rfl

theorem trimQuotes_eq_nullText (l : Literal) : trimQuotes (Value.string l).text = RawJson.nullText ↔ l.bytes = RawJson.nullText := by
  rw [trimQuotes_literal]
  constructor
  · intro h
    rw [← rdropWhile_self (l := l) (by rw [h]; decide), h]
  · intro h
    rw [h]
    rfl

theorem isBlank_plain (hplain : IsPlain l) (hne : l.bytes ≠ []) : isBlank (flexString (.string l)) = false := by
  obtain ⟨text, hbytes, hescape, htrim⟩ := hplain
  rw [flexString, isBlank_encode, unquote_plain hbytes hescape, htrim, List.isEmpty_eq_false_iff]
  rintro rfl
  exact hne hbytes

theorem isPlain_nullText (h : l.bytes = RawJson.nullText) : IsPlain l := ⟨"null".toList, h, by decide, by decide⟩

theorem membersAgree_string (hid : lastMember fieldID members = some (.string l)) :
    MembersAgree F members ↔ SameString F members l := by
  have hread : idOfMembers members =
      if trimQuotes (Value.string l).text = [] ∨ trimQuotes (Value.string l).text = RawJson.nullText then none
      else some (trimQuotes (Value.string l).text) := by
    unfold idOfMembers
    rw [hid]
    rfl
  have hstored : storedID members = flexString (.string l) := by
    rw [storedID, hid]
    rfl
  unfold SameString
  split_ifs with hempty hnull
  · rw [if_pos (.inl ((trimQuotes_eq_nil l).mpr hempty))] at hread
    have hunquote : Text.trim l.unquote = [] := by
      rw [Literal.unquote, hempty]
      rfl
    refine iff_true_intro (membersAgree_none hread ?_)
    rw [hstored, flexString, isBlank_encode, hunquote]
    rfl
  · rw [if_pos (.inr ((trimQuotes_eq_nullText l).mpr hnull))] at hread
    refine membersAgree_refused hread ?_
    rw [hstored]
    exact isBlank_plain (isPlain_nullText hnull) hempty
  · rw [if_neg (not_or.mpr ⟨mt (trimQuotes_eq_nil l).mp hempty, mt (trimQuotes_eq_nullText l).mp hnull⟩)] at hread
    by_cases hplain : IsPlain l
    · have hsame := (trimQuotes_eq_iff l).mpr hplain
      rw [hsame, ← hstored] at hread
      rw [membersAgree_some hread (by rw [hstored]; exact isBlank_plain hplain hempty)]
      exact (and_iff_left hplain).symm
    · have hother : trimQuotes (Value.string l).text ≠ storedID members := by
        rw [hstored]
        exact mt (trimQuotes_eq_iff l).mp hplain
      exact iff_of_false (membersAgree_other hread hother) fun h => hplain h.2

theorem membersAgree_iff (members : List (Literal × Value)) : MembersAgree F members ↔ SameID F members := by
  unfold SameID
  have hnothing (h : (lastMember fieldID members).elim [] flexString = [] ∧ idOfMembers members = none) :
      MembersAgree F members := by
    refine membersAgree_none h.2 ?_
    rw [storedID, h.1]
    rfl
  cases hid : lastMember fieldID members with
  | none =>
    refine iff_true_intro (hnothing ⟨by rw [hid]; rfl, ?_⟩)
    unfold idOfMembers
    rw [hid]
    rfl
  | some value =>
    have hverbatim (hnull : value ≠ .null) (hstring : ∀ l, value ≠ .string l) :
        MembersAgree F members ↔ WellTyped F members := by
      obtain ⟨hread, hink⟩ := (Verbatim.of_value hnull hstring).idOfMembers hid
      exact membersAgree_some hread hink
    cases value with
    | null =>
      refine iff_true_intro (hnothing ⟨by rw [hid]; rfl, ?_⟩)
      unfold idOfMembers
      rw [hid]
      rfl
    | string l => exact membersAgree_string hid
    | bool value => exact hverbatim nofun nofun
    | number n => exact hverbatim nofun nofun
    | array inner => exact hverbatim nofun nofun
    | object inner members => exact hverbatim nofun nofun

/-- The two agree exactly on the answers in which the identifier is missing, empty or no string, or is written plainly, and
everything else is of its type; the text `null` is the exception. -/
theorem decoders_agree_iff (response : List UInt8) :
    Agree F response ↔ ∀ members, payloadMembers (response.take maxBodyBytes) = some members → SameID F members := by
  rw [agree_iff]
  refine forall_congr' fun members => ?_
  exact imp_congr_right fun _ => membersAgree_iff members

abbrev wholeNumbers : ParseFloat Nat where
  parse text := if !text.isEmpty && text.all Char.isDigit then some (text.foldl (fun n c => 10 * n + (c.toNat - 0x30)) 0) else none
  zero := 0

/-- An answer in which the letter `a` is written as an escape. -/
def escapedAnswer : List UInt8 := Utf8.encode "\x7b\"id\":\"\\u0061\"\x7d".toList

/-- The tool keeps the escape, the server reads the letter. -/
theorem escaped_identity_differs : ¬@Agree Nat wholeNumbers escapedAnswer := by
  have htool : decodeID escapedAnswer = some (Utf8.encode "\\u0061".toList) := by decide +kernel
  have hserver : (@fetchIdentity Nat wholeNumbers escapedAnswer).map Identity.id = some (Utf8.encode ['a']) := by
    decide +kernel
  intro h
  obtain ⟨identity, hread, hid⟩ := h.1 _ htool
  rw [hread, Option.map_some, Option.some.injEq, hid] at hserver
  exact absurd hserver (by decide)

end Agreement

end Lumio.Control
