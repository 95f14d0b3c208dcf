import Mathlib.Data.List.Basic
import Mathlib.Data.List.Infix
import Mathlib.Algebra.Ring.Nat

/-!
# Texts

A text is a list of Unicode scalar values. The operations are those of Rust's `str`, and some of Go's `strings` and
`path`; positions are counted in characters.
-/

abbrev Text := List Char

namespace Text

/-- Equality of texts is that of `==`, by an instance of its own: definitions that rest on it share it. -/
instance lawfulBEq : LawfulBEq Text := inferInstance

/-- A decision about every character of a text goes through the text, and not through all characters there are. -/
instance decidableForallMem {p : Char → Prop} [DecidablePred p] (text : Text) : Decidable (∀ c ∈ text, p c) :=
  List.decidableBAll p text

/-- The property `White_Space` of Unicode. -/
def isWhitespace (c : Char) : Bool :=
  let n := c.toNat
  (0x09 ≤ n && n ≤ 0x0d) || n == 0x20 || n == 0x85 || n == 0xa0 || n == 0x1680 || (0x2000 ≤ n && n ≤ 0x200a) ||
    n == 0x2028 || n == 0x2029 || n == 0x202f || n == 0x205f || n == 0x3000

def trimStart (text : Text) : Text := text.dropWhile isWhitespace

def trimEnd (text : Text) : Text := (text.reverse.dropWhile isWhitespace).reverse

def trim (text : Text) : Text := trimEnd (trimStart text)

def stripPrefix (pattern text : Text) : Option Text :=
  if pattern.isPrefixOf text then some (text.drop pattern.length) else none

def find (pattern : Text) : Text → Option Nat
  | [] => if pattern.isEmpty then some 0 else none
  | c :: text => if pattern.isPrefixOf (c :: text) then some 0 else (find pattern text).map (· + 1)

def contains (pattern text : Text) : Bool := (find pattern text).isSome

/-- The pieces of a text that end at a line feed, and the rest if there is one. -/
def splitInclusive : Text → List Text
  | [] => []
  | c :: text =>
    if c = '\n' then [c] :: splitInclusive text
    else
      match splitInclusive text with
      | [] => [[c]]
      | line :: lines => (c :: line) :: lines

/-- A line without its line feed, and without the carriage return before that. -/
def stripLineEnd (line : Text) : Text :=
  if line.getLast? = some '\n' then
    let line := line.dropLast
    if line.getLast? = some '\r' then line.dropLast else line
  else line

def lines (text : Text) : List Text := (splitInclusive text).map stripLineEnd

def join (separator : Text) (parts : List Text) : Text := (parts.intersperse separator).flatten

def ofNat (n : Nat) : Text := Nat.toDigits 10 n

def byteLength (text : Text) : Nat := (text.map Char.utf8Size).sum

/-- `strings.Fields`: the pieces between white space. -/
def fields (text : Text) : List Text := (text.splitOnP isWhitespace).filter fun piece => !piece.isEmpty

/-! ## Patterns of `path.Match` -/

inductive Term where
  | star
  | one
  | char (c : Char)
  | range (negated : Bool) (ranges : List (Char × Char))
deriving DecidableEq

/-- One character of a range, which may be escaped. -/
def rangeChar : Text → Option (Char × Text)
  | '\\' :: c :: rest => some (c, rest)
  | c :: rest => if c = '\\' || c = '-' || c = ']' then none else some (c, rest)
  | [] => none

/-- The ranges up to the closing bracket; there has to be one. -/
def rangeTerm : Nat → List (Char × Char) → Text → Option (List (Char × Char) × Text)
  | 0, _, _ => none
  | fuel + 1, ranges, text =>
    match text, ranges with
    | ']' :: rest, _ :: _ => some (ranges.reverse, rest)
    | text, ranges =>
      match rangeChar text with
      | none => none
      | some (lo, '-' :: rest) =>
        match rangeChar rest with
        | none => none
        | some (hi, rest) => rangeTerm fuel ((lo, hi) :: ranges) rest
      | some (lo, rest) => rangeTerm fuel ((lo, lo) :: ranges) rest

/-- The terms of a pattern, `none` if it is malformed. Every term takes a character at least. -/
def patternTerms : Nat → Text → Option (List Term)
  | 0, text => if text.isEmpty then some [] else none
  | fuel + 1, text =>
    match text with
    | [] => some []
    | '*' :: rest => (patternTerms fuel rest).map (.star :: ·)
    | '?' :: rest => (patternTerms fuel rest).map (.one :: ·)
    | '\\' :: c :: rest => (patternTerms fuel rest).map (.char c :: ·)
    | '\\' :: [] => none
    | '[' :: '^' :: rest =>
      (rangeTerm rest.length [] rest).bind fun (ranges, rest) => (patternTerms fuel rest).map (.range true ranges :: ·)
    | '[' :: rest =>
      (rangeTerm rest.length [] rest).bind fun (ranges, rest) => (patternTerms fuel rest).map (.range false ranges :: ·)
    | c :: rest => (patternTerms fuel rest).map (.char c :: ·)

/-- A star takes characters up to a slash, then the rest has to match. -/
def starMatch (rest : Text → Bool) : Text → Bool
  | [] => rest []
  | c :: text => rest (c :: text) || (c != '/' && starMatch rest text)

def termsMatch : List Term → Text → Bool
  | [], text => text.isEmpty
  | .star :: terms, text => starMatch (termsMatch terms) text
  | .one :: terms, c :: text => c != '/' && termsMatch terms text
  | .char d :: terms, c :: text => c == d && termsMatch terms text
  | .range negated ranges :: terms, c :: text =>
    (ranges.any fun (lo, hi) => decide (lo ≤ c) && decide (c ≤ hi)) != negated && termsMatch terms text
  | _ :: _, [] => false

/-- A malformed pattern matches nothing. -/
def pathMatch (pattern text : Text) : Bool :=
  match patternTerms pattern.length pattern with
  | some terms => termsMatch terms text
  | none => false

end Text
