import Lumio.Lib.Trimmed
import Lumio.Lib.TomlTree

/-!
# Texts of TOML documents

Which texts are TOML 1.0, and which statements they are made of. What numbers, booleans and dates are written like is left
to a relation `bare`.
-/

namespace Toml

def isBlank (c : Char) : Bool := c = ' ' || c = '\t'

def Blank (text : Text) : Prop := ∀ c ∈ text, isBlank c = true

inductive Newline : Text → Prop where
  | lf : Newline ['\n']
  | crlf : Newline ['\r', '\n']

/-- Every character but the control characters; a tab is allowed. -/
def isPrintable (c : Char) : Bool := c = '\t' || (decide (0x20 ≤ c.toNat) && decide (c.toNat ≠ 0x7f))

inductive Comment : Text → Prop where
  | none : Comment []
  | some {text : Text} (h : ∀ c ∈ text, isPrintable c = true) : Comment ('#' :: text)

/-! ## Strings -/

def shortEscapes : List (Char × Char) :=
  [('b', Char.ofNat 8), ('t', '\t'), ('n', '\n'), ('f', Char.ofNat 12), ('r', '\r'), ('"', '"'), ('\\', '\\')]

def hexDigit (c : Char) : Option Nat :=
  if '0' ≤ c ∧ c ≤ '9' then some (c.toNat - '0'.toNat)
  else if 'a' ≤ c ∧ c ≤ 'f' then some (c.toNat - 'a'.toNat + 10)
  else if 'A' ≤ c ∧ c ≤ 'F' then some (c.toNat - 'A'.toNat + 10)
  else none

def hexValue (digits : Text) : Option Nat :=
  digits.foldl (fun value c => value.bind fun n => (hexDigit c).map (16 * n + ·)) (some 0)

inductive Escape : Text → Char → Prop where
  | short {c d : Char} (h : (c, d) ∈ shortEscapes) : Escape ['\\', c] d
  | four {digits : Text} {c : Char} (hlength : digits.length = 4) (h : hexValue digits = some c.toNat) :
      Escape ('\\' :: 'u' :: digits) c
  | eight {digits : Text} {c : Char} (hlength : digits.length = 8) (h : hexValue digits = some c.toNat) :
      Escape ('\\' :: 'U' :: digits) c

def isBasicChar (c : Char) : Bool := isPrintable c && c ≠ '"' && c ≠ '\\'

def isLiteralChar (c : Char) : Bool := isPrintable c && c ≠ '\''

inductive Basic : Text → Text → Prop where
  | nil : Basic [] []
  | char {c : Char} {raw text : Text} (h : isBasicChar c = true) (hrest : Basic raw text) : Basic (c :: raw) (c :: text)
  | escape {code raw text : Text} {c : Char} (h : Escape code c) (hrest : Basic raw text) :
      Basic (code ++ raw) (c :: text)

inductive White : Text → Prop where
  | nil : White []
  | blank {c : Char} {rest : Text} (h : isBlank c = true) (hrest : White rest) : White (c :: rest)
  | newline {line rest : Text} (h : Newline line) (hrest : White rest) : White (line ++ rest)

/-- What stands between the quotes of a multi-line basic string, after a number of quotation marks. -/
inductive MultiBasic : Nat → Text → Text → Prop where
  | nil {n : Nat} : MultiBasic n [] []
  | char {n : Nat} {c : Char} {raw text : Text} (h : isBasicChar c = true) (hrest : MultiBasic 0 raw text) :
      MultiBasic n (c :: raw) (c :: text)
  | quote {n : Nat} {raw text : Text} (h : n < 2) (hrest : MultiBasic (n + 1) raw text) :
      MultiBasic n ('"' :: raw) ('"' :: text)
  | escape {n : Nat} {code raw text : Text} {c : Char} (h : Escape code c) (hrest : MultiBasic 0 raw text) :
      MultiBasic n (code ++ raw) (c :: text)
  | newline {n : Nat} {line raw text : Text} (h : Newline line) (hrest : MultiBasic 0 raw text) :
      MultiBasic n (line ++ raw) ('\n' :: text)
  | escapedNewline {n : Nat} {blank line white raw text : Text} (hblank : Blank blank) (hline : Newline line)
      (hwhite : White white) (hrest : MultiBasic 0 raw text) :
      MultiBasic n ('\\' :: blank ++ line ++ white ++ raw) text

/-- What stands between the quotes of a multi-line literal string, after a number of apostrophes. -/
inductive MultiLiteral : Nat → Text → Text → Prop where
  | nil {n : Nat} : MultiLiteral n [] []
  | char {n : Nat} {c : Char} {raw text : Text} (h : isLiteralChar c = true) (hrest : MultiLiteral 0 raw text) :
      MultiLiteral n (c :: raw) (c :: text)
  | quote {n : Nat} {raw text : Text} (h : n < 2) (hrest : MultiLiteral (n + 1) raw text) :
      MultiLiteral n ('\'' :: raw) ('\'' :: text)
  | newline {n : Nat} {line raw text : Text} (h : Newline line) (hrest : MultiLiteral 0 raw text) :
      MultiLiteral n (line ++ raw) ('\n' :: text)

/-- The line feed after the opening quotes, if there is one. -/
inductive FirstNewline : Text → Prop where
  | none : FirstNewline []
  | some {line : Text} (h : Newline line) : FirstNewline line

inductive StringText : Text → Text → Prop where
  | basic {raw text : Text} (h : Basic raw text) : StringText ('"' :: raw ++ ['"']) text
  | literal {text : Text} (h : ∀ c ∈ text, isLiteralChar c = true) : StringText ('\'' :: text ++ ['\'']) text
  | multiBasic {first raw text : Text} (hfirst : FirstNewline first) (h : MultiBasic 0 raw text) :
      StringText ('"' :: '"' :: '"' :: first ++ raw ++ ['"', '"', '"']) text
  | multiLiteral {first raw text : Text} (hfirst : FirstNewline first) (h : MultiLiteral 0 raw text) :
      StringText ('\'' :: '\'' :: '\'' :: first ++ raw ++ ['\'', '\'', '\'']) text

/-! ## Keys -/

def isLetterOrDigit (c : Char) : Bool :=
  (decide (0x61 ≤ c.toNat) && decide (c.toNat ≤ 0x7a)) || (decide (0x41 ≤ c.toNat) && decide (c.toNat ≤ 0x5a)) ||
    (decide (0x30 ≤ c.toNat) && decide (c.toNat ≤ 0x39))

def isBareKeyChar (c : Char) : Bool := isLetterOrDigit c || c = '-' || c = '_'

def IsBareKey (key : Text) : Prop := key ≠ [] ∧ ∀ c ∈ key, isBareKeyChar c = true

inductive SimpleKey : Text → Text → Prop where
  | bare {key : Text} (h : IsBareKey key) : SimpleKey key key
  | basic {raw key : Text} (h : Basic raw key) : SimpleKey ('"' :: raw ++ ['"']) key
  | literal {key : Text} (h : ∀ c ∈ key, isLiteralChar c = true) : SimpleKey ('\'' :: key ++ ['\'']) key

/-- Keys with dots between them; the last one is told apart. -/
inductive KeyText : Text → List Text → Text → Prop where
  | single {text key : Text} (h : SimpleKey text key) : KeyText text [] key
  | dotted {text key before after rest last : Text} {keys : List Text} (h : SimpleKey text key) (hbefore : Blank before)
      (hafter : Blank after) (hrest : KeyText rest keys last) :
      KeyText (text ++ before ++ '.' :: after ++ rest) (key :: keys) last

/-! ## Values -/

/-- White space, comments and line feeds, as they stand inside of an array. -/
inductive Gap : Text → Prop where
  | blank {blank : Text} (h : Blank blank) : Gap blank
  | line {blank comment line rest : Text} (hblank : Blank blank) (hcomment : Comment comment) (hline : Newline line)
      (hrest : Gap rest) : Gap (blank ++ comment ++ line ++ rest)

variable (bare : Text → Scalar → Prop)

mutual

inductive ValueText : Text → Item → Prop where
  | string {raw text : Text} (h : StringText raw text) : ValueText raw (.scalar (.string text))
  | bare {text : Text} {value : Scalar} (h : bare text value) : ValueText text (.scalar value)
  | array {inner : Text} {items : List Item} (h : ArrayText inner items) : ValueText ('[' :: inner ++ [']']) (.array items)
  | inlineTable {blank inner : Text} {statements : List Statement} {draft : Draft} {entries : Table} (hblank : Blank blank)
      (h : InlineText inner statements) (hbuild : build statements = some draft) (hdenotes : draft.Denotes entries) :
      ValueText ('{' :: blank ++ inner ++ ['}']) (.inlineTable entries)

inductive ArrayText : Text → List Item → Prop where
  | nil {gap : Text} (h : Gap gap) : ArrayText gap []
  | last {before value after : Text} {item : Item} (hbefore : Gap before) (h : ValueText value item) (hafter : Gap after) :
      ArrayText (before ++ value ++ after) [item]
  | comma {before value after rest : Text} {item : Item} {items : List Item} (hbefore : Gap before)
      (h : ValueText value item) (hafter : Gap after) (hrest : ArrayText rest items) :
      ArrayText (before ++ value ++ after ++ ',' :: rest) (item :: items)

/-- What stands between the braces of an inline table, after the white space. -/
inductive InlineText : Text → List Statement → Prop where
  | nil : InlineText [] []
  | last {text : Text} {statement : Statement} (h : KeyvalText text statement) : InlineText text [statement]
  | comma {text blank rest : Text} {statement other : Statement} {statements : List Statement}
      (h : KeyvalText text statement) (hblank : Blank blank) (hrest : InlineText rest (other :: statements)) :
      InlineText (text ++ ',' :: blank ++ rest) (statement :: other :: statements)

/-- A key and its value, with the white space after them. -/
inductive KeyvalText : Text → Statement → Prop where
  | keyval {name before after value trail key : Text} {keys : List Text} {item : Item} (hname : KeyText name keys key)
      (hbefore : Blank before) (hafter : Blank after) (h : ValueText value item) (htrail : Blank trail) :
      KeyvalText (name ++ before ++ '=' :: after ++ value ++ trail) (.keyval keys key item)

end

/-! ## Documents -/

/-- An expression: a line, or several ones if a value goes over them. -/
inductive ExpressionText : Text → Statement → Prop where
  | blank {lead comment : Text} (hlead : Blank lead) (hcomment : Comment comment) :
      ExpressionText (lead ++ comment) .blank
  | keyval {lead text comment : Text} {statement : Statement} (hlead : Blank lead) (h : KeyvalText bare text statement)
      (hcomment : Comment comment) : ExpressionText (lead ++ text ++ comment) statement
  | table {lead before name after trail comment key : Text} {keys : List Text} (hlead : Blank lead) (hbefore : Blank before)
      (hname : KeyText name keys key) (hafter : Blank after) (htrail : Blank trail) (hcomment : Comment comment) :
      ExpressionText (lead ++ '[' :: before ++ name ++ after ++ ']' :: trail ++ comment) (.table keys key)
  | arrayTable {lead before name after trail comment key : Text} {keys : List Text} (hlead : Blank lead)
      (hbefore : Blank before) (hname : KeyText name keys key) (hafter : Blank after) (htrail : Blank trail)
      (hcomment : Comment comment) :
      ExpressionText (lead ++ '[' :: '[' :: before ++ name ++ after ++ ']' :: ']' :: trail ++ comment) (.arrayTable keys key)

structure Expression where
  text : Text
  statement : Statement

inductive DocumentText : Text → List Expression → Prop where
  | last {expression : Expression} (h : ExpressionText bare expression.text expression.statement) :
      DocumentText expression.text [expression]
  | line {expression : Expression} {newline rest : Text} {expressions : List Expression}
      (h : ExpressionText bare expression.text expression.statement) (hnewline : Newline newline)
      (hrest : DocumentText rest expressions) :
      DocumentText (expression.text ++ newline ++ rest) (expression :: expressions)

def Reads (text : Text) (expressions : List Expression) (doc : Table) : Prop :=
  DocumentText bare text expressions ∧ ∃ draft, build (expressions.map (·.statement)) = some draft ∧ draft.Denotes doc

/-- How numbers, booleans and dates are written. -/
structure BareValues : Prop where
  ne_nil : ∀ text value, bare text value → text ≠ []
  chars : ∀ text value, bare text value → ∀ c ∈ text, isLetterOrDigit c = true ∨ c ∈ ['+', '-', '.', ':', '_', ' ']
  first : ∀ text value, bare text value → text.head? ≠ some ' '
  last : ∀ text value, bare text value → text.getLast? ≠ some ' '
  not_string : ∀ text value, bare text (.string value) → False

/-! ## Characters -/

section Characters

variable {raw text key name before after : Text}

variable {c d : Char} {blank : Text} {keys : List Text}

theorem isBlank_isWhitespace (h : isBlank c = true) : Text.isWhitespace c = true := by
  simp only [isBlank, Bool.or_eq_true, decide_eq_true_eq] at h
  rcases h with rfl | rfl <;> rfl

theorem Blank.nil : Blank [] := fun _ hc => by cases hc

theorem not_mem_of_isPrintable (hd : isPrintable d = false) (h : isPrintable c = true) : c ≠ d := by
  rintro rfl
  rw [h] at hd
  cases hd

theorem Comment.newline_not_mem {comment : Text} (h : Comment comment) : '\n' ∉ comment := by
  cases h with
  | none => exact List.not_mem_nil
  | some h =>
    intro hmem
    rcases List.mem_cons.mp hmem with hchar | hrest
    · exact absurd hchar (by decide)
    · exact absurd (h _ hrest) (by decide)

theorem Blank.newline_not_mem (h : Blank blank) : '\n' ∉ blank := fun hmem =>
  absurd (h _ hmem) (by decide)

theorem shortEscape_char (h : (c, d) ∈ shortEscapes) : c ≠ '\n' := by
  rintro rfl
  revert h
  simp [shortEscapes]

theorem hexDigit_newline : hexDigit '\n' = none := by decide

theorem hexValue_none_of_mem {digits : Text} (hc : hexDigit c = none) (h : c ∈ digits) : hexValue digits = none := by
  unfold hexValue
  have hnone : ∀ rest : Text, rest.foldl (fun value c => value.bind fun n => (hexDigit c).map (16 * n + ·)) none = none := by
    intro rest
    induction rest with
    | nil => rfl
    | cons d rest ih => exact ih
  generalize some 0 = start
  induction digits generalizing start with
  | nil => cases h
  | cons d digits ih =>
    rw [List.foldl_cons]
    rcases List.mem_cons.mp h with rfl | hmem
    · have hstart : (start.bind fun n => (hexDigit c).map (16 * n + ·)) = none := by
        rw [hc]
        cases start <;> rfl
      rw [hstart]
      exact hnone digits
    · exact ih hmem _

theorem Escape.newline_not_mem {code : Text} (h : Escape code c) : '\n' ∉ code := by
  cases h with
  | short h =>
    intro hmem
    simp only [List.mem_cons, List.not_mem_nil, or_false] at hmem
    rcases hmem with hchar | hchar
    · exact absurd hchar (by decide)
    · exact shortEscape_char h hchar.symm
  | four hlength h =>
    intro hmem
    simp only [List.mem_cons] at hmem
    rcases hmem with hchar | hchar | hdigits
    · exact absurd hchar (by decide)
    · exact absurd hchar (by decide)
    · rw [hexValue_none_of_mem hexDigit_newline hdigits] at h
      cases h
  | eight hlength h =>
    intro hmem
    simp only [List.mem_cons] at hmem
    rcases hmem with hchar | hchar | hdigits
    · exact absurd hchar (by decide)
    · exact absurd hchar (by decide)
    · rw [hexValue_none_of_mem hexDigit_newline hdigits] at h
      cases h

theorem isBasicChar_isPrintable (h : isBasicChar c = true) : isPrintable c = true := by
  simp only [isBasicChar, Bool.and_eq_true] at h
  exact h.1.1

theorem Basic.newline_not_mem (h : Basic raw text) : '\n' ∉ raw := by
  induction h with
  | nil => exact List.not_mem_nil
  | char h _ ih =>
    rw [List.mem_cons, not_or]
    exact ⟨(not_mem_of_isPrintable (by decide) (isBasicChar_isPrintable h)).symm, ih⟩
  | escape h _ ih =>
    rw [List.mem_append, not_or]
    exact ⟨h.newline_not_mem, ih⟩

theorem Escape.length_pos {code : Text} (h : Escape code c) : 0 < code.length := by
  cases h <;> exact Nat.zero_lt_succ _

theorem Basic.length_le (h : Basic raw text) : text.length ≤ raw.length := by
  induction h with
  | nil => exact le_rfl
  | char _ _ ih => simpa using ih
  | escape h _ ih =>
    have hpos := h.length_pos
    rw [List.length_append, List.length_cons]
    omega

theorem Newline.length_pos {line : Text} (h : Newline line) : 0 < line.length := by
  cases h <;> exact Nat.zero_lt_succ _

theorem MultiBasic.length_le {n : Nat} (h : MultiBasic n raw text) : text.length ≤ raw.length := by
  induction h with
  | nil => exact le_rfl
  | char _ _ ih => simpa using ih
  | quote _ _ ih => simpa using ih
  | escape h _ ih =>
    have hpos := h.length_pos
    rw [List.length_append, List.length_cons]
    omega
  | newline h _ ih =>
    have hpos := h.length_pos
    rw [List.length_append, List.length_cons]
    omega
  | escapedNewline _ _ _ _ ih =>
    simp only [List.length_append, List.length_cons]
    omega

theorem MultiLiteral.length_le {n : Nat} (h : MultiLiteral n raw text) : text.length ≤ raw.length := by
  induction h with
  | nil => exact le_rfl
  | char _ _ ih => simpa using ih
  | quote _ _ ih => simpa using ih
  | newline h _ ih =>
    have hpos := h.length_pos
    rw [List.length_append, List.length_cons]
    omega

/-! ## Keys -/

theorem ne_of_isBareKeyChar (hd : isBareKeyChar d = false) (h : isBareKeyChar c = true) : c ≠ d := by
  rintro rfl
  rw [h] at hd
  cases hd

theorem SimpleKey.newline_not_mem (h : SimpleKey text key) : '\n' ∉ text := by
  cases h with
  | bare h => exact fun hmem => absurd (h.2 _ hmem) (by decide)
  | basic h =>
    simp only [List.cons_append, List.mem_cons, List.mem_append, not_or]
    exact ⟨by decide, h.newline_not_mem, by decide, List.not_mem_nil⟩
  | literal h =>
    simp only [List.cons_append, List.mem_cons, List.mem_append, not_or]
    exact ⟨by decide, fun hmem => absurd (h _ hmem) (by decide), by decide, List.not_mem_nil⟩

theorem KeyText.newline_not_mem (h : KeyText text keys key) : '\n' ∉ text := by
  induction h with
  | single h => exact h.newline_not_mem
  | dotted h hbefore hafter _ ih =>
    simp only [List.append_assoc, List.cons_append, List.mem_append, List.mem_cons, not_or]
    exact ⟨h.newline_not_mem, hbefore.newline_not_mem, by decide, hafter.newline_not_mem, ih⟩

/-! ## The ends of keys and values -/

open Text (Visible)

theorem Blank.isWhitespace (h : Blank blank) : ∀ c ∈ blank, Text.isWhitespace c = true :=
  fun c hc => isBlank_isWhitespace (h c hc)

theorem visible_of_toNat (hlow : 0x21 ≤ c.toNat) (hhigh : c.toNat ≤ 0x7e) : Visible c := by
  simp only [Visible, Text.isWhitespace, Bool.or_eq_false_iff, Bool.and_eq_false_iff, beq_eq_false_iff_ne, decide_eq_false_iff_not]
  omega

theorem visible_of_isLetterOrDigit (h : isLetterOrDigit c = true) : Visible c := by
  simp only [isLetterOrDigit, Bool.or_eq_true, Bool.and_eq_true, decide_eq_true_eq] at h
  apply visible_of_toNat <;> omega

theorem visible_of_isBareKeyChar (h : isBareKeyChar c = true) : Visible c := by
  simp only [isBareKeyChar, Bool.or_eq_true, decide_eq_true_eq] at h
  rcases h with (h | rfl) | rfl
  · exact visible_of_isLetterOrDigit h
  · rfl
  · rfl

/-- A character that a key begins or ends with. -/
def IsKeyEnd (c : Char) : Prop := isBareKeyChar c = true ∨ c = '"' ∨ c = '\''

theorem IsKeyEnd.visible (h : IsKeyEnd c) : Visible c := by
  rcases h with h | rfl | rfl
  · exact visible_of_isBareKeyChar h
  · rfl
  · rfl

theorem SimpleKey.first (h : SimpleKey text key) : ∃ c rest, text = c :: rest ∧ IsKeyEnd c := by
  cases h with
  | bare h =>
    cases text with
    | nil => exact absurd rfl h.1
    | cons c rest => exact ⟨c, rest, rfl, .inl (h.2 c List.mem_cons_self)⟩
  | basic h => exact ⟨_, _, rfl, .inr (.inl rfl)⟩
  | literal h => exact ⟨_, _, rfl, .inr (.inr rfl)⟩

theorem SimpleKey.last (h : SimpleKey text key) : ∃ start c, text = start ++ [c] ∧ IsKeyEnd c := by
  cases h with
  | bare h =>
    refine ⟨text.dropLast, text.getLast h.1, (List.dropLast_append_getLast h.1).symm, .inl (h.2 _ (List.getLast_mem h.1))⟩
  | basic h => exact ⟨_, _, rfl, .inr (.inl rfl)⟩
  | literal h => exact ⟨_, _, rfl, .inr (.inr rfl)⟩

theorem KeyText.first (h : KeyText text keys key) : ∃ c rest, text = c :: rest ∧ IsKeyEnd c := by
  cases h with
  | single h => exact h.first
  | dotted h hbefore hafter hrest =>
    obtain ⟨c, rest, rfl, hc⟩ := h.first
    exact ⟨c, _, rfl, hc⟩

theorem KeyText.last {keys : List Text} (h : KeyText text keys key) : ∃ start c, text = start ++ [c] ∧ IsKeyEnd c := by
  induction h with
  | single h => exact h.last
  | @dotted text key before after _ _ _ h hbefore hafter hrest ih =>
    obtain ⟨start, c, hrestText, hc⟩ := ih
    refine ⟨text ++ before ++ '.' :: after ++ start, c, ?_, hc⟩
    rw [hrestText]
    simp

theorem KeyText.of_bare (h : KeyText text keys key) (hbare : IsBareKey text) : keys = [] ∧ key = text := by
  cases h with
  | single h =>
    refine ⟨rfl, ?_⟩
    cases h with
    | bare => rfl
    | basic h => exact absurd (hbare.2 '"' List.mem_cons_self) (by decide)
    | literal h => exact absurd (hbare.2 '\'' List.mem_cons_self) (by decide)
  | dotted h hbefore hafter hrest => exact absurd (hbare.2 '.' (by simp)) (by decide)

def QuotesEquals (text : Text) : Prop :=
  ∀ before after, text = before ++ '=' :: after → '"' ∈ before ∨ '\'' ∈ before

theorem QuotesEquals.of_not_mem (h : '=' ∉ text) : QuotesEquals text := by
  rintro before after rfl
  exact absurd (List.mem_append_right before List.mem_cons_self) h

theorem QuotesEquals.cons (h : c = '"' ∨ c = '\'') (rest : Text) : QuotesEquals (c :: rest) := by
  intro before after htext
  cases before with
  | nil =>
    obtain ⟨rfl, -⟩ := List.cons.inj htext
    rcases h with h | h <;> cases h
  | cons d before =>
    obtain ⟨rfl, -⟩ := List.cons.inj htext
    exact h.imp (fun h => by rw [h]; exact List.mem_cons_self) fun h => by rw [h]; exact List.mem_cons_self

theorem QuotesEquals.append {a b : Text} (ha : QuotesEquals a) (hb : QuotesEquals b) : QuotesEquals (a ++ b) := by
  intro before after htext
  rcases List.append_eq_append_iff.mp htext with ⟨between, rfl, hrest⟩ | ⟨between, rfl, hrest⟩
  · exact (hb between after hrest).imp (List.mem_append_right a) (List.mem_append_right a)
  · cases between with
    | nil => rcases hb [] after hrest.symm with h | h <;> cases h
    | cons c between =>
      obtain ⟨rfl, -⟩ := List.cons.inj hrest
      exact ha before between rfl

theorem SimpleKey.quotesEquals (h : SimpleKey text key) : QuotesEquals text := by
  cases h with
  | bare h => exact .of_not_mem fun hmem => absurd (h.2 _ hmem) (by decide)
  | basic h => exact .cons (.inl rfl) _
  | literal h => exact .cons (.inr rfl) _

theorem Blank.not_mem_equals (h : Blank blank) : '=' ∉ blank := fun hmem =>
  absurd (h _ hmem) (by decide)

theorem KeyText.quotesEquals (h : KeyText text keys key) : QuotesEquals text := by
  induction h with
  | single h => exact h.quotesEquals
  | dotted h hbefore hafter _ ih =>
    have hdot : QuotesEquals ['.'] := .of_not_mem (by decide)
    have hgap := hdot.append (.of_not_mem hafter.not_mem_equals)
    exact ((h.quotesEquals.append (.of_not_mem hbefore.not_mem_equals)).append hgap).append ih

end Characters

end Toml
