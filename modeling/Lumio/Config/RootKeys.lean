import Lumio.Config.Lines
import Lumio.Lib.TomlText

/-!
# Root keys

The value of a root key is looked up in the lines before the first header, without reading them as TOML.
-/

namespace Lumio.Config

open Toml
open Text (trim splitOnce splitOnce_append startsWith endsWith trimmedLines Visible)

/-- `strip_prefix` and `strip_suffix` -/
def stripQuotes (quote : Char) (value : Text) : Option Text :=
  match value with
  | c :: rest => if c = quote ∧ rest.getLast? = some quote then some rest.dropLast else none
  | [] => none

def unquoteTomlString (value : Text) : Text :=
  ((stripQuotes '"' (trim value)).or (stripQuotes '\'' (trim value))).getD (trim value)

def rootKeyValueOf (key : Text) : List Text → Option Text
  | [] => none
  | line :: lines =>
    if startsWith '[' (trim line) then none
    else if startsWith '#' (trim line) || (trim line).isEmpty then rootKeyValueOf key lines
    else
      match splitOnce '=' (trim line) with
      | some (name, value) => if trim name = key then some value else rootKeyValueOf key lines
      | none => rootKeyValueOf key lines

def rootKeyValue (contents key : Text) : Option Text := rootKeyValueOf key (Text.lines contents)

def rootKeyString (contents key : Text) : Option Text := (rootKeyValue contents key).map unquoteTomlString

/-! ## Scanning lines -/

inductive Scan where
  | passed
  | stopped
  | found (value : Text)

def Scan.value : Scan → Option Text
  | .found value => some value
  | _ => none

def scanLine (key line : Text) : Scan :=
  if startsWith '[' line then .stopped
  else if startsWith '#' line || line.isEmpty then .passed
  else
    match splitOnce '=' line with
    | some (name, value) => if trim name = key then .found value else .passed
    | none => .passed

def scanLines (key : Text) : List Text → Scan
  | [] => .passed
  | line :: lines =>
    match scanLine key line with
    | .passed => scanLines key lines
    | .stopped => .stopped
    | .found value => .found value

section Scanning

variable {key line : Text} {lines others : List Text}

theorem scanLines_cons_passed (h : scanLine key line = .passed) : scanLines key (line :: lines) = scanLines key lines := by
  rw [scanLines, h]

theorem rootKeyValueOf_eq (key : Text) (lines : List Text) :
    rootKeyValueOf key lines = (scanLines key (lines.map trim)).value := by
  induction lines with
  | nil => rfl
  | cons line lines ih =>
    rw [rootKeyValueOf, List.map_cons, scanLines, scanLine]
    split_ifs with hheader hskip
    · rfl
    · exact ih
    · cases splitOnce '=' (trim line) with
      | none => exact ih
      | some parts =>
        obtain ⟨name, value⟩ := parts
        simp only
        split_ifs
        · rfl
        · exact ih

theorem rootKeyValue_eq (contents key : Text) : rootKeyValue contents key = (scanLines key (trimmedLines contents)).value :=
  rootKeyValueOf_eq key _

theorem scanLines_append_passed (h : scanLines key lines = .passed) (others : List Text) :
    scanLines key (lines ++ others) = scanLines key others := by
  induction lines with
  | nil => rfl
  | cons line lines ih =>
    rw [scanLines] at h
    rw [List.cons_append, scanLines]
    cases hline : scanLine key line with
    | passed =>
      rw [hline] at h
      exact ih h
    | stopped =>
      rw [hline] at h
      cases h
    | found value =>
      rw [hline] at h
      cases h

theorem scanLines_append_of_ne (h : scanLines key lines ≠ .passed) (others : List Text) :
    scanLines key (lines ++ others) = scanLines key lines := by
  induction lines with
  | nil => exact absurd rfl h
  | cons line lines ih =>
    rw [List.cons_append, scanLines, scanLines]
    rw [scanLines] at h
    cases hline : scanLine key line with
    | passed =>
      rw [hline] at h
      exact ih h
    | stopped => rfl
    | found value => rfl

/-- A line that has the key in front of its first equals sign, and is no comment. -/
def HasKey (key line : Text) : Prop :=
  startsWith '#' line = false ∧ ∃ name value, line = name ++ '=' :: value ∧ '=' ∉ name ∧ trim name = key

def PassedOver (key line : Text) : Prop := startsWith '[' line = false ∧ ¬HasKey key line

/-- The first line that is not passed over looks like a header. -/
def StopsAtHeader (key : Text) (lines : List Text) : Prop :=
  ∃ before line after, lines = before ++ line :: after ∧ (∀ other ∈ before, PassedOver key other) ∧ startsWith '[' line = true

theorem scanLine_passed_iff : scanLine key line = .passed ↔ PassedOver key line := by
  rw [scanLine, PassedOver]
  split_ifs with hheader hskip
  · simp [hheader]
  · have hnot : ¬HasKey key line := by
      rintro ⟨hcomment, name, value, rfl, -, -⟩
      simp [hcomment] at hskip
    simpa [hheader] using hnot
  · obtain ⟨hcomment, -⟩ : startsWith '#' line = false ∧ line.isEmpty = false := by simpa using hskip
    cases hsplit : splitOnce '=' line with
    | none =>
      have hnot : ¬HasKey key line := by
        rintro ⟨-, name, value, rfl, hname, -⟩
        rw [splitOnce_append hname] at hsplit
        cases hsplit
      simpa [hheader] using hnot
    | some parts =>
      obtain ⟨name, value⟩ := parts
      obtain ⟨rfl, hname⟩ := Text.eq_of_splitOnce hsplit
      have hkey : HasKey key (name ++ '=' :: value) ↔ trim name = key := by
        constructor
        · rintro ⟨-, other, rest, hline, hother, htrim⟩
          rw [hline, splitOnce_append hother] at hsplit
          cases hsplit
          exact htrim
        · exact fun htrim => ⟨hcomment, name, value, rfl, hname, htrim⟩
      simp only [hkey, hheader]
      by_cases htrim : trim name = key <;> simp [htrim]

theorem scanLine_stopped_iff : scanLine key line = .stopped ↔ startsWith '[' line = true := by
  constructor
  · intro h
    rw [scanLine] at h
    split_ifs at h with hheader
    · exact hheader
    · split at h
      · split_ifs at h
      · cases h
  · intro h
    rw [scanLine, if_pos h]

theorem scanLines_passed_iff : scanLines key lines = .passed ↔ ∀ line ∈ lines, PassedOver key line := by
  induction lines with
  | nil => simp [scanLines]
  | cons line lines ih =>
    rw [List.forall_mem_cons, ← scanLine_passed_iff, ← ih, scanLines]
    cases scanLine key line <;> simp

theorem scanLines_stopped (h : StopsAtHeader key lines) : scanLines key lines = .stopped := by
  obtain ⟨before, line, after, rfl, hbefore, hline⟩ := h
  rw [scanLines_append_passed (scanLines_passed_iff.mpr hbefore), scanLines, scanLine_stopped_iff.mpr hline]

theorem scanLines_cases (h : ∀ value, scanLines key lines ≠ .found value) :
    (∀ line ∈ lines, PassedOver key line) ∨ StopsAtHeader key lines := by
  induction lines with
  | nil => exact .inl (List.forall_mem_nil _)
  | cons line lines ih =>
    cases hline : scanLine key line with
    | passed =>
      have hpassed := scanLine_passed_iff.mp hline
      rw [scanLines_cons_passed hline] at h
      rcases ih h with hall | ⟨before, other, after, rfl, hbefore, hother⟩
      · exact .inl (List.forall_mem_cons.mpr ⟨hpassed, hall⟩)
      · exact .inr ⟨line :: before, other, after, rfl, List.forall_mem_cons.mpr ⟨hpassed, hbefore⟩, hother⟩
    | stopped => exact .inr ⟨[], line, lines, rfl, List.forall_mem_nil _, scanLine_stopped_iff.mp hline⟩
    | found value =>
      refine absurd ?_ (h value)
      rw [scanLines, hline]

theorem scanLines_last (key text : Text) : scanLines key (trimmedLines (text ++ ['\n'])) = scanLines key (trimmedLines text) := by
  rcases Text.trimmedLines_last text with h | h
  · rw [h]
  · rw [h]
    by_cases hpassed : scanLines key (trimmedLines text) = .passed
    · rw [scanLines_append_passed hpassed, hpassed]
      rfl
    · exact scanLines_append_of_ne hpassed _

end Scanning

/-! ## The lines of an expression -/

section Lines

variable {lead name before rest key last : Text} {keys : List Text}

theorem trim_keyval (hlead : Blank lead) (hname : KeyText name keys last) (before piece : Text) :
    trim (lead ++ name ++ before ++ '=' :: piece) = name ++ before ++ '=' :: Text.trimEnd piece := by
  obtain ⟨c, tail, rfl, hc⟩ := hname.first
  have hline : lead ++ (c :: tail) ++ before ++ '=' :: piece = lead ++ c :: (tail ++ before ++ '=' :: piece) := by simp
  have hrest : c :: (tail ++ before ++ '=' :: piece) = (c :: tail ++ before) ++ '=' :: piece := rfl
  rw [hline, Text.trim_between hlead.isWhitespace hc.visible, hrest, Text.trimEnd_visible (by decide : Visible '=')]

theorem trim_name (hname : KeyText name keys last) (hbefore : Blank before) : trim (name ++ before) = name := by
  obtain ⟨c, tail, hfirst, hc⟩ := hname.first
  obtain ⟨start, d, hlast, hd⟩ := hname.last
  have hstart : Text.trimStart (name ++ before) = name ++ before := by
    rw [hfirst, List.cons_append, Text.trimStart_cons hc.visible]
  rw [trim, hstart, hlast, List.append_assoc, List.singleton_append, Text.trimEnd_visible hd.visible,
    Text.trimEnd_white hbefore.isWhitespace]

theorem scanLine_keyval (hname : KeyText name keys last) (hbefore : Blank before) (hkey : IsBareKey key) (value : Text) :
    scanLine key (name ++ before ++ '=' :: value) = if name = key then .found value else .passed := by
  have hvisible : startsWith '[' (name ++ before ++ '=' :: value) = false ∧
      startsWith '#' (name ++ before ++ '=' :: value) = false ∧ (name ++ before ++ '=' :: value).isEmpty = false := by
    obtain ⟨c, tail, rfl, hc⟩ := hname.first
    have hne : c ≠ '[' ∧ c ≠ '#' := by
      rcases hc with hc | rfl | rfl
      · exact ⟨ne_of_isBareKeyChar (by decide) hc, ne_of_isBareKeyChar (by decide) hc⟩
      · decide
      · decide
    simp [startsWith, hne.1, hne.2]
  rw [scanLine, hvisible.1, hvisible.2.1, hvisible.2.2]
  simp only [Bool.false_eq_true, if_false, Bool.or_self]
  by_cases hmem : '=' ∈ name
  · obtain ⟨start, more, htext, hstart⟩ := List.eq_append_cons_of_mem hmem
    have hsplit : splitOnce '=' (name ++ before ++ '=' :: value) = some (start, more ++ before ++ '=' :: value) := by
      rw [htext]
      have happend := splitOnce_append hstart (more ++ before ++ '=' :: value)
      simpa using happend
    have hnotBare : name ≠ key := by
      rintro rfl
      exact absurd (hkey.2 _ hmem) (by decide)
    have hquote : trim start ≠ key := by
      rintro rfl
      rcases hname.quotesEquals start more htext with h | h
      · exact absurd (hkey.2 _ (Text.mem_trim (by decide) h)) (by decide)
      · exact absurd (hkey.2 _ (Text.mem_trim (by decide) h)) (by decide)
    rw [hsplit, if_neg hnotBare]
    exact if_neg hquote
  · have hnot : '=' ∉ name ++ before := by
      rw [List.mem_append, not_or]
      exact ⟨hmem, hbefore.not_mem_equals⟩
    rw [splitOnce_append hnot]
    simp only
    rw [trim_name hname hbefore]

theorem lines_keyval (hlead : Blank lead) (hname : KeyText name keys last) (hbefore : Blank before) (rest : Text) :
    ∃ piece pieces, Text.splitInclusive (rest ++ ['\n']) = piece :: pieces ∧
      trimmedLines (lead ++ name ++ before ++ '=' :: rest ++ ['\n']) =
        (name ++ before ++ '=' :: Text.trimEnd piece) :: pieces.map trim := by
  have hline : '\n' ∉ lead ++ name ++ before ++ ['='] := by
    simp only [List.mem_append, List.mem_singleton, not_or]
    exact ⟨⟨⟨hlead.newline_not_mem, hname.newline_not_mem⟩, hbefore.newline_not_mem⟩, by decide⟩
  obtain ⟨piece, pieces, hsplit, hlines⟩ := Text.trimmedLines_before hline rest
  refine ⟨piece, pieces, hsplit, ?_⟩
  have htext : lead ++ name ++ before ++ '=' :: rest ++ ['\n'] = lead ++ name ++ before ++ ['='] ++ rest ++ ['\n'] := by simp
  have htrim : trim (lead ++ name ++ before ++ ['='] ++ piece) = name ++ before ++ '=' :: Text.trimEnd piece := by
    rw [← trim_keyval hlead hname before piece]
    simp
  rw [htext, hlines, htrim]

theorem lines_header (hlead : Blank lead) (rest : Text) :
    ∃ first more, trimmedLines (lead ++ '[' :: rest ++ ['\n']) = first :: more ∧ scanLine key first = .stopped := by
  have hline : '\n' ∉ lead ++ ['['] := by
    rw [List.mem_append, List.mem_singleton, not_or]
    exact ⟨hlead.newline_not_mem, by decide⟩
  obtain ⟨piece, pieces, -, hlines⟩ := Text.trimmedLines_before hline rest
  have htext : lead ++ '[' :: rest ++ ['\n'] = lead ++ ['['] ++ rest ++ ['\n'] := by simp
  have hopen : Visible '[' := by decide
  have htrim : trim (lead ++ ['['] ++ piece) = '[' :: Text.trimEnd piece := by
    have hend := Text.trimEnd_visible hopen [] piece
    rw [List.append_assoc, List.singleton_append, Text.trim_between hlead.isWhitespace hopen]
    exact hend
  refine ⟨_, _, htext ▸ hlines, ?_⟩
  rw [htrim, scanLine, if_pos]
  exact rfl

theorem scanLine_blank {comment : Text} (hlead : Blank lead) (hcomment : Comment comment) :
    scanLine key (trim (lead ++ comment)) = .passed := by
  cases hcomment with
  | none =>
    rw [List.append_nil, Text.trim_white hlead.isWhitespace]
    rfl
  | @some text h =>
    have hend := Text.trimEnd_visible (by decide : Visible '#') [] text
    rw [List.nil_append] at hend
    rw [Text.trim_between hlead.isWhitespace (by decide), hend]
    rfl

end Lines

/-! ## Expressions that are read as they are meant -/

def expressionLines (expression : Expression) : List Text := trimmedLines (expression.text ++ ['\n'])

def Spells (key text : Text) : Prop :=
  ∃ lead before rest, Blank lead ∧ Blank before ∧ text = lead ++ key ++ before ++ '=' :: rest

/-- A key with a string in one line, which has nothing to unescape and nothing behind it. -/
def PlainString (key value text : Text) : Prop :=
  ∃ lead before after trail quote, Blank lead ∧ Blank before ∧ Blank after ∧ Blank trail ∧ (quote = '"' ∨ quote = '\'') ∧
    '\n' ∉ value ∧ text = lead ++ key ++ before ++ '=' :: (after ++ quote :: value ++ quote :: trail)

def GivesString (key : Text) (statement : Statement) : Prop :=
  ∃ value, statement = .keyval [] key (.scalar (.string value))

def rootExpressions (expressions : List Expression) : List Expression :=
  expressions.takeWhile fun expression => expression.statement.isRoot

/-- A root key is found where it is given, if it is given as a plain string, and is not found elsewhere. The first line is
not taken for what it is if a byte order mark stands before it. -/
inductive ReadsRootKey (key : Text) : Bool → List Expression → Prop where
  | nil {marked : Bool} : ReadsRootKey key marked []
  | header {expression : Expression} {expressions : List Expression} (h : expression.statement.isRoot = false) :
      ReadsRootKey key false (expression :: expressions)
  | plain {expression : Expression} {expressions : List Expression} {value : Text}
      (hstatement : expression.statement = .keyval [] key (.scalar (.string value)))
      (h : PlainString key value expression.text) : ReadsRootKey key false (expression :: expressions)
  | passed {marked : Bool} {expression : Expression} {expressions : List Expression}
      (hroot : expression.statement.isRoot = true) (hgives : ¬GivesString key expression.statement)
      (hspells : marked = false → ¬Spells key expression.text)
      (hlines : ∀ line ∈ (expressionLines expression).tail, PassedOver key line)
      (hrest : ReadsRootKey key false expressions) : ReadsRootKey key marked (expression :: expressions)
  | stopped {marked : Bool} {expression : Expression} {expressions : List Expression}
      (hroot : expression.statement.isRoot = true) (hspells : marked = false → ¬Spells key expression.text)
      (hlines : StopsAtHeader key (expressionLines expression).tail)
      (hrest : ∀ other ∈ rootExpressions (expression :: expressions), ¬GivesString key other.statement) :
      ReadsRootKey key marked (expression :: expressions)
  | markedHeader {expression : Expression} {expressions : List Expression} (h : expression.statement.isRoot = false)
      (hlines : (∀ line ∈ (expressionLines expression).tail ++ expressions.flatMap expressionLines, PassedOver key line) ∨
        StopsAtHeader key ((expressionLines expression).tail ++ expressions.flatMap expressionLines)) :
      ReadsRootKey key true (expression :: expressions)

section Expressions

variable {bare : Text → Scalar → Prop} {key value text : Text} {expression : Expression} {expressions : List Expression}

theorem tail_of_lines {first : Text} {more : List Text} (h : expressionLines expression = first :: more) :
    expressionLines expression = first :: (expressionLines expression).tail := by
  rw [h]
  rfl

/-- The first line of an expression stops the scan at a header, and is passed if the key is not spelled there. -/
theorem expressionLines_cases (h : ExpressionText bare expression.text expression.statement) (hkey : IsBareKey key) :
    ∃ first, expressionLines expression = first :: (expressionLines expression).tail ∧
      (expression.statement.isRoot = false → scanLine key first = .stopped) ∧
      (expression.statement.isRoot = true → ¬Spells key expression.text → scanLine key first = .passed) := by
  generalize hstatement : expression.statement = statement at h
  generalize htext : expression.text = text at h
  cases h with
  | @blank lead comment hlead hcomment =>
    have hlines : expressionLines expression = [trim (lead ++ comment)] := by
      rw [expressionLines, htext]
      apply Text.trimmedLines_line
      rw [List.mem_append, not_or]
      exact ⟨hlead.newline_not_mem, hcomment.newline_not_mem⟩
    refine ⟨_, tail_of_lines hlines, (fun hroot => by cases hroot), fun _ _ => ?_⟩
    rw [scanLine_blank hlead hcomment]
  | @keyval lead _ comment _ hlead hkeyval hcomment =>
    cases hkeyval with
    | @keyval name before after value trail last keys item hname hbefore hafter hvalue htrail =>
      obtain ⟨piece, pieces, -, hlines⟩ := lines_keyval hlead hname hbefore (after ++ value ++ trail ++ comment)
      have htext' : lead ++ (name ++ before ++ '=' :: after ++ value ++ trail) ++ comment =
          lead ++ name ++ before ++ '=' :: (after ++ value ++ trail ++ comment) := by simp
      have hexpression : expressionLines expression =
          (name ++ before ++ '=' :: Text.trimEnd piece) :: pieces.map trim := by
        rw [expressionLines, htext, htext', hlines]
      refine ⟨_, tail_of_lines hexpression, (fun hroot => by cases hroot), fun _ hspells => ?_⟩
      rw [scanLine_keyval hname hbefore hkey, if_neg]
      rintro rfl
      exact hspells ⟨lead, before, _, hlead, hbefore, htext'⟩
  | @table lead before name after trail comment last keys hlead =>
    have htext' : lead ++ '[' :: before ++ name ++ after ++ ']' :: trail ++ comment =
        lead ++ '[' :: (before ++ name ++ after ++ ']' :: trail ++ comment) := by simp
    obtain ⟨first, more, hlines, hscan⟩ := @lines_header lead key hlead (before ++ name ++ after ++ ']' :: trail ++ comment)
    have hexpression : expressionLines expression = first :: more := by rw [expressionLines, htext, htext', hlines]
    exact ⟨_, tail_of_lines hexpression, fun _ => hscan, fun hroot => by cases hroot⟩
  | @arrayTable lead before name after trail comment last keys hlead =>
    have htext' : lead ++ '[' :: '[' :: before ++ name ++ after ++ ']' :: ']' :: trail ++ comment =
        lead ++ '[' :: ('[' :: before ++ name ++ after ++ ']' :: ']' :: trail ++ comment) := by simp
    obtain ⟨first, more, hlines, hscan⟩ :=
      @lines_header lead key hlead ('[' :: before ++ name ++ after ++ ']' :: ']' :: trail ++ comment)
    have hexpression : expressionLines expression = first :: more := by rw [expressionLines, htext, htext', hlines]
    exact ⟨_, tail_of_lines hexpression, fun _ => hscan, fun hroot => by cases hroot⟩

theorem lines_spelled (hkey : IsBareKey key) (h : Spells key expression.text) :
    ∃ piece lead before rest, Blank lead ∧ Blank before ∧ expression.text = lead ++ key ++ before ++ '=' :: rest ∧
      (∃ pieces, Text.splitInclusive (rest ++ ['\n']) = piece :: pieces) ∧
      ∃ first, expressionLines expression = first :: (expressionLines expression).tail ∧
        scanLine key first = .found (Text.trimEnd piece) := by
  obtain ⟨lead, before, rest, hlead, hbefore, htext⟩ := h
  have hname : KeyText key [] key := .single (.bare hkey)
  obtain ⟨piece, pieces, hsplit, hlines⟩ := lines_keyval hlead hname hbefore rest
  have hexpression : expressionLines expression = (key ++ before ++ '=' :: Text.trimEnd piece) :: pieces.map trim := by
    rw [expressionLines, htext, hlines]
  refine ⟨piece, lead, before, rest, hlead, hbefore, htext, ⟨pieces, hsplit⟩, _, tail_of_lines hexpression, ?_⟩
  rw [scanLine_keyval hname hbefore hkey, if_pos rfl]

theorem not_spells {first : Text} (hkey : IsBareKey key) (hfirst : (expressionLines expression).head? = some first)
    (hpassed : scanLine key first = .passed) : ¬Spells key expression.text := by
  intro hspells
  obtain ⟨_, _, _, _, -, -, -, -, other, hlines, hfound⟩ := lines_spelled hkey hspells
  rw [hlines, List.head?_cons, Option.some.injEq] at hfirst
  rw [hfirst, hpassed] at hfound
  cases hfound

/-! ## Unquoting -/

theorem stripQuotes_quoted (quote : Char) (value : Text) : stripQuotes quote (quote :: value ++ [quote]) = some value := by
  simp [stripQuotes]

variable {quote : Char} {mark : Text} {marked : Bool} {doc : Table}

theorem stripQuotes_ne {c : Char} (h : c ≠ quote) (rest : Text) : stripQuotes quote (c :: rest) = none := by
  rw [stripQuotes, if_neg]
  exact fun hboth => h hboth.1

theorem unquote_quoted (hquote : quote = '"' ∨ quote = '\'') (h : trim text = quote :: value ++ [quote]) :
    unquoteTomlString text = value := by
  rw [unquoteTomlString, h]
  rcases hquote with rfl | rfl
  · rw [stripQuotes_quoted]
    rfl
  · rw [List.cons_append, stripQuotes_ne (by decide), ← List.cons_append, stripQuotes_quoted]
    rfl

theorem length_stripQuotes (h : stripQuotes quote text = some value) : value.length + 2 = text.length := by
  cases text with
  | nil => cases h
  | cons c rest =>
    rw [stripQuotes] at h
    split_ifs at h with hquote
    cases h
    have hne : rest ≠ [] := by
      rintro rfl
      cases hquote.2
    have hpos := List.length_pos_iff.mpr hne
    rw [List.length_dropLast, List.length_cons]
    omega

theorem length_unquote (text : Text) : (trim text).length ≤ (unquoteTomlString text).length + 2 := by
  rw [unquoteTomlString]
  cases hdouble : stripQuotes '"' (trim text) with
  | some value => exact (length_stripQuotes hdouble).ge
  | none =>
    cases hsingle : stripQuotes '\'' (trim text) with
    | some value => exact (length_stripQuotes hsingle).ge
    | none => exact Nat.le_add_right _ 2

theorem scan_plain (hkey : IsBareKey key) (h : PlainString key value expression.text) :
    ∃ first found, expressionLines expression = first :: (expressionLines expression).tail ∧
      scanLine key first = .found found ∧ unquoteTomlString found = value := by
  obtain ⟨lead, before, after, trail, quote, hlead, hbefore, hafter, htrail, hquote, hline, htext⟩ := h
  have hname : KeyText key [] key := .single (.bare hkey)
  obtain ⟨piece, pieces, hsplit, hlines⟩ :=
    lines_keyval hlead hname hbefore (after ++ quote :: value ++ quote :: trail)
  have hexpression : expressionLines expression = (key ++ before ++ '=' :: Text.trimEnd piece) :: pieces.map trim := by
    rw [expressionLines, htext, hlines]
  refine ⟨_, Text.trimEnd piece, tail_of_lines hexpression, ?_, ?_⟩
  · rw [scanLine_keyval hname hbefore hkey, if_pos rfl]
  · have hnewline : '\n' ∉ after ++ quote :: value ++ quote :: trail := by
      have hquoteLine : '\n' ≠ quote := by rcases hquote with rfl | rfl <;> decide
      simp only [List.append_assoc, List.cons_append, List.mem_append, List.mem_cons, not_or]
      exact ⟨hafter.newline_not_mem, hquoteLine, hline, hquoteLine, htrail.newline_not_mem⟩
    have hpiece : piece = after ++ quote :: value ++ quote :: trail ++ ['\n'] := by
      rw [Text.splitInclusive_before hnewline rfl] at hsplit
      exact (List.cons.inj hsplit).1.symm
    apply unquote_quoted hquote
    have hvisible : Visible quote := by rcases hquote with rfl | rfl <;> decide
    rw [Text.trim_trimEnd, hpiece, Text.trim_append_white (by decide),
      Text.trim_visible hafter.isWhitespace htrail.isWhitespace hvisible hvisible]

/-! ## Documents -/

theorem document_lines (h : DocumentText bare text expressions) :
    trimmedLines (text ++ ['\n']) = expressions.flatMap expressionLines := by
  induction h with
  | last h => rw [List.flatMap_singleton, expressionLines]
  | @line expression newline rest expressions h hnewline hrest ih =>
    have hlines : trimmedLines (expression.text ++ newline ++ rest ++ ['\n']) =
        trimmedLines (expression.text ++ '\n' :: (rest ++ ['\n'])) := by
      cases hnewline with
      | lf => simp
      | crlf =>
        have htext : expression.text ++ ['\r', '\n'] ++ rest ++ ['\n'] =
            expression.text ++ '\r' :: '\n' :: (rest ++ ['\n']) := by simp
        rw [htext, Text.trimmedLines_crlf]
    rw [hlines, Text.trimmedLines_append, ih, List.flatMap_cons, expressionLines]

def Marks (mark : Text) : Prop := ∀ c ∈ mark, c = '\uFEFF'

/-- The lines of a document that are looked at: a line behind a byte order mark is no header and has no key. -/
def seenLines (marked : Bool) (expressions : List Expression) : List Text :=
  if marked then (expressions.flatMap expressionLines).tail else expressions.flatMap expressionLines

theorem scanLine_marked (hmark : Marks mark) (hne : mark ≠ []) (hkey : IsBareKey key) (piece : Text) :
    scanLine key (trim (mark ++ piece)) = .passed := by
  have hvisible : Visible '\uFEFF' := by decide
  cases mark with
  | nil => exact absurd rfl hne
  | cons c mark =>
    obtain rfl := hmark c List.mem_cons_self
    have htrim : trim ('\uFEFF' :: mark ++ piece) = '\uFEFF' :: Text.trimEnd (mark ++ piece) := by
      have hend := Text.trimEnd_visible hvisible [] (mark ++ piece)
      rw [trim, List.cons_append, Text.trimStart_cons hvisible]
      exact hend
    rw [htrim, scanLine]
    have hstart : startsWith '[' ('\uFEFF' :: Text.trimEnd (mark ++ piece)) = false ∧
        startsWith '#' ('\uFEFF' :: Text.trimEnd (mark ++ piece)) = false := by simp [startsWith]
    rw [hstart.1, hstart.2, splitOnce, if_neg (by decide : '\uFEFF' ≠ '=')]
    cases splitOnce '=' (Text.trimEnd (mark ++ piece)) with
    | none => rfl
    | some parts =>
      have hname : trim ('\uFEFF' :: parts.1) ≠ key := by
        rintro rfl
        exact absurd (hkey.2 _ (Text.mem_trim hvisible List.mem_cons_self)) (by decide)
      simp only [Option.map_some, Bool.false_eq_true, if_false, Bool.or_self, List.isEmpty_cons, if_neg hname]

theorem scan_document (h : DocumentText bare text expressions) (hmark : Marks mark) (hkey : IsBareKey key) :
    scanLines key (trimmedLines (mark ++ text)) = scanLines key (seenLines (!mark.isEmpty) expressions) := by
  have hlines := document_lines h
  rw [← scanLines_last]
  cases hmarked : mark.isEmpty with
  | true =>
    rw [List.isEmpty_iff.mp hmarked, List.nil_append, hlines]
    rfl
  | false =>
    have hne : mark ≠ [] := by
      rintro rfl
      cases hmarked
    have hnewline : '\n' ∉ mark := fun hmem => absurd (hmark _ hmem) (by decide)
    obtain ⟨piece, pieces, hsplit, hbefore⟩ := Text.trimmedLines_before hnewline text
    rw [hbefore, scanLines_cons_passed (scanLine_marked hmark hne hkey piece)]
    rw [Text.trimmedLines_eq, hsplit, List.map_cons] at hlines
    simp only [seenLines, Bool.not_false, if_true]
    rw [← hlines, List.tail_cons]

theorem flatMap_lines_cons {first : Text} (hlines : expressionLines expression = first :: (expressionLines expression).tail)
    (marked : Bool) : seenLines marked (expression :: expressions) =
      (if marked then [] else [first]) ++ ((expressionLines expression).tail ++ expressions.flatMap expressionLines) := by
  rw [seenLines, List.flatMap_cons, hlines]
  cases marked <;> rfl

/-- The key is found with its string, or it is not found and no string is given to it. -/
def ReadsString (key : Text) (scan : Scan) (expressions : List Expression) : Prop :=
  (∃ found value, scan = .found found ∧ unquoteTomlString found = value ∧
      ∃ expression ∈ rootExpressions expressions, expression.statement = .keyval [] key (.scalar (.string value))) ∨
    ((∀ found, scan ≠ .found found) ∧ ∀ expression ∈ rootExpressions expressions, ¬GivesString key expression.statement)

theorem rootExpressions_cons (hroot : expression.statement.isRoot = true) (expressions : List Expression) :
    rootExpressions (expression :: expressions) = expression :: rootExpressions expressions :=
  List.takeWhile_cons_of_pos hroot

theorem rootExpressions_header (hroot : expression.statement.isRoot = false) (expressions : List Expression) :
    rootExpressions (expression :: expressions) = [] :=
  List.takeWhile_cons_of_neg (by simp [hroot])

/-- The first line of a root expression is passed where it is not seen, or where the key is not spelled. -/
theorem scan_passed (h : ExpressionText bare expression.text expression.statement) (hkey : IsBareKey key)
    (hroot : expression.statement.isRoot = true) (hspells : marked = false → ¬Spells key expression.text) :
    scanLines key (seenLines marked (expression :: expressions)) =
      scanLines key ((expressionLines expression).tail ++ expressions.flatMap expressionLines) := by
  obtain ⟨first, hlines, -, hpassed⟩ := expressionLines_cases h hkey
  rw [flatMap_lines_cons hlines]
  cases marked with
  | true => rfl
  | false =>
    rw [if_neg Bool.false_ne_true]
    exact scanLines_cons_passed (hpassed hroot (hspells rfl))

theorem ReadsRootKey.readsString (h : ReadsRootKey key marked expressions) (hkey : IsBareKey key)
    (hexpressions : ∀ expression ∈ expressions, ExpressionText bare expression.text expression.statement) :
    ReadsString key (scanLines key (seenLines marked expressions)) expressions := by
  induction h with
  | nil =>
    refine .inr ⟨fun found hfound => ?_, fun expression hmem => by cases hmem⟩
    rename_i marked
    cases marked <;> cases hfound
  | @header expression expressions hheader =>
    obtain ⟨first, hlines, hstopped, -⟩ := expressionLines_cases (hexpressions _ List.mem_cons_self) hkey
    refine .inr ⟨fun found hfound => ?_, fun other hmem => ?_⟩
    · rw [flatMap_lines_cons hlines, if_neg Bool.false_ne_true, List.singleton_append, scanLines, hstopped hheader] at hfound
      cases hfound
    · rw [rootExpressions_header hheader] at hmem
      cases hmem
  | @plain expression expressions value hstatement hplain =>
    obtain ⟨first, found, hlines, hfound, hunquote⟩ := scan_plain hkey hplain
    refine .inl ⟨found, value, ?_, hunquote, expression, ?_, hstatement⟩
    · rw [flatMap_lines_cons hlines, if_neg Bool.false_ne_true, List.singleton_append, scanLines, hfound]
    · rw [rootExpressions_cons (by rw [hstatement]; rfl)]
      exact List.mem_cons_self
  | @passed marked expression expressions hroot hgives hspells hlines hrest ih =>
    have htext := hexpressions _ List.mem_cons_self
    rw [scan_passed htext hkey hroot hspells, scanLines_append_passed (scanLines_passed_iff.mpr hlines)]
    rcases ih fun other hmem => hexpressions other (List.mem_cons_of_mem expression hmem) with hread | ⟨hnone, hnot⟩
    · obtain ⟨found, value, hfound, hunquote, other, hmem, hstatement⟩ := hread
      refine .inl ⟨found, value, hfound, hunquote, other, ?_, hstatement⟩
      rw [rootExpressions_cons hroot]
      exact List.mem_cons_of_mem expression hmem
    · refine .inr ⟨hnone, fun other hmem => ?_⟩
      rw [rootExpressions_cons hroot] at hmem
      rcases List.mem_cons.mp hmem with rfl | hmem
      · exact hgives
      · exact hnot other hmem
  | @stopped marked expression expressions hroot hspells hlines hrest =>
    have htext := hexpressions _ List.mem_cons_self
    have hstopped := scanLines_stopped hlines
    have hne : scanLines key (expressionLines expression).tail ≠ .passed := by
      rw [hstopped]
      exact fun h => by cases h
    refine .inr ⟨fun found hfound => ?_, hrest⟩
    rw [scan_passed htext hkey hroot hspells, scanLines_append_of_ne hne, hstopped] at hfound
    cases hfound
  | @markedHeader expression expressions hheader hlines =>
    obtain ⟨first, hfirst, -⟩ := expressionLines_cases (hexpressions _ List.mem_cons_self) hkey
    refine .inr ⟨fun found hfound => ?_, fun other hmem => ?_⟩
    · rw [flatMap_lines_cons hfirst, if_pos rfl, List.nil_append] at hfound
      rcases hlines with hpassed | hstopped
      · rw [scanLines_passed_iff.mpr hpassed] at hfound
        cases hfound
      · rw [scanLines_stopped hstopped] at hfound
        cases hfound
    · rw [rootExpressions_header hheader] at hmem
      cases hmem

/-! ## Agreement with TOML -/

def AgreesAtRoot (contents key : Text) (doc : Table) : Prop :=
  ∀ value, rootKeyString contents key = some value ↔ Entries.lookup key doc = some (.scalar (.string value))

theorem rootStatements_eq (expressions : List Expression) :
    (expressions.map (·.statement)).takeWhile Statement.isRoot = (rootExpressions expressions).map (·.statement) := by
  rw [List.takeWhile_map]
  rfl

theorem expressionText_of_mem (h : DocumentText bare text expressions) :
    ∀ expression ∈ expressions, ExpressionText bare expression.text expression.statement := by
  induction h with
  | last h =>
    intro expression hmem
    rwa [List.mem_singleton.mp hmem]
  | line h _ _ ih =>
    intro expression hmem
    rcases List.mem_cons.mp hmem with rfl | hrest
    · exact h
    · exact ih expression hrest

theorem lookup_string_iff (h : Reads bare text expressions doc) (key value : Text) :
    Entries.lookup key doc = some (.scalar (.string value)) ↔
      ∃ expression ∈ rootExpressions expressions, expression.statement = .keyval [] key (.scalar (.string value)) := by
  obtain ⟨-, draft, hbuild, hdenotes⟩ := h
  rw [hdenotes.scalar_iff hbuild, rootStatements_eq, List.mem_map]

theorem rootKeyString_eq (h : Reads bare text expressions doc) (hmark : Marks mark) (hkey : IsBareKey key) :
    rootKeyString (mark ++ text) key =
      (scanLines key (seenLines (!mark.isEmpty) expressions)).value.map unquoteTomlString := by
  rw [rootKeyString, rootKeyValue_eq, scan_document h.1 hmark hkey]

theorem agrees_of_reads (hread : Reads bare text expressions doc) (hmark : Marks mark) (hkey : IsBareKey key)
    (h : ReadsRootKey key (!mark.isEmpty) expressions) : AgreesAtRoot (mark ++ text) key doc := by
  intro value
  rw [rootKeyString_eq hread hmark hkey]
  rcases h.readsString hkey (expressionText_of_mem hread.1) with
    ⟨found, given, hfound, hunquote, hgiven⟩ | ⟨hnone, hnot⟩
  · have hlookup := (lookup_string_iff hread key given).mpr hgiven
    rw [hfound, hlookup]
    simp [Scan.value, hunquote]
  · rw [lookup_string_iff hread key value]
    constructor
    · intro hsome
      obtain ⟨found, hfound, -⟩ := Option.map_eq_some_iff.mp hsome
      cases hscan : scanLines key (seenLines (!mark.isEmpty) expressions) with
      | passed =>
        rw [hscan] at hfound
        cases hfound
      | stopped =>
        rw [hscan] at hfound
        cases hfound
      | found other => exact absurd hscan (hnone other)
    · rintro ⟨expression, hmem, hstatement⟩
      exact absurd ⟨value, hstatement⟩ (hnot expression hmem)

/-! ## Documents with one line for every root key -/

def OnOneLine (expressions : List Expression) : Prop := ∀ expression ∈ rootExpressions expressions, '\n' ∉ expression.text

theorem expressionLines_single (h : '\n' ∉ expression.text) : expressionLines expression = [trim expression.text] :=
  Text.trimmedLines_line h

theorem keyval_cases {keys : List Text} {last : Text} {item : Item} (h : ExpressionText bare text (.keyval keys last item)) :
    ∃ lead name before after value trail comment, Blank lead ∧ KeyText name keys last ∧ Blank before ∧ Blank after ∧
      ValueText bare value item ∧ Blank trail ∧ Comment comment ∧
      text = lead ++ name ++ before ++ '=' :: (after ++ value ++ trail ++ comment) := by
  cases h with
  | @keyval lead _ comment _ hlead hkeyval hcomment =>
    cases hkeyval with
    | @keyval name before after value trail _ _ _ hname hbefore hafter hvalue htrail =>
      exact ⟨lead, name, before, after, value, trail, comment, hlead, hname, hbefore, hafter, hvalue, htrail, hcomment,
        by simp⟩

/-- A string is written between visible characters, and is at most as long as what stands between its quotes. -/
theorem stringText_cases (h : StringText text value) :
    (∃ quote, (quote = '"' ∨ quote = '\'') ∧ ∃ raw, text = quote :: raw ++ [quote] ∧ value.length ≤ raw.length) ∧
      ((∃ quote, (quote = '"' ∨ quote = '\'') ∧ text = quote :: value ++ [quote]) ∨
        (∃ raw, text = '"' :: raw ++ ['"'] ∧ raw ≠ value) ∨ value.length + 6 ≤ text.length) := by
  cases h with
  | @basic raw _ h =>
    refine ⟨⟨'"', .inl rfl, raw, rfl, h.length_le⟩, ?_⟩
    by_cases hraw : raw = value
    · subst hraw
      exact .inl ⟨'"', .inl rfl, rfl⟩
    · exact .inr (.inl ⟨raw, rfl, hraw⟩)
  | literal h => exact ⟨⟨'\'', .inr rfl, value, rfl, le_rfl⟩, .inl ⟨'\'', .inr rfl, rfl⟩⟩
  | @multiBasic first raw _ hfirst h =>
    have hlength := h.length_le
    refine ⟨⟨'"', .inl rfl, '"' :: '"' :: first ++ raw ++ ['"', '"'], by simp, ?_⟩, .inr (.inr ?_)⟩
    · simp only [List.length_append, List.length_cons]
      omega
    · simp only [List.length_append, List.length_cons, List.length_nil]
      omega
  | @multiLiteral first raw _ hfirst h =>
    have hlength := h.length_le
    refine ⟨⟨'\'', .inr rfl, '\'' :: '\'' :: first ++ raw ++ ['\'', '\''], by simp, ?_⟩, .inr (.inr ?_)⟩
    · simp only [List.length_append, List.length_cons]
      omega
    · simp only [List.length_append, List.length_cons, List.length_nil]
      omega

theorem plain_of_unquote {raw after trail comment : Text} (h : StringText raw value) (hafter : Blank after)
    (htrail : Blank trail) (hcomment : Comment comment)
    (hunquote : unquoteTomlString (after ++ raw ++ trail ++ comment) = value) :
    comment = [] ∧ ∃ quote, (quote = '"' ∨ quote = '\'') ∧ raw = quote :: value ++ [quote] := by
  obtain ⟨⟨quote, hquote, inner, hinner, hlength⟩, hcases⟩ := stringText_cases h
  have hvisible : Visible quote := by rcases hquote with rfl | rfl <;> decide
  have hbound := length_unquote (after ++ raw ++ trail ++ comment)
  rw [hunquote] at hbound
  cases hcomment with
  | none =>
    have htrim : trim (after ++ raw ++ trail ++ []) = raw := by
      have htext : after ++ raw ++ trail ++ [] = after ++ quote :: inner ++ quote :: trail := by
        rw [hinner]
        simp
      rw [htext, Text.trim_visible hafter.isWhitespace htrail.isWhitespace hvisible hvisible, hinner]
    refine ⟨rfl, ?_⟩
    rcases hcases with hplain | ⟨escaped, hescaped, hne⟩ | hlong
    · exact hplain
    · have hsame := unquote_quoted (.inl rfl) (htrim.trans hescaped)
      rw [hunquote] at hsame
      exact absurd hsame.symm hne
    · rw [htrim] at hbound
      omega
  | @some comment hcomment =>
    have htrim : trim (after ++ raw ++ trail ++ '#' :: comment) = raw ++ trail ++ '#' :: Text.trimEnd comment := by
      have htext : after ++ raw ++ trail ++ '#' :: comment =
          after ++ quote :: (inner ++ [quote] ++ trail ++ '#' :: comment) := by
        rw [hinner]
        simp
      have hcons : quote :: (inner ++ [quote] ++ trail ++ '#' :: comment) = (raw ++ trail) ++ '#' :: comment := by
        rw [hinner]
        simp
      rw [htext, Text.trim_between hafter.isWhitespace hvisible, hcons, Text.trimEnd_visible (by decide)]
    rw [htrim, hinner] at hbound
    simp only [List.length_append, List.length_cons, List.length_nil] at hbound
    omega

/-- A root expression of one line is found if its key is spelled there, and then gives a value to the key. -/
theorem oneLine_cases (h : ExpressionText bare expression.text expression.statement) (hkey : IsBareKey key)
    (hline : '\n' ∉ expression.text) (hroot : expression.statement.isRoot = true) :
    (scanLines key (expressionLines expression) = .passed ∧ ¬Spells key expression.text) ∨
      ∃ item found, expression.statement = .keyval [] key item ∧ scanLines key (expressionLines expression) = .found found ∧
        (BareValues bare → ∀ value, item = .scalar (.string value) → unquoteTomlString found = value →
          PlainString key value expression.text) := by
  have hlines := expressionLines_single hline
  by_cases hspells : Spells key expression.text
  · right
    obtain ⟨_, _, _, _, -, -, -, -, first, hfirst, hfound⟩ := lines_spelled hkey hspells
    cases hstatement : expression.statement with
    | table parents last =>
      rw [hstatement] at hroot
      cases hroot
    | arrayTable parents last =>
      rw [hstatement] at hroot
      cases hroot
    | blank =>
      rw [hstatement] at h
      generalize htext : expression.text = text at h
      cases h with
      | blank hlead hcomment =>
        rw [hlines, htext] at hfirst
        rw [← (List.cons.inj hfirst).1, scanLine_blank hlead hcomment] at hfound
        cases hfound
      | keyval hlead hkeyval => cases hkeyval
    | keyval keys last item =>
      rw [hstatement] at h
      obtain ⟨lead, name, before, after, raw, trail, comment, hlead, hname, hbefore, hafter, hvalue, htrail, hcomment, htext⟩ :=
        keyval_cases h
      have htrim := trim_keyval hlead hname before (after ++ raw ++ trail ++ comment)
      rw [← htext] at htrim
      rw [hlines, htrim] at hfirst
      rw [← (List.cons.inj hfirst).1, scanLine_keyval hname hbefore hkey] at hfound
      split_ifs at hfound with hspelled
      subst hspelled
      obtain ⟨rfl, rfl⟩ := hname.of_bare hkey
      refine ⟨item, Text.trimEnd (after ++ raw ++ trail ++ comment), rfl, ?_, fun laws value hitem hunquote => ?_⟩
      · rw [hlines, htrim, scanLines, scanLine_keyval hname hbefore hkey, if_pos rfl]
      · subst hitem
        have hstring : StringText raw value := by
          cases hvalue with
          | string h => exact h
          | bare h => exact absurd h fun h => laws.not_string _ _ h
        have hunquote' : unquoteTomlString (after ++ raw ++ trail ++ comment) = value := by
          rw [unquoteTomlString, Text.trim_trimEnd] at hunquote
          exact hunquote
        obtain ⟨rfl, quote, hquote, hraw⟩ := plain_of_unquote hstring hafter htrail hcomment hunquote'
        have htext' : expression.text = lead ++ last ++ before ++ '=' :: (after ++ quote :: value ++ quote :: trail) := by
          rw [htext, hraw]
          simp
        refine ⟨lead, before, after, trail, quote, hlead, hbefore, hafter, htrail, hquote, fun hmem => hline ?_, htext'⟩
        rw [htext']
        simp [hmem]
  · left
    obtain ⟨first, hfirst, -, hpassed⟩ := expressionLines_cases h hkey
    refine ⟨?_, hspells⟩
    rw [hlines, List.tail_cons] at hfirst
    rw [hlines, scanLines, (List.cons.inj hfirst).1, hpassed hroot hspells]
    rfl

theorem gives_of_found {found : Text} (hexpressions : ∀ expression ∈ expressions, ExpressionText bare expression.text expression.statement)
    (hkey : IsBareKey key) (hlines : OnOneLine expressions)
    (h : scanLines key (expressions.flatMap expressionLines) = .found found) :
    ∃ expression ∈ rootExpressions expressions, expression.statement.Gives key := by
  induction expressions with
  | nil => cases h
  | cons expression expressions ih =>
    have htext := hexpressions expression List.mem_cons_self
    rw [List.flatMap_cons] at h
    cases hroot : expression.statement.isRoot with
    | false =>
      obtain ⟨first, hfirst, hstopped, -⟩ := expressionLines_cases htext hkey
      rw [hfirst, List.cons_append, scanLines, hstopped hroot] at h
      cases h
    | true =>
      have hmem : expression ∈ rootExpressions (expression :: expressions) := by
        rw [rootExpressions_cons hroot]
        exact List.mem_cons_self
      rcases oneLine_cases htext hkey (hlines expression hmem) hroot with ⟨hpassed, -⟩ | ⟨item, -, hstatement, -⟩
      · rw [scanLines_append_passed hpassed] at h
        have hrest : OnOneLine expressions := fun other hother => hlines other (by
          rw [rootExpressions_cons hroot]
          exact List.mem_cons_of_mem expression hother)
        obtain ⟨other, hother, hgives⟩ := ih (fun other hother => hexpressions other (List.mem_cons_of_mem expression hother)) hrest h
        refine ⟨other, ?_, hgives⟩
        rw [rootExpressions_cons hroot]
        exact List.mem_cons_of_mem expression hother
      · exact ⟨expression, hmem, item, hstatement⟩

def FindsString (key : Text) (scan : Scan) (expressions : List Expression) : Prop :=
  ∀ value, scan.value.map unquoteTomlString = some value ↔
    ∃ expression ∈ rootExpressions expressions, expression.statement = .keyval [] key (.scalar (.string value))

theorem Scan.eq_found {scan : Scan} {value : Text} (h : scan.value.map unquoteTomlString = some value) :
    ∃ found, scan = .found found := by
  cases scan with
  | found found => exact ⟨found, rfl⟩
  | passed => cases h
  | stopped => cases h

theorem FindsString.rest {scan : Scan} (h : FindsString key scan (expression :: expressions))
    (hroot : expression.statement.isRoot = true) (hgives : ¬GivesString key expression.statement) :
    FindsString key scan expressions := by
  intro value
  rw [h value, rootExpressions_cons hroot]
  constructor
  · rintro ⟨other, hmem, hstatement⟩
    rcases List.mem_cons.mp hmem with rfl | hrest
    · exact absurd ⟨value, hstatement⟩ hgives
    · exact ⟨other, hrest, hstatement⟩
  · rintro ⟨other, hmem, hstatement⟩
    exact ⟨other, List.mem_cons_of_mem expression hmem, hstatement⟩

theorem readsRootKey_of_finds (laws : BareValues bare) (hkey : IsBareKey key)
    (hexpressions : ∀ expression ∈ expressions, ExpressionText bare expression.text expression.statement)
    (hlines : OnOneLine expressions)
    (honce : (rootExpressions expressions).Pairwise fun a b => ¬(a.statement.Gives key ∧ b.statement.Gives key))
    (h : FindsString key (scanLines key (seenLines marked expressions)) expressions) :
    ReadsRootKey key marked expressions := by
  induction expressions generalizing marked with
  | nil => exact .nil
  | cons expression expressions ih =>
    have htext := hexpressions expression List.mem_cons_self
    cases hroot : expression.statement.isRoot with
    | false =>
      cases marked with
      | false => exact .header hroot
      | true =>
        refine .markedHeader hroot (scanLines_cases fun found hfound => ?_)
        obtain ⟨first, hfirst, -⟩ := expressionLines_cases htext hkey
        rw [flatMap_lines_cons hfirst, if_pos rfl, List.nil_append, hfound] at h
        obtain ⟨other, hmem, -⟩ := (h (unquoteTomlString found)).mp rfl
        rw [rootExpressions_header hroot] at hmem
        cases hmem
    | true =>
      have hcons := rootExpressions_cons hroot expressions
      have hline : '\n' ∉ expression.text := hlines expression (hcons ▸ List.mem_cons_self)
      have hrestLines : OnOneLine expressions := fun other hother =>
        hlines other (hcons ▸ List.mem_cons_of_mem expression hother)
      have hrestTexts := fun other hother => hexpressions other (List.mem_cons_of_mem expression hother)
      rw [hcons] at honce
      obtain ⟨hfirstOnce, hrestOnce⟩ := List.pairwise_cons.mp honce
      have htail : ∀ line ∈ (expressionLines expression).tail, PassedOver key line := by
        rw [expressionLines_single hline]
        exact List.forall_mem_nil _
      -- an expression that is passed gives no string: it would be found in the rest, where the key is not given again
      have hpassed : (marked = false → ¬Spells key expression.text) → ReadsRootKey key marked (expression :: expressions) := by
        intro hspells
        rw [scan_passed htext hkey hroot hspells, scanLines_append_passed (scanLines_passed_iff.mpr htail)] at h
        have hgives : ¬GivesString key expression.statement := by
          rintro ⟨value, hstatement⟩
          obtain ⟨found, hfound⟩ := Scan.eq_found ((h value).mpr ⟨expression, hcons ▸ List.mem_cons_self, hstatement⟩)
          obtain ⟨other, hother, hgiven⟩ := gives_of_found hrestTexts hkey hrestLines hfound
          exact hfirstOnce other hother ⟨⟨_, hstatement⟩, hgiven⟩
        exact .passed hroot hgives hspells htail (ih hrestTexts hrestLines hrestOnce (h.rest hroot hgives))
      cases marked with
      | true => exact hpassed fun h => by cases h
      | false =>
        rcases oneLine_cases htext hkey hline hroot with ⟨-, hspells⟩ | ⟨item, found, hstatement, hfound, hplain⟩
        · exact hpassed fun _ => hspells
        · have hscan : scanLines key (seenLines false (expression :: expressions)) = .found found := by
            rw [seenLines, if_neg Bool.false_ne_true, List.flatMap_cons, scanLines_append_of_ne, hfound]
            rw [hfound]
            exact fun h => by cases h
          rw [hscan] at h
          obtain ⟨other, hmem, hother⟩ := (h (unquoteTomlString found)).mp rfl
          rw [hcons] at hmem
          rcases List.mem_cons.mp hmem with rfl | hrest
          · rw [hother] at hstatement
            have hitem : item = .scalar (.string (unquoteTomlString found)) := by
              cases hstatement
              rfl
            exact .plain hother (hplain laws _ hitem rfl)
          · exact absurd ⟨⟨item, hstatement⟩, ⟨_, hother⟩⟩ (hfirstOnce other hrest)

/-- Where no root value goes over several lines, the lookup agrees with TOML only if the key is found where it is given,
as a plain string, and not found elsewhere. -/
theorem reads_of_agrees (laws : BareValues bare) (hread : Reads bare text expressions doc) (hmark : Marks mark)
    (hkey : IsBareKey key) (hlines : OnOneLine expressions) (h : AgreesAtRoot (mark ++ text) key doc) :
    ReadsRootKey key (!mark.isEmpty) expressions := by
  apply readsRootKey_of_finds laws hkey (expressionText_of_mem hread.1) hlines
  · obtain ⟨draft, hbuild, -⟩ := hread.2
    have honce := build_once hbuild key
    rw [rootStatements_eq, List.pairwise_map] at honce
    exact honce
  · intro value
    have hvalue := h value
    rwa [rootKeyString_eq hread hmark hkey, lookup_string_iff hread] at hvalue

end Expressions

end Lumio.Config
