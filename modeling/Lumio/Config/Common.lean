import Lumio.Config.Lines
import Lumio.Lib.Toml

/-!
# The common configuration

A profile is applied with the common configuration merged into it, and read back with the common configuration taken off
again. Keys that belong to a provider are not common: they are taken off the common configuration before it is merged.
-/

namespace Lumio.Config

open Toml
open Text (trim)

/-- The crate `toml_edit`. A document is printed in some layout, with its comments and in an order of its own. -/
class TomlEdit where
  Layout : Type
  /-- `str::parse::<DocumentMut>`, of a text without the byte order marks before it -/
  fromStr : Text → Option Table
  /-- `DocumentMut::to_string` -/
  toText : Layout → Table → Text

open TomlEdit

/-! ## Merging -/

def withEntries (item : Item) (entries : Table) : Item :=
  match item with
  | .table _ => .table entries
  | .inlineTable _ => .inlineTable entries
  | item => item

mutual

def mergeTomlItem (target : Item) : Item → Item
  | .table entries =>
    match target.tableLike with
    | some targetEntries => withEntries target (mergeTomlTableLike target.isInline targetEntries entries)
    | none => .table entries
  | .inlineTable entries =>
    match target.tableLike with
    | some targetEntries => withEntries target (mergeTomlTableLike target.isInline targetEntries entries)
    | none => .inlineTable entries
  | .scalar value => .scalar value
  | .array items => .array items
  | .arrayOfTables tables => .arrayOfTables tables

/-- An item is put into an inline table as a value. -/
def mergeTomlTableLike (inline : Bool) (target : Table) : Table → Table
  | [] => target
  | (key, item) :: source =>
    match Entries.lookup key target with
    | some targetItem => mergeTomlTableLike inline (Entries.put key (mergeTomlItem targetItem item) target) source
    | none => mergeTomlTableLike inline (Entries.put key (if inline then intoValue item else item) target) source

end

/-! ## Removing -/

mutual

def tomlValueIsSubset (target : Item) : Item → Bool
  | .scalar value =>
    match target with
    | .scalar targetValue => targetValue.eq value
    | _ => false
  | .array items =>
    match target with
    | .array targetItems => tomlArrayContainsSubset targetItems items
    | _ => false
  | .inlineTable entries =>
    match target with
    | .inlineTable targetEntries => tomlTableContainsSubset targetEntries entries
    | _ => false
  | _ => false

/-- Every item is matched by another one of the target. -/
def tomlArrayContainsSubset (target : List Item) : List Item → Bool
  | [] => true
  | item :: items =>
    match target.findIdx? fun targetItem => tomlValueIsSubset targetItem item with
    | some index => tomlArrayContainsSubset (target.eraseIdx index) items
    | none => false

def tomlTableContainsSubset (target : Table) : Table → Bool
  | [] => true
  | (key, item) :: entries =>
    (match Entries.lookup key target with
      | some targetItem => tomlValueIsSubset targetItem item
      | none => false) &&
      tomlTableContainsSubset target entries

end

def tomlRemoveArrayItems (target : List Item) : List Item → List Item
  | [] => target
  | item :: items =>
    match target.findIdx? fun targetItem => tomlValueIsSubset targetItem item with
    | some index => tomlRemoveArrayItems (target.eraseIdx index) items
    | none => tomlRemoveArrayItems target items

/-- Takes a value off another one; `none` if nothing is left. -/
def removeTomlValue (target source : Item) : Option Item :=
  match target, source with
  | .array targetItems, .array items =>
    if (tomlRemoveArrayItems targetItems items).isEmpty then none
    else some (.array (tomlRemoveArrayItems targetItems items))
  | target, source => if tomlValueIsSubset target source then none else some target

/-- An entry is kept unless it is an empty table. -/
def keepItem (item : Option Item) : Option Item := item.filter fun item => !item.tableLike.any List.isEmpty

mutual

def removeTomlItem (target : Item) : Item → Option Item
  | .table entries =>
    match target.tableLike with
    | some targetEntries =>
      if (removeTomlTableLike targetEntries entries).isEmpty then none
      else some (withEntries target (removeTomlTableLike targetEntries entries))
    | none => some target
  | .inlineTable entries =>
    match target.tableLike with
    | some targetEntries =>
      if (removeTomlTableLike targetEntries entries).isEmpty then none
      else some (withEntries target (removeTomlTableLike targetEntries entries))
    | none => removeTomlValue target (.inlineTable entries)
  | .scalar value => removeTomlValue target (.scalar value)
  | .array items => removeTomlValue target (.array items)
  | .arrayOfTables _ => some target

def removeTomlTableLike (target : Table) : Table → Table
  | [] => target
  | (key, item) :: source =>
    match Entries.lookup key target with
    | some targetItem =>
      match keepItem (removeTomlItem targetItem item) with
      | some next => removeTomlTableLike (Entries.put key next target) source
      | none => removeTomlTableLike (Entries.erase key target) source
    | none => removeTomlTableLike target source

end

/-! ## Texts -/

def eraseAll (keys : List Text) (table : Table) : Table := keys.foldl (fun table key => Entries.erase key table) table

def removeProviderSpecificCommonKeys (table : Table) : Table :=
  let table := eraseAll providerSpecificCommonRootKeys table
  let sensitiveKeys := (table.map (·.1)).filter isProviderCredentialRootKey
  Entries.erase "model_providers".toList (eraseAll sensitiveKeys table)

/-! ## Small facts -/

section Facts

variable {entries : Table} {item : Item}

theorem get_withEntries (h : item.tableLike = some entries) (key : Text) (next : Table) :
    (withEntries item next).get key = Entries.lookup key next := by
  cases item with
  | table found => rfl
  | inlineTable found => rfl
  | scalar value => cases h
  | array items => cases h
  | arrayOfTables tables => cases h

theorem node_withEntries (h : item.tableLike = some entries) (next : Table) :
    (withEntries item next).node = .table := by
  cases item with
  | table found => rfl
  | inlineTable found => rfl
  | scalar value => cases h
  | array items => cases h
  | arrayOfTables tables => cases h

theorem tableLike_withEntries (h : item.tableLike = some entries) (next : Table) :
    (withEntries item next).tableLike = some next := by
  cases item with
  | table found => rfl
  | inlineTable found => rfl
  | scalar value => cases h
  | array items => cases h
  | arrayOfTables tables => cases h

def insertedItem (inline : Bool) (item : Item) : Item := if inline then intoValue item else item

theorem insertedItem_same (inline : Bool) (item : Item) : (insertedItem inline item).Same item := by
  cases inline with
  | false => exact Item.Same.refl item
  | true => exact settle_same false true item

theorem keepItem_some (h : item.tableLike ≠ some []) : keepItem (some item) = some item := by
  unfold keepItem
  apply Option.filter_some_pos
  cases htable : item.tableLike with
  | none => rfl
  | some entries =>
    cases entries with
    | nil => exact absurd htable h
    | cons entry entries => rfl

theorem keepItem_empty (h : item.tableLike = some []) : keepItem (some item) = none := by
  unfold keepItem
  apply Option.filter_some_neg
  rw [h]
  rfl

theorem lookup_eraseAll (key : Text) (keys : List Text) (table : Table) :
    Entries.lookup key (eraseAll keys table) = if key ∈ keys then none else Entries.lookup key table := by
  unfold eraseAll
  induction keys generalizing table with
  | nil => simp
  | cons other keys ih =>
    rw [List.foldl_cons, ih]
    by_cases hkey : key = other
    · subst hkey
      rw [Entries.lookup_erase_self]
      simp
    · rw [Entries.lookup_erase_ne hkey]
      simp [hkey]

theorem isRead_of_lookup {table : Table} (h : canonical table = table) {key : Text}
    (hlookup : Entries.lookup key table = some item) : IsRead item :=
  @IsRead.get (.table table) item key (isRead_table h) hlookup

end Facts

section Texts

variable [TomlEdit]

def parseTomlDocument (contents : Text) : Option Table :=
  if (trim contents).isEmpty then some [] else fromStr contents

def normalizeOptionalToml (layout : Layout) (doc : Table) : Text :=
  if (trim (toText layout doc)).isEmpty then [] else ensureTrailingNewline (toText layout doc)

def sanitizeCommonConfigContents (layout : Layout) (commonConfig : Text) : Text :=
  match parseTomlDocument commonConfig with
  | some doc => normalizeOptionalToml layout (removeProviderSpecificCommonKeys doc)
  | none => sanitizeCommonConfigTextFallback commonConfig

def stripCommonConfigFromConfig (layout : Layout) (configText commonConfigContents : Text) : Text :=
  if (trim commonConfigContents).isEmpty then normalizeDuplicateTomlText configText
  else
    match parseTomlDocument configText, parseTomlDocument (trim commonConfigContents) with
    | some targetDoc, some sourceDoc => normalizeOptionalToml layout (removeTomlTableLike targetDoc sourceDoc)
    | _, _ => stripCommonConfigTextFallback configText (trim commonConfigContents)

/-- The layouts are those of the sanitized common configuration and of the merged one. -/
def mergeCommonConfigIntoConfig (layouts : Layout × Layout) (configText commonConfigContents : Text) : Option Text :=
  let sanitizedCommon := sanitizeCommonConfigContents layouts.1 commonConfigContents
  if (trim sanitizedCommon).isEmpty then some (ensureTrailingNewline configText)
  else do
    let targetDoc ← parseTomlDocument configText
    let sourceDoc ← parseTomlDocument (trim sanitizedCommon)
    some (normalizeOptionalToml layouts.2 (mergeTomlTableLike false targetDoc sourceDoc))

/-! ## Reading texts -/

/-- What is relied on of `toml_edit`: every key is read once, and the white space around a text and the way in which its
lines end say nothing. -/
structure ReadsTexts : Prop where
  canonical_eq : ∀ text doc, fromStr text = some doc → canonical doc = doc
  blank : ∀ text doc, fromStr text = some doc → (trim text).isEmpty = true → doc = []
  trimmed : ∀ text doc, fromStr text = some doc → fromStr (trim text) = some doc
  ended : ∀ text doc, fromStr text = some doc → fromStr (ensureTrailingNewline text) = some doc
  lines : ∀ text doc, fromStr text = some doc → fromStr (Text.join ['\n'] (Text.lines text)) = some doc

variable {doc : Table} {text : Text}

theorem parse_of_fromStr (laws : ReadsTexts) (h : fromStr text = some doc) : parseTomlDocument text = some doc := by
  unfold parseTomlDocument
  split
  · rename_i hblank
    rw [laws.blank text doc h hblank]
  · exact h

theorem parse_cases (h : parseTomlDocument text = some doc) :
    (trim text).isEmpty = true ∧ doc = [] ∨ fromStr text = some doc := by
  unfold parseTomlDocument at h
  split at h
  · rename_i hblank
    cases h
    exact .inl ⟨hblank, rfl⟩
  · exact .inr h

theorem parse_blank (h : (trim text).isEmpty = true) : parseTomlDocument text = some [] := if_pos h

theorem canonical_of_parse (laws : ReadsTexts) (h : parseTomlDocument text = some doc) : canonical doc = doc := by
  rcases parse_cases h with ⟨-, rfl⟩ | hread
  · rw [canonical, settleEntries]
  · exact laws.canonical_eq text doc hread

theorem parse_trim (laws : ReadsTexts) (h : parseTomlDocument text = some doc) :
    parseTomlDocument (trim text) = some doc := by
  rcases parse_cases h with ⟨hblank, rfl⟩ | hread
  · apply parse_blank
    rwa [Text.trim_trim]
  · exact parse_of_fromStr laws (laws.trimmed text doc hread)

theorem parse_ensureTrailingNewline (laws : ReadsTexts) (h : parseTomlDocument text = some doc) :
    parseTomlDocument (ensureTrailingNewline text) = some doc := by
  rcases parse_cases h with ⟨hblank, rfl⟩ | hread
  · apply parse_blank
    unfold ensureTrailingNewline
    split
    · exact hblank
    · rw [Text.isEmpty_trim_iff] at hblank ⊢
      intro c hc
      rcases List.mem_append.mp hc with hmem | hmem
      · exact hblank c hmem
      · rw [List.mem_singleton.mp hmem]
        rfl
  · exact parse_of_fromStr laws (laws.ended text doc hread)

theorem parse_lines (laws : ReadsTexts) (h : parseTomlDocument text = some doc) :
    parseTomlDocument (Text.join ['\n'] (Text.lines text)) = some doc := by
  rcases parse_cases h with ⟨hblank, rfl⟩ | hread
  · apply parse_blank
    rw [Text.isEmpty_trim_iff] at hblank ⊢
    intro c hc
    rcases Text.mem_of_mem_join hc with rfl | ⟨line, hline, hmem⟩
    · rfl
    · exact hblank c (Text.mem_of_mem_lines hline hmem)
  · exact parse_of_fromStr laws (laws.lines text doc hread)

theorem eq_nil_of_blank (hblank : (trim text).isEmpty = true) (hparse : parseTomlDocument text = some doc) :
    doc = [] := by
  rw [parse_blank hblank, Option.some.injEq] at hparse
  exact hparse.symm

theorem parse_normalizeOptional (laws : ReadsTexts) {layout : Layout} {next : Table}
    (h : fromStr (toText layout doc) = some next) :
    parseTomlDocument (normalizeOptionalToml layout doc) = some next := by
  have hread := parse_of_fromStr laws h
  unfold normalizeOptionalToml
  split
  · rename_i hblank
    rw [eq_nil_of_blank hblank hread]
    exact parse_blank rfl
  · exact parse_ensureTrailingNewline laws hread

theorem parse_normalizeTextToml (laws : ReadsTexts) (hparse : parseTomlDocument text = some doc) :
    parseTomlDocument (normalizeTextToml text) = some doc := by
  unfold normalizeTextToml
  split
  · rename_i hblank
    rw [eq_nil_of_blank hblank hparse]
    exact parse_blank rfl
  · exact parse_ensureTrailingNewline laws (parse_trim laws hparse)

theorem parse_normalizeDuplicateTomlText (laws : ReadsTexts) (hrepeats : RepeatsNothing text)
    (hparse : parseTomlDocument text = some doc) :
    parseTomlDocument (normalizeDuplicateTomlText text) = some doc := by
  rw [normalizeDuplicateTomlText_eq hrepeats]
  exact parse_normalizeTextToml laws (parse_lines laws hparse)

end Texts

/-! ## A crate that knows a few documents -/

section FewDocuments

/-- It prints a document as the first text that is read with the same keys. -/
abbrev fewDocuments (texts : List (Text × Nat)) (docs : Nat → Table) : TomlEdit where
  Layout := Unit
  fromStr read := (Entries.lookup read texts).map docs
  toText _ printed := ((texts.find? fun entry => (docs entry.2).map (·.1) = printed.map (·.1)).map (·.1)).getD []

variable {texts : List (Text × Nat)} {docs : Nat → Table}

theorem readsTexts_fewDocuments (hdocs : ∀ entry ∈ texts, canonical (docs entry.2) = docs entry.2)
    (hblank : ∀ entry ∈ texts, (trim entry.1).isEmpty = true → docs entry.2 = [])
    (htexts : ∀ entry ∈ texts, Entries.lookup (trim entry.1) texts = some entry.2 ∧
      Entries.lookup (ensureTrailingNewline entry.1) texts = some entry.2 ∧
      Entries.lookup (Text.join ['\n'] (Text.lines entry.1)) texts = some entry.2) :
    @ReadsTexts (fewDocuments texts docs) := by
  have hread : ∀ {read : Text} {found : Table}, @fromStr (fewDocuments texts docs) read = some found →
      ∃ entry ∈ texts, entry.1 = read ∧ docs entry.2 = found := by
    intro read found h
    obtain ⟨i, hlookup, rfl⟩ := Option.map_eq_some_iff.mp h
    exact ⟨(read, i), Entries.mem_of_lookup hlookup, rfl, rfl⟩
  refine @ReadsTexts.mk (fewDocuments texts docs) ?canonical_eq ?blank ?trimmed ?ended ?lines
  case canonical_eq =>
    intro read found h
    obtain ⟨entry, hmem, -, rfl⟩ := hread h
    exact hdocs entry hmem
  case blank =>
    intro read found h hempty
    obtain ⟨entry, hmem, rfl, rfl⟩ := hread h
    exact hblank entry hmem hempty
  case trimmed =>
    intro read found h
    obtain ⟨entry, hmem, rfl, rfl⟩ := hread h
    exact congrArg (Option.map docs) (htexts entry hmem).1
  case ended =>
    intro read found h
    obtain ⟨entry, hmem, rfl, rfl⟩ := hread h
    exact congrArg (Option.map docs) (htexts entry hmem).2.1
  case lines =>
    intro read found h
    obtain ⟨entry, hmem, rfl, rfl⟩ := hread h
    exact congrArg (Option.map docs) (htexts entry hmem).2.2

end FewDocuments

end Lumio.Config
