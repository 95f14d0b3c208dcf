import Lumio.Config.Completed
import Mathlib.Data.List.AList

/-!
# Windows of a model list

The entries of an old model list tell their windows in brackets. The migration splits such a list into names and a table
of windows, and the catalog is made from those. Names are parsed again every time they are used.
-/

namespace Lumio.Config

open Text (trim)

/-! ## Migration and catalog -/

def isListSeparator (c : Char) : Bool := c = '\r' || c = '\n' || c = ','

def listItems (modelList : Text) : List Text :=
  ((modelList.splitOnP isListSeparator).map trim).filter fun value => !value.isEmpty

abbrev ModelWindows := AList fun _ : Text => Text

def addWindow (windows : ModelWindows) (raw : Text) : ModelWindows :=
  match parseModelSuffix raw with
  | (slug, some window) => windows.insert slug (Text.ofNat window)
  | (_, none) => windows

def migrateModelListWithSuffixes (modelList : Text) : Text × ModelWindows :=
  (Text.join ['\n'] ((listItems modelList).map fun raw => (parseModelSuffix raw).1),
    (listItems modelList).foldl addWindow ∅)

structure ModelCatalogEntry where
  slug : Text
  displayName : Text
  suffixWindow : Option Nat
deriving DecidableEq

def catalogEntry (windows : ModelWindows) (slug : Text) : ModelCatalogEntry :=
  ⟨slug, slug, (windows.lookup slug).bind parseWindowToken⟩

def collectEntry (windows : ModelWindows) (collected : List Text × List ModelCatalogEntry) (raw : Text) :
    List Text × List ModelCatalogEntry :=
  let slug := (parseModelSuffix raw).1
  if slug.isEmpty || slug ∈ collected.1 then collected
  else (slug :: collected.1, collected.2 ++ [catalogEntry windows slug])

def collectCatalogEntries (modelList : Text) (windows : ModelWindows) (currentModel : Text) : List ModelCatalogEntry :=
  let listEntries := ((listItems modelList).foldl (collectEntry windows) ([], [])).2
  let slug := (parseModelSuffix (trim currentModel)).1
  if (trim currentModel).isEmpty || slug.isEmpty then listEntries
  else catalogEntry windows slug :: listEntries.filter fun entry => entry.slug ≠ slug

/-! ## Names -/

section Names

variable {raw text : Text}

structure IsName (name : Text) : Prop where
  nonempty : name ≠ []
  trimmed : trim name = name
  whole : ∀ c ∈ name, isListSeparator c = false

theorem not_mem_splitOnP {p : Char → Bool} : ∀ piece ∈ text.splitOnP p, ∀ c ∈ piece, p c = false := by
  induction text with
  | nil => simp
  | cons d text ih =>
    rw [List.splitOnP_cons_eq_if_modifyHead]
    split
    · exact List.forall_mem_cons.mpr ⟨nofun, ih⟩
    · rename_i hd
      obtain ⟨first, pieces, hpieces⟩ := List.exists_cons_of_ne_nil (List.splitOnP_ne_nil p text)
      rw [hpieces] at ih ⊢
      obtain ⟨hfirst, hrest⟩ := List.forall_mem_cons.mp ih
      exact List.forall_mem_cons.mpr ⟨List.forall_mem_cons.mpr ⟨Bool.eq_false_iff.mpr hd, hfirst⟩, hrest⟩

theorem listItems_names : ∀ raw ∈ listItems text, IsName raw := by
  intro raw hraw
  simp only [listItems, List.mem_filter, List.mem_map, Bool.not_eq_true', List.isEmpty_eq_false_iff] at hraw
  obtain ⟨⟨piece, hpiece, rfl⟩, hne⟩ := hraw
  refine ⟨hne, Text.trim_trim piece, fun c hc => ?_⟩
  exact not_mem_splitOnP piece hpiece c ((Text.trim_sublist piece).subset hc)

theorem splitLast_before {c : Char} {before after : Text} (h : splitLast c text = some (before, after)) :
    ∀ d ∈ before, d ∈ text := by
  obtain ⟨⟨start, rest⟩, hsplit, heq⟩ := Option.map_eq_some_iff.mp h
  cases heq
  intro d hd
  rw [← List.mem_reverse, (Text.eq_of_splitOnce hsplit).1, List.mem_append]
  exact .inr (List.mem_cons_of_mem c (List.mem_reverse.mp hd))

theorem parseModelSuffix_name (h : IsName raw) : IsName (parseModelSuffix raw).1 := by
  unfold parseModelSuffix
  rw [h.trimmed]
  split
  · split
    · exact h
    · rename_i slug inner hsplit
      split
      · exact h
      · rename_i window hwindow
        split at hwindow
        · cases hwindow
        · rename_i hne
          refine ⟨by simpa using hne, Text.trim_trim slug, fun c hc => h.whole c ?_⟩
          exact List.mem_of_mem_dropLast (splitLast_before hsplit c ((Text.trim_sublist slug).subset hc))
  · exact h

theorem listItems_join {names : List Text} (h : ∀ name ∈ names, IsName name) :
    listItems (Text.join ['\n'] names) = names := by
  induction names with
  | nil => decide
  | cons name names ih =>
    have hname := h name (List.mem_cons_self ..)
    have hnames : ∀ other ∈ names, IsName other := fun other hother => h other (List.mem_cons_of_mem _ hother)
    have hkept : ∀ pieces : List Text, ((name :: pieces).map trim).filter (fun value => !value.isEmpty) =
        name :: (pieces.map trim).filter fun value => !value.isEmpty := by
      intro pieces
      rw [List.map_cons, hname.trimmed, List.filter_cons_of_pos]
      simpa using hname.nonempty
    cases names with
    | nil =>
      have hone : Text.join ['\n'] [name] = name := by simp [Text.join]
      rw [hone, listItems, List.splitOnP_eq_singleton hname.whole, hkept]
      rfl
    | cons other names =>
      have hmore : Text.join ['\n'] (name :: other :: names) = name ++ '\n' :: Text.join ['\n'] (other :: names) := by
        simp [Text.join]
      rw [hmore, listItems, List.splitOnP_append_cons_of_forall_mem hname.whole _ rfl, hkept, ← listItems, ih hnames]

end Names

/-! ## What a migration keeps -/

section Migration

variable {raw modelList : Text} {items : List Text} {windows : ModelWindows}

/-- The text before the last bracket of an entry, and the token in the brackets. -/
def suffixParts (raw : Text) : Option (Text × Text) :=
  if (trim raw).getLast? = some ']' then
    ((splitLast '[' (trim raw).dropLast).filter fun parts => !(trim parts.1).isEmpty).map fun parts =>
      (trim parts.1, trim parts.2)
  else none

def tokenParts (token : Text) : Option (Nat × Nat) :=
  match (trim token).getLast? with
  | none => none
  | some c =>
    if c = 'K' || c = 'k' then (parseU64 (trim (trim token).dropLast)).map fun number => (number, 1000)
    else if c = 'M' || c = 'm' then (parseU64 (trim (trim token).dropLast)).map fun number => (number, 1000000)
    else (parseU64 (trim (trim token))).map fun number => (number, 1)

/-- The window of a token, without a bound on the number. -/
def toldToken (token : Text) : Option Nat :=
  (tokenParts token).bind fun parts => if 0 < parts.1 * parts.2 then some (parts.1 * parts.2) else none

def suffixOf (window : Text → Option Nat) (raw : Text) : Option (Text × Nat) :=
  (suffixParts raw).bind fun parts => (window parts.2).map fun number => (parts.1, number)

def toldWindow (raw : Text) : Option Nat := (suffixOf toldToken raw).map (·.2)

def toldName (raw : Text) : Text := ((suffixOf toldToken raw).map (·.1)).getD (trim raw)

theorem parseModelSuffix_eq (raw : Text) : parseModelSuffix raw =
    (((suffixOf parseWindowToken raw).map (·.1)).getD (trim raw), (suffixOf parseWindowToken raw).map (·.2)) := by
  unfold parseModelSuffix suffixOf suffixParts
  split
  · cases splitLast '[' (trim raw).dropLast with
    | none => rfl
    | some parts =>
      obtain ⟨slug, inner⟩ := parts
      dsimp only
      by_cases hblank : (trim slug).isEmpty = true
      · simp [hblank, Option.filter]
      · rw [if_neg hblank]
        simp only [Option.filter, hblank, Bool.not_false, if_true, Option.map_some, Option.bind_some]
        cases parseWindowToken (trim inner) <;> rfl
  · rfl

theorem parseWindowToken_eq (token : Text) : parseWindowToken token = (tokenParts token).bind fun parts =>
    if 0 < parts.1 * parts.2 % 2 ^ 64 then some (parts.1 * parts.2 % 2 ^ 64) else none := by
  have hunit : ∀ (number : Option Nat) (unit : Nat),
      (number.map fun value => value * unit % 2 ^ 64).filter (fun window => decide (0 < window)) =
        (number.map fun value => (value, unit)).bind fun parts =>
          if 0 < parts.1 * parts.2 % 2 ^ 64 then some (parts.1 * parts.2 % 2 ^ 64) else none := by
    intro number unit
    cases number <;> simp [Option.filter]
  unfold parseWindowToken tokenParts
  cases (trim token).getLast? with
  | none => rfl
  | some c =>
    dsimp only
    split
    · exact hunit _ _
    · split
      · exact hunit _ _
      · exact hunit _ _

theorem tokenParts_ofNat {window : Nat} (hlt : window < 2 ^ 64) : tokenParts (Text.ofNat window) = some (window, 1) := by
  have hdigits : ∀ c ∈ Text.ofNat window, c.isDigit = true :=
    fun c hc => Nat.isDigit_of_mem_toDigits (by decide) (by decide) hc
  have hne : Text.ofNat window ≠ [] := Nat.toDigits_ne_nil
  have hvisible : ∀ c : Char, c.isDigit = true → Text.Visible c := by
    intro c hc
    simp only [Char.isDigit, Bool.and_eq_true, decide_eq_true_eq, ge_iff_le, UInt32.le_iff_toNat_le] at hc
    have hlow : 48 ≤ c.toNat := hc.1
    have hhigh : c.toNat ≤ 57 := hc.2
    simp [Text.Visible, Text.isWhitespace]
    omega
  have htrim : trim (Text.ofNat window) = Text.ofNat window := by
    obtain ⟨c, rest, hcons⟩ := List.exists_cons_of_ne_nil hne
    have hstart : Text.trimStart (Text.ofNat window) = Text.ofNat window := by
      rw [hcons]
      exact Text.trimStart_cons (hvisible c (hdigits c (by simp [hcons]))) rest
    rw [trim, hstart]
    exact Text.trimEnd_of_last fun d hd => hvisible d (hdigits d (List.mem_of_getLast? hd))
  have hparse : parseU64 (Text.ofNat window) = some window := by
    have hplus : Text.stripPrefix ['+'] (Text.ofNat window) = none := by
      obtain ⟨c, rest, hcons⟩ := List.exists_cons_of_ne_nil hne
      have hc := hdigits c (by simp [hcons])
      have hother : '+' ≠ c := by
        rintro rfl
        cases hc
      rw [hcons]
      simp [Text.stripPrefix, List.isPrefixOf, hother]
    have hvalue : (Text.ofNat window).foldl (fun value c => 10 * value + (c.toNat - '0'.toNat)) 0 = window :=
      Nat.ofDigitChars_ten_toDigits
    simp only [parseU64, hplus, Option.getD_none, hvalue, if_pos hlt]
    simpa [hne] using hdigits
  obtain ⟨c, hlast⟩ := Option.isSome_iff_exists.mp (List.getLast?_isSome.mpr hne)
  have hc := hdigits c (List.mem_of_getLast? hlast)
  have hunit : c ≠ 'K' ∧ c ≠ 'k' ∧ c ≠ 'M' ∧ c ≠ 'm' := by
    refine ⟨?_, ?_, ?_, ?_⟩ <;> rintro rfl <;> cases hc
  simp [tokenParts, htrim, hlast, hunit, hparse]

theorem parseWindowToken_ofNat {window : Nat} (hpos : 0 < window) (hlt : window < 2 ^ 64) :
    parseWindowToken (Text.ofNat window) = some window := by
  rw [parseWindowToken_eq, tokenParts_ofNat hlt, Option.bind_some, Nat.mul_one, Nat.mod_eq_of_lt hlt]
  exact if_pos hpos

theorem token_eq_told_iff {token : Text} : parseWindowToken token = toldToken token ↔
    ∀ parts, tokenParts token = some parts → parts.1 * parts.2 < 2 ^ 64 := by
  rw [parseWindowToken_eq, toldToken]
  cases tokenParts token with
  | none => simp
  | some parts =>
    simp only [Option.bind_some, Option.some.injEq, forall_eq']
    generalize parts.1 * parts.2 = product
    constructor
    · intro h
      by_contra hlarge
      rw [if_pos (show 0 < product by omega)] at h
      split at h
      · have hsame := Option.some.inj h
        omega
      · cases h
    · intro h
      rw [Nat.mod_eq_of_lt h]

theorem window_eq_told_iff : (parseModelSuffix raw).2 = toldWindow raw ↔
    ∀ before token, suffixParts raw = some (before, token) → parseWindowToken token = toldToken token := by
  rw [parseModelSuffix_eq, toldWindow, suffixOf, suffixOf]
  cases suffixParts raw with
  | none => simp
  | some parts =>
    obtain ⟨before, token⟩ := parts
    have hsecond : ((fun parts : Text × Nat => parts.2) ∘ fun number => (before, number)) = id := rfl
    simp only [Option.bind_some, Option.map_map, hsecond, Option.map_id, id_eq]
    constructor
    · rintro h _ _ ⟨⟩
      exact h
    · intro h
      exact h _ _ rfl

/-- An entry whose window is exact is read as it is told. -/
theorem parseModelSuffix_told (h : (parseModelSuffix raw).2 = toldWindow raw) :
    parseModelSuffix raw = (toldName raw, toldWindow raw) := by
  have htold : suffixOf parseWindowToken raw = suffixOf toldToken raw := by
    unfold suffixOf
    cases hparts : suffixParts raw with
    | none => rfl
    | some parts => rw [Option.bind_some, Option.bind_some, window_eq_told_iff.mp h _ _ hparts]
  rw [parseModelSuffix_eq, htold]
  rfl

theorem told_of_none (h : toldWindow raw = none) : (parseModelSuffix raw).2 = none := by
  have htold : (parseModelSuffix raw).2 = toldWindow raw := by
    refine window_eq_told_iff.mpr fun before token hparts => ?_
    rw [toldWindow, suffixOf, hparts, Option.bind_some, Option.map_map, Option.map_eq_none_iff] at h
    rw [parseWindowToken_eq, h]
    rw [toldToken] at h
    cases hvalue : tokenParts token with
    | none => rfl
    | some parts =>
      rw [hvalue, Option.bind_some] at h
      split at h
      · cases h
      · rename_i hzero
        rw [Option.bind_some, Nat.eq_zero_of_not_pos hzero]
        rfl
  rw [htold, h]

theorem window_bounds {window : Nat} (h : (parseModelSuffix raw).2 = some window) : 0 < window ∧ window < 2 ^ 64 := by
  rw [parseModelSuffix_eq] at h
  obtain ⟨⟨before, number⟩, hsuffix, rfl⟩ := Option.map_eq_some_iff.mp h
  obtain ⟨parts, -, hwindow⟩ := Option.bind_eq_some_iff.mp hsuffix
  obtain ⟨number, hnumber, hsame⟩ := Option.map_eq_some_iff.mp hwindow
  cases hsame
  rw [parseWindowToken_eq] at hnumber
  obtain ⟨factors, -, hproduct⟩ := Option.bind_eq_some_iff.mp hnumber
  split at hproduct
  · cases hproduct
    exact ⟨‹_›, Nat.mod_lt _ (by decide)⟩
  · cases hproduct

theorem addWindow_lookup_ne {slug : Text} (h : slug ≠ (parseModelSuffix raw).1) :
    (addWindow windows raw).lookup slug = windows.lookup slug := by
  unfold addWindow
  split
  · rename_i hparse
    rw [hparse] at h
    exact AList.lookup_insert_ne h
  · rfl

theorem addWindow_lookup_self : (addWindow windows raw).lookup (parseModelSuffix raw).1 =
    ((parseModelSuffix raw).2.map Text.ofNat).or (windows.lookup (parseModelSuffix raw).1) := by
  unfold addWindow
  generalize parseModelSuffix raw = parsed
  obtain ⟨slug, window⟩ := parsed
  cases window with
  | none => rfl
  | some window => exact AList.lookup_insert _

theorem lookup_windows (hdistinct : (items.map fun raw => (parseModelSuffix raw).1).Nodup) :
    ∀ raw ∈ items,
      (items.foldl addWindow ∅).lookup (parseModelSuffix raw).1 = (parseModelSuffix raw).2.map Text.ofNat := by
  have hothers : ∀ (items : List Text) slug, (∀ raw ∈ items, slug ≠ (parseModelSuffix raw).1) →
      (items.foldl addWindow ∅).lookup slug = none := by
    intro items slug hne
    refine List.foldlRecOn (motive := fun windows : ModelWindows => windows.lookup slug = none) items addWindow rfl
      fun windows hwindows raw hraw => ?_
    rw [addWindow_lookup_ne (hne raw hraw), hwindows]
  induction items using List.reverseRecOn with
  | nil => nofun
  | append_singleton items last ih =>
    rw [List.map_append, List.nodup_append] at hdistinct
    have happart : ∀ raw ∈ items, (parseModelSuffix raw).1 ≠ (parseModelSuffix last).1 := fun raw hraw =>
      hdistinct.2.2 _ (List.mem_map_of_mem hraw) _ (List.mem_singleton_self _)
    intro raw hraw
    rw [List.foldl_append, List.foldl_cons, List.foldl_nil]
    rcases List.mem_append.mp hraw with hraw | hraw
    · rw [addWindow_lookup_ne (happart raw hraw), ih hdistinct.1 raw hraw]
    · obtain rfl := List.mem_singleton.mp hraw
      rw [addWindow_lookup_self, hothers items _ fun other hother => (happart other hother).symm, Option.or_none]

theorem collectCatalogEntries_join {names : List Text} (hnames : ∀ name ∈ names, IsName name) (hdistinct : names.Nodup)
    (hplain : ∀ name ∈ names, (parseModelSuffix name).1 = name) :
    collectCatalogEntries (Text.join ['\n'] names) windows [] = names.map (catalogEntry windows) := by
  have hall : ∀ (rest : List Text) (collected : List Text × List ModelCatalogEntry), (∀ name ∈ rest, name ∈ names) →
      rest.Nodup → (∀ name ∈ rest, name ∉ collected.1) →
      (rest.foldl (collectEntry windows) collected).2 = collected.2 ++ rest.map (catalogEntry windows) := by
    intro rest
    induction rest with
    | nil => simp
    | cons name rest ih =>
      intro collected hin hrest hnew
      have hname := hin name (List.mem_cons_self ..)
      obtain ⟨hfresh, hrest⟩ := List.nodup_cons.mp hrest
      have hstep : collectEntry windows collected name =
          (name :: collected.1, collected.2 ++ [catalogEntry windows name]) := by
        have hne := (hnames name hname).nonempty
        simp [collectEntry, hplain name hname, hne, hnew name (List.mem_cons_self ..)]
      rw [List.foldl_cons, hstep, ih _ (fun other hother => hin other (List.mem_cons_of_mem _ hother)) hrest]
      · rw [List.append_assoc, List.map_cons]
        rfl
      · intro other hother hseen
        rcases List.mem_cons.mp hseen with rfl | hseen
        · exact hfresh hother
        · exact hnew other (List.mem_cons_of_mem _ hother) hseen
  have hlist := hall names ([], []) (fun _ h => h) hdistinct nofun
  rw [collectCatalogEntries, listItems_join hnames]
  exact hlist

theorem parseModelSuffix_plain (h : IsName raw) (hnone : (parseModelSuffix raw).2 = none) :
    (parseModelSuffix raw).1 = raw := by
  unfold parseModelSuffix at hnone ⊢
  rw [h.trimmed] at hnone ⊢
  split
  · rename_i hbracket
    rw [if_pos hbracket] at hnone
    split
    · rfl
    · rename_i hsplit
      rw [hsplit] at hnone
      dsimp only at hnone ⊢
      split
      · rfl
      · rename_i hwindow
        rw [hwindow] at hnone
        cases hnone
  · rfl

theorem migrate_names_iff {names : List Text} (hnames : ∀ name ∈ names, IsName name) (hdistinct : names.Nodup) :
    migrateModelListWithSuffixes (Text.join ['\n'] names) = (Text.join ['\n'] names, ∅) ↔
      ∀ name ∈ names, (parseModelSuffix name).2 = none := by
  have hmigrated : migrateModelListWithSuffixes (Text.join ['\n'] names) =
      (Text.join ['\n'] (names.map fun name => (parseModelSuffix name).1), names.foldl addWindow ∅) := by
    rw [migrateModelListWithSuffixes, listItems_join hnames]
  rw [hmigrated, Prod.mk.injEq]
  constructor
  · rintro ⟨hlist, hwindows⟩ name hname
    have hsame : names.map (fun name => (parseModelSuffix name).1) = names := by
      have hslugs : ∀ slug ∈ names.map fun name => (parseModelSuffix name).1, IsName slug := by
        intro slug hslug
        obtain ⟨raw, hraw, rfl⟩ := List.mem_map.mp hslug
        exact parseModelSuffix_name (hnames raw hraw)
      have hitems := congrArg listItems hlist
      rwa [listItems_join hslugs, listItems_join hnames] at hitems
    have hlookup := lookup_windows (hsame.symm ▸ hdistinct) name hname
    rw [hwindows] at hlookup
    exact Option.map_eq_none_iff.mp hlookup.symm
  · intro hnone
    have hsame : names.map (fun name => (parseModelSuffix name).1) = names := by
      conv_rhs => rw [← List.map_id names]
      exact List.map_congr_left fun name hname => parseModelSuffix_plain (hnames name hname) (hnone name hname)
    refine ⟨by rw [hsame], List.foldlRecOn (motive := fun windows : ModelWindows => windows = ∅) names addWindow rfl ?_⟩
    rintro windows rfl name hname
    have hwindow := hnone name hname
    unfold addWindow
    split
    · rename_i hparse
      rw [hparse] at hwindow
      cases hwindow
    · rfl

end Migration

/-! ## The migration loses nothing -/

/-- No product of a window wraps around, be it read from the list, from the names that are left or from the table; the
catalog has every entry of the list with its name and its window, and another migration finds nothing to do. -/
structure Migrates (modelList : Text) : Prop where
  exact : ∀ raw ∈ listItems modelList, (parseModelSuffix raw).2 = toldWindow raw
  exactNames : ∀ name ∈ listItems (migrateModelListWithSuffixes modelList).1, (parseModelSuffix name).2 = toldWindow name
  exactTable : ∀ raw ∈ listItems modelList, ∀ token,
    (migrateModelListWithSuffixes modelList).2.lookup (parseModelSuffix raw).1 = some token →
    parseWindowToken token = toldToken token
  collected :
    collectCatalogEntries (migrateModelListWithSuffixes modelList).1 (migrateModelListWithSuffixes modelList).2 [] =
      (listItems modelList).map fun raw => ⟨(parseModelSuffix raw).1, (parseModelSuffix raw).1, (parseModelSuffix raw).2⟩
  again : migrateModelListWithSuffixes (migrateModelListWithSuffixes modelList).1 =
    ((migrateModelListWithSuffixes modelList).1, ∅)

/-- The window of the entry fits into 64 bits, and its name does not end in a window once more, of any size. -/
structure SingleWindow (raw : Text) : Prop where
  fits : ∀ before token parts, suffixParts raw = some (before, token) → tokenParts token = some parts →
    parts.1 * parts.2 < 2 ^ 64
  single : toldWindow (toldName raw) = none

theorem exact_iff_fits : (parseModelSuffix raw).2 = toldWindow raw ↔ ∀ before token parts,
    suffixParts raw = some (before, token) → tokenParts token = some parts → parts.1 * parts.2 < 2 ^ 64 := by
  rw [window_eq_told_iff]
  exact ⟨fun h before token parts hparts => token_eq_told_iff.mp (h before token hparts) parts,
    fun h before token hparts => token_eq_told_iff.mpr fun parts => h before token parts hparts⟩

theorem token_ofNat {window : Nat} (hlt : window < 2 ^ 64) :
    parseWindowToken (Text.ofNat window) = toldToken (Text.ofNat window) := by
  refine token_eq_told_iff.mpr fun parts hparts => ?_
  rw [tokenParts_ofNat hlt] at hparts
  cases hparts
  omega

/-- A list is migrated without loss exactly if every entry has one window at most, of 64 bits. -/
theorem migrates_iff {modelList : Text}
    (hdistinct : ((listItems modelList).map fun raw => (parseModelSuffix raw).1).Nodup) :
    Migrates modelList ↔ ∀ raw ∈ listItems modelList, SingleWindow raw := by
  have hnames : ∀ name ∈ (listItems modelList).map fun raw => (parseModelSuffix raw).1, IsName name := by
    intro name hname
    obtain ⟨raw, hraw, rfl⟩ := List.mem_map.mp hname
    exact parseModelSuffix_name (listItems_names raw hraw)
  have hmigrated : listItems (migrateModelListWithSuffixes modelList).1 =
      (listItems modelList).map fun raw => (parseModelSuffix raw).1 := listItems_join hnames
  constructor
  · intro h raw hraw
    have hname : (parseModelSuffix raw).1 = toldName raw := congrArg Prod.fst (parseModelSuffix_told (h.exact raw hraw))
    have hmem : (parseModelSuffix raw).1 ∈ (listItems modelList).map fun raw => (parseModelSuffix raw).1 :=
      List.mem_map_of_mem hraw
    have hsingle := (migrate_names_iff hnames hdistinct).mp h.again _ hmem
    have hagain := h.exactNames _ (hmigrated ▸ hmem)
    rw [hsingle, hname] at hagain
    exact ⟨exact_iff_fits.mp (h.exact raw hraw), hagain.symm⟩
  · intro h
    have hexact : ∀ raw ∈ listItems modelList, (parseModelSuffix raw).2 = toldWindow raw :=
      fun raw hraw => exact_iff_fits.mpr (h raw hraw).fits
    have htold : ∀ name ∈ (listItems modelList).map fun raw => (parseModelSuffix raw).1, toldWindow name = none := by
      intro name hname
      obtain ⟨raw, hraw, rfl⟩ := List.mem_map.mp hname
      rw [parseModelSuffix_told (hexact raw hraw)]
      exact (h raw hraw).single
    have hsingle := fun name hname => told_of_none (htold name hname)
    have htable : ∀ raw ∈ listItems modelList,
        (migrateModelListWithSuffixes modelList).2.lookup (parseModelSuffix raw).1 =
          (parseModelSuffix raw).2.map Text.ofNat := lookup_windows hdistinct
    refine ⟨hexact, fun name hname => ?_, fun raw hraw token htoken => ?_, ?_,
      (migrate_names_iff hnames hdistinct).mpr hsingle⟩
    · rw [hmigrated] at hname
      rw [hsingle name hname, htold name hname]
    · rw [htable raw hraw] at htoken
      obtain ⟨window, hwindow, rfl⟩ := Option.map_eq_some_iff.mp htoken
      exact token_ofNat (window_bounds hwindow).2
    · have hcollected := @collectCatalogEntries_join (migrateModelListWithSuffixes modelList).2 _ hnames hdistinct
        fun name hname => parseModelSuffix_plain (hnames name hname) (hsingle name hname)
      refine hcollected.trans ?_
      rw [List.map_map]
      refine List.map_congr_left fun raw hraw => ?_
      have hwindow : ((migrateModelListWithSuffixes modelList).2.lookup (parseModelSuffix raw).1).bind parseWindowToken =
          (parseModelSuffix raw).2 := by
        rw [htable raw hraw]
        cases hwindow : (parseModelSuffix raw).2 with
        | none => rfl
        | some window =>
          obtain ⟨hpos, hlt⟩ := window_bounds hwindow
          rw [Option.map_some, Option.bind_some, parseWindowToken_ofNat hpos hlt]
      rw [Function.comp_apply, catalogEntry, hwindow]

/-- A window, and a name alone. -/
theorem migrates_iff_pair : Migrates "a[1M]\nb".toList := by
  have hitems : listItems "a[1M]\nb".toList = ["a[1M]".toList, "b".toList] := by decide
  refine (migrates_iff (by decide)).mpr ?_
  rw [hitems]
  refine List.forall_mem_cons.mpr ⟨⟨fun before token parts hsuffix hparts => ?_, by decide⟩,
    List.forall_mem_singleton.mpr ⟨fun before token parts hsuffix => ?_, by decide⟩⟩
  · have htoken : suffixParts "a[1M]".toList = some (['a'], ['1', 'M']) := by decide
    cases htoken.symm.trans hsuffix
    have hwindow : tokenParts ['1', 'M'] = some (1, 1000000) := by decide
    cases hwindow.symm.trans hparts
    decide
  · have hplain : suffixParts "b".toList = none := by decide
    cases hplain.symm.trans hsuffix

/-- An entry with two windows has its name cut down by every migration. -/
theorem migrates_two_windows :
    ¬∀ modelList : Text, ((listItems modelList).map fun raw => (parseModelSuffix raw).1).Nodup → Migrates modelList := by
  intro h
  have hagain := congrArg Prod.fst (h "x[1K][2K]".toList (by decide)).again
  exact absurd hagain (by decide)

end Lumio.Config
