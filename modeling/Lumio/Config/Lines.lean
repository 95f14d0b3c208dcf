import Lumio.Lib.Split

/-!
# Configuration texts

What the relay does to the text of `config.toml` line by line, without reading it as TOML.
-/

namespace Lumio.Config

open Text (trim splitOnce startsWith endsWith)

def ensureTrailingNewline (contents : Text) : Text := if endsWith '\n' contents then contents else contents ++ ['\n']

def normalizeTextToml (contents : Text) : Text :=
  if (trim contents).isEmpty then [] else ensureTrailingNewline (trim contents)

/-- A line that is taken for the header of a table, in brackets from end to end. -/
def isHeader (trimmed : Text) : Bool := startsWith '[' trimmed && endsWith ']' trimmed

/-- The part of a line before its first equals sign, unless the line is blank or a comment. -/
def lineKey (trimmed : Text) : Option Text :=
  if trimmed.isEmpty || startsWith '#' trimmed then none else (splitOnce '=' trimmed).map fun (key, _) => trim key

/-! ## Duplicates -/

structure DuplicateScan where
  seenRootKeys : List Text := []
  seenHeaders : List Text := []
  kept : List Text := []
  skippingDuplicateTable : Bool := false
  inRoot : Bool := true

def plainKey (trimmed : Text) : Option Text := (lineKey trimmed).filter fun key => !key.isEmpty && key.all (· ≠ '.')

def DuplicateScan.line (scan : DuplicateScan) (line : Text) : DuplicateScan :=
  let trimmed := trim line
  if isHeader trimmed then
    if trimmed ∈ scan.seenHeaders then { scan with inRoot := false, skippingDuplicateTable := true }
    else
      { scan with
        inRoot := false
        skippingDuplicateTable := false
        seenHeaders := trimmed :: scan.seenHeaders
        kept := scan.kept ++ [line] }
  else if scan.skippingDuplicateTable then scan
  else
    match if scan.inRoot then plainKey trimmed else none with
    | some key =>
      if key ∈ scan.seenRootKeys then scan
      else { scan with seenRootKeys := key :: scan.seenRootKeys, kept := scan.kept ++ [line] }
    | none => { scan with kept := scan.kept ++ [line] }

def normalizeDuplicateTomlText (contents : Text) : Text :=
  normalizeTextToml (Text.join ['\n'] ((Text.lines contents).foldl DuplicateScan.line {}).kept)

/-! ## Texts that are no TOML -/

def providerSpecificCommonRootKeys : List Text :=
  ["model".toList, "model_provider".toList, "base_url".toList, "openai_base_url".toList, "chatgpt_base_url".toList,
    "model_catalog_json".toList, "OPENAI_API_KEY".toList, "codex_plus_chat_base_url".toList]

def isProviderCredentialRootKey (key : Text) : Bool :=
  let key := key.map Char.toLower
  key ∈ ["api_key".toList, "access_token".toList, "bearer_token".toList, "experimental_bearer_token".toList] ||
    "_api_key".toList.isSuffixOf key || "_access_token".toList.isSuffixOf key || "_bearer_token".toList.isSuffixOf key

def isProviderSpecificCommonRootKey (key : Text) : Bool :=
  let key := Text.trimMatches (fun c => c = '"' || c = '\'') (trim key)
  key ∈ providerSpecificCommonRootKeys || isProviderCredentialRootKey key

structure SanitizeScan where
  kept : List Text := []
  inRoot : Bool := true
  skippingModelProviders : Bool := false

def SanitizeScan.line (scan : SanitizeScan) (line : Text) : SanitizeScan :=
  let trimmed := trim line
  if isHeader trimmed then
    let skipping := trimmed = "[model_providers]".toList || "[model_providers.".toList.isPrefixOf trimmed
    if skipping then { scan with inRoot := false, skippingModelProviders := true }
    else { inRoot := false, skippingModelProviders := false, kept := scan.kept ++ [line] }
  else if scan.skippingModelProviders then scan
  else
    match if scan.inRoot then splitOnce '=' trimmed else none with
    | some (key, _) =>
      if isProviderSpecificCommonRootKey key then scan else { scan with kept := scan.kept ++ [line] }
    | none => { scan with kept := scan.kept ++ [line] }

def sanitizeCommonConfigTextFallback (commonConfig : Text) : Text :=
  normalizeTextToml (Text.join ['\n'] ((Text.lines commonConfig).foldl SanitizeScan.line {}).kept)

structure CommonConfigAnchors where
  rootKeys : List Text := []
  tableHeaders : List Text := []
  inRoot : Bool := true

def CommonConfigAnchors.line (anchors : CommonConfigAnchors) (line : Text) : CommonConfigAnchors :=
  let trimmed := trim line
  if isHeader trimmed then { anchors with inRoot := false, tableHeaders := trimmed :: anchors.tableHeaders }
  else
    match if anchors.inRoot then lineKey trimmed else none with
    | some key => if key.isEmpty then anchors else { anchors with rootKeys := key :: anchors.rootKeys }
    | none => anchors

def commonConfigAnchors (commonConfig : Text) : CommonConfigAnchors :=
  (Text.lines commonConfig).foldl CommonConfigAnchors.line {}

structure StripScan where
  kept : List Text := []
  skippingTable : Bool := false

def StripScan.line (anchors : CommonConfigAnchors) (scan : StripScan) (line : Text) : StripScan :=
  let trimmed := trim line
  if isHeader trimmed then
    if trimmed ∈ anchors.tableHeaders then { scan with skippingTable := true }
    else { kept := scan.kept ++ [line], skippingTable := false }
  else if scan.skippingTable then scan
  else if (lineKey trimmed).any fun key => key ∈ anchors.rootKeys then scan
  else { scan with kept := scan.kept ++ [line] }

def stripCommonConfigTextFallback (configText commonConfig : Text) : Text :=
  let normalized := normalizeDuplicateTomlText configText
  let anchors := commonConfigAnchors commonConfig
  if anchors.rootKeys.isEmpty && anchors.tableHeaders.isEmpty then normalized
  else normalizeTextToml (Text.join ['\n'] ((Text.lines normalized).foldl (StripScan.line anchors) {}).kept)

/-! ## Texts without duplicates -/

def headerLines (contents : Text) : List Text := ((Text.lines contents).map trim).filter isHeader

def rootKeys (contents : Text) : List Text :=
  (((Text.lines contents).map trim).takeWhile (!isHeader ·)).filterMap plainKey

/-- No header and no root key is there twice, as far as the lines tell. -/
structure RepeatsNothing (contents : Text) : Prop where
  headers : (headerLines contents).Nodup
  keys : (rootKeys contents).Nodup

theorem kept_foldl {lines : List Text} {scan : DuplicateScan} (hskip : scan.skippingDuplicateTable = false)
    (hheaders : ((lines.map trim).filter isHeader ++ scan.seenHeaders).Nodup)
    (hkeys : scan.inRoot = true →
      ((((lines.map trim).takeWhile (!isHeader ·)).filterMap plainKey) ++ scan.seenRootKeys).Nodup) :
    (lines.foldl DuplicateScan.line scan).kept = scan.kept ++ lines := by
  induction lines generalizing scan with
  | nil => rw [List.foldl_nil, List.append_nil]
  | cons line lines ih =>
    rw [List.foldl_cons]
    have hkept : scan.kept ++ line :: lines = (scan.kept ++ [line]) ++ lines := by simp
    by_cases hheader : isHeader (trim line) = true
    · rw [List.map_cons, List.filter_cons_of_pos hheader, List.cons_append] at hheaders
      obtain ⟨hnot, hrest⟩ := List.nodup_cons.mp hheaders
      have hnew : trim line ∉ scan.seenHeaders := fun hmem => hnot (List.mem_append_right _ hmem)
      have hline : scan.line line =
          { scan with
            inRoot := false
            skippingDuplicateTable := false
            seenHeaders := trim line :: scan.seenHeaders
            kept := scan.kept ++ [line] } := by
        simp only [DuplicateScan.line, if_pos hheader, if_neg hnew]
      rw [hline, hkept]
      apply ih rfl
      · exact (List.perm_middle.nodup_iff).mpr (List.nodup_cons.mpr ⟨hnot, hrest⟩)
      · exact fun h => absurd h Bool.false_ne_true
    · rw [List.map_cons, List.filter_cons_of_neg hheader] at hheaders
      have hkeys' : scan.inRoot = true → (((plainKey (trim line)).toList ++
          ((lines.map trim).takeWhile (!isHeader ·)).filterMap plainKey) ++ scan.seenRootKeys).Nodup := by
        intro hroot
        have h := hkeys hroot
        rw [List.map_cons, List.takeWhile_cons_of_pos (by simpa using hheader), List.filterMap_cons] at h
        cases hkey : plainKey (trim line) with
        | none => simpa [hkey] using h
        | some key => simpa [hkey] using h
      have hstep : ∀ key?, (if scan.inRoot then plainKey (trim line) else none) = key? →
          scan.line line = match key? with
            | some key =>
              if key ∈ scan.seenRootKeys then scan
              else { scan with seenRootKeys := key :: scan.seenRootKeys, kept := scan.kept ++ [line] }
            | none => { scan with kept := scan.kept ++ [line] } := by
        rintro key? rfl
        simp only [DuplicateScan.line, if_neg hheader, hskip, Bool.false_eq_true, if_false]
      cases hkey : (if scan.inRoot then plainKey (trim line) else none) with
      | none =>
        rw [hstep none hkey, hkept]
        refine ih ?_ ?_ ?_
        · exact hskip
        · exact hheaders
        intro hroot
        have h := hkeys' hroot
        rw [if_pos hroot] at hkey
        rwa [hkey] at h
      | some key =>
        have hroot : scan.inRoot = true := by
          by_contra hroot
          rw [if_neg hroot] at hkey
          cases hkey
        have h := hkeys' hroot
        rw [if_pos hroot] at hkey
        rw [hkey, Option.toList_some, List.append_assoc, List.singleton_append] at h
        obtain ⟨hnot, hrest⟩ := List.nodup_cons.mp h
        have hnew : key ∉ scan.seenRootKeys := fun hmem => hnot (List.mem_append_right _ hmem)
        have hline := hstep (some key) (by rw [if_pos hroot, hkey])
        simp only [if_neg hnew] at hline
        rw [hline, hkept]
        refine ih ?_ ?_ ?_
        · exact hskip
        · exact hheaders
        exact fun _ => (List.perm_middle.nodup_iff).mpr (List.nodup_cons.mpr ⟨hnot, hrest⟩)

theorem normalizeDuplicateTomlText_eq {contents : Text} (h : RepeatsNothing contents) :
    normalizeDuplicateTomlText contents = normalizeTextToml (Text.join ['\n'] (Text.lines contents)) := by
  have hkept : ((Text.lines contents).foldl DuplicateScan.line {}).kept = [] ++ Text.lines contents := by
    apply kept_foldl rfl
    · rw [List.append_nil]
      exact h.headers
    · intro _
      rw [List.append_nil]
      exact h.keys
  rw [normalizeDuplicateTomlText, hkept, List.nil_append]

end Lumio.Config
