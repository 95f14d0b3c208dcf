import Lumio.Fs.Coalesce
import Lumio.Lib.Text
import Lumio.Lib.Walk

/-!
# Scanning the workspace

A scan walks the directory tree from its root and reports the entries the rules include. It goes into a
directory only if the rules say that it may hold something to report. The watcher filters paths by the same
rules, without knowing what kind of entry a path names.
-/

namespace Lumio.Fs

open Lumio.Protocol Walk

class UnicodeText where
  nfc : List Char → List Char
  toLowercase : List Char → List Char

inductive CaseSensitivity where
  | sensitive
  | insensitive
deriving DecidableEq

/-- What a scan asks of the root. A name that is no UTF-8 text is `none`, and an entry is reported under the
path that was asked for. -/
structure RootedWorkspace where
  readDirNames : Option WorkspacePath → Except FsError (List (Option (List Char)))
  inspect : WorkspacePath → Except FsError (Option ObservedEntry)
  caseSensitivity : CaseSensitivity
  inspect_path : ∀ {path observed}, inspect path = .ok (some observed) → observed.path = path

namespace Scan

structure ScanIssue where
  reason : String
deriving DecidableEq

structure WorkspaceScan where
  entries : List ObservedEntry
  issues : List ScanIssue
deriving DecidableEq

/-- A directory to be read: none for the root, and the text in front of the names in it. -/
structure PendingDirectory where
  parent : Option WorkspacePath
  location : List Char

structure Progress where
  entries : List ObservedEntry
  issues : List ScanIssue
  seen : List (List Char)

def Progress.issue (progress : Progress) (reason : String) : Progress :=
  { progress with issues := progress.issues ++ [⟨reason⟩] }

inductive Child where
  | gone
  | refused (reason : String)
  | found (path : WorkspacePath) (observed : ObservedEntry)
deriving DecidableEq

section

variable [UnicodeText] (root : RootedWorkspace) (rules : SyncRules)

def childText (location name : List Char) : List Char :=
  if location.isEmpty then UnicodeText.nfc name else location ++ '/' :: UnicodeText.nfc name

def inspectChild (location : List Char) : Option (List Char) → Except FsError Child
  | none => .ok (.refused "non_utf8_name")
  | some name =>
    match WorkspacePath.parse (childText location name) with
    | .error _ => .ok (.refused "invalid_workspace_path")
    | .ok path =>
      match root.inspect path with
      | .ok (some observed) => .ok (.found path observed)
      | .ok none => .ok .gone
      | .error .pathEscape | .error .unsupportedSymlink => .ok (.refused "unsafe_symlink")
      | .error (.pathCollision _) => .ok (.refused "path_collision")
      | .error error => .error error

def isDir (observed : ObservedEntry) : Bool := observed.kind = .directory

/-- The text under which a path is taken to be seen before. -/
def collisionKey (path : WorkspacePath) : List Char :=
  match root.caseSensitivity with
  | .insensitive => UnicodeText.toLowercase path.chars
  | .sensitive => path.chars

/-- The directory to read next, if the entry is one that may hold something to report. -/
def descendInto (path : WorkspacePath) (observed : ObservedEntry) : List PendingDirectory :=
  if isDir observed && rules.shouldDescend path then [⟨some path, path.chars⟩] else []

def reportEntry (path : WorkspacePath) (observed : ObservedEntry) (progress : Progress) : Progress :=
  if (rules.decide path (isDir observed)).included then
    if collisionKey root path ∈ progress.seen then progress.issue "path_collision"
    else { progress with
      entries := progress.entries ++ [observed]
      seen := collisionKey root path :: progress.seen }
  else progress

def visitName (location : List Char) (state : List PendingDirectory × Progress) (name : Option (List Char)) :
    Except FsError (List PendingDirectory × Progress) := do
  match ← inspectChild root location name with
  | .gone => pure state
  | .refused reason => pure (state.1, state.2.issue reason)
  | .found path observed => pure (descendInto rules path observed ++ state.1, reportEntry root rules path observed state.2)

/-- Reads a directory. The directories found in it come off the stack in the reverse order. -/
def visitDirectory (directory : PendingDirectory) (progress : Progress) :
    Except FsError (List PendingDirectory × Progress) :=
  match root.readDirNames directory.parent with
  | .ok names => names.foldlM (visitName root rules directory.location) ([], progress)
  | .error .pathEscape | .error .unsupportedSymlink => .ok ([], progress.issue "unsafe_symlink")
  | .error error => .error error

/-- The entries in the byte order of their paths. -/
def Progress.scan (progress : Progress) : WorkspaceScan :=
  ⟨progress.entries.insertionSort fun a b => a.path.le b.path, progress.issues⟩

/-- The scan, in at most as many rounds as it has fuel. -/
def scanWorkspace (fuel : Nat) : Option (Except FsError WorkspaceScan) :=
  (walk (visitDirectory root rules) fuel [⟨none, []⟩] ⟨[], [], []⟩).map fun outcome => outcome.map Progress.scan

end

/-! ## What there is to report -/

section

variable [UnicodeText]

def Lists (root : RootedWorkspace) (directory : PendingDirectory) (observed : ObservedEntry) : Prop :=
  ∃ names name, root.readDirNames directory.parent = .ok names ∧ name ∈ names ∧
    inspectChild root directory.location name = .ok (.found observed.path observed)

def Enters (descend : WorkspacePath → Bool) (observed : ObservedEntry) : Prop :=
  isDir observed = true ∧ descend observed.path = true

def contentsOf (path : WorkspacePath) : PendingDirectory := ⟨some path, path.chars⟩

def rootDirectory : PendingDirectory := ⟨none, []⟩

inductive Below (root : RootedWorkspace) (descend : WorkspacePath → Bool) : PendingDirectory → ObservedEntry → Prop
  | child {directory observed} (lists : Lists root directory observed) : Below root descend directory observed
  | deeper {directory child observed} (lists : Lists root directory child) (enters : Enters descend child)
      (below : Below root descend (contentsOf child.path) observed) : Below root descend directory observed

def Exists (root : RootedWorkspace) (observed : ObservedEntry) : Prop :=
  Below root (fun _ => true) rootDirectory observed

def Included (rules : SyncRules) (observed : ObservedEntry) : Prop :=
  (rules.decide observed.path (isDir observed)).included = true

def Reportable (root : RootedWorkspace) (rules : SyncRules) (observed : ObservedEntry) : Prop :=
  Below root rules.shouldDescend rootDirectory observed ∧ Included rules observed

end

/-! ## Reading a directory -/

section

variable [UnicodeText] {root : RootedWorkspace} {rules : SyncRules} {location : List Char}

omit [UnicodeText] in
theorem parse_eq_ok {chars : List Char} {path : WorkspacePath} :
    WorkspacePath.parse chars = .ok path ↔ path.chars = chars := by
  unfold WorkspacePath.parse
  split
  · simp only [Except.ok.injEq]
    exact ⟨fun h => h ▸ rfl, fun h => by cases path; cases h; rfl⟩
  · rename_i reason hreason
    simp only [validationError, reduceCtorEq, false_iff]
    rintro rfl
    rw [path.parsed] at hreason
    cases hreason

variable {name : Option (List Char)} {observed : ObservedEntry} {directory : PendingDirectory}
  {a b : List PendingDirectory × Progress} {progress progress' : Progress} {e : FsError}

theorem inspectChild_found {path : WorkspacePath} (h : inspectChild root location name = .ok (.found path observed)) :
    observed.path = path ∧ root.inspect path = .ok (some observed) ∧ ∃ text, path.chars = childText location text := by
  cases name with
  | none => cases h
  | some name =>
    simp only [inspectChild] at h
    split at h
    · cases h
    rename_i hparse
    split at h
    · rename_i hinspect
      cases h
      exact ⟨root.inspect_path hinspect, hinspect, name, parse_eq_ok.mp hparse⟩
    all_goals cases h

theorem visitName_spec {state state' : List PendingDirectory × Progress}
    (h : visitName root rules location state name = .ok state') :
    (state'.1 = state.1 ∧ state'.2.entries = state.2.entries ∧ state'.2.seen = state.2.seen ∧
      ∀ path observed, inspectChild root location name ≠ .ok (.found path observed)) ∨
    ∃ observed, inspectChild root location name = .ok (.found observed.path observed) ∧
      state' = (descendInto rules observed.path observed ++ state.1,
        reportEntry root rules observed.path observed state.2) := by
  unfold visitName at h
  cases hchild : inspectChild root location name with
  | error e => rw [hchild] at h; cases h
  | ok child =>
    rw [hchild] at h
    cases child with
    | gone => cases h; exact .inl ⟨rfl, rfl, rfl, fun _ _ h => by cases h⟩
    | refused reason => cases h; exact .inl ⟨rfl, rfl, rfl, fun _ _ h => by cases h⟩
    | found path observed =>
      cases h
      obtain ⟨rfl, -⟩ := inspectChild_found hchild
      exact .inr ⟨observed, rfl, rfl⟩

omit [UnicodeText] in
theorem mem_descendInto :
    directory ∈ descendInto rules observed.path observed ↔
      Enters rules.shouldDescend observed ∧ directory = contentsOf observed.path := by
  unfold descendInto
  split
  · rename_i h
    rw [Bool.and_eq_true] at h
    simp [Enters, h, contentsOf]
  · rename_i h
    rw [Bool.and_eq_true] at h
    simp only [List.not_mem_nil, false_iff, not_and]
    exact fun henters => absurd henters h

structure Keyed (root : RootedWorkspace) (progress : Progress) : Prop where
  seen : ∀ key, key ∈ progress.seen ↔ ∃ observed ∈ progress.entries, collisionKey root observed.path = key
  distinct : (progress.entries.map fun observed => collisionKey root observed.path).Nodup

/-- Reading the names of the entries `L` takes one state to another. -/
structure Reads (root : RootedWorkspace) (rules : SyncRules) (L : ObservedEntry → Prop)
    (before after : List PendingDirectory × Progress) : Prop where
  keyed : Keyed root before.2 → Keyed root after.2
  seenKept : ∀ key ∈ before.2.seen, key ∈ after.2.seen
  seen : ∀ observed, L observed → Included rules observed → collisionKey root observed.path ∈ after.2.seen
  entries : ∀ observed ∈ after.2.entries, observed ∈ before.2.entries ∨ L observed ∧ Included rules observed
  directories : ∀ directory, directory ∈ after.1 ↔ directory ∈ before.1 ∨
    ∃ observed, L observed ∧ Enters rules.shouldDescend observed ∧ directory = contentsOf observed.path

theorem Reads.trans {L M : ObservedEntry → Prop} {c : List PendingDirectory × Progress}
    (hab : Reads root rules L a b) (hbc : Reads root rules M b c) :
    Reads root rules (fun observed => L observed ∨ M observed) a c where
  keyed := fun h => hbc.keyed (hab.keyed h)
  seenKept := fun key h => hbc.seenKept key (hab.seenKept key h)
  seen := by
    rintro observed (hL | hM) hincluded
    · exact hbc.seenKept _ (hab.seen observed hL hincluded)
    · exact hbc.seen observed hM hincluded
  entries := by
    intro observed hmem
    rcases hbc.entries observed hmem with hmiddle | ⟨hM, hincluded⟩
    · rcases hab.entries observed hmiddle with hold | ⟨hL, hincluded⟩
      · exact .inl hold
      · exact .inr ⟨.inl hL, hincluded⟩
    · exact .inr ⟨.inr hM, hincluded⟩
  directories := by
    intro directory
    rw [hbc.directories, hab.directories]
    constructor
    · rintro ((hold | ⟨observed, hL, henters⟩) | ⟨observed, hM, henters⟩)
      · exact .inl hold
      · exact .inr ⟨observed, .inl hL, henters⟩
      · exact .inr ⟨observed, .inr hM, henters⟩
    · rintro (hold | ⟨observed, hL | hM, henters⟩)
      · exact .inl (.inl hold)
      · exact .inl (.inr ⟨observed, hL, henters⟩)
      · exact .inr ⟨observed, hM, henters⟩

theorem Reads.congr {L M : ObservedEntry → Prop} (h : Reads root rules L a b)
    (hsame : ∀ observed, L observed ↔ M observed) : Reads root rules M a b := by
  obtain rfl : L = M := funext fun observed => propext (hsame observed)
  exact h

theorem Reads.unlisted (hdirectories : b.1 = a.1) (hentries : b.2.entries = a.2.entries)
    (hseen : b.2.seen = a.2.seen) :
    Reads root rules (fun _ => False) a b where
  keyed := by
    rintro ⟨hkeys, hdistinct⟩
    constructor
    · rwa [hentries, hseen]
    · rwa [hentries]
  seenKept := by simp [hseen]
  seen := by simp
  entries := by simp [hentries]
  directories := by simp [hdirectories]

theorem reportEntry_keyed (h : Keyed root progress) (observed : ObservedEntry) :
    Keyed root (reportEntry root rules observed.path observed progress) := by
  unfold reportEntry
  split
  · split
    · exact ⟨h.seen, h.distinct⟩
    rename_i hfresh
    constructor
    · intro key
      simp only [List.mem_cons, h.seen key, List.mem_append, List.not_mem_nil, or_false]
      constructor
      · rintro (rfl | ⟨other, hother, hkey⟩)
        · exact ⟨observed, .inr rfl, rfl⟩
        · exact ⟨other, .inl hother, hkey⟩
      · rintro ⟨other, hother | rfl, hkey⟩
        · exact .inr ⟨other, hother, hkey⟩
        · exact .inl hkey.symm
    · rw [List.map_append, List.nodup_append]
      refine ⟨h.distinct, by simp, ?_⟩
      intro key hkey other hother
      obtain ⟨reported, hreported, rfl⟩ := List.mem_map.mp hkey
      obtain rfl := List.mem_singleton.mp (by simpa using hother)
      rintro heq
      exact hfresh ((h.seen _).mpr ⟨reported, hreported, heq⟩)
  · exact h

theorem Reads.found (state : List PendingDirectory × Progress) (observed : ObservedEntry) :
    Reads root rules (· = observed) state
      (descendInto rules observed.path observed ++ state.1, reportEntry root rules observed.path observed state.2) where
  keyed := fun h => reportEntry_keyed h observed
  seenKept := by
    intro key hkey
    unfold reportEntry
    split
    · split
      · exact hkey
      · exact List.mem_cons_of_mem _ hkey
    · exact hkey
  seen := by
    rintro _ rfl hincluded
    unfold Included at hincluded
    simp only [reportEntry, hincluded, if_true]
    split
    · assumption
    · exact List.mem_cons_self
  entries := by
    intro other hother
    unfold reportEntry at hother
    split at hother
    · rename_i hincluded
      split at hother
      · exact .inl hother
      · rcases List.mem_append.mp hother with hold | hnew
        · exact .inl hold
        · obtain rfl := List.mem_singleton.mp hnew
          exact .inr ⟨rfl, hincluded⟩
    · exact .inl hother
  directories := by
    intro directory
    rw [List.mem_append, mem_descendInto, or_comm]
    simp

theorem visitNames_reads : ∀ {names : List (Option (List Char))} {state state' : List PendingDirectory × Progress},
    names.foldlM (visitName root rules location) state = .ok state' →
      Reads root rules (fun observed => ∃ name ∈ names,
        inspectChild root location name = .ok (.found observed.path observed)) state state'
  | [], state, state', h => by
    cases h
    exact (Reads.unlisted rfl rfl rfl).congr (by simp)
  | name :: names, state, state', h => by
    rw [List.foldlM_cons] at h
    cases hname : visitName root rules location state name with
    | error e => rw [hname] at h; cases h
    | ok middle =>
      rw [hname] at h
      have hrest := visitNames_reads h
      rcases visitName_spec hname with ⟨hdirectories, hentries, hseen, hnone⟩ | ⟨found, hfound, rfl⟩
      · refine ((Reads.unlisted hdirectories hentries hseen).trans hrest).congr fun observed => ?_
        simp [hnone]
      · refine ((Reads.found state found).trans hrest).congr fun observed => ?_
        simp only [List.mem_cons, exists_eq_or_imp, hfound, Except.ok.injEq, Child.found.injEq]
        constructor
        · rintro (rfl | hlater)
          · exact .inl ⟨rfl, rfl⟩
          · exact .inr hlater
        · rintro (⟨-, heq⟩ | hlater)
          · exact .inl heq.symm
          · exact .inr hlater

theorem visitDirectory_reads {found : List PendingDirectory}
    (h : visitDirectory root rules directory progress = .ok (found, progress')) :
    Reads root rules (Lists root directory) ([], progress) (found, progress') := by
  have hskip : Reads root rules (fun _ => False) ([], progress) ([], progress.issue "unsafe_symlink") :=
    .unlisted rfl rfl rfl
  unfold visitDirectory at h
  split at h
  · rename_i names hnames
    refine (visitNames_reads h).congr fun observed => ?_
    simp [Lists, hnames]
  · rename_i hnames
    cases h
    exact hskip.congr fun observed => by simp [Lists, hnames]
  · rename_i hnames
    cases h
    exact hskip.congr fun observed => by simp [Lists, hnames]
  · cases h

/-! ## The walk -/

structure ScanInvariant (root : RootedWorkspace) (rules : SyncRules) (stack : List PendingDirectory)
    (progress : Progress) : Prop where
  keyed : Keyed root progress
  entries : ∀ observed ∈ progress.entries, Reportable root rules observed
  reaches : ∀ directory ∈ stack, ∀ observed, Below root rules.shouldDescend directory observed →
    Below root rules.shouldDescend rootDirectory observed
  pending : ∀ observed, Reportable root rules observed → collisionKey root observed.path ∈ progress.seen ∨
    ∃ directory ∈ stack, Below root rules.shouldDescend directory observed

theorem scanInvariant_start : ScanInvariant root rules [rootDirectory] ⟨[], [], []⟩ where
  keyed := ⟨by simp, by simp⟩
  entries := by simp
  reaches := by simp
  pending := fun observed h => .inr ⟨rootDirectory, by simp, h.1⟩

theorem ScanInvariant.visit {rest found : List PendingDirectory}
    (h : ScanInvariant root rules (directory :: rest) progress)
    (hvisit : visitDirectory root rules directory progress = .ok (found, progress')) :
    ScanInvariant root rules (found ++ rest) progress' := by
  have hreads := visitDirectory_reads hvisit
  have hhere := h.reaches directory (by simp)
  refine ⟨hreads.keyed h.keyed, ?_, ?_, ?_⟩
  · intro observed hobserved
    rcases hreads.entries observed hobserved with hold | ⟨hlists, hincluded⟩
    · exact h.entries observed hold
    · exact ⟨hhere observed (.child hlists), hincluded⟩
  · intro other hother observed hbelow
    rcases List.mem_append.mp hother with hfound | hrest
    · rcases (hreads.directories other).mp hfound with hnil | ⟨child, hlists, henters, rfl⟩
      · cases hnil
      · exact hhere observed (.deeper hlists henters hbelow)
    · exact h.reaches other (by simp [hrest]) observed hbelow
  · intro observed hreportable
    rcases h.pending observed hreportable with hseen | ⟨other, hother, hbelow⟩
    · exact .inl (hreads.seenKept _ hseen)
    rcases List.mem_cons.mp hother with rfl | hrest
    -- The entry is in the directory just read, or below one of those found there.
    · cases hbelow with
      | child lists => exact .inl (hreads.seen observed lists hreportable.2)
      | deeper lists enters below =>
        have hfound := (hreads.directories _).mpr (.inr ⟨_, lists, enters, rfl⟩)
        exact .inr ⟨_, List.mem_append_left _ hfound, below⟩
    · exact .inr ⟨other, List.mem_append_right _ hrest, hbelow⟩

omit [UnicodeText] in
theorem length_of_pathError_none {chars : List Char} (h : pathError chars = none) :
    0 < chars.length ∧ chars.length ≤ 4096 := by
  unfold pathError at h
  split at h
  · cases h
  rename_i hlength
  rw [Bool.or_eq_true, not_or] at hlength
  have hbytes : ∀ text : List Char, text.length ≤ (text.map Char.utf8Size).sum := by
    intro text
    induction text with
    | nil => simp
    | cons c text ih =>
      have := Char.utf8Size_pos c
      simp only [List.length_cons, List.map_cons, List.sum_cons]
      omega
  have hpos : chars ≠ [] := by simpa using hlength.1
  have hle : (chars.map Char.utf8Size).sum ≤ 4096 := by simpa using hlength.2
  exact ⟨List.length_pos_iff.mpr hpos, (hbytes chars).trans hle⟩

theorem location_lt_of_lists (h : Lists root directory observed) :
    directory.location.length < observed.path.chars.length ∧ observed.path.chars.length ≤ 4096 := by
  obtain ⟨names, name, -, -, hchild⟩ := h
  obtain ⟨hpos, hle⟩ := length_of_pathError_none observed.path.parsed
  obtain ⟨-, -, text, htext⟩ := inspectChild_found hchild
  refine ⟨?_, hle⟩
  rw [htext, childText] at hpos ⊢
  split
  · rename_i hempty
    rw [List.isEmpty_iff.mp hempty] at hpos ⊢
    simpa using hpos
  · simp only [List.length_append, List.length_cons]
    omega

theorem visitDirectory_rank {found : List PendingDirectory}
    (h : visitDirectory root rules directory progress = .ok (found, progress')) :
    ∀ other ∈ found, 4096 - other.location.length < 4096 - directory.location.length := by
  intro other hother
  rcases ((visitDirectory_reads h).directories other).mp hother with hnil | ⟨child, hlists, -, rfl⟩
  · cases hnil
  · have := location_lt_of_lists hlists
    simp only [contentsOf]
    omega

theorem scan_halts (root : RootedWorkspace) (rules : SyncRules) : ∃ fuel outcome, ∀ more,
    walk (visitDirectory root rules) (fuel + more) [rootDirectory] ⟨[], [], []⟩ = some outcome := by
  obtain ⟨fuel, outcome, h⟩ := walk_halts visitDirectory_rank [rootDirectory] ⟨[], [], []⟩
  exact ⟨fuel, outcome, walk_add h⟩

/-! ## Where a scan fails -/

def RootFails (root : RootedWorkspace) (e : FsError) : Prop :=
  ((∃ parent, root.readDirNames parent = .error e) ∨ ∃ path, root.inspect path = .error e) ∧
    e ≠ .pathEscape ∧ e ≠ .unsupportedSymlink

theorem inspectChild_error (h : inspectChild root location name = .error e) : RootFails root e := by
  cases name with
  | none => cases h
  | some name =>
    simp only [inspectChild] at h
    split at h
    · cases h
    rename_i path hparse
    split at h
    case h_6 hescape hlink _ hinspect =>
      cases h
      refine ⟨.inr ⟨path, hinspect⟩, ?_, ?_⟩
      · rintro rfl
        exact hescape rfl
      · rintro rfl
        exact hlink rfl
    all_goals cases h

theorem visitNames_error : ∀ {names : List (Option (List Char))}
    {state : List PendingDirectory × Progress},
    names.foldlM (visitName root rules location) state = .error e → RootFails root e
  | [], _, h => by cases h
  | name :: names, state, h => by
    rw [List.foldlM_cons] at h
    cases hname : visitName root rules location state name with
    | ok middle =>
      rw [hname] at h
      exact visitNames_error h
    | error e' =>
      rw [hname] at h
      cases h
      unfold visitName at hname
      cases hchild : inspectChild root location name with
      | error e' =>
        rw [hchild] at hname
        cases hname
        exact inspectChild_error hchild
      | ok child =>
        rw [hchild] at hname
        cases child <;> cases hname

theorem visitDirectory_error (h : visitDirectory root rules directory progress = .error e) : RootFails root e := by
  unfold visitDirectory at h
  split at h
  · exact visitNames_error h
  · cases h
  · cases h
  · rename_i hescape hlink hnames
    cases h
    refine ⟨.inl ⟨directory.parent, hnames⟩, ?_, ?_⟩
    · rintro rfl
      exact hescape rfl
    · rintro rfl
      exact hlink rfl

/-! ## The entries of a scan -/

theorem Below.inspected {descend : WorkspacePath → Bool} (h : Below root descend directory observed) :
    root.inspect observed.path = .ok (some observed) := by
  induction h with
  | deeper _ _ _ ih => exact ih
  | @child directory observed lists =>
    obtain ⟨names, name, -, -, hchild⟩ := lists
    exact (inspectChild_found hchild).2.1

structure ReportsAll (root : RootedWorkspace) (rules : SyncRules) (entries : List ObservedEntry) : Prop where
  sound : ∀ observed ∈ entries, Reportable root rules observed
  complete : ∀ observed, Reportable root rules observed →
    ∃ reported ∈ entries, collisionKey root reported.path = collisionKey root observed.path
  distinct : (entries.map fun observed => collisionKey root observed.path).Nodup

theorem ReportsAll.mem_iff {entries : List ObservedEntry} (h : ReportsAll root rules entries)
    (hsensitive : root.caseSensitivity = .sensitive) (observed : ObservedEntry) :
    observed ∈ entries ↔ Reportable root rules observed := by
  refine ⟨h.sound observed, fun hreportable => ?_⟩
  obtain ⟨reported, hmem, hkey⟩ := h.complete observed hreportable
  simp only [collisionKey, hsensitive] at hkey
  have hpath : reported.path = observed.path := by
    cases hreported : reported.path
    cases hobserved : observed.path
    simpa [hreported, hobserved] using hkey
  have hsame := (h.sound reported hmem).1.inspected
  rw [hpath, hreportable.1.inspected] at hsame
  cases hsame
  exact hmem

theorem ScanInvariant.reportsAll (h : ScanInvariant root rules [] progress) :
    ReportsAll root rules progress.scan.entries where
  sound := fun observed hobserved => h.entries observed ((List.mem_insertionSort _).mp hobserved)
  complete := by
    intro observed hreportable
    rcases h.pending observed hreportable with hseen | ⟨directory, hnil, -⟩
    · obtain ⟨reported, hmem, hkey⟩ := (h.keyed.seen _).mp hseen
      exact ⟨reported, (List.mem_insertionSort _).mpr hmem, hkey⟩
    · cases hnil
  distinct := ((List.perm_insertionSort _ progress.entries).map _).nodup_iff.mpr h.keyed.distinct

omit [UnicodeText] in
/-- A directory is gone into if it is included, or left out by default and on the way to what the user
includes. -/
theorem shouldDescend_iff (rules : SyncRules) (path : WorkspacePath) :
    rules.shouldDescend path = true ↔ (rules.decide path true).included = true ∨
      (rules.decide path true).source = .defaultExclude ∧
        ∃ literal ∈ rules.userIncludePrefixes, isAncestor path.chars literal = true := by
  have hexcluded : (rules.decide path true).included = true → (rules.decide path true).source = .userInclude ∨
      (rules.decide path true).source = .defaultInclude := by
    unfold SyncRules.decide
    simp only
    repeat' split
    all_goals simp
  unfold SyncRules.shouldDescend
  simp only
  split
  all_goals simp_all

omit [UnicodeText] in
theorem pathKey_accepted_iff (self : EventCoalescer) (path : WorkspacePath) :
    self.pathKey (some path.chars) = some (.accepted path) ↔
      (self.rules.decide path false).included = true ∧ (self.rules.decide path true).included = true := by
  have hparse : WorkspacePath.parse path.chars = .ok path := parse_eq_ok.mpr rfl
  have hwatched : self.rules.acceptsWatched path = true ↔
      (self.rules.decide path false).included = true ∧ (self.rules.decide path true).included = true :=
    Bool.and_eq_true_iff
  simp only [EventCoalescer.pathKey, Option.map_some, hparse]
  rw [← hwatched]
  by_cases haccepts : self.rules.acceptsWatched path = true <;> simp [haccepts]

/-- Every scan ends. Unless the root fails it, it reports what is included and not below a directory left out;
the watcher accepts what is included as a file and as a directory. -/
theorem scan_reports_and_watcher_accepts (root : RootedWorkspace) (rules : SyncRules) :
    (∃ fuel outcome, (∀ more, scanWorkspace root rules (fuel + more) = some outcome) ∧
      match outcome with
      | .ok scan => ReportsAll root rules scan.entries ∧ (root.caseSensitivity = .sensitive →
          ∀ observed, observed ∈ scan.entries ↔ Reportable root rules observed)
      | .error e => RootFails root e) ∧
    (∀ path, rules.shouldDescend path = true ↔ (rules.decide path true).included = true ∨
      (rules.decide path true).source = .defaultExclude ∧
        ∃ literal ∈ rules.userIncludePrefixes, isAncestor path.chars literal = true) ∧
    ∀ (self : EventCoalescer) (path : WorkspacePath),
      { self with rules }.pathKey (some path.chars) = some (.accepted path) ↔
        (rules.decide path false).included = true ∧ (rules.decide path true).included = true := by
  refine ⟨?_, shouldDescend_iff rules, fun self path => pathKey_accepted_iff { self with rules } path⟩
  obtain ⟨fuel, outcome, h⟩ := scan_halts root rules
  have hscan : ∀ more, scanWorkspace root rules (fuel + more) = some (outcome.map Progress.scan) := by
    intro more
    unfold scanWorkspace
    rw [← rootDirectory, h more, Option.map_some]
  refine ⟨fuel, outcome.map Progress.scan, hscan, ?_⟩
  cases outcome with
  | error e =>
    obtain ⟨directory, progress, hvisit⟩ := exists_visit_of_walk_error (h 0)
    exact visitDirectory_error hvisit
  | ok progress =>
    have hreports := (walk_invariant ScanInvariant.visit scanInvariant_start (h 0)).reportsAll
    exact ⟨hreports, hreports.mem_iff⟩

end

/-! ## A tree on which the three disagree -/

@[reducible] def asciiText : UnicodeText := ⟨id, List.map Char.toLower⟩

def dirname (path : List Char) : List Char := path.take (path.length - (basename path).length - 1)

def rootOf (entries : List ObservedEntry) : RootedWorkspace where
  readDirNames parent := .ok (entries.filterMap fun observed =>
    if dirname observed.path.chars = parent.elim [] (·.chars) then some (some (basename observed.path.chars)) else none)
  inspect path := .ok (entries.find? (·.path = path))
  caseSensitivity := .sensitive
  inspect_path := by
    intro path observed h
    simpa using List.find?_some (Except.ok.inj h)

def entryAt (path : WorkspacePath) (kind : WorkspaceEntryKind) : ObservedEntry :=
  ⟨path, kind, zeroMetadata, ⟨0, 0, 0, 0⟩, none⟩

def pathA : WorkspacePath := ⟨"a".toList, by decide⟩
def pathAB : WorkspacePath := ⟨"a/b".toList, by decide⟩
def pathBuild : WorkspacePath := ⟨"build".toList, by decide⟩

/-- A directory `a` with a file in it, and a file called `build`. -/
def sampleTree : RootedWorkspace := rootOf [entryAt pathA .directory, entryAt pathAB .file, entryAt pathBuild .file]

/-- The user leaves out `a`, the defaults leave out what is in `build`. -/
def sampleRules : SyncRules where
  hardInternal := []
  hardEnvSecrets := []
  hardOtherSecrets := []
  userExcludes := [fun text => text = "a".toList]
  userIncludes := []
  defaultExcludes := [fun text => "build/".toList.isPrefixOf text]
  defaultIncludes := [fun _ => true]
  userIncludePrefixes := []
  protectSecrets := true

/-- The file in the directory left out is included but not reported, and the file called `build` is reported
but not watched. -/
theorem not_scan_agrees_sampleTree :
    (¬∀ (_ : UnicodeText) root rules fuel scan, scanWorkspace root rules fuel = some (.ok scan) →
      ∀ observed, observed ∈ scan.entries ↔ Exists root observed ∧ Included rules observed) ∧
    (¬∀ (_ : UnicodeText) root rules directory observed, Exists root directory → isDir directory = true →
      Below root (fun _ => true) (contentsOf directory.path) observed → Included rules observed →
        rules.shouldDescend directory.path = true) ∧
    ¬∀ (_ : UnicodeText) root (self : EventCoalescer) fuel scan,
      scanWorkspace root self.rules fuel = some (.ok scan) → ∀ observed, Exists root observed →
        (observed ∈ scan.entries ↔ self.pathKey (some observed.path.chars) = some (.accepted observed.path)) := by
  let _ : UnicodeText := asciiText
  have hscan : scanWorkspace sampleTree sampleRules 2 = some (.ok ⟨[entryAt pathBuild .file], []⟩) := by
    decide +kernel
  have hdirectory : Lists sampleTree rootDirectory (entryAt pathA .directory) :=
    ⟨_, some "a".toList, rfl, by decide, by decide +kernel⟩
  have hbuild : Lists sampleTree rootDirectory (entryAt pathBuild .file) :=
    ⟨_, some "build".toList, rfl, by decide, by decide +kernel⟩
  have hfile : Lists sampleTree (contentsOf pathA) (entryAt pathAB .file) :=
    ⟨_, some "b".toList, rfl, by decide, by decide +kernel⟩
  have hincluded : Included sampleRules (entryAt pathAB .file) := by
    unfold Included
    decide
  refine ⟨fun h => ?_, fun h => ?_, fun h => ?_⟩
  · have hexists : Exists sampleTree (entryAt pathAB .file) := .deeper hdirectory ⟨rfl, rfl⟩ (.child hfile)
    have hmem := (h asciiText sampleTree sampleRules 2 _ hscan (entryAt pathAB .file)).mpr ⟨hexists, hincluded⟩
    revert hmem
    decide
  · have hdescend := h asciiText sampleTree sampleRules (entryAt pathA .directory) (entryAt pathAB .file)
      (.child hdirectory) rfl (.child hfile) hincluded
    revert hdescend
    decide
  · have hwatched := (h asciiText sampleTree (.withRules 200 500 4096 sampleRules) 2 _ hscan (entryAt pathBuild .file)
      (.child hbuild)).mp (by simp)
    rw [pathKey_accepted_iff] at hwatched
    revert hwatched
    decide

end Scan

end Lumio.Fs
