import Lumio.Lib.Sql
import Lumio.Lib.Table

/-!
# Updates of the session databases

A provider sync updates the provider, the event mark and the directory of threads, and adds threads that the local
catalogue of a database misses. Each database has its own transaction.
-/

namespace Lumio.Data

/-! ## Thread rows -/

structure ThreadFacts where
  targetProvider : Text
  userEventThreadIds : List Text
  cwdByThreadId : Table Text Text

def coalesce (value fallback : SqlValue) : SqlValue := if value = .null then fallback else value

def providerUpdate (table : String) (targetProvider : Text) : SqlUpdate :=
  { table
    key := none
    column := "model_provider"
    value := .text targetProvider
    stale := fun value => coalesce value (.text []) ≠ .text targetProvider }

def userEventUpdate (threadId : Text) : SqlUpdate :=
  { table := "threads"
    key := some ("id", .text threadId)
    column := "has_user_event"
    value := .integer 1
    stale := fun value => coalesce value (.integer 0) ≠ .integer 1 ∧ coalesce value (.integer 0) ≠ .real 1 }

def cwdUpdate (threadId cwd : Text) : SqlUpdate :=
  { table := "threads"
    key := some ("id", .text threadId)
    column := "cwd"
    value := .text cwd
    stale := fun value => coalesce value (.text []) ≠ .text cwd }

def sqliteUpdates (facts : ThreadFacts) (db : Database) : List SqlUpdate :=
  (if "model_provider" ∈ db.columns "threads" then [providerUpdate "threads" facts.targetProvider] else []) ++
  (if "model_provider" ∈ db.columns "local_thread_catalog" then
    [providerUpdate "local_thread_catalog" facts.targetProvider] else []) ++
  (if "has_user_event" ∈ db.columns "threads" then facts.userEventThreadIds.map userEventUpdate else []) ++
  (if "cwd" ∈ db.columns "threads" then facts.cwdByThreadId.entries.map fun entry => cwdUpdate entry.1 entry.2 else [])

def countSqliteUpdates (facts : ThreadFacts) (db : Database) : Nat :=
  ((sqliteUpdates facts db).map fun update => update.count db).sum

/-- A database without a provider in either table is not touched. -/
def namesProvider (db : Database) : Bool :=
  "model_provider" ∈ db.columns "threads" ∨ "model_provider" ∈ db.columns "local_thread_catalog"

def applySqliteUpdate (facts : ThreadFacts) (db : Database) : Database :=
  if namesProvider db then SqlUpdate.runAll (sqliteUpdates facts db) db else db

inductive Issued (facts : ThreadFacts) : SqlUpdate → Prop
  | provider (table : String) : Issued facts (providerUpdate table facts.targetProvider)
  | userEvent (threadId : Text) : Issued facts (userEventUpdate threadId)
  | cwd {threadId cwd : Text} (known : facts.cwdByThreadId.lookup threadId = some cwd) :
      Issued facts (cwdUpdate threadId cwd)

section Updates

variable {facts : ThreadFacts} {db : Database} {t u : SqlUpdate}

theorem issued_of_mem (h : u ∈ sqliteUpdates facts db) : Issued facts u ∧ u.column ∈ db.columns u.table := by
  simp only [sqliteUpdates, List.mem_append, List.mem_ite_nil_right, List.mem_singleton, List.mem_map] at h
  rcases h with ((⟨hcolumn, rfl⟩ | ⟨hcolumn, rfl⟩) | ⟨hcolumn, threadId, -, rfl⟩) | ⟨hcolumn, entry, hentry, rfl⟩
  · exact ⟨.provider _, hcolumn⟩
  · exact ⟨.provider _, hcolumn⟩
  · exact ⟨.userEvent threadId, hcolumn⟩
  · exact ⟨.cwd (Table.lookup_eq_some_iff.mpr hentry), hcolumn⟩

theorem Issued.sound (h : Issued facts u) : u.Sound := by
  cases h with
  | provider table => exact ⟨by simp [providerUpdate, coalesce], fun key hkey => by simp [providerUpdate] at hkey⟩
  | userEvent threadId =>
    refine ⟨by simp [userEventUpdate, coalesce], fun key hkey => ?_⟩
    cases hkey
    exact (by decide : "id" ≠ "has_user_event")
  | cwd known =>
    refine ⟨by simp [cwdUpdate, coalesce], fun key hkey => ?_⟩
    cases hkey
    exact (by decide : "id" ≠ "cwd")

/-- No update undoes another: they write different columns, or the same value, or rows of different threads. -/
theorem Issued.spares (ht : Issued facts t) (hu : Issued facts u) : t.Spares u := by
  have hid : ∀ {v : SqlUpdate}, Issued facts v → "id" ≠ v.column := by
    intro v hv
    cases hv with
    | provider table => exact (by decide : "id" ≠ "model_provider")
    | userEvent threadId => exact (by decide : "id" ≠ "has_user_event")
    | cwd known => exact (by decide : "id" ≠ "cwd")
  have hkeys : ∀ key ∈ u.key, key.1 = "id" := by
    intro key hkey
    cases hu with
    | provider table => cases hkey
    | userEvent threadId => cases hkey; rfl
    | cwd known => cases hkey; rfl
  refine ⟨fun _ key hkey => ?_, fun _ hcolumn row htkey hukey => ?_⟩
  · rw [hkeys key hkey]
    exact hid ht
  · cases ht with
    | provider table =>
      cases hu with
      | provider table' => simp [providerUpdate, coalesce]
      | userEvent threadId => exact absurd hcolumn (by simp [providerUpdate, userEventUpdate])
      | cwd known => exact absurd hcolumn (by simp [providerUpdate, cwdUpdate])
    | userEvent threadId =>
      cases hu with
      | provider table' => exact absurd hcolumn (by simp [providerUpdate, userEventUpdate])
      | userEvent threadId' => simp [userEventUpdate, coalesce]
      | cwd known => exact absurd hcolumn (by simp [userEventUpdate, cwdUpdate])
    | cwd known =>
      cases hu with
      | provider table' => exact absurd hcolumn (by simp [providerUpdate, cwdUpdate])
      | userEvent threadId' => exact absurd hcolumn (by simp [userEventUpdate, cwdUpdate])
      | cwd known' =>
        simp only [SqlUpdate.keyMatches, cwdUpdate, decide_eq_true_eq] at htkey hukey
        cases htkey.symm.trans hukey
        cases known.symm.trans known'
        simp [cwdUpdate, coalesce]

theorem countSqliteUpdates_eq_zero_iff :
    countSqliteUpdates facts db = 0 ↔ ∀ u ∈ sqliteUpdates facts db, u.count db = 0 := by
  simp [countSqliteUpdates, List.sum_eq_zero_iff_forall_eq_nat]

theorem applySqliteUpdate_eq_self_iff :
    applySqliteUpdate facts db = db ↔ (namesProvider db = true → countSqliteUpdates facts db = 0) := by
  unfold applySqliteUpdate
  split
  · rename_i hnames
    rw [SqlUpdate.runAll_eq_self_iff (fun u hu => (issued_of_mem hu).1.sound)
      (fun t ht u hu => (issued_of_mem ht).1.spares (issued_of_mem hu).1) (fun u hu => (issued_of_mem hu).2),
      countSqliteUpdates_eq_zero_iff]
    exact ⟨fun h _ => h, fun h => h hnames⟩
  · rename_i hnames
    exact ⟨fun _ h => absurd h hnames, fun _ => rfl⟩

theorem count_applySqliteUpdate (hnames : namesProvider db = true) (hu : u ∈ sqliteUpdates facts db) :
    u.count (applySqliteUpdate facts db) = 0 := by
  rw [applySqliteUpdate, if_pos hnames]
  exact SqlUpdate.count_runAll (fun u hu => (issued_of_mem hu).1.sound)
    (fun t ht u hu => (issued_of_mem ht).1.spares (issued_of_mem hu).1) (fun u hu => (issued_of_mem hu).2) u hu

end Updates

/-! ## The local catalogue -/

structure CatalogRepairThread where
  id : Text
  displayTitle : Text
  sourceCreatedAt : Rat
  sourceUpdatedAt : Rat
  cwd : Text
  sourceKind : Text
  sourceDetail : Text
  modelProvider : Text
  gitBranch : Option Text
  threadSource : Option Text

section Select

variable (columns : List String)

def textExpr (column : String) (fallback : SqlValue) (row : SqlRow) : SqlValue :=
  if column ∈ columns then coalesce (row.get column) fallback else fallback

/-- The first candidate that is neither null nor empty. -/
def coalesceTextExpr (candidates : List String) (fallback : SqlValue) (row : SqlRow) : SqlValue :=
  (((candidates.filter (· ∈ columns)).map row.get).find? fun value => value ≠ .null ∧ value ≠ .text []).getD fallback

/-- Division by 1000.0; what is not a number counts as 0. -/
def divThousand : SqlValue → SqlValue
  | .null => .null
  | .integer value => .real (value / 1000)
  | .real value => .real (value / 1000)
  | .text _ | .blob _ => .real 0

/-- Texts and blobs come after all numbers. -/
def exceeds (bound : Int) : SqlValue → Bool
  | .null => false
  | .integer value => bound < value
  | .real value => bound < value
  | .text _ | .blob _ => true

def timestampExpr (msColumn secondsColumn : String) (row : SqlRow) : SqlValue :=
  if msColumn ∈ columns then coalesce (divThousand (row.get msColumn)) (.integer 0)
  else if secondsColumn ∈ columns then
    let seconds := coalesce (row.get secondsColumn) (.integer 0)
    if exceeds 9999999999 seconds then divThousand (row.get secondsColumn) else seconds
  else .integer 0

end Select

namespace SqlGet

def string : SqlValue → Option Text
  | .text value => some value
  | _ => none

def real : SqlValue → Option Rat
  | .integer value => some value
  | .real value => some value
  | _ => none

end SqlGet

/-- One row of the query. The id has to be a text. -/
def catalogRepairThread (columns : List String) (targetProvider : Text) (row : SqlRow) : Option CatalogRepairThread :=
  match SqlGet.string (row.get "id") with
  | none => none
  | some id => some
      { id
        displayTitle := (SqlGet.string (coalesceTextExpr columns ["name", "title", "preview", "first_user_message"]
          (row.get "id") row)).getD []
        sourceCreatedAt := (SqlGet.real (timestampExpr columns "created_at_ms" "created_at" row)).getD 0
        sourceUpdatedAt := (SqlGet.real (timestampExpr columns "updated_at_ms" "updated_at" row)).getD 0
        cwd := (SqlGet.string (textExpr columns "cwd" (.text []) row)).getD []
        sourceKind := (SqlGet.string (coalesceTextExpr columns ["source"] (.text "cli".toList) row)).getD "cli".toList
        sourceDetail := (SqlGet.string (textExpr columns "rollout_path" (.text []) row)).getD []
        modelProvider := targetProvider
        gitBranch := SqlGet.string (textExpr columns "git_branch" .null row)
        threadSource := SqlGet.string (textExpr columns "thread_source" .null row) }

/-- The threads of one database that have an id; `none` if an id is not a text. -/
def databaseThreads (targetProvider : Text) (db : Database) : Option (List CatalogRepairThread) :=
  if "id" ∈ db.columns "threads" then
    ((db.rows "threads").filter fun row => coalesce (row.get "id") (.text []) ≠ .text []).mapM
      (catalogRepairThread (db.columns "threads") targetProvider)
  else some []

/-- Of two threads with one id the one updated later counts. -/
def addThread (threads : Table Text CatalogRepairThread) (thread : CatalogRepairThread) :
    Table Text CatalogRepairThread :=
  match threads.lookup thread.id with
  | some current => if thread.sourceUpdatedAt > current.sourceUpdatedAt then threads.insert thread.id thread else threads
  | none => threads.insert thread.id thread

def collectCatalogRepairThreads (targetProvider : Text) (databases : List Database) :
    Option (Table Text CatalogRepairThread) :=
  (databases.mapM (databaseThreads targetProvider)).map fun threads => threads.flatten.foldl addThread ∅

def repairColumns : List String :=
  ["host_id", "thread_id", "display_title", "source_created_at", "source_updated_at", "cwd", "source_kind",
    "model_provider", "observation_sequence"]

def catalogSupportsRepair (db : Database) : Bool := repairColumns.all (· ∈ db.columns "local_thread_catalog")

/-- The order of SQLite: null, numbers, texts, blobs. -/
def sqlLe : SqlValue → SqlValue → Bool
  | .null, _ => true
  | _, .null => false
  | .integer a, .integer b => a ≤ b
  | .integer a, .real b => a ≤ b
  | .real a, .integer b => a ≤ b
  | .real a, .real b => a ≤ b
  | .integer _, _ | .real _, _ => true
  | _, .integer _ | _, .real _ => false
  | .text a, .text b => decide (a ≤ b)
  | .text _, .blob _ => true
  | .blob _, .text _ => false
  | .blob a, .blob b => decide (a ≤ b)

/-- `none` if the first host id is not a text. -/
def localCatalogHostId (db : Database) : Option Text :=
  if "host_id" ∈ db.columns "local_thread_catalog_hosts" then
    match (((db.rows "local_thread_catalog_hosts").map (·.get "host_id")).mergeSort sqlLe).head? with
    | none => some "local".toList
    | some (.text hostId) => some (if (Text.trim hostId).isEmpty then "local".toList else hostId)
    | some _ => none
  else some "local".toList

/-- `none` if the greatest sequence number is not an integer. -/
def localCatalogMaxObservationSequence (db : Database) : Option Int :=
  match (((db.rows "local_thread_catalog").map (·.get "observation_sequence")).filter (· ≠ .null)).mergeSort
      (fun a b => sqlLe b a) with
  | [] => some 0
  | .integer value :: _ => some value
  | _ => none

def localCatalogContainsThread (db : Database) (hostId threadId : Text) : Bool :=
  (db.rows "local_thread_catalog").any fun row =>
    row.get "host_id" = .text hostId ∧ row.get "thread_id" = .text threadId

def optionText : Option Text → SqlValue
  | some value => .text value
  | none => .null

def localCatalogInsertValue (hostId : Text) (thread : CatalogRepairThread) (observationSequence : Int) :
    String → SqlValue
  | "host_id" => .text hostId
  | "thread_id" => .text thread.id
  | "display_title" => .text thread.displayTitle
  | "source_created_at" => .real thread.sourceCreatedAt
  | "source_updated_at" => .real thread.sourceUpdatedAt
  | "cwd" => .text thread.cwd
  | "source_kind" => .text thread.sourceKind
  | "source_detail" => .text thread.sourceDetail
  | "model_provider" => .text thread.modelProvider
  | "git_branch" => optionText thread.gitBranch
  | "thread_source" => optionText thread.threadSource
  | "observation_sequence" => .integer observationSequence
  | "missing_candidate" => .integer 0
  | _ => .null

/-- `INSERT` of a row; a column without a value is null. -/
def insertInto (table : String) (value : String → SqlValue) (db : Database) : Database :=
  Function.update db table <| (db table).map fun t =>
    { t with
      rows := t.rows ++ [t.columns.map fun column => (column, value column)]
      fits := by
        intro row hrow
        rcases List.mem_append.mp hrow with hrow | hrow
        · exact t.fits row hrow
        · cases List.mem_singleton.mp hrow
          simp [SqlRow.columns, List.map_map, Function.comp_def] }

/-- `INSERT OR IGNORE` under the key of host and thread. -/
def insertThread (hostId : Text) (db : Database) (thread : CatalogRepairThread) (observationSequence : Int) :
    Database × Bool :=
  if localCatalogContainsThread db hostId thread.id then (db, false)
  else (insertInto "local_thread_catalog" (localCatalogInsertValue hostId thread observationSequence) db, true)

structure Insertion where
  db : Database
  observationSequence : Int
  inserted : Nat := 0
  maxSourceUpdatedAt : Rat := 0

def insertMissing (hostId : Text) (state : Insertion) (thread : CatalogRepairThread) : Insertion :=
  let observationSequence := state.observationSequence + 1
  let (db, added) := insertThread hostId state.db thread observationSequence
  { db, observationSequence
    inserted := if added then state.inserted + 1 else state.inserted
    maxSourceUpdatedAt :=
      if added then max state.maxSourceUpdatedAt thread.sourceUpdatedAt else state.maxSourceUpdatedAt }

/-- Addition of an integer; what is not a number counts as 0. -/
def plus (n : Int) : SqlValue → SqlValue
  | .null => .null
  | .integer value => .integer (value + n)
  | .real value => .real (value + n)
  | .text _ | .blob _ => .integer n

def sqlMax (a b : SqlValue) : SqlValue := if sqlLe a b then b else a

def updateLocalCatalogMetadata (inserted : Nat) (db : Database) : Database :=
  let table := "local_thread_catalog_metadata"
  if "catalog_revision" ∉ db.columns table then db
  else if (db.rows table).isEmpty then
    if "id" ∈ db.columns table then
      insertInto table (fun column =>
        if column = "id" then .integer 1 else if column = "catalog_revision" then .integer inserted else .null) db
    else db
  else
    db.mapRows table (fun row => row.set "catalog_revision" (plus inserted (row.get "catalog_revision")))
      fun _ => SqlRow.columns_set ..

def syncStateAssignments (columns : List String) (observationSequence : Int) (maxSourceUpdatedAt : Rat) (now : Int) :
    List (String × (SqlValue → SqlValue) × SqlValue) :=
  [("initial_build_complete", fun _ => .integer 1, .integer 1),
    ("observation_sequence", fun old => sqlMax (coalesce old (.integer 0)) (.integer observationSequence),
      .integer observationSequence),
    ("watermark_updated_at", fun old => sqlMax (coalesce old (.integer 0)) (.real maxSourceUpdatedAt),
      .real maxSourceUpdatedAt),
    ("last_full_reconciled_at", fun old => sqlMax (coalesce old (.integer 0)) (.integer now), .integer now)].filter
    (·.1 ∈ columns)

def assign (assignments : List (String × (SqlValue → SqlValue) × SqlValue)) (row : SqlRow) : SqlRow :=
  assignments.foldl (fun row assignment => row.set assignment.1 (assignment.2.1 (row.get assignment.1))) row

theorem columns_assign (assignments : List (String × (SqlValue → SqlValue) × SqlValue)) (row : SqlRow) :
    SqlRow.columns (assign assignments row) = SqlRow.columns row := by
  induction assignments generalizing row with
  | nil => rfl
  | cons assignment assignments ih => exact (ih _).trans (SqlRow.columns_set ..)

def updateLocalCatalogSyncState (hostId : Text) (observationSequence : Int) (maxSourceUpdatedAt : Rat) (now : Int)
    (db : Database) : Database :=
  let table := "local_thread_catalog_sync_state"
  let assignments := syncStateAssignments (db.columns table) observationSequence maxSourceUpdatedAt now
  if "host_id" ∉ db.columns table ∨ assignments.isEmpty then db
  else if (db.rows table).any (·.get "host_id" = .text hostId) then
    db.mapRows table (fun row => if row.get "host_id" = .text hostId then assign assignments row else row) (by
      intro row
      split
      · exact columns_assign ..
      · rfl)
  else
    insertInto table (fun column =>
      if column = "host_id" then .text hostId
      else ((assignments.find? (·.1 = column)).map (·.2.2)).getD .null) db

/-- The transaction of one database: the threads it misses are added in the order of their ids. -/
def repairDatabase (threads : List CatalogRepairThread) (now : Int) (db : Database) : Option Database :=
  if !catalogSupportsRepair db then some db
  else
    match localCatalogHostId db, localCatalogMaxObservationSequence db with
    | some hostId, some observationSequence =>
      let result := (threads.mergeSort fun a b => decide (a.id ≤ b.id)).foldl (insertMissing hostId)
        { db, observationSequence }
      if result.inserted = 0 then some result.db
      else some (updateLocalCatalogSyncState hostId result.observationSequence result.maxSourceUpdatedAt now
        (updateLocalCatalogMetadata result.inserted result.db))
    | _, _ => none

section Repair

variable {hostId : Text} {threads : List CatalogRepairThread} {db : Database}

theorem rows_insertInto (table : String) (value : String → SqlValue) (hexists : (db table).isSome = true) :
    (insertInto table value db).rows table =
      db.rows table ++ [(db.columns table).map fun column => (column, value column)] := by
  obtain ⟨t, ht⟩ := Option.isSome_iff_exists.mp hexists
  simp [insertInto, Database.rows, Database.columns, ht]

variable {table : String}

theorem insertInto_other {other : String} (h : other ≠ table) (value : String → SqlValue) :
    insertInto table value db other = db other := Function.update_of_ne h _ _

theorem rows_congr {other : Database} (h : other table = db table) : other.rows table = db.rows table := by
  rw [Database.rows, h, Database.rows]

theorem updateLocalCatalogMetadata_other {inserted : Nat} (h : table ≠ "local_thread_catalog_metadata") :
    updateLocalCatalogMetadata inserted db table = db table := by
  unfold updateLocalCatalogMetadata
  split
  · rfl
  · split
    · split
      · exact insertInto_other h _
      · rfl
    · exact Function.update_of_ne h _ _

theorem updateLocalCatalogSyncState_other {observationSequence : Int} {maxSourceUpdatedAt : Rat} {now : Int}
    (h : table ≠ "local_thread_catalog_sync_state") :
    updateLocalCatalogSyncState hostId observationSequence maxSourceUpdatedAt now db table = db table := by
  unfold updateLocalCatalogSyncState
  split
  · rfl
  · split
    · exact Function.update_of_ne h _ _
    · exact insertInto_other h _

/-- What adding threads does to a database: rows are added to the catalogue and nothing else changes. -/
structure Extends (targetProvider : Text) (before after : Database) (inserted : Nat) : Prop where
  other : ∀ table, table ≠ "local_thread_catalog" → after table = before table
  columns : after.columns "local_thread_catalog" = before.columns "local_thread_catalog"
  rows : ∃ more, after.rows "local_thread_catalog" = before.rows "local_thread_catalog" ++ more ∧
    more.length = inserted ∧ ∀ row ∈ more, row.get "model_provider" = .text targetProvider

theorem get_map_of_mem {column : String} {columns : List String} (h : column ∈ columns) (value : String → SqlValue) :
    SqlRow.get column (columns.map fun column => (column, value column)) = value column := by
  induction columns with
  | nil => cases h
  | cons c columns ih =>
    by_cases heq : c = column
    · simp [SqlRow.get, heq]
    · have hrest := ih ((List.mem_cons.mp h).resolve_left fun h' => heq h'.symm)
      simpa [SqlRow.get, heq] using hrest

theorem supportsRepair_columns (h : catalogSupportsRepair db = true) {column : String} (hcolumn : column ∈ repairColumns) :
    column ∈ db.columns "local_thread_catalog" := by
  have hmem := List.all_eq_true.mp h column hcolumn
  simpa using hmem

theorem supportsRepair_exists (h : catalogSupportsRepair db = true) : (db "local_thread_catalog").isSome = true := by
  have hcolumn := supportsRepair_columns h (by decide : "host_id" ∈ repairColumns)
  unfold Database.columns at hcolumn
  cases ht : db "local_thread_catalog" with
  | none => rw [ht] at hcolumn; cases hcolumn
  | some t => rfl

variable {targetProvider : Text}

theorem Extends.refl : Extends targetProvider db db 0 :=
  ⟨fun _ _ => rfl, rfl, [], by simp, rfl, fun _ h => by cases h⟩

theorem Extends.insertThread {before : Database} {inserted : Nat} {thread : CatalogRepairThread}
    (h : Extends targetProvider before db inserted) (hsupports : catalogSupportsRepair before = true)
    (hprovider : thread.modelProvider = targetProvider) (observationSequence : Int) :
    Extends targetProvider before (insertThread hostId db thread observationSequence).1
      (if (insertThread hostId db thread observationSequence).2 then inserted + 1 else inserted) := by
  unfold Data.insertThread
  split
  · exact h
  · have hexists : (db "local_thread_catalog").isSome = true := by
      refine supportsRepair_exists ?_
      rw [catalogSupportsRepair, h.columns]
      exact hsupports
    obtain ⟨more, hrows, hlength, hmore⟩ := h.rows
    refine ⟨fun table hne => (insertInto_other hne _).trans (h.other table hne), ?_, ?_⟩
    · rw [← h.columns]
      obtain ⟨t, ht⟩ := Option.isSome_iff_exists.mp hexists
      simp [insertInto, Database.columns, ht]
    · refine ⟨more ++ [(db.columns "local_thread_catalog").map fun column =>
        (column, localCatalogInsertValue hostId thread observationSequence column)], ?_, ?_, ?_⟩
      · rw [rows_insertInto _ _ hexists, hrows, List.append_assoc]
      · simp [hlength]
      · intro row hrow
        rcases List.mem_append.mp hrow with hrow | hrow
        · exact hmore row hrow
        · cases List.mem_singleton.mp hrow
          rw [get_map_of_mem]
          · exact congrArg SqlValue.text hprovider
          · rw [h.columns]
            exact supportsRepair_columns hsupports (by decide)

theorem Extends.insertAll {before : Database} {state : Insertion} (h : Extends targetProvider before state.db state.inserted)
    (hsupports : catalogSupportsRepair before = true) (hprovider : ∀ thread ∈ threads, thread.modelProvider = targetProvider) :
    Extends targetProvider before (threads.foldl (insertMissing hostId) state).db
      (threads.foldl (insertMissing hostId) state).inserted := by
  induction threads generalizing state with
  | nil => exact h
  | cons thread threads ih =>
    refine ih ?_ fun other hother => hprovider other (by simp [hother])
    exact h.insertThread hsupports (hprovider thread (by simp)) _

theorem inserted_mono (hostId : Text) (threads : List CatalogRepairThread) (state : Insertion) :
    state.inserted ≤ (threads.foldl (insertMissing hostId) state).inserted := by
  induction threads generalizing state with
  | nil => exact Nat.le_refl _
  | cons thread threads ih =>
    refine Nat.le_trans ?_ (ih _)
    simp only [insertMissing]
    split
    · exact Nat.le_succ _
    · exact Nat.le_refl _

theorem insertAll_idle_iff (hostId : Text) (threads : List CatalogRepairThread) (state : Insertion) :
    (threads.foldl (insertMissing hostId) state).inserted = state.inserted ↔
      ∀ thread ∈ threads, localCatalogContainsThread state.db hostId thread.id = true := by
  induction threads generalizing state with
  | nil => simp
  | cons thread threads ih =>
    rw [List.foldl_cons]
    cases hhere : localCatalogContainsThread state.db hostId thread.id with
    | true =>
      have hnext : (insertMissing hostId state thread).inserted = state.inserted ∧
          (insertMissing hostId state thread).db = state.db := by
        simp [insertMissing, insertThread, hhere]
      rw [← hnext.1, ih, hnext.2]
      simp [hhere]
    | false =>
      have hmono := inserted_mono hostId threads (insertMissing hostId state thread)
      have hnext : (insertMissing hostId state thread).inserted = state.inserted + 1 := by
        simp [insertMissing, insertThread, hhere]
      constructor
      · intro h
        omega
      · intro h
        exact absurd (h thread (by simp)) (by simp [hhere])

theorem insertAll_db {state : Insertion}
    (h : ∀ thread ∈ threads, localCatalogContainsThread state.db hostId thread.id = true) :
    (threads.foldl (insertMissing hostId) state).db = state.db := by
  induction threads generalizing state with
  | nil => rfl
  | cons thread threads ih =>
    have hnext : (insertMissing hostId state thread).db = state.db := by
      simp [insertMissing, insertThread, h thread (by simp)]
    rw [List.foldl_cons, ih, hnext]
    intro other hother
    rw [hnext]
    exact h other (by simp [hother])

end Repair

def catalogComplete (threads : List CatalogRepairThread) (db : Database) : Prop :=
  catalogSupportsRepair db = true → ∀ hostId, localCatalogHostId db = some hostId →
    ∀ thread ∈ threads, localCatalogContainsThread db hostId thread.id = true

section RepairDatabase

variable {threads : List CatalogRepairThread} {now : Int} {db db' : Database} {targetProvider : Text}

/-- A repair adds rows to the catalogue, and otherwise only touches the tables that keep account of it. -/
theorem repairDatabase_spec (hprovider : ∀ thread ∈ threads, thread.modelProvider = targetProvider)
    (h : repairDatabase threads now db = some db') :
    db'.rows "threads" = db.rows "threads" ∧
    (∃ more, db'.rows "local_thread_catalog" = db.rows "local_thread_catalog" ++ more ∧
      ∀ row ∈ more, row.get "model_provider" = .text targetProvider) ∧
    (db' = db ↔ catalogComplete threads db) := by
  unfold repairDatabase at h
  split at h
  · rename_i hsupports
    cases h
    refine ⟨rfl, ⟨[], by simp, fun _ hrow => by cases hrow⟩, fun _ hs => ?_, fun _ => rfl⟩
    rw [hs] at hsupports
    cases hsupports
  · rename_i hsupports
    have hsupports : catalogSupportsRepair db = true := by simpa using hsupports
    split at h
    · rename_i hostId observationSequence hhost hsequence
      dsimp only at h
      have hmem : ∀ thread, thread ∈ threads.mergeSort (fun a b => decide (a.id ≤ b.id)) ↔ thread ∈ threads :=
        fun thread => List.mem_mergeSort
      generalize threads.mergeSort (fun a b => decide (a.id ≤ b.id)) = sorted at h hmem
      have hextends : Extends targetProvider db (sorted.foldl (insertMissing hostId) { db, observationSequence }).db
          (sorted.foldl (insertMissing hostId) { db, observationSequence }).inserted :=
        Extends.refl.insertAll hsupports fun thread hthread => hprovider thread ((hmem thread).mp hthread)
      have hidle := insertAll_idle_iff hostId sorted { db, observationSequence }
      have hcomplete : catalogComplete threads db ↔
          ∀ thread ∈ sorted, localCatalogContainsThread db hostId thread.id = true := by
        constructor
        · intro hall thread hthread
          exact hall hsupports hostId hhost thread ((hmem thread).mp hthread)
        · intro hall _ other hother thread hthread
          cases hhost.symm.trans hother
          exact hall thread ((hmem thread).mpr hthread)
      rw [← hcomplete] at hidle
      split at h
      · rename_i hzero
        cases h
        have hdone : catalogComplete threads db := hidle.mp hzero
        have hsame : (sorted.foldl (insertMissing hostId) { db, observationSequence }).db = db :=
          insertAll_db (hcomplete.mp hdone)
        rw [hsame]
        exact ⟨rfl, ⟨[], by simp, fun _ hrow => by cases hrow⟩, fun _ => hdone, fun _ => rfl⟩
      · rename_i hsome
        cases h
        obtain ⟨more, hrows, hlength, hmore⟩ := hextends.rows
        have hthreads := hextends.other "threads" (by decide)
        generalize sorted.foldl (insertMissing hostId) { db, observationSequence } = result at *
        have hcatalog : ∀ table, table ≠ "local_thread_catalog_sync_state" → table ≠ "local_thread_catalog_metadata" →
            updateLocalCatalogSyncState hostId result.observationSequence result.maxSourceUpdatedAt now
              (updateLocalCatalogMetadata result.inserted result.db) table = result.db table := by
          intro table hsync hmeta
          rw [updateLocalCatalogSyncState_other hsync, updateLocalCatalogMetadata_other hmeta]
        have hlonger := rows_congr (hcatalog "local_thread_catalog" (by decide) (by decide))
        refine ⟨rows_congr ((hcatalog "threads" (by decide) (by decide)).trans hthreads), ?_, ?_⟩
        · exact ⟨more, hlonger.trans hrows, hmore⟩
        · constructor
          · intro hsame
            rw [hsame, hrows] at hlonger
            have hlengths := congrArg List.length hlonger
            rw [List.length_append, hlength] at hlengths
            omega
          · intro hdone
            exact absurd (hidle.mpr hdone) hsome
    · cases h

theorem update_table {facts : ThreadFacts} {u : SqlUpdate} (h : u ∈ sqliteUpdates facts db) :
    u.table = "threads" ∨ u = providerUpdate "local_thread_catalog" facts.targetProvider := by
  simp only [sqliteUpdates, List.mem_append, List.mem_ite_nil_right, List.mem_singleton, List.mem_map] at h
  rcases h with ((⟨-, rfl⟩ | ⟨-, rfl⟩) | ⟨-, threadId, -, rfl⟩) | ⟨-, entry, -, rfl⟩
  · exact .inl rfl
  · exact .inr rfl
  · exact .inl rfl
  · exact .inl rfl

theorem count_repairDatabase {facts : ThreadFacts} {u : SqlUpdate} {before : Database}
    (hprovider : ∀ thread ∈ threads, thread.modelProvider = facts.targetProvider)
    (h : repairDatabase threads now db = some db') (hu : u ∈ sqliteUpdates facts before) (hzero : u.count db = 0) :
    u.count db' = 0 := by
  obtain ⟨hthreads, ⟨more, hcatalog, hmore⟩, -⟩ := repairDatabase_spec hprovider h
  rw [SqlUpdate.count_eq_zero_iff] at hzero ⊢
  rcases update_table hu with htable | rfl
  · rw [htable, hthreads, ← htable]
    exact hzero
  · intro row hrow
    have hrow : row ∈ db'.rows "local_thread_catalog" := hrow
    rw [hcatalog] at hrow
    rcases List.mem_append.mp hrow with hrow | hrow
    · exact hzero row hrow
    · simp [SqlUpdate.selects, providerUpdate, hmore row hrow, coalesce]

theorem forall_of_mapM {α β : Type} {f : α → Option β} {P : β → Prop} (hf : ∀ x y, f x = some y → P y)
    {xs : List α} {ys : List β} (h : xs.mapM f = some ys) : ∀ y ∈ ys, P y := by
  induction xs generalizing ys with
  | nil => cases h; exact fun _ hy => by cases hy
  | cons x xs ih =>
    rw [List.mapM_cons] at h
    obtain ⟨y, hy, h⟩ := Option.bind_eq_some_iff.mp h
    obtain ⟨rest, hrest, h⟩ := Option.bind_eq_some_iff.mp h
    cases h
    intro z hz
    rcases List.mem_cons.mp hz with rfl | hz
    · exact hf x z hy
    · exact ih hrest z hz

theorem databaseThreads_provider {threads : List CatalogRepairThread} (h : databaseThreads targetProvider db = some threads) :
    ∀ thread ∈ threads, thread.modelProvider = targetProvider := by
  unfold databaseThreads at h
  split at h
  · refine forall_of_mapM (fun row thread hthread => ?_) h
    unfold catalogRepairThread at hthread
    split at hthread <;> cases hthread
    rfl
  · cases h
    exact fun _ hthread => by cases hthread

theorem addThread_provider {threads : Table Text CatalogRepairThread} {thread : CatalogRepairThread}
    (h : ∀ id found, threads.lookup id = some found → found.modelProvider = targetProvider)
    (hthread : thread.modelProvider = targetProvider) :
    ∀ id found, (addThread threads thread).lookup id = some found → found.modelProvider = targetProvider := by
  have hinsert : ∀ id found, (threads.insert thread.id thread).lookup id = some found →
      found.modelProvider = targetProvider := by
    intro id found hfound
    by_cases heq : id = thread.id
    · subst heq
      rw [AList.lookup_insert] at hfound
      cases hfound
      exact hthread
    · rw [AList.lookup_insert_ne heq] at hfound
      exact h id found hfound
  unfold addThread
  split
  · split
    · exact hinsert
    · exact h
  · exact hinsert

theorem collectCatalogRepairThreads_provider {databases : List Database} {threads : Table Text CatalogRepairThread}
    (h : collectCatalogRepairThreads targetProvider databases = some threads) :
    ∀ thread ∈ threads.values, thread.modelProvider = targetProvider := by
  obtain ⟨lists, hlists, rfl⟩ := Option.map_eq_some_iff.mp h
  have hall : ∀ thread ∈ lists.flatten, thread.modelProvider = targetProvider := by
    intro thread hthread
    obtain ⟨list, hlist, hthread⟩ := List.mem_flatten.mp hthread
    exact forall_of_mapM (fun _ _ => databaseThreads_provider) hlists list hlist thread hthread
  intro thread hthread
  obtain ⟨id, hlookup⟩ := Table.mem_values_iff.mp hthread
  have hfold : ∀ (all : List CatalogRepairThread) (start : Table Text CatalogRepairThread),
      (∀ thread ∈ all, thread.modelProvider = targetProvider) →
      (∀ id found, start.lookup id = some found → found.modelProvider = targetProvider) →
      ∀ id found, (all.foldl addThread start).lookup id = some found → found.modelProvider = targetProvider := by
    intro all
    induction all with
    | nil => exact fun _ _ hstart => hstart
    | cons thread all ih =>
      intro start hnames hstart
      exact ih _ (fun other hother => hnames other (by simp [hother])) (addThread_provider hstart (hnames thread (by simp)))
  exact hfold lists.flatten ∅ hall (fun id found hfound => by rw [AList.lookup_empty] at hfound; cases hfound) id thread hlookup

end RepairDatabase

end Lumio.Data
