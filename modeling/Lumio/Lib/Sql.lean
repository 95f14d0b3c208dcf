import Lumio.Lib.Text
import Mathlib.Algebra.Order.Ring.Rat
import Mathlib.Data.Char
import Mathlib.Data.List.Lex

/-!
# SQL tables

A database maps the names of its tables to them; a row has one cell for each column of its table. Statements are
updates and inserts of rows. Values are those of SQLite, with rational numbers for its reals.
-/

inductive SqlValue where
  | null
  | integer (value : Int)
  | real (value : Rat)
  | text (value : Text)
  | blob (value : List UInt8)
deriving DecidableEq

abbrev SqlRow := List (String × SqlValue)

namespace SqlRow

def get (column : String) (row : SqlRow) : SqlValue := ((row.find? (·.1 = column)).map (·.2)).getD .null

def set (column : String) (value : SqlValue) (row : SqlRow) : SqlRow :=
  row.map fun cell => if cell.1 = column then (column, value) else cell

def columns (row : SqlRow) : List String := row.map (·.1)

@[simp] theorem columns_set (column : String) (value : SqlValue) (row : SqlRow) :
    columns (row.set column value) = columns row := by
  unfold columns set
  rw [List.map_map]
  apply List.map_congr_left
  intro cell _
  simp only [Function.comp_apply]
  split
  · rename_i h; exact h.symm
  · rfl

theorem get_set_self {column : String} {row : SqlRow} (h : column ∈ columns row) (value : SqlValue) :
    get column (row.set column value) = value := by
  induction row with
  | nil => cases h
  | cons cell row ih =>
    by_cases heq : cell.1 = column
    · simp [get, set, heq]
    · have hrest : column ∈ columns row := by
        rcases List.mem_cons.mp h with h | h
        · exact absurd h.symm heq
        · exact h
      have hih := ih hrest
      simpa [get, set, heq] using hih

theorem get_set_of_ne {column other : String} (h : other ≠ column) (value : SqlValue) (row : SqlRow) :
    get other (row.set column value) = get other row := by
  induction row with
  | nil => rfl
  | cons cell row ih =>
    by_cases heq : cell.1 = column
    · have hcolumn : ¬ column = other := fun h' => h h'.symm
      simpa [get, set, heq, hcolumn] using ih
    · by_cases hhere : cell.1 = other
      · simp [get, set, hhere, h]
      · simpa [get, set, heq, hhere] using ih

theorem get_set_cases (column : String) (value : SqlValue) (row : SqlRow) :
    get column (row.set column value) = value ∨ get column (row.set column value) = get column row := by
  by_cases h : column ∈ columns row
  · exact .inl (get_set_self h value)
  · refine .inr (congrArg (get column) ?_)
    unfold set
    conv_rhs => rw [← List.map_id row]
    apply List.map_congr_left
    intro cell hcell
    exact if_neg fun heq => h (List.mem_map.mpr ⟨cell, hcell, heq⟩)

end SqlRow

/-- A table; every row has a cell for each column. -/
structure SqlTable where
  columns : List String
  rows : List SqlRow
  fits : ∀ row ∈ rows, SqlRow.columns row = columns

abbrev Database := String → Option SqlTable

namespace Database

/-- The columns of a table; a table that is not there has none. -/
def columns (table : String) (db : Database) : List String := ((db table).map (·.columns)).getD []

def rows (table : String) (db : Database) : List SqlRow := ((db table).map (·.rows)).getD []

def mapRows (table : String) (f : SqlRow → SqlRow) (hf : ∀ row, SqlRow.columns (f row) = SqlRow.columns row)
    (db : Database) : Database :=
  Function.update db table <| (db table).map fun t =>
    { t with
      rows := t.rows.map f
      fits := by
        intro row hrow
        obtain ⟨row, hmem, rfl⟩ := List.mem_map.mp hrow
        rw [hf, t.fits row hmem] }

variable {table : String} {f : SqlRow → SqlRow} {hf : ∀ row, SqlRow.columns (f row) = SqlRow.columns row} {db : Database}

@[simp] theorem rows_mapRows : rows table (mapRows table f hf db) = (rows table db).map f := by
  unfold rows mapRows
  rw [Function.update_self]
  cases db table <;> rfl

theorem rows_mapRows_of_ne {other : String} (h : other ≠ table) :
    rows other (mapRows table f hf db) = rows other db := by
  unfold rows mapRows
  rw [Function.update_of_ne h]

@[simp] theorem columns_mapRows (other : String) : columns other (mapRows table f hf db) = columns other db := by
  unfold columns mapRows
  by_cases h : other = table
  · subst h
    rw [Function.update_self]
    cases db other <;> rfl
  · rw [Function.update_of_ne h]

theorem mapRows_eq_self (h : ∀ row ∈ rows table db, f row = row) : mapRows table f hf db = db := by
  unfold mapRows
  cases ht : db table with
  | none => rw [Option.map_none, ← ht, Function.update_eq_self]
  | some t =>
    have hsame : t.rows.map f = t.rows := by
      have hrows : rows table db = t.rows := by rw [rows, ht]; rfl
      rw [hrows] at h
      exact (List.map_congr_left h).trans (List.map_id _)
    conv_rhs => rw [← Function.update_eq_self table db, ht]
    simp only [Option.map_some, hsame]

theorem columns_of_mem {row : SqlRow} (h : row ∈ rows table db) : SqlRow.columns row = columns table db := by
  unfold rows at h
  unfold columns
  cases ht : db table with
  | none => rw [ht] at h; cases h
  | some t => rw [ht] at h; exact t.fits row h

end Database

/-! ## Updates -/

/-- `UPDATE table SET column = value WHERE key AND column is stale`; without a key every row is meant. -/
structure SqlUpdate where
  table : String
  key : Option (String × SqlValue)
  column : String
  value : SqlValue
  stale : SqlValue → Bool

namespace SqlUpdate

def keyMatches (u : SqlUpdate) (row : SqlRow) : Bool :=
  match u.key with
  | none => true
  | some (column, value) => row.get column = value

def selects (u : SqlUpdate) (row : SqlRow) : Bool := u.keyMatches row && u.stale (row.get u.column)

def run (u : SqlUpdate) (db : Database) : Database :=
  db.mapRows u.table (fun row => if u.selects row then row.set u.column u.value else row) (by
    intro row
    split
    · exact SqlRow.columns_set ..
    · rfl)

def count (u : SqlUpdate) (db : Database) : Nat := (db.rows u.table).countP u.selects

def runAll (us : List SqlUpdate) (db : Database) : Database := us.foldl (fun db u => u.run db) db

structure Sound (u : SqlUpdate) : Prop where
  fresh : u.stale u.value = false
  keyed : ∀ key ∈ u.key, key.1 ≠ u.column

structure Spares (t u : SqlUpdate) : Prop where
  keyed : t.table = u.table → ∀ key ∈ u.key, key.1 ≠ t.column
  fresh : t.table = u.table → t.column = u.column → ∀ row, t.keyMatches row = true → u.keyMatches row = true →
    u.stale t.value = false

variable {t u : SqlUpdate} {db : Database}

theorem count_eq_zero_iff : u.count db = 0 ↔ ∀ row ∈ db.rows u.table, u.selects row = false := by
  simp [count, List.countP_eq_zero]

theorem run_eq_self (h : u.count db = 0) : u.run db = db := by
  refine Database.mapRows_eq_self fun row hrow => ?_
  rw [if_neg (by simp [count_eq_zero_iff.mp h row hrow])]

@[simp] theorem columns_run (table : String) : (u.run db).columns table = db.columns table := Database.columns_mapRows table

theorem keyMatches_set {column : String} (h : ∀ key ∈ u.key, key.1 ≠ column) (value : SqlValue) (row : SqlRow) :
    u.keyMatches (row.set column value) = u.keyMatches row := by
  unfold keyMatches
  cases hkey : u.key with
  | none => rfl
  | some key =>
    have hne := h key (by rw [hkey]; rfl)
    simp only
    rw [SqlRow.get_set_of_ne hne]

theorem count_run_self (hsound : u.Sound) (hcolumn : u.column ∈ db.columns u.table) : u.count (u.run db) = 0 := by
  rw [count_eq_zero_iff]
  unfold run
  rw [Database.rows_mapRows]
  intro row hrow
  obtain ⟨row, hmem, rfl⟩ := List.mem_map.mp hrow
  split
  · have hcell : u.column ∈ SqlRow.columns row := by rw [Database.columns_of_mem hmem]; exact hcolumn
    simp [selects, SqlRow.get_set_self hcell, hsound.fresh]
  · rename_i hmatch
    simpa using hmatch

theorem count_run (h : t.Spares u) (hfresh : u.count db = 0) : u.count (t.run db) = 0 := by
  rw [count_eq_zero_iff] at hfresh ⊢
  unfold run
  by_cases htable : u.table = t.table
  · rw [htable, Database.rows_mapRows]
    intro row hrow
    obtain ⟨row, hmem, rfl⟩ := List.mem_map.mp hrow
    have hrow := hfresh row (by rw [htable]; exact hmem)
    split
    · rename_i hmatch
      rw [selects, Bool.and_eq_true] at hmatch
      rw [selects, keyMatches_set (h.keyed htable.symm)]
      by_cases hcolumn : u.column = t.column
      · cases hkey : u.keyMatches row with
        | false => rfl
        | true =>
          rw [Bool.true_and, hcolumn]
          rcases SqlRow.get_set_cases t.column t.value row with hset | hset
          · rw [hset]
            exact h.fresh htable.symm hcolumn.symm row hmatch.1 hkey
          · rw [selects, hkey, Bool.true_and, hcolumn] at hrow
            rw [hset]
            exact hrow
      · rw [SqlRow.get_set_of_ne hcolumn]
        exact hrow
    · exact hrow
  · rw [Database.rows_mapRows_of_ne htable]
    exact hfresh

variable {us : List SqlUpdate}

theorem count_runAll_of_fresh (hspares : ∀ t ∈ us, t.Spares u) (h : u.count db = 0) :
    u.count (runAll us db) = 0 := by
  induction us generalizing db with
  | nil => exact h
  | cons t us ih => exact ih (fun t' ht' => hspares t' (by simp [ht'])) (count_run (hspares t (by simp)) h)

theorem count_runAll (hsound : ∀ t ∈ us, t.Sound) (hspares : ∀ t ∈ us, ∀ u ∈ us, t.Spares u)
    (hcolumns : ∀ t ∈ us, t.column ∈ db.columns t.table) : ∀ t ∈ us, t.count (runAll us db) = 0 := by
  induction us generalizing db with
  | nil => exact fun t ht => by cases ht
  | cons u us ih =>
    intro t ht
    rcases List.mem_cons.mp ht with rfl | ht
    · have hfresh := count_run_self (hsound t (by simp)) (hcolumns t (by simp))
      have hrest : t.count (runAll us (t.run db)) = 0 :=
        count_runAll_of_fresh (fun t' ht' => hspares t' (by simp [ht']) t (by simp)) hfresh
      exact hrest
    · refine ih (fun t' ht' => hsound t' (by simp [ht']))
        (fun t' ht' u' hu' => hspares t' (by simp [ht']) u' (by simp [hu'])) (fun t' ht' => ?_) t ht
      rw [columns_run]
      exact hcolumns t' (by simp [ht'])

theorem runAll_eq_self_iff (hsound : ∀ t ∈ us, t.Sound) (hspares : ∀ t ∈ us, ∀ u ∈ us, t.Spares u)
    (hcolumns : ∀ t ∈ us, t.column ∈ db.columns t.table) : runAll us db = db ↔ ∀ t ∈ us, t.count db = 0 := by
  constructor
  · intro h t ht
    have hzero := count_runAll hsound hspares hcolumns t ht
    rwa [h] at hzero
  · intro h
    clear hsound hspares hcolumns
    induction us with
    | nil => rfl
    | cons u us ih =>
      have hrun : runAll (u :: us) db = runAll us (u.run db) := rfl
      rw [hrun, run_eq_self (h u (by simp))]
      exact ih fun t ht => h t (by simp [ht])

end SqlUpdate
