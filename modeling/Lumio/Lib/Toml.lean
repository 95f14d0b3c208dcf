import Lumio.Lib.Entries
import Lumio.Lib.Text
import Mathlib.Data.Char
import Mathlib.Data.List.Lex

/-!
# The items of a TOML document

Tables and values are told apart as `toml_edit` does it: a table stands under a header or under dotted keys, an inline
table is a value. Two items say the same if they hold the same at every path.
-/

namespace Toml

/-- A date and time, each part of which may be missing: year, month and day; hours, minutes, seconds and nanoseconds; the
offset in minutes, or that it is written as `Z`. -/
structure Datetime where
  date : Option (Nat × Nat × Nat)
  time : Option (Nat × Nat × Nat × Nat)
  offset : Option (Option Int)
deriving DecidableEq

inductive Scalar where
  | string (text : Text)
  | integer (value : Int)
  | float (bits : BitVec 64)
  | boolean (value : Bool)
  | datetime (value : Datetime)
deriving DecidableEq

/-- Equality of floating-point numbers: not a number equals nothing, and the two zeros are equal. -/
def floatEq (a b : BitVec 64) : Bool :=
  let exponent := fun (x : BitVec 64) => x.extractLsb' 52 11
  let fraction := fun (x : BitVec 64) => x.extractLsb' 0 52
  let isNaN := fun x => decide (exponent x = BitVec.allOnes 11) && decide (fraction x ≠ 0#52)
  let isZero := fun x => decide (exponent x = 0#11) && decide (fraction x = 0#52)
  !isNaN a && !isNaN b && (decide (a = b) || (isZero a && isZero b))

def Scalar.eq : Scalar → Scalar → Bool
  | .float a, .float b => floatEq a b
  | a, b => decide (a = b)

inductive Item where
  | scalar (value : Scalar)
  | array (items : List Item)
  | inlineTable (entries : List (Text × Item))
  | table (entries : List (Text × Item))
  | arrayOfTables (tables : List Item)

abbrev Table := List (Text × Item)

inductive Node where
  | scalar (value : Scalar)
  | array (length : Nat)
  | table
deriving DecidableEq

inductive Step where
  | key (key : Text)
  | index (i : Nat)
deriving DecidableEq

namespace Item

def tableLike : Item → Option Table
  | table entries => some entries
  | inlineTable entries => some entries
  | _ => none

def elements : Item → Option (List Item)
  | array items => some items
  | arrayOfTables tables => some tables
  | _ => none

def get (key : Text) (item : Item) : Option Item := item.tableLike.bind (Entries.lookup key)

def isInline : Item → Bool
  | inlineTable _ => true
  | _ => false

def node : Item → Node
  | scalar value => .scalar value
  | array items => .array items.length
  | arrayOfTables tables => .array tables.length
  | inlineTable _ => .table
  | table _ => .table

def nodeAt : List Step → Item → Option Node
  | [], item => some item.node
  | .key key :: path, item => (item.get key).bind (nodeAt path)
  | .index i :: path, item => (item.elements.bind (·[i]?)).bind (nodeAt path)

def Same (a b : Item) : Prop := ∀ path, a.nodeAt path = b.nodeAt path

end Item

/-! ## Tables as values -/

mutual

/-- The item with its tables as values where they are inside of one, and with its entries in the order of their keys if
that is asked for. -/
def settle (sorted inside : Bool) : Item → Item
  | .scalar value => .scalar value
  | .array items => .array (settleItems sorted true items)
  | .inlineTable entries => .inlineTable (settleEntries sorted true entries)
  | .table entries =>
    if inside then .inlineTable (settleEntries sorted true entries) else .table (settleEntries sorted false entries)
  | .arrayOfTables tables =>
    if inside then .array (settleItems sorted true tables) else .arrayOfTables (settleItems sorted false tables)

def settleItems (sorted inside : Bool) : List Item → List Item
  | [] => []
  | item :: items => settle sorted inside item :: settleItems sorted inside items

def settleEntries (sorted inside : Bool) : Table → Table
  | [] => []
  | (key, item) :: entries =>
    if sorted then Entries.insertSorted key (settle sorted inside item) (settleEntries sorted inside entries)
    else (key, settle sorted inside item) :: settleEntries sorted inside entries

end

/-- `Item::into_value` -/
def intoValue : Item → Item := settle false true

/-- A table without the order in which its entries stood. -/
def canonical : Table → Table := settleEntries true false

section Settle

variable (sorted inside : Bool) {item : Item} {key : Text}

theorem settleItems_eq (items : List Item) :
    settleItems sorted inside items = items.map (settle sorted inside) := by
  induction items with
  | nil => rw [settleItems, List.map_nil]
  | cons item items ih => rw [settleItems, List.map_cons, ih]

theorem lookup_settleEntries (entries : Table) :
    Entries.lookup key (settleEntries sorted inside entries) =
      (Entries.lookup key entries).map (settle sorted inside) := by
  induction entries with
  | nil => rw [settleEntries]; rfl
  | cons entry entries ih =>
    obtain ⟨other, item⟩ := entry
    rw [settleEntries, Entries.lookup_cons]
    by_cases hkey : other = key
    · subst hkey
      rw [if_pos rfl]
      split
      · rw [Entries.lookup_insertSorted_self]
        rfl
      · rw [Entries.lookup_cons, if_pos rfl]
        rfl
    · rw [if_neg hkey, ← ih]
      split
      · exact Entries.lookup_insertSorted_ne (Ne.symm hkey) _ _
      · rw [Entries.lookup_cons, if_neg hkey]

theorem get_settle (key : Text) (item : Item) :
    ∃ inner, (settle sorted inside item).get key = (item.get key).map (settle sorted inner) := by
  cases item with
  | scalar value => exact ⟨true, by simp [settle, Item.get, Item.tableLike]⟩
  | array items => exact ⟨true, by simp [settle, Item.get, Item.tableLike]⟩
  | inlineTable entries => exact ⟨true, by simp [settle, Item.get, Item.tableLike, lookup_settleEntries]⟩
  | table entries =>
    refine ⟨inside, ?_⟩
    cases inside <;> simp [settle, Item.get, Item.tableLike, lookup_settleEntries]
  | arrayOfTables tables =>
    refine ⟨true, ?_⟩
    cases inside <;> simp [settle, Item.get, Item.tableLike]

theorem elements_settle (item : Item) :
    ∃ inner, (settle sorted inside item).elements = item.elements.map (List.map (settle sorted inner)) := by
  cases item with
  | scalar value => exact ⟨true, by simp [settle, Item.elements]⟩
  | array items => exact ⟨true, by simp [settle, Item.elements, settleItems_eq]⟩
  | inlineTable entries => exact ⟨true, by simp [settle, Item.elements]⟩
  | table entries =>
    refine ⟨true, ?_⟩
    cases inside <;> simp [settle, Item.elements]
  | arrayOfTables tables =>
    refine ⟨inside, ?_⟩
    cases inside <;> simp [settle, Item.elements, settleItems_eq]

theorem node_settle (item : Item) : (settle sorted inside item).node = item.node := by
  cases item with
  | scalar value => simp [settle, Item.node]
  | array items => simp [settle, Item.node, settleItems_eq]
  | inlineTable entries => simp [settle, Item.node]
  | table entries => cases inside <;> simp [settle, Item.node]
  | arrayOfTables tables => cases inside <;> simp [settle, Item.node, settleItems_eq]

theorem settle_same (item : Item) : (settle sorted inside item).Same item := by
  intro path
  induction path generalizing inside item with
  | nil => rw [Item.nodeAt, Item.nodeAt, node_settle]
  | cons step path ih =>
    cases step with
    | key key =>
      obtain ⟨inner, hget⟩ := get_settle sorted inside key item
      rw [Item.nodeAt, Item.nodeAt, hget]
      cases item.get key with
      | none => rfl
      | some found => exact ih inner found
    | index i =>
      obtain ⟨inner, helements⟩ := elements_settle sorted inside item
      rw [Item.nodeAt, Item.nodeAt, helements]
      cases item.elements with
      | none => rfl
      | some items =>
        simp only [Option.map_some, Option.bind_some, List.getElem?_map]
        cases items[i]? with
        | none => rfl
        | some found => exact ih inner found

theorem nodup_settleEntries (entries : Table) : ((settleEntries true inside entries).map (·.1)).Nodup := by
  have hsorted : ((settleEntries true inside entries).map (·.1)).Pairwise (· < ·) := by
    induction entries with
    | nil => rw [settleEntries]; exact List.Pairwise.nil
    | cons entry entries ih =>
      obtain ⟨key, item⟩ := entry
      rw [settleEntries, if_pos rfl]
      exact Entries.pairwise_insertSorted lt_trans lt_trichotomy ih key _
  exact hsorted.imp fun hlt => ne_of_lt hlt

end Settle

/-! ## Items as they are read -/

/-- An item as it is read: every key once, in the order of the keys, and values inside of values. -/
def IsRead (item : Item) : Prop := ∃ inside, settle true inside item = item

theorem IsRead.nodup {item : Item} {entries : Table} (h : IsRead item) (htable : item.tableLike = some entries) :
    (entries.map (·.1)).Nodup := by
  obtain ⟨inside, h⟩ := h
  cases item with
  | inlineTable found =>
    cases htable
    rw [settle, Item.inlineTable.injEq] at h
    rw [← h]
    exact nodup_settleEntries true entries
  | table found =>
    cases htable
    cases inside with
    | true => simp [settle] at h
    | false =>
      simp only [settle, Bool.false_eq_true, if_false, Item.table.injEq] at h
      rw [← h]
      exact nodup_settleEntries false entries
  | scalar value => cases htable
  | array items => cases htable
  | arrayOfTables tables => cases htable

theorem IsRead.get {item found : Item} {key : Text} (h : IsRead item) (hget : item.get key = some found) :
    IsRead found := by
  obtain ⟨inside, h⟩ := h
  obtain ⟨inner, hinner⟩ := get_settle true inside key item
  rw [h, hget, Option.map_some, Option.some.injEq] at hinner
  exact ⟨inner, hinner.symm⟩

theorem isRead_table {entries : Table} (h : canonical entries = entries) : IsRead (.table entries) :=
  ⟨false, by rw [settle, if_neg Bool.false_ne_true]; exact congrArg Item.table h⟩

theorem canonical_same (entries : Table) : (Item.table (canonical entries)).Same (.table entries) := by
  have h := settle_same true false (.table entries)
  rwa [settle, if_neg Bool.false_ne_true] at h

theorem lookup_canonical (key : Text) (entries : Table) :
    Entries.lookup key (canonical entries) = (Entries.lookup key entries).map (settle true false) :=
  lookup_settleEntries true false entries

namespace Item

variable {a b : Item} (item : Item)

theorem Same.refl : item.Same item := fun _ => rfl

theorem Same.symm (h : a.Same b) : b.Same a := fun path => (h path).symm

theorem Same.trans {c : Item} (hab : a.Same b) (hbc : b.Same c) : a.Same c :=
  fun path => (hab path).trans (hbc path)

theorem nodeAt_key (key : Text) (path : List Step) (item : Item) :
    item.nodeAt (.key key :: path) = (item.get key).bind (nodeAt path) := rfl

theorem isSome_tableLike_iff : item.tableLike.isSome = true ↔ item.node = .table := by
  cases item <;> simp [tableLike, node]

theorem Same.tableLike (h : a.Same b) : a.tableLike.isSome = b.tableLike.isSome := by
  have hnode : a.node = b.node := Option.some.inj (h [])
  rw [Bool.eq_iff_iff, isSome_tableLike_iff, isSome_tableLike_iff, hnode]

theorem Same.get {a b : Item} (h : a.Same b) (key : Text) :
    (a.get key = none ∧ b.get key = none) ∨ ∃ x y, a.get key = some x ∧ b.get key = some y ∧ x.Same y := by
  have hpath : ∀ path, (a.get key).bind (nodeAt path) = (b.get key).bind (nodeAt path) :=
    fun path => h (.key key :: path)
  cases ha : a.get key with
  | none =>
    cases hb : b.get key with
    | none => exact .inl ⟨rfl, rfl⟩
    | some y =>
      have hnode := hpath []
      rw [ha, hb] at hnode
      cases hnode
  | some x =>
    cases hb : b.get key with
    | none =>
      have hnode := hpath []
      rw [ha, hb] at hnode
      cases hnode
    | some y =>
      refine .inr ⟨x, y, rfl, rfl, fun path => ?_⟩
      have hnode := hpath path
      rwa [ha, hb] at hnode

theorem same_of_get (hnode : a.node = .table) (hnode' : b.node = .table)
    (hget : ∀ key path, (a.get key).bind (nodeAt path) = (b.get key).bind (nodeAt path)) : a.Same b := by
  have helements : ∀ {item : Item}, item.node = .table → item.elements = none := by
    intro item h
    cases item <;> simp_all [node, elements]
  intro path
  cases path with
  | nil => rw [nodeAt, nodeAt, hnode, hnode']
  | cons step path =>
    cases step with
    | key key => exact hget key path
    | index i => rw [nodeAt, nodeAt, helements hnode, helements hnode']

theorem sizeOf_get_lt {item found : Item} {key : Text} (h : item.get key = some found) : sizeOf found < sizeOf item := by
  have hmem : ∀ entries : Table, Entries.lookup key entries = some found → sizeOf found < 1 + sizeOf entries := by
    intro entries hlookup
    have hsize := List.sizeOf_lt_of_mem (Entries.mem_of_lookup hlookup)
    simp only [Prod.mk.sizeOf_spec] at hsize
    omega
  cases item with
  | table entries =>
    rw [Item.table.sizeOf_spec]
    exact hmem entries h
  | inlineTable entries =>
    rw [Item.inlineTable.sizeOf_spec]
    exact hmem entries h
  | scalar value => cases h
  | array items => cases h
  | arrayOfTables tables => cases h

theorem getInduction {p : Item → Prop} (h : ∀ item, (∀ key found, item.get key = some found → p found) → p item)
    (item : Item) : p item := by
  induction hsize : sizeOf item using Nat.strong_induction_on generalizing item with
  | h size ih =>
    subst hsize
    exact h item fun key found hget => ih (sizeOf found) (sizeOf_get_lt hget) found rfl

def find : List Text → Item → Option Item
  | [], item => some item
  | key :: keys, item => (item.get key).bind (find keys)

theorem nodeAt_append {keys : List Text} {item found : Item} (h : item.find keys = some found) (path : List Step) :
    item.nodeAt (keys.map .key ++ path) = found.nodeAt path := by
  induction keys generalizing item with
  | nil =>
    cases h
    rfl
  | cons key keys ih =>
    rw [find] at h
    obtain ⟨next, hnext, hfind⟩ := Option.bind_eq_some_iff.mp h
    rw [List.map_cons, List.cons_append, nodeAt_key, hnext]
    exact ih hfind

end Item

end Toml
