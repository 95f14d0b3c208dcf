import Mathlib.Data.List.AList
import Mathlib.Data.List.Sort
import Mathlib.Algebra.BigOperators.Group.List.Basic
import Mathlib.Algebra.Ring.Int.Defs
import Mathlib.Algebra.Ring.Nat

/-!
# Keyed tables

A table is an association list without duplicate keys. Rows are written with `insert` and `erase`;
this module adds the statements that act on many rows at once, and reading in a given order.
-/

abbrev Table (κ ν : Type) := AList (fun _ : κ => ν)

namespace Table

variable {κ ν : Type}

def values (t : Table κ ν) : List ν := t.entries.map (·.2)

def orderBy (le : ν → ν → Bool) (t : Table κ ν) : List ν := t.values.insertionSort fun a b => le a b

/-- Keeps the rows that satisfy `p`. -/
def keep (p : κ → ν → Bool) (t : Table κ ν) : Table κ ν :=
  ⟨t.entries.filter fun row => p row.1 row.2, t.nodupKeys.sublist List.filter_sublist⟩

def mapRows (f : κ → ν → ν) (t : Table κ ν) : Table κ ν :=
  ⟨t.entries.map fun row => ⟨row.1, f row.1 row.2⟩, by
    have h := t.nodupKeys
    simpa only [List.NodupKeys, List.keys, List.map_map, Function.comp_def] using h⟩

section Lookup

variable [DecidableEq κ] {t : Table κ ν} {k k' : κ} {v : ν}

def modify (k : κ) (f : ν → ν) (t : Table κ ν) : Table κ ν :=
  match t.lookup k with
  | some v => t.insert k (f v)
  | none => t

theorem lookup_eq_some_iff : t.lookup k = some v ↔ ⟨k, v⟩ ∈ t.entries :=
  AList.mem_lookup_iff (a := k) (b := v) (s := t)

theorem mem_values_iff : v ∈ t.values ↔ ∃ k, t.lookup k = some v := by
  simp only [values, List.mem_map, lookup_eq_some_iff]
  constructor
  · rintro ⟨⟨k, v'⟩, hmem, rfl⟩
    exact ⟨k, hmem⟩
  · rintro ⟨k, hmem⟩
    exact ⟨⟨k, v⟩, hmem, rfl⟩

theorem mem_orderBy_iff {le : ν → ν → Bool} : v ∈ t.orderBy le ↔ ∃ k, t.lookup k = some v := by
  rw [orderBy, List.mem_insertionSort, mem_values_iff]

theorem map_values_of_keyed {f : ν → κ} (keyed : ∀ {k v}, t.lookup k = some v → f v = k) : t.values.map f = t.keys := by
  rw [values, List.map_map, AList.keys, List.keys]
  apply List.map_congr_left
  rintro ⟨k, v⟩ hmem
  exact keyed (lookup_eq_some_iff.mpr hmem)

theorem lookup_insert_iff (v' : ν) : (t.insert k v).lookup k' = some v' ↔
    (k' = k ∧ v' = v) ∨ (k' ≠ k ∧ t.lookup k' = some v') := by
  by_cases h : k' = k
  · subst h
    simp [AList.lookup_insert, eq_comm]
  · simp [AList.lookup_insert_ne h, h]

theorem lookup_insert_congr {t' : Table κ ν} (h : t'.lookup k = t.lookup k) (v : ν) :
    (t'.insert k' v).lookup k = (t.insert k' v).lookup k := by
  by_cases heq : k = k'
  · subst heq
    rw [AList.lookup_insert, AList.lookup_insert]
  · rw [AList.lookup_insert_ne heq, AList.lookup_insert_ne heq, h]

theorem length_insert_of_none (h : t.lookup k = none) : (t.insert k v).entries.length = t.entries.length + 1 := by
  rw [AList.entries_insert_of_notMem (AList.lookup_eq_none.mp h), List.length_cons]

theorem length_insert_of_some {w : ν} (h : t.lookup k = some w) :
    (t.insert k v).entries.length = t.entries.length := by
  have hk : k ∈ t.entries.keys := AList.lookup_isSome.mp (by simp [h])
  obtain ⟨old, before, after, -, hentries, herase⟩ := List.exists_of_kerase hk
  simp only [AList.entries_insert, List.length_cons, herase, List.length_append]
  rw [hentries, List.length_append, List.length_cons]
  omega

theorem length_insert_le : (t.insert k v).entries.length ≤ t.entries.length + 1 := by
  cases h : t.lookup k with
  | none => rw [length_insert_of_none h]
  | some w =>
    rw [length_insert_of_some h]
    omega

theorem length_erase_of_some {w : ν} (h : t.lookup k = some w) :
    (t.erase k).entries.length + 1 = t.entries.length := by
  have hk : k ∈ t.entries.keys := AList.lookup_isSome.mp (by simp [h])
  obtain ⟨old, before, after, -, hentries, herase⟩ := List.exists_of_kerase hk
  have hlength : (t.erase k).entries = before ++ after := herase
  rw [hlength, hentries, List.length_append, List.length_append, List.length_cons]
  omega

theorem length_erase_le : (t.erase k).entries.length ≤ t.entries.length := (List.kerase_sublist k t.entries).length_le

theorem lookup_erase_iff : (t.erase k).lookup k' = some v ↔ k' ≠ k ∧ t.lookup k' = some v := by
  by_cases h : k' = k
  · subst h
    simp
  · simp [AList.lookup_erase_ne h, h]

theorem mem_keys_iff : k ∈ t.keys ↔ ∃ v, t.lookup k = some v := by
  rw [← AList.mem_keys, ← AList.lookup_isSome, Option.isSome_iff_exists]

omit [DecidableEq κ] in
theorem le_of_head_orderBy {le : ν → ν → Bool} (total : ∀ a b, le a b = true ∨ le b a = true)
    (trans : ∀ a b c, le a b = true → le b c = true → le a c = true) {first : ν}
    (hfirst : first ∈ (t.orderBy le).head?) (hv : v ∈ t.values) : le first v = true := by
  have hsorted : (t.orderBy le).Pairwise fun a b => le a b = true := by
    have : Std.Total fun a b => le a b = true := ⟨total⟩
    have : IsTrans ν fun a b => le a b = true := ⟨trans⟩
    exact List.pairwise_insertionSort _ _
  have hmem : v ∈ t.orderBy le := List.mem_insertionSort _ |>.mpr hv
  cases hrows : t.orderBy le with
  | nil => simp [hrows] at hmem
  | cons a rest =>
    rw [hrows] at hsorted hmem hfirst
    simp only [List.head?_cons, Option.mem_def, Option.some.injEq] at hfirst
    subst hfirst
    rcases List.mem_cons.mp hmem with rfl | hrest
    · rcases total v v with h | h <;> exact h
    · exact (List.pairwise_cons.mp hsorted).1 v hrest

theorem lookup_keep {p : κ → ν → Bool} : (t.keep p).lookup k = some v ↔ t.lookup k = some v ∧ p k v := by
  simp only [lookup_eq_some_iff, keep, List.mem_filter]

theorem lookup_of_nil (h : t.entries = []) : t.lookup k = none := by
  simp only [AList.lookup, h, List.dlookup_nil]

theorem lookup_mapRows {f : κ → ν → ν} : (t.mapRows f).lookup k = some v ↔ ∃ w, t.lookup k = some w ∧ v = f k w := by
  simp only [lookup_eq_some_iff, mapRows, List.mem_map, Sigma.mk.injEq]
  constructor
  · rintro ⟨⟨k', w⟩, hmem, rfl, hv⟩
    exact ⟨w, hmem, (eq_of_heq hv).symm⟩
  · rintro ⟨w, hmem, rfl⟩
    exact ⟨⟨k, w⟩, hmem, rfl, HEq.rfl⟩

theorem lookup_foldl_insert {μ : Type} {p : κ → Bool} {f : μ → ν} {rows : List (Sigma fun _ : κ => μ)}
    (hnodup : rows.NodupKeys) : ∀ t : Table κ ν,
      (rows.foldl (fun t row => if p row.1 then t else t.insert row.1 (f row.2)) t).lookup k =
        match rows.dlookup k with
        | some m => if p k then t.lookup k else some (f m)
        | none => t.lookup k := by
  induction rows with
  | nil => exact fun _ => rfl
  | cons row rows ih =>
    intro t
    obtain ⟨key, m⟩ := row
    obtain ⟨hkey, hrest⟩ := List.nodupKeys_cons.mp hnodup
    rw [List.foldl_cons, ih hrest]
    by_cases hk : k = key
    · subst hk
      rw [List.dlookup_eq_none.mpr hkey, List.dlookup_cons_eq]
      cases p k <;> simp
    · rw [List.dlookup_cons_ne _ _ hk]
      cases p key <;> simp [AList.lookup_insert_ne hk]

def lastRow (k : κ) : List (κ × ν) → Option ν
  | [] => none
  | row :: rows => (lastRow k rows).or (if row.1 = k then some row.2 else none)

theorem lastRow_isSome_iff {rows : List (κ × ν)} : (lastRow k rows).isSome ↔ k ∈ rows.map (·.1) := by
  induction rows with
  | nil => simp [lastRow]
  | cons row rows ih =>
    rw [lastRow, Option.isSome_or, Bool.or_eq_true, ih, List.map_cons, List.mem_cons, or_comm, eq_comm (a := k)]
    split
    case isTrue hk => simp only [Option.isSome_some, hk]
    case isFalse hk => simp only [Option.isSome_none, Bool.false_eq_true, hk]

theorem lookup_foldl_insert_rows (rows : List (κ × ν)) : ∀ t : Table κ ν,
    (rows.foldl (fun t row => t.insert row.1 row.2) t).lookup k = (lastRow k rows).or (t.lookup k) := by
  induction rows with
  | nil => exact fun _ => rfl
  | cons row rows ih =>
    intro t
    rw [List.foldl_cons, ih, lastRow, Option.or_assoc]
    congr 1
    by_cases hk : row.1 = k
    · subst hk
      rw [AList.lookup_insert, if_pos rfl, Option.some_or]
    · rw [AList.lookup_insert_ne (Ne.symm hk), if_neg hk, Option.none_or]

theorem lookup_modify_eq {f : ν → ν} :
    (modify k f t).lookup k' = if k' = k then (t.lookup k).map f else t.lookup k' := by
  unfold modify
  by_cases hk : k' = k
  · subst hk
    cases h : t.lookup k' with
    | none => simp [h]
    | some v => simp
  · cases h : t.lookup k with
    | none => simp [hk]
    | some v => simp [hk, AList.lookup_insert_ne hk]

theorem lookup_modify {f : ν → ν} (h : (modify k f t).lookup k' = some v) :
    ∃ w, t.lookup k' = some w ∧ (v = w ∨ v = f w) := by
  unfold modify at h
  split at h
  · rename_i w hw
    rcases (lookup_insert_iff v).mp h with ⟨rfl, rfl⟩ | ⟨-, hold⟩
    · exact ⟨w, hw, .inr rfl⟩
    · exact ⟨v, hold, .inl rfl⟩
  · exact ⟨v, h, .inl rfl⟩

end Lookup

/-! ## Rows that evolve -/

/-- Every row is still there, and has changed only as a relation allows. -/
def Evolves [DecidableEq κ] (R : ν → ν → Prop) (t t' : Table κ ν) : Prop :=
  ∀ k v, t.lookup k = some v → ∃ v', t'.lookup k = some v' ∧ R v v'

section Evolves

variable [DecidableEq κ] {R : ν → ν → Prop} {a b c : Table κ ν} {k : κ} {v : ν}

theorem Evolves.refl (hrefl : ∀ v, R v v) (t : Table κ ν) : Evolves R t t := fun _ v hv => ⟨v, hv, hrefl v⟩

theorem Evolves.trans (htrans : ∀ u v w, R u v → R v w → R u w) (hab : Evolves R a b) (hbc : Evolves R b c) :
    Evolves R a c := by
  intro k u hu
  obtain ⟨v, hv, huv⟩ := hab k u hu
  obtain ⟨w, hw, hvw⟩ := hbc k v hv
  exact ⟨w, hw, htrans u v w huv hvw⟩

theorem Evolves.insert (hrefl : ∀ v, R v v) (h : ∀ old, a.lookup k = some old → R old v) :
    Evolves R a (a.insert k v) := by
  intro k' w hw
  by_cases hk : k' = k
  · subst hk
    exact ⟨v, by simp, h w hw⟩
  · exact ⟨w, by rw [AList.lookup_insert_ne hk]; exact hw, hrefl w⟩

end Evolves

/-! ## Sums over rows -/

def sumBy (f : ν → Int) (t : Table κ ν) : Int := (t.values.map f).sum

theorem sumBy_insert_of_none [DecidableEq κ] {f : ν → Int} {t : Table κ ν} {k : κ} {v : ν} (h : t.lookup k = none) :
    sumBy f (t.insert k v) = f v + sumBy f t := by
  rw [sumBy, values, AList.entries_insert_of_notMem (AList.lookup_eq_none.mp h)]
  rfl

theorem sumBy_insert_of_some [DecidableEq κ] {f : ν → Int} {t : Table κ ν} {k : κ} {v w : ν} (h : t.lookup k = some w) :
    sumBy f (t.insert k v) = sumBy f t - f w + f v := by
  have hk : k ∈ t.entries.keys := AList.lookup_isSome.mp (by simp [h])
  obtain ⟨old, before, after, -, hentries, herase⟩ := List.exists_of_kerase hk
  have hold : old = w := by
    have hmem : t.lookup k = some old := lookup_eq_some_iff.mpr (by rw [hentries]; simp)
    rw [h] at hmem
    exact (Option.some.inj hmem).symm
  simp only [sumBy, values, AList.entries_insert, List.map_cons, List.sum_cons, herase]
  rw [hentries]
  simp only [List.map_append, List.sum_append, List.map_cons, List.sum_cons, hold]
  omega

/-! ## Counting rows -/

/-- How many rows satisfy `p`. -/
def count (p : ν → Bool) (t : Table κ ν) : Nat := (t.values.filter p).length

section Count

variable {p : ν → Bool} {t : Table κ ν} {k : κ} {v : ν}

theorem count_eq_zero_iff : count p t = 0 ↔ ∀ v ∈ t.values, p v = false := by
  simp [count, List.filter_eq_nil_iff]

theorem count_pos_of_mem (hv : v ∈ t.values) (hp : p v = true) : 0 < count p t :=
  List.length_pos_of_mem (List.mem_filter.mpr ⟨hv, hp⟩)

variable [DecidableEq κ]

theorem values_insert : values (t.insert k v) = v :: (t.entries.kerase k).map (·.2) := rfl

theorem count_insert_le (hp : p v = false) : count p (t.insert k v) ≤ count p t := by
  simp only [count, values_insert, List.filter_cons, hp, Bool.false_eq_true, if_false]
  exact (((List.kerase_sublist k t.entries).map _).filter p).length_le

theorem count_mapRows_lt {f : κ → ν → ν} (hle : ∀ k v, p (f k v) = true → p v = true) (h : t.lookup k = some v)
    (hp : p v = true) (hnot : p (f k v) = false) : count p (t.mapRows f) < count p t := by
  have hcount : ∀ rows : List (Sigma fun _ : κ => ν), ((rows.map fun row => f row.1 row.2).filter p).length ≤
      ((rows.map (·.2)).filter p).length := by
    intro rows
    induction rows with
    | nil => exact Nat.le_refl _
    | cons row rows ih =>
      cases hrow : p (f row.1 row.2) with
      | true => simp [hrow, hle _ _ hrow, ih]
      | false =>
        simp only [List.map_cons, List.filter_cons, hrow, Bool.false_eq_true, if_false]
        split
        · exact Nat.le_succ_of_le ih
        · exact ih
  obtain ⟨before, after, hentries⟩ := List.append_of_mem (lookup_eq_some_iff.mp h)
  have hbefore := hcount before
  have hafter := hcount after
  simp only [count, values, mapRows, List.map_map, Function.comp_def, hentries, List.map_append, List.map_cons,
    List.filter_append, List.filter_cons, hp, hnot, if_true, Bool.false_eq_true, if_false, List.length_append,
    List.length_cons]
  omega

theorem count_insert_of_none (h : t.lookup k = none) :
    count p (t.insert k v) = count p t + if p v then 1 else 0 := by
  rw [count, values, AList.entries_insert_of_notMem (AList.lookup_eq_none.mp h)]
  cases hp : p v <;> simp [count, values, hp]

theorem count_insert_of_some {w : ν} (h : t.lookup k = some w) :
    count p (t.insert k v) + (if p w then 1 else 0) = count p t + if p v then 1 else 0 := by
  have hk : k ∈ t.entries.keys := AList.lookup_isSome.mp (by simp [h])
  obtain ⟨old, before, after, -, hentries, herase⟩ := List.exists_of_kerase hk
  have hold : old = w := by
    have hmem : t.lookup k = some old := lookup_eq_some_iff.mpr (by rw [hentries]; simp)
    rw [h] at hmem
    exact (Option.some.inj hmem).symm
  have hafter : values (t.insert k v) = v :: (before.map (·.2) ++ after.map (·.2)) := by
    rw [values_insert, herase, List.map_append]
  have hbefore : values t = before.map (·.2) ++ w :: after.map (·.2) := by
    rw [values, hentries, List.map_append, List.map_cons, hold]
  rw [count, count, hafter, hbefore]
  cases hv : p v <;> cases hw : p w <;> simp [List.filter_append, hv, hw] <;> omega

end Count

end Table
