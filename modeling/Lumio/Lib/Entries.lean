import Mathlib.Data.List.Basic
import Mathlib.Order.Basic
import Mathlib.Data.List.Nodup

/-!
# Lists of entries

Entries are read at their first key. They are written in their place, or at the end if the key is new, or else in the
order of their keys.
-/

namespace Entries

variable {κ α β : Type}

section Lookup

variable [DecidableEq κ]

def lookup (key : κ) (entries : List (κ × α)) : Option α := (entries.find? (·.1 = key)).map (·.2)

def put (key : κ) (value : α) (entries : List (κ × α)) : List (κ × α) :=
  if entries.any (·.1 = key) then entries.map fun entry => if entry.1 = key then (key, value) else entry
  else entries ++ [(key, value)]

def erase (key : κ) (entries : List (κ × α)) : List (κ × α) := entries.filter (·.1 ≠ key)

variable {key other : κ} {value : α} {entries : List (κ × α)}

@[simp] theorem lookup_nil (key : κ) : lookup key ([] : List (κ × α)) = none := rfl

theorem lookup_cons (entry : κ × α) (entries : List (κ × α)) :
    lookup key (entry :: entries) = if entry.1 = key then some entry.2 else lookup key entries := by
  by_cases hkey : entry.1 = key <;> simp [lookup, hkey]

theorem lookup_eq_none : lookup key entries = none ↔ key ∉ entries.map (·.1) := by
  induction entries with
  | nil => simp
  | cons entry entries ih =>
    rw [lookup_cons]
    by_cases hkey : entry.1 = key
    · simp [hkey]
    · rw [if_neg hkey, ih, List.map_cons, List.mem_cons, not_or]
      exact ⟨fun h => ⟨Ne.symm hkey, h⟩, fun h => h.2⟩

theorem mem_of_lookup (h : lookup key entries = some value) : (key, value) ∈ entries := by
  induction entries with
  | nil => cases h
  | cons entry entries ih =>
    rw [lookup_cons] at h
    split_ifs at h with hkey
    · cases h
      rw [← hkey]
      exact List.mem_cons_self
    · exact List.mem_cons_of_mem entry (ih h)

theorem lookup_of_mem (hnodup : (entries.map (·.1)).Nodup) (h : (key, value) ∈ entries) :
    lookup key entries = some value := by
  induction entries with
  | nil => cases h
  | cons entry entries ih =>
    obtain ⟨hnot, hrest⟩ := List.nodup_cons.mp hnodup
    rw [lookup_cons]
    rcases List.mem_cons.mp h with rfl | hmem
    · exact if_pos rfl
    · have hkey : entry.1 ≠ key := by
        rintro rfl
        exact hnot (List.mem_map.mpr ⟨_, hmem, rfl⟩)
      rw [if_neg hkey]
      exact ih hrest hmem

theorem lookup_append (before after : List (κ × α)) :
    lookup key (before ++ after) = (lookup key before).or (lookup key after) := by
  unfold lookup
  rw [List.find?_append]
  cases before.find? (·.1 = key) <;> rfl

theorem lookup_put_self (key : κ) (value : α) (entries : List (κ × α)) :
    lookup key (put key value entries) = some value := by
  unfold put
  by_cases hany : entries.any (·.1 = key) = true
  · rw [if_pos hany]
    induction entries with
    | nil => cases hany
    | cons entry entries ih =>
      rw [List.map_cons, lookup_cons]
      by_cases hkey : entry.1 = key
      · rw [if_pos hkey, if_pos rfl]
      · rw [if_neg hkey, if_neg hkey]
        apply ih
        simpa [hkey] using hany
  · have hnone : lookup key entries = none := by
      rw [lookup_eq_none]
      intro hmem
      obtain ⟨entry, hentry, hkey⟩ := List.mem_map.mp hmem
      exact hany (List.any_eq_true.mpr ⟨entry, hentry, decide_eq_true hkey⟩)
    rw [if_neg hany, lookup_append, hnone, lookup_cons, if_pos rfl]
    rfl

theorem lookup_put_ne (h : other ≠ key) (value : α) (entries : List (κ × α)) :
    lookup other (put key value entries) = lookup other entries := by
  unfold put
  split
  · rename_i hany
    clear hany
    induction entries with
    | nil => rfl
    | cons entry entries ih =>
      rw [List.map_cons, lookup_cons, lookup_cons, ih]
      by_cases hkey : entry.1 = key
      · rw [if_pos hkey, if_neg (Ne.symm h), if_neg (hkey ▸ Ne.symm h)]
      · rw [if_neg hkey]
  · rw [lookup_append, lookup_cons, if_neg (Ne.symm h), lookup_nil, Option.or_none]

theorem lookup_erase_self (key : κ) (entries : List (κ × α)) : lookup key (erase key entries) = none := by
  rw [lookup_eq_none]
  intro hmem
  obtain ⟨entry, hentry, hkey⟩ := List.mem_map.mp hmem
  have hne := (List.mem_filter.mp hentry).2
  simp [hkey] at hne

theorem lookup_filter (p : κ → Bool) (key : κ) (entries : List (κ × α)) :
    lookup key (entries.filter fun entry => p entry.1) = if p key then lookup key entries else none := by
  induction entries with
  | nil => simp
  | cons entry entries ih =>
    rw [List.filter_cons, lookup_cons]
    by_cases hp : p entry.1 = true
    · rw [if_pos hp, lookup_cons, ih]
      by_cases hkey : entry.1 = key
      · rw [if_pos hkey, ← hkey, if_pos hp, if_pos rfl]
      · rw [if_neg hkey, if_neg hkey]
    · rw [if_neg hp, ih]
      by_cases hkey : entry.1 = key
      · rw [← hkey, if_neg hp, if_neg hp]
      · rw [if_neg hkey]

theorem lookup_erase_ne (h : other ≠ key) (entries : List (κ × α)) :
    lookup other (erase key entries) = lookup other entries := by
  have hfilter := lookup_filter (fun k => decide (k ≠ key)) other entries
  rw [erase, hfilter, if_pos (decide_eq_true h)]

end Lookup

section Order

variable [DecidableEq κ] [LT κ] [DecidableLT κ]

def insertSorted (key : κ) (value : α) : List (κ × α) → List (κ × α)
  | [] => [(key, value)]
  | entry :: entries =>
    if key < entry.1 then (key, value) :: entry :: entries
    else if key = entry.1 then (key, value) :: entries
    else entry :: insertSorted key value entries

variable {key other : κ} {value : α} {entries : List (κ × α)}

theorem lookup_insertSorted_self (key : κ) (value : α) (entries : List (κ × α)) :
    lookup key (insertSorted key value entries) = some value := by
  induction entries with
  | nil => rw [insertSorted, lookup_cons, if_pos rfl]
  | cons entry entries ih =>
    unfold insertSorted
    split_ifs with hlt heq
    · rw [lookup_cons, if_pos rfl]
    · rw [lookup_cons, if_pos rfl]
    · rw [lookup_cons, if_neg (Ne.symm heq), ih]

theorem lookup_insertSorted_ne (h : other ≠ key) (value : α) (entries : List (κ × α)) :
    lookup other (insertSorted key value entries) = lookup other entries := by
  induction entries with
  | nil => rw [insertSorted, lookup_cons, if_neg (Ne.symm h)]
  | cons entry entries ih =>
    unfold insertSorted
    split_ifs with hlt heq
    · rw [lookup_cons, if_neg (Ne.symm h)]
    · rw [lookup_cons, if_neg (Ne.symm h), lookup_cons, if_neg (heq ▸ Ne.symm h)]
    · rw [lookup_cons, lookup_cons, ih]

theorem mem_keys_insertSorted {k : κ} (h : k ∈ (insertSorted key value entries).map (·.1)) :
    k = key ∨ k ∈ entries.map (·.1) := by
  induction entries with
  | nil => exact .inl (by simpa [insertSorted] using h)
  | cons entry entries ih =>
    unfold insertSorted at h
    split_ifs at h with hlt heq
    · simpa using h
    · rw [List.map_cons, List.mem_cons] at h
      exact h.imp_right fun hmem => List.mem_cons_of_mem entry.1 hmem
    · rw [List.map_cons, List.mem_cons] at h
      rcases h with rfl | hmem
      · exact .inr List.mem_cons_self
      · exact (ih hmem).imp_right fun hmem => List.mem_cons_of_mem entry.1 hmem

theorem pairwise_insertSorted (trans : ∀ {a b c : κ}, a < b → b < c → a < c)
    (total : ∀ a b : κ, a < b ∨ a = b ∨ b < a) (h : (entries.map (·.1)).Pairwise (· < ·)) (key : κ) (value : α) :
    ((insertSorted key value entries).map (·.1)).Pairwise (· < ·) := by
  induction entries with
  | nil => exact List.pairwise_singleton _ _
  | cons entry entries ih =>
    obtain ⟨hfirst, hrest⟩ := List.pairwise_cons.mp h
    unfold insertSorted
    split_ifs with hlt heq
    · refine List.pairwise_cons.mpr ⟨fun k hk => ?_, h⟩
      rcases List.mem_cons.mp hk with rfl | hmem
      · exact hlt
      · exact trans hlt (hfirst k hmem)
    · exact List.pairwise_cons.mpr ⟨fun k hk => heq ▸ hfirst k hk, hrest⟩
    · refine List.pairwise_cons.mpr ⟨fun k hk => ?_, ih hrest⟩
      rcases mem_keys_insertSorted hk with rfl | hmem
      · exact ((total k entry.1).resolve_left hlt).resolve_left heq
      · exact hfirst k hmem

end Order

end Entries
