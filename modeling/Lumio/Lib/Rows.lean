import Mathlib.Data.List.Basic
import Mathlib.Data.List.Nodup

/-!
# Rows of a table

A table as the list of its rows. An update changes the rows that a condition selects, and leaves the others.
-/

variable {α β : Type}

def updateWhere (p : α → Bool) (f : α → α) (rows : List α) : List α := rows.map fun r => if p r then f r else r

section Update

variable {p q : α → Bool} {f : α → α} {rows : List α}

theorem find?_updateWhere (hq : ∀ r, q (f r) = q r) :
    (updateWhere p f rows).find? q = (rows.find? q).map fun r => if p r then f r else r := by
  have hsame : (q ∘ fun r => if p r then f r else r) = q := by
    funext r
    simp only [Function.comp_apply]
    split
    · exact hq r
    · rfl
  unfold updateWhere
  rw [List.find?_map, hsame]

theorem mem_updateWhere {r : α} : r ∈ updateWhere p f rows ↔ ∃ old ∈ rows, (if p old then f old else old) = r :=
  List.mem_map

theorem map_updateWhere {g : α → β} (hg : ∀ r, g (f r) = g r) : (updateWhere p f rows).map g = rows.map g := by
  unfold updateWhere
  rw [List.map_map]
  refine List.map_congr_left fun r _ => ?_
  simp only [Function.comp_apply]
  split
  · exact hg r
  · rfl

theorem updateWhere_of_none (h : ∀ r ∈ rows, p r = false) : updateWhere p f rows = rows := by
  unfold updateWhere
  conv_rhs => rw [← List.map_id rows]
  refine List.map_congr_left fun r hr => ?_
  simp [h r hr]

end Update
