import Mathlib.Data.Nat.Basic
import Mathlib.Tactic.Ring

/-!
# Cutting a length into full pieces

A length is cut into pieces of one full size and a last piece that may be shorter. `At` says where a cut stands after
some pieces; two parties that both stand at such places agree on what comes next.
-/

namespace Pieces

variable {full size index offset len : Nat}

def count (full size : Nat) : Nat := if size = 0 then 0 else (size - 1) / full + 1

/-- After `index` pieces `offset` is reached: all of them are full, or the end is reached with the last one. -/
def At (full size index offset : Nat) : Prop :=
  (offset < size ∧ offset = index * full) ∨ (offset = size ∧ index = count full size)

theorem at_start (full size : Nat) : At full size 0 0 := by
  unfold At count
  rcases Nat.eq_zero_or_pos size with rfl | hpos
  · exact .inr ⟨rfl, rfl⟩
  · exact .inl ⟨hpos, (Nat.zero_mul full).symm⟩

theorem count_eq (hlow : index * full < size) (hhigh : size ≤ index * full + full) :
    count full size = index + 1 := by
  have hdiv : (size - 1) / full = index := by
    apply Nat.div_eq_of_lt_le
    · omega
    · rw [Nat.succ_mul]
      omega
  rw [count, if_neg (by omega), hdiv]

theorem At.step (h : At full size index offset) (hpos : 0 < len) (hlen : len ≤ full)
    (hsize : offset + len ≤ size) (hshort : offset + len ≠ size → len = full) :
    At full size (index + 1) (offset + len) := by
  rcases h with ⟨hlt, rfl⟩ | ⟨rfl, -⟩
  · by_cases hend : index * full + len = size
    · exact .inr ⟨hend, (count_eq hlt (by omega)).symm⟩
    · left
      obtain rfl := hshort hend
      exact ⟨by omega, (Nat.succ_mul index _).symm⟩
  · omega

theorem At.index_le (hfull : 0 < full) (h : At full size index offset) : index ≤ count full size := by
  rcases h with ⟨hlt, rfl⟩ | ⟨-, rfl⟩
  · have hdiv : index ≤ (size - 1) / full := by
      rw [Nat.le_div_iff_mul_le hfull]
      omega
    rw [count, if_neg (by omega)]
    omega
  · exact le_rfl

theorem At.index_eq (h : At full size index size) : index = count full size := by
  rcases h with ⟨hlt, -⟩ | ⟨-, heq⟩
  · exact absurd hlt (lt_irrefl size)
  · exact heq

theorem count_le (full size : Nat) : count full size ≤ size := by
  unfold count
  split
  · exact Nat.zero_le size
  · have := Nat.div_le_self (size - 1) full
    omega

end Pieces
