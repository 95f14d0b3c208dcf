import Mathlib.Data.List.Basic
import Mathlib.Data.Nat.Basic
import Mathlib.Tactic.Ring

/-!
# Byte buffers

Fixed-width big-endian numbers, and buffers whose accesses are checked: an access outside the buffer is `none`,
which is where a program stops. `Checked` adds the errors a program returns itself.
-/

namespace Bytes

/-! ## Big-endian numbers -/

/-- The last `w` base-256 digits of `n`, the most significant first. -/
def ofNat : Nat → Nat → List UInt8
  | 0, _ => []
  | w + 1, n => UInt8.ofNat (n / 256 ^ w % 256) :: ofNat w n

def toNat : List UInt8 → Nat
  | [] => 0
  | b :: bs => b.toNat * 256 ^ bs.length + toNat bs

@[simp] theorem length_ofNat (w n : Nat) : (ofNat w n).length = w := by
  induction w with
  | zero => rfl
  | succ w ih => simp only [ofNat, List.length_cons, ih]

theorem toNat_lt (bs : List UInt8) : toNat bs < 256 ^ bs.length := by
  induction bs with
  | nil => simp [toNat]
  | cons b bs ih =>
    have hb : b.toNat ≤ 255 := Nat.le_of_lt_succ b.toNat_lt
    calc b.toNat * 256 ^ bs.length + toNat bs
        < b.toNat * 256 ^ bs.length + 256 ^ bs.length := by omega
      _ = (b.toNat + 1) * 256 ^ bs.length := by ring
      _ ≤ 256 * 256 ^ bs.length := Nat.mul_le_mul_right _ (by omega)
      _ = 256 ^ (b :: bs).length := by rw [List.length_cons, pow_succ, Nat.mul_comm]

theorem toNat_ofNat (w n : Nat) : toNat (ofNat w n) = n % 256 ^ w := by
  induction w with
  | zero => simp [ofNat, toNat, Nat.mod_one]
  | succ w ih =>
    have hdigit : (UInt8.ofNat (n / 256 ^ w % 256)).toNat = n / 256 ^ w % 256 := by
      rw [UInt8.toNat_ofNat']
      exact Nat.mod_eq_of_lt (by simpa using Nat.mod_lt (n / 256 ^ w) (show 0 < 256 by decide))
    rw [ofNat, toNat, length_ofNat, ih, hdigit, pow_succ, Nat.mod_mul, Nat.mul_comm]
    omega

theorem toNat_ofNat_of_lt {w n : Nat} (h : n < 256 ^ w) : toNat (ofNat w n) = n := by
  rw [toNat_ofNat, Nat.mod_eq_of_lt h]

theorem ofNat_add_mul (w n k : Nat) : ofNat w (k * 256 ^ w + n) = ofNat w n := by
  induction w generalizing k with
  | zero => rfl
  | succ w ih =>
    have hpow : k * 256 ^ (w + 1) = (k * 256) * 256 ^ w := by rw [pow_succ]; ring
    have hdiv : ((k * 256) * 256 ^ w + n) / 256 ^ w = k * 256 + n / 256 ^ w := by
      rw [Nat.add_comm, Nat.add_mul_div_right _ _ (Nat.pos_of_ne_zero (by simp)), Nat.add_comm]
    rw [ofNat, ofNat, hpow, ih, hdiv]
    congr 2
    omega

theorem ofNat_toNat (bs : List UInt8) : ofNat bs.length (toNat bs) = bs := by
  induction bs with
  | nil => rfl
  | cons b bs ih =>
    have hdiv : (b.toNat * 256 ^ bs.length + toNat bs) / 256 ^ bs.length = b.toNat := by
      rw [Nat.add_comm, Nat.add_mul_div_right _ _ (Nat.pos_of_ne_zero (by simp)), Nat.div_eq_of_lt (toNat_lt bs), Nat.zero_add]
    rw [List.length_cons, ofNat, toNat, hdiv, ofNat_add_mul, ih,
      Nat.mod_eq_of_lt b.toNat_lt, UInt8.ofNat_toNat]

theorem ofNat_toNat_of_length {w : Nat} {bs : List UInt8} (h : bs.length = w) : ofNat w (toNat bs) = bs := by
  rw [← h, ofNat_toNat]

/-! ## Checked accesses -/

variable {α : Type}

/-- `xs[i..j]`. -/
def slice (xs : List α) (i j : Nat) : Option (List α) :=
  if i ≤ j ∧ j ≤ xs.length then some ((xs.take j).drop i) else none

/-- `xs[i]`. -/
def byteAt (xs : List α) (i : Nat) : Option α := xs[i]?

/-- `xs[i] = x`. -/
def setAt (xs : List α) (i : Nat) (x : α) : Option (List α) :=
  if i < xs.length then some (xs.set i x) else none

/-- `xs[i..j].copy_from_slice(ys)`. -/
def copyFromSlice (xs : List α) (i j : Nat) (ys : List α) : Option (List α) :=
  if i ≤ j ∧ j ≤ xs.length ∧ ys.length = j - i then some (xs.take i ++ ys ++ xs.drop j) else none

/-- `xs.copy_within(i..j, dest)`. -/
def copyWithin (xs : List α) (i j dest : Nat) : Option (List α) := do
  let ys ← slice xs i j
  copyFromSlice xs dest (dest + ys.length) ys

def toArray (n : Nat) (xs : List α) : Option (Vector α n) :=
  if h : xs.length = n then some ⟨xs.toArray, by simpa using h⟩ else none

theorem slice_eq_some {xs ys : List α} {i j : Nat} (h : slice xs i j = some ys) :
    i ≤ j ∧ j ≤ xs.length ∧ ys = (xs.take j).drop i := by
  unfold slice at h
  split at h
  · rename_i hb; exact ⟨hb.1, hb.2, (Option.some.inj h).symm⟩
  · cases h

theorem length_of_slice {xs ys : List α} {i j : Nat} (h : slice xs i j = some ys) : ys.length = j - i := by
  obtain ⟨_, hj, rfl⟩ := slice_eq_some h
  simp [Nat.min_eq_left hj]

theorem take_append_slice {xs ys : List α} {i j : Nat} (h : slice xs i j = some ys) :
    xs.take i ++ ys = xs.take j := by
  obtain ⟨hi, _, rfl⟩ := slice_eq_some h
  rw [show xs.take i = (xs.take j).take i by rw [List.take_take, Nat.min_eq_left hi], List.take_append_drop]

theorem slice_isSome {xs : List α} {i j : Nat} (hi : i ≤ j) (hj : j ≤ xs.length) : ∃ ys, slice xs i j = some ys :=
  ⟨_, if_pos ⟨hi, hj⟩⟩

theorem byteAt_isSome {xs : List α} {i : Nat} (h : i < xs.length) : ∃ x, byteAt xs i = some x :=
  ⟨_, List.getElem?_eq_getElem h⟩

theorem take_append_byteAt {xs : List α} {x : α} {i : Nat} (h : byteAt xs i = some x) :
    xs.take i ++ [x] = xs.take (i + 1) := by
  rw [List.take_add_one, show xs[i]? = some x from h]
  rfl

theorem slice_middle {xs ys zs : List α} {i j : Nat} (hi : xs.length = i) (hj : i + ys.length = j) :
    slice (xs ++ (ys ++ zs)) i j = some ys := by
  subst hi hj
  unfold slice
  rw [if_pos ⟨by omega, by simp⟩, ← List.append_assoc, ← List.length_append, List.take_left', List.drop_left']
  · rfl
  · rfl

theorem slice_append_right {xs ys : List α} {i j : Nat} (hi : xs.length ≤ i) (hj : i ≤ j) :
    slice (xs ++ ys) i j = slice ys (i - xs.length) (j - xs.length) := by
  have htake : ((xs ++ ys).take j).drop i = (ys.take (j - xs.length)).drop (i - xs.length) := by
    rw [List.take_append, List.drop_append, List.length_take, Nat.min_eq_right (by omega),
      List.drop_eq_nil_of_le (by simp; omega), List.nil_append]
  unfold slice
  rw [htake]
  congr 1
  rw [List.length_append, eq_iff_iff]
  omega

theorem slice_cons (x : α) (xs : List α) (i j : Nat) : slice (x :: xs) (i + 1) (j + 1) = slice xs i j := by
  simp [slice]

theorem slice_append_left {ys zs : List α} {j : Nat} (hj : ys.length = j) : slice (ys ++ zs) 0 j = some ys :=
  slice_middle List.length_nil (by omega)

theorem slice_tail {xs ys : List α} {i : Nat} (hi : xs.length = i) :
    slice (xs ++ ys) i (xs ++ ys).length = some ys := by
  subst hi
  unfold slice
  rw [if_pos ⟨by simp, le_rfl⟩, List.take_length, List.drop_left]

theorem toArray_toList {n : Nat} (v : Vector α n) : toArray n v.toList = some v := by
  rcases v with ⟨a, ha⟩
  unfold toArray
  simp [ha]

theorem toList_of_toArray {n : Nat} {xs : List α} {v : Vector α n} (h : toArray n xs = some v) : v.toList = xs := by
  unfold toArray at h
  split at h
  · cases h; simp
  · cases h

theorem toArray_isSome {n : Nat} {xs : List α} (h : xs.length = n) : ∃ v, toArray n xs = some v :=
  ⟨_, dif_pos h⟩

/-! ### Writing into a blank buffer

A header is written into a block of `k` equal bytes `z` from the front; `xs` is what has been written and `rest`
what follows the block. -/

section Blank

variable {xs ys rest : List α} {z x : α} {i j k : Nat}

theorem copyFromSlice_blank (g r : Nat) (hi : xs.length + g = i) (hj : i + ys.length = j) (hk : g + (ys.length + r) = k) :
    copyFromSlice (xs ++ (List.replicate k z ++ rest)) i j ys =
      some ((xs ++ List.replicate g z ++ ys) ++ (List.replicate r z ++ rest)) := by
  have hsplit : xs ++ (List.replicate k z ++ rest) =
      (xs ++ List.replicate g z) ++ (List.replicate ys.length z ++ (List.replicate r z ++ rest)) := by
    simp only [← hk, List.replicate_add, List.append_assoc]
  have hlen : (xs ++ List.replicate g z).length = i := by simpa using hi
  have hlen' : (xs ++ List.replicate g z ++ List.replicate ys.length z).length = j := by
    simp only [List.length_append, List.length_replicate] at hlen ⊢; omega
  unfold copyFromSlice
  rw [hsplit, if_pos]
  · rw [List.take_left' hlen, ← List.append_assoc (xs ++ List.replicate g z), List.drop_left' hlen']
  · refine ⟨by omega, ?_, by omega⟩
    rw [← List.append_assoc, List.length_append, hlen']
    omega

theorem setAt_blank (r : Nat) (hi : xs.length = i) (hk : 1 + r = k) :
    setAt (xs ++ (List.replicate k z ++ rest)) i x = some ((xs ++ [x]) ++ (List.replicate r z ++ rest)) := by
  subst hi hk
  unfold setAt
  rw [if_pos (by simp), Nat.add_comm 1 r, List.replicate_succ]
  simp

end Blank

end Bytes

/-! ## Computations that may stop -/

/-- A computation that returns a value or an error of its own, or stops at an access outside a buffer. -/
abbrev Checked (ε α : Type) := ExceptT ε Option α

namespace Checked

variable {ε α β : Type}

def access (o : Option α) : Checked ε α := ExceptT.lift o

def Safe (m : Checked ε α) : Prop := m.run ≠ none

theorem run_bind_eq_ok {m : Checked ε α} {f : α → Checked ε β} {b : β} :
    (m >>= f).run = some (.ok b) ↔ ∃ a, m.run = some (.ok a) ∧ (f a).run = some (.ok b) := by
  rcases hm : m.run with _ | (e | a) <;> simp [ExceptT.run_bind, hm]

theorem run_bind_of_ok {m : Checked ε α} {f : α → Checked ε β} {a : α} (hm : m.run = some (.ok a)) :
    (m >>= f).run = (f a).run := by
  simp [ExceptT.run_bind, hm]

theorem run_bind_access {o : Option α} {f : α → Checked ε β} {a : α} (ho : o = some a) :
    (access o >>= f).run = (f a).run := by
  subst ho
  exact run_bind_of_ok rfl

@[simp] theorem run_access (o : Option α) : (access o : Checked ε α).run = o.map Except.ok := by
  cases o <;> rfl

theorem run_bind_access_eq_ok {o : Option α} {f : α → Checked ε β} {b : β} :
    (access o >>= f).run = some (.ok b) ↔ ∃ a, o = some a ∧ (f a).run = some (.ok b) := by
  rw [run_bind_eq_ok]
  cases o <;> simp

theorem Safe.pure (a : α) : Safe (pure a : Checked ε α) := by simp [Safe]

theorem Safe.throw (e : ε) : Safe (throw e : Checked ε α) := by simp [Safe]

theorem Safe.bind {m : Checked ε α} {f : α → Checked ε β} (hm : Safe m)
    (hf : ∀ a, m.run = some (.ok a) → Safe (f a)) : Safe (m >>= f) := by
  unfold Safe at hm ⊢
  rcases hr : m.run with _ | (e | a)
  · exact absurd hr hm
  · simp [ExceptT.run_bind, hr]
  · rw [run_bind_of_ok hr]
    exact hf a hr

theorem Safe.access {o : Option α} (h : ∃ a, o = some a) : Safe (access o : Checked ε α) := by
  obtain ⟨a, rfl⟩ := h
  simp [Safe]

end Checked
