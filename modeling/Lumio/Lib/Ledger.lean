import Mathlib.Data.List.Basic
import Mathlib.Data.List.Range
import Mathlib.Data.List.Nodup
import Mathlib.Logic.Function.Basic

/-!
# A ledger of announced and finished items

Items are announced under consecutive indexes, told about while they are open, and finished once. A slot is a place
that holds at most one item. What is written down about the items is a list of notes; the results say how the notes of
every sequence of moves are ordered.
-/

structure Ledger (κ ι : Type) where
  next : Nat := 0
  /-- The index of the item in a slot, and whether it is finished. -/
  slot : κ → Option (Nat × Bool) := fun _ => none
  finished : List (Nat × ι) := []

namespace Ledger

inductive Note (ι : Type) where
  | announced (i : Nat)
  | told (i : Nat)
  | finished (i : Nat) (item : ι)
  | other

namespace Note

variable {ι : Type}

def announcedIndex : Note ι → Option Nat
  | announced i => some i
  | _ => none

def finishedItem : Note ι → Option (Nat × ι)
  | finished i item => some (i, item)
  | _ => none

/-- The index of a note that is not an announcement. -/
def laterIndex : Note ι → Option Nat
  | told i | finished i _ => some i
  | _ => none

end Note

variable {κ ι : Type} [DecidableEq κ]

def announce (L : Ledger κ ι) (a : κ) : Ledger κ ι :=
  { L with next := L.next + 1, slot := Function.update L.slot a (some (L.next, false)) }

def finish (L : Ledger κ ι) (a : κ) (i : Nat) (item : ι) : Ledger κ ι :=
  { L with slot := Function.update L.slot a (some (i, true)), finished := L.finished ++ [(i, item)] }

@[simp] theorem slot_announce (L : Ledger κ ι) (a : κ) : (L.announce a).slot a = some (L.next, false) :=
  Function.update_self ..

/-- What may happen to a ledger, with the notes taken. -/
inductive Moves : Ledger κ ι → Ledger κ ι → List (Note ι) → Prop where
  | refl (L) : Moves L L []
  | other (L) : Moves L L [.other]
  | tell {L a i d} : L.slot a = some (i, d) → Moves L L [.told i]
  | announce {L a} : L.slot a = none → Moves L (L.announce a) [.announced L.next]
  | finish {L a i item} : L.slot a = some (i, false) → Moves L (L.finish a i item) [.finished i item]
  | trans {L M N notes more} : Moves L M notes → Moves M N more → Moves L N (notes ++ more)

/-! ## Notes in order -/

/-- Every note about an item comes after the item's announcement. -/
def Ordered (notes : List (Note ι)) : Prop :=
  ∀ pre note post, notes = pre ++ note :: post → ∀ i, note.laterIndex = some i → i ∈ pre.filterMap Note.announcedIndex

omit [DecidableEq κ] in
theorem Ordered.nil : Ordered ([] : List (Note ι)) := by
  intro pre note post h
  simp at h

variable {notes : List (Note ι)}

theorem Ordered.concat {note : Note ι} (h : Ordered notes)
    (hnote : ∀ i, note.laterIndex = some i → i ∈ notes.filterMap Note.announcedIndex) :
    Ordered (notes ++ [note]) := by
  intro pre x post heq i hi
  rcases List.eq_nil_or_concat post with rfl | ⟨post, last, rfl⟩
  · obtain ⟨rfl, hlast⟩ := List.append_inj' heq rfl
    cases hlast
    exact hnote i hi
  · rw [List.concat_eq_append, ← List.cons_append, ← List.append_assoc] at heq
    obtain ⟨hfront, _⟩ := List.append_inj' heq rfl
    exact h pre x post hfront i hi

theorem filterMap_concat_none {α β : Type} {f : α → Option β} {x : α} (h : f x = none) (xs : List α) :
    (xs ++ [x]).filterMap f = xs.filterMap f := by
  simp [List.filterMap_append, h]

theorem filterMap_concat_some {α β : Type} {f : α → Option β} {x : α} {y : β} (h : f x = some y) (xs : List α) :
    (xs ++ [x]).filterMap f = xs.filterMap f ++ [y] := by
  simp [List.filterMap_append, h]

/-! ## The invariant -/

/-- The ledger and the notes taken on the way to it agree. -/
structure Consistent (L : Ledger κ ι) (notes : List (Note ι)) : Prop where
  announced : notes.filterMap Note.announcedIndex = List.range L.next
  ordered : Ordered notes
  finished : notes.filterMap Note.finishedItem = L.finished
  bounded : ∀ {a i d}, L.slot a = some (i, d) → i < L.next
  injective : ∀ {a b i d e}, L.slot a = some (i, d) → L.slot b = some (i, e) → a = b
  covered : ∀ i < L.next, ∃ a d, L.slot a = some (i, d)
  done : ∀ {a i d}, L.slot a = some (i, d) → (d = true ↔ i ∈ L.finished.map (·.1))
  known : ∀ i ∈ L.finished.map (·.1), i < L.next
  nodup : (L.finished.map (·.1)).Nodup

omit [DecidableEq κ] in
theorem Consistent.empty : Consistent ({} : Ledger κ ι) [] where
  announced := rfl
  ordered := .nil
  finished := rfl
  bounded h := by simp at h
  injective h := by simp at h
  covered i hi := absurd hi (Nat.not_lt_zero i)
  done h := by simp at h
  known i hi := by simp at hi
  nodup := List.nodup_nil

section Steps

variable {L : Ledger κ ι} {notes : List (Note ι)} {a : κ} {i : Nat} {d : Bool} {item : ι}

omit [DecidableEq κ] in
theorem Consistent.other (h : Consistent L notes) : Consistent L (notes ++ [Note.other]) :=
  { h with
    announced := (filterMap_concat_none rfl notes).trans h.announced
    ordered := h.ordered.concat (by simp [Note.laterIndex])
    finished := (filterMap_concat_none rfl notes).trans h.finished }

omit [DecidableEq κ] in
theorem Consistent.tell (h : Consistent L notes) (ha : L.slot a = some (i, d)) : Consistent L (notes ++ [Note.told i]) :=
  { h with
    announced := (filterMap_concat_none rfl notes).trans h.announced
    ordered := h.ordered.concat (by
      rintro j ⟨⟩
      rw [h.announced, List.mem_range]
      exact h.bounded ha)
    finished := (filterMap_concat_none rfl notes).trans h.finished }

theorem Consistent.announce (h : Consistent L notes) (ha : L.slot a = none) :
    Consistent (L.announce a) (notes ++ [Note.announced L.next]) := by
  have hslot : ∀ {b j e}, (L.announce a).slot b = some (j, e) →
      (b = a ∧ j = L.next ∧ e = false) ∨ (b ≠ a ∧ L.slot b = some (j, e)) := by
    intro b j e hb
    by_cases hba : b = a
    · subst hba
      simp only [Ledger.announce, Function.update_self, Option.some.injEq, Prod.mk.injEq] at hb
      exact .inl ⟨rfl, hb.1.symm, hb.2.symm⟩
    · simp only [Ledger.announce, Function.update_of_ne hba] at hb
      exact .inr ⟨hba, hb⟩
  have hnext : L.next ∉ L.finished.map (·.1) := fun hmem => absurd (h.known _ hmem) (Nat.lt_irrefl _)
  constructor
  case announced =>
    have hnote : (Note.announced L.next : Note ι).announcedIndex = some L.next := rfl
    rw [filterMap_concat_some hnote, h.announced]
    exact List.range_succ.symm
  case ordered => exact h.ordered.concat (by simp [Note.laterIndex])
  case finished => exact (filterMap_concat_none rfl notes).trans h.finished
  case bounded =>
    intro b j e hb
    rcases hslot hb with ⟨_, rfl, _⟩ | ⟨_, hb⟩
    · exact Nat.lt_succ_self _
    · exact Nat.lt_succ_of_lt (h.bounded hb)
  case injective =>
    intro b c j d e hb hc
    rcases hslot hb with ⟨rfl, rfl, _⟩ | ⟨_, hb'⟩ <;> rcases hslot hc with ⟨rfl, hj, _⟩ | ⟨_, hc'⟩
    · rfl
    · exact absurd (h.bounded hc') (Nat.lt_irrefl _)
    · subst hj; exact absurd (h.bounded hb') (Nat.lt_irrefl _)
    · exact h.injective hb' hc'
  case covered =>
    intro j hj
    rcases Nat.lt_succ_iff_lt_or_eq.mp hj with hj | rfl
    · obtain ⟨b, e, hb⟩ := h.covered j hj
      have hba : b ≠ a := by rintro rfl; simp [ha] at hb
      exact ⟨b, e, by simpa [Ledger.announce, Function.update_of_ne hba] using hb⟩
    · exact ⟨a, false, by simp [Ledger.announce]⟩
  case done =>
    intro b j e hb
    rcases hslot hb with ⟨_, rfl, rfl⟩ | ⟨_, hb⟩
    · exact ⟨fun hfalse => absurd hfalse (by decide), fun hmem => absurd hmem hnext⟩
    · exact h.done hb
  case known => exact fun j hj => Nat.lt_succ_of_lt (h.known j hj)
  case nodup => exact h.nodup

theorem Consistent.finish (h : Consistent L notes) (ha : L.slot a = some (i, false)) :
    Consistent (L.finish a i item) (notes ++ [Note.finished i item]) := by
  have hopen : i ∉ L.finished.map (·.1) := by
    intro hmem
    exact absurd ((h.done ha).mpr hmem) (by decide)
  have hslot : ∀ {b j e}, (L.finish a i item).slot b = some (j, e) →
      (b = a ∧ j = i ∧ e = true) ∨ (b ≠ a ∧ j ≠ i ∧ L.slot b = some (j, e)) := by
    intro b j e hb
    by_cases hba : b = a
    · subst hba
      simp only [Ledger.finish, Function.update_self, Option.some.injEq, Prod.mk.injEq] at hb
      exact .inl ⟨rfl, hb.1.symm, hb.2.symm⟩
    · simp only [Ledger.finish, Function.update_of_ne hba] at hb
      refine .inr ⟨hba, ?_, hb⟩
      rintro rfl
      exact hba (h.injective hb ha)
  constructor
  case announced => exact (filterMap_concat_none rfl notes).trans h.announced
  case ordered =>
    refine h.ordered.concat ?_
    rintro j ⟨⟩
    rw [h.announced, List.mem_range]
    exact h.bounded ha
  case finished =>
    have hnote : (Note.finished i item).finishedItem = some (i, item) := rfl
    rw [filterMap_concat_some hnote, h.finished]
    rfl
  case bounded =>
    intro b j e hb
    rcases hslot hb with ⟨rfl, rfl, _⟩ | ⟨_, _, hb⟩
    · exact h.bounded ha
    · exact h.bounded hb
  case injective =>
    intro b c j d e hb hc
    rcases hslot hb with ⟨rfl, rfl, _⟩ | ⟨_, hj, hb⟩ <;> rcases hslot hc with ⟨rfl, hj', _⟩ | ⟨_, hj', hc⟩
    · rfl
    · exact absurd rfl hj'
    · exact absurd hj' hj
    · exact h.injective hb hc
  case covered =>
    intro j hj
    obtain ⟨b, e, hb⟩ := h.covered j hj
    by_cases hba : b = a
    · subst hba
      have hji : j = i := congrArg Prod.fst (Option.some.inj (hb.symm.trans ha))
      exact ⟨b, true, by simp [Ledger.finish, hji]⟩
    · exact ⟨b, e, by simpa [Ledger.finish, Function.update_of_ne hba] using hb⟩
  case done =>
    intro b j e hb
    rcases hslot hb with ⟨_, rfl, rfl⟩ | ⟨_, hj, hb⟩
    · simp [Ledger.finish]
    · have hdone := h.done hb
      simp only [Ledger.finish, List.map_append, List.map_cons, List.map_nil, List.mem_append, List.mem_singleton]
      tauto
  case known =>
    intro j hj
    simp only [Ledger.finish, List.map_append, List.map_cons, List.map_nil, List.mem_append, List.mem_singleton] at hj
    rcases hj with hj | rfl
    · exact h.known j hj
    · exact h.bounded ha
  case nodup =>
    simp only [Ledger.finish, List.map_append, List.map_cons, List.map_nil]
    exact List.nodup_append.mpr ⟨h.nodup, List.pairwise_singleton _ _, by
      intro j hj k hk
      rw [List.mem_singleton] at hk
      rintro rfl
      exact hopen (hk ▸ hj)⟩

end Steps

theorem Moves.consistent {L M : Ledger κ ι} (h : Moves L M notes) {before : List (Note ι)} (hL : Consistent L before) :
    Consistent M (before ++ notes) := by
  induction h generalizing before with
  | refl L => simpa using hL
  | other L => exact hL.other
  | tell ha => exact hL.tell ha
  | announce ha => exact hL.announce ha
  | finish ha => exact hL.finish ha
  | trans _ _ ihL ihM => rw [← List.append_assoc]; exact ihM (ihL hL)

omit [DecidableEq κ] in
theorem Consistent.count_finished {L : Ledger κ ι} (h : Consistent L notes)
    (hdone : ∀ a i d, L.slot a = some (i, d) → d = true) {i : Nat} (hi : i < L.next) :
    ((notes.filterMap Note.finishedItem).map (·.1)).count i = 1 := by
  rw [h.finished]
  obtain ⟨a, d, ha⟩ := h.covered i hi
  exact List.count_eq_one_of_mem h.nodup ((h.done ha).mp (hdone a i d ha))

end Ledger
