import Mathlib.Order.Bounds.Basic
import Mathlib.Data.List.Perm.Subperm

/-!
# Saturation

A loop that runs rounds until one adds nothing, and what such loops compute: the items that are linked to a start over
their ends. The pool of ends grows by the ends of every item that meets it.
-/

namespace Saturation

/-! ## Loops of rounds -/

section Rounds

variable {α : Type} {round : α → α} {size : α → Nat} {s t : α}

/-- The loop from `s` ends in `t`: its last round leaves the size as it is, the others do not. -/
inductive Ends (round : α → α) (size : α → Nat) : α → α → Prop where
  | last {s : α} (h : size (round s) = size s) : Ends round size s (round s)
  | again {s t : α} (h : size (round s) ≠ size s) (rest : Ends round size (round s) t) : Ends round size s t

def rounds (round : α → α) (size : α → Nat) : Nat → α → α
  | 0, s => s
  | fuel + 1, s => if size (round s) = size s then round s else rounds round size fuel (round s)

theorem Ends.exists_last {Keeps : α → Prop} (h : Ends round size s t) (hround : ∀ s, Keeps s → Keeps (round s))
    (hs : Keeps s) : ∃ u, Keeps u ∧ size (round u) = size u ∧ t = round u := by
  induction h with
  | last h => exact ⟨_, hs, h, rfl⟩
  | again _ _ ih => exact ih (hround _ hs)

theorem rounds_ends {Keeps : α → Prop} {bound : Nat} (hround : ∀ s, Keeps s → Keeps (round s))
    (hgrows : ∀ s, Keeps s → size s ≤ size (round s)) (hbound : ∀ s, Keeps s → size s ≤ bound) (fuel : Nat) :
    ∀ s, Keeps s → bound < fuel + size s → Ends round size s (rounds round size fuel s) := by
  induction fuel with
  | zero =>
    intro s hs hfuel
    have := hbound s hs
    omega
  | succ fuel ih =>
    intro s hs hfuel
    have hle := hgrows s hs
    simp only [rounds]
    split
    · rename_i hsame
      exact .last hsame
    · rename_i hmore
      exact .again hmore (ih _ (hround s hs) (by omega))

end Rounds

/-! ## Linked items -/

variable {ι ε : Type} (ends : ι → List ε) (meets : ε → ε → Prop)

def Joins (item : ι) (pool : List ε) : Prop := ∃ e ∈ ends item, ∃ f ∈ pool, meets e f

/-- The set has every item that meets the start or an item of the set. -/
structure Closed (available : Set ι) (start : List ε) (S : Set ι) : Prop where
  atStart : ∀ item ∈ available, Joins ends meets item start → item ∈ S
  linked : ∀ item ∈ available, ∀ other ∈ S, Joins ends meets item (ends other) → item ∈ S

structure Grown (available : Set ι) (start pool : List ε) : Prop where
  atStart : ∀ e ∈ start, e ∈ pool
  drawn : ∀ S, Closed ends meets available start S → ∀ e ∈ pool, e ∈ start ∨ ∃ item ∈ available, item ∈ S ∧ e ∈ ends item

variable {ends meets} {available : Set ι} {start pool more : List ε} {item : ι}

theorem Joins.mono (h : Joins ends meets item pool) (hsub : ∀ e ∈ pool, e ∈ more) : Joins ends meets item more := by
  obtain ⟨e, he, f, hf, hmeets⟩ := h
  exact ⟨e, he, f, hsub f hf, hmeets⟩

theorem Grown.refl : Grown ends meets available start start :=
  ⟨fun _ he => he, fun _ _ _ he => .inl he⟩

theorem Grown.mem (h : Grown ends meets available start pool) (hitem : item ∈ available)
    (hjoins : Joins ends meets item pool) {S : Set ι} (hclosed : Closed ends meets available start S) : item ∈ S := by
  obtain ⟨e, he, f, hf, hmeets⟩ := hjoins
  rcases h.drawn S hclosed f hf with hf | ⟨other, _, hother, hf⟩
  · exact hclosed.atStart item hitem ⟨e, he, f, hf, hmeets⟩
  · exact hclosed.linked item hitem other hother ⟨e, he, f, hf, hmeets⟩

theorem Grown.join (h : Grown ends meets available start pool) (hitem : item ∈ available)
    (hjoins : Joins ends meets item pool) (hsub : ∀ e ∈ pool, e ∈ more) (hmore : ∀ e ∈ more, e ∈ pool ∨ e ∈ ends item) :
    Grown ends meets available start more where
  atStart e he := hsub e (h.atStart e he)
  drawn S hclosed e he := by
    rcases hmore e he with he | he
    · exact h.drawn S hclosed e he
    · exact .inr ⟨item, hitem, h.mem hitem hjoins hclosed, he⟩

theorem Grown.isLeast (h : Grown ends meets available start pool)
    (hfull : ∀ item ∈ available, Joins ends meets item pool → ∀ e ∈ ends item, e ∈ pool) :
    IsLeast {S | Closed ends meets available start S} {item | item ∈ available ∧ Joins ends meets item pool} := by
  refine ⟨⟨fun item hitem hjoins => ⟨hitem, hjoins.mono h.atStart⟩, fun item hitem other hother hjoins => ?_⟩,
    fun S hclosed item hitem => h.mem hitem.1 hitem.2 hclosed⟩
  exact ⟨hitem, hjoins.mono (hfull other hother.1 hother.2)⟩

theorem Grown.mem_iff (h : Grown ends meets available start pool)
    (hfull : ∀ item ∈ available, Joins ends meets item pool → ∀ e ∈ ends item, e ∈ pool) (e : ε) :
    e ∈ pool ↔ e ∈ start ∨ ∃ item, (item ∈ available ∧ Joins ends meets item pool) ∧ e ∈ ends item := by
  constructor
  · intro he
    rcases h.drawn _ (h.isLeast hfull).1 e he with he | ⟨item, _, hitem, he⟩
    · exact .inl he
    · exact .inr ⟨item, hitem, he⟩
  · rintro (he | ⟨item, ⟨hitem, hjoins⟩, he⟩)
    · exact h.atStart e he
    · exact hfull item hitem hjoins e he

end Saturation
