import Mathlib.Algebra.Order.Ring.Int
import Mathlib.Data.List.Basic

/-!
# Counting in fixed windows

A counter that admits a limited number of events in a window of time, and opens the next window when an event comes after
the end of the last one. Events near the end of a window and events at the begin of the next one may lie close together.
-/

namespace FixedWindow

/-- The window in progress: when it was opened, and how many events it has admitted. -/
structure Window where
  start : Int
  count : Nat
deriving DecidableEq

/-- The events with times from `a` up to `b`, exclusive. -/
def countIn (a b : Int) (times : List Int) : Nat := times.countP fun t => decide (a ≤ t ∧ t < b)

/-- Times that were admitted one after the other, with the windows that were opened for them, the last one first. -/
inductive Admitted (limit : Nat) (width : Int) : List Int → List Window → Prop where
  | nil : Admitted limit width [] []
  | opens {times : List Int} {windows : List Window} {t : Int} (h : Admitted limit width times windows)
      (hended : ∀ w ∈ windows.head?, w.start + width ≤ t) : Admitted limit width (times ++ [t]) (⟨t, 1⟩ :: windows)
  | admits {times : List Int} {windows : List Window} {s t : Int} {count : Nat}
      (h : Admitted limit width times (⟨s, count⟩ :: windows)) (hstart : s ≤ t) (hrunning : t < s + width)
      (hcount : count < limit) : Admitted limit width (times ++ [t]) (⟨s, count + 1⟩ :: windows)

section Count

variable {a b c t : Int} {times : List Int}

theorem countIn_append (more : List Int) : countIn a b (times ++ more) = countIn a b times + countIn a b more :=
  List.countP_append

theorem countIn_concat : countIn a b (times ++ [t]) = countIn a b times + if a ≤ t ∧ t < b then 1 else 0 := by
  rw [countIn_append, countIn, countIn, List.countP_singleton]
  simp only [decide_eq_true_eq]

theorem countIn_eq_zero (h : ∀ t ∈ times, t < a ∨ b ≤ t) : countIn a b times = 0 := by
  rw [countIn, List.countP_eq_zero]
  intro t ht hin
  have hbounds := of_decide_eq_true hin
  rcases h t ht with h | h <;> omega

theorem countIn_split (hab : a ≤ b) (hbc : b ≤ c) (times : List Int) : countIn a c times = countIn a b times + countIn b c times := by
  induction times with
  | nil => rfl
  | cons t times ih =>
    simp only [countIn, List.countP_cons, decide_eq_true_eq] at ih ⊢
    rw [ih]
    split_ifs <;> omega

end Count

section Bounds

variable {limit : Nat} {width : Int} {times : List Int} {window : Window} {windows : List Window}

structure Bounded (limit : Nat) (width : Int) (times : List Int) (window : Window) : Prop where
  count_le : window.count ≤ limit
  within : ∀ t ∈ times, t < window.start + width
  current : ∀ b, countIn window.start b times ≤ window.count
  counted : window.count ≤ countIn window.start (window.start + width) times
  /-- The event that opened the window stands at its start. -/
  later : ∀ a b, window.start < a → countIn a b times + 1 ≤ window.count
  /-- Of the events shortly before the window the limit is not reached. -/
  shortlyBefore : ∀ a, window.start - width < a → countIn a window.start times + 1 ≤ limit
  sliding : ∀ a, countIn a (a + width) times + 1 ≤ 2 * limit

theorem bounded_opens (hlimit : 1 ≤ limit) {t : Int} (hbefore : ∀ s ∈ times, s < t)
    (hshortly : ∀ a, t - width < a → countIn a t times + 1 ≤ limit) (hwidth : 0 < width)
    (hsliding : ∀ a, countIn a (a + width) times + 1 ≤ 2 * limit) : Bounded limit width (times ++ [t]) ⟨t, 1⟩ := by
  have hnone : ∀ a b, t ≤ a → countIn a b times = 0 := fun a b ha =>
    countIn_eq_zero fun s hs => .inl (lt_of_lt_of_le (hbefore s hs) ha)
  constructor
  · exact hlimit
  · intro s hs
    rcases List.mem_append.mp hs with hs | hs
    · have hlt := hbefore s hs
      show s < t + width
      omega
    · rw [List.mem_singleton.mp hs]
      show t < t + width
      omega
  · intro b
    show countIn t b (times ++ [t]) ≤ 1
    rw [countIn_concat, hnone t b le_rfl]
    split_ifs <;> omega
  · show 1 ≤ countIn t (t + width) (times ++ [t])
    rw [countIn_concat, if_pos (by omega)]
    omega
  · intro a b ha
    have ha : t < a := ha
    show countIn a b (times ++ [t]) + 1 ≤ 1
    rw [countIn_concat, hnone a b ha.le, if_neg (by omega)]
  · intro a ha
    show countIn a t (times ++ [t]) + 1 ≤ limit
    rw [countIn_concat, if_neg (by omega)]
    exact hshortly a ha
  · intro a
    rw [countIn_concat]
    split_ifs with hin
    · have hsplit := countIn_split hin.1 hin.2.le times
      have hfirst := hshortly a (by omega)
      rw [hnone t (a + width) le_rfl] at hsplit
      omega
    · exact hsliding a

theorem Admitted.bounded (hlimit : 1 ≤ limit) (hwidth : 0 < width) (h : Admitted limit width times (window :: windows)) :
    Bounded limit width times window := by
  generalize hstate : window :: windows = state at h
  induction h generalizing window windows with
  | nil => cases hstate
  | @opens times before t h hended ih =>
    cases hstate
    cases before with
    | nil =>
      cases h
      have hzero : ∀ a b, countIn a b [] = 0 := fun _ _ => rfl
      apply bounded_opens hlimit (fun s hs => by cases hs) _ hwidth
      · intro a
        rw [hzero]
        omega
      · intro a _
        rw [hzero]
        omega
    | cons w before =>
      have hw := ih rfl
      have hend : w.start + width ≤ t := hended w rfl
      apply bounded_opens hlimit (fun s hs => lt_of_lt_of_le (hw.within s hs) hend) _ hwidth hw.sliding
      intro a ha
      have hlater := hw.later a t (by omega)
      have hcount := hw.count_le
      omega
  | @admits times before s t count h hstart hrunning hcount ih =>
    cases hstate
    have hw := ih rfl
    have hcurrent : ∀ b, countIn s b times ≤ count := hw.current
    have hlater : ∀ a b, s < a → countIn a b times + 1 ≤ count := hw.later
    constructor
    · exact hcount
    · intro r hr
      rcases List.mem_append.mp hr with hr | hr
      · exact hw.within r hr
      · rw [List.mem_singleton.mp hr]
        exact hrunning
    · intro b
      show countIn s b (times ++ [t]) ≤ count + 1
      have hb := hcurrent b
      rw [countIn_concat]
      split_ifs <;> omega
    · have hcounted : count ≤ countIn s (s + width) times := hw.counted
      show count + 1 ≤ countIn s (s + width) (times ++ [t])
      rw [countIn_concat, if_pos ⟨hstart, hrunning⟩]
      omega
    · intro a b ha
      have ha : s < a := ha
      show countIn a b (times ++ [t]) + 1 ≤ count + 1
      have hb := hlater a b ha
      rw [countIn_concat]
      split_ifs <;> omega
    · intro a ha
      show countIn a s (times ++ [t]) + 1 ≤ limit
      rw [countIn_concat, if_neg (by omega)]
      exact hw.shortlyBefore a ha
    · intro a
      rw [countIn_concat]
      split_ifs with hin
      · -- the interval begins before the window, or inside of it and misses its first event
        rcases lt_trichotomy a s with ha | rfl | ha
        · have hsplit := countIn_split ha.le (show s ≤ a + width by omega) times
          have hbefore : countIn a s times + 1 ≤ limit := hw.shortlyBefore a (show s - width < a by omega)
          have hb := hcurrent (a + width)
          omega
        · have hb := hcurrent (a + width)
          omega
        · have hb := hlater a (a + width) ha
          omega
      · exact hw.sliding a

theorem Admitted.sliding (hlimit : 1 ≤ limit) (h : Admitted limit width times windows) (a : Int) :
    countIn a (a + width) times + 1 ≤ 2 * limit := by
  by_cases hwidth : 0 < width
  · cases windows with
    | nil =>
      cases h
      show 0 + 1 ≤ 2 * limit
      omega
    | cons window windows => exact (h.bounded hlimit hwidth).sliding a
  · rw [countIn_eq_zero fun t _ => by omega]
    omega

theorem Admitted.ended (hwidth : 0 ≤ width) (h : Admitted limit width times (window :: windows)) :
    ∀ w ∈ windows, w.start + width ≤ window.start := by
  generalize hstate : window :: windows = state at h
  induction h generalizing window windows with
  | nil => cases hstate
  | @opens times before t h hended ih =>
    cases hstate
    intro w hw
    cases before with
    | nil => cases hw
    | cons newest before =>
      have hend := hended newest rfl
      rcases List.mem_cons.mp hw with rfl | hw
      · exact hend
      · have hearlier := ih rfl w hw
        show w.start + width ≤ t
        omega
  | admits h hstart hrunning hcount ih =>
    cases hstate
    have hearlier := ih rfl
    exact hearlier

theorem Admitted.window_le (hlimit : 1 ≤ limit) (h : Admitted limit width times windows) :
    ∀ w ∈ windows, countIn w.start (w.start + width) times ≤ limit := by
  by_cases hwidth : 0 < width
  · induction h with
    | nil =>
      intro w hw
      cases hw
    | @opens times windows t h hended ih =>
      intro w hw
      rcases List.mem_cons.mp hw with rfl | hw
      · have hbounded := (Admitted.opens h hended).bounded hlimit hwidth
        exact (hbounded.current _).trans hbounded.count_le
      · cases windows with
        | nil => cases hw
        | cons newest windows =>
          have hend := hended newest rfl
          have hle : w.start + width ≤ t := by
            rcases List.mem_cons.mp hw with rfl | hw
            · exact hend
            · have hearlier := h.ended hwidth.le w hw
              omega
          rw [countIn_concat, if_neg (by omega)]
          exact ih w (by simpa using hw)
    | @admits times windows s t count h hstart hrunning hcount ih =>
      intro w hw
      rcases List.mem_cons.mp hw with rfl | hw
      · have hbounded := (Admitted.admits h hstart hrunning hcount).bounded hlimit hwidth
        exact (hbounded.current _).trans hbounded.count_le
      · have hend : w.start + width ≤ s := h.ended hwidth.le w hw
        rw [countIn_concat, if_neg (by omega)]
        exact ih w (List.mem_cons_of_mem _ hw)
  · intro w _
    rw [countIn_eq_zero fun t _ => by omega]
    omega

end Bounds

end FixedWindow
