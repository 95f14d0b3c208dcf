import Mathlib.Algebra.Order.Group.Unbundled.Int
import Mathlib.Tactic.IntervalCases

/-!
# The proleptic Gregorian calendar

Days are counted from the first of January 1970, in both directions, over years and months of their own lengths.
-/

namespace Calendar

def isLeap (year : Int) : Bool := year % 4 = 0 && (year % 100 ≠ 0 || year % 400 = 0)

def yearLength (year : Int) : Int := if isLeap year then 366 else 365

def monthLength (year : Int) : Nat → Int
  | 2 => if isLeap year then 29 else 28
  | 4 | 6 | 9 | 11 => 30
  | _ => 31

/-- The days from the begin of year 0 to that of the year, negative for an earlier one. -/
def daysBeforeYear : Int → Int
  | .ofNat n => ((List.range n).map fun k : Nat => yearLength k).sum
  | .negSucc n => -((List.range (n + 1)).map fun k : Nat => yearLength (.negSucc k)).sum

/-- The days of the year before the month; January is month 1. -/
def daysBeforeMonth (year : Int) (month : Nat) : Int :=
  ((List.range (month - 1)).map fun m => monthLength year (m + 1)).sum

structure Date where
  year : Int
  month : Nat
  day : Int
  month_pos : 1 ≤ month
  month_le : month ≤ 12
  day_pos : 1 ≤ day
  day_le : day ≤ monthLength year month

/-- The day of a month, counted from the first of January 1970. The days of a month may be counted on over its end. -/
def dayNumber (year : Int) (month : Nat) (day : Int) : Int :=
  daysBeforeYear year + daysBeforeMonth year month + (day - 1) - daysBeforeYear 1970

def Date.number (date : Date) : Int := dayNumber date.year date.month date.day

/-! ## Years in closed form -/

theorem daysBeforeYear_succ (year : Int) : daysBeforeYear (year + 1) = daysBeforeYear year + yearLength year := by
  cases year with
  | ofNat n =>
    change ((List.range (n + 1)).map fun k : Nat => yearLength k).sum = _
    rw [List.range_succ, List.map_append, List.sum_append]
    simp [daysBeforeYear]
  | negSucc n =>
    have hlast : daysBeforeYear (.negSucc n) =
        -((List.range n).map fun k : Nat => yearLength (.negSucc k)).sum - yearLength (.negSucc n) := by
      simp only [daysBeforeYear, List.range_succ, List.map_append, List.sum_append, List.map_singleton,
        List.sum_singleton]
      omega
    rw [hlast, Int.sub_add_cancel]
    cases n <;> rfl

theorem daysBeforeYear_eq (year : Int) :
    daysBeforeYear year = 365 * year + (year + 3) / 4 - (year + 99) / 100 + (year + 399) / 400 := by
  have hlength : ∀ y : Int, yearLength y = 365 + (if isLeap y then 1 else 0) := by
    intro y
    unfold yearLength
    split <;> rfl
  have hleap : ∀ y : Int, (if isLeap y then (1 : Int) else 0) =
      ((y + 1 + 3) / 4 - (y + 3) / 4) - ((y + 1 + 99) / 100 - (y + 99) / 100) +
        ((y + 1 + 399) / 400 - (y + 399) / 400) := by
    intro y
    simp only [isLeap, Bool.and_eq_true, Bool.or_eq_true, decide_eq_true_eq]
    split <;> omega
  induction year using Int.induction_on with
  | zero => rfl
  | succ n ih =>
    rw [daysBeforeYear_succ, hlength, hleap, ih]
    omega
  | pred n ih =>
    have hstep := daysBeforeYear_succ (-(n : Int) - 1)
    rw [Int.sub_add_cancel, hlength, hleap, ih] at hstep
    omega

end Calendar
