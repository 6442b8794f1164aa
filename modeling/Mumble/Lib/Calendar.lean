import Mathlib.Order.Interval.Finset.Nat
import Mathlib.Order.SuccPred.IntervalSucc
import Mathlib.Tactic.IntervalCases

namespace Mumble.Lib

-- The Gregorian calendar, in both directions without an end.

def IsLeap (y : Int) : Prop := y % 4 = 0 ∧ (y % 100 ≠ 0 ∨ y % 400 = 0)

instance (y : Int) : Decidable (IsLeap y) := inferInstanceAs (Decidable (_ ∧ _))

def daysInMonth (y : Int) : Nat → Nat
  | 2 => if IsLeap y then 29 else 28
  | 4 | 6 | 9 | 11 => 30
  | _ => 31

@[ext]
structure Date where
  year : Int
  month : Nat
  day : Nat
  month_valid : 1 ≤ month ∧ month ≤ 12
  day_valid : 1 ≤ day ∧ day ≤ daysInMonth year month

theorem daysInMonth_pos (y : Int) (m : Nat) : 1 ≤ daysInMonth y m := by
  unfold daysInMonth
  split
  · split_ifs <;> decide
  all_goals decide

-- The day after.
def Date.next (date : Date) : Date :=
  if hday : date.day < daysInMonth date.year date.month then
    ⟨date.year, date.month, date.day + 1, date.month_valid, Nat.le_add_left _ _, hday⟩
  else if hmonth : date.month < 12 then
    ⟨date.year, date.month + 1, 1, ⟨Nat.le_add_left _ _, hmonth⟩, Nat.le_refl _, daysInMonth_pos _ _⟩
  else ⟨date.year + 1, 1, 1, by decide, Nat.le_refl _, daysInMonth_pos _ _⟩

namespace Date

variable (date : Date)

theorem next_day (h : date.day < daysInMonth date.year date.month) :
    date.next.year = date.year ∧ date.next.month = date.month ∧ date.next.day = date.day + 1 := by
  unfold next
  rw [dif_pos h]
  exact ⟨rfl, rfl, rfl⟩

theorem next_month (h : date.day = daysInMonth date.year date.month) (hmonth : date.month < 12) :
    date.next.year = date.year ∧ date.next.month = date.month + 1 ∧ date.next.day = 1 := by
  unfold next
  rw [dif_neg (by omega), dif_pos hmonth]
  exact ⟨rfl, rfl, rfl⟩

theorem next_year (h : date.day = daysInMonth date.year date.month) (hmonth : date.month = 12) :
    date.next.year = date.year + 1 ∧ date.next.month = 1 ∧ date.next.day = 1 := by
  unfold next
  rw [dif_neg (by omega), dif_neg (by omega)]
  exact ⟨rfl, rfl, rfl⟩

end Date

-- A year that begins with March ends with February, so that the day a leap year has more
-- is its last one.

def marchLength (y : Int) : Nat := if IsLeap (y + 1) then 366 else 365

-- From 1 March of the year 0 to 1 March of the year.
def marchStart (y : Int) : Int := 365 * y + y / 4 - y / 100 + y / 400

theorem marchStart_succ (y : Int) : marchStart (y + 1) = marchStart y + marchLength y := by
  unfold marchStart marchLength
  split_ifs with hleap
  · obtain ⟨hfour, hcentury⟩ := hleap
    omega
  · have hother : (y + 1) % 4 ≠ 0 ∨ (y + 1) % 100 = 0 ∧ (y + 1) % 400 ≠ 0 := by
      by_contra hnot
      exact hleap ⟨by omega, by omega⟩
    omega

theorem marchLength_pos (y : Int) : 0 < marchLength y := by
  unfold marchLength
  split_ifs <;> decide

theorem marchStart_lt_iff {y y' : Int} : marchStart y < marchStart y' ↔ y < y' := by
  refine StrictMono.lt_iff_lt (strictMono_int_of_lt_succ fun y => ?_)
  have hpos := marchLength_pos y
  rw [marchStart_succ]
  omega

-- After 400 years everything is repeated.

theorem isLeap_add_era (y era : Int) : IsLeap (y + 400 * era) ↔ IsLeap y := by
  unfold IsLeap
  omega

theorem marchLength_add_era (y era : Int) : marchLength (y + 400 * era) = marchLength y := by
  have hleap : IsLeap (y + 400 * era + 1) ↔ IsLeap (y + 1) := by
    rw [Int.add_right_comm, isLeap_add_era]
  unfold marchLength
  simp only [hleap]

theorem marchStart_add_era (y era : Int) :
    marchStart (y + 400 * era) = marchStart y + 146097 * era := by
  unfold marchStart
  omega

-- A day is in one year only.
theorem march_unique {y y' : Int} {k k' : Nat} (hk : k < marchLength y) (hk' : k' < marchLength y')
    (h : marchStart y + k = marchStart y' + k') : y = y' ∧ k = k' := by
  have hsucc := marchStart_succ y
  have hsucc' := marchStart_succ y'
  have hlt : y < y' + 1 := marchStart_lt_iff.mp (by omega)
  have hlt' : y' < y + 1 := marchStart_lt_iff.mp (by omega)
  obtain rfl : y = y' := by omega
  exact ⟨rfl, by omega⟩

-- The months of such a year are counted from 0. Their beginnings lie on a line, up to
-- rounding, since 31, 30, 31, 30, 31 are repeated.

def monthStart (mp : Nat) : Nat := (153 * mp + 2) / 5

def marchMonth (k : Nat) : Nat := (5 * k + 2) / 153

def calendarMonth (mp : Nat) : Nat := if mp < 10 then mp + 3 else mp - 9

def calendarYear (y : Int) (mp : Nat) : Int := if mp < 10 then y else y + 1

theorem marchMonth_eq_iff {k mp : Nat} :
    marchMonth k = mp ↔ monthStart mp ≤ k ∧ k < monthStart (mp + 1) := by
  unfold marchMonth monthStart
  omega

theorem marchLength_le (y : Int) : 365 ≤ marchLength y ∧ marchLength y ≤ 366 := by
  unfold marchLength
  split_ifs <;> decide

theorem marchMonth_lt {y : Int} {k : Nat} (h : k < marchLength y) : marchMonth k < 12 := by
  have hle := marchLength_le y
  unfold marchMonth
  omega

theorem monthStart_succ (y : Int) (mp : Nat) (h : mp < 11) :
    monthStart (mp + 1) = monthStart mp + daysInMonth (calendarYear y mp) (calendarMonth mp) := by
  interval_cases mp <;> rfl

theorem marchLength_eq (y : Int) : marchLength y = monthStart 11 + daysInMonth (y + 1) 2 := by
  unfold marchLength daysInMonth
  split_ifs <;> rfl

-- Where in its month a day of the year is.
theorem lt_daysInMonth {y : Int} {k : Nat} (h : k < marchLength y) :
    k < monthStart (marchMonth k) +
      daysInMonth (calendarYear y (marchMonth k)) (calendarMonth (marchMonth k)) := by
  have hlt := marchMonth_lt h
  obtain ⟨-, hend⟩ := marchMonth_eq_iff.mp (rfl : marchMonth k = marchMonth k)
  generalize marchMonth k = mp at hlt hend ⊢
  by_cases hlast : mp = 11
  · subst hlast
    rw [marchLength_eq] at h
    exact h
  · rwa [monthStart_succ y mp (by omega)] at hend

-- The date `k` days after 1 March of the year.
def Date.ofMarch (y : Int) (k : Nat) (h : k < marchLength y) : Date where
  year := calendarYear y (marchMonth k)
  month := calendarMonth (marchMonth k)
  day := k - monthStart (marchMonth k) + 1
  month_valid := by
    have hlt := marchMonth_lt h
    unfold calendarMonth
    split_ifs <;> omega
  day_valid := by
    have hlt := lt_daysInMonth h
    obtain ⟨hstart, -⟩ := marchMonth_eq_iff.mp (rfl : marchMonth k = marchMonth k)
    omega

namespace Date

variable {y : Int} {k : Nat}

theorem next_ofMarch (h : k < marchLength y) (h' : k + 1 < marchLength y) :
    (ofMarch y k h).next = ofMarch y (k + 1) h' := by
  obtain ⟨hstart, hend⟩ := marchMonth_eq_iff.mp (rfl : marchMonth k = marchMonth k)
  have hlt' := marchMonth_lt h'
  by_cases hsame : marchMonth (k + 1) = marchMonth k
  · -- the month goes on
    have hday := lt_daysInMonth h'
    rw [hsame] at hday
    obtain ⟨hyear, hmonth, hnext⟩ := next_day (ofMarch y k h) (by simp only [ofMarch]; omega)
    apply Date.ext
    · rw [hyear]
      simp only [ofMarch, hsame]
    · rw [hmonth]
      simp only [ofMarch, hsame]
    · rw [hnext]
      simp only [ofMarch, hsame]
      omega
  · have hnew : k + 1 = monthStart (marchMonth k + 1) := by
      by_contra hne
      exact hsame (marchMonth_eq_iff.mpr ⟨by omega, by omega⟩)
    have hmp : marchMonth (k + 1) = marchMonth k + 1 := by
      refine marchMonth_eq_iff.mpr ⟨by omega, ?_⟩
      rw [hnew]
      unfold monthStart
      omega
    have hlength := monthStart_succ y (marchMonth k) (by omega)
    have hlast : (ofMarch y k h).day =
        daysInMonth (ofMarch y k h).year (ofMarch y k h).month := by
      simp only [ofMarch]
      omega
    by_cases hdecember : marchMonth k = 9
    · obtain ⟨hyear, hmonth, hnext⟩ := next_year _ hlast (by simp [ofMarch, calendarMonth, hdecember])
      apply Date.ext
      · rw [hyear]
        simp [ofMarch, calendarYear, hmp, hdecember]
      · rw [hmonth]
        simp [ofMarch, calendarMonth, hmp, hdecember]
      · rw [hnext]
        simp only [ofMarch, hmp]
        omega
    · obtain ⟨hyear, hmonth, hnext⟩ := next_month _ hlast (by
        simp only [ofMarch, calendarMonth]
        split_ifs <;> omega)
      apply Date.ext
      · rw [hyear]
        simp only [ofMarch, calendarYear, hmp]
        split_ifs <;> omega
      · rw [hmonth]
        simp only [ofMarch, calendarMonth, hmp]
        split_ifs <;> omega
      · rw [hnext]
        simp only [ofMarch, hmp]
        omega

-- The day after the last one of February.
theorem next_ofMarch_last (h : k < marchLength y) (h' : k + 1 = marchLength y) :
    (ofMarch y k h).next = ofMarch (y + 1) 0 (marchLength_pos _) := by
  have hle := marchLength_le y
  have hmp : marchMonth k = 11 := by
    unfold marchMonth
    omega
  have hlength := marchLength_eq y
  have hlast : (ofMarch y k h).day =
      daysInMonth (ofMarch y k h).year (ofMarch y k h).month := by
    simp only [ofMarch, hmp]
    change k - monthStart 11 + 1 = daysInMonth (y + 1) 2
    have hpos := daysInMonth_pos (y + 1) 2
    omega
  obtain ⟨hyear, hmonth, hnext⟩ := next_month _ hlast (by simp [ofMarch, calendarMonth, hmp])
  apply Date.ext
  · rw [hyear]
    simp only [ofMarch, hmp]
    rfl
  · rw [hmonth]
    simp only [ofMarch, hmp]
    rfl
  · rw [hnext]
    rfl

-- The days of the calendar come one after the other.
theorem next_ofMarch_of_succ {y' : Int} {k' : Nat} (h : k < marchLength y)
    (h' : k' < marchLength y') (hday : marchStart y' + k' = marchStart y + k + 1) :
    (ofMarch y k h).next = ofMarch y' k' h' := by
  by_cases hin : k + 1 < marchLength y
  · obtain ⟨rfl, rfl⟩ := march_unique h' hin (by push_cast; omega)
    exact next_ofMarch h hin
  · have hsucc := marchStart_succ y
    obtain ⟨rfl, rfl⟩ := march_unique h' (marchLength_pos (y + 1)) (by push_cast; omega)
    exact next_ofMarch_last h (by omega)

end Date

end Mumble.Lib
