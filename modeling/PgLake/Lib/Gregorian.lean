/-
  The proleptic Gregorian calendar.

  Years are astronomical, with the year 0 before the year 1.  Days are numbered from
  1 January of the year 1; `julianDay` numbers them as astronomers do.
-/
import Mathlib.Algebra.Order.Ring.Int

namespace Gregorian

def isLeap (year : ℤ) : Bool := year % 4 = 0 && (year % 100 ≠ 0 || year % 400 = 0)

def daysInMonth (leap : Bool) : ℕ → ℕ
  | 2 => if leap then 29 else 28
  | 4 | 6 | 9 | 11 => 30
  | _ => 31

def daysInYear (leap : Bool) : ℕ := if leap then 366 else 365

/-- The days of a year before a month, the months being numbered from 1. -/
def daysBeforeMonth (leap : Bool) : ℕ → ℕ
  | 0 | 1 => 0
  | month + 2 => daysBeforeMonth leap (month + 1) + daysInMonth leap (month + 1)

def daysBeforeYear (year : ℤ) : ℤ :=
  365 * (year - 1) + (year - 1) / 4 - (year - 1) / 100 + (year - 1) / 400

def firstOfMonth (year : ℤ) (month : ℕ) : ℤ :=
  daysBeforeYear year + daysBeforeMonth (isLeap year) month

structure Date where
  year : ℤ
  month : ℕ
  day : ℕ
  month_pos : 1 ≤ month
  month_le : month ≤ 12
  day_pos : 1 ≤ day
  day_le : day ≤ daysInMonth (isLeap year) month

def Date.dayNumber (d : Date) : ℤ := firstOfMonth d.year d.month + (d.day - 1)

def Date.julianDay (d : Date) : ℤ := d.dayNumber + 1721426

/-! ## Years and months -/

variable (year : ℤ)

theorem daysBeforeYear_succ :
    daysBeforeYear (year + 1) = daysBeforeYear year + daysInYear (isLeap year) := by
  unfold daysBeforeYear daysInYear isLeap
  split_ifs with h
  · simp only [Bool.and_eq_true, Bool.or_eq_true, decide_eq_true_eq] at h
    omega
  · simp only [Bool.and_eq_true, Bool.or_eq_true, decide_eq_true_eq, not_and, not_or] at h
    omega

theorem daysBeforeYear_mono {year year' : ℤ} (h : year ≤ year') :
    daysBeforeYear year ≤ daysBeforeYear year' := by
  refine monotone_int_of_le_succ (fun year => ?_) h
  rw [daysBeforeYear_succ]
  omega

variable (leap : Bool)

theorem daysBeforeMonth_succ {month : ℕ} (h : 1 ≤ month) :
    daysBeforeMonth leap (month + 1) = daysBeforeMonth leap month + daysInMonth leap month := by
  obtain ⟨month, rfl⟩ := Nat.exists_eq_add_of_le' h
  rfl

theorem daysBeforeMonth_thirteen : daysBeforeMonth leap 13 = daysInYear leap := by
  cases leap <;> rfl

theorem daysBeforeMonth_mono : Monotone (daysBeforeMonth leap) := by
  refine monotone_nat_of_le_succ fun month => ?_
  cases month with
  | zero => exact le_refl _
  | succ => exact Nat.le_add_right _ _

theorem firstOfMonth_one : firstOfMonth year 1 = daysBeforeYear year := by
  rw [firstOfMonth, daysBeforeMonth, Nat.cast_zero, add_zero]

theorem firstOfMonth_succ {month : ℕ} (h : 1 ≤ month) :
    firstOfMonth year (month + 1) = firstOfMonth year month + daysInMonth (isLeap year) month := by
  rw [firstOfMonth, daysBeforeMonth_succ _ h, Nat.cast_add, firstOfMonth, add_assoc]

theorem firstOfMonth_thirteen : firstOfMonth year 13 = firstOfMonth (year + 1) 1 := by
  rw [firstOfMonth_one, daysBeforeYear_succ, firstOfMonth, daysBeforeMonth_thirteen]

/-! ## Dates -/

theorem daysInMonth_pos (month : ℕ) : 1 ≤ daysInMonth leap month := by
  unfold daysInMonth
  split
  · cases leap <;> decide
  all_goals decide

theorem daysInMonth_le (month : ℕ) : daysInMonth leap month ≤ 31 := by
  unfold daysInMonth
  split
  · cases leap <;> decide
  all_goals decide

def Date.first (year : ℤ) (month : ℕ) (hpos : 1 ≤ month) (hle : month ≤ 12) : Date :=
  ⟨year, month, 1, hpos, hle, le_refl 1, daysInMonth_pos _ _⟩

theorem Date.dayNumber_first {month : ℕ} (hpos : 1 ≤ month) (hle : month ≤ 12) :
    (Date.first year month hpos hle).dayNumber = firstOfMonth year month := by
  rw [dayNumber, first, Nat.cast_one, sub_self, add_zero]

namespace Date
variable (d : Date)

theorem firstOfMonth_le : firstOfMonth d.year d.month ≤ d.dayNumber := by
  have := d.day_pos
  rw [dayNumber]
  omega

theorem lt_firstOfMonth : d.dayNumber < firstOfMonth d.year (d.month + 1) := by
  have := d.day_le
  rw [dayNumber, firstOfMonth_succ _ d.month_pos]
  omega

theorem daysBeforeYear_le : daysBeforeYear d.year ≤ d.dayNumber := by
  have := d.firstOfMonth_le
  rw [firstOfMonth] at this
  omega

theorem lt_daysBeforeYear : d.dayNumber < daysBeforeYear (d.year + 1) := by
  have hlt := d.lt_firstOfMonth
  have hm := daysBeforeMonth_mono (isLeap d.year) (Nat.add_le_add_right d.month_le 1)
  rw [daysBeforeMonth_thirteen] at hm
  rw [firstOfMonth] at hlt
  rw [daysBeforeYear_succ]
  omega

variable {d}

theorem year_le_of_dayNumber_le {d' : Date} (h : d.dayNumber ≤ d'.dayNumber) : d.year ≤ d'.year := by
  by_contra hlt
  have hm := daysBeforeYear_mono (show d'.year + 1 ≤ d.year by omega)
  have hle := d.daysBeforeYear_le
  have hlt' := d'.lt_daysBeforeYear
  omega

theorem month_le_of_dayNumber_le {d' : Date} (hy : d.year = d'.year)
    (h : d.dayNumber ≤ d'.dayNumber) : d.month ≤ d'.month := by
  by_contra hlt
  have hm := daysBeforeMonth_mono (isLeap d'.year) (show d'.month + 1 ≤ d.month by omega)
  have hle := d.firstOfMonth_le
  have hlt' := d'.lt_firstOfMonth
  rw [firstOfMonth, hy] at hle
  rw [firstOfMonth] at hlt'
  omega

theorem eq_of_dayNumber_eq {d' : Date} (h : d.dayNumber = d'.dayNumber) :
    d.year = d'.year ∧ d.month = d'.month := by
  have hy := le_antisymm (year_le_of_dayNumber_le h.le) (year_le_of_dayNumber_le h.ge)
  exact ⟨hy, le_antisymm (month_le_of_dayNumber_le hy h.le)
    (month_le_of_dayNumber_le hy.symm h.ge)⟩

end Date

/-! ## The date of a day -/

variable (n : ℤ)

/-- The year of a day: 400 years have 146097 days, which is off by one year at most. -/
def yearOf : ℤ :=
  let guess := 400 * n / 146097 + 1
  if n < daysBeforeYear guess then guess - 1
  else if daysBeforeYear (guess + 1) ≤ n then guess + 1
  else guess

theorem yearOf_spec : daysBeforeYear (yearOf n) ≤ n ∧ n < daysBeforeYear (yearOf n + 1) := by
  unfold yearOf
  simp only
  split_ifs with hb ha
  iterate 2
    unfold daysBeforeYear at *
    omega
  · exact ⟨not_lt.mp hb, not_le.mp ha⟩

/-- The last of the first months that begins at or before a day of the year. -/
def monthOf (leap : Bool) (dayOfYear : ℕ) : ℕ → ℕ
  | 0 => 0
  | month + 1 =>
    if daysBeforeMonth leap (month + 1) ≤ dayOfYear then month + 1 else monthOf leap dayOfYear month

theorem monthOf_spec {leap : Bool} {dayOfYear month : ℕ}
    (h : dayOfYear < daysBeforeMonth leap (month + 1)) :
    1 ≤ monthOf leap dayOfYear month ∧ monthOf leap dayOfYear month ≤ month ∧
      daysBeforeMonth leap (monthOf leap dayOfYear month) ≤ dayOfYear ∧
      dayOfYear < daysBeforeMonth leap (monthOf leap dayOfYear month + 1) := by
  induction month with
  | zero => exact nomatch h
  | succ month ih =>
    unfold monthOf
    split_ifs with hle
    · exact ⟨Nat.le_add_left 1 month, le_refl _, hle, h⟩
    · obtain ⟨hpos, hm, hb⟩ := ih (not_le.mp hle)
      exact ⟨hpos, hm.trans (Nat.le_succ month), hb⟩

def dayOfYear : ℕ := (n - daysBeforeYear (yearOf n)).toNat

theorem dayOfYear_lt : dayOfYear n < daysBeforeMonth (isLeap (yearOf n)) 13 := by
  have hs := yearOf_spec n
  rw [daysBeforeYear_succ] at hs
  rw [daysBeforeMonth_thirteen, dayOfYear]
  omega

def ofDayNumber : Date where
  year := yearOf n
  month := monthOf (isLeap (yearOf n)) (dayOfYear n) 12
  day := dayOfYear n -
    daysBeforeMonth (isLeap (yearOf n)) (monthOf (isLeap (yearOf n)) (dayOfYear n) 12) + 1
  month_pos := (monthOf_spec (dayOfYear_lt n)).1
  month_le := (monthOf_spec (dayOfYear_lt n)).2.1
  day_pos := Nat.le_add_left 1 _
  day_le := by
    obtain ⟨hpos, -, hle, hlt⟩ := monthOf_spec (dayOfYear_lt n)
    rw [daysBeforeMonth_succ _ hpos] at hlt
    omega

theorem dayNumber_ofDayNumber : (ofDayNumber n).dayNumber = n := by
  have hy := (yearOf_spec n).1
  have hm := (monthOf_spec (dayOfYear_lt n)).2.2.1
  have hday : (dayOfYear n : ℤ) = n - daysBeforeYear (yearOf n) := by
    rw [dayOfYear]
    omega
  simp only [Date.dayNumber, ofDayNumber, firstOfMonth]
  omega

end Gregorian
