import Mathlib

/-!
# The civil calendar

Days are numbered from the first of January 1970 on, in both directions.  The year, the
month, the date and the weekday of a day, as the ECMAScript standard computes them for a
time in UTC, and where a date of the year is found among any 366 days in a row.
-/

namespace Calendar

open Bool

/-! ## Years -/

/-- Whether a year has a 29 February. -/
def isLeap (y : Int) : Bool := y % 4 = 0 && (y % 100 ≠ 0 || y % 400 = 0)

/-- The first day of a year. -/
def dayFromYear (y : Int) : Int :=
  365 * (y - 1970) + (y - 1969) / 4 - (y - 1901) / 100 + (y - 1601) / 400

/-- Years have 365.2425 days on average, and the first day of one is off by less than
two. -/
theorem dayFromYear_bounds (y : Int) : 146097 * (y - 1970) - 506 ≤ 400 * dayFromYear y ∧
      400 * dayFromYear y ≤ 146097 * (y - 1970) + 589 := by
  unfold dayFromYear
  omega

/-- How many days February has over 28. -/
def leapDay (y : Int) : Nat := if isLeap y then 1 else 0

theorem leapDay_le (y : Int) : leapDay y ≤ 1 := by
  unfold leapDay
  split <;> omega

theorem dayFromYear_succ (y : Int) : dayFromYear (y + 1) = dayFromYear y + 365 + leapDay y := by
  unfold dayFromYear leapDay isLeap
  split
  · next h =>
    simp only [and_eq_true, or_eq_true, decide_eq_true_eq] at h
    omega
  · next h =>
    simp only [and_eq_true, or_eq_true, decide_eq_true_eq] at h
    omega

theorem dayFromYear_strictMono : StrictMono dayFromYear := by
  apply strictMono_int_of_lt_succ
  intro y
  rw [dayFromYear_succ]
  omega

/-- The year of a day. -/
def yearOf (day : Int) : Int :=
  let guess := 1970 + 400 * day / 146097
  if day < dayFromYear guess then guess - 1
  else if dayFromYear (guess + 1) ≤ day then guess + 1 else guess

theorem yearOf_spec (day : Int) :
    dayFromYear (yearOf day) ≤ day ∧ day < dayFromYear (yearOf day + 1) := by
  have hguess : 146097 * (400 * day / 146097) ≤ 400 * day ∧
      400 * day < 146097 * (400 * day / 146097) + 146097 := by omega
  unfold yearOf
  dsimp only
  generalize 400 * day / 146097 = g at hguess
  split
  · have := dayFromYear_bounds (1970 + g - 1)
    rw [Int.sub_add_cancel]
    omega
  · split
    · have := dayFromYear_bounds (1970 + g + 1 + 1)
      omega
    · omega

theorem yearOf_eq {y day : Int} (h : dayFromYear y ≤ day) (h' : day < dayFromYear (y + 1)) :
    yearOf day = y := by
  obtain ⟨hle, hlt⟩ := yearOf_spec day
  have h₁ : yearOf day < y + 1 := dayFromYear_strictMono.lt_iff_lt.mp (hle.trans_lt h')
  have h₂ : y < yearOf day + 1 := dayFromYear_strictMono.lt_iff_lt.mp (h.trans_lt hlt)
  omega

/-! ## Months, dates and weekdays -/

/-- The day of its year, from 0 on. -/
def dayInYear (day : Int) : Nat := (day - dayFromYear (yearOf day)).toNat

/-- What a year has before a month, with `l` leap days. -/
def monthStart (l : Nat) : Nat → Nat
  | 2 => 31
  | 3 => 59 + l
  | 4 => 90 + l
  | 5 => 120 + l
  | 6 => 151 + l
  | 7 => 181 + l
  | 8 => 212 + l
  | 9 => 243 + l
  | 10 => 273 + l
  | 11 => 304 + l
  | 12 => 334 + l
  | 13 => 365 + l
  | _ => 0

/-- How many days a month has. -/
def monthLength (l m : Nat) : Nat := monthStart l (m + 1) - monthStart l m

/-- The month that a day of the year is in. -/
def monthFrom (l n : Nat) : Nat :=
  if n < 31 then 1
  else if n < 59 + l then 2
  else if n < 90 + l then 3
  else if n < 120 + l then 4
  else if n < 151 + l then 5
  else if n < 181 + l then 6
  else if n < 212 + l then 7
  else if n < 243 + l then 8
  else if n < 273 + l then 9
  else if n < 304 + l then 10
  else if n < 334 + l then 11
  else 12

/-- The month of a day, from 1 to 12. -/
def month (day : Int) : Nat := monthFrom (leapDay (yearOf day)) (dayInYear day)

/-- The day of the month, from 1 on. -/
def date (day : Int) : Nat :=
  dayInYear day - monthStart (leapDay (yearOf day)) (month day) + 1

/-- The day of the week; Sunday is 0. -/
def weekday (day : Int) : Nat := ((day + 4) % 7).toNat

/-- The day of a date. -/
def dayOf (y : Int) (m d : Nat) : Int := dayFromYear y + monthStart (leapDay y) m + (d - 1 : Int)

section

variable {y : Int} {m d : Nat}

theorem monthFrom_add {l : Nat} (hm : 1 ≤ m ∧ m ≤ 12) (hd : 1 ≤ d ∧ d ≤ monthLength l m) :
    monthFrom l (monthStart l m + (d - 1)) = m ∧ monthStart l m + (d - 1) < 365 + l := by
  obtain ⟨hm₁, hm₁₂⟩ := hm
  obtain ⟨hd₁, hd₂⟩ := hd
  unfold monthLength at hd₂
  unfold monthFrom
  interval_cases m <;> simp only [monthStart] at hd₂ ⊢ <;> refine ⟨?_, by omega⟩
  all_goals
    repeat rw [if_neg (by omega)]
    try rw [if_pos (by omega)]

/-- The date of the day of a date. -/
theorem dayOf_spec (hm : 1 ≤ m ∧ m ≤ 12) (hd : 1 ≤ d ∧ d ≤ monthLength (leapDay y) m) :
    yearOf (dayOf y m d) = y ∧ month (dayOf y m d) = m ∧ date (dayOf y m d) = d := by
  obtain ⟨hmonth, hlt⟩ := monthFrom_add hm hd
  have hday : dayOf y m d = dayFromYear y + (monthStart (leapDay y) m + (d - 1) : Nat) := by
    unfold dayOf
    omega
  have hyear : yearOf (dayOf y m d) = y := by
    apply yearOf_eq
    · omega
    · rw [dayFromYear_succ]
      omega
  have hin : dayInYear (dayOf y m d) = monthStart (leapDay y) m + (d - 1) := by
    rw [dayInYear, hyear, hday]
    omega
  have hm' : month (dayOf y m d) = m := by rw [month, hyear, hin, hmonth]
  refine ⟨hyear, hm', ?_⟩
  rw [date, hyear, hm', hin]
  omega

/-! ## Dates among 366 days -/

theorem monthLength_zero_le {l : Nat} (hm : 1 ≤ m ∧ m ≤ 12) :
    28 ≤ monthLength 0 m ∧ monthLength 0 m ≤ monthLength l m := by
  obtain ⟨hm₁, hm₁₂⟩ := hm
  unfold monthLength
  interval_cases m <;> simp only [monthStart] <;> omega

/-- How far apart the first days of a month are in two years. -/
theorem monthStart_bounds {l l' : Nat} (hm : 1 ≤ m ∧ m ≤ 12) (hl : l ≤ 1) (hl' : l' ≤ 1) :
    monthStart l m ≤ 334 + l ∧ 365 + l + monthStart l' m ≤ monthStart l m + 366 := by
  obtain ⟨hm₁, hm₁₂⟩ := hm
  interval_cases m <;> simp only [monthStart] <;> omega

theorem dayOf_succ_le (y : Int) (hm : 1 ≤ m ∧ m ≤ 12) : dayOf (y + 1) m d ≤ dayOf y m d + 366 := by
  have := (monthStart_bounds hm (leapDay_le y) (leapDay_le (y + 1))).2
  unfold dayOf
  rw [dayFromYear_succ]
  omega

/-- A date of every year comes up among any 366 days. -/
theorem exists_date (hm : 1 ≤ m ∧ m ≤ 12) (hd : 1 ≤ d ∧ d ≤ monthLength 0 m) (day : Int) :
    ∃ k, day ≤ k ∧ k ≤ day + 365 ∧ month k = m ∧ date k = d := by
  have hfits : ∀ y, 1 ≤ d ∧ d ≤ monthLength (leapDay y) m := fun y =>
    ⟨hd.1, hd.2.trans (monthLength_zero_le hm).2⟩
  obtain ⟨hle, hlt⟩ := yearOf_spec day
  generalize yearOf day = y at hle hlt
  by_cases h : day ≤ dayOf y m d
  · refine ⟨dayOf y m d, h, ?_, (dayOf_spec hm (hfits y)).2⟩
    have hlast := (monthFrom_add hm (hfits y)).2
    have := leapDay_le y
    unfold dayOf
    omega
  · refine ⟨dayOf (y + 1) m d, ?_, ?_, (dayOf_spec hm (hfits (y + 1))).2⟩
    · have : dayFromYear (y + 1) ≤ dayOf (y + 1) m d := by
        unfold dayOf
        omega
      omega
    · have := dayOf_succ_le (d := d) y hm
      omega

/-- Of seven days in a row one is on a given weekday. -/
theorem exists_weekday_of_week {w : Nat} (hw : w < 7) (day : Int) :
    ∃ k, day ≤ k ∧ k ≤ day + 6 ∧ weekday k = w := by
  refine ⟨day + (w - day - 4) % 7, ?_, ?_, ?_⟩
  · omega
  · omega
  · unfold weekday
    omega

/-- The first 28 days of a month are in it. -/
theorem month_of_le (hm : 1 ≤ m ∧ m ≤ 12) {k : Int} (h : dayOf y m 1 ≤ k)
    (h' : k ≤ dayOf y m 1 + 27) : month k = m := by
  obtain ⟨d, hd⟩ : ∃ d : Nat, k = dayOf y m (d + 1) ∧ d ≤ 27 := by
    refine ⟨(k - dayOf y m 1).toNat, ?_, by omega⟩
    unfold dayOf at h h' ⊢
    omega
  obtain ⟨rfl, hd⟩ := hd
  have hlen := monthLength_zero_le (l := leapDay y) hm
  exact (dayOf_spec hm ⟨by omega, by omega⟩).2.1

/-- A weekday of a month comes up among any 366 days. -/
theorem exists_weekday {w : Nat} (hm : 1 ≤ m ∧ m ≤ 12) (hw : w < 7) (day : Int) :
    ∃ k, day ≤ k ∧ k ≤ day + 365 ∧ month k = m ∧ weekday k = w := by
  obtain ⟨hle, hlt⟩ := yearOf_spec day
  generalize yearOf day = y at hle hlt
  have hstart := (monthStart_bounds hm (leapDay_le y) (leapDay_le y)).1
  have hleap := leapDay_le y
  have hfirst : dayOf y m 1 = dayFromYear y + monthStart (leapDay y) m := by
    unfold dayOf
    omega
  by_cases h : day ≤ dayOf y m 1 + 21
  · -- The week that begins at the later of the day and the first of the month is in it.
    obtain ⟨k, hk, hk', hweek⟩ := exists_weekday_of_week hw (max day (dayOf y m 1))
    refine ⟨k, by omega, by omega, month_of_le (y := y) hm (by omega) (by omega), hweek⟩
  · obtain ⟨k, hk, hk', hweek⟩ := exists_weekday_of_week hw (dayOf (y + 1) m 1)
    have hsucc := dayOf_succ_le (d := 1) y hm
    have hnext : dayFromYear (y + 1) ≤ dayOf (y + 1) m 1 := by
      unfold dayOf
      omega
    refine ⟨k, by omega, by omega, month_of_le (y := y + 1) hm hk (by omega), hweek⟩

end

end Calendar
