import Mathlib.Data.Nat.Find
import Mathlib.Order.Monotone.Basic
import Mathlib.Tactic.IntervalCases

/- Dates and times of the Gregorian calendar, from 0001-01-01T00:00:00 to the end of year 9999.

   A time counts the seconds from its first one on a wall clock without shifts. Its date is found
   on two staircases, the days before each year and the days before each month of the year; a
   field is the step that the day stands on. -/
namespace CoinBot.Calendar

/-! Staircases. -/

/-- The highest step up to `bound` that is not above `n`. -/
def stepAt (f : Nat → Nat) (bound n : Nat) : Nat := Nat.findGreatest (fun k => f k ≤ n) bound

section
variable {f : Nat → Nat} {bound n : Nat}

theorem stepAt_spec (hzero : f 0 ≤ n) (hbound : n < f (bound + 1)) :
    stepAt f bound n ≤ bound ∧ f (stepAt f bound n) ≤ n ∧ n < f (stepAt f bound n + 1) := by
  have hle : stepAt f bound n ≤ bound := Nat.findGreatest_le bound
  refine ⟨hle, Nat.findGreatest_spec (P := fun k => f k ≤ n) (Nat.zero_le bound) hzero, ?_⟩
  by_contra habove
  rcases Nat.lt_or_eq_of_le hle with hlt | heq
  · have hbelow := Nat.findGreatest_is_greatest (P := fun k => f k ≤ n) (Nat.lt_succ_self _) hlt
    exact hbelow (Nat.le_of_not_lt habove)
  · rw [heq] at habove
    exact habove hbound

end

/-! Years and months. -/

def isLeap (year : Nat) : Prop := year % 4 = 0 ∧ (year % 100 ≠ 0 ∨ year % 400 = 0)

instance (year : Nat) : Decidable (isLeap year) :=
  inferInstanceAs (Decidable (year % 4 = 0 ∧ (year % 100 ≠ 0 ∨ year % 400 = 0)))

/-- The days of the first `k` years. -/
def daysOfYears (k : Nat) : Nat := 365 * k + k / 4 - k / 100 + k / 400

def daysInYear (year : Nat) : Nat := if isLeap year then 366 else 365

def daysInMonth (year month : Nat) : Nat :=
  match month with
  | 2 => if isLeap year then 29 else 28
  | 4 | 6 | 9 | 11 => 30
  | _ => 31

/-- The days of the first `k` months of a year. -/
def daysOfMonths (year : Nat) : Nat → Nat
  | 0 => 0
  | k + 1 => daysOfMonths year k + daysInMonth year (k + 1)

def maxDays : Nat := daysOfYears 9999

theorem daysOfYears_succ (k : Nat) : daysOfYears (k + 1) = daysOfYears k + daysInYear (k + 1) := by
  have hle : k / 100 ≤ k / 4 := Nat.div_le_div_left (by omega) (by omega)
  unfold daysOfYears daysInYear isLeap
  simp only [Nat.succ_div, ← Nat.dvd_iff_mod_eq_zero, ne_eq]
  -- A year of 400 is one of 100, and that one of 4.
  by_cases h4 : 4 ∣ k + 1
  · by_cases h100 : 100 ∣ k + 1
    · by_cases h400 : 400 ∣ k + 1
      · simp only [h4, h100, h400, if_true, not_true, or_true, and_self]
        omega
      · simp only [h4, h100, h400, if_true, if_false, not_true, or_self, and_false]
        omega
    · have h400 : ¬ 400 ∣ k + 1 := fun h => h100 (Nat.dvd_trans (by decide) h)
      simp only [h4, h100, h400, if_true, if_false, not_false_iff, true_or, and_self]
      omega
  · have h100 : ¬ 100 ∣ k + 1 := fun h => h4 (Nat.dvd_trans (by decide) h)
    have h400 : ¬ 400 ∣ k + 1 := fun h => h4 (Nat.dvd_trans (by decide) h)
    simp only [h4, h100, h400, if_false, false_and]
    omega

theorem daysInYear_pos (year : Nat) : 365 ≤ daysInYear year := by
  unfold daysInYear
  split <;> omega

theorem strictMono_daysOfYears : StrictMono daysOfYears :=
  strictMono_nat_of_lt_succ fun k => by
    have hpos := daysInYear_pos (k + 1)
    have hsucc := daysOfYears_succ k
    omega

theorem daysInMonth_pos (year month : Nat) : 1 ≤ daysInMonth year month := by
  unfold daysInMonth
  split
  · split <;> omega
  all_goals omega

theorem daysInMonth_ge (year month : Nat) : 28 ≤ daysInMonth year month := by
  unfold daysInMonth
  split
  · split <;> omega
  all_goals omega

theorem daysInMonth_le (year month : Nat) : daysInMonth year month ≤ 31 := by
  unfold daysInMonth
  split
  · split <;> omega
  all_goals omega

theorem strictMono_daysOfMonths (year : Nat) : StrictMono (daysOfMonths year) :=
  strictMono_nat_of_lt_succ fun k => by
    have hpos := daysInMonth_pos year (k + 1)
    rw [daysOfMonths]
    omega

theorem daysOfMonths_twelve (year : Nat) : daysOfMonths year 12 = daysInYear year := by
  simp only [daysOfMonths, daysInMonth, daysInYear]
  split <;> rfl

theorem lt_daysOfYears (n : Nat) : n < daysOfYears (n / 365 + 1) := by
  unfold daysOfYears
  omega

/-! Dates. -/

/-- The days before a date, its fields numbered from 1. -/
def dayNumber (year month day : Nat) : Nat :=
  daysOfYears (year - 1) + daysOfMonths year (month - 1) + (day - 1)

structure Date where
  year : Nat
  month : Nat
  day : Nat
  valid : (1 ≤ year ∧ year ≤ 9999) ∧ (1 ≤ month ∧ month ≤ 12) ∧
    1 ≤ day ∧ day ≤ daysInMonth year month

def Date.number (d : Date) : Nat := dayNumber d.year d.month d.day

def yearOf (n : Nat) : Nat := stepAt daysOfYears (n / 365) n + 1

/-- The days since the first of January. -/
def dayOfYear (n : Nat) : Nat := n - daysOfYears (yearOf n - 1)

def monthOf (n : Nat) : Nat := stepAt (daysOfMonths (yearOf n)) 11 (dayOfYear n) + 1

def dayOf (n : Nat) : Nat := dayOfYear n - daysOfMonths (yearOf n) (monthOf n - 1) + 1

theorem yearOf_spec (n : Nat) : daysOfYears (yearOf n - 1) ≤ n ∧ n < daysOfYears (yearOf n) := by
  have hspec := stepAt_spec (f := daysOfYears) (Nat.zero_le n) (lt_daysOfYears n)
  exact hspec.2

theorem dayOfYear_lt (n : Nat) : dayOfYear n < daysOfMonths (yearOf n) 12 := by
  have hspec := yearOf_spec n
  have hsucc := daysOfYears_succ (yearOf n - 1)
  rw [show yearOf n - 1 + 1 = yearOf n from rfl] at hsucc
  rw [daysOfMonths_twelve, dayOfYear]
  omega

theorem monthOf_spec (n : Nat) : monthOf n ≤ 12 ∧
    daysOfMonths (yearOf n) (monthOf n - 1) ≤ dayOfYear n ∧
    dayOfYear n < daysOfMonths (yearOf n) (monthOf n) := by
  have hspec := stepAt_spec (f := daysOfMonths (yearOf n)) (Nat.zero_le (dayOfYear n))
    (dayOfYear_lt n)
  exact ⟨Nat.succ_le_succ hspec.1, hspec.2⟩

/-- The date of a day. -/
def dateOf (n : Nat) (hn : n < maxDays) : Date where
  year := yearOf n
  month := monthOf n
  day := dayOf n
  valid := by
    have hyear := yearOf_spec n
    have hmonth := monthOf_spec n
    have hlt : yearOf n - 1 < 9999 :=
      strictMono_daysOfYears.lt_iff_lt.mp (lt_of_le_of_lt hyear.1 hn)
    have hlength : daysOfMonths (yearOf n) (monthOf n) =
        daysOfMonths (yearOf n) (monthOf n - 1) + daysInMonth (yearOf n) (monthOf n) := rfl
    refine ⟨⟨Nat.succ_pos _, by omega⟩, ⟨Nat.succ_pos _, hmonth.1⟩, Nat.succ_pos _, ?_⟩
    unfold dayOf
    omega

theorem number_dateOf (n : Nat) (hn : n < maxDays) : (dateOf n hn).number = n := by
  have hyear := yearOf_spec n
  have hmonth := monthOf_spec n
  show daysOfYears (yearOf n - 1) + daysOfMonths (yearOf n) (monthOf n - 1) + (dayOf n - 1) = n
  unfold dayOf
  rw [dayOfYear] at *
  omega

/-! The order of dates is the order of their fields. -/

namespace Date

theorem bounds (d : Date) :
    daysOfYears (d.year - 1) ≤ d.number ∧
      d.number < daysOfYears (d.year - 1) + daysOfMonths d.year d.month ∧
      daysOfYears (d.year - 1) + daysOfMonths d.year d.month ≤ daysOfYears d.year := by
  obtain ⟨⟨hyear, -⟩, ⟨hmonth, hmonth'⟩, hday, hday'⟩ := d.valid
  have hlength : daysOfMonths d.year d.month =
      daysOfMonths d.year (d.month - 1) + daysInMonth d.year d.month := by
    conv_lhs => rw [show d.month = d.month - 1 + 1 by omega]
    rw [daysOfMonths, Nat.sub_add_cancel hmonth]
  have hwhole : daysOfMonths d.year d.month ≤ daysInYear d.year := by
    rw [← daysOfMonths_twelve]
    exact (strictMono_daysOfMonths d.year).monotone hmonth'
  have hsucc := daysOfYears_succ (d.year - 1)
  rw [Nat.sub_add_cancel hyear] at hsucc
  unfold number dayNumber
  omega

theorem number_lt_maxDays (d : Date) : d.number < maxDays := by
  have hle : daysOfYears d.year ≤ maxDays := strictMono_daysOfYears.monotone d.valid.1.2
  have hbounds := d.bounds
  omega

theorem number_lt_of_year {d e : Date} (h : d.year < e.year) : d.number < e.number := by
  have hle : daysOfYears d.year ≤ daysOfYears (e.year - 1) :=
    strictMono_daysOfYears.monotone (Nat.le_sub_one_of_lt h)
  have hd := d.bounds
  have he := e.bounds
  omega

theorem number_lt_of_month {d e : Date} (hyear : d.year = e.year) (h : d.month < e.month) :
    d.number < e.number := by
  have hle : daysOfMonths e.year d.month ≤ daysOfMonths e.year (e.month - 1) :=
    (strictMono_daysOfMonths e.year).monotone (Nat.le_sub_one_of_lt h)
  have hd := d.bounds
  rw [hyear] at hd
  have he : e.number = daysOfYears (e.year - 1) + daysOfMonths e.year (e.month - 1) +
    (e.day - 1) := rfl
  omega

theorem number_lt_of_day {d e : Date} (hyear : d.year = e.year) (hmonth : d.month = e.month)
    (h : d.day < e.day) : d.number < e.number := by
  have hday := d.valid.2.2.1
  unfold number dayNumber
  rw [hyear, hmonth]
  omega

theorem number_eq {d e : Date} (hyear : d.year = e.year) (hmonth : d.month = e.month)
    (hday : d.day = e.day) : d.number = e.number := by
  unfold number
  rw [hyear, hmonth, hday]

theorem number_le_iff {d e : Date} (hyear : d.year = e.year) (hmonth : d.month = e.month) :
    d.number ≤ e.number ↔ d.day ≤ e.day := by
  have hday := e.valid.2.2.1
  unfold number dayNumber
  rw [hyear, hmonth]
  omega

/-- What lies between two days of a month is of that month. -/
theorem month_of_between {d x e : Date} (hyear : d.year = e.year) (hmonth : d.month = e.month)
    (hlow : d.number ≤ x.number) (hhigh : x.number ≤ e.number) :
    x.year = e.year ∧ x.month = e.month := by
  have hyear' : x.year = e.year := by
    rcases Nat.lt_trichotomy x.year e.year with hlt | heq | hgt
    · have hnumber := number_lt_of_year (hlt.trans_eq hyear.symm)
      omega
    · exact heq
    · have hnumber := number_lt_of_year hgt
      omega
  refine ⟨hyear', ?_⟩
  rcases Nat.lt_trichotomy x.month e.month with hlt | heq | hgt
  · have hnumber := number_lt_of_month (hyear'.trans hyear.symm) (hlt.trans_eq hmonth.symm)
    omega
  · exact heq
  · have hnumber := number_lt_of_month hyear'.symm hgt
    omega

theorem eq_of_number {d e : Date} (h : d.number = e.number) : d = e := by
  obtain ⟨hyear, hmonth⟩ := month_of_between (d := e) rfl rfl h.ge h.le
  have hday : d.day = e.day := Nat.le_antisymm ((number_le_iff hyear hmonth).mp h.le)
    ((number_le_iff hyear.symm hmonth.symm).mp h.ge)
  obtain ⟨year, month, day, hvalid⟩ := d
  obtain ⟨year', month', day', hvalid'⟩ := e
  obtain rfl : year = year' := hyear
  obtain rfl : month = month' := hmonth
  obtain rfl : day = day' := hday
  rfl

end Date

/-! Times. -/

def secondsPerDay : Nat := 86400

/-- The seconds of the calendar. -/
def endOfTime : Nat := secondsPerDay * maxDays

/-- A time of the wall clock: the seconds since the first one, and microseconds. -/
@[ext] structure DateTime where
  elapsed : Nat
  microsecond : Nat
  elapsed_lt : elapsed < endOfTime
  microsecond_lt : microsecond < 1000000
  deriving DecidableEq

namespace DateTime

def date (t : DateTime) : Date :=
  dateOf (t.elapsed / secondsPerDay) (Nat.div_lt_of_lt_mul t.elapsed_lt)

def hour (t : DateTime) : Nat := t.elapsed / 3600 % 24
def minute (t : DateTime) : Nat := t.elapsed / 60 % 60
def second (t : DateTime) : Nat := t.elapsed % 60

instance : LE DateTime where
  le t u := t.elapsed < u.elapsed ∨ t.elapsed = u.elapsed ∧ t.microsecond ≤ u.microsecond

instance (t u : DateTime) : Decidable (t ≤ u) :=
  inferInstanceAs (Decidable
    (t.elapsed < u.elapsed ∨ t.elapsed = u.elapsed ∧ t.microsecond ≤ u.microsecond))

/-- A time from its fields. -/
def ofFields (d : Date) (hour minute second : Nat) (hhour : hour < 24) (hminute : minute < 60)
    (hsecond : second < 60) : DateTime where
  elapsed := secondsPerDay * d.number + 3600 * hour + 60 * minute + second
  microsecond := 0
  elapsed_lt := by
    have hlt := d.number_lt_maxDays
    unfold endOfTime secondsPerDay
    omega
  microsecond_lt := by omega

/-- The time that lies so many seconds later, if there is one. -/
def shift (t : DateTime) (seconds : Int) : Option DateTime :=
  match (t.elapsed : Int) + seconds with
  | .ofNat elapsed =>
    if h : elapsed < endOfTime then
      some
        { elapsed := elapsed
          microsecond := t.microsecond
          elapsed_lt := h
          microsecond_lt := t.microsecond_lt }
    else none
  | .negSucc _ => none

theorem zero_lt_million : 0 < 1000000 := by decide

/-- The second that a time lies in. -/
def floorSecond (t : DateTime) : DateTime :=
  { t with
    microsecond := 0
    microsecond_lt := by omega }

/-- The minute that a time lies in. -/
def floorMinute (t : DateTime) : DateTime where
  elapsed := t.elapsed - t.elapsed % 60
  microsecond := 0
  elapsed_lt := Nat.lt_of_le_of_lt (Nat.sub_le _ _) t.elapsed_lt
  microsecond_lt := by omega

theorem le_iff_elapsed {t u : DateTime} (h : t.microsecond = 0) : t ≤ u ↔ t.elapsed ≤ u.elapsed := by
  show _ ∨ _ ↔ _
  omega

theorem elapsed_le_of_le {t u : DateTime} (h : t ≤ u) : t.elapsed ≤ u.elapsed := by
  rcases h with h | h
  · exact Nat.le_of_lt h
  · exact Nat.le_of_eq h.1

theorem shift_eq_some_iff {t u : DateTime} {seconds : Int} :
    t.shift seconds = some u ↔
      (u.elapsed : Int) = t.elapsed + seconds ∧ u.microsecond = t.microsecond := by
  have hlt := u.elapsed_lt
  unfold shift
  split
  · next elapsed heq =>
    rw [heq, Int.ofNat_eq_natCast, Int.natCast_inj]
    split
    · rw [Option.some.injEq, DateTime.ext_iff]
      exact and_congr eq_comm eq_comm
    · next hout =>
      constructor
      · intro hnone
        cases hnone
      · rintro ⟨rfl, -⟩
        exact absurd hlt hout
  · next k heq =>
    constructor
    · intro hnone
      cases hnone
    · rw [heq]
      omega

theorem shift_eq_none_iff {t : DateTime} {seconds : Int} :
    t.shift seconds = none ↔
      t.elapsed + seconds < 0 ∨ (endOfTime : Int) ≤ t.elapsed + seconds := by
  unfold shift
  split
  · next elapsed heq =>
    rw [heq, Int.ofNat_eq_natCast]
    split
    · constructor
      · intro hsome
        cases hsome
      · intro hout
        omega
    · refine iff_of_true rfl ?_
      omega
  · next k heq =>
    refine iff_of_true rfl (.inl ?_)
    rw [heq]
    omega

theorem elapsed_eq (t : DateTime) :
    t.elapsed = secondsPerDay * t.date.number + 3600 * t.hour + 60 * t.minute + t.second := by
  unfold date
  rw [number_dateOf]
  unfold secondsPerDay hour minute second
  omega

theorem hour_lt (t : DateTime) : t.hour < 24 := Nat.mod_lt _ (by omega)
theorem minute_lt (t : DateTime) : t.minute < 60 := Nat.mod_lt _ (by omega)
theorem second_lt (t : DateTime) : t.second < 60 := Nat.mod_lt _ (by omega)

theorem number_date (t : DateTime) : t.date.number = t.elapsed / secondsPerDay :=
  number_dateOf _ _

@[simp] theorem date_ofFields (d : Date) {hour minute second : Nat} (hhour : hour < 24)
    (hminute : minute < 60) (hsecond : second < 60) :
    (ofFields d hour minute second hhour hminute hsecond).date = d := by
  refine Date.eq_of_number ((number_dateOf _ _).trans ?_)
  show (secondsPerDay * d.number + 3600 * hour + 60 * minute + second) / secondsPerDay = _
  unfold secondsPerDay
  omega

/-- A time is the one of its fields, to the second. -/
theorem ofFields_fields (t : DateTime) :
    ofFields t.date t.hour t.minute t.second t.hour_lt t.minute_lt t.second_lt = t.floorSecond := by
  ext
  · exact t.elapsed_eq.symm
  · rfl

end DateTime
end CoinBot.Calendar
