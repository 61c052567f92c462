import CoinBot.Lib.CTime
import CoinBot.Lib.Decimal

/- `database/Database`: `normalizeToEpochMs`, the times of orders as milliseconds.

   A text of digits is a number of milliseconds, as the WebSocket gives it. Any other
   text is a time of the REST interface: the fields of the clock and, at a fixed position,
   the offset of the clock from UTC. The fields are read as if the clock were UTC and the
   offset is taken away (`normalizeToEpochMs_stamp`).

   Correspondence (C++ ↔ Lean):
     a character of `s`             ↔ a `Char` below 256
     `s.c_str()`                    ↔ `cString`, up to the first null
     `std::from_chars`              ↔ `Decimal.natOf`, below 2^63
     `sscanf(…) != 6`, `… == 2`     ↔ `scanTime`, `scanZone`
     `int64_t`, `int`               ↔ `Int` -/
namespace CoinBot.Database

open Calendar (DateTime Tm timegm scanInt scanIntThen pad)

def cString (s : List Char) : List Char := s.takeWhile (· != Char.ofNat 0)

/-- `%d-%d-%dT%d:%d:%d`. -/
def scanTime (s : List Char) : Option Tm := do
  let (year, s) ← scanIntThen '-' s
  let (mon, s) ← scanIntThen '-' s
  let (day, s) ← scanIntThen 'T' s
  let (hour, s) ← scanIntThen ':' s
  let (min, s) ← scanIntThen ':' s
  let (sec, _) ← scanInt s
  return { year := year - 1900, mon := mon - 1, mday := day, hour := hour, min := min, sec := sec }

/-- `%d:%d`, in minutes. -/
def scanZone (s : List Char) : Option Int := do
  let (tzH, s) ← scanIntThen ':' s
  let (tzM, _) ← scanInt s
  return tzH * 60 + tzM

/-- The offset of the clock, in minutes. The sign stands behind the nineteen characters of the
    time. -/
def tzOffsetMin (s : List Char) : Int :=
  match s.drop 19 with
  | '+' :: zone => (scanZone (cString zone)).getD 0
  | '-' :: zone => -(scanZone (cString zone)).getD 0
  | _ => 0

def normalizeToEpochMs (s : List Char) : Int :=
  if s = [] then 0
  else if s.all Char.isDigit then
    if Decimal.natOf s < 2 ^ 63 then Decimal.natOf s else 0
  else match scanTime (cString s) with
    | none => 0
    | some tm =>
      if timegm tm < 0 then 0 else (timegm tm - tzOffsetMin s * 60) * 1000

example : normalizeToEpochMs "1970-01-02T00:00:01-05:30".toList = 106201000 := by decide

/-! Numbers of milliseconds. -/

theorem natOf_toString (n : Nat) : Decimal.natOf (toString n).toList = n := by
  rw [Nat.toString_eq_ofList_toDigits, String.toList_ofList, Decimal.natOf_toDigits]

theorem normalizeToEpochMs_toString {ms : Nat} (h : ms < 2 ^ 63) :
    normalizeToEpochMs (toString ms).toList = ms := by
  have hdigits : (toString ms).toList = Nat.toDigits 10 ms := by
    rw [Nat.toString_eq_ofList_toDigits, String.toList_ofList]
  have hne : (toString ms).toList ≠ [] := by
    rw [hdigits]
    exact Nat.toDigits_ne_nil
  have hall : (toString ms).toList.all Char.isDigit = true := by
    rw [hdigits, List.all_eq_true]
    exact Decimal.isDigit_toDigits
  rw [normalizeToEpochMs, if_neg hne, if_pos hall, natOf_toString, if_pos h]

/-! Times with an offset. -/

/-- How a text gives the offset of its clock: not at all, ahead of UTC, or behind it. -/
inductive Zone where
  | utc
  | ahead (hours : Fin 24) (minutes : Fin 60)
  | behind (hours : Fin 24) (minutes : Fin 60)
  deriving DecidableEq, Repr

namespace Zone

def minutes : Zone → Int
  | utc => 0
  | ahead h m => h.val * 60 + m.val
  | behind h m => -(h.val * 60 + m.val)

def clock (h : Fin 24) (m : Fin 60) : List Char := pad 2 h.val ++ ':' :: pad 2 m.val

def text : Zone → List Char
  | utc => ['Z']
  | ahead h m => '+' :: clock h m
  | behind h m => '-' :: clock h m

end Zone

/-! The reading of such a text. -/

theorem digit_ne_null {digits : List Char} (h : ∀ c ∈ digits, c.isDigit = true) :
    ∀ c ∈ digits, c ≠ Char.ofNat 0 := by
  rintro c hc rfl
  exact absurd (h _ hc) (by decide)

theorem pad_ne_null (width n : Nat) : ∀ c ∈ pad width n, c ≠ Char.ofNat 0 :=
  digit_ne_null Calendar.isDigit_of_mem_pad

theorem cString_eq {s : List Char} (h : ∀ c ∈ s, c ≠ Char.ofNat 0) : cString s = s := by
  unfold cString
  rw [List.takeWhile_eq_self_iff]
  intro c hc
  simpa using h c hc

theorem clock_ne_null (h : Fin 24) (m : Fin 60) : ∀ c ∈ Zone.clock h m, c ≠ Char.ofNat 0 := by
  unfold Zone.clock
  rw [List.forall_mem_append, List.forall_mem_cons]
  exact ⟨pad_ne_null 2 h.val, by decide, pad_ne_null 2 m.val⟩

theorem text_ne_null (zone : Zone) : ∀ c ∈ zone.text, c ≠ Char.ofNat 0 := by
  cases zone with
  | utc => exact List.forall_mem_cons.mpr ⟨by decide, List.forall_mem_nil _⟩
  | ahead h m => exact List.forall_mem_cons.mpr ⟨by decide, clock_ne_null h m⟩
  | behind h m => exact List.forall_mem_cons.mpr ⟨by decide, clock_ne_null h m⟩

theorem stamp_ne_null (t : DateTime) : ∀ c ∈ t.stamp, c ≠ Char.ofNat 0 := by
  unfold DateTime.stamp
  simp only [List.forall_mem_append, List.forall_mem_cons]
  exact ⟨pad_ne_null 4 _, by decide, pad_ne_null 2 _, by decide, pad_ne_null 2 _, by decide,
    pad_ne_null 2 _, by decide, pad_ne_null 2 _, by decide, pad_ne_null 2 _⟩

theorem scanZone_clock (h : Fin 24) (m : Fin 60) :
    scanZone (Zone.clock h m) = some (h.val * 60 + m.val : Int) := by
  have hhour : h.val < 10 ^ 2 := by omega
  have hminute : m.val < 10 ^ 2 := by omega
  have hlast : scanInt (pad 2 m.val) = some ((m.val : Int), []) := by
    have hpad := Calendar.scanInt_pad (by omega) hminute (List.takeWhile_nil (p := Char.isDigit))
    rwa [List.append_nil] at hpad
  unfold scanZone Zone.clock
  rw [Calendar.scanIntThen_pad (by omega) hhour rfl]
  simp only [Option.bind_eq_bind, Option.bind_some, hlast]
  rfl

theorem scanTime_stamp (t : DateTime) {rest : List Char}
    (hrest : rest.takeWhile Char.isDigit = []) : scanTime (t.stamp ++ rest) = some t.tm := by
  obtain ⟨hyear, hmonth, hday⟩ := t.date_lt
  have hhour : t.hour < 10 ^ 2 := Nat.lt_trans t.hour_lt (by omega)
  have hminute : t.minute < 10 ^ 2 := Nat.lt_trans t.minute_lt (by omega)
  have hsecond : t.second < 10 ^ 2 := Nat.lt_trans t.second_lt (by omega)
  have hfour : 0 < 4 := by omega
  have htwo : 0 < 2 := by omega
  have hdash : ('-' : Char).isDigit = false := rfl
  have htee : ('T' : Char).isDigit = false := rfl
  have hcolon : (':' : Char).isDigit = false := rfl
  simp only [scanTime, DateTime.stamp, List.append_assoc, List.cons_append,
    Calendar.scanIntThen_pad hfour hyear hdash, Calendar.scanIntThen_pad htwo hmonth hdash,
    Calendar.scanIntThen_pad htwo hday htee, Calendar.scanIntThen_pad htwo hhour hcolon,
    Calendar.scanIntThen_pad htwo hminute hcolon, Calendar.scanInt_pad htwo hsecond hrest,
    Option.bind_eq_bind, Option.bind_some]
  rfl

theorem takeWhile_text (zone : Zone) : zone.text.takeWhile Char.isDigit = [] := by
  cases zone <;> rfl

theorem drop_stamp (t : DateTime) (rest : List Char) : (t.stamp ++ rest).drop 19 = rest := by
  have hlength : t.stamp.length = 19 := by simp [DateTime.stamp]
  rw [← hlength, List.drop_left]

theorem tzOffsetMin_stamp (t : DateTime) (zone : Zone) :
    tzOffsetMin (t.stamp ++ zone.text) = zone.minutes := by
  unfold tzOffsetMin
  rw [drop_stamp]
  cases zone with
  | utc => rfl
  | ahead h m =>
    simp only [Zone.text, cString_eq (clock_ne_null h m), scanZone_clock]
    rfl
  | behind h m =>
    simp only [Zone.text, cString_eq (clock_ne_null h m), scanZone_clock]
    rfl

/-- A clock that shows 1970 or later is not before the epoch. -/
theorem epoch_le {t : DateTime} (h : 1970 ≤ t.date.year) :
    DateTime.epoch.elapsed ≤ t.elapsed := by
  have hbounds := t.date.bounds.1
  have hle : Calendar.daysOfYears 1969 ≤ Calendar.daysOfYears (t.date.year - 1) :=
    Calendar.strictMono_daysOfYears.monotone (Nat.le_sub_one_of_lt h)
  have hepoch : DateTime.epoch.elapsed = 86400 * Calendar.daysOfYears 1969 := rfl
  rw [t.elapsed_eq, hepoch]
  unfold Calendar.secondsPerDay
  omega

/-- The time that a clock shows, less its offset. -/
theorem normalizeToEpochMs_stamp {wall : DateTime} (zone : Zone) (h : 1970 ≤ wall.date.year) :
    normalizeToEpochMs (wall.stamp ++ zone.text) =
      ((wall.elapsed : Int) - DateTime.epoch.elapsed - zone.minutes * 60) * 1000 := by
  have hne : wall.stamp ++ zone.text ≠ [] := by
    intro hnil
    have hlength := congrArg List.length hnil
    simp [DateTime.stamp] at hlength
  have hdash : ¬ (wall.stamp ++ zone.text).all Char.isDigit = true := by
    rw [List.all_eq_true]
    intro hall
    have hmem : '-' ∈ wall.stamp ++ zone.text := by simp [DateTime.stamp]
    exact absurd (hall '-' hmem) (by decide)
  have hnull : cString (wall.stamp ++ zone.text) = wall.stamp ++ zone.text :=
    cString_eq (List.forall_mem_append.mpr ⟨stamp_ne_null wall, text_ne_null zone⟩)
  have hpos : ¬ (wall.elapsed : Int) - DateTime.epoch.elapsed < 0 := by
    have hle := epoch_le h
    omega
  rw [normalizeToEpochMs, if_neg hne, if_neg hdash, hnull,
    scanTime_stamp wall (takeWhile_text zone)]
  simp only [tzOffsetMin_stamp, DateTime.timegm_tm, if_neg hpos]

/-- **An instant has one time, in both forms.** For every instant, to the second, and every offset
    of less than a day such that the clock there shows a year from 1970 to 9999, the text of the
    clock with its offset is the milliseconds of the instant; every number of milliseconds below
    2^63 is itself; so the two texts of one instant give the same time. -/
theorem normalizeToEpochMs_instant (t : Int) (zone : Zone) (wall : DateTime)
    (hwall : DateTime.epoch.shift (t + 60 * zone.minutes) = some wall)
    (hyear : 1970 ≤ wall.date.year) :
    normalizeToEpochMs (wall.stamp ++ zone.text) = 1000 * t ∧
    (∀ ms : Int, 0 ≤ ms → ms < 2 ^ 63 → normalizeToEpochMs (toString ms).toList = ms) ∧
    (0 ≤ t → normalizeToEpochMs (toString (1000 * t)).toList =
      normalizeToEpochMs (wall.stamp ++ zone.text)) := by
  have hnumber : ∀ ms : Int, 0 ≤ ms → ms < 2 ^ 63 →
      normalizeToEpochMs (toString ms).toList = ms := by
    intro ms hpos hlt
    obtain ⟨n, rfl⟩ := Int.eq_ofNat_of_zero_le hpos
    exact normalizeToEpochMs_toString (by omega)
  have helapsed := (DateTime.shift_eq_some_iff.mp hwall).1
  have htime : normalizeToEpochMs (wall.stamp ++ zone.text) = 1000 * t := by
    rw [normalizeToEpochMs_stamp zone hyear, helapsed]
    ring
  refine ⟨htime, hnumber, ?_⟩
  intro hpos
  rw [htime]
  -- The last second of the calendar is far below the bound, whatever the offset.
  have hlt := wall.elapsed_lt
  have hend : Calendar.endOfTime < 2 ^ 40 := by decide
  have hoffset : -(24 * 60) < zone.minutes := by
    cases zone <;> simp only [Zone.minutes] <;> omega
  exact hnumber _ (by omega) (by omega)

/-- Nine hours ahead of UTC the clock shows another day. -/
theorem normalizeToEpochMs_instant_seoul :
    normalizeToEpochMs "1970-01-02T00:00:01+09:00".toList = 1000 * 54001 := by
  have hwall : DateTime.epoch.shift (54001 + 60 * (Zone.ahead 9 0).minutes) =
      some (DateTime.ofFields ⟨1970, 1, 2, by decide⟩ 0 0 1 (by omega) (by omega) (by omega)) :=
    DateTime.shift_eq_some_iff.mpr ⟨by decide, rfl⟩
  exact (normalizeToEpochMs_instant 54001 (.ahead 9 0) _ hwall (by decide)).1

end CoinBot.Database
