import CoinBot.Lib.DateText

/- What C reads and computes of a time: `%d` of `sscanf`, `std::tm`, and `timegm`.

   The fields of a `tm` may be out of their ranges; `timegm` carries months into years and
   everything else into days, in the Gregorian calendar extended to all years. On the fields
   of a time of the calendar it gives the seconds since 1970 (`timegm_tm`). -/
namespace CoinBot.Calendar

/-! Numbers in a text. -/

def isSpace (c : Char) : Bool := c == ' ' || ('\t' ≤ c && c ≤ '\r')

/-- A number, and the text behind it. -/
def scanDigits (s : List Char) : Option (Int × List Char) :=
  if s.takeWhile Char.isDigit = [] then none
  else some (valueOf (s.takeWhile Char.isDigit), s.dropWhile Char.isDigit)

/-- `%d`: white space, a sign, a number. -/
def scanInt (s : List Char) : Option (Int × List Char) :=
  match s.dropWhile isSpace with
  | '-' :: digits => (scanDigits digits).map fun (n, rest) => (-n, rest)
  | '+' :: digits => scanDigits digits
  | digits => scanDigits digits

/-- `%d` and the character that the format has behind it. -/
def scanIntThen (sep : Char) (s : List Char) : Option (Int × List Char) :=
  match scanInt s with
  | some (n, c :: rest) => if c = sep then some (n, rest) else none
  | _ => none

example : scanIntThen ':' " -05:30".toList = some (-5, "30".toList) := by decide

theorem scanInt_of_digit {c : Char} (hc : c.isDigit = true) (cs : List Char) :
    scanInt (c :: cs) = scanDigits (c :: cs) := by
  have hrange := isDigit_iff.mp hc
  have hspace : isSpace c = false := by
    have hblank : c ≠ ' ' := by
      rintro rfl
      exact absurd hc (by decide)
    have hlow : ¬ c ≤ '\r' := by
      intro hle
      have hnat : c.toNat ≤ 13 := hle
      omega
    simp [isSpace, hblank, hlow]
  unfold scanInt
  rw [List.dropWhile_cons_of_neg (by simp [hspace])]
  split
  · next heq =>
    obtain ⟨rfl, -⟩ := List.cons.inj heq
    exact absurd hc (by decide)
  · next heq =>
    obtain ⟨rfl, -⟩ := List.cons.inj heq
    exact absurd hc (by decide)
  · rfl

theorem scanInt_pad {width n : Nat} (hwidth : 0 < width) (hn : n < 10 ^ width) {rest : List Char}
    (hrest : rest.takeWhile Char.isDigit = []) :
    scanInt (pad width n ++ rest) = some ((n : Int), rest) := by
  have hfield : field width width (pad width n ++ rest) = some (n, rest) :=
    field_pad ⟨le_rfl, le_rfl⟩ hn hrest
  unfold field at hfield
  dsimp only at hfield
  split at hfield
  · next hlength =>
    obtain ⟨hvalue, hdrop⟩ := Prod.mk.inj (Option.some.inj hfield)
    have hsome : (pad width n ++ rest).takeWhile Char.isDigit ≠ [] := by
      intro hnil
      rw [hnil, List.length_nil] at hlength
      omega
    have hscan : scanDigits (pad width n ++ rest) = some ((n : Int), rest) := by
      rw [scanDigits, if_neg hsome, hvalue, hdrop]
    obtain ⟨c, cs, hpad⟩ := List.exists_cons_of_length_pos
      (show 0 < (pad width n).length by rw [length_pad]; exact hwidth)
    have hc : c.isDigit = true := isDigit_of_mem_pad c (hpad ▸ List.mem_cons_self)
    rw [hpad, List.cons_append] at hscan ⊢
    rw [scanInt_of_digit hc, hscan]
  · cases hfield

theorem scanIntThen_pad {width n : Nat} (hwidth : 0 < width) (hn : n < 10 ^ width) {sep : Char}
    (hsep : sep.isDigit = false) (rest : List Char) :
    scanIntThen sep (pad width n ++ sep :: rest) = some ((n : Int), rest) := by
  have hrest : (sep :: rest).takeWhile Char.isDigit = [] :=
    List.takeWhile_cons_of_neg (by simp [hsep])
  rw [scanIntThen, scanInt_pad hwidth hn hrest]
  exact if_pos rfl

/-! Seconds since 1970. -/

/-- `std::tm`: the years are counted from 1900 and the months from January. -/
structure Tm where
  year : Int
  mon : Int
  mday : Int
  hour : Int
  min : Int
  sec : Int
  deriving DecidableEq, Repr

/-- The days from the year 1 to the start of a year. -/
def daysBeforeYear (year : Int) : Int :=
  365 * (year - 1) + (year - 1) / 4 - (year - 1) / 100 + (year - 1) / 400

def timegm (tm : Tm) : Int :=
  let months := 12 * (tm.year + 1900) + tm.mon
  let year := months / 12
  -- The months of a year depend on it modulo 400 only.
  let days := daysBeforeYear year + daysOfMonths (year % 400).toNat (months % 12).toNat +
    (tm.mday - 1) - daysOfYears 1969
  86400 * days + 3600 * tm.hour + 60 * tm.min + tm.sec

example : timegm ⟨124, 13, 30, 0, 0, -1⟩ = timegm ⟨125, 2, 1, 23, 59, 59⟩ := by decide

theorem daysBeforeYear_natCast {year : Nat} (h : 1 ≤ year) :
    daysBeforeYear year = daysOfYears (year - 1) := by
  obtain ⟨k, rfl⟩ : ∃ k, year = k + 1 := ⟨year - 1, by omega⟩
  have hpred : ((k + 1 : Nat) : Int) - 1 = k := by omega
  have hle : k / 100 ≤ k / 4 := Nat.div_le_div_left (by omega) (by omega)
  unfold daysBeforeYear daysOfYears
  rw [hpred, Nat.add_sub_cancel]
  omega

theorem isLeap_mod (year : Nat) : isLeap (year % 400) ↔ isLeap year := by
  unfold isLeap
  omega

theorem daysInMonth_mod (year month : Nat) :
    daysInMonth (year % 400) month = daysInMonth year month := by
  unfold daysInMonth
  simp only [isLeap_mod]

theorem daysOfMonths_mod (year k : Nat) : daysOfMonths (year % 400) k = daysOfMonths year k := by
  induction k with
  | zero => rfl
  | succ k ih => rw [daysOfMonths, daysOfMonths, ih, daysInMonth_mod]

namespace DateTime

/-- 1970-01-01T00:00:00. -/
def epoch : DateTime := ofFields ⟨1970, 1, 1, by decide⟩ 0 0 0 (by omega) (by omega) (by omega)

/-- The fields of a time. -/
def tm (t : DateTime) : Tm where
  year := t.date.year - 1900
  mon := t.date.month - 1
  mday := t.date.day
  hour := t.hour
  min := t.minute
  sec := t.second

theorem timegm_tm (t : DateTime) : timegm t.tm = t.elapsed - epoch.elapsed := by
  obtain ⟨⟨hyear, -⟩, ⟨hmonth, hmonth'⟩, hday, -⟩ := t.date.valid
  have hepoch : epoch.elapsed = 86400 * daysOfYears 1969 := rfl
  have hnumber : t.date.number = daysOfYears (t.date.year - 1) +
    daysOfMonths t.date.year (t.date.month - 1) + (t.date.day - 1) := rfl
  have hmonths : 12 * ((t.date.year : Int) - 1900 + 1900) + ((t.date.month : Int) - 1) =
      12 * (t.date.year : Int) + ((t.date.month - 1 : Nat) : Int) := by omega
  have hcarry : (12 * (t.date.year : Int) + ((t.date.month - 1 : Nat) : Int)) / 12 =
      t.date.year := by omega
  have hmon : ((12 * (t.date.year : Int) + ((t.date.month - 1 : Nat) : Int)) % 12).toNat =
      t.date.month - 1 := by omega
  have hmod : ((t.date.year : Int) % 400).toNat = t.date.year % 400 := by omega
  unfold timegm
  simp only [tm, hmonths, hcarry, hmon, hmod, daysOfMonths_mod, daysBeforeYear_natCast hyear]
  rw [t.elapsed_eq, hnumber, hepoch]
  unfold secondsPerDay
  omega

end DateTime
end CoinBot.Calendar
