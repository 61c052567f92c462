import CoinBot.Lib.DateText
import CoinBot.Lib.Series

/- `detect_candle_gaps` of `tools/candle_rsi_backtest.py`: the warning about candles that are
   missing between those that were loaded.

   Correspondence (Python ↔ Lean):
     `pd.DatetimeIndex`                        ↔ a list of times
     `diff().dropna()`, with the index         ↔ the pairs of neighbours
     a `Timedelta`                             ↔ its microseconds
     `gap_end - gap_delta`                     ↔ the first of the pair
     the local variables of the loop           ↔ the fields of the result, `addGap` -/
namespace CoinBot.Backtest
open Calendar

structure DataQuality where
  hasGaps : Bool := false
  gapCount : Nat := 0
  missingCandles : Int := 0
  maxGapMinutes : Int := 0
  samples : List String := []
  deriving DecidableEq, Repr

/-- How far two times are apart. -/
def gapDelta (row : DateTime × DateTime) : Int :=
  ((row.2.elapsed : Int) - row.1.elapsed) * 1000000 + (row.2.microsecond - row.1.microsecond)

/-- `int(gap_delta.total_seconds() // 60)`. -/
def gapMinutes (row : DateTime × DateTime) : Int := gapDelta row / 60000000

def missingIn (unit : Int) (row : DateTime × DateTime) : Int :=
  max (gapMinutes row / unit - 1) 0

/-- `%Y-%m-%d %H:%M`. -/
def minuteText (t : DateTime) : String :=
  String.ofList (pad 4 t.date.year ++ '-' :: (pad 2 t.date.month ++ '-' :: (pad 2 t.date.day ++
    ' ' :: (pad 2 t.hour ++ ':' :: pad 2 t.minute))))

def sampleText (unit : Int) (row : DateTime × DateTime) : String :=
  minuteText row.1 ++ " -> " ++ minuteText row.2 ++
    " (누락 " ++ toString (missingIn unit row) ++ "캔들)"

/-- The body of the loop. -/
def addGap (unit : Int) (q : DataQuality) (row : DateTime × DateTime) : DataQuality :=
  { q with
    missingCandles := q.missingCandles + missingIn unit row
    maxGapMinutes := max q.maxGapMinutes (gapMinutes row)
    samples :=
      if q.samples.length < 3 then q.samples ++ [sampleText unit row] else q.samples }

/-- The neighbours that are farther apart than a unit. -/
def gapRows (index : List DateTime) (unit : Int) : List (DateTime × DateTime) :=
  (Series.steps Prod.mk index).filter (fun row => 60000000 * unit < gapDelta row)

def detectCandleGaps (index : List DateTime) (unit : Int) : DataQuality :=
  if index.length < 2 ∨ unit ≤ 0 then {}
  else
    let rows := gapRows index unit
    if rows.isEmpty then {}
    else rows.foldl (addGap unit) { hasGaps := true, gapCount := rows.length }

/-! What the loop adds up. -/

variable {unit : Int}

theorem foldl_addGap (rows : List (DateTime × DateTime)) (q : DataQuality) :
    rows.foldl (addGap unit) q =
      { q with
        missingCandles := q.missingCandles + (rows.map (missingIn unit)).sum
        maxGapMinutes := (rows.map gapMinutes).foldl max q.maxGapMinutes
        samples := q.samples ++ (rows.map (sampleText unit)).take (3 - q.samples.length) } := by
  induction rows generalizing q with
  | nil => simp
  | cons row rows ih =>
    rw [List.foldl_cons, ih]
    simp only [addGap, List.map_cons, List.sum_cons, List.foldl_cons, Int.add_assoc]
    congr 1
    split
    · next hfew =>
      have htake : 3 - q.samples.length = (3 - (q.samples.length + 1)) + 1 := by omega
      rw [List.length_append, List.length_singleton, htake, List.take_succ_cons]
      simp
    · next hmany =>
      have hnone : 3 - q.samples.length = 0 := by omega
      rw [hnone, List.take_zero, List.take_zero]

/-- The summary of the gaps, whether there are any or not; the samples are the first three. -/
theorem detectCandleGaps_eq (index : List DateTime) (hunit : 0 < unit) :
    detectCandleGaps index unit =
      { hasGaps := !(gapRows index unit).isEmpty
        gapCount := (gapRows index unit).length
        missingCandles := ((gapRows index unit).map (missingIn unit)).sum
        maxGapMinutes := ((gapRows index unit).map gapMinutes).foldl max 0
        samples := ((gapRows index unit).map (sampleText unit)).take 3 } := by
  have hnone : gapRows index unit = [] → detectCandleGaps index unit = {} := by
    intro hrows
    unfold detectCandleGaps
    rw [hrows]
    exact ite_self _
  cases hrows : gapRows index unit with
  | nil => exact hnone hrows
  | cons row rows =>
    have htwo : ¬ (index.length < 2 ∨ unit ≤ 0) := by
      rintro (hshort | hneg)
      · -- One time has no neighbour.
        have hlength : (Series.steps Prod.mk index).length = 0 := by
          rw [Series.length_steps]
          omega
        rw [gapRows, List.length_eq_zero_iff.mp hlength] at hrows
        cases hrows
      · omega
    unfold detectCandleGaps
    rw [if_neg htwo, hrows]
    dsimp only
    rw [if_neg (by simp), foldl_addGap]
    simp

end CoinBot.Backtest
