import CoinBot.Lib.DateText
import Mathlib.Data.List.Nodup

/- `tools/fetch_candles.py`: past candles are fetched into the table `candles`.

   Times are on the wall clock of Korea, which has no shifts; the script compares and stores
   them as text. The exchange is a parameter that answers requests and may keep a state. The
   `while` loop over the batches has fuel: a run that needs more is still running. -/
namespace CoinBot.Collector
open Calendar

/-- A unit of candles in minutes; it divides the day. -/
structure CandleUnit where
  minutes : Nat
  pos : 0 < minutes
  dvd : minutes ∣ 1440

def supportedUnits : List Nat := [1, 3, 5, 10, 15, 30, 60, 240]

theorem supportedUnits_dvd : ∀ minutes ∈ supportedUnits, 0 < minutes ∧ minutes ∣ 1440 := by decide

/-- A choice of `--unit`. -/
def CandleUnit.ofChoice (minutes : Nat) (h : minutes ∈ supportedUnits) : CandleUnit where
  minutes := minutes
  pos := (supportedUnits_dvd minutes h).1
  dvd := (supportedUnits_dvd minutes h).2

/-- `BATCH_SIZE`. -/
def batchSize : Nat := 200

inductive CollectorError where
  | valueError
  | overflowError
  | requestError
  deriving DecidableEq, Repr

/-- A candle as the exchange sends it. -/
structure CandleDto (α : Type) where
  candleDateTimeKst : String
  openingPrice : α
  highPrice : α
  lowPrice : α
  tradePrice : α
  candleAccTradeVolume : α

/-- A row of the table `candles`. -/
structure CandleRow (α : Type) where
  market : String
  ts : String
  openPrice : α
  high : α
  low : α
  close : α
  volume : α
  unit : Nat

/-- `UNIQUE (market, ts, unit)`. -/
def CandleRow.key {α : Type} (row : CandleRow α) : String × String × Nat :=
  (row.market, row.ts, row.unit)

/-- The table, with one row for a key. -/
structure CandleTable (α : Type) where
  rows : List (CandleRow α)
  unique : (rows.map CandleRow.key).Nodup

theorem bind_eq_ok {β γ : Type} {x : Except CollectorError β} {f : β → Except CollectorError γ}
    {r : γ} (h : x >>= f = .ok r) : ∃ a, x = .ok a ∧ f a = .ok r := by
  cases x with
  | error e => cases h
  | ok a => exact ⟨a, rfl, h⟩

/-! Times. -/

/-- `strptime`, with its error. -/
def parseTs (text : String) : Except CollectorError DateTime :=
  match DateTime.strptime text with
  | some t => .ok t
  | none => .error .valueError

theorem parseTs_eq_ok {text : String} {t : DateTime} (h : parseTs text = .ok t) :
    DateTime.strptime text = some t := by
  unfold parseTs at h
  split at h
  · next u hparse =>
    obtain rfl := Except.ok.inj h
    exact hparse
  · cases h

/-- `t + timedelta(minutes)`, with its error. -/
def addMinutes (t : DateTime) (minutes : Int) : Except CollectorError DateTime :=
  match t.shift (60 * minutes) with
  | some u => .ok u
  | none => .error .overflowError

theorem addMinutes_eq_ok {t u : DateTime} {minutes : Int} (h : addMinutes t minutes = .ok u) :
    (u.elapsed : Int) = t.elapsed + 60 * minutes ∧ u.microsecond = t.microsecond := by
  unfold addMinutes at h
  split at h
  · next hshift =>
    cases h
    exact DateTime.shift_eq_some_iff.mp hshift
  · cases h

theorem addMinutes_eq_error {t : DateTime} {minutes : Int} {e : CollectorError}
    (h : addMinutes t minutes = .error e) :
    e = .overflowError ∧
      (t.elapsed + 60 * minutes < 0 ∨ (endOfTime : Int) ≤ t.elapsed + 60 * minutes) := by
  unfold addMinutes at h
  split at h
  · cases h
  · next hshift =>
    cases h
    exact ⟨rfl, DateTime.shift_eq_none_iff.mp hshift⟩

/-- The minutes since midnight. -/
def totalMinutes (t : DateTime) : Nat := t.hour * 60 + t.minute

/-- The start of the last candle that has ended. -/
def calcEndTs (now : DateTime) (unit : CandleUnit) : Except CollectorError String := do
  let elapsed := totalMinutes now % unit.minutes
  let currentBoundary ← addMinutes now.floorMinute (-elapsed)
  let lastComplete ← addMinutes currentBoundary (-unit.minutes)
  return lastComplete.strftime

/-! The table. -/

section
variable {α : Type}

/-- The row of a candle. -/
def CandleDto.toRow (c : CandleDto α) (market : String) (unit : Nat) : CandleRow α where
  market := market
  ts := c.candleDateTimeKst
  openPrice := c.openingPrice
  high := c.highPrice
  low := c.lowPrice
  close := c.tradePrice
  volume := c.candleAccTradeVolume
  unit := unit

/-- `INSERT … ON CONFLICT DO NOTHING`, and the number of rows that it inserted. -/
def insertCandleRow (table : CandleTable α) (market : String) (c : CandleDto α)
    (unit : CandleUnit) : CandleTable α × Nat :=
  let row := c.toRow market unit.minutes
  if h : row.key ∈ table.rows.map CandleRow.key then (table, 0)
  else
    ({ rows := table.rows ++ [row]
       unique := by
        rw [List.map_append, List.nodup_append]
        refine ⟨table.unique, List.nodup_singleton _, ?_⟩
        rintro k hk _ hrow rfl
        rw [List.map_singleton, List.mem_singleton] at hrow
        exact h (hrow ▸ hk) }, 1)

/-- The loop over a batch: the candles in the range are inserted. -/
def insertBatch (market startTs endTs : String) (unit : CandleUnit) (table : CandleTable α)
    (candles : List (CandleDto α)) : CandleTable α × Nat :=
  candles.foldl (fun (table, batchCount) c =>
    if startTs ≤ c.candleDateTimeKst ∧ c.candleDateTimeKst ≤ endTs then
      let (table, inserted) := insertCandleRow table market c unit
      (table, batchCount + inserted)
    else (table, batchCount)) (table, 0)

/-! The exchange. -/

structure CandleRequest where
  market : String
  unit : Nat
  count : Nat
  toTs : Option String

/-- What answers the requests. -/
abbrev CandleApi (σ α : Type) :=
  σ → CandleRequest → Except CollectorError (List (CandleDto α)) × σ

/-- The state of the exchange, and the table. -/
structure World (σ α : Type) where
  server : σ
  table : CandleTable α

/-- How far a call has come. -/
inductive Run (β : Type) where
  | running
  | raised (error : CollectorError)
  | done (value : β)

variable {σ : Type} (api : CandleApi σ α)

/-- An empty `to` is not sent. -/
def fetchBatch (server : σ) (market : String) (toTs : Option String) (unit : CandleUnit) :
    Except CollectorError (List (CandleDto α)) × σ :=
  api server
    { market := market
      unit := unit.minutes
      count := batchSize
      toTs := toTs.filter (· ≠ "") }

/-- The `while` loop of `fetch_range`. -/
def fetchRangeLoop (market startTs endTs : String) (unit : CandleUnit) :
    Nat → String → Nat → World σ α → Run Nat × World σ α
  | 0, _, _, w => (.running, w)
  | fuel + 1, toTs, count, w =>
    match fetchBatch api w.server market (some toTs) unit with
    | (.error e, server) => (.raised e, { w with server := server })
    | (.ok candles, server) =>
      match (candles.map (·.candleDateTimeKst)).min? with
      -- An empty batch ends the loop.
      | none => (.done count, { w with server := server })
      | some oldestTs =>
        let (table, batchCount) := insertBatch market startTs endTs unit w.table candles
        let count := count + batchCount
        let w := { server := server, table := table }
        if candles.length < batchSize ∨ oldestTs ≤ startTs then (.done count, w)
        else fetchRangeLoop market startTs endTs unit fuel oldestTs count w

/-- From `end_ts` back to `start_ts`. -/
def fetchRange (fuel : Nat) (market startTs endTs : String) (unit : CandleUnit) (w : World σ α) :
    Run Nat × World σ α :=
  fetchRangeLoop api market startTs endTs unit fuel endTs 0 w

/-! Gaps. -/

/-- The timestamps of a market and unit that are stored in the range. -/
def existingTs (table : CandleTable α) (market : String) (unit : CandleUnit)
    (startTs endTs : String) : List String :=
  (table.rows.filter (fun row =>
    row.market = market ∧ row.unit = unit.minutes ∧ startTs ≤ row.ts ∧ row.ts ≤ endTs)).map (·.ts)

/-- The first boundary of the unit at which `find_gaps` looks. -/
def firstBoundary (startTs : String) (unit : CandleUnit) : Except CollectorError DateTime := do
  let t ← parseTs startTs
  let t := t.floorMinute
  let remainder := totalMinutes t % unit.minutes
  if remainder ≠ 0 then addMinutes t (unit.minutes - remainder) else return t

/-- The `while` loop of `find_gaps`. -/
def missingTs (existing : List String) (unit : CandleUnit) (last t : DateTime) :
    Except CollectorError (List String) :=
  if _ : t ≤ last then
    match _ : addMinutes t unit.minutes with
    | .error e => .error e
    | .ok next =>
      match missingTs existing unit last next with
      | .error e => .error e
      | .ok missing => .ok (if t.strftime ∈ existing then missing else t.strftime :: missing)
  else .ok []
termination_by last.elapsed + 1 - t.elapsed
decreasing_by
  have hpos := unit.pos
  have hlast := DateTime.elapsed_le_of_le ‹t ≤ last›
  have helapsed := (addMinutes_eq_ok ‹addMinutes t unit.minutes = .ok _›).1
  omega

/-- Neighbours among the missing timestamps are put together. -/
def groupGaps (unit : CandleUnit) (gapStart gapEnd : String) :
    List String → Except CollectorError (List (String × String))
  | [] => .ok [(gapStart, gapEnd)]
  | ts :: rest => do
    let prev ← parseTs gapEnd
    let curr ← parseTs ts
    if ((curr.elapsed : Int) - prev.elapsed).tdiv 60 = unit.minutes then
      groupGaps unit gapStart ts rest
    else
      let gaps ← groupGaps unit ts ts rest
      return (gapStart, gapEnd) :: gaps

def findGaps (table : CandleTable α) (market : String) (unit : CandleUnit)
    (startTs endTs : String) : Except CollectorError (List (String × String)) := do
  let existing := existingTs table market unit startTs endTs
  let t ← firstBoundary startTs unit
  let last ← parseTs endTs
  let missing ← missingTs existing unit last t
  match missing with
  | [] => return []
  | first :: rest => groupGaps unit first first rest

/-! The run. -/

/-- Calls one after the other; the first that does not end stops them. -/
def inTurn {β : Type} (call : β → World σ α → Run Nat × World σ α) :
    List β → World σ α → Run Nat × World σ α
  | [], w => (.done 0, w)
  | x :: xs, w =>
    match call x w with
    | (.done count, w) =>
      match inTurn call xs w with
      | (.done total, w) => (.done (count + total), w)
      | stopped => stopped
    | stopped => stopped

def fetchMarket (fuel : Nat) (market startTs endTs : String) (unit : CandleUnit) (w : World σ α) :
    Run Nat × World σ α :=
  match findGaps w.table market unit startTs endTs with
  | .error e => (.raised e, w)
  | .ok gaps => inTurn (fun gap => fetchRange api fuel market gap.1 gap.2 unit) gaps w

/-- The arguments that `main` reads, the markets already split. -/
structure Args where
  markets : List String
  days : Int
  start : Option String
  stop : Option String
  unit : CandleUnit

def startTsOf (now : DateTime) (args : Args) : Except CollectorError String :=
  match args.start.filter (· ≠ "") with
  | some start => .ok (start ++ "T00:00:00")
  | none => do
    let t ← addMinutes now (-(args.days * 1440))
    return t.strftime

/-- The end, capped to the last candle that has ended. -/
def endTsOf (now : DateTime) (args : Args) : Except CollectorError String := do
  let cap ← calcEndTs now args.unit
  match args.stop.filter (· ≠ "") with
  | some stop =>
    let cliEnd := stop ++ "T23:59:59"
    return if cap < cliEnd then cap else cliEnd
  | none => return cap

def main (fuel : Nat) (now : DateTime) (args : Args) (w : World σ α) : Run Nat × World σ α :=
  match startTsOf now args, endTsOf now args with
  | .ok startTs, .ok endTs =>
    inTurn (fun market => fetchMarket api fuel market startTs endTs args.unit) args.markets w
  | .error e, _ => (.raised e, w)
  | _, .error e => (.raised e, w)

end
end CoinBot.Collector
