import CoinBot.Backtest.CandleRsiBacktest
import Mathlib.Tactic.Linarith

/- The books of the backtest.

   A buy moves cash into the cost of the position, a sale moves the proceeds back and records
   the difference; so cash and cost together are the initial cash and the profits so far.
   Each candle adds at most one event, the entry or the exit of a trade, at its own time. -/
namespace CoinBot.Backtest

variable {α : Type} [Field α] [LinearOrder α]

/-- Settings under which a position can be paid for, and a sale brings no loss of cash. -/
structure BacktestParams.Payable (p : BacktestParams α) : Prop where
  minNotionalKrw : 0 < p.minNotionalKrw
  reserveMargin : 0 < p.reserveMargin
  feeRate : 0 ≤ p.feeRate ∧ p.feeRate ≤ 1
  slippageRate : 0 ≤ p.slippageRate ∧ p.slippageRate ≤ 1
  utilization : 0 ≤ p.utilization
  afford : p.utilization * (1 + p.feeRate) ≤ p.reserveMargin
  stopLossPct : 0 ≤ p.stopLossPct ∧ p.stopLossPct ≤ 100
  profitTargetPct : 0 ≤ p.profitTargetPct

namespace Simulation

/-- The cost of the open position. -/
def openCost (s : Simulation α) : α := if s.state = .inPosition then s.totalCost else 0

def profit (s : Simulation α) : α := (s.trades.map (·.pnl)).sum

/-- The times of the entries and the exits, an entry before each exit. -/
def timeline (s : Simulation α) : List Int :=
  s.trades.flatMap (fun t => t.entryTs.toList ++ [t.exitTs]) ++
    if s.state = .inPosition then s.entryTs.toList else []

/-- The books after a candle. -/
structure Balanced (initialKrw : α) (s : Simulation α) : Prop where
  krw : 0 ≤ s.krw
  balance : s.krw + s.openCost = initialKrw + s.profit
  flat : s.state = .flat → s.coinQty = 0
  held : s.state = .inPosition → 0 < s.coinQty
  paid : s.state = .inPosition → 0 < s.totalCost
  entered : s.state = .inPosition → s.entryTs.isSome
  dated : ∀ t ∈ s.trades, ∃ entry, t.entryTs = some entry ∧ entry < t.exitTs
  alternate : List.Pairwise (· < ·) s.timeline

/-- What the next candle needs: levels at which a sale pays, and no event at its time yet. -/
structure Ready (initialKrw : α) (s : Simulation α) (ts : Int) : Prop extends
    Balanced initialKrw s where
  levels : s.state = .inPosition → 0 ≤ s.stopPrice ∧ 0 ≤ s.targetPrice
  past : ∀ x ∈ s.timeline, x < ts

theorem ready_start {initialKrw : α} (h : 0 ≤ initialKrw) (ts : Int) :
    Ready initialKrw (start initialKrw) ts where
  krw := h
  balance := by simp [openCost, profit, start]
  flat := fun _ => rfl
  held := fun hin => State.noConfusion hin
  paid := fun hin => State.noConfusion hin
  entered := fun hin => State.noConfusion hin
  dated := by simp [start]
  alternate := by simp [timeline, start]
  levels := fun hin => State.noConfusion hin
  past := by simp [timeline, start]

variable {initialKrw : α} {s : Simulation α} {ts ts' : Int}

theorem Ready.mono (h : Ready initialKrw s ts) (hts : ts ≤ ts') : Ready initialKrw s ts' :=
  { h with past := fun x hx => lt_of_lt_of_le (h.past x hx) hts }

theorem Ready.recordEquity (h : Ready initialKrw s ts) (row : IndicatorRow α) :
    Ready initialKrw (recordEquity s row) ts :=
  ⟨⟨h.krw, h.balance, h.flat, h.held, h.paid, h.entered, h.dated, h.alternate⟩, h.levels, h.past⟩

theorem Ready.event (h : Ready initialKrw s ts) {s' : Simulation α}
    (heq : s'.timeline = s.timeline ++ [ts]) (hts : ts < ts') :
    List.Pairwise (· < ·) s'.timeline ∧ ∀ x ∈ s'.timeline, x < ts' := by
  rw [heq]
  constructor
  · rw [List.pairwise_append]
    refine ⟨h.alternate, List.pairwise_singleton _ _, fun x hx y hy => ?_⟩
    rw [List.mem_singleton.mp hy]
    exact h.past x hx
  · intro x hx
    rcases List.mem_append.mp hx with hx | hx
    · exact lt_trans (h.past x hx) hts
    · rw [List.mem_singleton.mp hx]
      exact hts

/-! Entries. -/

omit [LinearOrder α] in
theorem timeline_openPosition (p : BacktestParams α) (hflat : s.state = .flat) (close amount : α) :
    (openPosition p s ts close amount).timeline = s.timeline ++ [ts] := by
  simp [timeline, openPosition, hflat]

variable [IsStrictOrderedRing α]

theorem cost_le_krw {p : BacktestParams α} (hp : p.Payable) {krw : α} (hkrw : 0 ≤ krw) :
    entryKrw p krw + entryKrw p krw * p.feeRate ≤ krw := by
  have hshare : 0 ≤ krw / p.reserveMargin := div_nonneg hkrw hp.reserveMargin.le
  calc entryKrw p krw + entryKrw p krw * p.feeRate
      = krw / p.reserveMargin * (p.utilization * (1 + p.feeRate)) := by
        unfold entryKrw
        ring
    _ ≤ krw / p.reserveMargin * p.reserveMargin := mul_le_mul_of_nonneg_left hp.afford hshare
    _ = krw := div_mul_cancel₀ krw hp.reserveMargin.ne'

theorem Ready.openPosition {p : BacktestParams α} (hp : p.Payable) (h : Ready initialKrw s ts)
    (hflat : s.state = .flat) {close : α} (hclose : 0 < close)
    (henough : p.minNotionalKrw ≤ entryKrw p s.krw) (hts : ts < ts') :
    Ready initialKrw (openPosition p s ts close (entryKrw p s.krw)) ts' := by
  have hamount : 0 < entryKrw p s.krw := lt_of_lt_of_le hp.minNotionalKrw henough
  have hprice : 0 < close * (1 + p.slippageRate) :=
    mul_pos hclose (add_pos_of_pos_of_nonneg zero_lt_one hp.slippageRate.1)
  have hstop : 0 ≤ 1 - p.stopLossPct / 100 :=
    sub_nonneg.mpr ((div_le_one (by norm_num)).mpr hp.stopLossPct.2)
  have htarget : 0 ≤ 1 + p.profitTargetPct / 100 :=
    add_nonneg zero_le_one (div_nonneg hp.profitTargetPct (by norm_num))
  have hbalance := h.balance
  rw [openCost, if_neg (by rw [hflat]; exact State.noConfusion), add_zero] at hbalance
  exact
    { krw := sub_nonneg.mpr (cost_le_krw hp h.krw)
      balance := by
        show s.krw - _ + (if State.inPosition = .inPosition then _ else _) =
          initialKrw + s.profit
        rw [if_pos rfl, ← hbalance]
        exact sub_add_cancel _ _
      flat := fun hstate => State.noConfusion hstate
      held := fun _ => div_pos hamount hprice
      paid := fun _ => add_pos_of_pos_of_nonneg hamount (mul_nonneg hamount.le hp.feeRate.1)
      entered := fun _ => rfl
      dated := h.dated
      alternate := (h.event (timeline_openPosition p hflat close _) hts).1
      levels := fun _ => ⟨mul_nonneg hprice.le hstop, mul_nonneg hprice.le htarget⟩
      past := (h.event (timeline_openPosition p hflat close _) hts).2 }

theorem Ready.entryStep {p : BacktestParams α} (hp : p.Payable) (h : Ready initialKrw s ts)
    (hflat : s.state = .flat) {row : IndicatorRow α} (hrow : row.ts = ts) (hclose : 0 < row.close)
    (hts : ts < ts') : Ready initialKrw (entryStep p s row) ts' := by
  unfold Backtest.entryStep
  split
  · split
    · next henough =>
      rw [hrow]
      exact h.openPosition hp hflat hclose henough hts
    · exact h.mono hts.le
  · exact h.mono hts.le

/-! Exits. -/

omit [LinearOrder α] [IsStrictOrderedRing α] in
theorem timeline_closePosition (p : BacktestParams α) (hin : s.state = .inPosition) (price : α)
    (reason : String) (intrabar : Bool) :
    (closePosition p s ts price reason intrabar).timeline = s.timeline ++ [ts] := by
  simp [timeline, closePosition, hin]

theorem Ready.closePosition {p : BacktestParams α} (hp : p.Payable) (h : Ready initialKrw s ts)
    (hin : s.state = .inPosition) {price : α} (hprice : 0 ≤ price) (reason : String)
    (intrabar : Bool) (hts : ts < ts') :
    Ready initialKrw (closePosition p s ts price reason intrabar) ts' := by
  have hgross : 0 ≤ s.coinQty * price := mul_nonneg (h.held hin).le hprice
  have hnet : 0 ≤ s.coinQty * price - s.coinQty * price * p.feeRate :=
    sub_nonneg.mpr (mul_le_of_le_one_right hgross hp.feeRate.2)
  have hbalance := h.balance
  rw [openCost, if_pos hin] at hbalance
  have hevent := h.event (timeline_closePosition p hin price reason intrabar) hts
  exact
    { krw := add_nonneg h.krw hnet
      balance := by
        have hprofit : (Backtest.closePosition p s ts price reason intrabar).profit = s.profit +
            (s.coinQty * price - s.coinQty * price * p.feeRate - s.totalCost) := by
          simp [profit, Backtest.closePosition]
        rw [hprofit]
        show s.krw + _ + (if State.flat = .inPosition then _ else _) = _
        rw [if_neg State.noConfusion]
        linarith
      flat := fun _ => rfl
      held := fun hstate => State.noConfusion hstate
      paid := fun hstate => State.noConfusion hstate
      entered := fun hstate => State.noConfusion hstate
      dated := by
        intro t ht
        rcases List.mem_append.mp ht with ht | ht
        · exact h.dated t ht
        · -- The new trade closes the entry that was open.
          rw [List.mem_singleton.mp ht]
          obtain ⟨entry, hentry⟩ := Option.isSome_iff_exists.mp (h.entered hin)
          exact ⟨entry, hentry, h.past entry (by simp [timeline, hin, hentry])⟩
      alternate := hevent.1
      levels := fun hstate => State.noConfusion hstate
      past := hevent.2 }

omit [IsStrictOrderedRing α] in
/-- An intrabar exit is at one of the levels, less the slippage. -/
theorem checkIntrabarExitOhlc_price {openPrice high low stopPrice targetPrice slippageRate : α}
    {reason : String} {price : α}
    (h : checkIntrabarExitOhlc openPrice high low stopPrice targetPrice slippageRate =
      some (reason, price)) :
    price = stopPrice * (1 - slippageRate) ∨ price = targetPrice * (1 - slippageRate) := by
  unfold checkIntrabarExitOhlc at h
  dsimp only at h
  split at h
  · cases h
  · split at h
    · split at h
      · exact .inl (Prod.mk.inj (Option.some.inj h)).2.symm
      · exact .inr (Prod.mk.inj (Option.some.inj h)).2.symm
    · split at h
      · exact .inl (Prod.mk.inj (Option.some.inj h)).2.symm
      · exact .inr (Prod.mk.inj (Option.some.inj h)).2.symm

theorem Ready.exitStep {p : BacktestParams α} (hp : p.Payable) (h : Ready initialKrw s ts)
    (hin : s.state = .inPosition) {row : IndicatorRow α} (hrow : row.ts = ts)
    (hclose : 0 < row.close) (hts : ts < ts') : Ready initialKrw (exitStep p s row) ts' := by
  have hslip : 0 ≤ 1 - p.slippageRate := sub_nonneg.mpr hp.slippageRate.2
  obtain ⟨hstop, htarget⟩ := h.levels hin
  unfold Backtest.exitStep
  rw [hrow]
  split
  · split
    · next reason price hexit =>
      have hprice : 0 ≤ price := by
        rcases checkIntrabarExitOhlc_price hexit with rfl | rfl
        · exact mul_nonneg hstop hslip
        · exact mul_nonneg htarget hslip
      exact h.closePosition hp hin hprice reason true hts
    · split
      · next reason _ =>
        exact h.closePosition hp hin (mul_nonneg hclose.le hslip) reason false hts
      · exact h.mono hts.le
  · exact h.mono hts.le

/-! The loop. -/

theorem Ready.simulateRow {p : BacktestParams α} (hp : p.Payable) {row : IndicatorRow α}
    (h : Ready initialKrw s row.ts) (hclose : 0 < row.close) (hts : row.ts < ts') :
    Ready initialKrw (simulateRow p s row) ts' := by
  unfold Backtest.simulateRow
  cases hstate : s.state with
  | flat => exact (h.entryStep hp hstate rfl hclose hts).recordEquity row
  | inPosition => exact (h.exitStep hp hstate rfl hclose hts).recordEquity row

/-- The candles so far leave the books ready for any later time. -/
theorem ready_simulate {p : BacktestParams α} (hp : p.Payable) (hkrw : 0 ≤ initialKrw)
    {rows : List (IndicatorRow α)} (hclose : ∀ row ∈ rows, 0 < row.close)
    (hts : (rows.map (·.ts)).Pairwise (· < ·)) {ts : Int} (hlast : ∀ row ∈ rows, row.ts < ts) :
    Ready initialKrw (simulate p rows initialKrw) ts := by
  induction rows using List.reverseRecOn generalizing ts with
  | nil => exact ready_start hkrw ts
  | append_singleton rows row ih =>
    rw [List.map_append, List.pairwise_append] at hts
    have hready : Ready initialKrw (simulate p rows initialKrw) row.ts :=
      ih (fun r hr => hclose r (List.mem_append_left _ hr)) hts.1
        (fun r hr => hts.2.2 _ (List.mem_map_of_mem hr) _ (by simp))
    have hstep : simulate p (rows ++ [row]) initialKrw =
        Backtest.simulateRow p (simulate p rows initialKrw) row := by
      rw [simulate, List.foldl_append]
      rfl
    rw [hstep]
    exact hready.simulateRow hp (hclose row (by simp)) (hlast row (by simp))

theorem balanced_simulate {p : BacktestParams α} (hp : p.Payable) (hkrw : 0 ≤ initialKrw)
    {rows : List (IndicatorRow α)} (hclose : ∀ row ∈ rows, 0 < row.close)
    (hts : (rows.map (·.ts)).Pairwise (· < ·)) :
    Balanced initialKrw (simulate p rows initialKrw) := by
  rcases rows.eq_nil_or_concat' with rfl | ⟨before, last, rfl⟩
  · exact (ready_start hkrw 0).toBalanced
  · -- No candle is at the time behind the last one.
    have hlast : ∀ row ∈ before ++ [last], row.ts < last.ts + 1 := by
      intro row hrow
      rcases List.mem_append.mp hrow with hbefore | hlast
      · rw [List.map_append, List.pairwise_append] at hts
        have hlt : row.ts < last.ts := hts.2.2 _ (List.mem_map_of_mem hbefore) _ (by simp)
        omega
      · rw [List.mem_singleton.mp hlast]
        omega
    exact (ready_simulate hp hkrw hclose hts hlast).toBalanced

omit [IsStrictOrderedRing α] in
theorem summarize_totalPnl (s : Simulation α) : (summarize s).totalPnl = s.profit := by
  unfold summarize profit
  split
  · next hnone => rw [hnone, List.map_nil, List.sum_nil]
  · rfl

end Simulation

/-! The whole run. -/

/-- A series with positive prices, in the order of time. -/
structure Quoted (df : List (CandleRow α)) : Prop where
  prices : ∀ row ∈ df, 0 < row.openPrice ∧ 0 < row.high ∧ 0 < row.low ∧ 0 < row.close
  order : (df.map (·.ts)).Pairwise (· < ·)

theorem toCandleRow_indicatorRows (sqrt : α → α) (p : BacktestParams α) (df : List (CandleRow α)) :
    (indicatorRows sqrt p df).map (·.toCandleRow) = df := by
  refine List.ext_getElem? fun i => ?_
  rw [indicatorRows, List.getElem?_map, List.getElem?_mapIdx, Option.map_map]
  exact congrFun Option.map_id _

variable [IsStrictOrderedRing α]

theorem accounting (sqrt : α → α) {p : BacktestParams α} (hp : p.Payable)
    {df : List (CandleRow α)} (hdf : Quoted df) {initialKrw : α} (hkrw : 0 ≤ initialKrw) :
    let after := fun n => simulate p ((indicatorRows sqrt p df).take n) initialKrw
    let final := simulate p (indicatorRows sqrt p df) initialKrw
    (∀ n, (after n).Balanced initialKrw) ∧
      (runBacktest sqrt p df initialKrw).trades = final.trades ∧
      (runBacktest sqrt p df initialKrw).equity = final.equity ∧
      (runBacktest sqrt p df initialKrw).summary.totalPnl =
        final.krw - initialKrw + final.openCost := by
  intro after final
  have hrows := toCandleRow_indicatorRows sqrt p df
  have hbalanced : ∀ n, (after n).Balanced initialKrw := by
    intro n
    refine Simulation.balanced_simulate hp hkrw (fun row hrow => ?_) ?_
    · have hmem : row.toCandleRow ∈ df := by
        rw [← hrows]
        exact List.mem_map_of_mem (List.mem_of_mem_take hrow)
      exact (hdf.prices _ hmem).2.2.2
    · have horder : ((indicatorRows sqrt p df).map (·.ts)).Pairwise (· < ·) := by
        have hts := hdf.order
        rw [← hrows, List.map_map] at hts
        exact hts
      rw [List.map_take]
      exact horder.sublist (List.take_sublist n _)
  refine ⟨hbalanced, rfl, rfl, ?_⟩
  -- What the account gained is what was earned, up to the coins still held.
  have hfinal := (hbalanced (indicatorRows sqrt p df).length).balance
  have hall : after (indicatorRows sqrt p df).length = final := by
    show simulate p (List.take _ _) initialKrw = _
    rw [List.take_length]
  rw [hall] at hfinal
  show (summarize final).totalPnl = _
  rw [Simulation.summarize_totalPnl]
  linarith

/-! A fall is bought, and the next candle reaches the target. -/

/-- Windows of one candle. -/
def oneCandle : BacktestParams ℚ :=
  { BacktestParams.default ℚ with
    rsiLength := 1
    trendLookWindow := 1
    maxTrendStrength := 1
    volatilityWindow := 1
    minVolatility := 0 }

def rebound : List (CandleRow ℚ) :=
  [⟨0, 100, 100, 100, 100⟩, ⟨60, 100, 100, 90, 90⟩, ⟨120, 90, 200, 90, 200⟩]

theorem payable_oneCandle : oneCandle.Payable where
  minNotionalKrw := by decide +kernel
  reserveMargin := by decide +kernel
  feeRate := by decide +kernel
  slippageRate := by decide +kernel
  utilization := by decide +kernel
  afford := by decide +kernel
  stopLossPct := by decide +kernel
  profitTargetPct := by decide +kernel

theorem quoted_rebound : Quoted rebound where
  prices := by decide +kernel
  order := by decide

theorem accounting_rebound :
    let final := simulate oneCandle (indicatorRows id oneCandle rebound) 10000
    final.trades.length = 1 ∧
      (runBacktest id oneCandle rebound 10000).summary.totalPnl =
        final.krw - 10000 + final.openCost :=
  ⟨by decide +kernel,
    (accounting id payable_oneCandle quoted_rebound (by decide +kernel : (0 : ℚ) ≤ 10000)).2.2.2⟩

end CoinBot.Backtest
