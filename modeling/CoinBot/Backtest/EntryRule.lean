import CoinBot.Backtest.BatchIndicators
import CoinBot.Trading.StrategyState
import Mathlib.Data.Rat.Sqrt

/- The entry rule of the backtest and the one of the live strategy.

   `EntrySignal` states the rule over the closes so far: a trend that is not too strong,
   enough volatility, and an oversold RSI. A strategy that was given the candles one by one
   enters on it, and so does the backtest on the row of its data frame. The two sizes are
   the same formula; only the strategy asks for cash first. -/
namespace CoinBot.Backtest

variable {α : Type} [Field α] [LinearOrder α]

/-- The close `close` on top of `closes`, itself the last of them, calls for an entry. -/
structure EntrySignal (sqrt : α → α) (params : Params α) (closes : List α) (close : α) : Prop where
  trend : ∃ old, (closeAt params.trendLookWindow closes).asOptional = some old ∧
    |close - old| / old ≤ params.maxTrendStrength
  volatile : (volatilityAt sqrt params.volatilityWindow closes).ready = true
  volatility : params.minVolatility ≤ (volatilityAt sqrt params.volatilityWindow closes).v
  seeded : (rsiAt params.rsiLength closes).ready = true
  oversold : (rsiAt params.rsiLength closes).v ≤ params.oversold

theorem not_entrySignal {sqrt : α → α} {params : Params α} {closes : List α} {close : α}
    (hnone : (closeAt params.trendLookWindow closes).asOptional = none) :
    ¬ EntrySignal sqrt params closes close := by
  intro hsignal
  obtain ⟨old, hsome, -⟩ := hsignal.trend
  rw [hnone] at hsome
  cases hsome

theorem entrySignal_iff {sqrt : α → α} {params : Params α} {closes : List α} {close old : α}
    (hold : (closeAt params.trendLookWindow closes).asOptional = some old) :
    EntrySignal sqrt params closes close ↔
      |close - old| / old ≤ params.maxTrendStrength ∧
      ((volatilityAt sqrt params.volatilityWindow closes).ready = true ∧
        params.minVolatility ≤ (volatilityAt sqrt params.volatilityWindow closes).v) ∧
      (rsiAt params.rsiLength closes).ready = true ∧
        (rsiAt params.rsiLength closes).v ≤ params.oversold := by
  constructor
  · intro hsignal
    obtain ⟨old', hsome, htrend⟩ := hsignal.trend
    obtain rfl : old = old' := Option.some.inj (hold.symm.trans hsome)
    exact ⟨htrend, ⟨hsignal.volatile, hsignal.volatility⟩, hsignal.seeded, hsignal.oversold⟩
  · rintro ⟨htrend, ⟨hready, hvolatility⟩, hseeded, hoversold⟩
    exact
      { trend := ⟨old, hold, htrend⟩
        volatile := hready
        volatility := hvolatility
        seeded := hseeded
        oversold := hoversold }

omit [LinearOrder α] in
theorem closeAt_cases (n : Nat) (closes : List α) :
    closeAt n closes = .notReady ∨ ∃ old ∈ closes, closeAt n closes = { ready := true, v := old } := by
  rw [closeAt]
  cases hback : closes.reverse[n]? with
  | none => exact .inl rfl
  | some old => exact .inr ⟨old, List.mem_reverse.mp (List.mem_of_getElem? hback), rfl⟩

/-! The live strategy. -/

/-- A strategy that was given these candles, and took all of them while flat. -/
structure Fed (market : String) (params : Params α) (st : RsiMeanReversionStrategy α)
    (candles : List (Candle α)) : Prop where
  stamp : st.stamp = (market, params, candles.getLast?.map Candle.startTimestamp)
  flat : st.state = .flat
  rsiLength : st.rsi.length = params.rsiLength
  rsi : st.rsi.Follows (candles.map Candle.closePrice)
  closeLength : st.closeN.length = params.trendLookWindow
  closeN : st.closeN.Follows (candles.map Candle.closePrice)
  volLength : st.vol.length = params.volatilityWindow
  vol : st.vol.Follows (candles.map Candle.closePrice)

theorem fed_create (market : String) {params : Params α} (hwindow : 2 ≤ params.volatilityWindow) :
    Fed market params (RsiMeanReversionStrategy.create market params) [] where
  stamp := rfl
  flat := rfl
  rsiLength := rfl
  rsi := RsiWilder.follows_reset _
  closeLength := rfl
  closeN := ClosePriceWindow.follows_reset _
  volLength := if_neg (Nat.not_lt_of_le hwindow)
  vol := ChangeVolatilityIndicator.follows_reset _

/-- No cash and no coins. -/
def emptyAccount : AccountSnapshot α := { krwAvailable := 0, coinAvailable := 0 }

/-- The candles are given through `onCandle`, with an empty account. -/
def warmUp (env : StrategyEnv α) (st : RsiMeanReversionStrategy α) (candles : List (Candle α)) :
    RsiMeanReversionStrategy α :=
  candles.foldl (fun st c => (st.onCandle env c emptyAccount).2) st

/-- What a fresh strategy decides on the candle after these, with cash `krw` and no coins. -/
def liveDecision (env : StrategyEnv α) (market : String) (params : Params α)
    (before : List (Candle α)) (c : Candle α) (krw : α) : Decision α :=
  ((warmUp env (.create market params) before).onCandle env c
    { krwAvailable := krw, coinAvailable := 0 }).1

section
variable [IsStrictOrderedRing α]
variable {env : StrategyEnv α} {market : String} {params : Params α}
variable {st : RsiMeanReversionStrategy α} {candles : List (Candle α)} {c : Candle α}

theorem Fed.observe (h : Fed market params st candles) (env : StrategyEnv α) (c : Candle α)
    (hlen : 1 ≤ params.rsiLength)
    (hwindow : 1 ≤ params.volatilityWindow) (hpos : ∀ c ∈ candles, 0 < c.closePrice) :
    Fed market params (st.observe env c).2 (candles ++ [c]) ∧
      (st.observe env c).1.rsi = rsiAt params.rsiLength ((candles ++ [c]).map Candle.closePrice) ∧
      (st.observe env c).1.closeN =
        closeAt params.trendLookWindow ((candles ++ [c]).map Candle.closePrice) ∧
      (st.observe env c).1.volatility =
        volatilityAt env.sqrt params.volatilityWindow
          ((candles ++ [c]).map Candle.closePrice) := by
  have hne : ∀ x ∈ candles.map Candle.closePrice, x ≠ 0 := by
    intro x hx
    obtain ⟨d, hd, rfl⟩ := List.mem_map.mp hx
    exact (hpos d hd).ne'
  have hrsi := h.rsi.update (by rw [h.rsiLength]; exact hlen) c.closePrice
  have hclose := h.closeN.update c.closePrice
  have hvol := h.vol.update env.sqrt (by rw [h.volLength]; exact hwindow) hne c.closePrice
  rw [h.rsiLength] at hrsi
  rw [h.closeLength] at hclose
  rw [h.volLength] at hvol
  rw [List.map_append, List.map_singleton]
  refine ⟨?_, hrsi.1, hclose.1, hvol.1⟩
  exact
    { stamp := by
        rw [List.getLast?_concat]
        show (st.market, st.params, some c.startTimestamp) = _
        have hmarket : st.market = market := congrArg Prod.fst h.stamp
        have hparams : st.params = params := congrArg (fun stamp => stamp.2.1) h.stamp
        rw [hmarket, hparams]
        rfl
      flat := h.flat
      rsiLength := (RsiWilder.update_length _ _).trans h.rsiLength
      rsi := by
        rw [List.map_append, List.map_singleton]
        exact hrsi.2
      closeLength := h.closeLength
      closeN := by
        rw [List.map_append, List.map_singleton]
        exact hclose.2
      volLength := (ChangeVolatilityIndicator.update_length _ _ _).trans h.volLength
      vol := by
        rw [List.map_append, List.map_singleton]
        exact hvol.2 }

omit [IsStrictOrderedRing α] in
theorem Fed.onCandle (h : Fed market params st candles) (hmarket : c.market = market)
    (hnew : ∀ d ∈ candles, d.startTimestamp ≠ c.startTimestamp)
    (hmin : 0 < env.cfg.strategy.minNotionalKrw) (krw : α) :
    st.onCandle env c { krwAvailable := krw, coinAvailable := 0 } =
      (st.observe env c).2.maybeEnter env (st.observe env c).1
        { krwAvailable := krw, coinAvailable := 0 } := by
  have hfolds : st.folds c = true := by
    have hown : c.market = st.market := hmarket.trans (congrArg Prod.fst h.stamp).symm
    have hlast : st.lastCandleTs ≠ some c.startTimestamp := by
      rw [show st.lastCandleTs = _ from congrArg (fun stamp => stamp.2.2) h.stamp]
      intro heq
      obtain ⟨d, hd, hts⟩ := Option.map_eq_some_iff.mp heq
      exact hnew d (List.mem_of_getLast? hd) hts
    simp only [RsiMeanReversionStrategy.folds, hown, decide_true, Bool.true_and,
      decide_eq_true_eq]
    exact hlast
  have hflat : (st.observe env c).2.state = .flat := h.flat
  have hheal : (st.observe env c).2.selfHeal env c.closePrice
      { krwAvailable := krw, coinAvailable := 0 } = (st.observe env c).2 := by
    rcases (st.observe env c).2.selfHeal_cases env c.closePrice
      { krwAvailable := krw, coinAvailable := 0 } with hstay | ⟨-, hheld, -⟩ | ⟨hpos, -⟩
    · exact hstay
    · rw [zero_mul] at hheld
      exact absurd hheld (not_le.mpr hmin)
    · rw [hflat] at hpos
      cases hpos
  rw [RsiMeanReversionStrategy.onCandle_eq, hfolds, if_pos rfl, hheal,
    RsiMeanReversionStrategy.decideOn, hflat]

/-- Without cash the strategy stays flat. -/
theorem Fed.warm (h : Fed market params st candles) (hlen : 1 ≤ params.rsiLength)
    (hwindow : 1 ≤ params.volatilityWindow) (hpos : ∀ c ∈ candles, 0 < c.closePrice)
    (hmarket : c.market = market) (hnew : ∀ d ∈ candles, d.startTimestamp ≠ c.startTimestamp)
    (hmin : 0 < env.cfg.strategy.minNotionalKrw) :
    Fed market params (st.onCandle env c emptyAccount).2 (candles ++ [c]) := by
  have hdecide := h.onCandle hmarket hnew hmin 0
  have hstay : (st.observe env c).2.maybeEnter env (st.observe env c).1
      { krwAvailable := 0, coinAvailable := 0 } = (.noAction, (st.observe env c).2) := by
    rw [RsiMeanReversionStrategy.maybeEnter, if_pos (lt_irrefl _)]
  rw [emptyAccount, hdecide, hstay]
  exact (h.observe env c hlen hwindow hpos).1

/-- A strategy that is given more candles was given all of them. -/
theorem Fed.warmUp (h : Fed market params st candles) (hlen : 1 ≤ params.rsiLength)
    (hwindow : 1 ≤ params.volatilityWindow) (hmin : 0 < env.cfg.strategy.minNotionalKrw)
    {more : List (Candle α)} (hpos : ∀ c ∈ candles ++ more, 0 < c.closePrice)
    (hmarket : ∀ c ∈ more, c.market = market)
    (hdistinct : ((candles ++ more).map Candle.startTimestamp).Nodup) :
    Fed market params (warmUp env st more) (candles ++ more) := by
  induction more generalizing st candles with
  | nil =>
    rw [List.append_nil]
    exact h
  | cons c more ih =>
    have hsplit : candles ++ c :: more = (candles ++ [c]) ++ more := by simp
    have hnew : ∀ d ∈ candles, d.startTimestamp ≠ c.startTimestamp := by
      intro d hd
      rw [List.map_append, List.map_cons] at hdistinct
      exact (List.nodup_append.mp hdistinct).2.2 _ (List.mem_map_of_mem hd) _ List.mem_cons_self
    have hwarm := h.warm hlen hwindow
      (fun d hd => hpos d (List.mem_append_left _ hd)) (hmarket c List.mem_cons_self) hnew hmin
    rw [hsplit] at hpos hdistinct ⊢
    exact ih hwarm hpos (fun d hd => hmarket d (List.mem_cons_of_mem _ hd)) hdistinct

/-- The snapshot of the candle calls for an entry exactly on the signal. -/
theorem Fed.signal_iff (h : Fed market params st candles) (env : StrategyEnv α)
    (hlen : 1 ≤ params.rsiLength)
    (hwindow : 1 ≤ params.volatilityWindow) (hpos : ∀ c ∈ candles, 0 < c.closePrice)
    (hc : 0 < c.closePrice) :
    ((st.observe env c).1.marketOk = true ∧ (st.observe env c).1.rsi.v ≤ params.oversold) ↔
      EntrySignal env.sqrt params ((candles ++ [c]).map Candle.closePrice) c.closePrice := by
  obtain ⟨-, hrsi, hclose, hvol⟩ := h.observe env c hlen hwindow hpos
  have hparams : st.params = params := congrArg (fun stamp => stamp.2.1) h.stamp
  have hok : (st.observe env c).1.marketOk =
      (((st.observe env c).1.closeN.ready && decide ((st.observe env c).1.closeN.v ≠ 0)) &&
        decide ((if (st.observe env c).1.closeN.ready && decide ((st.observe env c).1.closeN.v ≠ 0)
          then |c.closePrice - (st.observe env c).1.closeN.v| / (st.observe env c).1.closeN.v
          else 0) ≤ st.params.maxTrendStrength) &&
        ((st.observe env c).1.volatility.ready &&
          decide (st.params.minVolatility ≤ (st.observe env c).1.volatility.v)) &&
        (st.observe env c).1.rsi.ready) := rfl
  rw [hok, hrsi, hclose, hvol, hparams]
  have hcloses : ∀ x ∈ (candles ++ [c]).map Candle.closePrice, 0 < x := by
    intro x hx
    obtain ⟨d, hd, rfl⟩ := List.mem_map.mp hx
    rcases List.mem_append.mp hd with hold | hlast
    · exact hpos d hold
    · rw [List.mem_singleton.mp hlast]
      exact hc
  generalize (candles ++ [c]).map Candle.closePrice = closes at hcloses
  rcases closeAt_cases params.trendLookWindow closes with hnone | ⟨old, hmem, hold⟩
  · rw [hnone]
    refine iff_of_false ?_ (not_entrySignal (by rw [hnone]; rfl))
    rintro ⟨hmarket, -⟩
    simp [Value.notReady] at hmarket
  · have hne : old ≠ 0 := (hcloses old hmem).ne'
    rw [hold, entrySignal_iff (by rw [hold]; rfl)]
    simp only [ne_eq, hne, not_false_eq_true, decide_true, Bool.and_self, if_true, Bool.true_and,
      Bool.and_eq_true, decide_eq_true_eq, and_assoc]

end

/-! The row of the data frame. -/

/-- The settings of the backtest, as the parameters of the strategy. -/
def BacktestParams.live (p : BacktestParams α) : Params α where
  rsiLength := p.rsiLength
  oversold := p.oversold
  overbought := p.overbought
  trendLookWindow := p.trendLookWindow
  maxTrendStrength := p.maxTrendStrength
  volatilityWindow := p.volatilityWindow
  minVolatility := p.minVolatility
  utilization := p.utilization
  stopLossPct := p.stopLossPct
  profitTargetPct := p.profitTargetPct

theorem indicatorRows_row (sqrt : α → α) (p : BacktestParams α) (df : List (CandleRow α)) {i : Nat}
    (hne : ∀ x ∈ df.map (·.close), x ≠ 0) (hwindow : 2 < p.volatilityWindow)
    {row : IndicatorRow α} (hrow : (indicatorRows sqrt p df)[i]? = some row) :
    df[i]? = some row.toCandleRow ∧
      (row.marketOk ∧ row.rsi.any (fun r => decide (r ≤ p.oversold)) ↔
        EntrySignal sqrt p.live ((df.map (·.close)).take (i + 1)) row.close) := by
  have hlen : i < df.length := by
    have hlt := (List.getElem?_eq_some_iff.mp hrow).1
    simpa [indicatorRows] using hlt
  have hcloses : i < (df.map (·.close)).length := by
    rw [List.length_map]
    exact hlen
  have hrsi := computeWilderRsi_row (df.map (·.close)) p.rsiLength hcloses
  have hvol := computeVolatility_row sqrt hne hwindow hcloses
  have htrend := computeTrendStrength_row (df.map (·.close)) p.trendLookWindow hcloses
  rw [indicatorRows, List.getElem?_mapIdx, List.getElem?_eq_getElem hlen, Option.map_some] at hrow
  obtain rfl := Option.some.inj hrow
  refine ⟨List.getElem?_eq_getElem hlen, ?_⟩
  dsimp only
  rw [hrsi.1, hrsi.2, hvol.1, hvol.2, htrend.1, htrend.2]
  rw [List.getElem_map]
  generalize (df.map (·.close)).take (i + 1) = closes
  have hany : ∀ v : Value α, v.asOptional.any (fun r => decide (r ≤ p.oversold)) = true ↔
      v.ready = true ∧ v.v ≤ p.oversold := by
    intro v
    rw [Value.asOptional]
    cases v.ready <;> simp
  rw [hany]
  simp only [Bool.and_eq_true, decide_eq_true_eq]
  -- A trend that is not ready is NaN in the column, and no entry on either side.
  cases hold : (closeAt p.trendLookWindow closes).asOptional with
  | none =>
    refine iff_of_false ?_ (not_entrySignal hold)
    rintro ⟨⟨⟨⟨⟨-, hready⟩, -⟩, -⟩, -⟩, -⟩
    cases hready
  | some old =>
    rw [entrySignal_iff hold]
    constructor
    · rintro ⟨⟨⟨⟨⟨hseeded, -⟩, htrend⟩, hready⟩, hvolatility⟩, -, hoversold⟩
      exact ⟨htrend, ⟨hready, hvolatility⟩, hseeded, hoversold⟩
    · rintro ⟨htrend, ⟨hready, hvolatility⟩, hseeded, hoversold⟩
      exact ⟨⟨⟨⟨⟨hseeded, rfl⟩, htrend⟩, hready⟩, hvolatility⟩, hseeded, hoversold⟩

/-! The two decisions. -/

/-- The strategy submits an order exactly on the signal, with cash, for enough of it. -/
theorem liveDecision_iff [IsStrictOrderedRing α] (env : StrategyEnv α) {market : String}
    (params : Params α) (before : List (Candle α)) {c : Candle α} (hlen : 1 ≤ params.rsiLength)
    (hwindow : 2 ≤ params.volatilityWindow) (hmin : 0 < env.cfg.strategy.minNotionalKrw)
    (hpos : ∀ d ∈ before ++ [c], 0 < d.closePrice) (hmarket : ∀ d ∈ before ++ [c], d.market = market)
    (hdistinct : ((before ++ [c]).map Candle.startTimestamp).Nodup) (krw : α) :
    ((∃ req, (liveDecision env market params before c krw).order = some req) ↔
      0 < krw ∧ EntrySignal env.sqrt params ((before ++ [c]).map Candle.closePrice) c.closePrice ∧
        env.cfg.strategy.minNotionalKrw ≤ krw / env.cfg.engine.reserveMargin * params.utilization) ∧
    ∀ req, (liveDecision env market params before c krw).order = some req →
      req.position = .bid ∧
        req.size = .amount (krw / env.cfg.engine.reserveMargin * params.utilization) := by
  have hold : ∀ d ∈ before, 0 < d.closePrice := fun d hd => hpos d (List.mem_append_left _ hd)
  have hc : c ∈ before ++ [c] := List.mem_append_right _ List.mem_cons_self
  -- The time stamps are distinct, so the indicators take every earlier candle once.
  have hfed : Fed market params (warmUp env (.create market params) before) before := by
    have hstart := fed_create market hwindow
    refine hstart.warmUp hlen (by omega) hmin hold ?_ ?_
    · exact fun d hd => hmarket d (List.mem_append_left _ hd)
    · rw [List.map_append] at hdistinct
      exact (List.nodup_append.mp hdistinct).1
  have hnew : ∀ d ∈ before, d.startTimestamp ≠ c.startTimestamp := by
    intro d hd
    rw [List.map_append] at hdistinct
    exact (List.nodup_append.mp hdistinct).2.2 _ (List.mem_map_of_mem hd) _ List.mem_cons_self
  have hsignal := hfed.signal_iff env hlen (by omega) hold (hpos c hc)
  have hparams : (warmUp env (.create market params) before).params = params :=
    congrArg (fun stamp => stamp.2.1) hfed.stamp
  rw [liveDecision, hfed.onCandle (hmarket c hc) hnew hmin]
  generalize warmUp env (.create market params) before = st at hsignal hparams
  have hparams' : (st.observe env c).2.params = params := hparams
  generalize (st.observe env c).2 = st' at hparams'
  generalize (st.observe env c).1 = snap at hsignal
  have hcases := st'.maybeEnter_cases env snap { krwAvailable := krw, coinAvailable := 0 }
  rw [hparams'] at hcases
  refine ⟨⟨?_, ?_⟩, ?_⟩
  · rintro ⟨req, hreq⟩
    rcases hcases with hnone | ⟨krwToUse, rfl, hkrw, hok, hrsi, henough, -, -⟩
    · rw [hnone] at hreq
      cases hreq
    · exact ⟨hkrw, hsignal.mp ⟨hok, hrsi⟩, henough⟩
  · rintro ⟨hkrw, hgo, henough⟩
    obtain ⟨hok, hrsi⟩ := hsignal.mpr hgo
    rw [← hparams'] at hrsi henough
    exact ⟨_, by rw [RsiMeanReversionStrategy.maybeEnter_submits hkrw hok hrsi hmin henough]; rfl⟩
  · intro req hreq
    rcases hcases with hnone | ⟨krwToUse, rfl, -, -, -, -, -, hsubmit⟩
    · rw [hnone] at hreq
      cases hreq
    · rw [hsubmit] at hreq
      obtain rfl := Option.some.inj hreq
      exact ⟨rfl, rfl⟩

/-- The row opens a position exactly on the signal, for enough cash. -/
theorem simulateRow_iff {p : BacktestParams α} {row : IndicatorRow α} {s : Simulation α}
    (hflat : s.state = .flat) {signal : Prop}
    (hsignal : row.marketOk ∧ row.rsi.any (fun r => decide (r ≤ p.oversold)) ↔ signal) :
    ((simulateRow p s row).state = .inPosition ↔
      signal ∧ p.minNotionalKrw ≤ entryKrw p s.krw) ∧
    ((simulateRow p s row).state = .inPosition → simulateRow p s row =
      recordEquity (openPosition p s row.ts row.close (entryKrw p s.krw)) row) := by
  have hstep : simulateRow p s row = recordEquity (entryStep p s row) row := by
    rw [simulateRow, hflat]
  have hstay : (recordEquity s row).state ≠ .inPosition := by
    show s.state ≠ _
    rw [hflat]
    exact State.noConfusion
  rw [hstep, entryStep]
  by_cases hgo : signal
  · rw [if_pos (hsignal.mpr hgo)]
    by_cases henough : p.minNotionalKrw ≤ entryKrw p s.krw
    · rw [if_pos henough]
      exact ⟨⟨fun _ => ⟨hgo, henough⟩, fun _ => rfl⟩, fun _ => rfl⟩
    · rw [if_neg henough]
      exact ⟨⟨fun h => absurd h hstay, fun h => absurd h.2 henough⟩, fun h => absurd h hstay⟩
  · rw [if_neg (fun h => hgo (hsignal.mp h))]
    exact ⟨⟨fun h => absurd h hstay, fun h => absurd h.1 hgo⟩, fun h => absurd h hstay⟩

/-! Both on one series. -/

/-- The settings of the live side have the values of the backtest's. -/
structure BacktestParams.SharedWith (p : BacktestParams α) (cfg : AppConfig α) : Prop where
  reserveMargin : cfg.engine.reserveMargin = p.reserveMargin
  minNotionalKrw : cfg.strategy.minNotionalKrw = p.minNotionalKrw

/-- A candle as a row of `load_candles`; `toDatetime` reads its start time. -/
def CandleRow.of (toDatetime : String → Int) (c : Candle α) : CandleRow α where
  ts := toDatetime c.startTimestamp
  openPrice := c.openPrice
  high := c.highPrice
  low := c.lowPrice
  close := c.closePrice

/-- The row opens a position exactly when the decision is a buy, for the amount of the order. -/
def SameEntry (p : BacktestParams α) (s : Simulation α) (row : IndicatorRow α) (d : Decision α) :
    Prop :=
  ((simulateRow p s row).state = .inPosition ↔ ∃ req, d.order = some req ∧ req.position = .bid) ∧
  ∀ req, d.order = some req → ∃ amount, req.size = .amount amount ∧ amount = entryKrw p s.krw ∧
    simulateRow p s row = recordEquity (openPosition p s row.ts row.close amount) row

theorem simulate_take_succ (p : BacktestParams α) {rows : List (IndicatorRow α)} {i : Nat}
    {row : IndicatorRow α} (hrow : rows[i]? = some row) (initialKrw : α) :
    simulate p (rows.take (i + 1)) initialKrw =
      simulateRow p (simulate p (rows.take i) initialKrw) row := by
  obtain ⟨hi, rfl⟩ := List.getElem?_eq_some_iff.mp hrow
  rw [simulate, simulate, ← List.take_concat_get' rows i hi, List.foldl_append, List.foldl_cons,
    List.foldl_nil]

/-- An amount that is enough takes cash, unless it is a negative share of negative cash. -/
theorem pos_of_enough [IsStrictOrderedRing α] {p : BacktestParams α} {krw : α}
    (hmin : 0 < p.minNotionalKrw) (hmargin : 0 < p.reserveMargin)
    (hsign : 0 ≤ krw ∨ 0 ≤ p.utilization) (henough : p.minNotionalKrw ≤ entryKrw p krw) :
    0 < krw := by
  have hamount : 0 < krw / p.reserveMargin * p.utilization := lt_of_lt_of_le hmin henough
  rcases hsign with hkrw | hshare
  · refine lt_of_le_of_ne hkrw ?_
    rintro rfl
    rw [zero_div, zero_mul] at hamount
    exact lt_irrefl _ hamount
  · have hquot : 0 < krw / p.reserveMargin := pos_of_mul_pos_left hamount hshare
    exact (div_pos_iff_of_pos_right hmargin).mp hquot

/-- The backtest enters where the strategy does, on every series and from every flat state of the
    loop, unless a negative share of negative cash is asked for. -/
theorem opens_iff_submits [IsStrictOrderedRing α] (env : StrategyEnv α) {p : BacktestParams α}
    (hshared : p.SharedWith env.cfg) (hlen : 1 ≤ p.rsiLength) (hwindow : 3 ≤ p.volatilityWindow)
    (hmin : 0 < p.minNotionalKrw) (hmargin : 0 < p.reserveMargin) (market : String)
    (toDatetime : String → Int) {candles : List (Candle α)}
    (hmarket : ∀ c ∈ candles, c.market = market) (hpos : ∀ c ∈ candles, 0 < c.closePrice)
    (hdistinct : (candles.map Candle.startTimestamp).Nodup) {i : Nat} {c : Candle α}
    {row : IndicatorRow α} (hc : candles[i]? = some c)
    (hrow : (indicatorRows env.sqrt p (candles.map (CandleRow.of toDatetime)))[i]? = some row) :
    (∀ s : Simulation α, s.state = .flat → 0 ≤ s.krw ∨ 0 ≤ p.utilization →
      SameEntry p s row (liveDecision env market p.live (candles.take i) c s.krw)) ∧
    ∀ initialKrw,
      simulate p ((indicatorRows env.sqrt p (candles.map (CandleRow.of toDatetime))).take (i + 1))
          initialKrw =
        simulateRow p
          (simulate p ((indicatorRows env.sqrt p (candles.map (CandleRow.of toDatetime))).take i)
            initialKrw) row := by
  refine ⟨?_, fun initialKrw => simulate_take_succ p hrow initialKrw⟩
  intro s hflat hsign
  obtain ⟨hi, hget⟩ := List.getElem?_eq_some_iff.mp hc
  have htake : candles.take i ++ [c] = candles.take (i + 1) := by
    rw [← hget]
    exact List.take_concat_get' candles i hi
  have hsub : ∀ d ∈ candles.take i ++ [c], d ∈ candles := by
    rw [htake]
    exact fun d hd => List.mem_of_mem_take hd
  have hcloses : (candles.map (CandleRow.of toDatetime)).map (·.close) =
      candles.map Candle.closePrice := by
    rw [List.map_map]
    rfl
  have hne : ∀ x ∈ (candles.map (CandleRow.of toDatetime)).map (·.close), x ≠ 0 := by
    rw [hcloses]
    intro x hx
    obtain ⟨d, hd, rfl⟩ := List.mem_map.mp hx
    exact (hpos d hd).ne'
  -- The row and the strategy are read through one signal, on the closes up to `i`.
  obtain ⟨hsame, hsignal⟩ := indicatorRows_row env.sqrt p _ hne hwindow hrow
  have hclose : row.close = c.closePrice := by
    rw [List.getElem?_map, hc] at hsame
    have hrowOf := Option.some.inj hsame
    rw [← hrowOf]
    rfl
  rw [hcloses, ← List.map_take, ← htake, hclose] at hsignal
  have hlive := liveDecision_iff env p.live (candles.take i) hlen (Nat.le_of_succ_le hwindow)
    (by rw [hshared.minNotionalKrw]; exact hmin) (fun d hd => hpos d (hsub d hd))
    (fun d hd => hmarket d (hsub d hd))
    (by
      rw [htake, List.map_take]
      exact hdistinct.sublist (List.take_sublist _ _)) s.krw
  rw [hshared.minNotionalKrw, hshared.reserveMargin] at hlive
  obtain ⟨hsubmits, hreq⟩ := hlive
  obtain ⟨hopens, hopened⟩ := simulateRow_iff hflat hsignal
  -- Only the sign of the cash is asked for by the strategy alone.
  have hboth : (simulateRow p s row).state = .inPosition ↔
      ∃ req, (liveDecision env market p.live (candles.take i) c s.krw).order = some req := by
    rw [hopens, hsubmits]
    constructor
    · rintro ⟨hgo, henough⟩
      exact ⟨pos_of_enough hmin hmargin hsign henough, hgo, henough⟩
    · rintro ⟨-, hgo, henough⟩
      exact ⟨hgo, henough⟩
  refine ⟨?_, ?_⟩
  · rw [hboth]
    constructor
    · rintro ⟨req, hsome⟩
      exact ⟨req, hsome, (hreq req hsome).1⟩
    · rintro ⟨req, hsome, -⟩
      exact ⟨req, hsome⟩
  · intro req hsome
    exact ⟨_, (hreq req hsome).2, rfl, hopened (hboth.mpr ⟨req, hsome⟩)⟩

/-! A falling price, with a deviation that is a square root in ℚ. -/

def candleAt (startTimestamp : String) (price : ℚ) : Candle ℚ :=
  { market := "KRW-BTC", openPrice := price, highPrice := price, lowPrice := price,
    closePrice := price, volume := 1, startTimestamp := startTimestamp }

def falling : List (Candle ℚ) :=
  [candleAt "00:00" 64, candleAt "00:15" 32, candleAt "00:30" 16, candleAt "00:45" 12,
    candleAt "01:00" 9]

def shortWindows (utilization : ℚ) : BacktestParams ℚ :=
  { BacktestParams.default ℚ with
    rsiLength := 2
    trendLookWindow := 1
    maxTrendStrength := 1
    volatilityWindow := 4
    minVolatility := 1 / 10
    utilization := utilization }

def rootEnv : StrategyEnv ℚ := { cfg := .standard ℚ, sqrt := Rat.sqrt, uuid := toString }

def fallingRows (utilization : ℚ) : List (IndicatorRow ℚ) :=
  indicatorRows rootEnv.sqrt (shortWindows utilization) (falling.map (CandleRow.of (fun _ => 0)))

/-- The backtest before the last candle. -/
def beforeLast (utilization initialKrw : ℚ) : Simulation ℚ :=
  simulate (shortWindows utilization) ((fallingRows utilization).take 4) initialKrw

theorem falling_pos : ∀ c ∈ falling, 0 < c.closePrice := by decide +kernel

theorem falling_distinct : (falling.map Candle.startTimestamp).Nodup := by decide

theorem falling_market : ∀ c ∈ falling, c.market = "KRW-BTC" := by decide

theorem length_fallingRows (utilization : ℚ) : (fallingRows utilization).length = 5 := by
  rw [fallingRows, indicatorRows]
  simp [falling]

theorem opens_iff_submits_falling :
    ∃ row, (fallingRows 1)[4]? = some row ∧
      SameEntry (shortWindows 1) (beforeLast 1 10010) row
        (liveDecision rootEnv "KRW-BTC" (shortWindows 1).live (falling.take 4) (candleAt "01:00" 9)
          (beforeLast 1 10010).krw) ∧
      (simulateRow (shortWindows 1) (beforeLast 1 10010) row).state = .inPosition := by
  have hrow : (fallingRows 1)[4]? = some _ :=
    List.getElem?_eq_getElem (by rw [length_fallingRows]; decide)
  refine ⟨_, hrow, ?_, by decide +kernel⟩
  refine (opens_iff_submits rootEnv ⟨rfl, rfl⟩ (by decide) (by decide) (by decide +kernel)
    (by decide +kernel) "KRW-BTC" (fun _ => 0) falling_market falling_pos falling_distinct
    (by rfl) hrow).1 _ ?_ ?_
  · decide +kernel
  · exact .inr (by decide +kernel)

/-- A share of −1 of −10010 won is enough for the backtest; the strategy has no cash. -/
theorem not_opens_iff_submits :
    ¬ ∀ (env : StrategyEnv ℚ) (p : BacktestParams ℚ), p.SharedWith env.cfg → 1 ≤ p.rsiLength →
      3 ≤ p.volatilityWindow → 0 < p.minNotionalKrw → 0 < p.reserveMargin →
      ∀ (market : String) (toDatetime : String → Int) (candles : List (Candle ℚ)),
        (∀ c ∈ candles, c.market = market) → (∀ c ∈ candles, 0 < c.closePrice) →
        (candles.map Candle.startTimestamp).Nodup → ∀ (i : Nat) (c : Candle ℚ)
        (row : IndicatorRow ℚ), candles[i]? = some c →
        (indicatorRows env.sqrt p (candles.map (CandleRow.of toDatetime)))[i]? = some row →
        ∀ s : Simulation ℚ, s.state = .flat →
          SameEntry p s row (liveDecision env market p.live (candles.take i) c s.krw) := by
  intro hclaim
  have hrow : (fallingRows (-1))[4]? = some _ :=
    List.getElem?_eq_getElem (by rw [length_fallingRows]; decide)
  have hsame := hclaim rootEnv (shortWindows (-1)) ⟨rfl, rfl⟩ (by decide) (by decide)
    (by decide +kernel) (by decide +kernel) "KRW-BTC" (fun _ => 0) falling falling_market
    falling_pos falling_distinct 4 (candleAt "01:00" 9) _ (by rfl) hrow (beforeLast (-1) (-10010))
    (by decide +kernel)
  obtain ⟨req, hreq, -⟩ := hsame.1.mp (by decide +kernel)
  have hnone : (liveDecision rootEnv "KRW-BTC" (shortWindows (-1)).live (falling.take 4)
      (candleAt "01:00" 9) (beforeLast (-1) (-10010)).krw).order.isNone = true := by decide +kernel
  rw [hreq] at hnone
  cases hnone

end CoinBot.Backtest
