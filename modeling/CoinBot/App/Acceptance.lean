import CoinBot.App.Reconnect
import CoinBot.App.Rollback
import Mathlib.Tactic.FieldSimp

/- Every order of the strategy reaches the exchange.

   The strategy sizes its orders from the snapshot of its budget, and the engine checks the
   request, its own orders and the budget again before it asks the exchange. The two agree:
   a strategy that decides has no order out (`Synced`), and the amount of a buy, reserved with
   the margin it was divided by, is within what is available. -/
namespace CoinBot

theorem AccountManager.reserve_covered {mgr : AccountManager} {m : String} {b : MarketBudget}
    {krw : Amount} (hb : mgr.getBudget m = some b) (hpos : 0 < krw) (hle : krw ≤ b.availableKrw) :
    ∃ token, (mgr.reserve m krw).1 = some token := by
  unfold reserve
  simp only [hb, not_le.mpr hpos, if_neg (not_lt.mpr hle)]
  exact ⟨_, rfl⟩

namespace MarketEngine

/-- The engine takes the request, and only the exchange can refuse it. -/
structure Accepts (cfg : AppConfig ℚ) (e : MarketEngine) (req : OrderRequest ℚ) : Prop where
  valid : validateRequest req = none
  market : req.market = e.market
  noBuy : e.activeBuyToken = none
  noSell : e.activeSellOrderUuid = ""
  reserved : req.position = .bid →
    ∃ token, (e.accountMgr.reserve e.market (computeReserveAmount cfg req)).1 = some token
  reachesPost : (e.beforePost cfg req).1 = none
  refusal : ∀ {σ : Type} (postOrder : OrderRequest ℚ → σ → Except RestError String × σ) (s : σ),
    (e.submit cfg postOrder req s).1.1.success = false → ∃ err, (postOrder req s).1 = .error err

variable {cfg : AppConfig ℚ} {e : MarketEngine} {req : OrderRequest ℚ}

theorem accepts_of_checks (hvalid : validateRequest req = none) (hmarket : req.market = e.market)
    (hbuy : e.activeBuyToken = none) (hsell : e.activeSellOrderUuid = "")
    (hreserved : req.position = .bid →
      ∃ token, (e.accountMgr.reserve e.market (computeReserveAmount cfg req)).1 = some token) :
    e.Accepts cfg req := by
  have hreaches : (e.beforePost cfg req).1 = none := by
    unfold beforePost
    simp only [hvalid, hmarket, ne_eq, not_true_eq_false, if_false]
    cases hpos : req.position with
    | bid =>
      obtain ⟨token, htoken⟩ := hreserved hpos
      simp only [hbuy, hsell, Option.isSome_none, Bool.false_eq_true, not_true_eq_false, if_false]
      generalize e.accountMgr.reserve e.market (computeReserveAmount cfg req) = reservation at htoken
      obtain ⟨found, mgr⟩ := reservation
      obtain rfl : found = some token := htoken
      rfl
    | ask =>
      simp only [hbuy, hsell, Option.isSome_none, Bool.false_eq_true, not_true_eq_false, if_false]
  refine ⟨hvalid, hmarket, hbuy, hsell, hreserved, hreaches, fun postOrder s hfailed => ?_⟩
  unfold submit at hfailed
  generalize e.beforePost cfg req = before at hreaches hfailed
  obtain ⟨result, e'⟩ := before
  obtain rfl : result = none := hreaches
  unfold afterPost at hfailed
  cases hreply : (postOrder req s).1 with
  | error err => exact ⟨err, rfl⟩
  | ok uuid =>
    simp only [hreply] at hfailed
    cases hfailed

theorem market_call (cfg : AppConfig ℚ) (e : MarketEngine) (c : EngineCall) :
    (e.call cfg c).market = e.market := by
  cases c with
  | submit req reply =>
    show (e.submitReply cfg req reply).2.market = e.market
    unfold submitReply submit
    rcases e.beforePost_cases cfg req with ⟨code, message, hfail⟩ | ⟨message, hfail⟩ |
      ⟨-, -, hpos, -, -, token, mgr, -, hok⟩ | ⟨-, -, hpos, -, -, hok⟩
    · rw [hfail]
    · rw [hfail]
    · rw [hok]
      unfold afterPost
      cases reply with
      | error err => simp only [hpos, releaseBuyToken]
      | ok uuid => simp only [hpos]
    · rw [hok]
      unfold afterPost
      cases reply with
      | error err => simp only [hpos]
      | ok uuid => simp only [hpos]
  | message msg =>
    cases msg with
    | trade t => exact (e.onMyTrade_frame cfg t).1
    | snapshot s => exact e.market_onOrderSnapshot cfg s
    | reconcile s =>
      show (e.reconcileFromSnapshot cfg s).2.market = e.market
      rcases e.reconcileFromSnapshot_cases cfg s with hskip | ⟨prev, settled, -, -, hdelta, heq⟩
      · rw [hskip]
      · rw [heq]
        exact (market_onOrderSnapshot cfg settled s).trans (onlySettles_settleDelta hdelta).market
  | setMarkPrice p => rfl
  | pollEvents => rfl

end MarketEngine

namespace RsiMeanReversionStrategy

variable {α : Type} [Field α] [LinearOrder α] {st : RsiMeanReversionStrategy α}

/-- A market order of the strategy's market: a buy of the share of the KRW that the settings give,
    or a sell of all coins. -/
structure Sized (env : StrategyEnv α) (st : RsiMeanReversionStrategy α)
    (account : AccountSnapshot α) (req : OrderRequest α) : Prop where
  market : req.market = st.market
  type : req.type = .market
  price : req.price = none
  size :
    (req.position = .bid ∧ ∃ krwToUse, req.size = .amount krwToUse ∧
      krwToUse = account.krwAvailable / env.cfg.engine.reserveMargin * st.params.utilization ∧
      0 < account.krwAvailable ∧ 0 < krwToUse) ∨
    (req.position = .ask ∧ req.size = .volume account.coinAvailable ∧ 0 < account.coinAvailable)

theorem sized_decideOn (env : StrategyEnv α) (s : Snapshot α) (account : AccountSnapshot α)
    {req : OrderRequest α} (horder : (st.decideOn env s account).1.order = some req) :
    st.Sized env account req := by
  unfold decideOn at horder
  cases hstate : st.state with
  | flat =>
    simp only [hstate] at horder
    rcases st.maybeEnter_cases env s account with hskip | ⟨krwToUse, hkrw, hpos, -, -, -, huse, hsubmit⟩
    · rw [hskip] at horder
      cases horder
    · rw [hsubmit] at horder
      obtain rfl := Option.some.inj horder
      exact ⟨rfl, rfl, rfl, .inl ⟨rfl, krwToUse, rfl, hkrw, hpos, huse⟩⟩
  | inPosition =>
    simp only [hstate] at horder
    rcases st.maybeExit_cases env s account with ⟨seq, hskip⟩ | ⟨_, _, _, hexit, hsubmit⟩
    · rw [hskip] at horder
      cases horder
    · rw [hsubmit] at horder
      obtain rfl := Option.some.inj horder
      exact ⟨rfl, rfl, rfl, .inr ⟨rfl, rfl, hexit.coin_pos⟩⟩
  | pendingEntry | pendingExit =>
    simp only [hstate] at horder
    cases horder

theorem sized_onCandle (env : StrategyEnv α) (c : Candle α) (account : AccountSnapshot α)
    {req : OrderRequest α} (horder : (st.onCandle env c account).1.order = some req) :
    st.Sized env account req := by
  rcases st.onCandle_cases env c account with hskip | ⟨-, heq⟩
  · rw [hskip] at horder
    cases horder
  · rw [heq] at horder
    obtain ⟨hmarket, htype, hprice, hsize⟩ := sized_decideOn env _ account horder
    have hstamp := stamp_selfHeal env (st.observe env c).2 c.closePrice account
    have hparams : ((st.observe env c).2.selfHeal env c.closePrice account).params = st.params :=
      congrArg (fun stamp => stamp.2.1) hstamp
    rw [hparams] at hsize
    exact ⟨hmarket.trans (congrArg Prod.fst hstamp), htype, hprice, hsize⟩

theorem sized_onIntrabarCandle (env : StrategyEnv α) (close : α) (account : AccountSnapshot α)
    {req : OrderRequest α} (horder : (st.onIntrabarCandle env close account).1.order = some req) :
    st.Sized env account req := by
  rcases st.onIntrabarCandle_cases env close account with hskip | ⟨_, _, -, hexit, hsubmit⟩
  · rw [hskip] at horder
    cases horder
  · rw [hsubmit] at horder
    obtain rfl := Option.some.inj horder
    exact ⟨rfl, rfl, rfl, .inr ⟨rfl, rfl, hexit.coin_pos⟩⟩

end RsiMeanReversionStrategy

theorem RsiMeanReversionStrategy.Sized.valid {env : StrategyEnv ℚ} {st : RsiMeanReversionStrategy ℚ}
    {account : AccountSnapshot ℚ} {req : OrderRequest ℚ} (h : st.Sized env account req)
    (hmarket : st.market ≠ "") : MarketEngine.validateRequest req = none := by
  have hne : req.market ≠ "" := h.market ▸ hmarket
  unfold MarketEngine.validateRequest
  rcases h.size with ⟨hpos, krwToUse, hsize, -, -, huse⟩ | ⟨hpos, hsize, hcoin⟩
  · simp only [hne, h.type, h.price, hpos, hsize, if_false, not_le.mpr huse]
  · simp only [hne, h.type, h.price, hpos, hsize, if_false, not_le.mpr hcoin]

/-- What is reserved for a buy is what the settings let the strategy use of its KRW. -/
theorem RsiMeanReversionStrategy.Sized.reserveAmount {env : StrategyEnv ℚ} {st : RsiMeanReversionStrategy ℚ}
    {account : AccountSnapshot ℚ} {req : OrderRequest ℚ} (h : st.Sized env account req)
    (hbid : req.position = .bid) (hmargin : 0 < env.cfg.engine.reserveMargin) :
    0 < account.krwAvailable ∧ 0 < MarketEngine.computeReserveAmount env.cfg req ∧
      MarketEngine.computeReserveAmount env.cfg req =
        account.krwAvailable * st.params.utilization := by
  rcases h.size with ⟨-, krwToUse, hsize, hkrw, havailable, huse⟩ | ⟨hask, -⟩
  · have hamount : MarketEngine.computeReserveAmount env.cfg req =
        krwToUse * env.cfg.engine.reserveMargin := by
      unfold MarketEngine.computeReserveAmount
      rw [hsize]
    refine ⟨havailable, hamount ▸ mul_pos huse hmargin, ?_⟩
    calc MarketEngine.computeReserveAmount env.cfg req
        = krwToUse * env.cfg.engine.reserveMargin := hamount
      _ = account.krwAvailable / env.cfg.engine.reserveMargin * st.params.utilization *
            env.cfg.engine.reserveMargin := by rw [hkrw]
      _ = account.krwAvailable * st.params.utilization := by field_simp
  · rw [hbid] at hask
    cases hask

namespace MarketContext

variable {σ : Type} {env : ManagerEnv σ} {sides : σ → String → Option OrderPosition}

/-- A message that a worker step takes about an order of the exchange has its side. -/
def TrueStep (sides : σ → String → Option OrderPosition) (state : MarketContext × σ) :
    ContextStep → Prop
  | .worker a => TrueSide sides state a
  | .action _ => True

theorem synced_contextStep (hapi : KeepsSides env.api sides) (state : MarketContext × σ)
    (a : ContextStep) (h : Synced sides state) (htrue : TrueStep sides state a) :
    Synced sides (contextStep env state a) := by
  cases a with
  | worker a => exact synced_step hapi state a h htrue
  | action m =>
    cases m with
    | hold incoming => exact h.frame rfl rfl
    | confirm candle liveUnit => exact Synced.confirmCandle hapi h candle liveUnit
    | check close => exact Synced.doIntrabarCheck hapi h close

/-- A strategy that decides on an order finds the engine without one. -/
theorem Synced.free {ctx : MarketContext} {s : σ} (h : Synced sides (ctx, s)) {d : Decision ℚ}
    {st : RsiMeanReversionStrategy ℚ} {req : OrderRequest ℚ} (hd : ctx.strategy.Decides d st)
    (horder : d.order = some req) :
    ctx.engine.activeBuyToken = none ∧ ctx.engine.activeSellOrderUuid = "" := by
  unfold RsiMeanReversionStrategy.Decides at hd
  rw [horder] at hd
  have hno : ctx.engine.NoOrder := by
    rcases h.linked with ⟨-, -, hno⟩ | ⟨side, cid, hstate, -, -, -⟩
    · exact hno
    · have hidle := hd.1
      have hstate : ctx.strategy.state = .pending side := hstate
      rw [hstate, StrategyState.isIdle_pending] at hidle
      cases hidle
  refine ⟨?_, hno.1 .ask⟩
  rw [← Option.not_isSome_iff_eq_none, h.own.1.token_iff]
  exact not_not.mpr (hno.1 .bid)

/-- The three parts of a context are those of one market, and the strategy keeps its settings. -/
structure Home (market : String) (params : Params ℚ) (ctx : MarketContext) : Prop where
  context : ctx.market = market
  engine : ctx.engine.market = market
  strategy : ctx.strategy.market = market
  params : ctx.strategy.params = params

theorem Advances.home {ctx ctx' : MarketContext} (h : Advances env ctx ctx') {market : String}
    {params : Params ℚ} (hhome : Home market params ctx) : Home market params ctx' := by
  refine ⟨h.market.trans hhome.context, ?_, ?_, ?_⟩
  · exact h.engine_keeps (P := fun e => e.market = market)
      (fun e c he => (MarketEngine.market_call env.cfg e c).trans he) hhome.engine
  · exact h.strategy_keeps (P := fun st => st.market = market)
      (fun st c hst => (st.params_step env.strategy c).1.trans hst) hhome.strategy
  · exact h.strategy_keeps (P := fun st => st.params = params)
      (fun st c hst => (st.params_step env.strategy c).2.trans hst) hhome.params

theorem home_create (market : String) (mgr : AccountManager) (params : Params ℚ)
    (pos : PositionSnapshot ℚ) (db : Option Database) :
    Home market params (create market mgr params pos db) := by
  have hstamp := (RsiMeanReversionStrategy.create market params).stamp_syncOnStart pos
  exact ⟨rfl, rfl, congrArg Prod.fst hstamp, congrArg (fun stamp => stamp.2.1) hstamp⟩

theorem Synced.accepts {ctx : MarketContext} {s : σ} (h : Synced sides (ctx, s)) {market : String}
    {params : Params ℚ} (hhome : Home market params ctx) (hmarket : market ≠ "")
    (hmargin : 0 < env.cfg.engine.reserveMargin) (hutil : params.utilization ≤ 1)
    {d : Decision ℚ} {st : RsiMeanReversionStrategy ℚ} {req : OrderRequest ℚ}
    (hd : ctx.strategy.Decides d st) (horder : d.order = some req)
    (hsized : ctx.strategy.Sized env.strategy ctx.buildAccountSnapshot_ req) (mark : Price) :
    (ctx.engine.setMarkPrice mark).Accepts env.cfg req := by
  obtain ⟨hbuy, hsell⟩ := h.free hd horder
  refine MarketEngine.accepts_of_checks (hsized.valid (hhome.strategy ▸ hmarket)) ?_ hbuy hsell ?_
  · exact hsized.market.trans (hhome.strategy.trans hhome.engine.symm)
  · intro hbid
    obtain ⟨havailable, hpos, hamount⟩ := hsized.reserveAmount hbid hmargin
    -- The KRW of the snapshot is that of the budget the engine reserves from.
    have hbudget : ∃ b, ctx.engine.accountMgr.getBudget ctx.engine.market = some b ∧
        ctx.buildAccountSnapshot_.krwAvailable = b.availableKrw := by
      rw [hhome.engine, ← hhome.context]
      unfold buildAccountSnapshot_ at havailable ⊢
      cases hb : ctx.engine.accountMgr.getBudget ctx.market with
      | none =>
        rw [hb] at havailable
        exact absurd havailable (lt_irrefl 0)
      | some b => exact ⟨b, rfl, rfl⟩
    obtain ⟨b, hb, hkrw⟩ := hbudget
    have hle : MarketEngine.computeReserveAmount env.cfg req ≤ b.availableKrw := by
      calc MarketEngine.computeReserveAmount env.cfg req
          = ctx.buildAccountSnapshot_.krwAvailable * ctx.strategy.params.utilization := hamount
        _ ≤ ctx.buildAccountSnapshot_.krwAvailable * 1 :=
            mul_le_mul_of_nonneg_left (hhome.params ▸ hutil) havailable.le
        _ = b.availableKrw := by rw [mul_one, hkrw]
    exact AccountManager.reserve_covered hb hpos hle

/-- **Every order of the strategy is acceptable.** In every state that a new context reaches, an
    order that `onCandle` or `onIntrabarCandle` returns on the snapshot of that state passes every
    check of `submit`: it can only fail because the exchange refuses it. The exchange and its
    messages keep the side of an order, as long as it has it. -/
theorem decision_accepted (env : ManagerEnv σ) {sides : σ → String → Option OrderPosition}
    (hapi : KeepsSides env.api sides) {market : String} (hmarket : market ≠ "")
    (mgr : AccountManager) (account : Account) {params : Params ℚ}
    (hutil : params.utilization ≤ 1) (hmargin : 0 < env.cfg.engine.reserveMargin)
    (pos : PositionSnapshot ℚ) (db : Option Database) (s : σ) (steps : List ContextStep)
    (hsteps : Machine.Guarded (contextStep env) (TrueStep sides)
      (create market (mgr.rebuildFromAccount env.cfg.account account) params pos db, s) steps) :
    let ctx := (Machine.run (contextStep env)
      (create market (mgr.rebuildFromAccount env.cfg.account account) params pos db, s) steps).1
    (∀ (c : Candle ℚ) (req : OrderRequest ℚ) (mark : Price),
        (ctx.strategy.onCandle env.strategy c ctx.buildAccountSnapshot_).1.order = some req →
        (ctx.engine.setMarkPrice mark).Accepts env.cfg req) ∧
      ∀ (close : Price) (req : OrderRequest ℚ) (mark : Price),
        (ctx.strategy.onIntrabarCandle env.strategy close ctx.buildAccountSnapshot_).1.order =
          some req →
        (ctx.engine.setMarkPrice mark).Accepts env.cfg req := by
  intro ctx
  have hsynced : Synced sides (Machine.run (contextStep env)
      (create market (mgr.rebuildFromAccount env.cfg.account account) params pos db, s) steps) :=
    (Machine.always_of_guarded (synced_contextStep hapi)
      (synced_create env.cfg.account market mgr account params pos db s) hsteps).last
  have hhome : Home market params ctx := (advances_run env _ steps).home
    (home_create market (mgr.rebuildFromAccount env.cfg.account account) params pos db)
  -- A candle and an intrabar check decide on orders of the same kind.
  constructor
  · intro c req mark horder
    exact hsynced.accepts hhome hmarket hmargin hutil
      (RsiMeanReversionStrategy.decides_onCandle env.strategy ctx.strategy c _) horder
      (RsiMeanReversionStrategy.sized_onCandle env.strategy c _ horder) mark
  · intro close req mark horder
    exact hsynced.accepts hhome hmarket hmargin hutil
      (RsiMeanReversionStrategy.decides_onIntrabarCandle env.strategy ctx.strategy close _) horder
      (RsiMeanReversionStrategy.sized_onIntrabarCandle env.strategy close _ horder) mark

/-- The sale of a position at its stop, and an entry after a fall of the price. -/
theorem decision_accepted_both :
    (positionContext.engine.setMarkPrice 800).Accepts oneOrderEnv.cfg stopRequest ∧
      let ctx := (Machine.run (contextStep oneOrderEnv) (cashContext, none) fallingSteps).1
      (ctx.strategy.onCandle oneOrderEnv.strategy (priceAt "3" 980)
          ctx.buildAccountSnapshot_).1.order = some entryRequest ∧
        (ctx.engine.setMarkPrice 980).Accepts oneOrderEnv.cfg entryRequest := by
  constructor
  · exact (decision_accepted oneOrderEnv keepsSides_oneOrderApi (by decide)
      { budgets := AList.singleton "KRW-BTC" { market := "KRW-BTC" } }
      { positions := [⟨"BTC", 10, 1000, "KRW"⟩] } (by decide +kernel) (by decide +kernel)
      ⟨10, 1000⟩ none none [] trivial).2 800 stopRequest 800 (by decide +kernel)
  · intro ctx
    have hentry : (ctx.strategy.onCandle oneOrderEnv.strategy (priceAt "3" 980)
        ctx.buildAccountSnapshot_).1.order = some entryRequest := by decide +kernel
    exact ⟨hentry, (decision_accepted oneOrderEnv keepsSides_oneOrderApi (by decide)
      { budgets := AList.singleton "KRW-BTC" { market := "KRW-BTC" } } { krwFree := 10000 }
      (by decide +kernel) (by decide +kernel) ⟨0, 0⟩ none none fallingSteps
      ⟨trivial, trivial, trivial, trivial⟩).1 (priceAt "3" 980) entryRequest 980 hentry⟩

end MarketContext
end CoinBot
