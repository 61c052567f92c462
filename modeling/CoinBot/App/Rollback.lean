import CoinBot.App.Advances

/- A submission that fails leaves no trace.

   The order was decided before: the strategy waits already, and the engine may have
   reserved KRW and taken a token when the exchange refuses. The engine gives the
   reservation back and the strategy returns to the state it decided in. That nothing else
   is lost on the way rests on two invariants: without a token there is no buy uuid and no
   reserve is negative (`Steady`), and an idle strategy has nothing left of an order
   (`Waits`). -/
namespace CoinBot

/-- The amounts of a budget. -/
def MarketBudget.amounts (b : MarketBudget) : ℚ × ℚ × ℚ × ℚ :=
  (b.availableKrw, b.reservedKrw, b.coinBalance, b.avgEntryPrice)

namespace MarketEngine

/-- Without a token there is no active buy, and no reserve is negative. -/
structure Steady (e : MarketEngine) : Prop where
  token : e.activeBuyToken = none → e.activeBuyOrderUuid = ""
  reserved : ∀ m, e.accountMgr.Meets (fun b => 0 ≤ b.reservedKrw) m

/-- The token, the active uuids, the store, the queue and every market's amounts are the same. -/
structure SameOrders (e e' : MarketEngine) : Prop where
  token : e'.activeBuyToken = e.activeBuyToken
  buy : e'.activeBuyOrderUuid = e.activeBuyOrderUuid
  sell : e'.activeSellOrderUuid = e.activeSellOrderUuid
  store : e'.store = e.store
  events : e'.events = e.events
  amounts : ∀ m, (e'.accountMgr.getBudget m).map MarketBudget.amounts =
    (e.accountMgr.getBudget m).map MarketBudget.amounts

variable {cfg : AppConfig ℚ} {e : MarketEngine}

theorem token_settleBuy (h : e.activeBuyToken = none → e.activeBuyOrderUuid = "") (id : String)
    (krw coin price : ℚ) :
    (e.settleBuy id krw coin price).activeBuyToken = none →
      (e.settleBuy id krw coin price).activeBuyOrderUuid = "" := by
  rcases e.settleBuy_cases id krw coin price with hskip | ⟨token, -, -, heq⟩
  · rw [hskip]
    exact h
  · rw [heq]
    intro hnone
    cases hnone

theorem token_settleTrade (h : e.activeBuyToken = none → e.activeBuyOrderUuid = "") (t : MyTrade) :
    (e.settleTrade t).activeBuyToken = none → (e.settleTrade t).activeBuyOrderUuid = "" := by
  unfold settleTrade
  cases t.side with
  | bid => exact token_settleBuy h _ _ _ _
  | ask => exact h

theorem token_settleClose (h : e.activeBuyToken = none → e.activeBuyOrderUuid = "") (o : Order) :
    (e.settleClose cfg o).activeBuyToken = none →
      (e.settleClose cfg o).activeBuyOrderUuid = "" := by
  unfold settleClose finalizeBuyToken_ finalizeSell
  cases o.position with
  | bid =>
    simp only
    split
    · split
      · exact h
      · split
        · exact h
        · exact fun _ => rfl
    · exact h
  | ask =>
    simp only
    split
    · exact h
    · exact h

theorem token_onOrderSnapshot (h : e.activeBuyToken = none → e.activeBuyOrderUuid = "")
    (s : Order) :
    (e.onOrderSnapshot cfg s).activeBuyToken = none →
      (e.onOrderSnapshot cfg s).activeBuyOrderUuid = "" := by
  by_cases hskip : ¬ e.forMarket s.market ∨ e.store.get s.id = none
  · rw [onOrderSnapshot_skip hskip]
    exact h
  · rw [not_or, not_not] at hskip
    obtain ⟨old, hget⟩ := Option.ne_none_iff_exists'.mp hskip.2
    obtain ⟨hid, heq⟩ := onOrderSnapshot_known cfg hskip.1 hget
    rw [heq]
    split
    · simp only
      split
      · exact token_settleClose (e := { e with store := e.store.put (mergeSnapshot old s) hid }) h _
      · exact h
    · exact h

theorem token_submit (h : e.activeBuyToken = none → e.activeBuyOrderUuid = "")
    (req : OrderRequest ℚ) (reply : Except RestError String) :
    (e.submitReply cfg req reply).2.activeBuyToken = none →
      (e.submitReply cfg req reply).2.activeBuyOrderUuid = "" := by
  unfold submitReply submit
  rcases e.beforePost_cases cfg req with ⟨code, message, hfail⟩ | ⟨message, hfail⟩ |
    ⟨-, -, hpos, -, -, token, mgr, -, hok⟩ | ⟨-, -, hpos, -, -, hok⟩
  · rw [hfail]
    exact h
  · rw [hfail]
    exact h
  · rw [hok]
    unfold afterPost
    cases reply with
    | error err =>
      simp only [hpos]
      exact fun _ => rfl
    | ok uuid =>
      simp only [hpos]
      intro hnone
      cases hnone
  · rw [hok]
    unfold afterPost
    cases reply with
    | error err =>
      simp only [hpos]
      exact h
    | ok uuid =>
      simp only [hpos]
      exact h

theorem steady_call (cfg : AppConfig ℚ) (e : MarketEngine) (c : EngineCall) (h : e.Steady) :
    (e.call cfg c).Steady := by
  refine ⟨?_, fun m =>
    meets_call (AccountManager.budgetInvariant_reserved cfg.account) (h.reserved m) c⟩
  cases c with
  | submit req reply => exact token_submit h.token req reply
  | message msg =>
    cases msg with
    | trade t =>
      show (e.onMyTrade cfg t).activeBuyToken = none → (e.onMyTrade cfg t).activeBuyOrderUuid = ""
      obtain ⟨seen, fifo, hskip | ⟨ord, -, -, heq⟩⟩ := e.onMyTrade_cases cfg t
      · rw [hskip]
        exact h.token
      · rw [heq]
        apply token_settleTrade
        exact h.token
    | snapshot s => exact token_onOrderSnapshot h.token s
    | reconcile s =>
      show (e.reconcileFromSnapshot cfg s).2.activeBuyToken = none →
        (e.reconcileFromSnapshot cfg s).2.activeBuyOrderUuid = ""
      rcases e.reconcileFromSnapshot_cases cfg s with hskip | ⟨prev, settled, -, -, hdelta, heq⟩
      · rw [hskip]
        exact h.token
      · rw [heq]
        apply token_onOrderSnapshot
        rcases settleDelta_cases hdelta with rfl | ⟨krw, coin, price, rfl⟩ | ⟨coin, krw, rfl⟩
        · exact h.token
        · exact token_settleBuy h.token _ _ _ _
        · exact h.token
  | setMarkPrice p => exact h.token
  | pollEvents => exact h.token

theorem SameOrders.refl (e : MarketEngine) : e.SameOrders e := ⟨rfl, rfl, rfl, rfl, rfl, fun _ => rfl⟩

/-- A reserve that is not negative is what it was once the reservation is given back. -/
theorem amounts_giveBack_hold {b : MarketBudget} (hb : 0 ≤ b.reservedKrw) (krw : Amount) :
    ((b.hold krw).giveBack krw).amounts = b.amounts := by
  have hle : krw ≤ (b.hold krw).reservedKrw := le_add_of_nonneg_left hb
  rw [MarketBudget.giveBack_of_le hle]
  simp [MarketBudget.refund, MarketBudget.hold, MarketBudget.amounts]

/-- The reservation that `submit` made and releases leaves every amount as it was. -/
theorem amounts_release_reserve {mgr mgr' : AccountManager} {m : String} {krw : Amount}
    {token : ReservationToken} (hmgr : mgr.Meets (fun b => 0 ≤ b.reservedKrw) m)
    (hres : mgr.reserve m krw = (some token, mgr')) (m' : String) :
    ((mgr'.release token).2.getBudget m').map MarketBudget.amounts =
      (mgr.getBudget m').map MarketBudget.amounts := by
  rcases mgr.reserve_cases m krw with hfail | ⟨b, token', hb, -, -, -, hmkt, hamount, hconsumed, hact, hok⟩
  · rw [hfail] at hres
    cases hres
  · rw [hok] at hres
    obtain ⟨htoken, rfl⟩ := Prod.mk.inj hres
    obtain rfl := Option.some.inj htoken
    have hleft : token'.remaining = krw := by
      rw [ReservationToken.remaining, hamount, hconsumed, sub_zero]
    unfold AccountManager.release AccountManager.releaseWithoutToken AccountManager.releaseInternal
    simp only [hact, Bool.not_true, Bool.false_eq_true, if_false, hmkt, hleft,
      AccountManager.getBudget_countRelease]
    by_cases hm : m' = m
    · rw [hm, AccountManager.getBudget_modifyBudget_self, AccountManager.getBudget_countReserve,
        AccountManager.getBudget_modifyBudget_self, hb]
      exact congrArg some (amounts_giveBack_hold (hmgr b hb) krw)
    · rw [AccountManager.getBudget_modifyBudget_ne _ _ hm, AccountManager.getBudget_countReserve,
        AccountManager.getBudget_modifyBudget_ne _ _ hm]

/-- A submission that fails, for whatever reason, leaves the orders and the amounts as they were. -/
theorem sameOrders_submit {σ : Type} (h : e.Steady)
    (postOrder : OrderRequest ℚ → σ → Except RestError String × σ) (req : OrderRequest ℚ) (s : σ)
    (hfailed : (e.submit cfg postOrder req s).1.1.success = false) :
    e.SameOrders (e.submit cfg postOrder req s).1.2 := by
  unfold submit at hfailed ⊢
  rcases e.beforePost_cases cfg req with ⟨code, message, hfail⟩ | ⟨message, hfail⟩ |
    ⟨-, -, hpos, htok, -, token, mgr, hres, hok⟩ | ⟨-, -, hpos, -, -, hok⟩
  · rw [hfail]
    exact .refl e
  · rw [hfail]
    exact ⟨rfl, rfl, rfl, rfl, rfl, fun _ => rfl⟩
  · rw [hok] at hfailed ⊢
    unfold afterPost at hfailed ⊢
    cases hreply : (postOrder req s).1 with
    | error err =>
      simp only [hpos, releaseBuyToken]
      exact ⟨htok.symm, (h.token htok).symm, rfl, rfl, rfl,
        amounts_release_reserve (h.reserved e.market) hres⟩
    | ok uuid =>
      simp only [hreply] at hfailed
      cases hfailed
  · rw [hok] at hfailed ⊢
    unfold afterPost at hfailed ⊢
    cases hreply : (postOrder req s).1 with
    | error err =>
      simp only [hpos]
      exact .refl e
    | ok uuid =>
      simp only [hreply] at hfailed
      cases hfailed

end MarketEngine

namespace RsiMeanReversionStrategy

variable {α : Type} [Field α] [LinearOrder α] {st : RsiMeanReversionStrategy α}

/-- The state, what is pending and the prices are the same. -/
structure SameWait (st st' : RsiMeanReversionStrategy α) : Prop where
  state : st'.state = st.state
  pendingClientId : st'.pendingClientId = st.pendingClientId
  pendingFilledVolume : st'.pendingFilledVolume = st.pendingFilledVolume
  pendingCostSum : st'.pendingCostSum = st.pendingCostSum
  pendingLastPrice : st'.pendingLastPrice = st.pendingLastPrice
  pendingExitReason : st'.pendingExitReason = st.pendingExitReason
  entryPrice : st'.entryPrice = st.entryPrice
  stopPrice : st'.stopPrice = st.stopPrice
  targetPrice : st'.targetPrice = st.targetPrice

omit [LinearOrder α] in
theorem sameWait_submitEntry (hw : st.Waits) (hflat : st.state = .flat) (env : StrategyEnv α)
    (s : Snapshot α) (krwToUse : α) :
    st.SameWait (st.submitEntry env s krwToUse).2.onSubmitFailed := by
  have hnone := hw.idle_iff.mp (by rw [hflat]; rfl)
  obtain ⟨hvolume, hcost, hlast, hreason⟩ := hw.cleared hnone
  rw [(waits_submitEntry env st s krwToUse).onSubmitFailed_eq]
  exact ⟨hflat.symm, hnone.symm, hvolume.symm, hcost.symm, hlast.symm, hreason.symm, rfl, rfl, rfl⟩

omit [LinearOrder α] in
theorem sameWait_exitWith (hw : st.Waits) (hpos : st.state = .inPosition) (env : StrategyEnv α)
    (s : Snapshot α) (coin : α) (tag : String) :
    st.SameWait (st.exitWith env s coin tag).2.onSubmitFailed := by
  have hnone := hw.idle_iff.mp (by rw [hpos]; rfl)
  obtain ⟨hvolume, hcost, hlast, hreason⟩ := hw.cleared hnone
  rw [(waits_exitWith env st s coin tag).onSubmitFailed_eq]
  exact ⟨hpos.symm, hnone.symm, hvolume.symm, hcost.symm, hlast.symm, hreason.symm, rfl, rfl, rfl⟩

theorem sameWait_maybeEnter (hw : st.Waits) (hflat : st.state = .flat) (env : StrategyEnv α)
    (s : Snapshot α) (account : AccountSnapshot α) {req : OrderRequest α}
    (horder : (st.maybeEnter env s account).1.order = some req) :
    st.SameWait (st.maybeEnter env s account).2.onSubmitFailed := by
  rcases st.maybeEnter_cases env s account with hskip | ⟨krwToUse, -, -, -, -, -, -, hsubmit⟩
  · rw [hskip] at horder
    cases horder
  · rw [hsubmit]
    exact sameWait_submitEntry hw hflat env s krwToUse

theorem sameWait_maybeExit (hw : st.Waits) (hpos : st.state = .inPosition) (env : StrategyEnv α)
    (s : Snapshot α) (account : AccountSnapshot α) {req : OrderRequest α}
    (horder : (st.maybeExit env s account).1.order = some req) :
    st.SameWait (st.maybeExit env s account).2.onSubmitFailed := by
  rcases st.maybeExit_cases env s account with ⟨seq, hskip⟩ | ⟨_, _, _, -, hsubmit⟩
  · rw [hskip] at horder
    cases horder
  · rw [hsubmit]
    exact sameWait_exitWith hw hpos env s _ _

theorem sameWait_onIntrabarCandle (hw : st.Waits) (env : StrategyEnv α) (close : α)
    (account : AccountSnapshot α) {req : OrderRequest α}
    (horder : (st.onIntrabarCandle env close account).1.order = some req) :
    st.SameWait (st.onIntrabarCandle env close account).2.onSubmitFailed := by
  rcases st.onIntrabarCandle_cases env close account with hskip | ⟨_, _, hpos, -, hsubmit⟩
  · rw [hskip] at horder
    cases horder
  · rw [hsubmit]
    exact sameWait_exitWith hw hpos env _ _ _

end RsiMeanReversionStrategy
namespace MarketContext

variable {σ : Type}

/-- The three ways to a decision of a strategy: `before` is the strategy as the order is decided
    on, `after` the strategy that has decided. A candle is decided on after the self-heal. -/
inductive DecidedIn (env : StrategyEnv ℚ) (st : RsiMeanReversionStrategy ℚ) :
    RsiMeanReversionStrategy ℚ → Decision ℚ × RsiMeanReversionStrategy ℚ → Prop
  | enter (c : Candle ℚ) (account : AccountSnapshot ℚ) :
    ((st.observe env c).2.selfHeal env c.closePrice account).state = .flat →
    DecidedIn env st ((st.observe env c).2.selfHeal env c.closePrice account)
      (((st.observe env c).2.selfHeal env c.closePrice account).maybeEnter env
        (st.observe env c).1 account)
  | exit (c : Candle ℚ) (account : AccountSnapshot ℚ) :
    ((st.observe env c).2.selfHeal env c.closePrice account).state = .inPosition →
    DecidedIn env st ((st.observe env c).2.selfHeal env c.closePrice account)
      (((st.observe env c).2.selfHeal env c.closePrice account).maybeExit env
        (st.observe env c).1 account)
  | intrabar (close : Price) (account : AccountSnapshot ℚ) :
    DecidedIn env st st (st.onIntrabarCandle env close account)

theorem DecidedIn.sameWait {env : StrategyEnv ℚ} {st before : RsiMeanReversionStrategy ℚ}
    {decided : Decision ℚ × RsiMeanReversionStrategy ℚ} (h : DecidedIn env st before decided)
    (hw : st.Waits) {req : OrderRequest ℚ} (horder : decided.1.order = some req) :
    before.SameWait decided.2.onSubmitFailed := by
  have hobserved : ∀ c, (st.observe env c).2.Waits := fun c => ⟨hw.pending, hw.cleared⟩
  cases h with
  | enter c account hflat =>
    exact RsiMeanReversionStrategy.sameWait_maybeEnter
      ((hobserved c).selfHeal env c.closePrice account) hflat env _ account horder
  | exit c account hpos =>
    exact RsiMeanReversionStrategy.sameWait_maybeExit
      ((hobserved c).selfHeal env c.closePrice account) hpos env _ account horder
  | intrabar close account =>
    exact RsiMeanReversionStrategy.sameWait_onIntrabarCandle hw env close account horder

theorem steady_create (cfg : AccountConfig) (market : String) (mgr : AccountManager)
    (account : Account) (params : Params ℚ) (pos : PositionSnapshot ℚ) (db : Option Database) :
    (create market (mgr.rebuildFromAccount cfg account) params pos db).engine.Steady :=
  ⟨fun _ => rfl, fun _ _ hb => (AccountManager.rebuildFromAccount_idle cfg mgr hb).1.ge⟩

/-- **A failed submission is taken back completely.** In every state that a new context reaches,
    with whatever the exchange and its messages say, an order that the strategy decides on and
    `submit` refuses leaves the engine's orders, its queue and every market's amounts as they were
    before the submission, and the strategy as it was before the decision. -/
theorem submit_rolledBack (env : ManagerEnv σ) (market : String) (mgr : AccountManager)
    (account : Account) (params : Params ℚ) (pos : PositionSnapshot ℚ) (db : Option Database)
    (s : σ) (steps : List ContextStep) :
    let ctx := (Machine.run (contextStep env)
      (create market (mgr.rebuildFromAccount env.cfg.account account) params pos db, s) steps).1
    ∀ (mark : Price) (before : RsiMeanReversionStrategy ℚ)
      (decided : Decision ℚ × RsiMeanReversionStrategy ℚ) (req : OrderRequest ℚ) (s' : σ),
      DecidedIn env.strategy ctx.strategy before decided → decided.1.order = some req →
      let submitting :=
        { ctx with engine := ctx.engine.setMarkPrice mark, strategy := decided.2 }
      (submitting.submitOrder env req s').1 = false →
        submitting.engine.SameOrders (submitting.submitOrder env req s').2.1.engine ∧
          before.SameWait (submitting.submitOrder env req s').2.1.strategy := by
  intro ctx mark before decided req s' hdecided horder submitting hfailed
  have hadvances := advances_run env
    (create market (mgr.rebuildFromAccount env.cfg.account account) params pos db, s) steps
  have hsteady : ctx.engine.Steady := hadvances.engine_keeps
    (fun e c he => MarketEngine.steady_call env.cfg e c he)
    (steady_create env.cfg.account market mgr account params pos db)
  have hwaits : ctx.strategy.Waits := hadvances.strategy_keeps
    (fun st c hst => hst.step env.strategy c)
    (RsiMeanReversionStrategy.waits_syncOnStart _ pos)
  have hmarked := MarketEngine.steady_call env.cfg ctx.engine (.setMarkPrice mark) hsteady
  have hwait := hdecided.sameWait hwaits horder
  unfold submitOrder at hfailed ⊢
  simp only at hfailed ⊢
  split at hfailed
  · cases hfailed
  · next hrefused =>
    rw [if_neg hrefused]
    exact ⟨MarketEngine.sameOrders_submit hmarked env.api.postOrder req s'
      (eq_false_of_ne_true hrefused), hwait⟩

/-- A position of 10 coins at 1000 KRW, on an exchange that takes no order. -/
def refusedContext : MarketContext :=
  create "KRW-BTC"
    (AccountManager.rebuildFromAccount silentEnv.cfg.account
      { budgets := AList.singleton "KRW-BTC" { market := "KRW-BTC" } }
      { positions := [⟨"BTC", 10, 1000, "KRW"⟩] })
    (.standard ℚ) ⟨10, 1000⟩ none

/-- The exit of that position at its stop. -/
def stopRequest : OrderRequest ℚ where
  market := "KRW-BTC"
  position := .ask
  type := .market
  size := .volume 10
  strategyId := "rsi_mean_reversion"
  identifier := "rsi_mean_reversion:KRW-BTC:exit_stop:1"
  clientTag := "exit_stop"

/-- Settings that are ready after three candles. -/
def quickParams : Params ℚ :=
  { Params.standard ℚ with
    rsiLength := 1
    trendLookWindow := 1
    maxTrendStrength := 1
    volatilityWindow := 2
    minVolatility := 0 }

/-- A budget of 10000 KRW, on the same exchange. -/
def cashContext : MarketContext :=
  create "KRW-BTC"
    (AccountManager.rebuildFromAccount silentEnv.cfg.account
      { budgets := AList.singleton "KRW-BTC" { market := "KRW-BTC" } } { krwFree := 10000 })
    quickParams ⟨0, 0⟩ none

def priceAt (ts : String) (close : Price) : Candle ℚ := { candleAt ts with closePrice := close }

/-- The price falls, and the third candle is not closed yet. -/
def fallingSteps : List ContextStep :=
  [priceAt "1" 1000, priceAt "2" 990, priceAt "3" 980].map
    (fun c => .worker (.handleOne (.marketData (some (c, 1)))))

/-- The entry at that candle. -/
def entryRequest : OrderRequest ℚ where
  market := "KRW-BTC"
  position := .bid
  type := .market
  size := .amount (10000000 / 1001)
  strategyId := "rsi_mean_reversion"
  identifier := "rsi_mean_reversion:KRW-BTC:entry_rsi_oversold:1"
  clientTag := "entry_rsi_oversold"

/-- A sale at the stop is taken back, and so is an entry, for which KRW was reserved. -/
theorem submit_rolledBack_both :
    (let decided := refusedContext.strategy.onIntrabarCandle silentEnv.strategy 800 ⟨0, 10⟩
      let submitting :=
        { refusedContext with
          engine := refusedContext.engine.setMarkPrice 800, strategy := decided.2 }
      submitting.engine.SameOrders (submitting.submitOrder silentEnv stopRequest ()).2.1.engine ∧
        refusedContext.strategy.SameWait
          (submitting.submitOrder silentEnv stopRequest ()).2.1.strategy) ∧
      let ctx := (Machine.run (contextStep silentEnv) (cashContext, ()) fallingSteps).1
      let observed := ctx.strategy.observe silentEnv.strategy (priceAt "3" 980)
      let before := observed.2.selfHeal silentEnv.strategy 980 ⟨10000, 0⟩
      let decided := before.maybeEnter silentEnv.strategy observed.1 ⟨10000, 0⟩
      let submitting := { ctx with engine := ctx.engine.setMarkPrice 980, strategy := decided.2 }
      decided.1.order = some entryRequest ∧
        submitting.engine.SameOrders (submitting.submitOrder silentEnv entryRequest ()).2.1.engine ∧
        before.SameWait (submitting.submitOrder silentEnv entryRequest ()).2.1.strategy := by
  constructor
  · exact submit_rolledBack silentEnv "KRW-BTC" _ _ (.standard ℚ) ⟨10, 1000⟩ none () [] 800
      refusedContext.strategy _ stopRequest () (.intrabar 800 ⟨0, 10⟩) (by decide +kernel)
      (by decide +kernel)
  · intro ctx observed before decided submitting
    have hentry : decided.1.order = some entryRequest := by decide +kernel
    have hrefused : (submitting.submitOrder silentEnv entryRequest ()).1 = false := by
      decide +kernel
    exact ⟨hentry, submit_rolledBack silentEnv "KRW-BTC" _ _ quickParams ⟨0, 0⟩ none ()
      fallingSteps 980 before decided entryRequest ()
      (.enter (priceAt "3" 980) ⟨10000, 0⟩ (by decide +kernel)) hentry hrefused⟩

end MarketContext
end CoinBot
