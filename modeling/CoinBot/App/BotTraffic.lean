import CoinBot.App.BotIdentifiers
import CoinBot.App.Moves
import CoinBot.App.StartupTraffic

/- What the running bot asks of the exchange.

   The exchange keeps a journal of its calls. A worker posts valid orders of its own market
   under fresh identifiers, queries only orders that a post was answered with, and asks for
   the account only when the queries of an order have failed three times. What its
   next call may be depends on the context, so the context is followed along the journal
   (`Traced`): the active orders are answered ones, and the identifiers posted so far are
   those of the numbers used up. The result over whole runs is `run_traffic`. -/
namespace CoinBot

open Journal (Grows Justified)
open Json (Bytes Data)

variable {σ : Type}

/-- The last calls are queries of the order, and all of them have failed. -/
def Unanswered (orderUuid : String) (queries : Nat) (before : List ApiCall) : Prop :=
  ∃ errs : List RestError, errs.length = queries ∧
    errs.map (fun err => ApiCall.getOrder orderUuid (.error err)) <:+ before

/-- What the worker of a market may ask for after the calls `before`. -/
def Asked (env : StrategyEnv ℚ) (market : String) (before : List ApiCall) : ApiCall → Prop
  | .postOrder req _ => req.market = market ∧ MarketEngine.validateRequest req = none ∧
    ∃ n, RsiMeanReversionStrategy.Numbered env market n req.identifier ∧
      ∀ req' answer, ApiCall.postOrder req' answer ∈ before → req'.market = market →
        ∃ n' < n, RsiMeanReversionStrategy.Numbered env market n' req'.identifier
  | .getOrder orderUuid _ =>
    ∃ req, ApiCall.postOrder req (.ok orderUuid) ∈ before ∧ req.market = market
  | .getMyAccount _ => ∃ orderUuid, Unanswered orderUuid 3 before
  | _ => False

/-! The engine. -/

namespace MarketEngine

/-- The exchange is not asked, or the checked request is posted; then the answer may be active. -/
theorem submit_journal (cfg : AppConfig ℚ) (api : IOrderApi σ) (e : MarketEngine)
    (req : OrderRequest ℚ) (st : σ × List ApiCall) :
    let r := e.submit cfg api.recorded.postOrder req st
    r.1.2.market = e.market ∧
      ((r.2 = st ∧ r.1.2.activeUuid = e.activeUuid) ∨
        (validateRequest req = none ∧ req.market = e.market ∧
          r.2 = (api.recorded.postOrder req st).2 ∧
            ∀ side, r.1.2.activeUuid side = "" ∨ r.1.2.activeUuid side = e.activeUuid side ∨
              (api.recorded.postOrder req st).1 = .ok (r.1.2.activeUuid side))) := by
  unfold submit
  rcases e.beforePost_cases cfg req with ⟨code, message, hfail⟩ | ⟨message, hfail⟩ |
    ⟨hvalid, hmarket, hpos, -, -, token, mgr, -, hok⟩ | ⟨hvalid, hmarket, hpos, -, -, hok⟩
  · rw [hfail]
    exact ⟨rfl, .inl ⟨rfl, rfl⟩⟩
  · rw [hfail]
    refine ⟨rfl, .inl ⟨rfl, ?_⟩⟩
    funext side
    cases side <;> rfl
  · rw [hok]
    obtain ⟨answer, st'⟩ := api.recorded.postOrder req st
    unfold afterPost
    cases answer with
    | error err =>
      simp only [hpos, releaseBuyToken]
      refine ⟨trivial, .inr ⟨hvalid, hmarket, trivial, fun side => ?_⟩⟩
      cases side with
      | bid => exact .inl rfl
      | ask => exact .inr (.inl rfl)
    | ok uuid =>
      simp only [hpos]
      refine ⟨trivial, .inr ⟨hvalid, hmarket, trivial, fun side => ?_⟩⟩
      cases side with
      | bid => exact .inr (.inr rfl)
      | ask => exact .inr (.inl rfl)
  · rw [hok]
    obtain ⟨answer, st'⟩ := api.recorded.postOrder req st
    unfold afterPost
    cases answer with
    | error err =>
      simp only [hpos]
      exact ⟨trivial, .inr ⟨hvalid, hmarket, trivial, fun side => .inr (.inl trivial)⟩⟩
    | ok uuid =>
      simp only [hpos]
      refine ⟨trivial, .inr ⟨hvalid, hmarket, trivial, fun side => ?_⟩⟩
      cases side with
      | bid => exact .inr (.inl rfl)
      | ask => exact .inr (.inr rfl)

theorem activeUuid_deliver (cfg : AppConfig ℚ) (e : MarketEngine) (msg : Message)
    (side : OrderPosition) :
    (e.deliver cfg msg).activeUuid side = "" ∨
      (e.deliver cfg msg).activeUuid side = e.activeUuid side := by
  cases msg with
  | trade t => exact .inr (congrFun (e.onMyTrade_frame cfg t).2.2 side)
  | snapshot o => exact e.activeUuid_onOrderSnapshot cfg o side
  | reconcile o =>
    show (e.reconcileFromSnapshot cfg o).2.activeUuid side = "" ∨
      (e.reconcileFromSnapshot cfg o).2.activeUuid side = e.activeUuid side
    rcases e.reconcileFromSnapshot_cases cfg o with hskip | ⟨prev, settled, -, -, hdelta, heq⟩
    · rw [hskip]
      exact .inr rfl
    · rw [heq, ← congrFun (onlySettles_settleDelta hdelta).active side]
      exact settled.activeUuid_onOrderSnapshot cfg o side

end MarketEngine

namespace MarketContext

variable {env : ManagerEnv (σ × List ApiCall)} {market : String} {ctx ctx' ctx'' : MarketContext}
  {log : List ApiCall}

/-- The context of a market, along the journal. -/
structure Traced (env : StrategyEnv ℚ) (market : String) (ctx : MarketContext)
    (log : List ApiCall) : Prop where
  engine : ctx.engine.market = market
  strategy : ctx.strategy.market = market
  active : ∀ side, ctx.engine.activeUuid side ≠ "" →
    ∃ req, ApiCall.postOrder req (.ok (ctx.engine.activeUuid side)) ∈ log ∧ req.market = market
  numbers : ∀ req answer, ApiCall.postOrder req answer ∈ log → req.market = market →
    ∃ n ≤ ctx.strategy.seq, RsiMeanReversionStrategy.Numbered env market n req.identifier

/-- No order becomes active and no number is given back. -/
structure Quiets (ctx ctx' : MarketContext) : Prop where
  engine : ctx'.engine.market = ctx.engine.market
  strategy : ctx'.strategy.market = ctx.strategy.market
  active : ∀ side, ctx'.engine.activeUuid side = "" ∨
    ctx'.engine.activeUuid side = ctx.engine.activeUuid side
  numbers : ctx.strategy.seq ≤ ctx'.strategy.seq

theorem quiets_frame (hengine : ctx'.engine = ctx.engine)
    (hstrategy : ctx'.strategy = ctx.strategy) : Quiets ctx ctx' := by
  refine ⟨?_, ?_, fun side => .inr ?_, ?_⟩
  · rw [hengine]
  · rw [hstrategy]
  · rw [hengine]
  · rw [hstrategy]

theorem Quiets.trans (h : Quiets ctx ctx') (h' : Quiets ctx' ctx'') : Quiets ctx ctx'' := by
  refine ⟨h'.engine.trans h.engine, h'.strategy.trans h.strategy, fun side => ?_,
    h.numbers.trans h'.numbers⟩
  rcases h'.active side with hnone | hsame
  · exact .inl hnone
  · rw [hsame]
    exact h.active side

theorem quiets_deliver (cfg : AppConfig ℚ) (msg : Message)
    (hengine : ctx'.engine = ctx.engine.deliver cfg msg)
    (hstrategy : ctx'.strategy = ctx.strategy) : Quiets ctx ctx' := by
  refine ⟨?_, ?_, fun side => ?_, ?_⟩
  · rw [hengine]
    exact ctx.engine.market_call cfg (.message msg)
  · rw [hstrategy]
  · rw [hengine]
    exact ctx.engine.activeUuid_deliver cfg msg side
  · rw [hstrategy]

theorem quiets_step (env : StrategyEnv ℚ) (c : StrategyCall ℚ) (hengine : ctx'.engine = ctx.engine)
    (hstrategy : ctx'.strategy = ctx.strategy.step env c) : Quiets ctx ctx' := by
  refine ⟨?_, ?_, fun side => .inr ?_, ?_⟩
  · rw [hengine]
  · rw [hstrategy]
    exact (ctx.strategy.params_step env c).1
  · rw [hengine]
  · rw [hstrategy]
    exact ctx.strategy.seq_step env c

theorem Traced.quiet {env : StrategyEnv ℚ} (h : Traced env market ctx log) (hq : Quiets ctx ctx') :
    Traced env market ctx' log := by
  refine ⟨hq.engine.trans h.engine, hq.strategy.trans h.strategy, fun side hne => ?_,
    fun req answer hmem hmarket => ?_⟩
  · rcases hq.active side with hnone | hsame
    · exact absurd hnone hne
    · rw [hsame] at hne ⊢
      exact h.active side hne
  · obtain ⟨n, hle, hnumbered⟩ := h.numbers req answer hmem hmarket
    exact ⟨n, hle.trans hq.numbers, hnumbered⟩

/-- The second state of the exchange has everything that the first has and every call keeps. -/
def Kept (api : IOrderApi σ) (st st' : σ × List ApiCall) : Prop :=
  ∀ P : σ × List ApiCall → Prop, (∀ req st, P st → P (api.recorded.postOrder req st).2) →
    (∀ orderUuid st, P st → P (api.recorded.getOrder orderUuid st).2) →
    (∀ st, P st → P (api.recorded.getMyAccount st).2) → P st → P st'

/-- The journal grows by what the worker may ask, and the context stays with it. -/
structure Walks (env : StrategyEnv ℚ) (api : IOrderApi σ) (market : String) (ctx' : MarketContext)
    (st st' : σ × List ApiCall) : Prop where
  grows : Grows (Asked env market) st.2 st'.2
  kept : Kept api st st'
  traced : Traced env market ctx' st'.2

variable {api : IOrderApi σ} {st st' st'' : σ × List ApiCall}

theorem Kept.refl : Kept api st st := fun _ _ _ _ h => h

theorem Kept.trans (h : Kept api st st') (h' : Kept api st' st'') : Kept api st st'' :=
  fun P hpost hget haccount hst => h' P hpost hget haccount (h P hpost hget haccount hst)

theorem Traced.stay {env : StrategyEnv ℚ} (h : Traced env market ctx st.2) (hq : Quiets ctx ctx') :
    Walks env api market ctx' st st := ⟨.refl, .refl, h.quiet hq⟩

theorem Walks.quiet {env : StrategyEnv ℚ} (h : Walks env api market ctx st st')
    (hq : Quiets ctx ctx') : Walks env api market ctx' st st' :=
  ⟨h.grows, h.kept, h.traced.quiet hq⟩

theorem Walks.trans {env : StrategyEnv ℚ} (h : Walks env api market ctx st st')
    (h' : Walks env api market ctx' st' st'') : Walks env api market ctx' st st'' :=
  ⟨h.grows.trans h'.grows, h.kept.trans h'.kept, h'.traced⟩

/-! Order messages and recovery. -/

theorem quiets_handleOrderEvent (cfg : AppConfig ℚ) (ctx : MarketContext) (hasTrade : Bool)
    (ev : MyOrderEvent) : Quiets ctx (ctx.handleOrderEvent cfg hasTrade ev) := by
  cases ev with
  | trade t => exact quiets_deliver cfg (.trade t) rfl rfl
  | order o =>
    unfold handleOrderEvent
    simp only
    split
    · split
      · exact quiets_deliver cfg (.reconcile o) rfl rfl
      · exact quiets_deliver cfg (.reconcile o) rfl rfl
    · split
      · exact quiets_deliver cfg (.snapshot o) rfl rfl
      · exact quiets_deliver cfg (.snapshot o) rfl rfl

theorem Traced.asked {env : StrategyEnv ℚ} (h : Traced env market ctx log) {call : ApiCall}
    (hcall : ∀ req answer, call ≠ .postOrder req answer) :
    Traced env market ctx (log ++ [call]) := by
  refine ⟨h.engine, h.strategy, fun side hne => ?_, fun req reply hmem => ?_⟩
  · obtain ⟨req, hmem, hmarket⟩ := h.active side hne
    exact ⟨req, List.mem_append_left _ hmem, hmarket⟩
  · rcases List.mem_append.mp hmem with hold | hnew
    · exact h.numbers req reply hold
    · exact absurd (List.mem_singleton.mp hnew).symm (hcall req reply)

/-- What queries without an answer leave in the journal. -/
theorem query_failed (api : IOrderApi σ) (orderUuid : String) (retries : Nat)
    {st st' : σ × List ApiCall}
    (h : queryOrderWithRetry_ api.recorded.toOrderApi orderUuid retries st = (none, st')) :
    Unanswered orderUuid retries st'.2 := by
  suffices hadded : ∃ errs : List RestError, errs.length = retries ∧
      st'.2 = st.2 ++ errs.map (fun err => ApiCall.getOrder orderUuid (.error err)) by
    obtain ⟨errs, hlength, hlog⟩ := hadded
    exact ⟨errs, hlength, st.2, hlog.symm⟩
  induction retries generalizing st with
  | zero =>
    obtain ⟨-, rfl⟩ := Prod.mk.inj h
    exact ⟨[], rfl, (List.append_nil _).symm⟩
  | succ retries ih =>
    unfold queryOrderWithRetry_ at h
    split at h
    · cases (Prod.mk.inj h).1
    · next err between heq =>
      obtain ⟨hanswer, rfl⟩ := Prod.mk.inj heq
      obtain ⟨errs, hlength, hlog⟩ := ih h
      have hanswer : (api.getOrder orderUuid st.1).1 = .error err := hanswer
      refine ⟨err :: errs, congrArg (· + 1) hlength, ?_⟩
      rw [hlog, List.map_cons, ← hanswer]
      exact List.append_assoc st.2 _ _

variable (api) in
theorem walks_query {env : StrategyEnv ℚ} {orderUuid : String} (retries : Nat)
    {st : σ × List ApiCall} (h : Traced env market ctx st.2)
    (hposted : ∃ req, ApiCall.postOrder req (.ok orderUuid) ∈ st.2 ∧ req.market = market) :
    Walks env api market ctx st
      (queryOrderWithRetry_ api.recorded.toOrderApi orderUuid retries st).2 := by
  induction retries generalizing st with
  | zero => exact ⟨.refl, .refl, h⟩
  | succ retries ih =>
    have hone : Walks env api market ctx st (api.recorded.getOrder orderUuid st).2 :=
      ⟨.one hposted, fun P _ hget _ hst => hget orderUuid st hst, h.asked (fun _ _ => nofun)⟩
    unfold queryOrderWithRetry_
    split
    · next heq =>
      obtain ⟨-, rfl⟩ := Prod.mk.inj heq
      exact hone
    · next heq =>
      obtain ⟨-, rfl⟩ := Prod.mk.inj heq
      obtain ⟨req, hmem, hmarket⟩ := hposted
      exact hone.trans (ih hone.traced ⟨req, hone.grows.mem hmem, hmarket⟩)

variable (api) in
theorem walks_recoverOrder {env : StrategyEnv ℚ} (cfg : AppConfig ℚ) {orderUuid : String}
    {st : σ × List ApiCall} (h : Traced env market ctx st.2)
    (hposted : orderUuid ≠ "" →
      ∃ req, ApiCall.postOrder req (.ok orderUuid) ∈ st.2 ∧ req.market = market) :
    Walks env api market (recoverOrder cfg api.recorded.toOrderApi (ctx, st) orderUuid).1 st
      (recoverOrder cfg api.recorded.toOrderApi (ctx, st) orderUuid).2 := by
  unfold recoverOrder
  simp only
  split
  · exact ⟨.refl, .refl, h⟩
  · next hne =>
    have hquery := walks_query api 3 h (hposted hne)
    split
    · next st' heq =>
      rw [heq] at hquery
      have haccount : Walks env api market ctx st' (api.recorded.getMyAccount st').2 :=
        ⟨.one ⟨orderUuid, query_failed api orderUuid 3 heq⟩,
          fun P _ _ haccount hst => haccount st' hst, hquery.traced.asked (fun _ _ => nofun)⟩
      exact hquery.trans haccount
    · next o st' heq =>
      rw [heq] at hquery
      split
      · exact hquery.quiet (quiets_deliver cfg (.reconcile o) rfl rfl)
      · exact hquery.quiet (quiets_deliver cfg (.reconcile o) rfl rfl)

/-- The two active orders are queried: the second one was active before the first was recovered. -/
theorem walks_runRecovery {env : StrategyEnv ℚ} (cfg : AppConfig ℚ) {st : σ × List ApiCall}
    (h : Traced env market ctx st.2) :
    Walks env api market (ctx.runRecovery_ cfg api.recorded.toOrderApi st).1 st
      (ctx.runRecovery_ cfg api.recorded.toOrderApi st).2 := by
  unfold runRecovery_
  simp only
  split
  · exact h.stay (quiets_frame rfl rfl)
  · have hbuy := walks_recoverOrder api cfg h (h.active .bid)
    have hsell := walks_recoverOrder api cfg hbuy.traced (fun hne => by
      obtain ⟨req, hmem, hmarket⟩ := h.active .ask hne
      exact ⟨req, hbuy.grows.mem hmem, hmarket⟩)
    exact (hbuy.trans hsell).quiet (quiets_frame rfl rfl)

/-! Candles. -/

/-- A decided order is submitted: its number is the first one that no post has. -/
theorem walks_submitOrder (henv : env.api = api.recorded.toOrderApi) {req : OrderRequest ℚ}
    {before : RsiMeanReversionStrategy ℚ} {st : σ × List ApiCall}
    (h : Traced env.strategy market { ctx with strategy := before } st.2)
    (hmarket : ctx.strategy.market = before.market) (hreq : req.market = before.market)
    (hseq : before.seq < ctx.strategy.seq)
    (hnumbered : RsiMeanReversionStrategy.Numbered env.strategy before.market ctx.strategy.seq
      req.identifier) :
    Walks env.strategy api market (ctx.submitOrder env req st).2.1 st
      (ctx.submitOrder env req st).2.2 := by
  have hjournal := ctx.engine.submit_journal env.cfg api req st
  have hown : before.market = market := h.strategy
  rw [hown] at hmarket hreq hnumbered
  have hsubmitted : Walks env.strategy api market
      { ctx with engine := (ctx.engine.submit env.cfg api.recorded.postOrder req st).1.2 } st
      (ctx.engine.submit env.cfg api.recorded.postOrder req st).2 := by
    obtain ⟨hengine, ⟨hsame, hactive⟩ | ⟨hvalid, -, hposted, hactive⟩⟩ := hjournal
    · rw [hsame]
      refine ⟨.refl, .refl, hengine.trans h.engine, hmarket, fun side hne => ?_,
        fun req' reply hmem hmarket' => ?_⟩
      · simp only [hactive] at hne ⊢
        exact h.active side hne
      · obtain ⟨n, hle, hnum⟩ := h.numbers req' reply hmem hmarket'
        exact ⟨n, hle.trans hseq.le, hnum⟩
    · rw [hposted]
      refine ⟨.one ⟨hreq, hvalid, _, hnumbered, fun req' reply hmem hmarket' => ?_⟩,
        fun P hpost _ _ hst => hpost req st hst, hengine.trans h.engine, hmarket, fun side hne => ?_,
        fun req' reply hmem hmarket' => ?_⟩
      · obtain ⟨n, hle, hnum⟩ := h.numbers req' reply hmem hmarket'
        exact ⟨n, Nat.lt_of_le_of_lt hle hseq, hnum⟩
      · rcases hactive side with hnone | hsame | hnew
        · exact absurd hnone hne
        · simp only [hsame] at hne ⊢
          obtain ⟨req', hmem, hmarket'⟩ := h.active side hne
          exact ⟨req', List.mem_append_left _ hmem, hmarket'⟩
        · refine ⟨req, List.mem_append_right _ (List.mem_singleton.mpr ?_), hreq⟩
          rw [← hnew]
          rfl
      · rcases List.mem_append.mp hmem with hold | hnew
        · obtain ⟨n, hle, hnum⟩ := h.numbers req' reply hold hmarket'
          exact ⟨n, hle.trans hseq.le, hnum⟩
        · obtain ⟨rfl, -⟩ := ApiCall.postOrder.inj (List.mem_singleton.mp hnew)
          exact ⟨_, le_refl _, hnumbered⟩
  unfold submitOrder
  rw [henv]
  simp only
  split
  · exact hsubmitted
  · exact hsubmitted.quiet (quiets_step env.strategy .onSubmitFailed rfl rfl)

/-- A decision uses up a number if it has an order, and takes back none. -/
theorem Decides.next {decided : Decision ℚ × RsiMeanReversionStrategy ℚ}
    (h : Decides env.strategy ctx decided) :
    ctx.strategy.UsesNext env.strategy decided.1 decided.2 ∧
      decided.2.market = ctx.strategy.market ∧ ctx.strategy.seq ≤ decided.2.seq := by
  cases h with
  | onCandle candle =>
    exact ⟨ctx.strategy.usesNext_onCandle env.strategy candle _,
      (ctx.strategy.params_step env.strategy (.onCandle candle _)).1,
      ctx.strategy.seq_step env.strategy (.onCandle candle _)⟩
  | onIntrabarCandle close =>
    exact ⟨ctx.strategy.usesNext_onIntrabarCandle env.strategy close _,
      (ctx.strategy.params_step env.strategy (.onIntrabarCandle close _)).1,
      ctx.strategy.seq_step env.strategy (.onIntrabarCandle close _)⟩

theorem quiets_setMarkPrice (ctx : MarketContext) (p : Price) :
    Quiets ctx { ctx with engine := ctx.engine.setMarkPrice p } := by
  refine ⟨rfl, rfl, fun side => .inr ?_, le_refl _⟩
  cases side <;> rfl

/-! The worker. -/

theorem quiets_deliverEvents (env : StrategyEnv ℚ) (nowMs : Int) (ctx : MarketContext) :
    Quiets ctx (ctx.deliverEvents nowMs) := by
  have hpolled : Quiets ctx { ctx with engine := ctx.engine.pollEvents.2 } := by
    refine ⟨rfl, rfl, fun side => .inr ?_, le_refl _⟩
    cases side <;> rfl
  refine hpolled.trans ?_
  show Quiets _ (handleEngineEvents_ nowMs { ctx with engine := ctx.engine.pollEvents.2 }
    ctx.engine.pollEvents.1)
  unfold handleEngineEvents_
  generalize { ctx with engine := ctx.engine.pollEvents.2 } = polled
  induction ctx.engine.pollEvents.1 generalizing polled with
  | nil => exact quiets_frame rfl rfl
  | cons ev evs ih =>
    refine Quiets.trans ?_ (ih (polled.handleEngineEvent nowMs ev))
    cases ev with
    | fill ev => exact quiets_step env (.onFill _) rfl rfl
    | status ev => exact quiets_step env (.onOrderUpdate _ nowMs) rfl rfl

theorem walks_move (henv : env.api = api.recorded.toOrderApi)
    {state state' : MarketContext × (σ × List ApiCall)} (h : Move env state state')
    (htraced : Traced env.strategy market state.1 state.2.2) :
    Walks env.strategy api market state'.1 state.2 state'.2 := by
  cases h with
  | note _ hengine hstrategy _ => exact htraced.stay (quiets_frame hengine hstrategy)
  | insertCandle ctx st candle unit => exact htraced.stay (quiets_frame rfl rfl)
  | setMarkPrice ctx st p => exact htraced.stay (quiets_setMarkPrice ctx p)
  | handleOrderEvent ctx st hasTrade ev =>
    exact htraced.stay (quiets_handleOrderEvent env.cfg ctx hasTrade ev)
  | runRecovery_ ctx st =>
    rw [henv]
    exact walks_runRecovery env.cfg htraced
  | deliverEvents ctx st nowMs => exact htraced.stay (quiets_deliverEvents env.strategy nowMs ctx)
  | decide st hdecided _ =>
    obtain ⟨-, hmarket, hseq⟩ := hdecided.next
    exact htraced.stay ⟨rfl, hmarket, fun side => .inr rfl, hseq⟩
  | submitOrder st hdecided horder =>
    obtain ⟨hnext, hmarket, -⟩ := hdecided.next
    obtain ⟨hreq, hlt, hnumbered⟩ := hnext _ horder
    exact walks_submitOrder henv htraced hmarket hreq hlt hnumbered

theorem walks_moves (henv : env.api = api.recorded.toOrderApi)
    {state state' : MarketContext × (σ × List ApiCall)} (h : Moves env state state')
    (htraced : Traced env.strategy market state.1 state.2.2) :
    Walks env.strategy api market state'.1 state.2 state'.2 :=
  h.keeps (P := fun reached => Walks env.strategy api market reached.1 state.2 reached.2)
    (fun _ _ hmove hwalks => hwalks.trans (walks_move henv hmove hwalks.traced))
    ⟨.refl, .refl, htraced⟩

theorem posts_other {env : StrategyEnv ℚ} {log' : List ApiCall} {req : OrderRequest ℚ}
    {answer : Except RestError String} (h : Grows (Asked env market) log log')
    (hmem : ApiCall.postOrder req answer ∈ log') (hne : req.market ≠ market) :
    .postOrder req answer ∈ log := by
  induction h with
  | refl => exact hmem
  | write _ hasked ih =>
    rcases List.mem_append.mp hmem with hold | hnew
    · exact ih hold
    · obtain rfl := List.mem_singleton.mp hnew
      exact absurd hasked.1 hne

/-- What the worker of another market asks is nothing to this context. -/
theorem Traced.other {env : StrategyEnv ℚ} {market' : String} {log' : List ApiCall}
    (h : Traced env market' ctx log) (hne : market' ≠ market)
    (hgrows : Grows (Asked env market) log log') : Traced env market' ctx log' := by
  refine ⟨h.engine, h.strategy, fun side hactive => ?_, fun req answer hmem hmarket => ?_⟩
  · obtain ⟨req, hmem, hmarket⟩ := h.active side hactive
    exact ⟨req, hgrows.mem hmem, hmarket⟩
  · exact h.numbers req answer (posts_other hgrows hmem (hmarket ▸ hne)) hmarket

end MarketContext

/-! The bot. -/

theorem MarketEngineManager.quiets_worker (m : MarketEngineManager) (w : Worker) :
    MarketContext.Quiets w.ctx (m.worker w).ctx := by
  refine ⟨rfl, rfl, fun side => .inr ?_, le_refl _⟩
  cases side <;> rfl

namespace Bot

variable (parse : Bytes → Option Data) (env : ManagerEnv σ)

/-- What the running bot may ask for, with what the contexts know. -/
def AnyAsked (env : StrategyEnv ℚ) (markets : List String) (before : List ApiCall)
    (c : ApiCall) : Prop := ∃ market ∈ markets, Asked env market before c

/-- Every context is of the list, and goes with the journal. -/
def Followed (env : StrategyEnv ℚ) (markets : List String) (b : Bot) (log : List ApiCall) : Prop :=
  ∀ m w, b.manager.contexts.lookup m = some w → m ∈ markets ∧ MarketContext.Traced env m w.ctx log

variable {env : ManagerEnv (σ × List ApiCall)} {api : IOrderApi σ} {markets : List String}

theorem followed_step (henv : env.api = api.recorded.toOrderApi)
    (state : Bot × (σ × List ApiCall)) (a : BotStep)
    (h : Followed env.strategy markets state.1 state.2.2) :
    Grows (AnyAsked env.strategy markets) state.2.2 (step parse env state a).2.2 ∧
      MarketContext.Kept api state.2 (step parse env state a).2 ∧
      Followed env.strategy markets (step parse env state a).1 (step parse env state a).2.2 := by
  rcases step_cases parse env state a with ⟨f, hf, hmanager, hsame⟩ |
    ⟨m, t, w, -, hw, hmanager, hasked⟩
  · rw [hsame]
    refine ⟨.refl, .refl, fun m w hw => ?_⟩
    rw [hmanager] at hw
    simp only [KeyMap.lookup_mapVal, Option.map_eq_some_iff] at hw
    obtain ⟨w, hw, rfl⟩ := hw
    obtain ⟨hm, htraced⟩ := h m w hw
    refine ⟨hm, htraced.quiet ?_⟩
    rcases hf m w with heq | heq
    · rw [heq]
      exact MarketContext.quiets_frame rfl rfl
    · rw [heq]
      exact MarketContext.quiets_frame w.ctx.engine_requestRecovery w.ctx.strategy_requestRecovery
  · obtain ⟨hm, htraced⟩ := h m w hw
    have hplaced : MarketContext.Traced env.strategy m (state.1.manager.worker w).ctx state.2.2 :=
      htraced.quiet (state.1.manager.quiets_worker w)
    have hturn := MarketContext.walks_moves henv
      (MarketContext.moves_turn parse env (state.1.manager.worker w) state.2 t) hplaced
    rw [hasked]
    refine ⟨hturn.grows.imp (fun _ _ hone => ⟨m, hm, hone⟩), hturn.kept, fun m' w' hw' => ?_⟩
    rw [hmanager] at hw'
    by_cases hne : m' = m
    · subst hne
      rw [MarketEngineManager.lookup_put_self] at hw'
      obtain rfl := Option.some.inj hw'
      exact ⟨hm, hturn.traced⟩
    · rw [MarketEngineManager.lookup_put_ne _ _ hne] at hw'
      obtain ⟨hm', htraced'⟩ := h m' w' hw'
      exact ⟨hm', htraced'.other hne hturn.grows⟩

theorem followed_run (henv : env.api = api.recorded.toOrderApi)
    (state : Bot × (σ × List ApiCall)) (steps : List BotStep)
    (h : Followed env.strategy markets state.1 state.2.2) :
    Grows (AnyAsked env.strategy markets) state.2.2
        (Machine.run (step parse env) state steps).2.2 ∧
      MarketContext.Kept api state.2 (Machine.run (step parse env) state steps).2 := by
  induction steps generalizing state with
  | nil => exact ⟨.refl, .refl⟩
  | cons a steps ih =>
    obtain ⟨hgrows, hkept, hfollowed⟩ := followed_step parse henv state a h
    obtain ⟨hgrows', hkept'⟩ := ih (step parse env state a) hfollowed
    exact ⟨hgrows.trans hgrows', hkept.trans hkept'⟩

theorem followed_started {τ : Type} {cfg : AccountConfig} {startApi : IOrderApi τ}
    {mcfg : MarketManagerConfig} {store : OrderStore} {mgr : AccountManager}
    {db : Option Database} {manager : MarketEngineManager}
    (h : MarketEngineManager.Started cfg startApi mcfg store mgr markets db manager)
    (strategy : StrategyEnv ℚ) : Followed strategy markets (assemble manager) [] := by
  intro m w hw
  obtain ⟨first, hnew⟩ := h.contexts
  obtain ⟨pos, -, rfl⟩ := hnew m w hw
  have hhome := MarketContext.home_create m first mcfg.strategyParams pos db
  refine ⟨(h.markets m).mp (Option.isSome_iff_exists.mpr ⟨_, hw⟩), rfl, hhome.strategy,
    fun side hne => ?_, fun req answer hmem => absurd hmem List.not_mem_nil⟩
  cases side <;> exact absurd rfl hne

/-! What the journal says by itself. -/

/-- The identifier is one that the start of the bot takes for its own in the market. -/
def Recognised (market identifier : String) : Prop :=
  StartupRecovery.startsWith identifier
    (MarketEngineManager.recoveryOptions market).botIdentifierPrefix = true

/-- What a running bot may ask for: a valid order of one of its markets, under an identifier
    that is new and that the start recognises in that market alone, or an order that it was
    answered with, or the account once three queries of an order have failed. -/
def Permits (markets : List String) (before : List ApiCall) : ApiCall → Prop
  | .postOrder req _ => req.market ∈ markets ∧ MarketEngine.validateRequest req = none ∧
    (∀ market ∈ markets, Recognised market req.identifier ↔ market = req.market) ∧
    ∀ req' answer, ApiCall.postOrder req' answer ∈ before → req'.identifier ≠ req.identifier
  | .getOrder orderUuid _ => ∃ req, ApiCall.postOrder req (.ok orderUuid) ∈ before
  | .getMyAccount _ => ∃ orderUuid, Unanswered orderUuid 3 before
  | _ => False

/-- The numbers make the identifiers new. -/
theorem justified_permits {strategy : StrategyEnv ℚ} (huuid : Function.Injective strategy.uuid)
    (hcolon : ∀ m ∈ markets, ':' ∉ m.toList) {log : List ApiCall}
    (h : Justified (AnyAsked strategy markets) log) : Justified (Permits markets) log := by
  intro before c after heq
  obtain ⟨market, hmarket, hasked⟩ := h before c after heq
  cases c with
  | postOrder req answer =>
    obtain ⟨rfl, hvalid, n, hnumbered, hearlier⟩ := hasked
    refine ⟨hmarket, hvalid, fun market' hmarket' => ?_, fun req' answer' hmem hsame => ?_⟩
    · exact StartupRecovery.startsWith_numbered (hcolon _ hmarket) (hcolon _ hmarket') hnumbered
    · obtain ⟨first, rest, rfl⟩ := List.append_of_mem hmem
      obtain ⟨market', hmarket', rfl, -, n', hnumbered', -⟩ :=
        h first (.postOrder req' answer') (rest ++ .postOrder req answer :: after)
          (by rw [heq, List.append_assoc]; rfl)
      rw [hsame] at hnumbered'
      obtain ⟨hown, -⟩ := RsiMeanReversionStrategy.numbered_inj huuid (hcolon _ hmarket')
        (hcolon _ hmarket) hnumbered' hnumbered
      obtain ⟨n'', hlt, hnumbered''⟩ := hearlier req' answer' hmem hown
      rw [hsame] at hnumbered''
      obtain ⟨-, rfl⟩ := RsiMeanReversionStrategy.numbered_inj huuid (hcolon _ hmarket)
        (hcolon _ hmarket) hnumbered'' hnumbered
      exact absurd hlt (lt_irrefl _)
  | getOrder orderUuid answer =>
    obtain ⟨req, hmem, -⟩ := hasked
    exact ⟨req, hmem⟩
  | getMyAccount answer => exact hasked
  | getOpenOrders listed answer => exact hasked
  | cancelOrder orderUuid identifier answer => exact hasked

/-- **What a running bot asks for.** Start the bot and run it in any way, with an exchange that
    keeps a journal of its calls: whatever the exchange answers and whatever messages come,
    every post is a valid order of a listed market, under an identifier that no post had before
    and that a later start recognises in that market and in no other; every query is about an
    order that the exchange has accepted, and the account is asked for only when three queries
    of an order have just failed; nothing is cancelled. The generator never repeats itself, and no
    market has a colon. -/
theorem run_traffic {τ : Type} (parse : Bytes → Option Data) (strategy : StrategyEnv ℚ)
    (huuid : Function.Injective strategy.uuid) (api : IOrderApi σ) (pendingTimeout : Int)
    (cfg : AccountConfig) (startApi : IOrderApi τ) (store : OrderStore) (mgr : AccountManager)
    (markets : List String) (hcolon : ∀ m ∈ markets, ':' ∉ m.toList)
    (mcfg : MarketManagerConfig) (db : Option Database) (t : τ) {manager : MarketEngineManager}
    (hcreate : (MarketEngineManager.create cfg startApi store mgr markets mcfg db t).1 =
      .ok manager) (s : σ) (steps : List BotStep) :
    Justified (Permits markets) (Machine.run
      (step parse
        { strategy := strategy, api := api.recorded.toOrderApi, pendingTimeout := pendingTimeout })
      (assemble manager, (s, [])) steps).2.2 := by
  have hfollowed := followed_started (MarketEngineManager.started_create hcreate) strategy
  set env : ManagerEnv (σ × List ApiCall) :=
    { strategy := strategy, api := api.recorded.toOrderApi, pendingTimeout := pendingTimeout }
  have henv : env.api = api.recorded.toOrderApi := rfl
  have hrun := followed_run parse henv (assemble manager, (s, [])) steps hfollowed
  exact justified_permits huuid hcolon (hrun.1.justified Journal.justified_nil)

/-! A run: two positions are sold at their stops, and the first sale is done. -/

/-- A generator that does not repeat itself. -/
def unaryUuid (n : Nat) : String := String.ofList (List.replicate n '1')

theorem unaryUuid_injective : Function.Injective unaryUuid := by
  intro n m h
  have hlist : List.replicate n '1' = List.replicate m '1' := String.ofList_injective h
  simpa using congrArg List.length hlist

def bookStrategy : StrategyEnv ℚ where
  cfg := .standard ℚ
  sqrt := fun x => x
  uuid := unaryUuid

def bookMarkets : List String := ["KRW-BTC", "KRW-ETH"]

/-- What the bot posts in a market, and the uuid that the exchange gives it. -/
def bookSale (market : String) : OrderRequest ℚ where
  market := market
  position := .ask
  type := .market
  size := .volume 1000
  strategyId := "rsi_mean_reversion"
  identifier := "rsi_mean_reversion:" ++ market ++ ":exit_stop:1"
  clientTag := "exit_stop"

def bookUuid (market : String) : String := (bookSale market).identifier ++ "#"

theorem zero_lt_ten : 0 < 10 := by decide

theorem nil_of_leading_zero (first zeros : Nat) (hpos : 0 < first) (h : first < 10) :
    (⟨first, h⟩ : Fin 10) = ⟨0, zero_lt_ten⟩ →
      List.replicate zeros (⟨0, zero_lt_ten⟩ : Fin 10) = [] :=
  fun hzero => absurd (congrArg Fin.val hzero) (Nat.ne_of_gt hpos)

/-- A digit and some zeros. -/
def wholeNumber (first zeros : Nat) (hpos : 0 < first) (h : first < 10) : Json.Number where
  negative := false
  first := ⟨first, h⟩
  rest := List.replicate zeros ⟨0, zero_lt_ten⟩
  no_leading_zero := nil_of_leading_zero first zeros hpos h
  fraction := none
  exponent := none

def membersOf : List (String × Json.Value) → Json.Members
  | [] => .none
  | (name, value) :: rest => .cons [] (Json.spell name) [] [] value [] (membersOf rest)

def objectOf (fields : List (String × Json.Value)) : Json.ObjectText where
  before := []
  inside := []
  members := membersOf fields
  after := []

/-- A candle at 8 KRW, below the stop of a position at 9. -/
def bookCandle (market : String) : Json.ObjectText :=
  let price : Json.Value := .number (wholeNumber 8 0 (by omega) (by omega))
  objectOf
    [("type", .string (Json.spell "candle.15m")), ("code", .string (Json.spell market)),
     ("opening_price", price), ("high_price", price), ("low_price", price), ("trade_price", price),
     ("candle_acc_trade_volume", price),
     ("candle_date_time_kst", .string (Json.spell "2024-01-01T00:00:00"))]

/-- The sale is done. -/
def bookDone (market : String) : Json.ObjectText :=
  let volume : Json.Value := .number (wholeNumber 1 3 (by omega) (by omega))
  objectOf
    [("type", .string (Json.spell "myOrder")), ("code", .string (Json.spell market)),
     ("uuid", .string (Json.spell (bookUuid market))), ("ask_bid", .string (Json.spell "ASK")),
     ("order_type", .string (Json.spell "market")), ("state", .string (Json.spell "done")),
     ("volume", volume), ("executed_volume", volume),
     ("executed_funds", .number (wholeNumber 8 3 (by omega) (by omega)))]

/-- The order that the message is about. -/
def bookClosed : Order where
  market := "KRW-BTC"
  identifier := none
  id := bookUuid "KRW-BTC"
  position := .ask
  type := .market
  volume := some 1000
  executedVolume := 1000
  executedFunds := 8000
  status := .filled

/-- The library, on the texts of the run. -/
def bookParse (text : Bytes) : Option Data :=
  ([bookCandle "KRW-BTC", bookCandle "KRW-ETH", bookDone "KRW-BTC"].find?
    (fun d => d.render = text)).bind Json.ObjectText.data

def bookEnv : ManagerEnv (List Order × List ApiCall) where
  strategy := bookStrategy
  api := bookApi.recorded.toOrderApi
  pendingTimeout := 120

def bookSteps : List BotStep :=
  [.marketData (bookCandle "KRW-BTC").render, .marketData (bookCandle "KRW-ETH").render,
   .turn "KRW-BTC" .handleNext, .turn "KRW-ETH" .handleNext, .turn "KRW-ETH" (.checkTimeout 0),
   .myOrder (bookDone "KRW-BTC").render, .turn "KRW-BTC" .handleNext,
   .turn "KRW-BTC" (.deliverEvents 0), .turn "KRW-ETH" (.checkTimeout 120)]

/-- Both orders are posted, and the one that stays open is queried once. -/
def bookCalls : List ApiCall :=
  [.postOrder (bookSale "KRW-BTC") (.ok (bookUuid "KRW-BTC")),
   .postOrder (bookSale "KRW-ETH") (.ok (bookUuid "KRW-ETH")),
   .getOrder (bookUuid "KRW-ETH")
     (.ok (MarketEngine.pendingOrder (bookSale "KRW-ETH") (bookUuid "KRW-ETH")))]

def bookCreated : Except String MarketEngineManager :=
  (MarketEngineManager.create (AppConfig.standard ℚ).account bookApi .empty bookLedger bookMarkets
    bookConfig (some {}) []).1

def bookManager : MarketEngineManager :=
  match bookCreated with
  | .ok manager => manager
  | .error _ => { store := .empty, accountMgr := bookLedger, db := none, contexts := ∅ }

theorem ok_of_toBool {α : Type} {created : Except String α} (h : created.toBool = true) :
    ∃ a, created = .ok a := by
  cases created with
  | ok a => exact ⟨a, rfl⟩
  | error message => cases h

theorem created_book : bookCreated = .ok bookManager := by
  obtain ⟨manager, hcreated⟩ : ∃ manager, bookCreated = .ok manager :=
    ok_of_toBool (by decide +kernel)
  unfold bookManager
  rw [hcreated]

/-- The state that the run ends in. -/
def bookFinal : Bot × (List Order × List ApiCall) :=
  Machine.run (step bookParse bookEnv) (assemble bookManager, ([], [])) bookSteps

theorem run_book :
    Machine.run
      (step bookParse
        { strategy := bookStrategy, api := bookApi.recorded.toOrderApi, pendingTimeout := 120 })
      (assemble bookManager, ([], [])) bookSteps = bookFinal := rfl

theorem calls_book : bookFinal.2.2 = bookCalls := by decide +kernel

/-- The run has one message about an order, and it goes to the market of the order. -/
theorem myOrder_book {json : Bytes} (h : .myOrder json ∈ bookSteps) {m : String}
    (hm : (assemble bookManager).router.target bookParse json = some (Json.utf8 m)) :
    m = "KRW-BTC" ∧ WsMessageParser.parseMyOrder bookStrategy.cfg bookParse json =
      [.order bookClosed] := by
  obtain rfl : json = (bookDone "KRW-BTC").render := by simpa [bookSteps] using h
  have htarget : (assemble bookManager).router.target bookParse (bookDone "KRW-BTC").render =
      some (Json.utf8 "KRW-BTC") := by decide +kernel
  exact ⟨utf8_injective (Option.some.inj (hm.symm.trans htarget)), by decide +kernel⟩

theorem run_traffic_book :
    bookFinal.2.2 = bookCalls ∧ Justified (Permits bookMarkets) bookFinal.2.2 := by
  have hjustified := run_traffic bookParse bookStrategy unaryUuid_injective bookApi 120
    (AppConfig.standard ℚ).account bookApi .empty bookLedger bookMarkets (by decide +kernel)
    bookConfig (some {}) [] created_book [] bookSteps
  rw [run_book] at hjustified
  exact ⟨calls_book, hjustified⟩

end Bot
end CoinBot
