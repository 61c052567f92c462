import CoinBot.App.Records
import CoinBot.Engine.Outstanding

/- The signals that a running bot hands to its database.

   A signal is recorded when the strategy takes the last status event of the order that it
   waits for. The event has the identifier under which the store has the order, the store
   has it from the post, and the strategy waits for an order that it has decided on itself:
   so a signal is about an order that the exchange has accepted, and says of it what the
   post said (`Reports`). Its number is used up then, and no second signal is about the
   same order (`Bot.signals_reported`). -/
namespace CoinBot

open Journal (Grows Justified)
open Json (Bytes Data)

variable {σ : Type}

/-! The engine knows an order by the identifier it was posted with. -/

namespace MarketEngine

/-- The stored orders and the status events that wait have uuids and identifiers that go
    together. -/
structure Attested (P : String → String → Prop) (e : MarketEngine) : Prop where
  stored : ∀ uuid o, e.store.get uuid = some o → ∃ identifier, o.identifier = some identifier ∧
    P uuid identifier
  announced : ∀ ev ∈ e.statuses, P ev.orderUuid ev.identifier

variable {P : String → String → Prop} {e e' : MarketEngine}

theorem Attested.frame (h : Attested P e) (hstore : e'.store = e.store)
    (hstatuses : e'.statuses = e.statuses) : Attested P e' := by
  refine ⟨?_, ?_⟩
  · rw [hstore]
    exact h.stored
  · rw [hstatuses]
    exact h.announced

theorem Attested.onOrderSnapshot (cfg : AppConfig ℚ) (h : Attested P e) (s : Order) :
    Attested P (e.onOrderSnapshot cfg s) := by
  by_cases hskip : ¬ e.forMarket s.market ∨ e.store.get s.id = none
  · rw [onOrderSnapshot_skip hskip]
    exact h
  · rw [not_or, not_not] at hskip
    obtain ⟨old, hold⟩ := Option.ne_none_iff_exists'.mp hskip.2
    obtain ⟨identifier, hident, hposted⟩ := h.stored s.id old hold
    have hmerged : (mergeSnapshot old s).identifier = some identifier := by
      show (old.identifier <|> s.identifier) = some identifier
      rw [hident]
      rfl
    refine ⟨fun uuid o ho => ?_, fun ev hev => ?_⟩
    · rw [get_onOrderSnapshot cfg hskip.1 hold] at ho
      split at ho
      · next hid =>
        split at ho
        · cases ho
        · obtain rfl := Option.some.inj ho
          exact ⟨identifier, hmerged, hid ▸ hposted⟩
      · exact h.stored uuid o ho
    · obtain ⟨store, hevents⟩ := events_onOrderSnapshot cfg hskip.1 hold
      unfold statuses at hev
      rw [hevents, List.filterMap_append, List.mem_append] at hev
      rcases hev with hev | hev
      · exact h.announced ev hev
      · split at hev
        · by_cases hempty : identifier = ""
          · simp [statusEvents, hmerged, hempty] at hev
          · rw [statusEvents_named cfg _ hmerged hempty] at hev
            obtain rfl := List.mem_singleton.mp hev
            show P (mergeSnapshot old s).id identifier
            rw [id_mergeSnapshot, OrderStore.id_of_get hold]
            exact hposted
        · cases hev

theorem Attested.deliver (cfg : AppConfig ℚ) (h : Attested P e) (msg : Message) :
    Attested P (e.deliver cfg msg) := by
  cases msg with
  | trade t => exact h.frame (e.onMyTrade_frame cfg t).2.1 (statuses_onMyTrade cfg e t)
  | snapshot s => exact h.onOrderSnapshot cfg s
  | reconcile s =>
    show Attested P (e.reconcileFromSnapshot cfg s).2
    rcases e.reconcileFromSnapshot_cases cfg s with hskip | ⟨prev, settled, -, -, hdelta, heq⟩
    · rw [hskip]
      exact h
    · have hframe := onlySettles_settleDelta hdelta
      have hsettled : Attested P settled := by
        refine h.frame hframe.store ?_
        unfold statuses
        rw [hframe.events]
      rw [heq]
      exact hsettled.onOrderSnapshot cfg s

end MarketEngine

/-! The strategy knows what it waits for. -/

/-- The signal says of the order what its post said. -/
structure Reports (sig : SignalRecord ℚ) (req : OrderRequest ℚ) : Prop where
  identifier : sig.identifier = req.identifier
  market : sig.market = req.market
  side : sig.side = .buy ↔ req.position = .bid
  exitReason : sig.exitReason = if req.position = .ask then req.clientTag else ""

namespace RsiMeanReversionStrategy

/-- The strategy waits for the order. -/
structure AwaitsOrder (st : RsiMeanReversionStrategy ℚ) (req : OrderRequest ℚ) : Prop where
  pending : st.pendingClientId = some req.identifier
  state : st.state = .pending req.position
  exitReason : st.pendingExitReason = if req.position = .ask then req.clientTag else ""

variable {env : StrategyEnv ℚ} {st st' : RsiMeanReversionStrategy ℚ} {req : OrderRequest ℚ}

/-- What comes of a decision: the wait for its order, or the wait as before. -/
structure WaitsOn (st : RsiMeanReversionStrategy ℚ) (d : Decision ℚ)
    (st' : RsiMeanReversionStrategy ℚ) : Prop where
  order : ∀ req, d.order = some req → st'.AwaitsOrder req
  reason : d.order = none → st'.pendingExitReason = st.pendingExitReason

theorem waitsOn_noAction (hreason : st'.pendingExitReason = st.pendingExitReason) :
    st.WaitsOn .noAction st' := ⟨fun _ horder => (nomatch horder), fun _ => hreason⟩

theorem waitsOn_exitWith (env : StrategyEnv ℚ) (st : RsiMeanReversionStrategy ℚ) (s : Snapshot ℚ)
    (coin : ℚ) (tag : String) :
    st.WaitsOn (st.exitWith env s coin tag).1 (st.exitWith env s coin tag).2 := by
  refine ⟨fun req horder => ?_, fun hnone => nomatch hnone⟩
  obtain rfl := Option.some.inj horder
  exact ⟨rfl, rfl, rfl⟩

theorem Waits.waitsOn_decideOn (hw : st.Waits) (env : StrategyEnv ℚ) (s : Snapshot ℚ)
    (account : AccountSnapshot ℚ) :
    st.WaitsOn (st.decideOn env s account).1 (st.decideOn env s account).2 := by
  unfold RsiMeanReversionStrategy.decideOn
  cases hstate : st.state with
  | flat =>
    rcases st.maybeEnter_cases env s account with hnone | ⟨krwToUse, -, -, -, -, -, -, hsubmit⟩
    · simp only [hnone]
      exact waitsOn_noAction rfl
    · simp only [hsubmit]
      refine ⟨fun req horder => ?_, fun hnone => nomatch hnone⟩
      obtain rfl := Option.some.inj horder
      -- Nothing is left of an earlier exit.
      have hidle := hw.idle_iff.mp (by rw [hstate]; rfl)
      exact ⟨rfl, rfl, (hw.cleared hidle).2.2.2⟩
  | inPosition =>
    rcases st.maybeExit_cases env s account with ⟨seq, hnone⟩ | ⟨_, _, _, -, hsubmit⟩
    · simp only [hnone]
      exact waitsOn_noAction rfl
    · simp only [hsubmit]
      exact waitsOn_exitWith env st s _ _
  | pendingEntry | pendingExit => exact waitsOn_noAction rfl

theorem Waits.waitsOn_onCandle (hw : st.Waits) (env : StrategyEnv ℚ) (c : Candle ℚ)
    (account : AccountSnapshot ℚ) :
    st.WaitsOn (st.onCandle env c account).1 (st.onCandle env c account).2 := by
  rcases st.onCandle_cases env c account with hskip | ⟨-, heq⟩
  · rw [hskip]
    exact waitsOn_noAction rfl
  · have hobserved : (st.observe env c).2.Waits := ⟨hw.pending, hw.cleared⟩
    have hdecided := (hobserved.selfHeal env c.closePrice account).waitsOn_decideOn env
      (st.observe env c).1 account
    rw [heq]
    refine ⟨hdecided.order, fun hnone => (hdecided.reason hnone).trans ?_⟩
    exact pendingExitReason_selfHeal env (st.observe env c).2 c.closePrice account

theorem waitsOn_onIntrabarCandle (env : StrategyEnv ℚ) (st : RsiMeanReversionStrategy ℚ)
    (close : ℚ) (account : AccountSnapshot ℚ) :
    st.WaitsOn (st.onIntrabarCandle env close account).1
      (st.onIntrabarCandle env close account).2 := by
  rcases st.onIntrabarCandle_cases env close account with hskip | ⟨_, _, -, -, hsubmit⟩
  · rw [hskip]
    exact waitsOn_noAction rfl
  · rw [hsubmit]
    exact waitsOn_exitWith env st _ _ _

theorem AwaitsOrder.decided {d : Decision ℚ} (h : st.AwaitsOrder req) (hd : st.Decides d st')
    (hwaits : st.WaitsOn d st') (hnone : d.order = none) : st'.AwaitsOrder req := by
  unfold Decides at hd
  rw [hnone] at hd
  obtain ⟨hpending, hstate⟩ := hd
  refine ⟨hpending.trans h.pending, ?_, (hwaits.reason hnone).trans h.exitReason⟩
  rcases hstate with hsame | ⟨hidle, -⟩
  · exact hsame.trans h.state
  · rw [h.state, StrategyState.isIdle_pending] at hidle
    cases hidle

/-- A signal is about the order that the strategy waits for, and ends the wait. -/
theorem signal_onOrderUpdate {ev : OrderStatusEvent ℚ} {nowMs : Int} {sig : SignalRecord ℚ}
    (h : (st.onOrderUpdate ev nowMs).1 = some sig) :
    st.pendingClientId = some sig.identifier ∧ ev.identifier = sig.identifier ∧
      sig.market = st.market ∧
      ∀ req, st.AwaitsOrder req → st.market = req.market → Reports sig req := by
  by_cases hid : st.pendingClientId = some ev.identifier
  · have hown : ∀ req, st.AwaitsOrder req → ev.identifier = req.identifier := fun req hawaits =>
      Option.some.inj (hid.symm.trans hawaits.pending)
    have hbuy : ∀ req, st.AwaitsOrder req → st.state = .pendingEntry → req.position = .bid := by
      intro req hawaits hstate
      rw [hawaits.state] at hstate
      cases hposition : req.position with
      | bid => rfl
      | ask =>
        rw [hposition] at hstate
        cases hstate
    have hsell : ∀ req, st.AwaitsOrder req → st.state = .pendingExit → req.position = .ask := by
      intro req hawaits hstate
      rw [hawaits.state] at hstate
      cases hposition : req.position with
      | bid =>
        rw [hposition] at hstate
        cases hstate
      | ask => rfl
    have hsold : ∀ {isPartial : Nat}, st.state = .pendingExit →
        st.sellSignal ev.identifier ev isPartial nowMs = sig →
        st.pendingClientId = some sig.identifier ∧ ev.identifier = sig.identifier ∧
          sig.market = st.market ∧
          ∀ req, st.AwaitsOrder req → st.market = req.market → Reports sig req := by
      rintro isPartial hstate rfl
      refine ⟨hid, rfl, rfl, fun req hawaits hmarket => ⟨hown req hawaits, hmarket, ?_,
        hawaits.exitReason⟩⟩
      rw [hsell req hawaits hstate]
      exact ⟨fun hside => (nomatch hside), fun hside => (nomatch hside)⟩
    unfold onOrderUpdate at h
    rw [hid] at h
    simp only [ne_eq, not_true_eq_false, if_false] at h
    split at h
    · cases h
    · split at h
      · cases h
      · split at h
        · next hstate _ =>
          unfold confirmEntry at h
          obtain ⟨entry, -, rfl⟩ := Option.map_eq_some_iff.mp h
          refine ⟨hid, rfl, rfl, fun req hawaits hmarket => ⟨hown req hawaits, hmarket, ?_, ?_⟩⟩
          · exact iff_of_true rfl (hbuy req hawaits hstate)
          · rw [hbuy req hawaits hstate]
            rfl
        · next hstate _ =>
          unfold confirmReduction at h
          simp only at h
          split at h
          · exact hsold hstate (Option.some.inj h)
          · cases h
        · next hstate _ =>
          unfold confirmExit at h
          simp only at h
          split at h
          · exact hsold hstate (Option.some.inj h)
          · cases h
        · cases h
  · rw [onOrderUpdate_other hid] at h
    cases h

theorem onOrderUpdate_wait (st : RsiMeanReversionStrategy ℚ) (ev : OrderStatusEvent ℚ)
    (nowMs : Int) :
    st.onOrderUpdate ev nowMs = (none, st) ∨
      (st.onOrderUpdate ev nowMs).2.pendingClientId = none := by
  by_cases hid : st.pendingClientId = some ev.identifier
  · by_cases hterm : ev.status.isTerminal = true
    · exact .inr (st.onOrderUpdate_own ev hid hterm nowMs).1
    · left
      unfold onOrderUpdate
      simp [hid, hterm]
  · exact .inl (onOrderUpdate_other hid nowMs)

theorem AwaitsOrder.onFill (h : st.AwaitsOrder req) (fill : FillEvent ℚ) :
    (st.onFill fill).AwaitsOrder req := by
  obtain ⟨hpending, hstate⟩ := st.onFill_frame fill
  exact ⟨hpending.trans h.pending, hstate.trans h.state,
    (st.prices_onFill fill).2.2.2.2.trans h.exitReason⟩

end RsiMeanReversionStrategy

/-! The worker. -/

/-- The signals that were handed to the database. -/
def signalsOf (db : Option Database) : List (SignalRecord ℚ) := db.elim [] (·.signals)

/-- The exchange has accepted an order with the identifier under the uuid. -/
def Posted (log : List ApiCall) (uuid identifier : String) : Prop :=
  ∃ req, ApiCall.postOrder req (.ok uuid) ∈ log ∧ req.identifier = identifier

/-- What the store and the database say of the posts. -/
structure Book (strategy : StrategyEnv ℚ) (log : List ApiCall) (store : OrderStore)
    (signals : List (SignalRecord ℚ)) : Prop where
  posted : ∀ req answer, ApiCall.postOrder req answer ∈ log → ':' ∉ req.market.toList ∧
    ∃ n, RsiMeanReversionStrategy.Numbered strategy req.market n req.identifier
  stored : ∀ uuid o, store.get uuid = some o → ∃ identifier, o.identifier = some identifier ∧
    Posted log uuid identifier
  reported : ∀ sig ∈ signals, ∃ req uuid, ApiCall.postOrder req (.ok uuid) ∈ log ∧ Reports sig req
  distinct : (signals.map (·.identifier)).Nodup

namespace MarketContext

/-- What a context says of them. The pending order has a number that no signal has. -/
structure Tells (strategy : StrategyEnv ℚ) (market : String) (ctx : MarketContext)
    (log : List ApiCall) (signals : List (SignalRecord ℚ)) : Prop where
  traced : Traced strategy market ctx log
  waits : ctx.strategy.Waits
  announced : ∀ ev ∈ ctx.engine.statuses, Posted log ev.orderUuid ev.identifier
  pending : ∀ cid, ctx.strategy.pendingClientId = some cid →
    ∃ n ≤ ctx.strategy.seq, RsiMeanReversionStrategy.Numbered strategy market n cid ∧
      (∀ req answer, ApiCall.postOrder req answer ∈ log → req.identifier = cid →
        ctx.strategy.AwaitsOrder req) ∧
      ∀ sig ∈ signals, sig.market = market →
        ∃ n' < n, RsiMeanReversionStrategy.Numbered strategy market n' sig.identifier
  spent : ∀ sig ∈ signals, sig.market = market →
    ∃ n ≤ ctx.strategy.seq, RsiMeanReversionStrategy.Numbered strategy market n sig.identifier

/-- Both, with the signals of the context's database. -/
structure Told (strategy : StrategyEnv ℚ) (market : String)
    (state : MarketContext × (σ × List ApiCall)) : Prop where
  book : Book strategy state.2.2 state.1.engine.store (signalsOf state.1.db)
  tells : Tells strategy market state.1 state.2.2 (signalsOf state.1.db)

variable {strategy : StrategyEnv ℚ} {market : String} {ctx ctx' : MarketContext}
  {st st' : σ × List ApiCall} {env : ManagerEnv (σ × List ApiCall)} {api : IOrderApi σ}

/-- The strategy is not called, the exchange is asked for no order, nothing is signalled. -/
theorem Told.quiet (h : Told strategy market (ctx, st)) (htraced : Traced strategy market ctx' st'.2)
    (hstrategy : ctx'.strategy = ctx.strategy) (hsignals : signalsOf ctx'.db = signalsOf ctx.db)
    (hattested : ctx'.engine.Attested (Posted st.2))
    (hposts : ∀ req answer, ApiCall.postOrder req answer ∈ st'.2 ↔ .postOrder req answer ∈ st.2) :
    Told strategy market (ctx', st') := by
  have hsame : Posted st'.2 = Posted st.2 := by
    funext uuid identifier
    exact propext (exists_congr fun req => and_congr_left fun _ => hposts req (.ok uuid))
  obtain ⟨⟨hposted, -, hreported, hdistinct⟩, ⟨-, hwaits, -, hpending, hspent⟩⟩ := h
  refine ⟨⟨fun req answer hmem => hposted req answer ((hposts req answer).mp hmem), ?_,
    fun sig hsig => ?_, ?_⟩, ⟨htraced, ?_, ?_, fun cid hcid => ?_, ?_⟩⟩
  · rw [hsame]
    exact hattested.stored
  · simp only [hsignals] at hsig
    obtain ⟨req, uuid, hmem, hreports⟩ := hreported sig hsig
    exact ⟨req, uuid, (hposts req _).mpr hmem, hreports⟩
  · simp only [hsignals]
    exact hdistinct
  · simp only [hstrategy]
    exact hwaits
  · rw [hsame]
    exact hattested.announced
  · simp only [hstrategy, hsignals] at hcid ⊢
    obtain ⟨n, hle, hnumbered, hawaits, hsigs⟩ := hpending cid hcid
    exact ⟨n, hle, hnumbered,
      fun req answer hmem => hawaits req answer ((hposts req answer).mp hmem), hsigs⟩
  · simp only [hstrategy, hsignals]
    exact hspent

theorem Told.attested (h : Told strategy market (ctx, st)) :
    ctx.engine.Attested (Posted st.2) := ⟨h.book.stored, h.tells.announced⟩

/-! Order messages and recovery. -/

theorem signalsOf_insertOrder (ctx : MarketContext) (o : Order) :
    signalsOf (ctx.insertOrder o).db = signalsOf ctx.db := by
  show signalsOf (ctx.db.map _) = _
  cases ctx.db with
  | none => rfl
  | some d => rfl

/-- The engine takes messages, and the strategy nothing. -/
structure Hears (ctx ctx' : MarketContext) : Prop where
  strategy : ctx'.strategy = ctx.strategy
  signals : signalsOf ctx'.db = signalsOf ctx.db
  attested : ∀ P : String → String → Prop, ctx.engine.Attested P → ctx'.engine.Attested P

theorem Hears.trans {ctx'' : MarketContext} (h : Hears ctx ctx') (h' : Hears ctx' ctx'') :
    Hears ctx ctx'' :=
  ⟨h'.strategy.trans h.strategy, h'.signals.trans h.signals,
    fun P hP => h'.attested P (h.attested P hP)⟩

theorem hears_frame (hstrategy : ctx'.strategy = ctx.strategy) (hdb : ctx'.db = ctx.db)
    (hengine : ctx'.engine = ctx.engine) : Hears ctx ctx' :=
  ⟨hstrategy, by rw [hdb], fun P hP => by rw [hengine]; exact hP⟩

theorem hears_deliver (cfg : AppConfig ℚ) (msg : Message) (hstrategy : ctx'.strategy = ctx.strategy)
    (hsignals : signalsOf ctx'.db = signalsOf ctx.db)
    (hengine : ctx'.engine = ctx.engine.deliver cfg msg) : Hears ctx ctx' :=
  ⟨hstrategy, hsignals, fun P hP => by rw [hengine]; exact hP.deliver cfg msg⟩

theorem hears_handleOrderEvent (cfg : AppConfig ℚ) (ctx : MarketContext) (hasTrade : Bool)
    (ev : MyOrderEvent) : Hears ctx (ctx.handleOrderEvent cfg hasTrade ev) := by
  cases ev with
  | trade t => exact hears_deliver cfg (.trade t) rfl rfl rfl
  | order o =>
    unfold handleOrderEvent
    simp only
    split
    · split
      · exact hears_deliver cfg (.reconcile o) rfl (signalsOf_insertOrder _ o) rfl
      · exact hears_deliver cfg (.reconcile o) rfl rfl rfl
    · split
      · exact hears_deliver cfg (.snapshot o) rfl (signalsOf_insertOrder _ o) rfl
      · exact hears_deliver cfg (.snapshot o) rfl rfl rfl

theorem hears_recoverOrder (cfg : AppConfig ℚ) (api : OrderApi σ) (ctx : MarketContext) (s : σ)
    (orderUuid : String) : Hears ctx (recoverOrder cfg api (ctx, s) orderUuid).1 := by
  unfold recoverOrder
  simp only
  split
  · exact hears_frame rfl rfl rfl
  · split
    · exact hears_frame rfl rfl rfl
    · next o _ _ =>
      split
      · exact hears_deliver cfg (.reconcile o) rfl (signalsOf_insertOrder _ o) rfl
      · exact hears_deliver cfg (.reconcile o) rfl rfl rfl

theorem hears_runRecovery_ (cfg : AppConfig ℚ) (api : OrderApi σ) (ctx : MarketContext) (s : σ) :
    Hears ctx (ctx.runRecovery_ cfg api s).1 := by
  unfold runRecovery_
  simp only
  split
  · exact hears_frame rfl rfl rfl
  · exact ((hears_recoverOrder cfg api ctx s _).trans (hears_recoverOrder cfg api _ _ _)).trans
      (hears_frame rfl rfl rfl)

theorem posts_runRecovery_ (cfg : AppConfig ℚ) (api : IOrderApi σ) (ctx : MarketContext)
    (st : σ × List ApiCall) (req : OrderRequest ℚ) (answer : Except RestError String)
    (hmem : .postOrder req answer ∈ (ctx.runRecovery_ cfg api.recorded.toOrderApi st).2.2) :
    ApiCall.postOrder req answer ∈ st.2 := by
  have hone : ∀ (ctx : MarketContext) (st : σ × List ApiCall) (orderUuid : String),
      .postOrder req answer ∈ (recoverOrder cfg api.recorded.toOrderApi (ctx, st) orderUuid).2.2 →
        ApiCall.postOrder req answer ∈ st.2 := by
    intro ctx st orderUuid h
    unfold recoverOrder at h
    simp only at h
    split at h
    · exact h
    · apply posts_query api orderUuid 3 st
      split at h
      · next heq =>
        rw [heq]
        exact posts_account h
      · next heq =>
        rw [heq]
        exact h
  unfold runRecovery_ at hmem
  simp only at hmem
  split at hmem
  · exact hmem
  · exact hone _ _ _ (hone _ _ _ hmem)

/-! Decisions. -/

theorem Decides.waitsOn {decided : Decision ℚ × RsiMeanReversionStrategy ℚ}
    (h : Decides strategy ctx decided) (hw : ctx.strategy.Waits) :
    decided.2.Waits ∧ ctx.strategy.Decides decided.1 decided.2 ∧
      ctx.strategy.WaitsOn decided.1 decided.2 := by
  cases h with
  | onCandle candle =>
    exact ⟨hw.step strategy (.onCandle candle _), ctx.strategy.decides_onCandle strategy candle _,
      hw.waitsOn_onCandle strategy candle _⟩
  | onIntrabarCandle close =>
    exact ⟨hw.step strategy (.onIntrabarCandle close _),
      ctx.strategy.decides_onIntrabarCandle strategy close _,
      ctx.strategy.waitsOn_onIntrabarCandle strategy close _⟩

theorem Told.decide {decided : Decision ℚ × RsiMeanReversionStrategy ℚ}
    (h : Told env.strategy market (ctx, st)) (hdecided : Decides env.strategy ctx decided)
    (hnone : decided.1.order = none)
    (htraced : Traced env.strategy market { ctx with strategy := decided.2 } st.2) :
    Told env.strategy market ({ ctx with strategy := decided.2 }, st) := by
  obtain ⟨hbook, ⟨-, hwaits, hannounced, hpending, hspent⟩⟩ := h
  obtain ⟨-, -, hseq⟩ := hdecided.next
  obtain ⟨hwaits', hdecides, hwaitsOn⟩ := hdecided.waitsOn hwaits
  refine ⟨hbook, ⟨htraced, hwaits', hannounced, fun cid hcid => ?_, fun sig hsig hmarket => ?_⟩⟩
  · have hsame : decided.2.pendingClientId = ctx.strategy.pendingClientId := by
      have hd := hdecides
      unfold RsiMeanReversionStrategy.Decides at hd
      rw [hnone] at hd
      exact hd.1
    obtain ⟨n, hle, hnumbered, hawaits, hsigs⟩ := hpending cid (hsame ▸ hcid)
    exact ⟨n, hle.trans hseq, hnumbered,
      fun req answer hmem hreq => (hawaits req answer hmem hreq).decided hdecides hwaitsOn hnone,
      hsigs⟩
  · obtain ⟨n, hle, hnumbered⟩ := hspent sig hsig hmarket
    exact ⟨n, hle.trans hseq, hnumbered⟩

theorem stored_submit (api : IOrderApi σ) (cfg : AppConfig ℚ) (ctx : MarketContext)
    {req : OrderRequest ℚ} (hne : req.identifier ≠ "") (st : σ × List ApiCall)
    (h : ctx.engine.Attested (Posted st.2)) :
    let r := ctx.engine.submit cfg api.recorded.postOrder req st
    (r.2.2 = st.2 ∨ ∃ answer, r.2.2 = st.2 ++ [.postOrder req answer]) ∧
      r.1.2.Attested (Posted r.2.2) := by
  intro r
  obtain ⟨hevents, hcases⟩ := ctx.engine.submit_store cfg api req st
  have hstatuses : r.1.2.statuses = ctx.engine.statuses := by
    unfold MarketEngine.statuses
    rw [hevents]
  have hmono : ∀ {answer uuid identifier}, Posted st.2 uuid identifier →
      Posted (st.2 ++ [.postOrder req answer]) uuid identifier := by
    rintro answer uuid identifier ⟨req', hmem, hident⟩
    exact ⟨req', List.mem_append_left _ hmem, hident⟩
  rcases hcases with ⟨hst, hstore⟩ | ⟨hlog, ⟨-, hstore⟩ | ⟨uuid, hanswer, hstore⟩⟩
  · rw [hst]
    exact ⟨.inl rfl, h.frame hstore hstatuses⟩
  · rw [hlog]
    refine ⟨.inr ⟨_, rfl⟩, MarketEngine.Attested.frame ⟨fun uuid o ho => ?_, fun ev hev => ?_⟩
      hstore hstatuses⟩
    · obtain ⟨identifier, hident, hposted⟩ := h.stored uuid o ho
      exact ⟨identifier, hident, hmono hposted⟩
    · exact hmono (h.announced ev hev)
  · rw [hlog]
    refine ⟨.inr ⟨_, rfl⟩, ⟨fun uuid' o ho => ?_, fun ev hev => ?_⟩⟩
    · rw [hstore, OrderStore.upsert] at ho
      split at ho
      · obtain ⟨identifier, hident, hposted⟩ := h.stored uuid' o ho
        exact ⟨identifier, hident, hmono hposted⟩
      · next hid =>
        by_cases hsame : uuid' = uuid
        · subst hsame
          have hput := OrderStore.get_put_self ctx.engine.store
            (MarketEngine.pendingOrder req uuid') hid
          obtain rfl := Option.some.inj (hput.symm.trans ho)
          refine ⟨req.identifier, if_neg hne, req, List.mem_append_right _ ?_, rfl⟩
          rw [hanswer]
          exact List.mem_singleton.mpr rfl
        · rw [OrderStore.get_put_ne _ _ hid hsame] at ho
          obtain ⟨identifier, hident, hposted⟩ := h.stored uuid' o ho
          exact ⟨identifier, hident, hmono hposted⟩
    · rw [hstatuses] at hev
      exact hmono (h.announced ev hev)

/-- No earlier post has the number of an order that was decided on. -/
theorem Told.fresh (huuid : Function.Injective env.strategy.uuid) (hcolon : ':' ∉ market.toList)
    {decided : Decision ℚ × RsiMeanReversionStrategy ℚ} {req : OrderRequest ℚ}
    (h : Told env.strategy market (ctx, st)) (hdecided : Decides env.strategy ctx decided)
    (horder : decided.1.order = some req) :
    ∀ req' answer, ApiCall.postOrder req' answer ∈ st.2 → req'.identifier ≠ req.identifier := by
  intro req' answer hmem hsame
  obtain ⟨hnext, -, -⟩ := hdecided.next
  obtain ⟨hmarket, hlt, hnumbered⟩ := hnext req horder
  have hown : ctx.strategy.market = market := h.tells.traced.strategy
  rw [hown] at hnumbered
  obtain ⟨hcolon', n', hnumbered'⟩ := h.book.posted req' answer hmem
  rw [hsame] at hnumbered'
  obtain ⟨hmarket', -⟩ := RsiMeanReversionStrategy.numbered_inj huuid hcolon' hcolon hnumbered'
    hnumbered
  obtain ⟨n, hle, hnum⟩ := h.tells.traced.numbers req' answer hmem hmarket'
  rw [hsame] at hnum
  obtain ⟨-, rfl⟩ := RsiMeanReversionStrategy.numbered_inj huuid hcolon hcolon hnum hnumbered
  exact absurd (Nat.lt_of_le_of_lt hle hlt) (lt_irrefl _)

theorem Told.submitOrder (henv : env.api = api.recorded.toOrderApi)
    (huuid : Function.Injective env.strategy.uuid) (hcolon : ':' ∉ market.toList)
    {decided : Decision ℚ × RsiMeanReversionStrategy ℚ} {req : OrderRequest ℚ}
    (h : Told env.strategy market (ctx, st)) (hdecided : Decides env.strategy ctx decided)
    (horder : decided.1.order = some req)
    (htraced : Traced env.strategy market
      ({ ctx with strategy := decided.2 }.submitOrder env req st).2.1
      ({ ctx with strategy := decided.2 }.submitOrder env req st).2.2.2) :
    Told env.strategy market ({ ctx with strategy := decided.2 }.submitOrder env req st).2 ∧
      signalsOf ({ ctx with strategy := decided.2 }.submitOrder env req st).2.1.db =
        signalsOf ctx.db := by
  have hfresh := h.fresh huuid hcolon hdecided horder
  obtain ⟨⟨hposted, hstored, hreported, hdistinct⟩,
    ⟨hbefore, hwaits, hannounced, -, hspent⟩⟩ := h
  obtain ⟨hnext, -, -⟩ := hdecided.next
  obtain ⟨hmarket, hlt, hnumbered⟩ := hnext req horder
  obtain ⟨hwaits', -, hwaitsOn⟩ := hdecided.waitsOn hwaits
  have hawaits := hwaitsOn.order req horder
  have hown : ctx.strategy.market = market := hbefore.strategy
  rw [hown] at hmarket hnumbered
  have hfailed : decided.2.onSubmitFailed.pendingClientId = none :=
    (RsiMeanReversionStrategy.onSubmitFailed_idle hawaits.pending hawaits.state).1
  have hseqFailed : decided.2.seq ≤ decided.2.onSubmitFailed.seq :=
    decided.2.seq_step env.strategy .onSubmitFailed
  obtain ⟨hlog, hattested⟩ := stored_submit api env.cfg { ctx with strategy := decided.2 }
    hnumbered.ne st ⟨hstored, hannounced⟩
  have hposts : ∀ req' answer, ApiCall.postOrder req' answer ∈ (ctx.engine.submit env.cfg
      api.recorded.postOrder req st).2.2 → .postOrder req' answer ∈ st.2 ∨ req' = req := by
    intro req' answer hmem
    rcases hlog with hsame | ⟨reply, happend⟩
    · exact .inl (hsame ▸ hmem)
    · rw [happend] at hmem
      rcases List.mem_append.mp hmem with hold | hnew
      · exact .inl hold
      · exact .inr (ApiCall.postOrder.inj (List.mem_singleton.mp hnew)).1
  have hmono : ∀ c, c ∈ st.2 → c ∈ (ctx.engine.submit env.cfg api.recorded.postOrder req
      st).2.2 := by
    intro c hmem
    rcases hlog with hsame | ⟨reply, happend⟩
    · exact hsame ▸ hmem
    · rw [happend]
      exact List.mem_append_left _ hmem
  have hbook : Book env.strategy (ctx.engine.submit env.cfg api.recorded.postOrder req st).2.2
      (ctx.engine.submit env.cfg api.recorded.postOrder req st).1.2.store (signalsOf ctx.db) := by
    refine ⟨fun req' answer hmem => ?_, hattested.stored, fun sig hsig => ?_, hdistinct⟩
    · rcases hposts req' answer hmem with hold | rfl
      · exact hposted req' answer hold
      · rw [hmarket]
        exact ⟨hcolon, _, hnumbered⟩
    · obtain ⟨req', uuid, hmem, hreports⟩ := hreported sig hsig
      exact ⟨req', uuid, hmono _ hmem, hreports⟩
  have hpending : ∀ cid, decided.2.pendingClientId = some cid → ∃ n ≤ decided.2.seq,
      RsiMeanReversionStrategy.Numbered env.strategy market n cid ∧
        (∀ req' answer, ApiCall.postOrder req' answer ∈ (ctx.engine.submit env.cfg
          api.recorded.postOrder req st).2.2 → req'.identifier = cid →
            decided.2.AwaitsOrder req') ∧
        ∀ sig ∈ signalsOf ctx.db, sig.market = market → ∃ n' < n,
          RsiMeanReversionStrategy.Numbered env.strategy market n' sig.identifier := by
    intro cid hcid
    obtain rfl := Option.some.inj (hawaits.pending.symm.trans hcid)
    refine ⟨decided.2.seq, le_rfl, hnumbered, fun req' answer hmem hident => ?_,
      fun sig hsig hmkt => ?_⟩
    · rcases hposts req' answer hmem with hold | rfl
      · exact absurd hident (hfresh req' answer hold)
      · exact hawaits
    · obtain ⟨n, hle, hnum⟩ := hspent sig hsig hmkt
      exact ⟨n, Nat.lt_of_le_of_lt hle hlt, hnum⟩
  unfold MarketContext.submitOrder at htraced ⊢
  rw [henv] at htraced ⊢
  simp only at htraced ⊢
  split at htraced
  · next hok =>
    rw [if_pos hok]
    refine ⟨⟨hbook, ⟨htraced, hwaits', hattested.announced, hpending, fun sig hsig hmkt => ?_⟩⟩,
      rfl⟩
    obtain ⟨n, hle, hnum⟩ := hspent sig hsig hmkt
    exact ⟨n, hle.trans hlt.le, hnum⟩
  · next hrefused =>
    rw [if_neg hrefused]
    refine ⟨⟨hbook, ⟨htraced, hwaits'.onSubmitFailed, hattested.announced, fun cid hcid => ?_,
      fun sig hsig hmkt => ?_⟩⟩, rfl⟩
    · rw [hfailed] at hcid
      cases hcid
    · obtain ⟨n, hle, hnum⟩ := hspent sig hsig hmkt
      exact ⟨n, (hle.trans hlt.le).trans hseqFailed, hnum⟩

/-! Engine events. -/

/-- The signals grow by those of the market. -/
def SignalsOn (market : String) (db db' : Option Database) : Prop :=
  ∃ new, signalsOf db' = signalsOf db ++ new ∧ ∀ sig ∈ new, sig.market = market

theorem SignalsOn.refl (market : String) (db : Option Database) : SignalsOn market db db :=
  ⟨[], (List.append_nil _).symm, fun _ hsig => absurd hsig List.not_mem_nil⟩

theorem signalsOn_same {db db' : Option Database} (h : signalsOf db' = signalsOf db) :
    SignalsOn market db db' :=
  ⟨[], h.trans (List.append_nil _).symm, fun _ hsig => absurd hsig List.not_mem_nil⟩

theorem SignalsOn.trans {db db' db'' : Option Database} (h : SignalsOn market db db')
    (h' : SignalsOn market db' db'') : SignalsOn market db db'' := by
  obtain ⟨new, heq, hnew⟩ := h
  obtain ⟨new', heq', hnew'⟩ := h'
  refine ⟨new ++ new', by rw [heq', heq, List.append_assoc], fun sig hsig => ?_⟩
  exact (List.mem_append.mp hsig).elim (hnew sig) (hnew' sig)

theorem signalsOf_insertSignal (ctx : MarketContext) (signal : Option (SignalRecord ℚ)) :
    signalsOf (ctx.insertSignal signal).db = signalsOf ctx.db ∨
      ∃ sig, signal = some sig ∧
        signalsOf (ctx.insertSignal signal).db = signalsOf ctx.db ++ [sig] := by
  show signalsOf (ctx.db.map _) = _ ∨ ∃ sig, _ ∧ signalsOf (ctx.db.map _) = _
  cases ctx.db with
  | none => exact .inl rfl
  | some d =>
    cases signal with
    | none => exact .inl (List.append_nil _)
    | some sig => exact .inr ⟨sig, rfl, rfl⟩

/-- The signal of an accepted order is the first about it. -/
theorem Book.signal {store : OrderStore} {log : List ApiCall} {signals : List (SignalRecord ℚ)}
    (hbook : Book strategy log store signals) (huuid : Function.Injective strategy.uuid)
    (hcolon : ':' ∉ market.toList) (htells : Tells strategy market ctx log signals)
    {uuid : String} {sig : SignalRecord ℚ} (hposted : Posted log uuid sig.identifier)
    (hpending : ctx.strategy.pendingClientId = some sig.identifier)
    (hreports : ∀ req, ctx.strategy.AwaitsOrder req → ctx.strategy.market = req.market →
      Reports sig req) : Book strategy log store (signals ++ [sig]) := by
  obtain ⟨n, -, hnumbered, hawaits, hearlier⟩ := htells.pending sig.identifier hpending
  have hown : ∀ req answer, ApiCall.postOrder req answer ∈ log →
      req.identifier = sig.identifier → req.market = market := by
    intro req answer hmem hsame
    obtain ⟨hcolon', n', hnumbered'⟩ := hbook.posted req answer hmem
    rw [hsame] at hnumbered'
    exact (RsiMeanReversionStrategy.numbered_inj huuid hcolon' hcolon hnumbered' hnumbered).1
  obtain ⟨req, hmem, hident⟩ := hposted
  have hthis : Reports sig req := by
    refine hreports req (hawaits req _ hmem hident) ?_
    rw [hown req _ hmem hident]
    exact htells.traced.strategy
  refine ⟨hbook.posted, hbook.stored, fun sig' hsig' => ?_, ?_⟩
  · rcases List.mem_append.mp hsig' with hold | hnew
    · exact hbook.reported sig' hold
    · rw [List.mem_singleton.mp hnew]
      exact ⟨req, uuid, hmem, hthis⟩
  · rw [List.map_append]
    refine hbook.distinct.append (List.nodup_singleton _) (List.disjoint_singleton.mpr ?_)
    -- An earlier signal of the market has an earlier number.
    intro hmem'
    obtain ⟨sig', hsig', hsame⟩ := List.mem_map.mp hmem'
    obtain ⟨req', uuid', hposted', hreports'⟩ := hbook.reported sig' hsig'
    have hmarket' : sig'.market = market := by
      rw [hreports'.market]
      exact hown req' _ hposted' (hreports'.identifier.symm.trans hsame)
    obtain ⟨n', hlt, hnumbered'⟩ := hearlier sig' hsig' hmarket'
    rw [hsame] at hnumbered'
    obtain ⟨-, rfl⟩ := RsiMeanReversionStrategy.numbered_inj huuid hcolon hcolon hnumbered' hnumbered
    exact absurd hlt (lt_irrefl _)

theorem Told.status (huuid : Function.Injective strategy.uuid) (hcolon : ':' ∉ market.toList)
    (h : Told strategy market (ctx, st)) {ev : EngineOrderStatusEvent}
    (hposted : Posted st.2 ev.orderUuid ev.identifier) (nowMs : Int) :
    Told strategy market (ctx.handleEngineEvent nowMs (.status ev), st) ∧
      SignalsOn market ctx.db (ctx.handleEngineEvent nowMs (.status ev)).db := by
  obtain ⟨hbook, htells⟩ := h
  unfold handleEngineEvent
  simp only
  generalize hout :
    ({ identifier := ev.identifier
       status := ev.status
       position := ev.position
       executedVolume := ev.executedVolume
       remainingVolume := ev.remainingVolume
       executedFunds := ev.executedFunds
       positionEffect := ev.positionEffect } : OrderStatusEvent ℚ) = out
  have hident : out.identifier = ev.identifier := by rw [← hout]
  set after := (ctx.strategy.onOrderUpdate out nowMs).2 with hafter
  have hafterTraced : Traced strategy market { ctx with strategy := after } st.2 :=
    htells.traced.quiet (quiets_step strategy (.onOrderUpdate out nowMs) rfl rfl)
  have htraced : Traced strategy market ({ ctx with strategy := after }.insertSignal
      (ctx.strategy.onOrderUpdate out nowMs).1) st.2 := hafterTraced.quiet (quiets_frame rfl rfl)
  have hseq : ctx.strategy.seq ≤ after.seq :=
    ctx.strategy.seq_step strategy (.onOrderUpdate out nowMs)
  have hspent : ∀ sig ∈ signalsOf ctx.db, sig.market = market →
      ∃ n ≤ after.seq, RsiMeanReversionStrategy.Numbered strategy market n sig.identifier := by
    intro sig hsig hmarket
    obtain ⟨n, hle, hnumbered⟩ := htells.spent sig hsig hmarket
    exact ⟨n, hle.trans hseq, hnumbered⟩
  have hwaits := htells.waits.onOrderUpdate out nowMs
  rcases signalsOf_insertSignal { ctx with strategy := after }
      (ctx.strategy.onOrderUpdate out nowMs).1 with hsame | ⟨sig, hsig, happend⟩
  · refine ⟨⟨?_, ⟨htraced, hwaits, htells.announced, fun cid hcid => ?_, ?_⟩⟩,
      signalsOn_same hsame⟩
    · simp only [hsame]
      exact hbook
    · rcases ctx.strategy.onOrderUpdate_wait out nowMs with hstay | hnone
      · have hstrategy : after = ctx.strategy := congrArg Prod.snd hstay
        have hcid' : ctx.strategy.pendingClientId = some cid := hstrategy ▸ hcid
        obtain ⟨n, hle, hnumbered, hawaits, hearlier⟩ := htells.pending cid hcid'
        simp only [hsame]
        refine ⟨n, hle.trans hseq, hnumbered, fun req answer hmem hreq => ?_, hearlier⟩
        have hawaits' : after.AwaitsOrder req := by
          rw [hstrategy]
          exact hawaits req answer hmem hreq
        exact hawaits'
      · exact absurd (hnone.symm.trans hcid) (by simp)
    · simp only [hsame]
      exact hspent
  · obtain ⟨hpending, hev, hmarket, hreports⟩ :=
      RsiMeanReversionStrategy.signal_onOrderUpdate hsig
    have hown : sig.market = market := hmarket.trans htells.traced.strategy
    have hnone : after.pendingClientId = none := by
      rcases ctx.strategy.onOrderUpdate_wait out nowMs with hstay | hnone
      · rw [hstay] at hsig
        cases hsig
      · exact hnone
    rw [← hident, hev] at hposted
    have hbook' := Book.signal hbook huuid hcolon htells hposted hpending hreports
    obtain ⟨n, hle, hnumbered, -⟩ := htells.pending sig.identifier hpending
    refine ⟨⟨?_, ⟨htraced, hwaits, htells.announced, fun cid hcid => ?_, fun sig' hsig' hmkt => ?_⟩⟩,
      ⟨[sig], happend, fun sig' hsig' => ?_⟩⟩
    · simp only [happend]
      exact hbook'
    · exact absurd (hnone.symm.trans hcid) (by simp)
    · simp only [happend] at hsig'
      rcases List.mem_append.mp hsig' with hold | hnew
      · exact hspent sig' hold hmkt
      · rw [List.mem_singleton.mp hnew]
        exact ⟨n, hle.trans hseq, hnumbered⟩
    · rw [List.mem_singleton.mp hsig']
      exact hown

theorem Told.fill (h : Told strategy market (ctx, st)) (ev : EngineFillEvent) (nowMs : Int) :
    Told strategy market (ctx.handleEngineEvent nowMs (.fill ev), st) ∧
      (ctx.handleEngineEvent nowMs (.fill ev)).db = ctx.db := by
  obtain ⟨hbook, htells⟩ := h
  unfold handleEngineEvent
  simp only
  generalize
    ({ identifier := ev.identifier
       position := ev.position
       fillPrice := ev.fillPrice
       filledVolume := ev.filledVolume } : FillEvent ℚ) = fill
  have hseq : ctx.strategy.seq ≤ (ctx.strategy.onFill fill).seq :=
    ctx.strategy.seq_step strategy (.onFill fill)
  refine ⟨⟨hbook, ⟨htells.traced.quiet (quiets_step strategy (.onFill fill) rfl rfl),
    htells.waits.onFill fill, htells.announced, fun cid hcid => ?_, fun sig hsig hmarket => ?_⟩⟩,
    trivial⟩
  · have hsame := (ctx.strategy.onFill_frame fill).1
    obtain ⟨n, hle, hnumbered, hawaits, hearlier⟩ := htells.pending cid (hsame.symm.trans hcid)
    exact ⟨n, hle.trans hseq, hnumbered,
      fun req answer hmem hreq => (hawaits req answer hmem hreq).onFill fill, hearlier⟩
  · obtain ⟨n, hle, hnumbered⟩ := htells.spent sig hsig hmarket
    exact ⟨n, hle.trans hseq, hnumbered⟩

theorem Told.deliverEvents (huuid : Function.Injective strategy.uuid)
    (hcolon : ':' ∉ market.toList) (h : Told strategy market (ctx, st)) (nowMs : Int) :
    Told strategy market (ctx.deliverEvents nowMs, st) ∧
      SignalsOn market ctx.db (ctx.deliverEvents nowMs).db := by
  have hpolled : Told strategy market ({ ctx with engine := ctx.engine.pollEvents.2 }, st) := by
    refine ⟨h.book, ⟨h.tells.traced.quiet ⟨rfl, rfl, fun side => .inr ?_, le_rfl⟩, h.tells.waits,
      fun ev hev => absurd hev List.not_mem_nil, h.tells.pending, h.tells.spent⟩⟩
    cases side <;> rfl
  have hevents : ∀ ev, EngineEvent.status ev ∈ ctx.engine.events →
      Posted st.2 ev.orderUuid ev.identifier := fun ev hev =>
    h.tells.announced ev (List.mem_filterMap.mpr ⟨.status ev, hev, rfl⟩)
  show Told strategy market (handleEngineEvents_ nowMs
      { ctx with engine := ctx.engine.pollEvents.2 } ctx.engine.events, st) ∧
    SignalsOn market ctx.db (handleEngineEvents_ nowMs
      { ctx with engine := ctx.engine.pollEvents.2 } ctx.engine.events).db
  have hdb : SignalsOn market ctx.db
      ({ ctx with engine := ctx.engine.pollEvents.2 } : MarketContext).db := .refl market ctx.db
  unfold handleEngineEvents_
  generalize { ctx with engine := ctx.engine.pollEvents.2 } = polled at hpolled hdb ⊢
  generalize ctx.engine.events = events at hevents ⊢
  induction events generalizing polled with
  | nil => exact ⟨hpolled, hdb⟩
  | cons ev evs ih =>
    have hrest : ∀ ev', EngineEvent.status ev' ∈ evs → Posted st.2 ev'.orderUuid ev'.identifier :=
      fun ev' hev' => hevents ev' (List.mem_cons_of_mem ev hev')
    cases ev with
    | fill ev =>
      obtain ⟨hfilled, hsame⟩ := hpolled.fill ev nowMs
      exact ih _ hfilled (hdb.trans (signalsOn_same (congrArg signalsOf hsame))) hrest
    | status ev =>
      obtain ⟨htold, hon⟩ := hpolled.status huuid hcolon (hevents ev List.mem_cons_self) nowMs
      exact ih _ htold (hdb.trans hon) hrest

/-! The worker. -/

/-- The engine has taken messages; the exchange was asked for no order. -/
theorem Told.hear (h : Told strategy market (ctx, st)) (hhears : Hears ctx ctx')
    (htraced : Traced strategy market ctx' st'.2)
    (hposts : ∀ req answer, ApiCall.postOrder req answer ∈ st'.2 ↔ .postOrder req answer ∈ st.2) :
    Told strategy market (ctx', st') ∧ SignalsOn market ctx.db ctx'.db :=
  ⟨h.quiet htraced hhears.strategy hhears.signals (hhears.attested _ h.attested) hposts,
    signalsOn_same hhears.signals⟩

theorem told_move (henv : env.api = api.recorded.toOrderApi)
    (huuid : Function.Injective env.strategy.uuid) (hcolon : ':' ∉ market.toList)
    {state state' : MarketContext × (σ × List ApiCall)} (hmove : Move env state state')
    (h : Told env.strategy market state) :
    Told env.strategy market state' ∧ SignalsOn market state.1.db state'.1.db := by
  obtain ⟨hgrows, -, htraced⟩ := walks_move henv hmove h.tells.traced
  cases hmove with
  | note _ hengine hstrategy hdb =>
    exact h.hear (hears_frame hstrategy hdb hengine) htraced (fun _ _ => Iff.rfl)
  | insertCandle ctx st candle unit =>
    refine h.hear ⟨rfl, ?_, fun _ hP => hP⟩ htraced (fun _ _ => Iff.rfl)
    show signalsOf (ctx.db.map _) = _
    cases ctx.db with
    | none => rfl
    | some d => rfl
  | setMarkPrice ctx st p =>
    exact h.hear ⟨rfl, rfl, fun _ hP => hP.frame rfl rfl⟩ htraced (fun _ _ => Iff.rfl)
  | handleOrderEvent ctx st hasTrade ev =>
    exact h.hear (hears_handleOrderEvent env.cfg ctx hasTrade ev) htraced (fun _ _ => Iff.rfl)
  | runRecovery_ ctx st =>
    refine h.hear (hears_runRecovery_ env.cfg env.api ctx st) htraced
      (fun req answer => ⟨fun hmem => ?_, hgrows.mem⟩)
    rw [henv] at hmem
    exact posts_runRecovery_ env.cfg api ctx st req answer hmem
  | deliverEvents ctx st nowMs => exact h.deliverEvents huuid hcolon nowMs
  | decide st hdecided hnone => exact ⟨h.decide hdecided hnone htraced, .refl market _⟩
  | submitOrder st hdecided horder =>
    obtain ⟨htold, hsignals⟩ := h.submitOrder henv huuid hcolon hdecided horder htraced
    exact ⟨htold, signalsOn_same hsignals⟩

theorem told_moves (henv : env.api = api.recorded.toOrderApi)
    (huuid : Function.Injective env.strategy.uuid) (hcolon : ':' ∉ market.toList)
    {state state' : MarketContext × (σ × List ApiCall)} (hmoves : Moves env state state')
    (h : Told env.strategy market state) :
    Told env.strategy market state' ∧ SignalsOn market state.1.db state'.1.db :=
  hmoves.keeps
    (P := fun reached => Told env.strategy market reached ∧ SignalsOn market state.1.db reached.1.db)
    (fun _ _ hmove hkept =>
      (told_move henv huuid hcolon hmove hkept.1).imp_right hkept.2.trans)
    ⟨h, .refl market state.1.db⟩

theorem Tells.frame {log : List ApiCall} {signals : List (SignalRecord ℚ)}
    (h : Tells strategy market ctx log signals) (hquiets : Quiets ctx ctx')
    (hstrategy : ctx'.strategy = ctx.strategy) (hevents : ctx'.engine.events = ctx.engine.events) :
    Tells strategy market ctx' log signals := by
  obtain ⟨htraced, hwaits, hannounced, hpending, hspent⟩ := h
  refine ⟨htraced.quiet hquiets, ?_, ?_, ?_, ?_⟩
  · rw [hstrategy]
    exact hwaits
  · unfold MarketEngine.statuses
    rw [hevents]
    exact hannounced
  · rw [hstrategy]
    exact hpending
  · rw [hstrategy]
    exact hspent

/-- What the worker of another market does is nothing to this context. -/
theorem Tells.other {market' : String} {log log' : List ApiCall} {db db' : Option Database}
    {store : OrderStore} (h : Tells strategy market' ctx log (signalsOf db)) (hne : market' ≠ market)
    (huuid : Function.Injective strategy.uuid) (hcolon : ':' ∉ market'.toList)
    (hgrows : Grows (Asked strategy market) log log') (hsignals : SignalsOn market db db')
    (hbook : Book strategy log' store (signalsOf db')) :
    Tells strategy market' ctx log' (signalsOf db') := by
  obtain ⟨new, heq, hnew⟩ := hsignals
  have hold : ∀ sig ∈ signalsOf db', sig.market = market' → sig ∈ signalsOf db := by
    intro sig hsig hmarket
    rw [heq] at hsig
    refine (List.mem_append.mp hsig).resolve_right (fun hmem => hne ?_)
    exact hmarket.symm.trans (hnew sig hmem)
  refine ⟨h.traced.other hne hgrows, h.waits, fun ev hev => ?_, fun cid hcid => ?_,
    fun sig hsig hmarket => h.spent sig (hold sig hsig hmarket) hmarket⟩
  · obtain ⟨req, hmem, hident⟩ := h.announced ev hev
    exact ⟨req, hgrows.mem hmem, hident⟩
  · obtain ⟨n, hle, hnumbered, hawaits, hearlier⟩ := h.pending cid hcid
    refine ⟨n, hle, hnumbered, fun req answer hmem hident => ?_,
      fun sig hsig hmarket => hearlier sig (hold sig hsig hmarket) hmarket⟩
    obtain ⟨hcolon', n', hnumbered'⟩ := hbook.posted req answer hmem
    rw [hident] at hnumbered'
    obtain ⟨hown, -⟩ := RsiMeanReversionStrategy.numbered_inj huuid hcolon' hcolon hnumbered'
      hnumbered
    exact hawaits req answer (posts_other hgrows hmem (hown ▸ hne)) hident

end MarketContext

/-! The bot. -/

namespace Bot

variable (parse : Bytes → Option Data)

/-- The book of the bot, and what every context says. -/
structure Informed (strategy : StrategyEnv ℚ) (b : Bot) (log : List ApiCall) : Prop where
  book : Book strategy log b.manager.store (signalsOf b.manager.db)
  tells : ∀ m w, b.manager.contexts.lookup m = some w → ':' ∉ m.toList ∧
    MarketContext.Tells strategy m w.ctx log (signalsOf b.manager.db)

variable {env : ManagerEnv (σ × List ApiCall)} {api : IOrderApi σ}

theorem Informed.step (henv : env.api = api.recorded.toOrderApi)
    (huuid : Function.Injective env.strategy.uuid) (state : Bot × (σ × List ApiCall)) (a : BotStep)
    (h : Informed env.strategy state.1 state.2.2) :
    Informed env.strategy (step parse env state a).1 (step parse env state a).2.2 := by
  rcases step_cases parse env state a with ⟨f, hf, hmanager, hsame⟩ |
    ⟨m, t, w, -, hw, hmanager, hasked⟩
  · rw [hsame]
    refine ⟨by rw [hmanager]; exact h.book, fun m w hw => ?_⟩
    rw [hmanager] at hw ⊢
    simp only [KeyMap.lookup_mapVal, Option.map_eq_some_iff] at hw
    obtain ⟨w, hw, rfl⟩ := hw
    obtain ⟨hcolon, htells⟩ := h.tells m w hw
    refine ⟨hcolon, ?_⟩
    rcases hf m w with heq | heq
    · rw [heq]
      exact htells
    · rw [heq]
      have hengine := w.ctx.engine_requestRecovery
      have hstrategy := w.ctx.strategy_requestRecovery
      exact htells.frame (MarketContext.quiets_frame hengine hstrategy) hstrategy
        (congrArg MarketEngine.events hengine)
  · obtain ⟨hcolon, htells⟩ := h.tells m w hw
    have hplaced : MarketContext.Told env.strategy m ((state.1.manager.worker w).ctx, state.2) :=
      ⟨h.book, htells.frame (state.1.manager.quiets_worker w) rfl rfl⟩
    have hmoves := MarketContext.moves_turn parse env (state.1.manager.worker w) state.2 t
    obtain ⟨htold, hon⟩ := MarketContext.told_moves henv huuid hcolon hmoves hplaced
    have hgrows := (MarketContext.walks_moves henv hmoves hplaced.tells.traced).grows
    rw [hasked]
    refine ⟨by rw [hmanager]; exact htold.book, fun m' w' hw' => ?_⟩
    rw [hmanager] at hw' ⊢
    by_cases hne : m' = m
    · subst hne
      rw [MarketEngineManager.lookup_put_self] at hw'
      obtain rfl := Option.some.inj hw'
      exact ⟨hcolon, htold.tells⟩
    · rw [MarketEngineManager.lookup_put_ne _ _ hne] at hw'
      obtain ⟨hcolon', htells'⟩ := h.tells m' w' hw'
      exact ⟨hcolon', htells'.other hne huuid hcolon' hgrows hon htold.book⟩

theorem informed_started {τ : Type} {cfg : AccountConfig} {startApi : IOrderApi τ}
    {mcfg : MarketManagerConfig} {mgr : AccountManager} {markets : List String}
    {manager : MarketEngineManager}
    (h : MarketEngineManager.Started cfg startApi mcfg .empty mgr markets (some {}) manager)
    (hcolon : ∀ m ∈ markets, ':' ∉ m.toList) (strategy : StrategyEnv ℚ) :
    Informed strategy (assemble manager) [] := by
  have hsignals : signalsOf (assemble manager).manager.db = [] := by
    have hdb : (assemble manager).manager.db = some {} := h.sameDb
    rw [hdb]
    rfl
  refine ⟨⟨fun req answer hmem => absurd hmem List.not_mem_nil, fun uuid o ho => ?_,
    fun sig hsig => ?_, ?_⟩, fun m w hw => ?_⟩
  · have hstore : (assemble manager).manager.store = .empty := h.sameStore
    rw [hstore] at ho
    cases ho
  · rw [hsignals] at hsig
    exact absurd hsig List.not_mem_nil
  · rw [hsignals]
    exact List.nodup_nil
  · obtain ⟨hlisted, htraced⟩ := followed_started h strategy m w hw
    refine ⟨hcolon m hlisted, htraced, ?_, ?_, ?_, fun sig hsig => ?_⟩
    all_goals obtain ⟨first, hnew⟩ := h.contexts
    all_goals obtain ⟨pos, -, rfl⟩ := hnew m w hw
    · exact RsiMeanReversionStrategy.waits_syncOnStart _ pos
    · exact fun ev hev => absurd hev List.not_mem_nil
    · intro cid hcid
      have hnone := RsiMeanReversionStrategy.pendingClientId_syncOnStart
        (RsiMeanReversionStrategy.create m mcfg.strategyParams) pos
      exact absurd (hnone.symm.trans hcid) (by simp)
    · rw [hsignals] at hsig
      exact absurd hsig List.not_mem_nil

/-- **A signal is about one accepted order.** Start the bot with a database and run it in any way,
    whatever the exchange answers and whatever messages come: every signal that the bot hands to
    the database in this run is about an order that the exchange has accepted, with the market and
    the side of the post, and a sale's reason is the one it was posted with; and no two of these
    signals are about the same order. The generator never repeats itself, and no market has a
    colon. -/
theorem signals_reported {τ : Type} (parse : Bytes → Option Data) (strategy : StrategyEnv ℚ)
    (huuid : Function.Injective strategy.uuid) (api : IOrderApi σ) (pendingTimeout : Int)
    (cfg : AccountConfig) (startApi : IOrderApi τ) (mgr : AccountManager) (markets : List String)
    (hcolon : ∀ m ∈ markets, ':' ∉ m.toList) (mcfg : MarketManagerConfig) (t : τ)
    {manager : MarketEngineManager}
    (hcreate : (MarketEngineManager.create cfg startApi .empty mgr markets mcfg (some {}) t).1 =
      .ok manager) (s : σ) (steps : List BotStep) :
    let final := Machine.run
      (step parse
        { strategy := strategy, api := api.recorded.toOrderApi, pendingTimeout := pendingTimeout })
      (assemble manager, (s, [])) steps
    ((signalsOf final.1.manager.db).map (·.identifier)).Nodup ∧
      ∀ sig ∈ signalsOf final.1.manager.db, ∃ req uuid,
        ApiCall.postOrder req (.ok uuid) ∈ final.2.2 ∧ Reports sig req := by
  have hinformed := informed_started (MarketEngineManager.started_create hcreate) hcolon strategy
  set env : ManagerEnv (σ × List ApiCall) :=
    { strategy := strategy, api := api.recorded.toOrderApi, pendingTimeout := pendingTimeout }
  have henv : env.api = api.recorded.toOrderApi := rfl
  intro final
  have hinformed' : Informed strategy final.1 final.2.2 :=
    Machine.run_keeps (P := fun st : Bot × (σ × List ApiCall) => Informed strategy st.1 st.2.2)
      (fun st a h => h.step parse henv huuid st a) hinformed steps
  exact ⟨hinformed'.book.distinct, hinformed'.book.reported⟩

/-- The sale that is done is signalled, with its identifier. -/
theorem signals_reported_book :
    (signalsOf bookFinal.1.manager.db).map (·.identifier) = [(bookSale "KRW-BTC").identifier] ∧
      ∀ sig ∈ signalsOf bookFinal.1.manager.db, ∃ req uuid,
        ApiCall.postOrder req (.ok uuid) ∈ bookFinal.2.2 ∧ Reports sig req := by
  have hreported := signals_reported bookParse bookStrategy unaryUuid_injective bookApi 120
    (AppConfig.standard ℚ).account bookApi bookLedger bookMarkets (by decide +kernel) bookConfig []
    created_book [] bookSteps
  rw [run_book] at hreported
  exact ⟨by decide +kernel, hreported.2⟩

end Bot
end CoinBot
