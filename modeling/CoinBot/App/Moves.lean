import CoinBot.App.MarketEngineManager
import Mathlib.Logic.Relation

/- What the turns of a worker consist of.

   The paths of a turn are taken apart once: each is a sequence of moves, and a move is one
   call of the engine or of the strategy with what belongs to it (`moves_turn`). A step of
   the bot is the moves of one worker, or leaves the exchange and every engine alone
   (`Bot.step_cases`). So what each move keeps holds in every run (`Bot.shared_run`). -/
namespace CoinBot

open Json (Bytes Data)

variable {σ : Type}

namespace MarketContext

/-- A decision of the strategy, on the budget as it is. -/
inductive Decides (env : StrategyEnv ℚ) (ctx : MarketContext) :
    Decision ℚ × RsiMeanReversionStrategy ℚ → Prop
  | onCandle (candle : Candle ℚ) :
    Decides env ctx (ctx.strategy.onCandle env candle ctx.buildAccountSnapshot_)
  | onIntrabarCandle (close : Price) :
    Decides env ctx (ctx.strategy.onIntrabarCandle env close ctx.buildAccountSnapshot_)

/-- One move of the worker of a context, with order events of the kind `heard`. -/
inductive MoveOn (heard : MyOrderEvent → Prop) (env : ManagerEnv σ) :
    MarketContext × σ → MarketContext × σ → Prop
  /-- Only the worker's own notes change. -/
  | note {ctx ctx' : MarketContext} {s : σ} : ctx'.market = ctx.market →
    ctx'.engine = ctx.engine → ctx'.strategy = ctx.strategy → ctx'.db = ctx.db →
    MoveOn heard env (ctx, s) (ctx', s)
  | insertCandle (ctx : MarketContext) (s : σ) (candle : Candle ℚ) (unit : Int) :
    MoveOn heard env (ctx, s) (ctx.insertCandle candle unit, s)
  | setMarkPrice (ctx : MarketContext) (s : σ) (p : Price) :
    MoveOn heard env (ctx, s) ({ ctx with engine := ctx.engine.setMarkPrice p }, s)
  | handleOrderEvent (ctx : MarketContext) (s : σ) (hasTrade : Bool) (ev : MyOrderEvent) :
    heard ev → MoveOn heard env (ctx, s) (ctx.handleOrderEvent env.cfg hasTrade ev, s)
  | runRecovery_ (ctx : MarketContext) (s : σ) :
    MoveOn heard env (ctx, s) (ctx.runRecovery_ env.cfg env.api s)
  | deliverEvents (ctx : MarketContext) (s : σ) (nowMs : Int) :
    MoveOn heard env (ctx, s) (ctx.deliverEvents nowMs, s)
  /-- A decision without an order. -/
  | decide {ctx : MarketContext} (s : σ) {decided : Decision ℚ × RsiMeanReversionStrategy ℚ} :
    Decides env.strategy ctx decided → decided.1.order = none →
    MoveOn heard env (ctx, s) ({ ctx with strategy := decided.2 }, s)
  /-- A decision with an order, which is submitted. -/
  | submitOrder {ctx : MarketContext} (s : σ)
    {decided : Decision ℚ × RsiMeanReversionStrategy ℚ} {req : OrderRequest ℚ} :
    Decides env.strategy ctx decided → decided.1.order = some req →
    MoveOn heard env (ctx, s) ({ ctx with strategy := decided.2 }.submitOrder env req s).2

/-- A sequence of moves. -/
abbrev MovesOn (heard : MyOrderEvent → Prop) (env : ManagerEnv σ) :
    MarketContext × σ → MarketContext × σ → Prop :=
  Relation.ReflTransGen (MoveOn heard env)

/-- Moves with any events. -/
abbrev Move (env : ManagerEnv σ) : MarketContext × σ → MarketContext × σ → Prop :=
  MoveOn (fun _ => True) env

abbrev Moves (env : ManagerEnv σ) : MarketContext × σ → MarketContext × σ → Prop :=
  MovesOn (fun _ => True) env

variable {heard : MyOrderEvent → Prop} {env : ManagerEnv σ} {ctx ctx' : MarketContext} {s : σ}
  {st st' : MarketContext × σ}

theorem MovesOn.keeps (h : MovesOn heard env st st') {P : MarketContext × σ → Prop}
    (hP : ∀ st st', MoveOn heard env st st' → P st → P st') (h0 : P st) : P st' := by
  induction h with
  | refl => exact h0
  | tail _ hmove ih => exact hP _ _ hmove ih

theorem moves_note (s : σ) (hmarket : ctx'.market = ctx.market) (hengine : ctx'.engine = ctx.engine)
    (hstrategy : ctx'.strategy = ctx.strategy) (hdb : ctx'.db = ctx.db) :
    MovesOn heard env (ctx, s) (ctx', s) := .single (.note hmarket hengine hstrategy hdb)

/-! The parts of a turn. -/

theorem moves_handleMyOrder_ (env : ManagerEnv σ) (ctx : MarketContext)
    {events : List MyOrderEvent} (hevents : ∀ ev ∈ events, heard ev) (s : σ) :
    MovesOn heard env (ctx, s) (ctx.handleMyOrder_ env.cfg events, s) := by
  unfold handleMyOrder_
  generalize events.any isTrade = hasTrade
  induction events generalizing ctx with
  | nil => exact .refl
  | cons ev events ih =>
    exact .head (.handleOrderEvent ctx s hasTrade ev (hevents ev List.mem_cons_self))
      (ih _ (fun ev' hev' => hevents ev' (List.mem_cons_of_mem _ hev')))

theorem moves_decided {decided : Decision ℚ × RsiMeanReversionStrategy ℚ}
    (h : Decides env.strategy ctx decided) (s : σ) :
    (decided.1.order = none → MovesOn heard env (ctx, s) ({ ctx with strategy := decided.2 }, s)) ∧
      ∀ req, decided.1.order = some req →
        MovesOn heard env (ctx, s) ({ ctx with strategy := decided.2 }.submitOrder env req s).2 :=
  ⟨fun hnone => .single (.decide s h hnone), fun _ hsome => .single (.submitOrder s h hsome)⟩

theorem moves_doIntrabarCheck (env : ManagerEnv σ) (ctx : MarketContext) (close : Price) (s : σ) :
    MovesOn heard env (ctx, s) (ctx.doIntrabarCheck env close s) := by
  have hmark : MovesOn heard env (ctx, s)
      ({ ctx with engine := ctx.engine.setMarkPrice close }, s) :=
    .single (.setMarkPrice ctx s close)
  unfold doIntrabarCheck
  simp only
  split
  · exact hmark
  · split
    · exact hmark
    · have hdecided : Decides env.strategy { ctx with engine := ctx.engine.setMarkPrice close } _ :=
        .onIntrabarCandle close
      obtain ⟨hnone, hsome⟩ := moves_decided hdecided s
      split
      · next horder => exact hmark.trans (hnone horder)
      · next req horder =>
        have hsubmitted := hmark.trans (hsome req horder)
        split
        · next hok =>
          rw [hok] at hsubmitted
          exact hsubmitted
        · next hfail =>
          rw [hfail] at hsubmitted
          split
          · exact hsubmitted.trans (moves_note _ rfl rfl rfl rfl)
          · exact hsubmitted

theorem moves_confirmCandle (env : ManagerEnv σ) (ctx : MarketContext) (candle : Candle ℚ)
    (liveUnit : Int) (s : σ) :
    MovesOn heard env (ctx, s) (ctx.confirmCandle env candle liveUnit s) := by
  set marked : MarketContext := { ctx.insertCandle candle liveUnit with
    engine := (ctx.insertCandle candle liveUnit).engine.setMarkPrice candle.closePrice }
    with hmarked
  have hmark : MovesOn heard env (ctx, s) (marked, s) :=
    .head (.insertCandle ctx s candle liveUnit) (.single (.setMarkPrice _ s candle.closePrice))
  have hdecided : Decides env.strategy marked _ := .onCandle candle
  obtain ⟨hnone, hsome⟩ := moves_decided hdecided s
  unfold confirmCandle
  simp only [← hmarked]
  split
  · next horder => exact hmark.trans (hnone horder)
  · next req horder => exact hmark.trans (hsome req horder)

theorem moves_handleMarketData_ (env : ManagerEnv σ) (ctx : MarketContext) (incoming : Candle ℚ)
    (liveUnit : Int) (s : σ) :
    MovesOn heard env (ctx, s) (ctx.handleMarketData_ env incoming liveUnit s) := by
  have hheld : MovesOn heard env (ctx, s) ({ ctx with pendingCandle := some incoming }, s) :=
    moves_note s rfl rfl rfl rfl
  unfold handleMarketData_
  split
  · exact hheld.trans (moves_doIntrabarCheck env _ incoming.closePrice s)
  · next candle _ =>
    split
    · exact hheld.trans (moves_doIntrabarCheck env _ incoming.closePrice s)
    · exact (hheld.trans (moves_confirmCandle env _ candle liveUnit s)).trans
        (moves_doIntrabarCheck env _ incoming.closePrice _)

theorem moves_handleRaw (parse : Bytes → Option Data) {raw : EventRouter.RawInput}
    (hheard : ∀ json, raw = .myOrderRaw json →
      ∀ ev ∈ WsMessageParser.parseMyOrder env.cfg parse json, heard ev)
    (h : ctx.handleRaw parse env raw s = .ok st) : MovesOn heard env (ctx, s) st := by
  unfold handleRaw at h
  cases raw with
  | myOrderRaw json =>
    obtain rfl := Except.ok.inj h
    exact moves_handleMyOrder_ env ctx (hheard json rfl) s
  | marketDataRaw json =>
    simp only at h
    split at h
    · cases h
    · obtain rfl := Except.ok.inj h
      exact .refl
    · obtain rfl := Except.ok.inj h
      exact moves_handleMarketData_ env ctx _ _ s

/-- Every turn is a sequence of moves, with the events of the messages in the queue. -/
theorem movesOn_turn (parse : Bytes → Option Data) (env : ManagerEnv σ) (w : Worker) (s : σ)
    (t : Turn) (hheard : ∀ json, .myOrderRaw json ∈ w.eventQueue.items →
      ∀ ev ∈ WsMessageParser.parseMyOrder env.cfg parse json, heard ev) :
    MovesOn heard env (w.ctx, s) ((w.turn parse env s t).1.ctx, (w.turn parse env s t).2) := by
  cases t with
  | takeRecovery =>
    show MovesOn heard env (w.ctx, s) (w.ctx.takeRecovery env s)
    unfold takeRecovery
    split
    · have hnoted : MovesOn heard env (w.ctx, s) ({ w.ctx with recoveryRequested := false }, s) :=
        moves_note s rfl rfl rfl rfl
      exact hnoted.tail (.runRecovery_ _ s)
    · exact .refl
  | handleNext =>
    show MovesOn heard env (w.ctx, s)
      ((w.handleNext parse env s).1.ctx, (w.handleNext parse env s).2)
    unfold Worker.handleNext
    split
    · exact .refl
    · next hpop =>
      have hmem := List.mem_of_mem_head? (congrArg Prod.fst hpop)
      split
      · exact .refl
      · next heq => exact moves_handleRaw parse (fun json hjson => hheard json (hjson ▸ hmem)) heq
  | deliverEvents nowMs => exact .single (.deliverEvents w.ctx s nowMs)
  | checkTimeout now =>
    show MovesOn heard env (w.ctx, s) (w.ctx.checkPendingTimeout_ env now s)
    obtain ⟨active, tracking, fired, enteredAt, -, heq | ⟨-, heq⟩⟩ :=
      w.ctx.checkPendingTimeout_cases env now s
    · rw [heq]
      exact moves_note s rfl rfl rfl rfl
    · rw [heq]
      have hnoted : MovesOn heard env (w.ctx, s) (w.ctx.track active tracking fired enteredAt, s) :=
        moves_note s rfl rfl rfl rfl
      exact hnoted.tail (.runRecovery_ _ s)

theorem moves_turn (parse : Bytes → Option Data) (env : ManagerEnv σ) (w : Worker) (s : σ)
    (t : Turn) :
    Moves env (w.ctx, s) ((w.turn parse env s t).1.ctx, (w.turn parse env s t).2) :=
  movesOn_turn parse env w s t (fun _ _ _ _ => trivial)

end MarketContext

/-! The bot. -/

namespace Bot

variable (parse : Bytes → Option Data) (env : ManagerEnv σ)

/-- A step is a turn of one worker, or it leaves the exchange alone and every context, but for
    requests of a recovery. -/
theorem step_cases (state : Bot × σ) (a : BotStep) :
    (∃ f : String → Worker → Worker, (∀ m w, (f m w).ctx = w.ctx ∨
        (f m w).ctx = w.ctx.requestRecovery) ∧
      (step parse env state a).1.manager = { state.1.manager with
        contexts := KeyMap.mapVal f state.1.manager.contexts } ∧
      (step parse env state a).2 = state.2) ∨
    ∃ m t w, a = .turn m t ∧ state.1.manager.contexts.lookup m = some w ∧
      (step parse env state a).1.manager = state.1.manager.put m
        ((state.1.manager.worker w).turn parse env state.2 t).1 ∧
      (step parse env state a).2 = ((state.1.manager.worker w).turn parse env state.2 t).2 := by
  have hreceive : ∀ json input, ∃ f : String → Worker → Worker,
      (∀ m w, (f m w).ctx = w.ctx ∨ (f m w).ctx = w.ctx.requestRecovery) ∧
        (state.1.receive parse json input).manager = { state.1.manager with
          contexts := KeyMap.mapVal f state.1.manager.contexts } := by
    intro json input
    unfold receive
    simp only
    split
    · exact ⟨fun _ w => w, fun _ _ => .inl rfl, by rw [KeyMap.mapVal_id]⟩
    · refine ⟨_, fun m w => .inl ?_, rfl⟩
      split
      · rfl
      · rfl
  cases a with
  | marketData json =>
    obtain ⟨f, hf, heq⟩ := hreceive json (.marketDataRaw json)
    exact .inl ⟨f, hf, heq, rfl⟩
  | myOrder json =>
    obtain ⟨f, hf, heq⟩ := hreceive json (.myOrderRaw json)
    exact .inl ⟨f, hf, heq, rfl⟩
  | reconnect => exact .inl ⟨_, fun _ _ => .inr rfl, rfl, rfl⟩
  | turn m t =>
    cases hlookup : state.1.manager.contexts.lookup m with
    | none =>
      refine .inl ⟨fun _ w => w, fun _ _ => .inl rfl, ?_, ?_⟩
      · show (MarketEngineManager.step parse env (state.1.manager, state.2) (m, .turn t)).1 = _
        rw [MarketEngineManager.step_absent hlookup, KeyMap.mapVal_id]
      · show (MarketEngineManager.step parse env (state.1.manager, state.2) (m, .turn t)).2 = _
        rw [MarketEngineManager.step_absent hlookup]
    | some w =>
      refine .inr ⟨m, t, w, rfl, hlookup, ?_, ?_⟩
      · show (MarketEngineManager.step parse env (state.1.manager, state.2) (m, .turn t)).1 = _
        rw [MarketEngineManager.step_of_lookup hlookup]
        rfl
      · show (MarketEngineManager.step parse env (state.1.manager, state.2) (m, .turn t)).2 = _
        rw [MarketEngineManager.step_of_lookup hlookup]
        rfl

/-- What the moves of every context keep of the store, the ledger, the database and the exchange,
    the bot keeps. -/
theorem shared_run {P : OrderStore → AccountManager → Option Database → σ → Prop}
    (hmove : ∀ st st', MarketContext.Move env st st' →
      P st.1.engine.store st.1.engine.accountMgr st.1.db st.2 →
      P st'.1.engine.store st'.1.engine.accountMgr st'.1.db st'.2)
    (state : Bot × σ) (steps : List BotStep)
    (h : P state.1.manager.store state.1.manager.accountMgr state.1.manager.db state.2) :
    let final := Machine.run (step parse env) state steps
    P final.1.manager.store final.1.manager.accountMgr final.1.manager.db final.2 := by
  refine Machine.run_keeps (P := fun state : Bot × σ => P state.1.manager.store
    state.1.manager.accountMgr state.1.manager.db state.2) (fun state a h => ?_) h steps
  rcases step_cases parse env state a with ⟨f, -, hmanager, hsame⟩ |
    ⟨m, t, w, -, -, hmanager, hasked⟩
  · rw [hmanager, hsame]
    exact h
  · rw [hmanager, hasked]
    exact (MarketContext.moves_turn parse env (state.1.manager.worker w) state.2 t).keeps
      (P := fun st => P st.1.engine.store st.1.engine.accountMgr st.1.db st.2)
      (fun st st' hone hst => hmove st st' hone hst) h

end Bot
end CoinBot
