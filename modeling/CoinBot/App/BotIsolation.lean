import CoinBot.App.Delivery
import CoinBot.App.Replay

/- Every market of a running bot is on its own.

   The workers share the store, the ledger, the database and the exchange, and their turns
   come in any order. Take all turns of the other markets out of a run, and let the exchange
   give the answers that this market had: its worker then takes the same messages, makes the
   same calls and no other, and ends in the same state, with the same budget and the same
   orders (`Bot.bot_isolated`). -/
namespace CoinBot

open Json (Bytes Data)
open Journal (Grows)
open MarketEngines (OwnedBy)

variable {σ : Type} {owner : String → Option String}

/-! One market among others. -/

theorem MarketEngine.Alike.self {owned : String → Prop} {e e' : MarketEngine}
    (h : e.Alike owned e') : e.Alike owned e :=
  ⟨rfl, rfl, rfl, rfl, rfl, h.token_own, rfl, rfl, rfl, rfl, fun _ _ => rfl, h.store_own⟩

namespace MarketContext

variable {market market' : String} {ctx ctx' ctx₁ ctx₁' : MarketContext}

theorem Alike.self (h : Alike owner market ctx ctx') : Alike owner market ctx ctx :=
  ⟨h.context, h.home, h.engine.self, rfl⟩

theorem Alike.requestRecovery (h : Alike owner market ctx ctx') :
    Alike owner market ctx.requestRecovery ctx'.requestRecovery := by
  obtain ⟨engine, db, rfl⟩ := h.eq
  unfold MarketContext.requestRecovery
  simp only
  split
  · have hrequested : Isolated owner market ctx { ctx with recoveryRequested := true }
        { ctx with engine := engine, db := db, recoveryRequested := true } :=
      h.noted rfl rfl rfl rfl
    exact hrequested.alike
  · exact h

/-- The context after a turn of another market: what it refers to is as that turn left it. -/
def moved (ctx other : MarketContext) : MarketContext :=
  { ctx with
    engine :=
      { ctx.engine with store := other.engine.store, accountMgr := other.engine.accountMgr }
    db := other.db }

/-- A turn of another market leaves a context with all that is its own. -/
theorem Alike.other (h : Alike owner market ctx ctx') (hne : market ≠ market')
    {before after : MarketContext} (hisolated : Isolated owner market' before after ctx₁')
    (hstore : ctx.engine.store = before.engine.store)
    (hmgr : ctx.engine.accountMgr = before.engine.accountMgr) :
    Alike owner market (ctx.moved after) ctx' := by
  have hget : ∀ id, OwnedBy owner market id →
      after.engine.store.get id = ctx.engine.store.get id := by
    intro id hown
    rw [hstore]
    by_cases hempty : id = ""
    · -- No order is stored under the empty uuid.
      have hnone : ∀ store : OrderStore, store.get id = none := by
        intro store
        by_contra hsome
        obtain ⟨o, ho⟩ := Option.ne_none_iff_exists'.mp hsome
        exact store.ne_of_get ho hempty
      rw [hnone, hnone]
    · exact hisolated.orders id (MarketEngines.not_ownedBy hne.symm hempty hown)
  have hbudget : after.engine.accountMgr.getBudget ctx.engine.market =
      ctx.engine.accountMgr.getBudget ctx.engine.market := by
    rw [hmgr, h.home]
    exact hisolated.budgets market hne
  refine ⟨h.context, h.home, ?_, ?_⟩
  · exact
      { h.engine with
        token_own := h.engine.token_own
        budget := hbudget.trans h.engine.budget
        store := fun id hown => (hget id hown).trans (h.engine.store id hown)
        store_own := fun id o hown ho => h.engine.store_own id o hown ((hget id hown).symm.trans ho) }
  · rw [h.notes]
    rfl

end MarketContext

/-! The bot. -/

namespace Bot

/-- The step is one of the market, or of no market's worker. -/
def own (market : String) : BotStep → Bool
  | .turn m _ => m = market
  | _ => true

/-- What the worker of a market asks in a step, with the answers. -/
def asked (parse : Bytes → Option Data) (env : ManagerEnv (σ × List ApiCall)) (market : String)
    (state : Bot × (σ × List ApiCall)) : BotStep → List ApiCall
  | .turn m t =>
    if m = market then (step parse env state (.turn m t)).2.2.drop state.2.2.length else []
  | _ => []

/-- What it asks in a run. -/
def allAsked (parse : Bytes → Option Data) (env : ManagerEnv (σ × List ApiCall)) (market : String)
    (state : Bot × (σ × List ApiCall)) (steps : List BotStep) : List ApiCall :=
  Machine.outputs (step parse env) (asked parse env market) state steps

/-- Every context is of its market, and its messages are about the market's orders. -/
structure Housed (parse : Bytes → Option Data) (cfg : AppConfig ℚ)
    (owner : String → Option String) (b : Bot) : Prop where
  alike : ∀ m w, b.manager.contexts.lookup m = some w →
    MarketContext.Alike owner m (b.manager.worker w).ctx (b.manager.worker w).ctx
  messages : ∀ m w, b.manager.contexts.lookup m = some w →
    MarketContext.OwnMessages parse cfg owner m w

/-- The bots agree on all that is the market's own. -/
structure Agrees (owner : String → Option String) (market : String) (b b' : Bot) : Prop where
  router : b'.router = b.router
  worker : ∃ w w', b.manager.contexts.lookup market = some w ∧
    b'.manager.contexts.lookup market = some w' ∧ w'.eventQueue = w.eventQueue ∧
    MarketContext.Alike owner market (b.manager.worker w).ctx (b'.manager.worker w').ctx

/-- The messages about orders are pushed to the market of the order. -/
def Addressed (parse : Bytes → Option Data) (cfg : AppConfig ℚ) (owner : String → Option String)
    (b : Bot) : BotStep → Prop
  | .myOrder json => ∀ m, b.router.target parse json = some (Json.utf8 m) →
    ∀ ev ∈ WsMessageParser.parseMyOrder cfg parse json, owner ev.orderUuid = some m
  | _ => True

variable {parse : Bytes → Option Data} {env : ManagerEnv (σ × List ApiCall)} {api : IOrderApi σ}
  {markets : List String} {market : String} {state : Bot × (σ × List ApiCall)}

/-! Messages and requests. -/

theorem ownMessages_push {cfg : AppConfig ℚ} {w : Worker} {input : EventRouter.RawInput}
    (h : MarketContext.OwnMessages parse cfg owner market w)
    (hinput : ∀ json, input = .myOrderRaw json →
      ∀ ev ∈ WsMessageParser.parseMyOrder cfg parse json, OwnedBy owner market ev.orderUuid) :
    MarketContext.OwnMessages parse cfg owner market
      { w with eventQueue := w.eventQueue.push input } := by
  intro json hmem
  rcases BlockingQueue.mem_items_push hmem with hold | hnew
  · exact h json hold
  · exact hinput json hnew.symm

/-- What a step that is no turn does to the worker of a market. -/
def quietly (parse : Bytes → Option Data) (r : EventRouter) (market : String) (w : Worker) :
    BotStep → Worker
  | .marketData json =>
    if r.target parse json = some (Json.utf8 market)
    then { w with eventQueue := w.eventQueue.push (.marketDataRaw json) } else w
  | .myOrder json =>
    if r.target parse json = some (Json.utf8 market)
    then { w with eventQueue := w.eventQueue.push (.myOrderRaw json) } else w
  | .reconnect => { w with ctx := w.ctx.requestRecovery }
  | .turn _ _ => w

/-- What the step does to the router. -/
def rerouted (parse : Bytes → Option Data) (r : EventRouter) : BotStep → EventRouter
  | .marketData json => (r.route parse json (.marketDataRaw json)).2
  | .myOrder json => (r.route parse json (.myOrderRaw json)).2
  | _ => r

theorem router_step {τ : Type} (env : ManagerEnv τ) (state : Bot × τ) (a : BotStep) :
    (step parse env state a).1.router = rerouted parse state.1.router a := by
  cases a with
  | marketData json => rfl
  | myOrder json => rfl
  | reconnect => rfl
  | turn m t => rfl

variable (parse) in
theorem step_quietly {τ : Type} (env : ManagerEnv τ) (state : Bot × τ) {a : BotStep}
    (ha : ∀ m t, a ≠ .turn m t) :
    (∀ m, (step parse env state a).1.manager.contexts.lookup m =
      (state.1.manager.contexts.lookup m).map
        (fun w => quietly parse state.1.router m w a)) ∧
      (∀ w, (step parse env state a).1.manager.worker w = state.1.manager.worker w) ∧
      (step parse env state a).2 = state.2 := by
  have hshared : ∀ json input w,
      (state.1.receive parse json input).manager.worker w = state.1.manager.worker w := by
    intro json input w
    unfold receive
    cases state.1.router.target parse json with
    | none => rfl
    | some key => rfl
  cases a with
  | marketData json => exact ⟨fun m => lookup_receive _ _ _ m, hshared _ _, rfl⟩
  | myOrder json => exact ⟨fun m => lookup_receive _ _ _ m, hshared _ _, rfl⟩
  | reconnect => exact ⟨fun m => KeyMap.lookup_mapVal _ _ m, fun w => rfl, rfl⟩
  | turn m t => exact absurd rfl (ha m t)

variable (parse) in
/-- A recovery is requested, or the context stays; the queue does not depend on it. -/
theorem alike_quietly {b b' : Bot} {w w' : Worker} (r : EventRouter) (a : BotStep)
    (hqueue : w'.eventQueue = w.eventQueue)
    (h : MarketContext.Alike owner market (b.manager.worker w).ctx (b'.manager.worker w').ctx) :
    MarketContext.Alike owner market (b.manager.worker (quietly parse r market w a)).ctx
        (b'.manager.worker (quietly parse r market w' a)).ctx ∧
      (quietly parse r market w' a).eventQueue = (quietly parse r market w a).eventQueue := by
  have hpush : ∀ (json : Bytes) (input : EventRouter.RawInput),
      MarketContext.Alike owner market
          (b.manager.worker (if r.target parse json = some (Json.utf8 market)
            then { w with eventQueue := w.eventQueue.push input } else w)).ctx
          (b'.manager.worker (if r.target parse json = some (Json.utf8 market)
            then { w' with eventQueue := w'.eventQueue.push input } else w')).ctx ∧
        (if r.target parse json = some (Json.utf8 market)
            then { w' with eventQueue := w'.eventQueue.push input } else w').eventQueue =
          (if r.target parse json = some (Json.utf8 market)
            then { w with eventQueue := w.eventQueue.push input } else w).eventQueue := by
    intro json input
    split
    · exact ⟨h, by rw [hqueue]⟩
    · exact ⟨h, hqueue⟩
  cases a with
  | marketData json => exact hpush json _
  | myOrder json => exact hpush json _
  | turn m t => exact ⟨h, hqueue⟩
  | reconnect =>
    refine ⟨?_, hqueue⟩
    have hplaced : ∀ (b : Bot) (w : Worker),
        (b.manager.worker { w with ctx := w.ctx.requestRecovery }).ctx =
          (b.manager.worker w).ctx.requestRecovery := by
      intro b w
      unfold MarketContext.requestRecovery MarketEngineManager.worker
      simp only
      split
      · rfl
      · rfl
    show MarketContext.Alike owner market
      (b.manager.worker { w with ctx := w.ctx.requestRecovery }).ctx
      (b'.manager.worker { w' with ctx := w'.ctx.requestRecovery }).ctx
    rw [hplaced, hplaced]
    exact h.requestRecovery

theorem Housed.quietly (h : Housed parse env.cfg owner state.1) {a : BotStep}
    (ha : ∀ m t, a ≠ .turn m t) (haddressed : Addressed parse env.cfg owner state.1 a) :
    Housed parse env.cfg owner (step parse env state a).1 := by
  obtain ⟨hlookup, hworker, -⟩ := step_quietly parse env state ha
  refine ⟨fun m w hw => ?_, fun m w hw => ?_⟩
  · rw [hlookup, Option.map_eq_some_iff] at hw
    obtain ⟨w, hw, rfl⟩ := hw
    rw [hworker]
    exact (alike_quietly parse state.1.router a rfl (h.alike m w hw)).1
  · rw [hlookup, Option.map_eq_some_iff] at hw
    obtain ⟨w, hw, rfl⟩ := hw
    have hown := h.messages m w hw
    cases a with
    | marketData json =>
      show MarketContext.OwnMessages parse env.cfg owner m (if _ then _ else _)
      split
      · exact ownMessages_push hown (fun json' hjson => nomatch hjson)
      · exact hown
    | myOrder json =>
      show MarketContext.OwnMessages parse env.cfg owner m (if _ then _ else _)
      split
      · next htarget =>
        refine ownMessages_push hown (fun json' hjson ev hev => .inr ?_)
        obtain rfl := EventRouter.RawInput.myOrderRaw.inj hjson
        exact haddressed m htarget ev hev
      · exact hown
    | reconnect => exact hown
    | turn m' t => exact absurd rfl (ha m' t)

/-! Turns. -/

/-- The turn of a worker, once more on the answers. -/
theorem Housed.turn (henv : env.api = api.recorded.toOrderApi)
    (h : Housed parse env.cfg owner state.1) {w : Worker}
    (hw : state.1.manager.contexts.lookup market = some w) (t : Turn)
    (htraced : MarketContext.Traced env.strategy market w.ctx state.2.2)
    (hfaithful : ∀ c ∈ ((state.1.manager.worker w).turn parse env state.2 t).2.2,
      Faithful owner c) :
    let r := (state.1.manager.worker w).turn parse env state.2 t
    ∃ new, r.2.2 = state.2.2 ++ new ∧
      ∀ ctx', MarketContext.Alike owner market (state.1.manager.worker w).ctx ctx' → ∀ rest log,
        let r' := ({ state.1.manager.worker w with ctx := ctx' } : Worker).turn parse env.replay
          (new ++ rest, log) t
        r'.2 = (rest, log ++ new) ∧
          MarketContext.Isolated owner market (state.1.manager.worker w).ctx r.1.ctx r'.1.ctx := by
  intro r
  have hplaced : MarketContext.Traced env.strategy market (state.1.manager.worker w).ctx
      state.2.2 := htraced.quiet (state.1.manager.quiets_worker w)
  have hgrows : Grows (Asked env.strategy market) state.2.2 r.2.2 :=
    (MarketContext.walks_moves henv
      (MarketContext.moves_turn parse env (state.1.manager.worker w) state.2 t) hplaced).grows
  have hactive : ∀ side, OwnedBy owner market
      ((state.1.manager.worker w).ctx.engine.activeUuid side) := by
    intro side
    by_cases hempty : (state.1.manager.worker w).ctx.engine.activeUuid side = ""
    · exact .inl hempty
    · obtain ⟨req, hmem, hmarket⟩ := hplaced.active side hempty
      have howner : owner ((state.1.manager.worker w).ctx.engine.activeUuid side) =
          some req.market := hfaithful _ (hgrows.mem hmem)
      exact .inr (howner.trans (congrArg some hmarket))
  obtain ⟨new, hnew, hrun⟩ := MarketContext.replays_turn parse henv (state.1.manager.worker w)
    state.2 t hactive (h.messages market w hw)
  refine ⟨new, hnew, fun ctx' hlike rest log => ?_⟩
  refine hrun ctx' hlike (fun c hc => hfaithful c ?_) rest log
  rw [hnew]
  exact List.mem_append_right _ hc

theorem step_turn {τ : Type} {env : ManagerEnv τ} {state : Bot × τ} {m : String} {w : Worker}
    (hw : state.1.manager.contexts.lookup m = some w) (t : Turn) :
    step parse env state (.turn m t) =
      ({ state.1 with
        manager := state.1.manager.put m
          ((state.1.manager.worker w).turn parse env state.2 t).1 },
        ((state.1.manager.worker w).turn parse env state.2 t).2) := by
  show ({ state.1 with manager := (MarketEngineManager.step parse env
    (state.1.manager, state.2) (m, .turn t)).1 }, (MarketEngineManager.step parse env
      (state.1.manager, state.2) (m, .turn t)).2) = _
  rw [MarketEngineManager.step_of_lookup hw]
  rfl

theorem step_turn_absent {τ : Type} {env : ManagerEnv τ} {state : Bot × τ} {m : String}
    (hw : state.1.manager.contexts.lookup m = none) (t : Turn) :
    step parse env state (.turn m t) = state := by
  show ({ state.1 with manager := (MarketEngineManager.step parse env
    (state.1.manager, state.2) (m, .turn t)).1 }, (MarketEngineManager.step parse env
      (state.1.manager, state.2) (m, .turn t)).2) = _
  rw [MarketEngineManager.step_absent hw]

theorem Housed.step_turn (henv : env.api = api.recorded.toOrderApi)
    (h : Housed parse env.cfg owner state.1) {m : String} {w : Worker}
    (hw : state.1.manager.contexts.lookup m = some w) (t : Turn)
    (htraced : MarketContext.Traced env.strategy m w.ctx state.2.2)
    (hfaithful : ∀ c ∈ ((state.1.manager.worker w).turn parse env state.2 t).2.2,
      Faithful owner c) :
    Housed parse env.cfg owner (step parse env state (.turn m t)).1 := by
  obtain ⟨new, -, hrun⟩ := h.turn henv hw t htraced hfaithful
  obtain ⟨-, hisolated⟩ := hrun _ (h.alike m w hw) [] []
  rw [Bot.step_turn hw]
  refine ⟨fun k w' hw' => ?_, fun k w' hw' => ?_⟩
  · by_cases hk : k = m
    · subst hk
      simp only [MarketEngineManager.lookup_put_self, Option.some.injEq] at hw'
      subst hw'
      exact hisolated.alike.self
    · simp only [MarketEngineManager.lookup_put_ne _ _ hk] at hw'
      exact ((h.alike k w' hw').other hk hisolated rfl rfl).self
  · by_cases hk : k = m
    · subst hk
      simp only [MarketEngineManager.lookup_put_self, Option.some.injEq] at hw'
      subst hw'
      intro json hmem
      have hold := mem_items_turn hmem
      exact h.messages k w hw json hold
    · simp only [MarketEngineManager.lookup_put_ne _ _ hk] at hw'
      exact h.messages k w' hw'

theorem Agrees.own_turn (henv : env.api = api.recorded.toOrderApi)
    (h : Housed parse env.cfg owner state.1) {b' : Bot} (hagrees : Agrees owner market state.1 b')
    (t : Turn)
    (htraced : ∀ w, state.1.manager.contexts.lookup market = some w →
      MarketContext.Traced env.strategy market w.ctx state.2.2)
    (hfaithful : ∀ c ∈ (step parse env state (.turn market t)).2.2, Faithful owner c)
    (rest log : List ApiCall) :
    let new := asked parse env market state (.turn market t)
    let r' := step parse env.replay (b', (new ++ rest, log)) (.turn market t)
    r'.2 = (rest, log ++ new) ∧
      Agrees owner market (step parse env state (.turn market t)).1 r'.1 := by
  obtain ⟨hrouter, w, w', hw, hw', hqueue, hlike⟩ := hagrees
  rw [Bot.step_turn hw] at hfaithful
  obtain ⟨new, hnew, hrun⟩ := h.turn henv hw t (htraced w hw) hfaithful
  have hasked : asked parse env market state (.turn market t) = new := by
    simp only [asked, if_true]
    rw [Bot.step_turn hw]
    exact (congrArg (List.drop state.2.2.length) hnew).trans List.drop_left
  obtain ⟨hrest, hisolated⟩ := hrun _ hlike rest log
  -- Both workers have the same queue.
  have hworker : b'.manager.worker w' =
      { state.1.manager.worker w with ctx := (b'.manager.worker w').ctx } :=
    congrArg (Worker.mk (b'.manager.worker w').ctx) hqueue
  have hturn : step parse env.replay (b', (new ++ rest, log)) (.turn market t) =
      ({ b' with
        manager := b'.manager.put market
          ((b'.manager.worker w').turn parse env.replay (new ++ rest, log) t).1 },
        ((b'.manager.worker w').turn parse env.replay (new ++ rest, log) t).2) :=
    Bot.step_turn hw' t
  simp only [hasked]
  rw [hturn, Bot.step_turn hw, hworker]
  refine ⟨hrest, hrouter, _, _, MarketEngineManager.lookup_put_self _ _ _,
    MarketEngineManager.lookup_put_self _ _ _, ?_, hisolated.alike⟩
  rw [eventQueue_turn, eventQueue_turn]

theorem Agrees.other_turn (henv : env.api = api.recorded.toOrderApi)
    (h : Housed parse env.cfg owner state.1) {b' : Bot} (hagrees : Agrees owner market state.1 b')
    {m : String} (hne : market ≠ m) (t : Turn)
    (htraced : ∀ w, state.1.manager.contexts.lookup m = some w →
      MarketContext.Traced env.strategy m w.ctx state.2.2)
    (hfaithful : ∀ c ∈ (step parse env state (.turn m t)).2.2, Faithful owner c) :
    Agrees owner market (step parse env state (.turn m t)).1 b' := by
  cases hlookup : state.1.manager.contexts.lookup m with
  | none =>
    rw [step_turn_absent hlookup]
    exact hagrees
  | some w =>
    rw [Bot.step_turn hlookup] at hfaithful ⊢
    obtain ⟨new, -, hrun⟩ := h.turn henv hlookup t (htraced w hlookup) hfaithful
    obtain ⟨-, hisolated⟩ := hrun _ (h.alike m w hlookup) [] []
    obtain ⟨hrouter, wm, w', hw, hw', hqueue, hlike⟩ := hagrees
    refine ⟨hrouter, wm, w', ?_, hw', hqueue, hlike.other hne hisolated rfl rfl⟩
    exact (MarketEngineManager.lookup_put_ne _ _ hne).trans hw

/-! Runs. -/

theorem target_step {τ : Type} (env : ManagerEnv τ) (state : Bot × τ) (a : BotStep)
    (json : Bytes) : (step parse env state a).1.router.target parse json =
      state.1.router.target parse json := by
  rw [router_step]
  cases a with
  | marketData json' => exact EventRouter.target_route parse _ json' _ json
  | myOrder json' => exact EventRouter.target_route parse _ json' _ json
  | reconnect => rfl
  | turn m t => rfl

theorem addressed_step (a : BotStep) {a' : BotStep}
    (h : Addressed parse env.cfg owner state.1 a') :
    Addressed parse env.cfg owner (step parse env state a).1 a' := by
  cases a' with
  | myOrder json =>
    intro m hm
    rw [target_step] at hm
    exact h m hm
  | marketData json => trivial
  | reconnect => trivial
  | turn m t => trivial

theorem Housed.step (henv : env.api = api.recorded.toOrderApi)
    (h : Housed parse env.cfg owner state.1) (a : BotStep)
    (hfollowed : Followed env.strategy markets state.1 state.2.2)
    (haddressed : Addressed parse env.cfg owner state.1 a)
    (hfaithful : ∀ c ∈ (Bot.step parse env state a).2.2, Faithful owner c) :
    Housed parse env.cfg owner (Bot.step parse env state a).1 := by
  cases a with
  | turn m t =>
    cases hlookup : state.1.manager.contexts.lookup m with
    | none =>
      rw [step_turn_absent hlookup]
      exact h
    | some w =>
      rw [Bot.step_turn hlookup] at hfaithful
      exact h.step_turn henv hlookup t (hfollowed m w hlookup).2 hfaithful
  | marketData json => exact h.quietly (fun _ _ ha => nomatch ha) haddressed
  | myOrder json => exact h.quietly (fun _ _ ha => nomatch ha) haddressed
  | reconnect => exact h.quietly (fun _ _ ha => nomatch ha) haddressed

theorem Agrees.quietly {b' : Bot} (hagrees : Agrees owner market state.1 b') {a : BotStep}
    (ha : ∀ m t, a ≠ .turn m t) (calls : List ApiCall × List ApiCall) :
    (Bot.step parse env.replay (b', calls) a).2 = calls ∧
      Agrees owner market (Bot.step parse env state a).1
        (Bot.step parse env.replay (b', calls) a).1 := by
  obtain ⟨hrouter, w, w', hw, hw', hqueue, hlike⟩ := hagrees
  obtain ⟨hlookup, hworker, -⟩ := step_quietly parse env state ha
  obtain ⟨hlookup', hworker', hcalls⟩ := step_quietly parse env.replay (b', calls) ha
  have hboth := alike_quietly parse state.1.router a hqueue hlike
  refine ⟨hcalls, ?_, _, _, ?_, ?_, hboth.2, ?_⟩
  · rw [router_step, router_step]
    simp only [hrouter]
  · rw [hlookup, hw, Option.map_some]
  · rw [hlookup']
    simp only [hw', Option.map_some, hrouter]
  · rw [hworker, hworker']
    exact hboth.1

/-- A step, and the same step where it is one of the market. -/
theorem Agrees.step (henv : env.api = api.recorded.toOrderApi)
    (h : Housed parse env.cfg owner state.1)
    (hfollowed : Followed env.strategy markets state.1 state.2.2) {b' : Bot}
    (hagrees : Agrees owner market state.1 b') (a : BotStep)
    (hfaithful : ∀ c ∈ (Bot.step parse env state a).2.2, Faithful owner c)
    (rest log : List ApiCall) :
    let new := asked parse env market state a
    let r' := Machine.run (Bot.step parse env.replay) (b', (new ++ rest, log))
      ([a].filter (own market))
    r'.2 = (rest, log ++ new) ∧ Agrees owner market (Bot.step parse env state a).1 r'.1 := by
  have hquiet : (∀ m t, a ≠ .turn m t) → own market a = true →
      asked parse env market state a = [] →
      let new := asked parse env market state a
      let r' := Machine.run (Bot.step parse env.replay) (b', (new ++ rest, log))
        ([a].filter (own market))
      r'.2 = (rest, log ++ new) ∧ Agrees owner market (Bot.step parse env state a).1 r'.1 := by
    intro ha hown hnone
    simp only [hnone, List.nil_append, List.append_nil, List.filter_cons_of_pos hown,
      List.filter_nil]
    exact hagrees.quietly ha (rest, log)
  cases a with
  | marketData json => exact hquiet (fun _ _ ha => nomatch ha) rfl rfl
  | myOrder json => exact hquiet (fun _ _ ha => nomatch ha) rfl rfl
  | reconnect => exact hquiet (fun _ _ ha => nomatch ha) rfl rfl
  | turn m t =>
    have htraced : ∀ w, state.1.manager.contexts.lookup m = some w →
        MarketContext.Traced env.strategy m w.ctx state.2.2 :=
      fun w hw => (hfollowed m w hw).2
    by_cases hm : m = market
    · subst hm
      rw [List.filter_cons_of_pos (by simp [own])]
      exact hagrees.own_turn henv h t htraced hfaithful rest log
    · have hnone : asked parse env market state (.turn m t) = [] := if_neg hm
      rw [List.filter_cons_of_neg (by simpa [own] using hm)]
      simp only [hnone, List.nil_append, List.append_nil]
      exact ⟨rfl, hagrees.other_turn henv h (Ne.symm hm) t htraced hfaithful⟩

theorem Agrees.run (henv : env.api = api.recorded.toOrderApi) (steps : List BotStep)
    (state : Bot × (σ × List ApiCall)) (h : Housed parse env.cfg owner state.1)
    (hfollowed : Followed env.strategy markets state.1 state.2.2) {b' : Bot}
    (hagrees : Agrees owner market state.1 b')
    (haddressed : ∀ a ∈ steps, Addressed parse env.cfg owner state.1 a)
    (hfaithful : ∀ c ∈ (Machine.run (Bot.step parse env) state steps).2.2, Faithful owner c)
    (rest log : List ApiCall) :
    let new := allAsked parse env market state steps
    let r' := Machine.run (Bot.step parse env.replay) (b', (new ++ rest, log))
      (steps.filter (own market))
    r'.2 = (rest, log ++ new) ∧
      Agrees owner market (Machine.run (Bot.step parse env) state steps).1 r'.1 := by
  induction steps generalizing state b' log with
  | nil => exact ⟨congrArg (Prod.mk rest) (List.append_nil log).symm, hagrees⟩
  | cons a steps ih =>
    obtain ⟨-, -, hfollowed'⟩ := followed_step parse henv state a hfollowed
    have hgrows := (followed_run parse henv (Bot.step parse env state a) steps hfollowed').1
    have hfirst : ∀ c ∈ (Bot.step parse env state a).2.2, Faithful owner c :=
      fun c hc => hfaithful c (hgrows.mem hc)
    have hhoused := h.step henv a hfollowed (haddressed a List.mem_cons_self) hfirst
    have hlater : ∀ a' ∈ steps, Addressed parse env.cfg owner (Bot.step parse env state a).1 a' :=
      fun a' ha' => addressed_step a (haddressed a' (List.mem_cons_of_mem _ ha'))
    intro new
    -- What is asked first, and then the rest of the run.
    set first := asked parse env market state a
    set later := allAsked parse env market (Bot.step parse env state a) steps
    have hnew : new = first ++ later := rfl
    obtain ⟨hcalls, hagrees'⟩ := hagrees.step henv h hfollowed a hfirst (later ++ rest) log
    set r := Machine.run (Bot.step parse env.replay) (b', (first ++ (later ++ rest), log))
      ([a].filter (own market))
    have hr : r = (r.1, (later ++ rest, log ++ first)) := Prod.ext rfl hcalls
    have hall := ih (Bot.step parse env state a) hhoused hfollowed' hagrees' hlater hfaithful
      (log ++ first)
    have hsplit : (a :: steps).filter (own market) =
        [a].filter (own market) ++ steps.filter (own market) := List.filter_append [a] steps
    rw [hnew, List.append_assoc, ← List.append_assoc log, hsplit, Machine.run_append]
    change (Machine.run _ r _).2 = _ ∧ Agrees owner market _ (Machine.run _ r _).1
    rw [hr]
    exact hall

/-- **The markets of a bot are isolated.** Start the bot and run it in any way, with an exchange
    that gives every order a uuid of its market and messages that name it. Take the turns of all
    other workers out of the run, and let the exchange give what it answered to this market, in
    that order: the worker makes the calls that it made in its turns of the whole run, all of them
    and no other, and ends with the same queue, the same strategy, the same engine, budget and
    orders, and the same notes. -/
theorem bot_isolated {τ : Type} (parse : Bytes → Option Data) (strategy : StrategyEnv ℚ)
    (api : IOrderApi σ) (pendingTimeout : Int) (cfg : AccountConfig) (startApi : IOrderApi τ)
    (mgr : AccountManager) (markets : List String) (mcfg : MarketManagerConfig)
    (db : Option Database) (t : τ) {manager : MarketEngineManager}
    (hcreate : (MarketEngineManager.create cfg startApi .empty mgr markets mcfg db t).1 =
      .ok manager) (owner : String → Option String) (s : σ) (steps : List BotStep)
    (haddressed : ∀ a ∈ steps, Addressed parse strategy.cfg owner (assemble manager) a)
    (hfaithful : ∀ c ∈ (Machine.run
      (step parse
        { strategy := strategy, api := api.recorded.toOrderApi, pendingTimeout := pendingTimeout })
      (assemble manager, (s, [])) steps).2.2, Faithful owner c)
    {market : String} (hmarket : market ∈ markets) :
    let env : ManagerEnv (σ × List ApiCall) :=
      { strategy := strategy, api := api.recorded.toOrderApi, pendingTimeout := pendingTimeout }
    let start := (assemble manager, (s, []))
    let calls := allAsked parse env market start steps
    let alone := Machine.run
      (step parse
        { strategy := strategy
          api := OrderApi.replay.recorded
          pendingTimeout := pendingTimeout })
      (assemble manager, (calls, [])) (steps.filter (own market))
    alone.2 = ([], calls) ∧
      Agrees owner market (Machine.run (step parse env) start steps).1 alone.1 := by
  have hstarted := MarketEngineManager.started_create hcreate
  have hfollowed := followed_started hstarted strategy
  intro env
  have henv : env.api = api.recorded.toOrderApi := rfl
  have hstore : (assemble manager).manager.store = .empty := hstarted.sameStore
  have hhoused : Housed parse env.cfg owner (assemble manager) := by
    refine ⟨fun m w hw => ?_, fun m w hw => ?_⟩
    · obtain ⟨first, hnew⟩ := hstarted.contexts
      obtain ⟨pos, -, rfl⟩ := hnew m w hw
      refine ⟨rfl, rfl, ⟨rfl, rfl, rfl, rfl, rfl, (fun t ht => nomatch ht), rfl, rfl, rfl, rfl,
        fun _ _ => rfl, fun id o _ ho => ?_⟩, rfl⟩
      have hnone : (assemble manager).manager.store.get id = some o := ho
      rw [hstore] at hnone
      cases hnone
    · obtain ⟨first, hnew⟩ := hstarted.contexts
      obtain ⟨pos, -, rfl⟩ := hnew m w hw
      exact fun json hmem => absurd hmem List.not_mem_nil
  obtain ⟨w, hw⟩ := Option.isSome_iff_exists.mp ((hstarted.markets market).mpr hmarket)
  have hagrees : Agrees owner market (assemble manager) (assemble manager) :=
    ⟨rfl, w, w, hw, hw, rfl, hhoused.alike market w hw⟩
  have halone := hagrees.run henv steps (assemble manager, (s, [])) hhoused hfollowed haddressed
    hfaithful [] []
  simp only [List.append_nil, List.nil_append] at halone
  exact halone

def bookOwner (uuid : String) : Option String := bookMarkets.find? (fun m => bookUuid m = uuid)

theorem addressed_book : ∀ a ∈ bookSteps,
    Addressed bookParse bookStrategy.cfg bookOwner (assemble bookManager) a := by
  intro a ha
  cases a with
  | myOrder json =>
    intro m hm ev hev
    obtain ⟨rfl, hparsed⟩ := myOrder_book ha hm
    rw [hparsed, List.mem_singleton] at hev
    subst hev
    decide +kernel
  | marketData json => trivial
  | reconnect => trivial
  | turn m t => trivial

/-- The second sale is posted and queried as in the whole run, without the first one. -/
theorem bot_isolated_book :
    let alone := Machine.run
      (step bookParse
        { strategy := bookStrategy, api := OrderApi.replay.recorded, pendingTimeout := 120 })
      (assemble bookManager, (bookCalls.drop 1, [])) (bookSteps.filter (own "KRW-ETH"))
    bookFinal.2.2 = bookCalls ∧ alone.2 = ([], bookCalls.drop 1) ∧
      Agrees bookOwner "KRW-ETH" bookFinal.1 alone.1 := by
  have hasked : allAsked bookParse
      { strategy := bookStrategy, api := bookApi.recorded.toOrderApi, pendingTimeout := 120 }
      "KRW-ETH" (assemble bookManager, ([], [])) bookSteps = bookCalls.drop 1 := by decide +kernel
  have hfaithful : ∀ c ∈ bookFinal.2.2, Faithful bookOwner c := by
    rw [calls_book]
    intro c hc
    simp only [bookCalls, List.mem_cons, List.not_mem_nil, or_false] at hc
    rcases hc with rfl | rfl | rfl
    · show bookOwner (bookUuid "KRW-BTC") = some "KRW-BTC"
      decide +kernel
    · show bookOwner (bookUuid "KRW-ETH") = some "KRW-ETH"
      decide +kernel
    · rfl
  have halone := bot_isolated bookParse bookStrategy bookApi 120 (AppConfig.standard ℚ).account
    bookApi bookLedger bookMarkets bookConfig (some {}) [] created_book bookOwner [] bookSteps
    addressed_book (by rw [run_book]; exact hfaithful) (by decide : "KRW-ETH" ∈ bookMarkets)
  simp only [run_book, hasked] at halone
  exact ⟨calls_book, halone⟩

end Bot
end CoinBot
