import CoinBot.App.BotIsolation
import CoinBot.Engine.Conservation

/- The money of a running bot.

   The markets share one ledger, and their workers take turns in any order. The exchange
   keeps a book: which market and which side each of its orders is for. As long as its
   answers and messages agree with the book, every engine has at most one order out, its
   reserve is what that order has left, no budget is overdrawn, and in every market the KRW
   is that of the start, less what the buys were charged, plus what the sales brought in
   (`Bot.money_kept`). -/
namespace CoinBot

open Json (Bytes Data)

variable {σ : Type} {book : String → Option (String × OrderPosition)}

/-- The order, if the book has it, is for the market. -/
def OfMarket (book : String → Option (String × OrderPosition)) (market orderUuid : String) : Prop :=
  ∀ m side, book orderUuid = some (m, side) → m = market

/-- What a market is told of an order of the book is about the market's own, with its side. -/
def About (book : String → Option (String × OrderPosition)) (market : String) :
    MyOrderEvent → Prop
  | .trade t => OfMarket book market t.orderUuid
  | .order o => OfMarket book market o.id ∧ ∀ m side, book o.id = some (m, side) → o.position = side

/-- The answer agrees with the book. -/
def Vouched (book : String → Option (String × OrderPosition)) : ApiCall → Prop
  | .postOrder req (.ok uuid) => book uuid = some (req.market, req.position)
  | .getOrder orderUuid (.ok o) =>
    book o.id = book orderUuid ∧ ∀ m side, book o.id = some (m, side) → o.position = side
  | _ => True

/-! The engine. -/

namespace MarketEngine

variable {cfg : AppConfig ℚ} {e e' e₁ e₁' : MarketEngine}

/-- The engine is in order, and the stored orders are as the book has them. -/
structure Sound (book : String → Option (String × OrderPosition)) (e : MarketEngine) : Prop where
  single : e.SingleOrder
  solvent : ∀ m, e.accountMgr.Solvent m
  stored : ∀ id o, e.store.get id = some o → book id = some (o.market, o.position)

/-- What the exchange and its messages may bring to the engine. -/
def Legal (book : String → Option (String × OrderPosition)) (e : MarketEngine) : EngineCall → Prop
  | .submit req reply => ∀ uuid, reply = .ok uuid →
    req.market = e.market ∧ book uuid = some (e.market, req.position)
  | .message (.trade t) => About book e.market (.trade t)
  | .message (.snapshot o) | .message (.reconcile o) => About book e.market (.order o)
  | _ => True

/-- The second engine has left alone what is of other markets, and no KRW was made or lost. -/
structure Leaves (book : String → Option (String × OrderPosition)) (e e' : MarketEngine) :
    Prop where
  market : e'.market = e.market
  budgets : ∀ m, m ≠ e.market → e'.accountMgr.getBudget m = e.accountMgr.getBudget m
  orders : ∀ id, ¬ OfMarket book e.market id → e'.store.get id = e.store.get id
  opening : e'.accountMgr.openingOn = e.accountMgr.openingOn

theorem Leaves.refl (e : MarketEngine) : Leaves book e e :=
  ⟨rfl, fun _ _ => rfl, fun _ _ => rfl, rfl⟩

theorem Leaves.trans (h : Leaves book e e') (h' : Leaves book e' e₁) : Leaves book e e₁ where
  market := h'.market.trans h.market
  budgets m hm := (h'.budgets m (h.market ▸ hm)).trans (h.budgets m hm)
  orders id hid := (h'.orders id (h.market ▸ hid)).trans (h.orders id hid)
  opening := h'.opening.trans h.opening

/-- An order that is stored is of the market exactly where the book says so. -/
theorem Sound.alike (h : Sound book e) : Alike (OfMarket book e.market) e e :=
  ⟨rfl, rfl, rfl, rfl, rfl, fun t ht => (h.single.token_sound t ht).2, rfl, rfl, rfl, rfl,
    fun _ _ => rfl, fun id o hown ho => hown o.market o.position (h.stored id o ho)⟩

theorem Sound.onlyForeign (h : Sound book e) :
    e.OnlyForeign (fun id => ¬ OfMarket book e.market id) :=
  fun id o ho hne hown => hne (hown o.market o.position (h.stored id o ho))

theorem Legal.owns {c : EngineCall} (hc : Legal book e c) : Owns (OfMarket book e.market) c := by
  cases c with
  | submit req reply =>
    intro uuid hreply m side hbook
    rw [(hc uuid hreply).2] at hbook
    exact (congrArg Prod.fst (Option.some.inj hbook)).symm
  | message msg =>
    cases msg with
    | trade t => exact hc
    | snapshot o => exact hc.1
    | reconcile o => exact hc.1
  | setMarkPrice p => trivial
  | pollEvents => trivial

theorem Legal.admissible (hempty : book "" = none) (h : Sound book e) {c : EngineCall}
    (hc : Legal book e c) : e.Admissible (fun id => ¬ OfMarket book e.market id) c := by
  have hknown : ∀ s : Order, About book e.market (.order s) →
      (∀ o, e.store.get s.id = some o → s.position = o.position) ∧
        (¬ OfMarket book e.market s.id → s.market ≠ e.market) := by
    intro s habout
    exact ⟨fun o ho => habout.2 o.market o.position (h.stored s.id o ho),
      fun hforeign => absurd habout.1 hforeign⟩
  cases c with
  | submit req reply =>
    intro hreply
    have hbook := (hc "" hreply).2
    rw [hempty] at hbook
    cases hbook
  | message msg =>
    cases msg with
    | trade t => trivial
    | snapshot o => exact hknown o hc
    | reconcile o => exact hknown o hc
  | setMarkPrice p => trivial
  | pollEvents => trivial

/-! What is stored stays as the book has it. -/

theorem Sound.stored_snapshot (h : Sound book e) (cfg : AppConfig ℚ) {s : Order}
    (habout : About book e.market (.order s)) :
    ∀ id o, (e.onOrderSnapshot cfg s).store.get id = some o →
      book id = some (o.market, o.position) := by
  intro id o ho
  by_cases hskip : ¬ e.forMarket s.market ∨ e.store.get s.id = none
  · rw [onOrderSnapshot_skip hskip] at ho
    exact h.stored id o ho
  · rw [not_or, not_not] at hskip
    obtain ⟨old, hold⟩ := Option.ne_none_iff_exists'.mp hskip.2
    have hbook := h.stored s.id old hold
    rw [get_onOrderSnapshot cfg hskip.1 hold] at ho
    split at ho
    · next hid =>
      split at ho
      · cases ho
      · obtain rfl := Option.some.inj ho
        have hmarket : (mergeSnapshot old s).market = old.market :=
          (market_mergeSnapshot_own hskip.1 (habout.1 _ _ hbook)).trans (habout.1 _ _ hbook).symm
        have hside : (mergeSnapshot old s).position = old.position := habout.2 _ _ hbook
        rw [hid, hbook, hmarket, hside]
    · exact h.stored id o ho

theorem Sound.stored_call (hempty : book "" = none) (h : Sound book e) (cfg : AppConfig ℚ)
    {c : EngineCall} (hc : Legal book e c) :
    ∀ id o, (e.call cfg c).store.get id = some o → book id = some (o.market, o.position) := by
  cases c with
  | submit req reply =>
    intro id o
    show (e.submitReply cfg req reply).2.store.get id = some o → _
    have hposted : ∀ e₁ : MarketEngine, e₁.store = e.store →
        (e₁.afterPost req reply).2.store.get id = some o →
          book id = some (o.market, o.position) := by
      intro e₁ hstore ho
      cases reply with
      | error err =>
        have hsame : (e₁.afterPost req (.error err)).2.store = e.store := by
          simp only [afterPost]
          cases req.position with
          | bid =>
            simp only [releaseBuyToken]
            split
            · exact hstore
            · exact hstore
          | ask => exact hstore
        rw [hsame] at ho
        exact h.stored id o ho
      | ok uuid =>
        obtain ⟨hmarket, hbook⟩ := hc uuid rfl
        have hne : uuid ≠ "" := by
          rintro rfl
          rw [hempty] at hbook
          cases hbook
        rw [get_afterPost e₁ req hne, hstore] at ho
        split at ho
        · next hid =>
          obtain rfl := Option.some.inj ho
          rw [hid, hbook, ← hmarket]
          rfl
        · exact h.stored id o ho
    unfold submitReply submit
    rcases e.beforePost_cases cfg req with ⟨code, message, hfail⟩ | ⟨message, hfail⟩ |
      ⟨-, -, -, -, -, token, mgr, -, hok⟩ | ⟨-, -, -, -, -, hok⟩
    · rw [hfail]
      exact h.stored id o
    · rw [hfail]
      exact h.stored id o
    · rw [hok]
      exact hposted _ rfl
    · rw [hok]
      exact hposted _ rfl
  | message msg =>
    cases msg with
    | trade t =>
      show ∀ id o, (e.onMyTrade cfg t).store.get id = some o → _
      rw [(e.onMyTrade_frame cfg t).2.1]
      exact h.stored
    | snapshot s => exact h.stored_snapshot cfg hc
    | reconcile s =>
      show ∀ id o, (e.reconcileFromSnapshot cfg s).2.store.get id = some o → _
      rcases e.reconcileFromSnapshot_cases cfg s with hskip | ⟨prev, settled, -, -, hdelta, heq⟩
      · rw [hskip]
        exact h.stored
      · have hframe := onlySettles_settleDelta hdelta
        have hsettled : Sound book settled := by
          refine ⟨h.single.settleDelta hdelta, fun m => ?_, ?_⟩
          · have hP := AccountManager.budgetInvariant_available cfg.account
            rcases settleDelta_cases hdelta with rfl | ⟨krw, coin, price, rfl⟩ | ⟨coin, krw, rfl⟩
            · exact h.solvent m
            · exact meets_settleBuy hP (h.solvent m) _ _ _ _
            · exact meets_settleSell hP (h.solvent m) _ _
          · rw [hframe.store]
            exact h.stored
        have habout : About book settled.market (.order s) := by
          rw [hframe.market]
          exact hc
        rw [heq]
        exact hsettled.stored_snapshot cfg habout
  | setMarkPrice p => exact h.stored
  | pollEvents => exact h.stored

theorem Sound.active (hempty : book "" = none) (h : Sound book e) (side : OrderPosition) :
    OfMarket book e.market (e.activeUuid side) := by
  intro m side' hbook
  by_cases hnone : e.activeUuid side = ""
  · rw [hnone, hempty] at hbook
    cases hbook
  · obtain ⟨o, ho, hmarket, -⟩ := h.single.tracked side hnone
    rw [h.stored _ o ho] at hbook
    exact (congrArg Prod.fst (Option.some.inj hbook)).symm.trans hmarket

/-- A call keeps the engine in order, and leaves the other markets alone. -/
theorem sound_call (hempty : book "" = none) (cfg : AppConfig ℚ) (h : Sound book e)
    {c : EngineCall} (hc : Legal book e c) :
    Sound book (e.call cfg c) ∧ Leaves book e (e.call cfg c) := by
  have hisolated := isolated_call cfg h.alike hc.owns
  refine ⟨⟨?_, fun m => ?_, h.stored_call hempty cfg hc⟩,
    hisolated.market, hisolated.budgets, hisolated.orders, openingOn_call cfg h.single c⟩
  · exact (singleOrder_call ⟨h.single, h.onlyForeign⟩ (hc.admissible hempty h)).1
  · exact meets_call (AccountManager.budgetInvariant_available cfg.account) (h.solvent m) c

/-- After a turn of another market the engine is still in order. -/
theorem Sound.other (h : Sound book e) (h₁ : Sound book e₁') (hleaves : Leaves book e₁ e₁')
    (hne : e.market ≠ e₁.market) (hstore : e.store = e₁.store)
    (hmgr : e.accountMgr = e₁.accountMgr) :
    Sound book { e with store := e₁'.store, accountMgr := e₁'.accountMgr } := by
  have hactive : ∀ side, ({ e with store := e₁'.store, accountMgr := e₁'.accountMgr } :
      MarketEngine).activeUuid side = e.activeUuid side := by
    intro side
    cases side with
    | bid => rfl
    | ask => rfl
  -- An order of this market is not one of the other's.
  have hforeign : ∀ id side, book id = some (e.market, side) →
      e₁'.store.get id = e.store.get id := by
    intro id side hbook
    rw [hstore]
    exact hleaves.orders id (fun hof => hne (hof e.market side hbook))
  refine ⟨⟨h.single.token_iff, h.single.exclusive, h.single.token_sound, ?_, ?_, ?_⟩,
    h₁.solvent, h₁.stored⟩
  · intro id o ho hmarket
    have hbook := h₁.stored id o ho
    simp only at hmarket
    rw [hmarket] at hbook
    rw [hactive]
    exact h.single.stored id o ((hforeign id _ hbook).symm.trans ho) hmarket
  · intro side hside
    rw [hactive] at hside ⊢
    obtain ⟨o, ho, hmarket, hposition⟩ := h.single.tracked side hside
    have hbook := h.stored _ o ho
    rw [hmarket] at hbook
    exact ⟨o, (hforeign _ _ hbook).trans ho, hmarket, hposition⟩
  · intro b hb
    rw [hleaves.budgets e.market hne, ← hmgr] at hb
    exact h.single.reserves b hb

end MarketEngine

/-! The worker. -/

namespace MarketContext

open MarketEngine (Sound Leaves Legal sound_call)

variable {market : String} {env : ManagerEnv (σ × List ApiCall)} {api : IOrderApi σ}

/-- Where the answers agree with the book, the engine is in order, and what is of other markets is
    as it was in the engine `e`. -/
def Kempt (book : String → Option (String × OrderPosition)) (e : MarketEngine)
    (st : MarketContext × (σ × List ApiCall)) : Prop :=
  (∀ c ∈ st.2.2, Vouched book c) → Sound book st.1.engine ∧ Leaves book e st.1.engine

variable {e : MarketEngine} {ctx ctx' : MarketContext} {st st' : σ × List ApiCall}

theorem Kempt.frame (h : Kempt book e (ctx, st)) (hengine : ctx'.engine = ctx.engine) :
    Kempt book e (ctx', st) := by
  intro hvouched
  show Sound book ctx'.engine ∧ Leaves book e ctx'.engine
  rw [hengine]
  exact h hvouched

theorem Kempt.call (hempty : book "" = none) (h : Kempt book e (ctx, st)) (cfg : AppConfig ℚ)
    {c : EngineCall} (hengine : ctx'.engine = ctx.engine.call cfg c)
    (hgrows : ∀ a ∈ st.2, a ∈ st'.2)
    (hc : (∀ a ∈ st'.2, Vouched book a) → Sound book ctx.engine →
      ctx.engine.market = e.market → Legal book ctx.engine c) : Kempt book e (ctx', st') := by
  intro hvouched
  obtain ⟨hsound, hleaves⟩ := h (fun a ha => hvouched a (hgrows a ha))
  obtain ⟨hsound', hleaves'⟩ := sound_call hempty cfg hsound (hc hvouched hsound hleaves.market)
  show Sound book ctx'.engine ∧ Leaves book e ctx'.engine
  rw [hengine]
  exact ⟨hsound', hleaves.trans hleaves'⟩

theorem kempt_handleOrderEvent (hempty : book "" = none) (h : Kempt book e (ctx, st))
    (cfg : AppConfig ℚ) (hasTrade : Bool) {ev : MyOrderEvent} (hev : About book e.market ev) :
    Kempt book e (ctx.handleOrderEvent cfg hasTrade ev, st) := by
  cases ev with
  | trade t =>
    refine h.call hempty cfg (c := .message (.trade t)) rfl (fun _ ha => ha)
      (fun _ _ hmarket => ?_)
    show About book ctx.engine.market (.trade t)
    rw [hmarket]
    exact hev
  | order o =>
    have habout : ctx.engine.market = e.market → About book ctx.engine.market (.order o) := by
      intro hmarket
      rw [hmarket]
      exact hev
    have hreconciled : Kempt book e
        ({ ctx with engine := (ctx.engine.reconcileFromSnapshot cfg o).2 }, st) :=
      h.call hempty cfg (c := .message (.reconcile o)) rfl (fun _ ha => ha)
        (fun _ _ hmarket => habout hmarket)
    have hshot : Kempt book e ({ ctx with engine := ctx.engine.onOrderSnapshot cfg o }, st) :=
      h.call hempty cfg (c := .message (.snapshot o)) rfl (fun _ ha => ha)
        (fun _ _ hmarket => habout hmarket)
    unfold handleOrderEvent
    simp only
    split
    · split
      · exact hreconciled.frame rfl
      · exact hreconciled.frame rfl
    · split
      · exact hshot.frame rfl
      · exact hshot.frame rfl

theorem mem_diagnosed (api : IOrderApi σ) {answered : Option Order × (σ × List ApiCall)}
    {a : ApiCall} (ha : a ∈ answered.2.2) :
    a ∈ (diagnosed api.recorded.toOrderApi answered).2 := by
  obtain ⟨answer, st'⟩ := answered
  cases answer with
  | none => exact List.mem_append_left _ ha
  | some o => exact ha

theorem mem_recoverOrder (cfg : AppConfig ℚ) (api : IOrderApi σ) (ctx : MarketContext)
    (orderUuid : String) {a : ApiCall} (ha : a ∈ st.2) :
    a ∈ (recoverOrder cfg api.recorded.toOrderApi (ctx, st) orderUuid).2.2 := by
  by_cases hnone : orderUuid = ""
  · subst hnone
    exact ha
  · obtain ⟨new, hnew, -, -⟩ := replay_query api orderUuid 3 st
    have hqueried : a ∈ (queryOrderWithRetry_ api.recorded.toOrderApi orderUuid 3 st).2.2 := by
      rw [hnew]
      exact List.mem_append_left _ ha
    rw [recoverOrder_asked cfg _ _ _ hnone]
    exact mem_diagnosed api hqueried

/-- The order that is asked for is one of the market's, and so is the answer. -/
theorem kempt_recoverOrder (api : IOrderApi σ) (hempty : book "" = none)
    (h : Kempt book e (ctx, st)) (cfg : AppConfig ℚ) {orderUuid : String}
    (hof : (∀ a ∈ st.2, Vouched book a) → OfMarket book e.market orderUuid) :
    Kempt book e (recoverOrder cfg api.recorded.toOrderApi (ctx, st) orderUuid) := by
  by_cases hnone : orderUuid = ""
  · subst hnone
    exact h
  · obtain ⟨new, hnew, hreturned, -⟩ := replay_query api orderUuid 3 st
    have hgrows : ∀ a ∈ st.2,
        a ∈ (queryOrderWithRetry_ api.recorded.toOrderApi orderUuid 3 st).2.2 := by
      intro a ha
      rw [hnew]
      exact List.mem_append_left _ ha
    rw [recoverOrder_asked cfg _ _ _ hnone]
    cases hanswer : (queryOrderWithRetry_ api.recorded.toOrderApi orderUuid 3 st).1 with
    | none =>
      exact fun hvouched => h (fun a ha => hvouched a (mem_diagnosed api (hgrows a ha)))
    | some o =>
      rw [diagnosed_some hanswer]
      have hreconciled : Kempt book e
          ({ ctx with engine := (ctx.engine.reconcileFromSnapshot cfg o).2 },
            (queryOrderWithRetry_ api.recorded.toOrderApi orderUuid 3 st).2) := by
        refine h.call hempty cfg (c := .message (.reconcile o)) rfl hgrows
          (fun hvouched _ hmarket => ?_)
        have hmem : ApiCall.getOrder orderUuid (.ok o) ∈
            (queryOrderWithRetry_ api.recorded.toOrderApi orderUuid 3 st).2.2 := by
          rw [hnew]
          exact List.mem_append_right _ (hreturned o hanswer)
        obtain ⟨hsame, hside⟩ := hvouched _ hmem
        refine ⟨fun m side hbook => ?_, hside⟩
        rw [hmarket]
        exact hof (fun a ha => hvouched a (hgrows a ha)) m side (hsame.symm.trans hbook)
      unfold recovered
      simp only
      split
      · exact hreconciled.frame rfl
      · exact hreconciled.frame rfl

theorem kempt_runRecovery_ (hempty : book "" = none) (h : Kempt book e (ctx, st))
    (cfg : AppConfig ℚ) : Kempt book e (ctx.runRecovery_ cfg api.recorded.toOrderApi st) := by
  have hactive : ∀ side, (∀ a ∈ st.2, Vouched book a) →
      OfMarket book e.market (ctx.engine.activeUuid side) := by
    intro side hvouched
    obtain ⟨hsound, hleaves⟩ := h hvouched
    rw [← hleaves.market]
    exact hsound.active hempty side
  have hbuy := kempt_recoverOrder api hempty h cfg (hactive .bid)
  have hsell : (∀ a ∈ (recoverOrder cfg api.recorded.toOrderApi (ctx, st)
      (ctx.engine.activeUuid .bid)).2.2, Vouched book a) →
      OfMarket book e.market (ctx.engine.activeUuid .ask) :=
    fun hvouched => hactive .ask (fun a ha => hvouched a (mem_recoverOrder cfg api ctx _ ha))
  have hboth := kempt_recoverOrder api hempty hbuy cfg hsell
  unfold runRecovery_
  simp only
  split
  · exact h.frame rfl
  · exact hboth.frame rfl

theorem kempt_submitOrder (henv : env.api = api.recorded.toOrderApi) (hempty : book "" = none)
    (h : Kempt book e (ctx, st)) (req : OrderRequest ℚ) :
    Kempt book e (ctx.submitOrder env req st).2 := by
  have hsubmitted : ∀ r : EngineResult × MarketEngine, (ctx.submitted r).engine = r.2 := by
    intro r
    unfold submitted
    split
    · rfl
    · rfl
  rw [submitOrder_eq]
  simp only
  by_cases hpost : (ctx.engine.beforePost env.cfg req).1 = none
  · have hmarket : req.market = ctx.engine.market := by
      rcases ctx.engine.beforePost_cases env.cfg req with ⟨code, message, hfail⟩ |
        ⟨message, hfail⟩ | ⟨-, hmkt, -⟩ | ⟨-, hmkt, -⟩
      · rw [hfail] at hpost
        cases hpost
      · rw [hfail] at hpost
        cases hpost
      · exact hmkt
      · exact hmkt
    have hrecorded : (env.api.postOrder req st).2.2 =
        st.2 ++ [.postOrder req (env.api.postOrder req st).1] := by
      rw [henv]
      rfl
    rw [if_pos hpost]
    refine h.call hempty env.cfg (c := .submit req (env.api.postOrder req st).1)
      (hsubmitted _) (fun a ha => ?_) (fun hvouched _ _ uuid huuid => ⟨hmarket, ?_⟩)
    · rw [hrecorded]
      exact List.mem_append_left _ ha
    · have hanswer : Vouched book (.postOrder req (.ok uuid)) := by
        refine hvouched _ ?_
        rw [hrecorded, huuid]
        exact List.mem_append_right _ (List.mem_singleton.mpr rfl)
      rw [← hmarket]
      exact hanswer
  · rw [if_neg hpost]
    refine h.call hempty env.cfg (c := .submit req (.error {})) ?_ (fun _ ha => ha)
      (fun _ _ _ uuid huuid => nomatch huuid)
    rw [hsubmitted]
    exact congrArg Prod.snd (MarketEngine.submitReply_unposted env.cfg hpost _ (.error {}))

theorem engine_deliverEvents (ctx : MarketContext) (nowMs : Int) :
    (ctx.deliverEvents nowMs).engine = ctx.engine.pollEvents.2 := by
  have hone : ∀ (ctx : MarketContext) (ev : EngineEvent),
      (ctx.handleEngineEvent nowMs ev).engine = ctx.engine := by
    intro ctx ev
    cases ev with
    | fill ev => rfl
    | status ev => rfl
  have hall : ∀ (evs : List EngineEvent) (ctx : MarketContext),
      (ctx.handleEngineEvents_ nowMs evs).engine = ctx.engine := by
    intro evs
    induction evs with
    | nil => exact fun ctx => rfl
    | cons ev evs ih => exact fun ctx => (ih _).trans (hone ctx ev)
  exact hall ctx.engine.pollEvents.1 { ctx with engine := ctx.engine.pollEvents.2 }

theorem kempt_move (henv : env.api = api.recorded.toOrderApi) (hempty : book "" = none)
    {state state' : MarketContext × (σ × List ApiCall)}
    (hmove : MoveOn (About book e.market) env state state') (h : Kempt book e state) :
    Kempt book e state' := by
  cases hmove with
  | note _ hengine _ _ => exact h.frame hengine
  | insertCandle ctx st candle unit => exact h.frame rfl
  | setMarkPrice ctx st p =>
    exact h.call hempty env.cfg (c := .setMarkPrice p) rfl (fun _ ha => ha) (fun _ _ _ => trivial)
  | handleOrderEvent ctx st hasTrade ev hev =>
    exact kempt_handleOrderEvent hempty h env.cfg hasTrade hev
  | runRecovery_ ctx st =>
    rw [henv]
    exact kempt_runRecovery_ hempty h env.cfg
  | deliverEvents ctx st nowMs =>
    exact h.call hempty env.cfg (c := .pollEvents) (ctx.engine_deliverEvents nowMs)
      (fun _ ha => ha) (fun _ _ _ => trivial)
  | decide st _ _ => exact h.frame rfl
  | submitOrder st _ _ =>
    refine kempt_submitOrder henv hempty ?_ _
    exact h.frame rfl

end MarketContext

/-! The bot. -/

namespace Bot

open MarketEngine (Sound)

/-- The messages about orders of the book are pushed to their market, with their side. -/
def Informs (parse : Bytes → Option Data) (cfg : AppConfig ℚ)
    (book : String → Option (String × OrderPosition)) (b : Bot) : BotStep → Prop
  | .myOrder json => ∀ m, b.router.target parse json = some (Json.utf8 m) →
    ∀ ev ∈ WsMessageParser.parseMyOrder cfg parse json, About book m ev
  | _ => True

/-- Every engine is in order, the messages in the queues are about the market's own orders, and
    no KRW was made or lost since `start`. -/
structure InOrder (parse : Bytes → Option Data) (cfg : AppConfig ℚ)
    (book : String → Option (String × OrderPosition)) (start : AccountManager) (b : Bot) :
    Prop where
  engines : ∀ m w, b.manager.contexts.lookup m = some w →
    (b.manager.worker w).ctx.engine.market = m ∧ Sound book (b.manager.worker w).ctx.engine
  messages : ∀ m w, b.manager.contexts.lookup m = some w →
    ∀ json, .myOrderRaw json ∈ w.eventQueue.items →
      ∀ ev ∈ WsMessageParser.parseMyOrder cfg parse json, About book m ev
  opening : b.manager.accountMgr.openingOn = start.openingOn

variable {parse : Bytes → Option Data} {env : ManagerEnv (σ × List ApiCall)} {api : IOrderApi σ}
  {start : AccountManager} {markets : List String} {state : Bot × (σ × List ApiCall)}

theorem informs_step (a : BotStep) {a' : BotStep} (h : Informs parse env.cfg book state.1 a') :
    Informs parse env.cfg book (step parse env state a).1 a' := by
  cases a' with
  | myOrder json =>
    intro m hm
    rw [target_step] at hm
    exact h m hm
  | marketData json => trivial
  | reconnect => trivial
  | turn m t => trivial

theorem InOrder.turn (henv : env.api = api.recorded.toOrderApi) (hempty : book "" = none)
    (h : InOrder parse env.cfg book start state.1) (m : String) (t : Turn)
    (hvouched : ∀ c ∈ (Bot.step parse env state (.turn m t)).2.2, Vouched book c) :
    InOrder parse env.cfg book start (Bot.step parse env state (.turn m t)).1 := by
  cases hw : state.1.manager.contexts.lookup m with
  | none =>
    rw [step_turn_absent hw]
    exact h
  | some w =>
    rw [Bot.step_turn hw] at hvouched ⊢
    obtain ⟨hmarket, hsound⟩ := h.engines m w hw
    set placed := state.1.manager.worker w with hplaced
    have hmoves : MarketContext.MovesOn (About book placed.ctx.engine.market) env
        (placed.ctx, state.2)
        ((placed.turn parse env state.2 t).1.ctx, (placed.turn parse env state.2 t).2) := by
      refine MarketContext.movesOn_turn parse env placed state.2 t (fun json hmem => ?_)
      rw [hmarket]
      exact h.messages m w hw json hmem
    have hkempt : MarketContext.Kempt book placed.ctx.engine
        ((placed.turn parse env state.2 t).1.ctx, (placed.turn parse env state.2 t).2) :=
      hmoves.keeps (P := MarketContext.Kempt book placed.ctx.engine)
        (fun _ _ hmove => MarketContext.kempt_move henv hempty hmove)
        (fun _ => ⟨hsound, .refl _⟩)
    obtain ⟨hsound', hleaves⟩ := hkempt hvouched
    refine ⟨fun k w' hw' => ?_, fun k w' hw' => ?_, hleaves.opening.trans h.opening⟩
    · by_cases hk : k = m
      · subst hk
        simp only [MarketEngineManager.lookup_put_self, Option.some.injEq] at hw'
        subst hw'
        exact ⟨hleaves.market.trans hmarket, hsound'⟩
      · simp only [MarketEngineManager.lookup_put_ne _ _ hk] at hw'
        obtain ⟨hother, hkept⟩ := h.engines k w' hw'
        refine ⟨hother, hkept.other hsound' hleaves ?_ rfl rfl⟩
        rw [hother, hmarket]
        exact hk
    · by_cases hk : k = m
      · subst hk
        simp only [MarketEngineManager.lookup_put_self, Option.some.injEq] at hw'
        subst hw'
        intro json hmem
        have hold := mem_items_turn hmem
        exact h.messages k w hw json hold
      · simp only [MarketEngineManager.lookup_put_ne _ _ hk] at hw'
        exact h.messages k w' hw'

theorem InOrder.quietly (h : InOrder parse env.cfg book start state.1) {a : BotStep}
    (ha : ∀ m t, a ≠ .turn m t) (hinforms : Informs parse env.cfg book state.1 a) :
    InOrder parse env.cfg book start (Bot.step parse env state a).1 := by
  obtain ⟨hlookup, hworker, -⟩ := step_quietly parse env state ha
  have hopening : (Bot.step parse env state a).1.manager.accountMgr =
      state.1.manager.accountMgr := by
    rcases step_cases parse env state a with ⟨f, -, hmanager, -⟩ | ⟨m, t, _, heq, -⟩
    · rw [hmanager]
    · exact absurd heq (ha m t)
  refine ⟨fun m w hw => ?_, fun m w hw => ?_, ?_⟩
  · rw [hlookup, Option.map_eq_some_iff] at hw
    obtain ⟨w, hw, rfl⟩ := hw
    have hengine : (Bot.quietly parse state.1.router m w a).ctx.engine = w.ctx.engine := by
      cases a with
      | marketData json =>
        simp only [Bot.quietly]
        split
        · rfl
        · rfl
      | myOrder json =>
        simp only [Bot.quietly]
        split
        · rfl
        · rfl
      | reconnect =>
        exact w.ctx.engine_requestRecovery
      | turn m' t => exact absurd rfl (ha m' t)
    have hsame : (state.1.manager.worker (Bot.quietly parse state.1.router m w a)).ctx.engine =
        (state.1.manager.worker w).ctx.engine := by
      simp only [MarketEngineManager.worker, hengine]
    rw [hworker, hsame]
    exact h.engines m w hw
  · rw [hlookup, Option.map_eq_some_iff] at hw
    obtain ⟨w, hw, rfl⟩ := hw
    have hown := h.messages m w hw
    cases a with
    | marketData json =>
      simp only [Bot.quietly]
      split
      · intro json' hmem
        rcases BlockingQueue.mem_items_push hmem with hold | hnew
        · exact hown json' hold
        · cases hnew
      · exact hown
    | myOrder json =>
      simp only [Bot.quietly]
      split
      · next htarget =>
        intro json' hmem
        rcases BlockingQueue.mem_items_push hmem with hold | hnew
        · exact hown json' hold
        · obtain rfl := EventRouter.RawInput.myOrderRaw.inj hnew
          exact hinforms m htarget
      · exact hown
    | reconnect => exact hown
    | turn m' t => exact absurd rfl (ha m' t)
  · rw [hopening]
    exact h.opening

theorem InOrder.run (henv : env.api = api.recorded.toOrderApi) (hempty : book "" = none)
    (steps : List BotStep) (state : Bot × (σ × List ApiCall))
    (h : InOrder parse env.cfg book start state.1)
    (hfollowed : Followed env.strategy markets state.1 state.2.2)
    (hinforms : ∀ a ∈ steps, Informs parse env.cfg book state.1 a)
    (hvouched : ∀ c ∈ (Machine.run (Bot.step parse env) state steps).2.2, Vouched book c) :
    InOrder parse env.cfg book start (Machine.run (Bot.step parse env) state steps).1 := by
  induction steps generalizing state with
  | nil => exact h
  | cons a steps ih =>
    obtain ⟨-, -, hfollowed'⟩ := followed_step parse henv state a hfollowed
    have hgrows := (followed_run parse henv (Bot.step parse env state a) steps hfollowed').1
    have hfirst : ∀ c ∈ (Bot.step parse env state a).2.2, Vouched book c :=
      fun c hc => hvouched c (hgrows.mem hc)
    have hinformed := hinforms a List.mem_cons_self
    refine ih (Bot.step parse env state a) ?_ hfollowed'
      (fun a' ha' => informs_step a (hinforms a' (List.mem_cons_of_mem _ ha'))) hvouched
    cases a with
    | turn m t => exact h.turn henv hempty m t hfirst
    | marketData json => exact h.quietly (fun _ _ ha => nomatch ha) hinformed
    | myOrder json => exact h.quietly (fun _ _ ha => nomatch ha) hinformed
    | reconnect => exact h.quietly (fun _ _ ha => nomatch ha) hinformed

theorem isSome_lookup_run {τ : Type} (env : ManagerEnv τ) (state : Bot × τ)
    (steps : List BotStep) (m : String) :
    ((Machine.run (step parse env) state steps).1.manager.contexts.lookup m).isSome =
      (state.1.manager.contexts.lookup m).isSome := by
  refine Machine.run_keeps (P := fun state' : Bot × τ =>
    (state'.1.manager.contexts.lookup m).isSome = (state.1.manager.contexts.lookup m).isSome)
    (fun state' a h => ?_) rfl steps
  rcases step_cases parse env state' a with ⟨f, -, hmanager, -⟩ | ⟨k, t, w, -, hw, hmanager, -⟩
  · rw [hmanager]
    simp only [KeyMap.lookup_mapVal, Option.isSome_map]
    exact h
  · rw [hmanager]
    by_cases hk : m = k
    · subst hk
      rw [MarketEngineManager.lookup_put_self, ← h, hw]
      rfl
    · rw [MarketEngineManager.lookup_put_ne _ _ hk]
      exact h

/-- **The money is kept.** Start the bot on an account that is not in debt and run it in any way,
    with an exchange whose answers and messages agree with its book. In every state each listed
    market has at most one order out and its reserve is what that order has left, its budget is
    not overdrawn, and what it has is what it started with, less what its buys were charged, plus
    what its sales brought in. -/
theorem money_kept {τ : Type} (parse : Bytes → Option Data) (strategy : StrategyEnv ℚ)
    (api : IOrderApi σ) (pendingTimeout : Int) (cfg : AccountConfig) (startApi : IOrderApi τ)
    (mgr : AccountManager) (markets : List String) (mcfg : MarketManagerConfig)
    (db : Option Database) (t : τ) {manager : MarketEngineManager}
    (hcreate : (MarketEngineManager.create cfg startApi .empty mgr markets mcfg db t).1 =
      .ok manager) (hkrw : ∀ account, startApi.Answers account → 0 ≤ account.krwFree)
    (book : String → Option (String × OrderPosition)) (hempty : book "" = none) (s : σ)
    (steps : List BotStep)
    (hinforms : ∀ a ∈ steps, Informs parse strategy.cfg book (assemble manager) a)
    (hvouched : ∀ c ∈ (Machine.run
      (step parse
        { strategy := strategy, api := api.recorded.toOrderApi, pendingTimeout := pendingTimeout })
      (assemble manager, (s, [])) steps).2.2, Vouched book c) :
    let final := Machine.run
      (step parse
        { strategy := strategy, api := api.recorded.toOrderApi, pendingTimeout := pendingTimeout })
      (assemble manager, (s, [])) steps
    let start := manager.accountMgr
    let ledger := final.1.manager.accountMgr
    (∀ m ∈ markets, ∃ w, final.1.manager.contexts.lookup m = some w ∧
      (final.1.manager.worker w).ctx.engine.market = m ∧
      (final.1.manager.worker w).ctx.engine.SingleOrder ∧
      (final.1.manager.worker w).ctx.engine.NotOverdrawn) ∧
    ∀ m, start.reservedOn m = 0 ∧
      ledger.availableOn m + ledger.reservedOn m =
        start.availableOn m - (ledger.spentOn m - start.spentOn m) +
          (ledger.receivedOn m - start.receivedOn m) := by
  have hstarted := MarketEngineManager.started_create hcreate
  have hfollowed := followed_started hstarted strategy
  set env : ManagerEnv (σ × List ApiCall) :=
    { strategy := strategy, api := api.recorded.toOrderApi, pendingTimeout := pendingTimeout }
  have henv : env.api = api.recorded.toOrderApi := rfl
  intro final start ledger
  obtain ⟨before, account, hanswers, -, hrebuilt⟩ := hstarted.rebuilt
  have hidle : ∀ m b, start.getBudget m = some b → b.reservedKrw = 0 ∧ 0 ≤ b.availableKrw := by
    intro m b hb
    have hb' : (before.rebuildFromAccount cfg account).getBudget m = some b := hrebuilt ▸ hb
    obtain ⟨hreserved, havailable⟩ := AccountManager.rebuildFromAccount_idle cfg before hb'
    exact ⟨hreserved, havailable (hkrw account hanswers)⟩
  have hnone : ∀ id o, (assemble manager).manager.store.get id ≠ some o := by
    intro id o ho
    have hstore : (assemble manager).manager.store = .empty := hstarted.sameStore
    rw [hstore] at ho
    cases ho
  have hfirst : InOrder parse env.cfg book start (assemble manager) := by
    obtain ⟨first, hnew⟩ := hstarted.contexts
    refine ⟨fun m w hw => ?_, fun m w hw => ?_, rfl⟩
    · obtain ⟨pos, -, rfl⟩ := hnew m w hw
      refine ⟨rfl, ?_, fun m b hb => (hidle m b hb).2, fun id o ho => absurd ho (hnone id o)⟩
      exact MarketEngine.singleOrder_new (fun id o ho => absurd ho (hnone id o))
        (fun b hb => (hidle m b hb).1)
    · obtain ⟨pos, -, rfl⟩ := hnew m w hw
      exact fun json hmem => absurd hmem List.not_mem_nil
  have hinorder : InOrder parse env.cfg book start final.1 :=
    hfirst.run henv hempty steps (assemble manager, (s, [])) hfollowed hinforms hvouched
  refine ⟨fun m hm => ?_, fun m => ?_⟩
  · have hsome : (final.1.manager.contexts.lookup m).isSome = true :=
      (isSome_lookup_run env (assemble manager, (s, [])) steps m).trans
        ((hstarted.markets m).mpr hm)
    obtain ⟨w, hw⟩ := Option.isSome_iff_exists.mp hsome
    obtain ⟨hmarket, hsound⟩ := hinorder.engines m w hw
    exact ⟨w, hw, hmarket, hsound.single, hsound.single.notOverdrawn (hsound.solvent _)⟩
  · have hreserved : start.reservedOn m = 0 := by
      unfold AccountManager.reservedOn
      cases hb : start.getBudget m with
      | none => rfl
      | some b => exact (hidle m b hb).1
    have hopening := congrFun hinorder.opening m
    simp only [AccountManager.openingOn, hreserved] at hopening
    refine ⟨hreserved, ?_⟩
    linarith

/-- The orders of the example are sales. -/
def bookEntry (uuid : String) : Option (String × OrderPosition) :=
  (bookOwner uuid).map (fun m => (m, .ask))

theorem side_bookEntry {uuid m : String} {side : OrderPosition}
    (h : bookEntry uuid = some (m, side)) : side = .ask := by
  obtain ⟨_, -, heq⟩ := Option.map_eq_some_iff.mp h
  exact (Prod.mk.inj heq).2.symm

/-- The KRW of the sale that is done are in its budget, and the other sale is still out. -/
theorem money_kept_book :
    let start := bookManager.accountMgr
    let ledger := bookFinal.1.manager.accountMgr
    bookFinal.2.2 = bookCalls ∧
      ledger.receivedOn "KRW-BTC" - start.receivedOn "KRW-BTC" = 8000 ∧
      (∀ m ∈ bookMarkets, ∃ w, bookFinal.1.manager.contexts.lookup m = some w ∧
        (bookFinal.1.manager.worker w).ctx.engine.market = m ∧
        (bookFinal.1.manager.worker w).ctx.engine.SingleOrder ∧
        (bookFinal.1.manager.worker w).ctx.engine.NotOverdrawn) ∧
      ∀ m, start.reservedOn m = 0 ∧
        ledger.availableOn m + ledger.reservedOn m =
          start.availableOn m - (ledger.spentOn m - start.spentOn m) +
            (ledger.receivedOn m - start.receivedOn m) := by
  have hkrw : ∀ account, bookApi.Answers account → 0 ≤ account.krwFree := by
    rintro account ⟨s, s', hs⟩
    obtain rfl := Except.ok.inj (Prod.mk.inj hs).1
    decide +kernel
  have hinforms : ∀ a ∈ bookSteps,
      Informs bookParse bookStrategy.cfg bookEntry (assemble bookManager) a := by
    intro a ha
    cases a with
    | myOrder json =>
      intro m hm ev hev
      obtain ⟨rfl, hparsed⟩ := myOrder_book ha hm
      rw [hparsed, List.mem_singleton] at hev
      subst hev
      refine ⟨fun m side hbook => ?_, fun m side hbook => (side_bookEntry hbook).symm⟩
      have hentry : bookEntry bookClosed.id = some ("KRW-BTC", .ask) := by decide +kernel
      exact congrArg Prod.fst (Option.some.inj (hbook.symm.trans hentry))
    | marketData json => trivial
    | reconnect => trivial
    | turn m t => trivial
  have hvouched : ∀ c ∈ bookFinal.2.2, Vouched bookEntry c := by
    rw [calls_book]
    intro c hc
    simp only [bookCalls, List.mem_cons, List.not_mem_nil, or_false] at hc
    rcases hc with rfl | rfl | rfl
    · show bookEntry (bookUuid "KRW-BTC") = some ("KRW-BTC", .ask)
      decide +kernel
    · show bookEntry (bookUuid "KRW-ETH") = some ("KRW-ETH", .ask)
      decide +kernel
    · exact ⟨rfl, fun m side hbook => (side_bookEntry hbook).symm⟩
  have hkept := money_kept bookParse bookStrategy bookApi 120 (AppConfig.standard ℚ).account
    bookApi bookLedger bookMarkets bookConfig (some {}) [] created_book hkrw bookEntry
    (by decide +kernel) [] bookSteps hinforms (by rw [run_book]; exact hvouched)
  simp only [run_book] at hkept
  exact ⟨calls_book, by decide +kernel, hkept⟩

end Bot
end CoinBot
