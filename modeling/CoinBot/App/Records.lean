import CoinBot.App.BotTraffic
import CoinBot.Database.OrderTable

/- The orders of a running bot in its database.

   An order that the exchange has accepted is held in the store until a terminal snapshot
   of it is taken, and the database is asked to insert that snapshot in the same step of the
   worker. So no accepted order is ever in neither (`Custody`), and the table `orders` has
   one row for each that is closed, unless SQLite refused it (`Bot.orders_recorded`). -/
namespace CoinBot

open Json (Bytes Data)

variable {σ : Type}

/-- The store has the order, and it is not closed. -/
def OrderStore.Held (store : OrderStore) (uuid : String) : Prop :=
  ∃ o, store.get uuid = some o ∧ o.status.isTerminal = false

/-- The database was asked to insert the closed order. -/
def Database.Filed (db : Option Database) (uuid : String) : Prop :=
  ∃ d, db = some d ∧ ∃ o ∈ d.orders, o.id = uuid ∧ o.status.isTerminal = true

theorem Database.filed_of_orders {db db' : Option Database} {uuid : String}
    (hdb : db'.map (·.orders) = db.map (·.orders)) (h : Filed db uuid) : Filed db' uuid := by
  obtain ⟨d, hd, hfiled⟩ := h
  rw [hd, Option.map_some, Option.map_eq_some_iff] at hdb
  obtain ⟨d', hd', horders⟩ := hdb
  exact ⟨d', hd', horders ▸ hfiled⟩

/-- Every accepted order is held or filed, and only closed orders are in the database. -/
structure Custody (log : List ApiCall) (store : OrderStore) (db : Option Database) : Prop where
  connected : db.isSome = true
  closed : ∀ d, db = some d → ∀ o ∈ d.orders, o.status.isTerminal = true
  accepted : ∀ req uuid, ApiCall.postOrder req (.ok uuid) ∈ log → uuid ≠ "" →
    store.Held uuid ∨ Database.Filed db uuid

/-! The engine. -/

namespace MarketEngine

/-- A snapshot takes an order out of the store when it closes it, and no other. -/
theorem held_onOrderSnapshot (cfg : AppConfig ℚ) {e : MarketEngine} (s : Order) {uuid : String}
    (h : e.store.Held uuid) :
    (e.onOrderSnapshot cfg s).store.Held uuid ∨ s.id = uuid ∧ s.status.isTerminal = true := by
  by_cases hskip : ¬ e.forMarket s.market ∨ e.store.get s.id = none
  · rw [onOrderSnapshot_skip hskip]
    exact .inl h
  · rw [not_or, not_not] at hskip
    obtain ⟨old, hold⟩ := Option.ne_none_iff_exists'.mp hskip.2
    have hget := get_onOrderSnapshot cfg hskip.1 hold uuid
    by_cases hid : uuid = s.id
    · cases hclosed : s.status.isTerminal with
      | true => exact .inr ⟨hid.symm, rfl⟩
      | false =>
        refine .inl ⟨mergeSnapshot old s, ?_, hclosed⟩
        rw [hget, if_pos hid, hclosed]
        rfl
    · rw [if_neg hid] at hget
      obtain ⟨o, ho, hopen⟩ := h
      exact .inl ⟨o, hget.trans ho, hopen⟩

theorem held_reconcile (cfg : AppConfig ℚ) {e : MarketEngine} (s : Order) {uuid : String}
    (h : e.store.Held uuid) :
    (e.reconcileFromSnapshot cfg s).2.store.Held uuid ∨
      (e.reconcileFromSnapshot cfg s).1 = true ∧ s.id = uuid ∧ s.status.isTerminal = true := by
  rcases e.reconcileFromSnapshot_cases cfg s with hskip | ⟨prev, settled, -, -, hdelta, heq⟩
  · rw [hskip]
    exact .inl h
  · rw [heq]
    have hsettled : settled.store.Held uuid := by
      rw [(onlySettles_settleDelta hdelta).store]
      exact h
    exact (held_onOrderSnapshot cfg s hsettled).imp_right (And.intro rfl)

/-- What a submission leaves in the journal and in the store; it announces nothing. -/
theorem submit_store (cfg : AppConfig ℚ) (api : IOrderApi σ) (e : MarketEngine)
    (req : OrderRequest ℚ) (st : σ × List ApiCall) :
    let r := e.submit cfg api.recorded.postOrder req st
    let answer := (api.postOrder req st.1).1
    r.1.2.events = e.events ∧
      ((r.2 = st ∧ r.1.2.store = e.store) ∨
        (r.2.2 = st.2 ++ [.postOrder req answer] ∧
          ((∃ err, answer = .error err) ∧ r.1.2.store = e.store ∨
            ∃ uuid, answer = .ok uuid ∧ r.1.2.store = e.store.upsert (pendingOrder req uuid)))) := by
  have hafter : ∀ e' : MarketEngine, e'.store = e.store → e'.events = e.events →
      (e'.afterPost req (api.postOrder req st.1).1).2.events = e.events ∧
        ((∃ err, (api.postOrder req st.1).1 = .error err) ∧
            (e'.afterPost req (api.postOrder req st.1).1).2.store = e.store ∨
          ∃ uuid, (api.postOrder req st.1).1 = .ok uuid ∧
            (e'.afterPost req (api.postOrder req st.1).1).2.store =
              e.store.upsert (pendingOrder req uuid)) := by
    intro e' hstore hevents
    rw [← hstore, ← hevents]
    unfold afterPost releaseBuyToken
    cases (api.postOrder req st.1).1 with
    | error err =>
      cases req.position with
      | bid =>
        simp only
        split
        · exact ⟨rfl, .inl ⟨⟨err, rfl⟩, rfl⟩⟩
        · exact ⟨rfl, .inl ⟨⟨err, rfl⟩, rfl⟩⟩
      | ask => exact ⟨rfl, .inl ⟨⟨err, rfl⟩, rfl⟩⟩
    | ok uuid =>
      cases req.position with
      | bid => exact ⟨rfl, .inr ⟨uuid, rfl, rfl⟩⟩
      | ask => exact ⟨rfl, .inr ⟨uuid, rfl, rfl⟩⟩
  unfold submit
  rcases e.beforePost_cases cfg req with ⟨code, message, hfail⟩ | ⟨message, hfail⟩ |
    ⟨-, -, -, -, -, token, mgr, -, hok⟩ | ⟨-, -, -, -, -, hok⟩
  · rw [hfail]
    exact ⟨rfl, .inl ⟨rfl, rfl⟩⟩
  · rw [hfail]
    exact ⟨rfl, .inl ⟨rfl, rfl⟩⟩
  · rw [hok]
    obtain ⟨hevents, hstore⟩ :=
      hafter { e with accountMgr := mgr, activeBuyToken := some token } rfl rfl
    exact ⟨hevents, .inr ⟨rfl, hstore⟩⟩
  · rw [hok]
    obtain ⟨hevents, hstore⟩ := hafter e rfl rfl
    exact ⟨hevents, .inr ⟨rfl, hstore⟩⟩

end MarketEngine

namespace OrderStore

variable {store : OrderStore} {req : OrderRequest ℚ} {uuid : String}

theorem held_upsert (store : OrderStore) (req : OrderRequest ℚ) (hne : uuid ≠ "") :
    (store.upsert (MarketEngine.pendingOrder req uuid)).Held uuid := by
  have hid : (MarketEngine.pendingOrder req uuid).id ≠ "" := hne
  rw [upsert_eq hid]
  exact ⟨MarketEngine.pendingOrder req uuid,
    get_put_self store (MarketEngine.pendingOrder req uuid) hid, rfl⟩

theorem Held.upsert {uuid' : String} (h : store.Held uuid') (req : OrderRequest ℚ)
    (uuid : String) : (store.upsert (MarketEngine.pendingOrder req uuid)).Held uuid' := by
  by_cases hne : uuid = ""
  · have hempty : (MarketEngine.pendingOrder req uuid).id = "" := hne
    rw [OrderStore.upsert, dif_pos hempty]
    exact h
  · by_cases hsame : uuid' = uuid
    · rw [hsame]
      exact held_upsert store req hne
    · obtain ⟨o, ho, hopen⟩ := h
      have hid : (MarketEngine.pendingOrder req uuid).id ≠ "" := hne
      rw [upsert_eq hid]
      exact ⟨o, (get_put_ne store _ hid hsame).trans ho, hopen⟩

end OrderStore

/-! The moves of a worker. -/

namespace Custody

variable {log log' : List ApiCall} {store store' : OrderStore} {db db' : Option Database}

theorem filed_insert {uuid : String} (ctx : MarketContext) (o : Order)
    (h : Database.Filed ctx.db uuid) : Database.Filed (ctx.insertOrder o).db uuid := by
  obtain ⟨d, hd, o', ho', hid, hclosed⟩ := h
  refine ⟨{ d with orders := d.orders ++ [o] }, ?_, o', List.mem_append_left _ ho', hid, hclosed⟩
  show ctx.db.map _ = _
  rw [hd]
  rfl

theorem filed_new {o : Order} (ctx : MarketContext) (hdb : ctx.db.isSome = true)
    (hclosed : o.status.isTerminal = true) : Database.Filed (ctx.insertOrder o).db o.id := by
  obtain ⟨d, hd⟩ := Option.isSome_iff_exists.mp hdb
  refine ⟨{ d with orders := d.orders ++ [o] }, ?_, o,
    List.mem_append_right _ (List.mem_singleton.mpr rfl), rfl, hclosed⟩
  show ctx.db.map _ = _
  rw [hd]
  rfl

theorem stay (h : Custody log store db) (hdb : db'.map (·.orders) = db.map (·.orders))
    (hheld : ∀ uuid, store.Held uuid → store'.Held uuid) : Custody log store' db' := by
  have hfiled := fun uuid => @Database.filed_of_orders db db' uuid hdb
  obtain ⟨d, hd⟩ := Option.isSome_iff_exists.mp h.connected
  rw [hd, Option.map_some, Option.map_eq_some_iff] at hdb
  obtain ⟨d', hd', horders⟩ := hdb
  refine ⟨Option.isSome_iff_exists.mpr ⟨d', hd'⟩, fun d'' hd'' o ho => ?_,
    fun req uuid hmem hne => (h.accepted req uuid hmem hne).imp (hheld uuid) (hfiled uuid)⟩
  obtain rfl := Option.some.inj (hd'.symm.trans hd'')
  exact h.closed d hd o (horders ▸ ho)

/-- The closed order `o` is inserted, and the store may lose it. -/
theorem file (ctx : MarketContext) {o : Order} (h : Custody log store ctx.db)
    (hclosed : o.status.isTerminal = true)
    (hheld : ∀ uuid, store.Held uuid → store'.Held uuid ∨ o.id = uuid) :
    Custody log store' (ctx.insertOrder o).db := by
  refine ⟨?_, fun d hd o' ho' => ?_, fun req uuid hmem hne => ?_⟩
  · show (ctx.db.map _).isSome = true
    rw [Option.isSome_map]
    exact h.connected
  · obtain ⟨before, hbefore, rfl⟩ := Option.map_eq_some_iff.mp hd
    rcases List.mem_append.mp ho' with hold | hnew
    · exact h.closed before hbefore o' hold
    · rw [List.mem_singleton.mp hnew]
      exact hclosed
  · rcases h.accepted req uuid hmem hne with hopen | hfiled
    · rcases hheld uuid hopen with hstill | rfl
      · exact .inl hstill
      · exact .inr (filed_new ctx h.connected hclosed)
    · exact .inr (filed_insert ctx o hfiled)

theorem asked (h : Custody log store db)
    (hposts : ∀ req uuid, ApiCall.postOrder req (.ok uuid) ∈ log' →
      .postOrder req (.ok uuid) ∈ log) : Custody log' store db :=
  ⟨h.connected, h.closed, fun req uuid hmem => h.accepted req uuid (hposts req uuid hmem)⟩

end Custody

namespace MarketContext

variable {env : ManagerEnv (σ × List ApiCall)} {api : IOrderApi σ} {ctx ctx' : MarketContext}
  {st : σ × List ApiCall}

theorem custody_handleOrderEvent (cfg : AppConfig ℚ) (hasTrade : Bool) (ev : MyOrderEvent)
    {log : List ApiCall} (h : Custody log ctx.engine.store ctx.db) :
    Custody log (ctx.handleOrderEvent cfg hasTrade ev).engine.store
      (ctx.handleOrderEvent cfg hasTrade ev).db := by
  cases ev with
  | trade t =>
    refine h.stay rfl (fun uuid hheld => ?_)
    show (ctx.engine.onMyTrade cfg t).store.Held uuid
    rw [(ctx.engine.onMyTrade_frame cfg t).2.1]
    exact hheld
  | order o =>
    unfold handleOrderEvent
    simp only
    split
    · next hterminal =>
      rw [Bool.and_eq_true] at hterminal
      split
      · exact Custody.file { ctx with engine := _ } h hterminal.2
          (fun uuid hheld => (MarketEngine.held_reconcile cfg o hheld).imp_right (fun hdone => hdone.2.1))
      · next hrefused =>
        refine h.stay rfl (fun uuid hheld => ?_)
        exact (MarketEngine.held_reconcile cfg o hheld).resolve_right (fun hdone => hrefused hdone.1)
    · split
      · next hterminal =>
        exact Custody.file { ctx with engine := _ } h hterminal
          (fun uuid hheld => (MarketEngine.held_onOrderSnapshot cfg o hheld).imp_right And.left)
      · next hopen =>
        refine h.stay rfl (fun uuid hheld => ?_)
        exact (MarketEngine.held_onOrderSnapshot cfg o hheld).resolve_right (fun hdone => hopen hdone.2)

theorem posts_account {req : OrderRequest ℚ} {answer : Except RestError String}
    (h : ApiCall.postOrder req answer ∈ (api.recorded.getMyAccount st).2.2) :
    .postOrder req answer ∈ st.2 :=
  (List.mem_append.mp h).resolve_right (fun hnew => nomatch List.mem_singleton.mp hnew)

theorem posts_query (api : IOrderApi σ) (orderUuid : String) (retries : Nat)
    (st : σ × List ApiCall) {req : OrderRequest ℚ} {answer : Except RestError String}
    (h : ApiCall.postOrder req answer ∈
      (queryOrderWithRetry_ api.recorded.toOrderApi orderUuid retries st).2.2) :
    .postOrder req answer ∈ st.2 := by
  have hone : ∀ {st : σ × List ApiCall}, ApiCall.postOrder req answer ∈
      (api.recorded.getOrder orderUuid st).2.2 → .postOrder req answer ∈ st.2 := by
    intro st hmem
    rcases List.mem_append.mp hmem with hold | hnew
    · exact hold
    · cases List.mem_singleton.mp hnew
  induction retries generalizing st with
  | zero => exact h
  | succ retries ih =>
    unfold queryOrderWithRetry_ at h
    split at h
    · next heq =>
      obtain ⟨-, rfl⟩ := Prod.mk.inj heq
      exact hone h
    · next heq =>
      obtain ⟨-, rfl⟩ := Prod.mk.inj heq
      exact hone (ih _ h)

theorem custody_recoverOrder (cfg : AppConfig ℚ) (api : IOrderApi σ) (orderUuid : String)
    (h : Custody st.2 ctx.engine.store ctx.db) :
    let r := recoverOrder cfg api.recorded.toOrderApi (ctx, st) orderUuid
    Custody r.2.2 r.1.engine.store r.1.db := by
  unfold recoverOrder
  simp only
  split
  · exact h
  · have hasked := h.asked (fun req uuid => posts_query api orderUuid 3 st)
    split
    · next heq =>
      rw [heq] at hasked
      exact hasked.asked (fun req uuid => posts_account)
    · next o st' heq =>
      rw [heq] at hasked
      split
      · next hterminal =>
        rw [Bool.and_eq_true] at hterminal
        exact Custody.file { ctx with engine := _ } hasked hterminal.1
          (fun uuid hheld => (MarketEngine.held_reconcile cfg o hheld).imp_right (fun hdone => hdone.2.1))
      · next hrefused =>
        refine hasked.stay rfl (fun uuid hheld => ?_)
        refine (MarketEngine.held_reconcile cfg o hheld).resolve_right (fun hdone => hrefused ?_)
        rw [hdone.2.2, hdone.1]
        rfl

theorem custody_runRecovery_ (cfg : AppConfig ℚ) (api : IOrderApi σ)
    (h : Custody st.2 ctx.engine.store ctx.db) :
    let r := ctx.runRecovery_ cfg api.recorded.toOrderApi st
    Custody r.2.2 r.1.engine.store r.1.db := by
  unfold runRecovery_
  simp only
  split
  · exact h
  · exact custody_recoverOrder cfg api ctx.engine.activePendingIds.2
      (custody_recoverOrder cfg api ctx.engine.activePendingIds.1 h)

theorem orders_map (db : Option Database) {f : Database → Database}
    (hf : ∀ d, (f d).orders = d.orders) : (db.map f).map (·.orders) = db.map (·.orders) := by
  rw [Option.map_map]
  exact congrArg (Option.map · db) (funext hf)

theorem orders_handleEngineEvent (ctx : MarketContext) (nowMs : Int) (ev : EngineEvent) :
    (ctx.handleEngineEvent nowMs ev).db.map (·.orders) = ctx.db.map (·.orders) := by
  cases ev with
  | fill ev => exact rfl
  | status ev => exact orders_map ctx.db (fun _ => rfl)

theorem orders_deliverEvents (ctx : MarketContext) (nowMs : Int) :
    (ctx.deliverEvents nowMs).db.map (·.orders) = ctx.db.map (·.orders) := by
  have hfold : ∀ (evs : List EngineEvent) (ctx : MarketContext),
      (ctx.handleEngineEvents_ nowMs evs).db.map (·.orders) = ctx.db.map (·.orders) := by
    intro evs
    induction evs with
    | nil => exact fun ctx => rfl
    | cons ev evs ih =>
      exact fun ctx => (ih (ctx.handleEngineEvent nowMs ev)).trans
        (ctx.orders_handleEngineEvent nowMs ev)
  exact hfold ctx.engine.pollEvents.1 { ctx with engine := ctx.engine.pollEvents.2 }

theorem custody_handleEngineEvents_ (ctx : MarketContext) (nowMs : Int) (evs : List EngineEvent)
    {log : List ApiCall} (h : Custody log ctx.engine.store ctx.db) :
    Custody log (ctx.handleEngineEvents_ nowMs evs).engine.store
      (ctx.handleEngineEvents_ nowMs evs).db := by
  unfold handleEngineEvents_
  induction evs generalizing ctx with
  | nil => exact h
  | cons ev evs ih =>
    apply ih
    refine h.stay (ctx.orders_handleEngineEvent nowMs ev) (fun uuid hheld => ?_)
    cases ev with
    | fill ev => exact hheld
    | status ev => exact hheld

theorem custody_submitOrder (henv : env.api = api.recorded.toOrderApi) (req : OrderRequest ℚ)
    (h : Custody st.2 ctx.engine.store ctx.db) :
    let r := (ctx.submitOrder env req st).2
    Custody r.2.2 r.1.engine.store r.1.db := by
  have hsubmitted : Custody (ctx.engine.submit env.cfg env.api.postOrder req st).2.2
      (ctx.engine.submit env.cfg env.api.postOrder req st).1.2.store ctx.db := by
    rw [henv]
    rcases (ctx.engine.submit_store env.cfg api req st).2 with ⟨hlog, hstore⟩ |
      ⟨hlog, ⟨⟨err, hanswer⟩, hstore⟩ | ⟨uuid, hanswer, hstore⟩⟩
    · rw [hlog, hstore]
      exact h
    · rw [hlog, hstore, hanswer]
      refine h.asked (fun req' uuid hmem => ?_)
      rcases List.mem_append.mp hmem with hold | hnew
      · exact hold
      · cases List.mem_singleton.mp hnew
    · rw [hlog, hstore, hanswer]
      refine ⟨h.connected, h.closed, fun req' uuid' hmem hne => ?_⟩
      rcases List.mem_append.mp hmem with hold | hnew
      · exact (h.accepted req' uuid' hold hne).imp_left (fun hheld => hheld.upsert req uuid)
      · obtain ⟨rfl, hsame⟩ := ApiCall.postOrder.inj (List.mem_singleton.mp hnew)
        obtain rfl := Except.ok.inj hsame
        exact .inl (OrderStore.held_upsert _ req' hne)
  unfold submitOrder
  simp only
  split
  · exact hsubmitted
  · exact hsubmitted

theorem custody_move (henv : env.api = api.recorded.toOrderApi)
    {state state' : MarketContext × (σ × List ApiCall)} (hmove : Move env state state')
    (h : Custody state.2.2 state.1.engine.store state.1.db) :
    Custody state'.2.2 state'.1.engine.store state'.1.db := by
  cases hmove with
  | note _ hengine _ hdb =>
    rw [hengine, hdb]
    exact h
  | insertCandle ctx st candle unit =>
    exact h.stay (orders_map ctx.db (fun _ => rfl)) (fun uuid hheld => hheld)
  | setMarkPrice ctx st p => exact h
  | handleOrderEvent ctx st hasTrade ev => exact custody_handleOrderEvent env.cfg hasTrade ev h
  | runRecovery_ ctx st =>
    rw [henv]
    exact custody_runRecovery_ env.cfg api h
  | deliverEvents ctx st nowMs =>
    have hpolled : Custody st.2 ctx.engine.pollEvents.2.store ctx.db := h
    exact custody_handleEngineEvents_ { ctx with engine := ctx.engine.pollEvents.2 } nowMs _ hpolled
  | decide st _ _ => exact h
  | submitOrder st _ _ => exact custody_submitOrder henv _ h

end MarketContext

/-! The bot. -/

namespace Bot

/-- Every accepted order is held or filed in every state of a started bot with a database. -/
theorem custody_run {τ : Type} (parse : Bytes → Option Data) {env : ManagerEnv (σ × List ApiCall)}
    {api : IOrderApi σ} (henv : env.api = api.recorded.toOrderApi) {cfg : AccountConfig}
    {startApi : IOrderApi τ} {store : OrderStore} {mgr : AccountManager} {markets : List String}
    {mcfg : MarketManagerConfig} {t : τ} {manager : MarketEngineManager}
    (hcreate : (MarketEngineManager.create cfg startApi store mgr markets mcfg (some {}) t).1 =
      .ok manager) (s : σ) (steps : List BotStep) :
    let final := Machine.run (step parse env) (assemble manager, (s, [])) steps
    Custody final.2.2 final.1.manager.store final.1.manager.db := by
  have hempty : Custody [] (assemble manager).manager.store (assemble manager).manager.db := by
    have hdb : (assemble manager).manager.db = some {} :=
      (MarketEngineManager.started_create hcreate).sameDb
    rw [hdb]
    refine ⟨rfl, fun d hd o ho => ?_, fun req uuid hmem => absurd hmem List.not_mem_nil⟩
    obtain rfl := Option.some.inj hd
    exact absurd ho List.not_mem_nil
  exact shared_run parse env (P := fun store _ db st => Custody st.2 store db)
    (fun _ _ hmove hst => MarketContext.custody_move henv hmove hst)
    (assemble manager, (s, [])) steps hempty

/-- **Every accepted order is recorded.** Start the bot with a database over any file and run it
    in any way, whatever the exchange answers and whatever messages come, and let SQLite do the
    inserts, of which any may fail: the rows of the file stay, and an order that the exchange has
    accepted is open in the store, or the table `orders` has exactly one row with its uuid, which
    was there before or is that of a closed order, or all inserts of the order have failed. -/
theorem orders_recorded {τ δ : Type} (parse : Bytes → Option Data) (strategy : StrategyEnv ℚ)
    (api : IOrderApi σ) (pendingTimeout : Int) (cfg : AccountConfig) (startApi : IOrderApi τ)
    (store : OrderStore) (mgr : AccountManager) (markets : List String)
    (mcfg : MarketManagerConfig) (t : τ) {manager : MarketEngineManager}
    (hcreate : (MarketEngineManager.create cfg startApi store mgr markets mcfg (some {}) t).1 =
      .ok manager) {sqlite : Database.Sqlite δ} (hsqlite : sqlite.Documented) (file : δ) (s : σ)
    (steps : List BotStep) :
    let final := Machine.run
      (step parse
        { strategy := strategy, api := api.recorded.toOrderApi, pendingTimeout := pendingTimeout })
      (assemble manager, (s, [])) steps
    ∃ d, final.1.manager.db = some d ∧
      ∀ js after, Database.Session sqlite file js (some after) → js.map (·.1) = d.orders →
        (sqlite.orders file).rows <+: (sqlite.orders after).rows ∧
        ∀ req uuid, ApiCall.postOrder req (.ok uuid) ∈ final.2.2 → uuid ≠ "" →
          final.1.manager.store.Held uuid ∨
            Database.Recorded (sqlite.orders file) (sqlite.orders after) uuid ∨
            (∃ j ∈ js, j.1.id = uuid) ∧ ∀ j ∈ js, j.1.id = uuid → j.2 = false := by
  intro final
  have hcustody : Custody final.2.2 final.1.manager.store final.1.manager.db :=
    custody_run parse rfl hcreate s steps
  obtain ⟨d, hd⟩ := Option.isSome_iff_exists.mp hcustody.connected
  refine ⟨d, hd, fun js after hsession hjs => ⟨?_, fun req uuid hmem hne => ?_⟩⟩
  · obtain ⟨after', hafter, htable⟩ := hsession.orders hsqlite
    obtain rfl := Option.some.inj hafter
    rw [htable]
    exact UniqueTable.rows_insertAll _ _
  · refine (hcustody.accepted req uuid hmem hne).imp_right ?_
    rintro ⟨d', hd', o, ho, hid, -⟩
    obtain rfl := Option.some.inj (hd.symm.trans hd')
    have hclosed : ∀ j ∈ js, j.1.status.isTerminal = true :=
      fun j hj => hcustody.closed d hd j.1 (hjs ▸ List.mem_map_of_mem hj)
    refine (hsession.recorded hsqlite hclosed uuid).imp_right (And.intro ?_)
    rw [← hjs] at ho
    obtain ⟨j, hj, rfl⟩ := List.mem_map.mp ho
    exact ⟨j, hj, hid⟩

/-- The table after the insert of the sale that is done. -/
def bookTable : Database.OrderTable := UniqueTable.empty.insert (.of bookClosed)

theorem session_book :
    Database.Session Database.memory .empty [(bookClosed, true)] (some bookTable) :=
  .insert bookClosed .opened

theorem filed_book : bookFinal.1.manager.db.map (·.orders) = some [bookClosed] := by
  decide +kernel

/-- The first sale is in the table, and the second one is open. -/
theorem orders_recorded_book :
    bookFinal.1.manager.db.map (·.orders) = some [bookClosed] ∧
      Database.Recorded .empty bookTable (bookUuid "KRW-BTC") ∧
      bookFinal.1.manager.store.Held (bookUuid "KRW-ETH") := by
  have hrecorded := orders_recorded bookParse bookStrategy bookApi 120
    (AppConfig.standard ℚ).account bookApi .empty bookLedger bookMarkets bookConfig [] created_book
    Database.documented_memory .empty [] bookSteps
  simp only [run_book, calls_book] at hrecorded
  obtain ⟨d, hd, hall⟩ := hrecorded
  have horders := filed_book
  rw [hd] at horders
  obtain ⟨-, haccepted⟩ := hall _ _ session_book (Option.some.inj horders).symm
  refine ⟨filed_book, ?_, ?_⟩
  · rcases haccepted (bookSale "KRW-BTC") (bookUuid "KRW-BTC") (by decide) (by decide) with
      ⟨o, ho, -⟩ | hthere | ⟨-, hfailed⟩
    · have hgone : bookFinal.1.manager.store.get (bookUuid "KRW-BTC") = none := by decide +kernel
      cases hgone.symm.trans ho
    · exact hthere
    · cases hfailed (bookClosed, true) (List.mem_singleton.mpr rfl) rfl
  · exact ⟨MarketEngine.pendingOrder (bookSale "KRW-ETH") (bookUuid "KRW-ETH"),
      by decide +kernel, rfl⟩

end Bot
end CoinBot
