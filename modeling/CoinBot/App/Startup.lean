import CoinBot.Allocation.Rebuild
import CoinBot.App.MarketEngineManager

/- What the constructor of the manager leaves.

   Whatever the exchange answers, a market of the list has one context, which is new: its
   engine has no order, its strategy waits for none, and its queue is empty. The router
   knows just these markets. -/
namespace CoinBot

open Json (Bytes Data)

/-- What `std::string` compares. -/
theorem utf8_injective {s t : String} (h : Json.utf8 s = Json.utf8 t) : s = t := by
  rw [← Json.text_utf8 s, h, Json.text_utf8]

variable {σ : Type}

/-- An account that the exchange may answer with. -/
def IOrderApi.Answers (api : IOrderApi σ) (account : Account) : Prop :=
  ∃ s s', api.getMyAccount s = (.ok account, s')

namespace MarketEngineManager

/-- The context of a market as the constructor makes it, for the position that was found. -/
def newWorker (mcfg : MarketManagerConfig) (store : OrderStore) (mgr : AccountManager)
    (db : Option Database) (market : String) (pos : PositionSnapshot ℚ) : Worker where
  ctx :=
    { MarketContext.create market mgr mcfg.strategyParams pos db with
      engine := { market := market, store := store, accountMgr := mgr } }
  eventQueue := .create mcfg.queueCapacity

/-- A position as an account of the exchange has it, or none where it did not answer. -/
def Found (api : IOrderApi σ) (market : String) (pos : PositionSnapshot ℚ) : Prop :=
  pos = ⟨0, 0⟩ ∨ ∃ account, api.Answers account ∧ pos = StartupRecovery.positionIn account market

variable {api : IOrderApi σ} {cfg : AccountConfig} {mcfg : MarketManagerConfig} {store : OrderStore}
  {mgr : AccountManager} {db : Option Database}

/-! The contexts. -/

theorem found_buildPositionSnapshot (api : IOrderApi σ) (market : String) (s : σ) :
    Found api market (StartupRecovery.buildPositionSnapshot api market s).1 := by
  unfold StartupRecovery.buildPositionSnapshot
  cases hanswer : api.getMyAccount s with
  | mk answer s' =>
    cases answer with
    | ok account => exact .inr ⟨account, ⟨s, s', hanswer⟩, rfl⟩
    | error err => exact .inl rfl

theorem addMarket_known {state : KeyMap String Worker × σ} {market : String}
    (h : (state.1.lookup market).isSome) : addMarket api mcfg store mgr db state market = state :=
  if_pos h

variable (mcfg store mgr db) in
theorem addMarket_new {state : KeyMap String Worker × σ} {market : String}
    (h : ¬ (state.1.lookup market).isSome) :
    ∃ pos s', Found api market pos ∧ addMarket api mcfg store mgr db state market =
      (state.1.insert market (newWorker mcfg store mgr db market pos), s') :=
  ⟨_, _, found_buildPositionSnapshot api market _, if_neg h⟩

/-- Every context is new, and is stored under its market. -/
def AllNew (api : IOrderApi σ) (mcfg : MarketManagerConfig) (store : OrderStore)
    (mgr : AccountManager) (db : Option Database) (contexts : KeyMap String Worker) : Prop :=
  ∀ m w, contexts.lookup m = some w → ∃ pos, Found api m pos ∧ w = newWorker mcfg store mgr db m pos

theorem lookup_addMarket (state : KeyMap String Worker × σ) (market m : String) :
    ((addMarket api mcfg store mgr db state market).1.lookup m).isSome ↔
      m = market ∨ (state.1.lookup m).isSome := by
  by_cases hknown : (state.1.lookup market).isSome
  · rw [addMarket_known hknown]
    constructor
    · exact .inr
    · rintro (rfl | h)
      · exact hknown
      · exact h
  · obtain ⟨pos, s', -, heq⟩ := addMarket_new mcfg store mgr db hknown
    rw [heq]
    by_cases hm : m = market
    · subst hm
      simp
    · simp [AList.lookup_insert_ne hm, hm]

theorem allNew_addMarket {state : KeyMap String Worker × σ} (h : AllNew api mcfg store mgr db state.1)
    (market : String) :
    AllNew api mcfg store mgr db (addMarket api mcfg store mgr db state market).1 := by
  by_cases hknown : (state.1.lookup market).isSome
  · rw [addMarket_known hknown]
    exact h
  · obtain ⟨pos, s', hpos, heq⟩ := addMarket_new mcfg store mgr db hknown
    rw [heq]
    intro m w hw
    by_cases hm : m = market
    · subst hm
      rw [AList.lookup_insert] at hw
      exact ⟨pos, hpos, (Option.some.inj hw).symm⟩
    · rw [AList.lookup_insert_ne hm] at hw
      exact h m w hw

variable (api mcfg store mgr db) in
theorem lookup_addMarkets (markets : List String) (state : KeyMap String Worker × σ) (m : String) :
    ((markets.foldl (addMarket api mcfg store mgr db) state).1.lookup m).isSome ↔
      m ∈ markets ∨ (state.1.lookup m).isSome := by
  induction markets generalizing state with
  | nil => simp
  | cons market markets ih =>
    rw [List.foldl_cons, ih, lookup_addMarket, List.mem_cons]
    tauto

theorem allNew_addMarkets (markets : List String) {state : KeyMap String Worker × σ}
    (h : AllNew api mcfg store mgr db state.1) :
    AllNew api mcfg store mgr db (markets.foldl (addMarket api mcfg store mgr db) state).1 := by
  induction markets generalizing state with
  | nil => exact h
  | cons market markets ih =>
    rw [List.foldl_cons]
    exact ih (allNew_addMarket h market)

/-! The ledger. -/

theorem rebuildAccountOnStartup_cases (cfg : AccountConfig) (api : IOrderApi σ) (attempts : Nat)
    (mgr : AccountManager) (s : σ) :
    (∃ s', rebuildAccountOnStartup_ cfg api attempts mgr s = (false, mgr, s')) ∨
      ∃ account s', api.Answers account ∧ rebuildAccountOnStartup_ cfg api attempts mgr s =
        (true, mgr.rebuildFromAccount cfg account, s') := by
  induction attempts generalizing s with
  | zero => exact .inl ⟨s, rfl⟩
  | succ attempts ih =>
    unfold rebuildAccountOnStartup_
    cases hanswer : api.getMyAccount s with
    | mk answer s' =>
      cases answer with
      | ok account => exact .inr ⟨account, s', ⟨s, s', hanswer⟩, rfl⟩
      | error err => exact ih s'

/-! The manager. -/

/-- What the constructor leaves when it does not throw: a ledger that was last rebuilt from an
    account of the exchange, and a new context for each market of the list. -/
structure Started (cfg : AccountConfig) (api : IOrderApi σ) (mcfg : MarketManagerConfig)
    (store : OrderStore) (mgr : AccountManager) (markets : List String) (db : Option Database)
    (m : MarketEngineManager) : Prop where
  sameStore : m.store = store
  sameDb : m.db = db
  rebuilt : ∃ (before : AccountManager) (account : Account), api.Answers account ∧
    (∀ k, (before.getBudget k).isSome = (mgr.getBudget k).isSome) ∧
    m.accountMgr = before.rebuildFromAccount cfg account
  markets : ∀ k, (m.contexts.lookup k).isSome ↔ k ∈ markets
  contexts : ∃ first : AccountManager, AllNew api mcfg store first db m.contexts

theorem started_create {markets : List String} {s : σ} {m : MarketEngineManager}
    (h : (create cfg api store mgr markets mcfg db s).1 = .ok m) :
    Started cfg api mcfg store mgr markets db m := by
  unfold create at h
  rcases rebuildAccountOnStartup_cases cfg api mcfg.syncRetry mgr s with ⟨s₁, hfailed⟩ |
    ⟨account, s₁, hanswers, hsynced⟩
  · rw [hfailed] at h
    cases h
  · rw [hsynced] at h
    simp only at h
    set first := mgr.rebuildFromAccount cfg account with hfirst
    set filled := markets.foldl (addMarket api mcfg store first db) (∅, s₁) with hfilled
    have hmarkets : ∀ k, (filled.1.lookup k).isSome ↔ k ∈ markets := by
      intro k
      rw [hfilled, lookup_addMarkets]
      simp
    have hnew : AllNew api mcfg store first db filled.1 :=
      allNew_addMarkets markets (fun k w hw => absurd hw (by simp))
    have hsome : ∀ k, (first.getBudget k).isSome = (mgr.getBudget k).isSome :=
      fun k => AccountManager.isSome_rebuilt cfg account mgr k
    rcases rebuildAccountOnStartup_cases cfg api mcfg.syncRetry first filled.2 with ⟨s₂, hlast⟩ |
      ⟨account', s₂, hanswers', hlast⟩
    · rw [hlast] at h
      obtain rfl := Except.ok.inj h
      exact ⟨rfl, rfl, ⟨mgr, account, hanswers, fun _ => rfl, rfl⟩, hmarkets, first, hnew⟩
    · rw [hlast] at h
      obtain rfl := Except.ok.inj h
      exact ⟨rfl, rfl, ⟨first, account', hanswers', hsome, rfl⟩, hmarkets, first, hnew⟩

/-! The router. -/

theorem lookup_registerMarkets (keys : List String) (r : EventRouter) (m : String) :
    (keys.foldl (fun r market => r.registerMarket (Json.utf8 market)) r).routes.lookup
        (Json.utf8 m) =
      if m ∈ keys then some [] else r.routes.lookup (Json.utf8 m) := by
  induction keys generalizing r with
  | nil => simp
  | cons key keys ih =>
    rw [List.foldl_cons, ih]
    by_cases hm : m = key
    · subst hm
      simp [EventRouter.registerMarket]
    · have hne : Json.utf8 m ≠ Json.utf8 key := fun h => hm (utf8_injective h)
      simp [EventRouter.registerMarket, AList.lookup_insert_ne hne, hm]

/-- The router of the assembled bot has an empty log for each market with a context. -/
theorem lookup_assemble (m : MarketEngineManager) (market : String) :
    (Bot.assemble m).router.routes.lookup (Json.utf8 market) =
      if (m.contexts.lookup market).isSome then some [] else none := by
  show (m.registerWith { routes := ∅ }).routes.lookup (Json.utf8 market) = _
  rw [registerWith, lookup_registerMarkets, AList.lookup_empty]
  exact if_congr (by rw [AList.lookup_isSome]; rfl) rfl rfl

end MarketEngineManager

/-! An example. -/

/-- An exchange that is its list of open orders. -/
def bookApi : IOrderApi (List Order) where
  postOrder req book :=
    (.ok (req.identifier ++ "#"), book ++ [MarketEngine.pendingOrder req (req.identifier ++ "#")])
  getOrder orderUuid book :=
    match book.find? (fun o => o.id = orderUuid) with
    | some o => (.ok o, book)
    | none => (.error { code := .badStatus, httpStatus := 404 }, book)
  getMyAccount book :=
    (.ok { krwFree := 10000, positions := [⟨"BTC", 1000, 9, "KRW"⟩, ⟨"ETH", 1000, 9, "KRW"⟩] },
      book)
  getOpenOrders market book := (.ok (book.filter (fun o => o.market = market)), book)
  cancelOrder orderUuid identifier book :=
    (.ok true, book.filter (fun o => match orderUuid with
      | some uuid => o.id ≠ uuid
      | none => o.identifier ≠ identifier))

/-- Two markets, before the first account. -/
def bookLedger : AccountManager where
  budgets := (AList.singleton "KRW-BTC" { market := "KRW-BTC" }).insert "KRW-ETH"
    { market := "KRW-ETH" }

/-- The settings of the example: a queue for two messages. -/
def bookConfig : MarketManagerConfig where
  strategyParams := .standard ℚ
  queueCapacity := 2

end CoinBot
