import CoinBot.App.BotTraffic

/- The bot is started again.

   The exchange has a set of open orders, of which the model knows the key alone: a fill may
   change everything else at any time. An exchange is honest when an order is opened by a post
   and by nothing else, when a listing has every open order of its market, and when an order
   that was cancelled is not open. After a new start none of the orders that the old run
   posted is left (`restart_clean`), unless a listing or a cancellation has failed. -/
namespace CoinBot

open Json (Bytes Data)

/-- What names an open order. -/
structure OrderKey where
  id : String
  market : String
  identifier : Option String
  deriving DecidableEq, Repr

def Order.key (o : Order) : OrderKey where
  id := o.id
  market := o.market
  identifier := o.identifier

/-- A cancellation is about the order: by the uuid, or by the identifier where it has no uuid. -/
def OrderKey.NamedBy (k : OrderKey) (orderUuid identifier : Option String) : Prop :=
  match orderUuid with
  | some uuid => k.id = uuid
  | none => k.identifier = identifier

variable {σ : Type}

/-- An exchange and its open orders. -/
structure Honest (api : IOrderApi σ) (openOrders : σ → Set OrderKey) : Prop where
  posted : ∀ req s, ∀ k ∈ openOrders (api.postOrder req s).2, k ∈ openOrders s ∨
    (k.market = req.market ∧ (req.identifier ≠ "" → k.identifier = some req.identifier))
  queried : ∀ orderUuid s, openOrders (api.getOrder orderUuid s).2 ⊆ openOrders s
  account : ∀ s, openOrders (api.getMyAccount s).2 ⊆ openOrders s
  listed : ∀ market s, openOrders (api.getOpenOrders market s).2 ⊆ openOrders s
  complete : ∀ market s os, (api.getOpenOrders market s).1 = .ok os →
    ∀ k ∈ openOrders (api.getOpenOrders market s).2, k.market = market → ∃ o ∈ os, o.key = k
  canceled : ∀ orderUuid identifier s,
    openOrders (api.cancelOrder orderUuid identifier s).2 ⊆ openOrders s
  gone : ∀ orderUuid identifier s, (api.cancelOrder orderUuid identifier s).1 = .ok true →
    ∀ k ∈ openOrders (api.cancelOrder orderUuid identifier s).2, ¬ k.NamedBy orderUuid identifier

theorem Honest.recorded {api : IOrderApi σ} {openOrders : σ → Set OrderKey}
    (h : Honest api openOrders) : Honest api.recorded (fun st => openOrders st.1) where
  posted req st := h.posted req st.1
  queried orderUuid st := h.queried orderUuid st.1
  account st := h.account st.1
  listed market st := h.listed market st.1
  complete market st os := h.complete market st.1 os
  canceled orderUuid identifier st := h.canceled orderUuid identifier st.1
  gone orderUuid identifier st := h.gone orderUuid identifier st.1

/-- A listing or a cancellation without effect. -/
def ApiCall.Failed : ApiCall → Prop
  | .getOpenOrders _ (.error _) => True
  | .cancelOrder _ _ answer => answer ≠ .ok true
  | _ => False

instance (c : ApiCall) : Decidable c.Failed :=
  match c with
  | .getOpenOrders _ (.error _) => isTrue trivial
  | .getOpenOrders _ (.ok _) => isFalse id
  | .cancelOrder _ _ (.ok true) => isFalse (fun h => h rfl)
  | .cancelOrder _ _ (.ok false) => isTrue (fun h => nomatch h)
  | .cancelOrder _ _ (.error _) => isTrue (fun h => nomatch h)
  | .getMyAccount _ => isFalse id
  | .getOrder _ _ => isFalse id
  | .postOrder _ _ => isFalse id

/-! The start opens no order. -/

section Shrinks

open StartupRecovery MarketEngineManager

variable {api : IOrderApi σ} {openOrders : σ → Set OrderKey} (h : Honest api openOrders)
include h

theorem shrinks_cancelWithRetry (o : Order) (retries : Nat) (s : σ) :
    openOrders (cancelWithRetry api o retries s).2 ⊆ openOrders s := by
  induction retries generalizing s with
  | zero => exact subset_rfl
  | succ retries ih =>
    have hone := h.canceled (cancelUuid o) o.identifier s
    unfold cancelWithRetry
    split
    · next heq =>
      rw [heq] at hone
      exact hone
    · next heq =>
      rw [heq] at hone
      exact (ih _).trans hone

theorem shrinks_cancelOrders (opt : Options) (os : List Order) (s : σ) :
    openOrders (os.foldl (cancelIfBot api opt) s) ⊆ openOrders s := by
  induction os generalizing s with
  | nil => exact subset_rfl
  | cons o os ih =>
    refine (ih (cancelIfBot api opt s o)).trans ?_
    unfold cancelIfBot
    split
    · exact shrinks_cancelWithRetry h o opt.cancelRetry s
    · exact subset_rfl

theorem shrinks_verifyCanceled (market : String) (opt : Options) (retries : Nat) (s : σ) :
    openOrders (verifyCanceled api market opt retries s) ⊆ openOrders s := by
  induction retries generalizing s with
  | zero => exact subset_rfl
  | succ retries ih =>
    have hone := h.listed market s
    unfold verifyCanceled
    split
    · next heq =>
      rw [heq] at hone
      exact hone
    · next heq =>
      rw [heq] at hone
      split
      · exact (ih _).trans hone
      · exact hone

theorem shrinks_cancelBotOpenOrders (market : String) (opt : Options) (s : σ) :
    openOrders (cancelBotOpenOrders api market opt s) ⊆ openOrders s := by
  have hone := h.listed market s
  unfold cancelBotOpenOrders
  split
  · exact subset_rfl
  · split
    · next heq =>
      rw [heq] at hone
      exact hone
    · next os s' heq =>
      rw [heq] at hone
      exact (shrinks_verifyCanceled h market opt _ _).trans
        ((shrinks_cancelOrders h opt os s').trans hone)

theorem shrinks_buildPositionSnapshot (market : String) (s : σ) :
    openOrders (buildPositionSnapshot api market s).2 ⊆ openOrders s := by
  have hone := h.account s
  unfold buildPositionSnapshot
  split
  · next heq =>
    rw [heq] at hone
    exact hone
  · next heq =>
    rw [heq] at hone
    exact hone

theorem shrinks_addMarket (mcfg : MarketManagerConfig) (store : OrderStore) (mgr : AccountManager)
    (db : Option Database) (state : KeyMap String Worker × σ) (market : String) :
    openOrders (addMarket api mcfg store mgr db state market).2 ⊆ openOrders state.2 := by
  unfold addMarket
  split
  · exact subset_rfl
  · exact (shrinks_buildPositionSnapshot h market _).trans
      (shrinks_cancelBotOpenOrders h market _ state.2)

theorem shrinks_rebuildAccountOnStartup (cfg : AccountConfig) (attempts : Nat)
    (mgr : AccountManager) (s : σ) :
    openOrders (rebuildAccountOnStartup_ cfg api attempts mgr s).2.2 ⊆ openOrders s := by
  induction attempts generalizing s with
  | zero => exact subset_rfl
  | succ attempts ih =>
    have hone := h.account s
    unfold rebuildAccountOnStartup_
    split
    · next heq =>
      rw [heq] at hone
      exact hone
    · next heq =>
      rw [heq] at hone
      exact (ih _).trans hone

end Shrinks

/-! The start leaves none of the bot's orders open. -/

/-- The start takes an order of this key for the bot's own in the market. -/
def OrderKey.Own (market : String) (k : OrderKey) : Prop :=
  ∃ identifier, k.identifier = some identifier ∧ Bot.Recognised market identifier

/-- In this state none of the bot's orders is open in the market. -/
def CleanIn (openOrders : σ → Set OrderKey) (market : String) (s : σ) : Prop :=
  ∀ k ∈ openOrders s, k.market = market → ¬ k.Own market

section Canceled

open StartupRecovery MarketEngineManager

variable {api : IOrderApi σ} {openOrders : σ → Set OrderKey}

theorem CleanIn.mono {market : String} {s s' : σ} (h : CleanIn openOrders market s)
    (hsub : openOrders s' ⊆ openOrders s) : CleanIn openOrders market s' :=
  fun k hk => h k (hsub hk)

theorem isBotOrder_iff (market : String) (o : Order) :
    isBotOrder (recoveryOptions market) o = true ↔ o.key.Own market := by
  unfold isBotOrder OrderKey.Own Order.key
  cases o.identifier with
  | none => simp
  | some identifier => simp [Bot.Recognised]

theorem cancelWithRetry_once (api : IOrderApi σ) (o : Order) (s : σ) :
    (cancelWithRetry api o 1 s).2 = (api.cancelOrder (cancelUuid o) o.identifier s).2 := by
  unfold cancelWithRetry cancelWithRetry
  split
  · next heq => rw [heq]
  · next heq => rw [heq]

theorem namedBy_cancelArgs (o : Order) : o.key.NamedBy (cancelUuid o) o.identifier := by
  unfold cancelUuid OrderKey.NamedBy
  split
  · next uuid heq =>
    split at heq
    · cases heq
    · exact Option.some.inj heq
  · exact rfl

theorem cancelIfBot_recorded (market : String) (o : Order) (st : σ × List ApiCall) :
    cancelIfBot api.recorded (recoveryOptions market) st o =
      if isBotOrder (recoveryOptions market) o
      then (api.recorded.cancelOrder (cancelUuid o) o.identifier st).2 else st := by
  unfold cancelIfBot
  split
  · exact cancelWithRetry_once api.recorded o st
  · rfl

/-- The induction takes the orders from the end: what comes later cancels further ones only. -/
theorem canceled_cancelOrders (h : Honest api openOrders) (market : String) (os : List Order)
    (st : σ × List ApiCall)
    (hclean : ∀ c ∈ (os.foldl (cancelIfBot api.recorded (recoveryOptions market)) st).2,
      ¬ c.Failed) :
    ∀ o ∈ os, isBotOrder (recoveryOptions market) o = true →
      o.key ∉ openOrders (os.foldl (cancelIfBot api.recorded (recoveryOptions market)) st).1 := by
  induction os using List.reverseRecOn with
  | nil => exact fun o ho => absurd ho List.not_mem_nil
  | append_singleton os last ih =>
    rw [List.foldl_append] at hclean ⊢
    simp only [List.foldl_cons, List.foldl_nil, cancelIfBot_recorded] at hclean ⊢
    generalize os.foldl (cancelIfBot api.recorded (recoveryOptions market)) st = before at *
    intro o ho hbot
    by_cases hlast : isBotOrder (recoveryOptions market) last = true
    · rw [if_pos hlast] at hclean ⊢
      have hanswer : (api.cancelOrder (cancelUuid last) last.identifier before.1).1 =
          .ok true := by
        by_contra hfailed
        exact hclean _ (List.mem_append_right _ (List.mem_singleton_self _)) hfailed
      rcases List.mem_append.mp ho with hold | hnew
      · exact fun hopen => ih (fun c hc => hclean c (List.mem_append_left _ hc)) o hold hbot
          (h.canceled _ _ before.1 hopen)
      · obtain rfl := List.mem_singleton.mp hnew
        exact fun hopen => h.gone _ _ before.1 hanswer _ hopen (namedBy_cancelArgs o)
    · rw [if_neg hlast] at hclean ⊢
      rcases List.mem_append.mp ho with hold | hnew
      · exact ih hclean o hold hbot
      · obtain rfl := List.mem_singleton.mp hnew
        exact absurd hbot hlast

theorem canceled_cancelBotOpenOrders (h : Honest api openOrders) (market : String)
    (st : σ × List ApiCall)
    (hclean : ∀ c ∈ (cancelBotOpenOrders api.recorded market (recoveryOptions market) st).2,
      ¬ c.Failed) :
    CleanIn openOrders market
      (cancelBotOpenOrders api.recorded market (recoveryOptions market) st).1 := by
  have hne : (recoveryOptions market).botIdentifierPrefix ≠ "" := by
    intro hempty
    have hlength := congrArg String.length hempty
    simp [recoveryOptions, RsiMeanReversionStrategy.id] at hlength
  have hcomplete := h.recorded.complete market st
  unfold cancelBotOpenOrders at hclean ⊢
  rw [if_neg hne] at hclean ⊢
  split at hclean
  · next err st' heq =>
    obtain ⟨hanswer, rfl⟩ := Prod.mk.inj heq
    refine absurd ?_ (hclean (.getOpenOrders market (.error err))
      (List.mem_append_right _ (List.mem_singleton.mpr ?_)))
    · trivial
    · rw [hanswer]
  · next os st' heq =>
    rw [heq] at hcomplete
    simp only at hcomplete ⊢
    set canceled := os.foldl (cancelIfBot api.recorded (recoveryOptions market)) st' with hfold
    have hverify := grows_verifyCanceled api (List.mem_singleton_self market)
      (recoveryOptions market) (recoveryOptions market).verifyRetry canceled
    have hgone := canceled_cancelOrders h market os st'
      (fun c hc => hclean c (hverify.mem (hfold ▸ hc)))
    intro k hk hmarket hown
    have hk' : k ∈ openOrders canceled.1 := shrinks_verifyCanceled h.recorded market _ _ _ hk
    obtain ⟨o, ho, rfl⟩ := hcomplete os rfl k
      (shrinks_cancelOrders h.recorded (recoveryOptions market) os st' hk') hmarket
    exact hgone o ho ((isBotOrder_iff market o).mpr hown) hk'

theorem canceled_addMarkets (h : Honest api openOrders) (mcfg : MarketManagerConfig)
    (store : OrderStore) (mgr : AccountManager) (db : Option Database) (rest : List String)
    (state : KeyMap String Worker × (σ × List ApiCall))
    (hdone : ∀ m, (state.1.lookup m).isSome → CleanIn openOrders m state.2.1)
    (hclean : ∀ c ∈ (rest.foldl (addMarket api.recorded mcfg store mgr db) state).2.2,
      ¬ c.Failed) :
    let filled := rest.foldl (addMarket api.recorded mcfg store mgr db) state
    ∀ m, (filled.1.lookup m).isSome → CleanIn openOrders m filled.2.1 := by
  induction rest generalizing state with
  | nil => exact hdone
  | cons market rest ih =>
    refine ih (addMarket api.recorded mcfg store mgr db state market) ?_ hclean
    have hgrows := grows_addMarkets mcfg store mgr db api
      (fun m (hm : m ∈ rest) => List.mem_cons_of_mem market hm)
      (addMarket api.recorded mcfg store mgr db state market)
    have hsub := shrinks_addMarket h.recorded mcfg store mgr db state market
    have hnow : ∀ c ∈ (addMarket api.recorded mcfg store mgr db state market).2.2, ¬ c.Failed :=
      fun c hc => hclean c (hgrows.mem hc)
    intro m hm
    rcases (lookup_addMarket state market m).mp hm with rfl | hknown
    · by_cases hhad : (state.1.lookup m).isSome
      · exact (hdone m hhad).mono hsub
      · unfold addMarket at hnow ⊢
        rw [if_neg hhad] at hnow ⊢
        have hposition := @grows_buildPositionSnapshot _ [m] m api
          (cancelBotOpenOrders api.recorded m (recoveryOptions m) state.2)
        have hcanceled := canceled_cancelBotOpenOrders h m state.2
          (fun c hc => hnow c (hposition.mem hc))
        exact hcanceled.mono (shrinks_buildPositionSnapshot h.recorded m _)
    · exact (hdone m hknown).mono hsub

theorem clean_create (h : Honest api openOrders) (cfg : AccountConfig) (store : OrderStore)
    (mgr : AccountManager) (markets : List String) (mcfg : MarketManagerConfig)
    (db : Option Database) (st : σ × List ApiCall) {manager : MarketEngineManager}
    (hcreate : (create cfg api.recorded store mgr markets mcfg db st).1 = .ok manager)
    (hclean : ∀ c ∈ (create cfg api.recorded store mgr markets mcfg db st).2.2, ¬ c.Failed) :
    let s' := (create cfg api.recorded store mgr markets mcfg db st).2.1
    openOrders s' ⊆ openOrders st.1 ∧ ∀ m ∈ markets, CleanIn openOrders m s' := by
  have hfirst := shrinks_rebuildAccountOnStartup h.recorded cfg mcfg.syncRetry mgr st
  unfold create at hcreate hclean ⊢
  rcases hr : rebuildAccountOnStartup_ cfg api.recorded mcfg.syncRetry mgr st with
    ⟨synced, first, st₁⟩
  rw [hr] at hfirst hcreate hclean
  cases synced with
  | false => cases hcreate
  | true =>
    simp only at hfirst hclean ⊢
    have hmarkets : ∀ (rest : List String) (state : KeyMap String Worker × (σ × List ApiCall)),
        openOrders (rest.foldl (addMarket api.recorded mcfg store first db) state).2.1 ⊆
          openOrders state.2.1 := by
      intro rest
      induction rest with
      | nil => exact fun state => subset_rfl
      | cons market rest ih =>
        exact fun state =>
          (ih _).trans (shrinks_addMarket h.recorded mcfg store first db state market)
    have hcanceled := canceled_addMarkets h mcfg store first db markets (∅, st₁)
      (fun m hm => absurd hm (by simp))
    have hlookup := lookup_addMarkets api.recorded mcfg store first db markets (∅, st₁)
    have hsub := hmarkets markets (∅, st₁)
    generalize markets.foldl (addMarket api.recorded mcfg store first db) (∅, st₁) = filled at *
    have hlast := shrinks_rebuildAccountOnStartup h.recorded cfg mcfg.syncRetry first filled.2
    have hgrows := grows_rebuildAccountOnStartup markets cfg api mcfg.syncRetry first filled.2
    refine ⟨hlast.trans (hsub.trans hfirst), fun m hm => ?_⟩
    exact (hcanceled (fun c hc => hclean c (hgrows.mem hc)) m
      ((hlookup m).mpr (.inl hm))).mono hlast

end Canceled

/-! The old run and the new start. -/

/-- Every open order was open before the run, or was posted in it. -/
def Explained (openOrders : σ → Set OrderKey) (s : σ) (st : σ × List ApiCall) : Prop :=
  ∀ k ∈ openOrders st.1, k ∈ openOrders s ∨ ∃ req answer,
    ApiCall.postOrder req answer ∈ st.2 ∧ k.market = req.market ∧
      (req.identifier ≠ "" → k.identifier = some req.identifier)

theorem explained_kept {api : IOrderApi σ} {openOrders : σ → Set OrderKey}
    (h : Honest api openOrders) {s : σ} {st : σ × List ApiCall}
    (hkept : MarketContext.Kept api (s, []) st) : Explained openOrders s st := by
  refine hkept (Explained openOrders s) ?_ ?_ ?_ (fun k hk => .inl hk)
  · intro req st hst k hk
    rcases h.posted req st.1 k hk with hold | ⟨hmarket, hid⟩
    · rcases hst k hold with hbefore | ⟨req', answer, hmem, hk'⟩
      · exact .inl hbefore
      · exact .inr ⟨req', answer, List.mem_append_left _ hmem, hk'⟩
    · exact .inr ⟨req, _, List.mem_append_right _ (List.mem_singleton_self _), hmarket, hid⟩
  · intro orderUuid st hst k hk
    rcases hst k (h.queried orderUuid st.1 hk) with hbefore | ⟨req', answer, hmem, hk'⟩
    · exact .inl hbefore
    · exact .inr ⟨req', answer, List.mem_append_left _ hmem, hk'⟩
  · intro st hst k hk
    rcases hst k (h.account st.1 hk) with hbefore | ⟨req', answer, hmem, hk'⟩
    · exact .inl hbefore
    · exact .inr ⟨req', answer, List.mem_append_left _ hmem, hk'⟩

/-- **Nothing of an old run survives a restart.** Start the bot and run it in any way on an honest
    exchange, stop it anywhere, and start it again with the same markets. When the new start gets
    through, and none of its listings and cancellations failed, every order that is open then was
    open before the old run, and none is of a listed market under an identifier of the bot. -/
theorem restart_clean {τ : Type} (parse : Bytes → Option Data) (strategy : StrategyEnv ℚ)
    (api : IOrderApi σ) {openOrders : σ → Set OrderKey} (h : Honest api openOrders)
    (pendingTimeout : Int) (cfg : AccountConfig) (startApi : IOrderApi τ) (store : OrderStore)
    (mgr : AccountManager) (markets : List String) (mcfg : MarketManagerConfig)
    (db : Option Database) (t : τ) {manager : MarketEngineManager}
    (hcreate : (MarketEngineManager.create cfg startApi store mgr markets mcfg db t).1 =
      .ok manager) (s : σ) (steps : List BotStep) (store' : OrderStore) (mgr' : AccountManager)
    (db' : Option Database) {manager' : MarketEngineManager} :
    let env : ManagerEnv (σ × List ApiCall) :=
      { strategy := strategy, api := api.recorded.toOrderApi, pendingTimeout := pendingTimeout }
    let stopped := (Machine.run (Bot.step parse env) (Bot.assemble manager, (s, [])) steps).2
    let again := MarketEngineManager.create cfg api.recorded store' mgr' markets mcfg db' stopped
    again.1 = .ok manager' → (∀ c ∈ again.2.2, ¬ c.Failed) →
      ∀ k ∈ openOrders again.2.1,
        k ∈ openOrders s ∧ ∀ market ∈ markets, k.market = market → ¬ k.Own market := by
  intro env stopped again hagain hclean k hk
  have henv : env.api = api.recorded.toOrderApi := rfl
  have hfollowed := Bot.followed_started (MarketEngineManager.started_create hcreate) strategy
  obtain ⟨hgrows, hkept⟩ := Bot.followed_run parse henv (Bot.assemble manager, (s, [])) steps
    hfollowed
  have hasked := hgrows.justified Journal.justified_nil
  obtain ⟨hsub, hcanceled⟩ := clean_create h cfg store' mgr' markets mcfg db' stopped hagain hclean
  refine ⟨?_, fun market hmarket hk' => hcanceled market hmarket k hk hk'⟩
  rcases explained_kept h hkept k (hsub hk) with hbefore | ⟨req, answer, hmem, hmarket, hid⟩
  · exact hbefore
  -- An order of the old run is the bot's own in its market, so it was cancelled.
  · obtain ⟨before, after, heq⟩ := List.append_of_mem hmem
    obtain ⟨m, hm, rfl, -, n, hnumbered, -⟩ := hasked before (.postOrder req answer) after heq
    have hown : k.Own req.market :=
      ⟨req.identifier, hid hnumbered.ne, StartupRecovery.startsWith_own hnumbered⟩
    exact absurd hown (hcanceled req.market hm k hk hmarket)

theorem honest_bookApi : Honest bookApi (fun book => {k | ∃ o ∈ book, o.key = k}) where
  posted req book := by
    rintro k ⟨o, ho, rfl⟩
    rcases List.mem_append.mp ho with hold | hnew
    · exact .inl ⟨o, hold, rfl⟩
    · obtain rfl := List.mem_singleton.mp hnew
      exact .inr ⟨rfl, fun hne => if_neg hne⟩
  queried orderUuid book := by
    show {k | ∃ o ∈ (bookApi.getOrder orderUuid book).2, o.key = k} ⊆ _
    unfold bookApi
    simp only
    split
    · exact subset_rfl
    · exact subset_rfl
  account book := subset_rfl
  listed market book := subset_rfl
  complete market book os := by
    rintro heq k ⟨o, ho, rfl⟩ hmarket
    obtain rfl := Except.ok.inj heq
    exact ⟨o, List.mem_filter.mpr ⟨ho, decide_eq_true hmarket⟩, rfl⟩
  canceled orderUuid identifier book := by
    rintro k ⟨o, ho, rfl⟩
    exact ⟨o, List.mem_of_mem_filter ho, rfl⟩
  gone orderUuid identifier book := by
    rintro - k ⟨o, ho, rfl⟩
    have hother := (List.mem_filter.mp ho).2
    unfold OrderKey.NamedBy
    cases orderUuid with
    | some uuid => exact of_decide_eq_true hother
    | none => exact of_decide_eq_true hother

/-! An example. -/

namespace Bot

/-- An order of somebody else. -/
def leftOrders : List Order :=
  [{ market := "KRW-BTC", identifier := none, id := "b", position := .bid, type := .limit
     status := .pending }]

/-- Where the old run stops. -/
def bookStopped : Bot × (List Order × List ApiCall) :=
  Machine.run (step bookParse bookEnv) (assemble bookManager, (leftOrders, [])) bookSteps

theorem run_left :
    Machine.run
      (step bookParse
        { strategy := bookStrategy, api := bookApi.recorded.toOrderApi, pendingTimeout := 120 })
      (assemble bookManager, (leftOrders, [])) bookSteps = bookStopped := rfl

def bookAgain : Except String MarketEngineManager × (List Order × List ApiCall) :=
  MarketEngineManager.create (AppConfig.standard ℚ).account bookApi.recorded .empty bookLedger
    bookMarkets bookConfig none bookStopped.2

end Bot

open CoinBot.Bot in
/-- The old run has posted both sales, the new start cancels them, and the other order stays. -/
theorem restart_clean_book :
    bookStopped.2.2 = bookCalls ∧
      bookStopped.2.1.map (·.id) = ["b", bookUuid "KRW-BTC", bookUuid "KRW-ETH"] ∧
      (∀ market ∈ bookMarkets, ApiCall.cancelOrder (some (bookUuid market))
        (some (bookSale market).identifier) (.ok true) ∈ bookAgain.2.2) ∧
      bookAgain.2.1.map (·.id) = ["b"] ∧
      ∀ o ∈ bookAgain.2.1, ∀ market ∈ bookMarkets, o.market = market → ¬ o.key.Own market := by
  have hclean : ∀ c ∈ bookAgain.2.2, ¬ c.Failed := by decide +kernel
  obtain ⟨manager', hagain⟩ : ∃ manager', bookAgain.1 = .ok manager' :=
    ok_of_toBool (by decide +kernel)
  have hrestart := @restart_clean _ _ bookParse bookStrategy bookApi _ honest_bookApi 120
    (AppConfig.standard ℚ).account bookApi .empty bookLedger bookMarkets bookConfig (some {}) []
    _ created_book leftOrders bookSteps .empty bookLedger none manager'
  simp only [run_left] at hrestart
  refine ⟨by decide +kernel, by decide +kernel, by decide +kernel, by decide +kernel, ?_⟩
  intro o ho
  exact (hrestart hagain hclean o.key ⟨o, ho, rfl⟩).2

end CoinBot
