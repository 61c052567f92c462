import CoinBot.App.Startup
import CoinBot.Lib.Journal

/- What the start asks of the exchange.

   `recorded` is an exchange whose calls are kept in a journal with their answers; it
   answers like the exchange itself. Whatever it answers, the start posts no order, and
   cancels only what the latest listing of open orders has under an identifier that the
   bot gives in that market, each order once and in the order of the listing
   (`startup_traffic`). -/
namespace CoinBot

open Journal (Grows Justified)

/-- A call of `IOrderApi`, with its answer. -/
inductive ApiCall where
  | getMyAccount (answer : Except RestError Account)
  | getOpenOrders (market : String) (answer : Except RestError (List Order))
  | cancelOrder (orderUuid identifier : Option String) (answer : Except RestError Bool)
  | getOrder (orderUuid : String) (answer : Except RestError Order)
  | postOrder (req : OrderRequest ℚ) (answer : Except RestError String)
  deriving DecidableEq

variable {σ : Type}

/-- The exchange with a journal of its calls, newest last. -/
def OrderApi.recorded (api : OrderApi σ) : OrderApi (σ × List ApiCall) where
  postOrder req st :=
    ((api.postOrder req st.1).1, (api.postOrder req st.1).2,
      st.2 ++ [.postOrder req (api.postOrder req st.1).1])
  getOrder orderUuid st :=
    ((api.getOrder orderUuid st.1).1, (api.getOrder orderUuid st.1).2,
      st.2 ++ [.getOrder orderUuid (api.getOrder orderUuid st.1).1])
  getMyAccount st :=
    ((api.getMyAccount st.1).1, (api.getMyAccount st.1).2,
      st.2 ++ [.getMyAccount (api.getMyAccount st.1).1])

def IOrderApi.recorded (api : IOrderApi σ) : IOrderApi (σ × List ApiCall) where
  toOrderApi := api.toOrderApi.recorded
  getOpenOrders market st :=
    ((api.getOpenOrders market st.1).1, (api.getOpenOrders market st.1).2,
      st.2 ++ [.getOpenOrders market (api.getOpenOrders market st.1).1])
  cancelOrder orderUuid identifier st :=
    ((api.cancelOrder orderUuid identifier st.1).1, (api.cancelOrder orderUuid identifier st.1).2,
      st.2 ++ [.cancelOrder orderUuid identifier (api.cancelOrder orderUuid identifier st.1).1])

/-! The journal changes nothing. -/

section Recorded

open StartupRecovery MarketEngineManager

variable (api : IOrderApi σ)

theorem cancelWithRetry_recorded (o : Order) (retries : Nat) (st : σ × List ApiCall) :
    (cancelWithRetry api.recorded o retries st).2.1 = (cancelWithRetry api o retries st.1).2 := by
  induction retries generalizing st with
  | zero => rfl
  | succ retries ih =>
    unfold cancelWithRetry
    have hcall : api.recorded.cancelOrder (cancelUuid o) o.identifier st =
        ((api.cancelOrder (cancelUuid o) o.identifier st.1).1,
          (api.cancelOrder (cancelUuid o) o.identifier st.1).2,
          st.2 ++ [.cancelOrder (cancelUuid o) o.identifier
            (api.cancelOrder (cancelUuid o) o.identifier st.1).1]) := rfl
    rw [hcall]
    rcases api.cancelOrder (cancelUuid o) o.identifier st.1 with ⟨answer, s'⟩
    cases answer with
    | error err => exact ih (s', _)
    | ok canceled =>
      cases canceled with
      | false => exact ih (s', _)
      | true => rfl

theorem cancelOrders_recorded (opt : Options) (orders : List Order) (st : σ × List ApiCall) :
    (orders.foldl (cancelIfBot api.recorded opt) st).1 =
      orders.foldl (cancelIfBot api opt) st.1 := by
  induction orders generalizing st with
  | nil => rfl
  | cons o orders ih =>
    rw [List.foldl_cons, List.foldl_cons, ih]
    congr 1
    unfold cancelIfBot
    split
    · exact cancelWithRetry_recorded api o _ st
    · rfl

theorem verifyCanceled_recorded (market : String) (opt : Options) (retries : Nat)
    (st : σ × List ApiCall) :
    (verifyCanceled api.recorded market opt retries st).1 =
      verifyCanceled api market opt retries st.1 := by
  induction retries generalizing st with
  | zero => rfl
  | succ retries ih =>
    unfold verifyCanceled
    have hcall : api.recorded.getOpenOrders market st =
        ((api.getOpenOrders market st.1).1, (api.getOpenOrders market st.1).2,
          st.2 ++ [.getOpenOrders market (api.getOpenOrders market st.1).1]) := rfl
    rw [hcall]
    rcases api.getOpenOrders market st.1 with ⟨answer, s'⟩
    cases answer with
    | error err => rfl
    | ok remain =>
      simp only
      split
      · exact ih (s', _)
      · rfl

theorem cancelBotOpenOrders_recorded (market : String) (opt : Options) (st : σ × List ApiCall) :
    (cancelBotOpenOrders api.recorded market opt st).1 = cancelBotOpenOrders api market opt st.1 := by
  unfold cancelBotOpenOrders
  split
  · rfl
  · have hcall : api.recorded.getOpenOrders market st =
        ((api.getOpenOrders market st.1).1, (api.getOpenOrders market st.1).2,
          st.2 ++ [.getOpenOrders market (api.getOpenOrders market st.1).1]) := rfl
    rw [hcall]
    rcases api.getOpenOrders market st.1 with ⟨answer, s'⟩
    cases answer with
    | error err => rfl
    | ok openOrders =>
      simp only
      rw [verifyCanceled_recorded, cancelOrders_recorded]

theorem buildPositionSnapshot_recorded (market : String) (st : σ × List ApiCall) :
    (buildPositionSnapshot api.recorded market st).1 = (buildPositionSnapshot api market st.1).1 ∧
      (buildPositionSnapshot api.recorded market st).2.1 =
        (buildPositionSnapshot api market st.1).2 := by
  unfold buildPositionSnapshot
  have hcall : api.recorded.getMyAccount st =
      ((api.getMyAccount st.1).1, (api.getMyAccount st.1).2,
        st.2 ++ [.getMyAccount (api.getMyAccount st.1).1]) := rfl
  rw [hcall]
  rcases api.getMyAccount st.1 with ⟨answer, s'⟩
  cases answer with
  | error err => exact ⟨rfl, rfl⟩
  | ok account => exact ⟨rfl, rfl⟩

theorem addMarkets_recorded (mcfg : MarketManagerConfig) (store : OrderStore) (mgr : AccountManager)
    (db : Option Database) (markets : List String)
    (state : KeyMap String Worker × (σ × List ApiCall)) :
    let recorded := markets.foldl (addMarket api.recorded mcfg store mgr db) state
    markets.foldl (addMarket api mcfg store mgr db) (state.1, state.2.1) =
      (recorded.1, recorded.2.1) := by
  induction markets generalizing state with
  | nil => rfl
  | cons market markets ih =>
    have hone : addMarket api mcfg store mgr db (state.1, state.2.1) market =
        ((addMarket api.recorded mcfg store mgr db state market).1,
          (addMarket api.recorded mcfg store mgr db state market).2.1) := by
      unfold addMarket StartupRecovery.run
      split
      · rfl
      · simp only
        rw [(buildPositionSnapshot_recorded api market _).1,
          (buildPositionSnapshot_recorded api market _).2, cancelBotOpenOrders_recorded]
    rw [List.foldl_cons, List.foldl_cons, hone]
    exact ih _

theorem rebuildAccountOnStartup_recorded (cfg : AccountConfig) (attempts : Nat)
    (mgr : AccountManager) (st : σ × List ApiCall) :
    let recorded := rebuildAccountOnStartup_ cfg api.recorded attempts mgr st
    rebuildAccountOnStartup_ cfg api attempts mgr st.1 = (recorded.1, recorded.2.1, recorded.2.2.1) := by
  induction attempts generalizing st with
  | zero => rfl
  | succ attempts ih =>
    unfold rebuildAccountOnStartup_
    have hcall : api.recorded.getMyAccount st =
        ((api.getMyAccount st.1).1, (api.getMyAccount st.1).2,
          st.2 ++ [.getMyAccount (api.getMyAccount st.1).1]) := rfl
    rw [hcall]
    rcases api.getMyAccount st.1 with ⟨answer, s'⟩
    cases answer with
    | error err => exact ih (s', _)
    | ok account => rfl

theorem create_recorded (cfg : AccountConfig) (mcfg : MarketManagerConfig) (store : OrderStore)
    (mgr : AccountManager) (db : Option Database) (markets : List String)
    (st : σ × List ApiCall) :
    let recorded := create cfg api.recorded store mgr markets mcfg db st
    create cfg api store mgr markets mcfg db st.1 = (recorded.1, recorded.2.1) := by
  have hsync := rebuildAccountOnStartup_recorded api cfg mcfg.syncRetry mgr st
  unfold create
  simp only at hsync ⊢
  rw [hsync]
  rcases rebuildAccountOnStartup_ cfg api.recorded mcfg.syncRetry mgr st with ⟨synced, first, st'⟩
  cases synced with
  | false => rfl
  | true =>
    have hmarkets := addMarkets_recorded api mcfg store first db markets (∅, st')
    have hlast := rebuildAccountOnStartup_recorded api cfg mcfg.syncRetry first
      (markets.foldl (addMarket api.recorded mcfg store first db) (∅, st')).2
    simp only at hmarkets hlast ⊢
    rw [hmarkets, hlast]

end Recorded

/-! What the start may ask for. -/

/-- A listing of open orders, and what was asked to be cancelled since. -/
structure Session where
  market : String
  openOrders : List Order
  asked : List (Option String × Option String)

/-- A failed listing lists nothing. -/
def Session.track (session : Option Session) : ApiCall → Option Session
  | .getOpenOrders market (.ok openOrders) => some ⟨market, openOrders, []⟩
  | .getOpenOrders market (.error _) => some ⟨market, [], []⟩
  | .cancelOrder orderUuid identifier _ =>
    session.map (fun s => { s with asked := s.asked ++ [(orderUuid, identifier)] })
  | _ => session

/-- The latest listing. -/
def session (log : List ApiCall) : Option Session := log.foldl Session.track none

/-- How the cancellation names an order. -/
def cancelArgs (o : Order) : Option String × Option String :=
  (StartupRecovery.cancelUuid o, o.identifier)

/-- The listed orders that the bot has made in the market. -/
def Session.botOrders (s : Session) : List Order :=
  s.openOrders.filter (StartupRecovery.isBotOrder (MarketEngineManager.recoveryOptions s.market))

/-- What the start may ask for after the calls `before`: of the orders of the latest listing that
    are the bot's, the next one may be cancelled. -/
def Permitted (markets : List String) (before : List ApiCall) : ApiCall → Prop
  | .getMyAccount _ => True
  | .getOpenOrders market _ => market ∈ markets
  | .cancelOrder orderUuid identifier _ => ∃ s, session before = some s ∧ s.market ∈ markets ∧
    s.asked ++ [(orderUuid, identifier)] <+: s.botOrders.map cancelArgs
  | .getOrder _ _ => False
  | .postOrder _ _ => False

theorem session_concat (log : List ApiCall) (c : ApiCall) :
    session (log ++ [c]) = Session.track (session log) c := by
  unfold session
  rw [List.foldl_append]
  rfl

namespace StartupRecovery

variable {markets : List String} {market : String}

/-- The next one of the bot's orders is cancelled: there is one attempt. -/
theorem grows_cancelWithRetry (api : IOrderApi σ) {s : Session} (hmarket : s.market ∈ markets)
    {done : List Order} {o : Order} (hasked : s.asked = done.map cancelArgs)
    (hnext : done ++ [o] <+: s.botOrders) {st : σ × List ApiCall}
    (h : session st.2 = some s) :
    Grows (Permitted markets) st.2 (cancelWithRetry api.recorded o 1 st).2.2 ∧
      session (cancelWithRetry api.recorded o 1 st).2.2 =
        some { s with asked := (done ++ [o]).map cancelArgs } := by
  have hlog : (cancelWithRetry api.recorded o 1 st).2.2 =
      st.2 ++ [.cancelOrder (cancelUuid o) o.identifier
        (api.cancelOrder (cancelUuid o) o.identifier st.1).1] := by
    unfold cancelWithRetry cancelWithRetry
    split
    · next heq => exact (congrArg (fun r => r.2.2) heq).symm
    · next heq => exact (congrArg (fun r => r.2.2) heq).symm
  have hmap : (done ++ [o]).map cancelArgs = s.asked ++ [cancelArgs o] := by
    rw [List.map_append, hasked]
    rfl
  rw [hlog]
  refine ⟨.one ⟨s, h, hmarket, ?_⟩, ?_⟩
  · have hmapped := hnext.map cancelArgs
    rw [hmap] at hmapped
    exact hmapped
  · rw [session_concat, h, hmap]
    rfl

theorem grows_cancelOrders (api : IOrderApi σ) {s : Session} (hmarket : s.market ∈ markets)
    {done rest : List Order} (hasked : s.asked = done.map cancelArgs)
    (hrest : s.botOrders =
      done ++ rest.filter (isBotOrder (MarketEngineManager.recoveryOptions s.market)))
    {st : σ × List ApiCall} (h : session st.2 = some s) :
    Grows (Permitted markets) st.2
      (rest.foldl (cancelIfBot api.recorded (MarketEngineManager.recoveryOptions s.market)) st).2 := by
  induction rest generalizing s done st with
  | nil => exact .refl
  | cons o rest ih =>
    rw [List.foldl_cons]
    unfold cancelIfBot
    by_cases hbot : isBotOrder (MarketEngineManager.recoveryOptions s.market) o = true
    · rw [if_pos hbot]
      rw [List.filter_cons_of_pos hbot] at hrest
      have hnext : done ++ [o] <+: s.botOrders := ⟨_, by rw [hrest]; simp; rfl⟩
      obtain ⟨hgrows, hsession⟩ := grows_cancelWithRetry api hmarket hasked hnext h
      exact hgrows.trans (@ih { s with asked := (done ++ [o]).map cancelArgs } hmarket
        (done ++ [o]) rfl (hrest.trans (by simp)) _ hsession)
    · rw [if_neg hbot]
      rw [List.filter_cons_of_neg hbot] at hrest
      exact ih hmarket hasked hrest h

theorem grows_getOpenOrders (api : IOrderApi σ) (hmarket : market ∈ markets)
    (st : σ × List ApiCall) :
    Grows (Permitted markets) st.2 (api.recorded.getOpenOrders market st).2.2 :=
  .one hmarket

theorem session_getOpenOrders (api : IOrderApi σ) {st st' : σ × List ApiCall}
    {openOrders : List Order}
    (h : api.recorded.getOpenOrders market st = (.ok openOrders, st')) :
    session st'.2 = some ⟨market, openOrders, []⟩ := by
  obtain ⟨hanswer, rfl⟩ := Prod.mk.inj h
  show session (st.2 ++ [_]) = _
  rw [session_concat, hanswer]
  rfl

theorem grows_verifyCanceled (api : IOrderApi σ) (hmarket : market ∈ markets) (opt : Options)
    (retries : Nat) (st : σ × List ApiCall) :
    Grows (Permitted markets) st.2 (verifyCanceled api.recorded market opt retries st).2 := by
  induction retries generalizing st with
  | zero => exact .refl
  | succ retries ih =>
    have hcall := grows_getOpenOrders api hmarket st
    unfold verifyCanceled
    split
    · next heq =>
      rw [heq] at hcall
      exact hcall
    · next heq =>
      rw [heq] at hcall
      split
      · exact hcall.trans (ih _)
      · exact hcall

theorem grows_cancelBotOpenOrders (api : IOrderApi σ) (hmarket : market ∈ markets)
    (st : σ × List ApiCall) :
    Grows (Permitted markets) st.2 (cancelBotOpenOrders api.recorded market
      (MarketEngineManager.recoveryOptions market) st).2 := by
  have hcall := grows_getOpenOrders api hmarket st
  unfold cancelBotOpenOrders
  split
  · exact .refl
  · split
    · next heq =>
      rw [heq] at hcall
      exact hcall
    · next os st' heq =>
      rw [heq] at hcall
      have hcanceled := @grows_cancelOrders _ markets api ⟨market, os, []⟩ hmarket [] os
        rfl rfl _ (session_getOpenOrders api heq)
      exact hcall.trans (hcanceled.trans (grows_verifyCanceled api hmarket _ _ _))

theorem grows_buildPositionSnapshot (api : IOrderApi σ) (st : σ × List ApiCall) :
    Grows (Permitted markets) st.2 (buildPositionSnapshot api.recorded market st).2.2 := by
  have hcall : Grows (Permitted markets) st.2 (api.recorded.getMyAccount st).2.2 := .one trivial
  unfold buildPositionSnapshot
  split
  · next heq =>
    rw [heq] at hcall
    exact hcall
  · next heq =>
    rw [heq] at hcall
    exact hcall

end StartupRecovery

namespace MarketEngineManager

variable {mcfg : MarketManagerConfig} {store : OrderStore} {mgr : AccountManager}
  {db : Option Database} {markets : List String}

theorem grows_addMarket (api : IOrderApi σ) {market : String} (hmarket : market ∈ markets)
    (state : KeyMap String Worker × (σ × List ApiCall)) :
    Grows (Permitted markets) state.2.2
      (addMarket api.recorded mcfg store mgr db state market).2.2 := by
  unfold addMarket
  split
  · exact .refl
  · exact (StartupRecovery.grows_cancelBotOpenOrders api hmarket state.2).trans
      (StartupRecovery.grows_buildPositionSnapshot api _)

variable (mcfg store mgr db) in
theorem grows_addMarkets (api : IOrderApi σ) {rest : List String}
    (hsub : ∀ m ∈ rest, m ∈ markets) (state : KeyMap String Worker × (σ × List ApiCall)) :
    Grows (Permitted markets) state.2.2
      (rest.foldl (addMarket api.recorded mcfg store mgr db) state).2.2 := by
  induction rest generalizing state with
  | nil => exact .refl
  | cons market rest ih =>
    rw [List.foldl_cons]
    exact (grows_addMarket api (hsub market List.mem_cons_self) state).trans
      (ih (fun m hm => hsub m (List.mem_cons_of_mem market hm)) _)

variable (markets) in
theorem grows_rebuildAccountOnStartup (cfg : AccountConfig) (api : IOrderApi σ) (attempts : Nat)
    (mgr : AccountManager) (st : σ × List ApiCall) :
    Grows (Permitted markets) st.2
      (rebuildAccountOnStartup_ cfg api.recorded attempts mgr st).2.2.2 := by
  induction attempts generalizing st with
  | zero => exact .refl
  | succ attempts ih =>
    have hcall : Grows (Permitted markets) st.2 (api.recorded.getMyAccount st).2.2 := .one trivial
    unfold rebuildAccountOnStartup_
    split
    · next heq =>
      rw [heq] at hcall
      exact hcall
    · next heq =>
      rw [heq] at hcall
      exact hcall.trans (ih _)

/-- A sync fails iff all its account queries do. -/
theorem rebuildAccountOnStartup_calls (cfg : AccountConfig) (api : IOrderApi σ) (attempts : Nat)
    (mgr : AccountManager) (st : σ × List ApiCall) :
    let r := rebuildAccountOnStartup_ cfg api.recorded attempts mgr st
    (r.1 = false ∧ ∃ errors : List RestError, errors.length = attempts ∧
      r.2.2.2 = st.2 ++ errors.map (fun err => .getMyAccount (.error err))) ∨
    (r.1 = true ∧ ∃ account, ApiCall.getMyAccount (.ok account) ∈ r.2.2.2) := by
  induction attempts generalizing st with
  | zero => exact .inl ⟨rfl, [], rfl, (List.append_nil st.2).symm⟩
  | succ attempts ih =>
    unfold rebuildAccountOnStartup_
    split
    · next account st' heq =>
      obtain ⟨hanswer, rfl⟩ := Prod.mk.inj heq
      refine .inr ⟨rfl, account, List.mem_append_right _ ?_⟩
      rw [hanswer]
      exact List.mem_singleton_self _
    · next err st' heq =>
      obtain ⟨hanswer, rfl⟩ := Prod.mk.inj heq
      rw [hanswer]
      rcases ih _ with ⟨hfst, errors, hlen, hcalls⟩ | hanswered
      · refine .inl ⟨hfst, err :: errors, congrArg Nat.succ hlen, ?_⟩
        rw [hcalls]
        simp
      · exact .inr hanswered

/-- **What the start asks for.** Keep a journal of the constructor's calls; it changes nothing.
    With any exchange, whatever it answers: the start posts no order and asks for none; it lists
    only its own markets; it cancels only orders of the latest listing that the bot has made in
    that market, each one once, in the listed order. It throws exactly when as many account
    queries as it makes at most have failed, before anything else was asked. -/
theorem startup_traffic (cfg : AccountConfig) (api : IOrderApi σ) (store : OrderStore)
    (mgr : AccountManager) (markets : List String) (mcfg : MarketManagerConfig)
    (db : Option Database) (s : σ) :
    let result := create cfg api.recorded store mgr markets mcfg db (s, [])
    create cfg api store mgr markets mcfg db s = (result.1, result.2.1) ∧
      Justified (Permitted markets) result.2.2 ∧
      ((∃ message, result.1 = .error message) ↔ result.2.2.length = mcfg.syncRetry ∧
        ∀ c ∈ result.2.2, ∃ err, c = .getMyAccount (.error err)) := by
  refine ⟨create_recorded api cfg mcfg store mgr db markets (s, []), ?_⟩
  have hfirst := grows_rebuildAccountOnStartup markets cfg api mcfg.syncRetry mgr (s, [])
  have hcalls := rebuildAccountOnStartup_calls cfg api mcfg.syncRetry mgr (s, [])
  unfold create
  rcases hr : rebuildAccountOnStartup_ cfg api.recorded mcfg.syncRetry mgr (s, []) with
    ⟨synced, first, st⟩
  rw [hr] at hfirst hcalls
  change Grows _ [] st.2 at hfirst
  cases synced with
  | false =>
    obtain ⟨-, errors, hlen, hlog⟩ := hcalls.resolve_right (fun h => nomatch h.1)
    change st.2 = [] ++ _ at hlog
    refine ⟨hfirst.justified Journal.justified_nil, iff_of_true ⟨_, rfl⟩ ⟨?_, fun c hc => ?_⟩⟩
    · show st.2.length = _
      rw [hlog, List.nil_append, List.length_map, hlen]
    · change c ∈ st.2 at hc
      rw [hlog, List.nil_append] at hc
      obtain ⟨err, -, rfl⟩ := List.mem_map.mp hc
      exact ⟨err, rfl⟩
  | true =>
    obtain ⟨-, account, hanswered⟩ := hcalls.resolve_left (fun h => nomatch h.1)
    have hcontexts := grows_addMarkets mcfg store first db api (fun m (hm : m ∈ markets) => hm) (∅, st)
    have hlast := grows_rebuildAccountOnStartup markets cfg api mcfg.syncRetry first
      (markets.foldl (addMarket api.recorded mcfg store first db) (∅, st)).2
    have hrest := hcontexts.trans hlast
    refine ⟨(hfirst.trans hrest).justified Journal.justified_nil,
      iff_of_false (fun ⟨_, h⟩ => nomatch h) (fun ⟨_, hfailed⟩ => ?_)⟩
    -- The account that was answered is still in the journal.
    obtain ⟨err, herr⟩ := hfailed _ (hrest.mem hanswered)
    cases herr

end MarketEngineManager
end CoinBot
