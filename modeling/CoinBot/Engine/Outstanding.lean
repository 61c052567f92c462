import CoinBot.Engine.SingleOrder
import CoinBot.Engine.Terminal

/- The outstanding order, from its submission to its status event.

   An engine on its own store has no order (`NoOrder`), or an active one that the store
   knows by its identifier (`HasOrder`), or one whose status event waits to be polled
   (`OrderEnded`). A message moves it from the second to the third at most, and a
   submission from the first to the second. -/
namespace CoinBot

def EngineEvent.asStatus : EngineEvent → Option EngineOrderStatusEvent
  | .status ev => some ev
  | .fill _ => none

namespace MarketEngine

/-- The status events that wait to be polled. -/
def statuses (e : MarketEngine) : List EngineOrderStatusEvent :=
  e.events.filterMap EngineEvent.asStatus

def NoneActive (e : MarketEngine) : Prop := ∀ side, e.activeUuid side = ""

/-- No order is out, and none has ended unannounced. -/
def NoOrder (e : MarketEngine) : Prop := e.NoneActive ∧ e.statuses = []

/-- The active order of this side is stored with the identifier. -/
def HasOrder (e : MarketEngine) (side : OrderPosition) (identifier : String) : Prop :=
  e.activeUuid side ≠ "" ∧
    (∃ o, e.store.get (e.activeUuid side) = some o ∧ o.identifier = some identifier) ∧
    e.statuses = []

/-- The order with the identifier has ended, and its status event is the one that waits. -/
def OrderEnded (e : MarketEngine) (side : OrderPosition) (identifier : String) : Prop :=
  e.NoneActive ∧ ∃ ev, e.statuses = [ev] ∧ ev.identifier = identifier ∧
    ev.status.isTerminal = true ∧ ev.position = side

/-- The engine keeps single order, on a store with no orders of other markets. -/
def OwnStore (e : MarketEngine) : Prop := e.SingleOrder ∧ e.OnlyForeign (fun _ => False)

/-- The message has the side of the order it is about, if that is stored. -/
def SameSide (e : MarketEngine) : Message → Prop
  | .trade _ => True
  | .snapshot s | .reconcile s => ∀ o, e.store.get s.id = some o → s.position = o.position

variable {cfg : AppConfig ℚ} {e : MarketEngine} {side : OrderPosition} {identifier : String}

/-! One order at most. -/

theorem SingleOrder.active_unique (h : e.SingleOrder) {p q : OrderPosition}
    (hp : e.activeUuid p ≠ "") (hq : e.activeUuid q ≠ "") : p = q := by
  have hnot : ¬ (e.activeBuyOrderUuid ≠ "" ∧ e.activeSellOrderUuid ≠ "") := by
    rintro ⟨hbuy, hsell⟩
    exact hsell (h.exclusive (h.token_iff.mpr hbuy))
  cases p with
  | bid =>
    cases q with
    | bid => rfl
    | ask => exact absurd ⟨hp, hq⟩ hnot
  | ask =>
    cases q with
    | bid => exact absurd ⟨hq, hp⟩ hnot
    | ask => rfl

theorem OwnStore.stored (h : e.OwnStore) {id : String} {o : Order} (hget : e.store.get id = some o) :
    o.status.isTerminal = false ∧ id = e.activeUuid o.position := by
  refine h.1.stored id o hget ?_
  by_contra hmkt
  exact h.2 id o hget hmkt

theorem OwnStore.get_none (h : e.OwnStore) (hnone : e.NoneActive) (id : String) :
    e.store.get id = none := by
  cases hget : e.store.get id with
  | none => rfl
  | some o =>
    have hid := (h.stored hget).2
    rw [hnone] at hid
    exact absurd hid (e.store.ne_of_get hget)

theorem ownStore_deliver (h : e.OwnStore) {msg : Message} (hside : e.SameSide msg) :
    (e.deliver cfg msg).OwnStore := by
  cases msg with
  | trade t => exact singleOrder_onMyTrade h.1 h.2 t
  | snapshot s => exact singleOrder_onOrderSnapshot cfg h.1 h.2 hside False.elim
  | reconcile s => exact singleOrder_reconcile h.1 h.2 hside False.elim

/-! Without an active order a message changes nothing that counts. -/

theorem sameButSeen_deliver (cfg : AppConfig ℚ) (h : e.OwnStore) (hnone : e.NoneActive)
    (msg : Message) :
    e.SameButSeen (e.deliver cfg msg) :=
  deliver_absent cfg (h.get_none hnone msg.orderUuid) rfl

theorem NoneActive.sameButSeen {e' : MarketEngine} (hnone : e.NoneActive) (h : e.SameButSeen e') :
    e'.NoneActive := by
  obtain ⟨seen, fifo, rfl⟩ := h
  intro side
  cases side with
  | bid => exact hnone .bid
  | ask => exact hnone .ask

theorem NoOrder.deliver (hno : e.NoOrder) (h : e.OwnStore) (msg : Message) :
    (e.deliver cfg msg).NoOrder := by
  have hsame := sameButSeen_deliver cfg h hno.1 msg
  refine ⟨hno.1.sameButSeen hsame, ?_⟩
  obtain ⟨seen, fifo, heq⟩ := hsame
  rw [heq]
  exact hno.2

theorem OrderEnded.deliver (hended : e.OrderEnded side identifier) (h : e.OwnStore)
    (msg : Message) : (e.deliver cfg msg).OrderEnded side identifier := by
  have hsame := sameButSeen_deliver cfg h hended.1 msg
  refine ⟨hended.1.sameButSeen hsame, ?_⟩
  obtain ⟨seen, fifo, heq⟩ := hsame
  rw [heq]
  exact hended.2

/-! With one it is still there, or has ended. -/

theorem statuses_fillEvents (t : MyTrade) (ord : Order) :
    (fillEvents t ord).filterMap EngineEvent.asStatus = [] := by
  unfold fillEvents
  cases t.identifier <|> ord.identifier with
  | none => rfl
  | some id => by_cases hempty : id = "" <;> simp [hempty, EngineEvent.asStatus]

theorem statuses_onMyTrade (cfg : AppConfig ℚ) (e : MarketEngine) (t : MyTrade) :
    (e.onMyTrade cfg t).statuses = e.statuses := by
  obtain ⟨seen, fifo, hdrop | ⟨ord, -, -, hsettle⟩⟩ := e.onMyTrade_cases cfg t
  · rw [hdrop]
    rfl
  · have hevents := (onlySettles_settleTrade
      { e with seenTradeUuids := seen, seenTradeUuidFifo := fifo,
               events := e.events ++ fillEvents t ord } t).events
    unfold statuses
    rw [hsettle, hevents, List.filterMap_append, statuses_fillEvents, List.append_nil]

theorem HasOrder.trade (cfg : AppConfig ℚ) (hout : e.HasOrder side identifier) (t : MyTrade) :
    (e.onMyTrade cfg t).HasOrder side identifier := by
  obtain ⟨-, hstore, hactive⟩ := onMyTrade_frame cfg e t
  unfold HasOrder
  rw [hstore, hactive, statuses_onMyTrade]
  exact hout

theorem HasOrder.settled {e' : MarketEngine} (hout : e.HasOrder side identifier)
    (hframe : e.OnlySettles e') : e'.HasOrder side identifier := by
  unfold HasOrder statuses
  rw [hframe.store, hframe.active, hframe.events]
  exact hout

theorem HasOrder.snapshot (hout : e.HasOrder side identifier) (h : e.OwnStore) {s : Order}
    (hside : ∀ o, e.store.get s.id = some o → s.position = o.position) (hne : identifier ≠ "") :
    (e.onOrderSnapshot cfg s).HasOrder side identifier ∨
      (e.onOrderSnapshot cfg s).OrderEnded side identifier := by
  by_cases hskip : ¬ e.forMarket s.market ∨ e.store.get s.id = none
  · rw [onOrderSnapshot_skip hskip]
    exact .inl hout
  · rw [not_or, not_not] at hskip
    obtain ⟨hm, hknown⟩ := hskip
    obtain ⟨old, hget⟩ := Option.ne_none_iff_exists'.mp hknown
    obtain ⟨hactive, ⟨o, ho, hident⟩, hstatuses⟩ := hout
    obtain ⟨hopen, hid⟩ := h.stored hget
    -- The snapshot is about the order that is out.
    have hold : old.position = side :=
      h.1.active_unique (hid ▸ e.store.ne_of_get hget) hactive
    rw [hold] at hid
    rw [← hid, hget] at ho
    obtain rfl := Option.some.inj ho
    have hspos : s.position = side := (hside old hget).trans hold
    have hmerged : (mergeSnapshot old s).identifier = some identifier := by
      show (old.identifier <|> s.identifier) = some identifier
      rw [hident]
      rfl
    obtain ⟨store, hevents⟩ := events_onOrderSnapshot cfg hm hget
    by_cases hterm : s.status.isTerminal = true
    · right
      have hchange : s.status ≠ old.status := by
        intro hsame
        rw [hsame, hopen] at hterm
        cases hterm
      have hsingle := singleOrder_onOrderSnapshot cfg h.1 h.2 hside False.elim
      have hgone : (e.onOrderSnapshot cfg s).store.get s.id = none := by
        rw [get_onOrderSnapshot cfg hm hget, if_pos rfl, if_pos hterm]
      rw [if_pos ⟨hterm, hchange⟩, statusEvents_named cfg _ hmerged hne] at hevents
      have hended := congrArg (List.filterMap EngineEvent.asStatus) hevents
      rw [List.filterMap_append, show e.events.filterMap EngineEvent.asStatus = [] from hstatuses]
        at hended
      refine ⟨fun q => ?_, ⟨_, hended, rfl, hterm, hspos⟩⟩
      -- An active order would be stored, but this was the only one.
      by_contra hstill
      obtain ⟨o', hget', -⟩ := hsingle.1.tracked q hstill
      rcases activeUuid_onOrderSnapshot cfg e s q with hnone | hsame
      · exact hstill hnone
      · rw [hsame] at hget' hstill
        rw [h.1.active_unique hstill hactive, ← hid, hgone] at hget'
        cases hget'
    · left
      obtain ⟨hmid, heq⟩ := onOrderSnapshot_known cfg hm hget
      rw [if_neg hterm] at heq
      have hactive' : (e.onOrderSnapshot cfg s).activeUuid side = e.activeUuid side := by
        rw [heq]
        cases side <;> rfl
      refine ⟨hactive' ▸ hactive, ⟨mergeSnapshot old s, ?_, hmerged⟩, ?_⟩
      · rw [hactive', ← hid, get_onOrderSnapshot cfg hm hget, if_pos rfl, if_neg hterm]
      · unfold statuses
        rw [hevents, if_neg (fun hboth => hterm hboth.1), List.append_nil]
        exact hstatuses

theorem HasOrder.deliver (hout : e.HasOrder side identifier) (h : e.OwnStore) {msg : Message}
    (hside : e.SameSide msg) (hne : identifier ≠ "") :
    (e.deliver cfg msg).HasOrder side identifier ∨
      (e.deliver cfg msg).OrderEnded side identifier := by
  cases msg with
  | trade t => exact .inl (hout.trade cfg t)
  | snapshot s => exact hout.snapshot h hside hne
  | reconcile s =>
    rcases e.reconcileFromSnapshot_cases cfg s with hskip | ⟨prev, settled, -, -, hdelta, heq⟩
    · rw [MarketEngine.deliver, hskip]
      exact .inl hout
    · have hframe := onlySettles_settleDelta hdelta
      rw [MarketEngine.deliver, heq]
      refine (hout.settled hframe).snapshot ⟨h.1.settleDelta hdelta, ?_⟩ ?_ hne
      · intro id o
        rw [hframe.store, hframe.market]
        exact h.2 id o
      · rw [hframe.store]
        exact hside

/-- A message leaves the sides of the stored orders as they are, and stores no new order. -/
theorem stored_deliver {msg : Message} (hside : e.SameSide msg) {id : String} {o' : Order}
    (hget' : (e.deliver cfg msg).store.get id = some o') :
    ∃ o, e.store.get id = some o ∧ o'.position = o.position := by
  have hsnapshot : ∀ (e : MarketEngine) (s : Order),
      (∀ o, e.store.get s.id = some o → s.position = o.position) →
      (e.onOrderSnapshot cfg s).store.get id = some o' →
      ∃ o, e.store.get id = some o ∧ o'.position = o.position := by
    intro e s hside hget'
    by_cases hskip : ¬ e.forMarket s.market ∨ e.store.get s.id = none
    · rw [onOrderSnapshot_skip hskip] at hget'
      exact ⟨o', hget', rfl⟩
    · rw [not_or, not_not] at hskip
      obtain ⟨old, hget⟩ := Option.ne_none_iff_exists'.mp hskip.2
      rw [get_onOrderSnapshot cfg hskip.1 hget] at hget'
      split at hget'
      · next hid =>
        split at hget'
        · cases hget'
        · obtain rfl := Option.some.inj hget'
          exact ⟨old, hid ▸ hget, hside old hget⟩
      · exact ⟨o', hget', rfl⟩
  cases msg with
  | trade t =>
    rw [MarketEngine.deliver, (onMyTrade_frame cfg e t).2.1] at hget'
    exact ⟨o', hget', rfl⟩
  | snapshot s => exact hsnapshot e s hside hget'
  | reconcile s =>
    rcases e.reconcileFromSnapshot_cases cfg s with hskip | ⟨prev, settled, -, -, hdelta, heq⟩
    · rw [MarketEngine.deliver, hskip] at hget'
      exact ⟨o', hget', rfl⟩
    · have hstore := (onlySettles_settleDelta hdelta).store
      rw [MarketEngine.deliver, heq] at hget'
      have hside' : ∀ o, settled.store.get s.id = some o → s.position = o.position := by
        rw [hstore]
        exact hside
      rw [← hstore]
      exact hsnapshot settled s hside' hget'

/-! A submission. -/

/-- The exchange has accepted the request: its order is the one that is out. -/
theorem hasOrder_accepted (mgr : AccountManager) (token : Option ReservationToken)
    {req : OrderRequest ℚ} {uuid : String} (hno : e.NoOrder) (h : e.OwnStore) (hne : uuid ≠ "")
    (hid : req.identifier ≠ "") :
    let e' := (afterPost { e with accountMgr := mgr, activeBuyToken := token } req (.ok uuid)).2
    e'.HasOrder req.position req.identifier ∧
      ∀ id o, e'.store.get id = some o → id = uuid ∧ o.position = req.position := by
  intro e'
  have hget := get_afterPost { e with accountMgr := mgr, activeBuyToken := token } req hne
  have hactive := activeUuid_afterPost { e with accountMgr := mgr, activeBuyToken := token } req uuid
  obtain ⟨-, -, -, hevents, -⟩ :=
    afterPost_frame { e with accountMgr := mgr, activeBuyToken := token } req uuid
  refine ⟨⟨hactive.trans_ne hne, ⟨pendingOrder req uuid, ?_, if_neg hid⟩, ?_⟩, fun id o hid => ?_⟩
  · rw [hactive, hget, if_pos rfl]
  · unfold statuses
    rw [hevents]
    exact hno.2
  · rw [hget] at hid
    split at hid
    · next hown =>
      obtain rfl := Option.some.inj hid
      exact ⟨hown, rfl⟩
    · rw [h.get_none hno.1] at hid
      cases hid

theorem submit_noOrder (cfg : AppConfig ℚ) (hno : e.NoOrder) (h : e.OwnStore) (req : OrderRequest ℚ)
    {reply : Except RestError String} (hreply : reply ≠ .ok "") (hid : req.identifier ≠ "") :
    ((e.submitReply cfg req reply).1.success = false ∧ (e.submitReply cfg req reply).2.NoOrder) ∨
    ∃ uuid, reply = .ok uuid ∧ (e.submitReply cfg req reply).1.success = true ∧
      (e.submitReply cfg req reply).2.HasOrder req.position req.identifier ∧
      ∀ id o, (e.submitReply cfg req reply).2.store.get id = some o →
        id = uuid ∧ o.position = req.position := by
  have hsame : ∀ mgr, NoOrder { e with accountMgr := mgr } := by
    intro mgr
    refine ⟨fun side => ?_, hno.2⟩
    cases side with
    | bid => exact hno.1 .bid
    | ask => exact hno.1 .ask
  unfold submitReply submit
  rcases e.beforePost_cases cfg req with ⟨code, message, hfail⟩ | ⟨message, hfail⟩ |
    ⟨-, -, hpos, htok, -, token, mgr, -, hbuy⟩ | ⟨-, -, hpos, htok, -, hsell⟩
  · rw [hfail]
    exact .inl ⟨rfl, hno⟩
  · rw [hfail]
    exact .inl ⟨rfl, hsame _⟩
  · rw [hbuy]
    cases reply with
    | error err =>
      simp only [afterPost, hpos, releaseBuyToken]
      refine .inl ⟨rfl, fun side => ?_, hno.2⟩
      cases side with
      | bid => rfl
      | ask => exact hno.1 .ask
    | ok uuid =>
      have hne : uuid ≠ "" := fun hempty => hreply (congrArg Except.ok hempty)
      exact .inr ⟨uuid, rfl, rfl, hasOrder_accepted mgr (some token) hno h hne hid⟩
  · rw [hsell]
    cases reply with
    | error err =>
      simp only [afterPost, hpos]
      exact .inl ⟨rfl, hno⟩
    | ok uuid =>
      have hne : uuid ≠ "" := fun hempty => hreply (congrArg Except.ok hempty)
      exact .inr ⟨uuid, rfl, rfl, hasOrder_accepted e.accountMgr e.activeBuyToken hno h hne hid⟩

end MarketEngine
end CoinBot
