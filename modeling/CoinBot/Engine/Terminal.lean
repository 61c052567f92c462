import CoinBot.Engine.MarketEngine
import CoinBot.Lib.Machine

/- A closed order stays closed, and is announced once.

   From the submission of an order on, the engine has it in the store until it
   accepts a terminal snapshot of it, and never again afterwards. The status event
   goes out with that snapshot. Nothing is asked of the messages, not even that the
   snapshots carry the order's side. -/
namespace CoinBot

/-- The order a message is about. -/
def Message.orderUuid : Message → String
  | .trade t => t.orderUuid
  | .snapshot s => s.id
  | .reconcile s => s.id

def EngineEvent.announces (uuid : String) : EngineEvent → Bool
  | .status ev => ev.orderUuid == uuid
  | .fill _ => false

namespace MarketEngine

/-- How many status events of the order are queued. -/
def announced (uuid : String) (e : MarketEngine) : Nat := e.events.countP (·.announces uuid)

/-- The message is a terminal snapshot of the order, and the engine accepts it: it has the
    order, and does not refuse the reconciliation. -/
def AcceptsTerminal (cfg : AppConfig ℚ) (uuid : String) (e : MarketEngine) : Message → Prop
  | .trade _ => False
  | .snapshot s =>
    s.id = uuid ∧ s.status.isTerminal ∧ e.forMarket s.market ∧ (e.store.get s.id).isSome
  | .reconcile s => s.id = uuid ∧ s.status.isTerminal ∧ (e.reconcileFromSnapshot cfg s).1 = true

instance (cfg : AppConfig ℚ) (uuid : String) (e : MarketEngine) (msg : Message) :
    Decidable (AcceptsTerminal cfg uuid e msg) :=
  match msg with
  | .trade _ => inferInstanceAs (Decidable False)
  | .snapshot _ => inferInstanceAs (Decidable (_ ∧ _ ∧ _ ∧ _))
  | .reconcile _ => inferInstanceAs (Decidable (_ ∧ _ ∧ _))

/-- How many terminal snapshots of the order are accepted along a run. -/
def closings (cfg : AppConfig ℚ) (uuid : String) : MarketEngine → List Message → Nat
  | _, [] => 0
  | e, msg :: msgs =>
    (if AcceptsTerminal cfg uuid e msg then 1 else 0) +
      closings cfg uuid (e.deliver cfg msg) msgs

/-- Only the seen trades differ. -/
def SameButSeen (e e' : MarketEngine) : Prop :=
  ∃ seen fifo, e' = { e with seenTradeUuids := seen, seenTradeUuidFifo := fifo }

/-- The order is out: stored, open and with an identifier, and not announced. -/
def IsOut (uuid : String) (e : MarketEngine) : Prop :=
  e.announced uuid = 0 ∧ ∃ o id, e.store.get uuid = some o ∧ o.identifier = some id ∧ id ≠ "" ∧
    o.status.isTerminal = false

/-- The order is closed: no longer stored, and announced. -/
def IsClosed (uuid : String) (e : MarketEngine) : Prop :=
  e.announced uuid = 1 ∧ e.store.get uuid = none

variable {cfg : AppConfig ℚ} {e : MarketEngine} {uuid : String}

/-! Announcements. -/

theorem countP_fillEvents (uuid : String) (t : MyTrade) (ord : Order) :
    (fillEvents t ord).countP (·.announces uuid) = 0 := by
  unfold fillEvents
  split
  · split
    · rfl
    · rfl
  · rfl

theorem countP_statusEvents (e : MarketEngine) {o : Order} {id : String}
    (hid : o.identifier = some id) (hne : id ≠ "") (uuid : String) :
    (e.statusEvents cfg o).countP (·.announces uuid) = if o.id = uuid then 1 else 0 := by
  rw [statusEvents_named cfg e hid hne]
  by_cases heq : o.id = uuid
  · simp [heq, EngineEvent.announces]
  · simp [heq, EngineEvent.announces]

theorem countP_statusEvents_other (e : MarketEngine) {o : Order} (hne : o.id ≠ uuid) :
    (e.statusEvents cfg o).countP (·.announces uuid) = 0 := by
  unfold statusEvents
  split
  · split
    · rfl
    · simp [EngineEvent.announces, hne]
  · rfl

theorem onMyTrade_announced (cfg : AppConfig ℚ) (e : MarketEngine) (t : MyTrade) (uuid : String) :
    (e.onMyTrade cfg t).store = e.store ∧
    (e.onMyTrade cfg t).announced uuid = e.announced uuid := by
  obtain ⟨seen, fifo, hskip | ⟨ord, -, -, heq⟩⟩ := e.onMyTrade_cases cfg t
  · rw [hskip]
    exact ⟨rfl, rfl⟩
  · rw [heq]
    have hframe := onlySettles_settleTrade
      { e with seenTradeUuids := seen, seenTradeUuidFifo := fifo,
               events := e.events ++ fillEvents t ord } t
    unfold announced
    rw [hframe.store, hframe.events, List.countP_append, countP_fillEvents]
    exact ⟨rfl, rfl⟩

/-! One message. -/

/-- A snapshot of another order changes neither the order nor what is announced of it. -/
theorem snapshot_other (cfg : AppConfig ℚ) (e : MarketEngine) {s : Order} (hne : s.id ≠ uuid) :
    (e.onOrderSnapshot cfg s).store.get uuid = e.store.get uuid ∧
    (e.onOrderSnapshot cfg s).announced uuid = e.announced uuid := by
  by_cases hm : e.forMarket s.market
  · cases hget : e.store.get s.id with
    | none => rw [onOrderSnapshot_skip (.inr hget)]; exact ⟨rfl, rfl⟩
    | some old =>
      have hold : (mergeSnapshot old s).id = s.id :=
        (id_mergeSnapshot old s).trans (OrderStore.id_of_get hget)
      refine ⟨by rw [get_onOrderSnapshot cfg hm hget, if_neg (Ne.symm hne)], ?_⟩
      obtain ⟨store, hevents⟩ := events_onOrderSnapshot cfg hm hget
      unfold announced
      rw [hevents, List.countP_append]
      split
      · rw [countP_statusEvents_other _ (hold ▸ hne)]
        rfl
      · rfl
  · rw [onOrderSnapshot_skip (.inl hm)]
    exact ⟨rfl, rfl⟩

/-- A snapshot of the order closes it when it is terminal, and leaves it out otherwise. -/
theorem snapshot_own (cfg : AppConfig ℚ) {s : Order} (h : e.IsOut uuid) (hid : s.id = uuid)
    (hm : e.forMarket s.market) :
    (s.status.isTerminal = true ∧ (e.onOrderSnapshot cfg s).IsClosed uuid) ∨
    (s.status.isTerminal = false ∧ (e.onOrderSnapshot cfg s).IsOut uuid) := by
  subst hid
  obtain ⟨hcount, old, id, hget, hident, hne, hopen⟩ := h
  have hold : (mergeSnapshot old s).id = s.id :=
    (id_mergeSnapshot old s).trans (OrderStore.id_of_get hget)
  have hident' : (mergeSnapshot old s).identifier = some id := by
    simp [mergeSnapshot, hident]
  have hstore := get_onOrderSnapshot cfg hm hget s.id
  obtain ⟨store, hevents⟩ := events_onOrderSnapshot cfg hm hget
  rw [if_pos rfl] at hstore
  unfold announced at hcount
  cases hclosed : s.status.isTerminal with
  | true =>
    have hchange : s.status ≠ old.status := fun heq => by
      rw [heq, hopen] at hclosed
      exact absurd hclosed (by simp)
    rw [if_pos hclosed] at hstore
    refine .inl ⟨rfl, ?_, hstore⟩
    unfold announced
    rw [hevents, if_pos ⟨hclosed, hchange⟩, List.countP_append, hcount,
      countP_statusEvents _ hident' hne, if_pos hold]
  | false =>
    have hnot : ¬ s.status.isTerminal = true := by simp [hclosed]
    rw [if_neg hnot] at hstore
    refine .inr ⟨rfl, ?_, mergeSnapshot old s, id, hstore, hident', hne, hclosed⟩
    unfold announced
    rw [hevents, if_neg (fun h => hnot h.1), List.append_nil, hcount]

/-- A message either is an accepted terminal snapshot of the order and closes it, or leaves it
    out. -/
theorem isOut_deliver (cfg : AppConfig ℚ) (h : e.IsOut uuid) (msg : Message) :
    (AcceptsTerminal cfg uuid e msg ∧ (e.deliver cfg msg).IsClosed uuid) ∨
    (¬ AcceptsTerminal cfg uuid e msg ∧ (e.deliver cfg msg).IsOut uuid) := by
  obtain ⟨hcount, old, id, hget, hident⟩ := id h
  cases msg with
  | trade t =>
    obtain ⟨hstore, hsame⟩ := e.onMyTrade_announced cfg t uuid
    exact .inr ⟨fun h => h, hsame.trans hcount, old, id, by rw [deliver, hstore, hget], hident⟩
  | snapshot s =>
    by_cases hid : s.id = uuid
    · by_cases hm : e.forMarket s.market
      · have hsome : (e.store.get s.id).isSome = true := by rw [hid, hget]; rfl
        rcases snapshot_own cfg h hid hm with ⟨hterm, hclosed⟩ | ⟨hopen, hout⟩
        · exact .inl ⟨⟨hid, hterm, hm, hsome⟩, hclosed⟩
        · exact .inr ⟨fun hacc => absurd hacc.2.1 (by simp [hopen]), hout⟩
      · rw [deliver, onOrderSnapshot_skip (.inl hm)]
        exact .inr ⟨fun hacc => hm hacc.2.2.1, h⟩
    · obtain ⟨hstore, hsame⟩ := e.snapshot_other cfg hid
      exact .inr ⟨fun hacc => hid hacc.1, hsame.trans hcount, old, id, hstore.trans hget, hident⟩
  | reconcile s =>
    rcases e.reconcileFromSnapshot_cases cfg s with hskip | ⟨prev, settled, hm, -, hdelta, heq⟩
    · rw [deliver, hskip]
      exact .inr ⟨fun hacc => absurd hacc.2.2 (by simp [hskip]), h⟩
    · obtain ⟨hmkt, hstore, hevents, -, -, -⟩ := onlySettles_settleDelta hdelta
      have hout : settled.IsOut uuid := by
        refine ⟨?_, old, id, by rw [hstore, hget], hident⟩
        unfold announced at hcount ⊢
        rw [hevents, hcount]
      have hm' : settled.forMarket s.market := by
        unfold forMarket at hm ⊢
        rwa [hmkt]
      rw [deliver, heq]
      by_cases hid : s.id = uuid
      · rcases snapshot_own cfg hout hid hm' with ⟨hterm, hclosed⟩ | ⟨hopen, hout'⟩
        · exact .inl ⟨⟨hid, hterm, by rw [heq]⟩, hclosed⟩
        · exact .inr ⟨fun hacc => absurd hacc.2.1 (by simp [hopen]), hout'⟩
      · obtain ⟨hstore', hsame⟩ := settled.snapshot_other cfg hid
        obtain ⟨hcount', o, id', hget', hident'⟩ := hout
        exact .inr ⟨fun hacc => hid hacc.1, hsame.trans hcount', o, id', hstore'.trans hget', hident'⟩

theorem isClosed_deliver (cfg : AppConfig ℚ) (h : e.IsClosed uuid) (msg : Message) :
    (e.deliver cfg msg).IsClosed uuid := by
  obtain ⟨hcount, hget⟩ := h
  cases msg with
  | trade t =>
    obtain ⟨hstore, hsame⟩ := e.onMyTrade_announced cfg t uuid
    exact ⟨hsame.trans hcount, by rw [deliver, hstore, hget]⟩
  | snapshot s =>
    by_cases hid : s.id = uuid
    · rw [deliver, onOrderSnapshot_skip (.inr (hid ▸ hget))]
      exact ⟨hcount, hget⟩
    · obtain ⟨hstore, hsame⟩ := e.snapshot_other cfg hid
      exact ⟨hsame.trans hcount, hstore.trans hget⟩
  | reconcile s =>
    rcases e.reconcileFromSnapshot_cases cfg s with hskip | ⟨prev, settled, -, hprev, hdelta, heq⟩
    · rw [deliver, hskip]
      exact ⟨hcount, hget⟩
    · have hid : s.id ≠ uuid := fun hid => by
        rw [hid, hget] at hprev
        exact absurd hprev (by simp)
      obtain ⟨-, hstore, hevents, -, -, -⟩ := onlySettles_settleDelta hdelta
      obtain ⟨hstore', hsame⟩ := settled.snapshot_other cfg hid
      rw [deliver, heq]
      refine ⟨?_, by rw [hstore', hstore, hget]⟩
      rw [hsame]
      unfold announced at hcount ⊢
      rw [hevents, hcount]

/-- A message about an order that is not stored changes the seen trades at most. -/
theorem deliver_absent (cfg : AppConfig ℚ) (hget : e.store.get uuid = none) {msg : Message} (hmsg : msg.orderUuid = uuid) :
    e.SameButSeen (e.deliver cfg msg) := by
  have hsame : e.SameButSeen e := ⟨e.seenTradeUuids, e.seenTradeUuidFifo, rfl⟩
  cases msg with
  | trade t =>
    obtain ⟨seen, fifo, hskip | ⟨ord, -, hord, -⟩⟩ := e.onMyTrade_cases cfg t
    · exact ⟨seen, fifo, hskip⟩
    · have hid : t.orderUuid = uuid := hmsg
      rw [hid, hget] at hord
      exact absurd hord (by simp)
  | snapshot s =>
    have hid : s.id = uuid := hmsg
    rw [deliver, onOrderSnapshot_skip (.inr (hid ▸ hget))]
    exact hsame
  | reconcile s =>
    have hid : s.id = uuid := hmsg
    rcases e.reconcileFromSnapshot_cases cfg s with hskip | ⟨prev, settled, -, hprev, -, -⟩
    · rw [deliver, hskip]
      exact hsame
    · rw [hid, hget] at hprev
      exact absurd hprev (by simp)

theorem not_acceptsTerminal (h : e.IsClosed uuid) (msg : Message) :
    ¬ AcceptsTerminal cfg uuid e msg := by
  cases msg with
  | trade t => exact fun h => h
  | snapshot s =>
    rintro ⟨hid, -, -, hsome⟩
    rw [hid, h.2] at hsome
    exact absurd hsome (by simp)
  | reconcile s =>
    rintro ⟨hid, -, hacc⟩
    rcases e.reconcileFromSnapshot_cases cfg s with hskip | ⟨prev, settled, -, hprev, -, -⟩
    · rw [hskip] at hacc
      exact absurd hacc (by simp)
    · rw [hid, h.2] at hprev
      exact absurd hprev (by simp)

/-! Runs. -/

theorem closings_closed (cfg : AppConfig ℚ) (h : e.IsClosed uuid) (msgs : List Message) :
    closings cfg uuid e msgs = 0 ∧ (Machine.run (deliver cfg) e msgs).IsClosed uuid := by
  induction msgs generalizing e with
  | nil => exact ⟨rfl, h⟩
  | cons msg msgs ih =>
    obtain ⟨hzero, hclosed⟩ := ih (isClosed_deliver cfg h msg)
    rw [closings, if_neg (not_acceptsTerminal h msg), hzero]
    exact ⟨rfl, hclosed⟩

/-- Along a run the order is out until the first accepted terminal snapshot, and closed from
    there on. -/
theorem closings_out (cfg : AppConfig ℚ) (h : e.IsOut uuid) (msgs : List Message) :
    (closings cfg uuid e msgs = 0 ∧ (Machine.run (deliver cfg) e msgs).IsOut uuid) ∨
    (closings cfg uuid e msgs = 1 ∧ (Machine.run (deliver cfg) e msgs).IsClosed uuid) := by
  induction msgs generalizing e with
  | nil => exact .inl ⟨rfl, h⟩
  | cons msg msgs ih =>
    rw [closings, Machine.run_cons]
    rcases isOut_deliver cfg h msg with ⟨hacc, hclosed⟩ | ⟨hacc, hout⟩
    · obtain ⟨hzero, hrun⟩ := closings_closed cfg hclosed msgs
      rw [if_pos hacc, hzero]
      exact .inr ⟨rfl, hrun⟩
    · rw [if_neg hacc, Nat.zero_add]
      exact ih hout

theorem isOut_submit {req : OrderRequest ℚ} (hid : req.identifier ≠ "") (hne : uuid ≠ "")
    (hfresh : e.announced uuid = 0)
    (hok : (e.submitReply cfg req (.ok uuid)).1.success = true) :
    (e.submitReply cfg req (.ok uuid)).2.IsOut uuid := by
  obtain ⟨-, -, -, token, mgr, heq, -⟩ := submitReply_accepted hok
  rw [heq]
  refine ⟨?_, pendingOrder req uuid, req.identifier, ?_, if_neg hid, hid, rfl⟩
  · obtain ⟨-, -, -, hevents, -⟩ :=
      afterPost_frame { e with accountMgr := mgr, activeBuyToken := token } req uuid
    unfold announced at hfresh ⊢
    rw [hevents]
    exact hfresh
  · rw [get_afterPost _ req hne, if_pos rfl]

/-- **Terminal states.** From the submission of an order on, its status events are as many as the
    terminal snapshots of it that were accepted, and these are at most one; once there was one,
    no message about the order changes anything but the seen trades. -/
theorem announced_once (cfg : AppConfig ℚ) (e : MarketEngine) {req : OrderRequest ℚ}
    {uuid : String} (hid : req.identifier ≠ "") (hne : uuid ≠ "") (hfresh : e.announced uuid = 0)
    (hok : (e.submitReply cfg req (.ok uuid)).1.success = true) (msgs : List Message) :
    let submitted := (e.submitReply cfg req (.ok uuid)).2
    (Machine.run (deliver cfg) submitted msgs).announced uuid =
        closings cfg uuid submitted msgs ∧
      closings cfg uuid submitted msgs ≤ 1 ∧
      (closings cfg uuid submitted msgs = 1 → ∀ msg : Message, msg.orderUuid = uuid →
        (Machine.run (deliver cfg) submitted msgs).SameButSeen
          ((Machine.run (deliver cfg) submitted msgs).deliver cfg msg)) := by
  intro submitted
  have hout : submitted.IsOut uuid := isOut_submit hid hne hfresh hok
  rcases closings_out cfg hout msgs with ⟨hzero, hrun⟩ | ⟨hone, hrun⟩
  · rw [hzero]
    exact ⟨hrun.1, Nat.zero_le 1, fun h => absurd h (by simp)⟩
  · rw [hone]
    exact ⟨hrun.1, le_rfl, fun _ msg hmsg => deliver_absent cfg hrun.2 hmsg⟩

/-- The closing snapshot of a buy, twice, and a late trade of it. -/
def lateMessages : List Message :=
  let closing : Order :=
    { id := "u1", market := "KRW-BTC", position := .bid, type := .market, executedVolume := 5
      executedFunds := 5000, paidFee := 2, status := .filled }
  [.reconcile closing, .snapshot closing,
   .trade { orderUuid := "u1", tradeUuid := "t1", market := "KRW-BTC", price := 1000, volume := 5,
            executedFunds := 5000, fee := 2 }]

theorem announced_once_late :
    let submitted := (idleEngine.submitReply (AppConfig.standard ℚ) buyRequest (.ok "u1")).2
    (Machine.run (deliver (AppConfig.standard ℚ)) submitted lateMessages).announced "u1" ≤ 1 := by
  obtain ⟨hcount, hle, -⟩ := announced_once (AppConfig.standard ℚ) idleEngine
    (show buyRequest.identifier ≠ "" by decide) (show "u1" ≠ "" by decide) rfl (by decide +kernel)
    lateMessages
  exact hcount.trans_le hle

end MarketEngine
end CoinBot
