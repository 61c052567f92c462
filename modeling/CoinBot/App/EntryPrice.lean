import CoinBot.App.OrderMessages
import CoinBot.Engine.AverageCost
import CoinBot.Trading.PendingEntry

/- The entry price of the strategy and that of the ledger.

   A trade message settles its fill and reports it to the strategy; a reconciliation
   settles what the totals have over the stored ones and reports nothing. The strategy
   confirms the entry at the mean of the fills that were reported to it, if there are
   any. So it agrees with the ledger when all fills came one way, and not when some came
   by trade messages and some were found (`entryAgrees_iff`). -/
namespace CoinBot

/-! What the worker receives about a buy. -/

inductive Arrival where
  /-- A trade message, with or without the order's identifier. -/
  | trade (f : Fill) (tradeUuid : String) (named : Bool) (base : UpbitMyOrderDto)
  /-- A recovery while the order is open, which finds the fills since the last message. -/
  | recovered (fs : List Fill) (base : Order)
  /-- A message without a fill. -/
  | notice (watched : Bool) (base : UpbitMyOrderDto)
  /-- The engine's events go to the strategy. -/
  | events (nowMs : Int)

/-- What closes the order: a message, or the answer to a recovery. -/
inductive Ending where
  | message (c : Closing) (base : UpbitMyOrderDto)
  | answer (c : Closing) (base : Order)

/-- Fills that are found together are settled as one chunk. -/
def chunkOf : List Fill → List Totals
  | [] => []
  | f :: fs => [totals (f :: fs)]

namespace Arrival

def fills : Arrival → List Fill
  | .trade f _ _ _ => [f]
  | .recovered fs _ => fs
  | .notice _ _ | .events _ => []

/-- The fill that is reported to the strategy. -/
def reported : Arrival → List Fill
  | .trade f _ _ _ => [f]
  | .recovered _ _ | .notice _ _ | .events _ => []

/-- The fills that are found. -/
def found : Arrival → List Fill
  | .recovered fs _ => fs
  | .trade _ _ _ _ | .notice _ _ | .events _ => []

def tradeUuids : Arrival → List String
  | .trade _ tradeUuid _ _ => [tradeUuid]
  | .recovered _ _ | .notice _ _ | .events _ => []

def chunks : Arrival → List Totals
  | .trade f _ _ _ => [f.totals]
  | .recovered fs _ => chunkOf fs
  | .notice _ _ | .events _ => []

end Arrival

/-- The exchange while it is asked for this order. -/
def OrderRef.answering (r : OrderRef) (o : Order) : OrderApi Unit where
  postOrder _ s := (.error { code := .unknown, message := "" }, s)
  getOrder uuid s :=
    if uuid = r.uuid then (.ok o, s) else (.error { code := .badStatus, message := "" }, s)
  getMyAccount s := (.error { code := .badStatus, message := "" }, s)

namespace Entry

/-- `base` with the order's identifier, or without an identifier. -/
def identified (cid : String) (named : Bool) (base : UpbitMyOrderDto) : UpbitMyOrderDto :=
  { base with identifier := if named then some cid else none }

/-- One arrival after the fills `fs`, for the order with the identifier `cid`. -/
def receive (cfg : AppConfig ℚ) (r : OrderRef) (cid : String) (fs : List Fill)
    (ctx : MarketContext) : Arrival → MarketContext
  | .trade f tradeUuid named base =>
    ctx.handleMyOrder_ cfg (MarketContext.parseMyOrder cfg
      (some (r.tradeMessage (totals (fs ++ [f])) f (some tradeUuid) (identified cid named base))))
  | .recovered gs base =>
    (MarketContext.recoverOrder cfg (r.answering (r.answer (totals (fs ++ gs)) .open_ base))
      (ctx, ()) r.uuid).1
  | .notice watched base =>
    ctx.handleMyOrder_ cfg (MarketContext.parseMyOrder cfg
      (some (r.noticeMessage (totals fs) watched base)))
  | .events nowMs => ctx.deliverEvents nowMs

def play (cfg : AppConfig ℚ) (r : OrderRef) (cid : String) :
    List Fill → MarketContext → List Arrival → MarketContext
  | _, ctx, [] => ctx
  | fs, ctx, a :: as => play cfg r cid (fs ++ a.fills) (receive cfg r cid fs ctx a) as

/-- The order is closed with the fills `all`. -/
def finish (cfg : AppConfig ℚ) (r : OrderRef) (all : List Fill) (ctx : MarketContext) :
    Ending → MarketContext
  | .message c base =>
    ctx.handleMyOrder_ cfg (MarketContext.parseMyOrder cfg
      (some (r.closeMessage (totals all) c base)))
  | .answer c base =>
    (MarketContext.recoverOrder cfg (r.answering (r.answer (totals all) c.status base))
      (ctx, ()) r.uuid).1

def fills (as : List Arrival) : List Fill := as.flatMap Arrival.fills

def reported (as : List Arrival) : List Fill := as.flatMap Arrival.reported

def found (as : List Arrival) : List Fill := as.flatMap Arrival.found

def tradeUuids (as : List Arrival) : List String := as.flatMap Arrival.tradeUuids

/-- The chunks that are settled, the last one of the fills `rest` that the end of the order
    finds. -/
def chunks (as : List Arrival) (rest : List Fill) : List Totals :=
  as.flatMap Arrival.chunks ++ chunkOf rest

end Entry

/-! Events. -/

def EngineEvent.identifier : EngineEvent → String
  | .fill ev => ev.identifier
  | .status ev => ev.identifier

/-- What a fill event of the order `cid` adds to the fills the strategy has seen. -/
def EngineEvent.filled (cid : String) : EngineEvent → ℚ × ℚ
  | .fill ev => if ev.identifier = cid then (ev.filledVolume, ev.fillPrice * ev.filledVolume) else 0
  | .status _ => 0

/-- An event while the order `cid` is open: not its status event, and no fill of it without a
    volume. -/
def EngineEvent.WhileOpen (cid : String) : EngineEvent → Prop
  | .fill ev => ev.identifier = cid → 0 < ev.filledVolume
  | .status ev => ev.identifier ≠ cid

namespace MarketContext

open RsiMeanReversionStrategy

variable {cid : String} {acc : ℚ × ℚ}

theorem insertSignal_none (ctx : MarketContext) : ctx.insertSignal none = ctx := by
  unfold insertSignal
  simp

theorem handleEngineEvent_open (nowMs : Int) {ctx : MarketContext} {ev : EngineEvent}
    (h : ctx.strategy.AwaitsEntry cid acc) (hev : ev.WhileOpen cid) :
    ∃ st, ctx.handleEngineEvent nowMs ev = { ctx with strategy := st } ∧
      st.AwaitsEntry cid (acc + ev.filled cid) := by
  cases ev with
  | fill ev =>
    refine ⟨_, rfl, ?_⟩
    by_cases hid : ev.identifier = cid
    · have hown : (EngineEvent.fill ev).filled cid =
          fillAmounts { identifier := ev.identifier, position := ev.position
                        fillPrice := ev.fillPrice, filledVolume := ev.filledVolume } := if_pos hid
      rw [hown]
      exact h.onFill hid (hev hid)
    · have hnone : (EngineEvent.fill ev).filled cid = 0 := if_neg hid
      have hother : ctx.strategy.pendingClientId ≠ some ev.identifier := by
        rw [h.pending]
        exact fun heq => hid (Option.some.inj heq).symm
      rw [hnone, add_zero]
      unfold RsiMeanReversionStrategy.onFill
      rw [if_pos hother]
      exact h
  | status ev =>
    have hother : ctx.strategy.pendingClientId ≠ some ev.identifier := by
      rw [h.pending]
      exact fun heq => hev (Option.some.inj heq).symm
    refine ⟨ctx.strategy, ?_, ?_⟩
    · simp only [handleEngineEvent]
      rw [onOrderUpdate_other hother]
      exact insertSignal_none _
    · have hnone : (EngineEvent.status ev).filled cid = 0 := rfl
      rw [hnone, add_zero]
      exact h

theorem handleEngineEvents_open (nowMs : Int) {ctx : MarketContext} {evs : List EngineEvent}
    (h : ctx.strategy.AwaitsEntry cid acc) (hevs : ∀ ev ∈ evs, ev.WhileOpen cid) :
    ∃ st, ctx.handleEngineEvents_ nowMs evs = { ctx with strategy := st } ∧
      st.AwaitsEntry cid (acc + (evs.map (EngineEvent.filled cid)).sum) := by
  induction evs generalizing ctx acc with
  | nil => exact ⟨ctx.strategy, rfl, by simpa using h⟩
  | cons ev evs ih =>
    obtain ⟨st, heq, hst⟩ := handleEngineEvent_open nowMs h (hevs ev List.mem_cons_self)
    have hnext : ({ ctx with strategy := st } : MarketContext).strategy.AwaitsEntry cid
        (acc + ev.filled cid) := hst
    obtain ⟨st', heq', hst'⟩ := ih hnext (fun ev' hev' => hevs ev' (List.mem_cons_of_mem ev hev'))
    refine ⟨st', ?_, ?_⟩
    · show (ctx.handleEngineEvent nowMs ev).handleEngineEvents_ nowMs evs = _
      rw [heq, heq']
    · rw [List.map_cons, List.sum_cons, ← add_assoc]
      exact hst'

theorem reconciled_recoverOrder (cfg : AppConfig ℚ) (ctx : MarketContext) {r : OrderRef}
    (hne : r.uuid ≠ "") (o : Order) :
    Reconciled cfg o ctx (recoverOrder cfg (r.answering o) (ctx, ()) r.uuid).1 := by
  have hquery : queryOrderWithRetry_ (r.answering o) r.uuid 3 () = (some o, ()) := by
    simp [queryOrderWithRetry_, OrderRef.answering]
  unfold recoverOrder
  simp only [if_neg hne, hquery]
  split
  · exact ⟨rfl, rfl, signals_insertOrder _ o⟩
  · exact ⟨rfl, rfl, rfl⟩

end MarketContext

/-! The order while it is open. -/

namespace Entry

variable {cfg : AppConfig ℚ} {r : OrderRef} {cid : String} {start : Volume} {left : Amount}
  {b : MarketBudget} {before : List (SignalRecord ℚ)} {x : Totals} {ds : List Totals}
  {amounts : ℚ × ℚ} {ctx ctx' : MarketContext}

/-- The engine has settled the chunks `ds` of the order and stored the totals `x`; the strategy
    has been told of fills with the volume and cost `amounts`, or will be when the queued events
    are delivered. -/
structure Underway (r : OrderRef) (cid : String) (start : Volume) (left : Amount)
    (b : MarketBudget) (before : List (SignalRecord ℚ)) (x : Totals) (ds : List Totals)
    (amounts : ℚ × ℚ) (ctx : MarketContext) : Prop where
  market : ctx.engine.market = r.market
  settled : ctx.engine.HasSettled r.uuid r.side x start left b ds
  costs : ∀ d ∈ ds, 0 < d.volume ∧ 0 ≤ d.cost
  named : ∃ o, ctx.engine.store.get r.uuid = some o ∧ o.identifier = some cid
  told : ∃ acc, ctx.strategy.AwaitsEntry cid acc ∧
    acc + (ctx.engine.events.map (EngineEvent.filled cid)).sum = amounts
  events : ∀ ev ∈ ctx.engine.events, ev.WhileOpen cid
  signals : ctx.db.map (·.signals) = some before

/-- What a snapshot or a reconciliation that leaves the order open has to keep. -/
theorem Underway.keep {y : Totals} {es : List Totals}
    (h : Underway r cid start left b before x ds amounts ctx) (hm : ctx'.engine.market = r.market)
    (hsettled : ctx'.engine.HasSettled r.uuid r.side y start left b es)
    (hcosts : ∀ d ∈ es, 0 < d.volume ∧ 0 ≤ d.cost)
    (hnamed : ∃ o, ctx'.engine.store.get r.uuid = some o ∧ o.identifier = some cid)
    (hevents : ctx'.engine.events = ctx.engine.events) (hstrategy : ctx'.strategy = ctx.strategy)
    (hsignals : ctx'.db.map (·.signals) = ctx.db.map (·.signals)) :
    Underway r cid start left b before y es amounts ctx' := by
  refine ⟨hm, hsettled, hcosts, hnamed, ?_, ?_, hsignals.trans h.signals⟩
  · rw [hevents, hstrategy]
    exact h.told
  · rw [hevents]
    exact h.events

theorem Underway.congr (h : Underway r cid start left b before x ds amounts ctx)
    (hengine : ctx'.engine = ctx.engine) (hstrategy : ctx'.strategy = ctx.strategy)
    (hsignals : ctx'.db.map (·.signals) = ctx.db.map (·.signals)) :
    Underway r cid start left b before x ds amounts ctx' :=
  h.keep (hengine ▸ h.market) (hengine ▸ h.settled) h.costs (hengine ▸ h.named)
    (congrArg (·.events) hengine) hstrategy hsignals

theorem named_onOrderSnapshot (cfg : AppConfig ℚ) {e : MarketEngine} {uuid : String} {s : Order}
    (h : ∃ o, e.store.get uuid = some o ∧ o.identifier = some cid) (hid : s.id = uuid)
    (hm : e.forMarket s.market) (hopen : s.status.isTerminal = false) :
    ∃ o, (e.onOrderSnapshot cfg s).store.get uuid = some o ∧ o.identifier = some cid := by
  obtain ⟨old, hget, hold⟩ := h
  subst hid
  refine ⟨MarketEngine.mergeSnapshot old s, ?_, ?_⟩
  · rw [MarketEngine.get_onOrderSnapshot cfg hm hget, if_pos rfl, hopen]
    rfl
  · show (old.identifier <|> s.identifier) = some cid
    rw [hold]
    rfl

theorem Underway.snapshot (cfg : AppConfig ℚ) {y : Totals} {s : Order}
    (h : Underway r cid start left b before x ds amounts ctx)
    (hs : s.Reports r.uuid r.market r.side y) (hopen : s.status.isTerminal = false) :
    Underway r cid start left b before y ds amounts
        { ctx with engine := ctx.engine.onOrderSnapshot cfg s } ∧
      (ctx.engine.onOrderSnapshot cfg s).seenTradeUuids = ctx.engine.seenTradeUuids := by
  have hs' := hs
  rw [← h.market] at hs'
  obtain ⟨store, heq, hsettled⟩ := h.settled.snapshot cfg hs' hopen
  have hnamed := named_onOrderSnapshot cfg h.named hs.id_eq
    (MarketEngine.forMarket_reports hs') hopen
  rw [heq] at hnamed ⊢
  exact ⟨h.keep h.market hsettled h.costs hnamed rfl rfl rfl, rfl⟩

theorem fillEvents_trade {t : MyTrade} {ord : Order} {f : Fill}
    (ht : t.Reports r.uuid r.market r.side f) (hne : cid ≠ "")
    (hid : t.identifier = none ∨ t.identifier = some cid) (hord : ord.identifier = some cid) :
    ((MarketEngine.fillEvents t ord).map (EngineEvent.filled cid)).sum = (f.volume, f.funds) ∧
      ∀ ev ∈ MarketEngine.fillEvents t ord, ev.WhileOpen cid := by
  have hname : (t.identifier <|> ord.identifier) = some cid := by
    rcases hid with hnone | hsome
    · rw [hnone, hord]
      rfl
    · rw [hsome]
      rfl
  unfold MarketEngine.fillEvents
  rw [hname]
  simp only [if_neg hne]
  constructor
  · simp only [List.map_cons, List.map_nil, List.sum_cons, List.sum_nil, EngineEvent.filled, if_true,
      add_zero, ht.volume_eq, ht.price_eq]
    rfl
  · intro ev hev
    obtain rfl := List.mem_singleton.mp hev
    intro _
    exact ht.volume_eq ▸ f.volume_pos

/-- A trade message: its fill is settled, and an event tells the strategy of it. -/
theorem Underway.trade (cfg : AppConfig ℚ) {t : MyTrade} {f : Fill}
    (h : Underway r cid start left b before x ds amounts ctx) (hne : cid ≠ "")
    (ht : t.Reports r.uuid r.market r.side f)
    (hid : t.identifier = none ∨ t.identifier = some cid) (huuid : t.tradeUuid ≠ "")
    (hnew : t.tradeUuid ∉ ctx.engine.seenTradeUuids) :
    Underway r cid start left b before x (ds ++ [f.totals]) (amounts + (f.volume, f.funds))
        { ctx with engine := ctx.engine.onMyTrade cfg t } ∧
      (ctx.engine.onMyTrade cfg t).seenTradeUuids ⊆
        insert t.tradeUuid ctx.engine.seenTradeUuids := by
  have ht' := ht
  rw [← h.market] at ht'
  obtain ⟨hsettled, hm, hseen⟩ := h.settled.onMyTrade_new cfg (fun d hd => (h.costs d hd).2) ht'
    huuid hnew
  obtain ⟨ord, hget, hord⟩ := h.named
  have hevents : (ctx.engine.onMyTrade cfg t).events =
      ctx.engine.events ++ MarketEngine.fillEvents t ord := by
    rw [← ht.orderUuid_eq] at hget
    obtain ⟨seen, fifo, -, heq⟩ := MarketEngine.onMyTrade_new cfg ht'.market_eq huuid hnew hget
    rw [heq, (MarketEngine.onlySettles_settleTrade _ t).events]
  obtain ⟨hfilled, hopen⟩ := fillEvents_trade ht hne hid hord
  -- The trade adds one fill event of this order to the queue, which the strategy will be told.
  refine ⟨⟨hm.trans h.market, hsettled, ?_, ⟨ord, ?_, hord⟩, ?_, ?_, h.signals⟩, hseen⟩
  · intro d hd
    rcases List.mem_append.mp hd with hd | hd
    · exact h.costs d hd
    · obtain rfl := List.mem_singleton.mp hd
      exact ⟨f.volume_pos, f.proper.cost_nonneg⟩
  · exact (congrArg (·.get r.uuid) (MarketEngine.onMyTrade_frame cfg ctx.engine t).2.1).trans hget
  · obtain ⟨acc, hwait, hacc⟩ := h.told
    refine ⟨acc, hwait, ?_⟩
    show acc + ((ctx.engine.onMyTrade cfg t).events.map (EngineEvent.filled cid)).sum = _
    rw [hevents, List.map_append, List.sum_append, hfilled, ← add_assoc, hacc]
  · intro ev hev
    have hev' : ev ∈ (ctx.engine.onMyTrade cfg t).events := hev
    rw [hevents] at hev'
    rcases List.mem_append.mp hev' with hold | hfill
    · exact h.events ev hold
    · exact hopen ev hfill

theorem volume_pos_of_ne {fs : List Fill} (hne : fs ≠ []) : 0 < (totals fs).volume := by
  cases fs with
  | nil => exact absurd rfl hne
  | cons f fs =>
    rw [totals_cons]
    exact add_pos_of_pos_of_nonneg f.volume_pos (proper_totals fs).volume_nonneg

/-- Fills that are found are settled as their chunk, and the strategy is not told. -/
theorem Underway.settleRest {gs : List Fill}
    (h : Underway r cid start left b before x ds amounts ctx) :
    Underway r cid start left b before x (ds ++ chunkOf gs) amounts
      { ctx with
        engine := if 0 < (totals gs).volume
          then ctx.engine.settleChunk r.uuid r.side (totals gs) else ctx.engine } := by
  cases gs with
  | nil =>
    have hzero : ¬ 0 < (totals []).volume := lt_irrefl 0
    rw [if_neg hzero]
    exact h.keep h.market ((List.append_nil ds).symm ▸ h.settled)
      ((List.append_nil ds).symm ▸ h.costs) h.named rfl rfl rfl
  | cons f fs =>
    have hpos : 0 < (totals (f :: fs)).volume := volume_pos_of_ne (List.cons_ne_nil f fs)
    have hproper := proper_totals (f :: fs)
    obtain ⟨hmkt, hstore, hevents, -, -, -⟩ := MarketEngine.onlySettles_settleChunk ctx.engine r.uuid
      r.side (totals (f :: fs))
    rw [if_pos hpos]
    refine h.keep (hmkt.trans h.market)
      (h.settled.settleChunk (fun d hd => (h.costs d hd).2) hproper hpos) ?_ ?_ hevents rfl rfl
    · intro d hd
      rcases List.mem_append.mp hd with hd | hd
      · exact h.costs d hd
      · obtain rfl := List.mem_singleton.mp hd
        exact ⟨hpos, hproper.cost_nonneg⟩
    · obtain ⟨o, hget, ho⟩ := h.named
      exact ⟨o, (congrArg (·.get r.uuid) hstore).trans hget, ho⟩

/-- A reconciliation with the true snapshot: the fills it finds are settled, and it is stored. -/
theorem Underway.reconcile (cfg : AppConfig ℚ) {gs : List Fill} {s : Order}
    (h : Underway r cid start left b before x ds amounts ctx)
    (hs : s.Reports r.uuid r.market r.side (x + totals gs)) :
    ∃ e, Underway r cid start left b before x (ds ++ chunkOf gs) amounts { ctx with engine := e } ∧
      e.seenTradeUuids = ctx.engine.seenTradeUuids ∧ e.events = ctx.engine.events ∧
      (ctx.engine.reconcileFromSnapshot cfg s).2 = e.onOrderSnapshot cfg s := by
  rw [← h.market] at hs
  have hrec := h.settled.following.reconcile cfg hs (proper_totals gs)
  refine ⟨_, h.settleRest, ?_, ?_, by rw [hrec]⟩
  · split
    · exact (MarketEngine.onlySettles_settleChunk _ _ _ _).seen
    · rfl
  · split
    · exact (MarketEngine.onlySettles_settleChunk _ _ _ _).events
    · rfl

theorem Underway.deliver (h : Underway r cid start left b before x ds amounts ctx) (nowMs : Int) :
    Underway r cid start left b before x ds amounts (ctx.deliverEvents nowMs) ∧
      (ctx.deliverEvents nowMs).engine.seenTradeUuids = ctx.engine.seenTradeUuids := by
  obtain ⟨acc, hwait, hacc⟩ := h.told
  have hpolled : ({ ctx with engine := { ctx.engine with events := [] } } :
      MarketContext).strategy.AwaitsEntry cid acc := hwait
  obtain ⟨st, heq, hst⟩ := MarketContext.handleEngineEvents_open nowMs hpolled h.events
  have hdeliver : ctx.deliverEvents nowMs =
      { ctx with engine := { ctx.engine with events := [] }, strategy := st } := heq
  rw [hdeliver]
  refine ⟨⟨h.market, h.settled.observe _ _ _, h.costs, h.named, ⟨amounts, hacc ▸ hst, ?_⟩, ?_,
    h.signals⟩, rfl⟩
  · exact add_zero amounts
  · exact fun ev hev => absurd hev List.not_mem_nil

/-- Volume and cost of some fills. -/
def amountsOf (fs : List Fill) : ℚ × ℚ := ((totals fs).volume, (totals fs).funds)

theorem amountsOf_append (fs gs : List Fill) :
    amountsOf (fs ++ gs) = amountsOf fs + amountsOf gs := by
  unfold amountsOf
  rw [totals_append]
  rfl

theorem Underway.receive (cfg : AppConfig ℚ) {fs : List Fill} {a : Arrival}
    (h : Underway r cid start left b before (totals fs) ds amounts ctx) (hne : cid ≠ "")
    (huuid : r.uuid ≠ "") (hfresh : ctx.engine.Unseen a.tradeUuids) :
    Underway r cid start left b before (totals (fs ++ a.fills)) (ds ++ a.chunks)
        (amounts + amountsOf a.reported) (receive cfg r cid fs ctx a) ∧
      ∀ u ∈ (receive cfg r cid fs ctx a).engine.seenTradeUuids,
        u ∈ ctx.engine.seenTradeUuids ∨ u ∈ a.tradeUuids := by
  have hquiet : amounts + amountsOf [] = amounts := add_zero amounts
  cases a with
  | trade f tradeUuid named base =>
    -- The trade is settled and reported, then its message stores the totals.
    obtain ⟨hu, hnew⟩ := hfresh.2 tradeUuid List.mem_cons_self
    have htold : amountsOf [f] = (f.volume, f.funds) := by
      unfold amountsOf
      rw [totals_cons, totals_nil, Totals.add_zero]
      rfl
    have hid : (identified cid named base).identifier = none ∨
        (identified cid named base).identifier = some cid := by
      cases named with
      | true => exact .inr rfl
      | false => exact .inl rfl
    obtain ⟨htrade, hseen⟩ := h.trade cfg hne
      (r.reports_toTrade (totals (fs ++ [f])) (identified cid named base) cfg f (some tradeUuid)
        tradeUuid) hid hu hnew
    obtain ⟨hsnapshot, hsame⟩ := htrade.snapshot cfg
      (r.reports_tradeMessage (totals (fs ++ [f])) (identified cid named base) f (some tradeUuid))
      (r.open_tradeMessage _ _ f (some tradeUuid))
    have hnext : Entry.receive cfg r cid fs ctx (.trade f tradeUuid named base) =
        { ctx with
          engine := (ctx.engine.onMyTrade cfg (MyOrderMapper.toTrade cfg
            (r.tradeMessage (totals (fs ++ [f])) f (some tradeUuid) (identified cid named base))
              tradeUuid)).onOrderSnapshot cfg (MyOrderMapper.toOrder
            (r.tradeMessage (totals (fs ++ [f])) f (some tradeUuid)
              (identified cid named base))) } :=
      ctx.handleMyOrder_trade cfg
        (d := r.tradeMessage (totals (fs ++ [f])) f (some tradeUuid) (identified cid named base))
        rfl rfl
    have hreported : amountsOf (Arrival.reported (.trade f tradeUuid named base)) =
        (f.volume, f.funds) := htold
    rw [hreported, hnext]
    refine ⟨hsnapshot, fun u hin => ?_⟩
    rw [hsame] at hin
    rcases Finset.mem_insert.mp (hseen hin) with hown | hold
    · exact .inr (hown ▸ List.mem_cons_self)
    · exact .inl hold
  | recovered gs base =>
    -- The answer settles what is missing in one chunk, and no event reports it.
    have hs := r.reports_answer (totals (fs ++ gs)) .open_ base
    obtain ⟨hengine, hstrategy, hsignals⟩ := MarketContext.reconciled_recoverOrder cfg ctx huuid
      (r.answer (totals (fs ++ gs)) .open_ base)
    have hs' := hs
    rw [totals_append] at hs'
    obtain ⟨e, hrest, hseen, -, heq⟩ := h.reconcile cfg hs'
    rw [← totals_append] at heq
    obtain ⟨hstored, hsame⟩ := hrest.snapshot cfg hs rfl
    rw [heq] at hengine
    have hnext := hstored.congr hengine hstrategy hsignals
    rw [← hquiet] at hnext
    refine ⟨hnext, fun u hin => .inl ?_⟩
    have hin' : u ∈ (e.onOrderSnapshot cfg
        (r.answer (totals (fs ++ gs)) .open_ base)).seenTradeUuids := hengine ▸ hin
    rw [← hseen, ← hsame]
    exact hin'
  | notice watched base =>
    have hs := r.reports_noticeMessage (totals fs) base watched
    have hopen := r.open_noticeMessage (totals fs) base watched
    obtain ⟨hstored, hsame⟩ := h.snapshot cfg hs hopen
    have hreceive := ctx.handleMyOrder_open cfg
      (.inl (r.state_noticeMessage (totals fs) base watched)) hopen
    have hnext : Entry.receive cfg r cid fs ctx (.notice watched base) =
      { ctx with
        engine := ctx.engine.onOrderSnapshot cfg
          (MyOrderMapper.toOrder (r.noticeMessage (totals fs) watched base)) } := hreceive
    have hfills : fs ++ Arrival.fills (.notice watched base) = fs := List.append_nil fs
    have hchunks : ds ++ Arrival.chunks (.notice watched base) = ds := List.append_nil ds
    have hreported : amounts + amountsOf (Arrival.reported (.notice watched base)) = amounts :=
      hquiet
    rw [hnext, hfills, hchunks, hreported]
    exact ⟨hstored, fun u hin => .inl (hsame ▸ hin)⟩
  | events nowMs =>
    obtain ⟨hdelivered, hsame⟩ := h.deliver nowMs
    have hfills : fs ++ Arrival.fills (.events nowMs) = fs := List.append_nil fs
    have hchunks : ds ++ Arrival.chunks (.events nowMs) = ds := List.append_nil ds
    have hreported : amounts + amountsOf (Arrival.reported (.events nowMs)) = amounts := hquiet
    rw [hfills, hchunks, hreported]
    exact ⟨hdelivered, fun u hin => .inl (hsame ▸ hin)⟩

theorem Underway.play (cfg : AppConfig ℚ) {fs : List Fill} {as : List Arrival}
    (h : Underway r cid start left b before (totals fs) ds amounts ctx) (hne : cid ≠ "")
    (huuid : r.uuid ≠ "") (hfresh : ctx.engine.Unseen (tradeUuids as)) :
    Underway r cid start left b before (totals (fs ++ fills as)) (ds ++ as.flatMap Arrival.chunks)
      (amounts + amountsOf (reported as)) (play cfg r cid fs ctx as) := by
  induction as generalizing ctx fs ds amounts with
  | nil =>
    have hfills : fs ++ fills [] = fs := List.append_nil fs
    have hchunks : ds ++ List.flatMap Arrival.chunks [] = ds := List.append_nil ds
    have hreported : amounts + amountsOf (reported []) = amounts := add_zero amounts
    rw [hfills, hchunks, hreported]
    exact h
  | cons a as ih =>
    have huuids : tradeUuids (a :: as) = a.tradeUuids ++ tradeUuids as := rfl
    rw [huuids] at hfresh
    have hown : ctx.engine.Unseen a.tradeUuids :=
      ⟨(List.nodup_append.mp hfresh.1).1, fun u hu => hfresh.2 u (List.mem_append_left _ hu)⟩
    obtain ⟨hnext, hseen⟩ := h.receive cfg hne huuid hown
    have hrest := ih hnext (hfresh.tail hseen)
    rw [List.append_assoc, List.append_assoc, add_assoc, ← amountsOf_append] at hrest
    exact hrest

/-! Its end. -/

/-- The closing snapshot leaves the holding as it was settled, and announces an opened position. -/
theorem Underway.close (cfg : AppConfig ℚ) {s : Order} {y : Totals}
    (h : Underway r cid start left b before x ds amounts ctx) (hne : cid ≠ "")
    (hside : r.side = .bid) (hs : s.Reports r.uuid r.market r.side y)
    (hterm : s.status.isTerminal = true) (hvol : 0 < y.volume) :
    let closed := ctx.engine.onOrderSnapshot cfg s
    (∃ ev, closed.events = ctx.engine.events ++ [.status ev] ∧ ev.identifier = cid ∧
      ev.status.isTerminal = true ∧ ev.positionEffect = .opened ∧ ev.executedVolume = y.volume ∧
      ev.executedFunds = y.funds) ∧
    ∃ b', closed.accountMgr.getBudget closed.market = some b' ∧
      b'.holding = (MarketEngine.chunkBudget r.side left b ds).holding := by
  intro closed
  rw [← h.market] at hs
  have hm := MarketEngine.forMarket_reports hs
  have hbid : s.position = .bid := hs.position_eq.trans hside
  have hbudget := h.settled.following.budget
  constructor
  · obtain ⟨old, hget, hold⟩ := h.named
    obtain ⟨old', hget', -, hopen⟩ := h.settled.following.stored
    obtain rfl := Option.some.inj (hget.symm.trans hget')
    have hchange : s.status ≠ old.status := by
      intro hsame
      rw [hsame, hopen] at hterm
      cases hterm
    rw [← hs.id_eq] at hget
    obtain ⟨store, hevents⟩ := MarketEngine.events_onOrderSnapshot cfg hm hget
    rw [if_pos ⟨hterm, hchange⟩] at hevents
    have hmerged : (MarketEngine.mergeSnapshot old s).identifier = some cid := by
      show (old.identifier <|> s.identifier) = some cid
      rw [hold]
      rfl
    -- The market's budget is still there when the effect is resolved.
    obtain ⟨b', hb', -⟩ := (MarketEngine.keepsHoldings_settleClose cfg
      { ctx.engine with store := store } (o := MarketEngine.mergeSnapshot old s) hbid).budget hbudget
    have hmkt := (MarketEngine.settleClose_frame cfg { ctx.engine with store := store }
      (MarketEngine.mergeSnapshot old s)).1
    have heffect : (MarketEngine.settleClose cfg { ctx.engine with store := store }
        (MarketEngine.mergeSnapshot old s)).resolvePositionEffect_ cfg
          (MarketEngine.mergeSnapshot old s) = .opened := by
      have hexecuted : ¬ (MarketEngine.mergeSnapshot old s).executedVolume ≤ 0 := by
        rw [show (MarketEngine.mergeSnapshot old s).executedVolume = y.volume from
          congrArg Totals.volume hs.totals_eq]
        exact not_le.mpr hvol
      have hpos : (MarketEngine.mergeSnapshot old s).position = .bid := hbid
      rw [hmkt.symm] at hb'
      simp only [MarketEngine.resolvePositionEffect_, if_neg hexecuted, hb', hpos]
    rw [MarketEngine.statusEvents_named cfg _ hmerged hne] at hevents
    exact ⟨_, hevents, rfl, hterm, heffect, congrArg Totals.volume hs.totals_eq,
      congrArg Totals.funds hs.totals_eq⟩
  · have hmkt : closed.market = ctx.engine.market := MarketEngine.market_onOrderSnapshot cfg _ s
    rw [hmkt]
    exact (MarketEngine.keepsHoldings_onOrderSnapshot cfg ctx.engine hbid).budget hbudget

theorem Underway.confirm {ev : EngineOrderStatusEvent}
    (h : Underway r cid start left b before x ds amounts ctx)
    (hevents : ctx'.engine.events = ctx.engine.events ++ [.status ev])
    (hstrategy : ctx'.strategy = ctx.strategy)
    (hsignals : ctx'.db.map (·.signals) = ctx.db.map (·.signals)) (hid : ev.identifier = cid)
    (hterm : ev.status.isTerminal = true) (heffect : ev.positionEffect = .opened)
    (hvol : 0 < ev.executedVolume) (hfunds : 0 < ev.executedFunds)
    (htold : 0 < amounts.1 → 0 < amounts.2) (nowMs : Int) :
    let done := ctx'.deliverEvents nowMs
    let price := if 0 < amounts.1 then amounts.2 / amounts.1
      else ev.executedFunds / ev.executedVolume
    done.engine = { ctx'.engine with events := [] } ∧ done.strategy.EnteredAt price ∧
      done.strategy.state = .inPosition ∧
      ∃ signal, done.db.map (·.signals) = some (before ++ [signal]) ∧ signal.side = .buy ∧
        signal.price = price ∧
        signal.volume = if 0 < amounts.1 then amounts.1 else ev.executedVolume := by
  intro done price
  obtain ⟨acc, hwait, hacc⟩ := h.told
  rw [← hstrategy] at hwait
  have hpolled : ({ ctx' with engine := { ctx'.engine with events := [] } } :
      MarketContext).strategy.AwaitsEntry cid acc := hwait
  -- The fill events of the queue come first, the status event last.
  obtain ⟨st, heq, hst⟩ := MarketContext.handleEngineEvents_open nowMs hpolled h.events
  rw [hacc] at hst
  have hdone : done = (({ ctx' with engine := { ctx'.engine with events := [] } } :
      MarketContext).handleEngineEvents_ nowMs ctx.engine.events).handleEngineEvent nowMs
        (.status ev) := by
    show MarketContext.handleEngineEvents_ nowMs _ ctx'.engine.events = _
    rw [hevents]
    exact List.foldl_append
  rw [heq] at hdone
  obtain ⟨signal, hsignal, hbuy, hprice, hvolume, hentered, hstate⟩ := hst.onOrderUpdate
    { identifier := ev.identifier, status := ev.status, position := ev.position
      executedVolume := ev.executedVolume, remainingVolume := ev.remainingVolume
      executedFunds := ev.executedFunds, positionEffect := ev.positionEffect }
    hid hterm heffect hvol hfunds htold nowMs
  rw [hdone]
  refine ⟨rfl, hentered, hstate, signal, ?_, hbuy, hprice, hvolume⟩
  simp only [MarketContext.handleEngineEvent, hsignal, MarketContext.insertSignal]
  rw [Option.map_map]
  have hdb := hsignals.trans h.signals
  obtain ⟨db, hsome, hbefore⟩ := Option.map_eq_some_iff.mp hdb
  rw [hsome, ← hbefore]
  rfl

/-! The submission. -/

/-- A buy that was accepted, with no event about it in the queue. -/
theorem underway_submit (cfg : AppConfig ℚ) (ctx : MarketContext) {req : OrderRequest ℚ}
    {uuid : String} {b : MarketBudget} {db : Database} (h : ctx.engine.SingleOrder)
    (hb : ctx.engine.accountMgr.getBudget ctx.engine.market = some b)
    (hside : req.position = .bid) (hid : req.identifier ≠ "")
    (hwait : ctx.strategy.AwaitsEntry req.identifier 0)
    (hquiet : ∀ ev ∈ ctx.engine.events, ev.identifier ≠ req.identifier) (hdb : ctx.db = some db)
    (hne : uuid ≠ "") (hok : (ctx.engine.submitReply cfg req (.ok uuid)).1.success = true) :
    Underway ⟨uuid, ctx.engine.market, .bid⟩ req.identifier
        (ctx.engine.accountMgr.bookedVolume ctx.engine.market .bid)
        (MarketEngine.computeReserveAmount cfg req) (MarketEngine.openedBudget cfg req b) db.signals
        0 [] 0 (ctx.accepted cfg req uuid) ∧
      (ctx.accepted cfg req uuid).engine.seenTradeUuids = ctx.engine.seenTradeUuids := by
  obtain ⟨hsettled, hmkt, hseen⟩ := MarketEngine.hasSettled_submit cfg h hb hne hok
  rw [hside] at hsettled
  obtain ⟨-, -, -, token, mgr, heq, -⟩ := MarketEngine.submitReply_accepted hok
  obtain ⟨-, -, -, hevents, -⟩ := MarketEngine.afterPost_frame
    { ctx.engine with accountMgr := mgr, activeBuyToken := token } req uuid
  rw [← heq] at hevents
  have hevents' : (ctx.accepted cfg req uuid).engine.events = ctx.engine.events := hevents
  -- No event in the queue is about the new order: its amounts start at 0.
  have hnone : (ctx.engine.events.map (EngineEvent.filled req.identifier)).sum = 0 := by
    refine List.sum_eq_zero (fun v hv => ?_)
    obtain ⟨ev, hev, rfl⟩ := List.mem_map.mp hv
    cases ev with
    | fill ev => exact if_neg (hquiet _ hev)
    | status ev => rfl
  refine ⟨⟨hmkt, hsettled, fun d hd => absurd hd List.not_mem_nil, ?_, ⟨0, hwait, ?_⟩, ?_, ?_⟩,
    hseen⟩
  · refine ⟨MarketEngine.pendingOrder req uuid, ?_, if_neg hid⟩
    show (ctx.engine.submitReply cfg req (.ok uuid)).2.store.get uuid = _
    rw [heq, MarketEngine.get_afterPost _ req hne, if_pos rfl]
  · rw [hevents', hnone, add_zero]
  · rw [hevents']
    intro ev hev
    cases ev with
    | fill ev => exact fun hown => absurd hown (hquiet _ hev)
    | status ev => exact hquiet _ hev
  · show ctx.db.map (·.signals) = _
    rw [hdb]
    rfl

/-! Strategy and ledger at the end of the order. -/

/-- The context once an accepted buy is closed and its events are delivered. `rest` are the fills
    that its end finds. -/
def concluded (cfg : AppConfig ℚ) (ctx : MarketContext) (req : OrderRequest ℚ) (uuid : String)
    (as : List Arrival) (rest : List Fill) (ending : Ending) (nowMs : Int) : MarketContext :=
  let r : OrderRef := ⟨uuid, ctx.engine.market, .bid⟩
  (finish cfg r (fills as ++ rest)
    (play cfg r req.identifier [] (ctx.accepted cfg req uuid) as) ending).deliverEvents nowMs

/-- The strategy has confirmed the entry at the ledger's average price, and the signal says what
    the totals of the order's fills say. -/
def EntryAgrees (all : List Fill) (before : List (SignalRecord ℚ)) (ctx : MarketContext) : Prop :=
  ctx.strategy.state = .inPosition ∧
    ∃ budget signal, ctx.engine.accountMgr.getBudget ctx.engine.market = some budget ∧
      ctx.strategy.EnteredAt budget.avgEntryPrice ∧
      ctx.db.map (·.signals) = some (before ++ [signal]) ∧ signal.side = .buy ∧
      signal.price = (totals all).funds / (totals all).volume ∧
      signal.volume = (totals all).volume

theorem reconciled_finish (cfg : AppConfig ℚ) (ctx : MarketContext) {r : OrderRef}
    (hne : r.uuid ≠ "") (all : List Fill) (ending : Ending) :
    ∃ s : Order, s.Reports r.uuid r.market r.side (totals all) ∧ s.status.isTerminal = true ∧
      MarketContext.Reconciled cfg s ctx (finish cfg r all ctx ending) := by
  cases ending with
  | message c base =>
    have hclosed := r.closed_closeMessage (totals all) base c
    exact ⟨_, r.reports_closeMessage (totals all) base c, hclosed,
      MarketContext.reconciled_close cfg ctx hclosed⟩
  | answer c base =>
    exact ⟨_, r.reports_answer (totals all) c.status base, isTerminal_status c,
      MarketContext.reconciled_recoverOrder cfg ctx hne _⟩

theorem chunks_sum (as : List Arrival) (rest : List Fill) :
    ((chunks as rest).map (·.volume)).sum = (totals (fills as ++ rest)).volume ∧
      ((chunks as rest).map (·.funds)).sum = (totals (fills as ++ rest)).funds := by
  have hchunk : ∀ fs : List Fill, ((chunkOf fs).map (·.volume)).sum = (totals fs).volume ∧
      ((chunkOf fs).map (·.funds)).sum = (totals fs).funds := by
    intro fs
    cases fs with
    | nil => exact ⟨rfl, rfl⟩
    | cons f fs => exact ⟨List.sum_singleton, List.sum_singleton⟩
  have hone : ∀ a : Arrival, (a.chunks.map (·.volume)).sum = (totals a.fills).volume ∧
      (a.chunks.map (·.funds)).sum = (totals a.fills).funds := by
    intro a
    cases a with
    | trade f tradeUuid named base => exact ⟨rfl, rfl⟩
    | recovered fs base => exact hchunk fs
    | notice watched base => exact ⟨rfl, rfl⟩
    | events nowMs => exact ⟨rfl, rfl⟩
  induction as with
  | nil => exact hchunk rest
  | cons a as ih =>
    have hchunks : chunks (a :: as) rest = a.chunks ++ chunks as rest := List.append_assoc _ _ _
    have hfills : fills (a :: as) ++ rest = a.fills ++ (fills as ++ rest) :=
      List.append_assoc _ _ _
    rw [hchunks, hfills, totals_append, List.map_append, List.map_append, List.sum_append,
      List.sum_append, (hone a).1, (hone a).2, ih.1, ih.2]
    exact ⟨rfl, rfl⟩

theorem totals_reported_found (as : List Arrival) (rest : List Fill) :
    totals (fills as ++ rest) = totals (reported as) + totals (found as ++ rest) := by
  induction as with
  | nil => exact (Totals.zero_add _).symm
  | cons a as ih =>
    have hfills : fills (a :: as) ++ rest = a.fills ++ (fills as ++ rest) :=
      List.append_assoc _ _ _
    have hreported : reported (a :: as) = a.reported ++ reported as := rfl
    have hfound : found (a :: as) ++ rest = a.found ++ (found as ++ rest) :=
      List.append_assoc _ _ _
    rw [hfills, hreported, hfound, totals_append a.fills, ih, totals_append a.reported,
      totals_append a.found]
    cases a with
    | trade f tradeUuid named base =>
      show totals [f] + _ = totals [f] + _ + (totals [] + _)
      rw [totals_nil, Totals.zero_add, Totals.add_assoc']
    | recovered fs base =>
      show totals fs + _ = totals [] + _ + (totals fs + _)
      rw [totals_nil, Totals.zero_add]
      ext <;> simp <;> ring
    | notice watched base =>
      show totals [] + _ = totals [] + _ + (totals [] + _)
      rw [totals_nil, Totals.zero_add, Totals.zero_add, Totals.zero_add]
    | events nowMs =>
      show totals [] + _ = totals [] + _ + (totals [] + _)
      rw [totals_nil, Totals.zero_add, Totals.zero_add, Totals.zero_add]

theorem volume_zero_iff (fs : List Fill) : (totals fs).volume = 0 ↔ fs = [] := by
  constructor
  · intro hzero
    by_contra hne
    exact absurd hzero (volume_pos_of_ne hne).ne'
  · rintro rfl
    rfl

/-- With the budget and the signal known, the agreement is about two prices and a volume. -/
theorem entryAgrees_iff_signal {all : List Fill} {before : List (SignalRecord ℚ)}
    {ctx : MarketContext} {budget : MarketBudget} {signal : SignalRecord ℚ}
    (hstate : ctx.strategy.state = .inPosition)
    (hbudget : ctx.engine.accountMgr.getBudget ctx.engine.market = some budget)
    (hentered : ctx.strategy.EnteredAt signal.price)
    (hsignals : ctx.db.map (·.signals) = some (before ++ [signal])) (hbuy : signal.side = .buy) :
    EntryAgrees all before ctx ↔
      signal.price = budget.avgEntryPrice ∧
        signal.price = (totals all).funds / (totals all).volume ∧
        signal.volume = (totals all).volume := by
  constructor
  · rintro ⟨-, budget', signal', hbudget', hentered', hsignals', -, hprice', hvolume'⟩
    obtain rfl := Option.some.inj (hbudget.symm.trans hbudget')
    obtain rfl : signal' = signal := by
      have hlists := Option.some.inj (hsignals'.symm.trans hsignals)
      exact List.singleton_inj.mp (List.append_cancel_left hlists)
    exact ⟨Option.some.inj (hentered.1.symm.trans hentered'.1), hprice', hvolume'⟩
  · rintro ⟨hsame, hprice', hvolume'⟩
    rw [hsame] at hentered
    exact ⟨hstate, budget, signal, hbudget, hentered, hsignals, hbuy, hprice', hvolume'⟩

/-- What the strategy was told is the whole order exactly when all fills were reported, or none. -/
theorem told_iff {as : List Arrival} {rest : List Fill} (hfills : fills as ++ rest ≠ [])
    {price volume : ℚ}
    (hprice : price = if 0 < (amountsOf (reported as)).1
      then (amountsOf (reported as)).2 / (amountsOf (reported as)).1
      else (totals (fills as ++ rest)).funds / (totals (fills as ++ rest)).volume)
    (hvolume : volume = if 0 < (amountsOf (reported as)).1 then (amountsOf (reported as)).1
      else (totals (fills as ++ rest)).volume) (avg : ℚ) :
    (price = avg ∧
        price = (totals (fills as ++ rest)).funds / (totals (fills as ++ rest)).volume ∧
        volume = (totals (fills as ++ rest)).volume) ↔
      (reported as = [] ∨ found as ++ rest = []) ∧
        avg = (totals (fills as ++ rest)).funds / (totals (fills as ++ rest)).volume := by
  have hpos := volume_pos_of_ne hfills
  have hsplit := totals_reported_found as rest
  rw [hprice, hvolume]
  -- Without a report the order's totals are used; with one, only what was reported.
  by_cases hreported : reported as = []
  · have hzero : ¬ 0 < (amountsOf (reported as)).1 := by
      rw [hreported]
      exact lt_irrefl 0
    simp only [if_neg hzero, and_true]
    rw [and_iff_right (.inl hreported)]
    exact eq_comm
  · have hsome : 0 < (amountsOf (reported as)).1 := volume_pos_of_ne hreported
    simp only [if_pos hsome]
    rw [or_iff_right hreported]
    rw [hsplit] at hpos ⊢
    constructor
    · rintro ⟨hsame, hfair, hall⟩
      have hrest : (totals (found as ++ rest)).volume = 0 := by
        have hvol : (totals (reported as)).volume =
            (totals (reported as)).volume + (totals (found as ++ rest)).volume := hall
        linarith
      exact ⟨(volume_zero_iff _).mp hrest, hsame.symm.trans hfair⟩
    · rintro ⟨hnone, havg'⟩
      rw [hnone, totals_nil, Totals.add_zero] at havg' ⊢
      exact ⟨havg'.symm, rfl, rfl⟩

/-- **The entry price of strategy and ledger.** A buy is accepted for a strategy that waits for it,
    on a market without coin; its fills come by trade messages or are found by recoveries, and its
    end finds the rest. Then the strategy's entry price is the ledger's average price, and its
    signal says what the order's totals say, exactly when all fills were reported or none was, and
    the chunks that the reservation pays for have the mean price of all chunks. -/
theorem entryAgrees_iff (cfg : AppConfig ℚ) (ctx : MarketContext) {req : OrderRequest ℚ}
    {uuid : String} {b : MarketBudget} {db : Database} (as : List Arrival) (rest : List Fill)
    (ending : Ending) (nowMs : Int) (h : ctx.engine.SingleOrder)
    (hb : ctx.engine.accountMgr.getBudget ctx.engine.market = some b) (hcoin : b.coinBalance = 0)
    (hside : req.position = .bid) (hid : req.identifier ≠ "")
    (hwait : ctx.strategy.AwaitsEntry req.identifier 0)
    (hquiet : ∀ ev ∈ ctx.engine.events, ev.identifier ≠ req.identifier) (hdb : ctx.db = some db)
    (hne : uuid ≠ "") (hok : (ctx.engine.submitReply cfg req (.ok uuid)).1.success = true)
    (hfresh : ctx.engine.Unseen (tradeUuids as)) (hfills : fills as ++ rest ≠ []) :
    EntryAgrees (fills as ++ rest) db.signals (concluded cfg ctx req uuid as rest ending nowMs) ↔
      (reported as = [] ∨ found as ++ rest = []) ∧
        MarketEngine.meanPrice (MarketEngine.bookedChunks .bid
          (MarketEngine.computeReserveAmount cfg req) (chunks as rest)) =
            MarketEngine.meanPrice (chunks as rest) := by
  -- The order up to its end.
  obtain ⟨hstart, hseen⟩ :=
    underway_submit cfg ctx h hb hside hid hwait hquiet hdb hne hok
  have hfresh' : (ctx.accepted cfg req uuid).engine.Unseen (tradeUuids as) := by
    refine ⟨hfresh.1, fun u hu => ?_⟩
    rw [hseen]
    exact hfresh.2 u hu
  rw [← totals_nil] at hstart
  have hplayed := hstart.play cfg hid hne hfresh'
  rw [List.nil_append, List.nil_append, zero_add] at hplayed
  -- Its end.
  have hpos := volume_pos_of_ne hfills
  have hproper := proper_totals (fills as ++ rest)
  have hfunds := hproper.funds_pos hpos
  obtain ⟨s, hs, hterm, hrec⟩ := reconciled_finish cfg
    (play cfg ⟨uuid, ctx.engine.market, .bid⟩ req.identifier [] (ctx.accepted cfg req uuid) as)
    (r := ⟨uuid, ctx.engine.market, .bid⟩) hne (fills as ++ rest) ending
  have hs' := hs
  rw [totals_append] at hs'
  obtain ⟨e, hsettled, -, hevents, heq⟩ := hplayed.reconcile cfg hs'
  obtain ⟨⟨ev, hclose, hevid, hevterm, heffect, hevvol, hevfunds⟩, b', hb', hholding⟩ :=
    hsettled.close cfg hid rfl hs hterm hpos
  have htold : 0 < (amountsOf (reported as)).1 → 0 < (amountsOf (reported as)).2 :=
    (proper_totals (reported as)).funds_pos
  obtain ⟨hengine, hentered, hstate, signal, hsignals, hbuy, hprice, hvolume⟩ :=
    hsettled.confirm (by rw [hrec.engine, heq]; exact hclose) hrec.strategy hrec.signals hevid
      hevterm heffect (hevvol ▸ hpos) (hevfunds ▸ hfunds) htold nowMs
  rw [hevvol, hevfunds] at hentered hprice
  rw [hevvol] at hvolume
  -- The ledger's average price.
  obtain ⟨hsumvol, hsumfunds⟩ := chunks_sum as rest
  have hmean : MarketEngine.meanPrice (chunks as rest) =
      (totals (fills as ++ rest)).funds / (totals (fills as ++ rest)).volume := by
    rw [MarketEngine.meanPrice, hsumvol, hsumfunds]
  have hchunks : chunks as rest ≠ [] := by
    intro hnone
    rw [hnone] at hsumvol
    exact absurd hsumvol.symm hpos.ne'
  have hcoin' : (MarketEngine.openedBudget cfg req b).coinBalance = 0 := by
    simp only [MarketEngine.openedBudget, hside, MarketBudget.hold]
    exact hcoin
  have havg : b'.avgEntryPrice = MarketEngine.meanPrice (MarketEngine.bookedChunks .bid
      (MarketEngine.computeReserveAmount cfg req) (chunks as rest)) :=
    (congrArg Holding.mean hholding).trans (MarketEngine.avgEntryPrice_chunkBudget hcoin'
      (MarketEngine.reserve_pos hok hside) hchunks hsettled.costs)
  have hbudget : (concluded cfg ctx req uuid as rest ending nowMs).engine.accountMgr.getBudget
      (concluded cfg ctx req uuid as rest ending nowMs).engine.market = some b' := by
    have hdone : (concluded cfg ctx req uuid as rest ending nowMs).engine = _ := hengine
    rw [hdone, hrec.engine, heq]
    exact hb'
  rw [hmean, ← havg]
  have hentered' : (concluded cfg ctx req uuid as rest ending nowMs).strategy.EnteredAt
      signal.price := by
    rw [hprice]
    exact hentered
  have hagrees : EntryAgrees (fills as ++ rest) db.signals
      (concluded cfg ctx req uuid as rest ending nowMs) ↔ _ :=
    entryAgrees_iff_signal hstate hbudget hentered' hsignals hbuy
  rw [hagrees]
  exact told_iff hfills hprice hvolume b'.avgEntryPrice

/-- The context of `idleContext` with a database, after it has decided to buy. -/
def waitingContext : MarketContext :=
  { MarketContext.idleContext with
    strategy :=
      { MarketContext.idleContext.strategy with
        state := .pendingEntry
        pendingClientId := some "buy" }
    db := some {} }

theorem entryAgrees_iff_reported :
    EntryAgrees [twoCoins, twoCoins] []
        (concluded (AppConfig.standard ℚ) waitingContext MarketEngine.buyRequest "u1"
          [.trade twoCoins "t1" true plainDto, .events 0, .trade twoCoins "t2" false plainDto] []
          (.message .done plainDto) 0) ↔
      (reported [.trade twoCoins "t1" true plainDto, .events 0,
          .trade twoCoins "t2" false plainDto] = [] ∨ ([] : List Fill) = []) ∧
        MarketEngine.meanPrice (MarketEngine.bookedChunks .bid
          (MarketEngine.computeReserveAmount (AppConfig.standard ℚ) MarketEngine.buyRequest)
          (chunks [.trade twoCoins "t1" true plainDto, .events 0,
            .trade twoCoins "t2" false plainDto] [])) =
          MarketEngine.meanPrice (chunks [.trade twoCoins "t1" true plainDto, .events 0,
            .trade twoCoins "t2" false plainDto] []) :=
  entryAgrees_iff (AppConfig.standard ℚ) waitingContext
    [.trade twoCoins "t1" true plainDto, .events 0, .trade twoCoins "t2" false plainDto]
    [] (.message .done plainDto) 0
    MarketEngine.singleOrder_idleEngine rfl rfl rfl (by decide) ⟨rfl, rfl, rfl⟩
    (fun ev hev => absurd hev List.not_mem_nil) rfl (by decide) (by decide +kernel)
    ⟨by decide, by decide⟩ (List.cons_ne_nil _ _)

/-- One coin at 1200 KRW. -/
def dearCoin : Fill := ⟨1200, 1, 0, by norm_num, by norm_num, by norm_num⟩

/-- Two coins at 1000 KRW are reported, and one at 1200 is found at the end: the strategy enters
    at 1000, the ledger at 3200 for three. -/
theorem not_entryAgrees :
    ¬ EntryAgrees [twoCoins, dearCoin] []
      (concluded (AppConfig.standard ℚ) waitingContext MarketEngine.buyRequest "u1"
        [.trade twoCoins "t1" true plainDto] [dearCoin] (.message .done plainDto) 0) := by
  rintro ⟨-, budget, signal, hbudget, hentered, -⟩
  have hprice : some budget.avgEntryPrice = some (1000 : ℚ) := hentered.1.symm.trans (by decide +kernel)
  have hledger : some budget.avgEntryPrice = some (3200 / 3 : ℚ) := by
    rw [← Option.map_some, ← hbudget]
    decide +kernel
  exact absurd (hprice.symm.trans hledger) (by decide +kernel)

end Entry
end CoinBot
