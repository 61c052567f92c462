import CoinBot.App.OrderMessages
import CoinBot.Engine.Following
import CoinBot.Engine.Terminal

/- One order, settled over two channels.

   The exchange executes the order fill by fill and puts a message about each fill in
   the market's queue. The worker takes the messages in order, and recovery asks the
   exchange for the totals at any time. A recovery that settles fills whose messages
   are still queued settles them twice: the trades come later and are new to the
   engine. Away from that, what is settled never exceeds what the exchange has
   executed (`settled_le_executed`). -/
namespace CoinBot

/-- The context of the market, what the exchange has done with the order, and the messages on
    their way. -/
structure Channels where
  ctx : MarketContext
  fills : List Fill := []
  ended : Option Closing := none
  queue : List UpbitMyOrderDto := []

inductive Move where
  /-- The exchange executes a fill, and reports it. -/
  | fill (f : Fill) (tradeUuid : String) (base : UpbitMyOrderDto)
  /-- It reports the order without a fill. -/
  | notice (watched : Bool) (base : UpbitMyOrderDto)
  /-- It closes the order, and reports that. -/
  | close (c : Closing) (base : UpbitMyOrderDto)
  /-- The worker takes a message from the queue. -/
  | pop
  /-- A recovery runs. `base` has what the exchange says of the order beside its totals and
      status; none when the queries fail. -/
  | recover (base : Option Order)

namespace Channels

variable (cfg : AppConfig ℚ) (r : OrderRef)

/-- The true snapshot of the order. -/
def snapshot (w : Channels) (base : Order) : Order :=
  r.answer (totals w.fills) (w.ended.elim .open_ Closing.status) base

/-- The exchange during a recovery: it knows this order only. -/
def restApi (w : Channels) (base : Option Order) : OrderApi Unit where
  postOrder _ s := (.error { code := .unknown, message := "" }, s)
  getOrder uuid s :=
    match base with
    | some base =>
      if uuid = r.uuid then (.ok (w.snapshot r base), s)
      else (.error { code := .badStatus, message := "" }, s)
    | none => (.error { code := .timeout, message := "" }, s)
  getMyAccount s := (.error { code := .timeout, message := "" }, s)

def step (w : Channels) : Move → Channels
  | .fill f tradeUuid base =>
    if w.ended.isSome then w
    else
      { w with
        fills := w.fills ++ [f]
        queue := w.queue ++
          [r.tradeMessage (totals (w.fills ++ [f])) f (some tradeUuid) base] }
  | .notice watched base =>
    if w.ended.isSome then w
    else { w with queue := w.queue ++ [r.noticeMessage (totals w.fills) watched base] }
  | .close c base =>
    if w.ended.isSome then w
    else
      { w with
        ended := some c
        queue := w.queue ++ [r.closeMessage (totals w.fills) c base] }
  | .pop =>
    match w.queue with
    | [] => w
    | d :: queue =>
      { w with
        ctx := w.ctx.handleMyOrder_ cfg (MarketContext.parseMyOrder cfg (some d))
        queue := queue }
  | .recover base => { w with ctx := (w.ctx.runRecovery_ cfg (w.restApi r base) ()).1 }

/-- The messages in the queue, for an order of which the fills `fs` were taken from it before and
    which has the fills `all`. Nothing follows a closing message. -/
def Queued (closed : Bool) : List Fill → List UpbitMyOrderDto → List Fill → Prop
  | fs, [], all => fs = all
  | fs, d :: queue, all =>
    (∃ f tradeUuid base, d = r.tradeMessage (totals (fs ++ [f])) f (some tradeUuid) base ∧
      Queued closed (fs ++ [f]) queue all) ∨
    (∃ watched base, d = r.noticeMessage (totals fs) watched base ∧ Queued closed fs queue all) ∨
    (∃ c base, d = r.closeMessage (totals fs) c base ∧ queue = [] ∧ closed = true ∧ fs = all)

/-- The volume settled for the order is within what the exchange has executed. `start` is what
    was booked before the order. -/
def NotOverSettled (start : Volume) (w : Channels) : Prop :=
  w.ctx.engine.accountMgr.bookedVolume r.market r.side - start ≤ (totals w.fills).volume

instance (start : Volume) (w : Channels) : Decidable (NotOverSettled r start w) :=
  inferInstanceAs (Decidable (_ ≤ _))

/-- The order has left the store, or it is a buy whose reservation the fills that are not stored
    yet use up. -/
def NothingToBook (e : MarketEngine) (fills : List Fill) : Prop :=
  ∀ o, e.store.get r.uuid = some o →
    r.side = .bid ∧ e.left ≤ (totals fills - o.totals).cost

/-- A recovery settles no fill whose message can be settled later: its queries fail, the order is
    closed at the exchange, no trade is queued, or there is nothing to book. -/
def NoOverlap (w : Channels) : Move → Prop
  | .recover base =>
    base = none ∨ w.ended.isSome ∨ (∀ d ∈ w.queue, d.state ≠ "trade") ∨
      NothingToBook r w.ctx.engine w.fills
  | _ => True

variable {r} {closed : Bool} {fs all : List Fill} {queue : List UpbitMyOrderDto}

/-! The queue. -/

theorem Queued.isPrefix (h : Queued r closed fs queue all) : fs <+: all := by
  induction queue generalizing fs with
  | nil => exact h ▸ List.prefix_rfl
  | cons d queue ih =>
    rcases h with ⟨f, tradeUuid, base, -, hrest⟩ | ⟨watched, base, -, hrest⟩ |
      ⟨c, base, -, -, -, hall⟩
    · exact (List.prefix_append fs [f]).trans (ih hrest)
    · exact ih hrest
    · exact hall ▸ List.prefix_rfl

theorem Queued.eq_of_plain (h : Queued r closed fs queue all)
    (hplain : ∀ d ∈ queue, d.state ≠ "trade") : fs = all := by
  induction queue generalizing fs with
  | nil => exact h
  | cons d queue ih =>
    rcases h with ⟨f, tradeUuid, base, hd, -⟩ | ⟨watched, base, -, hrest⟩ |
      ⟨c, base, -, -, -, hall⟩
    · exact absurd (hd ▸ rfl) (hplain d List.mem_cons_self)
    · exact ih hrest (fun d' hd' => hplain d' (List.mem_cons_of_mem d hd'))
    · exact hall

/-- The exchange reports more: the queue of an open order grows at its end. -/
theorem Queued.append {closed' : Bool} {tail : List UpbitMyOrderDto} {all' : List Fill}
    (h : Queued r false fs queue all) (htail : Queued r closed' all tail all') :
    Queued r closed' fs (queue ++ tail) all' := by
  induction queue generalizing fs with
  | nil => exact h ▸ htail
  | cons d queue ih =>
    rcases h with ⟨f, tradeUuid, base, hd, hrest⟩ | ⟨watched, base, hd, hrest⟩ |
      ⟨c, base, -, -, hopen, -⟩
    · exact .inl ⟨f, tradeUuid, base, hd, ih hrest⟩
    · exact .inr (.inl ⟨watched, base, hd, ih hrest⟩)
    · cases hopen

/-! The engine while the first fills `fs` of `fills` were taken from the queue. -/

/-- The order has left the store; or its stored totals are those of some of the fills, and either
    these are the fills taken, with no more booked, or nothing can be booked any more. -/
structure Accounted (r : OrderRef) (start : Volume) (fs fills : List Fill) (e : MarketEngine) :
    Prop where
  market : e.market = r.market
  booked_le : e.accountMgr.bookedVolume r.market r.side ≤ start + (totals fills).volume
  mode : e.store.get r.uuid = none ∨
    ∃ b gs, gs <+: fills ∧ e.Following r.uuid r.side (totals gs) b ∧
      (gs = fs ∧ e.accountMgr.bookedVolume r.market r.side ≤ start + (totals fs).volume ∨
        ¬ e.CanBook r.side)

variable {cfg : AppConfig ℚ} {start : Volume} {fills : List Fill} {e : MarketEngine}

theorem volume_le_of_prefix {fs gs : List Fill} (h : fs <+: gs) :
    (totals fs).volume ≤ (totals gs).volume := by
  obtain ⟨rest, rfl⟩ := h
  rw [totals_append]
  exact le_add_of_nonneg_right (proper_totals rest).volume_nonneg

theorem Accounted.mono {fills' : List Fill} (h : Accounted r start fs fills e)
    (hmore : fills <+: fills') : Accounted r start fs fills' e := by
  have hle := volume_le_of_prefix hmore
  refine ⟨h.market, by linarith [h.booked_le], ?_⟩
  rcases h.mode with hgone | ⟨b, gs, hgs, hfollow, hkeep⟩
  · exact .inl hgone
  · exact .inr ⟨b, gs, hgs.trans hmore, hfollow, hkeep⟩

theorem Accounted.absent (cfg : AppConfig ℚ) (h : Accounted r start fs fills e)
    (hgone : e.store.get r.uuid = none) (msg : Message) (hmsg : msg.orderUuid = r.uuid)
    (fs' : List Fill) :
    Accounted r start fs' fills (e.deliver cfg msg) := by
  obtain ⟨seen, fifo, heq⟩ := MarketEngine.deliver_absent cfg hgone hmsg
  rw [heq]
  exact ⟨h.market, h.booked_le, .inl hgone⟩

theorem Accounted.snapshot {fs' : List Fill} {s : Order} {b : MarketBudget} {x : Totals}
    (hm : e.market = r.market) (hfollow : e.Following r.uuid r.side x b)
    (hle : e.accountMgr.bookedVolume r.market r.side ≤ start + (totals fills).volume)
    (hkeep : e.accountMgr.bookedVolume r.market r.side ≤ start + (totals fs').volume ∨
      ¬ e.CanBook r.side)
    (hfs : fs' <+: fills) (hs : s.Reports r.uuid r.market r.side (totals fs'))
    (hopen : s.status.isTerminal = false) :
    Accounted r start fs' fills (e.onOrderSnapshot cfg s) := by
  rw [← hm] at hs
  obtain ⟨store, heq, hfollow'⟩ := hfollow.snapshot cfg hs hopen
  rw [heq]
  exact ⟨hm, hle, .inr ⟨b, fs', hfs, hfollow', hkeep.imp_left (fun hbooked => ⟨rfl, hbooked⟩)⟩⟩

theorem accounted_trade {f : Fill} {t : MyTrade} {s : Order} (h : Accounted r start fs fills e)
    (hfs : fs ++ [f] <+: fills) (ht : t.Reports r.uuid r.market r.side f)
    (hs : s.Reports r.uuid r.market r.side (totals (fs ++ [f])))
    (hopen : s.status.isTerminal = false) :
    Accounted r start (fs ++ [f]) fills ((e.onMyTrade cfg t).onOrderSnapshot cfg s) := by
  rcases h.mode with hgone | ⟨b, gs, -, hfollow, hkeep⟩
  · have htrade := h.absent cfg hgone (.trade t) ht.orderUuid_eq fs
    have hgone' : (e.onMyTrade cfg t).store.get r.uuid = none := by
      rw [(MarketEngine.onMyTrade_frame cfg e t).2.1]
      exact hgone
    exact htrade.absent cfg hgone' (.snapshot s) hs.id_eq (fs ++ [f])
  · rw [← h.market] at ht
    obtain ⟨⟨b', hfollow'⟩, hbooked, hspent⟩ := hfollow.onMyTrade cfg ht
    rw [h.market] at hbooked
    have hm : (e.onMyTrade cfg t).market = r.market :=
      (MarketEngine.onMyTrade_frame cfg e t).1.trans h.market
    have hvol : (totals (fs ++ [f])).volume = (totals fs).volume + f.volume := by
      rw [totals_append, totals_cons, totals_nil, Totals.add_zero]
      rfl
    have hle := volume_le_of_prefix hfs
    have hcap : (if e.CanBook r.side then f.volume else 0) ≤ f.volume := by
      split
      · exact le_rfl
      · exact f.volume_pos.le
    rcases hkeep with ⟨-, hbooked'⟩ | hnot
    · have hnew : (e.onMyTrade cfg t).accountMgr.bookedVolume r.market r.side ≤
          start + (totals (fs ++ [f])).volume := by linarith
      exact Accounted.snapshot hm hfollow' (by linarith) (.inl hnew) hfs hs hopen
    · rw [if_neg hnot, add_zero] at hbooked
      exact Accounted.snapshot hm hfollow' (hbooked.trans h.booked_le) (.inr (hspent hnot)) hfs hs
        hopen

theorem accounted_notice {s : Order} (h : Accounted r start fs fills e) (hfs : fs <+: fills)
    (hs : s.Reports r.uuid r.market r.side (totals fs)) (hopen : s.status.isTerminal = false) :
    Accounted r start fs fills (e.onOrderSnapshot cfg s) := by
  rcases h.mode with hgone | ⟨b, gs, -, hfollow, hkeep⟩
  · exact h.absent cfg hgone (.snapshot s) hs.id_eq fs
  · exact Accounted.snapshot h.market hfollow h.booked_le (hkeep.imp_left (·.2)) hfs hs hopen

/-- A reconciliation with the true totals. What it settles stays within them; and no fill is left
    to be settled twice when it closes the order, when all the fills were taken, or when there is
    nothing to book. This holds again afterwards. -/
theorem accounted_reconcile {s : Order} (h : Accounted r start fs fills e)
    (hs : s.Reports r.uuid r.market r.side (totals fills))
    (hsafe : s.status.isTerminal = true ∨ fs = fills ∨ NothingToBook r e fills) :
    Accounted r start fs fills (e.reconcileFromSnapshot cfg s).2 ∧
      (s.status.isTerminal = true ∨ fs = fills ∨
        NothingToBook r (e.reconcileFromSnapshot cfg s).2 fills) := by
  rcases h.mode with hgone | ⟨b, gs, ⟨rest, hrest⟩, hfollow, hkeep⟩
  · refine ⟨h.absent cfg hgone (.reconcile s) hs.id_eq fs, .inr (.inr (fun o hget => ?_))⟩
    obtain ⟨seen, fifo, heq⟩ : e.SameButSeen (e.deliver cfg (.reconcile s)) :=
      MarketEngine.deliver_absent cfg hgone hs.id_eq
    have hstore : (e.reconcileFromSnapshot cfg s).2.store = e.store := congrArg (·.store) heq
    rw [hstore, hgone] at hget
    cases hget
  · have hsum : totals fills = totals gs + totals rest := by rw [← hrest, totals_append]
    have hs' := hs
    rw [← h.market, hsum] at hs'
    rw [hfollow.reconcile cfg hs' (proper_totals rest)]
    obtain ⟨⟨b', hfollow'⟩, hm, hbooked, hleft⟩ := hfollow.settleRest (proper_totals rest)
    rw [h.market] at hm hbooked
    generalize hset : (if 0 < (totals rest).volume then e.settleChunk r.uuid r.side (totals rest)
      else e) = settled at hfollow' hm hbooked hleft ⊢
    have hvol : (totals fills).volume = (totals gs).volume + (totals rest).volume := by
      rw [hsum]
      rfl
    have hle : settled.accountMgr.bookedVolume r.market r.side ≤
        start + (totals fills).volume := by
      rcases hkeep with ⟨rfl, hbooked'⟩ | hnot
      · have hcap : (if e.CanBook r.side then (totals rest).volume else 0) ≤
            (totals rest).volume := by
          split
          · exact le_rfl
          · exact (proper_totals rest).volume_nonneg
        linarith
      · rw [if_neg hnot, add_zero] at hbooked
        exact hbooked.le.trans h.booked_le
    -- Nothing can be booked after the chunk, when the token had no more than its cost left.
    have hspent : r.side = .bid → e.left ≤ (totals rest).cost → ¬ settled.CanBook r.side := by
      intro hside hcost hcan
      have hpos := hcan hside
      rw [hleft hside, max_eq_left (sub_nonpos.mpr hcost)] at hpos
      exact lt_irrefl 0 hpos
    by_cases hclosed : s.status.isTerminal = true
    · have hgone := hfollow'.gone cfg (show s.Reports r.uuid settled.market r.side (totals fills)
        from hm.symm ▸ hs) hclosed
      refine ⟨⟨?_, ?_, .inl hgone⟩, .inl hclosed⟩
      · rw [MarketEngine.market_onOrderSnapshot]
        exact hm
      · rw [AccountManager.bookedVolume_congr (MarketEngine.fills_onOrderSnapshot cfg settled s)]
        exact hle
    · have hopen : s.status.isTerminal = false := by simpa using hclosed
      have hmode : fs = fills ∨ ¬ settled.CanBook r.side := by
        rcases hsafe with hclose | hall | hnothing
        · exact absurd hclose hclosed
        · exact .inl hall
        · obtain ⟨o, hget, htot, -⟩ := hfollow.stored
          obtain ⟨hside, hcost⟩ := hnothing o hget
          rw [htot, hsum, Totals.add_sub_cancel_left] at hcost
          exact .inr (hspent hside hcost)
      rw [← hm] at hs
      obtain ⟨store, heq, hstored⟩ := hfollow'.snapshot cfg hs hopen
      rw [heq]
      refine ⟨⟨hm, hle, .inr ⟨b', fills, List.prefix_rfl, hstored, ?_⟩⟩, .inr ?_⟩
      · rcases hmode with hall | hnot
        · exact .inl ⟨hall.symm, hall ▸ hle⟩
        · exact .inr hnot
      · rcases hmode with hall | hnot
        · exact .inl hall
        · refine .inr (fun o hget => ?_)
          obtain ⟨o', hget', htot, -⟩ := hstored.stored
          obtain rfl := Option.some.inj (hget'.symm.trans hget)
          obtain ⟨hside, hzero⟩ := Classical.not_imp.mp hnot
          refine ⟨hside, (not_lt.mp hzero).trans ?_⟩
          rw [htot, Totals.sub_self, Totals.cost_zero]

/-! The moves. -/

/-- What holds of the engine before a recovery, and is kept by a reconciliation with the true
    snapshot, holds after the recovery. -/
theorem runRecovery_induct {P : MarketEngine → Prop} {w : Channels} {base : Option Order}
    (hP : ∀ e base', base = some base' → P e →
      P (e.reconcileFromSnapshot cfg (w.snapshot r base')).2)
    (ctx : MarketContext) (h : P ctx.engine) :
    P (ctx.runRecovery_ cfg (w.restApi r base) ()).1.engine := by
  -- A recovery reconciles the order of this channel, if it is asked for and answered.
  have horder : ∀ (ctx : MarketContext) (uuid : String), P ctx.engine →
      P (MarketContext.recoverOrder cfg (w.restApi r base) (ctx, ()) uuid).1.engine := by
    intro ctx uuid hctx
    unfold MarketContext.recoverOrder
    by_cases hempty : uuid = ""
    · simp only [if_pos hempty]
      exact hctx
    · simp only [if_neg hempty]
      cases hbase : base with
      | none => exact hctx
      | some base' =>
        by_cases hown : uuid = r.uuid
        · have hquery : MarketContext.queryOrderWithRetry_ (w.restApi r (some base')) uuid 3 () =
              (some (w.snapshot r base'), ()) := by
            simp [MarketContext.queryOrderWithRetry_, restApi, hown]
          simp only [hquery]
          have hrec := hP ctx.engine base' hbase hctx
          split
          · exact hrec
          · exact hrec
        · have hquery : MarketContext.queryOrderWithRetry_ (w.restApi r (some base')) uuid 3 () =
              (none, ()) := by
            simp [MarketContext.queryOrderWithRetry_, restApi, hown]
          simp only [hquery]
          exact hctx
  unfold MarketContext.runRecovery_
  simp only
  split
  · exact h
  · exact horder _ _ (horder _ _ h)

/-- The messages in the queue are those the engine is still to take, and it is accounted for what
    it took. -/
def Holds (r : OrderRef) (start : Volume) (w : Channels) : Prop :=
  ∃ fs, Queued r w.ended.isSome fs w.queue w.fills ∧ Accounted r start fs w.fills w.ctx.engine

theorem Holds.report {w : Channels} (h : Holds r start w) (hopen : ¬ w.ended.isSome = true)
    {fills' : List Fill} {ended' : Option Closing} {d : UpbitMyOrderDto}
    (hmore : w.fills <+: fills') (hd : Queued r ended'.isSome w.fills [d] fills') :
    Holds r start { w with fills := fills', ended := ended', queue := w.queue ++ [d] } := by
  obtain ⟨fs, hqueue, hacc⟩ := h
  rw [Bool.not_eq_true] at hopen
  rw [hopen] at hqueue
  exact ⟨fs, hqueue.append hd, hacc.mono hmore⟩

theorem holds_pop (cfg : AppConfig ℚ) {w : Channels} (h : Holds r start w) :
    Holds r start (step cfg r w .pop) := by
  obtain ⟨fs, hqueue, hacc⟩ := h
  cases hq : w.queue with
  | nil =>
    have hsame : step cfg r w .pop = w := by simp only [step, hq]
    rw [hsame]
    exact ⟨fs, hqueue, hacc⟩
  | cons d queue =>
    have hpop : step cfg r w .pop =
        { w with
          ctx := w.ctx.handleMyOrder_ cfg (MyOrderMapper.toEvents cfg d)
          queue := queue } := by
      simp only [step, hq]
      rfl
    rw [hq] at hqueue
    rw [hpop]
    have hprefix := hqueue.isPrefix
    -- The message in front is a trade, a notice or the end of the order.
    rcases hqueue with ⟨f, tradeUuid, base, rfl, hrest⟩ | ⟨watched, base, rfl, hrest⟩ |
      ⟨c, base, rfl, hlast, hclosed, hall⟩
    · refine ⟨fs ++ [f], hrest, ?_⟩
      rw [w.ctx.handleMyOrder_trade cfg (u := tradeUuid) rfl rfl]
      exact accounted_trade hacc hrest.isPrefix (r.reports_toTrade _ base cfg f _ tradeUuid)
        (r.reports_tradeMessage _ base f _) (r.open_tradeMessage _ base f _)
    · refine ⟨fs, hrest, ?_⟩
      have hopen := r.open_noticeMessage (totals fs) base watched
      rw [w.ctx.handleMyOrder_open cfg (.inl (r.state_noticeMessage _ base watched)) hopen]
      exact accounted_notice hacc hprefix (r.reports_noticeMessage _ base watched) hopen
    · refine ⟨fs, by rw [hlast]; exact hall, ?_⟩
      have hterm := r.closed_closeMessage (totals fs) base c
      have hreports := r.reports_closeMessage (totals fs) base c
      rw [hall] at hreports hterm ⊢
      rw [(w.ctx.reconciled_close cfg hterm).engine]
      rw [hall] at hacc
      exact (accounted_reconcile hacc hreports (.inl hterm)).1

theorem holds_recover (cfg : AppConfig ℚ) {w : Channels} (base : Option Order)
    (h : Holds r start w) (hsafe : NoOverlap r w (.recover base)) :
    Holds r start (step cfg r w (.recover base)) := by
  obtain ⟨fs, hqueue, hacc⟩ := h
  cases base with
  | none =>
    refine ⟨fs, hqueue, ?_⟩
    exact runRecovery_induct (P := fun e => Accounted r start fs w.fills e)
      (fun _ base' hbase => absurd hbase (by simp)) w.ctx hacc
  | some base =>
    refine ⟨fs, hqueue, ?_⟩
    have hready : (w.snapshot r base).status.isTerminal = true ∨ fs = w.fills ∨
        NothingToBook r w.ctx.engine w.fills := by
      rcases hsafe with hnone | hended | hplain | hnothing
      · cases hnone
      · obtain ⟨c, hc⟩ := Option.isSome_iff_exists.mp hended
        refine .inl ?_
        show (w.ended.elim OrderStatus.open_ Closing.status).isTerminal = true
        rw [hc]
        exact isTerminal_status c
      · exact .inr (.inl (hqueue.eq_of_plain hplain))
      · exact .inr (.inr hnothing)
    refine (runRecovery_induct (P := fun e => Accounted r start fs w.fills e ∧
      ((w.snapshot r base).status.isTerminal = true ∨ fs = w.fills ∨
        NothingToBook r e w.fills)) ?_ w.ctx ⟨hacc, hready⟩).1
    intro e base' hbase he
    obtain rfl := Option.some.inj hbase
    exact accounted_reconcile he.1 (r.reports_answer _ _ base) he.2

theorem holds_step (cfg : AppConfig ℚ) (w : Channels) (move : Move) (h : Holds r start w)
    (hsafe : NoOverlap r w move) : Holds r start (step cfg r w move) := by
  cases move with
  | fill f tradeUuid base =>
    by_cases hended : w.ended.isSome = true
    · simp only [step, if_pos hended]
      exact h
    · simp only [step, if_neg hended]
      exact h.report hended (List.prefix_append _ _) (.inl ⟨f, tradeUuid, base, rfl, rfl⟩)
  | notice watched base =>
    by_cases hended : w.ended.isSome = true
    · simp only [step, if_pos hended]
      exact h
    · simp only [step, if_neg hended]
      exact h.report hended List.prefix_rfl (.inr (.inl ⟨watched, base, rfl, rfl⟩))
  | close c base =>
    by_cases hended : w.ended.isSome = true
    · simp only [step, if_pos hended]
      exact h
    · simp only [step, if_neg hended]
      exact h.report hended List.prefix_rfl (.inr (.inr ⟨c, base, rfl, rfl, rfl, rfl⟩))
  | pop => exact holds_pop cfg h
  | recover base => exact holds_recover cfg base h hsafe

/-- The order has just been submitted, in the context `ctx`. -/
def submitted (cfg : AppConfig ℚ) (ctx : MarketContext) (req : OrderRequest ℚ) (uuid : String) :
    Channels :=
  { ctx := ctx.accepted cfg req uuid }

/-- **What is settled is within what was executed.** An order is submitted on an engine with a
    single order at most; then the exchange fills it, the worker takes its messages and recovery
    runs, in any order. As long as no recovery overlaps a queued trade, the volume settled for the
    order never exceeds the volume executed. -/
theorem settled_le_executed (cfg : AppConfig ℚ) (ctx : MarketContext) (req : OrderRequest ℚ)
    {uuid : String} {b : MarketBudget} (moves : List Move) (h : ctx.engine.SingleOrder)
    (hb : ctx.engine.accountMgr.getBudget ctx.engine.market = some b) (hne : uuid ≠ "")
    (hok : (ctx.engine.submitReply cfg req (.ok uuid)).1.success = true)
    (hsafe : Machine.Guarded (step cfg ⟨uuid, ctx.engine.market, req.position⟩)
      (NoOverlap ⟨uuid, ctx.engine.market, req.position⟩) (submitted cfg ctx req uuid) moves) :
    Machine.Always (step cfg ⟨uuid, ctx.engine.market, req.position⟩)
      (NotOverSettled ⟨uuid, ctx.engine.market, req.position⟩
        (ctx.engine.accountMgr.bookedVolume ctx.engine.market req.position))
      (submitted cfg ctx req uuid) moves := by
  obtain ⟨hsettled, hmkt, -⟩ := MarketEngine.hasSettled_submit cfg h hb hne hok
  have hstart : Holds ⟨uuid, ctx.engine.market, req.position⟩
      (ctx.engine.accountMgr.bookedVolume ctx.engine.market req.position)
      (submitted cfg ctx req uuid) := by
    have hbooked : (ctx.engine.submitReply cfg req (.ok uuid)).2.accountMgr.bookedVolume
        ctx.engine.market req.position ≤
        ctx.engine.accountMgr.bookedVolume ctx.engine.market req.position +
          (totals []).volume := by
      rw [totals_nil, Totals.volume_zero, add_zero, AccountManager.bookedVolume_congr
        (MarketEngine.fills_submitReply hok)]
    exact ⟨[], rfl, hmkt, hbooked,
      .inr ⟨_, [], List.prefix_rfl, hsettled.following, .inl ⟨rfl, hbooked⟩⟩⟩
  refine (Machine.always_of_guarded (fun w move => holds_step cfg w move) hstart hsafe).mono ?_
  intro w hw
  obtain ⟨fs, -, hacc⟩ := hw
  have hle := hacc.booked_le
  show _ - _ ≤ _
  linarith

/-- A plain REST answer. -/
def plainAnswer : Order :=
  snapshotOf "" "" .bid 0 .open_

/-- A fill whose recovery fails, and one that is recovered after the trade was taken. -/
theorem settled_le_executed_buy :
    Machine.Always (step (AppConfig.standard ℚ) ⟨"u1", "KRW-BTC", .bid⟩)
      (NotOverSettled ⟨"u1", "KRW-BTC", .bid⟩ 0)
      (submitted (AppConfig.standard ℚ) MarketContext.idleContext MarketEngine.buyRequest "u1")
      [.fill twoCoins "t1" plainDto, .recover none, .pop, .recover (some plainAnswer),
       .fill twoCoins "t2" plainDto, .close .done plainDto, .recover (some plainAnswer), .pop] :=
  settled_le_executed (AppConfig.standard ℚ) MarketContext.idleContext MarketEngine.buyRequest
    _ MarketEngine.singleOrder_idleEngine rfl (by decide) (by decide +kernel)
    ⟨trivial, .inl rfl, trivial, .inr (.inr (.inl (by decide +kernel))), trivial, trivial,
      .inr (.inl rfl), trivial, trivial⟩

/-- A recovery while the trade of the fill is queued: the fill is settled twice. -/
theorem not_settled_le_executed :
    ¬ Machine.Always (step (AppConfig.standard ℚ) ⟨"u1", "KRW-BTC", .bid⟩)
      (NotOverSettled ⟨"u1", "KRW-BTC", .bid⟩ 0)
      (submitted (AppConfig.standard ℚ) MarketContext.idleContext MarketEngine.buyRequest "u1")
      [.fill twoCoins "t1" plainDto, .recover (some plainAnswer), .pop] := by
  intro h
  have hlast := h.last
  revert hlast
  decide +kernel

end Channels
end CoinBot
