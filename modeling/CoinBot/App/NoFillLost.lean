import CoinBot.App.OrderMessages
import CoinBot.Engine.Following

/- What a gap in the message stream loses.

   Every message of an order carries its totals, and the engine stores them, settled or
   not; only a trade message with a trade uuid settles its fill. The terminal message
   settles what it has over the stored totals. So the fills up to the last message that
   was delivered are settled exactly where their own messages were delivered, and a
   trade message that was lost before it, or had no trade uuid, is a fill lost
   (`noFillLost_iff`). -/
namespace CoinBot

inductive Report where
  | trade (f : Fill) (tradeUuid : Option String)
  | notice (watched : Bool)

/-- A message of the stream of an order, and whether it is delivered. -/
structure FeedItem where
  report : Report
  base : UpbitMyOrderDto
  delivered : Bool

namespace FeedItem

def fills (m : FeedItem) : List Fill :=
  match m.report with
  | .trade f _ => [f]
  | .notice _ => []

/-- The trade uuid of a delivered trade message, if it has one. -/
def tradeUuids (m : FeedItem) : List String :=
  match m.report, m.delivered with
  | .trade _ (some tradeUuid), true => [tradeUuid]
  | _, _ => []

/-- The fill that the message settles: it is delivered, and names its trade. -/
def settles (m : FeedItem) : List Fill :=
  match m.report, m.delivered with
  | .trade f (some _), true => [f]
  | _, _ => []

/-- The message, after the fills `fs`. -/
def message (r : OrderRef) (fs : List Fill) (m : FeedItem) : UpbitMyOrderDto :=
  match m.report with
  | .trade f tradeUuid => r.tradeMessage (totals (fs ++ [f])) f tradeUuid m.base
  | .notice watched => r.noticeMessage (totals fs) watched m.base

end FeedItem

namespace Feed

def fills (ms : List FeedItem) : List Fill := ms.flatMap FeedItem.fills

def tradeUuids (ms : List FeedItem) : List String := ms.flatMap FeedItem.tradeUuids

/-- The fills whose messages settle them. -/
def settled (ms : List FeedItem) : List Fill := ms.flatMap FeedItem.settles

def anyDelivered (ms : List FeedItem) : Bool := ms.any (·.delivered)

/-- The fills up to the last message that is delivered. -/
def reported : List FeedItem → List Fill
  | [] => []
  | m :: ms => if anyDelivered (m :: ms) then m.fills ++ reported ms else []

/-- The fills after it. -/
def unreported : List FeedItem → List Fill
  | [] => []
  | m :: ms => if anyDelivered (m :: ms) then unreported ms else m.fills ++ unreported ms

/-- What is settled, chunk by chunk: each fill whose message settles it, and the fills after the
    last delivered message together. -/
def chunks (ms : List FeedItem) : List Totals :=
  (settled ms).map Fill.totals ++
    if unreported ms = [] then [] else [totals (unreported ms)]

/-- A trade whose message does not settle it is followed by no delivered message, and is not
    delivered itself. -/
def NoGap : List FeedItem → Prop
  | [] => True
  | m :: ms => (m.settles = m.fills ∨ anyDelivered (m :: ms) = false) ∧ NoGap ms

/-- The messages that are delivered, handled in order. -/
def play (cfg : AppConfig ℚ) (r : OrderRef) :
    List Fill → MarketContext → List FeedItem → MarketContext
  | _, ctx, [] => ctx
  | fs, ctx, m :: ms =>
    play cfg r (fs ++ m.fills)
      (if m.delivered then
        ctx.handleMyOrder_ cfg (MarketContext.parseMyOrder cfg (some (m.message r fs)))
      else ctx) ms

variable {ms : List FeedItem} {m : FeedItem}

/-! The parts of a stream. -/

theorem anyDelivered_cons (m : FeedItem) (ms : List FeedItem) :
    anyDelivered (m :: ms) = (m.delivered || anyDelivered ms) := rfl

theorem anyDelivered_tail (h : anyDelivered (m :: ms) = false) : anyDelivered ms = false := by
  rw [anyDelivered_cons, Bool.or_eq_false_iff] at h
  exact h.2

theorem reported_of_none (h : anyDelivered ms = false) : reported ms = [] := by
  cases ms with
  | nil => rfl
  | cons m ms => simp [reported, h]

theorem settles_of_lost (h : m.delivered = false) : m.settles = [] := by
  unfold FeedItem.settles
  rw [h]
  split
  · next heq => cases heq
  · rfl

theorem settled_of_none (h : anyDelivered ms = false) : settled ms = [] := by
  induction ms with
  | nil => rfl
  | cons m ms ih =>
    have hm : m.delivered = false := by
      rw [anyDelivered_cons, Bool.or_eq_false_iff] at h
      exact h.1
    show m.settles ++ settled ms = []
    rw [settles_of_lost hm, ih (anyDelivered_tail h)]
    rfl

theorem noGap_of_none (h : anyDelivered ms = false) : NoGap ms := by
  induction ms with
  | nil => trivial
  | cons m ms ih => exact ⟨.inr h, ih (anyDelivered_tail h)⟩

theorem reported_append_unreported (ms : List FeedItem) :
    reported ms ++ unreported ms = fills ms := by
  induction ms with
  | nil => rfl
  | cons m ms ih =>
    show _ = m.fills ++ fills ms
    by_cases hany : anyDelivered (m :: ms) = true
    · rw [reported, unreported, if_pos hany, if_pos hany, List.append_assoc, ih]
    · have hnone : anyDelivered ms = false := anyDelivered_tail (by simpa using hany)
      rw [reported, unreported, if_neg hany, if_neg hany, List.nil_append, ← ih,
        reported_of_none hnone, List.nil_append]

/-- A message settles its fill, or has none, or leaves its fill unsettled. -/
theorem settles_cases (m : FeedItem) :
    m.settles = m.fills ∨ (m.settles = [] ∧ ∃ f, m.fills = [f]) := by
  unfold FeedItem.settles FeedItem.fills
  cases m.report with
  | notice watched => exact .inl rfl
  | trade f tradeUuid =>
    cases tradeUuid with
    | none => exact .inr ⟨rfl, f, rfl⟩
    | some tradeUuid =>
      cases m.delivered with
      | true => exact .inl rfl
      | false => exact .inr ⟨rfl, f, rfl⟩

theorem volume_append (fs gs : List Fill) :
    (totals (fs ++ gs)).volume = (totals fs).volume + (totals gs).volume := by
  rw [totals_append]
  rfl

/-- No more than the fills up to the last delivered message is settled by messages, and all of it
    exactly when there is no gap. -/
theorem settled_volume (ms : List FeedItem) :
    (totals (settled ms)).volume ≤ (totals (reported ms)).volume ∧
      ((totals (settled ms)).volume = (totals (reported ms)).volume ↔ NoGap ms) := by
  induction ms with
  | nil => exact ⟨le_rfl, iff_of_true rfl trivial⟩
  | cons m ms ih =>
    obtain ⟨hle, hiff⟩ := ih
    cases hany : anyDelivered (m :: ms) with
    | false =>
      rw [settled_of_none hany, reported_of_none hany]
      exact ⟨le_rfl, iff_of_true rfl (noGap_of_none hany)⟩
    | true =>
      have hset : settled (m :: ms) = m.settles ++ settled ms := rfl
      have hrep : reported (m :: ms) = m.fills ++ reported ms := by
        rw [reported, if_pos hany]
      rw [hset, hrep, volume_append, volume_append]
      -- A fill that its own message does not settle leaves a gap that no later message closes.
      rcases settles_cases m with hown | ⟨hnone, f, hf⟩
      · rw [hown]
        refine ⟨by linarith, ?_⟩
        rw [add_right_inj, hiff]
        exact ⟨fun h => ⟨.inl hown, h⟩, fun h => h.2⟩
      · rw [hnone, hf]
        have hpos : 0 < (totals [f]).volume := by
          rw [totals_cons, totals_nil, Totals.add_zero]
          exact f.volume_pos
        rw [totals_nil, Totals.volume_zero]
        refine ⟨by linarith, iff_of_false (by linarith) (fun h => ?_)⟩
        rcases h.1 with hown | hlost
        · rw [hnone, hf] at hown
          cases hown
        · rw [hany] at hlost
          cases hlost

/-! The engine along a stream. -/

variable {cfg : AppConfig ℚ} {r : OrderRef} {start : Volume} {left : Amount} {b : MarketBudget}
  {ds : List Totals}

theorem cost_nonneg_settled (ms : List FeedItem) :
    ∀ d ∈ (settled ms).map Fill.totals, 0 ≤ d.cost := by
  intro d hd
  obtain ⟨f, -, rfl⟩ := List.mem_map.mp hd
  exact f.proper.cost_nonneg

/-- A delivered message stores the totals it reports and settles its fill if it names the trade. -/
theorem hasSettled_message (cfg : AppConfig ℚ) {ctx : MarketContext} (fs : List Fill) {x : Totals}
    (hm : ctx.engine.market = r.market)
    (h : ctx.engine.HasSettled r.uuid r.side x start left b ds) (hds : ∀ d ∈ ds, 0 ≤ d.cost)
    (hdel : m.delivered = true) (hfresh : ctx.engine.Unseen m.tradeUuids) :
    let next := ctx.handleMyOrder_ cfg (MarketContext.parseMyOrder cfg (some (m.message r fs)))
    next.engine.HasSettled r.uuid r.side (totals (fs ++ m.fills)) start left b
        (ds ++ m.settles.map Fill.totals) ∧
      next.engine.market = r.market ∧
      ∀ u ∈ next.engine.seenTradeUuids, u ∈ ctx.engine.seenTradeUuids ∨ u ∈ m.tradeUuids := by
  intro next
  obtain ⟨report, base, delivered⟩ := m
  cases report with
  | trade f tradeUuid =>
    have hs := r.reports_tradeMessage (totals (fs ++ [f])) base f tradeUuid
    have hopen := r.open_tradeMessage (totals (fs ++ [f])) base f tradeUuid
    cases tradeUuid with
    | none =>
      -- Without a trade uuid the totals are stored and nothing is settled.
      have hnext : next = { ctx with
          engine := ctx.engine.onOrderSnapshot cfg
            (MyOrderMapper.toOrder (r.tradeMessage (totals (fs ++ [f])) f none base)) } :=
        ctx.handleMyOrder_open cfg (.inr rfl) hopen
      rw [← hm] at hs
      obtain ⟨store, heq, hstored⟩ := h.snapshot cfg hs hopen
      have hnone : FeedItem.settles ⟨.trade f none, base, delivered⟩ = [] := rfl
      rw [hnext, heq, hnone, List.map_nil, List.append_nil]
      exact ⟨hstored, hm, fun u hu => .inl hu⟩
    | some u =>
      have hown : FeedItem.tradeUuids ⟨.trade f (some u), base, delivered⟩ = [u] := by
        rw [show delivered = true from hdel]
        rfl
      have hset : FeedItem.settles ⟨.trade f (some u), base, delivered⟩ = [f] := by
        rw [show delivered = true from hdel]
        rfl
      rw [hown] at hfresh
      obtain ⟨hne, hnew⟩ := hfresh.2 u List.mem_cons_self
      have ht := r.reports_toTrade (totals (fs ++ [f])) base cfg f (some u) u
      have hnext : next = { ctx with
          engine := (ctx.engine.onMyTrade cfg (MyOrderMapper.toTrade cfg
            (r.tradeMessage (totals (fs ++ [f])) f (some u) base) u)).onOrderSnapshot cfg
            (MyOrderMapper.toOrder (r.tradeMessage (totals (fs ++ [f])) f (some u) base)) } :=
        ctx.handleMyOrder_trade cfg (d := r.tradeMessage (totals (fs ++ [f])) f (some u) base)
          rfl rfl
      rw [← hm] at ht
      obtain ⟨htrade, hmkt, hseen⟩ := h.onMyTrade_new cfg hds ht hne hnew
      rw [← hm, ← hmkt] at hs
      obtain ⟨store, heq, hstored⟩ := htrade.snapshot cfg hs hopen
      rw [hnext, heq, hset, hown]
      refine ⟨hstored, hmkt.trans hm, fun v hv => ?_⟩
      rcases Finset.mem_insert.mp (hseen hv) with hv | hv
      · exact .inr (hv ▸ List.mem_cons_self)
      · exact .inl hv
  | notice watched =>
    have hs := r.reports_noticeMessage (totals fs) base watched
    have hopen := r.open_noticeMessage (totals fs) base watched
    have hnext : next = { ctx with
        engine := ctx.engine.onOrderSnapshot cfg
          (MyOrderMapper.toOrder (r.noticeMessage (totals fs) watched base)) } :=
      ctx.handleMyOrder_open cfg (.inl (r.state_noticeMessage (totals fs) base watched)) hopen
    rw [← hm] at hs
    obtain ⟨store, heq, hstored⟩ := h.snapshot cfg hs hopen
    have hnone : FeedItem.settles ⟨.notice watched, base, delivered⟩ = [] := rfl
    have hfills : FeedItem.fills ⟨.notice watched, base, delivered⟩ = [] := rfl
    rw [hnext, heq, hnone, hfills, List.map_nil, List.append_nil, List.append_nil]
    exact ⟨hstored, hm, fun u hu => .inl hu⟩

/-- After a stream the stored totals are those of the last delivered message, and what was settled
    is what the messages settle. `fs` are the fills before the stream, `rep` those reported. -/
theorem hasSettled_play (cfg : AppConfig ℚ) {ctx : MarketContext} (fs : List Fill) {rep : List Fill}
    (hm : ctx.engine.market = r.market)
    (h : ctx.engine.HasSettled r.uuid r.side (totals rep) start left b ds)
    (hds : ∀ d ∈ ds, 0 ≤ d.cost) (hfresh : ctx.engine.Unseen (tradeUuids ms)) :
    (play cfg r fs ctx ms).engine.HasSettled r.uuid r.side
        (totals (if anyDelivered ms then fs ++ reported ms else rep)) start left b
        (ds ++ (settled ms).map Fill.totals) ∧
      (play cfg r fs ctx ms).engine.market = r.market := by
  induction ms generalizing ctx fs rep ds with
  | nil =>
    rw [show ds ++ (settled []).map Fill.totals = ds from List.append_nil ds]
    exact ⟨h, hm⟩
  | cons m ms ih =>
    have huuids : tradeUuids (m :: ms) = m.tradeUuids ++ tradeUuids ms := rfl
    rw [huuids] at hfresh
    have hsettled : ds ++ (settled (m :: ms)).map Fill.totals =
        ds ++ m.settles.map Fill.totals ++ (settled ms).map Fill.totals := by
      rw [List.append_assoc, ← List.map_append]
      rfl
    rw [hsettled, anyDelivered_cons]
    cases hdel : m.delivered with
    | true =>
      have hown : ctx.engine.Unseen m.tradeUuids :=
        ⟨(List.nodup_append.mp hfresh.1).1, fun u hu => hfresh.2 u (List.mem_append_left _ hu)⟩
      obtain ⟨hnext, hmkt, hseen⟩ := hasSettled_message cfg fs hm h hds hdel hown
      have hcost : ∀ d ∈ ds ++ m.settles.map Fill.totals, 0 ≤ d.cost := by
        intro d hd
        rcases List.mem_append.mp hd with hd | hd
        · exact hds d hd
        · obtain ⟨f, -, rfl⟩ := List.mem_map.mp hd
          exact f.proper.cost_nonneg
      -- A lost message changes nothing; the next delivered one stores its fills with its own.
      obtain ⟨hlast, hmkt'⟩ := ih (fs ++ m.fills) hmkt hnext hcost (hfresh.tail hseen)
      have htotals : (if anyDelivered ms then fs ++ m.fills ++ reported ms else fs ++ m.fills) =
          fs ++ reported (m :: ms) := by
        rw [reported, anyDelivered_cons, hdel, Bool.true_or, if_pos rfl]
        cases hany : anyDelivered ms with
        | true => exact List.append_assoc fs m.fills (reported ms)
        | false =>
          simp only [reported_of_none hany, List.append_nil, ite_self]
      rw [htotals] at hlast
      simp only [play, hdel, Bool.true_or, if_true]
      exact ⟨hlast, hmkt'⟩
    | false =>
      obtain ⟨hlast, hmkt'⟩ := ih (fs ++ m.fills) hm h hds (hfresh.tail (fun u hu => .inl hu))
      have htotals : (if anyDelivered ms then fs ++ m.fills ++ reported ms else rep) =
          if anyDelivered ms then fs ++ reported (m :: ms) else rep := by
        cases hany : anyDelivered ms with
        | true =>
          rw [reported, anyDelivered_cons, hany, Bool.or_true, if_pos rfl]
          exact List.append_assoc fs m.fills (reported ms)
        | false => rfl
      rw [htotals] at hlast
      simp only [play, hdel, settles_of_lost hdel, List.map_nil, List.append_nil, Bool.false_or]
      exact ⟨hlast, hmkt'⟩

/-! The chunks of a whole order. -/

theorem map_volume_sum (fs : List Fill) :
    ((fs.map Fill.totals).map (·.volume)).sum = (totals fs).volume := by
  rw [List.map_map]
  rfl

/-- The chunks have a positive volume, and their volume is that of the fills settled by messages
    and of the unreported ones. -/
theorem chunks_volume (ms : List FeedItem) :
    (∀ d ∈ chunks ms, 0 < d.volume ∧ 0 ≤ d.cost) ∧
      ((chunks ms).map (·.volume)).sum =
        (totals (settled ms)).volume + (totals (unreported ms)).volume := by
  have hsettled : ∀ d ∈ (settled ms).map Fill.totals, 0 < d.volume ∧ 0 ≤ d.cost := by
    intro d hd
    obtain ⟨f, -, rfl⟩ := List.mem_map.mp hd
    exact ⟨f.volume_pos, f.proper.cost_nonneg⟩
  unfold chunks
  cases hrest : unreported ms with
  | nil =>
    rw [if_pos rfl, List.append_nil, map_volume_sum, totals_nil, Totals.volume_zero, add_zero]
    exact ⟨hsettled, rfl⟩
  | cons f fs =>
    rw [if_neg (List.cons_ne_nil f fs), List.map_append, List.sum_append, map_volume_sum]
    refine ⟨fun d hd => ?_, by simp⟩
    rcases List.mem_append.mp hd with hd | hd
    · exact hsettled d hd
    · obtain rfl := List.mem_singleton.mp hd
      refine ⟨?_, (proper_totals _).cost_nonneg⟩
      rw [totals_cons]
      exact add_pos_of_pos_of_nonneg f.volume_pos (proper_totals fs).volume_nonneg

/-- The reconciliation with the terminal snapshot settles the unreported fills as one chunk. -/
theorem hasSettled_chunks {e : MarketEngine} {uuid : String} {side : OrderPosition} {x : Totals}
    (h : e.HasSettled uuid side x start left b ((settled ms).map Fill.totals)) :
    MarketEngine.HasSettled
      (if 0 < (totals (unreported ms)).volume then
        e.settleChunk uuid side (totals (unreported ms)) else e)
      uuid side x start left b (chunks ms) := by
  unfold chunks
  cases hrest : unreported ms with
  | nil =>
    rw [if_pos rfl, List.append_nil, totals_nil, Totals.volume_zero, if_neg (lt_irrefl 0)]
    exact h
  | cons f fs =>
    have hpos : 0 < (totals (f :: fs)).volume := by
      rw [totals_cons]
      exact add_pos_of_pos_of_nonneg f.volume_pos (proper_totals fs).volume_nonneg
    rw [if_neg (List.cons_ne_nil f fs), if_pos hpos]
    exact h.settleChunk (cost_nonneg_settled ms) (proper_totals _) hpos

theorem hasSettled_stream (cfg : AppConfig ℚ) {ctx : MarketContext} {req : OrderRequest ℚ} {uuid : String}
    {b : MarketBudget} (h : ctx.engine.SingleOrder)
    (hb : ctx.engine.accountMgr.getBudget ctx.engine.market = some b) (hne : uuid ≠ "")
    (hok : (ctx.engine.submitReply cfg req (.ok uuid)).1.success = true)
    (hfresh : ctx.engine.Unseen (tradeUuids ms)) :
    let last := play cfg ⟨uuid, ctx.engine.market, req.position⟩ [] (ctx.accepted cfg req uuid) ms
    last.engine.HasSettled uuid req.position (totals (reported ms))
        (ctx.engine.accountMgr.bookedVolume ctx.engine.market req.position)
        (MarketEngine.computeReserveAmount cfg req) (MarketEngine.openedBudget cfg req b)
        ((settled ms).map Fill.totals) ∧
      last.engine.market = ctx.engine.market := by
  intro last
  obtain ⟨hstart, hmkt, hseen⟩ := MarketEngine.hasSettled_submit cfg h hb hne hok
  have hfresh' : (ctx.accepted cfg req uuid).engine.Unseen (tradeUuids ms) := by
    refine ⟨hfresh.1, fun u hu => ?_⟩
    show u ≠ "" ∧ u ∉ (ctx.engine.submitReply cfg req (.ok uuid)).2.seenTradeUuids
    rw [hseen]
    exact hfresh.2 u hu
  rw [← totals_nil] at hstart
  have hmkt₀ : (ctx.accepted cfg req uuid).engine.market = ctx.engine.market := hmkt
  obtain ⟨hlast, hmkt'⟩ := hasSettled_play (r := ⟨uuid, ctx.engine.market, req.position⟩) cfg []
    hmkt₀ hstart (fun _ hd => absurd hd List.not_mem_nil) hfresh'
  have hreported : (if anyDelivered ms then [] ++ reported ms else []) = reported ms := by
    cases hany : anyDelivered ms with
    | true => rfl
    | false => rw [reported_of_none hany, if_neg Bool.false_ne_true]
  rw [hreported, List.nil_append] at hlast
  exact ⟨hlast, hmkt'⟩

/-- The terminal message is reconciled, and books what there is to book of the chunks. -/
theorem booked_terminal (cfg : AppConfig ℚ) {ctx : MarketContext} {r : OrderRef}
    (hlast : ctx.engine.HasSettled r.uuid r.side (totals (reported ms)) start left b
      ((settled ms).map Fill.totals)) (hm : ctx.engine.market = r.market) (c : Closing)
    (base : UpbitMyOrderDto) :
    let d := r.closeMessage (totals (fills ms)) c base
    (ctx.engine.reconcileFromSnapshot cfg (MyOrderMapper.toOrder d)).1 = true ∧
      (ctx.handleMyOrder_ cfg (MarketContext.parseMyOrder cfg (some d))).engine.accountMgr.bookedVolume
          r.market r.side =
        start + ((MarketEngine.bookedChunks r.side left (chunks ms)).map (·.volume)).sum := by
  intro d
  have hsum : totals (fills ms) = totals (reported ms) + totals (unreported ms) := by
    rw [← reported_append_unreported, totals_append]
  have hs := r.reports_closeMessage (totals (fills ms)) base c
  have hterm := r.closed_closeMessage (totals (fills ms)) base c
  rw [hsum, ← hm] at hs
  have hrec := hlast.following.reconcile cfg hs (proper_totals (unreported ms))
  rw [← hsum] at hrec
  have hchunks := hasSettled_chunks hlast
  have hbooked := hchunks.booked
  have hmkt : MarketEngine.market (if 0 < (totals (unreported ms)).volume then
      ctx.engine.settleChunk r.uuid r.side (totals (unreported ms)) else ctx.engine) = r.market := by
    split
    · exact (MarketEngine.onlySettles_settleChunk _ _ _ _).market.trans hm
    · exact hm
  rw [hmkt] at hbooked
  have hhandle : (ctx.handleMyOrder_ cfg (MarketContext.parseMyOrder cfg (some d))).engine =
      (ctx.engine.reconcileFromSnapshot cfg (MyOrderMapper.toOrder d)).2 :=
    (ctx.reconciled_close cfg hterm).engine
  rw [hhandle, hrec]
  refine ⟨rfl, ?_⟩
  rw [← hbooked]
  exact AccountManager.bookedVolume_congr (MarketEngine.fills_onOrderSnapshot cfg _ _)

/-- When the terminal message is reconciled, all the fills are settled. -/
def NoFillLost (cfg : AppConfig ℚ) (ctx : MarketContext) (req : OrderRequest ℚ) (uuid : String)
    (ms : List FeedItem) (c : Closing) (base : UpbitMyOrderDto) : Prop :=
  let r : OrderRef := ⟨uuid, ctx.engine.market, req.position⟩
  let last := play cfg r [] (ctx.accepted cfg req uuid) ms
  let d := r.closeMessage (totals (fills ms)) c base
  (last.engine.reconcileFromSnapshot cfg (MyOrderMapper.toOrder d)).1 = true →
    (last.handleMyOrder_ cfg (MarketContext.parseMyOrder cfg (some d))).engine.accountMgr.bookedVolume
        r.market r.side - ctx.engine.accountMgr.bookedVolume r.market r.side =
      (totals (fills ms)).volume

/-- The executed volume that the store has for the order is the volume settled for it. -/
def StoredIsSettled (cfg : AppConfig ℚ) (ctx : MarketContext) (req : OrderRequest ℚ)
    (uuid : String) (ms : List FeedItem) : Prop :=
  let r : OrderRef := ⟨uuid, ctx.engine.market, req.position⟩
  let last := play cfg r [] (ctx.accepted cfg req uuid) ms
  ∃ o, last.engine.store.get uuid = some o ∧
    o.executedVolume = last.engine.accountMgr.bookedVolume r.market r.side -
      ctx.engine.accountMgr.bookedVolume r.market r.side

/-- **No fill is lost, exactly when the stream has no gap.** An order is submitted on an engine
    with a single order at most, and some of its true messages are delivered. Then the terminal
    message settles the rest of the fills, and all of them are settled, exactly when every trade
    up to the last delivered message was delivered with its trade uuid and, for a buy, the reserve
    covers the chunks. Before the terminal message the stored volume is the settled one under the
    same condition on what was delivered. -/
theorem noFillLost_iff (cfg : AppConfig ℚ) (ctx : MarketContext) (req : OrderRequest ℚ)
    {uuid : String} {b : MarketBudget} (ms : List FeedItem) (c : Closing) (base : UpbitMyOrderDto)
    (h : ctx.engine.SingleOrder)
    (hb : ctx.engine.accountMgr.getBudget ctx.engine.market = some b) (hne : uuid ≠ "")
    (hok : (ctx.engine.submitReply cfg req (.ok uuid)).1.success = true)
    (hfresh : ctx.engine.Unseen (tradeUuids ms)) :
    (NoFillLost cfg ctx req uuid ms c base ↔
      NoGap ms ∧ MarketEngine.Covers req.position (MarketEngine.computeReserveAmount cfg req)
        (chunks ms)) ∧
      (StoredIsSettled cfg ctx req uuid ms ↔
        NoGap ms ∧ MarketEngine.Covers req.position (MarketEngine.computeReserveAmount cfg req)
          ((settled ms).map Fill.totals)) := by
  have hleft : req.position = .bid → 0 < MarketEngine.computeReserveAmount cfg req :=
    MarketEngine.reserve_pos hok
  obtain ⟨hlast, hmkt⟩ := hasSettled_stream cfg h hb hne hok hfresh
  obtain ⟨hgap_le, hgap⟩ := settled_volume ms
  constructor
  · obtain ⟨hrec, hbooked⟩ := booked_terminal cfg
      (r := ⟨uuid, ctx.engine.market, req.position⟩) hlast hmkt c base
    obtain ⟨hpos, hvol⟩ := chunks_volume ms
    obtain ⟨hcover_le, hcover⟩ := MarketEngine.bookedChunks_volume hpos hleft
    have hall : (totals (fills ms)).volume =
        (totals (reported ms)).volume + (totals (unreported ms)).volume := by
      rw [← reported_append_unreported, volume_append]
    have hlost : NoFillLost cfg ctx req uuid ms c base ↔
        ((MarketEngine.bookedChunks req.position (MarketEngine.computeReserveAmount cfg req)
          (chunks ms)).map (·.volume)).sum = (totals (fills ms)).volume := by
      unfold NoFillLost
      simp only [hrec, hbooked, forall_const, add_sub_cancel_left]
    rw [hlost, ← hgap, ← hcover]
    -- What is booked is at most the chunks, and these at most the fills.
    constructor
    · intro heq
      exact ⟨by linarith, by linarith⟩
    · intro heq
      linarith [heq.1, heq.2]
  · obtain ⟨o, hget, htot, -⟩ := hlast.following.stored
    have hvolume : o.executedVolume = (totals (reported ms)).volume :=
      congrArg Totals.volume htot
    have hbooked := hlast.booked
    rw [hmkt] at hbooked
    have hpos : ∀ d ∈ (settled ms).map Fill.totals, 0 < d.volume ∧ 0 ≤ d.cost := by
      intro d hd
      obtain ⟨f, -, rfl⟩ := List.mem_map.mp hd
      exact ⟨f.volume_pos, f.proper.cost_nonneg⟩
    obtain ⟨hcover_le, hcover⟩ := MarketEngine.bookedChunks_volume hpos hleft
    rw [map_volume_sum] at hcover_le hcover
    have hstored : StoredIsSettled cfg ctx req uuid ms ↔
        (totals (reported ms)).volume =
          ((MarketEngine.bookedChunks req.position (MarketEngine.computeReserveAmount cfg req)
            ((settled ms).map Fill.totals)).map (·.volume)).sum := by
      unfold StoredIsSettled
      simp only [hget, Option.some.injEq, exists_eq_left', hvolume, hbooked, add_sub_cancel_left]
    rw [hstored, ← hgap, ← hcover]
    constructor
    · intro heq
      exact ⟨by linarith, by linarith⟩
    · intro heq
      linarith [heq.1, heq.2]

/-- Two fills, of which the first is delivered. -/
def endLost : List FeedItem :=
  [⟨.trade twoCoins (some "t1"), plainDto, true⟩, ⟨.notice false, plainDto, false⟩,
   ⟨.trade twoCoins (some "t2"), plainDto, false⟩]

theorem noFillLost_iff_endLost :
    (NoFillLost (AppConfig.standard ℚ) MarketContext.idleContext MarketEngine.buyRequest "u1" endLost
        .done plainDto ↔
      NoGap endLost ∧ MarketEngine.Covers .bid
        (MarketEngine.computeReserveAmount (AppConfig.standard ℚ) MarketEngine.buyRequest)
        (chunks endLost)) ∧
      (StoredIsSettled (AppConfig.standard ℚ) MarketContext.idleContext MarketEngine.buyRequest "u1"
          endLost ↔
        NoGap endLost ∧ MarketEngine.Covers .bid
          (MarketEngine.computeReserveAmount (AppConfig.standard ℚ) MarketEngine.buyRequest)
          ((settled endLost).map Fill.totals)) :=
  noFillLost_iff (AppConfig.standard ℚ) MarketContext.idleContext MarketEngine.buyRequest endLost
    .done plainDto MarketEngine.singleOrder_idleEngine rfl (by decide) (by decide +kernel)
    ⟨by decide, by decide⟩

/-- The first of two trades is lost and the second delivered: only the second is settled. -/
theorem not_noFillLost :
    ¬ NoFillLost (AppConfig.standard ℚ) MarketContext.idleContext MarketEngine.buyRequest "u1"
      [⟨.trade twoCoins (some "t1"), plainDto, false⟩,
       ⟨.trade twoCoins (some "t2"), plainDto, true⟩] .done plainDto := by
  unfold NoFillLost
  decide +kernel

end Feed
end CoinBot
