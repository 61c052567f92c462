import CoinBot.Engine.Execution
import CoinBot.Engine.SingleOrder

/- Settlement does not depend on the channel.

   The fills of an order reach the engine as trade messages, one by one, up to some
   point; the terminal snapshot brings the rest. Wherever the cut is, and whatever
   snapshots of the delivered part came in between, the market's budget ends the
   same: that of one settlement of all the fills (`budget_terminal`). -/
namespace CoinBot.MarketEngine

/-- What the engine is handed before the order ends: a trade message with the snapshot after it,
    or a REST snapshot. -/
inductive Delivery where
  | ws (f : Fill) (t : MyTrade) (s : Order)
  | rest (s : Order)

def Delivery.fills : Delivery → List Fill
  | .ws f _ _ => [f]
  | .rest _ => []

def Delivery.tradeUuids : Delivery → List String
  | .ws _ t _ => [t.tradeUuid]
  | .rest _ => []

/-- The fills that were delivered as trade messages. -/
def delivered (ds : List Delivery) : List Fill := ds.flatMap Delivery.fills

def handle (cfg : AppConfig ℚ) (e : MarketEngine) : Delivery → MarketEngine
  | .ws _ t s => (e.onMyTrade cfg t).onOrderSnapshot cfg s
  | .rest s => (e.reconcileFromSnapshot cfg s).2

/-- The reports are true: of the next fill, and of the totals of the fills delivered so far. -/
def Truthful (uuid market : String) (side : OrderPosition) : List Fill → List Delivery → Prop
  | _, [] => True
  | fs, .ws f t s :: ds =>
    t.Reports uuid market side f ∧ s.Reports uuid market side (totals (fs ++ [f])) ∧
      s.status.isTerminal = false ∧ Truthful uuid market side (fs ++ [f]) ds
  | fs, .rest s :: ds =>
    s.Reports uuid market side (totals fs) ∧ s.status.isTerminal = false ∧
      Truthful uuid market side fs ds

def FreshTrades (e : MarketEngine) (ds : List Delivery) : Prop :=
  e.Unseen (ds.flatMap Delivery.tradeUuids)

/-- The budget of a market once an order with totals `x` has ended: before a sell's dust is
    cleared, the holding and the KRW move by the totals. -/
def settledBudget (cfg : AccountConfig) (mark : Option Price) (side : OrderPosition) (x : Totals)
    (b : MarketBudget) : MarketBudget :=
  match side with
  | .bid =>
    { b with
      coinBalance := b.coinBalance + x.volume
      avgEntryPrice :=
        if 0 < b.coinBalance + x.volume then
          (b.coinBalance * b.avgEntryPrice + x.funds) / (b.coinBalance + x.volume)
        else b.avgEntryPrice
      availableKrw := b.availableKrw - (x.funds + x.fee) }
  | .ask =>
    ({ b with
      coinBalance := b.coinBalance - x.volume
      availableKrw := b.availableKrw + (x.funds - x.fee) } : MarketBudget).closeSell cfg mark

variable {cfg : AppConfig ℚ} {e : MarketEngine} {uuid : String} {side : OrderPosition}
  {b : MarketBudget}

/-! Chunks compose. -/

theorem booked_zero (side : OrderPosition) (b : MarketBudget) : booked side b 0 = b := by
  cases side with
  | bid =>
    show b.afterBuy 0 (Totals.cost 0) = b
    rw [Totals.cost_zero, b.afterBuy_zero]
  | ask => exact b.afterSell_zero

theorem booked_booked {x d : Totals} (hcoin : side = .bid → 0 ≤ b.coinBalance) (hx : x.Proper)
    (hd : 0 < d.volume) : booked side (booked side b x) d = booked side b (x + d) := by
  cases side with
  | bid =>
    simp only [booked, MarketBudget.afterBuy_afterBuy (hcoin rfl) hx hd, Totals.cost_add]
  | ask => exact b.afterSell_afterSell x d

theorem affords_booked {x d : Totals} (hside : Affords side b (x + d))
    (hsell : side = .ask → d.fee ≤ d.funds) : Affords side (booked side b x) d := by
  cases side with
  | bid =>
    have hcost : (x + d).cost ≤ b.reservedKrw := hside
    rw [Totals.cost_add] at hcost
    show d.cost ≤ b.reservedKrw - x.cost
    linarith
  | ask => exact hsell rfl

/-! One delivery. -/

theorem FreshTrades.tail {d : Delivery} {ds : List Delivery} (e' : MarketEngine)
    (h : e.FreshTrades (d :: ds))
    (hseen : ∀ u ∈ e'.seenTradeUuids, u ∈ e.seenTradeUuids ∨ u ∈ d.tradeUuids) :
    e'.FreshTrades ds := by
  unfold FreshTrades at h
  rw [List.flatMap_cons] at h
  exact Unseen.tail h hseen

/-- A trade message and its snapshot settle the fill and store the new totals. -/
theorem tracks_ws (cfg : AppConfig ℚ) {fs : List Fill} {f : Fill} {t : MyTrade} {s : Order}
    (h : e.Tracks uuid side (totals fs) (booked side b (totals fs)))
    (ht : t.Reports uuid e.market side f)
    (hs : s.Reports uuid e.market side (totals (fs ++ [f]))) (hopen : s.status.isTerminal = false)
    (hcoin : side = .bid → 0 ≤ b.coinBalance)
    (hafford : Affords side b (totals (fs ++ [f]))) (hfee : side = .ask → f.fee ≤ f.funds)
    (huuid : t.tradeUuid ≠ "") (hnew : t.tradeUuid ∉ e.seenTradeUuids) :
    (e.handle cfg (.ws f t s)).Tracks uuid side (totals (fs ++ [f]))
        (booked side b (totals (fs ++ [f]))) ∧
      (e.handle cfg (.ws f t s)).market = e.market ∧
      (e.handle cfg (.ws f t s)).lastMarkPrice = e.lastMarkPrice ∧
      (e.handle cfg (.ws f t s)).seenTradeUuids ⊆ insert t.tradeUuid e.seenTradeUuids := by
  obtain ⟨ord, hget, -, -⟩ := h.stored
  rw [← ht.orderUuid_eq] at hget
  obtain ⟨seen, fifo, hsub, htrade⟩ :=
    onMyTrade_new cfg ht.market_eq huuid hnew hget
  rw [settleTrade_reports ht] at htrade
  have hsum : totals (fs ++ [f]) = totals fs + f.totals := by
    rw [totals_append, totals_cons, totals_nil, Totals.add_zero]
  rw [hsum] at hafford hs ⊢
  have hobs := h.observe seen fifo (e.events ++ fillEvents t ord)
  have hchunk := hobs.settleChunk f.proper f.volume_pos (affords_booked hafford hfee)
  obtain ⟨hmkt, -, -, -, hseen, hmark⟩ := onlySettles_settleChunk
    { e with seenTradeUuids := seen, seenTradeUuidFifo := fifo,
             events := e.events ++ fillEvents t ord } uuid side f.totals
  rw [booked_booked hcoin (proper_totals fs) f.volume_pos, ← htrade] at hchunk
  rw [← htrade] at hmkt hseen hmark
  rw [← hmkt] at hs
  obtain ⟨store, heq, htracks⟩ := hchunk.snapshot cfg hs hopen
  rw [handle, heq]
  exact ⟨htracks, hmkt, hmark, hseen ▸ hsub⟩

/-- A REST snapshot of what was delivered changes nothing that counts. -/
theorem tracks_rest (cfg : AppConfig ℚ) {fs : List Fill} {s : Order} {b' : MarketBudget}
    (h : e.Tracks uuid side (totals fs) b') (hs : s.Reports uuid e.market side (totals fs))
    (hopen : s.status.isTerminal = false) :
    (e.handle cfg (.rest s)).Tracks uuid side (totals fs) b' ∧
      (e.handle cfg (.rest s)).market = e.market ∧
      (e.handle cfg (.rest s)).lastMarkPrice = e.lastMarkPrice ∧
      (e.handle cfg (.rest s)).seenTradeUuids = e.seenTradeUuids := by
  obtain ⟨prev, hget, htot, -⟩ := h.stored
  rw [← hs.id_eq] at hget
  have hdelta : e.settleDelta prev s = some e := by
    have hzero := settleDelta_eq (e := e) (proper_totals [])
      (show s.totals = prev.totals + totals [] by
        rw [hs.totals_eq, htot, totals_nil, Totals.add_zero])
      (by rw [hs.position_eq, hs.id_eq]; exact h.active)
      (fun hside => by
        obtain ⟨t, htok, -⟩ := h.token (hs.position_eq ▸ hside)
        rw [htok]; rfl)
    rw [hzero, if_neg (show ¬ 0 < (totals []).volume from lt_irrefl 0)]
  obtain ⟨store, heq, htracks⟩ := h.snapshot cfg hs hopen
  have hcall : e.handle cfg (.rest s) = { e with store := store } := by
    rw [handle, reconcileFromSnapshot_settled (forMarket_reports hs) hget hdelta, heq]
  rw [hcall]
  exact ⟨htracks, rfl, rfl, rfl⟩

/-! All deliveries. -/

theorem affords_front {fs gs : List Fill} (h : Affords side b (totals (fs ++ gs)))
    (hfees : side = .ask → ∀ f ∈ fs, f.fee ≤ f.funds) : Affords side b (totals fs) := by
  cases side with
  | bid =>
    have hcost : (totals (fs ++ gs)).cost ≤ b.reservedKrw := h
    rw [totals_append, Totals.cost_add] at hcost
    have hrest := (proper_totals gs).cost_nonneg
    show (totals fs).cost ≤ b.reservedKrw
    linarith
  | ask => exact fee_le_funds_totals (hfees rfl)

theorem tracks_run (cfg : AppConfig ℚ) {fs : List Fill} {ds : List Delivery}
    (h : e.Tracks uuid side (totals fs) (booked side b (totals fs)))
    (hds : Truthful uuid e.market side fs ds) (hcoin : side = .bid → 0 ≤ b.coinBalance)
    (hafford : Affords side b (totals (fs ++ delivered ds)))
    (hfees : side = .ask → ∀ f ∈ fs ++ delivered ds, f.fee ≤ f.funds) (hfresh : e.FreshTrades ds) :
    (Machine.run (handle cfg) e ds).Tracks uuid side (totals (fs ++ delivered ds))
        (booked side b (totals (fs ++ delivered ds))) ∧
      (Machine.run (handle cfg) e ds).market = e.market ∧
      (Machine.run (handle cfg) e ds).lastMarkPrice = e.lastMarkPrice := by
  induction ds generalizing e fs with
  | nil =>
    rw [delivered, List.flatMap_nil, List.append_nil]
    exact ⟨h, rfl, rfl⟩
  | cons d ds ih =>
    cases d with
    | ws f t s =>
      obtain ⟨ht, hs, hopen, hrest⟩ := hds
      have hsplit : fs ++ delivered (.ws f t s :: ds) = fs ++ [f] ++ delivered ds := by
        rw [List.append_assoc]
        rfl
      rw [hsplit] at hafford hfees ⊢
      have hfees' : side = .ask → ∀ g ∈ fs ++ [f], g.fee ≤ g.funds :=
        fun hside g hg => hfees hside g (List.mem_append_left _ hg)
      obtain ⟨hne, hnew⟩ := hfresh.2 t.tradeUuid (by simp [Delivery.tradeUuids])
      obtain ⟨htracks, hmkt, hmark, hseen⟩ := tracks_ws cfg h ht hs hopen hcoin
        (affords_front hafford hfees')
        (fun hside => hfees' hside f (List.mem_append_right fs List.mem_cons_self)) hne hnew
      rw [← hmkt] at hrest
      have hfresh' := hfresh.tail (e.handle cfg (.ws f t s)) (fun u hu => by
        rcases Finset.mem_insert.mp (hseen hu) with rfl | hold
        · exact .inr List.mem_cons_self
        · exact .inl hold)
      obtain ⟨hrun, hmkt', hmark'⟩ := ih htracks hrest hafford hfees hfresh'
      exact ⟨hrun, hmkt'.trans hmkt, hmark'.trans hmark⟩
    | rest s =>
      obtain ⟨hs, hopen, hrest⟩ := hds
      have hsplit : fs ++ delivered (.rest s :: ds) = fs ++ delivered ds := rfl
      rw [hsplit] at hafford hfees ⊢
      obtain ⟨htracks, hmkt, hmark, hseen⟩ := tracks_rest cfg h hs hopen
      rw [← hmkt] at hrest
      have hfresh' := hfresh.tail (e.handle cfg (.rest s))
        (fun u hu => .inl (hseen ▸ hu))
      obtain ⟨hrun, hmkt', hmark'⟩ := ih htracks hrest hafford hfees hfresh'
      exact ⟨hrun, hmkt'.trans hmkt, hmark'.trans hmark⟩

/-! The terminal snapshot. -/

theorem Tracks.settleDelta {x d : Totals} {s : Order} (h : e.Tracks uuid side x b) (hd : d.Proper)
    (hs : s.Reports uuid e.market side (x + d)) (hafford : Affords side b d) :
    ∃ prev e', e.store.get s.id = some prev ∧ e.settleDelta prev s = some e' ∧
      e'.Tracks uuid side x (booked side b d) ∧ e'.market = e.market ∧
      e'.lastMarkPrice = e.lastMarkPrice := by
  obtain ⟨prev, hget, htot, -⟩ := h.stored
  rw [← hs.id_eq] at hget
  have hdelta := settleDelta_eq (e := e) hd
    (show s.totals = prev.totals + d by rw [hs.totals_eq, htot])
    (by rw [hs.position_eq, hs.id_eq]; exact h.active)
    (fun hside => by
      obtain ⟨t, htok, -⟩ := h.token (hs.position_eq ▸ hside)
      rw [htok]; rfl)
  rw [hs.id_eq, hs.position_eq] at hdelta
  by_cases hpos : 0 < d.volume
  · rw [if_pos hpos] at hdelta
    obtain ⟨hmkt, -, -, -, -, hmark⟩ := onlySettles_settleChunk e uuid side d
    exact ⟨prev, _, hget, hdelta, h.settleChunk hd hpos hafford, hmkt, hmark⟩
  · rw [if_neg hpos] at hdelta
    refine ⟨prev, e, hget, hdelta, ?_, rfl, rfl⟩
    rw [hd.eq_zero hpos, booked_zero]
    exact h

/-- The budget of the market once its active order is closed. -/
def closedBudget (cfg : AccountConfig) (mark : Option Price) (side : OrderPosition)
    (b : MarketBudget) : MarketBudget :=
  match side with
  | .bid => b.refund b.reservedKrw
  | .ask => b.closeSell cfg mark

/-- The budget of the market once its active order is given up, with `left` left of a buy's
    token. -/
def closing (cfg : AccountConfig) (mark : Option Price) (side : OrderPosition) (left : Amount)
    (b : MarketBudget) : MarketBudget :=
  match side with
  | .bid => (if 0 < left then b.giveBack left else b).sweepDust cfg
  | .ask => b.closeSell cfg mark

/-- With all of the reserve left nothing remains to be swept. -/
theorem closing_reserve (cfg : AccountConfig) (mark : Option Price) (side : OrderPosition)
    {b : MarketBudget} (hreserve : side = .bid → 0 ≤ b.reservedKrw) :
    closing cfg mark side b.reservedKrw b = closedBudget cfg mark side b := by
  cases side with
  | bid =>
    have hgive : (if 0 < b.reservedKrw then b.giveBack b.reservedKrw else b) =
        b.refund b.reservedKrw := by
      split
      · exact MarketBudget.giveBack_of_le le_rfl
      · next hzero =>
        rw [le_antisymm (not_lt.mp hzero) (hreserve rfl), MarketBudget.refund_zero]
    have hempty : (b.refund b.reservedKrw).reservedKrw = 0 := sub_self b.reservedKrw
    simp only [closing, closedBudget, hgive]
    exact if_neg (fun hdust => absurd hdust.1 (by rw [hempty]; exact lt_irrefl 0))
  | ask => rfl

/-- A terminal snapshot of the active order gives the order up. -/
theorem budget_close (cfg : AppConfig ℚ) {s old : Order} {left : Amount}
    (hm : e.forMarket s.market) (hget : e.store.get s.id = some old)
    (hopen : old.status.isTerminal = false) (hactive : e.activeUuid s.position = s.id)
    (htoken : s.position = .bid → ∃ t, e.activeBuyToken = some t ∧ t.active = true ∧
      t.market = e.market ∧ t.remaining = left)
    (hb : e.accountMgr.getBudget e.market = some b) (hterm : s.status.isTerminal = true) :
    (e.onOrderSnapshot cfg s).accountMgr.getBudget e.market =
      some (closing cfg.account (if 0 < e.lastMarkPrice then some e.lastMarkPrice else none)
        s.position left b) := by
  have hold : (mergeSnapshot old s).id = s.id :=
    (id_mergeSnapshot old s).trans (OrderStore.id_of_get hget)
  have hchange : s.status ≠ old.status := fun heq => by
    rw [heq, hopen] at hterm
    exact absurd hterm (by simp)
  obtain ⟨hne, heq⟩ := onOrderSnapshot_known cfg hm hget
  rw [heq, if_pos hterm]
  simp only [if_pos hchange, closeOrder]
  cases hside : s.position with
  | bid =>
    obtain ⟨t, htok, hact, htmkt, hrem⟩ := htoken hside
    rw [hside] at hactive
    have hbuy : e.activeBuyOrderUuid = s.id := hactive
    rw [settleClose_bid (e := { e with store := e.store.put (mergeSnapshot old s) hne })
      (o := mergeSnapshot old s) hside (hold.trans hbuy.symm) hne htok]
    have hbud : e.accountMgr.getBudget t.market = some b := by rw [htmkt, hb]
    have hfinal : (e.accountMgr.finalizeOrder cfg.account t).2.getBudget t.market =
        some (closing cfg.account none .bid t.remaining b) := by
      unfold AccountManager.finalizeOrder closing
      simp only [hact, hbud, Bool.not_true, Bool.false_eq_true, if_false,
        AccountManager.getBudget_modifyBudget_self]
      split
      · rw [AccountManager.releaseInternal, AccountManager.getBudget_modifyBudget_self, hbud]
        rfl
      · rw [hbud]
        rfl
    simp only
    rw [← htmkt, hfinal, hrem]
    rfl
  | ask =>
    rw [hside] at hactive
    have hsell : e.activeSellOrderUuid = s.id := hactive
    rw [settleClose_ask (e := { e with store := e.store.put (mergeSnapshot old s) hne })
      (o := mergeSnapshot old s) hside (hold.trans hsell.symm)]
    simp only [finalizeSell, AccountManager.finalizeSellOrder,
      AccountManager.getBudget_modifyBudget_self, hb, Option.map_some]
    rfl

theorem Tracks.close (cfg : AppConfig ℚ) {x : Totals} {s : Order} (h : e.Tracks uuid side x b)
    (hid : s.id = uuid)
    (hm : e.forMarket s.market) (hside : s.position = side) (hterm : s.status.isTerminal = true) :
    (e.onOrderSnapshot cfg s).accountMgr.getBudget e.market =
      some (closedBudget cfg.account (if 0 < e.lastMarkPrice then some e.lastMarkPrice else none)
        side b) := by
  obtain ⟨old, hget, -, hopen⟩ := h.stored
  rw [← hid] at hget
  subst hside
  have hreserve : s.position = .bid → 0 ≤ b.reservedKrw := by
    intro hbid
    obtain ⟨t, -, -, -, hrem⟩ := h.token hbid
    rw [← hrem]
    exact t.remaining_nonneg
  rw [budget_close cfg hm hget hopen (h.active.trans hid.symm) h.token h.budget hterm,
    closing_reserve cfg.account _ s.position hreserve]

/-! The submission. -/

/-- The budget with which an order starts: a buy has its reserve set aside. -/
def openedBudget (cfg : AppConfig ℚ) (req : OrderRequest ℚ) (b : MarketBudget) : MarketBudget :=
  match req.position with
  | .bid => b.hold (computeReserveAmount cfg req)
  | .ask => b

theorem tracks_submit {req : OrderRequest ℚ} (h : e.SingleOrder)
    (hb : e.accountMgr.getBudget e.market = some b) (hne : uuid ≠ "")
    (hok : (e.submitReply cfg req (.ok uuid)).1.success = true) :
    (e.submitReply cfg req (.ok uuid)).2.Tracks uuid req.position 0 (openedBudget cfg req b) ∧
      (e.submitReply cfg req (.ok uuid)).2.market = e.market ∧
      (e.submitReply cfg req (.ok uuid)).2.lastMarkPrice = e.lastMarkPrice ∧
      (e.submitReply cfg req (.ok uuid)).2.seenTradeUuids = e.seenTradeUuids ∧
      b.reservedKrw = e.activeBuyToken.elim 0 (·.remaining) ∧ e.activeBuyToken = none := by
  have hres := h.reserves b hb
  obtain ⟨-, htok, -, token, mgr, heq, hside⟩ := submitReply_accepted hok
  obtain ⟨hmkt, hmgr, htoken, -, hseen, hmark⟩ :=
    afterPost_frame { e with accountMgr := mgr, activeBuyToken := token } req uuid
  have hstored := get_afterPost { e with accountMgr := mgr, activeBuyToken := token } req hne uuid
  have hactive := activeUuid_afterPost { e with accountMgr := mgr, activeBuyToken := token } req uuid
  rw [if_pos rfl] at hstored
  rw [heq]
  refine ⟨⟨⟨_, hstored, rfl, rfl⟩, hactive, fun hbid => ?_, ?_⟩, hmkt, hmark, hseen, hres, htok⟩
  · rw [hbid] at hside
    obtain ⟨-, t, rfl, -, -, htmkt, hact, hrem, -⟩ := hside
    have hzero : b.reservedKrw = 0 := by rw [hres, htok]; rfl
    refine ⟨t, htoken, hact, htmkt.trans hmkt.symm, ?_⟩
    simp only [openedBudget, hbid, MarketBudget.hold, hzero, hrem, zero_add]
  · rw [hmkt, hmgr]
    unfold openedBudget
    cases hpos : req.position with
    | bid =>
      rw [hpos] at hside
      obtain ⟨-, -, -, -, -, -, -, -, rfl⟩ := hside
      rw [AccountManager.getBudget_countReserve, AccountManager.getBudget_modifyBudget_self, hb]
      rfl
    | ask =>
      rw [hpos] at hside
      rw [hside.2]
      exact hb

/-! The budget at the end. -/

theorem closedBudget_booked {req : OrderRequest ℚ} {mark : Option Price} {x : Totals}
    (hres : b.reservedKrw = 0) :
    closedBudget cfg.account mark req.position
        (booked req.position (openedBudget cfg req b) x) =
      settledBudget cfg.account mark req.position x b := by
  unfold closedBudget booked openedBudget settledBudget
  cases req.position with
  | bid =>
    simp only [MarketBudget.refund, MarketBudget.afterBuy, MarketBudget.hold, MarketBudget.holding,
      Holding.acquire, Holding.cost, hres, Totals.cost]
    congr 1 <;> ring
  | ask => rfl

/-- **Settlement is independent of the channel.** An order is submitted on an engine with a
    single order at most; its fills are reported truthfully, the first of them by trade messages
    and the rest by the terminal snapshot, with true REST snapshots in between. Whatever the cut,
    the terminal snapshot is taken and the budget of the market is `settledBudget` of all fills. -/
theorem budget_terminal (cfg : AppConfig ℚ) (e : MarketEngine) {b : MarketBudget}
    (req : OrderRequest ℚ) {uuid : String} {fs : List Fill} {ds : List Delivery} {s : Order}
    (h : e.SingleOrder) (hb : e.accountMgr.getBudget e.market = some b) (hne : uuid ≠ "")
    (hok : (e.submitReply cfg req (.ok uuid)).1.success = true)
    (hcoin : req.position = .bid → 0 ≤ b.coinBalance)
    (hbuy : req.position = .bid → (totals fs).cost ≤ computeReserveAmount cfg req)
    (hsell : req.position = .ask → ∀ f ∈ fs, f.fee ≤ f.funds)
    (hcut : delivered ds <+: fs) (hds : Truthful uuid e.market req.position [] ds)
    (hfresh : e.FreshTrades ds) (hs : s.Reports uuid e.market req.position (totals fs))
    (hterm : s.status.isTerminal = true) :
    let last := Machine.run (handle cfg) (e.submitReply cfg req (.ok uuid)).2 ds
    (last.reconcileFromSnapshot cfg s).1 = true ∧
      (last.reconcileFromSnapshot cfg s).2.accountMgr.getBudget e.market =
        some (settledBudget cfg.account
          (if 0 < e.lastMarkPrice then some e.lastMarkPrice else none) req.position
          (totals fs) b) := by
  intro last
  obtain ⟨hopened, hmkt, hmark, hseen, hres, htok⟩ := tracks_submit h hb hne hok
  have hzero : b.reservedKrw = 0 := by rw [hres, htok]; rfl
  obtain ⟨rest, hrest⟩ := hcut
  subst hrest
  have hcoin' : req.position = .bid → 0 ≤ (openedBudget cfg req b).coinBalance := by
    intro hpos
    have hcoin := hcoin hpos
    unfold openedBudget
    rw [hpos]
    exact hcoin
  have hafford : Affords req.position (openedBudget cfg req b) (totals (delivered ds ++ rest)) := by
    cases hpos : req.position with
    | bid =>
      have hcost := hbuy hpos
      show (totals (delivered ds ++ rest)).cost ≤ (openedBudget cfg req b).reservedKrw
      unfold openedBudget
      rw [hpos]
      show (totals (delivered ds ++ rest)).cost ≤ b.reservedKrw + computeReserveAmount cfg req
      rw [hzero, zero_add]
      exact hcost
    | ask => exact fee_le_funds_totals (hsell hpos)
  rw [← hmkt] at hds
  have hstart : (e.submitReply cfg req (.ok uuid)).2.Tracks uuid req.position (totals [])
      (booked req.position (openedBudget cfg req b) (totals [])) := by
    rw [totals_nil, booked_zero]
    exact hopened
  have hfresh' : (e.submitReply cfg req (.ok uuid)).2.FreshTrades ds :=
    ⟨hfresh.1, fun u hu => by rw [hseen]; exact hfresh.2 u hu⟩
  have hfees : req.position = .ask → ∀ f ∈ delivered ds, f.fee ≤ f.funds :=
    fun hpos f hf => hsell hpos f (List.mem_append_left rest hf)
  obtain ⟨hlast, hmkt', hmark'⟩ := tracks_run cfg hstart hds hcoin'
    (affords_front hafford hfees) hfees hfresh'
  rw [List.nil_append] at hlast
  -- The terminal snapshot brings the rest of the fills.
  have hlmkt : last.market = e.market := hmkt'.trans hmkt
  have hlmark : last.lastMarkPrice = e.lastMarkPrice := hmark'.trans hmark
  rw [totals_append] at hafford hs ⊢
  rw [← hlmkt] at hs
  obtain ⟨prev, settled, hget, hdelta, htracks, hsmkt, hsmark⟩ :=
    hlast.settleDelta (proper_totals rest) hs (affords_booked hafford
      (fun hpos => fee_le_funds_totals (fun f hf => hsell hpos f (List.mem_append_right _ hf))))
  have hcall : last.reconcileFromSnapshot cfg s = (true, settled.onOrderSnapshot cfg s) :=
    reconcileFromSnapshot_settled (forMarket_reports hs) hget hdelta
  rw [hcall]
  refine ⟨rfl, ?_⟩
  have hbooked : booked req.position
      (booked req.position (openedBudget cfg req b) (totals (delivered ds))) (totals rest) =
      booked req.position (openedBudget cfg req b) (totals (delivered ds) + totals rest) := by
    by_cases hpos : 0 < (totals rest).volume
    · exact booked_booked hcoin' (proper_totals _) hpos
    · rw [(proper_totals rest).eq_zero hpos, booked_zero, Totals.add_zero]
  have hclose := htracks.close cfg hs.id_eq
    (show settled.forMarket s.market from .inr (hs.market_eq.trans hsmkt.symm)) hs.position_eq hterm
  rw [hsmkt, hlmkt, hsmark, hlmark, hbooked, closedBudget_booked hzero] at hclose
  exact hclose

/-- Two fills of a buy, the first by its trade message and a REST snapshot after it. -/
theorem budget_terminal_buy :
    let last := Machine.run (handle (AppConfig.standard ℚ))
      (idleEngine.submitReply (AppConfig.standard ℚ) buyRequest (.ok "u1")).2
      [.ws twoCoins (tradeOf "u1" "t1" "KRW-BTC" .bid twoCoins)
         (snapshotOf "u1" "KRW-BTC" .bid (totals [twoCoins]) .open_),
       .rest (snapshotOf "u1" "KRW-BTC" .bid (totals [twoCoins]) .open_)]
    let s := snapshotOf "u1" "KRW-BTC" .bid (totals [twoCoins, twoCoins]) .filled
    (last.reconcileFromSnapshot (AppConfig.standard ℚ) s).1 = true ∧
      (last.reconcileFromSnapshot (AppConfig.standard ℚ) s).2.accountMgr.getBudget "KRW-BTC" =
        some (settledBudget (AppConfig.standard ℚ).account none .bid (totals [twoCoins, twoCoins])
          { market := "KRW-BTC", availableKrw := 10000 }) :=
  budget_terminal (AppConfig.standard ℚ) idleEngine buyRequest
    singleOrder_idleEngine rfl (by decide) (by decide +kernel) (fun _ => le_rfl)
    (fun _ => by decide +kernel) (fun hside => nomatch hside) ⟨[twoCoins], rfl⟩
    ⟨reports_tradeOf _ _ _ _ _, reports_snapshotOf _ _ _ _ _, rfl, reports_snapshotOf _ _ _ _ _,
      rfl, trivial⟩
    ⟨by decide, fun u hu => by simp_all [Delivery.tradeUuids, tradeOf, idleEngine]⟩
    (reports_snapshotOf _ _ _ _ _) rfl

end CoinBot.MarketEngine
