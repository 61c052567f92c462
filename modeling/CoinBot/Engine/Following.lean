import CoinBot.Engine.Booking
import CoinBot.Engine.Settlement
import CoinBot.Lib.Purse

/- An order the engine follows, whether its reserve suffices or not.

   `Tracks` says that the token of a buy has the market's whole reserve left, which a
   chunk beyond the reserve breaks. `Following` leaves the reserve out: a chunk is
   booked in full while the token has anything left, and not at all afterwards. -/
namespace CoinBot.MarketEngine

/-- What the token of the active buy has left. -/
def left (e : MarketEngine) : Amount := e.activeBuyToken.elim 0 (·.remaining)

theorem left_nonneg (e : MarketEngine) : 0 ≤ e.left := by
  unfold left
  cases e.activeBuyToken with
  | none => exact le_rfl
  | some t => exact t.remaining_nonneg

/-- A chunk of this side would be booked: a buy needs a token with something left. -/
def CanBook (e : MarketEngine) (side : OrderPosition) : Prop := side = .bid → 0 < e.left

instance (e : MarketEngine) (side : OrderPosition) : Decidable (e.CanBook side) :=
  inferInstanceAs (Decidable (_ → _))

/-- The budget after a chunk, when the token has `left` left. -/
def bookChunk (side : OrderPosition) (left : Amount) (b : MarketBudget) (d : Totals) :
    MarketBudget :=
  match side with
  | .bid => if 0 < left then b.buy (min d.cost left) d.volume (d.funds / d.volume) else b
  | .ask => b.sell d.volume (max 0 (d.funds - d.fee))

/-- The order is the active one of its side, its stored totals are `x`, a buy has a live token of
    the market, and the budget is `b`. -/
structure Following (e : MarketEngine) (uuid : String) (side : OrderPosition) (x : Totals)
    (b : MarketBudget) : Prop where
  stored : ∃ o, e.store.get uuid = some o ∧ o.totals = x ∧ o.status.isTerminal = false
  active : e.activeUuid side = uuid
  token : side = .bid → ∃ t, e.activeBuyToken = some t ∧ t.active = true ∧ t.market = e.market
  budget : e.accountMgr.getBudget e.market = some b

variable {cfg : AppConfig ℚ} {e : MarketEngine} {uuid : String} {side : OrderPosition}
  {x d : Totals} {b : MarketBudget}

theorem Tracks.following (h : e.Tracks uuid side x b) : e.Following uuid side x b := by
  refine ⟨h.stored, h.active, fun hside => ?_, h.budget⟩
  obtain ⟨t, htok, hact, hmkt, -⟩ := h.token hside
  exact ⟨t, htok, hact, hmkt⟩

theorem Tracks.left_eq (h : e.Tracks uuid .bid x b) : e.left = b.reservedKrw := by
  obtain ⟨t, htok, -, -, hrem⟩ := h.token rfl
  unfold left
  rw [htok]
  exact hrem

theorem Following.observe (h : e.Following uuid side x b) (seen : Finset String)
    (fifo : List String) (events : List EngineEvent) :
    Following { e with seenTradeUuids := seen, seenTradeUuidFifo := fifo, events := events }
      uuid side x b :=
  ⟨h.stored, h.active, h.token, h.budget⟩

/-- A chunk is booked while there is something to book it against, and the token pays for it as
    far as it can. -/
theorem Following.settleChunk (h : e.Following uuid side x b) (hvol : 0 < d.volume)
    (hfunds : 0 < d.funds) (hfee : 0 ≤ d.fee) :
    (e.settleChunk uuid side d).Following uuid side x (bookChunk side e.left b d) ∧
      (e.settleChunk uuid side d).accountMgr.bookedVolume e.market side =
        e.accountMgr.bookedVolume e.market side + (if e.CanBook side then d.volume else 0) ∧
      (side = .bid → (e.settleChunk uuid side d).left = max 0 (e.left - d.cost)) := by
  obtain ⟨hmkt, hstore, -, hactive, -, -⟩ := onlySettles_settleChunk e uuid side d
  have hstored := hstore ▸ h.stored
  have hactive' := (congrFun hactive side).trans h.active
  have hreg : (e.accountMgr.getBudget e.market).isSome := by rw [h.budget]; rfl
  cases side with
  | bid =>
    obtain ⟨t, htok, hact, htmkt⟩ := h.token rfl
    have hcost : 0 < d.cost := add_pos_of_pos_of_nonneg hfunds hfee
    obtain ⟨hbooked, hbudget, t', htok', hact', htmkt', hrem⟩ := booked_settleBuy (e := e)
      htok hact htmkt h.active hreg hcost hvol (div_pos hfunds hvol)
    have hleft : e.left = t.remaining := by unfold left; rw [htok]; rfl
    refine ⟨⟨hstored, hactive', fun _ => ⟨t', htok', hact', htmkt'.trans hmkt.symm⟩, ?_⟩, ?_,
      fun _ => ?_⟩
    · rw [hmkt, hleft]
      refine hbudget.trans ?_
      rw [h.budget]
      rfl
    · refine hbooked.trans ?_
      have hiff : e.CanBook .bid ↔ 0 < t.remaining := by
        unfold CanBook
        rw [hleft]
        exact ⟨fun hcan => hcan rfl, fun hpos _ => hpos⟩
      simp only [hiff]
    · rw [hleft, ← hrem]
      show (e.settleBuy uuid d.cost d.volume (d.funds / d.volume)).left = _
      unfold left
      rw [htok']
      rfl
  | ask =>
    have hkrw : 0 ≤ max 0 (d.funds - d.fee) := le_max_left _ _
    refine ⟨⟨hstored, hactive', (fun hside => nomatch hside), ?_⟩, ?_, (fun hside => nomatch hside)⟩
    · rw [hmkt]
      show (e.accountMgr.finalizeFillSell e.market d.volume _).getBudget e.market = _
      rw [AccountManager.finalizeFillSell_booked hvol hkrw hreg,
        AccountManager.getBudget_countFill, AccountManager.getBudget_modifyBudget_self, h.budget]
      rfl
    · have hcan : e.CanBook .ask := fun hside => nomatch hside
      rw [if_pos hcan]
      exact booked_settleSell hvol hkrw hreg

theorem onMyTrade_reports (cfg : AppConfig ℚ) {t : MyTrade} {f : Fill}
    (ht : t.Reports uuid e.market side f) :
    ∃ seen fifo events,
      e.onMyTrade cfg t = { e with seenTradeUuids := seen, seenTradeUuidFifo := fifo } ∨
      e.onMyTrade cfg t =
        { e with
          seenTradeUuids := seen
          seenTradeUuidFifo := fifo
          events := events }.settleChunk uuid side f.totals := by
  obtain ⟨seen, fifo, hdrop | ⟨ord, -, -, hsettle⟩⟩ := e.onMyTrade_cases cfg t
  · exact ⟨seen, fifo, [], .inl hdrop⟩
  · rw [settleTrade_reports ht] at hsettle
    exact ⟨seen, fifo, _, .inr hsettle⟩

/-- Whatever becomes of the trade, the order is still followed; the fill is booked at most once,
    and not at all when nothing can be booked. -/
theorem Following.onMyTrade (cfg : AppConfig ℚ) (h : e.Following uuid side x b) {t : MyTrade}
    {f : Fill} (ht : t.Reports uuid e.market side f) :
    (∃ b', (e.onMyTrade cfg t).Following uuid side x b') ∧
      (e.onMyTrade cfg t).accountMgr.bookedVolume e.market side ≤
        e.accountMgr.bookedVolume e.market side + (if e.CanBook side then f.volume else 0) ∧
      (¬ e.CanBook side → ¬ (e.onMyTrade cfg t).CanBook side) := by
  obtain ⟨seen, fifo, events, hdrop | hsettle⟩ := onMyTrade_reports cfg ht
  · rw [hdrop]
    refine ⟨⟨b, h.observe seen fifo e.events⟩, le_add_of_nonneg_right ?_, fun hcan => hcan⟩
    split
    · exact f.volume_pos.le
    · exact le_rfl
  · rw [hsettle]
    obtain ⟨hfollow, hbooked, hleft⟩ := (h.observe seen fifo events).settleChunk
      (d := f.totals) f.volume_pos f.funds_pos f.fee_nonneg
    refine ⟨⟨_, hfollow⟩, hbooked.le, fun hcan hcan' => hcan (fun hside => ?_)⟩
    have hpos := hcan' hside
    rw [hleft hside] at hpos
    have hcost : 0 ≤ f.totals.cost := add_nonneg f.funds_pos.le f.fee_nonneg
    have hdiff := (lt_max_iff.mp hpos).resolve_left (lt_irrefl 0)
    show 0 < left { e with seenTradeUuids := seen, seenTradeUuidFifo := fifo, events := events }
    linarith

theorem Following.stored_open (cfg : AppConfig ℚ) {s : Order} (h : e.Following uuid side x b)
    (hm : e.forMarket s.market) (hid : s.id = uuid) (hopen : s.status.isTerminal = false) :
    ∃ store, e.onOrderSnapshot cfg s = { e with store := store } ∧
      Following { e with store := store } uuid side s.totals b := by
  obtain ⟨old, hget, -, -⟩ := h.stored
  rw [← hid] at hget
  obtain ⟨store, hstore, heq⟩ := onOrderSnapshot_open cfg hm hget hopen
  refine ⟨store, heq, ⟨mergeSnapshot old s, ?_, rfl, hopen⟩, h.active, h.token, h.budget⟩
  rw [hstore, if_pos hid.symm]

theorem Following.snapshot (cfg : AppConfig ℚ) {s : Order} {y : Totals}
    (h : e.Following uuid side x b) (hs : s.Reports uuid e.market side y)
    (hopen : s.status.isTerminal = false) :
    ∃ store, e.onOrderSnapshot cfg s = { e with store := store } ∧
      Following { e with store := store } uuid side y b := by
  have hstored := h.stored_open cfg (forMarket_reports hs) hs.id_eq hopen
  rw [hs.totals_eq] at hstored
  exact hstored

theorem Following.erased (cfg : AppConfig ℚ) {s : Order} (h : e.Following uuid side x b)
    (hm : e.forMarket s.market) (hid : s.id = uuid) (hclosed : s.status.isTerminal = true) :
    (e.onOrderSnapshot cfg s).store.get uuid = none := by
  obtain ⟨old, hget, -, -⟩ := h.stored
  rw [← hid] at hget ⊢
  rw [get_onOrderSnapshot cfg hm hget, if_pos rfl, if_pos hclosed]

theorem Following.gone (cfg : AppConfig ℚ) {s : Order} {y : Totals}
    (h : e.Following uuid side x b) (hs : s.Reports uuid e.market side y)
    (hclosed : s.status.isTerminal = true) : (e.onOrderSnapshot cfg s).store.get uuid = none :=
  h.erased cfg (forMarket_reports hs) hs.id_eq hclosed

/-- A reconciliation settles what the snapshot adds to the stored totals. -/
theorem Following.reconcile (cfg : AppConfig ℚ) {s : Order} (h : e.Following uuid side x b)
    (hs : s.Reports uuid e.market side (x + d)) (hd : d.Proper) :
    e.reconcileFromSnapshot cfg s =
      (true, (if 0 < d.volume then e.settleChunk uuid side d else e).onOrderSnapshot cfg s) := by
  obtain ⟨prev, hget, htot, -⟩ := h.stored
  rw [← hs.id_eq] at hget
  have hdelta := settleDelta_eq (e := e) hd
    (show s.totals = prev.totals + d by rw [hs.totals_eq, htot])
    (by rw [hs.position_eq, hs.id_eq]; exact h.active)
    (fun hside => by
      obtain ⟨t, htok, -⟩ := h.token (hs.position_eq ▸ hside)
      rw [htok]; rfl)
  rw [hs.id_eq, hs.position_eq] at hdelta
  exact reconcileFromSnapshot_settled (forMarket_reports hs) hget hdelta

theorem Following.settleRest (h : e.Following uuid side x b) (hd : d.Proper) :
    (∃ b', (if 0 < d.volume then e.settleChunk uuid side d else e).Following uuid side x b') ∧
      (if 0 < d.volume then e.settleChunk uuid side d else e).market = e.market ∧
      (if 0 < d.volume then e.settleChunk uuid side d else e).accountMgr.bookedVolume e.market side =
        e.accountMgr.bookedVolume e.market side + (if e.CanBook side then d.volume else 0) ∧
      (side = .bid → (if 0 < d.volume then e.settleChunk uuid side d else e).left =
        max 0 (e.left - d.cost)) := by
  by_cases hpos : 0 < d.volume
  · obtain ⟨hfollow, hbooked, hleft⟩ := h.settleChunk hpos (hd.funds_pos hpos) hd.fee_nonneg
    simp only [if_pos hpos]
    exact ⟨⟨_, hfollow⟩, (onlySettles_settleChunk e uuid side d).market, hbooked, hleft⟩
  · have hzero := hd.eq_zero hpos
    simp only [if_neg hpos]
    refine ⟨⟨b, h⟩, trivial, ?_, fun _ => ?_⟩
    · rw [hzero, Totals.volume_zero, ite_self, add_zero]
    · rw [hzero, Totals.cost_zero, sub_zero, max_eq_right e.left_nonneg]

/-! A list of chunks. -/

/-- The chunks that are booked, when the token has `left` left at first. -/
def bookedChunks (side : OrderPosition) (left : Amount) (ds : List Totals) : List Totals :=
  match side with
  | .bid => Purse.paid Totals.cost left ds
  | .ask => ds

/-- The budget after the chunks. -/
def chunkBudget (side : OrderPosition) (left : Amount) (b : MarketBudget) :
    List Totals → MarketBudget
  | [] => b
  | d :: ds => chunkBudget side (max 0 (left - d.cost)) (bookChunk side left b d) ds

theorem chunkBudget_concat (side : OrderPosition) (left : Amount) (b : MarketBudget)
    (ds : List Totals) (d : Totals) :
    chunkBudget side left b (ds ++ [d]) =
      bookChunk side (Purse.drain Totals.cost left ds) (chunkBudget side left b ds) d := by
  induction ds generalizing left b with
  | nil => rfl
  | cons d' ds ih => exact ih _ _

/-- The order is followed, and the chunks `ds` of it were settled since its token had `left` left,
    `start` was booked and the budget was `b`. -/
structure HasSettled (e : MarketEngine) (uuid : String) (side : OrderPosition) (x : Totals)
    (start : Volume) (left : Amount) (b : MarketBudget) (ds : List Totals) : Prop where
  following : e.Following uuid side x (chunkBudget side left b ds)
  booked : e.accountMgr.bookedVolume e.market side =
    start + ((bookedChunks side left ds).map (·.volume)).sum
  left_eq : side = .bid → e.left = Purse.drain Totals.cost left ds

variable {start : Volume} {left : Amount} {ds : List Totals}

theorem HasSettled.observe (h : e.HasSettled uuid side x start left b ds) (seen : Finset String)
    (fifo : List String) (events : List EngineEvent) :
    HasSettled { e with seenTradeUuids := seen, seenTradeUuidFifo := fifo, events := events }
      uuid side x start left b ds :=
  ⟨h.following.observe seen fifo events, h.booked, h.left_eq⟩

/-- Nothing is settled yet of an order that was just submitted; its token has the reserved
    amount left. -/
theorem hasSettled_submit (cfg : AppConfig ℚ) {req : OrderRequest ℚ} (h : e.SingleOrder)
    (hb : e.accountMgr.getBudget e.market = some b) (hne : uuid ≠ "")
    (hok : (e.submitReply cfg req (.ok uuid)).1.success = true) :
    (e.submitReply cfg req (.ok uuid)).2.HasSettled uuid req.position 0
        (e.accountMgr.bookedVolume e.market req.position) (computeReserveAmount cfg req)
        (openedBudget cfg req b) [] ∧
      (e.submitReply cfg req (.ok uuid)).2.market = e.market ∧
      (e.submitReply cfg req (.ok uuid)).2.seenTradeUuids = e.seenTradeUuids := by
  obtain ⟨htracks, hmkt, -, hseen, hres, htok⟩ := tracks_submit h hb hne hok
  refine ⟨⟨htracks.following, ?_, fun hside => ?_⟩, hmkt, hseen⟩
  · rw [hmkt, AccountManager.bookedVolume_congr (fills_submitReply hok)]
    cases req.position with
    | bid => exact (add_zero _).symm
    | ask => exact (add_zero _).symm
  · have hzero : b.reservedKrw = 0 := by rw [hres, htok]; rfl
    rw [hside] at htracks
    rw [htracks.left_eq]
    simp only [openedBudget, hside, MarketBudget.hold, hzero, zero_add, Purse.drain_nil]

theorem reserve_pos {req : OrderRequest ℚ}
    (hok : (e.submitReply cfg req (.ok uuid)).1.success = true) (hside : req.position = .bid) :
    0 < computeReserveAmount cfg req := by
  obtain ⟨-, -, -, token, mgr, -, hreserved⟩ := submitReply_accepted hok
  rw [hside] at hreserved
  obtain ⟨-, -, -, -, hpos, -⟩ := hreserved
  exact hpos

theorem HasSettled.settleChunk (h : e.HasSettled uuid side x start left b ds)
    (hds : ∀ d ∈ ds, 0 ≤ d.cost) (hd : d.Proper) (hvol : 0 < d.volume) :
    (e.settleChunk uuid side d).HasSettled uuid side x start left b (ds ++ [d]) := by
  obtain ⟨hfollow, hbooked, hleft⟩ :=
    h.following.settleChunk hvol (hd.funds_pos hvol) hd.fee_nonneg
  have hmkt := (onlySettles_settleChunk e uuid side d).market
  refine ⟨?_, ?_, fun hside => ?_⟩
  · rw [chunkBudget_concat]
    cases side with
    | bid => exact h.left_eq rfl ▸ hfollow
    | ask => exact hfollow
  · rw [hmkt, hbooked, h.booked, add_assoc]
    congr 1
    cases side with
    | bid =>
      have hcan : e.CanBook .bid ↔ 0 < Purse.drain Totals.cost left ds := by
        rw [← h.left_eq rfl]
        exact ⟨fun hcan => hcan rfl, fun hpos _ => hpos⟩
      simp only [bookedChunks, Purse.paid_concat hds, hcan]
      split
      · simp
      · simp
    | ask =>
      have hcan : e.CanBook .ask := fun hside => nomatch hside
      simp [bookedChunks, hcan]
  · rw [hleft hside, h.left_eq hside, Purse.drain_append]
    rfl

theorem HasSettled.snapshot (cfg : AppConfig ℚ) {s : Order} {y : Totals}
    (h : e.HasSettled uuid side x start left b ds) (hs : s.Reports uuid e.market side y)
    (hopen : s.status.isTerminal = false) :
    ∃ store, e.onOrderSnapshot cfg s = { e with store := store } ∧
      HasSettled { e with store := store } uuid side y start left b ds := by
  obtain ⟨store, heq, hfollow⟩ := h.following.snapshot cfg hs hopen
  exact ⟨store, heq, hfollow, h.booked, h.left_eq⟩

theorem HasSettled.onMyTrade_new (cfg : AppConfig ℚ) {t : MyTrade} {f : Fill}
    (h : e.HasSettled uuid side x start left b ds) (hds : ∀ d ∈ ds, 0 ≤ d.cost)
    (ht : t.Reports uuid e.market side f) (huuid : t.tradeUuid ≠ "")
    (hnew : t.tradeUuid ∉ e.seenTradeUuids) :
    (e.onMyTrade cfg t).HasSettled uuid side x start left b (ds ++ [f.totals]) ∧
      (e.onMyTrade cfg t).market = e.market ∧
      (e.onMyTrade cfg t).seenTradeUuids ⊆ insert t.tradeUuid e.seenTradeUuids := by
  obtain ⟨ord, hget, -, -⟩ := h.following.stored
  rw [← ht.orderUuid_eq] at hget
  obtain ⟨seen, fifo, hsub, htrade⟩ := MarketEngine.onMyTrade_new cfg ht.market_eq huuid hnew hget
  rw [settleTrade_reports ht] at htrade
  have hchunk := (h.observe seen fifo (e.events ++ fillEvents t ord)).settleChunk hds f.proper
    f.volume_pos
  obtain ⟨hmkt, -, -, -, hseen, -⟩ := onlySettles_settleChunk
    { e with seenTradeUuids := seen, seenTradeUuidFifo := fifo,
             events := e.events ++ fillEvents t ord } uuid side f.totals
  rw [← htrade] at hchunk hmkt hseen
  exact ⟨hchunk, hmkt, hseen ▸ hsub⟩

/-! How much of the chunks is booked. -/

/-- The reserved amount outlasts all the chunks of a buy but the last. -/
def Covers (side : OrderPosition) (left : Amount) (ds : List Totals) : Prop :=
  side = .bid → (ds.dropLast.map Totals.cost).sum < left

theorem volume_le_of_isPrefix {xs ys : List Totals} (h : xs <+: ys) (hpos : ∀ d ∈ ys, 0 < d.volume) :
    (xs.map (·.volume)).sum ≤ (ys.map (·.volume)).sum ∧
      ((xs.map (·.volume)).sum = (ys.map (·.volume)).sum ↔ xs = ys) := by
  obtain ⟨rest, rfl⟩ := h
  rw [List.map_append, List.sum_append]
  cases rest with
  | nil => simp
  | cons d rest =>
    have hrest : 0 < (((d :: rest).map (·.volume)).sum) := by
      refine List.sum_pos _ (fun v hv => ?_) (by simp)
      obtain ⟨d', hd', rfl⟩ := List.mem_map.mp hv
      exact hpos d' (List.mem_append_right xs hd')
    exact ⟨by linarith, iff_of_false (by linarith) (by simp)⟩

/-- At most the chunks are booked, and all of them exactly when the reserve covers them. -/
theorem bookedChunks_volume (hpos : ∀ d ∈ ds, 0 < d.volume ∧ 0 ≤ d.cost)
    (hleft : side = .bid → 0 < left) :
    ((bookedChunks side left ds).map (·.volume)).sum ≤ (ds.map (·.volume)).sum ∧
      (((bookedChunks side left ds).map (·.volume)).sum = (ds.map (·.volume)).sum ↔
        Covers side left ds) := by
  cases side with
  | bid =>
    obtain ⟨hle, hiff⟩ := volume_le_of_isPrefix (Purse.paid_isPrefix Totals.cost left ds)
      (fun d hd => (hpos d hd).1)
    refine ⟨hle, hiff.trans ?_⟩
    rw [Purse.paid_eq_self_iff (hleft rfl) (fun d hd => (hpos d hd).2)]
    exact ⟨fun hcost _ => hcost, fun hcost => hcost rfl⟩
  | ask => exact ⟨le_rfl, iff_of_true rfl (fun hside => nomatch hside)⟩

end CoinBot.MarketEngine
