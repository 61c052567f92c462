import CoinBot.Api.MyOrderMapper
import CoinBot.Engine.Reconciliation
import CoinBot.Engine.Settlement
import Mathlib.Data.List.Perm.Subperm

/- The reserve of a market buy covers its fills.

   A buy for an amount reserves the amount times the margin. Its fills are worth the amount
   at most, and each fee is within the margin. However the fills are split between trade
   messages and reconciliations, as long as none is settled twice, every settlement is within
   what is left of the reserve: nothing is clamped, no coin is dropped (`buys_covered`). -/
namespace CoinBot

namespace AccountManager

/-- `finalizeFillBuy` books what it is given: no check ends it, the amount is within the
    reservation, and the reserve does not fall below zero. -/
def BooksInFull (mgr : AccountManager) (token : ReservationToken) (executedKrw : Amount)
    (receivedCoin : Volume) (fillPrice : Price) : Prop :=
  mgr.BooksBuy token executedKrw receivedCoin fillPrice ∧ executedKrw ≤ token.remaining ∧
    ∀ b, mgr.getBudget token.market = some b → executedKrw ≤ b.reservedKrw

end AccountManager

/-- A fee that is missing in a trade message is estimated within the margin. -/
theorem MyOrderMapper.fee_toTrade_le {d : UpbitMyOrderDto} (tradeUuid : String)
    (hfee : d.tradeFee = none) (hfunds : 0 ≤ d.price * d.volume) :
    (toTrade (AppConfig.standard ℚ) d tradeUuid).fee ≤
      ((AppConfig.standard ℚ).engine.reserveMargin - 1) * (d.price * d.volume) := by
  have hrate : (AppConfig.standard ℚ).engine.defaultTradeFeeRate ≤
      (AppConfig.standard ℚ).engine.reserveMargin - 1 := by decide +kernel
  simp only [toTrade, hfee]
  rw [mul_comm]
  exact mul_le_mul_of_nonneg_right hrate hfunds

namespace MarketEngine

/-- What the engine is handed about an order, with the fills that it settles: a trade message
    settles its own, a snapshot none, a reconciliation those that its totals add. -/
inductive Report where
  | trade (f : Fill) (t : MyTrade)
  | snapshot (s : Order)
  | reconcile (fs : List Fill) (s : Order)

def Report.message : Report → Message
  | .trade _ t => .trade t
  | .snapshot s => .snapshot s
  | .reconcile _ s => .reconcile s

def Report.fills : Report → List Fill
  | .trade f _ => [f]
  | .snapshot _ => []
  | .reconcile fs _ => fs

def Report.tradeKeys : Report → List String
  | .trade _ t => [makeTradeDedupeKey_ t]
  | .snapshot _ => []
  | .reconcile _ _ => []

/-- The reports are true of their fills, the stored totals being `x`: those of a reconciliation
    are what its snapshot has above the stored totals, none if it has no more volume. A report
    that closes the order is the last. -/
def Settles (uuid market : String) : Totals → List Report → Prop
  | _, [] => True
  | x, .trade f t :: rs => t.Reports uuid market .bid f ∧ Settles uuid market x rs
  | _, .snapshot s :: rs =>
    s.Reports uuid market .bid s.totals ∧ (s.status.isTerminal = true → rs = []) ∧
      Settles uuid market s.totals rs
  | x, .reconcile fs s :: rs =>
    (s.totals = x + totals fs ∨ (fs = [] ∧ s.executedVolume ≤ x.volume)) ∧
      s.Reports uuid market .bid s.totals ∧ (s.status.isTerminal = true → rs = []) ∧
      Settles uuid market s.totals rs

/-- The dedupe keys of the trades are all different, and new to the engine. -/
def FreshKeys (e : MarketEngine) (rs : List Report) : Prop :=
  e.Unseen (rs.flatMap Report.tradeKeys)

/-- The engine takes a report. -/
def report (cfg : AppConfig ℚ) (e : MarketEngine) (r : Report) : MarketEngine :=
  e.deliver cfg r.message

/-- The arguments of the `finalizeFillBuy` that a message about a buy leads to. -/
def buyOf (e : MarketEngine) : Message → Option (Amount × Volume × Price)
  | .trade t => some (t.executedFunds + t.fee, t.volume, t.price)
  | .snapshot _ => none
  | .reconcile s =>
    (e.store.get s.id).bind fun prev =>
      let deltaVolume := max 0 (s.executedVolume - prev.executedVolume)
      let deltaFunds := max 0 (s.executedFunds - prev.executedFunds)
      let deltaPaidFee := max 0 (s.paidFee - prev.paidFee)
      if deltaVolume ≤ 0 then none
      else some (deltaFunds + deltaPaidFee, deltaVolume, deltaFunds / deltaVolume)

/-- The buy that a message leads to, if any, is booked in full. -/
def BooksMessage (e : MarketEngine) (msg : Message) : Prop :=
  ∀ krw coin price, e.buyOf msg = some (krw, coin, price) →
    ∃ token, e.activeBuyToken = some token ∧
      e.accountMgr.BooksInFull token krw coin price

/-- A budget after totals `y` of a buy were paid from its reserve. -/
structure Paid (b : MarketBudget) (y : Totals) (b' : MarketBudget) : Prop where
  coin : b'.coinBalance = b.coinBalance + y.volume
  reserved : b'.reservedKrw = b.reservedKrw - y.cost
  available : b'.availableKrw = b.availableKrw

/-- Every buy of the run is booked in full, and at its end the market has what it had in `b`, with
    the totals `x` bought. -/
def Covered (cfg : AppConfig ℚ) (b : MarketBudget) (x : Totals) (e : MarketEngine)
    (rs : List Report) : Prop :=
  Machine.Guarded (report cfg) (fun e r => e.BooksMessage r.message) e rs ∧
    ∃ b', (Machine.run (report cfg) e rs).accountMgr.getBudget e.market = some b' ∧
      b'.coinBalance = b.coinBalance + x.volume ∧
      b'.availableKrw + b'.reservedKrw = b.availableKrw + b.reservedKrw - x.cost

variable {cfg : AppConfig ℚ} {e : MarketEngine} {uuid : String} {x y d : Totals}
  {b b' : MarketBudget}

/-! One settlement. -/

theorem paid_refl (b : MarketBudget) : Paid b 0 b :=
  ⟨(add_zero _).symm, by rw [Totals.cost_zero, sub_zero], rfl⟩

theorem Paid.booked (h : Paid b y b') : Paid b (y + d) (booked .bid b' d) where
  coin := by
    show b'.coinBalance + d.volume = b.coinBalance + (y.volume + d.volume)
    rw [h.coin, add_assoc]
  reserved := by
    show b'.reservedKrw - d.cost = _
    rw [h.reserved, Totals.cost_add, sub_sub]
  available := h.available

theorem Tracks.booksInFull (h : e.Tracks uuid .bid x b) (hd : d.Proper) (hpos : 0 < d.volume)
    (hcost : d.cost ≤ b.reservedKrw) :
    ∃ token, e.activeBuyToken = some token ∧
      e.accountMgr.BooksInFull token d.cost d.volume (d.funds / d.volume) := by
  obtain ⟨token, htok, hact, hmkt, hrem⟩ := h.token rfl
  have hfunds := hd.funds_pos hpos
  have hpaid : 0 < d.cost := add_pos_of_pos_of_nonneg hfunds hd.fee_nonneg
  have hleft : d.cost ≤ token.remaining := hrem.symm ▸ hcost
  refine ⟨token, htok, ⟨hact, hpaid, hpos, div_pos hfunds hpos, hpaid.trans_le hleft, ?_⟩, hleft,
    fun b' hb' => ?_⟩
  · rw [hmkt, h.budget]
    rfl
  · rw [hmkt, h.budget] at hb'
    exact Option.some.inj hb' ▸ hcost

theorem booksMessage_trade {t : MyTrade} {f : Fill} {market : String}
    (h : e.Tracks uuid .bid x b) (ht : t.Reports uuid market .bid f)
    (hcost : f.totals.cost ≤ b.reservedKrw) : e.BooksMessage (.trade t) := by
  intro krw coin price hbuy
  have hprice : f.totals.funds / f.totals.volume = f.price :=
    mul_div_cancel_right₀ f.price f.volume_pos.ne'
  have hfull := h.booksInFull f.proper f.volume_pos hcost
  rw [hprice] at hfull
  simp only [buyOf, ht.funds_eq, ht.fee_eq, ht.volume_eq, ht.price_eq] at hbuy
  obtain ⟨rfl, rfl, rfl⟩ : f.funds + f.fee = krw ∧ f.volume = coin ∧ f.price = price := by
    simpa using hbuy
  exact hfull

theorem booksMessage_reconcile {s : Order} {market : String} (h : e.Tracks uuid .bid x b)
    (hs : s.Reports uuid market .bid (x + d)) (hd : d.Proper) (hcost : d.cost ≤ b.reservedKrw) :
    e.BooksMessage (.reconcile s) := by
  intro krw coin price hbuy
  obtain ⟨prev, hget, htot, -⟩ := h.stored
  rw [← hs.id_eq] at hget
  -- The deltas of the code are the totals that the snapshot adds.
  have hsum : s.totals = prev.totals + d := by rw [hs.totals_eq, htot]
  have hvol : s.executedVolume = prev.executedVolume + d.volume := congrArg Totals.volume hsum
  have hfunds : s.executedFunds = prev.executedFunds + d.funds := congrArg Totals.funds hsum
  have hfee : s.paidFee = prev.paidFee + d.fee := congrArg Totals.fee hsum
  simp only [buyOf, hget, Option.bind_some, hvol, hfunds, hfee, add_sub_cancel_left,
    max_eq_right hd.volume_nonneg, max_eq_right hd.funds_nonneg, max_eq_right hd.fee_nonneg] at hbuy
  by_cases hpos : 0 < d.volume
  · rw [if_neg (not_le.mpr hpos)] at hbuy
    obtain ⟨rfl, rfl, rfl⟩ : d.funds + d.fee = krw ∧ d.volume = coin ∧
        d.funds / d.volume = price := by
      simpa using hbuy
    exact h.booksInFull hd hpos hcost
  · rw [if_pos (not_lt.mp hpos)] at hbuy
    cases hbuy

/-- A reconciliation without more volume leads to no buy. -/
theorem booksMessage_stale {s : Order} (h : e.Tracks uuid .bid x b) (hid : s.id = uuid)
    (hstale : s.executedVolume ≤ x.volume) : e.BooksMessage (.reconcile s) := by
  intro krw coin price hbuy
  obtain ⟨prev, hget, htot, -⟩ := h.stored
  rw [← hid] at hget
  have hprev : s.executedVolume ≤ prev.executedVolume := by
    rw [← htot] at hstale
    exact hstale
  have hzero : max 0 (s.executedVolume - prev.executedVolume) ≤ 0 :=
    max_le le_rfl (sub_nonpos.mpr hprev)
  simp only [buyOf, hget, Option.bind_some, if_pos hzero] at hbuy
  cases hbuy

/-! One report. -/

/-- A snapshot leaves what the market has and holds, whether it closes the order or not. -/
theorem total_onOrderSnapshot (cfg : AppConfig ℚ) {s : Order} (h : e.Tracks uuid .bid x b)
    (hs : s.Reports uuid e.market .bid y) :
    ∃ b', (e.onOrderSnapshot cfg s).accountMgr.getBudget e.market = some b' ∧
      b'.coinBalance = b.coinBalance ∧
      b'.availableKrw + b'.reservedKrw = b.availableKrw + b.reservedKrw := by
  cases hterm : s.status.isTerminal with
  | true =>
    refine ⟨_, h.close cfg hs.id_eq (forMarket_reports hs) hs.position_eq hterm, rfl, ?_⟩
    show b.availableKrw + b.reservedKrw + (b.reservedKrw - b.reservedKrw) = _
    rw [sub_self, add_zero]
  | false =>
    obtain ⟨store, heq, htracks⟩ := h.snapshot cfg hs hterm
    rw [heq]
    exact ⟨b, htracks.budget, rfl, rfl⟩

/-- What a budget comes to once the totals were paid from its reserve. -/
theorem Paid.total (h : Paid b y b') :
    b'.availableKrw + b'.reservedKrw = b.availableKrw + b.reservedKrw - y.cost := by
  rw [h.available, h.reserved, add_sub_assoc]

theorem covered_nil (h : e.Tracks uuid .bid x b') (hpaid : Paid b y b') : Covered cfg b y e [] :=
  ⟨trivial, b', h.budget, hpaid.coin, hpaid.total⟩

theorem Covered.cons {r : Report} {rs : List Report} (h : Covered cfg b y (e.report cfg r) rs)
    (hmkt : (e.report cfg r).market = e.market) (hbooks : e.BooksMessage r.message) :
    Covered cfg b y e (r :: rs) := by
  obtain ⟨hguarded, hend⟩ := h
  rw [hmkt] at hend
  exact ⟨⟨hbooks, hguarded⟩, hend⟩

theorem covered_snapshot {s : Order} {rs : List Report} {z : Totals} (hz : rs = [] → z = y)
    (h : e.Tracks uuid .bid x b') (hpaid : Paid b y b')
    (hs : s.Reports uuid e.market .bid s.totals) (hlast : s.status.isTerminal = true → rs = [])
    (hrest : ∀ store, Tracks { e with store := store } uuid .bid s.totals b' →
      Covered cfg b z { e with store := store } rs) :
    Covered cfg b z (e.onOrderSnapshot cfg s) rs := by
  cases hterm : s.status.isTerminal with
  | true =>
    obtain rfl := hlast hterm
    obtain rfl := hz rfl
    obtain ⟨b'', hbudget, hcoin, htotal⟩ := total_onOrderSnapshot cfg h hs
    rw [← market_onOrderSnapshot cfg e s] at hbudget
    exact ⟨trivial, b'', hbudget, hcoin.trans hpaid.coin, htotal.trans hpaid.total⟩
  | false =>
    obtain ⟨store, heq, htracks⟩ := h.snapshot cfg hs hterm
    rw [heq]
    exact hrest store htracks

theorem tracks_trade (cfg : AppConfig ℚ) {t : MyTrade} {f : Fill} (h : e.Tracks uuid .bid x b)
    (ht : t.Reports uuid e.market .bid f) (hcost : f.totals.cost ≤ b.reservedKrw)
    (hnew : makeTradeDedupeKey_ t ∉ e.seenTradeUuids) :
    (e.onMyTrade cfg t).Tracks uuid .bid x (booked .bid b f.totals) ∧
      (e.onMyTrade cfg t).market = e.market ∧
      (e.onMyTrade cfg t).seenTradeUuids ⊆ insert (makeTradeDedupeKey_ t) e.seenTradeUuids := by
  obtain ⟨ord, hget, -, -⟩ := h.stored
  rw [← ht.orderUuid_eq] at hget
  obtain ⟨seen, fifo, hsub, htrade⟩ := onMyTrade_fresh cfg ht.market_eq hnew hget
  rw [settleTrade_reports ht] at htrade
  have hobs := h.observe seen fifo (e.events ++ fillEvents t ord)
  have hchunk := hobs.settleChunk f.proper f.volume_pos hcost
  obtain ⟨hmkt, -, -, -, hseen, -⟩ := onlySettles_settleChunk
    { e with seenTradeUuids := seen, seenTradeUuidFifo := fifo,
             events := e.events ++ fillEvents t ord } uuid .bid f.totals
  rw [htrade]
  exact ⟨hchunk, hmkt, hseen ▸ hsub⟩

/-- A reconciliation settles what its snapshot adds, and takes the snapshot. -/
theorem tracks_reconcile (cfg : AppConfig ℚ) {s : Order} {fs : List Fill}
    (h : e.Tracks uuid .bid x b)
    (hadds : s.totals = x + totals fs ∨ (fs = [] ∧ s.executedVolume ≤ x.volume))
    (hs : s.Reports uuid e.market .bid s.totals) (hcost : (totals fs).cost ≤ b.reservedKrw) :
    ∃ settled : MarketEngine,
      (e.reconcileFromSnapshot cfg s).2 = settled.onOrderSnapshot cfg s ∧
        settled.Tracks uuid .bid x (booked .bid b (totals fs)) ∧ settled.market = e.market ∧
        settled.seenTradeUuids = e.seenTradeUuids := by
  rcases hadds with hsum | ⟨rfl, hstale⟩
  · rw [hsum] at hs
    obtain ⟨prev, settled, hget, hdelta, htracks, hmkt, -⟩ :=
      h.settleDelta (proper_totals fs) hs hcost
    exact ⟨settled, congrArg Prod.snd (reconcileFromSnapshot_settled (forMarket_reports hs) hget hdelta),
      htracks, hmkt, (onlySettles_settleDelta hdelta).seen⟩
  · obtain ⟨prev, hget, htot, -⟩ := h.stored
    rw [← hs.id_eq] at hget
    rw [← htot] at hstale
    have hdelta : e.settleDelta prev s = some e := settleDelta_unchanged e hstale
    refine ⟨e, congrArg Prod.snd (reconcileFromSnapshot_settled (forMarket_reports hs) hget hdelta),
      ?_, rfl, rfl⟩
    rw [totals_nil, booked_zero]
    exact h

/-! All reports. -/

theorem FreshKeys.tail {r : Report} {rs : List Report} (e' : MarketEngine)
    (h : e.FreshKeys (r :: rs))
    (hseen : ∀ k ∈ e'.seenTradeUuids, k ∈ e.seenTradeUuids ∨ k ∈ r.tradeKeys) :
    e'.FreshKeys rs := by
  unfold FreshKeys at h
  rw [List.flatMap_cons] at h
  exact Unseen.tail h hseen

theorem cost_le_of_append {fs gs : List Fill} {left : Amount}
    (h : (totals (fs ++ gs)).cost ≤ left) : (totals fs).cost ≤ left := by
  rw [totals_append, Totals.cost_add] at h
  exact (le_add_of_nonneg_right (proper_totals gs).cost_nonneg).trans h

/-- **Step by step the reserve covers what is left of the fills.** -/
theorem covered_run (cfg : AppConfig ℚ) {rs : List Report} (h : e.Tracks uuid .bid x b')
    (hpaid : Paid b y b') (hrs : Settles uuid e.market x rs) (hfresh : e.FreshKeys rs)
    (hcost : (totals (rs.flatMap Report.fills)).cost ≤ b'.reservedKrw) :
    Covered cfg b (y + totals (rs.flatMap Report.fills)) e rs := by
  induction rs generalizing e x y b' with
  | nil =>
    rw [List.flatMap_nil, totals_nil, Totals.add_zero]
    exact covered_nil h hpaid
  | cons r rs ih =>
    rw [List.flatMap_cons] at hcost ⊢
    have hfirst := cost_le_of_append hcost
    rw [totals_append, ← Totals.add_assoc']
    -- The reserve that is left after the fills of `r` covers those of `rs`.
    have hleft : (totals (rs.flatMap Report.fills)).cost ≤
        (booked .bid b' (totals r.fills)).reservedKrw := by
      rw [totals_append, Totals.cost_add] at hcost
      exact le_sub_iff_add_le'.mpr hcost
    cases r with
    | trade f t =>
      obtain ⟨ht, hrest⟩ := hrs
      have hone : totals (Report.trade f t).fills = f.totals := by
        rw [Report.fills, totals_cons, totals_nil, Totals.add_zero]
      rw [hone] at hfirst hleft ⊢
      have hnew := (hfresh.2 (makeTradeDedupeKey_ t) (by simp [Report.tradeKeys])).2
      obtain ⟨htracks, hmkt, hseen⟩ := tracks_trade cfg h ht hfirst hnew
      have hfresh' := hfresh.tail (e.onMyTrade cfg t) (fun k hk => by
        rcases Finset.mem_insert.mp (hseen hk) with rfl | hold
        · exact .inr List.mem_cons_self
        · exact .inl hold)
      rw [← hmkt] at hrest
      exact (ih htracks hpaid.booked hrest hfresh' hleft).cons hmkt (booksMessage_trade h ht hfirst)
    | snapshot s =>
      obtain ⟨hs, hlast, hrest⟩ := hrs
      have hfresh' : e.FreshKeys rs := hfresh.tail e (fun k hk => .inl hk)
      have hbuys : e.BooksMessage (.snapshot s) := fun krw coin price hbuy => nomatch hbuy
      refine (covered_snapshot (fun hnil => ?_) h hpaid hs hlast (fun store htracks => ?_)).cons
        (market_onOrderSnapshot cfg e s) hbuys
      · rw [hnil]
        simp [Report.fills]
      · rw [Report.fills, totals_nil, Totals.add_zero]
        refine ih htracks hpaid hrest hfresh' ?_
        rwa [Report.fills, totals_nil, booked_zero] at hleft
    | reconcile fs s =>
      obtain ⟨hadds, hs, hlast, hrest⟩ := hrs
      obtain ⟨settled, hcall, htracks, hmkt, hseen⟩ := tracks_reconcile cfg h hadds hs hfirst
      have hreport : e.report cfg (.reconcile fs s) = settled.onOrderSnapshot cfg s := hcall
      have hfresh' : settled.FreshKeys rs := hfresh.tail settled (fun k hk => .inl (hseen ▸ hk))
      have hbuys : e.BooksMessage (.reconcile s) := by
        rcases hadds with hsum | ⟨rfl, hstale⟩
        · exact booksMessage_reconcile h (hsum ▸ hs) (proper_totals fs) hfirst
        · exact booksMessage_stale h hs.id_eq hstale
      rw [← hmkt] at hs hrest
      refine Covered.cons ?_ ?_ hbuys
      · rw [hreport]
        refine covered_snapshot (fun hnil => ?_) htracks hpaid.booked hs hlast
          (fun store htracks' => ih htracks' hpaid.booked hrest hfresh' hleft)
        rw [hnil, List.flatMap_nil, totals_nil, Totals.add_zero]
        rfl
      · rw [hreport, market_onOrderSnapshot, hmkt]

/-! The reserve of a market buy. -/

theorem cost_le_margin {fs : List Fill} {margin : ℚ}
    (hfees : ∀ f ∈ fs, f.fee ≤ (margin - 1) * f.funds) :
    (totals fs).cost ≤ (totals fs).funds * margin := by
  induction fs with
  | nil =>
    rw [totals_nil, Totals.cost_zero, Totals.funds_zero, zero_mul]
  | cons f fs ih =>
    have hfirst := hfees f List.mem_cons_self
    have hrest := ih (fun g hg => hfees g (List.mem_cons_of_mem f hg))
    rw [totals_cons, Totals.cost_add, Totals.funds_add, add_mul]
    refine add_le_add ?_ hrest
    calc f.totals.cost = f.funds + f.fee := rfl
      _ ≤ f.funds + (margin - 1) * f.funds := by gcongr
      _ = f.funds * margin := by ring

theorem totals_perm {fs gs : List Fill} (h : fs.Perm gs) : totals fs = totals gs := by
  unfold totals
  rw [(h.map _).sum_eq, (h.map _).sum_eq, (h.map _).sum_eq]

theorem cost_le_of_subperm {fs gs : List Fill} (h : gs.Subperm fs) :
    (totals gs).cost ≤ (totals fs).cost := by
  obtain ⟨front, hperm, hsub⟩ := h
  obtain ⟨rest, hall⟩ := hsub.exists_perm_append
  rw [totals_perm hall, ← totals_perm hperm]
  exact cost_le_of_append le_rfl

/-- **The reserve margin covers every market buy.** A buy for an amount is submitted on an engine
    with a single order at most. Its fills are worth the amount at most and their fees are within
    the margin, as those are that a trade message leaves to the default rate. However they are
    split between trade messages and reconciliations, with snapshots in between, every buy that a
    report leads to is booked in full, and the market ends with their coin for their cost. -/
theorem reserve_covers_buy (cfg : AppConfig ℚ) (e : MarketEngine) {b : MarketBudget}
    (req : OrderRequest ℚ) {amount : Amount} {uuid : String} {fs : List Fill} {rs : List Report}
    (h : e.SingleOrder) (hb : e.accountMgr.getBudget e.market = some b) (hne : uuid ≠ "")
    (hok : (e.submitReply cfg req (.ok uuid)).1.success = true)
    (hside : req.position = .bid) (hsize : req.size = .amount amount)
    (hmargin : 1 ≤ cfg.engine.reserveMargin) (hfunds : (totals fs).funds ≤ amount)
    (hfees : ∀ f ∈ fs, f.fee ≤ (cfg.engine.reserveMargin - 1) * f.funds)
    (hsplit : (rs.flatMap Report.fills).Subperm fs) (hrs : Settles uuid e.market 0 rs)
    (hfresh : e.FreshKeys rs) :
    let opened := (e.submitReply cfg req (.ok uuid)).2
    Machine.Guarded (report cfg) (fun e r => e.BooksMessage r.message) opened rs ∧
      ∃ b', (Machine.run (report cfg) opened rs).accountMgr.getBudget e.market = some b' ∧
        b'.coinBalance = b.coinBalance + (totals (rs.flatMap Report.fills)).volume ∧
        b'.availableKrw + b'.reservedKrw =
          b.availableKrw + b.reservedKrw - (totals (rs.flatMap Report.fills)).cost := by
  intro opened
  obtain ⟨hopened, hmkt, -, hseen, hres, htok⟩ := tracks_submit h hb hne hok
  have hzero : b.reservedKrw = 0 := by rw [hres, htok]; rfl
  have hhold : openedBudget cfg req b = b.hold (amount * cfg.engine.reserveMargin) := by
    simp only [openedBudget, hside, computeReserveAmount, hsize]
  rw [hside, hhold] at hopened
  have hcost : (totals (rs.flatMap Report.fills)).cost ≤
      (b.hold (amount * cfg.engine.reserveMargin)).reservedKrw :=
    calc (totals (rs.flatMap Report.fills)).cost ≤ (totals fs).cost := cost_le_of_subperm hsplit
      _ ≤ (totals fs).funds * cfg.engine.reserveMargin := cost_le_margin hfees
      _ ≤ amount * cfg.engine.reserveMargin := by gcongr
      _ = b.reservedKrw + amount * cfg.engine.reserveMargin := by rw [hzero, zero_add]
  rw [← hmkt] at hrs
  have hfresh' : opened.FreshKeys rs :=
    ⟨hfresh.1, fun k hk => by rw [hseen]; exact hfresh.2 k hk⟩
  obtain ⟨hguarded, b', hbudget, hcoin, htotal⟩ :=
    covered_run cfg hopened (paid_refl _) hrs hfresh' hcost
  rw [Totals.zero_add] at hcoin htotal
  rw [hmkt] at hbudget
  refine ⟨hguarded, b', hbudget, hcoin, htotal.trans ?_⟩
  show b.availableKrw - amount * cfg.engine.reserveMargin +
    (b.reservedKrw + amount * cfg.engine.reserveMargin) - _ = _
  ring

/-- Two fills of a buy, the first by its trade message, the second by a reconciliation that closes
    the order. -/
theorem reserve_covers_buy_split :
    let rs : List Report :=
      [.trade twoCoins (tradeOf "u1" "t1" "KRW-BTC" .bid twoCoins),
       .snapshot (snapshotOf "u1" "KRW-BTC" .bid (totals [twoCoins]) .open_),
       .reconcile [twoCoins]
         (snapshotOf "u1" "KRW-BTC" .bid (totals [twoCoins] + totals [twoCoins]) .filled)]
    let opened := (idleEngine.submitReply (AppConfig.standard ℚ) buyRequest (.ok "u1")).2
    Machine.Guarded (report (AppConfig.standard ℚ)) (fun e r => e.BooksMessage r.message) opened
        rs ∧
      ∃ b', (Machine.run (report (AppConfig.standard ℚ)) opened rs).accountMgr.getBudget
          "KRW-BTC" = some b' ∧
        b'.coinBalance = 0 + (totals (rs.flatMap Report.fills)).volume ∧
        b'.availableKrw + b'.reservedKrw =
          10000 + 0 - (totals (rs.flatMap Report.fills)).cost :=
  reserve_covers_buy (AppConfig.standard ℚ) idleEngine buyRequest
    (b := { market := "KRW-BTC", availableKrw := 10000 })
    singleOrder_idleEngine rfl (by decide) (by decide +kernel) rfl rfl (by decide +kernel)
    (by decide +kernel) (by decide +kernel) (List.Perm.refl [twoCoins, twoCoins]).subperm
    ⟨reports_tradeOf _ _ _ _ _, reports_snapshotOf _ _ _ _ _, (fun hclosed => nomatch hclosed),
      .inl rfl, reports_snapshotOf _ _ _ _ _, (fun _ => rfl), trivial⟩
    ⟨by decide +kernel, by decide +kernel⟩

end MarketEngine
end CoinBot
