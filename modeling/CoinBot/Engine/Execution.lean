import CoinBot.Engine.MarketEngine
import CoinBot.Lib.WeightedMean
import Mathlib.Algebra.BigOperators.Group.List.Basic
import Mathlib.Tactic.NormNum

/- What the exchange does with an order, and what its reports say.

   An order is executed as a list of fills. A trade message reports one fill and a
   snapshot the totals of the fills so far; both are true reports here. The engine
   settles a fill, or what a snapshot adds to the totals it has stored, as one chunk:
   `settleChunk` is what that does to the ledger. -/
namespace CoinBot

/-- One execution of the exchange. -/
structure Fill where
  price : Price
  volume : Volume
  fee : Amount
  price_pos : 0 < price
  volume_pos : 0 < volume
  fee_nonneg : 0 ≤ fee

/-- Cumulative volume, funds and fee. -/
@[ext] structure Totals where
  volume : Volume
  funds : Amount
  fee : Amount
  deriving DecidableEq

namespace Totals

instance : Add Totals := ⟨fun x y => ⟨x.volume + y.volume, x.funds + y.funds, x.fee + y.fee⟩⟩

instance : Sub Totals := ⟨fun x y => ⟨x.volume - y.volume, x.funds - y.funds, x.fee - y.fee⟩⟩

instance : Zero Totals := ⟨⟨0, 0, 0⟩⟩

@[simp] theorem volume_add (x y : Totals) : (x + y).volume = x.volume + y.volume := rfl
@[simp] theorem funds_add (x y : Totals) : (x + y).funds = x.funds + y.funds := rfl
@[simp] theorem fee_add (x y : Totals) : (x + y).fee = x.fee + y.fee := rfl
@[simp] theorem volume_sub (x y : Totals) : (x - y).volume = x.volume - y.volume := rfl
@[simp] theorem funds_sub (x y : Totals) : (x - y).funds = x.funds - y.funds := rfl
@[simp] theorem fee_sub (x y : Totals) : (x - y).fee = x.fee - y.fee := rfl
@[simp] theorem volume_zero : (0 : Totals).volume = 0 := rfl
@[simp] theorem funds_zero : (0 : Totals).funds = 0 := rfl
@[simp] theorem fee_zero : (0 : Totals).fee = 0 := rfl

@[simp] theorem add_sub_cancel_left (x y : Totals) : x + y - x = y := by
  ext <;> simp

@[simp] theorem sub_self (x : Totals) : x - x = 0 := by
  ext <;> simp

@[simp] theorem zero_add (x : Totals) : 0 + x = x := by
  ext <;> simp

@[simp] theorem add_zero (x : Totals) : x + 0 = x := by
  ext <;> simp

theorem add_assoc' (x y z : Totals) : x + y + z = x + (y + z) := by
  ext
  · exact add_assoc x.volume y.volume z.volume
  · exact add_assoc x.funds y.funds z.funds
  · exact add_assoc x.fee y.fee z.fee

/-- What a buy of these totals costs. -/
def cost (x : Totals) : Amount := x.funds + x.fee

@[simp] theorem cost_zero : (0 : Totals).cost = 0 := by
  simp [cost]

@[simp] theorem cost_add (x y : Totals) : (x + y).cost = x.cost + y.cost := by
  simp only [cost, funds_add, fee_add]
  ring

end Totals

def Fill.funds (f : Fill) : Amount := f.price * f.volume

def Fill.totals (f : Fill) : Totals := ⟨f.volume, f.funds, f.fee⟩

/-- Two coins at 1000 KRW, for a fee of one KRW. -/
def twoCoins : Fill := ⟨1000, 2, 1, by norm_num, by norm_num, by norm_num⟩

theorem Fill.funds_pos (f : Fill) : 0 < f.funds := mul_pos f.price_pos f.volume_pos

/-- The totals of a list of fills. -/
def totals (fs : List Fill) : Totals :=
  ⟨(fs.map (·.volume)).sum, (fs.map (·.funds)).sum, (fs.map (·.fee)).sum⟩

@[simp] theorem totals_nil : totals [] = 0 := rfl

theorem totals_append (fs gs : List Fill) : totals (fs ++ gs) = totals fs + totals gs := by
  ext <;> simp [totals]

theorem totals_cons (f : Fill) (fs : List Fill) : totals (f :: fs) = f.totals + totals fs := by
  ext <;> simp [totals, Fill.totals]

/-- Totals that fills can have: none at all, or a positive volume for positive funds. -/
structure Totals.Proper (x : Totals) : Prop where
  volume_nonneg : 0 ≤ x.volume
  fee_nonneg : 0 ≤ x.fee
  funds_pos : 0 < x.volume → 0 < x.funds
  empty : x.volume = 0 → x.funds = 0 ∧ x.fee = 0

theorem Totals.Proper.funds_nonneg {x : Totals} (h : x.Proper) : 0 ≤ x.funds := by
  rcases h.volume_nonneg.lt_or_eq with hpos | hzero
  · exact (h.funds_pos hpos).le
  · exact (h.empty hzero.symm).1.ge

theorem Totals.Proper.cost_nonneg {x : Totals} (h : x.Proper) : 0 ≤ x.cost :=
  add_nonneg h.funds_nonneg h.fee_nonneg

theorem Totals.Proper.eq_zero {d : Totals} (h : d.Proper) (hvol : ¬ 0 < d.volume) : d = 0 := by
  have hzero : d.volume = 0 := le_antisymm (not_lt.mp hvol) h.volume_nonneg
  obtain ⟨hfunds, hfee⟩ := h.empty hzero
  ext
  · exact hzero
  · exact hfunds
  · exact hfee

theorem proper_totals (fs : List Fill) : (totals fs).Proper := by
  induction fs with
  | nil =>
    exact ⟨le_rfl, le_rfl, fun h => absurd h (lt_irrefl 0), fun _ => ⟨rfl, rfl⟩⟩
  | cons f fs ih =>
    rw [totals_cons]
    have hvol : 0 < (f.totals + totals fs).volume := add_pos_of_pos_of_nonneg f.volume_pos ih.1
    refine ⟨hvol.le, add_nonneg f.fee_nonneg ih.2, fun _ => ?_, fun hzero => ?_⟩
    · exact add_pos_of_pos_of_nonneg f.funds_pos ih.funds_nonneg
    · exact absurd hzero hvol.ne'

theorem Fill.proper (f : Fill) : f.totals.Proper :=
  ⟨f.volume_pos.le, f.fee_nonneg, fun _ => f.funds_pos, fun hzero => absurd hzero f.volume_pos.ne'⟩

theorem fee_le_funds_totals {fs : List Fill} (h : ∀ f ∈ fs, f.fee ≤ f.funds) :
    (totals fs).fee ≤ (totals fs).funds := by
  induction fs with
  | nil => exact le_rfl
  | cons f fs ih =>
    rw [totals_cons]
    exact add_le_add (h f List.mem_cons_self) (ih (fun g hg => h g (List.mem_cons_of_mem f hg)))

/-! Reports. -/

/-- The cumulative values an order carries. -/
def Order.totals (o : Order) : Totals := ⟨o.executedVolume, o.executedFunds, o.paidFee⟩

/-- A trade message of the fill `f` of an order. -/
structure MyTrade.Reports (t : MyTrade) (orderUuid market : String) (side : OrderPosition)
    (f : Fill) : Prop where
  orderUuid_eq : t.orderUuid = orderUuid
  market_eq : t.market = market
  side_eq : t.side = side
  price_eq : t.price = f.price
  volume_eq : t.volume = f.volume
  funds_eq : t.executedFunds = f.funds
  fee_eq : t.fee = f.fee

/-- A snapshot of an order whose fills so far have the totals `x`. -/
structure Order.Reports (s : Order) (orderUuid market : String) (side : OrderPosition)
    (x : Totals) : Prop where
  id_eq : s.id = orderUuid
  market_eq : s.market = market
  position_eq : s.position = side
  totals_eq : s.totals = x

/-- The plain trade message of a fill. -/
def tradeOf (orderUuid tradeUuid market : String) (side : OrderPosition) (f : Fill) : MyTrade :=
  { orderUuid := orderUuid, tradeUuid := tradeUuid, market := market, side := side
    price := f.price, volume := f.volume, executedFunds := f.funds, fee := f.fee }

theorem reports_tradeOf (orderUuid tradeUuid market : String) (side : OrderPosition) (f : Fill) :
    (tradeOf orderUuid tradeUuid market side f).Reports orderUuid market side f :=
  ⟨rfl, rfl, rfl, rfl, rfl, rfl, rfl⟩

/-- The plain snapshot of a market order. -/
def snapshotOf (orderUuid market : String) (side : OrderPosition) (x : Totals)
    (status : OrderStatus) : Order :=
  { market := market, id := orderUuid, position := side, type := .market
    executedVolume := x.volume, executedFunds := x.funds, paidFee := x.fee, status := status }

theorem reports_snapshotOf (orderUuid market : String) (side : OrderPosition) (x : Totals)
    (status : OrderStatus) :
    (snapshotOf orderUuid market side x status).Reports orderUuid market side x :=
  ⟨rfl, rfl, rfl, rfl⟩

@[simp] theorem totals_mergeSnapshot (o s : Order) :
    (MarketEngine.mergeSnapshot o s).totals = s.totals := rfl

/-! The ledger's view of a chunk. -/

namespace MarketBudget

/-- The coin of the budget at its average price. -/
def holding (b : MarketBudget) : Holding ℚ := ⟨b.coinBalance, b.avgEntryPrice⟩

/-- A budget after its reserve paid `paid` for totals `x`. -/
def afterBuy (b : MarketBudget) (x : Totals) (paid : Amount) : MarketBudget :=
  { b with
    reservedKrw := b.reservedKrw - paid
    coinBalance := (b.holding.acquire x.volume x.funds).qty
    avgEntryPrice := (b.holding.acquire x.volume x.funds).mean }

/-- A budget after totals `x` were sold. -/
def afterSell (b : MarketBudget) (x : Totals) : MarketBudget :=
  { b with
    coinBalance := b.coinBalance - x.volume
    availableKrw := b.availableKrw + (x.funds - x.fee) }

theorem buy_eq (b : MarketBudget) {paid : Amount} {d : Totals} (hvol : 0 < d.volume)
    (hpaid : paid ≤ b.reservedKrw) :
    b.buy paid d.volume (d.funds / d.volume) = b.afterBuy d paid := by
  have hnoclamp : ¬ b.reservedKrw - paid < 0 := by linarith
  have hfunds : d.volume * (d.funds / d.volume) = d.funds := mul_div_cancel₀ _ hvol.ne'
  simp only [buy, afterBuy, if_neg hnoclamp, hfunds]
  rfl

theorem afterBuy_afterBuy {b : MarketBudget} {x d : Totals} {paid paid' : Amount}
    (hcoin : 0 ≤ b.coinBalance) (hx : x.Proper) (hd : 0 < d.volume) :
    (b.afterBuy x paid).afterBuy d paid' = b.afterBuy (x + d) (paid + paid') := by
  have hholding : (b.afterBuy x paid).holding = b.holding.acquire x.volume x.funds := rfl
  have hcompose : (b.holding.acquire x.volume x.funds).acquire d.volume d.funds =
      b.holding.acquire (x.volume + d.volume) (x.funds + d.funds) :=
    Holding.acquire_acquire hcoin hx.volume_nonneg hd (fun hzero => (hx.empty hzero).1)
  simp only [afterBuy] at hholding ⊢
  rw [hholding, hcompose]
  simp only [Totals.volume_add, Totals.funds_add, sub_sub]

theorem afterBuy_zero (b : MarketBudget) : b.afterBuy 0 0 = b := by
  have hsame : b.holding.acquire 0 0 = b.holding := b.holding.acquire_zero
  simp only [afterBuy, Totals.volume_zero, Totals.funds_zero, hsame, sub_zero]
  rfl

theorem afterSell_afterSell (b : MarketBudget) (x d : Totals) :
    (b.afterSell x).afterSell d = b.afterSell (x + d) := by
  simp only [afterSell, Totals.volume_add, Totals.funds_add, Totals.fee_add, sub_sub]
  congr 1
  ring

theorem afterSell_zero (b : MarketBudget) : b.afterSell 0 = b := by
  simp [afterSell]

end MarketBudget

/-! The engine's view of a chunk. -/

namespace MarketEngine

/-- A chunk of the order settled: a fill, or what a snapshot adds. -/
def settleChunk (e : MarketEngine) (orderUuid : String) (side : OrderPosition) (d : Totals) :
    MarketEngine :=
  match side with
  | .bid => e.settleBuy orderUuid d.cost d.volume (d.funds / d.volume)
  | .ask => e.settleSell d.volume (max 0 (d.funds - d.fee))

/-- A trade message settles its fill as a chunk. -/
theorem settleTrade_reports {e : MarketEngine} {t : MyTrade} {uuid market : String}
    {side : OrderPosition} {f : Fill} (h : t.Reports uuid market side f) :
    e.settleTrade t = e.settleChunk uuid side f.totals := by
  have hprice : f.totals.funds / f.totals.volume = f.price :=
    mul_div_cancel_right₀ f.price f.volume_pos.ne'
  unfold settleTrade settleChunk
  rw [h.side_eq]
  cases side with
  | bid =>
    simp only [hprice]
    rw [h.orderUuid_eq, h.funds_eq, h.fee_eq, h.volume_eq, h.price_eq]
    rfl
  | ask =>
    simp only
    rw [h.funds_eq, h.fee_eq, h.volume_eq]
    rfl

theorem evict_subset (max : Nat) (seen : Finset String) (fifo : List String) :
    (evict max seen fifo).1 ⊆ seen := by
  induction fifo generalizing seen with
  | nil => exact Finset.Subset.refl seen
  | cons oldest fifo ih =>
    unfold evict
    split
    · exact (ih (seen.erase oldest)).trans (Finset.erase_subset oldest seen)
    · exact Finset.Subset.refl seen

/-- The trade uuids are there, all different, and new to the engine. -/
def Unseen (e : MarketEngine) (us : List String) : Prop :=
  us.Nodup ∧ ∀ u ∈ us, u ≠ "" ∧ u ∉ e.seenTradeUuids

theorem Unseen.tail {e e' : MarketEngine} {us vs : List String} (h : e.Unseen (us ++ vs))
    (hseen : ∀ u ∈ e'.seenTradeUuids, u ∈ e.seenTradeUuids ∨ u ∈ us) : e'.Unseen vs := by
  obtain ⟨hnodup, hnew⟩ := h
  obtain ⟨-, htail, hdisj⟩ := List.nodup_append.mp hnodup
  refine ⟨htail, fun u hu => ?_⟩
  obtain ⟨hne, hnot⟩ := hnew u (List.mem_append_right us hu)
  refine ⟨hne, fun hin => ?_⟩
  rcases hseen u hin with hold | hown
  · exact hnot hold
  · exact hdisj u hown u hu rfl

theorem makeTradeDedupeKey_ne (t : MyTrade) : makeTradeDedupeKey_ t ≠ "" := by
  unfold makeTradeDedupeKey_
  by_cases huuid : t.tradeUuid = ""
  · -- The key of a trade without a uuid starts with a word of its own.
    have hword : "FALLBACK|".length = 9 := rfl
    have hempty : "".length = 0 := rfl
    rw [if_neg (not_not.mpr huuid)]
    intro hkey
    have hlen := congrArg String.length hkey
    dsimp only at hlen
    split at hlen
    · split at hlen <;> simp only [String.length_append] at hlen <;> omega
    · simp only [String.length_append] at hlen
      omega
  · rw [if_pos huuid]
    exact huuid

theorem onMyTrade_fresh (cfg : AppConfig ℚ) {e : MarketEngine} {t : MyTrade} {ord : Order}
    (hmkt : t.market = e.market) (hnew : makeTradeDedupeKey_ t ∉ e.seenTradeUuids)
    (hget : e.store.get t.orderUuid = some ord) :
    ∃ seen fifo, seen ⊆ insert (makeTradeDedupeKey_ t) e.seenTradeUuids ∧
      e.onMyTrade cfg t =
        { e with
          seenTradeUuids := seen
          seenTradeUuidFifo := fifo
          events := e.events ++ fillEvents t ord }.settleTrade t := by
  have hne := makeTradeDedupeKey_ne t
  have hsubset := evict_subset cfg.engine.maxSeenTrades
    (insert (makeTradeDedupeKey_ t) e.seenTradeUuids)
    (e.seenTradeUuidFifo ++ [makeTradeDedupeKey_ t])
  refine ⟨_, (evict cfg.engine.maxSeenTrades (insert (makeTradeDedupeKey_ t) e.seenTradeUuids)
    (e.seenTradeUuidFifo ++ [makeTradeDedupeKey_ t])).2, hsubset, ?_⟩
  simp only [onMyTrade, markTradeOnce, hmkt, hne, hnew, hget, ne_eq, not_true_eq_false,
    if_false]

theorem onMyTrade_new (cfg : AppConfig ℚ) {e : MarketEngine} {t : MyTrade} {ord : Order}
    (hmkt : t.market = e.market) (huuid : t.tradeUuid ≠ "") (hnew : t.tradeUuid ∉ e.seenTradeUuids)
    (hget : e.store.get t.orderUuid = some ord) :
    ∃ seen fifo, seen ⊆ insert t.tradeUuid e.seenTradeUuids ∧
      e.onMyTrade cfg t =
        { e with
          seenTradeUuids := seen
          seenTradeUuidFifo := fifo
          events := e.events ++ fillEvents t ord }.settleTrade t := by
  have hkey : makeTradeDedupeKey_ t = t.tradeUuid := if_pos huuid
  rw [← hkey] at hnew ⊢
  exact onMyTrade_fresh cfg hmkt hnew hget

/-- What a snapshot settles whose totals are `d` above the stored ones: growth of the volume
    without growth of the funds is refused. -/
theorem settleDelta_grown {e : MarketEngine} {prev s : Order} {d : Totals} (hvol0 : 0 ≤ d.volume)
    (hfunds0 : 0 ≤ d.funds) (hfee0 : 0 ≤ d.fee) (hsum : s.totals = prev.totals + d)
    (hactive : e.activeUuid s.position = s.id)
    (htok : s.position = .bid → e.activeBuyToken.isSome) :
    e.settleDelta prev s =
      if 0 < d.volume then
        if 0 < d.funds then some (e.settleChunk s.id s.position d) else none
      else some e := by
  have hvol : s.executedVolume - prev.executedVolume = d.volume := by
    have := congrArg Totals.volume hsum
    simp only [Order.totals, Totals.volume_add] at this
    linarith
  have hfunds : s.executedFunds - prev.executedFunds = d.funds := by
    have := congrArg Totals.funds hsum
    simp only [Order.totals, Totals.funds_add] at this
    linarith
  have hfee : s.paidFee - prev.paidFee = d.fee := by
    have := congrArg Totals.fee hsum
    simp only [Order.totals, Totals.fee_add] at this
    linarith
  unfold settleDelta
  simp only [hvol, hfunds, hfee, max_eq_right hvol0, max_eq_right hfunds0, max_eq_right hfee0]
  by_cases hpos : 0 < d.volume
  · by_cases hfpos : 0 < d.funds
    · have hprice : ¬ d.funds / d.volume ≤ 0 := not_le.mpr (div_pos hfpos hpos)
      simp only [not_le.mpr hpos, not_le.mpr hfpos, hpos, hfpos, if_true, if_false]
      unfold settleChunk
      cases hpos' : s.position with
      | bid =>
        rw [hpos'] at hactive
        have hbuy : e.activeBuyOrderUuid = s.id := hactive
        have hsome : e.activeBuyToken.isNone = false := by
          simpa using htok hpos'
        simp only [hsome, hbuy, hprice, Totals.cost, ne_eq, not_true_eq_false, Bool.false_eq_true,
          or_self, if_false]
      | ask =>
        rw [hpos'] at hactive
        have hsell : e.activeSellOrderUuid = s.id := hactive
        simp only [hsell, ne_eq, not_true_eq_false, if_false]
    · simp only [not_le.mpr hpos, not_lt.mp hfpos, hpos, hfpos, if_true, if_false]
  · simp only [not_lt.mp hpos, hpos, if_true, if_false]

theorem settleDelta_eq {e : MarketEngine} {prev s : Order} {d : Totals} (hd : d.Proper)
    (hsum : s.totals = prev.totals + d) (hactive : e.activeUuid s.position = s.id)
    (htok : s.position = .bid → e.activeBuyToken.isSome) :
    e.settleDelta prev s = some (if 0 < d.volume then e.settleChunk s.id s.position d else e) := by
  rw [settleDelta_grown hd.volume_nonneg hd.funds_nonneg hd.fee_nonneg hsum hactive htok]
  by_cases hpos : 0 < d.volume
  · rw [if_pos hpos, if_pos hpos, if_pos (hd.funds_pos hpos)]
  · rw [if_neg hpos, if_neg hpos]

/-! An order on its way. -/

/-- The order is the active one of its side, its stored totals are `x`, the token of a buy has the
    market's whole reserve left, and the budget is `b`. -/
structure Tracks (e : MarketEngine) (uuid : String) (side : OrderPosition) (x : Totals)
    (b : MarketBudget) : Prop where
  stored : ∃ o, e.store.get uuid = some o ∧ o.totals = x ∧ o.status.isTerminal = false
  active : e.activeUuid side = uuid
  token : side = .bid → ∃ t, e.activeBuyToken = some t ∧ t.active = true ∧ t.market = e.market ∧
    t.remaining = b.reservedKrw
  budget : e.accountMgr.getBudget e.market = some b

variable {cfg : AppConfig ℚ} {e : MarketEngine} {uuid : String} {side : OrderPosition}
  {x d : Totals} {b : MarketBudget}

/-- The budget after a chunk was settled in full. -/
def booked (side : OrderPosition) (b : MarketBudget) (d : Totals) : MarketBudget :=
  match side with
  | .bid => b.afterBuy d d.cost
  | .ask => b.afterSell d

/-- A chunk can be settled in full: the reserve covers a buy, the proceeds cover a sell's fee. -/
def Affords (side : OrderPosition) (b : MarketBudget) (d : Totals) : Prop :=
  match side with
  | .bid => d.cost ≤ b.reservedKrw
  | .ask => d.fee ≤ d.funds

theorem Tracks.observe (h : e.Tracks uuid side x b) (seen : Finset String) (fifo : List String)
    (events : List EngineEvent) :
    Tracks { e with seenTradeUuids := seen, seenTradeUuidFifo := fifo, events := events }
      uuid side x b :=
  ⟨h.stored, h.active, h.token, h.budget⟩

theorem onlySettles_settleChunk (e : MarketEngine) (uuid : String) (side : OrderPosition)
    (d : Totals) : e.OnlySettles (e.settleChunk uuid side d) := by
  unfold settleChunk
  cases side with
  | bid => exact onlySettles_settleBuy e _ _ _ _
  | ask => exact onlySettles_settleSell e _ _

theorem Tracks.settleChunk (h : e.Tracks uuid side x b) (hd : d.Proper) (hpos : 0 < d.volume)
    (hafford : Affords side b d) :
    (e.settleChunk uuid side d).Tracks uuid side x (booked side b d) := by
  obtain ⟨hmkt, hstore, -, huuid, -, -⟩ := onlySettles_settleChunk e uuid side d
  have hfunds := hd.funds_pos hpos
  cases side with
  | bid =>
    obtain ⟨t, htok, hact, htmkt, hrem⟩ := h.token rfl
    have hbuy : e.activeBuyOrderUuid = uuid := h.active
    have hcost : 0 < d.cost := add_pos_of_pos_of_nonneg hfunds hd.fee_nonneg
    have hle : d.cost ≤ t.remaining := by rw [hrem]; exact hafford
    have hbook : e.accountMgr.BooksBuy t d.cost d.volume (d.funds / d.volume) :=
      ⟨hact, hcost, hpos, div_pos hfunds hpos, hcost.trans_le hle, by rw [htmkt, h.budget]; rfl⟩
    have hcharge : AccountManager.charge t d.cost = d.cost := min_eq_left hle
    have hcall : e.settleChunk uuid .bid d =
        { e with
          activeBuyToken := some (t.addConsumed d.cost)
          accountMgr := (e.accountMgr.modifyBudget t.market
            (·.buy d.cost d.volume (d.funds / d.volume))).countFill
              ⟨t.market, .bid, d.volume, d.cost⟩ } := by
      simp only [MarketEngine.settleChunk, settleBuy, htok, hbuy, if_true,
        AccountManager.finalizeFillBuy_booked hbook, hcharge]
    refine ⟨by rw [hstore]; exact h.stored, by rw [huuid]; exact h.active, fun _ => ?_, ?_⟩
    · rw [hcall]
      refine ⟨_, rfl, hact, htmkt, ?_⟩
      rw [t.remaining_addConsumed hle, hrem]
      rfl
    · rw [hcall]
      simp only [AccountManager.getBudget_countFill, htmkt,
        AccountManager.getBudget_modifyBudget_self, h.budget, Option.map_some,
        MarketBudget.buy_eq b hpos hafford]
      rfl
  | ask =>
    have hkrw : 0 ≤ d.funds - d.fee := sub_nonneg.mpr hafford
    have hcall : (e.settleChunk uuid .ask d).accountMgr =
        (e.accountMgr.modifyBudget e.market (·.sell d.volume (d.funds - d.fee))).countFill
          ⟨e.market, .ask, d.volume, d.funds - d.fee⟩ := by
      simp only [MarketEngine.settleChunk, settleSell, max_eq_right hkrw]
      exact AccountManager.finalizeFillSell_booked hpos hkrw (by rw [h.budget]; rfl)
    refine ⟨by rw [hstore]; exact h.stored, by rw [huuid]; exact h.active,
      (fun hside => nomatch hside), ?_⟩
    rw [hmkt, hcall, AccountManager.getBudget_countFill,
      AccountManager.getBudget_modifyBudget_self, h.budget]
    rfl

theorem forMarket_reports {s : Order} {y : Totals} (hs : s.Reports uuid e.market side y) :
    e.forMarket s.market := .inr hs.market_eq

/-- A snapshot of an open order puts its totals in the store, and nothing else. -/
theorem onOrderSnapshot_open (cfg : AppConfig ℚ) {s old : Order} (hm : e.forMarket s.market)
    (hget : e.store.get s.id = some old) (hopen : s.status.isTerminal = false) :
    ∃ store, (∀ id, store.get id =
        if id = s.id then some (mergeSnapshot old s) else e.store.get id) ∧
      e.onOrderSnapshot cfg s = { e with store := store } := by
  obtain ⟨hid, heq⟩ := onOrderSnapshot_known cfg hm hget
  have hnot : ¬ s.status.isTerminal = true := by simp [hopen]
  rw [if_neg hnot] at heq
  refine ⟨_, fun id => ?_, heq⟩
  have hstore := get_onOrderSnapshot cfg hm hget id
  rwa [heq, if_neg hnot] at hstore

theorem Tracks.snapshot (cfg : AppConfig ℚ) {s : Order} {y : Totals} (h : e.Tracks uuid side x b)
    (hs : s.Reports uuid e.market side y) (hopen : s.status.isTerminal = false) :
    ∃ store, e.onOrderSnapshot cfg s = { e with store := store } ∧
      Tracks { e with store := store } uuid side y b := by
  obtain ⟨old, hget, -, -⟩ := h.stored
  rw [← hs.id_eq] at hget
  obtain ⟨store, hstore, heq⟩ := onOrderSnapshot_open cfg (forMarket_reports hs) hget hopen
  refine ⟨store, heq, ⟨mergeSnapshot old s, ?_, hs.totals_eq, hopen⟩, h.active, h.token, h.budget⟩
  rw [hstore, if_pos hs.id_eq.symm]

end MarketEngine
end CoinBot
