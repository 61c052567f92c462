import CoinBot.Engine.Following

/- Many snapshots of an order, or the last one alone.

   A reconciliation settles what the executed volume has grown by since the snapshot
   before, with the growth of funds and fee; the store takes over all three. Growth
   of funds or fee that comes without growth of the volume is taken over unsettled
   (`missed`), and no later snapshot settles it. So the sequence leaves the market's
   budget as its last snapshot alone would exactly when no such growth is worth
   anything (`telescopes_iff`). -/
namespace CoinBot

namespace Totals

/-- The KRW a settlement moves: what a buy costs, what a sell brings. -/
def worth (side : OrderPosition) (x : Totals) : Amount :=
  match side with
  | .bid => x.funds + x.fee
  | .ask => x.funds - x.fee

theorem worth_sub (side : OrderPosition) (x y : Totals) :
    (y - x).worth side = y.worth side - x.worth side := by
  cases side with
  | bid => simp only [worth, funds_sub, fee_sub]; ring
  | ask => simp only [worth, funds_sub, fee_sub]; ring

@[simp] theorem worth_zero (side : OrderPosition) : (0 : Totals).worth side = 0 := by
  cases side <;> simp [worth]

@[simp] theorem worth_bid (x : Totals) : x.worth .bid = x.cost := rfl

/-- No cumulative value falls, and a sell's fee grows by no more than its funds. -/
structure Grows (side : OrderPosition) (x y : Totals) : Prop where
  volume : x.volume ≤ y.volume
  funds : x.funds ≤ y.funds
  fee : x.fee ≤ y.fee
  covered : side = .ask → y.fee - x.fee ≤ y.funds - x.funds

/-- Without growth of the volume there is no growth of what is to be settled. -/
def KeepsPace (side : OrderPosition) (x y : Totals) : Prop :=
  y.volume = x.volume → y.worth side = x.worth side

variable {side : OrderPosition} {x y : Totals} {ys : List Totals}

theorem Grows.worth (h : Grows side x y) : x.worth side ≤ y.worth side := by
  cases side with
  | bid => exact add_le_add h.funds h.fee
  | ask =>
    have hcovered := h.covered rfl
    show x.funds - x.fee ≤ y.funds - y.fee
    linarith

theorem Grows.trans {z : Totals} (h : Grows side x y) (h' : Grows side y z) : Grows side x z := by
  refine ⟨h.volume.trans h'.volume, h.funds.trans h'.funds, h.fee.trans h'.fee, fun hask => ?_⟩
  have h1 := h.covered hask
  have h2 := h'.covered hask
  linarith

instance : Trans (Grows side) (Grows side) (Grows side) := ⟨Grows.trans⟩

theorem KeepsPace.funds_eq (hgrow : Grows .bid x y) (h : KeepsPace .bid x y)
    (hvol : y.volume = x.volume) : y.funds = x.funds := by
  have hworth : y.funds + y.fee = x.funds + x.fee := h hvol
  have hfunds := hgrow.funds
  have hfee := hgrow.fee
  linarith

end Totals

open Totals (Grows KeepsPace worth worth_sub volume_sub)

variable {side : OrderPosition} {x : Totals} {ys : List Totals}

/-- What the snapshots with totals `ys` settle when `x` is stored. -/
def settledBy : Totals → List Totals → List Totals
  | _, [] => []
  | x, y :: ys => if x.volume < y.volume then (y - x) :: settledBy y ys else settledBy y ys

/-- What they are worth that is stored and not settled. -/
def missed (side : OrderPosition) : Totals → List Totals → Amount
  | _, [] => 0
  | x, y :: ys =>
    (if x.volume < y.volume then 0 else y.worth side - x.worth side) + missed side y ys

theorem settled_add_missed (side : OrderPosition) (x : Totals) (ys : List Totals) :
    ((settledBy x ys).map (worth side)).sum + missed side x ys =
      ((x :: ys).getLast (by simp)).worth side - x.worth side := by
  induction ys generalizing x with
  | nil => simp [settledBy, missed]
  | cons y ys ih =>
    rw [List.getLast_cons_cons, settledBy, missed]
    have hrest := ih y
    split
    · rw [List.map_cons, List.sum_cons, worth_sub]
      linarith
    · linarith

theorem volume_settledBy (hgrow : List.IsChain (Grows side) (x :: ys)) :
    ((settledBy x ys).map (·.volume)).sum = ((x :: ys).getLast (by simp)).volume - x.volume := by
  induction ys generalizing x with
  | nil => simp [settledBy]
  | cons y ys ih =>
    rw [List.isChain_cons_cons] at hgrow
    rw [List.getLast_cons_cons, settledBy]
    have hrest := ih hgrow.2
    split
    · rw [List.map_cons, List.sum_cons, volume_sub]
      linarith
    · next hsame =>
      rw [hrest, le_antisymm (not_lt.mp hsame) hgrow.1.volume]

theorem missed_nonneg (hgrow : List.IsChain (Grows side) (x :: ys)) : 0 ≤ missed side x ys := by
  induction ys generalizing x with
  | nil => exact le_rfl
  | cons y ys ih =>
    rw [List.isChain_cons_cons] at hgrow
    refine add_nonneg ?_ (ih hgrow.2)
    split
    · exact le_rfl
    · exact sub_nonneg.mpr hgrow.1.worth

theorem missed_eq_zero_iff (hgrow : List.IsChain (Grows side) (x :: ys)) :
    missed side x ys = 0 ↔ List.IsChain (KeepsPace side) (x :: ys) := by
  induction ys generalizing x with
  | nil => exact iff_of_true rfl (.singleton x)
  | cons y ys ih =>
    rw [List.isChain_cons_cons] at hgrow ⊢
    have hrest := missed_nonneg hgrow.2
    rw [← ih hgrow.2, missed]
    by_cases hmore : x.volume < y.volume
    · rw [if_pos hmore, zero_add]
      exact ⟨fun hzero => ⟨fun hsame => absurd hsame hmore.ne', hzero⟩, fun h => h.2⟩
    · have hworth := hgrow.1.worth
      rw [if_neg hmore]
      constructor
      · intro hzero
        exact ⟨fun _ => by linarith, by linarith⟩
      · rintro ⟨hkeep, hzero⟩
        rw [hkeep (le_antisymm (not_lt.mp hmore) hgrow.1.volume), hzero, sub_self, add_zero]

theorem settledBy_of_volume_eq (hgrow : List.IsChain (Grows side) (x :: ys))
    (hsame : ((x :: ys).getLast (by simp)).volume = x.volume) : settledBy x ys = [] := by
  induction ys generalizing x with
  | nil => rfl
  | cons y ys ih =>
    rw [List.isChain_cons_cons] at hgrow
    rw [List.getLast_cons_cons] at hsame
    have hlast : y.volume ≤ ((y :: ys).getLast (by simp)).volume :=
      le_getLast_of_isChain (hgrow.2.imp (fun _ _ h => h.volume))
    have hxy : y.volume = x.volume := le_antisymm (hsame ▸ hlast) hgrow.1.volume
    rw [settledBy, if_neg (by rw [hxy]; exact lt_irrefl _), ih hgrow.2 (hsame.trans hxy.symm)]

theorem funds_of_keepsPace (hgrow : List.IsChain (Grows .bid) (x :: ys))
    (hkeep : List.IsChain (KeepsPace .bid) (x :: ys)) :
    List.IsChain (fun x y : Totals => y.volume = x.volume → y.funds = x.funds) (x :: ys) := by
  induction ys generalizing x with
  | nil => exact .singleton x
  | cons y ys ih =>
    rw [List.isChain_cons_cons] at hgrow hkeep ⊢
    exact ⟨hkeep.1.funds_eq hgrow.1, ih hgrow.2 hkeep.2⟩

/-- A snapshot whose volume grows can be priced. -/
def Priceable (x y : Totals) : Prop := x.volume < y.volume → x.funds < y.funds

theorem priceable_last (hgrow : List.IsChain (Grows side) (x :: ys))
    (hprice : List.IsChain Priceable (x :: ys)) : Priceable x ((x :: ys).getLast (by simp)) := by
  induction ys generalizing x with
  | nil => exact fun hmore => absurd hmore (lt_irrefl _)
  | cons y ys ih =>
    rw [List.isChain_cons_cons] at hgrow hprice
    rw [List.getLast_cons_cons]
    intro hmore
    have hrest := ih hgrow.2 hprice.2
    have hfunds : y.funds ≤ ((y :: ys).getLast (by simp)).funds :=
      le_getLast_of_isChain (hgrow.2.imp (fun _ _ h => h.funds))
    by_cases hfirst : x.volume < y.volume
    · exact (hprice.1 hfirst).trans_le hfunds
    · exact hgrow.1.funds.trans_lt (hrest ((not_lt.mp hfirst).trans_lt hmore))

theorem chunk_settledBy (hgrow : List.IsChain (Grows side) (x :: ys))
    (hprice : List.IsChain Priceable (x :: ys)) :
    ∀ d ∈ settledBy x ys, d.Proper ∧ 0 < d.volume ∧ (side = .ask → d.fee ≤ d.funds) := by
  induction ys generalizing x with
  | nil => exact fun d hd => absurd hd List.not_mem_nil
  | cons y ys ih =>
    rw [List.isChain_cons_cons] at hgrow hprice
    intro d hd
    rw [settledBy] at hd
    split at hd
    · next hmore =>
      rcases List.mem_cons.mp hd with rfl | hrest
      · have hvol : 0 < y.volume - x.volume := sub_pos.mpr hmore
        have hfunds : 0 < y.funds - x.funds := sub_pos.mpr (hprice.1 hmore)
        exact ⟨⟨hvol.le, sub_nonneg.mpr hgrow.1.fee, fun _ => hfunds,
          fun hzero => absurd hzero hvol.ne'⟩, hvol, hgrow.1.covered⟩
      · exact ih hgrow.2 hprice.2 d hrest
    · exact ih hgrow.2 hprice.2 d hd

/-- They are what the holding acquires from one reading of the totals to the next. -/
theorem foldl_settledBy (h : Holding ℚ) (x : Totals) (ys : List Totals) :
    (settledBy x ys).foldl (fun h d => h.acquire d.volume d.funds) h =
      h.acquireUpTo (·.volume) (·.funds) x ys := by
  induction ys generalizing h x with
  | nil => rfl
  | cons y ys ih =>
    rw [settledBy, Holding.acquireUpTo]
    split
    · exact ih _ y
    · exact ih h y

namespace MarketBudget

/-- The budget once the reserve paid `paid` for what made its coin the holding `h`. -/
def bought (b : MarketBudget) (h : Holding ℚ) (paid : Amount) : MarketBudget :=
  { b with
    reservedKrw := b.reservedKrw - paid
    coinBalance := h.qty
    avgEntryPrice := h.mean }

/-- The budget once coin was sold for `krw`. -/
def sold (b : MarketBudget) (coin : Volume) (krw : Amount) : MarketBudget :=
  { b with coinBalance := b.coinBalance - coin, availableKrw := b.availableKrw + krw }

end MarketBudget

namespace MarketEngine

variable {cfg : AppConfig ℚ} {e : MarketEngine} {uuid : String} {b : MarketBudget}
  {start : Volume} {left : Amount} {ds : List Totals}

/-! The budget of a list of chunks, when the reserve covers them. -/

theorem chunkBudget_bid (hds : ∀ d ∈ ds, d.Proper ∧ 0 < d.volume)
    (hle : (ds.map Totals.cost).sum ≤ left) (hreserve : left ≤ b.reservedKrw) :
    chunkBudget .bid left b ds =
      b.bought (ds.foldl (fun h d => h.acquire d.volume d.funds) b.holding)
        (ds.map Totals.cost).sum := by
  induction ds generalizing left b with
  | nil =>
    show b = b.bought b.holding 0
    simp only [MarketBudget.bought, sub_zero]
    rfl
  | cons d ds ih =>
    obtain ⟨hd, hvol⟩ := hds d List.mem_cons_self
    have hrest : ∀ d' ∈ ds, d'.Proper ∧ 0 < d'.volume :=
      fun d' hd' => hds d' (List.mem_cons_of_mem d hd')
    have hsum : 0 ≤ (ds.map Totals.cost).sum := by
      refine List.sum_nonneg (fun c hc => ?_)
      obtain ⟨d', hd', rfl⟩ := List.mem_map.mp hc
      exact (hrest d' hd').1.cost_nonneg
    have hcost : 0 < d.cost := add_pos_of_pos_of_nonneg (hd.funds_pos hvol) hd.fee_nonneg
    rw [List.map_cons, List.sum_cons] at hle ⊢
    have hpaid : d.cost ≤ left := by linarith
    have hchunk : bookChunk .bid left b d = b.afterBuy d d.cost := by
      simp only [bookChunk, if_pos (hcost.trans_le hpaid), min_eq_left hpaid]
      exact b.buy_eq hvol (hpaid.trans hreserve)
    have hleft : max 0 (left - d.cost) = left - d.cost := max_eq_right (by linarith)
    have hkept : left - d.cost ≤ (b.afterBuy d d.cost).reservedKrw := by
      show left - d.cost ≤ b.reservedKrw - d.cost
      linarith
    have hstep := ih hrest (by linarith) hkept
    rw [chunkBudget, hchunk, hleft, hstep, List.foldl_cons]
    simp only [MarketBudget.bought, MarketBudget.afterBuy, sub_sub]
    rfl

theorem chunkBudget_ask (hds : ∀ d ∈ ds, d.fee ≤ d.funds) :
    chunkBudget .ask left b ds =
      b.sold (ds.map (·.volume)).sum (ds.map (worth .ask)).sum := by
  induction ds generalizing left b with
  | nil =>
    show b = b.sold 0 0
    simp only [MarketBudget.sold, sub_zero, add_zero]
  | cons d ds ih =>
    have hnet : max 0 (d.funds - d.fee) = d.worth .ask :=
      max_eq_right (sub_nonneg.mpr (hds d List.mem_cons_self))
    rw [chunkBudget, ih (fun d' hd' => hds d' (List.mem_cons_of_mem d hd'))]
    simp only [bookChunk, hnet, MarketBudget.sold, MarketBudget.sell, List.map_cons, List.sum_cons,
      sub_sub, add_assoc]

/-- What is given back of a buy, and what is swept, is fixed by the reserve; the rest of the
    closed budget tells the holding and what was paid. -/
theorem closing_bought_iff (account : AccountConfig) (mark : Option Price) {paid paid' : Amount}
    {h h' : Holding ℚ} (hpaid : paid ≤ left) (hpaid' : paid' ≤ left)
    (hreserve : left ≤ b.reservedKrw) :
    closing account mark .bid (left - paid) (b.bought h paid) =
        closing account mark .bid (left - paid') (b.bought h' paid') ↔
      paid = paid' ∧ h = h' := by
  have hgive : ∀ {p : Amount} {g : Holding ℚ}, p ≤ left →
      (if 0 < left - p then (b.bought g p).giveBack (left - p) else b.bought g p) =
        { b with
          reservedKrw := b.reservedKrw - left
          availableKrw := b.availableKrw + (left - p)
          coinBalance := g.qty
          avgEntryPrice := g.mean } := by
    intro p g hp
    split
    · have hrest : left - p ≤ (b.bought g p).reservedKrw := by
        show left - p ≤ b.reservedKrw - p
        linarith
      have hreserved : b.reservedKrw - p - (left - p) = b.reservedKrw - left := by ring
      rw [MarketBudget.giveBack_of_le hrest]
      simp only [MarketBudget.refund, MarketBudget.bought, hreserved]
    · next hnone =>
      have hall : left - p = 0 := le_antisymm (not_lt.mp hnone) (sub_nonneg.mpr hp)
      simp only [MarketBudget.bought, hall, add_zero]
      rw [show p = left by linarith]
  constructor
  · intro heq
    simp only [closing, hgive hpaid, hgive hpaid', MarketBudget.sweepDust] at heq
    split at heq
    · simp only [MarketBudget.mk.injEq] at heq
      obtain ⟨-, havail, -, hqty, hmean, -⟩ := heq
      exact ⟨by linarith, Holding.ext hqty hmean⟩
    · simp only [MarketBudget.mk.injEq] at heq
      obtain ⟨-, havail, -, hqty, hmean, -⟩ := heq
      exact ⟨by linarith, Holding.ext hqty hmean⟩
  · rintro ⟨rfl, rfl⟩
    rfl

theorem closing_sold_iff (account : AccountConfig) (mark : Option Price) {coin : Volume}
    {krw krw' : Amount} {left' : Amount} :
    closing account mark .ask left (b.sold coin krw) =
        closing account mark .ask left' (b.sold coin krw') ↔ krw = krw' := by
  constructor
  · intro heq
    have hdust : (b.sold coin krw).isDust account mark = (b.sold coin krw').isDust account mark :=
      rfl
    have havail : ∀ k, ((b.sold coin k).closeSell account mark).availableKrw =
        b.availableKrw + k := by
      intro k
      unfold MarketBudget.closeSell
      split <;> rfl
    have hsame := congrArg MarketBudget.availableKrw heq
    simp only [closing, havail] at hsame
    linarith
  · rintro rfl
    rfl

/-! One snapshot. -/

theorem reconcile_missing (cfg : AppConfig ℚ) {s : Order} (hget : e.store.get s.id = none) :
    (e.reconcileFromSnapshot cfg s).1 = false := by
  rcases e.reconcileFromSnapshot_cases cfg s with hskip | ⟨prev, -, -, hprev, -, -⟩
  · rw [hskip]
  · rw [hget] at hprev
    exact absurd hprev (by simp)

theorem Following.token_left (h : e.Following uuid .bid x b) :
    ∃ t, e.activeBuyToken = some t ∧ t.active = true ∧ t.market = e.market ∧
      t.remaining = e.left := by
  obtain ⟨t, htok, hact, hmkt⟩ := h.token rfl
  refine ⟨t, htok, hact, hmkt, ?_⟩
  unfold left
  rw [htok]
  rfl

/-- What the stored totals and the snapshot settle, as far as it can be priced. -/
theorem Following.settleDelta_snapshot {s : Order} (h : e.Following uuid side x b)
    (hid : s.id = uuid) (hside : s.position = side) (hgrow : Grows side x s.totals) :
    ∃ prev, e.store.get s.id = some prev ∧ e.settleDelta prev s =
      if x.volume < s.totals.volume then
        if x.funds < s.totals.funds then some (e.settleChunk uuid side (s.totals - x)) else none
      else some e := by
  obtain ⟨prev, hget, htot, -⟩ := h.stored
  rw [← hid] at hget
  have hsum : s.totals = prev.totals + (s.totals - x) := by
    rw [htot]
    ext <;> simp
  have hdelta := settleDelta_grown (e := e) (sub_nonneg.mpr hgrow.volume)
    (sub_nonneg.mpr hgrow.funds) (sub_nonneg.mpr hgrow.fee) hsum
    (by rw [hside, hid]; exact h.active)
    (fun hbid => by
      obtain ⟨t, htok, -⟩ := h.token (hside ▸ hbid)
      rw [htok]; rfl)
  simp only [Totals.volume_sub, Totals.funds_sub, sub_pos, hid, hside] at hdelta
  exact ⟨prev, hget, hdelta⟩

/-- A snapshot is taken when it is of this market and its volume can be priced. -/
theorem Following.reconcile_true_iff (cfg : AppConfig ℚ) {s : Order}
    (h : e.Following uuid side x b) (hid : s.id = uuid) (hside : s.position = side)
    (hgrow : Grows side x s.totals) :
    ((e.reconcileFromSnapshot cfg s).1 = true ↔
      e.forMarket s.market ∧ Priceable x s.totals) ∧
    (e.forMarket s.market → Priceable x s.totals → (e.reconcileFromSnapshot cfg s).2 =
      (if x.volume < s.totals.volume then e.settleChunk uuid side (s.totals - x)
        else e).onOrderSnapshot cfg s) := by
  obtain ⟨prev, hget, hdelta⟩ := h.settleDelta_snapshot hid hside hgrow
  have htaken : e.forMarket s.market → Priceable x s.totals →
      e.reconcileFromSnapshot cfg s = (true,
        (if x.volume < s.totals.volume then e.settleChunk uuid side (s.totals - x)
          else e).onOrderSnapshot cfg s) := by
    intro hm hprice
    refine reconcileFromSnapshot_settled hm hget ?_
    rw [hdelta]
    by_cases hmore : x.volume < s.totals.volume
    · rw [if_pos hmore, if_pos hmore, if_pos (hprice hmore)]
    · rw [if_neg hmore, if_neg hmore]
  refine ⟨⟨fun htrue => ?_, fun ⟨hm, hprice⟩ => by rw [htaken hm hprice]⟩,
    fun hm hprice => by rw [htaken hm hprice]⟩
  rcases e.reconcileFromSnapshot_cases cfg s with hskip | ⟨prev', settled, hm, hget', hsome, -⟩
  · rw [hskip] at htrue
    exact absurd htrue (by simp)
  · obtain rfl : prev = prev' := Option.some.inj (hget.symm.trans hget')
    refine ⟨hm, fun hmore => ?_⟩
    by_contra hfunds
    rw [hdelta, if_pos hmore, if_neg hfunds] at hsome
    exact absurd hsome (by simp)

theorem HasSettled.settleSnapshot {y : Totals} (h : e.HasSettled uuid side x start left b ds)
    (hds : ∀ d ∈ ds, 0 ≤ d.cost) (hgrow : Grows side x y) (hprice : Priceable x y) :
    (if x.volume < y.volume then e.settleChunk uuid side (y - x) else e).HasSettled uuid side x
        start left b (ds ++ settledBy x [y]) ∧
      e.OnlySettles (if x.volume < y.volume then e.settleChunk uuid side (y - x) else e) := by
  by_cases hmore : x.volume < y.volume
  · obtain ⟨hproper, hvol, -⟩ := chunk_settledBy
      (List.isChain_pair.mpr hgrow) (List.isChain_pair.mpr hprice) (y - x)
      (by simp [settledBy, hmore])
    have hone : settledBy x [y] = [y - x] := by simp [settledBy, hmore]
    rw [if_pos hmore, hone]
    exact ⟨h.settleChunk hds hproper hvol, onlySettles_settleChunk e uuid side (y - x)⟩
  · have hnone : settledBy x [y] = [] := by simp [settledBy, hmore]
    rw [if_neg hmore, hnone, List.append_nil]
    exact ⟨h, .refl e⟩

/-! All of them. -/

/-- The engine takes a snapshot of the recovery path. -/
def reconcileStep (cfg : AppConfig ℚ) (e : MarketEngine) (s : Order) : MarketEngine :=
  (e.reconcileFromSnapshot cfg s).2

theorem HasSettled.reconcile_closing (cfg : AppConfig ℚ) {last : Order}
    (h : e.HasSettled uuid side x start left b ds) (hds : ∀ d ∈ ds, 0 ≤ d.cost)
    (hid : last.id = uuid) (hside : last.position = side) (hgrow : Grows side x last.totals)
    (hterm : last.status.isTerminal = true) (hok : (e.reconcileFromSnapshot cfg last).1 = true) :
    Priceable x last.totals ∧ e.forMarket last.market ∧
      (reconcileStep cfg e last).accountMgr.getBudget e.market =
        some (closing cfg.account
          (if 0 < e.lastMarkPrice then some e.lastMarkPrice else none) side
          (Purse.drain Totals.cost left (ds ++ settledBy x [last.totals]))
          (chunkBudget side left b (ds ++ settledBy x [last.totals]))) := by
  obtain ⟨htrue, htaken⟩ := h.following.reconcile_true_iff cfg hid hside hgrow
  obtain ⟨hm, hprice⟩ := htrue.mp hok
  obtain ⟨hsettled, honly⟩ := h.settleSnapshot hds hgrow hprice
  refine ⟨hprice, hm, ?_⟩
  rw [reconcileStep, htaken hm hprice, ← honly.market, ← honly.mark]
  generalize (if x.volume < last.totals.volume then e.settleChunk uuid side (last.totals - x)
    else e) = e1 at hsettled honly ⊢
  obtain ⟨old, hget, -, hopen⟩ := hsettled.following.stored
  rw [← hid] at hget
  have hm' : e1.forMarket last.market := by
    unfold forMarket
    rw [honly.market]
    exact hm
  subst hside
  have hactive := hsettled.following.active.trans hid.symm
  cases hpos : last.position with
  | bid =>
    rw [hpos] at hsettled
    have hclose := budget_close cfg hm' hget hopen hactive
      (fun _ => hsettled.following.token_left) (hpos ▸ hsettled.following.budget) hterm
    rw [hpos, hsettled.left_eq rfl] at hclose
    exact hclose
  | ask =>
    -- A sell has no token: what it has left is nothing to its closing.
    have hclose := fun left => @budget_close _ _ cfg last _ left hm' hget hopen hactive
      (fun hbid => absurd (hpos.symm.trans hbid) (by simp)) hsettled.following.budget hterm
    rw [hpos] at hclose
    exact hclose _

/-- A snapshot is taken: it closes the order, or the order is followed on from it. -/
theorem HasSettled.reconcile_next (cfg : AppConfig ℚ) {s : Order}
    (h : e.HasSettled uuid side x start left b ds) (hds : ∀ d ∈ ds, 0 ≤ d.cost)
    (hid : s.id = uuid) (hside : s.position = side) (hgrow : Grows side x s.totals)
    (hok : (e.reconcileFromSnapshot cfg s).1 = true) :
    Priceable x s.totals ∧
      (s.status.isTerminal = true → (reconcileStep cfg e s).store.get uuid = none) ∧
      (s.status.isTerminal = false →
        (reconcileStep cfg e s).HasSettled uuid side s.totals start left b
            (ds ++ settledBy x [s.totals]) ∧
          (reconcileStep cfg e s).market = e.market ∧
          (reconcileStep cfg e s).lastMarkPrice = e.lastMarkPrice) := by
  obtain ⟨htrue, htaken⟩ := h.following.reconcile_true_iff cfg hid hside hgrow
  obtain ⟨hm, hprice⟩ := htrue.mp hok
  obtain ⟨hsettled, honly⟩ := h.settleSnapshot hds hgrow hprice
  have hstep : reconcileStep cfg e s = _ := htaken hm hprice
  rw [hstep, ← honly.market, ← honly.mark]
  generalize (if x.volume < s.totals.volume then e.settleChunk uuid side (s.totals - x)
    else e) = e1 at hsettled honly ⊢
  have hm' : e1.forMarket s.market := by
    unfold forMarket
    rw [honly.market]
    exact hm
  refine ⟨hprice, fun hclosed => ?_, fun hopen => ?_⟩
  · exact hsettled.following.erased cfg hm' hid hclosed
  · obtain ⟨store, hstored, hfollow⟩ := hsettled.following.stored_open cfg hm' hid hopen
    rw [hstored]
    exact ⟨⟨hfollow, hsettled.booked, hsettled.left_eq⟩, rfl, rfl⟩

/-- The snapshots of an order are taken, the last one closing it: the market's budget is that of
    the chunks they settle. -/
theorem budget_reconcileAll (cfg : AppConfig ℚ) {ss : List Order} {last : Order}
    (h : e.HasSettled uuid side x start left b ds) (hds : ∀ d ∈ ds, 0 ≤ d.cost)
    (hsnap : ∀ s ∈ ss ++ [last], s.id = uuid ∧ s.position = side)
    (hgrow : List.IsChain (Grows side) (x :: (ss ++ [last]).map Order.totals))
    (hterm : last.status.isTerminal = true)
    (hok : Machine.Guarded (reconcileStep cfg)
      (fun e s => (e.reconcileFromSnapshot cfg s).1 = true) e (ss ++ [last])) :
    List.IsChain Priceable (x :: (ss ++ [last]).map Order.totals) ∧ e.forMarket last.market ∧
      (Machine.run (reconcileStep cfg) e (ss ++ [last])).accountMgr.getBudget e.market =
        some (closing cfg.account
          (if 0 < e.lastMarkPrice then some e.lastMarkPrice else none) side
          (Purse.drain Totals.cost left (ds ++ settledBy x ((ss ++ [last]).map Order.totals)))
          (chunkBudget side left b (ds ++ settledBy x ((ss ++ [last]).map Order.totals)))) := by
  induction ss generalizing e x ds with
  | nil =>
    obtain ⟨hid, hside⟩ := hsnap last (by simp)
    obtain ⟨hprice, hm, hbudget⟩ :=
      h.reconcile_closing cfg hds hid hside (List.isChain_pair.mp hgrow) hterm hok.1
    exact ⟨List.isChain_pair.mpr hprice, hm, hbudget⟩
  | cons s ss ih =>
    obtain ⟨hid, hside⟩ := hsnap s (by simp)
    rw [List.cons_append, List.map_cons, List.isChain_cons_cons] at hgrow
    obtain ⟨hnow, hrest⟩ := hok
    obtain ⟨hprice, hgone, hfollow⟩ := h.reconcile_next cfg hds hid hside hgrow.1 hnow
    simp only [List.cons_append, Machine.run_cons]
    generalize reconcileStep cfg e s = e1 at hrest hgone hfollow ⊢
    have hopen : s.status.isTerminal = false := by
      -- A closed order is gone from the store, and the next snapshot would be refused.
      by_contra hclosed
      obtain ⟨next, more, hcons⟩ := List.exists_cons_of_ne_nil (List.append_ne_nil_of_right_ne_nil ss
        (List.cons_ne_nil last []))
      have hnext : next ∈ s :: ss ++ [last] := by
        rw [List.cons_append, hcons]
        exact List.mem_cons_of_mem s List.mem_cons_self
      have hmissing : e1.store.get next.id = none := by
        rw [(hsnap next hnext).1]
        exact hgone (by simpa using hclosed)
      have hfalse := reconcile_missing cfg hmissing
      have hrest' : Machine.Guarded (reconcileStep cfg)
          (fun e s => (e.reconcileFromSnapshot cfg s).1 = true) e1 (next :: more) := hcons ▸ hrest
      exact absurd (hfalse.symm.trans hrest'.1) (by simp)
    obtain ⟨hnext, hmarket, hmark⟩ := hfollow hopen
    have hcosts : ∀ d ∈ ds ++ settledBy x [s.totals], 0 ≤ d.cost := by
      intro d hd
      rcases List.mem_append.mp hd with hold | hnew
      · exact hds d hold
      · exact (chunk_settledBy (List.isChain_pair.mpr hgrow.1) (List.isChain_pair.mpr hprice) d
          hnew).1.cost_nonneg
    obtain ⟨hchain, hlast, hbudget⟩ := ih hnext hcosts
      (fun s' hs' => hsnap s' (List.mem_cons_of_mem s hs')) hgrow.2 hrest
    have happend : settledBy x (s.totals :: (ss ++ [last]).map Order.totals) =
        settledBy x [s.totals] ++ settledBy s.totals ((ss ++ [last]).map Order.totals) := by
      simp only [settledBy]
      split <;> rfl
    rw [List.append_assoc, ← happend, hmarket, hmark] at hbudget
    have hm : e.forMarket last.market := by
      unfold forMarket at hlast ⊢
      rw [← hmarket]
      exact hlast
    exact ⟨List.isChain_cons_cons.mpr ⟨hprice, hchain⟩, hm, hbudget⟩

/-- What the settled chunks and the last snapshot alone leave of the budget. -/
theorem closing_chunks_iff (account : AccountConfig) (mark : Option Price)
    (hgrow : List.IsChain (Grows side) (0 :: ys)) (hprice : List.IsChain Priceable (0 :: ys))
    {last : Totals} (hlast : (0 :: ys).getLast (by simp) = last) (hsome : 0 < last.volume)
    (hclamp : side = .bid → last.cost ≤ left ∧ left ≤ b.reservedKrw)
    (hgrow1 : Grows side 0 last) (hprice1 : Priceable 0 last) :
    closing account mark side (Purse.drain Totals.cost left (settledBy 0 ys))
          (chunkBudget side left b (settledBy 0 ys)) =
        closing account mark side (Purse.drain Totals.cost left (settledBy 0 [last]))
          (chunkBudget side left b (settledBy 0 [last])) ↔
      List.IsChain (KeepsPace side) (0 :: ys) ∧ (side = .bid →
        List.IsChain (b.holding.CrossesAtMean Totals.volume Totals.funds) (0 :: ys)) := by
  -- The chunks settle all but what snapshots add at an unchanged volume (`missed`).
  have hworth := settled_add_missed side 0 ys
  rw [hlast, Totals.worth_zero, sub_zero] at hworth
  have hvolume := volume_settledBy hgrow
  rw [hlast, Totals.volume_zero, sub_zero] at hvolume
  have hnonneg := missed_nonneg hgrow
  have hchunks := chunk_settledBy hgrow hprice
  have hone : settledBy 0 [last] = [last] := by
    have hsub : last - 0 = last := by ext <;> simp
    simp [settledBy, hsome, hsub]
  have hlast1 := chunk_settledBy (List.isChain_pair.mpr hgrow1) (List.isChain_pair.mpr hprice1)
  rw [hone] at hlast1 ⊢
  rw [← missed_eq_zero_iff hgrow]
  cases side with
  | bid =>
    obtain ⟨hcost, hreserve⟩ := hclamp rfl
    have hcosts : ((settledBy 0 ys).map Totals.cost).sum + missed .bid 0 ys = last.cost := hworth
    have hpaid : ((settledBy 0 ys).map Totals.cost).sum ≤ left := by linarith
    have hsingle : ([last].map Totals.cost).sum = last.cost := List.sum_singleton
    have hproper : ∀ d ∈ settledBy 0 ys, 0 ≤ d.cost := fun d hd => (hchunks d hd).1.cost_nonneg
    have hproper1 : ∀ d ∈ [last], 0 ≤ d.cost := fun d hd => (hlast1 d hd).1.cost_nonneg
    rw [Purse.drain_of_le hproper hpaid, Purse.drain_of_le hproper1 (hsingle ▸ hcost),
      chunkBudget_bid (fun d hd => ⟨(hchunks d hd).1, (hchunks d hd).2.1⟩) hpaid hreserve,
      chunkBudget_bid (fun d hd => ⟨(hlast1 d hd).1, (hlast1 d hd).2.1⟩) (hsingle ▸ hcost) hreserve,
      closing_bought_iff account mark hpaid (hsingle ▸ hcost) hreserve, hsingle, foldl_settledBy,
      List.foldl_cons, List.foldl_nil]
    have hmissed : ((settledBy 0 ys).map Totals.cost).sum = last.cost ↔ missed .bid 0 ys = 0 := by
      constructor <;> intro heq <;> linarith
    rw [hmissed]
    refine and_congr_right (fun hzero => ?_)
    -- Nothing is missed: the two differ at most in the mean that a debt is left at.
    have hkeep : List.IsChain (KeepsPace .bid) (0 :: ys) := (missed_eq_zero_iff hgrow).mp hzero
    have hmean := b.holding.acquireUpTo_eq_iff (q := Totals.volume) (c := Totals.funds)
      (x := (0 : Totals)) rfl rfl (hgrow.imp (fun _ _ h => h.volume)) (funds_of_keepsPace hgrow hkeep)
    rw [hlast] at hmean
    rw [hmean]
    exact ⟨fun hcross _ => hcross, fun hcross => hcross rfl⟩
  | ask =>
    have hnets : ((settledBy 0 ys).map (worth .ask)).sum + missed .ask 0 ys = last.worth .ask :=
      hworth
    rw [chunkBudget_ask (fun d hd => (hchunks d hd).2.2 rfl),
      chunkBudget_ask (fun d hd => (hlast1 d hd).2.2 rfl), hvolume]
    simp only [List.map_cons, List.map_nil, List.sum_cons, List.sum_nil, add_zero]
    rw [closing_sold_iff]
    constructor
    · intro heq
      exact ⟨by linarith, fun hbid => nomatch hbid⟩
    · rintro ⟨hzero, -⟩
      linarith

/-- **When settlement telescopes.** An active order has its token or uuid in place and nothing
    stored yet; its snapshots only grow, the last one closes it, all are taken, and the
    reservation covers it. The budget after all of them is that after the last one alone exactly
    when no volume is executed at all, or no snapshot adds something to settle at an unchanged
    volume and, for a buy into a negative balance, the debt is left at its own mean. -/
theorem telescopes_iff (cfg : AppConfig ℚ) (e : MarketEngine) {uuid : String}
    {side : OrderPosition} {b : MarketBudget} (ss : List Order) (last : Order)
    (h : e.Following uuid side 0 b)
    (hsnap : ∀ s ∈ ss ++ [last], s.id = uuid ∧ s.position = side)
    (hgrow : List.IsChain (Grows side) (0 :: (ss ++ [last]).map Order.totals))
    (hterm : last.status.isTerminal = true)
    (hok : Machine.Guarded (reconcileStep cfg)
      (fun e s => (e.reconcileFromSnapshot cfg s).1 = true) e (ss ++ [last]))
    (hclamp : side = .bid → 0 < last.executedVolume →
      last.totals.cost ≤ e.left ∧ e.left ≤ b.reservedKrw) :
    (Machine.run (reconcileStep cfg) e (ss ++ [last])).accountMgr.getBudget e.market =
        (e.reconcileFromSnapshot cfg last).2.accountMgr.getBudget e.market ↔
      last.executedVolume = 0 ∨
      (List.IsChain (KeepsPace side) (0 :: (ss ++ [last]).map Order.totals) ∧ (side = .bid →
        List.IsChain (b.holding.CrossesAtMean Totals.volume Totals.funds)
          (0 :: (ss ++ [last]).map Order.totals))) := by
  have hstart : e.HasSettled uuid side 0 (e.accountMgr.bookedVolume e.market side) e.left b [] := by
    refine ⟨h, ?_, fun _ => rfl⟩
    cases side <;> exact (add_zero _).symm
  obtain ⟨hid, hside⟩ := hsnap last (by simp)
  have hlast : ((0 : Totals) :: (ss ++ [last]).map Order.totals).getLast (by simp) = last.totals := by
    simp [List.getLast_cons]
  have hgrow1 : Grows side 0 last.totals :=
    hgrow.rel_cons (List.mem_map_of_mem (by simp))
  obtain ⟨hprice, hm, hbudget⟩ :=
    budget_reconcileAll cfg hstart (fun d hd => absurd hd List.not_mem_nil) hsnap hgrow hterm hok
  have hprice1 : Priceable 0 last.totals := hlast ▸ priceable_last hgrow hprice
  have htaken := ((h.reconcile_true_iff cfg hid hside hgrow1).1).mpr ⟨hm, hprice1⟩
  have hsnap1 : ∀ s ∈ ([] : List Order) ++ [last], s.id = uuid ∧ s.position = side := by
    simpa using And.intro hid hside
  obtain ⟨-, -, hsingle⟩ := budget_reconcileAll cfg hstart
    (fun d hd => absurd hd List.not_mem_nil) hsnap1 (List.isChain_pair.mpr hgrow1) hterm ⟨htaken, trivial⟩
  rw [List.nil_append] at hbudget hsingle
  have hone : (e.reconcileFromSnapshot cfg last).2.accountMgr.getBudget e.market = _ := hsingle
  rw [hbudget, hone, Option.some_inj]
  by_cases hsome : 0 < last.executedVolume
  · rw [or_iff_right hsome.ne']
    exact closing_chunks_iff cfg.account _ hgrow hprice hlast hsome
      (fun hbid => hclamp hbid hsome) hgrow1 hprice1
  · have hzero : last.executedVolume = 0 := le_antisymm (not_lt.mp hsome) hgrow1.volume
    -- No volume, no chunk: nothing is settled either way.
    refine iff_of_true ?_ (.inl hzero)
    rw [settledBy_of_volume_eq hgrow (by rw [hlast]; exact hzero)]
    have hnone := settledBy_of_volume_eq (List.isChain_pair.mpr hgrow1) hzero
    simp only [List.nil_append, List.map_cons, List.map_nil, hnone]

/-- An engine whose buy is out, its budget, and the snapshots of the buy. -/
def buyingEngine : MarketEngine :=
  (idleEngine.submitReply (AppConfig.standard ℚ) buyRequest (.ok "u1")).2

def buyingBudget : MarketBudget :=
  openedBudget (AppConfig.standard ℚ) buyRequest { market := "KRW-BTC", availableKrw := 10000 }

def buyingSnapshot (volume : Volume) (funds fee : Amount) (status : OrderStatus) : Order :=
  snapshotOf "u1" "KRW-BTC" .bid ⟨volume, funds, fee⟩ status

theorem following_buyingEngine : buyingEngine.Following "u1" .bid 0 buyingBudget :=
  (tracks_submit singleOrder_idleEngine rfl (by decide) (by decide +kernel)).1.following

/-- Volume, funds and fee that grow together telescope. -/
theorem telescopes_iff_buy :
    (Machine.run (reconcileStep (AppConfig.standard ℚ)) buyingEngine
        ([buyingSnapshot 1 1000 1 .open_] ++
          [buyingSnapshot 2 2000 2 .filled])).accountMgr.getBudget buyingEngine.market =
      (buyingEngine.reconcileFromSnapshot (AppConfig.standard ℚ)
        (buyingSnapshot 2 2000 2 .filled)).2.accountMgr.getBudget buyingEngine.market := by
  refine (telescopes_iff (AppConfig.standard ℚ) buyingEngine [buyingSnapshot 1 1000 1 .open_]
    (buyingSnapshot 2 2000 2 .filled) following_buyingEngine
    (by simp [buyingSnapshot, snapshotOf])
    (.cons_cons ⟨by decide +kernel, by decide +kernel, by decide +kernel, fun hask => nomatch hask⟩
      (.cons_cons ⟨by decide +kernel, by decide +kernel, by decide +kernel,
        fun hask => nomatch hask⟩ (.singleton _)))
    rfl ⟨by decide +kernel, by decide +kernel, trivial⟩
    (fun _ _ => ⟨by decide +kernel, by decide +kernel⟩)).mpr (.inr ⟨?_, fun _ => ?_⟩)
  · have h1 : ¬ (1 : ℚ) = 0 := by norm_num
    have h2 : ¬ (2 : ℚ) = 1 := by norm_num
    exact .cons_cons (fun hsame => absurd hsame h1)
      (.cons_cons (fun hsame => absurd hsame h2) (.singleton _))
  · have hpos : ¬ (0 + 1 : ℚ) ≤ 0 := by norm_num
    exact .cons_cons (fun _ _ => (mul_zero _).symm)
      (.cons_cons (fun hdebt => absurd hdebt hpos) (.singleton _))

/-- A fee that a later snapshot reports at the same volume is stored and never settled. -/
theorem not_telescopes :
    ¬ ∀ (cfg : AppConfig ℚ) (e : MarketEngine) (uuid : String) (side : OrderPosition)
      (b : MarketBudget) (ss : List Order) (last : Order), e.Following uuid side 0 b →
      (∀ s ∈ ss ++ [last], s.id = uuid ∧ s.position = side) →
      List.IsChain (Grows side) (0 :: (ss ++ [last]).map Order.totals) →
      last.status.isTerminal = true →
      Machine.Guarded (reconcileStep cfg)
        (fun e s => (e.reconcileFromSnapshot cfg s).1 = true) e (ss ++ [last]) →
      (side = .bid → 0 < last.executedVolume →
        last.totals.cost ≤ e.left ∧ e.left ≤ b.reservedKrw) →
      (Machine.run (reconcileStep cfg) e (ss ++ [last])).accountMgr.getBudget e.market =
        (e.reconcileFromSnapshot cfg last).2.accountMgr.getBudget e.market := by
  intro hall
  have hsame := hall (AppConfig.standard ℚ) buyingEngine "u1" .bid buyingBudget
    [buyingSnapshot 1 1000 0 .open_] (buyingSnapshot 1 1000 1 .filled) following_buyingEngine
    (by simp [buyingSnapshot, snapshotOf])
    (.cons_cons ⟨by decide +kernel, by decide +kernel, by decide +kernel, fun hask => nomatch hask⟩
      (.cons_cons ⟨by decide +kernel, by decide +kernel, by decide +kernel,
        fun hask => nomatch hask⟩ (.singleton _)))
    rfl ⟨by decide +kernel, by decide +kernel, trivial⟩
    (fun _ _ => ⟨by decide +kernel, by decide +kernel⟩)
  exact absurd hsame (by decide +kernel)

end MarketEngine
end CoinBot
