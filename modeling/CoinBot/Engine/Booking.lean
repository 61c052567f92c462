import CoinBot.Engine.Execution

/- What the ledger has booked for an order.

   `Stats.fills` is the list of what `finalizeFillBuy` and `finalizeFillSell` booked, so
   the volume settled for an order is what was booked for its market and side since its
   submission. Nothing but the settlement of a trade or of a delta books anything. -/
namespace CoinBot

namespace AccountManager

/-- The coin booked for a market and a side. -/
def bookedVolume (mgr : AccountManager) (m : String) (side : OrderPosition) : Volume :=
  ((mgr.stats.fills.filter (fun b => b.market = m ∧ b.side = side)).map (·.coin)).sum

variable {mgr mgr' : AccountManager} {m : String} {side : OrderPosition}

theorem bookedVolume_congr (h : mgr'.stats.fills = mgr.stats.fills) :
    mgr'.bookedVolume m side = mgr.bookedVolume m side := by
  unfold bookedVolume
  rw [h]

theorem bookedVolume_append (mgr : AccountManager) {b : Booking} (h : mgr'.stats.fills = mgr.stats.fills ++ [b]) :
    mgr'.bookedVolume m side =
      mgr.bookedVolume m side + if b.market = m ∧ b.side = side then b.coin else 0 := by
  unfold bookedVolume
  rw [h, List.filter_append, List.map_append, List.sum_append]
  by_cases hb : b.market = m ∧ b.side = side
  · simp [hb]
  · simp [hb]

theorem fills_finalizeOrder (cfg : AccountConfig) (mgr : AccountManager) (t : ReservationToken) :
    (mgr.finalizeOrder cfg t).2.stats.fills = mgr.stats.fills := by
  unfold finalizeOrder
  split
  · rfl
  · split
    · rfl
    · simp only [stats_modifyBudget]
      split
      · rfl
      · rfl

end AccountManager

namespace MarketEngine

variable {cfg : AppConfig ℚ} {e : MarketEngine}

/-! A snapshot books nothing. -/

theorem fills_settleClose (cfg : AppConfig ℚ) (e : MarketEngine) (o : Order) :
    (e.settleClose cfg o).accountMgr.stats.fills = e.accountMgr.stats.fills := by
  unfold settleClose
  cases o.position with
  | bid =>
    simp only
    split
    · unfold finalizeBuyToken_
      split
      · rfl
      · next token htok =>
        split
        · rfl
        · exact AccountManager.fills_finalizeOrder cfg.account e.accountMgr token
    · rfl
  | ask =>
    simp only
    split
    · rfl
    · rfl

theorem fills_onOrderSnapshot (cfg : AppConfig ℚ) (e : MarketEngine) (s : Order) :
    (e.onOrderSnapshot cfg s).accountMgr.stats.fills = e.accountMgr.stats.fills := by
  by_cases hskip : ¬ e.forMarket s.market ∨ e.store.get s.id = none
  · rw [onOrderSnapshot_skip hskip]
  · rw [not_or, not_not] at hskip
    obtain ⟨old, hget⟩ := Option.ne_none_iff_exists'.mp hskip.2
    obtain ⟨hid, heq⟩ := onOrderSnapshot_known cfg hskip.1 hget
    rw [heq]
    split
    · simp only
      split
      · exact fills_settleClose cfg { e with store := e.store.put (mergeSnapshot old s) hid } _
      · rfl
    · rfl

theorem fills_submitReply {req : OrderRequest ℚ} {uuid : String}
    (hok : (e.submitReply cfg req (.ok uuid)).1.success = true) :
    (e.submitReply cfg req (.ok uuid)).2.accountMgr.stats.fills = e.accountMgr.stats.fills := by
  obtain ⟨-, -, -, token, mgr, heq, hside⟩ := submitReply_accepted hok
  rw [heq, (afterPost_frame _ req uuid).2.1]
  cases hpos : req.position with
  | bid =>
    rw [hpos] at hside
    obtain ⟨-, -, -, -, -, -, -, -, rfl⟩ := hside
    rw [AccountManager.fills_countReserve, AccountManager.stats_modifyBudget]
  | ask =>
    rw [hpos] at hside
    rw [hside.2]

/-! What a settlement books exactly. -/

/-- A chunk of the active buy is booked in full while its token has anything left. -/
theorem booked_settleBuy {t : ReservationToken} {id : String} {krw coin price : ℚ}
    (htok : e.activeBuyToken = some t) (hact : t.active = true) (hmkt : t.market = e.market)
    (hid : e.activeBuyOrderUuid = id) (hreg : (e.accountMgr.getBudget e.market).isSome)
    (hkrw : 0 < krw) (hcoin : 0 < coin) (hprice : 0 < price) :
    (e.settleBuy id krw coin price).accountMgr.bookedVolume e.market .bid =
        e.accountMgr.bookedVolume e.market .bid + (if 0 < t.remaining then coin else 0) ∧
      (e.settleBuy id krw coin price).accountMgr.getBudget e.market =
        (e.accountMgr.getBudget e.market).map (fun b =>
          if 0 < t.remaining then b.buy (AccountManager.charge t krw) coin price else b) ∧
      ∃ t', (e.settleBuy id krw coin price).activeBuyToken = some t' ∧ t'.active = true ∧
        t'.market = e.market ∧ t'.remaining = max 0 (t.remaining - krw) := by
  have hcall : e.settleBuy id krw coin price =
      { e with
        activeBuyToken := some (e.accountMgr.finalizeFillBuy t krw coin price).1
        accountMgr := (e.accountMgr.finalizeFillBuy t krw coin price).2 } := by
    simp only [settleBuy, htok, hid, if_true]
  rw [hcall]
  by_cases hrem : 0 < t.remaining
  · have hbook : e.accountMgr.BooksBuy t krw coin price :=
      ⟨hact, hkrw, hcoin, hprice, hrem, hmkt ▸ hreg⟩
    rw [AccountManager.finalizeFillBuy_booked hbook]
    have hle : AccountManager.charge t krw ≤ t.remaining := min_le_right _ _
    refine ⟨?_, ?_, _, rfl, hact, hmkt, ?_⟩
    · rw [AccountManager.bookedVolume_append e.accountMgr rfl, if_pos ⟨hmkt, rfl⟩,
        if_pos hrem]
    · simp only [AccountManager.getBudget_countFill, if_pos hrem]
      rw [hmkt, AccountManager.getBudget_modifyBudget_self]
    · rw [t.remaining_addConsumed hle]
      unfold AccountManager.charge
      rcases le_total krw t.remaining with hfits | hover
      · rw [min_eq_left hfits, max_eq_right (sub_nonneg.mpr hfits)]
      · rw [min_eq_right hover, max_eq_left (sub_nonpos.mpr hover), sub_self]
  · have hskip : ¬ e.accountMgr.BooksBuy t krw coin price := fun hbook => hrem hbook.2.2.2.2.1
    rw [AccountManager.finalizeFillBuy_skipped hskip]
    have hzero : t.remaining = 0 := le_antisymm (not_lt.mp hrem) t.remaining_nonneg
    refine ⟨?_, ?_, t, rfl, hact, hmkt, ?_⟩
    · rw [if_neg hrem, add_zero]
    · simp [hrem]
    · rw [hzero, max_eq_left (by linarith)]

theorem booked_settleSell {coin krw : ℚ} (hcoin : 0 < coin) (hkrw : 0 ≤ krw)
    (hreg : (e.accountMgr.getBudget e.market).isSome) :
    (e.settleSell coin krw).accountMgr.bookedVolume e.market .ask =
      e.accountMgr.bookedVolume e.market .ask + coin := by
  unfold settleSell
  rw [AccountManager.finalizeFillSell_booked hcoin hkrw hreg,
    AccountManager.bookedVolume_append e.accountMgr rfl, if_pos ⟨rfl, rfl⟩]

end MarketEngine
end CoinBot
