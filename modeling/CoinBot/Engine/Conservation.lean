import CoinBot.Allocation.Reservation
import CoinBot.Engine.SingleOrder

/- No KRW is made or lost by an engine.

   What a market has available and reserved, with what its buys were charged and without what
   its sales brought in, is what it started with (`openingOn`). The clamps of the ledger could
   break this, but under `SingleOrder` no reserve is below what is given back, so every call
   keeps it, for the engine's own market and for all others (`openingOn_call`). -/
namespace CoinBot

/-- What a fill takes out of the budget of its market. -/
def Booking.paid (fill : Booking) : Amount :=
  match fill.side with
  | .bid => fill.krw
  | .ask => -fill.krw

namespace AccountManager

variable {mgr : AccountManager} {m : String} {t : ReservationToken} {cfg : AccountConfig}

/-- What the booked sales of a market brought in. -/
def receivedOn (mgr : AccountManager) (m : String) : Amount :=
  (mgr.stats.fills.map (fun f => if f.market = m ∧ f.side = .ask then f.krw else 0)).sum

/-- The KRW that a market started with, reckoned back from its budget and its fills. -/
def openingOn (mgr : AccountManager) (m : String) : Amount :=
  mgr.availableOn m + mgr.reservedOn m + mgr.spentOn m - mgr.receivedOn m

/-! Updates of a budget. -/

theorem openingOn_congr {mgr' : AccountManager} (hbudget : mgr'.getBudget m = mgr.getBudget m)
    (hfills : mgr'.stats.fills = mgr.stats.fills) : mgr'.openingOn m = mgr.openingOn m := by
  simp only [openingOn, availableOn, reservedOn, spentOn, receivedOn, hbudget, hfills]

theorem openingOn_modifyBudget {f : MarketBudget → MarketBudget}
    (hf : ∀ b, mgr.getBudget m = some b →
      (f b).availableKrw + (f b).reservedKrw = b.availableKrw + b.reservedKrw) :
    (mgr.modifyBudget m f).openingOn = mgr.openingOn := by
  funext m'
  by_cases hm : m' = m
  · subst hm
    have hsum : (mgr.modifyBudget m' f).availableOn m' + (mgr.modifyBudget m' f).reservedOn m' =
        mgr.availableOn m' + mgr.reservedOn m' := by
      simp only [availableOn, reservedOn, getBudget_modifyBudget_self]
      cases hb : mgr.getBudget m' with
      | none => rfl
      | some b => exact hf b hb
    show _ + _ + mgr.spentOn m' - mgr.receivedOn m' = _
    rw [hsum]
    rfl
  · exact openingOn_congr (getBudget_modifyBudget_ne mgr f hm) rfl

theorem openingOn_booked {f : MarketBudget → MarketBudget} {b : MarketBudget} (fill : Booking)
    (hb : mgr.getBudget fill.market = some b)
    (hf : (f b).availableKrw + (f b).reservedKrw + fill.paid = b.availableKrw + b.reservedKrw) :
    ((mgr.modifyBudget fill.market f).countFill fill).openingOn = mgr.openingOn := by
  obtain ⟨m, side, coin, krw⟩ := fill
  funext m'
  by_cases hm : m' = m
  · subst hm
    have hspent : ((mgr.modifyBudget m' f).countFill ⟨m', side, coin, krw⟩).spentOn m' =
        mgr.spentOn m' + if side = .bid then krw else 0 := by
      simp [spentOn]
    have hreceived : ((mgr.modifyBudget m' f).countFill ⟨m', side, coin, krw⟩).receivedOn m' =
        mgr.receivedOn m' + if side = .ask then krw else 0 := by
      simp [receivedOn]
    simp only at hb
    unfold openingOn
    rw [hspent, hreceived, mgr.availableOn_eq hb, mgr.reservedOn_eq hb]
    simp only [availableOn, reservedOn, getBudget_countFill, getBudget_modifyBudget_self, hb,
      Option.map_some, Option.elim_some]
    cases side with
    | bid =>
      simp only [Booking.paid] at hf
      simp only [if_true, reduceCtorEq, if_false]
      linarith
    | ask =>
      simp only [Booking.paid] at hf
      simp only [if_true, reduceCtorEq, if_false]
      linarith
  · have hother : ((mgr.modifyBudget m f).countFill ⟨m, side, coin, krw⟩).getBudget m' =
        mgr.getBudget m' := getBudget_modifyBudget_ne mgr f hm
    simp [openingOn, availableOn, reservedOn, spentOn, receivedOn, hother, Ne.symm hm]

/-! The operations. -/

theorem openingOn_reserve (mgr : AccountManager) (m : String) (krw : Amount) :
    (mgr.reserve m krw).2.openingOn = mgr.openingOn := by
  rcases mgr.reserve_cases m krw with hfail | ⟨b, token, hb, -, -, -, -, -, -, -, hok⟩
  · rw [hfail]
    rfl
  · rw [hok]
    have hheld : (mgr.modifyBudget m (·.hold krw)).openingOn = mgr.openingOn :=
      openingOn_modifyBudget (fun b hb => by simp only [MarketBudget.hold]; ring)
    exact hheld

theorem openingOn_releaseInternal (h : mgr.Reserves t.market t.remaining) :
    (mgr.releaseInternal t.market t.remaining).openingOn = mgr.openingOn := by
  refine openingOn_modifyBudget (fun b hb => ?_)
  rw [MarketBudget.giveBack_of_le (h b hb).ge]
  simp only [MarketBudget.refund]
  ring

theorem openingOn_release (h : mgr.Reserves t.market t.remaining) :
    (mgr.release t).2.openingOn = mgr.openingOn := by
  unfold release
  split
  · rfl
  · exact openingOn_releaseInternal h

theorem openingOn_finalizeOrder (h : mgr.Reserves t.market t.remaining) :
    (mgr.finalizeOrder cfg t).2.openingOn = mgr.openingOn := by
  have hsweep : ∀ mgr : AccountManager,
      (mgr.modifyBudget t.market (·.sweepDust cfg)).openingOn = mgr.openingOn := by
    intro mgr
    refine openingOn_modifyBudget (fun b hb => ?_)
    unfold MarketBudget.sweepDust
    split
    · simp only
      ring
    · rfl
  unfold finalizeOrder
  split
  · rfl
  · split
    · rfl
    · simp only
      rw [hsweep]
      split
      · exact openingOn_releaseInternal h
      · rfl

theorem openingOn_finalizeFillBuy (h : mgr.Reserves t.market t.remaining) (krw coin price : ℚ) :
    (mgr.finalizeFillBuy t krw coin price).2.openingOn = mgr.openingOn := by
  by_cases hbook : mgr.BooksBuy t krw coin price
  · obtain ⟨b, hb⟩ := Option.isSome_iff_exists.mp hbook.2.2.2.2.2
    have hle : charge t krw ≤ t.remaining := min_le_right _ _
    have hnoclamp : ¬ b.reservedKrw - charge t krw < 0 := by
      rw [h b hb]
      linarith
    rw [finalizeFillBuy_booked hbook]
    apply openingOn_booked ⟨t.market, .bid, coin, charge t krw⟩ hb
    simp only [MarketBudget.buy, if_neg hnoclamp, Booking.paid]
    ring
  · rw [finalizeFillBuy_skipped hbook]

theorem openingOn_finalizeFillSell (m : String) (coin krw : ℚ) :
    (mgr.finalizeFillSell m coin krw).openingOn = mgr.openingOn := by
  rcases mgr.finalizeFillSell_cases m coin krw with hskip | ⟨-, -, hsome, hbook⟩
  · rw [hskip]
  · obtain ⟨b, hb⟩ := Option.isSome_iff_exists.mp hsome
    rw [hbook]
    apply openingOn_booked ⟨m, .ask, coin, krw⟩ hb
    simp only [MarketBudget.sell, Booking.paid]
    ring

theorem openingOn_finalizeSellOrder (m : String) (mark : Option Price) :
    (finalizeSellOrder cfg mgr m mark).openingOn = mgr.openingOn := by
  refine openingOn_modifyBudget (fun b _ => ?_)
  obtain ⟨havailable, hreserved⟩ := MarketBudget.closeSell_available cfg b mark
  rw [havailable, hreserved]

end AccountManager

/-! The engine. -/

namespace MarketEngine

variable {cfg : AppConfig ℚ} {e e' : MarketEngine}

/-- The token of the active buy is of the engine's market, and the reserve is what it has left. -/
theorem SingleOrder.reserves_token (h : e.SingleOrder) {token : ReservationToken}
    (htoken : e.activeBuyToken = some token) :
    e.accountMgr.Reserves token.market token.remaining := by
  have hreserves := h.reserves
  rw [htoken] at hreserves
  rw [(h.token_sound token htoken).2]
  exact hreserves

theorem openingOn_settleBuy (h : e.SingleOrder) (orderUuid : String) (krw coin price : ℚ) :
    (e.settleBuy orderUuid krw coin price).accountMgr.openingOn = e.accountMgr.openingOn := by
  rcases e.settleBuy_cases orderUuid krw coin price with hskip | ⟨token, htoken, -, heq⟩
  · rw [hskip]
  · rw [heq]
    exact AccountManager.openingOn_finalizeFillBuy (h.reserves_token htoken) krw coin price

theorem openingOn_settleTrade (h : e.SingleOrder) (t : MyTrade) :
    (e.settleTrade t).accountMgr.openingOn = e.accountMgr.openingOn := by
  unfold settleTrade
  cases t.side with
  | bid => exact openingOn_settleBuy h _ _ _ _
  | ask => exact AccountManager.openingOn_finalizeFillSell _ _ _

theorem openingOn_onMyTrade (h : e.SingleOrder) (t : MyTrade) :
    (e.onMyTrade cfg t).accountMgr.openingOn = e.accountMgr.openingOn := by
  obtain ⟨seen, fifo, hskip | ⟨ord, -, -, heq⟩⟩ := e.onMyTrade_cases cfg t
  · rw [hskip]
  · rw [heq]
    exact openingOn_settleTrade (h.observe seen fifo (e.events ++ fillEvents t ord) _) t

theorem openingOn_settleClose (h : e.SingleOrder) (store : OrderStore) (o : Order) :
    ({ e with store := store }.settleClose cfg o).accountMgr.openingOn =
      e.accountMgr.openingOn := by
  unfold settleClose
  cases o.position with
  | bid =>
    simp only
    split
    · unfold finalizeBuyToken_
      simp only
      split
      · rfl
      · next token htoken =>
        split
        · rfl
        · exact AccountManager.openingOn_finalizeOrder (h.reserves_token htoken)
    · rfl
  | ask =>
    simp only
    split
    · exact AccountManager.openingOn_finalizeSellOrder _ _
    · rfl

theorem openingOn_onOrderSnapshot (h : e.SingleOrder) (s : Order) :
    (e.onOrderSnapshot cfg s).accountMgr.openingOn = e.accountMgr.openingOn := by
  by_cases hskip : ¬ e.forMarket s.market ∨ e.store.get s.id = none
  · rw [onOrderSnapshot_skip hskip]
  · rw [not_or, not_not] at hskip
    obtain ⟨old, hget⟩ := Option.ne_none_iff_exists'.mp hskip.2
    obtain ⟨hid, heq⟩ := onOrderSnapshot_known cfg hskip.1 hget
    rw [heq]
    split
    · simp only
      split
      · exact openingOn_settleClose h _ _
      · rfl
    · rfl

theorem openingOn_reconcile (h : e.SingleOrder) (s : Order) :
    (e.reconcileFromSnapshot cfg s).2.accountMgr.openingOn = e.accountMgr.openingOn := by
  rcases e.reconcileFromSnapshot_cases cfg s with hskip | ⟨prev, settled, -, -, hdelta, heq⟩
  · rw [hskip]
  · rw [heq, openingOn_onOrderSnapshot (h.settleDelta hdelta)]
    rcases settleDelta_cases hdelta with rfl | ⟨krw, coin, price, rfl⟩ | ⟨coin, krw, rfl⟩
    · rfl
    · exact openingOn_settleBuy h _ _ _ _
    · exact AccountManager.openingOn_finalizeFillSell _ _ _

theorem openingOn_submit (h : e.SingleOrder) (req : OrderRequest ℚ)
    (reply : Except RestError String) :
    (e.submitReply cfg req reply).2.accountMgr.openingOn = e.accountMgr.openingOn := by
  unfold submitReply submit
  rcases e.beforePost_cases cfg req with ⟨code, message, hfail⟩ | ⟨message, hfail⟩ |
    ⟨-, -, hpos, htoken, -, token, mgr, hres, hok⟩ | ⟨-, -, hpos, -, -, hok⟩
  · rw [hfail]
  · rw [hfail]
    rfl
  · rw [hok]
    have hheld := AccountManager.openingOn_reserve e.accountMgr e.market
      (computeReserveAmount cfg req)
    rw [hres] at hheld
    cases reply with
    | ok uuid => simpa only [afterPost, hpos] using hheld
    | error err =>
      have hcov := h.reserves
      rw [htoken] at hcov
      rcases AccountManager.reserves_reserve (computeReserveAmount cfg req) hcov with
        ⟨hnone, -⟩ | ⟨token', htoken', -, hmarket, hreserves⟩
      · rw [hres] at hnone
        cases hnone
      · rw [hres] at htoken' hreserves
        obtain rfl := Option.some.inj htoken'
        simp only [afterPost, hpos, releaseBuyToken]
        rw [AccountManager.openingOn_release (by rw [hmarket]; exact hreserves), hheld]
  · rw [hok]
    cases reply with
    | ok uuid => simp only [afterPost, hpos]
    | error err => simp only [afterPost, hpos]

/-- Whatever is called, in no market is any KRW made or lost. -/
theorem openingOn_call (cfg : AppConfig ℚ) (h : e.SingleOrder) (c : EngineCall) :
    (e.call cfg c).accountMgr.openingOn = e.accountMgr.openingOn := by
  cases c with
  | submit req reply => exact openingOn_submit h req reply
  | message msg =>
    cases msg with
    | trade t => exact openingOn_onMyTrade h t
    | snapshot s => exact openingOn_onOrderSnapshot h s
    | reconcile s => exact openingOn_reconcile h s
  | setMarkPrice p => rfl
  | pollEvents => rfl

end MarketEngine
end CoinBot
