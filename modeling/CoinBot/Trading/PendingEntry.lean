import CoinBot.Trading.StrategyState
import Mathlib.Algebra.Group.Prod
import Mathlib.Algebra.Order.Field.Basic

/- A pending entry, from the decision to its confirmation.

   While it waits, the strategy adds up the volume and the cost of the fills that are
   reported. The terminal event confirms the entry at their mean price, or at that of
   the order's totals when no fill was reported. -/
namespace CoinBot.RsiMeanReversionStrategy

variable {α : Type} [Field α] [LinearOrder α] {st : RsiMeanReversionStrategy α} {cid : String}
  {acc : α × α}

/-- Volume and cost of a fill. -/
def fillAmounts (fill : FillEvent α) : α × α :=
  (fill.filledVolume, fill.fillPrice * fill.filledVolume)

/-- The strategy waits for the buy `cid`, and the fills reported of it have the volume and the
    cost `acc`. -/
structure AwaitsEntry (st : RsiMeanReversionStrategy α) (cid : String) (acc : α × α) : Prop where
  state : st.state = .pendingEntry
  pending : st.pendingClientId = some cid
  filled : (st.pendingFilledVolume, st.pendingCostSum) = acc

/-- The entry price is `entry`, and the stop and the target are computed from it. -/
def EnteredAt (st : RsiMeanReversionStrategy α) (entry : α) : Prop :=
  st.entryPrice = some entry ∧
    st.stopPrice = some (entry * (1 - max 0 st.params.stopLossPct / 100)) ∧
    st.targetPrice = some (entry * (1 + max 0 st.params.profitTargetPct / 100))

theorem AwaitsEntry.onFill (h : st.AwaitsEntry cid acc) {fill : FillEvent α}
    (hid : fill.identifier = cid) (hvol : 0 < fill.filledVolume) :
    (st.onFill fill).AwaitsEntry cid (acc + fillAmounts fill) := by
  have hown : ¬ st.pendingClientId ≠ some fill.identifier := by
    rw [h.pending, hid]
    exact fun hne => hne rfl
  unfold RsiMeanReversionStrategy.onFill
  simp only [if_neg hown, if_pos hvol]
  refine ⟨h.state, h.pending, ?_⟩
  rw [← h.filled]
  rfl

theorem enteredAt_enterAt (st : RsiMeanReversionStrategy α) (entry : α) :
    (st.enterAt entry).EnteredAt entry := ⟨rfl, rfl, rfl⟩

variable [IsStrictOrderedRing α]

/-- The terminal event of an entry with some execution confirms it: at the mean price of the
    reported fills if there are any, else at that of the order's totals. -/
theorem AwaitsEntry.onOrderUpdate (h : st.AwaitsEntry cid acc) (ev : OrderStatusEvent α)
    (hid : ev.identifier = cid) (hterm : ev.status.isTerminal = true)
    (heffect : ev.positionEffect = .opened) (hvol : 0 < ev.executedVolume)
    (hfunds : 0 < ev.executedFunds) (hacc : 0 < acc.1 → 0 < acc.2) (nowMs : Int) :
    let price := if 0 < acc.1 then acc.2 / acc.1 else ev.executedFunds / ev.executedVolume
    ∃ signal, (st.onOrderUpdate ev nowMs).1 = some signal ∧ signal.side = .buy ∧
      signal.price = price ∧
      signal.volume = (if 0 < acc.1 then acc.1 else ev.executedVolume) ∧
      (st.onOrderUpdate ev nowMs).2.EnteredAt price ∧
      (st.onOrderUpdate ev nowMs).2.state = .inPosition := by
  intro price
  have hprice : 0 < price := by
    by_cases hreported : 0 < acc.1
    · simp only [price, if_pos hreported]
      exact div_pos (hacc hreported) hreported
    · simp only [price, if_neg hreported]
      exact div_pos hfunds hvol
  have hfinal : st.finalPrice ev = price := by
    simp only [finalPrice, ← h.filled, price, hvol, hfunds, and_self, if_true]
  have hconfirm : st.onOrderUpdate ev nowMs =
      ((st.confirmEntry cid ev nowMs).1, (st.confirmEntry cid ev nowMs).2.clearPendingState) := by
    unfold RsiMeanReversionStrategy.onOrderUpdate
    simp [h.pending, h.state, hid, hterm, heffect]
  have hentered : st.confirmEntry cid ev nowMs =
      (some
        { market := st.market
          identifier := cid
          side := .buy
          price := price
          volume := st.filledVolume ev
          krwAmount := st.krwAmount ev
          stopPrice := (st.enterAt price).stopPrice
          targetPrice := (st.enterAt price).targetPrice
          rsi := st.signalSnapshot.rsi.asOptional
          volatility := st.signalSnapshot.volatility.asOptional
          trendStrength :=
            if st.signalSnapshot.trendReady then some st.signalSnapshot.trendStrength else none
          isPartial := 0
          tsMs := nowMs },
       { st.enterAt price with state := .inPosition }) := by
    unfold confirmEntry
    simp only [hfinal, if_pos hprice]
    rfl
  rw [hconfirm, hentered]
  refine ⟨_, rfl, rfl, rfl, ?_, st.enteredAt_enterAt price, rfl⟩
  show st.filledVolume ev = _
  rw [filledVolume, ← h.filled]

end CoinBot.RsiMeanReversionStrategy
