import CoinBot.Lib.Machine
import CoinBot.Trading.PendingEntry
import Mathlib.Tactic.Linarith
import Mathlib.Tactic.Positivity
import Mathlib.Tactic.Ring

/- The strategy as a state machine: seven calls, in any order.

   Two parts of the strategy follow its state. `Waits` is about the pending order: there
   is one exactly in the two waiting states, and nothing is left of it in the others.
   `Priced` is about the prices of the position: a strategy without a position has none,
   and a stop and a target are always those of a positive entry. The order of the prices,
   and that the stop and the target are never hit together, follow from `Priced`.

   A candle may first move the state to what the account really holds; an order is
   decided on in the state after that. -/
namespace CoinBot

/-- A call of the strategy, with its arguments. -/
inductive StrategyCall (α : Type) where
  | onCandle (c : Candle α) (account : AccountSnapshot α)
  | onIntrabarCandle (intrabarClose : α) (account : AccountSnapshot α)
  | onFill (fill : FillEvent α)
  | onOrderUpdate (ev : OrderStatusEvent α) (nowMs : Int)
  | onSubmitFailed
  | syncOnStart (pos : PositionSnapshot α)
  | reset

/-- The candles that are passed to `onCandle` close above zero. -/
def StrategyCall.PositiveClose {α : Type} [Zero α] [LT α] : StrategyCall α → Prop
  | .onCandle c _ => 0 < c.closePrice
  | _ => True

/-- One of the two percentages puts the stop and the target apart. -/
def Params.Apart {α : Type} [Zero α] [LT α] (p : Params α) : Prop :=
  0 < p.stopLossPct ∨ 0 < p.profitTargetPct

namespace RsiMeanReversionStrategy

variable {α : Type} [Field α] [LinearOrder α]

/-- What a call returns; only a candle leads to a decision. -/
def call (env : StrategyEnv α) (st : RsiMeanReversionStrategy α) :
    StrategyCall α → Decision α × RsiMeanReversionStrategy α
  | .onCandle c account => st.onCandle env c account
  | .onIntrabarCandle intrabarClose account => st.onIntrabarCandle env intrabarClose account
  | .onFill fill => (.noAction, st.onFill fill)
  | .onOrderUpdate ev nowMs => (.noAction, (st.onOrderUpdate ev nowMs).2)
  | .onSubmitFailed => (.noAction, st.onSubmitFailed)
  | .syncOnStart pos => (.noAction, st.syncOnStart pos)
  | .reset => (.noAction, st.reset)

def step (env : StrategyEnv α) (st : RsiMeanReversionStrategy α) (c : StrategyCall α) :
    RsiMeanReversionStrategy α :=
  (st.call env c).2

/-- Nothing is left of an order. -/
def NoFills (st : RsiMeanReversionStrategy α) : Prop :=
  st.pendingFilledVolume = 0 ∧ st.pendingCostSum = 0 ∧ st.pendingLastPrice = 0 ∧
    st.pendingExitReason = ""

/-- An order is pending exactly in the waiting states. -/
structure Waits (st : RsiMeanReversionStrategy α) : Prop where
  pending : st.pendingClientId.isSome = true ↔ st.state = .pendingEntry ∨ st.state = .pendingExit
  cleared : st.pendingClientId = none → st.NoFills

/-- No entry price, no stop and no target. -/
def Unpriced (st : RsiMeanReversionStrategy α) : Prop :=
  st.entryPrice = none ∧ st.stopPrice = none ∧ st.targetPrice = none

/-- The prices are those of a position, and without one there are none. -/
structure Priced (st : RsiMeanReversionStrategy α) : Prop where
  unpriced : st.state = .flat ∨ st.state = .pendingEntry → st.Unpriced
  prices : st.Unpriced ∨ ∃ entry, 0 < entry ∧ st.EnteredAt entry

/-- The tag does not say that the stop and the target were hit at once. -/
def NotBoth (tag : String) : Prop :=
  tag ≠ "exit_stop_target" ∧ tag ≠ "exit_stop_target_rsi_overbought"

/-- What holds of a strategy with the settings `p` between two calls. -/
structure WellFormed (p : Params α) (st : RsiMeanReversionStrategy α) : Prop where
  params : st.params = p
  pending : st.pendingClientId.isSome = true ↔ st.state = .pendingEntry ∨ st.state = .pendingExit
  cleared : st.pendingClientId = none → st.NoFills
  unpriced : st.state = .flat ∨ st.state = .pendingEntry → st.Unpriced
  prices : st.Unpriced ∨ ∃ entry stop target,
    st.entryPrice = some entry ∧ st.stopPrice = some stop ∧ st.targetPrice = some target ∧
      0 < entry ∧ stop ≤ entry ∧ entry ≤ target ∧ (p.Apart → stop < target)
  tag : p.Apart → NotBoth st.pendingExitReason

/-- The state in which the call decides: a candle heals the state first. -/
def decidingState (env : StrategyEnv α) (st : RsiMeanReversionStrategy α) :
    StrategyCall α → StrategyState
  | .onCandle c account => (st.selfHeal env c.closePrice account).state
  | _ => st.state

/-- An order that the call returns is a buy that takes the state from flat to its wait, or a sell
    that takes it from a position to its wait. No order was pending, and this one is now. -/
def OrdersFrom (before : StrategyState) (env : StrategyEnv α) (st : RsiMeanReversionStrategy α)
    (c : StrategyCall α) : Prop :=
  ∀ req, (st.call env c).1.order = some req →
    (before = .flat ∧ (st.step env c).state = .pendingEntry ∧ req.position = .bid ∨
      before = .inPosition ∧ (st.step env c).state = .pendingExit ∧ req.position = .ask) ∧
    st.pendingClientId = none ∧ (st.step env c).pendingClientId = some req.identifier ∧
    (st.params.Apart → NotBoth req.clientTag)

variable {st : RsiMeanReversionStrategy α} {p : Params α}

/-! The pending order. -/

omit [LinearOrder α] in
theorem Waits.idle_iff (h : st.Waits) : st.state.isIdle = true ↔ st.pendingClientId = none := by
  rw [← Option.not_isSome_iff_eq_none, h.pending]
  cases st.state <;> simp [StrategyState.isIdle]

omit [LinearOrder α] in
theorem waits_idle (hnone : st.pendingClientId = none) (hidle : st.state.isIdle = true)
    (hfills : st.NoFills) : st.Waits := by
  refine ⟨iff_of_false ?_ ?_, fun _ => hfills⟩
  · rw [hnone]
    exact Bool.false_ne_true
  · rintro (h | h)
    · rw [h] at hidle
      cases hidle
    · rw [h] at hidle
      cases hidle

omit [LinearOrder α] in
theorem waits_clearPendingState (hidle : st.state.isIdle = true) : st.clearPendingState.Waits :=
  waits_idle rfl hidle ⟨rfl, rfl, rfl, rfl⟩

theorem Waits.selfHeal (h : st.Waits) (env : StrategyEnv α) (close : α)
    (account : AccountSnapshot α) : (st.selfHeal env close account).Waits := by
  rcases st.selfHeal_cases env close account with hstay | ⟨hflat, -, henter⟩ | ⟨hpos, -, hleave⟩
  · rw [hstay]
    exact h
  · have hnone := h.idle_iff.mp (by rw [hflat]; rfl)
    rw [henter]
    exact waits_idle hnone rfl (h.cleared hnone)
  · have hnone := h.idle_iff.mp (by rw [hpos]; rfl)
    rw [hleave]
    exact waits_idle hnone rfl (h.cleared hnone)

omit [LinearOrder α] in
theorem waits_submitEntry (env : StrategyEnv α) (st : RsiMeanReversionStrategy α) (s : Snapshot α)
    (krwToUse : α) : (st.submitEntry env s krwToUse).2.Waits :=
  ⟨iff_of_true rfl (.inl rfl), fun hnone => absurd hnone (by simp [submitEntry])⟩

omit [LinearOrder α] in
theorem waits_exitWith (env : StrategyEnv α) (st : RsiMeanReversionStrategy α) (s : Snapshot α)
    (coin : α) (tag : String) : (st.exitWith env s coin tag).2.Waits :=
  ⟨iff_of_true rfl (.inr rfl), fun hnone => absurd hnone (by simp [exitWith, submitExit])⟩

theorem Waits.decideOn (h : st.Waits) (env : StrategyEnv α) (s : Snapshot α)
    (account : AccountSnapshot α) : (st.decideOn env s account).2.Waits := by
  unfold RsiMeanReversionStrategy.decideOn
  cases st.state with
  | flat =>
    rcases st.maybeEnter_cases env s account with hnone | ⟨krwToUse, -, -, -, -, -, -, hsubmit⟩
    · simp only [hnone]
      exact h
    · simp only [hsubmit]
      exact waits_submitEntry env st s krwToUse
  | inPosition =>
    rcases st.maybeExit_cases env s account with ⟨seq, hnone⟩ | ⟨_, _, _, -, hsubmit⟩
    · simp only [hnone]
      exact ⟨h.pending, h.cleared⟩
    · simp only [hsubmit]
      exact waits_exitWith env st s _ _
  | pendingEntry | pendingExit => exact h

theorem Waits.onFill (h : st.Waits) (fill : FillEvent α) : (st.onFill fill).Waits := by
  obtain ⟨hid, hstate⟩ := st.onFill_frame fill
  refine ⟨?_, fun hnone => ?_⟩
  · rw [hid, hstate]
    exact h.pending
  · rw [hid] at hnone
    have hskip : st.onFill fill = st := by
      unfold RsiMeanReversionStrategy.onFill
      exact if_pos (by rw [hnone]; simp)
    rw [hskip]
    exact h.cleared hnone

theorem Waits.onOrderUpdate (h : st.Waits) (ev : OrderStatusEvent α) (nowMs : Int) :
    (st.onOrderUpdate ev nowMs).2.Waits := by
  rcases st.onOrderUpdate_cases ev nowMs with hskip | ⟨cid, next, -, hnext, hcases⟩
  · rw [hskip]
    exact h
  · rw [hnext]
    refine waits_clearPendingState ?_
    rcases hcases with rfl | ⟨-, rfl⟩ | ⟨-, rfl⟩ | ⟨-, rfl⟩
    · unfold rollBack
      simp only
      split
      · rfl
      · rfl
    · rfl
    · rfl
    · rfl

omit [LinearOrder α] in
/-- A failed submission ends the wait, with the strategy back in the state before it. -/
theorem Waits.onSubmitFailed_eq (h : st.Waits) :
    st.onSubmitFailed =
      match st.state with
      | .pendingEntry => { st.clearPendingState with state := .flat }
      | .pendingExit => { st.clearPendingState with state := .inPosition }
      | .flat | .inPosition => st := by
  unfold onSubmitFailed
  cases hid : st.pendingClientId with
  | none =>
    have hidle := h.idle_iff.mpr hid
    cases hstate : st.state with
    | flat | inPosition => rfl
    | pendingEntry | pendingExit =>
      rw [hstate] at hidle
      cases hidle
  | some cid =>
    have hbusy := h.pending.mp (by rw [hid]; rfl)
    cases hstate : st.state with
    | flat | inPosition =>
      rw [hstate] at hbusy
      rcases hbusy with hbusy | hbusy <;> cases hbusy
    | pendingEntry | pendingExit => rfl

omit [LinearOrder α] in
theorem Waits.onSubmitFailed (h : st.Waits) : st.onSubmitFailed.Waits := by
  rw [h.onSubmitFailed_eq]
  cases st.state with
  | flat | inPosition => exact h
  | pendingEntry | pendingExit => exact waits_idle rfl rfl ⟨rfl, rfl, rfl, rfl⟩

theorem waits_syncOnStart (st : RsiMeanReversionStrategy α) (pos : PositionSnapshot α) :
    (st.syncOnStart pos).Waits := by
  unfold syncOnStart
  simp only
  split
  · exact waits_idle rfl rfl ⟨rfl, rfl, rfl, rfl⟩
  · exact waits_idle rfl rfl ⟨rfl, rfl, rfl, rfl⟩

theorem pendingClientId_syncOnStart (st : RsiMeanReversionStrategy α) (pos : PositionSnapshot α) :
    (st.syncOnStart pos).pendingClientId = none := by
  unfold syncOnStart
  simp only
  split
  · rfl
  · rfl

omit [LinearOrder α] in
theorem waits_reset (st : RsiMeanReversionStrategy α) : st.reset.Waits :=
  waits_idle rfl rfl ⟨rfl, rfl, rfl, rfl⟩

theorem Waits.step (h : st.Waits) (env : StrategyEnv α) (c : StrategyCall α) :
    (st.step env c).Waits := by
  cases c with
  | onCandle c account =>
    show (st.onCandle env c account).2.Waits
    rcases st.onCandle_cases env c account with hskip | ⟨-, heq⟩
    · rw [hskip]
      exact h
    · have hobserved : (st.observe env c).2.Waits := ⟨h.pending, h.cleared⟩
      rw [heq]
      exact (hobserved.selfHeal env c.closePrice account).decideOn env _ account
  | onIntrabarCandle close account =>
    show (st.onIntrabarCandle env close account).2.Waits
    rcases st.onIntrabarCandle_cases env close account with hnone | ⟨_, _, -, -, hsubmit⟩
    · rw [hnone]
      exact h
    · rw [hsubmit]
      exact waits_exitWith env st _ _ _
  | onFill fill => exact h.onFill fill
  | onOrderUpdate ev nowMs => exact h.onOrderUpdate ev nowMs
  | onSubmitFailed => exact h.onSubmitFailed
  | syncOnStart pos => exact waits_syncOnStart st pos
  | reset => exact waits_reset st

/-! The prices. -/

omit [Field α] [LinearOrder α] in
theorem unpriced_clearPosition (st : RsiMeanReversionStrategy α) : st.clearPosition.Unpriced :=
  ⟨rfl, rfl, rfl⟩

omit [LinearOrder α] in
theorem Unpriced.priced [LinearOrder α] (h : st.Unpriced) : st.Priced := ⟨fun _ => h, .inl h⟩

theorem priced_entered {entry : α} (h : st.EnteredAt entry) (hpos : 0 < entry)
    (hstate : st.state = .inPosition) : st.Priced := by
  refine ⟨fun hfree => ?_, .inr ⟨entry, hpos, h⟩⟩
  rw [hstate] at hfree
  rcases hfree with hfree | hfree <;> cases hfree

theorem Priced.holding (h : st.Priced) {st' : RsiMeanReversionStrategy α}
    (hparams : st'.params = st.params) (hentry : st'.entryPrice = st.entryPrice)
    (hstop : st'.stopPrice = st.stopPrice) (htarget : st'.targetPrice = st.targetPrice)
    (hstate : st'.state = .inPosition ∨ st'.state = .pendingExit) : st'.Priced := by
  refine ⟨fun hfree => ?_, ?_⟩
  · rcases hstate with hstate | hstate <;> rw [hstate] at hfree <;> rcases hfree with h' | h' <;>
      cases h'
  · unfold Unpriced EnteredAt
    rw [hentry, hstop, htarget, hparams]
    exact h.prices

theorem Priced.selfHeal (h : st.Priced) (env : StrategyEnv α) {close : α} (hpos : 0 < close)
    (account : AccountSnapshot α) : (st.selfHeal env close account).Priced := by
  rcases st.selfHeal_cases env close account with hstay | ⟨-, -, henter⟩ | ⟨-, -, hleave⟩
  · rw [hstay]
    exact h
  · rw [henter]
    exact priced_entered (enteredAt_enterAt _ close) hpos rfl
  · rw [hleave]
    exact Unpriced.priced st.unpriced_clearPosition

theorem Priced.decideOn (h : st.Priced) (env : StrategyEnv α) (s : Snapshot α)
    (account : AccountSnapshot α) : (st.decideOn env s account).2.Priced := by
  unfold RsiMeanReversionStrategy.decideOn
  cases hstate : st.state with
  | flat =>
    have hnone := h.unpriced (.inl hstate)
    rcases st.maybeEnter_cases env s account with hskip | ⟨krwToUse, -, -, -, -, -, -, hsubmit⟩
    · simp only [hskip]
      exact h
    · simp only [hsubmit]
      exact Unpriced.priced hnone
  | inPosition =>
    rcases st.maybeExit_cases env s account with ⟨seq, hskip⟩ | ⟨_, _, _, -, hsubmit⟩
    · simp only [hskip]
      exact ⟨h.unpriced, h.prices⟩
    · simp only [hsubmit]
      exact h.holding rfl rfl rfl rfl (.inr rfl)
  | pendingEntry | pendingExit => exact h

theorem prices_onFill (st : RsiMeanReversionStrategy α) (fill : FillEvent α) :
    (st.onFill fill).params = st.params ∧ (st.onFill fill).entryPrice = st.entryPrice ∧
      (st.onFill fill).stopPrice = st.stopPrice ∧ (st.onFill fill).targetPrice = st.targetPrice ∧
      (st.onFill fill).pendingExitReason = st.pendingExitReason := by
  unfold onFill
  split
  · exact ⟨rfl, rfl, rfl, rfl, rfl⟩
  · simp only
    split
    · exact ⟨rfl, rfl, rfl, rfl, rfl⟩
    · exact ⟨rfl, rfl, rfl, rfl, rfl⟩

theorem Priced.onFill (h : st.Priced) (fill : FillEvent α) : (st.onFill fill).Priced := by
  obtain ⟨hparams, hentry, hstop, htarget, -⟩ := st.prices_onFill fill
  have hstate := (st.onFill_frame fill).2
  refine ⟨fun hfree => ?_, ?_⟩
  · rw [hstate] at hfree
    unfold Unpriced
    rw [hentry, hstop, htarget]
    exact h.unpriced hfree
  · unfold Unpriced EnteredAt
    rw [hentry, hstop, htarget, hparams]
    exact h.prices

theorem Priced.confirmEntry (h : st.Priced) (hstate : st.state = .pendingEntry) (cid : String)
    (ev : OrderStatusEvent α) (nowMs : Int) : (st.confirmEntry cid ev nowMs).2.Priced := by
  unfold RsiMeanReversionStrategy.confirmEntry
  simp only
  by_cases hprice : 0 < st.finalPrice ev
  · rw [if_pos hprice]
    exact priced_entered (enteredAt_enterAt st _) hprice rfl
  · -- An entry without a price: a position without prices.
    rw [if_neg hprice]
    exact Unpriced.priced (h.unpriced (.inr hstate))

theorem Priced.rollBack (h : st.Priced) : st.rollBack.Priced := by
  unfold RsiMeanReversionStrategy.rollBack
  by_cases hentry : st.state = .pendingEntry
  · exact Unpriced.priced (h.unpriced (.inr hentry))
  · rw [if_neg hentry]
    exact h.holding rfl rfl rfl rfl (.inl rfl)

theorem Priced.onOrderUpdate (h : st.Priced) (ev : OrderStatusEvent α) (nowMs : Int) :
    (st.onOrderUpdate ev nowMs).2.Priced := by
  rcases st.onOrderUpdate_cases ev nowMs with hskip | ⟨cid, next, -, hnext, hcases⟩
  · rw [hskip]
    exact h
  · have hpriced : next.Priced := by
      rcases hcases with rfl | ⟨hstate, rfl⟩ | ⟨-, rfl⟩ | ⟨-, rfl⟩
      · exact h.rollBack
      · exact h.confirmEntry hstate cid ev nowMs
      · exact h.holding rfl rfl rfl rfl (.inl rfl)
      · exact Unpriced.priced st.unpriced_clearPosition
    rw [hnext]
    exact ⟨hpriced.unpriced, hpriced.prices⟩

theorem Priced.onSubmitFailed (h : st.Priced) (hw : st.Waits) : st.onSubmitFailed.Priced := by
  rw [hw.onSubmitFailed_eq]
  cases hstate : st.state with
  | flat | inPosition => exact h
  | pendingEntry => exact Unpriced.priced (h.unpriced (.inr hstate))
  | pendingExit => exact h.holding rfl rfl rfl rfl (.inl rfl)

theorem priced_syncOnStart (st : RsiMeanReversionStrategy α) (pos : PositionSnapshot α) :
    (st.syncOnStart pos).Priced := by
  unfold syncOnStart
  simp only
  split
  · next hpos => exact priced_entered (enteredAt_enterAt _ _) hpos.2 rfl
  · exact Unpriced.priced ⟨rfl, rfl, rfl⟩

theorem Priced.step (h : st.Priced) (hw : st.Waits) (env : StrategyEnv α) (c : StrategyCall α)
    (hpos : c.PositiveClose) : (st.step env c).Priced := by
  cases c with
  | onCandle c account =>
    show (st.onCandle env c account).2.Priced
    rcases st.onCandle_cases env c account with hskip | ⟨-, heq⟩
    · rw [hskip]
      exact h
    · have hobserved : (st.observe env c).2.Priced := ⟨h.unpriced, h.prices⟩
      rw [heq]
      exact (hobserved.selfHeal env hpos account).decideOn env _ account
  | onIntrabarCandle close account =>
    show (st.onIntrabarCandle env close account).2.Priced
    rcases st.onIntrabarCandle_cases env close account with hnone | ⟨_, _, -, -, hsubmit⟩
    · rw [hnone]
      exact h
    · rw [hsubmit]
      exact h.holding rfl rfl rfl rfl (.inr rfl)
  | onFill fill => exact h.onFill fill
  | onOrderUpdate ev nowMs => exact h.onOrderUpdate ev nowMs
  | onSubmitFailed => exact h.onSubmitFailed hw
  | syncOnStart pos => exact st.priced_syncOnStart pos
  | reset => exact Unpriced.priced ⟨rfl, rfl, rfl⟩

/-! The settings and the exit reason. -/

theorem params_selfHeal (env : StrategyEnv α) (st : RsiMeanReversionStrategy α) (close : α)
    (account : AccountSnapshot α) : (st.selfHeal env close account).params = st.params :=
  congrArg (fun stamp => stamp.2.1) (st.stamp_selfHeal env close account)

/-- Whatever the call, the market and the settings stay. -/
theorem params_step (env : StrategyEnv α) (st : RsiMeanReversionStrategy α) (c : StrategyCall α) :
    (st.step env c).market = st.market ∧ (st.step env c).params = st.params := by
  have hof : ∀ st' : RsiMeanReversionStrategy α, st'.stamp = st.stamp →
      st'.market = st.market ∧ st'.params = st.params :=
    fun st' h => ⟨congrArg Prod.fst h, congrArg (fun stamp => stamp.2.1) h⟩
  cases c with
  | onCandle c account =>
    have hstamp := st.stamp_onCandle env c account
    exact ⟨congrArg Prod.fst hstamp, congrArg (fun stamp => stamp.2.1) hstamp⟩
  | onIntrabarCandle close account => exact hof _ (st.stamp_onIntrabarCandle env close account)
  | onFill fill => exact hof _ (st.stamp_onFill fill)
  | onOrderUpdate ev nowMs => exact hof _ (st.stamp_onOrderUpdate ev nowMs)
  | onSubmitFailed => exact hof _ st.stamp_onSubmitFailed
  | syncOnStart pos => exact hof _ (st.stamp_syncOnStart pos)
  | reset => exact ⟨rfl, rfl⟩

/-- An exit decided on in `st` gave the tag. -/
def ExitTag (env : StrategyEnv α) (st : RsiMeanReversionStrategy α) (tag : String) : Prop :=
  ∃ close coin hitStop hitTarget rsiExit, st.ExitCall env close coin hitStop hitTarget rsiExit ∧
    tag = exitReason hitStop hitTarget rsiExit

theorem pendingExitReason_decideOn (env : StrategyEnv α) (st : RsiMeanReversionStrategy α)
    (s : Snapshot α) (account : AccountSnapshot α) :
    (st.decideOn env s account).2.pendingExitReason = st.pendingExitReason ∨
      st.ExitTag env (st.decideOn env s account).2.pendingExitReason := by
  unfold decideOn
  cases st.state with
  | flat =>
    rcases st.maybeEnter_cases env s account with heq | ⟨krwToUse, -, -, -, -, -, -, heq⟩
    · simp only [heq]
      exact .inl trivial
    · simp only [heq]
      exact .inl rfl
  | inPosition =>
    rcases st.maybeExit_cases env s account with ⟨seq, heq⟩ | ⟨_, _, _, hexit, heq⟩
    · simp only [heq]
      exact .inl trivial
    · simp only [heq]
      exact .inr ⟨_, _, _, _, _, hexit, rfl⟩
  | pendingEntry | pendingExit => exact .inl rfl

theorem pendingExitReason_selfHeal (env : StrategyEnv α) (st : RsiMeanReversionStrategy α)
    (close : α) (account : AccountSnapshot α) :
    (st.selfHeal env close account).pendingExitReason = st.pendingExitReason := by
  rcases st.selfHeal_cases env close account with heq | ⟨-, -, heq⟩ | ⟨-, -, heq⟩
  · rw [heq]
  · rw [heq]
    rfl
  · rw [heq]
    rfl

omit [LinearOrder α] in
theorem pendingExitReason_onSubmitFailed (st : RsiMeanReversionStrategy α) :
    st.onSubmitFailed.pendingExitReason = st.pendingExitReason ∨
      st.onSubmitFailed.pendingExitReason = "" := by
  unfold onSubmitFailed
  cases st.pendingClientId with
  | none => exact .inl rfl
  | some cid =>
    cases st.state with
    | flat | inPosition | pendingEntry | pendingExit => exact .inr rfl

theorem pendingExitReason_onOrderUpdate (st : RsiMeanReversionStrategy α)
    (ev : OrderStatusEvent α) (nowMs : Int) :
    (st.onOrderUpdate ev nowMs).2.pendingExitReason = st.pendingExitReason ∨
      (st.onOrderUpdate ev nowMs).2.pendingExitReason = "" := by
  rcases st.onOrderUpdate_cases ev nowMs with hskip | ⟨cid, next, -, hnext, -⟩
  · rw [hskip]
    exact .inl rfl
  · rw [hnext]
    exact .inr rfl

theorem pendingExitReason_syncOnStart (st : RsiMeanReversionStrategy α)
    (pos : PositionSnapshot α) : (st.syncOnStart pos).pendingExitReason = "" := by
  unfold syncOnStart
  simp only
  split
  · rfl
  · rfl

/-- The exit reason stays, is cleared, or is that of an exit the call decides on. -/
theorem pendingExitReason_step (env : StrategyEnv α) (st : RsiMeanReversionStrategy α)
    (c : StrategyCall α) :
    (st.step env c).pendingExitReason = st.pendingExitReason ∨
      (st.step env c).pendingExitReason = "" ∨
      ∃ st' : RsiMeanReversionStrategy α,
        (st' = st ∨ ∃ c' account, c = .onCandle c' account ∧
          st' = (st.observe env c').2.selfHeal env c'.closePrice account) ∧
        st'.ExitTag env (st.step env c).pendingExitReason := by
  cases c with
  | onCandle c account =>
    unfold step call
    rcases st.onCandle_cases env c account with heq | ⟨-, heq⟩
    · simp only [heq]
      exact .inl trivial
    · have hreason := pendingExitReason_decideOn env
        ((st.observe env c).2.selfHeal env c.closePrice account) (st.observe env c).1 account
      rw [pendingExitReason_selfHeal] at hreason
      simp only [heq]
      rcases hreason with hsame | htag
      · exact .inl hsame
      · exact .inr (.inr ⟨_, .inr ⟨c, account, rfl, rfl⟩, htag⟩)
  | onIntrabarCandle close account =>
    unfold step call
    rcases st.onIntrabarCandle_cases env close account with heq | ⟨_, _, -, hexit, heq⟩
    · simp only [heq]
      exact .inl trivial
    · simp only [heq]
      exact .inr (.inr ⟨st, .inl rfl, _, _, _, _, _, hexit, rfl⟩)
  | onFill fill => exact .inl (st.prices_onFill fill).2.2.2.2
  | onOrderUpdate ev nowMs =>
    rcases st.pendingExitReason_onOrderUpdate ev nowMs with hsame | hempty
    · exact .inl hsame
    · exact .inr (.inl hempty)
  | onSubmitFailed =>
    rcases st.pendingExitReason_onSubmitFailed with hsame | hempty
    · exact .inl hsame
    · exact .inr (.inl hempty)
  | syncOnStart pos => exact .inr (.inl (st.pendingExitReason_syncOnStart pos))
  | reset => exact .inr (.inl rfl)

/-! The order of the prices. -/

section
variable [IsStrictOrderedRing α]

/-- The stop is not above the entry and the target not below it; with a positive percentage they
    are apart. -/
theorem EnteredAt.ordered {entry : α} (h : st.EnteredAt entry) (hpos : 0 < entry) :
    ∃ stop target, st.stopPrice = some stop ∧ st.targetPrice = some target ∧
      stop ≤ entry ∧ entry ≤ target ∧ (st.params.Apart → stop < target) := by
  refine ⟨_, _, h.2.1, h.2.2, ?_, ?_, fun hapart => ?_⟩
  · have hsl : 0 ≤ entry * (max 0 st.params.stopLossPct / 100) := by positivity
    calc entry * (1 - max 0 st.params.stopLossPct / 100)
        = entry - entry * (max 0 st.params.stopLossPct / 100) := by ring
      _ ≤ entry := sub_le_self entry hsl
  · have htp : 0 ≤ entry * (max 0 st.params.profitTargetPct / 100) := by positivity
    calc entry ≤ entry + entry * (max 0 st.params.profitTargetPct / 100) :=
          le_add_of_nonneg_right htp
      _ = entry * (1 + max 0 st.params.profitTargetPct / 100) := by ring
  · refine mul_lt_mul_of_pos_left ?_ hpos
    have hsl : 0 ≤ max 0 st.params.stopLossPct / 100 := by positivity
    have htp : 0 ≤ max 0 st.params.profitTargetPct / 100 := by positivity
    rcases hapart with hsl' | htp'
    · have hmax : 0 < max 0 st.params.stopLossPct / 100 :=
        div_pos (lt_max_of_lt_right hsl') (by norm_num)
      linarith
    · have hmax : 0 < max 0 st.params.profitTargetPct / 100 :=
        div_pos (lt_max_of_lt_right htp') (by norm_num)
      linarith

theorem Priced.not_both (h : st.Priced) (hapart : st.params.Apart) {close : α} :
    ¬ (st.HitsStop close ∧ st.HitsTarget close) := by
  rintro ⟨⟨stop, hstop, hle⟩, ⟨target, htarget, hge⟩⟩
  rcases h.prices with ⟨-, hnone, -⟩ | ⟨entry, hpos, hentered⟩
  · rw [hnone] at hstop
    cases hstop
  · obtain ⟨stop', target', hstop', htarget', -, -, hlt⟩ := hentered.ordered hpos
    obtain rfl := Option.some.inj (hstop.symm.trans hstop')
    obtain rfl := Option.some.inj (htarget.symm.trans htarget')
    exact absurd (hlt hapart) (not_lt.mpr (hge.trans hle))

omit [Field α] [LinearOrder α] [IsStrictOrderedRing α] in
theorem notBoth_exitReason {hitStop hitTarget : Bool} (rsiExit : Bool)
    (h : ¬ (hitStop = true ∧ hitTarget = true)) :
    NotBoth (exitReason hitStop hitTarget rsiExit) := by
  unfold NotBoth
  cases hitStop with
  | false => cases hitTarget <;> cases rsiExit <;> decide
  | true =>
    cases hitTarget with
    | true => exact absurd ⟨rfl, rfl⟩ h
    | false => cases rsiExit <;> decide

theorem ExitCall.notBoth {env : StrategyEnv α} {close coin : α} {hitStop hitTarget rsiExit : Bool}
    (h : st.ExitCall env close coin hitStop hitTarget rsiExit) (hp : st.Priced)
    (hapart : st.params.Apart) : NotBoth (exitReason hitStop hitTarget rsiExit) :=
  notBoth_exitReason rsiExit
    (fun hboth => hp.not_both hapart ⟨h.stop hboth.1, h.target hboth.2⟩)

end

/-! Orders. -/

/-- The healed state does not depend on what the indicators made of the candle. -/
theorem state_selfHeal_observe (env : StrategyEnv α) (st : RsiMeanReversionStrategy α)
    (c : Candle α) (close : α) (account : AccountSnapshot α) :
    ((st.observe env c).2.selfHeal env close account).state =
      (st.selfHeal env close account).state := by
  have hstate : (st.observe env c).2.state = st.state := rfl
  unfold selfHeal
  simp only [hstate]
  split
  · rfl
  · split
    · rfl
    · exact hstate

section
variable [IsStrictOrderedRing α]

/-- What is decided on in a state: the buy of a flat strategy, or the sell of its position. -/
theorem orders_decideOn (hw : st.Waits) (hp : st.Priced) (env : StrategyEnv α) (s : Snapshot α)
    (account : AccountSnapshot α) {req : OrderRequest α}
    (horder : (st.decideOn env s account).1.order = some req) :
    (st.state = .flat ∧ (st.decideOn env s account).2.state = .pendingEntry ∧ req.position = .bid ∨
      st.state = .inPosition ∧ (st.decideOn env s account).2.state = .pendingExit ∧
        req.position = .ask) ∧
    st.pendingClientId = none ∧
    (st.decideOn env s account).2.pendingClientId = some req.identifier ∧
    (st.params.Apart → NotBoth req.clientTag) := by
  unfold decideOn at horder ⊢
  cases hstate : st.state with
  | flat =>
    have hnone := hw.idle_iff.mp (by rw [hstate]; rfl)
    simp only [hstate] at horder ⊢
    rcases st.maybeEnter_cases env s account with hskip | ⟨krwToUse, -, -, -, -, -, -, hsubmit⟩
    · rw [hskip] at horder
      cases horder
    · rw [hsubmit] at horder ⊢
      obtain rfl := Option.some.inj horder
      have htag : NotBoth "entry_rsi_oversold" := by
        unfold NotBoth
        decide
      exact ⟨.inl ⟨trivial, rfl, rfl⟩, hnone, rfl, fun _ => htag⟩
  | inPosition =>
    have hnone := hw.idle_iff.mp (by rw [hstate]; rfl)
    simp only [hstate] at horder ⊢
    rcases st.maybeExit_cases env s account with ⟨seq, hskip⟩ | ⟨_, _, _, hexit, hsubmit⟩
    · rw [hskip] at horder
      cases horder
    · rw [hsubmit] at horder ⊢
      obtain rfl := Option.some.inj horder
      exact ⟨.inr ⟨trivial, rfl, rfl⟩, hnone, rfl, hexit.notBoth hp⟩
  | pendingEntry | pendingExit =>
    simp only [hstate] at horder
    cases horder

theorem ordersFrom_decidingState (hw : st.Waits) (hp : st.Priced) (env : StrategyEnv α)
    (c : StrategyCall α) (hpos : c.PositiveClose) :
    st.OrdersFrom (st.decidingState env c) env c := by
  intro req horder
  cases c with
  | onCandle c account =>
    unfold step
    unfold call at horder ⊢
    rcases st.onCandle_cases env c account with hskip | ⟨-, heq⟩
    · simp only [hskip] at horder
      cases horder
    · have hw' : (st.observe env c).2.Waits := ⟨hw.pending, hw.cleared⟩
      have hp' : (st.observe env c).2.Priced := ⟨hp.unpriced, hp.prices⟩
      simp only [heq] at horder ⊢
      obtain ⟨hside, hnone, hid, htag⟩ := orders_decideOn (hw'.selfHeal env c.closePrice account)
        (hp'.selfHeal env hpos account) env (st.observe env c).1 account horder
      rw [state_selfHeal_observe] at hside
      rw [(selfHeal_frame env _ _ account).1] at hnone
      rw [params_selfHeal] at htag
      exact ⟨hside, hnone, hid, htag⟩
  | onIntrabarCandle close account =>
    unfold step
    unfold call at horder ⊢
    rcases st.onIntrabarCandle_cases env close account with hskip | ⟨_, _, hstate, hexit, hsubmit⟩
    · simp only [hskip] at horder
      cases horder
    · simp only [hsubmit] at horder ⊢
      obtain rfl := Option.some.inj horder
      exact ⟨.inr ⟨hstate, rfl, rfl⟩, hw.idle_iff.mp (by rw [hstate]; rfl), rfl, hexit.notBoth hp⟩
  | onFill fill => cases horder
  | onOrderUpdate ev nowMs => cases horder
  | onSubmitFailed => cases horder
  | syncOnStart pos => cases horder
  | reset => cases horder

/-! Runs. -/

/-- What the calls keep. -/
structure Kept (p : Params α) (st : RsiMeanReversionStrategy α) : Prop where
  params : st.params = p
  waits : st.Waits
  priced : st.Priced
  tag : p.Apart → NotBoth st.pendingExitReason

theorem notBoth_empty : NotBoth "" := by
  unfold NotBoth
  decide

theorem kept_step (env : StrategyEnv α) (st : RsiMeanReversionStrategy α) (c : StrategyCall α)
    (h : Kept p st) (hpos : c.PositiveClose) : Kept p (st.step env c) := by
  obtain ⟨hparams, hw, hp, htag⟩ := h
  have hreason := st.pendingExitReason_step env c
  refine ⟨(st.params_step env c).2.trans hparams, hw.step env c, hp.step hw env c hpos, fun hapart => ?_⟩
  rcases hreason with hsame | hempty | ⟨st', hst', close, coin, hs, ht, hr, hexit, hreason⟩
  · rw [hsame]
    exact htag hapart
  · rw [hempty]
    exact notBoth_empty
  · rw [hreason]
    rcases hst' with rfl | ⟨c', account, rfl, rfl⟩
    · exact hexit.notBoth hp (hparams ▸ hapart)
    · -- The candle healed the strategy that decides.
      have hp' : (st.observe env c').2.Priced := ⟨hp.unpriced, hp.prices⟩
      refine hexit.notBoth (hp'.selfHeal env hpos account) ?_
      rw [params_selfHeal]
      show st.params.Apart
      rw [hparams]
      exact hapart

omit [IsStrictOrderedRing α] in
theorem kept_create (market : String) (p : Params α) : Kept p (create market p) :=
  ⟨rfl, waits_reset _, Unpriced.priced ⟨rfl, rfl, rfl⟩, fun _ => notBoth_empty⟩

theorem Kept.wellFormed (h : Kept p st) : WellFormed p st := by
  refine ⟨h.params, h.waits.pending, h.waits.cleared, h.priced.unpriced, ?_, h.tag⟩
  rcases h.priced.prices with hnone | ⟨entry, hpos, hentered⟩
  · exact .inl hnone
  · obtain ⟨stop, target, hstop, htarget, hle, hge, hlt⟩ := hentered.ordered hpos
    rw [h.params] at hlt
    exact .inr ⟨entry, stop, target, hentered.1, hstop, htarget, hpos, hle, hge, hlt⟩

/-- **The state machine keeps its invariant.** From a new strategy, after any calls in any order
    the waiting states are those with a pending order, nothing is left of an order elsewhere, and
    the prices are ordered; and an order is returned only on the way from flat to its buy or from
    a position to its sell, with no other order pending. A candle counts from the state that the
    self-heal gives it. -/
theorem always_wellFormed (env : StrategyEnv α) (market : String) (p : Params α)
    (calls : List (StrategyCall α)) (hpos : ∀ c ∈ calls, c.PositiveClose) :
    Machine.Always (step env) (WellFormed p) (create market p) calls ∧
      Machine.Guarded (step env) (fun st c => st.OrdersFrom (st.decidingState env c) env c)
        (create market p) calls := by
  have hguard : Machine.Guarded (step env) (fun _ c => c.PositiveClose) (create market p) calls :=
    Machine.guarded_of_forall (fun c hc _ => hpos c hc) _
  have hstep := kept_step (p := p) env
  exact ⟨(Machine.always_of_guarded hstep (kept_create market p) hguard).mono
      (fun _ h => h.wellFormed),
    hguard.imp hstep (fun st c h hc => ordersFrom_decidingState h.waits h.priced env c hc)
      (kept_create market p)⟩

end

/-- Settings under which two candles are enough for a decision. -/
def quickParams : Params ℚ where
  rsiLength := 1
  oversold := 50
  overbought := 70
  trendLookWindow := 0
  maxTrendStrength := 1
  volatilityWindow := 2
  minVolatility := 0
  utilization := 1
  stopLossPct := 10
  profitTargetPct := 15

def quickEnv : StrategyEnv ℚ := { cfg := .standard ℚ, sqrt := fun x => x, uuid := toString }

/-- A candle at 1000 KRW. -/
def flatCandle (ts : String) : Candle ℚ :=
  { market := "KRW-BTC", openPrice := 1000, highPrice := 1000, lowPrice := 1000, closePrice := 1000
    volume := 1, startTimestamp := ts }

/-- A position of 10 coins over two candles; at the third one the coins are gone. -/
def soldElsewhere : List (StrategyCall ℚ) :=
  [.syncOnStart ⟨10, 1000⟩, .onCandle (flatCandle "1") ⟨0, 10⟩, .onCandle (flatCandle "2") ⟨0, 10⟩,
   .onCandle (flatCandle "3") ⟨10000, 0⟩]

theorem always_wellFormed_soldElsewhere :
    Machine.Always (step quickEnv) (WellFormed quickParams) (create "KRW-BTC" quickParams)
        soldElsewhere ∧
      Machine.Guarded (step quickEnv)
        (fun st c => st.OrdersFrom (st.decidingState quickEnv c) quickEnv c)
        (create "KRW-BTC" quickParams) soldElsewhere := by
  refine always_wellFormed quickEnv "KRW-BTC" quickParams soldElsewhere ?_
  simp [soldElsewhere, StrategyCall.PositiveClose, flatCandle]

/-- Counted from the state before the call it is not so: the candle that finds the coins gone takes
    the strategy from its position to a buy. -/
theorem not_ordersFrom_state :
    ¬ ∀ (env : StrategyEnv ℚ) (market : String) (p : Params ℚ) (calls : List (StrategyCall ℚ)),
      (∀ c ∈ calls, c.PositiveClose) →
      Machine.Guarded (step env) (fun st c => st.OrdersFrom st.state env c)
        (create market p) calls := by
  intro h
  have hpos : ∀ c ∈ soldElsewhere, c.PositiveClose := by
    simp [soldElsewhere, StrategyCall.PositiveClose, flatCandle]
  obtain ⟨-, -, -, hlast, -⟩ := h quickEnv "KRW-BTC" quickParams soldElsewhere hpos
  let st := Machine.run (step quickEnv) (create "KRW-BTC" quickParams)
    [.syncOnStart ⟨10, 1000⟩, .onCandle (flatCandle "1") ⟨0, 10⟩,
     .onCandle (flatCandle "2") ⟨0, 10⟩]
  have hstate : st.state = .inPosition := by decide +kernel
  have horder : ∃ req, (st.call quickEnv (.onCandle (flatCandle "3") ⟨10000, 0⟩)).1.order = some req ∧
      req.position = .bid := by
    refine ⟨_, Option.eq_some_of_isSome (by decide +kernel), by decide +kernel⟩
  obtain ⟨req, hreq, hbid⟩ := horder
  rcases (hlast req hreq).1 with ⟨hflat, -, -⟩ | ⟨-, -, hask⟩
  · exact absurd (hstate.symm.trans hflat) (by decide)
  · exact absurd (hbid.symm.trans hask) (by decide)

end RsiMeanReversionStrategy
end CoinBot
