import CoinBot.Trading.RsiMeanReversionStrategy

/- What each call can do to the state of the strategy.

   A candle leaves the strategy idle, or waiting for the order it decides on, or waiting
   as before; a status event of the pending order, or a failed submission, makes it idle
   again. Nothing else touches the pending identifier. -/
namespace CoinBot

/-- No order is pending. -/
def StrategyState.isIdle : StrategyState → Bool
  | .flat | .inPosition => true
  | .pendingEntry | .pendingExit => false

/-- The state in which the strategy waits for an order of this side. -/
def StrategyState.pending : OrderPosition → StrategyState
  | .bid => .pendingEntry
  | .ask => .pendingExit

@[simp] theorem StrategyState.isIdle_pending (side : OrderPosition) :
    (StrategyState.pending side).isIdle = false := by
  cases side <;> rfl

namespace RsiMeanReversionStrategy

variable {α : Type}

/-- What a decision does: without an order the strategy is idle, or pending, as it was; with one
    it was idle and waits for that order now. -/
def Decides (st : RsiMeanReversionStrategy α) (d : Decision α) (st' : RsiMeanReversionStrategy α) :
    Prop :=
  match d.order with
  | none => st'.pendingClientId = st.pendingClientId ∧
      (st'.state = st.state ∨ st.state.isIdle = true ∧ st'.state.isIdle = true)
  | some req => st.state.isIdle = true ∧ req.identifier ≠ "" ∧
      st'.pendingClientId = some req.identifier ∧ st'.state = .pending req.position

variable {st st' : RsiMeanReversionStrategy α}

theorem decides_noAction (hid : st'.pendingClientId = st.pendingClientId)
    (hstate : st'.state = st.state) : st.Decides .noAction st' :=
  ⟨hid, .inl hstate⟩

theorem makeIdentifier_ne (env : StrategyEnv α) (st : RsiMeanReversionStrategy α) (tag : String) :
    (st.makeIdentifier env tag).1 ≠ "" := by
  intro hempty
  have hlength := congrArg String.length hempty
  simp [makeIdentifier, id] at hlength

/-- A decision on the strategy after its indicators moved is one on the strategy before. -/
theorem Decides.of_idle {st₀ : RsiMeanReversionStrategy α} {d : Decision α}
    (h : st.Decides d st') (hid : st.pendingClientId = st₀.pendingClientId)
    (hidle : st₀.state.isIdle = true) (hidle' : st.state.isIdle = true) : st₀.Decides d st' := by
  unfold Decides at h ⊢
  split at h
  · obtain ⟨hid', hstate⟩ := h
    refine ⟨hid'.trans hid, .inr ⟨hidle, ?_⟩⟩
    rcases hstate with hsame | ⟨-, hnow⟩
    · rw [hsame]
      exact hidle'
    · exact hnow
  · exact ⟨hidle, h.2⟩

variable [Field α] [LinearOrder α]

/-! What each call returns. -/

theorem maybeEnter_cases (env : StrategyEnv α) (st : RsiMeanReversionStrategy α) (s : Snapshot α)
    (account : AccountSnapshot α) :
    st.maybeEnter env s account = (.noAction, st) ∨
    ∃ krwToUse,
      krwToUse = account.krwAvailable / env.cfg.engine.reserveMargin * st.params.utilization ∧
      0 < account.krwAvailable ∧ s.marketOk = true ∧ s.rsi.v ≤ st.params.oversold ∧
      env.cfg.strategy.minNotionalKrw ≤ krwToUse ∧ 0 < krwToUse ∧
      st.maybeEnter env s account = st.submitEntry env s krwToUse := by
  unfold maybeEnter
  by_cases hkrw : 0 < account.krwAvailable
  · by_cases hmarket : s.marketOk = true
    · by_cases hrsi : s.rsi.v ≤ st.params.oversold
      · simp only [hkrw, hmarket, hrsi, not_true_eq_false, if_false]
        generalize account.krwAvailable / env.cfg.engine.reserveMargin * st.params.utilization =
          krwToUse
        by_cases hmin : krwToUse < env.cfg.strategy.minNotionalKrw
        · exact .inl (if_pos hmin)
        · by_cases hpos : krwToUse ≤ 0
          · exact .inl (by rw [if_neg hmin, if_pos hpos])
          · exact .inr ⟨krwToUse, rfl, trivial, trivial, trivial, not_lt.mp hmin, not_le.mp hpos,
              by rw [if_neg hmin, if_neg hpos]⟩
      · exact .inl (by rw [if_neg (not_not.mpr hkrw), if_neg (not_not.mpr hmarket), if_pos hrsi])
    · exact .inl (by rw [if_neg (not_not.mpr hkrw), if_pos hmarket])
  · exact .inl (if_pos hkrw)

/-- The buy is decided on when nothing speaks against it. -/
theorem maybeEnter_submits {env : StrategyEnv α} {s : Snapshot α} {account : AccountSnapshot α}
    (hkrw : 0 < account.krwAvailable) (hmarket : s.marketOk = true)
    (hrsi : s.rsi.v ≤ st.params.oversold) (hnotional : 0 < env.cfg.strategy.minNotionalKrw)
    (hmin : env.cfg.strategy.minNotionalKrw ≤
      account.krwAvailable / env.cfg.engine.reserveMargin * st.params.utilization) :
    st.maybeEnter env s account = st.submitEntry env s
      (account.krwAvailable / env.cfg.engine.reserveMargin * st.params.utilization) := by
  have hpos := lt_of_lt_of_le hnotional hmin
  rw [maybeEnter, if_neg (not_not.mpr hkrw), if_neg (not_not.mpr hmarket),
    if_neg (not_not.mpr hrsi)]
  dsimp only
  rw [if_neg (not_lt.mpr hmin), if_neg (not_le.mpr hpos)]

/-- The price is at the stop, or below it. -/
def HitsStop (st : RsiMeanReversionStrategy α) (close : α) : Prop :=
  ∃ stop, st.stopPrice = some stop ∧ close ≤ stop

/-- The price is at the target, or above it. -/
def HitsTarget (st : RsiMeanReversionStrategy α) (close : α) : Prop :=
  ∃ target, st.targetPrice = some target ∧ target ≤ close

/-- What an exit is decided on: the coins to sell, the price and what it hit. -/
structure ExitCall (env : StrategyEnv α) (st : RsiMeanReversionStrategy α) (close coin : α)
    (hitStop hitTarget rsiExit : Bool) : Prop where
  coin_pos : 0 < coin
  notional : env.cfg.strategy.minNotionalKrw ≤ coin * close
  stop : hitStop = true → st.HitsStop close
  target : hitTarget = true → st.HitsTarget close
  any : (hitStop || hitTarget || rsiExit) = true

/-- The decision on an exit, with the next identifier. -/
def exitWith (env : StrategyEnv α) (st : RsiMeanReversionStrategy α) (s : Snapshot α) (coin : α)
    (tag : String) : Decision α × RsiMeanReversionStrategy α :=
  (st.makeIdentifier env tag).2.submitExit s coin (st.makeIdentifier env tag).1 tag

theorem maybeExit_hits (env : StrategyEnv α) (st : RsiMeanReversionStrategy α) (s : Snapshot α)
    {account : AccountSnapshot α} (hcoin : 0 < account.coinAvailable) :
    ∃ hitStop hitTarget rsiExit : Bool,
      (hitStop = true → st.HitsStop s.close) ∧ (hitTarget = true → st.HitsTarget s.close) ∧
      st.maybeExit env s account =
        if ¬ (hitStop || hitTarget || rsiExit) then (.noAction, st)
        else if account.coinAvailable * s.close < env.cfg.strategy.minNotionalKrw then
          (.noAction, (st.makeIdentifier env "").2)
        else st.exitWith env s account.coinAvailable (exitReason hitStop hitTarget rsiExit) := by
  have hnever : ∀ P : Prop, false = true → P := fun P h => absurd h Bool.false_ne_true
  unfold maybeExit
  rw [if_neg (not_not.mpr hcoin)]
  -- Without one of the prices nothing is hit.
  obtain hentry | ⟨entry, hentry⟩ := Option.eq_none_or_eq_some st.entryPrice
  · rw [hentry]
    exact ⟨false, false, s.rsi.ready && decide (st.params.overbought ≤ s.rsi.v), hnever _, hnever _,
      rfl⟩
  · obtain hstop | ⟨stop, hstop⟩ := Option.eq_none_or_eq_some st.stopPrice
    · rw [hentry, hstop]
      exact ⟨false, false, s.rsi.ready && decide (st.params.overbought ≤ s.rsi.v), hnever _,
        hnever _, rfl⟩
    · obtain htarget | ⟨target, htarget⟩ := Option.eq_none_or_eq_some st.targetPrice
      · rw [hentry, hstop, htarget]
        exact ⟨false, false, s.rsi.ready && decide (st.params.overbought ≤ s.rsi.v), hnever _,
          hnever _, rfl⟩
      · rw [hentry, hstop, htarget]
        exact ⟨decide (s.close ≤ stop), decide (target ≤ s.close),
          s.rsi.ready && decide (st.params.overbought ≤ s.rsi.v),
          fun h => ⟨stop, hstop, of_decide_eq_true h⟩,
          fun h => ⟨target, htarget, of_decide_eq_true h⟩, rfl⟩

/-- `maybeExit` decides nothing, though an identifier may be spent, or it decides on the sell. -/
theorem maybeExit_cases (env : StrategyEnv α) (st : RsiMeanReversionStrategy α) (s : Snapshot α)
    (account : AccountSnapshot α) :
    (∃ seq, st.maybeExit env s account = (.noAction, { st with seq := seq })) ∨
    ∃ hitStop hitTarget rsiExit,
      st.ExitCall env s.close account.coinAvailable hitStop hitTarget rsiExit ∧
      st.maybeExit env s account =
        st.exitWith env s account.coinAvailable (exitReason hitStop hitTarget rsiExit) := by
  by_cases hcoin : 0 < account.coinAvailable
  · obtain ⟨hitStop, hitTarget, rsiExit, hstop, htarget, heq⟩ := st.maybeExit_hits env s hcoin
    by_cases hany : (hitStop || hitTarget || rsiExit) = true
    · rw [if_neg (not_not.mpr hany)] at heq
      by_cases hmin : account.coinAvailable * s.close < env.cfg.strategy.minNotionalKrw
      · exact .inl ⟨st.seq + 1, heq.trans (if_pos hmin)⟩
      · exact .inr ⟨hitStop, hitTarget, rsiExit, ⟨hcoin, not_lt.mp hmin, hstop, htarget, hany⟩,
          heq.trans (if_neg hmin)⟩
    · exact .inl ⟨st.seq, heq.trans (if_pos hany)⟩
  · exact .inl ⟨st.seq, if_pos hcoin⟩

theorem onIntrabarCandle_cases (env : StrategyEnv α) (st : RsiMeanReversionStrategy α) (close : α)
    (account : AccountSnapshot α) :
    st.onIntrabarCandle env close account = (.noAction, st) ∨
    ∃ hitStop hitTarget, st.state = .inPosition ∧
      st.ExitCall env close account.coinAvailable hitStop hitTarget false ∧
      st.onIntrabarCandle env close account =
        st.exitWith env { Snapshot.empty with close := close } account.coinAvailable
          (exitReason hitStop hitTarget false) := by
  unfold onIntrabarCandle
  by_cases hpos : st.state = .inPosition
  · by_cases hcoin : 0 < account.coinAvailable
    · simp only [hpos, hcoin, ne_eq, not_true_eq_false, if_false]
      cases hstop : st.stopPrice with
      | none => exact .inl rfl
      | some stop =>
        cases htarget : st.targetPrice with
        | none => exact .inl rfl
        | some target =>
          simp only
          by_cases hany : (decide (close ≤ stop) || decide (target ≤ close)) = true
          · rw [if_neg (not_not.mpr hany)]
            by_cases hmin : account.coinAvailable * close < env.cfg.strategy.minNotionalKrw
            · exact .inl (if_pos hmin)
            · refine .inr ⟨_, _, trivial, ⟨hcoin, not_lt.mp hmin,
                fun h => ⟨stop, hstop, of_decide_eq_true h⟩,
                fun h => ⟨target, htarget, of_decide_eq_true h⟩, ?_⟩, if_neg hmin⟩
              rw [Bool.or_false]
              exact hany
          · exact .inl (if_pos hany)
    · exact .inl (by simp only [hpos, hcoin, ne_eq, not_true_eq_false, not_false_eq_true, if_true,
        if_false])
  · exact .inl (if_pos hpos)

theorem selfHeal_cases (env : StrategyEnv α) (st : RsiMeanReversionStrategy α) (close : α)
    (account : AccountSnapshot α) :
    st.selfHeal env close account = st ∨
    (st.state = .flat ∧ env.cfg.strategy.minNotionalKrw ≤ account.coinAvailable * close ∧
      st.selfHeal env close account = { st with state := .inPosition }.enterAt close) ∨
    (st.state = .inPosition ∧ account.coinAvailable * close < env.cfg.strategy.minNotionalKrw ∧
      st.selfHeal env close account = { st.clearPosition with state := .flat }) := by
  unfold selfHeal
  simp only
  split
  · next hflat => exact .inr (.inl ⟨hflat.1, hflat.2, rfl⟩)
  · split
    · next hpos => exact .inr (.inr ⟨hpos.1, hpos.2, rfl⟩)
    · exact .inl rfl

/-- The indicators take the candle. -/
def observe (env : StrategyEnv α) (st : RsiMeanReversionStrategy α) (c : Candle α) :
    Snapshot α × RsiMeanReversionStrategy α :=
  { st with lastCandleTs := some c.startTimestamp }.buildSnapshot env c

/-- The strategy decides by its state. -/
def decideOn (env : StrategyEnv α) (st : RsiMeanReversionStrategy α) (s : Snapshot α)
    (account : AccountSnapshot α) : Decision α × RsiMeanReversionStrategy α :=
  match st.state with
  | .flat => st.maybeEnter env s account
  | .inPosition => st.maybeExit env s account
  | .pendingEntry | .pendingExit => (.noAction, st)

/-- The candle reaches the indicators: it is of the strategy's market, and not the last one again. -/
def folds (st : RsiMeanReversionStrategy α) (c : Candle α) : Bool :=
  decide (c.market = st.market) && decide (st.lastCandleTs ≠ some c.startTimestamp)

/-- A candle is passed over, or the indicators take it, the state heals and the strategy decides. -/
theorem onCandle_eq (env : StrategyEnv α) (st : RsiMeanReversionStrategy α) (c : Candle α)
    (account : AccountSnapshot α) :
    st.onCandle env c account =
      if st.folds c then
        ((st.observe env c).2.selfHeal env c.closePrice account).decideOn env
          (st.observe env c).1 account
      else (.noAction, st) := by
  unfold onCandle folds
  by_cases hmarket : c.market = st.market
  · by_cases hsame : st.lastCandleTs = some c.startTimestamp
    · rw [if_neg (not_not.mpr hmarket), if_pos hsame]
      simp [hsame]
    · rw [if_neg (not_not.mpr hmarket), if_neg hsame]
      simp only [hmarket, hsame, ne_eq, not_false_eq_true, decide_true, Bool.and_self, if_true]
      rfl
  · rw [if_pos hmarket]
    simp [hmarket]

theorem onCandle_cases (env : StrategyEnv α) (st : RsiMeanReversionStrategy α) (c : Candle α)
    (account : AccountSnapshot α) :
    st.onCandle env c account = (.noAction, st) ∨
    (st.folds c = true ∧
      st.onCandle env c account =
        ((st.observe env c).2.selfHeal env c.closePrice account).decideOn env
          (st.observe env c).1 account) := by
  cases hfolds : st.folds c with
  | false => exact .inl (by rw [onCandle_eq, hfolds]; rfl)
  | true => exact .inr ⟨rfl, by rw [onCandle_eq, hfolds]; rfl⟩

/-! What a decision does. -/

theorem decides_maybeEnter (env : StrategyEnv α) (s : Snapshot α) (account : AccountSnapshot α)
    (hidle : st.state.isIdle = true) :
    st.Decides (st.maybeEnter env s account).1 (st.maybeEnter env s account).2 := by
  rcases st.maybeEnter_cases env s account with hnone | ⟨krwToUse, -, -, -, -, -, -, hsubmit⟩
  · rw [hnone]
    exact decides_noAction rfl rfl
  · rw [hsubmit]
    exact ⟨hidle, st.makeIdentifier_ne env _, rfl, rfl⟩

theorem decides_maybeExit (env : StrategyEnv α) (s : Snapshot α) (account : AccountSnapshot α)
    (hidle : st.state.isIdle = true) :
    st.Decides (st.maybeExit env s account).1 (st.maybeExit env s account).2 := by
  rcases st.maybeExit_cases env s account with ⟨seq, hnone⟩ | ⟨_, _, _, -, hsubmit⟩
  · rw [hnone]
    exact decides_noAction rfl rfl
  · rw [hsubmit]
    exact ⟨hidle, st.makeIdentifier_ne env _, rfl, rfl⟩

theorem decides_decideOn (env : StrategyEnv α) (st : RsiMeanReversionStrategy α) (s : Snapshot α)
    (account : AccountSnapshot α) :
    st.Decides (st.decideOn env s account).1 (st.decideOn env s account).2 := by
  unfold decideOn
  cases hstate : st.state with
  | flat => exact decides_maybeEnter env s account (by rw [hstate]; rfl)
  | inPosition => exact decides_maybeExit env s account (by rw [hstate]; rfl)
  | pendingEntry | pendingExit => exact decides_noAction rfl rfl

theorem selfHeal_frame (env : StrategyEnv α) (st : RsiMeanReversionStrategy α) (close : α)
    (account : AccountSnapshot α) :
    (st.selfHeal env close account).pendingClientId = st.pendingClientId ∧
      (st.state.isIdle = true → (st.selfHeal env close account).state.isIdle = true) ∧
      (st.state.isIdle = false → (st.selfHeal env close account).state = st.state) := by
  rcases st.selfHeal_cases env close account with hstay | ⟨hflat, -, henter⟩ | ⟨hpos, -, hleave⟩
  · rw [hstay]
    exact ⟨rfl, fun hidle => hidle, fun _ => rfl⟩
  · rw [henter]
    exact ⟨rfl, fun _ => rfl, fun hbusy => by rw [hflat] at hbusy; cases hbusy⟩
  · rw [hleave]
    exact ⟨rfl, fun _ => rfl, fun hbusy => by rw [hpos] at hbusy; cases hbusy⟩

theorem decides_onCandle (env : StrategyEnv α) (st : RsiMeanReversionStrategy α) (c : Candle α)
    (account : AccountSnapshot α) :
    st.Decides (st.onCandle env c account).1 (st.onCandle env c account).2 := by
  rcases st.onCandle_cases env c account with hskip | ⟨-, heq⟩
  · rw [hskip]
    exact decides_noAction rfl rfl
  · rw [heq]
    obtain ⟨hid, hidle, hbusy⟩ := selfHeal_frame env (st.observe env c).2 c.closePrice account
    have hdecides := decides_decideOn env ((st.observe env c).2.selfHeal env c.closePrice account)
      (st.observe env c).1 account
    generalize (st.observe env c).2.selfHeal env c.closePrice account = healed at *
    have hstate : (st.observe env c).2.state = st.state := rfl
    rw [hstate] at hidle hbusy
    cases hnow : st.state.isIdle with
    | true => exact hdecides.of_idle hid hnow (hidle hnow)
    | false =>
      -- A strategy that waits is not healed and decides nothing.
      have hsame := hbusy hnow
      have hwait : healed.decideOn env (st.observe env c).1 account = (.noAction, healed) := by
        unfold decideOn
        rw [hsame]
        cases hpending : st.state with
        | flat | inPosition =>
          rw [hpending] at hnow
          cases hnow
        | pendingEntry | pendingExit => rfl
      rw [hwait]
      exact decides_noAction hid hsame

theorem decides_onIntrabarCandle (env : StrategyEnv α) (st : RsiMeanReversionStrategy α) (close : α)
    (account : AccountSnapshot α) :
    st.Decides (st.onIntrabarCandle env close account).1 (st.onIntrabarCandle env close account).2 := by
  rcases st.onIntrabarCandle_cases env close account with hnone | ⟨_, _, hpos, -, hsubmit⟩
  · rw [hnone]
    exact decides_noAction rfl rfl
  · rw [hsubmit]
    exact ⟨by rw [hpos]; rfl, st.makeIdentifier_ne env _, rfl, rfl⟩

/-! Events. -/

omit [LinearOrder α] in
theorem onSubmitFailed_idle {cid : String} {side : OrderPosition}
    (hid : st.pendingClientId = some cid) (hstate : st.state = .pending side) :
    st.onSubmitFailed.pendingClientId = none ∧ st.onSubmitFailed.state.isIdle = true := by
  unfold onSubmitFailed
  cases side with
  | bid => simp only [hid, hstate, StrategyState.pending]; exact ⟨rfl, rfl⟩
  | ask => simp only [hid, hstate, StrategyState.pending]; exact ⟨rfl, rfl⟩

theorem onFill_frame (st : RsiMeanReversionStrategy α) (fill : FillEvent α) :
    (st.onFill fill).pendingClientId = st.pendingClientId ∧ (st.onFill fill).state = st.state := by
  unfold onFill
  split
  · exact ⟨rfl, rfl⟩
  · simp only
    split
    · exact ⟨rfl, rfl⟩
    · exact ⟨rfl, rfl⟩

/-- The terminal event of the pending order ends the wait, whatever its effect. -/
theorem onOrderUpdate_own (st : RsiMeanReversionStrategy α) (ev : OrderStatusEvent α)
    (hid : st.pendingClientId = some ev.identifier)
    (hterm : ev.status.isTerminal = true) (nowMs : Int) :
    (st.onOrderUpdate ev nowMs).2.pendingClientId = none ∧
      (st.onOrderUpdate ev nowMs).2.state.isIdle = true := by
  have hroll : st.rollBack.state.isIdle = true := by
    unfold rollBack
    simp only
    split
    · rfl
    · rfl
  unfold onOrderUpdate
  simp only [hid, hterm, ne_eq, not_true_eq_false, if_false]
  refine ⟨rfl, ?_⟩
  split
  · exact hroll
  · split
    · rfl
    · rfl
    · rfl
    · exact hroll

theorem onOrderUpdate_other {ev : OrderStatusEvent α}
    (hid : st.pendingClientId ≠ some ev.identifier) (nowMs : Int) :
    st.onOrderUpdate ev nowMs = (none, st) := by
  unfold onOrderUpdate
  cases hpending : st.pendingClientId with
  | none => rfl
  | some cid =>
    have hne : ev.identifier ≠ cid := fun heq => hid (by rw [hpending, heq])
    exact if_pos hne

/-- The strategy after a terminal event of its order, up to the traces of the order. -/
theorem onOrderUpdate_cases (st : RsiMeanReversionStrategy α) (ev : OrderStatusEvent α)
    (nowMs : Int) :
    (st.onOrderUpdate ev nowMs).2 = st ∨
    ∃ cid next, st.pendingClientId = some cid ∧
      (st.onOrderUpdate ev nowMs).2 = next.clearPendingState ∧
      (next = st.rollBack ∨
        (st.state = .pendingEntry ∧ next = (st.confirmEntry cid ev nowMs).2) ∨
        (st.state = .pendingExit ∧ next = (st.confirmReduction cid ev nowMs).2) ∨
        (st.state = .pendingExit ∧ next = (st.confirmExit cid ev nowMs).2)) := by
  by_cases hid : st.pendingClientId = some ev.identifier
  · by_cases hterm : ev.status.isTerminal = true
    · refine .inr ⟨ev.identifier, ?_⟩
      unfold onOrderUpdate
      simp only [hid, hterm, ne_eq, not_true_eq_false, if_false, true_and]
      by_cases hnone : ev.positionEffect = .none
      · exact ⟨_, by rw [if_pos hnone], .inl rfl⟩
      · rw [if_neg hnone]
        split
        · next hstate _ => exact ⟨_, rfl, .inr (.inl ⟨hstate, rfl⟩)⟩
        · next hstate _ => exact ⟨_, rfl, .inr (.inr (.inl ⟨hstate, rfl⟩))⟩
        · next hstate _ => exact ⟨_, rfl, .inr (.inr (.inr ⟨hstate, rfl⟩))⟩
        · exact ⟨_, rfl, .inl rfl⟩
    · refine .inl ?_
      unfold onOrderUpdate
      simp [hid, hterm]
  · exact .inl (by rw [onOrderUpdate_other hid])

/-! What the calls leave alone. -/

/-- The market, the settings and the last candle: only a candle moves the last of them. -/
def stamp (st : RsiMeanReversionStrategy α) : String × Params α × Option String :=
  (st.market, st.params, st.lastCandleTs)

theorem stamp_selfHeal (env : StrategyEnv α) (st : RsiMeanReversionStrategy α) (close : α)
    (account : AccountSnapshot α) : (st.selfHeal env close account).stamp = st.stamp := by
  rcases st.selfHeal_cases env close account with heq | ⟨-, -, heq⟩ | ⟨-, -, heq⟩
  · rw [heq]
  · rw [heq]
    rfl
  · rw [heq]
    rfl

theorem stamp_decideOn (env : StrategyEnv α) (st : RsiMeanReversionStrategy α) (s : Snapshot α)
    (account : AccountSnapshot α) : (st.decideOn env s account).2.stamp = st.stamp := by
  unfold decideOn
  cases st.state with
  | flat =>
    rcases st.maybeEnter_cases env s account with heq | ⟨krwToUse, -, -, -, -, -, -, heq⟩
    · simp only [heq]
    · simp only [heq]
      rfl
  | inPosition =>
    rcases st.maybeExit_cases env s account with ⟨seq, heq⟩ | ⟨_, _, _, -, heq⟩
    · simp only [heq]
      rfl
    · simp only [heq]
      rfl
  | pendingEntry | pendingExit => rfl

theorem stamp_onCandle (env : StrategyEnv α) (st : RsiMeanReversionStrategy α) (c : Candle α)
    (account : AccountSnapshot α) :
    (st.onCandle env c account).2.stamp =
      (st.market, st.params, if st.folds c then some c.startTimestamp else st.lastCandleTs) := by
  rw [onCandle_eq]
  split
  · rw [stamp_decideOn, stamp_selfHeal]
    rfl
  · rfl

theorem stamp_onIntrabarCandle (env : StrategyEnv α) (st : RsiMeanReversionStrategy α) (close : α)
    (account : AccountSnapshot α) :
    (st.onIntrabarCandle env close account).2.stamp = st.stamp := by
  rcases st.onIntrabarCandle_cases env close account with heq | ⟨_, _, -, -, heq⟩
  · rw [heq]
  · rw [heq]
    rfl

theorem stamp_onFill (st : RsiMeanReversionStrategy α) (fill : FillEvent α) :
    (st.onFill fill).stamp = st.stamp := by
  unfold onFill
  split
  · rfl
  · simp only
    split
    · rfl
    · rfl

theorem stamp_onOrderUpdate (st : RsiMeanReversionStrategy α) (ev : OrderStatusEvent α)
    (nowMs : Int) : (st.onOrderUpdate ev nowMs).2.stamp = st.stamp := by
  rcases st.onOrderUpdate_cases ev nowMs with hskip | ⟨cid, next, -, hnext, hcases⟩
  · rw [hskip]
  · rw [hnext]
    show next.stamp = st.stamp
    rcases hcases with rfl | ⟨-, rfl⟩ | ⟨-, rfl⟩ | ⟨-, rfl⟩
    · rfl
    · unfold confirmEntry
      simp only
      split
      · rfl
      · rfl
    · rfl
    · rfl

omit [LinearOrder α] in
theorem stamp_onSubmitFailed (st : RsiMeanReversionStrategy α) :
    st.onSubmitFailed.stamp = st.stamp := by
  unfold onSubmitFailed
  cases st.pendingClientId with
  | none => rfl
  | some cid =>
    cases st.state with
    | flat | inPosition | pendingEntry | pendingExit => rfl

theorem stamp_syncOnStart (st : RsiMeanReversionStrategy α) (pos : PositionSnapshot α) :
    (st.syncOnStart pos).stamp = st.stamp := by
  unfold syncOnStart
  simp only
  split
  · rfl
  · rfl

end RsiMeanReversionStrategy
end CoinBot
