import CoinBot.App.Agreement
import CoinBot.App.CandleStream

/- What a reconnect of the private WebSocket sees of the pending orders.

   `requestReconnectRecovery` runs on another thread and asks for a recovery where
   `has_active_pending` is set. The worker publishes that flag in `checkPendingTimeout_` and
   nowhere else, so the flag tells what was active when that last ran
   (`hasActivePending_run`). An order submitted since then is not seen. -/
namespace CoinBot.MarketContext

variable {σ : Type}

/-- The engine has an active order. -/
def HasActive (ctx : MarketContext) : Prop :=
  ctx.engine.activePendingIds.1 ≠ "" ∨ ctx.engine.activePendingIds.2 ≠ ""

instance (ctx : MarketContext) : Decidable ctx.HasActive :=
  inferInstanceAs (Decidable (_ ∨ _))

/-- A reconnect now leads to a recovery, if there is an active order. -/
def Noticed (ctx : MarketContext) : Prop :=
  ctx.HasActive → ctx.requestRecovery.recoveryRequested = true

/-- An order was active when `checkPendingTimeout_` ran last. -/
def Published (env : ManagerEnv σ) (start : MarketContext × σ) (steps : List WorkerStep) : Prop :=
  ∃ before now after, steps = before ++ .checkTimeout now :: after ∧
    (∀ a ∈ after, ∀ now', a ≠ .checkTimeout now') ∧
    (Machine.run (step env) start before).1.HasActive

variable {env : ManagerEnv σ}

/-- Only `checkPendingTimeout_` publishes. -/
theorem hasActivePending_step (env : ManagerEnv σ) (state : MarketContext × σ) {a : WorkerStep}
    (hne : ∀ now, a ≠ .checkTimeout now) :
    (step env state a).1.hasActivePending = state.1.hasActivePending := by
  obtain ⟨ctx, s⟩ := state
  cases a with
  | takeRecovery =>
    show (ctx.takeRecovery env s).1.hasActivePending = ctx.hasActivePending
    unfold takeRecovery
    split
    · exact congrArg Prod.snd (quietView_runRecovery_ env.cfg env.api
        { ctx with recoveryRequested := false } s)
    · rfl
  | handleOne input =>
    cases input with
    | myOrder dto => exact congrArg Prod.snd (quietView_handleMyOrder_ env.cfg ctx _)
    | marketData update =>
      cases update with
      | none => rfl
      | some update =>
        rw [handleMarketData_eq]
        -- An update is at most a confirmation and then the intrabar check.
        have hcheck : ∀ (ctx' : MarketContext) (s' : σ),
            ctx'.hasActivePending = ctx.hasActivePending →
            (ctx'.doIntrabarCheck env update.1.closePrice s').1.hasActivePending =
              ctx.hasActivePending :=
          fun ctx' s' h => (congrArg Prod.snd (quietView_doIntrabarCheck env ctx' _ s')).trans h
        unfold marketActions closedBy Runs.closes
        cases ctx.pendingCandle with
        | none => exact hcheck _ _ rfl
        | some held =>
          simp only
          split
          · exact hcheck _ _ rfl
          · exact hcheck _ _ (congrArg Prod.snd (quietView_confirmCandle env
              { ctx with pendingCandle := some update.1 } held update.2 s))
    | accountSync => exact congrArg Prod.snd (quietView_runRecovery_ env.cfg env.api ctx s)
  | deliverEvents nowMs => exact congrArg Prod.snd (quietView_handleEngineEvents_ nowMs _ _)
  | checkTimeout now => exact absurd rfl (hne now)
  | requestRecovery =>
    show ctx.requestRecovery.hasActivePending = ctx.hasActivePending
    unfold requestRecovery
    split
    · rfl
    · rfl

theorem hasActivePending_checkTimeout (env : ManagerEnv σ) (state : MarketContext × σ) (now : Int) :
    (step env state (.checkTimeout now)).1.hasActivePending = true ↔ state.1.HasActive := by
  obtain ⟨ctx, s⟩ := state
  obtain ⟨active, tracking, fired, enteredAt, hactive, heq⟩ :=
    ctx.checkPendingTimeout_cases env now s
  have hflag : (ctx.checkPendingTimeout_ env now s).1.hasActivePending = active := by
    rcases heq with heq | ⟨-, heq⟩
    · rw [heq]
      rfl
    · rw [heq]
      exact congrArg Prod.snd (quietView_runRecovery_ env.cfg env.api
        (ctx.track active tracking fired enteredAt) s)
  show (ctx.checkPendingTimeout_ env now s).1.hasActivePending = true ↔ _
  rw [hflag]
  exact hactive

theorem published_concat (start : MarketContext × σ) (steps : List WorkerStep) {a : WorkerStep}
    (hne : ∀ now, a ≠ .checkTimeout now) :
    Published env start (steps ++ [a]) ↔ Published env start steps := by
  constructor
  · rintro ⟨before, now, after, heq, hafter, hactive⟩
    obtain rfl | ⟨after', b, rfl⟩ := List.eq_nil_or_concat' after
    · exact absurd (List.append_inj_right' heq rfl) (by simpa using hne now)
    · rw [← List.cons_append, ← List.append_assoc] at heq
      exact ⟨before, now, after', List.append_inj_left' heq rfl,
        fun c hc => hafter c (List.mem_append_left _ hc), hactive⟩
  · rintro ⟨before, now, after, rfl, hafter, hactive⟩
    refine ⟨before, now, after ++ [a], by simp, fun c hc => ?_, hactive⟩
    rcases List.mem_append.mp hc with hc | hc
    · exact hafter c hc
    · rw [List.mem_singleton.mp hc]
      exact hne

theorem published_checkTimeout (start : MarketContext × σ) (steps : List WorkerStep) (now : Int) :
    Published env start (steps ++ [.checkTimeout now]) ↔
      (Machine.run (step env) start steps).1.HasActive := by
  constructor
  · rintro ⟨before, now', after, heq, hafter, hactive⟩
    obtain rfl | ⟨after', b, rfl⟩ := List.eq_nil_or_concat' after
    · rw [List.append_inj_left' heq rfl]
      exact hactive
    · rw [← List.cons_append, ← List.append_assoc] at heq
      have hlast : WorkerStep.checkTimeout now = b := by
        simpa using List.append_inj_right' heq rfl
      exact absurd hlast.symm (hafter b (List.mem_append_right _ List.mem_cons_self) now)
  · exact fun hactive => ⟨steps, now, [], rfl, fun _ hc => absurd hc List.not_mem_nil, hactive⟩

theorem hasActivePending_run (env : ManagerEnv σ) (start : MarketContext × σ)
    (hstart : start.1.hasActivePending = false) (steps : List WorkerStep) :
    (Machine.run (step env) start steps).1.hasActivePending = true ↔
      Published env start steps := by
  induction steps using List.reverseRecOn with
  | nil =>
    refine iff_of_false (by simp [hstart]) ?_
    rintro ⟨before, now, after, heq, -, -⟩
    exact absurd heq (by simp)
  | append_singleton steps a ih =>
    rw [Machine.run_append, Machine.run_cons, Machine.run_nil]
    by_cases htimeout : ∃ now, a = .checkTimeout now
    · obtain ⟨now, rfl⟩ := htimeout
      rw [hasActivePending_checkTimeout, published_checkTimeout]
    · have hne : ∀ now, a ≠ .checkTimeout now := fun now heq => htimeout ⟨now, heq⟩
      rw [hasActivePending_step env _ hne, ih, published_concat start steps hne]

/-- **A reconnect is noticed iff the order was published.** After any steps of a new context, a
    reconnect that finds an order active leads to a recovery exactly when an order was active as
    `checkPendingTimeout_` ran last, or a recovery is requested already. -/
theorem noticed_iff (env : ManagerEnv σ) (market : String) (mgr : AccountManager)
    (params : Params ℚ) (pos : PositionSnapshot ℚ) (db : Option Database) (s : σ)
    (steps : List WorkerStep) :
    let start := (create market mgr params pos db, s)
    let ctx := (Machine.run (step env) start steps).1
    ctx.Noticed ↔
      (ctx.HasActive → Published env start steps ∨ ctx.recoveryRequested = true) := by
  intro start ctx
  have hflag := hasActivePending_run env start rfl steps
  refine forall_congr' (fun _ => ?_)
  rw [← hflag]
  unfold requestRecovery
  by_cases hactive : ctx.hasActivePending = true
  · exact iff_of_true (by rw [if_pos hactive]) (.inl hactive)
  · rw [if_neg hactive]
    exact ⟨.inr, fun h => h.resolve_left hactive⟩

/-- The context of a position of 10 coins at 1000 KRW. -/
def positionContext : MarketContext :=
  create "KRW-BTC"
    (AccountManager.rebuildFromAccount oneOrderEnv.cfg.account
      { budgets := AList.singleton "KRW-BTC" { market := "KRW-BTC" } }
      { positions := [⟨"BTC", 10, 1000, "KRW"⟩] })
    (.standard ℚ) ⟨10, 1000⟩ none

/-- The stop is hit and the exit is submitted; the connection comes back before the worker has
    published it. -/
theorem not_noticed :
    ¬ ∀ steps : List WorkerStep,
      (Machine.run (step oneOrderEnv) (positionContext, none) steps).1.Noticed := by
  intro h
  have hactive : (Machine.run (step oneOrderEnv) (positionContext, none)
      [.handleOne (.marketData (some (fallingCandle, 1)))]).1.HasActive := by decide +kernel
  have hmissed : (Machine.run (step oneOrderEnv) (positionContext, none)
      [.handleOne (.marketData (some (fallingCandle, 1)))]).1.requestRecovery.recoveryRequested =
        false := by decide +kernel
  have hrequested := h [.handleOne (.marketData (some (fallingCandle, 1)))] hactive
  rw [hmissed] at hrequested
  cases hrequested

end CoinBot.MarketContext
