import CoinBot.App.Reconnect

/- The watch over a pending order.

   `checkPendingTimeout_` takes the time since an order was first seen pending; once it is
   too long it sets `pending_timeout_fired` and runs a recovery, and `runRecovery_` takes
   both marks back, whatever comes of it. So the flag is never left set, and a check that
   finds an order either runs a recovery or leaves the watch on (`iterate_cases`): without
   a recovery the readings of the checks stay within the timeout
   (`pending_never_abandoned`). -/
namespace CoinBot.MarketContext

variable {σ : Type}

/-! What a check does. -/

/-- When the pending order counts as entered, for a check that reads `now`. -/
def entered (ctx : MarketContext) (now : Int) : Int :=
  if ctx.trackingPending then ctx.pendingEnteredAt else now

/-- The check finds the order overdue, and runs a recovery. -/
def TimesOut (env : ManagerEnv σ) (ctx : MarketContext) (now : Int) : Prop :=
  ctx.HasActive ∧ (ctx.trackingPending = true → ctx.pendingTimeoutFired = false) ∧
    env.pendingTimeout ≤ now - ctx.entered now

instance (env : ManagerEnv σ) (ctx : MarketContext) (now : Int) : Decidable (ctx.TimesOut env now) :=
  inferInstanceAs (Decidable (_ ∧ _))

/-- The step runs a recovery. -/
def RunsRecovery (env : ManagerEnv σ) (state : MarketContext × σ) : WorkerStep → Prop
  | .takeRecovery => state.1.recoveryRequested = true
  | .handleOne .accountSync => True
  | .handleOne (.myOrder _) => False
  | .handleOne (.marketData _) => False
  | .deliverEvents _ => False
  | .checkTimeout now => state.1.TimesOut env now
  | .requestRecovery => False

/-- The marks of the watch. -/
def watch (ctx : MarketContext) : Bool × Bool × Int :=
  (ctx.trackingPending, ctx.pendingTimeoutFired, ctx.pendingEnteredAt)

variable {env : ManagerEnv σ} {ctx : MarketContext} {s : σ} {now : Int}

theorem checkPendingTimeout_idle (hactive : ¬ ctx.HasActive) :
    ctx.checkPendingTimeout_ env now s = (ctx.track false false false ctx.pendingEnteredAt, s) := by
  have hpending : ¬ (ctx.engine.activePendingIds.1 ≠ "" ∨ ctx.engine.activePendingIds.2 ≠ "") :=
    hactive
  unfold checkPendingTimeout_
  simp only [decide_eq_false hpending, if_pos hpending]
  rw [if_neg (fun h => hpending (And.left h))]
  rfl

theorem checkPendingTimeout_active (hactive : ctx.HasActive)
    (hclear : ctx.trackingPending = true → ctx.pendingTimeoutFired = false) :
    ctx.checkPendingTimeout_ env now s =
      if env.pendingTimeout ≤ now - ctx.entered now then
        (ctx.track true true true (ctx.entered now)).runRecovery_ env.cfg env.api s
      else (ctx.track true true false (ctx.entered now), s) := by
  have hpending : ctx.engine.activePendingIds.1 ≠ "" ∨ ctx.engine.activePendingIds.2 ≠ "" :=
    hactive
  unfold checkPendingTimeout_ entered
  by_cases htracking : ctx.trackingPending = true
  · have hnot : ¬ ctx.trackingPending = false := by simp [htracking]
    simp only [decide_eq_true hpending, if_neg (not_not.mpr hpending),
      if_neg (fun h => hnot (And.right h))]
    show (if ctx.pendingTimeoutFired = true then
        (ctx.track true ctx.trackingPending ctx.pendingTimeoutFired ctx.pendingEnteredAt, s)
      else if env.pendingTimeout ≤ now - ctx.pendingEnteredAt then
        (ctx.track true ctx.trackingPending true ctx.pendingEnteredAt).runRecovery_ env.cfg env.api s
      else (ctx.track true ctx.trackingPending ctx.pendingTimeoutFired ctx.pendingEnteredAt, s)) = _
    rw [hclear htracking, htracking, if_neg Bool.false_ne_true, if_pos rfl]
  · have hfalse : ctx.trackingPending = false := by simpa using htracking
    simp only [decide_eq_true hpending, if_neg (not_not.mpr hpending),
      if_pos (And.intro hpending hfalse)]
    rw [if_neg htracking]
    rfl

/-- A recovery takes the marks back, whatever comes of it. -/
theorem watch_runRecovery_ (cfg : AppConfig ℚ) (api : OrderApi σ) (ctx : MarketContext) (s : σ) :
    (ctx.runRecovery_ cfg api s).1.trackingPending = false ∧
      (ctx.runRecovery_ cfg api s).1.pendingTimeoutFired = false := by
  unfold runRecovery_
  simp only
  split
  · exact ⟨rfl, rfl⟩
  · exact ⟨rfl, rfl⟩

/-! What the other steps leave alone. -/

theorem watch_handleMyOrder_ (cfg : AppConfig ℚ) (ctx : MarketContext)
    (events : List MyOrderEvent) : (ctx.handleMyOrder_ cfg events).watch = ctx.watch := by
  unfold handleMyOrder_
  generalize events.any isTrade = hasTrade
  induction events generalizing ctx with
  | nil => rfl
  | cons ev events ih =>
    refine (ih (ctx.handleOrderEvent cfg hasTrade ev)).trans ?_
    cases ev with
    | trade t => rfl
    | order o =>
      unfold handleOrderEvent
      simp only
      split
      · split <;> rfl
      · split <;> rfl

theorem watch_submitOrder (env : ManagerEnv σ) (ctx : MarketContext) (req : OrderRequest ℚ)
    (s : σ) : (ctx.submitOrder env req s).2.1.watch = ctx.watch := by
  unfold submitOrder
  simp only
  split
  · rfl
  · rfl

theorem watch_doIntrabarCheck (env : ManagerEnv σ) (ctx : MarketContext) (close : Price) (s : σ) :
    (ctx.doIntrabarCheck env close s).1.watch = ctx.watch := by
  unfold doIntrabarCheck
  simp only
  split
  · rfl
  · split
    · rfl
    · split
      · rfl
      · next req _ =>
        have hsub := watch_submitOrder env
          { ctx with
            engine := ctx.engine.setMarkPrice close
            strategy := (ctx.strategy.onIntrabarCandle env.strategy close
              ({ ctx with engine := ctx.engine.setMarkPrice close } :
                MarketContext).buildAccountSnapshot_).2 } req s
        split
        · next hok =>
          rw [hok] at hsub
          exact hsub
        · next hfail =>
          rw [hfail] at hsub
          split
          · exact hsub
          · exact hsub

theorem watch_confirmCandle (env : ManagerEnv σ) (ctx : MarketContext) (candle : Candle ℚ)
    (liveUnit : Int) (s : σ) : (ctx.confirmCandle env candle liveUnit s).1.watch = ctx.watch := by
  unfold confirmCandle
  simp only
  split
  · rfl
  · rw [watch_submitOrder]
    rfl

theorem watch_handleMarketData_ (env : ManagerEnv σ) (ctx : MarketContext) (incoming : Candle ℚ)
    (liveUnit : Int) (s : σ) :
    (ctx.handleMarketData_ env incoming liveUnit s).1.watch = ctx.watch := by
  unfold handleMarketData_
  cases ctx.pendingCandle with
  | none => exact watch_doIntrabarCheck env _ _ s
  | some candle =>
    simp only
    split
    · exact watch_doIntrabarCheck env _ _ s
    · exact (watch_doIntrabarCheck env _ _ _).trans (watch_confirmCandle env _ candle liveUnit s)

theorem watch_handleEngineEvents_ (nowMs : Int) (ctx : MarketContext) (evs : List EngineEvent) :
    (ctx.handleEngineEvents_ nowMs evs).watch = ctx.watch := by
  unfold handleEngineEvents_
  induction evs generalizing ctx with
  | nil => rfl
  | cons ev evs ih =>
    refine (ih (ctx.handleEngineEvent nowMs ev)).trans ?_
    cases ev with
    | fill ev => rfl
    | status ev => rfl

/-- Without a recovery only the check moves the marks. -/
theorem watch_step {state : MarketContext × σ} {a : WorkerStep}
    (hne : ∀ now, a ≠ .checkTimeout now) (hquiet : ¬ RunsRecovery env state a) :
    (step env state a).1.watch = state.1.watch := by
  obtain ⟨ctx, s⟩ := state
  cases a with
  | takeRecovery =>
    have hnone : ¬ ctx.recoveryRequested = true := hquiet
    show (ctx.takeRecovery env s).1.watch = ctx.watch
    rw [takeRecovery, if_neg hnone]
  | handleOne input =>
    cases input with
    | myOrder dto => exact watch_handleMyOrder_ env.cfg ctx _
    | marketData update =>
      cases update with
      | none => rfl
      | some update => exact watch_handleMarketData_ env ctx update.1 update.2 s
    | accountSync => exact absurd trivial hquiet
  | deliverEvents nowMs => exact watch_handleEngineEvents_ nowMs _ _
  | checkTimeout now => exact absurd rfl (hne now)
  | requestRecovery =>
    show ctx.requestRecovery.watch = ctx.watch
    unfold requestRecovery
    split <;> rfl

/-- A step that runs a recovery is `runRecovery_`, on the engine as it was. -/
theorem step_recovers {state : MarketContext × σ} {a : WorkerStep}
    (hruns : RunsRecovery env state a) :
    ∃ ctx : MarketContext, ctx.engine = state.1.engine ∧
      step env state a = ctx.runRecovery_ env.cfg env.api state.2 := by
  obtain ⟨ctx, s⟩ := state
  cases a with
  | takeRecovery =>
    have hrequested : ctx.recoveryRequested = true := hruns
    refine ⟨{ ctx with recoveryRequested := false }, rfl, ?_⟩
    show ctx.takeRecovery env s = _
    rw [takeRecovery, if_pos hrequested]
  | handleOne input =>
    cases input with
    | myOrder dto => exact hruns.elim
    | marketData update => exact hruns.elim
    | accountSync => exact ⟨ctx, rfl, rfl⟩
  | deliverEvents nowMs => exact hruns.elim
  | checkTimeout now =>
    obtain ⟨hactive, hclear, hlate⟩ : ctx.TimesOut env now := hruns
    refine ⟨ctx.track true true true (ctx.entered now), rfl, ?_⟩
    show ctx.checkPendingTimeout_ env now s = _
    rw [checkPendingTimeout_active hactive hclear, if_pos hlate]
  | requestRecovery => exact hruns.elim

theorem watch_step_recovery {state : MarketContext × σ} {a : WorkerStep}
    (hruns : RunsRecovery env state a) :
    (step env state a).1.trackingPending = false ∧
      (step env state a).1.pendingTimeoutFired = false := by
  obtain ⟨ctx, -, heq⟩ := step_recovers hruns
  rw [heq]
  exact watch_runRecovery_ env.cfg env.api ctx state.2

/-! One iteration. -/

/-- What one iteration of `workerLoop_` gets: the message of the queue, if any, the two clocks, and
    how many requests of other threads come before each of its steps. -/
structure Iteration where
  input : Option EngineInput := none
  nowMs : Int := 0
  now : Int
  early : Nat := 0
  waiting : Nat := 0
  handled : Nat := 0
  delivered : Nat := 0

def requests (n : Nat) : List WorkerStep := List.replicate n .requestRecovery

/-- Its steps before the check of the timeout. -/
def Iteration.stepsBefore (it : Iteration) : List WorkerStep :=
  requests it.early ++ .takeRecovery :: requests it.waiting ++ it.input.toList.map .handleOne ++
    requests it.handled ++ .deliverEvents it.nowMs :: requests it.delivered

def beforeCheck (env : ManagerEnv σ) (state : MarketContext × σ) (it : Iteration) :
    MarketContext × σ := Machine.run (step env) state it.stepsBefore

def iterate (env : ManagerEnv σ) (state : MarketContext × σ) (it : Iteration) : MarketContext × σ :=
  step env (beforeCheck env state it) (.checkTimeout it.now)

/-- No step of the iteration runs a recovery. -/
def Quiet (env : ManagerEnv σ) (state : MarketContext × σ) (it : Iteration) : Prop :=
  Machine.Guarded (step env) (fun state a => ¬ RunsRecovery env state a) state it.stepsBefore ∧
    ¬ RunsRecovery env (beforeCheck env state it) (.checkTimeout it.now)

theorem stepsBefore_ne (it : Iteration) : ∀ a ∈ it.stepsBefore, ∀ now, a ≠ .checkTimeout now := by
  intro a ha now
  rintro rfl
  simp [Iteration.stepsBefore, requests] at ha

/-- The marks after steps without a check: taken back, or as they were. -/
theorem watch_run (env : ManagerEnv σ) {steps : List WorkerStep} (state : MarketContext × σ)
    (hne : ∀ a ∈ steps, ∀ now, a ≠ .checkTimeout now) :
    (Machine.run (step env) state steps).1.trackingPending = false ∧
        (Machine.run (step env) state steps).1.pendingTimeoutFired = false ∨
      (Machine.run (step env) state steps).1.watch = state.1.watch := by
  have hstep : ∀ (state' : MarketContext × σ) (a : WorkerStep),
      (state'.1.trackingPending = false ∧ state'.1.pendingTimeoutFired = false ∨
        state'.1.watch = state.1.watch) → (∀ now, a ≠ .checkTimeout now) →
      ((step env state' a).1.trackingPending = false ∧
          (step env state' a).1.pendingTimeoutFired = false ∨
        (step env state' a).1.watch = state.1.watch) := by
    intro state' a hmarks ha
    by_cases hruns : RunsRecovery env state' a
    · exact .inl (watch_step_recovery hruns)
    · have hsame := watch_step ha hruns
      rcases hmarks with ⟨htracking, hfired⟩ | hkept
      · exact .inl ⟨(congrArg Prod.fst hsame).trans htracking,
          (congrArg (fun w => w.2.1) hsame).trans hfired⟩
      · exact .inr (hsame.trans hkept)
  exact (Machine.always_of_guarded (g := fun _ a => ∀ now, a ≠ WorkerStep.checkTimeout now)
    hstep (.inr rfl) (Machine.guarded_of_forall (fun a ha _ => hne a ha) state)).last

theorem watch_run_quiet {steps : List WorkerStep} {state : MarketContext × σ}
    (hne : ∀ a ∈ steps, ∀ now, a ≠ .checkTimeout now)
    (hquiet : Machine.Guarded (step env) (fun state a => ¬ RunsRecovery env state a) state steps) :
    (Machine.run (step env) state steps).1.watch = state.1.watch := by
  induction steps generalizing state with
  | nil => rfl
  | cons a steps ih =>
    have hfirst := watch_step (hne a List.mem_cons_self) hquiet.1
    exact (ih (fun b hb => hne b (List.mem_cons_of_mem a hb)) hquiet.2).trans hfirst

theorem beforeCheck_clear (env : ManagerEnv σ) {state : MarketContext × σ}
    (hclear : state.1.pendingTimeoutFired = false)
    (it : Iteration) : (beforeCheck env state it).1.pendingTimeoutFired = false := by
  rcases watch_run env state (stepsBefore_ne it) with ⟨-, hfired⟩ | hsame
  · exact hfired
  · exact (congrArg (fun w => w.2.1) hsame).trans hclear

/-- The ways an iteration ends: without an order, after a recovery by its check, or with the order
    watched and not overdue. -/
theorem iterate_cases (env : ManagerEnv σ) {state : MarketContext × σ}
    (hclear : state.1.pendingTimeoutFired = false)
    (it : Iteration) :
    (iterate env state it).1.pendingTimeoutFired = false ∧
      (¬ (iterate env state it).1.HasActive ∧ (iterate env state it).1.trackingPending = false ∨
        RunsRecovery env (beforeCheck env state it) (.checkTimeout it.now) ∧
          (iterate env state it).1.trackingPending = false ∨
        (iterate env state it).1.trackingPending = true ∧
          (iterate env state it).1.pendingEnteredAt =
            (beforeCheck env state it).1.entered it.now ∧
          it.now - (iterate env state it).1.pendingEnteredAt < env.pendingTimeout) := by
  have hclear' := beforeCheck_clear env hclear it
  unfold iterate
  generalize beforeCheck env state it = before at hclear' ⊢
  obtain ⟨ctx, s⟩ := before
  have hstep : step env (ctx, s) (.checkTimeout it.now) = ctx.checkPendingTimeout_ env it.now s := rfl
  by_cases hactive : ctx.HasActive
  · by_cases hlate : env.pendingTimeout ≤ it.now - ctx.entered it.now
    · have hruns : RunsRecovery env (ctx, s) (.checkTimeout it.now) :=
        ⟨hactive, fun _ => hclear', hlate⟩
      obtain ⟨htracking, hfired⟩ := watch_step_recovery hruns
      exact ⟨hfired, .inr (.inl ⟨hruns, htracking⟩)⟩
    · rw [hstep, checkPendingTimeout_active hactive (fun _ => hclear'), if_neg hlate]
      exact ⟨rfl, .inr (.inr ⟨rfl, rfl, not_le.mp hlate⟩)⟩
  · rw [hstep, checkPendingTimeout_idle hactive]
    exact ⟨rfl, .inl ⟨hactive, rfl⟩⟩

/-! All iterations. -/

theorem clear_run (env : ManagerEnv σ) {state : MarketContext × σ}
    (hclear : state.1.pendingTimeoutFired = false)
    (its : List Iteration) :
    (Machine.run (iterate env) state its).1.pendingTimeoutFired = false :=
  (Machine.always_of_guarded (P := fun state : MarketContext × σ =>
      state.1.pendingTimeoutFired = false) (g := fun _ _ => True)
    (fun _ it hclear _ => (iterate_cases env hclear it).1) hclear
    (Machine.guarded_of_forall (fun _ _ _ => trivial) state)).last

theorem entered_mem (env : ManagerEnv σ) {state : MarketContext × σ}
    (hclear : state.1.pendingTimeoutFired = false)
    (hidle : state.1.trackingPending = false) (its : List Iteration) :
    (Machine.run (iterate env) state its).1.trackingPending = true →
      (Machine.run (iterate env) state its).1.pendingEnteredAt ∈ its.map Iteration.now := by
  induction its using List.reverseRecOn with
  | nil =>
    intro htracking
    rw [Machine.run_nil, hidle] at htracking
    cases htracking
  | append_singleton its it ih =>
    rw [Machine.run_append, Machine.run_cons, Machine.run_nil, List.map_append]
    have hclear' := clear_run env hclear its
    generalize Machine.run (iterate env) state its = before at ih hclear' ⊢
    intro htracking
    rcases (iterate_cases env hclear' it).2 with ⟨-, hfalse⟩ | ⟨-, hfalse⟩ | ⟨-, heq, -⟩
    · rw [htracking] at hfalse
      cases hfalse
    · rw [htracking] at hfalse
      cases hfalse
    · rw [heq, entered]
      split
      · next hbefore =>
        -- The watch was on before the check, so it was on at the end of the iteration before.
        rcases watch_run env before (stepsBefore_ne it) with ⟨hfalse, -⟩ | hsame
        · exact absurd (hbefore.symm.trans hfalse) (by simp)
        · have hon : before.1.trackingPending = true :=
            (congrArg Prod.fst hsame).symm.trans hbefore
          have hat : (beforeCheck env before it).1.pendingEnteredAt = before.1.pendingEnteredAt :=
            congrArg (fun w => w.2.2) hsame
          rw [hat]
          exact List.mem_append_left _ (ih hon)
      · exact List.mem_append_right _ (List.mem_singleton_self _)

/-- A watched order stays watched from the same reading on, and is not overdue, as long as it is
    active and no recovery is run. -/
theorem watched_stretch {state : MarketContext × σ} (hclear : state.1.pendingTimeoutFired = false)
    (hwatched : state.1.trackingPending = true) {its : List Iteration}
    (hits : Machine.Guarded (iterate env)
      (fun state it => Quiet env state it ∧ (iterate env state it).1.HasActive) state its) :
    ∀ last ∈ its.getLast?, last.now - state.1.pendingEnteredAt < env.pendingTimeout := by
  induction its generalizing state with
  | nil => exact fun last hlast => nomatch hlast
  | cons it its ih =>
    obtain ⟨⟨⟨hquiet, hcheck⟩, hactive⟩, hrest⟩ := hits
    have hsame := watch_run_quiet (stepsBefore_ne it) hquiet
    obtain ⟨hclear', hend⟩ := iterate_cases env hclear it
    obtain ⟨hon, heq, hearly⟩ :=
      (hend.resolve_left (fun h => h.1 hactive)).resolve_left (fun h => hcheck h.1)
    have hat : (iterate env state it).1.pendingEnteredAt = state.1.pendingEnteredAt := by
      have hbefore : (beforeCheck env state it).1.trackingPending = true :=
        (congrArg Prod.fst hsame).trans hwatched
      rw [heq, entered, if_pos hbefore]
      exact congrArg (fun w => w.2.2) hsame
    rw [hat] at hearly
    intro last hlast
    cases its with
    | nil =>
      obtain rfl : it = last := by simpa using hlast
      exact hearly
    | cons next its =>
      rw [List.getLast?_cons_cons] at hlast
      rw [← hat]
      exact ih hclear' hon hrest last hlast

/-- **A pending order is never abandoned.** At the end of every iteration of a worker the flag is
    clear; if an order is active then, the check of the iteration ran a recovery or the order is
    watched and was not overdue. So as long as an order is active at the end of every iteration and
    no recovery is run, the readings of the checks stay within the timeout. -/
theorem pending_never_abandoned (env : ManagerEnv σ) (market : String) (mgr : AccountManager)
    (params : Params ℚ) (pos : PositionSnapshot ℚ) (db : Option Database) (s : σ)
    (its : List Iteration) (it : Iteration) :
    let start := (create market mgr params pos db, s)
    let state := Machine.run (iterate env) start its
    let last := (iterate env state it).1
    (last.pendingTimeoutFired = false ∧
      (last.HasActive → RunsRecovery env (beforeCheck env state it) (.checkTimeout it.now) ∨
        last.trackingPending = true ∧ it.now - last.pendingEnteredAt < env.pendingTimeout)) ∧
    ∀ rest : List Iteration,
      ((its ++ it :: rest).map Iteration.now).Pairwise (· ≤ ·) →
      Machine.Guarded (iterate env)
        (fun state it => Quiet env state it ∧ (iterate env state it).1.HasActive) state
        (it :: rest) →
      ∀ final ∈ (it :: rest).getLast?, final.now - it.now < env.pendingTimeout := by
  intro start state last
  have hclear : state.1.pendingTimeoutFired = false := clear_run env rfl its
  obtain ⟨hclear', hend⟩ := iterate_cases env hclear it
  refine ⟨⟨hclear', fun hactive => ?_⟩, fun rest hclock hquiet final hfinal => ?_⟩
  · rcases hend with ⟨hnone, -⟩ | ⟨hruns, -⟩ | ⟨hon, -, hearly⟩
    · exact absurd hactive hnone
    · exact .inl hruns
    · exact .inr ⟨hon, hearly⟩
  · obtain ⟨⟨⟨-, hcheck⟩, hactive⟩, hrest⟩ := hquiet
    obtain ⟨hon, -, hearly⟩ :=
      (hend.resolve_left (fun h => h.1 hactive)).resolve_left (fun h => hcheck h.1)
    -- The order was entered at this reading or an earlier one.
    have hmem : last.pendingEnteredAt ∈ (its ++ [it]).map Iteration.now := by
      have hrun := entered_mem env (show start.1.pendingTimeoutFired = false from rfl) rfl
        (its ++ [it])
      rw [Machine.run_append, Machine.run_cons, Machine.run_nil] at hrun
      exact hrun hon
    have hle : last.pendingEnteredAt ≤ it.now := by
      rw [List.map_append, List.mem_append] at hmem
      rcases hmem with hearlier | hthis
      · rw [List.map_append] at hclock
        exact (List.pairwise_append.mp hclock).2.2 _ hearlier _ List.mem_cons_self
      · exact (List.mem_singleton.mp hthis).le
    have hwithin : final.now - last.pendingEnteredAt < env.pendingTimeout := by
      cases rest with
      | nil =>
        obtain rfl : it = final := by simpa using hfinal
        exact hearly
      | cons next rest =>
        rw [List.getLast?_cons_cons] at hfinal
        exact watched_stretch hclear' hon hrest final hfinal
    exact (Int.sub_le_sub_left hle _).trans_lt hwithin

/-- The exit of a position whose order stays open, with a timeout of 10. -/
def patientEnv : ManagerEnv (Option OrderPosition) := { oneOrderEnv with pendingTimeout := 10 }

theorem pending_never_abandoned_exit :
    let state := Machine.run (iterate patientEnv) (positionContext, none)
      [{ input := some (.marketData (some (fallingCandle, 1))), now := 0 }]
    let last := (iterate patientEnv state { now := 9 }).1
    (last.pendingTimeoutFired = false ∧
      (last.HasActive → RunsRecovery patientEnv (beforeCheck patientEnv state { now := 9 })
          (.checkTimeout 9) ∨
        last.trackingPending = true ∧ 9 - last.pendingEnteredAt < 10)) ∧
      (9 : Int) - 9 < 10 := by
  obtain ⟨hend, hstretch⟩ := pending_never_abandoned patientEnv "KRW-BTC"
    positionContext.engine.accountMgr (.standard ℚ) ⟨10, 1000⟩ none none
    [{ input := some (.marketData (some (fallingCandle, 1))), now := 0 }] { now := 9 }
  refine ⟨hend, hstretch [] (by decide) ⟨⟨⟨?_, ?_⟩, ?_⟩, trivial⟩ { now := 9 } rfl⟩
  · refine ⟨?_, fun hruns => hruns, trivial⟩
    show ¬ (Machine.run (iterate patientEnv) _ _).1.recoveryRequested = true
    decide +kernel
  · show ¬ TimesOut patientEnv _ 9
    decide +kernel
  · decide +kernel

end CoinBot.MarketContext
