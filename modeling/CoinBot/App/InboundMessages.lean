import CoinBot.Api.WsMessageParser
import CoinBot.App.CandleStream
import CoinBot.App.EventRouter

/- The texts of the queue, and the exceptions they cause.

   An iteration of `workerLoop_` that throws is caught as a whole: what stands behind
   the handling of the message is skipped. `MarketContext.workerIteration` is the
   iteration of a message that was read; here it is that of a text, as far as it gets.
   An order message never throws, a message of the market's data does where the type of
   its document cannot be read (`completes_iff`). -/
namespace CoinBot.MarketContext

open Json (Bytes Data AccessError)
open EventRouter (RawInput)
open WsMessageParser (parseCandle TypeReadable)

variable {σ : Type}

/-- `handleOne_` on a text. -/
def handleRaw (parse : Bytes → Option Data) (env : ManagerEnv σ) (ctx : MarketContext)
    (input : RawInput) (s : σ) : Except AccessError (MarketContext × σ) :=
  match input with
  | .myOrderRaw json =>
    .ok (ctx.handleMyOrder_ env.cfg (WsMessageParser.parseMyOrder env.cfg parse json), s)
  | .marketDataRaw json =>
    match parseCandle parse env.cfg.bot.liveCandleUnitMinutes json with
    | .error thrown => .error thrown
    | .ok none => .ok (ctx, s)
    | .ok (some (incoming, liveUnit)) => .ok (ctx.handleMarketData_ env incoming liveUnit s)

/-- What an iteration does once the message was handled. -/
def finishIteration (env : ManagerEnv σ) (state : MarketContext × σ) (nowMs now : Int) :
    MarketContext × σ := (state.1.deliverEvents nowMs).checkPendingTimeout_ env now state.2

/-- One iteration of `workerLoop_` with a text of the queue: an exception ends it. -/
def iterationRaw (parse : Bytes → Option Data) (env : ManagerEnv σ) (state : MarketContext × σ)
    (input : RawInput) (nowMs now : Int) : MarketContext × σ :=
  let taken := state.1.takeRecovery env state.2
  match handleRaw parse env taken.1 input taken.2 with
  | .error _ => taken
  | .ok handled => finishIteration env handled nowMs now

/-- The message is handled without an exception, and the rest of the iteration is run after it. -/
def Completes (parse : Bytes → Option Data) (env : ManagerEnv σ) (state : MarketContext × σ)
    (input : RawInput) (nowMs now : Int) : Prop :=
  ∃ handled, handleRaw parse env (state.1.takeRecovery env state.2).1 input
      (state.1.takeRecovery env state.2).2 = .ok handled ∧
    iterationRaw parse env state input nowMs now = finishIteration env handled nowMs now

/-- A message of the market's data has a document whose type can be read, if it is JSON at all. -/
def Readable (parse : Bytes → Option Data) : RawInput → Prop
  | .myOrderRaw _ => True
  | .marketDataRaw json => ∀ j, parse json = some j → TypeReadable j

/-! What is read of a text. -/

/-- The message that the worker of `MarketContext` is given for a text. -/
def readInput (parse : Bytes → Option Data) (fallbackUnit : Int) :
    RawInput → Except AccessError EngineInput
  | .myOrderRaw json =>
    .ok (.myOrder ((parse json).bind fun j => (UpbitMyOrderDto.fromJson j).toOption))
  | .marketDataRaw json => (parseCandle parse fallbackUnit json).map .marketData

/-- A text is handled as what is read of it. -/
theorem handleRaw_eq (parse : Bytes → Option Data) (env : ManagerEnv σ) (ctx : MarketContext)
    (input : RawInput) (s : σ) :
    handleRaw parse env ctx input s =
      (readInput parse env.cfg.bot.liveCandleUnitMinutes input).map (ctx.handleOne_ env · s) := by
  cases input with
  | myOrderRaw json =>
    unfold handleRaw readInput WsMessageParser.parseMyOrder
    simp only [Except.map, handleOne_]
    cases parse json with
    | none => rfl
    | some j =>
      simp only [Option.bind_some]
      cases UpbitMyOrderDto.fromJson j with
      | error thrown => rfl
      | ok dto => rfl
  | marketDataRaw json =>
    unfold handleRaw readInput
    simp only
    cases parseCandle parse env.cfg.bot.liveCandleUnitMinutes json with
    | error thrown => rfl
    | ok update =>
      cases update with
      | none => rfl
      | some update => rfl

theorem iterationRaw_read {parse : Bytes → Option Data} {env : ManagerEnv σ}
    (state : MarketContext × σ) {raw : RawInput} {input : EngineInput} (nowMs now : Int)
    (hread : readInput parse env.cfg.bot.liveCandleUnitMinutes raw = .ok input) :
    iterationRaw parse env state raw nowMs now =
      workerIteration env state (some input) nowMs now := by
  unfold iterationRaw
  simp only [handleRaw_eq, hread]
  rfl

/-- A text is read iff it does not hide its type. -/
theorem readInput_ok_iff (parse : Bytes → Option Data) (fallbackUnit : Int) (raw : RawInput) :
    (∃ input, readInput parse fallbackUnit raw = .ok input) ↔ Readable parse raw := by
  cases raw with
  | myOrderRaw json => exact iff_of_true ⟨_, rfl⟩ trivial
  | marketDataRaw json =>
    refine Iff.trans ?_ (WsMessageParser.parseCandle_ok_iff parse fallbackUnit json)
    show (∃ input, (parseCandle parse fallbackUnit json).map EngineInput.marketData = .ok input) ↔ _
    cases parseCandle parse fallbackUnit json with
    | error thrown => exact iff_of_false (fun ⟨_, h⟩ => nomatch h) (fun ⟨_, h⟩ => nomatch h)
    | ok update => exact iff_of_true ⟨_, rfl⟩ ⟨_, rfl⟩

/-! The iteration. -/

/-- **A message aborts the iteration iff its type cannot be read.** For every text of the queue,
    every environment and every state, the message is handled without an exception and the rest of
    the iteration is run, exactly when the text is an order message, or is no JSON, or is an object
    without a type or with a string for it. -/
theorem completes_iff (parse : Bytes → Option Data) (env : ManagerEnv σ)
    (state : MarketContext × σ) (input : RawInput) (nowMs now : Int) :
    Completes parse env state input nowMs now ↔ Readable parse input := by
  rw [← readInput_ok_iff parse env.cfg.bot.liveCandleUnitMinutes input]
  unfold Completes iterationRaw
  simp only [handleRaw_eq]
  cases readInput parse env.cfg.bot.liveCandleUnitMinutes input with
  | error thrown => exact iff_of_false (fun ⟨_, h, _⟩ => nomatch h) (fun ⟨_, h⟩ => nomatch h)
  | ok message => exact iff_of_true ⟨_, rfl, rfl⟩ ⟨_, rfl⟩

/-- Otherwise the events of the engine stay where they are and the timeout is not checked. -/
theorem iterationRaw_unreadable {parse : Bytes → Option Data} (env : ManagerEnv σ)
    (state : MarketContext × σ) {raw : RawInput} (nowMs now : Int) (h : ¬ Readable parse raw) :
    iterationRaw parse env state raw nowMs now = state.1.takeRecovery env state.2 := by
  rw [← readInput_ok_iff parse env.cfg.bot.liveCandleUnitMinutes] at h
  unfold iterationRaw
  simp only [handleRaw_eq]
  cases hread : readInput parse env.cfg.bot.liveCandleUnitMinutes raw with
  | error thrown => rfl
  | ok message => exact absurd ⟨message, hread⟩ h

/-- A message whose type is a number. -/
def numberTyped : Json.ObjectText where
  before := []
  inside := []
  members := .cons [] (Json.spell "type") [] []
    (.number (.ofDigit (Fin.last 9))) []
    (.cons [] (Json.spell "code") [] [] (.string (Json.spell "KRW-BTC")) [] .none)
  after := []

/-- The router takes it for its market, and the worker throws. -/
theorem not_completes :
    ¬ ∀ (parse : Bytes → Option Data) (r : EventRouter) (d : Json.ObjectText),
      parse d.render = d.data → (r.routeMarketData parse d.render).1 = true →
      Completes parse silentEnv (idleContext, ()) (.marketDataRaw d.render) 0 0 := by
  intro hall
  have hrouted : ((EventRouter.registerMarket ⟨∅, true, {}⟩
      (Json.utf8 "KRW-BTC")).routeMarketData (fun _ => numberTyped.data) numberTyped.render).1 =
        true := by decide +kernel
  have hcompletes := hall (fun _ => numberTyped.data) _ numberTyped rfl hrouted
  rw [completes_iff] at hcompletes
  obtain ⟨-, htype⟩ := hcompletes _ rfl
  obtain ⟨s, hs⟩ := htype _ rfl
  cases hs

end CoinBot.MarketContext
