import CoinBot.App.RouterPaths
import CoinBot.App.Startup

/- From the WebSockets to the workers.

   A message goes to the queue of the market that the router reads in it; the market's
   worker takes the messages one by one. In the model the router also logs what it pushes
   to each market. What the worker takes is compared with that log: the queue drops its
   oldest message when it is full, and nothing else loses one (`taken_in_order`). Every
   message that the router is given is counted once, under what became of it
   (`routed_exactly`). -/
namespace CoinBot

open Json (Bytes Data)

/-! The router. -/

namespace EventRouter

variable {parse : Bytes → Option Data} {r : EventRouter}

/-- What becomes of a message: its market, where one is registered. -/
theorem route_eq (parse : Bytes → Option Data) (r : EventRouter) (json : Bytes) (input : RawInput) :
    (∃ stats, r.target parse json = none ∧ r.route parse json input = (false, { r with stats := stats })) ∨
    ∃ key queue stats, r.target parse json = some key ∧ r.routes.lookup key = some queue ∧
      r.route parse json input =
        (true, { r with routes := r.routes.insert key (queue ++ [input]), stats := stats }) := by
  unfold route target
  by_cases hclosed : (!r.accepting) = true
  · rw [if_pos hclosed, if_pos hclosed]
    exact .inl ⟨r.stats, rfl, rfl⟩
  · rw [if_neg hclosed, if_neg hclosed]
    by_cases hconflict : (extractMarketFast_ json).hadConflict = true
    · simp only [if_pos hconflict]
      exact .inl ⟨_, trivial, rfl⟩
    · simp only [if_neg hconflict]
      -- Either path only names the key; `deliver` looks it up.
      have hdeliver : ∀ (key : Bytes) (stats : Stats),
          (∃ stats', (some key).filter (fun key => (r.routes.lookup key).isSome) = none ∧
            r.deliver input key stats = (false, { r with stats := stats' })) ∨
          ∃ key' queue stats', (some key).filter (fun key => (r.routes.lookup key).isSome) =
              some key' ∧ r.routes.lookup key' = some queue ∧ r.deliver input key stats =
                (true, { r with routes := r.routes.insert key' (queue ++ [input]), stats := stats' }) := by
        intro key stats
        unfold deliver
        cases hlookup : r.routes.lookup key with
        | none => exact .inl ⟨_, by simp [hlookup], rfl⟩
        | some queue => exact .inr ⟨key, queue, _, by simp [hlookup], hlookup, rfl⟩
      cases (extractMarketFast_ json).market with
      | some key =>
        rw [Option.some_or]
        exact hdeliver key _
      | none =>
        rw [Option.none_or]
        cases extractMarketSlow_ parse json with
        | some key => exact hdeliver key _
        | none => exact .inl ⟨_, rfl, rfl⟩

theorem lookup_route (parse : Bytes → Option Data) (r : EventRouter) (json : Bytes)
    (input : RawInput) (key : Bytes) :
    (r.route parse json input).2.routes.lookup key =
      if r.target parse json = some key then (r.routes.lookup key).map (· ++ [input])
      else r.routes.lookup key := by
  rcases route_eq parse r json input with ⟨stats, htarget, heq⟩ | ⟨key', queue, stats, htarget, hqueue, heq⟩
  · rw [heq, htarget, if_neg (by simp)]
  · rw [heq, htarget]
    by_cases hkey : key = key'
    · subst hkey
      rw [if_pos rfl, AList.lookup_insert, hqueue]
      rfl
    · rw [if_neg (fun h => hkey (Option.some.inj h).symm)]
      exact AList.lookup_insert_ne hkey

theorem target_congr {r' : EventRouter} (haccepting : r'.accepting = r.accepting)
    (hroutes : ∀ key, (r'.routes.lookup key).isSome = (r.routes.lookup key).isSome) (json : Bytes) :
    r'.target parse json = r.target parse json := by
  unfold target
  rw [haccepting]
  simp only [hroutes]

theorem accepting_route (parse : Bytes → Option Data) (r : EventRouter) (json : Bytes)
    (input : RawInput) : (r.route parse json input).2.accepting = r.accepting := by
  rcases route_eq parse r json input with ⟨stats, -, heq⟩ | ⟨key, queue, stats, -, -, heq⟩
  · rw [heq]
  · rw [heq]

theorem target_route (parse : Bytes → Option Data) (r : EventRouter) (json : Bytes)
    (input : RawInput) (json' : Bytes) :
    (r.route parse json input).2.target parse json' = r.target parse json' := by
  refine target_congr (accepting_route parse r json input) (fun key => ?_) json'
  rw [lookup_route]
  split
  · exact Option.isSome_map
  · rfl

/-- What found the market of a message. -/
inductive Path where
  | fast
  | fallback
  deriving DecidableEq, Repr

/-- Why a message goes nowhere. -/
inductive Refusal where
  | conflict
  | parseFailure
  | unknownMarket
  deriving DecidableEq, Repr

inductive Fate where
  | routed (path : Path) (key : Bytes)
  | refused (why : Refusal)
  deriving DecidableEq, Repr

def Fate.market : Fate → Option Bytes
  | routed _ key => some key
  | refused _ => none

def Fate.path : Fate → Option Path
  | routed path _ => some path
  | refused _ => none

/-- A market that was found has to be registered. -/
def found (r : EventRouter) (path : Path) (key : Bytes) : Fate :=
  if (r.routes.lookup key).isSome then .routed path key else .refused .unknownMarket

/-- What becomes of a message: two keys that disagree end the search, and only a text in which the
    fast path finds none is parsed. -/
def fate (parse : Bytes → Option Data) (r : EventRouter) (json : Bytes) : Fate :=
  if (extractMarketFast_ json).hadConflict then .refused .conflict
  else match (extractMarketFast_ json).market, extractMarketSlow_ parse json with
    | some key, _ => r.found .fast key
    | none, some key => r.found .fallback key
    | none, none => .refused .parseFailure

theorem fate_congr {r' : EventRouter}
    (hroutes : ∀ key, (r'.routes.lookup key).isSome = (r.routes.lookup key).isSome) (json : Bytes) :
    r'.fate parse json = r.fate parse json := by
  unfold fate found
  simp only [hroutes]

theorem fate_route (parse : Bytes → Option Data) (r : EventRouter) (json : Bytes)
    (input : RawInput) (json' : Bytes) :
    (r.route parse json input).2.fate parse json' = r.fate parse json' := by
  refine fate_congr (fun key => ?_) json'
  rw [lookup_route]
  split
  · exact Option.isSome_map
  · rfl

theorem market_found (r : EventRouter) (path : Path) (key : Bytes) :
    (r.found path key).market = (some key).filter (fun key => (r.routes.lookup key).isSome) := by
  unfold found
  rw [Option.filter_some]
  split
  · rfl
  · rfl

/-- The market of a message that is taken is where it goes. -/
theorem target_eq_market (parse : Bytes → Option Data) {r : EventRouter} (h : r.accepting = true)
    (json : Bytes) : r.target parse json = (r.fate parse json).market := by
  have hopen : ¬ (!r.accepting) = true := by simp [h]
  unfold target fate
  rw [if_neg hopen]
  by_cases hconflict : (extractMarketFast_ json).hadConflict = true
  · rw [if_pos hconflict, if_pos hconflict]
    rfl
  · rw [if_neg hconflict, if_neg hconflict]
    cases (extractMarketFast_ json).market with
    | some key => exact (market_found r .fast key).symm
    | none =>
      cases extractMarketSlow_ parse json with
      | some key => exact (market_found r .fallback key).symm
      | none => rfl

/-- The counters of one more message. -/
def Stats.count (s : Stats) : Fate → Stats
  | .routed .fast _ =>
    { s with fastPathSuccess := s.fastPathSuccess + 1, totalRouted := s.totalRouted + 1 }
  | .routed .fallback _ =>
    { s with fallbackUsed := s.fallbackUsed + 1, totalRouted := s.totalRouted + 1 }
  | .refused .conflict => { s with conflictDetected := s.conflictDetected + 1 }
  | .refused .parseFailure => { s with parseFailures := s.parseFailures + 1 }
  | .refused .unknownMarket => { s with unknownMarket := s.unknownMarket + 1 }

theorem stats_route (parse : Bytes → Option Data) {r : EventRouter} (h : r.accepting = true)
    (json : Bytes) (input : RawInput) :
    (r.route parse json input).2.stats = r.stats.count (r.fate parse json) := by
  have hopen : ¬ (!r.accepting) = true := by simp [h]
  unfold route fate
  rw [if_neg hopen]
  by_cases hconflict : (extractMarketFast_ json).hadConflict = true
  · simp only [if_pos hconflict]
    rfl
  · simp only [if_neg hconflict]
    cases (extractMarketFast_ json).market with
    | some key =>
      simp only [deliver, found]
      cases r.routes.lookup key with
      | none => rfl
      | some queue => rfl
    | none =>
      cases extractMarketSlow_ parse json with
      | some key =>
        simp only [deliver, found]
        cases r.routes.lookup key with
        | none => rfl
        | some queue => rfl
      | none => rfl

/-- One message after the other, of either WebSocket. -/
def routeStep (parse : Bytes → Option Data) (r : EventRouter) (message : Bytes × RawInput) :
    EventRouter := (r.route parse message.1 message.2).2

/-- How the counters grow by some messages: each by those of its own kind. -/
structure Counted (before after : Stats) (fates : List Fate) : Prop where
  fastPathSuccess : after.fastPathSuccess =
    before.fastPathSuccess + fates.countP (fun f => f.path = some .fast)
  fallbackUsed : after.fallbackUsed =
    before.fallbackUsed + fates.countP (fun f => f.path = some .fallback)
  conflictDetected : after.conflictDetected =
    before.conflictDetected + fates.count (.refused .conflict)
  parseFailures : after.parseFailures =
    before.parseFailures + fates.count (.refused .parseFailure)
  unknownMarket : after.unknownMarket =
    before.unknownMarket + fates.count (.refused .unknownMarket)
  totalRouted : after.totalRouted =
    before.totalRouted + fates.countP (fun f => f.market.isSome)

theorem Counted.one (s : Stats) (fate : Fate) : Counted s (s.count fate) [fate] := by
  rcases fate with ⟨_ | _, key⟩ | ⟨_ | _ | _⟩
  all_goals exact ⟨rfl, rfl, rfl, rfl, rfl, rfl⟩

theorem Counted.append {s s' s'' : Stats} {fates fates' : List Fate} (h : Counted s s' fates)
    (h' : Counted s' s'' fates') : Counted s s'' (fates ++ fates') where
  fastPathSuccess := by
    rw [h'.fastPathSuccess, h.fastPathSuccess, List.countP_append, Nat.add_assoc]
  fallbackUsed := by rw [h'.fallbackUsed, h.fallbackUsed, List.countP_append, Nat.add_assoc]
  conflictDetected := by
    rw [h'.conflictDetected, h.conflictDetected, List.count_append, Nat.add_assoc]
  parseFailures := by rw [h'.parseFailures, h.parseFailures, List.count_append, Nat.add_assoc]
  unknownMarket := by rw [h'.unknownMarket, h.unknownMarket, List.count_append, Nat.add_assoc]
  totalRouted := by rw [h'.totalRouted, h.totalRouted, List.countP_append, Nat.add_assoc]

/-- **What the router does with a stream.** A router that takes messages pushes to each market
    just the messages that name it, in their order, and each counter grows by the messages of its
    own kind: those that the fast path or the fallback found a registered market for, and those that
    were refused for each of the three reasons. -/
theorem routed_exactly (parse : Bytes → Option Data) (r : EventRouter) (h : r.accepting = true)
    (messages : List (Bytes × RawInput)) :
    let final := Machine.run (routeStep parse) r messages
    (∀ key log, r.routes.lookup key = some log → final.routes.lookup key = some (log ++
      (messages.filter (fun m => (r.fate parse m.1).market = some key)).map (·.2))) ∧
    Counted r.stats final.stats (messages.map (fun m => r.fate parse m.1)) := by
  induction messages generalizing r with
  | nil => exact ⟨fun key log hlog => by simpa using hlog, rfl, rfl, rfl, rfl, rfl, rfl⟩
  | cons message messages ih =>
    obtain ⟨json, input⟩ := message
    have hopen : (routeStep parse r (json, input)).accepting = true :=
      (accepting_route parse r json input).trans h
    have hfate : ∀ json', (routeStep parse r (json, input)).fate parse json' =
        r.fate parse json' := fate_route parse r json input
    have hstats : (routeStep parse r (json, input)).stats = r.stats.count (r.fate parse json) :=
      stats_route parse h json input
    obtain ⟨hlogs, hcounted⟩ := ih (routeStep parse r (json, input)) hopen
    simp only [hfate] at hlogs hcounted
    rw [hstats] at hcounted
    refine ⟨fun key log hlog => ?_, (Counted.one r.stats _).append hcounted⟩
    have hstep : (routeStep parse r (json, input)).routes.lookup key =
        if (r.fate parse json).market = some key then some (log ++ [input]) else some log := by
      show (r.route parse json input).2.routes.lookup key = _
      rw [lookup_route, hlog, target_eq_market parse h]
      rfl
    by_cases hkey : (r.fate parse json).market = some key
    · rw [if_pos hkey] at hstep
      have hall := hlogs key _ hstep
      rw [List.filter_cons_of_pos (by simpa using hkey), List.map_cons]
      rw [List.append_assoc] at hall
      exact hall
    · rw [if_neg hkey] at hstep
      rw [List.filter_cons_of_neg (by simpa using hkey)]
      exact hlogs key _ hstep

/-- A ticker, and a text that names no market. -/
theorem routed_exactly_ticker :
    let r : EventRouter := { routes := AList.singleton (Json.utf8 "KRW-BTC") [] }
    let messages := [(ticker.render, .marketDataRaw ticker.render), ([], .myOrderRaw [])]
    let final := Machine.run (routeStep (fun _ => none)) r messages
    final.routes.lookup (Json.utf8 "KRW-BTC") = some [.marketDataRaw ticker.render] ∧
      final.stats = { fastPathSuccess := 1, parseFailures := 1, totalRouted := 1 } := by
  intro r messages final
  obtain ⟨hlogs, hcounted⟩ := routed_exactly (fun _ => none) r rfl messages
  have hfates : messages.map (fun m => r.fate (fun _ => none) m.1) =
      [.routed .fast (Json.utf8 "KRW-BTC"), .refused .parseFailure] := by decide +kernel
  rw [hfates] at hcounted
  refine ⟨(hlogs (Json.utf8 "KRW-BTC") [] (by decide +kernel)).trans (by decide +kernel), ?_⟩
  exact Stats.ext hcounted.fastPathSuccess hcounted.fallbackUsed hcounted.parseFailures
    hcounted.conflictDetected hcounted.unknownMarket hcounted.totalRouted

end EventRouter

namespace Bot

open EventRouter (RawInput)
open BlockingQueue (Call)

variable {σ : Type} {parse : Bytes → Option Data} {env : ManagerEnv σ}

/-- The queue of a market's context. -/
def queue (b : Bot) (market : String) : Option (BlockingQueue RawInput) :=
  (b.manager.contexts.lookup market).map (·.eventQueue)

/-- What the router has pushed to a market. -/
def routed (b : Bot) (market : String) : Option (List RawInput) :=
  b.router.routes.lookup (Json.utf8 market)

/-- What the worker of a market takes from its queue in a step. -/
def taken (market : String) (state : Bot × σ) : BotStep → List RawInput
  | .turn m .handleNext =>
    if m = market then ((state.1.queue market).bind (·.popFor.1)).toList else []
  | _ => []

/-- The call that a step makes on the queue of a market. -/
def queueCalls (parse : Bytes → Option Data) (market : String) (state : Bot × σ) :
    BotStep → List (Call RawInput)
  | .marketData json =>
    if state.1.router.target parse json = some (Json.utf8 market)
    then [.push (.marketDataRaw json)] else []
  | .myOrder json =>
    if state.1.router.target parse json = some (Json.utf8 market)
    then [.push (.myOrderRaw json)] else []
  | .turn m .handleNext => if m = market then [.popFor] else []
  | _ => []

/-- No message finds the queue of its market full. -/
def HasRoom (parse : Bytes → Option Data) (market : String) (state : Bot × σ) (a : BotStep) : Prop :=
  ∀ q, state.1.queue market = some q → ∀ c ∈ queueCalls parse market state a, q.HasRoom c

/-! One step. -/

theorem lookup_receive (b : Bot) (json : Bytes) (input : RawInput) (market : String) :
    (b.receive parse json input).manager.contexts.lookup market =
      (b.manager.contexts.lookup market).map (fun w =>
        if b.router.target parse json = some (Json.utf8 market)
        then { w with eventQueue := w.eventQueue.push input } else w) := by
  unfold receive
  cases htarget : b.router.target parse json with
  | none => simp
  | some key =>
    unfold MarketEngineManager.pushTo
    simp only [KeyMap.lookup_mapVal, Option.some.injEq, eq_comm]

theorem queue_receive (b : Bot) (json : Bytes) (input : RawInput) (market : String) :
    (b.receive parse json input).queue market =
      if b.router.target parse json = some (Json.utf8 market)
      then (b.queue market).map (·.push input) else b.queue market := by
  unfold queue
  rw [lookup_receive, Option.map_map]
  split
  · rw [Option.map_map]
    rfl
  · rfl

/-- A turn leaves every queue as it is, but for the message that its own worker takes. -/
theorem eventQueue_turn (w : Worker) (s : σ) (t : Turn) :
    (w.turn parse env s t).1.eventQueue =
      if t = .handleNext then w.eventQueue.popFor.2 else w.eventQueue := by
  cases t with
  | takeRecovery => rfl
  | handleNext =>
    show (w.handleNext parse env s).1.eventQueue = w.eventQueue.popFor.2
    unfold Worker.handleNext
    split
    · next heq => rw [heq]
    · next raw q heq =>
      rw [heq]
      split
      · rfl
      · rfl
  | deliverEvents nowMs => rfl
  | checkTimeout now => rfl

theorem mem_items_turn {w : Worker} {s : σ} {t : Turn} {raw : RawInput}
    (h : raw ∈ (w.turn parse env s t).1.eventQueue.items) : raw ∈ w.eventQueue.items := by
  rw [eventQueue_turn] at h
  split at h
  · exact List.mem_of_mem_tail h
  · exact h

theorem queue_turn (state : Bot × σ) (m market : String) (t : Turn) :
    (step parse env state (.turn m t)).1.queue market =
      if m = market ∧ t = .handleNext then (state.1.queue market).map (·.popFor.2)
      else state.1.queue market := by
  show ((MarketEngineManager.step parse env (state.1.manager, state.2) (m, .turn t)).1.contexts.lookup
    market).map (·.eventQueue) = _
  unfold queue
  cases hlookup : state.1.manager.contexts.lookup m with
  | none =>
    rw [MarketEngineManager.step_absent hlookup]
    by_cases hm : m = market ∧ t = .handleNext
    · obtain ⟨rfl, -⟩ := hm
      simp [hlookup]
    · rw [if_neg hm]
  | some w =>
    rw [MarketEngineManager.step_of_lookup hlookup]
    by_cases hm : m = market
    · subst hm
      rw [MarketEngineManager.lookup_put_self, hlookup]
      simp only [Option.map_some, Worker.step, eventQueue_turn, true_and]
      split
      · rfl
      · rfl
    · rw [MarketEngineManager.lookup_put_ne _ _ (Ne.symm hm), if_neg (fun h => hm h.1)]

theorem routed_receive (b : Bot) (json : Bytes) (input : RawInput) (market : String) :
    (b.receive parse json input).routed market =
      if b.router.target parse json = some (Json.utf8 market)
      then (b.routed market).map (· ++ [input]) else b.routed market :=
  EventRouter.lookup_route parse b.router json input (Json.utf8 market)

variable (parse env) in
/-- A step on the queue of a market, on what is routed to it and on what is taken. -/
theorem queue_step (state : Bot × σ) (a : BotStep) {market : String}
    {q : BlockingQueue RawInput} {log : List RawInput} (hq : state.1.queue market = some q)
    (hlog : state.1.routed market = some log) :
    let calls := queueCalls parse market state a
    (step parse env state a).1.queue market = some (Machine.run BlockingQueue.call q calls) ∧
      (step parse env state a).1.routed market = some (log ++ BlockingQueue.pushes calls) ∧
      taken market state a = Machine.outputs BlockingQueue.call BlockingQueue.popped q calls := by
  intro calls
  have hreceive : ∀ json input,
      (state.1.receive parse json input).queue market = some (Machine.run BlockingQueue.call q
        (if state.1.router.target parse json = some (Json.utf8 market) then [.push input] else [])) ∧
      (state.1.receive parse json input).routed market = some (log ++ BlockingQueue.pushes
        (if state.1.router.target parse json = some (Json.utf8 market) then [.push input] else [])) ∧
      [] = Machine.outputs BlockingQueue.call BlockingQueue.popped q
        (if state.1.router.target parse json = some (Json.utf8 market) then [.push input] else []) := by
    intro json input
    rw [queue_receive, routed_receive, hq, hlog]
    split
    · exact ⟨rfl, rfl, rfl⟩
    · exact ⟨rfl, by simp [BlockingQueue.pushes], rfl⟩
  cases a with
  | marketData json => exact hreceive json (.marketDataRaw json)
  | myOrder json => exact hreceive json (.myOrderRaw json)
  | reconnect =>
    have hnone : log ++ BlockingQueue.pushes calls = log := List.append_nil log
    rw [hnone]
    refine ⟨?_, hlog, rfl⟩
    unfold step queue MarketEngineManager.requestReconnectRecovery
    simp only [KeyMap.lookup_mapVal, Option.map_map]
    exact hq
  | turn m t =>
    have hrouted : (step parse env state (.turn m t)).1.routed market = some log := hlog
    rw [queue_turn, hq, hrouted]
    by_cases hm : m = market ∧ t = .handleNext
    · obtain ⟨rfl, rfl⟩ := hm
      have hcalls : calls = [.popFor] := by simp [calls, queueCalls]
      rw [hcalls, if_pos ⟨rfl, rfl⟩, taken, if_pos rfl, hq]
      exact ⟨rfl, by simp [BlockingQueue.pushes], by simp [Machine.outputs, BlockingQueue.popped]⟩
    · have hcalls : calls = [] := by
        cases t with
        | handleNext => simp only [calls, queueCalls]; exact if_neg (fun h => hm ⟨h, rfl⟩)
        | takeRecovery => rfl
        | deliverEvents nowMs => rfl
        | checkTimeout now => rfl
      have htaken : taken market state (.turn m t) = [] := by
        cases t with
        | handleNext => exact if_neg (fun h => hm ⟨h, rfl⟩)
        | takeRecovery => rfl
        | deliverEvents nowMs => rfl
        | checkTimeout now => rfl
      rw [hcalls, if_neg hm, htaken]
      exact ⟨rfl, by simp [BlockingQueue.pushes], rfl⟩

/-! A run. -/

/-- The calls of a run on the queue of a market. -/
def allCalls (parse : Bytes → Option Data) (env : ManagerEnv σ) (market : String)
    (state : Bot × σ) (steps : List BotStep) : List (Call RawInput) :=
  Machine.outputs (step parse env) (queueCalls parse market) state steps

/-- What the worker of a market takes in a run. -/
def allTaken (parse : Bytes → Option Data) (env : ManagerEnv σ) (market : String)
    (state : Bot × σ) (steps : List BotStep) : List RawInput :=
  Machine.outputs (step parse env) (taken market) state steps

theorem pushes_append {T : Type} (cs ds : List (Call T)) :
    BlockingQueue.pushes (cs ++ ds) = BlockingQueue.pushes cs ++ BlockingQueue.pushes ds :=
  List.flatMap_append

variable (parse env) in
theorem queue_run (state : Bot × σ) (steps : List BotStep) {market : String}
    {q : BlockingQueue RawInput} {log : List RawInput} (hq : state.1.queue market = some q)
    (hlog : state.1.routed market = some log) :
    let calls := allCalls parse env market state steps
    (Machine.run (step parse env) state steps).1.queue market =
        some (Machine.run BlockingQueue.call q calls) ∧
      (Machine.run (step parse env) state steps).1.routed market =
        some (log ++ BlockingQueue.pushes calls) ∧
      allTaken parse env market state steps =
        Machine.outputs BlockingQueue.call BlockingQueue.popped q calls := by
  induction steps generalizing state q log with
  | nil =>
    refine ⟨hq, ?_, rfl⟩
    simpa [allCalls, Machine.outputs, BlockingQueue.pushes] using hlog
  | cons a steps ih =>
    obtain ⟨hq', hlog', htaken'⟩ := queue_step parse env state a hq hlog
    obtain ⟨hqs, hlogs, htakens⟩ := ih (step parse env state a) hq' hlog'
    have hcalls : allCalls parse env market state (a :: steps) =
        queueCalls parse market state a ++
          allCalls parse env market (step parse env state a) steps := rfl
    intro calls
    show _ = some (Machine.run _ q (allCalls parse env market state (a :: steps))) ∧
      _ = some (log ++ BlockingQueue.pushes (allCalls parse env market state (a :: steps))) ∧
      taken market state a ++ allTaken parse env market (step parse env state a) steps =
        Machine.outputs _ _ q (allCalls parse env market state (a :: steps))
    rw [hcalls, Machine.run_append, Machine.outputs_append, pushes_append, ← List.append_assoc,
      htaken', htakens]
    exact ⟨hqs, hlogs, rfl⟩

theorem clear_not_mem_allCalls (market : String) (state : Bot × σ) (steps : List BotStep) :
    Call.clear ∉ allCalls parse env market state steps := by
  have hone : ∀ state a, Call.clear ∉ queueCalls (σ := σ) parse market state a := by
    intro state a hmem
    unfold queueCalls at hmem
    split at hmem
    all_goals first
      | exact absurd hmem List.not_mem_nil
      | (split at hmem
         · exact absurd (List.mem_singleton.mp hmem) (by simp)
         · exact absurd hmem List.not_mem_nil)
  induction steps generalizing state with
  | nil => exact List.not_mem_nil
  | cons a steps ih =>
    intro hmem
    rcases List.mem_append.mp hmem with h | h
    · exact hone state a h
    · exact ih (step parse env state a) h

/-! Room in the queue. -/

variable (parse) in
theorem queueCalls_cases (market : String) (state : Bot × σ) (a : BotStep) :
    queueCalls parse market state a = [] ∨ ∃ c, queueCalls parse market state a = [c] := by
  unfold queueCalls
  split
  · split
    · exact .inr ⟨_, rfl⟩
    · exact .inl rfl
  · split
    · exact .inr ⟨_, rfl⟩
    · exact .inl rfl
  · split
    · exact .inr ⟨_, rfl⟩
    · exact .inl rfl
  · exact .inl rfl

variable (parse env) in
theorem guarded_hasRoom (state : Bot × σ) (steps : List BotStep) {market : String}
    {q : BlockingQueue RawInput} {log : List RawInput} (hq : state.1.queue market = some q)
    (hlog : state.1.routed market = some log) :
    Machine.Guarded (step parse env) (HasRoom parse market) state steps ↔
      Machine.Guarded BlockingQueue.call BlockingQueue.HasRoom q
        (allCalls parse env market state steps) := by
  induction steps generalizing state q log with
  | nil => exact Iff.rfl
  | cons a steps ih =>
    obtain ⟨hq', hlog', -⟩ := queue_step parse env state a hq hlog
    have hrest := ih (step parse env state a) hq' hlog'
    have hone : HasRoom parse market state a ↔
        Machine.Guarded BlockingQueue.call BlockingQueue.HasRoom q
          (queueCalls parse market state a) := by
      unfold HasRoom
      rw [hq]
      rcases queueCalls_cases parse market state a with hnone | ⟨c, hc⟩
      · rw [hnone]
        exact iff_of_true (fun _ _ c hmem => absurd hmem List.not_mem_nil) trivial
      · rw [hc]
        refine ⟨fun h => ⟨h q rfl c (List.mem_singleton_self c), trivial⟩, fun h q' hq' c' hc' => ?_⟩
        rw [← Option.some.inj hq', List.mem_singleton.mp hc']
        exact h.1
    show HasRoom parse market state a ∧ _ ↔ Machine.Guarded _ _ q (queueCalls parse market state a ++
      allCalls parse env market (step parse env state a) steps)
    rw [Machine.guarded_append, hone, hrest]

/-- **What the workers get.** Start the bot with any exchange that lets the constructor finish, and
    run the routing of messages, reconnects and the turns of all workers in any order. For
    every market of the list: what its worker has taken, and then what its queue holds, is in
    the order in which the router pushed it; the queue keeps its bound; the newest messages
    are never lost, as many as the bound allows, order messages like candles; and nothing is
    lost exactly when every message of the market found room. -/
theorem taken_in_order {τ : Type} (parse : Bytes → Option Data) (env : ManagerEnv σ)
    (cfg : AccountConfig) (api : IOrderApi τ) (store : OrderStore) (mgr : AccountManager)
    (markets : List String) (mcfg : MarketManagerConfig) (db : Option Database) (t : τ)
    {manager : MarketEngineManager}
    (hcreate : (MarketEngineManager.create cfg api store mgr markets mcfg db t).1 = .ok manager)
    (s : σ) (steps : List BotStep) {market : String} (hmarket : market ∈ markets) :
    let start := (assemble manager, s)
    let final := (Machine.run (step parse env) start steps).1
    let taken := allTaken parse env market start steps
    ∃ log q, final.routed market = some log ∧ final.queue market = some q ∧
      (taken ++ q.items).Sublist log ∧
      (0 < mcfg.queueCapacity → q.size ≤ mcfg.queueCapacity) ∧
      log.rtake mcfg.queueCapacity <:+ taken ++ q.items ∧
      (taken ++ q.items = log ↔
        Machine.Guarded (step parse env) (HasRoom parse market) start steps) := by
  intro start final taken
  have hstarted := MarketEngineManager.started_create hcreate
  have hsome := (hstarted.markets market).mpr hmarket
  have hlog : start.1.routed market = some [] := by
    show (assemble manager).router.routes.lookup _ = _
    rw [MarketEngineManager.lookup_assemble, if_pos hsome]
  have hq : start.1.queue market = some (.create mcfg.queueCapacity) := by
    obtain ⟨w, hw⟩ := Option.isSome_iff_exists.mp hsome
    obtain ⟨first, hnew⟩ := hstarted.contexts
    obtain ⟨pos, -, rfl⟩ := hnew market w hw
    show (manager.contexts.lookup market).map (·.eventQueue) = _
    rw [hw]
    rfl
  obtain ⟨hqueue, hrouted, htaken⟩ := queue_run parse env start steps hq hlog
  have hroom := guarded_hasRoom parse env start steps hq hlog
  have hclear : Call.clear ∉ allCalls parse env market start steps :=
    clear_not_mem_allCalls market start steps
  set calls := allCalls parse env market start steps
  refine ⟨_, _, hrouted, hqueue, ?_⟩
  rw [hroom, List.nil_append]
  change taken = _ at htaken
  rw [htaken]
  exact BlockingQueue.kept mcfg.queueCapacity hclear

/-- Three messages for a queue of two: the worker takes one of the newer two. -/
theorem taken_in_order_book :
    ∃ manager, (MarketEngineManager.create (AppConfig.standard ℚ).account bookApi .empty
        { budgets := ∅ } ["KRW-BTC"] bookConfig none []).1 = .ok manager ∧
      let env : ManagerEnv (List Order) :=
        { strategy := { cfg := .standard ℚ, sqrt := fun x => x, uuid := fun _ => "" }
          api := bookApi.toOrderApi
          pendingTimeout := 120 }
      let steps : List BotStep :=
        [.marketData EventRouter.ticker.render, .myOrder EventRouter.ticker.render,
          .myOrder EventRouter.ticker.render, .turn "KRW-BTC" .handleNext]
      let start := (assemble manager, [])
      let taken := allTaken (fun _ => none) env "KRW-BTC" start steps
      ∃ log q, (Machine.run (step (fun _ => none) env) start steps).1.routed "KRW-BTC" = some log ∧
        (Machine.run (step (fun _ => none) env) start steps).1.queue "KRW-BTC" = some q ∧
        (taken ++ q.items).Sublist log ∧ log.rtake 2 <:+ taken ++ q.items := by
  refine ⟨_, rfl, ?_⟩
  intro env steps start taken
  obtain ⟨log, q, hlog, hq, hsub, -, hnewest, -⟩ :=
    taken_in_order (fun _ => none) env (AppConfig.standard ℚ).account bookApi .empty
      { budgets := ∅ } ["KRW-BTC"] bookConfig none [] rfl [] steps (List.mem_singleton_self _)
  exact ⟨log, q, hlog, hq, hsub, hnewest⟩

end Bot
end CoinBot
