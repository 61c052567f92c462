import CoinBot.Lib.Json
import CoinBot.Lib.KeyMap

/- `app/EventRouter`: which market's queue a message of the WebSocket goes to.

   Texts and markets are bytes. The fast path looks for a quoted key in the text and
   reads the string behind it; the slow path parses the text with the JSON library,
   which is a parameter here: `parse` gives nothing where the library's value is
   discarded. A queue is named by its market.

   Correspondence (C++ ↔ Lean):
     `json.find(key)` and what stands behind  ↔ `Json.behind`
     `std::isspace` (C locale)                ↔ `isspace`
     `parsed.find(key)`, `get<std::string>()` ↔ `Json.Data.find`, `stringAt`
     the body of `routeMarketData`, `routeMyOrder` ↔ `route` -/
namespace CoinBot

open Json (Bytes Data)

namespace EventRouter

/-- `"code"` and `"market"`, without their quotation marks. -/
def code : Bytes := [99, 111, 100, 101]
def market : Bytes := [109, 97, 114, 107, 101, 116]

def isspace (b : UInt8) : Bool :=
  b == 32 || b == 9 || b == 10 || b == 11 || b == 12 || b == 13

def skipSpaces (text : Bytes) : Bytes := text.dropWhile isspace

/-- The loop that scans to the closing quotation mark; a backslash or the end of the text stops it
    without a value. -/
def scanValue : Bytes → Option Bytes
  | [] => none
  | b :: bs =>
    if b = Json.backslash then none
    else if b = Json.quote then some []
    else (scanValue bs).map (b :: ·)

/-- `extractStringValue_` behind the key. -/
def valueBehind (rest : Bytes) : Option Bytes :=
  match skipSpaces rest with
  | [] => none
  | b :: bs =>
    if b ≠ Json.colon then none
    else match skipSpaces bs with
      | [] => none
      | b' :: bs' =>
        if b' ≠ Json.quote then none
        else match scanValue bs' with
          | none => none
          | some value => if value.length = 0 ∨ 20 < value.length then none else some value

def extractStringValue_ (json key : Bytes) : Option Bytes :=
  match Json.behind (Json.quoted key) json with
  | none => none
  | some rest => valueBehind rest

structure FastResult where
  market : Option Bytes
  hadConflict : Bool := false
  deriving DecidableEq, Repr

def extractMarketFast_ (json : Bytes) : FastResult :=
  match extractStringValue_ json code, extractStringValue_ json market with
  | some code_val, some market_val =>
    if code_val = market_val then { market := some code_val }
    else { market := none, hadConflict := true }
  | some code_val, none => { market := some code_val }
  | none, some market_val => { market := some market_val }
  | none, none => { market := none }

/-- The string of a field, empty when there is none. -/
def stringAt (name : Bytes) (parsed : Data) : Bytes :=
  match parsed.find name with
  | some (.string s) => s
  | _ => []

def extractMarketSlow_ (parse : Bytes → Option Data) (json : Bytes) : Option Bytes :=
  match parse json with
  | none => none
  | some parsed =>
    let code_val := stringAt code parsed
    let market_val := stringAt market parsed
    if code_val ≠ [] ∧ market_val ≠ [] then
      if code_val = market_val then some code_val else none
    else if code_val ≠ [] then some code_val
    else if market_val ≠ [] then some market_val
    else none

end EventRouter

@[ext]
structure EventRouter.Stats where
  fastPathSuccess : Nat := 0
  fallbackUsed : Nat := 0
  parseFailures : Nat := 0
  conflictDetected : Nat := 0
  unknownMarket : Nat := 0
  totalRouted : Nat := 0
  deriving DecidableEq, Repr

/-- What the router pushes: the raw text of a message. -/
inductive EventRouter.RawInput where
  | myOrderRaw (json : Bytes)
  | marketDataRaw (json : Bytes)
  deriving DecidableEq, Repr

/-- The router and what was pushed to its queues. -/
structure EventRouter where
  routes : KeyMap Bytes (List EventRouter.RawInput)
  accepting : Bool := true
  stats : EventRouter.Stats := {}

namespace EventRouter

def registerMarket (r : EventRouter) (m : Bytes) : EventRouter :=
  { r with routes := r.routes.insert m [] }

/-- Step 2 on: the message is pushed to the queue of the market, where there is one. -/
def deliver (r : EventRouter) (input : RawInput) (marketKey : Bytes) (stats : Stats) :
    Bool × EventRouter :=
  match r.routes.lookup marketKey with
  | none => (false, { r with stats := { r.stats with unknownMarket := r.stats.unknownMarket + 1 } })
  | some queue =>
    (true,
     { r with
       routes := r.routes.insert marketKey (queue ++ [input])
       stats := { stats with totalRouted := stats.totalRouted + 1 } })

def route (parse : Bytes → Option Data) (r : EventRouter) (json : Bytes) (input : RawInput) :
    Bool × EventRouter :=
  if !r.accepting then (false, r)
  else
    let fast := extractMarketFast_ json
    if fast.hadConflict then
      (false, { r with stats := { r.stats with conflictDetected := r.stats.conflictDetected + 1 } })
    else match fast.market with
      | some key =>
        r.deliver input key { r.stats with fastPathSuccess := r.stats.fastPathSuccess + 1 }
      | none =>
        match extractMarketSlow_ parse json with
        | some key => r.deliver input key { r.stats with fallbackUsed := r.stats.fallbackUsed + 1 }
        | none =>
          (false, { r with stats := { r.stats with parseFailures := r.stats.parseFailures + 1 } })

def routeMarketData (parse : Bytes → Option Data) (r : EventRouter) (json : Bytes) :
    Bool × EventRouter := r.route parse json (.marketDataRaw json)

def routeMyOrder (parse : Bytes → Option Data) (r : EventRouter) (json : Bytes) :
    Bool × EventRouter := r.route parse json (.myOrderRaw json)

end EventRouter
end CoinBot
