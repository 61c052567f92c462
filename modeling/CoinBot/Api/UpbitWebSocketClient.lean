import CoinBot.Lib.JsonAccess
import CoinBot.Lib.KeyMap

/- `api/ws/UpbitWebSocketClient`: the loop that connects, subscribes and reads.

   `iteration` is one pass of the loop. What the environment decides about it is in a
   `Turn`: the commands that are waiting, the time, and the outcomes of the operations on
   the network, which are numbered. A stream remembers the texts that it was asked to
   write, whether or not the writing failed; a write may close it.

   Left out are the stop token, which nobody sets here, the sleeping between attempts and
   the logging; `events` are the calls of the callbacks and the outcomes of the attempts.

   Correspondence (C++ ↔ Lean):
     `ws_`, null or a stream                     ↔ `Client.ws`
     resolve, TCP, SNI, TLS and WS handshake     ↔ one outcome, `Turn.connects`
     `connectImpl` with the fields of a command  ↔ `connectImpl` of an `Endpoint`
     `reconnect_failures_`, 32 bits              ↔ a `Nat`; limited attempts do not overflow it
     `root.dump()`                               ↔ `Settings.dump` of a `SubFrame`
     `break` on `operation_aborted`              ↔ `Client.aborted` -/
namespace CoinBot.UpbitWebSocketClient

open Json (Bytes Data)

/-! Commands and frames. -/

structure Endpoint where
  host : String := ""
  port : String := ""
  target : String := ""
  /-- None for the public channel. -/
  bearerJwt : Option String := none
  deriving DecidableEq, Repr

/-- A subscription comes with the ticket that is drawn when it is handled. -/
inductive Command where
  | connect (endpoint : Endpoint)
  | subCandles (ticket type : String) (markets : List String)
      (isOnlySnapshot isOnlyRealtime : Bool) (format : String)
  | subMyOrder (ticket : String) (markets : List String) (isOnlyRealtime : Bool) (format : String)
  deriving DecidableEq, Repr

/-- The three objects of a subscription; for orders `is_only_snapshot` is missing. -/
structure SubFrame where
  ticket : String
  type : String
  codes : List String
  isOnlySnapshot : Option Bool := none
  isOnlyRealtime : Bool
  format : String
  deriving DecidableEq, Repr

def buildCandleSubJsonFrame (ticket type : String) (markets : List String)
    (isOnlySnapshot isOnlyRealtime : Bool) (format : String) : SubFrame where
  ticket := ticket
  type := type
  codes := markets
  isOnlySnapshot := some isOnlySnapshot
  isOnlyRealtime := isOnlyRealtime
  format := format

def buildMyOrderSubJsonFrame (ticket : String) (markets : List String) (isOnlyRealtime : Bool)
    (format : String) : SubFrame where
  ticket := ticket
  type := "myOrder"
  codes := markets
  isOnlyRealtime := isOnlyRealtime
  format := format

/-! The environment. -/

inductive HeartbeatMode where
  | none
  | upbitTextPing
  deriving DecidableEq, Repr

structure Settings where
  dump : SubFrame → String
  /-- The JSON library, none where it throws. -/
  parse : Bytes → Option Data
  maxReconnectAttempts : Int
  pingInterval : Int
  heartbeatMode : HeartbeatMode
  heartbeatInterval : Int

/-- Of a text frame or a ping. -/
structure WriteOutcome where
  failed : Bool
  openAfter : Bool
  deriving DecidableEq, Repr

inductive ReadResult where
  | message (msg : Bytes)
  | timedOut
  | aborted
  | error
  deriving DecidableEq, Repr

structure ReadOutcome where
  result : ReadResult
  openAfter : Bool
  deriving DecidableEq, Repr

/-- What the environment decides about one pass of the loop. -/
structure Turn where
  pushed : List Command
  now : Int
  connects : Nat → Bool
  writes : Nat → WriteOutcome
  reads : Nat → ReadOutcome

/-! The client. -/

structure WsStream where
  isOpen : Bool
  /-- The texts that were given to `write`. -/
  attempted : List String := []
  deriving DecidableEq, Repr

inductive Event where
  | reconnectSucceeded
  | reconnectFailed
  /-- `fatal_cb_`. -/
  | fatal
  /-- `on_reconnect_`. -/
  | reconnected
  /-- `on_msg_`. -/
  | received (msg : Bytes)
  deriving DecidableEq, Repr

structure Client where
  ws : Option WsStream := none
  endpoint : Endpoint := {}
  lastSubFrames : KeyMap String String := ∅
  reconnectFailures : Nat := 0
  nextPing : Int
  nextTextHb : Int
  giveUp : Bool := false
  aborted : Bool := false
  events : List Event := []
  /-- The number of the next operation on the network. -/
  ops : Nat := 0

namespace Client

/-- `ws_ && ws_->is_open()`. -/
def isOpen (c : Client) : Bool := c.ws.any WsStream.isOpen

/-- The texts that the current stream was asked to write. -/
def attempted (c : Client) : List String := c.ws.elim [] WsStream.attempted

def emit (c : Client) (e : Event) : Client := { c with events := c.events ++ [e] }

/-- A write on the open stream, with its outcome. -/
def write (c : Client) (outcome : WriteOutcome) (texts : List String) : Client :=
  { c with
    ws := some { isOpen := outcome.openAfter, attempted := c.attempted ++ texts }
    ops := c.ops + 1 }

/-! Sending and connecting. -/

/-- Whether the text was sent, and the client after it. -/
def sendTextFrame (turn : Turn) (c : Client) (text : String) : Bool × Client :=
  if c.isOpen then (!(turn.writes c.ops).failed, c.write (turn.writes c.ops) [text])
  else (false, c)

/-- A new stream, open if the connection is made. -/
def connectImpl (turn : Turn) (c : Client) (endpoint : Endpoint) : Client :=
  { c with
    endpoint := endpoint
    ws := some { isOpen := turn.connects c.ops }
    ops := c.ops + 1 }

def resubscribeAll (turn : Turn) (c : Client) : Client :=
  c.lastSubFrames.entries.foldl (fun c entry => (c.sendTextFrame turn entry.2).2) c

def reconnectOnce_ (turn : Turn) (c : Client) : Bool × Client :=
  let c := { c with reconnectFailures := c.reconnectFailures + 1, ws := none }
  let c := c.connectImpl turn c.endpoint
  if c.isOpen then (true, { c with reconnectFailures := 0 }.emit .reconnectSucceeded)
  else (false, c.emit .reconnectFailed)

def doReconnect (settings : Settings) (turn : Turn) (c : Client) : Client :=
  let (ok, c) := c.reconnectOnce_ turn
  if ok then (c.resubscribeAll turn).emit .reconnected
  else if 0 < settings.maxReconnectAttempts ∧
      settings.maxReconnectAttempts ≤ (c.reconnectFailures : Int) then
    { c with giveUp := true }.emit .fatal
  else c

/-! The loop. -/

def subscribe (settings : Settings) (turn : Turn) (c : Client) (frame : SubFrame) : Client :=
  let text := settings.dump frame
  ({ c with lastSubFrames := c.lastSubFrames.insert frame.type text }.sendTextFrame turn text).2

def handleCommand (settings : Settings) (turn : Turn) (c : Client) : Command → Client
  | .connect endpoint =>
    let c := c.connectImpl turn endpoint
    if c.isOpen then c.resubscribeAll turn else c
  | .subCandles ticket type markets isOnlySnapshot isOnlyRealtime format =>
    c.subscribe settings turn
      (buildCandleSubJsonFrame ticket type markets isOnlySnapshot isOnlyRealtime format)
  | .subMyOrder ticket markets isOnlyRealtime format =>
    c.subscribe settings turn (buildMyOrderSubJsonFrame ticket markets isOnlyRealtime format)

def handleCommands (settings : Settings) (turn : Turn) (c : Client) : Client :=
  turn.pushed.foldl (handleCommand settings turn) c

/-- The control ping. -/
def ping (settings : Settings) (turn : Turn) (c : Client) : Client :=
  if c.nextPing ≤ turn.now then
    let pinged := { c with nextPing := turn.now + settings.pingInterval }.write
      (turn.writes c.ops) []
    if (turn.writes c.ops).failed then pinged.doReconnect settings turn else pinged
  else c

/-- The ping of the application, a text. -/
def textHeartbeat (settings : Settings) (turn : Turn) (c : Client) : Client :=
  if settings.heartbeatMode = .upbitTextPing ∧ c.nextTextHb ≤ turn.now then
    let (sent, c) := { c with nextTextHb := turn.now + settings.heartbeatInterval }.sendTextFrame
      turn "PING"
    if sent then c else c.doReconnect settings turn
  else c

/-- The stream is looked at once: a reconnection of the ping may have failed when the text is
    due. -/
def keepalive (settings : Settings) (turn : Turn) (c : Client) : Client :=
  if c.isOpen then (c.ping settings turn).textHeartbeat settings turn else c

/-- The answer to the ping of the application. -/
def isHeartbeatAck (settings : Settings) (msg : Bytes) : Bool :=
  (Json.behind (Json.quoted (Json.utf8 "status")) msg).isSome &&
  match settings.parse msg with
  | none => false
  | some j =>
    match j.valueString "status" "" with
    | .error _ => false
    | .ok status => j.isObject && status == "UP"

/-- `ws_->read` and what follows from its outcome. -/
def readMessage (settings : Settings) (turn : Turn) (c : Client) : Client :=
  let outcome := turn.reads c.ops
  let c := { c with
    ws := c.ws.map fun s => { s with isOpen := outcome.openAfter }
    ops := c.ops + 1 }
  match outcome.result with
  | .aborted => { c with aborted := true }
  | .timedOut => c
  | .error => c.doReconnect settings turn
  | .message msg => if isHeartbeatAck settings msg then c else c.emit (.received msg)

/-- The loop has come to its end. -/
def ended (c : Client) : Bool := c.giveUp || c.aborted

/-- The client in front of the read, after the commands and the pings. -/
def beforeRead (settings : Settings) (turn : Turn) (c : Client) : Client :=
  (c.handleCommands settings turn).keepalive settings turn

/-- The client where an iteration calls `ws_->read`, if it comes to it. -/
def atRead (settings : Settings) (turn : Turn) (c : Client) : Option Client :=
  let c' := c.beforeRead settings turn
  if c.ended || c'.giveUp || !c'.isOpen then none else some c'

/-- The body of the loop. -/
def pass (settings : Settings) (turn : Turn) (c : Client) : Client :=
  let c := c.beforeRead settings turn
  if c.giveUp then c
  else if c.isOpen then c.readMessage settings turn
  else if c.endpoint.host ≠ "" then c.doReconnect settings turn
  else c

/-- Behind the loop an open stream is closed. -/
def close (c : Client) : Client := { c with ws := c.ws.map fun s => { s with isOpen := false } }

def iteration (settings : Settings) (c : Client) (turn : Turn) : Client :=
  if c.ended then c
  else if (c.pass settings turn).ended then (c.pass settings turn).close
  else c.pass settings turn

/-- The client as the loop starts. -/
def start (settings : Settings) (loopStart : Int) : Client where
  nextPing := loopStart + settings.pingInterval
  nextTextHb := loopStart + settings.heartbeatInterval

end Client
end CoinBot.UpbitWebSocketClient
