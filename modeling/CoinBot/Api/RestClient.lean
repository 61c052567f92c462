import Mathlib.Data.List.Basic

/- `api/rest`: the HTTP types, the error classes and `RestClient::perform`.

   `performOnce`, one call over the network, is a parameter: a function of the
   request and of a state `σ` that holds whatever the network and the server
   remember. The pauses between attempts are left out.

   Correspondence (C++ ↔ Lean):
     `while (true) { ++attempt; ... continue; }` ↔ `RestClient.performLoop`, counting
                                                   down the attempts still allowed
     `std::variant<HttpResponse, RestError>`     ↔ `Except RestError HttpResponse` -/
namespace CoinBot

inductive RestErrorCode where
  | resolveFailed
  | connectFailed
  | handshakeFailed
  | writeFailed
  | readFailed
  | timeout
  | badStatus
  | invalidArgument
  | parseError
  | unknown
  deriving DecidableEq, Repr

structure RestError where
  code : RestErrorCode := .unknown
  message : String := ""
  httpStatus : Int := 0
  deriving DecidableEq, Repr

inductive HttpMethod where
  | get
  | post
  | put
  | delete
  deriving DecidableEq, Repr

/-- A request. The body is the list of its JSON fields. -/
structure HttpRequest where
  method : HttpMethod := .get
  host : String
  port : String := "443"
  target : String
  headers : List (String × String) := []
  body : List (String × String) := []
  deriving DecidableEq, Repr

structure HttpResponse where
  status : Int := 0
  body : String := ""
  deriving DecidableEq, Repr

structure RetryPolicy where
  maxAttempts : Nat := 2
  retryOn429 : Bool := true
  retryOn5xx : Bool := true
  retryOnTimeout : Bool := true
  retryOnConnectFail : Bool := true
  retryOnReadWriteFail : Bool := true

namespace RestClient

def shouldRetryStatus (status : Int) (p : RetryPolicy) : Bool :=
  if status = 429 then p.retryOn429
  else if 500 ≤ status ∧ status ≤ 599 then p.retryOn5xx
  else false

def shouldRetryError (e : RestError) (p : RetryPolicy) : Bool :=
  match e.code with
  | .timeout => p.retryOnTimeout
  | .connectFailed | .resolveFailed | .handshakeFailed => p.retryOnConnectFail
  | .readFailed | .writeFailed => p.retryOnReadWriteFail
  | _ => false

/-- Whether `perform` tries again after this result, attempts permitting. -/
def shouldRetry (r : Except RestError HttpResponse) (p : RetryPolicy) : Bool :=
  match r with
  | .ok resp => shouldRetryStatus resp.status p
  | .error err => shouldRetryError err p

variable {σ : Type}

/-- The loop of `perform`, with the number of attempts still allowed after this one. -/
def performLoop (performOnce : HttpRequest → σ → Except RestError HttpResponse × σ)
    (req : HttpRequest) (retry : RetryPolicy) : Nat → σ → Except RestError HttpResponse × σ
  | 0, s => performOnce req s
  | more + 1, s =>
    let (r, s') := performOnce req s
    if shouldRetry r retry then performLoop performOnce req retry more s' else (r, s')

def perform (performOnce : HttpRequest → σ → Except RestError HttpResponse × σ)
    (req : HttpRequest) (retry : RetryPolicy) (s : σ) : Except RestError HttpResponse × σ :=
  if req.host = "" ∨ req.target = "" then
    (.error { code := .invalidArgument, message := "host/target is empty" }, s)
  else performLoop performOnce req retry (retry.maxAttempts - 1) s

section
variable {performOnce : HttpRequest → σ → Except RestError HttpResponse × σ} {req : HttpRequest}
  {retry : RetryPolicy} {more : Nat} {s s' : σ} {r : Except RestError HttpResponse}

theorem performLoop_retry (h : performOnce req s = (r, s')) (hr : shouldRetry r retry = true) :
    performLoop performOnce req retry (more + 1) s = performLoop performOnce req retry more s' := by
  simp only [performLoop, h, hr, if_true]

theorem performLoop_stop (h : performOnce req s = (r, s')) (hr : ¬ shouldRetry r retry = true) :
    performLoop performOnce req retry (more + 1) s = (r, s') := by
  simp only [performLoop, h, if_neg hr]

end

end RestClient
end CoinBot
