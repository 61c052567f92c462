import CoinBot.Api.UpbitExchangeRestClient
import CoinBot.Engine.MarketEngine

/- A submission, from the engine over the retry loop to the exchange and back.

   The exchange creates an order when a request with an identifier it has not seen
   reaches it, and answers 201; an identifier it has seen is refused with a 4xx. What
   the network does is a script, one entry for each call of `performOnce`.

   `failed_submit_clean_iff` says when a failed `submit` is sure to leave no order
   behind. The retry loop runs the same request again after a timeout or a failed read,
   so the call whose answer was lost is followed by a refusal of its own identifier. -/
namespace CoinBot

open UpbitExchangeRestClient (Codec isSuccessStatus uuidOfBody readOrderUuid orderHttpRequest)

/-- What becomes of one call of `performOnce`. -/
inductive Attempt where
  /-- The request does not reach the exchange. -/
  | unreached (err : RestError)
  /-- Turned back on the way, with a status that is not a success. -/
  | turnedBack (status : Int) (body : String) (h : isSuccessStatus status = false)
  /-- The exchange's answer comes back: 201 with `body`, or the refusal. -/
  | answered (body : String) (refusal : Int) (h : 400 ≤ refusal ∧ refusal ≤ 499)
  /-- The exchange takes the request and the call ends in an error all the same. -/
  | answerLost (code : RestErrorCode) (message : String) (h : code = .timeout ∨ code = .readFailed)

/-- The exchange's orders by their identifiers, and the calls still to come. -/
structure Exchange where
  orders : List (Option String) := []
  script : Nat → Attempt
  next : Nat := 0

namespace Exchange

/-- The exchange holds an order with this identifier. The empty one identifies none. -/
def Holds (x : Exchange) (identifier : String) : Prop :=
  identifier ≠ "" ∧ some identifier ∈ x.orders

instance (x : Exchange) (identifier : String) : Decidable (x.Holds identifier) :=
  inferInstanceAs (Decidable (_ ∧ _))

/-- A request reaches the exchange: whether it creates an order, and the exchange after it. -/
def accept (x : Exchange) (req : HttpRequest) : Bool × Exchange :=
  if req.method = .post ∧ req.target = "/v1/orders" then
    match req.body.lookup "identifier" with
    | none => (true, { x with orders := x.orders ++ [none] })
    | some identifier =>
      if some identifier ∈ x.orders then (false, x)
      else (true, { x with orders := x.orders ++ [some identifier] })
  else (false, x)

def performOnce (req : HttpRequest) (x : Exchange) : Except RestError HttpResponse × Exchange :=
  let later := { x with next := x.next + 1 }
  match x.script x.next with
  | .unreached err => (.error err, later)
  | .turnedBack status body _ => (.ok { status := status, body := body }, later)
  | .answered body refusal _ =>
    let (created, taken) := later.accept req
    (.ok (if created then { status := 201, body := body } else { status := refusal }), taken)
  | .answerLost code message _ => (.error { code := code, message := message }, (later.accept req).2)

end Exchange

/-! The condition, in terms of the script. -/

namespace Attempt

/-- Nothing reached the exchange, and the policy tries again. -/
def Retried (retry : RetryPolicy) : Attempt → Prop
  | .unreached err => RestClient.shouldRetryError err retry = true
  | .turnedBack status _ _ => RestClient.shouldRetryStatus status retry = true
  | .answered .. | .answerLost .. => False

/-- The request reached the exchange, and no uuid of the created order came back. -/
def Unheard {J : Type} (codec : Codec J) : Attempt → Prop
  | .unreached _ | .turnedBack .. => False
  | .answered body _ _ => ∀ uuid, uuidOfBody codec { status := 201, body := body } ≠ .ok uuid
  | .answerLost .. => True

end Attempt

/-- Of the calls that `more + 1` attempts make, the first to reach the exchange is unheard. -/
def Exchange.LosesOrder {J : Type} (codec : Codec J) (retry : RetryPolicy) (x : Exchange)
    (more : Nat) : Prop :=
  ∃ k ≤ more, (∀ j < k, (x.script (x.next + j)).Retried retry) ∧
    (x.script (x.next + k)).Unheard codec

/-- The engine sends the request on: it is valid, no order is active, and a buy is covered. -/
structure MarketEngine.Takes (cfg : AppConfig ℚ) (e : MarketEngine) (req : OrderRequest ℚ) :
    Prop where
  valid : MarketEngine.validateRequest req = none
  market : req.market = e.market
  noBuy : e.activeBuyToken = none
  noSell : e.activeSellOrderUuid = ""
  covered : req.position = .bid → ∃ b, e.accountMgr.getBudget e.market = some b ∧
    0 < MarketEngine.computeReserveAmount cfg req ∧
    MarketEngine.computeReserveAmount cfg req ≤ b.availableKrw

/-! What the retry loop does to the exchange. -/

namespace Exchange

variable {J : Type} {codec : Codec J} {retry : RetryPolicy} {http : HttpRequest}

/-- No uuid of an order comes out of this result. -/
def Fails (codec : Codec J) (r : Except RestError HttpResponse) : Prop :=
  ∀ uuid, readOrderUuid codec r ≠ .ok uuid

theorem fails_error (err : RestError) : Fails codec (.error err) := by
  intro uuid h
  cases h

theorem fails_of_status {resp : HttpResponse} (h : isSuccessStatus resp.status = false) :
    Fails codec (.ok resp) := by
  intro uuid hok
  rw [readOrderUuid, if_neg (by simp [h])] at hok
  cases hok

theorem fails_refusal {refusal : Int} (h : 400 ≤ refusal ∧ refusal ≤ 499) :
    Fails codec (.ok { status := refusal }) := by
  apply fails_of_status
  simp only [isSuccessStatus, Bool.and_eq_false_iff, decide_eq_false_iff_not]
  omega

theorem mem_performOnce (x : Exchange) {o : Option String} (h : o ∈ x.orders) :
    o ∈ (performOnce http x).2.orders := by
  have haccept : ∀ y : Exchange, o ∈ y.orders → o ∈ (y.accept http).2.orders := by
    intro y hy
    unfold accept
    split
    · split
      · exact List.mem_append_left _ hy
      · split
        · exact hy
        · exact List.mem_append_left _ hy
    · exact hy
  unfold performOnce
  cases x.script x.next with
  | unreached err => exact h
  | turnedBack status body hst => exact h
  | answered body refusal href => exact haccept _ h
  | answerLost code message hcode => exact haccept _ h

variable {identifier : String}

/-- The request creates an order with this identifier. -/
structure Carries (http : HttpRequest) (identifier : String) : Prop where
  post : http.method = .post
  target : http.target = "/v1/orders"
  named : http.body.lookup "identifier" = some identifier

theorem Carries.accept_used (hc : Carries http identifier) {x : Exchange}
    (h : some identifier ∈ x.orders) : x.accept http = (false, x) := by
  simp only [Exchange.accept, hc.post, hc.target, hc.named, and_self, if_true, if_pos h]

theorem Carries.accept_new (hc : Carries http identifier) {x : Exchange}
    (h : some identifier ∉ x.orders) :
    x.accept http = (true, { x with orders := x.orders ++ [some identifier] }) := by
  simp only [Exchange.accept, hc.post, hc.target, hc.named, and_self, if_true, if_neg h]

/-- Once the identifier is used up, no attempt succeeds. -/
theorem Carries.performOnce_used (hc : Carries http identifier) {x : Exchange}
    (h : some identifier ∈ x.orders) : Fails codec (performOnce http x).1 := by
  unfold performOnce
  cases x.script x.next with
  | unreached err => exact fails_error err
  | turnedBack status body hst => exact fails_of_status hst
  | answered body refusal href =>
    simp only [hc.accept_used (x := { x with next := x.next + 1 }) h]
    exact fails_refusal href
  | answerLost code message hcode => exact fails_error _

theorem Carries.performLoop_used (hc : Carries http identifier) (codec : Codec J)
    (retry : RetryPolicy) (more : Nat) {x : Exchange}
    (h : some identifier ∈ x.orders) :
    Fails codec (RestClient.performLoop performOnce http retry more x).1 ∧
    some identifier ∈ (RestClient.performLoop performOnce http retry more x).2.orders := by
  induction more generalizing x with
  | zero => exact ⟨hc.performOnce_used h, mem_performOnce x h⟩
  | succ more ih =>
    rw [RestClient.performLoop]
    simp only
    split
    · exact ih (mem_performOnce x h)
    · exact ⟨hc.performOnce_used h, mem_performOnce x h⟩

theorem losesOrder_zero (x : Exchange) :
    x.LosesOrder codec retry 0 ↔ (x.script x.next).Unheard codec := by
  constructor
  · rintro ⟨k, hk, -, hlast⟩
    obtain rfl : k = 0 := by omega
    exact hlast
  · intro h
    exact ⟨0, le_rfl, fun j hj => absurd hj (Nat.not_lt_zero j), h⟩

/-- The first attempt decides, or is tried again. -/
theorem losesOrder_succ (x : Exchange) (more : Nat) :
    x.LosesOrder codec retry (more + 1) ↔
      (x.script x.next).Unheard codec ∨
      (x.script x.next).Retried retry ∧ { x with next := x.next + 1 }.LosesOrder codec retry more := by
  constructor
  · rintro ⟨k, hk, hbefore, hlast⟩
    cases k with
    | zero => exact .inl hlast
    | succ k =>
      refine .inr ⟨hbefore 0 (by omega), k, by omega, ?_, ?_⟩
      · intro j hj
        have hj' := hbefore (j + 1) (by omega)
        rwa [← Nat.add_assoc, Nat.add_right_comm] at hj'
      · rwa [← Nat.add_assoc, Nat.add_right_comm] at hlast
  · rintro (hfirst | ⟨hretried, k, hk, hbefore, hlast⟩)
    · exact ⟨0, by omega, fun j hj => absurd hj (Nat.not_lt_zero j), hfirst⟩
    · refine ⟨k + 1, by omega, ?_, ?_⟩
      · intro j hj
        cases j with
        | zero => exact hretried
        | succ j =>
          rw [← Nat.add_assoc, Nat.add_right_comm]
          exact hbefore j (by omega)
      · rwa [← Nat.add_assoc, Nat.add_right_comm]

theorem performOnce_outside {x : Exchange} {r : Except RestError HttpResponse}
    (h : (∃ err, x.script x.next = .unreached err ∧ r = .error err) ∨
      ∃ status body hst, x.script x.next = .turnedBack status body hst ∧
        r = .ok { status := status, body := body }) :
    performOnce http x = (r, { x with next := x.next + 1 }) := by
  obtain ⟨err, hs, rfl⟩ | ⟨status, body, hst, hs, rfl⟩ := h
  · simp only [performOnce, hs]
  · simp only [performOnce, hs]

/-- The exchange with one more order, after a call. -/
def created (x : Exchange) (identifier : String) : Exchange :=
  { x with next := x.next + 1, orders := x.orders ++ [some identifier] }

theorem mem_created (x : Exchange) (identifier : String) :
    some identifier ∈ (x.created identifier).orders :=
  List.mem_append_right _ (List.mem_singleton_self _)

theorem Carries.performOnce_answered (hc : Carries http identifier) {x : Exchange}
    (h : some identifier ∉ x.orders) {body : String} {refusal : Int}
    {href : 400 ≤ refusal ∧ refusal ≤ 499} (hs : x.script x.next = .answered body refusal href) :
    performOnce http x = (.ok { status := 201, body := body }, x.created identifier) := by
  have hnew := hc.accept_new (x := { x with next := x.next + 1 }) h
  simp only [performOnce, hs, hnew, if_true]
  rfl

theorem Carries.performOnce_answerLost (hc : Carries http identifier) {x : Exchange}
    (h : some identifier ∉ x.orders) {code : RestErrorCode} {message : String}
    {hcode : code = .timeout ∨ code = .readFailed}
    (hs : x.script x.next = .answerLost code message hcode) :
    performOnce http x = (.error { code := code, message := message }, x.created identifier) := by
  have hnew := hc.accept_new (x := { x with next := x.next + 1 }) h
  simp only [performOnce, hs, hnew]
  rfl

/-- From an unused identifier, the loop fails over an order that is held exactly when the
    script loses it. -/
theorem Carries.performLoop_new (hc : Carries http identifier) (codec : Codec J)
    (retry : RetryPolicy) (more : Nat) {x : Exchange}
    (h : some identifier ∉ x.orders) :
    (Fails codec (RestClient.performLoop performOnce http retry more x).1 ∧
      some identifier ∈ (RestClient.performLoop performOnce http retry more x).2.orders) ↔
    x.LosesOrder codec retry more := by
  induction more generalizing x with
  | zero =>
    rw [losesOrder_zero, RestClient.performLoop]
    cases hs : x.script x.next with
    | unreached err =>
      rw [performOnce_outside (.inl ⟨err, hs, rfl⟩)]
      exact iff_of_false (fun hl => h hl.2) not_false
    | turnedBack status body hst =>
      rw [performOnce_outside (.inr ⟨status, body, hst, hs, rfl⟩)]
      exact iff_of_false (fun hl => h hl.2) not_false
    | answered body refusal href =>
      rw [hc.performOnce_answered h hs]
      exact and_iff_left (mem_created x identifier)
    | answerLost code message hcode =>
      rw [hc.performOnce_answerLost h hs]
      exact iff_of_true ⟨fails_error _, mem_created x identifier⟩ trivial
  | succ more ih =>
    rw [losesOrder_succ]
    -- Nothing has reached the exchange: the rest of the loop is the same question.
    have houtside : ∀ r : Except RestError HttpResponse,
        performOnce http x = (r, { x with next := x.next + 1 }) →
        ¬ (x.script x.next).Unheard codec →
        ((x.script x.next).Retried retry ↔ RestClient.shouldRetry r retry = true) →
        (Fails codec (RestClient.performLoop performOnce http retry (more + 1) x).1 ∧
          some identifier ∈ (RestClient.performLoop performOnce http retry (more + 1) x).2.orders ↔
        (x.script x.next).Unheard codec ∨ (x.script x.next).Retried retry ∧
          { x with next := x.next + 1 }.LosesOrder codec retry more) := by
      intro r honce hheard hretried
      rw [or_iff_right hheard, hretried]
      by_cases hretry : RestClient.shouldRetry r retry = true
      · rw [RestClient.performLoop_retry honce hretry, and_iff_right hretry]
        exact ih h
      · rw [RestClient.performLoop_stop honce hretry]
        exact iff_of_false (fun hl => h hl.2) (fun hl => hretry hl.1)
    cases hs : x.script x.next with
    | unreached err =>
      rw [← hs]
      refine houtside (.error err) (performOnce_outside (.inl ⟨err, hs, rfl⟩)) ?_ ?_
      · rw [hs]
        exact not_false
      · rw [hs]
        rfl
    | turnedBack status body hst =>
      rw [← hs]
      refine houtside (.ok _) (performOnce_outside (.inr ⟨status, body, hst, hs, rfl⟩)) ?_ ?_
      · rw [hs]
        exact not_false
      · rw [hs]
        rfl
    | answered body refusal href =>
      have hstop : ¬ RestClient.shouldRetry (.ok { status := 201, body := body }) retry = true := by
        simp [RestClient.shouldRetry, RestClient.shouldRetryStatus]
      rw [RestClient.performLoop_stop (hc.performOnce_answered h hs) hstop]
      simp only [Attempt.Retried, false_and, or_false]
      exact and_iff_left (mem_created x identifier)
    | answerLost code message hcode =>
      refine iff_of_true ?_ (.inl trivial)
      by_cases hretry : RestClient.shouldRetry
          (.error { code := code, message := message }) retry = true
      · rw [RestClient.performLoop_retry (hc.performOnce_answerLost h hs) hretry]
        exact hc.performLoop_used codec retry more (mem_created x identifier)
      · rw [RestClient.performLoop_stop (hc.performOnce_answerLost h hs) hretry]
        exact ⟨fails_error _, mem_created x identifier⟩

end Exchange

/-! What the engine sends on. -/

namespace MarketEngine

/-- The engine asks the exchange exactly when it takes the request. -/
theorem beforePost_none (cfg : AppConfig ℚ) (e : MarketEngine) (req : OrderRequest ℚ) :
    (e.beforePost cfg req).1 = none ↔ e.Takes cfg req := by
  constructor
  · intro h
    rcases beforePost_cases cfg e req with ⟨code, message, heq⟩ | ⟨message, heq⟩ |
      ⟨hval, hmkt, hpos, hbuy, hsell, token, mgr, hres, -⟩ | ⟨hval, hmkt, hpos, hbuy, hsell, -⟩
    · rw [heq] at h
      cases h
    · rw [heq] at h
      cases h
    · refine ⟨hval, hmkt, hbuy, hsell, fun _ => ?_⟩
      rcases e.accountMgr.reserve_cases e.market (computeReserveAmount cfg req) with
        hfail | ⟨b, token', hb, hkrw, hle, -⟩
      · rw [hfail] at hres
        cases hres
      · exact ⟨b, hb, hkrw, hle⟩
    · exact ⟨hval, hmkt, hbuy, hsell, fun hbid => by rw [hpos] at hbid; cases hbid⟩
  · rintro ⟨hval, hmkt, hbuy, hsell, hcovered⟩
    unfold beforePost
    rw [hval]
    simp only
    rw [if_neg (not_not_intro hmkt)]
    cases hpos : req.position with
    | bid =>
      obtain ⟨b, hb, hkrw, hle⟩ := hcovered hpos
      simp [hbuy, hsell, AccountManager.reserve, hb, not_le.mpr hkrw, not_lt.mpr hle]
    | ask => simp [hbuy, hsell]

/-- A valid request is never held back by the exchange client. -/
theorem orderHttpRequest_of_valid {J : Type} (codec : Codec J) {req : OrderRequest ℚ}
    (h : validateRequest req = none) : ∃ http, orderHttpRequest codec req = .ok http := by
  obtain ⟨market, position, type, size, price, strategyId, identifier, clientTag⟩ := req
  have hmarket : market ≠ "" := by
    intro hm
    simp [validateRequest, hm] at h
  have hfields : ∀ req : OrderRequest ℚ, req.market ≠ "" → (∃ fields,
      UpbitExchangeRestClient.buildOrderPayloadFields req
        (UpbitExchangeRestClient.toUpbitOrdType req) = .ok fields) →
      ∃ http, orderHttpRequest codec req = .ok http := by
    rintro req hm ⟨fields, hfields⟩
    simp only [orderHttpRequest, if_neg hm, hfields]
    exact ⟨_, rfl⟩
  apply hfields _ hmarket
  -- Each shape that passes the check is one that the client builds the fields of.
  cases type with
  | limit =>
    cases price with
    | none => simp [validateRequest, hmarket] at h
    | some price =>
      cases size with
      | amount value => simp [validateRequest, hmarket] at h
      | volume value =>
        have hpos : ¬ value ≤ 0 := by
          intro hle
          simp [validateRequest, hmarket, hle] at h
        simp [UpbitExchangeRestClient.buildOrderPayloadFields,
          UpbitExchangeRestClient.toUpbitOrdType, hpos]
  | market =>
    cases size with
    | amount value =>
      have hpos : ¬ value ≤ 0 := by
        intro hle
        cases price <;> cases position <;> simp [validateRequest, hmarket, hle] at h
      simp [UpbitExchangeRestClient.buildOrderPayloadFields,
        UpbitExchangeRestClient.toUpbitOrdType, hpos]
    | volume value =>
      have hpos : ¬ value ≤ 0 := by
        intro hle
        cases price <;> cases position <;> simp [validateRequest, hmarket, hle] at h
      simp [UpbitExchangeRestClient.buildOrderPayloadFields,
        UpbitExchangeRestClient.toUpbitOrdType, hpos]

theorem carries_of_sent {J : Type} {codec : Codec J} {req : OrderRequest ℚ} {http : HttpRequest}
    (hid : req.identifier ≠ "") (h : orderHttpRequest codec req = .ok http) :
    Exchange.Carries http req.identifier := by
  obtain ⟨hmethod, -, htarget, hnamed⟩ := UpbitExchangeRestClient.orderHttpRequest_ok h
  rw [if_neg hid] at hnamed
  exact ⟨hmethod, htarget, hnamed⟩

/-- `submit` on the exchange. -/
def submitTo {J : Type} (cfg : AppConfig ℚ) (codec : Codec J) (e : MarketEngine)
    (req : OrderRequest ℚ) (x : Exchange) : (EngineResult × MarketEngine) × Exchange :=
  e.submit cfg (UpbitExchangeRestClient.postOrder codec Exchange.performOnce) req x

variable {J : Type} {cfg : AppConfig ℚ} {codec : Codec J} {e : MarketEngine}
  {req : OrderRequest ℚ} {x : Exchange}

theorem submitTo_refused (codec : Codec J) (x : Exchange) (h : ¬ e.Takes cfg req) :
    (e.submitTo cfg codec req x).1.1.success = false ∧ (e.submitTo cfg codec req x).2 = x := by
  rw [← beforePost_none] at h
  unfold submitTo submit
  rcases beforePost_cases cfg e req with ⟨code, message, heq⟩ | ⟨message, heq⟩ |
    ⟨-, -, -, -, -, token, mgr, -, heq⟩ | ⟨-, -, -, -, -, heq⟩
  · rw [heq]
    exact ⟨rfl, rfl⟩
  · rw [heq]
    exact ⟨rfl, rfl⟩
  · rw [heq] at h
    exact absurd rfl h
  · rw [heq] at h
    exact absurd rfl h

/-- A request the engine takes fails exactly when no uuid comes out of the retry loop. -/
theorem submitTo_taken (h : e.Takes cfg req) {http : HttpRequest}
    (hhttp : orderHttpRequest codec req = .ok http) :
    ((e.submitTo cfg codec req x).1.1.success = false ↔
      Exchange.Fails codec (RestClient.performLoop Exchange.performOnce http {} 1 x).1) ∧
    (e.submitTo cfg codec req x).2 = (RestClient.performLoop Exchange.performOnce http {} 1 x).2 := by
  have hnone := (beforePost_none cfg e req).mpr h
  unfold submitTo submit
  cases hbefore : e.beforePost cfg req with
  | mk r e' =>
  rw [hbefore] at hnone
  obtain rfl : r = none := hnone
  simp only [UpbitExchangeRestClient.postOrder_sent hhttp]
  refine ⟨?_, trivial⟩
  unfold Exchange.Fails
  cases readOrderUuid codec (RestClient.performLoop Exchange.performOnce http {} 1 x).1 with
  | error err => exact iff_of_true rfl (fun uuid huuid => nomatch huuid)
  | ok orderUuid => exact iff_of_false (fun hfail => nomatch hfail) (fun hfail => hfail orderUuid rfl)

/-- Where a failed `submit` is sure to leave no order of its identifier at the exchange. -/
theorem failed_submit_clean_iff (cfg : AppConfig ℚ) (codec : Codec J) (e : MarketEngine)
    (req : OrderRequest ℚ) (x : Exchange) :
    ((e.submitTo cfg codec req x).1.1.success = false →
      ¬ (e.submitTo cfg codec req x).2.Holds req.identifier) ↔
    ¬ x.Holds req.identifier ∧
      (req.identifier = "" ∨ ¬ e.Takes cfg req ∨ ¬ x.LosesOrder codec {} 1) := by
  by_cases hid : req.identifier = ""
  · exact iff_of_true (fun _ hheld => hheld.1 hid) ⟨fun hheld => hheld.1 hid, .inl hid⟩
  · by_cases htakes : e.Takes cfg req
    · obtain ⟨http, hhttp⟩ := orderHttpRequest_of_valid codec htakes.valid
      obtain ⟨hfails, hend⟩ := submitTo_taken (x := x) htakes hhttp
      have hcarries := carries_of_sent hid hhttp
      rw [hfails, hend]
      by_cases hused : some req.identifier ∈ x.orders
      · obtain ⟨hfail, hheld⟩ := hcarries.performLoop_used codec {} 1 hused
        exact iff_of_false (fun h => h hfail ⟨hid, hheld⟩) (fun h => h.1 ⟨hid, hused⟩)
      · have hnew : ¬ x.Holds req.identifier := fun hheld => hused hheld.2
        have hloses := hcarries.performLoop_new codec {} 1 hused
        rw [← hloses]
        constructor
        · intro h
          exact ⟨hnew, .inr (.inr fun hl => h hl.1 ⟨hid, hl.2⟩)⟩
        · rintro ⟨-, hempty | hrefused | hkept⟩ hfail hheld
          · exact hid hempty
          · exact hrefused htakes
          · exact hkept ⟨hfail, hheld.2⟩
    · obtain ⟨hfail, hend⟩ := submitTo_refused codec x htakes
      rw [hend]
      exact ⟨fun h => ⟨h hfail, .inr (.inl htakes)⟩, fun h _ => h.1⟩

/-- A codec whose answers are their own uuids. -/
def plainCodec : Codec String where
  parse := .ok
  uuid := .ok
  bearerToken := fun _ => ""

/-- An exchange that takes the first call, whose read then times out, and answers the second. -/
def timedOut : Exchange where
  script := fun n =>
    if n = 0 then .answerLost .timeout "timed out" (.inl rfl) else .answered "u1" 400 (by decide)

/-- A failed submission that leaves its order at the exchange: the retry is refused. -/
theorem not_failed_submit_clean :
    ¬ ((idleEngine.submitTo (AppConfig.standard ℚ) plainCodec buyRequest timedOut).1.1.success = false →
      ¬ (idleEngine.submitTo (AppConfig.standard ℚ) plainCodec buyRequest timedOut).2.Holds
        buyRequest.identifier) := by
  decide +kernel

end MarketEngine
end CoinBot
