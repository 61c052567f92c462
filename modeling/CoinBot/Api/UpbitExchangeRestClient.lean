import CoinBot.Api.RestClient
import CoinBot.Core.Domain
import CoinBot.Lib.Decimal
import Mathlib.Data.List.Sort

/- `api/upbit/UpbitExchangeRestClient`: `postOrder`, the request it makes of an order and
   what it makes of the answer.

   The JSON library and the token signer are parameters: `Codec` reads an answer's body
   and signs a list of parameters. A request body is the list of its JSON fields. The
   lock of `SharedOrderApi`, which only forwards, and the logging are left out.

   Correspondence (C++ ↔ Lean):
     `nlohmann::json::parse`, its exception    ↔ `Codec.parse`, an error with its text
     `j.value("uuid", "")`, its exception      ↔ `Codec.uuid`
     `signer_.makeBearerToken(qs.hash)`        ↔ `Codec.bearerToken` of the sorted parameters
     everything up to `rest_.perform(http)`    ↔ `orderHttpRequest`
     everything after it                       ↔ `readOrderUuid` -/
namespace CoinBot.UpbitExchangeRestClient

/-- What the client uses of the JSON library and of the signer. `J` is a JSON value. -/
structure Codec (J : Type) where
  parse : String → Except String J
  uuid : J → Except String String
  bearerToken : List (String × String) → String

structure OrderPayloadFields where
  priceField : Option String := none
  volumeField : Option String := none
  deriving DecidableEq, Repr

def isSuccessStatus (status : Int) : Bool := 200 ≤ status && status ≤ 299

/-- The start of a body, for an error message. -/
def bodySnippet (body : String) : String := String.ofList (body.toList.take 256)

def makeHttpStatusError (status : Int) (location body : String) : RestError where
  code := .badStatus
  message := location ++ " failed, http = " ++ toString status ++ ", body = " ++ bodySnippet body
  httpStatus := status

def makeParseError (status : Int) (location what body : String) : RestError where
  code := .parseError
  message := location ++ " parse failed: " ++ what ++ ", body = " ++ bodySnippet body
  httpStatus := status

def makeInvalidArgumentError (message : String) : RestError where
  code := .invalidArgument
  message := message
  httpStatus := 0

/-! The request. -/

def toUpbitSide : OrderPosition → String
  | .bid => "bid"
  | .ask => "ask"

/-- `limit`, `price` for a market buy of an amount, `market` for a market sell of a volume. -/
def toUpbitOrdType (req : OrderRequest ℚ) : String :=
  match req.type with
  | .limit => "limit"
  | .market => match req.size with
    | .amount _ => "price"
    | .volume _ => "market"

/-- The text of `v` rounded down to `decimals` digits, without zeros at the end. -/
def formatDecimalFloor (v : ℚ) (decimals : Nat) : String :=
  let text := (Decimal.fixed decimals (⌊v * 10 ^ decimals⌋ / 10 ^ decimals)).toList
  if '.' ∈ text then
    let trimmed := (text.reverse.dropWhile (· == '0')).reverse
    let whole := if trimmed.getLast? = some '.' then trimmed.dropLast else trimmed
    if whole = [] then "0" else String.ofList whole
  else if text = [] then "0" else String.ofList text

example : formatDecimalFloor (123456 / 1000) 2 = "123.45" := by decide +kernel

def buildOrderPayloadFields (request : OrderRequest ℚ) (ordType : String) :
    Except RestError OrderPayloadFields :=
  if ordType = "limit" then
    match request.price, request.size with
    | none, _ => .error (makeInvalidArgumentError "postOrder: limit order requires price")
    | some _, .amount _ =>
      .error (makeInvalidArgumentError "postOrder: limit order requires VolumeSize")
    | some price, .volume volume =>
      if volume ≤ 0 then
        .error (makeInvalidArgumentError "postOrder: limit volume must be > 0")
      else .ok
        { priceField := some (formatDecimalFloor price 0)
          volumeField := some (formatDecimalFloor volume 8) }
  else if ordType = "price" then
    match request.size with
    | .volume _ =>
      .error (makeInvalidArgumentError "postOrder: ord_type=price requires AmountSize")
    | .amount amount =>
      if amount ≤ 0 then .error (makeInvalidArgumentError "postOrder: amount must be > 0")
      else .ok { priceField := some (formatDecimalFloor amount 0) }
  else
    match request.size with
    | .amount _ =>
      .error (makeInvalidArgumentError "postOrder: ord_type=market requires VolumeSize")
    | .volume volume =>
      if volume ≤ 0 then .error (makeInvalidArgumentError "postOrder: volume must be > 0")
      else .ok { volumeField := some (formatDecimalFloor volume 8) }

/-- A parameter that is sent when it has a value. -/
def optionalField (name : String) : Option String → List (String × String)
  | some value => [(name, value)]
  | none => []

/-- The parameters of a new order: the fields of the body, and what is signed. -/
def orderParams (reqIn : OrderRequest ℚ) (fields : OrderPayloadFields) : List (String × String) :=
  [("market", reqIn.market), ("side", toUpbitSide reqIn.position),
    ("ord_type", toUpbitOrdType reqIn)] ++
  optionalField "identifier" (if reqIn.identifier = "" then none else some reqIn.identifier) ++
  optionalField "price" fields.priceField ++ optionalField "volume" fields.volumeField

variable {J σ : Type}

/-- `postOrder` up to the call of `perform`. -/
def orderHttpRequest (codec : Codec J) (reqIn : OrderRequest ℚ) : Except RestError HttpRequest :=
  if reqIn.market = "" then .error (makeInvalidArgumentError "postOrder: market is empty")
  else match buildOrderPayloadFields reqIn (toUpbitOrdType reqIn) with
    | .error err => .error err
    | .ok fields =>
      let params := orderParams reqIn fields
      -- The signature is over the parameters in the order of their names.
      let signed := params.mergeSort (fun lhs rhs => decide (lhs.1 ≤ rhs.1))
      .ok
        { method := .post
          host := "api.upbit.com"
          port := "443"
          target := "/v1/orders"
          headers :=
            [("Accept", "application/json"), ("Content-Type", "application/json; charset=utf-8"),
              ("Authorization", codec.bearerToken signed)]
          body := params }

/-- The uuid in the body of a successful answer. -/
def uuidOfBody (codec : Codec J) (resp : HttpResponse) : Except RestError String :=
  match codec.parse resp.body with
  | .error what => .error (makeParseError resp.status "Upbit POST /v1/orders" what resp.body)
  | .ok j => match codec.uuid j with
    | .error what =>
      .error (makeParseError resp.status "Upbit POST /v1/orders (map order_uuid)" what resp.body)
    | .ok orderUuid =>
      if orderUuid = "" then
        .error (makeParseError resp.status "Upbit POST /v1/orders (missing order_uuid)"
          "order_uuid is empty" resp.body)
      else .ok orderUuid

/-- `postOrder` after the call of `perform`. -/
def readOrderUuid (codec : Codec J) :
    Except RestError HttpResponse → Except RestError String
  | .error err => .error err
  | .ok resp =>
    if isSuccessStatus resp.status then uuidOfBody codec resp
    else .error (makeHttpStatusError resp.status "Upbit POST /v1/orders" resp.body)

def postOrder (codec : Codec J) (performOnce : HttpRequest → σ → Except RestError HttpResponse × σ)
    (reqIn : OrderRequest ℚ) (s : σ) : Except RestError String × σ :=
  match orderHttpRequest codec reqIn with
  | .error err => (.error err, s)
  | .ok http =>
    let (r, s') := RestClient.perform performOnce http {} s
    (readOrderUuid codec r, s')

/-! What a request carries. -/

/-- The identifier travels in the body exactly when there is one. -/
theorem lookup_identifier (reqIn : OrderRequest ℚ) (fields : OrderPayloadFields) :
    (orderParams reqIn fields).lookup "identifier" =
      if reqIn.identifier = "" then none else some reqIn.identifier := by
  have hprice : ∀ v, (optionalField "price" v).lookup "identifier" = none := by
    intro v
    cases v <;> rfl
  have hvolume : ∀ v, (optionalField "volume" v).lookup "identifier" = none := by
    intro v
    cases v <;> rfl
  unfold orderParams
  rw [List.lookup_append, List.lookup_append, hvolume, Option.or_none, List.lookup_append, hprice,
    Option.or_none]
  by_cases hid : reqIn.identifier = ""
  · simp [hid, optionalField, List.lookup_cons]
  · simp [hid, optionalField, List.lookup_cons]

theorem orderHttpRequest_ok {codec : Codec J} {reqIn : OrderRequest ℚ} {http : HttpRequest}
    (h : orderHttpRequest codec reqIn = .ok http) :
    http.method = .post ∧ http.host = "api.upbit.com" ∧ http.target = "/v1/orders" ∧
    http.body.lookup "identifier" =
      if reqIn.identifier = "" then none else some reqIn.identifier := by
  unfold orderHttpRequest at h
  split at h
  · cases h
  · split at h
    · cases h
    · next fields _ =>
      cases h
      exact ⟨rfl, rfl, rfl, lookup_identifier reqIn fields⟩

/-- Once something is sent, `perform` enters its loop with one attempt to spare. -/
theorem postOrder_sent {codec : Codec J} {reqIn : OrderRequest ℚ} {http : HttpRequest}
    (h : orderHttpRequest codec reqIn = .ok http)
    (performOnce : HttpRequest → σ → Except RestError HttpResponse × σ) (s : σ) :
    postOrder codec performOnce reqIn s =
      (readOrderUuid codec (RestClient.performLoop performOnce http {} 1 s).1,
       (RestClient.performLoop performOnce http {} 1 s).2) := by
  obtain ⟨-, hhost, htarget, -⟩ := orderHttpRequest_ok h
  simp only [postOrder, h, RestClient.perform, hhost, htarget]
  rfl

end CoinBot.UpbitExchangeRestClient
