import CoinBot.Api.UpbitDtos

/- `api/upbit/WsMessageParser`: the texts of the WebSocket as events and candles.

   `parse` is the JSON library without exceptions, none where its value is discarded. What
   an accessor throws is in the result: `parseMyOrder` catches it, and so does `parseCandle`
   but for the type of the message, which it reads outside of its `try`.

   Correspondence (C++ ↔ Lean):
     `nlohmann::json::parse(json, nullptr, false)` ↔ `parse`
     `j.value("type", "")`                         ↔ `Json.Data.valueString`
     `std::from_chars(first, last, unit)`          ↔ `fromCharsInt`
     `toDomain(const CandleDto_Minute&)`           ↔ `CandleDto_Minute.toDomain` -/
namespace CoinBot

open Json (Bytes Data AccessError)

def CandleDto_Minute.toDomain (dto : CandleDto_Minute) : Candle ℚ where
  market := dto.market
  openPrice := dto.openingPrice
  highPrice := dto.highPrice
  lowPrice := dto.lowPrice
  closePrice := dto.tradePrice
  volume := dto.candleAccTradeVolume
  startTimestamp := dto.candleDateTimeKst

namespace WsMessageParser

/-- An `int` in decimal, of all the characters. -/
def fromCharsInt : List Char → Option Int
  | '-' :: digits => (Decimal.digitsOnly digits).bind fun n =>
      if n ≤ 2 ^ 31 then some (-n) else none
  | digits => (Decimal.digitsOnly digits).bind fun n => if n < 2 ^ 31 then some n else none

def parseMinuteCandleUnit (type : String) : Option Int :=
  let lead := "candle.".toList
  let chars := type.toList
  if ¬ lead <+: chars ∨ chars.length ≤ lead.length + 1 then none
  else if chars.getLast? ≠ some 'm' then none
  else
    (fromCharsInt ((chars.drop lead.length).take (chars.length - lead.length - 1))).bind fun unit =>
      if unit ≤ 0 then none else some unit

example : parseMinuteCandleUnit "candle.15m" = some 15 := by decide

def parseMyOrder (cfg : AppConfig ℚ) (parse : Bytes → Option Data) (json : Bytes) :
    List MyOrderEvent :=
  match parse json with
  | none => []
  | some j =>
    match UpbitMyOrderDto.fromJson j with
    | .error _ => []
    | .ok dto => MyOrderMapper.toEvents cfg dto

/-- The candle and its unit, none where the message has none. -/
def parseCandle (parse : Bytes → Option Data) (configuredFallbackUnit : Int) (json : Bytes) :
    Except AccessError (Option (Candle ℚ × Int)) :=
  match parse json with
  | none => .ok none
  | some j =>
    match j.valueString "type" "" with
    | .error thrown => .error thrown
    | .ok type =>
      if ¬ "candle".toList <+: type.toList then .ok none
      else
        let unit := (parseMinuteCandleUnit type).getD configuredFallbackUnit
        match CandleDto_Minute.fromJson j with
        | .error _ => .ok none
        | .ok candleDto => .ok (some (candleDto.toDomain, unit))

/-- The document has a type that can be read: it is an object, and its type, if it has one, is a
    string. -/
def TypeReadable (j : Data) : Prop :=
  j.isObject = true ∧ ∀ x, j.find (Json.utf8 "type") = some x → ∃ s, x = .string s

/-- `parseCandle` throws iff it finds no such type. -/
theorem parseCandle_ok_iff (parse : Bytes → Option Data) (fallbackUnit : Int) (json : Bytes) :
    (∃ update, parseCandle parse fallbackUnit json = .ok update) ↔
      ∀ j, parse json = some j → TypeReadable j := by
  unfold parseCandle
  cases hparse : parse json with
  | none => exact iff_of_true ⟨none, rfl⟩ (fun j hj => nomatch hj)
  | some j =>
    have hread : (∃ type, j.valueString "type" "" = .ok type) ↔ TypeReadable j := by
      unfold Data.valueString TypeReadable
      by_cases hobject : j.isObject = true
      · rw [if_pos hobject]
        cases hfind : j.find (Json.utf8 "type") with
        | none => exact iff_of_true ⟨"", rfl⟩ ⟨hobject, fun x hx => nomatch hx⟩
        | some x =>
          cases x with
          | string s =>
            refine iff_of_true ⟨Json.text s, rfl⟩ ⟨hobject, fun x hx => ?_⟩
            exact ⟨s, (Option.some.inj hx).symm⟩
          | _ =>
            refine iff_of_false (fun ⟨type, htype⟩ => nomatch htype) (fun hreadable => ?_)
            obtain ⟨s, hs⟩ := hreadable.2 _ rfl
            cases hs
      · rw [if_neg hobject]
        refine iff_of_false (fun ⟨type, htype⟩ => nomatch htype) (fun hreadable => ?_)
        exact hobject hreadable.1
    have hall : (∀ j', some j = some j' → TypeReadable j') ↔ TypeReadable j :=
      ⟨fun h => h j rfl, fun h j' hj' => Option.some.inj hj' ▸ h⟩
    rw [hall, ← hread]
    dsimp only
    -- Once the type is read nothing is thrown any more.
    cases j.valueString "type" "" with
    | error thrown => exact iff_of_false (fun ⟨_, h⟩ => nomatch h) (fun ⟨_, h⟩ => nomatch h)
    | ok type =>
      refine iff_of_true ?_ ⟨type, rfl⟩
      by_cases hcandle : ¬ "candle".toList <+: type.toList
      · exact ⟨none, if_pos hcandle⟩
      · simp only [if_neg hcandle]
        cases CandleDto_Minute.fromJson j with
        | error thrown => exact ⟨none, rfl⟩
        | ok candleDto => exact ⟨some _, rfl⟩

end WsMessageParser
end CoinBot
