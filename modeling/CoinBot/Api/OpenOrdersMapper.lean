import CoinBot.Api.UpbitDtos

/- `api/upbit/mappers/OpenOrdersMapper`: what an order of a REST answer means.

   The numbers are texts. `std::strtod`, which is asked about a text that
   `std::from_chars` does not read to its end, is a parameter: none where it reads
   nothing or sets `errno`.

   Correspondence (C++ ↔ Lean):
     `std::from_chars(first, last, out)`, all read ↔ `Decimal.parse`
     `toDomain(const OrderResponseDto&)`           ↔ `OrderResponseDto.toDomain`
     `toDomain(const WaitOrderResponseDto&)`       ↔ `WaitOrderResponseDto.toDomain` -/
namespace CoinBot

namespace OpenOrdersMapper

variable (strtod : String → Option ℚ)

def parseDoubleOr (sv : String) (fallback : ℚ) : ℚ :=
  if sv = "" then fallback
  else match Decimal.parse sv.toList with
    | some out => out
    | none => (strtod sv).getD fallback

def parseOptDouble (s : Option String) : Option ℚ := s.map fun sv => parseDoubleOr strtod sv 0

def sumTradeFunds (trades : List ArrayOfTrade) : ℚ :=
  trades.foldl (fun total t => total + parseDoubleOr strtod t.funds 0) 0

def toDomainPosition : Side → OrderPosition
  | .bid => .bid
  | .ask => .ask

def toDomainOrderType (ordType : String) : OrderType :=
  if ordType = "limit" ∨ ordType = "best" then .limit else .market

def toDomainStatus : OrdState → OrderStatus
  | .wait => .open_
  | .watch => .pending
  | .done => .filled
  | .cancel => .canceled

end OpenOrdersMapper

open OpenOrdersMapper

variable (strtod : String → Option ℚ)

/-- The price of a market buy is its amount; it has neither price nor volume then. -/
def WaitOrderResponseDto.toDomain (dto : WaitOrderResponseDto) : Order :=
  let isTotal := dto.ordType = "price"
  { market := dto.market
    id := dto.uuid
    identifier := dto.identifier
    position := toDomainPosition dto.side
    type := toDomainOrderType dto.ordType
    status := toDomainStatus dto.state
    createdAt := dto.createdAt
    requestedAmount := if isTotal then parseOptDouble strtod dto.price else none
    price := if isTotal then none else parseOptDouble strtod dto.price
    volume := if isTotal then none else parseOptDouble strtod dto.volume
    executedVolume := parseDoubleOr strtod dto.executedVolume 0
    remainingVolume := parseDoubleOr strtod dto.remainingVolume 0
    tradesCount := dto.tradesCount
    executedFunds := parseDoubleOr strtod dto.executedFunds 0
    reservedFee := parseDoubleOr strtod dto.reservedFee 0
    remainingFee := parseDoubleOr strtod dto.remainingFee 0
    paidFee := parseDoubleOr strtod dto.paidFee 0
    locked := parseDoubleOr strtod dto.locked 0 }

/-- Funds that are missing are summed over the trades, and trades that are not counted are. -/
def OrderResponseDto.toDomain (dto : OrderResponseDto) : Order :=
  let isTotal := dto.ordType = "price"
  { market := dto.market
    id := dto.uuid
    identifier := dto.identifier
    position := toDomainPosition dto.side
    type := toDomainOrderType dto.ordType
    status := toDomainStatus dto.state
    createdAt := dto.createdAt
    requestedAmount := if isTotal then parseOptDouble strtod dto.price else none
    price := if isTotal then none else parseOptDouble strtod dto.price
    volume := if isTotal then none else parseOptDouble strtod dto.volume
    executedVolume := parseDoubleOr strtod dto.executedVolume 0
    remainingVolume := dto.remainingVolume.elim 0 (parseDoubleOr strtod · 0)
    tradesCount :=
      if dto.tradesCount = 0 ∧ dto.trades ≠ [] then dto.trades.length else dto.tradesCount
    executedFunds :=
      dto.executedFunds.elim (sumTradeFunds strtod dto.trades) (parseDoubleOr strtod · 0)
    reservedFee := parseDoubleOr strtod dto.reservedFee 0
    remainingFee := parseDoubleOr strtod dto.remainingFee 0
    paidFee := parseDoubleOr strtod dto.paidFee 0
    locked := parseDoubleOr strtod dto.locked 0 }

/-! A text that denotes a number. -/

theorem OpenOrdersMapper.parseDoubleOr_of_parse {text : String} {v : ℚ} (fallback : ℚ)
    (h : Decimal.parse text.toList = some v) : parseDoubleOr strtod text fallback = v := by
  have hne : text ≠ "" := by
    rintro rfl
    cases h
  rw [parseDoubleOr, if_neg hne, h]

end CoinBot
