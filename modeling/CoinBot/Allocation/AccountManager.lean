import CoinBot.Core.Domain
import CoinBot.Lib.KeyMap
import Mathlib.Algebra.Order.Ring.Rat
import Mathlib.Tactic.Linarith
import Mathlib.Tactic.Ring

/- `trading/allocation/AccountManager`: the budget of each market, the
   reservation tokens and the settlement of fills.

   A method that changes the manager returns the manager after the call, and the
   token after the call when it takes one by reference. Locks are left out: each
   method holds the mutex for its whole effect, so a call is one step. A token
   carries the fact that it never consumes more than its amount.

   Correspondence (C++ ↔ Lean):
     `ReservationToken(ReservationToken&&)`  ↔ `ReservationToken.move`
     `~ReservationToken`                     ↔ `AccountManager.destroyToken`
     `budgets_.find(market)`                 ↔ `getBudget`
     the two constructors of the ledger      ↔ `AccountManager.create`,
                                               `AccountManager.rebuildFromAccount` -/
namespace CoinBot

structure MarketBudget where
  market : String
  availableKrw : Amount := 0
  reservedKrw : Amount := 0
  coinBalance : Volume := 0
  avgEntryPrice : Price := 0
  initialCapital : Amount := 0
  realizedPnl : Amount := 0
  deriving DecidableEq, Repr

/-- A reservation of KRW. `managed` is `manager_ != nullptr`, which only a moved-from
    token lacks. -/
structure ReservationToken where
  managed : Bool
  market : String
  amount : Amount
  consumed : Amount
  id : Nat
  active : Bool
  consumed_le : consumed ≤ amount
  deriving DecidableEq

namespace ReservationToken

def remaining (t : ReservationToken) : Amount := t.amount - t.consumed

/-- The token never consumes more than it reserved. -/
def addConsumed (t : ReservationToken) (executedKrw : Amount) : ReservationToken :=
  { t with
    consumed := if t.amount < t.consumed + executedKrw then t.amount else t.consumed + executedKrw
    consumed_le := by split <;> linarith }

def deactivate (t : ReservationToken) : ReservationToken := { t with active := false }

/-- The token moved to, and what is left of the token moved from. -/
def move (t : ReservationToken) : ReservationToken × ReservationToken :=
  (t, { t with managed := false, market := "", active := false })

@[simp] theorem remaining_nonneg (t : ReservationToken) : 0 ≤ t.remaining :=
  sub_nonneg.mpr t.consumed_le

@[simp] theorem market_addConsumed (t : ReservationToken) (x : Amount) :
    (t.addConsumed x).market = t.market := rfl

@[simp] theorem active_addConsumed (t : ReservationToken) (x : Amount) :
    (t.addConsumed x).active = t.active := rfl

@[simp] theorem managed_addConsumed (t : ReservationToken) (x : Amount) :
    (t.addConsumed x).managed = t.managed := rfl

@[simp] theorem active_deactivate (t : ReservationToken) : t.deactivate.active = false := rfl

/-- Within the reservation nothing is clamped. -/
theorem remaining_addConsumed (t : ReservationToken) {x : Amount} (h : x ≤ t.remaining) :
    (t.addConsumed x).remaining = t.remaining - x := by
  have : ¬ t.amount < t.consumed + x := by unfold remaining at h; linarith
  simp only [addConsumed, remaining, if_neg this]; ring

end ReservationToken

/-- A fill the ledger has booked. -/
structure Booking where
  market : String
  side : OrderPosition
  coin : Volume
  krw : Amount
  deriving DecidableEq, Repr

/-- `Stats`. The source counts the fills (`total_fills_buy`, `total_fills_sell`); `fills` is
    the list of what it counts, newest last. No method reads it. -/
structure Stats where
  totalReserves : Nat := 0
  totalReleases : Nat := 0
  reserveFailures : Nat := 0
  fills : List Booking := []
  deriving DecidableEq, Repr

structure AccountManager where
  budgets : KeyMap String MarketBudget
  nextTokenId : Nat := 1
  stats : Stats := {}

/-! Budget updates: what each method does to the budget it has found. -/
namespace MarketBudget

/-- `reserve`. -/
def hold (b : MarketBudget) (krw : Amount) : MarketBudget :=
  { b with availableKrw := b.availableKrw - krw, reservedKrw := b.reservedKrw + krw }

/-- `releaseInternal`: the unused amount goes back, and the reserve never drops below zero. -/
def giveBack (b : MarketBudget) (remaining : Amount) : MarketBudget :=
  let reserved := b.reservedKrw - remaining
  { b with
    reservedKrw := if reserved < 0 then 0 else reserved
    availableKrw := b.availableKrw + remaining }

/-- `giveBack` where the reserve covers the amount. -/
def refund (b : MarketBudget) (remaining : Amount) : MarketBudget :=
  { b with
    reservedKrw := b.reservedKrw - remaining
    availableKrw := b.availableKrw + remaining }

/-- `finalizeFillBuy`: the reserve pays, and the average price is weighted by volume. -/
def buy (b : MarketBudget) (executedKrw : Amount) (receivedCoin : Volume) (fillPrice : Price) :
    MarketBudget :=
  let reserved := b.reservedKrw - executedKrw
  let oldTotal := b.coinBalance * b.avgEntryPrice
  let newTotal := receivedCoin * fillPrice
  let newBalance := b.coinBalance + receivedCoin
  { b with
    reservedKrw := if reserved < 0 then 0 else reserved
    avgEntryPrice := if 0 < newBalance then (oldTotal + newTotal) / newBalance else b.avgEntryPrice
    coinBalance := newBalance }

/-- `finalizeFillSell`. -/
def sell (b : MarketBudget) (soldCoin : Volume) (receivedKrw : Amount) : MarketBudget :=
  { b with coinBalance := b.coinBalance - soldCoin, availableKrw := b.availableKrw + receivedKrw }

/-- Whether the coin left after a sell order is dust: by quantity, or by value at the mark
    price when there is a positive one. -/
def isDust (cfg : AccountConfig) (b : MarketBudget) (markPrice : Option Price) : Bool :=
  if b.coinBalance < cfg.coinEpsilon then true
  else match markPrice with
    | some mark => 0 < mark && b.coinBalance * mark < cfg.initDustThresholdKrw
    | none => false

/-- `finalizeSellOrder`: dust is cleared, and only then the realised profit is fixed. -/
def closeSell (cfg : AccountConfig) (b : MarketBudget) (markPrice : Option Price) : MarketBudget :=
  if b.isDust cfg markPrice then
    { b with
      coinBalance := 0
      avgEntryPrice := 0
      realizedPnl := b.availableKrw - b.initialCapital }
  else b

/-- The tail of `finalizeOrder`: a reserve below the dust threshold goes back too. -/
def sweepDust (cfg : AccountConfig) (b : MarketBudget) : MarketBudget :=
  if 0 < b.reservedKrw ∧ b.reservedKrw < cfg.krwDustThreshold then
    { b with availableKrw := b.availableKrw + b.reservedKrw, reservedKrw := 0 }
  else b

theorem giveBack_of_le {b : MarketBudget} {remaining : Amount} (h : remaining ≤ b.reservedKrw) :
    b.giveBack remaining = b.refund remaining := by
  have hnoclamp : ¬ b.reservedKrw - remaining < 0 := by linarith
  simp only [giveBack, refund, if_neg hnoclamp]

@[simp] theorem refund_zero (b : MarketBudget) : b.refund 0 = b := by
  simp only [refund, sub_zero, add_zero]

end MarketBudget

namespace AccountManager

def getBudget (mgr : AccountManager) (market : String) : Option MarketBudget :=
  mgr.budgets.lookup market

def modifyBudget (mgr : AccountManager) (market : String) (f : MarketBudget → MarketBudget) :
    AccountManager :=
  { mgr with budgets := KeyMap.modify market f mgr.budgets }

def countRelease (mgr : AccountManager) : AccountManager :=
  { mgr with stats := { mgr.stats with totalReleases := mgr.stats.totalReleases + 1 } }

def countReserveFailure (mgr : AccountManager) : AccountManager :=
  { mgr with stats := { mgr.stats with reserveFailures := mgr.stats.reserveFailures + 1 } }

def countReserve (mgr : AccountManager) : AccountManager :=
  { mgr with
    nextTokenId := mgr.nextTokenId + 1
    stats := { mgr.stats with totalReserves := mgr.stats.totalReserves + 1 } }

def countFill (mgr : AccountManager) (fill : Booking) : AccountManager :=
  { mgr with stats := { mgr.stats with fills := mgr.stats.fills ++ [fill] } }

/-! Reservations. -/

def reserve (mgr : AccountManager) (market : String) (krwAmount : Amount) :
    Option ReservationToken × AccountManager :=
  match mgr.getBudget market with
  | none => (none, mgr.countReserveFailure)
  | some budget =>
    if hpos : krwAmount ≤ 0 then (none, mgr.countReserveFailure)
    else if budget.availableKrw < krwAmount then (none, mgr.countReserveFailure)
    else
      (some { managed := true, market := market, amount := krwAmount, consumed := 0,
              id := mgr.nextTokenId, active := true, consumed_le := (not_le.mp hpos).le },
       (mgr.modifyBudget market (·.hold krwAmount)).countReserve)

def releaseInternal (mgr : AccountManager) (market : String) (remaining : Amount) : AccountManager :=
  mgr.modifyBudget market (·.giveBack remaining)

def releaseWithoutToken (mgr : AccountManager) (market : String) (remaining : Amount) :
    AccountManager :=
  (mgr.releaseInternal market remaining).countRelease

def release (mgr : AccountManager) (token : ReservationToken) : ReservationToken × AccountManager :=
  if !token.active then (token, mgr)
  else (token.deactivate, mgr.releaseWithoutToken token.market token.remaining)

/-- The destructor: a token destroyed while active gives back what it has left. -/
def destroyToken (mgr : AccountManager) (token : ReservationToken) : AccountManager :=
  if token.active && token.managed then
    mgr.releaseWithoutToken token.market (token.amount - token.consumed)
  else mgr

/-! Settlement. -/

/-- `finalizeFillBuy` past its checks, with the amount to charge. -/
def bookBuy (mgr : AccountManager) (token : ReservationToken) (executedKrw : Amount)
    (receivedCoin : Volume) (fillPrice : Price) : ReservationToken × AccountManager :=
  match mgr.getBudget token.market with
  | none => (token, mgr)
  | some _ =>
    (token.addConsumed executedKrw,
     (mgr.modifyBudget token.market (·.buy executedKrw receivedCoin fillPrice)).countFill
       ⟨token.market, .bid, receivedCoin, executedKrw⟩)

def finalizeFillBuy (mgr : AccountManager) (token : ReservationToken) (executedKrw : Amount)
    (receivedCoin : Volume) (fillPrice : Price) : ReservationToken × AccountManager :=
  if !token.active then (token, mgr)
  else if executedKrw ≤ 0 ∨ receivedCoin ≤ 0 ∨ fillPrice ≤ 0 then (token, mgr)
  else if token.remaining < executedKrw then
    -- Over-reservation: what is left of the reservation is charged, the coin booked in full.
    if token.remaining ≤ 0 then (token, mgr)
    else mgr.bookBuy token token.remaining receivedCoin fillPrice
  else mgr.bookBuy token executedKrw receivedCoin fillPrice

def finalizeFillSell (mgr : AccountManager) (market : String) (soldCoin : Volume)
    (receivedKrw : Amount) : AccountManager :=
  if soldCoin ≤ 0 ∨ receivedKrw < 0 then mgr
  else match mgr.getBudget market with
    | none => mgr
    | some _ =>
      (mgr.modifyBudget market (·.sell soldCoin receivedKrw)).countFill
        ⟨market, .ask, soldCoin, receivedKrw⟩

def finalizeSellOrder (cfg : AccountConfig) (mgr : AccountManager) (market : String)
    (markPrice : Option Price) : AccountManager :=
  mgr.modifyBudget market (·.closeSell cfg markPrice)

def finalizeOrder (cfg : AccountConfig) (mgr : AccountManager) (token : ReservationToken) :
    ReservationToken × AccountManager :=
  if !token.active then (token, mgr)
  else match mgr.getBudget token.market with
    | none => (token.deactivate, mgr)
    | some _ =>
      let released :=
        if 0 < token.remaining then mgr.releaseInternal token.market token.remaining else mgr
      (token.deactivate, released.modifyBudget token.market (·.sweepDust cfg))

/-! The two ways the ledger is set up. -/

/-- The market a position belongs to. -/
def marketOf (pos : Position) : String := "KRW-" ++ pos.currency

/-- Stage 2 of the constructor, on the budget of the position's market. -/
def createHolding (cfg : AccountConfig) (pos : Position) (b : MarketBudget) : MarketBudget :=
  let coinValue := pos.free * pos.avgBuyPrice
  if coinValue < cfg.initDustThresholdKrw then
    { b with coinBalance := 0, avgEntryPrice := 0, initialCapital := 0 }
  else
    { b with
      coinBalance := pos.free
      avgEntryPrice := pos.avgBuyPrice
      initialCapital := coinValue
      availableKrw := 0 }

/-- The constructor. -/
def create (cfg : AccountConfig) (account : Account) (markets : List String) :
    Except String AccountManager :=
  if markets.isEmpty then .error "AccountManager: markets cannot be empty"
  else
    let zeroed : KeyMap String MarketBudget :=
      markets.foldl (fun bs market => bs.insert market { market := market }) ∅
    let held := account.positions.foldl
      (fun bs pos => KeyMap.modify (marketOf pos) (createHolding cfg pos) bs) zeroed
    if account.krwFree ≤ 0 then .ok { budgets := held }
    else
      let withoutCoin := held.entries.countP (fun e => e.2.coinBalance == 0)
      if 0 < withoutCoin then
        let perMarket := account.krwFree / (withoutCoin : ℚ)
        .ok { budgets := KeyMap.mapVal (fun _ b =>
          if b.coinBalance == 0 then
            { b with availableKrw := perMarket, initialCapital := perMarket }
          else b) held }
      else .ok { budgets := held }

/-- Stage 2 of `rebuildFromAccount`, on the budget of the position's market. -/
def rebuildHolding (cfg : AccountConfig) (pos : Position) (b : MarketBudget) : MarketBudget :=
  let coinValue := pos.free * pos.avgBuyPrice
  if coinValue < cfg.initDustThresholdKrw then
    { b with coinBalance := 0, avgEntryPrice := 0 }
  else
    { b with
      coinBalance := pos.free
      avgEntryPrice := pos.avgBuyPrice
      availableKrw := 0
      reservedKrw := 0 }

/-- The markets stage 3 of `rebuildFromAccount` takes as flat. -/
def flatMarkets (cfg : AccountConfig) (budgets : KeyMap String MarketBudget) : List String :=
  (budgets.entries.filter (fun e => e.2.coinBalance < cfg.coinEpsilon)).map (·.1)

/-- Stages 1 and 2 of `rebuildFromAccount`: the holdings as the account has them. -/
def rebuildHoldings (cfg : AccountConfig) (budgets : KeyMap String MarketBudget)
    (positions : List Position) : KeyMap String MarketBudget :=
  positions.foldl (fun bs pos => KeyMap.modify (marketOf pos) (rebuildHolding cfg pos) bs)
    (KeyMap.mapVal (fun _ b => { b with coinBalance := 0, avgEntryPrice := 0 }) budgets)

def rebuildFromAccount (cfg : AccountConfig) (mgr : AccountManager) (account : Account) :
    AccountManager :=
  let held := rebuildHoldings cfg mgr.budgets account.positions
  let flat := flatMarkets cfg held
  if flat.isEmpty then { mgr with budgets := held }
  else
    let perMarket := account.krwFree / (flat.length : ℚ)
    { mgr with
      budgets := flat.foldl (fun bs market =>
        KeyMap.modify market
          (fun b => { b with availableKrw := perMarket, reservedKrw := 0 }) bs) held }

/-! What each method does, said once: callers use these and do not unfold the method. -/

@[simp] theorem getBudget_modifyBudget_self (mgr : AccountManager) (m : String)
    (f : MarketBudget → MarketBudget) :
    (mgr.modifyBudget m f).getBudget m = (mgr.getBudget m).map f :=
  KeyMap.lookup_modify_self m f mgr.budgets

theorem getBudget_modifyBudget_ne {m m' : String} (mgr : AccountManager)
    (f : MarketBudget → MarketBudget) (h : m' ≠ m) :
    (mgr.modifyBudget m f).getBudget m' = mgr.getBudget m' :=
  KeyMap.lookup_modify_ne f mgr.budgets h

@[simp] theorem stats_modifyBudget (mgr : AccountManager) (m : String)
    (f : MarketBudget → MarketBudget) : (mgr.modifyBudget m f).stats = mgr.stats := rfl

@[simp] theorem getBudget_countRelease (mgr : AccountManager) (m : String) :
    mgr.countRelease.getBudget m = mgr.getBudget m := rfl

@[simp] theorem getBudget_countReserveFailure (mgr : AccountManager) (m : String) :
    mgr.countReserveFailure.getBudget m = mgr.getBudget m := rfl

@[simp] theorem getBudget_countReserve (mgr : AccountManager) (m : String) :
    mgr.countReserve.getBudget m = mgr.getBudget m := rfl

@[simp] theorem getBudget_countFill (mgr : AccountManager) (fill : Booking) (m : String) :
    (mgr.countFill fill).getBudget m = mgr.getBudget m := rfl

@[simp] theorem fills_countRelease (mgr : AccountManager) :
    mgr.countRelease.stats.fills = mgr.stats.fills := rfl

@[simp] theorem fills_countReserveFailure (mgr : AccountManager) :
    mgr.countReserveFailure.stats.fills = mgr.stats.fills := rfl

@[simp] theorem fills_countReserve (mgr : AccountManager) :
    mgr.countReserve.stats.fills = mgr.stats.fills := rfl

@[simp] theorem fills_countFill (mgr : AccountManager) (fill : Booking) :
    (mgr.countFill fill).stats.fills = mgr.stats.fills ++ [fill] := rfl

/-- A reservation either changes no budget or holds a positive amount that was available. -/
theorem reserve_cases (mgr : AccountManager) (m : String) (krw : Amount) :
    mgr.reserve m krw = (none, mgr.countReserveFailure) ∨
    ∃ b token, mgr.getBudget m = some b ∧ 0 < krw ∧ krw ≤ b.availableKrw ∧
      token.managed = true ∧ token.market = m ∧ token.amount = krw ∧ token.consumed = 0 ∧
      token.active = true ∧
      mgr.reserve m krw = (some token, (mgr.modifyBudget m (·.hold krw)).countReserve) := by
  unfold reserve
  cases hb : mgr.getBudget m with
  | none => exact .inl rfl
  | some b =>
    by_cases hpos : krw ≤ 0
    · simp [hpos]
    · by_cases hav : b.availableKrw < krw
      · simp [hpos, hav]
      · right
        simp only [hpos, hav, dite_false, if_false]
        exact ⟨b, _, rfl, not_le.mp hpos, not_lt.mp hav, rfl, rfl, rfl, rfl, rfl, rfl⟩

/-- What a fill is charged against the reservation. -/
def charge (token : ReservationToken) (executedKrw : Amount) : Amount :=
  min executedKrw token.remaining

/-- Whether `finalizeFillBuy` books the fill. -/
def BooksBuy (mgr : AccountManager) (token : ReservationToken) (executedKrw : Amount)
    (receivedCoin : Volume) (fillPrice : Price) : Prop :=
  token.active = true ∧ 0 < executedKrw ∧ 0 < receivedCoin ∧ 0 < fillPrice ∧
    0 < token.remaining ∧ (mgr.getBudget token.market).isSome

theorem finalizeFillBuy_booked {mgr : AccountManager} {token : ReservationToken}
    {krw coin price : ℚ} (h : mgr.BooksBuy token krw coin price) :
    mgr.finalizeFillBuy token krw coin price =
      (token.addConsumed (charge token krw),
       (mgr.modifyBudget token.market (·.buy (charge token krw) coin price)).countFill
         ⟨token.market, .bid, coin, charge token krw⟩) := by
  obtain ⟨hact, hkrw, hcoin, hprice, hrem, hreg⟩ := h
  obtain ⟨b, hb⟩ := Option.isSome_iff_exists.mp hreg
  have hargs : ¬ (krw ≤ 0 ∨ coin ≤ 0 ∨ price ≤ 0) := by
    simp only [not_or, not_le]; exact ⟨hkrw, hcoin, hprice⟩
  unfold finalizeFillBuy charge bookBuy
  simp only [hact, hargs, hb, not_le.mpr hrem, Bool.not_true, Bool.false_eq_true, if_false]
  by_cases hover : token.remaining < krw
  · rw [if_pos hover, min_eq_right hover.le]
  · rw [if_neg hover, min_eq_left (not_lt.mp hover)]

theorem finalizeFillBuy_skipped {mgr : AccountManager} {token : ReservationToken}
    {krw coin price : ℚ} (h : ¬ mgr.BooksBuy token krw coin price) :
    mgr.finalizeFillBuy token krw coin price = (token, mgr) := by
  unfold finalizeFillBuy bookBuy
  by_cases hact : token.active = true
  · by_cases hargs : krw ≤ 0 ∨ coin ≤ 0 ∨ price ≤ 0
    · simp [hact, hargs]
    · obtain ⟨hkrw, hcoin, hprice⟩ : 0 < krw ∧ 0 < coin ∧ 0 < price := by
        simpa only [not_or, not_le] using hargs
      cases hb : mgr.getBudget token.market with
      | none => simp [hact]
      | some b =>
        have hrem : token.remaining ≤ 0 := by
          by_contra hrem
          exact h ⟨hact, hkrw, hcoin, hprice, not_le.mp hrem, by simp [hb]⟩
        have hover : token.remaining < krw := lt_of_le_of_lt hrem hkrw
        simp [hact, hover, hrem]
  · simp [hact]

theorem finalizeFillSell_booked {mgr : AccountManager} {m : String} {coin krw : ℚ}
    (hcoin : 0 < coin) (hkrw : 0 ≤ krw) (hreg : (mgr.getBudget m).isSome) :
    mgr.finalizeFillSell m coin krw =
      (mgr.modifyBudget m (·.sell coin krw)).countFill ⟨m, .ask, coin, krw⟩ := by
  obtain ⟨b, hb⟩ := Option.isSome_iff_exists.mp hreg
  have hargs : ¬ (coin ≤ 0 ∨ krw < 0) := by
    simp only [not_or, not_le, not_lt]; exact ⟨hcoin, hkrw⟩
  simp only [finalizeFillSell, hargs, if_false, hb]

theorem finalizeFillSell_cases (mgr : AccountManager) (m : String) (coin krw : ℚ) :
    mgr.finalizeFillSell m coin krw = mgr ∨
    (0 < coin ∧ 0 ≤ krw ∧ (mgr.getBudget m).isSome ∧
      mgr.finalizeFillSell m coin krw =
        (mgr.modifyBudget m (·.sell coin krw)).countFill ⟨m, .ask, coin, krw⟩) := by
  by_cases hargs : coin ≤ 0 ∨ krw < 0
  · left; simp [finalizeFillSell, hargs]
  · obtain ⟨hcoin, hkrw⟩ : 0 < coin ∧ 0 ≤ krw := by simpa only [not_or, not_le, not_lt] using hargs
    cases hb : mgr.getBudget m with
    | none => left; simp [finalizeFillSell, hargs, hb]
    | some b =>
      exact .inr ⟨hcoin, hkrw, by simp, finalizeFillSell_booked hcoin hkrw (by simp [hb])⟩

theorem release_active {mgr : AccountManager} {token : ReservationToken}
    (h : token.active = true) :
    mgr.release token = (token.deactivate, mgr.releaseWithoutToken token.market token.remaining) := by
  simp [release, h]

theorem destroyToken_active {mgr : AccountManager} {token : ReservationToken}
    (h : token.active = true) (hm : token.managed = true) :
    mgr.destroyToken token = mgr.releaseWithoutToken token.market token.remaining := by
  simp [destroyToken, h, hm, ReservationToken.remaining]

/-- What finalising an active token does, where the reserve covers what it has left. -/
theorem finalizeOrder_active (cfg : AccountConfig) {mgr : AccountManager}
    {token : ReservationToken} {b : MarketBudget} (h : token.active = true)
    (hb : mgr.getBudget token.market = some b)
    (hle : token.remaining ≤ b.reservedKrw) :
    (mgr.finalizeOrder cfg token).1 = token.deactivate ∧
    (mgr.finalizeOrder cfg token).2.getBudget token.market =
      some ((b.refund token.remaining).sweepDust cfg) ∧
    (∀ m, m ≠ token.market →
      (mgr.finalizeOrder cfg token).2.getBudget m = mgr.getBudget m) ∧
    (mgr.finalizeOrder cfg token).2.stats = mgr.stats := by
  have hcall : mgr.finalizeOrder cfg token = (token.deactivate,
      (if 0 < token.remaining then mgr.releaseInternal token.market token.remaining
        else mgr).modifyBudget token.market (·.sweepDust cfg)) := by
    simp only [finalizeOrder, h, Bool.not_true, Bool.false_eq_true, if_false, hb]
  rw [hcall]
  by_cases hpos : 0 < token.remaining
  · simp only [if_pos hpos, releaseInternal]
    refine ⟨trivial, ?_, fun m hm => ?_, rfl⟩
    · simp [hb, MarketBudget.giveBack_of_le hle]
    · rw [getBudget_modifyBudget_ne _ _ hm, getBudget_modifyBudget_ne _ _ hm]
  · simp only [if_neg hpos]
    have hzero : token.remaining = 0 := le_antisymm (not_lt.mp hpos) token.remaining_nonneg
    refine ⟨trivial, ?_, fun m hm => ?_, rfl⟩
    · simp [hb, hzero]
    · rw [getBudget_modifyBudget_ne _ _ hm]

end AccountManager

end CoinBot
