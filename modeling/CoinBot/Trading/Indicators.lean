import CoinBot.Core.Domain

/- `trading/indicators`: the ring buffer and the indicators. The strategy uses three of them,
   `Sma` is ready for use.

   The number type is a parameter, and so is the square root. Sizes are numbers: a buffer's
   cells are in memory, so that no index comes near the end of `std::size_t`.

   Correspondence (C++ ↔ Lean):
     `buf_` (std::vector of `cap_` cells)    ↔ a vector of `cap` cells
     `T{}`, and a buffer by default          ↔ 0, and `reset 0`
     `push`, what it returns and does        ↔ a pair
     `at`, `operator[]`                      ↔ `atIndex`, `index`
     `std::out_of_range` with its text       ↔ `OutOfRange`
     a cell that `buf_` does not have        ↔ none
     `std::sqrt`                             ↔ the argument `sqrt` -/
namespace CoinBot

/-- An indicator's value and whether it is ready. -/
structure Value (α : Type) where
  ready : Bool
  v : α
  deriving DecidableEq, Repr

def Value.notReady {α : Type} [Zero α] : Value α := { ready := false, v := 0 }

def Value.asOptional {α : Type} (x : Value α) : Option α := if x.ready then some x.v else none

/-- `RingBuffer`: the cells, the oldest one in use, and how many are in use. -/
structure RingBuffer (α : Type) where
  cap : Nat
  buf : Vector α cap
  head : Nat
  size : Nat
  head_lt : 0 < cap → head < cap
  size_le : size ≤ cap

namespace RingBuffer
variable {α : Type}

def reset [Zero α] (capacity : Nat) : RingBuffer α where
  cap := capacity
  buf := Vector.replicate capacity 0
  head := 0
  size := 0
  head_lt := id
  size_le := Nat.zero_le capacity

/-- The cells keep their values. -/
def clear (b : RingBuffer α) : RingBuffer α :=
  { b with head := 0, size := 0, head_lt := id, size_le := Nat.zero_le b.cap }

def full (b : RingBuffer α) : Bool := b.cap != 0 && b.size == b.cap

/-- `push`: the value it overwrote, if any, and the buffer. -/
def push (b : RingBuffer α) (v : α) : Option α × RingBuffer α :=
  if hcap : 0 < b.cap then
    if hfull : b.size = b.cap then
      have hhead := b.head_lt hcap
      (some b.buf[b.head],
       { b with
         buf := b.buf.set b.head v hhead
         head := (b.head + 1) % b.cap
         head_lt := fun h => Nat.mod_lt _ h })
    else
      (none,
       { b with
         buf := b.buf.set ((b.head + b.size) % b.cap) v (Nat.mod_lt _ hcap)
         size := b.size + 1
         size_le := Nat.lt_of_le_of_ne b.size_le hfull })
  else (none, b)

def physicalIndexFromOldest (b : RingBuffer α) (i : Nat) : Nat :=
  if b.cap = 0 then 0 else (b.head + i) % b.cap

theorem physicalIndexFromOldest_lt (b : RingBuffer α) (i : Nat) (h : 0 < b.cap) :
    b.physicalIndexFromOldest i < b.cap := by
  rw [physicalIndexFromOldest, if_neg (Nat.ne_of_gt h)]
  exact Nat.mod_lt _ h

def physicalIndexFromNewest (b : RingBuffer α) (backIndex : Nat) : Nat :=
  if b.cap = 0 then 0
  else
    let newest := (b.head + b.size - 1) % b.cap
    (newest + b.cap - backIndex % b.cap) % b.cap

theorem physicalIndexFromNewest_lt (b : RingBuffer α) (backIndex : Nat) (h : 0 < b.cap) :
    b.physicalIndexFromNewest backIndex < b.cap := by
  rw [physicalIndexFromNewest, if_neg (Nat.ne_of_gt h)]
  exact Nat.mod_lt _ h

/-- The value pushed `backIndex` values before the newest one. -/
def valueFromBack (b : RingBuffer α) (backIndex : Nat) : Option α :=
  if h : b.size ≤ backIndex then none
  else
    have hlt : b.physicalIndexFromNewest backIndex < b.cap :=
      b.physicalIndexFromNewest_lt backIndex
        (lt_of_lt_of_le (lt_of_le_of_lt (Nat.zero_le _) (not_le.mp h)) b.size_le)
    some b.buf[b.physicalIndexFromNewest backIndex]

theorem cap_pos (b : RingBuffer α) {i : Nat} (h : ¬ b.size ≤ i) : 0 < b.cap :=
  Nat.lt_of_lt_of_le (Nat.zero_lt_of_lt (Nat.lt_of_not_le h)) b.size_le

structure OutOfRange where
  what : String
  deriving DecidableEq, Repr

/-- The oldest value has the index 0. -/
def atIndex (b : RingBuffer α) (indexFromOldest : Nat) : Except OutOfRange α :=
  if h : b.size ≤ indexFromOldest then .error ⟨"RingBuffer::at (oldest) out of range"⟩
  else
    have hlt := b.physicalIndexFromOldest_lt indexFromOldest (b.cap_pos h)
    .ok b.buf[b.physicalIndexFromOldest indexFromOldest]

/-- `operator[]` does not look whether the value is in use. -/
def index (b : RingBuffer α) (indexFromOldest : Nat) : Option α :=
  b.buf[b.physicalIndexFromOldest indexFromOldest]?

def newest (b : RingBuffer α) : Except OutOfRange α :=
  if h : b.size = 0 then .error ⟨"RingBuffer::newest on empty buffer"⟩
  else
    have hlt := b.physicalIndexFromNewest_lt 0 (b.cap_pos (fun hle => h (Nat.le_zero.mp hle)))
    .ok b.buf[b.physicalIndexFromNewest 0]

def oldest (b : RingBuffer α) : Except OutOfRange α :=
  if h : b.size = 0 then .error ⟨"RingBuffer::oldest on empty buffer"⟩
  else
    have hlt := b.physicalIndexFromOldest_lt 0 (b.cap_pos (fun hle => h (Nat.le_zero.mp hle)))
    .ok b.buf[b.physicalIndexFromOldest 0]

/-- As `valueFromBack`, with an exception. -/
def refFromBack (b : RingBuffer α) (backIndex : Nat) : Except OutOfRange α :=
  if h : b.size ≤ backIndex then .error ⟨"RingBuffer::refFromBack out of range"⟩
  else
    have hlt := b.physicalIndexFromNewest_lt backIndex (b.cap_pos h)
    .ok b.buf[b.physicalIndexFromNewest backIndex]

end RingBuffer

/-! The indicators. `update` takes the close of a candle. -/

section
variable {α : Type} [Field α] [LinearOrder α]

structure RsiWilder (α : Type) where
  length : Nat
  prevPrice : Option α
  seedCount : Nat
  seedGainSum : α
  seedLossSum : α
  avgGain : α
  avgLoss : α
  last : Value α

namespace RsiWilder

def reset (length : Nat) : RsiWilder α where
  length := length
  prevPrice := none
  seedCount := 0
  seedGainSum := 0
  seedLossSum := 0
  avgGain := 0
  avgLoss := 0
  last := .notReady

def clear (i : RsiWilder α) : RsiWilder α := reset i.length

def computeRsi (avgGain avgLoss : α) : α :=
  if avgGain = 0 ∧ avgLoss = 0 then 50
  else if avgLoss = 0 then 100
  else if avgGain = 0 then 0
  else 100 - 100 / (1 + avgGain / avgLoss)

/-- The averages are fixed: the value, and the indicator that remembers it. -/
def settle (i : RsiWilder α) (avgGain avgLoss : α) : Value α × RsiWilder α :=
  let out := { ready := true, v := computeRsi avgGain avgLoss }
  (out, { i with avgGain := avgGain, avgLoss := avgLoss, last := out })

def update (i : RsiWilder α) (closePrice : α) : Value α × RsiWilder α :=
  if i.length = 0 then (.notReady, i)
  else match i.prevPrice with
    | none => (.notReady, { i with prevPrice := some closePrice })
    | some prev =>
      let i := { i with prevPrice := some closePrice }
      let delta := closePrice - prev
      let gain := if 0 < delta then delta else 0
      let loss := if delta < 0 then -delta else 0
      let n : α := i.length
      if i.seedCount < i.length then
        let seeded :=
          { i with
            seedGainSum := i.seedGainSum + gain
            seedLossSum := i.seedLossSum + loss
            seedCount := i.seedCount + 1 }
        if seeded.seedCount < i.length then (.notReady, seeded)
        else seeded.settle (seeded.seedGainSum / n) (seeded.seedLossSum / n)
      else
        -- Wilder smoothing.
        i.settle ((i.avgGain * (n - 1) + gain) / n) ((i.avgLoss * (n - 1) + loss) / n)

end RsiWilder

/-- The mean of the last `length` values. -/
structure Sma (α : Type) where
  length : Nat
  window : RingBuffer α
  sum : α

namespace Sma

def reset (length : Nat) : Sma α where
  length := length
  window := .reset length
  sum := 0

def clear (i : Sma α) : Sma α := { i with window := i.window.clear, sum := 0 }

def value (i : Sma α) : Value α :=
  if 0 < i.length ∧ i.window.full then { ready := true, v := i.sum / i.length } else .notReady

def update (i : Sma α) (x : α) : Value α × Sma α :=
  if i.length = 0 then (.notReady, i)
  else
    let (overwritten, window) := i.window.push x
    let i := { i with window := window, sum := i.sum - overwritten.getD 0 + x }
    (if window.full then { ready := true, v := i.sum / i.length } else .notReady, i)

end Sma

structure ClosePriceWindow (α : Type) where
  length : Nat
  window : RingBuffer α

namespace ClosePriceWindow

/-- The close `length` candles back needs `length + 1` of them. -/
def reset (length : Nat) : ClosePriceWindow α where
  length := length
  window := .reset (length + 1)

def clear (i : ClosePriceWindow α) : ClosePriceWindow α := { i with window := i.window.clear }

def update (i : ClosePriceWindow α) (close : α) : Value α × ClosePriceWindow α :=
  let window := (i.window.push close).2
  let out := match window.valueFromBack i.length with
    | none => .notReady
    | some v => { ready := true, v := v }
  (out, { i with window := window })

end ClosePriceWindow

structure ChangeVolatilityIndicator (α : Type) where
  length : Nat
  window : RingBuffer α
  sum : α
  sumsq : α
  prevClose : Option α

namespace ChangeVolatilityIndicator

/-- The default constructor: inactive until it is reset. -/
def inactive : ChangeVolatilityIndicator α where
  length := 0
  window := .reset 0
  sum := 0
  sumsq := 0
  prevClose := none

def reset (length : Nat) : ChangeVolatilityIndicator α where
  length := if length < 2 then 2 else length
  window := .reset (if length < 2 then 2 else length)
  sum := 0
  sumsq := 0
  prevClose := none

def clear (i : ChangeVolatilityIndicator α) : ChangeVolatilityIndicator α :=
  { i with window := i.window.clear, sum := 0, sumsq := 0, prevClose := none }

def stdev_ (sqrt : α → α) (i : ChangeVolatilityIndicator α) : α :=
  let n : α := i.length
  if n ≤ 2 then 0
  else
    let mean := i.sum / n
    let var := i.sumsq / n - mean * mean
    sqrt (if var < 0 then 0 else var)

def value (sqrt : α → α) (i : ChangeVolatilityIndicator α) : Value α :=
  if 0 < i.length ∧ i.window.full then { ready := true, v := i.stdev_ sqrt } else .notReady

def update (sqrt : α → α) (i : ChangeVolatilityIndicator α) (close : α) :
    Value α × ChangeVolatilityIndicator α :=
  if i.length = 0 then (.notReady, i)
  else match i.prevClose with
    | none => (.notReady, { i with prevClose := some close })
    | some prev =>
      let i := { i with prevClose := some close }
      -- No change rate over a price of 0: the sample is skipped.
      if prev = 0 then (.notReady, i)
      else
        let r := (close - prev) / prev
        let (overwritten, window) := i.window.push r
        let old := overwritten.getD 0
        let i :=
          { i with
            window := window
            sum := i.sum - old + r
            sumsq := i.sumsq - old * old + r * r }
        (if window.full then { ready := true, v := i.stdev_ sqrt } else .notReady, i)

end ChangeVolatilityIndicator

end
end CoinBot
