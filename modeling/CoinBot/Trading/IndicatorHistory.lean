import CoinBot.Trading.RingBuffer

/- What an indicator knows of the closes it was given.

   An indicator is updated with one close at a time and keeps only a window and a few
   sums. `Follows` relates it to the whole series of closes, and the value it returns is a
   function of that series: `rsiAt`, `closeAt` and `volatilityAt`. -/
namespace CoinBot

/-! The values of the indicators, as functions of the closes so far. -/

section
variable {α : Type} [Field α] [LinearOrder α]

/-- The rises of the price, a fall being none. -/
def gains (closes : List α) : List α :=
  Series.steps (fun prev close => if 0 < close - prev then close - prev else 0) closes

/-- The falls of the price. -/
def losses (closes : List α) : List α :=
  Series.steps (fun prev close => if close - prev < 0 then -(close - prev) else 0) closes

/-- The change rates of the price. -/
def changes (closes : List α) : List α :=
  Series.steps (fun prev close => (close - prev) / prev) closes

@[simp] theorem length_gains (closes : List α) : (gains closes).length = closes.length - 1 :=
  Series.length_steps _ _

@[simp] theorem length_losses (closes : List α) : (losses closes).length = closes.length - 1 :=
  Series.length_steps _ _

omit [LinearOrder α] in
@[simp] theorem length_changes (closes : List α) : (changes closes).length = closes.length - 1 :=
  Series.length_steps _ _

def rsiAt (length : Nat) (closes : List α) : Value α :=
  if length < closes.length then
    { ready := true
      v := RsiWilder.computeRsi (Series.smoothed length (gains closes))
        (Series.smoothed length (losses closes)) }
  else .notReady

def closeAt (length : Nat) (closes : List α) : Value α :=
  match closes.reverse[length]? with
  | none => .notReady
  | some v => { ready := true, v := v }

/-- Two change rates are too few for a deviation: it counts as 0. -/
def volatilityAt (sqrt : α → α) (length : Nat) (closes : List α) : Value α :=
  if length < closes.length then
    { ready := true
      v := if length ≤ 2 then 0 else sqrt (Series.variance ((changes closes).rtake length)) }
  else .notReady

/-! `RsiWilder` follows the closes. -/

namespace RsiWilder

@[simp] theorem update_length (i : RsiWilder α) (close : α) :
    (i.update close).2.length = i.length := by
  unfold update
  split
  · rfl
  · split
    · rfl
    · dsimp only
      split
      · split <;> rfl
      · rfl

structure Follows (i : RsiWilder α) (closes : List α) : Prop where
  prev : i.prevPrice = closes.getLast?
  seedCount : i.seedCount = min i.length (closes.length - 1)
  gainSum : closes.length ≤ i.length → i.seedGainSum = (gains closes).sum
  lossSum : closes.length ≤ i.length → i.seedLossSum = (losses closes).sum
  avgGain : i.length < closes.length → i.avgGain = Series.smoothed i.length (gains closes)
  avgLoss : i.length < closes.length → i.avgLoss = Series.smoothed i.length (losses closes)

theorem follows_reset (length : Nat) : (reset length : RsiWilder α).Follows [] where
  prev := rfl
  seedCount := by simp [reset]
  gainSum := fun _ => rfl
  lossSum := fun _ => rfl
  avgGain := fun h => absurd h (Nat.not_lt_zero _)
  avgLoss := fun h => absurd h (Nat.not_lt_zero _)

variable {i : RsiWilder α} {closes : List α}

theorem Follows.update_first (h : i.Follows []) (hlen : 1 ≤ i.length) (close : α) :
    (i.update close).1 = rsiAt i.length [close] ∧ (i.update close).2.Follows [close] := by
  have hprev : i.prevPrice = none := h.prev
  have hupdate : i.update close = (.notReady, { i with prevPrice := some close }) := by
    rw [update, if_neg (by omega), hprev]
  have hseed : i.seedCount = 0 := by
    have hcount := h.seedCount
    simpa using hcount
  rw [hupdate]
  refine ⟨?_, ?_⟩
  · rw [rsiAt, if_neg]
    rw [List.length_singleton]
    omega
  · have hone : ¬ i.length < [close].length := by
      rw [List.length_singleton]
      omega
    exact
      { prev := rfl
        seedCount := by simpa using hseed
        gainSum := fun _ => h.gainSum (Nat.zero_le _)
        lossSum := fun _ => h.lossSum (Nat.zero_le _)
        avgGain := fun hlt => absurd hlt hone
        avgLoss := fun hlt => absurd hlt hone }

theorem Follows.update_seeding (h : i.Follows closes) {prev : α}
    (hlast : closes.getLast? = some prev) (hlen : closes.length < i.length) (close : α) :
    (i.update close).1 = rsiAt i.length (closes ++ [close]) ∧
      (i.update close).2.Follows (closes ++ [close]) := by
  have hpos : 0 < closes.length := List.length_pos_of_ne_nil (by rintro rfl; simp at hlast)
  have hcount := h.seedCount
  have hless : i.seedCount < i.length := by omega
  have hmore : i.seedCount + 1 < i.length := by omega
  have hupdate : i.update close = (.notReady,
      { i with
        prevPrice := some close
        seedGainSum := i.seedGainSum + if 0 < close - prev then close - prev else 0
        seedLossSum := i.seedLossSum + if close - prev < 0 then -(close - prev) else 0
        seedCount := i.seedCount + 1 }) := by
    rw [update, if_neg (by omega), h.prev, hlast]
    simp only [hless, hmore, if_true]
  have hshort : ¬ i.length < (closes ++ [close]).length := by
    rw [List.length_append, List.length_singleton]
    omega
  rw [hupdate]
  refine ⟨by rw [rsiAt, if_neg hshort], ?_⟩
  exact
    { prev := by simp
      seedCount := by
        simp only [List.length_append, List.length_singleton]
        omega
      gainSum := fun _ => by
        rw [gains, Series.sum_steps_concat _ hlast]
        exact congrArg (· + _) (h.gainSum (Nat.le_of_lt hlen))
      lossSum := fun _ => by
        rw [losses, Series.sum_steps_concat _ hlast]
        exact congrArg (· + _) (h.lossSum (Nat.le_of_lt hlen))
      avgGain := fun hlt => absurd hlt hshort
      avgLoss := fun hlt => absurd hlt hshort }

theorem Follows.settle {j : RsiWilder α} (hprev : j.prevPrice = closes.getLast?)
    (hcount : j.seedCount = j.length) (hlong : j.length < closes.length) :
    (j.settle (Series.smoothed j.length (gains closes))
        (Series.smoothed j.length (losses closes))).1 = rsiAt j.length closes ∧
      (j.settle (Series.smoothed j.length (gains closes))
        (Series.smoothed j.length (losses closes))).2.Follows closes := by
  refine ⟨by rw [rsiAt, if_pos hlong]; rfl, ?_⟩
  exact
    { prev := hprev
      seedCount := by
        show j.seedCount = min j.length _
        omega
      gainSum := fun hle => absurd hlong (Nat.not_lt_of_le hle)
      lossSum := fun hle => absurd hlong (Nat.not_lt_of_le hle)
      avgGain := fun _ => rfl
      avgLoss := fun _ => rfl }

theorem Follows.update_seeded (h : i.Follows closes) {prev : α}
    (hlast : closes.getLast? = some prev) (hlen : closes.length = i.length) (close : α) :
    (i.update close).1 = rsiAt i.length (closes ++ [close]) ∧
      (i.update close).2.Follows (closes ++ [close]) := by
  have hpos : 0 < closes.length := List.length_pos_of_ne_nil (by rintro rfl; simp at hlast)
  have hcount := h.seedCount
  have hless : i.seedCount < i.length := by omega
  have hdone : ¬ i.seedCount + 1 < i.length := by omega
  have hgain : (i.seedGainSum + if 0 < close - prev then close - prev else 0) / (i.length : α) =
      Series.smoothed i.length (gains (closes ++ [close])) := by
    rw [gains, Series.smoothed_steps_seed hlast hlen, h.gainSum (Nat.le_of_eq hlen), gains]
  have hloss : (i.seedLossSum + if close - prev < 0 then -(close - prev) else 0) / (i.length : α) =
      Series.smoothed i.length (losses (closes ++ [close])) := by
    rw [losses, Series.smoothed_steps_seed hlast hlen, h.lossSum (Nat.le_of_eq hlen), losses]
  rw [update, if_neg (by omega), h.prev, hlast]
  simp only [hless, hdone, if_true, if_false, hgain, hloss]
  refine Follows.settle (j := { i with
    prevPrice := some close
    seedGainSum := i.seedGainSum + if 0 < close - prev then close - prev else 0
    seedLossSum := i.seedLossSum + if close - prev < 0 then -(close - prev) else 0
    seedCount := i.seedCount + 1 }) ?_ ?_ ?_
  · simp
  · show i.seedCount + 1 = i.length
    omega
  · show i.length < (closes ++ [close]).length
    rw [List.length_append, List.length_singleton]
    omega

theorem Follows.update_smoothing (h : i.Follows closes) {prev : α}
    (hlast : closes.getLast? = some prev) (hlen : i.length < closes.length) (hpos : 1 ≤ i.length)
    (close : α) :
    (i.update close).1 = rsiAt i.length (closes ++ [close]) ∧
      (i.update close).2.Follows (closes ++ [close]) := by
  have hcount := h.seedCount
  have hfull : ¬ i.seedCount < i.length := by omega
  have hgain : (i.avgGain * ((i.length : α) - 1) + if 0 < close - prev then close - prev else 0) /
      (i.length : α) = Series.smoothed i.length (gains (closes ++ [close])) := by
    rw [gains, Series.smoothed_steps_next hlast hlen, h.avgGain hlen]
    rfl
  have hloss : (i.avgLoss * ((i.length : α) - 1) +
      if close - prev < 0 then -(close - prev) else 0) / (i.length : α) =
      Series.smoothed i.length (losses (closes ++ [close])) := by
    rw [losses, Series.smoothed_steps_next hlast hlen, h.avgLoss hlen]
    rfl
  rw [update, if_neg (by omega), h.prev, hlast]
  simp only [hfull, if_false, hgain, hloss]
  refine Follows.settle (j := { i with prevPrice := some close }) ?_ ?_ ?_
  · simp
  · show i.seedCount = i.length
    omega
  · show i.length < (closes ++ [close]).length
    rw [List.length_append, List.length_singleton]
    omega

theorem Follows.update (h : i.Follows closes) (hpos : 1 ≤ i.length) (close : α) :
    (i.update close).1 = rsiAt i.length (closes ++ [close]) ∧
      (i.update close).2.Follows (closes ++ [close]) := by
  cases hclosed : closes.getLast? with
  | none =>
    obtain rfl : closes = [] := List.getLast?_eq_none_iff.mp hclosed
    exact h.update_first hpos close
  | some prev =>
    obtain hlt | heq | hgt := Nat.lt_trichotomy closes.length i.length
    · exact h.update_seeding hclosed hlt close
    · exact h.update_seeded hclosed heq close
    · exact h.update_smoothing hclosed hgt hpos close

end RsiWilder

/-! `ClosePriceWindow` follows the closes. -/

namespace ClosePriceWindow

structure Follows (i : ClosePriceWindow α) (closes : List α) : Prop where
  cap : i.window.cap = i.length + 1
  holds : i.window.Holds closes

omit [LinearOrder α] in
theorem follows_reset (length : Nat) : (reset length : ClosePriceWindow α).Follows [] where
  cap := rfl
  holds := RingBuffer.holds_nil rfl

variable {i : ClosePriceWindow α} {closes : List α}

omit [LinearOrder α] in
theorem Follows.update (h : i.Follows closes) (close : α) :
    (i.update close).1 = closeAt i.length (closes ++ [close]) ∧
      (i.update close).2.Follows (closes ++ [close]) := by
  have hcap := h.cap
  have hpush := h.holds.push (by omega) close
  have hlength : i.length < (i.window.push close).2.cap := by
    rw [RingBuffer.push_cap]
    omega
  have hback := hpush.2.valueFromBack hlength
  refine ⟨?_, ?_⟩
  · show (match (i.window.push close).2.valueFromBack i.length with
      | none => Value.notReady
      | some v => { ready := true, v := v }) = _
    rw [hback]
    rfl
  · exact
      { cap := by
          show (i.window.push close).2.cap = _
          rw [RingBuffer.push_cap]
          exact hcap
        holds := hpush.2 }

end ClosePriceWindow

/-! `ChangeVolatilityIndicator` follows the closes. -/

namespace ChangeVolatilityIndicator

@[simp] theorem update_length (i : ChangeVolatilityIndicator α) (sqrt : α → α) (close : α) :
    (i.update sqrt close).2.length = i.length := by
  unfold update
  split
  · rfl
  · split
    · rfl
    · dsimp only
      split <;> rfl

structure Follows (i : ChangeVolatilityIndicator α) (closes : List α) : Prop where
  prev : i.prevClose = closes.getLast?
  cap : i.window.cap = i.length
  holds : i.window.Holds (changes closes)
  sum : i.sum = ((changes closes).rtake i.length).sum
  sumsq : i.sumsq = (((changes closes).map (fun r => r * r)).rtake i.length).sum

omit [LinearOrder α] in
theorem follows_reset (length : Nat) :
    (reset length : ChangeVolatilityIndicator α).Follows [] where
  prev := rfl
  cap := rfl
  holds := RingBuffer.holds_nil rfl
  sum := by simp [reset, changes]
  sumsq := by simp [reset, changes]

variable {i : ChangeVolatilityIndicator α} {closes : List α}

theorem Follows.update_first (h : i.Follows []) (sqrt : α → α) (hlen : 1 ≤ i.length) (close : α) :
    (i.update sqrt close).1 = volatilityAt sqrt i.length [close] ∧
      (i.update sqrt close).2.Follows [close] := by
  have hprev : i.prevClose = none := h.prev
  have hupdate : i.update sqrt close = (.notReady, { i with prevClose := some close }) := by
    rw [update, if_neg (by omega), hprev]
  rw [hupdate]
  refine ⟨?_, { prev := rfl, cap := h.cap, holds := h.holds, sum := h.sum, sumsq := h.sumsq }⟩
  rw [volatilityAt, if_neg]
  rw [List.length_singleton]
  omega

variable [IsStrictOrderedRing α]

/-- With the sums of a full window, the deviation is the one of the window. -/
theorem Follows.stdev (h : i.Follows closes) (sqrt : α → α) (hlong : i.length < closes.length)
    (hpos : 1 ≤ i.length) :
    i.stdev_ sqrt =
      if i.length ≤ 2 then 0 else sqrt (Series.variance ((changes closes).rtake i.length)) := by
  have hfull : ((changes closes).rtake i.length).length = i.length := by
    rw [Series.length_rtake, length_changes]
    omega
  have hne : (((changes closes).rtake i.length).length : α) ≠ 0 := by
    rw [hfull]
    exact Nat.cast_ne_zero.mpr (by omega)
  have hvar : i.sumsq / i.length - i.sum / i.length * (i.sum / i.length) =
      Series.variance ((changes closes).rtake i.length) := by
    rw [Series.variance_eq hne, Series.mean, hfull, h.sum, h.sumsq, Series.rtake_map]
  have hcast : ((i.length : α) ≤ 2) ↔ i.length ≤ 2 := Nat.cast_le_ofNat
  have hnonneg : ¬ Series.variance ((changes closes).rtake i.length) < 0 :=
    not_lt.mpr (Series.variance_nonneg _)
  unfold stdev_
  simp only [hcast, hvar, hnonneg, if_false]

theorem Follows.update_next (h : i.Follows closes) (sqrt : α → α) (hpos : 1 ≤ i.length) {prev : α}
    (hlast : closes.getLast? = some prev) (hprev : prev ≠ 0) (close : α) :
    (i.update sqrt close).1 = volatilityAt sqrt i.length (closes ++ [close]) ∧
      (i.update sqrt close).2.Follows (closes ++ [close]) := by
  have hcap := h.cap
  have hpush := h.holds.push (by omega) ((close - prev) / prev)
  have hsteps : changes (closes ++ [close]) = changes closes ++ [(close - prev) / prev] :=
    Series.steps_concat _ hlast close
  generalize hr : (close - prev) / prev = r at hpush hsteps
  let next : ChangeVolatilityIndicator α :=
    { i with
      prevClose := some close
      window := (i.window.push r).2
      sum := i.sum - (i.window.push r).1.getD 0 + r
      sumsq := i.sumsq - (i.window.push r).1.getD 0 * (i.window.push r).1.getD 0 + r * r }
  have hupdate : i.update sqrt close =
      (if next.window.full then { ready := true, v := next.stdev_ sqrt } else .notReady, next) := by
    rw [update, if_neg (by omega), h.prev, hlast]
    simp only [hprev, if_false, hr]
    rfl
  have hcontents : (i.window.push r).2.contents = (changes closes ++ [r]).rtake i.length := by
    rw [hpush.2.contents, RingBuffer.push_cap, hcap]
  have hold : i.window.contents = (changes closes).rtake i.length := by
    rw [h.holds.contents, hcap]
  have hne : i.window.cap ≠ 0 := by omega
  have hnext : next.Follows (closes ++ [close]) :=
    { prev := by simp [next]
      cap := (RingBuffer.push_cap _ _).trans hcap
      holds := by
        rw [hsteps]
        exact hpush.2
      sum := by
        show i.sum - (i.window.push r).1.getD 0 + r = _
        rw [hsteps, ← hcontents, RingBuffer.sum_push hne, hold, h.sum]
      sumsq := by
        show i.sumsq - (i.window.push r).1.getD 0 * (i.window.push r).1.getD 0 + r * r = _
        rw [hsteps, Series.rtake_map, ← hcontents, RingBuffer.sumsq_push hne, hold, h.sumsq,
          Series.rtake_map] }
  have hready : next.window.full = decide (i.length < (closes ++ [close]).length) := by
    rw [hnext.holds.full (by rw [hnext.cap]; exact hpos), hnext.cap]
    congr 1
    rw [length_changes, List.length_append, List.length_singleton]
    have hsame : next.length = i.length := rfl
    rw [hsame]
    exact propext (by omega)
  rw [hupdate]
  refine ⟨?_, hnext⟩
  rw [hready, volatilityAt]
  by_cases hlong : i.length < (closes ++ [close]).length
  · rw [if_pos (decide_eq_true hlong), if_pos hlong, hnext.stdev sqrt hlong hpos]
  · rw [if_neg (by simpa using hlong), if_neg hlong]

theorem Follows.update (h : i.Follows closes) (sqrt : α → α) (hpos : 1 ≤ i.length)
    (hne : ∀ x ∈ closes, x ≠ 0) (close : α) :
    (i.update sqrt close).1 = volatilityAt sqrt i.length (closes ++ [close]) ∧
      (i.update sqrt close).2.Follows (closes ++ [close]) := by
  cases hclosed : closes.getLast? with
  | none =>
    obtain rfl : closes = [] := List.getLast?_eq_none_iff.mp hclosed
    exact h.update_first sqrt hpos close
  | some prev =>
    exact h.update_next sqrt hpos hclosed (hne prev (List.mem_of_getLast? hclosed)) close

end ChangeVolatilityIndicator

end
end CoinBot
