import CoinBot.Backtest.BatchIndicators

/- Wilder's RSI, close by close and over a whole series.

   `feed` gives the indicator one close after another. Its value at an index is the one of
   the column that `_compute_wilder_rsi` computes from the whole series. The checked
   versions of both programs fail where they would divide by zero; they never do. -/
namespace CoinBot

variable {α : Type} [Field α] [LinearOrder α]

/-- A division that fails where the denominator is zero. -/
def checkedDiv (a b : α) : Option α := if b = 0 then none else some (a / b)

theorem checkedDiv_eq {b : α} (a : α) (h : b ≠ 0) :
    checkedDiv a b = some (a / b) := if_neg h

omit [Field α] in
theorem gain_nonneg [Zero α] (d : α) : 0 ≤ if 0 < d then d else 0 := by
  split
  · next hup => exact hup.le
  · exact le_rfl

theorem loss_nonneg [IsStrictOrderedRing α] (d : α) : 0 ≤ if d < 0 then -d else 0 := by
  split
  · next hdown => exact neg_nonneg.mpr hdown.le
  · exact le_rfl

namespace RsiWilder

/-! The divisions of `update`. -/

/-- `computeRsi`. -/
def checkedRsi (avgGain avgLoss : α) : Option α :=
  if avgGain = 0 ∧ avgLoss = 0 then some 50
  else if avgLoss = 0 then some 100
  else if avgGain = 0 then some 0
  else do
    let rs ← checkedDiv avgGain avgLoss
    let share ← checkedDiv 100 (1 + rs)
    some (100 - share)

/-- `settle`. -/
def checkedSettle (i : RsiWilder α) (avgGain avgLoss : α) : Option (Value α × RsiWilder α) := do
  let v ← checkedRsi avgGain avgLoss
  let out := { ready := true, v := v }
  some (out, { i with avgGain := avgGain, avgLoss := avgLoss, last := out })

/-- `update`. -/
def checkedUpdate (i : RsiWilder α) (closePrice : α) : Option (Value α × RsiWilder α) :=
  if i.length = 0 then some (.notReady, i)
  else match i.prevPrice with
    | none => some (.notReady, { i with prevPrice := some closePrice })
    | some prev =>
      let i := { i with prevPrice := some closePrice }
      let delta := closePrice - prev
      let gain := if 0 < delta then delta else 0
      let loss := if delta < 0 then -delta else 0
      let n : α := i.length
      if i.seedCount < i.length then
        let seeded :=
          { i with
            seedGainSum := i.seedGainSum + gain
            seedLossSum := i.seedLossSum + loss
            seedCount := i.seedCount + 1 }
        if seeded.seedCount < i.length then some (.notReady, seeded)
        else do
          let avgGain ← checkedDiv seeded.seedGainSum n
          let avgLoss ← checkedDiv seeded.seedLossSum n
          seeded.checkedSettle avgGain avgLoss
      else do
        let avgGain ← checkedDiv (i.avgGain * (n - 1) + gain) n
        let avgLoss ← checkedDiv (i.avgLoss * (n - 1) + loss) n
        i.checkedSettle avgGain avgLoss

/-- The sums and the averages are not negative. -/
structure Nonneg (i : RsiWilder α) : Prop where
  seedGainSum : 0 ≤ i.seedGainSum
  seedLossSum : 0 ≤ i.seedLossSum
  avgGain : 0 ≤ i.avgGain
  avgLoss : 0 ≤ i.avgLoss

theorem nonneg_reset (length : Nat) : (reset length : RsiWilder α).Nonneg :=
  ⟨le_rfl, le_rfl, le_rfl, le_rfl⟩

variable [IsStrictOrderedRing α] {i : RsiWilder α}

theorem computeRsi_mem {avgGain avgLoss : α} (hgain : 0 ≤ avgGain) (hloss : 0 ≤ avgLoss) :
    checkedRsi avgGain avgLoss = some (computeRsi avgGain avgLoss) ∧
      0 ≤ computeRsi avgGain avgLoss ∧ computeRsi avgGain avgLoss ≤ 100 := by
  unfold checkedRsi computeRsi
  split
  · exact ⟨rfl, by norm_num, by norm_num⟩
  · split
    · exact ⟨rfl, by norm_num, le_rfl⟩
    · next hne =>
      split
      · exact ⟨rfl, le_rfl, by norm_num⟩
      · have hrs : 0 ≤ avgGain / avgLoss := div_nonneg hgain hloss
        have hden : 1 ≤ 1 + avgGain / avgLoss := le_add_of_nonneg_right hrs
        have hpos : 0 < 1 + avgGain / avgLoss := lt_of_lt_of_le zero_lt_one hden
        have hshare : 0 ≤ 100 / (1 + avgGain / avgLoss) := div_nonneg (by norm_num) hpos.le
        have hshare' : 100 / (1 + avgGain / avgLoss) ≤ 100 := div_le_self (by norm_num) hden
        rw [checkedDiv_eq _ hne, Option.bind_eq_bind, Option.bind_some, checkedDiv_eq _ hpos.ne']
        exact ⟨rfl, sub_nonneg.mpr hshare', sub_le_self _ hshare⟩

theorem checkedSettle_eq (i : RsiWilder α) {avgGain avgLoss : α} (hgain : 0 ≤ avgGain)
    (hloss : 0 ≤ avgLoss) :
    i.checkedSettle avgGain avgLoss = some (i.settle avgGain avgLoss) := by
  rw [checkedSettle, (computeRsi_mem hgain hloss).1]
  rfl

/-- One close: the sums and averages stay as they should, and no denominator is zero. -/
theorem Nonneg.update (h : i.Nonneg) (hlen : 1 ≤ i.length) (close : α) :
    (i.update close).2.Nonneg ∧ i.checkedUpdate close = some (i.update close) := by
  have hn : (1 : α) ≤ i.length := Nat.one_le_cast.mpr hlen
  have hpos : (0 : α) < i.length := lt_of_lt_of_le zero_lt_one hn
  have hzero : i.length ≠ 0 := Nat.one_le_iff_ne_zero.mp hlen
  unfold RsiWilder.update checkedUpdate
  rw [if_neg hzero, if_neg hzero]
  cases i.prevPrice with
  | none => exact ⟨⟨h.seedGainSum, h.seedLossSum, h.avgGain, h.avgLoss⟩, rfl⟩
  | some prev =>
    dsimp only
    have hgain := gain_nonneg (close - prev)
    have hloss := loss_nonneg (close - prev)
    generalize (if 0 < close - prev then close - prev else 0) = gain at hgain
    generalize (if close - prev < 0 then -(close - prev) else 0) = loss at hloss
    have hsums := And.intro (add_nonneg h.seedGainSum hgain) (add_nonneg h.seedLossSum hloss)
    simp only [checkedDiv_eq _ hpos.ne', Option.bind_eq_bind, Option.bind_some]
    split
    · split
      · exact ⟨⟨hsums.1, hsums.2, h.avgGain, h.avgLoss⟩, rfl⟩
      · have hgain' := div_nonneg hsums.1 hpos.le
        have hloss' := div_nonneg hsums.2 hpos.le
        exact ⟨⟨hsums.1, hsums.2, hgain', hloss'⟩, checkedSettle_eq _ hgain' hloss'⟩
    · -- Wilder smoothing: the weight of the average is not negative.
      have hweight : (0 : α) ≤ i.length - 1 := sub_nonneg.mpr hn
      have hgain' : 0 ≤ (i.avgGain * (i.length - 1) + gain) / i.length :=
        div_nonneg (add_nonneg (mul_nonneg h.avgGain hweight) hgain) hpos.le
      have hloss' : 0 ≤ (i.avgLoss * (i.length - 1) + loss) / i.length :=
        div_nonneg (add_nonneg (mul_nonneg h.avgLoss hweight) hloss) hpos.le
      exact ⟨⟨h.seedGainSum, h.seedLossSum, hgain', hloss'⟩, checkedSettle_eq _ hgain' hloss'⟩

/-! A series of closes. -/

omit [IsStrictOrderedRing α]

/-- A new indicator that was given these closes. -/
def feed (length : Nat) (closes : List α) : RsiWilder α :=
  closes.foldl (fun i close => (i.update close).2) (reset length)

theorem feed_concat (length : Nat) (closes : List α) (close : α) :
    feed length (closes ++ [close]) = ((feed length closes).update close).2 := by
  rw [feed, List.foldl_append]
  rfl

theorem length_feed (length : Nat) (closes : List α) : (feed length closes).length = length := by
  induction closes using List.reverseRecOn with
  | nil => rfl
  | append_singleton closes close ih => rw [feed_concat, update_length, ih]

theorem follows_feed {length : Nat} (hlen : 1 ≤ length) (closes : List α) :
    (feed length closes).Follows closes := by
  induction closes using List.reverseRecOn with
  | nil => exact follows_reset length
  | append_singleton closes close ih =>
    rw [feed_concat]
    exact (ih.update (by rw [length_feed]; exact hlen) close).2

theorem nonneg_feed [IsStrictOrderedRing α] {length : Nat} (hlen : 1 ≤ length) (closes : List α) :
    (feed length closes).Nonneg := by
  induction closes using List.reverseRecOn with
  | nil => exact nonneg_reset length
  | append_singleton closes close ih =>
    rw [feed_concat]
    exact (ih.update (by rw [length_feed]; exact hlen) close).1

end RsiWilder

/-! The column. -/

namespace Backtest

/-- `_rsi`. -/
def checkedRsiValue (avgGain avgLoss : α) : Option α :=
  if avgGain = 0 ∧ avgLoss = 0 then some 50
  else if avgLoss = 0 then some 100
  else if avgGain = 0 then some 0
  else do
    let rs ← checkedDiv avgGain avgLoss
    let share ← checkedDiv 100 (1 + rs)
    some (100 - share)

/-- `wilderLoop`. -/
def checkedWilderLoop (length : Nat) (avgGain avgLoss : α) : List (α × α) → Option (List α)
  | [] => some []
  | (gain, loss) :: rest => do
    let alpha ← checkedDiv ((length : α) - 1) length
    let gainShare ← checkedDiv gain length
    let avgGain := alpha * avgGain + gainShare
    let lossShare ← checkedDiv loss length
    let avgLoss := alpha * avgLoss + lossShare
    let value ← checkedRsiValue avgGain avgLoss
    let values ← checkedWilderLoop length avgGain avgLoss rest
    some (value :: values)

/-- `computeWilderRsi`. -/
def checkedWilderRsi (closes : List α) (length : Nat) : Option (List (Option α) × List Bool) :=
  let n := closes.length
  if n ≤ length then some (List.replicate n none, List.replicate n false)
  else do
    let deltas := Series.steps (fun prev close => close - prev) closes
    let gains := deltas.map (fun d => if 0 < d then d else 0)
    let losses := deltas.map (fun d => if d < 0 then -d else 0)
    let avgGain ← checkedDiv (gains.take length).sum length
    let avgLoss ← checkedDiv (losses.take length).sum length
    let first ← checkedRsiValue avgGain avgLoss
    let others ← checkedWilderLoop length avgGain avgLoss ((gains.zip losses).drop length)
    let values := first :: others
    some (List.replicate length none ++ values.map some,
      List.replicate length false ++ values.map (fun _ => true))

theorem length_wilderLoop (length : Nat) (avgGain avgLoss : α) (rest : List (α × α)) :
    (wilderLoop length avgGain avgLoss rest).length = rest.length := by
  induction rest generalizing avgGain avgLoss with
  | nil => rfl
  | cons pair rest ih =>
    rw [wilderLoop, List.length_cons, List.length_cons, ih]

theorem length_computeWilderRsi (closes : List α) (length : Nat) :
    (computeWilderRsi closes length).1.length = closes.length ∧
      (computeWilderRsi closes length).2.length = closes.length := by
  unfold computeWilderRsi
  dsimp only
  split
  · exact ⟨List.length_replicate, List.length_replicate⟩
  · next hlong =>
    simp only [List.length_append, List.length_replicate, List.length_map, List.length_cons,
      length_wilderLoop, List.length_drop, List.length_zip, Series.length_steps]
    omega

variable [IsStrictOrderedRing α]

theorem checkedRsiValue_eq {avgGain avgLoss : α} (hgain : 0 ≤ avgGain) (hloss : 0 ≤ avgLoss) :
    checkedRsiValue avgGain avgLoss = some (rsiValue avgGain avgLoss) :=
  (RsiWilder.computeRsi_mem hgain hloss).1

/-- The averages of the loop are not negative, and it divides by nothing that is zero. -/
theorem checkedWilderLoop_eq {length : Nat} (hlen : 1 ≤ length) {avgGain avgLoss : α}
    (hgain : 0 ≤ avgGain) (hloss : 0 ≤ avgLoss) {rest : List (α × α)}
    (hrest : ∀ pair ∈ rest, 0 ≤ pair.1 ∧ 0 ≤ pair.2) :
    checkedWilderLoop length avgGain avgLoss rest =
      some (wilderLoop length avgGain avgLoss rest) := by
  have hn : (1 : α) ≤ length := Nat.one_le_cast.mpr hlen
  have hpos : (0 : α) < length := lt_of_lt_of_le zero_lt_one hn
  have halpha : 0 ≤ ((length : α) - 1) / length := div_nonneg (sub_nonneg.mpr hn) hpos.le
  induction rest generalizing avgGain avgLoss with
  | nil => rfl
  | cons pair rest ih =>
    obtain ⟨gain, loss⟩ := pair
    obtain ⟨hup, hdown⟩ := hrest (gain, loss) List.mem_cons_self
    have hgain' : 0 ≤ ((length : α) - 1) / length * avgGain + gain / length :=
      add_nonneg (mul_nonneg halpha hgain) (div_nonneg hup hpos.le)
    have hloss' : 0 ≤ ((length : α) - 1) / length * avgLoss + loss / length :=
      add_nonneg (mul_nonneg halpha hloss) (div_nonneg hdown hpos.le)
    have hmore := ih hgain' hloss' (fun q hq => hrest q (List.mem_cons_of_mem _ hq))
    simp only [checkedWilderLoop, checkedDiv_eq _ hpos.ne', Option.bind_eq_bind, Option.bind_some,
      checkedRsiValue_eq hgain' hloss', hmore]
    rfl

theorem checkedWilderRsi_eq {length : Nat} (hlen : 1 ≤ length) (closes : List α) :
    checkedWilderRsi closes length = some (computeWilderRsi closes length) := by
  have hpos : (0 : α) < length := Nat.cast_pos.mpr hlen
  unfold checkedWilderRsi computeWilderRsi
  dsimp only
  split
  · rfl
  · have hgains : ∀ g ∈ (Series.steps (fun prev close => close - prev) closes).map
        (fun d => if 0 < d then d else 0), 0 ≤ g := by
      intro g hg
      obtain ⟨d, -, rfl⟩ := List.mem_map.mp hg
      exact gain_nonneg d
    have hlosses : ∀ l ∈ (Series.steps (fun prev close => close - prev) closes).map
        (fun d => if d < 0 then -d else 0), 0 ≤ l := by
      intro l hl
      obtain ⟨d, -, rfl⟩ := List.mem_map.mp hl
      exact loss_nonneg d
    generalize (Series.steps (fun prev close => close - prev) closes).map
      (fun d => if 0 < d then d else 0) = gains at hgains
    generalize (Series.steps (fun prev close => close - prev) closes).map
      (fun d => if d < 0 then -d else 0) = losses at hlosses
    have hgain : 0 ≤ (gains.take length).sum / (length : α) :=
      div_nonneg (List.sum_nonneg (fun g hg => hgains g (List.mem_of_mem_take hg))) hpos.le
    have hloss : 0 ≤ (losses.take length).sum / (length : α) :=
      div_nonneg (List.sum_nonneg (fun l hl => hlosses l (List.mem_of_mem_take hl))) hpos.le
    have hrest : ∀ pair ∈ (gains.zip losses).drop length, 0 ≤ pair.1 ∧ 0 ≤ pair.2 := by
      rintro ⟨g, l⟩ hmem
      have hzip := List.mem_of_mem_drop hmem
      exact ⟨hgains g (List.of_mem_zip hzip).1, hlosses l (List.of_mem_zip hzip).2⟩
    simp only [checkedDiv_eq _ hpos.ne', Option.bind_eq_bind, Option.bind_some,
      checkedRsiValue_eq hgain hloss, checkedWilderLoop_eq hlen hgain hloss hrest]

/-- **Wilder's RSI, incremental and batch.** At every index the indicator and the column are ready
    together, from index `length` on, with the same value, a number from 0 to 100. The averages
    of the indicator are not negative, and neither program divides by zero. -/
theorem rsi_incremental_batch {length : Nat} (hlen : 1 ≤ length) (closes : List α) {k : Nat}
    {close : α} (hk : closes[k]? = some close) :
    let i := RsiWilder.feed length (closes.take k)
    let out := (i.update close).1
    (computeWilderRsi closes length).2[k]? = some out.ready ∧
    (computeWilderRsi closes length).1[k]? = some out.asOptional ∧
    (out.ready = true ↔ length ≤ k) ∧
    (i.update close).2.Nonneg ∧
    i.checkedUpdate close = some (i.update close) ∧
    checkedWilderRsi closes length = some (computeWilderRsi closes length) ∧
    (out.ready = true → 0 ≤ out.v ∧ out.v ≤ 100) := by
  intro i out
  obtain ⟨hlt, hget⟩ := List.getElem?_eq_some_iff.mp hk
  have htake : closes.take k ++ [close] = closes.take (k + 1) := by
    rw [← hget]
    exact List.take_concat_get' closes k hlt
  have hfollows := RsiWilder.follows_feed hlen (closes.take k)
  have hnonneg := RsiWilder.nonneg_feed hlen (closes.take k)
  have hlength : i.length = length := RsiWilder.length_feed length (closes.take k)
  have hlen' : 1 ≤ i.length := hlength.symm ▸ hlen
  have hupdate := (hfollows.update hlen' close).1
  rw [htake, show (RsiWilder.feed length (closes.take k)).length = length from hlength] at hupdate
  have hout : out = rsiAt length (closes.take (k + 1)) := hupdate
  obtain ⟨hvalue, hready⟩ := computeWilderRsi_row closes length hlt
  obtain ⟨hlength1, hlength2⟩ := length_computeWilderRsi closes length
  obtain ⟨hnext, hchecked⟩ := hnonneg.update hlen' close
  have htakelen : (closes.take (k + 1)).length = k + 1 := by
    rw [List.length_take]
    omega
  refine ⟨?_, ?_, ?_, hnext, hchecked, checkedWilderRsi_eq hlen closes, ?_⟩
  · rw [hout, ← hready, List.getD, List.getElem?_eq_getElem (by omega), Option.getD_some]
  · rw [hout, ← hvalue, List.getD, List.getElem?_eq_getElem (by omega), Option.getD_some]
  · rw [hout, rsiAt, htakelen]
    split
    · exact iff_of_true rfl (by omega)
    · exact iff_of_false Bool.false_ne_true (by omega)
  · intro hisready
    -- The value is computed from the averages that the indicator now has.
    have hfollows' := (hfollows.update hlen' close).2
    have hlong : length < (closes.take (k + 1)).length := by
      by_contra hshort
      rw [hout, rsiAt, if_neg hshort] at hisready
      cases hisready
    have hlong' : (i.update close).2.length < (closes.take k ++ [close]).length := by
      rw [RsiWilder.update_length, hlength, htake]
      exact hlong
    have hgain := hfollows'.avgGain hlong'
    have hloss := hfollows'.avgLoss hlong'
    rw [htake, RsiWilder.update_length,
      show (RsiWilder.feed length (closes.take k)).length = length from hlength] at hgain hloss
    rw [hout, rsiAt, if_pos hlong, ← hgain, ← hloss]
    exact (RsiWilder.computeRsi_mem hnext.avgGain hnext.avgLoss).2

theorem rsi_incremental_batch_rising :
    (computeWilderRsi ([1, 2] : List ℚ) 1).2[1]? =
      some ((RsiWilder.feed 1 [1]).update (2 : ℚ)).1.ready :=
  (rsi_incremental_batch le_rfl ([1, 2] : List ℚ) (k := 1) rfl).1

end Backtest
end CoinBot
