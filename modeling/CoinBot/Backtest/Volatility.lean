import CoinBot.Backtest.BatchIndicators
import Mathlib.Analysis.Real.Sqrt

/- The rolling deviation, close by close and over a whole series, on the real numbers.

   `ChangeVolatilityIndicator` keeps a sum and a sum of squares; the column of the backtest
   takes the deviation of each window anew. Both are the population deviation of the last
   returns for every window of at least 3. For a window of 2, which the dashboard offers,
   `stdev_` returns 0 whatever the returns are. -/
namespace CoinBot

namespace Series

theorem variance_pair {α : Type*} [Field α] [LinearOrder α] [IsStrictOrderedRing α] (a b : α) :
    variance [a, b] = ((a - b) / 2) * ((a - b) / 2) := by
  have hlen : (([a, b] : List α).length : α) = 2 := by simp
  simp only [variance, mean, hlen, List.map_cons, List.map_nil, List.sum_cons, List.sum_nil]
  ring

theorem variance_pair_eq_zero {α : Type*} [Field α] [LinearOrder α] [IsStrictOrderedRing α]
    {a b : α} : variance [a, b] = 0 ↔ a = b := by
  rw [variance_pair, mul_self_eq_zero, div_eq_zero_iff, or_iff_left two_ne_zero, sub_eq_zero]

end Series

namespace ChangeVolatilityIndicator

variable {α : Type} [Field α] [LinearOrder α]

/-- A new indicator that was given these closes. -/
def feed (sqrt : α → α) (length : Nat) (closes : List α) : ChangeVolatilityIndicator α :=
  closes.foldl (fun i close => (i.update sqrt close).2) (reset length)

theorem feed_concat (sqrt : α → α) (length : Nat) (closes : List α) (close : α) :
    feed sqrt length (closes ++ [close]) = ((feed sqrt length closes).update sqrt close).2 := by
  rw [feed, List.foldl_append]
  rfl

theorem length_feed (sqrt : α → α) {length : Nat} (hlen : 2 ≤ length) (closes : List α) :
    (feed sqrt length closes).length = length := by
  induction closes using List.reverseRecOn with
  | nil => exact if_neg (Nat.not_lt_of_le hlen)
  | append_singleton closes close ih => rw [feed_concat, update_length, ih]

theorem follows_feed [IsStrictOrderedRing α] (sqrt : α → α) {length : Nat} (hlen : 2 ≤ length)
    {closes : List α} (hne : ∀ x ∈ closes, x ≠ 0) : (feed sqrt length closes).Follows closes := by
  induction closes using List.reverseRecOn with
  | nil => exact follows_reset length
  | append_singleton closes close ih =>
    have hne' : ∀ x ∈ closes, x ≠ 0 := fun x hx => hne x (List.mem_append_left _ hx)
    rw [feed_concat]
    exact ((ih hne').update sqrt (by rw [length_feed sqrt hlen]; omega) hne' close).2

end ChangeVolatilityIndicator

namespace Backtest

open ChangeVolatilityIndicator (feed)

/-- What the indicator returns at each index of the series: it is ready once the window is full,
    with the population deviation of the returns in it, and so is the column. -/
structure IsRollingStdev (window : Nat) (closes : List ℝ) : Prop where
  ready : ∀ k close, closes[k]? = some close →
    (((feed Real.sqrt window (closes.take k)).update Real.sqrt close).1.ready = true ↔ window ≤ k)
  value : ∀ k close, closes[k]? = some close → window ≤ k →
    ((feed Real.sqrt window (closes.take k)).update Real.sqrt close).1.v =
      Real.sqrt (Series.variance ((changes (closes.take (k + 1))).rtake window))
  column : ∀ k close, closes[k]? = some close → window ≤ k →
    (computeVolatility Real.sqrt closes window).1[k]? =
      some ((feed Real.sqrt window (closes.take k)).update Real.sqrt close).1.v ∧
    (computeVolatility Real.sqrt closes window).2[k]? = some true

variable {window : Nat} {closes : List ℝ}

theorem update_feed (hwindow : 2 ≤ window) (hpos : ∀ x ∈ closes, 0 < x) {k : Nat} {close : ℝ}
    (hk : closes[k]? = some close) :
    ((feed Real.sqrt window (closes.take k)).update Real.sqrt close).1 =
      volatilityAt Real.sqrt window (closes.take (k + 1)) := by
  obtain ⟨hlt, hget⟩ := List.getElem?_eq_some_iff.mp hk
  have htake : closes.take k ++ [close] = closes.take (k + 1) := by
    rw [← hget]
    exact List.take_concat_get' closes k hlt
  have hne : ∀ x ∈ closes.take k, x ≠ 0 := fun x hx => (hpos x (List.mem_of_mem_take hx)).ne'
  have hlen := ChangeVolatilityIndicator.length_feed Real.sqrt hwindow (closes.take k)
  have hfollows := ChangeVolatilityIndicator.follows_feed Real.sqrt hwindow hne
  have hupdate := (hfollows.update Real.sqrt (by rw [hlen]; omega) hne close).1
  rw [htake, hlen] at hupdate
  exact hupdate

theorem rtake_two {k : Nat} {r r' : ℝ} (hr : (changes closes)[k]? = some r)
    (hr' : (changes closes)[k + 1]? = some r') :
    (changes (closes.take (k + 3))).rtake 2 = [r, r'] := by
  obtain ⟨hlt, hget⟩ := List.getElem?_eq_some_iff.mp hr
  obtain ⟨hlt', hget'⟩ := List.getElem?_eq_some_iff.mp hr'
  have hlen : ((changes closes).take (k + 2)).length = k + 2 := by
    rw [List.length_take]
    omega
  rw [changes_take, List.rtake, hlen, Nat.add_sub_cancel, List.drop_take, Nat.add_sub_cancel_left,
    List.drop_eq_getElem_cons hlt, List.drop_eq_getElem_cons hlt', hget, hget']
  rfl

/-- **When the volatility is the deviation of the returns.** For a window from 2 on and closes
    above 0: unless the window is 2, or else exactly when all returns are equal. -/
theorem isRollingStdev_iff (hwindow : 2 ≤ window) (hpos : ∀ x ∈ closes, 0 < x) :
    IsRollingStdev window closes ↔ window ≠ 2 ∨ List.IsChain (· = ·) (changes closes) := by
  have hready : ∀ k close, closes[k]? = some close →
      (((feed Real.sqrt window (closes.take k)).update Real.sqrt close).1.ready = true ↔
        window ≤ k) := by
    intro k close hk
    obtain ⟨hlt, -⟩ := List.getElem?_eq_some_iff.mp hk
    rw [update_feed hwindow hpos hk, volatilityAt, List.length_take]
    split
    · exact iff_of_true rfl (by omega)
    · exact iff_of_false Bool.false_ne_true (by omega)
  have hvalue : ∀ k close, closes[k]? = some close → window ≤ k →
      ((feed Real.sqrt window (closes.take k)).update Real.sqrt close).1.v =
        if window ≤ 2 then 0
        else Real.sqrt (Series.variance ((changes (closes.take (k + 1))).rtake window)) := by
    intro k close hk hle
    obtain ⟨hlt, -⟩ := List.getElem?_eq_some_iff.mp hk
    rw [update_feed hwindow hpos hk, volatilityAt, List.length_take, if_pos (by omega)]
  have hcolumn : ∀ k close, closes[k]? = some close → window ≤ k →
      (computeVolatility Real.sqrt closes window).1[k]? =
        some (Real.sqrt (Series.variance ((changes (closes.take (k + 1))).rtake window))) ∧
      (computeVolatility Real.sqrt closes window).2[k]? = some true := by
    intro k close hk hle
    obtain ⟨hlt, -⟩ := List.getElem?_eq_some_iff.mp hk
    have hcell := getElem?_rollingStd Real.sqrt (fun x hx => (hpos x hx).ne') window hlt
    rw [if_neg (Nat.not_lt_of_le hle)] at hcell
    rw [changes_take, computeVolatility, List.getElem?_map, List.getElem?_map, hcell]
    exact ⟨rfl, rfl⟩
  constructor
  · intro h
    refine or_iff_not_imp_left.mpr (fun htwo => ?_)
    obtain rfl : window = 2 := not_not.mp htwo
    rw [List.isChain_iff_getElem]
    intro j hj
    -- At index `j + 2` the window holds just these two returns, and the indicator says 0.
    have hlt : j + 2 < closes.length := by
      rw [length_changes] at hj
      omega
    have hk : closes[j + 2]? = some closes[j + 2] := List.getElem?_eq_getElem hlt
    have hdev := h.value (j + 2) _ hk (by omega)
    rw [hvalue (j + 2) _ hk (by omega), if_pos le_rfl,
      rtake_two (List.getElem?_eq_getElem (by omega)) (List.getElem?_eq_getElem hj)] at hdev
    exact Series.variance_pair_eq_zero.mp
      ((Real.sqrt_eq_zero (Series.variance_nonneg _)).mp hdev.symm)
  · intro h
    have hdev : ∀ k close, closes[k]? = some close → window ≤ k →
        ((feed Real.sqrt window (closes.take k)).update Real.sqrt close).1.v =
          Real.sqrt (Series.variance ((changes (closes.take (k + 1))).rtake window)) := by
      intro k close hk hle
      rw [hvalue k close hk hle]
      split
      · next hsmall =>
        obtain rfl : window = 2 := le_antisymm hsmall hwindow
        have hchain := List.isChain_iff_getElem.mp (h.resolve_left (fun hne => hne rfl))
        obtain ⟨hlt, -⟩ := List.getElem?_eq_some_iff.mp hk
        obtain ⟨j, rfl⟩ := Nat.exists_eq_add_of_le hle
        have hj : j + 1 < (changes closes).length := by
          rw [length_changes]
          omega
        have hsame := hchain j hj
        rw [Nat.add_comm 2 j, rtake_two (List.getElem?_eq_getElem (by omega))
          (List.getElem?_eq_getElem hj), Series.variance_pair_eq_zero.mpr hsame, Real.sqrt_zero]
      · rfl
    exact
      { ready := hready
        value := hdev
        column := fun k close hk hle => by
          rw [hdev k close hk hle]
          exact hcolumn k close hk hle }

theorem isRollingStdev_iff_three : IsRollingStdev 3 [1, 2, 1, 2] :=
  (isRollingStdev_iff (by decide) (by
    intro x hx
    simp only [List.mem_cons, List.not_mem_nil, or_false] at hx
    rcases hx with rfl | rfl | rfl | rfl <;> norm_num)).mpr (.inl (by decide))

/-- The closes 1, 2, 1: the returns are 1 and -1/2, and the indicator says that they do not
    deviate. -/
theorem not_isRollingStdev :
    ¬ ∀ (window : Nat) (closes : List ℝ), 2 ≤ window → (∀ x ∈ closes, 0 < x) →
      IsRollingStdev window closes := by
  intro h
  have hpos : ∀ x ∈ ([1, 2, 1] : List ℝ), 0 < x := by
    intro x hx
    simp only [List.mem_cons, List.not_mem_nil, or_false] at hx
    rcases hx with rfl | rfl | rfl <;> norm_num
  have hreturns : changes ([1, 2, 1] : List ℝ) = [1, -1 / 2] := by
    norm_num [changes, Series.steps]
  have hdev := (h 2 [1, 2, 1] le_rfl hpos).value 2 1 rfl le_rfl
  rw [update_feed le_rfl hpos rfl] at hdev
  have hlast : ([1, 2, 1] : List ℝ).take 3 = [1, 2, 1] := rfl
  rw [volatilityAt, hlast, if_pos (by decide), if_pos le_rfl, hreturns] at hdev
  have hzero := (Real.sqrt_eq_zero (Series.variance_nonneg _)).mp hdev.symm
  exact absurd (Series.variance_pair_eq_zero.mp hzero) (by norm_num)

end Backtest
end CoinBot
