import CoinBot.Backtest.CandleRsiBacktest
import CoinBot.Trading.IndicatorHistory
import Mathlib.Data.List.ReduceOption

/- The columns of the backtest, row by row.

   A column is computed over the whole series, but its value at row `i` depends on the
   closes up to that row only: it is the value an indicator returns when it is given those
   closes one by one (`rsiAt`, `closeAt`, `volatilityAt`). -/
namespace CoinBot.Backtest

variable {α : Type} [Field α] [LinearOrder α]

/-! RSI. -/

theorem rsiValue_eq (avgGain avgLoss : α) :
    rsiValue avgGain avgLoss = RsiWilder.computeRsi avgGain avgLoss := rfl

omit [LinearOrder α] in
theorem smoothing_eq (length : Nat) (avg x : α) :
    ((length : α) - 1) / length * avg + x / length = Series.smoothStep length avg x := by
  rw [Series.smoothStep]
  ring

/-- The values of the loop, with the seed as the first of them. -/
theorem getElem?_wilderLoop (length : Nat) (avgGain avgLoss : α) (rest : List (α × α)) {j : Nat}
    (hj : j ≤ rest.length) :
    (rsiValue avgGain avgLoss :: wilderLoop length avgGain avgLoss rest)[j]? =
      some (rsiValue
        (((rest.take j).map Prod.fst).foldl (Series.smoothStep length) avgGain)
        (((rest.take j).map Prod.snd).foldl (Series.smoothStep length) avgLoss)) := by
  induction rest generalizing avgGain avgLoss j with
  | nil =>
    obtain rfl : j = 0 := Nat.le_zero.mp hj
    rfl
  | cons pair rest ih =>
    cases j with
    | zero => rfl
    | succ j =>
      have hmore := ih (Series.smoothStep length avgGain pair.1)
        (Series.smoothStep length avgLoss pair.2) (Nat.le_of_succ_le_succ hj)
      rw [List.getElem?_cons_succ, wilderLoop, smoothing_eq, smoothing_eq]
      exact hmore

omit [LinearOrder α] in
/-- The averages at row `length + j`, from the deltas of the whole series. -/
theorem smoothed_take (length j : Nat) (xs : List α) :
    Series.smoothed length (xs.take (length + j)) =
      ((xs.drop length).take j).foldl (Series.smoothStep length) ((xs.take length).sum / length) := by
  rw [Series.smoothed, List.drop_take, List.take_take, Nat.add_sub_cancel_left,
    Nat.min_eq_left (Nat.le_add_right _ _)]

theorem gains_take (closes : List α) (n : Nat) :
    gains (closes.take (n + 1)) = (gains closes).take n := (Series.take_steps _ _ _).symm

theorem losses_take (closes : List α) (n : Nat) :
    losses (closes.take (n + 1)) = (losses closes).take n := (Series.take_steps _ _ _).symm

omit [LinearOrder α] in
theorem changes_take (closes : List α) (n : Nat) :
    changes (closes.take (n + 1)) = (changes closes).take n := (Series.take_steps _ _ _).symm

theorem deltas_gains (closes : List α) :
    (Series.steps (fun prev close => close - prev) closes).map (fun d => if 0 < d then d else 0) =
      gains closes := by
  rw [Series.steps, List.map_zipWith]
  rfl

theorem deltas_losses (closes : List α) :
    (Series.steps (fun prev close => close - prev) closes).map (fun d => if d < 0 then -d else 0) =
      losses closes := by
  rw [Series.steps, List.map_zipWith]
  rfl

theorem getD_padded {β : Type} (pad : β) {i n : Nat} (h : i < n) (values : List β) :
    (List.replicate n pad ++ values).getD i pad = pad := by
  have hi : i < (List.replicate n pad).length := by
    rw [List.length_replicate]
    exact h
  rw [List.getD, List.getElem?_append_left hi, List.getElem?_replicate_of_lt h, Option.getD_some]

/-- The value of the loop for the row `length + j` of the table is that of the smoothed deltas. -/
theorem wilderLoop_row (closes : List α) (length : Nat) {j : Nat}
    (h : length + j < closes.length) :
    (rsiValue (((gains closes).take length).sum / length)
        (((losses closes).take length).sum / length) ::
      wilderLoop length (((gains closes).take length).sum / length)
        (((losses closes).take length).sum / length)
        (((gains closes).zip (losses closes)).drop length))[j]? =
      some (rsiValue (Series.smoothed length ((gains closes).take (length + j)))
        (Series.smoothed length ((losses closes).take (length + j)))) := by
  have hzip : j ≤ (((gains closes).zip (losses closes)).drop length).length := by
    rw [List.length_drop, List.length_zip, length_gains, length_losses]
    omega
  have hvalue := getElem?_wilderLoop length (((gains closes).take length).sum / length)
    (((losses closes).take length).sum / length) (((gains closes).zip (losses closes)).drop length)
    hzip
  have hfst : (((gains closes).zip (losses closes)).drop length).map Prod.fst =
      (gains closes).drop length := by
    rw [List.map_drop, List.map_fst_zip (by simp)]
  have hsnd : (((gains closes).zip (losses closes)).drop length).map Prod.snd =
      (losses closes).drop length := by
    rw [List.map_drop, List.map_snd_zip (by simp)]
  rwa [List.map_take, List.map_take, hfst, hsnd, ← smoothed_take, ← smoothed_take] at hvalue

/-- The columns `rsi` and `rsi_ready` at a row. -/
theorem computeWilderRsi_row (closes : List α) (length : Nat) {i : Nat} (hi : i < closes.length) :
    (computeWilderRsi closes length).1.getD i none =
        (rsiAt length (closes.take (i + 1))).asOptional ∧
      (computeWilderRsi closes length).2.getD i false =
        (rsiAt length (closes.take (i + 1))).ready := by
  have htake : (closes.take (i + 1)).length = i + 1 := by
    rw [List.length_take]
    omega
  by_cases hshort : i < length
  · -- The seed is not complete: NaN.
    have hnot : rsiAt length (closes.take (i + 1)) = .notReady := by
      rw [rsiAt, if_neg]
      omega
    rw [hnot]
    unfold computeWilderRsi
    dsimp only
    split
    · simp [List.getD, hi, Value.asOptional, Value.notReady]
    · exact ⟨getD_padded _ hshort _, getD_padded _ hshort _⟩
  · -- Behind the seed a row of the table is one of the loop.
    obtain ⟨j, rfl⟩ := Nat.exists_eq_add_of_le (Nat.le_of_not_lt hshort)
    have hlong : ¬ closes.length ≤ length := by omega
    have hready : rsiAt length (closes.take (length + j + 1)) =
        { ready := true
          v := RsiWilder.computeRsi (Series.smoothed length ((gains closes).take (length + j)))
            (Series.smoothed length ((losses closes).take (length + j))) } := by
      rw [rsiAt, if_pos (by omega), gains_take, losses_take]
    have hvalue := wilderLoop_row closes length hi
    rw [hready]
    unfold computeWilderRsi
    dsimp only
    rw [if_neg hlong, deltas_gains, deltas_losses]
    dsimp only
    constructor
    · rw [List.getD, List.getElem?_append_right (by simp), List.length_replicate,
        Nat.add_sub_cancel_left, List.getElem?_map, hvalue, rsiValue_eq]
      rfl
    · rw [List.getD, List.getElem?_append_right (by simp), List.length_replicate,
        Nat.add_sub_cancel_left, List.getElem?_map, hvalue]
      rfl

/-! Trend. -/

omit [Field α] [LinearOrder α] in
theorem getElem?_shift (xs : List α) (n : Nat) {i : Nat} (hi : i < xs.length) :
    (shift xs n)[i]? = some (if n ≤ i then xs[i - n]? else none) := by
  rw [shift, List.getElem?_take_of_lt hi]
  split
  · next h =>
    rw [List.getElem?_append_right (by simpa using h), List.length_replicate, List.getElem?_map,
      List.getElem?_eq_getElem (by omega)]
    rfl
  · next h =>
    rw [List.getElem?_append_left (by simpa using h),
      List.getElem?_replicate_of_lt (Nat.lt_of_not_le h)]

omit [LinearOrder α] in
/-- The close `n` rows back, as the window of the strategy sees it. -/
theorem closeAt_take (closes : List α) (n : Nat) {i : Nat} (hi : i < closes.length) :
    (closeAt n (closes.take (i + 1))).asOptional = if n ≤ i then closes[i - n]? else none := by
  have htake : (closes.take (i + 1)).length = i + 1 := by
    rw [List.length_take]
    omega
  have hback : (closes.take (i + 1)).reverse[n]? = if n ≤ i then closes[i - n]? else none := by
    split
    · next h =>
      rw [List.getElem?_reverse (by omega), htake, List.getElem?_take_of_lt (by omega),
        Nat.add_sub_cancel]
    · next h =>
      rw [List.getElem?_eq_none]
      rw [List.length_reverse]
      omega
  rw [← hback, closeAt]
  cases (closes.take (i + 1)).reverse[n]? with
  | none => rfl
  | some v => rfl

theorem computeTrendStrength_row (closes : List α) (n : Nat) {i : Nat} (hi : i < closes.length) :
    (computeTrendStrength closes n).1.getD i 0 =
        (match (closeAt n (closes.take (i + 1))).asOptional with
        | none => 0
        | some old => |closes[i] - old| / old) ∧
      (computeTrendStrength closes n).2.getD i false =
        (closeAt n (closes.take (i + 1))).asOptional.isSome := by
  have hshift := getElem?_shift closes n hi
  rw [closeAt_take closes n hi]
  generalize hold : (if n ≤ i then closes[i - n]? else none) = old at hshift
  have hcell : (List.zipWith (fun close old => old.map (fun o => |close - o| / o)) closes
      (shift closes n))[i]? = some (old.map (fun o => |closes[i] - o| / o)) := by
    rw [List.getElem?_zipWith, hshift, List.getElem?_eq_getElem hi]
  refine ⟨?_, ?_⟩
  · rw [computeTrendStrength, List.getD, List.getElem?_map, hcell]
    cases old with
    | none => rfl
    | some o => rfl
  · rw [computeTrendStrength, List.getD, List.getElem?_map, hshift]
    rfl

/-! Volatility. -/

omit [LinearOrder α] in
theorem pctChange_eq {closes : List α} (hne : ∀ x ∈ closes, x ≠ 0) {first : α} {rest : List α}
    (hcons : closes = first :: rest) : pctChange closes = none :: (changes closes).map some := by
  subst hcons
  have hzip : ∀ (xs : List α) (a : α), (∀ x ∈ a :: xs, x ≠ 0) →
      List.zipWith (fun close (prev : Option α) => prev.map (fun p => close / p - 1)) xs
        (((a :: xs).map some).take xs.length) =
      (List.zipWith (fun prev close => (close - prev) / prev) (a :: xs) xs).map some := by
    intro xs
    induction xs with
    | nil => exact fun _ _ => rfl
    | cons x xs ih =>
      intro a hnz
      have hmore := ih x (fun y hy => hnz y (List.mem_cons_of_mem _ hy))
      have ha : a ≠ 0 := hnz a List.mem_cons_self
      simp only [List.map_cons, List.length_cons, List.take_succ_cons, List.zipWith_cons_cons,
        Option.map_some] at hmore ⊢
      rw [hmore, sub_div, div_self ha]
  have hrest := hzip rest first hne
  rw [pctChange, shift]
  simp only [List.replicate_one, List.singleton_append, List.length_cons, List.take_succ_cons,
    List.zipWith_cons_cons, Option.map_none]
  rw [hrest]
  rfl

omit [Field α] [LinearOrder α] in
theorem reduceOption_map_some (xs : List α) : (xs.map some).reduceOption = xs := by
  induction xs with
  | nil => rfl
  | cons x xs ih => rw [List.map_cons, List.reduceOption_cons_of_some, ih]

omit [Field α] [LinearOrder α] in
/-- Until the window is full it has a cell without a change rate. -/
theorem seen_of_lt {rates : List α} {window : Nat} (h : rates.length < window) :
    ((none :: rates.map some).rtake window).reduceOption = rates := by
  have hlen : (none :: rates.map some).length ≤ window := by
    rw [List.length_cons, List.length_map]
    exact h
  rw [Series.rtake_of_length_le hlen, List.reduceOption_cons_of_none, reduceOption_map_some]

omit [Field α] [LinearOrder α] in
theorem seen_of_le {rates : List α} {window : Nat} (h : window ≤ rates.length) :
    ((none :: rates.map some).rtake window).reduceOption = rates.rtake window := by
  have hdrop : rates.length + 1 - window = rates.length - window + 1 := by omega
  rw [List.rtake, List.length_cons, List.length_map, hdrop, List.drop_succ_cons, ← List.map_drop,
    reduceOption_map_some, List.rtake]

omit [LinearOrder α] in
theorem getElem?_rollingStd (sqrt : α → α) {closes : List α} (hne : ∀ x ∈ closes, x ≠ 0)
    (window : Nat) {i : Nat} (hi : i < closes.length) :
    (rollingStd sqrt window (pctChange closes))[i]? =
      some (if i < window then none
        else some (sqrt (Series.variance (((changes closes).take i).rtake window)))) := by
  obtain ⟨first, rest, hcons⟩ := List.exists_cons_of_length_pos (Nat.zero_lt_of_lt hi)
  have hpct := pctChange_eq hne hcons
  have hlen : (pctChange closes).length = closes.length := by
    rw [hpct, List.length_cons, List.length_map, length_changes]
    omega
  have hrates : ((changes closes).take i).length = i := by
    rw [List.length_take, length_changes]
    omega
  rw [rollingStd, List.getElem?_map, List.getElem?_range (by omega), Option.map_some]
  congr 1
  rw [hpct, List.take_succ_cons, ← List.map_take]
  by_cases hshort : i < window
  · rw [seen_of_lt (by omega)]
    dsimp only
    rw [hrates, if_pos hshort, if_pos hshort]
  · rw [seen_of_le (by omega)]
    dsimp only
    rw [Series.length_rtake, hrates, if_neg (by omega), if_neg hshort]

omit [LinearOrder α] in
theorem computeVolatility_row (sqrt : α → α) {closes : List α} (hne : ∀ x ∈ closes, x ≠ 0)
    {window : Nat} (hwindow : 2 < window) {i : Nat} (hi : i < closes.length) :
    (computeVolatility sqrt closes window).1.getD i 0 =
        (volatilityAt sqrt window (closes.take (i + 1))).v ∧
      (computeVolatility sqrt closes window).2.getD i false =
        (volatilityAt sqrt window (closes.take (i + 1))).ready := by
  have htake : (closes.take (i + 1)).length = i + 1 := by
    rw [List.length_take]
    omega
  have hcell := getElem?_rollingStd sqrt hne window hi
  rw [volatilityAt, htake, changes_take, if_neg (by omega : ¬ window ≤ 2)]
  rw [computeVolatility]
  dsimp only
  rw [List.getD, List.getD, List.getElem?_map, List.getElem?_map, hcell]
  by_cases hshort : i < window
  · rw [if_pos hshort, if_neg (by omega)]
    exact ⟨rfl, rfl⟩
  · rw [if_neg hshort, if_pos (by omega)]
    exact ⟨rfl, rfl⟩

end CoinBot.Backtest
