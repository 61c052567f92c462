import CoinBot.Api.UpbitExchangeRestClient

/- The quantities of an order, as they are sent.

   `formatDecimalFloor` writes the value rounded down and then takes zeros from the end
   of the text, if it has a point at all. What is left is the shortest numeral of the
   value rounded down (`formatDecimalFloor_eq`). -/
namespace CoinBot.UpbitExchangeRestClient

open Decimal (Numeral fractionDigits digitsWithPoint)

/-! The text of a whole number of digits. -/

theorem roundHalfEven_natCast (n : Nat) : Decimal.roundHalfEven (n : ℚ) = n := by
  simp [Decimal.roundHalfEven]

theorem fixed_div (d n : Nat) :
    Decimal.fixed d ((n : ℚ) / 10 ^ d) = String.ofList (digitsWithPoint d n) := by
  have hpos : (0 : ℚ) ≤ (n : ℚ) / 10 ^ d := by positivity
  have hscale : (n : ℚ) / 10 ^ d * 10 ^ d = n := by field_simp
  unfold Decimal.fixed
  rw [if_neg (not_lt.mpr hpos), abs_of_nonneg hpos, hscale, roundHalfEven_natCast]
  rfl

theorem digitsWithPoint_zero (n : Nat) : digitsWithPoint 0 n = Nat.toDigits 10 n := by
  simp [digitsWithPoint]

theorem digitsWithPoint_pos {d : Nat} (h : d ≠ 0) (n : Nat) :
    digitsWithPoint d n = Nat.toDigits 10 (n / 10 ^ d) ++ '.' :: fractionDigits d n := by
  simp [digitsWithPoint, fractionDigits, h]

theorem point_not_mem {digits : List Char} (h : ∀ c ∈ digits, c.isDigit = true) :
    '.' ∉ digits := by
  intro hpoint
  exact absurd (h '.' hpoint) (by decide)

/-! Zeros are taken from the end. -/

/-- The loop stops at the point at the latest. -/
theorem dropWhile_zeros (whole fraction : List Char) :
    (((whole ++ '.' :: fraction).reverse.dropWhile (· == '0')).reverse) =
      whole ++ '.' :: fraction.rdropWhile (· == '0') := by
  show (whole ++ '.' :: fraction).rdropWhile (· == '0') = _
  induction fraction using List.reverseRecOn with
  | nil => exact List.rdropWhile_concat_neg _ whole '.' (by decide)
  | append_singleton fraction c ih =>
    rw [← List.cons_append, ← List.append_assoc]
    rw [List.rdropWhile_concat, List.rdropWhile_concat]
    split
    · exact ih
    · simp

theorem dropPoint (whole : List Char) {fraction : List Char} (h : '.' ∉ fraction) :
    (if (whole ++ '.' :: fraction).getLast? = some '.' then (whole ++ '.' :: fraction).dropLast
      else whole ++ '.' :: fraction) =
    if fraction = [] then whole else whole ++ '.' :: fraction := by
  cases fraction with
  | nil => simp
  | cons c cs =>
    have hlast : (whole ++ '.' :: c :: cs).getLast? ≠ some '.' := by
      intro hlast
      rw [List.getLast?_append, List.getLast?_cons_cons] at hlast
      refine h (List.mem_of_getLast? ?_)
      simpa using hlast
    rw [if_neg hlast, if_neg (List.cons_ne_nil c cs)]

/-- What is sent is the shortest numeral of the value rounded down. -/
theorem formatDecimalFloor_eq {v : ℚ} (hv : 0 ≤ v) (d : Nat) :
    formatDecimalFloor v d = String.ofList (Numeral.shortest d ⌊v * 10 ^ d⌋₊).render := by
  have hfloor : (⌊v * 10 ^ d⌋ : ℚ) = (⌊v * 10 ^ d⌋₊ : ℚ) := by
    rw [← Int.natCast_floor_eq_floor (by positivity)]
    rfl
  generalize ⌊v * 10 ^ d⌋₊ = n at hfloor
  have htext : (Decimal.fixed d (⌊v * 10 ^ d⌋ / 10 ^ d)).toList = digitsWithPoint d n := by
    rw [hfloor, fixed_div, String.toList_ofList]
  unfold formatDecimalFloor
  simp only [htext]
  by_cases hd : d = 0
  · subst hd
    have hnil : Nat.toDigits 10 n ≠ [] := Nat.toDigits_ne_nil
    rw [digitsWithPoint_zero, if_neg (point_not_mem Decimal.isDigit_toDigits), if_neg hnil]
    simp [Numeral.render, Numeral.shortest, fractionDigits]
  · have hmem : '.' ∈ digitsWithPoint d n := by simp [digitsWithPoint_pos hd]
    have hloop : ((digitsWithPoint d n).reverse.dropWhile (· == '0')).reverse =
        (Numeral.shortest d n).whole ++ '.' :: (Numeral.shortest d n).fraction := by
      rw [digitsWithPoint_pos hd]
      exact dropWhile_zeros _ _
    have hpoint := dropPoint (Numeral.shortest d n).whole
      (point_not_mem (Numeral.shortest d n).fraction_digits)
    have hnil : (Numeral.shortest d n).render ≠ [] := Numeral.render_ne_nil _
    rw [← Numeral.render] at hpoint
    rw [if_pos hmem]
    simp only [hloop, hpoint, if_neg hnil]

/-! What a quantity denotes. -/

theorem floor_div_pow {v : ℚ} (hv : 0 ≤ v) (d : Nat) : ⌊v * 10 ^ d⌋₊ / 10 ^ d = ⌊v⌋₊ := by
  have hcancel := Int.mul_natCast_floor_div_cancel (pow_ne_zero d (by decide : 10 ≠ 0)) v
  push_cast at hcancel
  refine Int.natCast_inj.mp ?_
  push_cast
  rw [Int.natCast_floor_eq_floor (by positivity), Int.natCast_floor_eq_floor hv]
  exact hcancel

/-- The numeral that is sent denotes the value rounded down. -/
theorem value_shortest_floor {v : ℚ} (hv : 0 ≤ v) (d : Nat) :
    (Numeral.shortest d ⌊v * 10 ^ d⌋₊).value = ⌊v * 10 ^ d⌋ / 10 ^ d := by
  rw [Numeral.value_shortest, ← Int.natCast_floor_eq_floor (by positivity)]
  rfl

theorem floor_scaled_le (v : ℚ) (d : Nat) : ⌊v * 10 ^ d⌋ / 10 ^ d ≤ v := by
  have hpow : (0 : ℚ) < 10 ^ d := by positivity
  rw [div_le_iff₀ hpow]
  exact Int.floor_le (v * 10 ^ d)

theorem sub_floor_scaled_lt (v : ℚ) (d : Nat) : v - ⌊v * 10 ^ d⌋ / 10 ^ d < 1 / 10 ^ d := by
  have hpow : (0 : ℚ) < 10 ^ d := by positivity
  have hlt : v * 10 ^ d < ⌊v * 10 ^ d⌋ + 1 := Int.lt_floor_add_one (v * 10 ^ d)
  rw [sub_lt_iff_lt_add, ← add_div, lt_div_iff₀ hpow]
  linarith

/-- **Quantities are rounded down exactly.** For every value that is not negative and every number
    of digits, the text is a plain numeral with at most that many digits behind the point; it
    denotes the value rounded down, so that it does not exceed the value and falls short of it by
    less than one unit of the last digit; and the digits in front of the point are all there. -/
theorem formatDecimalFloor_floors {v : ℚ} (hv : 0 ≤ v) (d : Nat) :
    ∃ n : Numeral d, formatDecimalFloor v d = String.ofList n.render ∧
      Decimal.parse n.render = some n.value ∧
      n.value = ⌊v * 10 ^ d⌋ / 10 ^ d ∧ n.value ≤ v ∧ v - n.value < 1 / 10 ^ d ∧
      n.whole = Nat.toDigits 10 ⌊v⌋₊ := by
  have hvalue := value_shortest_floor hv d
  refine ⟨Numeral.shortest d ⌊v * 10 ^ d⌋₊, formatDecimalFloor_eq hv d, Numeral.parse_render _,
    hvalue, ?_, ?_, ?_⟩
  · rw [hvalue]
    exact floor_scaled_le v d
  · rw [hvalue]
    exact sub_floor_scaled_lt v d
  · show Nat.toDigits 10 (⌊v * 10 ^ d⌋₊ / 10 ^ d) = Nat.toDigits 10 ⌊v⌋₊
    rw [floor_div_pow hv]

/-- A hundred keeps its zeros. -/
theorem formatDecimalFloor_floors_hundred :
    ∃ n : Numeral 8, formatDecimalFloor 100 8 = String.ofList n.render ∧
      n.value = 100 ∧ n.whole = "100".toList := by
  obtain ⟨n, htext, -, hvalue, -, -, hwhole⟩ := formatDecimalFloor_floors (v := 100) (by norm_num) 8
  refine ⟨n, htext, ?_, ?_⟩
  · rw [hvalue]
    norm_num
  · rw [hwhole]
    norm_num
    decide

/-! What an order asks for. -/

theorem parse_formatDecimalFloor {v : ℚ} (hv : 0 ≤ v) (d : Nat) :
    Decimal.parse (formatDecimalFloor v d).toList = some (⌊v * 10 ^ d⌋ / 10 ^ d : ℚ) := by
  rw [formatDecimalFloor_eq hv, String.toList_ofList, Numeral.parse_render,
    value_shortest_floor hv]

theorem volumeField_eq {request : OrderRequest ℚ} {ordType text : String}
    {fields : OrderPayloadFields} (h : buildOrderPayloadFields request ordType = .ok fields)
    (htext : fields.volumeField = some text) :
    ∃ volume, request.size = .volume volume ∧ 0 < volume ∧ formatDecimalFloor volume 8 = text := by
  unfold buildOrderPayloadFields at h
  split at h
  · -- A limit order has a price and a volume.
    split at h
    · cases h
    · cases h
    · next price volume _ hsize =>
      split at h
      · cases h
      · next hpos =>
        cases h
        exact ⟨volume, hsize, not_le.mp hpos, Option.some.inj htext⟩
  · split at h
    · -- A market buy has an amount.
      split at h
      · cases h
      · split at h
        · cases h
        · cases h
          cases htext
    · split at h
      · cases h
      · next volume hsize =>
        split at h
        · cases h
        · next hpos =>
          cases h
          exact ⟨volume, hsize, not_le.mp hpos, Option.some.inj htext⟩

theorem volumeField_le {request : OrderRequest ℚ} {ordType text : String}
    {fields : OrderPayloadFields} (h : buildOrderPayloadFields request ordType = .ok fields)
    (htext : fields.volumeField = some text) :
    ∃ volume sent, request.size = .volume volume ∧ Decimal.parse text.toList = some sent ∧
      sent ≤ volume := by
  obtain ⟨volume, hsize, hpos, rfl⟩ := volumeField_eq h htext
  exact ⟨volume, _, hsize, parse_formatDecimalFloor (le_of_lt hpos) 8, floor_scaled_le volume 8⟩

end CoinBot.UpbitExchangeRestClient
