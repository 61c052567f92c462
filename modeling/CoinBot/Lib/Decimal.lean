import Mathlib.Data.List.DropRight
import Mathlib.Data.Rat.Floor
import Mathlib.Tactic.FieldSimp
import Mathlib.Tactic.Positivity
import Mathlib.Tactic.Ring

/- Decimal text of rationals: as a C++ stream in fixed notation writes it, and as
   `std::from_chars` reads it. A `Numeral` is the shortest plain notation of its value, with a
   bound on its fractional digits; it is read back (`parse_render`). -/
namespace Decimal

/-- The nearest integer, ties to even. -/
def roundHalfEven (q : ℚ) : ℤ :=
  let below := ⌊q⌋
  if q - below < 1 / 2 then below
  else if 1 / 2 < q - below then below + 1
  else if below % 2 = 0 then below else below + 1

/-- `digits` padded with zeros on the left to length `d`. -/
def padLeft (d : Nat) (digits : List Char) : List Char :=
  List.replicate (d - digits.length) '0' ++ digits

/-- `n / 10 ^ d` with exactly `d` fractional digits. -/
def digitsWithPoint (d n : Nat) : List Char :=
  Nat.toDigits 10 (n / 10 ^ d) ++
    if d = 0 then [] else '.' :: padLeft d (Nat.toDigits 10 (n % 10 ^ d))

/-- `std::fixed << std::setprecision(d) << q`. -/
def fixed (d : Nat) (q : ℚ) : String :=
  String.ofList ((if q < 0 then ['-'] else []) ++
    digitsWithPoint d (roundHalfEven (|q| * 10 ^ d)).toNat)

example : fixed 3 (-5 / 4) = "-1.250" := by decide +kernel

/-! Reading. -/

def natOf (digits : List Char) : Nat := Nat.ofDigitChars 10 digits 0

/-- The digits behind a point, and what is behind them. -/
def fractionOf : List Char → List Char × List Char
  | '.' :: cs => (cs.takeWhile Char.isDigit, cs.dropWhile Char.isDigit)
  | cs => ([], cs)

def digitsOnly (cs : List Char) : Option Nat :=
  if cs ≠ [] ∧ cs.all Char.isDigit then some (natOf cs) else none

/-- The exponent at the end of a text, none where something else stands there. -/
def exponentOf : List Char → Option Int
  | [] => some 0
  | letter :: cs =>
    if letter = 'e' ∨ letter = 'E' then
      match cs with
      | '-' :: digits => (digitsOnly digits).map (fun n => -(n : Int))
      | '+' :: digits => (digitsOnly digits).map Int.ofNat
      | digits => (digitsOnly digits).map Int.ofNat
    else none

def parseUnsigned (cs : List Char) : Option ℚ :=
  let whole := cs.takeWhile Char.isDigit
  let (fraction, rest) := fractionOf (cs.dropWhile Char.isDigit)
  if whole ++ fraction = [] then none
  else (exponentOf rest).map fun x : Int =>
    (natOf (whole ++ fraction) : ℚ) * 10 ^ (x - fraction.length)

/-- The number a text denotes, none where the text is not that of a number to its end. -/
def parse : List Char → Option ℚ
  | '-' :: cs => (parseUnsigned cs).map (fun v => -v)
  | cs => parseUnsigned cs

example : parse "-12.50e1".toList = some (-125) := by decide +kernel

/-! Plain numerals. -/

/-- Digits, and behind a point at most `d` more, of which the last is not a zero. -/
structure Numeral (d : Nat) where
  whole : List Char
  fraction : List Char
  whole_ne : whole ≠ []
  whole_digits : ∀ c ∈ whole, c.isDigit = true
  fraction_digits : ∀ c ∈ fraction, c.isDigit = true
  fraction_length : fraction.length ≤ d
  fraction_last : fraction.getLast? ≠ some '0'

/-- The text of a numeral; the point is written only in front of a digit. -/
def Numeral.render {d : Nat} (n : Numeral d) : List Char :=
  if n.fraction = [] then n.whole else n.whole ++ '.' :: n.fraction

def Numeral.value {d : Nat} (n : Numeral d) : ℚ :=
  natOf (n.whole ++ n.fraction) / 10 ^ n.fraction.length

theorem Numeral.render_ne_nil {d : Nat} (n : Numeral d) : n.render ≠ [] := by
  unfold Numeral.render
  split
  · exact n.whole_ne
  · simp

theorem takeWhile_digits {digits : List Char} (rest : List Char)
    (h : ∀ c ∈ digits, c.isDigit = true) (hrest : rest.head?.all (fun c => !c.isDigit) = true) :
    (digits ++ rest).takeWhile Char.isDigit = digits ∧
      (digits ++ rest).dropWhile Char.isDigit = rest := by
  rw [List.takeWhile_append_of_pos h, List.dropWhile_append_of_pos h]
  cases rest with
  | nil => simp
  | cons c rest =>
    have hc : c.isDigit = false := by simpa using hrest
    simp [hc]

theorem parseUnsigned_whole {whole : List Char} (hne : whole ≠ [])
    (h : ∀ c ∈ whole, c.isDigit = true) : parseUnsigned whole = some (natOf whole : ℚ) := by
  obtain ⟨htake, hdrop⟩ := takeWhile_digits [] h rfl
  rw [List.append_nil] at htake hdrop
  simp only [parseUnsigned, htake, hdrop, fractionOf, List.append_nil, hne, if_false, exponentOf,
    Option.map_some]
  simp

theorem parseUnsigned_point {whole fraction : List Char} (hne : whole ≠ [])
    (h : ∀ c ∈ whole, c.isDigit = true) (h' : ∀ c ∈ fraction, c.isDigit = true) :
    parseUnsigned (whole ++ '.' :: fraction) =
      some (natOf (whole ++ fraction) / 10 ^ fraction.length : ℚ) := by
  obtain ⟨htake, hdrop⟩ := takeWhile_digits ('.' :: fraction) h rfl
  obtain ⟨htake', hdrop'⟩ := takeWhile_digits [] h' rfl
  rw [List.append_nil] at htake' hdrop'
  have hboth : whole ++ fraction ≠ [] := by simp [hne]
  simp only [parseUnsigned, htake, hdrop, fractionOf, htake', hdrop', hboth, if_false, exponentOf,
    Option.map_some]
  rw [zero_sub, zpow_neg, zpow_natCast, div_eq_mul_inv]

theorem parse_of_digit {c : Char} (hc : c.isDigit = true) (cs : List Char) :
    parse (c :: cs) = parseUnsigned (c :: cs) := by
  have hminus : c ≠ '-' := by
    rintro rfl
    exact absurd hc (by decide)
  unfold parse
  split
  · next heq => exact absurd (List.cons.inj heq).1 hminus
  · rfl

/-- A numeral is read back, to its end and without an exponent. -/
theorem Numeral.parse_render {d : Nat} (n : Numeral d) : parse n.render = some n.value := by
  obtain ⟨c, cs, hwhole⟩ := List.exists_cons_of_ne_nil n.whole_ne
  have hc : c.isDigit = true := n.whole_digits c (hwhole ▸ List.mem_cons_self)
  have hsign : parse n.render = parseUnsigned n.render := by
    unfold Numeral.render
    rw [hwhole]
    split
    · exact parse_of_digit hc cs
    · exact parse_of_digit hc (cs ++ '.' :: n.fraction)
  rw [hsign]
  unfold Numeral.render Numeral.value
  split
  · next hfraction =>
    rw [parseUnsigned_whole n.whole_ne n.whole_digits, hfraction]
    simp
  · exact parseUnsigned_point n.whole_ne n.whole_digits n.fraction_digits

/-! The numeral of a multiple of `1 / 10 ^ d`. -/

theorem isDigit_toDigits {n : Nat} : ∀ c ∈ Nat.toDigits 10 n, c.isDigit = true :=
  fun _ hc => Nat.isDigit_of_mem_toDigits (by decide) (by decide) hc

theorem isDigit_padLeft {d : Nat} {digits : List Char} (h : ∀ c ∈ digits, c.isDigit = true) :
    ∀ c ∈ padLeft d digits, c.isDigit = true := by
  intro c hc
  rcases List.mem_append.mp hc with hzero | hc
  · rw [List.eq_of_mem_replicate hzero]
    decide
  · exact h c hc

/-- The fractional digits of `n / 10 ^ d`, all of them. -/
def fractionDigits (d n : Nat) : List Char :=
  if d = 0 then [] else padLeft d (Nat.toDigits 10 (n % 10 ^ d))

theorem isDigit_fractionDigits (d n : Nat) : ∀ c ∈ fractionDigits d n, c.isDigit = true := by
  unfold fractionDigits
  split
  · intro c hc
    cases hc
  · exact isDigit_padLeft isDigit_toDigits

theorem length_fractionDigits (d n : Nat) : (fractionDigits d n).length = d := by
  unfold fractionDigits
  split
  · next h => exact h.symm
  · next h =>
    have hlength : (Nat.toDigits 10 (n % 10 ^ d)).length ≤ d :=
      (Nat.length_toDigits_le_iff (by decide) (by omega)).mpr (Nat.mod_lt _ (by positivity))
    simp only [padLeft, List.length_append, List.length_replicate]
    omega

theorem natOf_fractionDigits (d n : Nat) : natOf (fractionDigits d n) = n % 10 ^ d := by
  unfold fractionDigits natOf
  split
  · next h => simp [h, Nat.mod_one]
  · simp [padLeft, Nat.ofDigitChars_append]

theorem fractionDigits_split (d n : Nat) :
    (fractionDigits d n).rdropWhile (· == '0') ++
      List.replicate ((fractionDigits d n).rtakeWhile (· == '0')).length '0' =
        fractionDigits d n := by
  have hzeros : (fractionDigits d n).rtakeWhile (· == '0') =
      List.replicate ((fractionDigits d n).rtakeWhile (· == '0')).length '0' := by
    refine List.eq_replicate_of_mem (fun c hc => ?_)
    simpa using List.mem_rtakeWhile_imp hc
  rw [← hzeros]
  exact List.rdropWhile_append_rtakeWhile

/-- `n / 10 ^ d` in as few digits as there can be. -/
def Numeral.shortest (d n : Nat) : Numeral d where
  whole := Nat.toDigits 10 (n / 10 ^ d)
  fraction := (fractionDigits d n).rdropWhile (· == '0')
  whole_ne := Nat.toDigits_ne_nil
  whole_digits := isDigit_toDigits
  fraction_digits := fun c hc =>
    isDigit_fractionDigits d n c ((List.rdropWhile_prefix _ _).subset hc)
  fraction_length := by
    have h := (List.rdropWhile_prefix (· == '0') (fractionDigits d n)).length_le
    rwa [length_fractionDigits] at h
  fraction_last := by
    intro h
    have hne : (fractionDigits d n).rdropWhile (· == '0') ≠ [] := by
      intro hnil
      rw [hnil] at h
      cases h
    have hlast := (List.getLast_eq_iff_getLast?_eq_some hne).mpr h
    exact List.rdropWhile_last_not _ _ hne (by simp [hlast])

theorem natOf_append (xs ys : List Char) :
    natOf (xs ++ ys) = 10 ^ ys.length * natOf xs + natOf ys := by
  unfold natOf
  rw [Nat.ofDigitChars_append, Nat.ofDigitChars_eq_ofDigitChars_zero]

theorem natOf_toDigits (n : Nat) : natOf (Nat.toDigits 10 n) = n := Nat.ofDigitChars_ten_toDigits

theorem natOf_zeros (k : Nat) : natOf (List.replicate k '0') = 0 := by
  simp [natOf]

theorem natOf_digits (d n : Nat) :
    natOf (Nat.toDigits 10 (n / 10 ^ d) ++ fractionDigits d n) = n := by
  rw [natOf_append, length_fractionDigits, natOf_toDigits, natOf_fractionDigits]
  exact Nat.div_add_mod n (10 ^ d)

/-- Zeros at the end of a fraction do not change what it denotes. -/
theorem value_zeros {d n k : Nat} {whole fraction : List Char}
    (hvalue : natOf (whole ++ (fraction ++ List.replicate k '0')) = n)
    (hlength : fraction.length + k = d) :
    (natOf (whole ++ fraction) : ℚ) / 10 ^ fraction.length = n / 10 ^ d := by
  rw [← List.append_assoc, natOf_append, natOf_zeros, List.length_replicate, Nat.add_zero]
    at hvalue
  have hpow : (10 : ℚ) ^ d = 10 ^ fraction.length * 10 ^ k := by rw [← hlength, pow_add]
  rw [← hvalue, hpow]
  push_cast
  field_simp

theorem Numeral.value_shortest (d n : Nat) : (shortest d n).value = (n : ℚ) / 10 ^ d := by
  have hsplit := fractionDigits_split d n
  have hlength := congrArg List.length hsplit
  simp only [List.length_append, List.length_replicate, length_fractionDigits] at hlength
  have hvalue := natOf_digits d n
  rw [← hsplit] at hvalue
  exact value_zeros hvalue hlength

end Decimal
