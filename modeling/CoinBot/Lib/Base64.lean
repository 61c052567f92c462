import Mathlib.Data.List.GetD
import Mathlib.Tactic.Common
import Mathlib.Tactic.IntervalCases

/- The base64url encoding of RFC 4648, without padding.

   Three bytes are four digits of six bits. One byte at the end is two digits and two
   bytes are three, where the bits that are left over are zero; the decoder insists on
   that, and on the digits being of the alphabet. `decode_encode` is the round trip,
   `length_encode` and `mem_encode` are what an encoded text looks like. -/
namespace Base64

/-! Digits. -/

/-- The digits by their value. -/
def symbols : List Char :=
  "ABCDEFGHIJKLMNOPQRSTUVWXYZabcdefghijklmnopqrstuvwxyz0123456789-_".toList

/-- The digit of a value below 64. -/
def symbol (n : Nat) : Char := symbols.getD n 'A'

def value (c : Char) : Option Nat := symbols.idxOf? c

theorem value_symbol {n : Nat} (h : n < 64) : value (symbol n) = some n := by
  interval_cases n <;> decide

theorem symbol_mem (n : Nat) : symbol n ∈ symbols := by
  unfold symbol
  by_cases h : n < symbols.length
  · rw [List.getD_eq_getElem symbols 'A' h]
    exact List.getElem_mem h
  · rw [List.getD_eq_default symbols 'A' (by omega)]
    decide

/-! The encoding. -/

def encode : List UInt8 → List Char
  | [] => []
  | [x] => [symbol (x.toNat / 4), symbol (x.toNat % 4 * 16)]
  | [x, y] =>
    [symbol (x.toNat / 4), symbol (x.toNat % 4 * 16 + y.toNat / 16), symbol (y.toNat % 16 * 4)]
  | x :: y :: z :: rest =>
    symbol (x.toNat / 4) :: symbol (x.toNat % 4 * 16 + y.toNat / 16) ::
      symbol (y.toNat % 16 * 4 + z.toNat / 64) :: symbol (z.toNat % 64) :: encode rest

/-- None where the text is too short by a digit, has a character that is no digit, or has bits
    left over that are not zero. -/
def decode : List Char → Option (List UInt8)
  | [] => some []
  | [_] => none
  | [a, b] => do
    let a ← value a
    let b ← value b
    if b % 16 = 0 then some [UInt8.ofNat (a * 4 + b / 16)] else none
  | [a, b, c] => do
    let a ← value a
    let b ← value b
    let c ← value c
    if c % 4 = 0 then some [UInt8.ofNat (a * 4 + b / 16), UInt8.ofNat (b % 16 * 16 + c / 4)]
    else none
  | a :: b :: c :: d :: rest => do
    let a ← value a
    let b ← value b
    let c ← value c
    let d ← value d
    let bytes ← decode rest
    some (UInt8.ofNat (a * 4 + b / 16) :: UInt8.ofNat (b % 16 * 16 + c / 4) ::
      UInt8.ofNat (c % 4 * 64 + d) :: bytes)

/-! The round trip. -/

theorem ofNat_eq {x : UInt8} {n : Nat} (h : n = x.toNat) : UInt8.ofNat n = x := by
  rw [h]
  exact UInt8.ofNat_toNat

theorem decode_encode (data : List UInt8) : decode (encode data) = some data := by
  induction data using encode.induct with
  | case1 => rfl
  | case2 x =>
    have hx := x.toNat_lt
    have hbyte : UInt8.ofNat (x.toNat / 4 * 4 + x.toNat % 4 * 16 / 16) = x := ofNat_eq (by omega)
    simp (disch := omega) only [encode, decode, value_symbol, Option.bind_eq_bind,
      Option.bind_some, hbyte]
    rw [if_pos (by omega)]
  | case3 x y =>
    have hx := x.toNat_lt
    have hy := y.toNat_lt
    have hbyte : UInt8.ofNat (x.toNat / 4 * 4 + (x.toNat % 4 * 16 + y.toNat / 16) / 16) = x :=
      ofNat_eq (by omega)
    have hbyte' : UInt8.ofNat ((x.toNat % 4 * 16 + y.toNat / 16) % 16 * 16 +
        y.toNat % 16 * 4 / 4) = y := ofNat_eq (by omega)
    simp (disch := omega) only [encode, decode, value_symbol, Option.bind_eq_bind,
      Option.bind_some, hbyte, hbyte']
    rw [if_pos (by omega)]
  | case4 x y z rest ih =>
    have hx := x.toNat_lt
    have hy := y.toNat_lt
    have hz := z.toNat_lt
    have hbyte : UInt8.ofNat (x.toNat / 4 * 4 + (x.toNat % 4 * 16 + y.toNat / 16) / 16) = x :=
      ofNat_eq (by omega)
    have hbyte' : UInt8.ofNat ((x.toNat % 4 * 16 + y.toNat / 16) % 16 * 16 +
        (y.toNat % 16 * 4 + z.toNat / 64) / 4) = y := ofNat_eq (by omega)
    have hbyte'' : UInt8.ofNat ((y.toNat % 16 * 4 + z.toNat / 64) % 4 * 64 + z.toNat % 64) = z :=
      ofNat_eq (by omega)
    simp (disch := omega) only [encode, decode, value_symbol, ih, Option.bind_eq_bind,
      Option.bind_some, hbyte, hbyte', hbyte'']

theorem encode_injective : Function.Injective encode := by
  intro data other h
  have hdecode : decode (encode data) = decode (encode other) := by rw [h]
  rw [decode_encode, decode_encode] at hdecode
  exact Option.some.inj hdecode

/-! The shape of an encoded text. -/

/-- Four characters for three bytes, rounded up. -/
theorem length_encode (data : List UInt8) : (encode data).length = (4 * data.length + 2) / 3 := by
  induction data using encode.induct with
  | case1 => rfl
  | case2 x => simp [encode]
  | case3 x y => simp [encode]
  | case4 x y z rest ih =>
    simp only [encode, List.length_cons, ih]
    omega

theorem mem_encode {c : Char} {data : List UInt8} (h : c ∈ encode data) : c ∈ symbols := by
  induction data using encode.induct with
  | case1 => cases h
  | case2 x =>
    simp only [encode, List.mem_cons, List.not_mem_nil, or_false] at h
    obtain rfl | rfl := h <;> exact symbol_mem _
  | case3 x y =>
    simp only [encode, List.mem_cons, List.not_mem_nil, or_false] at h
    obtain rfl | rfl | rfl := h <;> exact symbol_mem _
  | case4 x y z rest ih =>
    simp only [encode, List.mem_cons] at h
    obtain rfl | rfl | rfl | rfl | h := h
    · exact symbol_mem _
    · exact symbol_mem _
    · exact symbol_mem _
    · exact symbol_mem _
    · exact ih h

end Base64
