import Mathlib.Data.List.Basic
import Mathlib.Data.Nat.Bits
import Mathlib.Tactic.Common
import Mathlib.Tactic.IntervalCases

/- `util/UrlCodec.h`, and the query strings that `UpbitExchangeRestClient` makes with it.

   The parameters are encoded for the URL and written into one string; what is signed is
   that string with its escapes decoded again. `PercentEncoded` is the grammar of an
   encoded component. An escape of a value can only begin at a percent sign of the
   encoder, so the decoder reads the string as it was put together
   (`decodePercent_encodeComponent`, `decodePercent_append`): what is signed is the plain
   query (`makeQueryStrings_plain`).

   Correspondence (C++ ↔ Lean):
     `std::string`, `std::string_view` ↔ `List UInt8`
     `detail::fromHex`, -1             ↔ `fromHex`, none
     `i + 2 < s.size()`                ↔ two bytes behind the percent sign
     both overloads of the query       ↔ `makeQueryStrings` -/
namespace CoinBot.UrlCodec

def percent : UInt8 := '%'.toUInt8
def equals : UInt8 := '='.toUInt8
def ampersand : UInt8 := '&'.toUInt8

/-- The bytes of an ASCII text. -/
def ascii (s : String) : List UInt8 := s.toList.map Char.toUInt8

/-! The codec. -/

def fromHex (c : UInt8) : Option Nat :=
  if '0'.toUInt8 ≤ c ∧ c ≤ '9'.toUInt8 then some (c - '0'.toUInt8).toNat
  else if 'A'.toUInt8 ≤ c ∧ c ≤ 'F'.toUInt8 then some (10 + (c - 'A'.toUInt8).toNat)
  else if 'a'.toUInt8 ≤ c ∧ c ≤ 'f'.toUInt8 then some (10 + (c - 'a'.toUInt8).toNat)
  else none

/-- Letters, digits and `-`, `_`, `.`, `~`. -/
def Unreserved (c : UInt8) : Prop :=
  ('A'.toUInt8 ≤ c ∧ c ≤ 'Z'.toUInt8) ∨ ('a'.toUInt8 ≤ c ∧ c ≤ 'z'.toUInt8) ∨
  ('0'.toUInt8 ≤ c ∧ c ≤ '9'.toUInt8) ∨
  c = '-'.toUInt8 ∨ c = '_'.toUInt8 ∨ c = '.'.toUInt8 ∨ c = '~'.toUInt8

instance (c : UInt8) : Decidable (Unreserved c) := by unfold Unreserved; infer_instance

/-- A digit as `std::uppercase << std::hex` writes it. -/
def hexDigit (n : Nat) : UInt8 := UInt8.ofNat (if n < 10 then 48 + n else 55 + n)

/-- A byte in two hexadecimal digits, behind a percent sign. -/
def escape (c : UInt8) : List UInt8 :=
  [percent, hexDigit (c.toNat / 16), hexDigit (c.toNat % 16)]

def encodeComponent (s : List UInt8) : List UInt8 :=
  s.flatMap fun c => if Unreserved c then [c] else escape c

/-- The byte of an escape whose digits are `hi` and `lo`. -/
def escaped (hi lo : UInt8) : Option UInt8 :=
  (fromHex hi).bind fun hi => (fromHex lo).map fun lo => UInt8.ofNat (hi <<< 4 ||| lo)

def decodePercent : List UInt8 → List UInt8
  | [] => []
  | [c] => [c]
  | [c, d] => [c, d]
  | c :: hi :: lo :: rest =>
    match if c = percent then escaped hi lo else none with
    | some byte => byte :: decodePercent rest
    | none => c :: decodePercent (hi :: lo :: rest)

example : decodePercent (ascii "a%3ab%4") = ascii "a:b%4" := by decide

/-! The query strings. -/

structure QueryStrings where
  /-- Goes into the URL. -/
  encoded : List UInt8 := []
  /-- What the `query_hash` of the token is taken of. -/
  hash : List UInt8 := []

def appendQueryParam (q key value : List UInt8) : List UInt8 :=
  (if q.isEmpty then q else q ++ [ampersand]) ++ key ++ [equals] ++ encodeComponent value

def makeQueryStrings (items : List (List UInt8 × List UInt8)) : QueryStrings :=
  let encoded := items.foldl (fun q kv => appendQueryParam q kv.1 kv.2) []
  { encoded := encoded, hash := decodePercent encoded }

/-! What the encoder writes. -/

/-- `0` to `9` and `A` to `F`. -/
def UpperHex (c : UInt8) : Prop :=
  ('0'.toUInt8 ≤ c ∧ c ≤ '9'.toUInt8) ∨ ('A'.toUInt8 ≤ c ∧ c ≤ 'F'.toUInt8)

/-- Unreserved characters, and escapes in upper case. -/
inductive PercentEncoded : List UInt8 → Prop
  | nil : PercentEncoded []
  | unreserved {c : UInt8} {s : List UInt8} :
      Unreserved c → PercentEncoded s → PercentEncoded (c :: s)
  | escape {hi lo : UInt8} {s : List UInt8} :
      UpperHex hi → UpperHex lo → PercentEncoded s → PercentEncoded (percent :: hi :: lo :: s)

theorem fromHex_hexDigit {n : Nat} (h : n < 16) : fromHex (hexDigit n) = some n := by
  interval_cases n <;> decide

theorem upperHex_hexDigit {n : Nat} (h : n < 16) : UpperHex (hexDigit n) := by
  unfold UpperHex
  interval_cases n <;> decide

theorem not_unreserved_percent : ¬ Unreserved percent := by decide

theorem div_lt (c : UInt8) : c.toNat / 16 < 16 := by
  have := c.toNat_lt
  omega

theorem mod_lt (c : UInt8) : c.toNat % 16 < 16 := Nat.mod_lt _ (by omega)

theorem encodeComponent_cons (c : UInt8) (s : List UInt8) :
    encodeComponent (c :: s) =
      (if Unreserved c then [c] else escape c) ++ encodeComponent s := by
  simp [encodeComponent]

theorem percentEncoded_encodeComponent (s : List UInt8) : PercentEncoded (encodeComponent s) := by
  induction s with
  | nil => exact .nil
  | cons c s ih =>
    rw [encodeComponent_cons]
    split
    · next h => exact .unreserved h ih
    · exact .escape (upperHex_hexDigit (div_lt c)) (upperHex_hexDigit (mod_lt c)) ih

/-! What the decoder reads. -/

theorem escaped_hexDigit (c : UInt8) :
    escaped (hexDigit (c.toNat / 16)) (hexDigit (c.toNat % 16)) = some c := by
  unfold escaped
  rw [fromHex_hexDigit (div_lt c), fromHex_hexDigit (mod_lt c)]
  simp only [Option.bind_some, Option.map_some]
  rw [← Nat.shiftLeft_add_eq_or_of_lt (mod_lt c) (c.toNat / 16), Nat.shiftLeft_eq]
  have : c.toNat / 16 * 2 ^ 4 + c.toNat % 16 = c.toNat := by omega
  rw [this, UInt8.ofNat_toNat]

theorem decodePercent_cons {c : UInt8} (h : c ≠ percent) (rest : List UInt8) :
    decodePercent (c :: rest) = c :: decodePercent rest := by
  match rest with
  | [] => rfl
  | [_] => rfl
  | _ :: _ :: _ => rw [decodePercent, if_neg h]

theorem decodePercent_escape (c : UInt8) (rest : List UInt8) :
    decodePercent (escape c ++ rest) = c :: decodePercent rest := by
  simp only [escape, List.cons_append, List.nil_append]
  rw [decodePercent, if_pos rfl, escaped_hexDigit]

theorem decodePercent_append {s : List UInt8} (h : percent ∉ s) (rest : List UInt8) :
    decodePercent (s ++ rest) = s ++ decodePercent rest := by
  induction s with
  | nil => rfl
  | cons c s ih =>
    have hc : c ≠ percent := fun hc => h (hc ▸ List.mem_cons_self)
    rw [List.cons_append, decodePercent_cons hc, ih (fun hs => h (List.mem_cons_of_mem c hs)),
      List.cons_append]

/-- An encoded component is decoded, whatever stands behind it. -/
theorem decodePercent_encodeComponent (s rest : List UInt8) :
    decodePercent (encodeComponent s ++ rest) = s ++ decodePercent rest := by
  induction s with
  | nil => rfl
  | cons c s ih =>
    rw [encodeComponent_cons, List.append_assoc]
    split
    · next h =>
      have hc : c ≠ percent := fun hc => not_unreserved_percent (hc ▸ h)
      rw [List.singleton_append, decodePercent_cons hc, ih, List.cons_append]
    · rw [decodePercent_escape, ih, List.cons_append]

/-! The two strings of a query. -/

/-- The pairs as `key=value`, with `&` between them. -/
def joinPairs (items : List (List UInt8 × List UInt8)) : List UInt8 :=
  List.intercalate [ampersand] (items.map fun kv => kv.1 ++ equals :: kv.2)

theorem joinPairs_cons (kv : List UInt8 × List UInt8) (items : List (List UInt8 × List UInt8)) :
    joinPairs (kv :: items) =
      kv.1 ++ equals :: kv.2 ++ items.flatMap fun kv => ampersand :: kv.1 ++ equals :: kv.2 := by
  induction items generalizing kv with
  | nil => simp [joinPairs, List.intercalate]
  | cons next items ih =>
    have htail := ih next
    simp only [joinPairs, List.map_cons, List.intercalate_cons_cons] at htail ⊢
    rw [htail]
    simp

theorem foldl_appendQueryParam (items : List (List UInt8 × List UInt8)) {q : List UInt8}
    (h : q ≠ []) :
    items.foldl (fun q kv => appendQueryParam q kv.1 kv.2) q =
      q ++ items.flatMap fun kv => ampersand :: kv.1 ++ equals :: encodeComponent kv.2 := by
  induction items generalizing q with
  | nil => simp
  | cons kv items ih =>
    have hq : q.isEmpty = false := by simpa using h
    have hnext : appendQueryParam q kv.1 kv.2 =
        q ++ (ampersand :: kv.1 ++ equals :: encodeComponent kv.2) := by
      simp [appendQueryParam, hq]
    rw [List.foldl_cons, hnext, ih (by simp)]
    simp

theorem makeQueryStrings_encoded (items : List (List UInt8 × List UInt8)) :
    (makeQueryStrings items).encoded =
      joinPairs (items.map fun kv => (kv.1, encodeComponent kv.2)) := by
  cases items with
  | nil => rfl
  | cons kv items =>
    have hfirst : appendQueryParam [] kv.1 kv.2 = kv.1 ++ equals :: encodeComponent kv.2 := by
      simp [appendQueryParam]
    have hne : kv.1 ++ equals :: encodeComponent kv.2 ≠ [] := by simp
    simp only [makeQueryStrings, List.foldl_cons, hfirst, List.map_cons, joinPairs_cons,
      List.flatMap_map]
    rw [foldl_appendQueryParam items hne]

theorem decodePercent_pair {key : List UInt8} (h : percent ∉ key) (value rest : List UInt8) :
    decodePercent (key ++ equals :: encodeComponent value ++ rest) =
      key ++ equals :: value ++ decodePercent rest := by
  rw [List.append_assoc, decodePercent_append h, List.cons_append,
    decodePercent_cons (by decide), decodePercent_encodeComponent]
  simp

theorem decodePercent_pairs {items : List (List UInt8 × List UInt8)}
    (h : ∀ kv ∈ items, percent ∉ kv.1) :
    decodePercent (items.flatMap fun kv => ampersand :: kv.1 ++ equals :: encodeComponent kv.2) =
      items.flatMap fun kv => ampersand :: kv.1 ++ equals :: kv.2 := by
  induction items with
  | nil => rfl
  | cons kv items ih =>
    have hrest := ih (fun next hnext => h next (List.mem_cons_of_mem kv hnext))
    simp only [List.flatMap_cons, List.cons_append] at hrest ⊢
    rw [decodePercent_cons (by decide), decodePercent_pair (h kv List.mem_cons_self), hrest]

/-- The escapes of the encoded query stand for the bytes of the values. -/
theorem decodePercent_joinPairs {items : List (List UInt8 × List UInt8)}
    (h : ∀ kv ∈ items, percent ∉ kv.1) :
    decodePercent (joinPairs (items.map fun kv => (kv.1, encodeComponent kv.2))) =
      joinPairs items := by
  cases items with
  | nil => rfl
  | cons kv items =>
    rw [List.map_cons, joinPairs_cons, joinPairs_cons, List.flatMap_map,
      decodePercent_pair (h kv List.mem_cons_self),
      decodePercent_pairs (fun next hnext => h next (List.mem_cons_of_mem kv hnext))]

/-- **What is signed is the plain query.** For keys without a percent sign and any values, the
    string that is hashed is the pairs with their values as they are; the string of the URL is
    the pairs with the values encoded, in unreserved characters and escapes in upper case; and
    what was encoded is decoded again. -/
theorem makeQueryStrings_plain (items : List (List UInt8 × List UInt8))
    (hkeys : ∀ kv ∈ items, percent ∉ kv.1) :
    (makeQueryStrings items).hash = joinPairs items ∧
    (makeQueryStrings items).encoded =
      joinPairs (items.map fun kv => (kv.1, encodeComponent kv.2)) ∧
    (∀ kv ∈ items, PercentEncoded (encodeComponent kv.2)) ∧
    ∀ s, decodePercent (encodeComponent s) = s := by
  refine ⟨?_, makeQueryStrings_encoded items, ?_, ?_⟩
  · show decodePercent (makeQueryStrings items).encoded = joinPairs items
    rw [makeQueryStrings_encoded, decodePercent_joinPairs hkeys]
  · intro kv _
    exact percentEncoded_encodeComponent kv.2
  · intro s
    have hdecoded := decodePercent_encodeComponent s []
    simpa [decodePercent] using hdecoded

/-- An identifier with its colon, and bytes that are no text. -/
theorem makeQueryStrings_plain_identifier :
    (makeQueryStrings [(ascii "identifier", ascii "KRW-BTC:50%"), (ascii "n", [0, 255])]).hash =
      ascii "identifier=KRW-BTC:50%&n=" ++ [0, 255] := by
  rw [(makeQueryStrings_plain _ (by decide)).1]
  decide

end CoinBot.UrlCodec
