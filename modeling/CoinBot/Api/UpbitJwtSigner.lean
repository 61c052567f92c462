import CoinBot.Api.UrlCodec
import CoinBot.Lib.Base64
import Mathlib.Data.List.DropRight
import Mathlib.Data.Nat.Bitwise

/- `api/auth/UpbitJwtSigner`: the token of a request.

   The encoder is written as the source has it: groups of three bytes in one number, its
   slices of six bits looked up in the table of base64, the padding, and then the
   replacement of two characters and the removal of the padding at the end. It is the
   base64url encoding of `Base64` (`base64UrlEncode_eq`).

   Correspondence (C++ ↔ Lean):
     `b64[(v >> shift) & 63]`                      ↔ `slice v shift`
     the loop over the groups and the two tails    ↔ `padded`
     the hash functions and `dump` of the JSON library ↔ `Primitives`
     the UUID that is drawn                        ↔ the parameter `nonce` -/
namespace CoinBot.UpbitJwtSigner

open UrlCodec (ascii)

/-! The encoder. -/

def b64 : List Char :=
  "ABCDEFGHIJKLMNOPQRSTUVWXYZabcdefghijklmnopqrstuvwxyz0123456789+/".toList

def slice (v shift : Nat) : Char := b64.getD (v >>> shift &&& 63) 'A'

/-- The text of base64, with its padding. -/
def padded : List UInt8 → List Char
  | d0 :: d1 :: d2 :: rest =>
    let v := d0.toNat <<< 16 ||| d1.toNat <<< 8 ||| d2.toNat
    slice v 18 :: slice v 12 :: slice v 6 :: slice v 0 :: padded rest
  | [d0, d1] =>
    let v := d0.toNat <<< 16 ||| d1.toNat <<< 8
    [slice v 18, slice v 12, slice v 6, '=']
  | [d0] =>
    let v := d0.toNat <<< 16
    [slice v 18, slice v 12, '=', '=']
  | [] => []

def urlSafe (c : Char) : Char := if c = '+' then '-' else if c = '/' then '_' else c

def base64UrlEncode (data : List UInt8) : List Char :=
  (((padded data).map urlSafe).reverse.dropWhile (· == '=')).reverse

example : base64UrlEncode [251, 255] = ['-', '_', '8'] := by decide

/-! The slices are the digits. -/

theorem urlSafe_b64 {n : Nat} (h : n < 64) : urlSafe (b64.getD n 'A') = Base64.symbol n := by
  interval_cases n <;> decide

theorem urlSafe_slice (v shift : Nat) :
    urlSafe (slice v shift) = Base64.symbol (v / 2 ^ shift % 64) := by
  unfold slice
  rw [Nat.shiftRight_eq_div_pow, Nat.and_two_pow_sub_one_eq_mod _ 6]
  exact urlSafe_b64 (Nat.mod_lt _ (by omega))

theorem or_two (x y : UInt8) :
    x.toNat <<< 16 ||| y.toNat <<< 8 = x.toNat * 65536 + y.toNat * 256 := by
  have hy := y.toNat_lt
  have hlow : y.toNat <<< 8 < 2 ^ 16 := by
    rw [Nat.shiftLeft_eq]
    omega
  rw [← Nat.shiftLeft_add_eq_or_of_lt hlow, Nat.shiftLeft_eq, Nat.shiftLeft_eq]

theorem or_three (x y z : UInt8) :
    x.toNat <<< 16 ||| y.toNat <<< 8 ||| z.toNat =
      x.toNat * 65536 + y.toNat * 256 + z.toNat := by
  have hy := y.toNat_lt
  have hz := z.toNat_lt
  have hinner : y.toNat <<< 8 ||| z.toNat = y.toNat * 256 + z.toNat := by
    rw [← Nat.shiftLeft_add_eq_or_of_lt (by omega), Nat.shiftLeft_eq]
  have hlow : y.toNat * 256 + z.toNat < 2 ^ 16 := by omega
  rw [Nat.or_assoc, hinner, ← Nat.shiftLeft_add_eq_or_of_lt hlow, Nat.shiftLeft_eq]
  omega

/-- What the table and the replacement make of a text is its base64url, with padding behind. -/
theorem map_urlSafe_padded (data : List UInt8) :
    ∃ n, (padded data).map urlSafe = Base64.encode data ++ List.replicate n '=' := by
  have hpad : urlSafe '=' = '=' := by decide
  induction data using padded.induct with
  | case1 x y z rest ih =>
    -- The slices of the number of a group are the digits of its bytes.
    obtain ⟨n, ih⟩ := ih
    have hx := x.toNat_lt
    have hy := y.toNat_lt
    have hz := z.toNat_lt
    obtain ⟨v, hv⟩ : ∃ v, v = x.toNat * 65536 + y.toNat * 256 + z.toNat := ⟨_, rfl⟩
    have h1 : v / 2 ^ 18 % 64 = x.toNat / 4 := by omega
    have h2 : v / 2 ^ 12 % 64 = x.toNat % 4 * 16 + y.toNat / 16 := by omega
    have h3 : v / 2 ^ 6 % 64 = y.toNat % 16 * 4 + z.toNat / 64 := by omega
    have h4 : v / 2 ^ 0 % 64 = z.toNat % 64 := by omega
    refine ⟨n, ?_⟩
    simp only [padded, List.map_cons, or_three, ← hv, urlSafe_slice, h1, h2, h3, h4, ih,
      Base64.encode, List.cons_append]
  | case2 x y =>
    -- The last slice of a tail is filled with zeros.
    have hx := x.toNat_lt
    have hy := y.toNat_lt
    obtain ⟨v, hv⟩ : ∃ v, v = x.toNat * 65536 + y.toNat * 256 := ⟨_, rfl⟩
    have h1 : v / 2 ^ 18 % 64 = x.toNat / 4 := by omega
    have h2 : v / 2 ^ 12 % 64 = x.toNat % 4 * 16 + y.toNat / 16 := by omega
    have h3 : v / 2 ^ 6 % 64 = y.toNat % 16 * 4 := by omega
    refine ⟨1, ?_⟩
    simp only [padded, List.map_cons, List.map_nil, or_two, ← hv, urlSafe_slice, h1, h2, h3, hpad,
      Base64.encode, List.cons_append, List.nil_append, List.replicate]
  | case3 x =>
    have hx := x.toNat_lt
    obtain ⟨v, hv⟩ : ∃ v, v = x.toNat <<< 16 := ⟨_, rfl⟩
    have hvalue : v = x.toNat * 65536 := by rw [hv, Nat.shiftLeft_eq]
    have h1 : v / 2 ^ 18 % 64 = x.toNat / 4 := by omega
    have h2 : v / 2 ^ 12 % 64 = x.toNat % 4 * 16 := by omega
    refine ⟨2, ?_⟩
    simp only [padded, List.map_cons, List.map_nil, ← hv, urlSafe_slice, h1, h2, hpad,
      Base64.encode, List.cons_append, List.nil_append, List.replicate]
  | case4 => exact ⟨0, rfl⟩

theorem equals_not_mem_encode (data : List UInt8) : '=' ∉ Base64.encode data := by
  intro h
  have hmem := Base64.mem_encode h
  revert hmem
  decide

theorem dropWhile_padding {s : List Char} (h : '=' ∉ s) (n : Nat) :
    ((s ++ List.replicate n '=').reverse.dropWhile (· == '=')).reverse = s := by
  have hpadding : ∀ c ∈ List.replicate n '=', (c == '=') = true := by
    intro c hc
    simpa using List.eq_of_mem_replicate hc
  rw [List.reverse_append, List.reverse_replicate, List.dropWhile_append_of_pos hpadding]
  refine List.rdropWhile_eq_self_iff.mpr (fun hne hlast => ?_)
  have hmem := List.getLast_mem hne
  rw [eq_of_beq hlast] at hmem
  exact h hmem

theorem base64UrlEncode_eq (data : List UInt8) : base64UrlEncode data = Base64.encode data := by
  obtain ⟨n, hn⟩ := map_urlSafe_padded data
  unfold base64UrlEncode
  rw [hn, dropWhile_padding (equals_not_mem_encode data)]

/-- **The encoder is base64url without padding.** Its output is that of RFC 4648, the decoder
    returns the input, the length is four characters for three bytes, rounded up, every character
    is one of the alphabet, and distinct inputs have distinct outputs. -/
theorem base64UrlEncode_rfc4648 :
    (∀ data : List UInt8,
      base64UrlEncode data = Base64.encode data ∧
      Base64.decode (base64UrlEncode data) = some data ∧
      (base64UrlEncode data).length = (4 * data.length + 2) / 3 ∧
      ∀ c ∈ base64UrlEncode data, c ∈ Base64.symbols) ∧
    Function.Injective base64UrlEncode := by
  have heq : base64UrlEncode = Base64.encode := funext base64UrlEncode_eq
  rw [heq]
  refine ⟨fun data => ⟨rfl, ?_, ?_, ?_⟩, Base64.encode_injective⟩
  · exact Base64.decode_encode data
  · exact Base64.length_encode data
  · intro c hc
    exact Base64.mem_encode hc

/-! The token. -/

/-- What the signer uses of the hash functions and of the JSON library. `dump` is the text of an
    object with these fields. -/
structure Primitives where
  sha512 : List UInt8 → List UInt8
  /-- Of a key and a message. -/
  hmacSha512 : List UInt8 → List UInt8 → List UInt8
  dump : List (String × List UInt8) → List UInt8

/-- A digit as `std::hex` writes it. -/
def hexDigit (n : Nat) : UInt8 := UInt8.ofNat (if n < 10 then 48 + n else 87 + n)

def sha512Hex (prim : Primitives) (s : List UInt8) : List UInt8 :=
  (prim.sha512 s).flatMap fun b => [hexDigit (b.toNat / 16), hexDigit (b.toNat % 16)]

def header : List (String × List UInt8) := [("alg", ascii "HS512"), ("typ", ascii "JWT")]

def payload (prim : Primitives) (access nonce : List UInt8) (queryString : Option (List UInt8)) :
    List (String × List UInt8) :=
  [("access_key", access), ("nonce", nonce)] ++
  match queryString with
  | none => []
  | some query =>
    if query.isEmpty then []
    else [("query_hash", sha512Hex prim query), ("query_hash_alg", ascii "SHA512")]

/-- The two parts that are signed. -/
def signingInput (prim : Primitives) (access nonce : List UInt8)
    (queryString : Option (List UInt8)) : List Char :=
  base64UrlEncode (prim.dump header) ++ '.' ::
    base64UrlEncode (prim.dump (payload prim access nonce queryString))

def signature (prim : Primitives) (secret : List UInt8) (input : List Char) : List UInt8 :=
  prim.hmacSha512 secret (input.map Char.toUInt8)

/-- What stands behind `Bearer ` in the header of the request. -/
def token (prim : Primitives) (access secret nonce : List UInt8)
    (queryString : Option (List UInt8)) : List Char :=
  let input := signingInput prim access nonce queryString
  input ++ '.' :: base64UrlEncode (signature prim secret input)

def makeBearerToken (prim : Primitives) (access secret nonce : List UInt8)
    (queryString : Option (List UInt8)) : List Char :=
  "Bearer ".toList ++ token prim access secret nonce queryString

theorem dot_not_mem (data : List UInt8) : '.' ∉ base64UrlEncode data := by
  intro h
  rw [base64UrlEncode_eq] at h
  have hmem := Base64.mem_encode h
  revert hmem
  decide

/-- A token is three texts between its points, and these are the encoded header, payload and
    signature: they can be read back from it. -/
theorem splitOn_token (prim : Primitives) (access secret nonce : List UInt8)
    (queryString : Option (List UInt8)) :
    ((token prim access secret nonce queryString).splitOn '.').map Base64.decode =
      [some (prim.dump header), some (prim.dump (payload prim access nonce queryString)),
        some (signature prim secret (signingInput prim access nonce queryString))] := by
  let parts := [prim.dump header, prim.dump (payload prim access nonce queryString),
    signature prim secret (signingInput prim access nonce queryString)]
  have hjoin : token prim access secret nonce queryString =
      List.intercalate ['.'] (parts.map base64UrlEncode) := by
    simp [token, signingInput, parts, List.intercalate]
  have hdots : ∀ part ∈ parts.map base64UrlEncode, '.' ∉ part := by
    intro part hpart
    obtain ⟨data, -, rfl⟩ := List.mem_map.mp hpart
    exact dot_not_mem data
  rw [hjoin, List.splitOn_intercalate '.' hdots (by simp [parts])]
  simp [parts, base64UrlEncode_eq, Base64.decode_encode]

end CoinBot.UpbitJwtSigner
