import CoinBot.Api.UpbitExchangeRestClient
import CoinBot.Api.UpbitJwtSigner
import CoinBot.Lib.JsonAccess

/- What the token of a new order is signed over: `postOrder` with its `UpbitJwtSigner`.

   The body has the parameters in the order they were built in, the `query_hash` has them
   in the order of their names. The names are among six that are fixed
   (`map_fst_orderParams`), so that none occurs twice, there is one such order, and no
   name has a percent sign that the decoder could take for an escape. -/
namespace CoinBot.UpbitExchangeRestClient

open Json (utf8)
open UrlCodec (joinPairs makeQueryStrings)

/-- The signer of a client, with the nonce it draws for one request. -/
structure Signer where
  prim : UpbitJwtSigner.Primitives
  access : List UInt8
  secret : List UInt8
  nonce : List UInt8

/-- The parameters as the query is made of them. -/
def queryItems (params : List (String × String)) : List (List UInt8 × List UInt8) :=
  params.map fun kv => (utf8 kv.1, utf8 kv.2)

def Signer.token (signer : Signer) (params : List (String × String)) : List Char :=
  UpbitJwtSigner.token signer.prim signer.access signer.secret signer.nonce
    (some (makeQueryStrings (queryItems params)).hash)

/-- `signer_.makeBearerToken(makeQueryStrings(hash_params).hash)`. -/
def Signer.bearerToken (signer : Signer) (params : List (String × String)) : String :=
  String.ofList (UpbitJwtSigner.makeBearerToken signer.prim signer.access signer.secret
    signer.nonce (some (makeQueryStrings (queryItems params)).hash))

/-- The claims of a token whose query is `params` in plain text. -/
def Signer.claims (signer : Signer) (params : List (String × String)) :
    List (String × List UInt8) :=
  [("access_key", signer.access), ("nonce", signer.nonce),
    ("query_hash", UpbitJwtSigner.sha512Hex signer.prim (joinPairs (queryItems params))),
    ("query_hash_alg", UrlCodec.ascii "SHA512")]

/-! The names of the parameters. -/

def paramNames : List String := ["market", "side", "ord_type", "identifier", "price", "volume"]

theorem map_fst_optionalField (name : String) (value : Option String) :
    ((optionalField name value).map Prod.fst).Sublist [name] := by
  cases value with
  | none => exact List.nil_sublist [name]
  | some v => exact List.Sublist.refl [name]

theorem map_fst_orderParams (reqIn : OrderRequest ℚ) (fields : OrderPayloadFields) :
    ((orderParams reqIn fields).map Prod.fst).Sublist paramNames := by
  unfold orderParams
  simp only [List.map_append]
  have hfixed : (["market", "side", "ord_type"] : List String).Sublist
      ["market", "side", "ord_type"] := List.Sublist.refl _
  have hidentifier := map_fst_optionalField "identifier"
    (if reqIn.identifier = "" then none else some reqIn.identifier)
  have hprice := map_fst_optionalField "price" fields.priceField
  have hvolume := map_fst_optionalField "volume" fields.volumeField
  exact ((hfixed.append hidentifier).append hprice).append hvolume

theorem percent_not_mem_paramNames : ∀ name ∈ paramNames, UrlCodec.percent ∉ utf8 name := by
  decide

/-! The query. -/

variable {J : Type}

/-- The parameters in the order of their names. -/
def hashParams (params : List (String × String)) : List (String × String) :=
  params.mergeSort (fun lhs rhs => decide (lhs.1 ≤ rhs.1))

/-- What is sent has the parameters of a new order, and a token of them in the order of their
    names. -/
theorem orderHttpRequest_headers {codec : Codec J} {reqIn : OrderRequest ℚ} {http : HttpRequest}
    (h : orderHttpRequest codec reqIn = .ok http) :
    (∃ fields, http.body = orderParams reqIn fields) ∧
    http.headers.lookup "Authorization" = some (codec.bearerToken (hashParams http.body)) := by
  unfold orderHttpRequest at h
  split at h
  · cases h
  · split at h
    · cases h
    · next fields _ =>
      cases h
      exact ⟨⟨fields, rfl⟩, rfl⟩

theorem pairwise_hashParams (params : List (String × String)) :
    (hashParams params).Pairwise (fun lhs rhs => lhs.1 ≤ rhs.1) := by
  have htrans : ∀ a b c : String × String, decide (a.1 ≤ b.1) = true → decide (b.1 ≤ c.1) = true →
      decide (a.1 ≤ c.1) = true := by
    intro a b c hab hbc
    simp only [decide_eq_true_eq] at hab hbc ⊢
    exact String.le_trans hab hbc
  have htotal : ∀ a b : String × String, (decide (a.1 ≤ b.1) || decide (b.1 ≤ a.1)) = true := by
    intro a b
    simpa using String.le_total a.1 b.1
  have hsorted := List.pairwise_mergeSort htrans htotal params
  simpa only [hashParams, decide_eq_true_eq] using hsorted

/-- Parameters of different names have one order by name, whatever the sort does with equal
    ones. -/
theorem hashParams_strict {params : List (String × String)}
    (h : (params.map Prod.fst).Nodup) :
    (hashParams params).Pairwise (fun lhs rhs => lhs.1 < rhs.1) := by
  have hperm : (hashParams params).Perm params := List.mergeSort_perm _ _
  have hnodup : (hashParams params).Pairwise (fun lhs rhs => lhs.1 ≠ rhs.1) :=
    List.pairwise_map.mp ((hperm.map Prod.fst).nodup_iff.mpr h)
  refine (pairwise_hashParams params).imp₂ ?_ hnodup
  intro lhs rhs hle hne
  by_contra hlt
  exact hne (String.le_antisymm hle (String.not_lt.mp hlt))

theorem hash_of_names {params : List (String × String)}
    (h : ∀ kv ∈ params, kv.1 ∈ paramNames) :
    (makeQueryStrings (queryItems params)).hash = joinPairs (queryItems params) := by
  have hkeys : ∀ kv ∈ queryItems params, UrlCodec.percent ∉ kv.1 := by
    intro kv hkv
    obtain ⟨param, hparam, rfl⟩ := List.mem_map.mp hkv
    exact percent_not_mem_paramNames param.1 (h param hparam)
  show UrlCodec.decodePercent (makeQueryStrings (queryItems params)).encoded = _
  rw [UrlCodec.makeQueryStrings_encoded, UrlCodec.decodePercent_joinPairs hkeys]

theorem queryHash_ne_nil {params : List (String × String)} (h : params ≠ []) :
    joinPairs (queryItems params) ≠ [] := by
  obtain ⟨kv, rest, rfl⟩ := List.exists_cons_of_ne_nil h
  rw [queryItems, List.map_cons, UrlCodec.joinPairs_cons]
  simp

theorem Signer.payload_eq_claims (signer : Signer) {params : List (String × String)}
    (hnames : ∀ kv ∈ params, kv.1 ∈ paramNames) (hne : params ≠ []) :
    UpbitJwtSigner.payload signer.prim signer.access signer.nonce
      (some (makeQueryStrings (queryItems params)).hash) = signer.claims params := by
  have hquery : (joinPairs (queryItems params)).isEmpty = false := by
    simpa using queryHash_ne_nil hne
  rw [hash_of_names hnames]
  simp [UpbitJwtSigner.payload, hquery, Signer.claims]

/-- **The token is of the body.** What `postOrder` sends is signed over the parameters of its
    body, in the order of their names: behind `Bearer ` stand three encoded parts, and the
    second is the payload whose `query_hash` is the SHA-512 of these parameters in plain text. -/
theorem orderHttpRequest_signed {codec : Codec J} {signer : Signer}
    (hsigner : codec.bearerToken = signer.bearerToken) {reqIn : OrderRequest ℚ}
    {http : HttpRequest} (h : orderHttpRequest codec reqIn = .ok http) :
    ∃ params token,
      params.Perm http.body ∧ params.Pairwise (fun lhs rhs => lhs.1 < rhs.1) ∧
      http.headers.lookup "Authorization" = some (String.ofList ("Bearer ".toList ++ token)) ∧
      (token.splitOn '.').map Base64.decode =
        [some (signer.prim.dump UpbitJwtSigner.header),
          some (signer.prim.dump (signer.claims params)),
          some (UpbitJwtSigner.signature signer.prim signer.secret
            (UpbitJwtSigner.signingInput signer.prim signer.access signer.nonce
              (some (joinPairs (queryItems params)))))] := by
  obtain ⟨⟨fields, hbody⟩, hheader⟩ := orderHttpRequest_headers h
  have hperm : (hashParams http.body).Perm http.body := List.mergeSort_perm _ _
  have hsub : (http.body.map Prod.fst).Sublist paramNames :=
    hbody ▸ map_fst_orderParams reqIn fields
  have hnames : ∀ kv ∈ hashParams http.body, kv.1 ∈ paramNames := by
    intro kv hkv
    exact hsub.subset (List.mem_map_of_mem (hperm.mem_iff.mp hkv))
  have hne : hashParams http.body ≠ [] := by
    intro hnil
    rw [hnil] at hperm
    rw [hbody] at hperm
    simp [orderParams] at hperm
  refine ⟨hashParams http.body, signer.token (hashParams http.body), hperm, ?_, ?_, ?_⟩
  · exact hashParams_strict (hsub.nodup (by decide))
  · rw [hheader, hsigner]
    rfl
  · rw [Signer.token, UpbitJwtSigner.splitOn_token, signer.payload_eq_claims hnames hne,
      hash_of_names hnames]

end CoinBot.UpbitExchangeRestClient
