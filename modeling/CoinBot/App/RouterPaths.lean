import CoinBot.App.EventRouter

/- The fast path against the slow path of the router.

   On the text of a JSON object the fast path reads what is written at the first
   mention of a key: the first string, at any depth and as a name or as a value, that
   is the key or ends with a quotation mark and the key. What it reads there is the
   value of a name when that is a string of 1 to 20 bytes without escapes
   (`extract_object`). The slow path reads the object's own fields. They agree exactly
   when the two give the same verdict (`paths_agree_iff`). -/
namespace CoinBot.EventRouter

open Json

/-! What is written at the first mention of a word. -/

/-- A value that the fast path can read: a string of 1 to 20 bytes without escapes. -/
def readable : Value → Option Bytes
  | .string s => if s.plain = true ∧ s.raw.length ≠ 0 ∧ s.raw.length ≤ 20 then some s.raw else none
  | _ => none

mutual

/-- None where the value does not mention the word; otherwise what is written at the first
    mention, if that is a name with a readable value. -/
def mentionIn (word : Bytes) : Value → Option (Option Bytes)
  | .string s => if s.Mentions word then some none else none
  | .array _ es => mentionInElements word es
  | .object _ ms => mentionInMembers word ms
  | _ => none

def mentionInElements (word : Bytes) : Elements → Option (Option Bytes)
  | .none => none
  | .cons _ v _ rest => mentionIn word v <|> mentionInElements word rest

def mentionInMembers (word : Bytes) : Members → Option (Option Bytes)
  | .none => none
  | .cons _ name _ _ v _ rest =>
    if name.Mentions word then some (readable v)
    else mentionIn word v <|> mentionInMembers word rest

end

/-- What is written at the first mention of the word in the object. -/
def written (word : Bytes) (d : ObjectText) : Option Bytes :=
  (mentionInMembers word d.members).getD none

/-- The value of the last member with the name. -/
def lastNamed (word : Bytes) : Members → Option Value
  | .none => none
  | .cons _ name _ _ v _ rest =>
    lastNamed word rest <|> if name.decode = some word then some v else none

/-- What a value says: a string with something in it does. -/
def sayingOf : Value → Option Bytes
  | .string s => s.decode.filter (fun x => x ≠ [])
  | _ => none

/-- What the object's own field says; nothing where the text has half of a surrogate pair. -/
def ownField (word : Bytes) (d : ObjectText) : Option Bytes :=
  if d.data.isSome then (lastNamed word d.members).bind sayingOf else none

/-! The scan of what stands behind the key. -/

theorem scanValue_append {seg : Bytes} (hseg : ∀ b ∈ seg, Bare b) (t : Bytes) :
    scanValue (seg ++ t) = (scanValue t).map (seg ++ ·) := by
  induction seg with
  | nil => simp
  | cons b seg ih =>
    have hb := hseg b List.mem_cons_self
    rw [List.cons_append, scanValue, if_neg hb.2, if_neg hb.1,
      ih (fun b' hb' => hseg b' (List.mem_cons_of_mem b hb'))]
    simp [Option.map_map, Function.comp_def]

theorem scanValue_raw (s : Str) (t : Bytes) :
    scanValue (s.raw ++ quote :: t) = if s.plain = true then some s.raw else none := by
  induction s with
  | nil =>
    have hplain : Str.plain [] = true := rfl
    rw [if_pos hplain]
    rfl
  | cons p s ih =>
    have hraw : Str.raw (p :: s) = p.render ++ Str.raw s := rfl
    rw [hraw, List.append_assoc]
    cases p with
    | plain c =>
      have hplain : Str.plain (.plain c :: s) = Str.plain s := by simp [Str.plain]
      rw [@scanValue_append (Piece.plain c).render (bare_plain c), ih, hplain]
      split <;> rfl
    | escape e =>
      have hplain : ¬ Str.plain (.escape e :: s) = true := by simp [Str.plain]
      rw [if_neg hplain]
      exact if_pos rfl
    | unicode a b c d =>
      have hplain : ¬ Str.plain (.unicode a b c d :: s) = true := by simp [Str.plain]
      rw [if_neg hplain]
      exact if_pos rfl

theorem skipSpaces_blanks (ws : List Blank) (t : Bytes) :
    skipSpaces (blanks ws ++ t) = skipSpaces t := by
  induction ws with
  | nil => rfl
  | cons w ws ih =>
    have hspace : isspace w.byte = true := by cases w <;> rfl
    show skipSpaces (w.byte :: (blanks ws ++ t)) = _
    rw [skipSpaces, List.dropWhile_cons_of_pos hspace]
    exact ih

theorem skipSpaces_stop {b : UInt8} (hb : isspace b = false) (t : Bytes) :
    skipSpaces (b :: t) = b :: t :=
  List.dropWhile_cons_of_neg (by simp [hb])

/-- What may stand behind a value: white space, then the end, a comma or a closing bracket. -/
def Closes (t : Bytes) : Prop :=
  ∃ ws rest, t = blanks ws ++ rest ∧ ∀ b ∈ rest.head?, b = comma ∨ b = 93 ∨ b = 125

theorem Closes.blanks {t : Bytes} (h : Closes t) (ws : List Blank) :
    Closes (Json.blanks ws ++ t) := by
  obtain ⟨ws', rest, rfl, hrest⟩ := h
  exact ⟨ws ++ ws', rest, by simp [Json.blanks], hrest⟩

theorem closes_cons {b : UInt8} (hb : b = comma ∨ b = 93 ∨ b = 125) (t : Bytes) :
    Closes (b :: t) := ⟨[], b :: t, rfl, fun b' hb' => by
      obtain rfl : b = b' := Option.some.inj hb'
      exact hb⟩

/-- A value is no name: no colon stands behind it. -/
theorem valueBehind_closes {t : Bytes} (h : Closes t) : valueBehind t = none := by
  obtain ⟨ws, rest, rfl, hrest⟩ := h
  unfold valueBehind
  rw [skipSpaces_blanks]
  cases rest with
  | nil => rfl
  | cons b rest =>
    have hb := hrest b rfl
    have hspace : isspace b = false := by rcases hb with rfl | rfl | rfl <;> rfl
    have hcolon : b ≠ colon := by rcases hb with rfl | rfl | rfl <;> decide
    simp only [skipSpaces_stop hspace, hcolon, ne_eq, not_false_eq_true, if_true]

/-- The first byte of a value that is no string is neither white space nor a quotation mark. -/
theorem render_head {v : Value} (hv : ∀ s, v ≠ .string s) :
    ∃ b rest, v.render = b :: rest ∧ isspace b = false ∧ b ≠ quote := by
  cases v with
  | null => exact ⟨_, _, rfl, rfl, by decide⟩
  | true_ => exact ⟨_, _, rfl, rfl, by decide⟩
  | false_ => exact ⟨_, _, rfl, rfl, by decide⟩
  | array inside es => exact ⟨_, _, rfl, rfl, by decide⟩
  | object inside ms => exact ⟨_, _, rfl, rfl, by decide⟩
  | string s => exact absurd rfl (hv s)
  | number n =>
    have hdigit : ∀ d : Fin 10, isspace (digit d) = false ∧ digit d ≠ quote := by
      unfold digit quote isspace
      decide
    show ∃ b rest, n.render = b :: rest ∧ _
    unfold Number.render
    cases n.negative with
    | true => exact ⟨45, _, rfl, rfl, by decide⟩
    | false => exact ⟨digit n.first, _, rfl, (hdigit n.first).1, (hdigit n.first).2⟩

theorem valueBehind_name (beforeColon afterColon : List Blank) (v : Value) (t : Bytes) :
    valueBehind (blanks beforeColon ++ colon :: (blanks afterColon ++ (v.render ++ t))) =
      readable v := by
  unfold valueBehind
  rw [skipSpaces_blanks, skipSpaces_stop (by rfl)]
  simp only [ne_eq, not_true_eq_false, if_false]
  rw [skipSpaces_blanks]
  by_cases hstring : ∃ s, v = .string s
  · obtain ⟨s, rfl⟩ := hstring
    have hrender : (Value.string s).render ++ t = quote :: (s.raw ++ quote :: t) := by
      simp [Value.render, Str.render]
    rw [hrender, skipSpaces_stop (by rfl)]
    simp only [not_true_eq_false, if_false, scanValue_raw, readable]
    by_cases hplain : s.plain = true
    · by_cases hlong : s.raw.length = 0 ∨ 20 < s.raw.length
      · have hnot : ¬ (s.plain = true ∧ s.raw.length ≠ 0 ∧ s.raw.length ≤ 20) := by omega
        simp only [if_pos hplain, if_pos hlong, if_neg hnot]
      · have hfits : s.plain = true ∧ s.raw.length ≠ 0 ∧ s.raw.length ≤ 20 := by
          exact ⟨hplain, by omega, by omega⟩
        simp only [if_pos hplain, if_neg hlong, if_pos hfits]
    · have hnot : ¬ (s.plain = true ∧ s.raw.length ≠ 0 ∧ s.raw.length ≤ 20) :=
        fun h => hplain h.1
      simp only [if_neg hplain, if_neg hnot]
  · have hother : ∀ s, v ≠ .string s := fun s hs => hstring ⟨s, hs⟩
    obtain ⟨b, rest, hrender, hspace, hquote⟩ := render_head hother
    have hread : readable v = none := by
      unfold readable
      split
      · next s => exact absurd rfl (hother s)
      · rfl
    rw [hrender, List.cons_append, skipSpaces_stop hspace, hread]
    simp only [hquote, not_false_eq_true, if_true]

/-! The search for the key. -/

/-- A key: lower-case letters. -/
def IsKey (word : Bytes) : Prop :=
  word ≠ [] ∧ ∀ b ∈ word, 97 ≤ b ∧ b ≤ 122

instance (word : Bytes) : Decidable (IsKey word) :=
  decidable_of_iff (word ≠ [] ∧ word.all (fun b => decide (97 ≤ b ∧ b ≤ 122)) = true)
    (by simp only [IsKey, List.all_eq_true, decide_eq_true_eq])

variable {word : Bytes}

theorem IsKey.bare (h : IsKey word) : ∀ b ∈ word, Bare b := by
  intro b hb
  have hletter := h.2 b hb
  constructor
  · rintro rfl
    exact absurd hletter.1 (by decide)
  · rintro rfl
    exact absurd hletter.1 (by decide)

theorem IsKey.not_prefix (h : IsKey word) {t : Bytes} (ht : ∀ b ∈ t.head?, b < 97 ∨ 122 < b) :
    ¬ word ++ [quote] <+: t := by
  obtain ⟨hne, hletters⟩ := h
  cases word with
  | nil => exact absurd rfl hne
  | cons b word =>
    intro hprefix
    obtain ⟨rest, rfl⟩ := hprefix
    have hletter := hletters b List.mem_cons_self
    rcases ht b rfl with hlow | hhigh
    · exact absurd hletter.1 (UInt8.not_le.mpr hlow)
    · exact absurd hletter.2 (UInt8.not_le.mpr hhigh)

theorem Closes.no_letter {t : Bytes} (h : Closes t) : ∀ b ∈ t.head?, b < 97 ∨ 122 < b := by
  obtain ⟨ws, rest, rfl, hrest⟩ := h
  intro b hb
  cases ws with
  | nil => rcases hrest b hb with rfl | rfl | rfl <;> decide
  | cons w ws =>
    obtain rfl : w.byte = b := Option.some.inj hb
    cases w <;> decide

theorem extract_append {seg : Bytes} (hseg : quote ∉ seg) (t : Bytes) :
    extractStringValue_ (seg ++ t) word = extractStringValue_ t word := by
  unfold extractStringValue_
  rw [behind_append hseg]

theorem extract_bare {seg : Bytes} (hseg : ∀ b ∈ seg, Bare b) (t : Bytes) :
    extractStringValue_ (seg ++ t) word = extractStringValue_ t word :=
  extract_append (fun hquote => (hseg quote hquote).1 rfl) t

theorem extract_string (hkey : IsKey word) (s : Str) {t : Bytes}
    (ht : ∀ b ∈ t.head?, b < 97 ∨ 122 < b) :
    extractStringValue_ (s.render ++ t) word =
      if s.Mentions word then valueBehind t else extractStringValue_ t word := by
  unfold extractStringValue_
  rw [behind_string hkey.bare s (hkey.not_prefix ht)]
  by_cases hmention : s.Mentions word
  · simp only [if_pos hmention]
  · simp only [if_neg hmention]

theorem closes_elements (rest : Elements) {t : Bytes} (ht : Closes t) :
    Closes (rest.separator ++ (rest.render ++ t)) := by
  cases rest with
  | none => exact ht
  | cons before v after rest => exact closes_cons (.inl rfl) _

theorem closes_members (rest : Members) {t : Bytes} (ht : Closes t) :
    Closes (rest.separator ++ (rest.render ++ t)) := by
  cases rest with
  | none => exact ht
  | cons before name beforeColon afterColon v after rest => exact closes_cons (.inl rfl) _

theorem bare_separator (rest : Elements) : ∀ b ∈ rest.separator, Bare b := by
  cases rest with
  | none => exact fun b hb => absurd hb List.not_mem_nil
  | cons before v after rest =>
    intro b hb
    rw [List.mem_singleton.mp hb]
    exact ⟨by decide, by decide⟩

theorem bare_memberSeparator (rest : Members) : ∀ b ∈ rest.separator, Bare b := by
  cases rest with
  | none => exact fun b hb => absurd hb List.not_mem_nil
  | cons before name beforeColon afterColon v after rest =>
    intro b hb
    rw [List.mem_singleton.mp hb]
    exact ⟨by decide, by decide⟩

theorem getD_orElse {α : Type} (x y : Option α) (z : α) :
    x.getD (y.getD z) = (x <|> y).getD z := by
  cases x <;> rfl

mutual

/-- The search goes through a value: it ends at the first mention, or goes on behind it. -/
theorem extract_value (hkey : IsKey word) (v : Value) (t : Bytes) (ht : Closes t) :
    extractStringValue_ (v.render ++ t) word =
      (mentionIn word v).getD (extractStringValue_ t word) := by
  cases v with
  | null => exact @extract_append word [110, 117, 108, 108] (by decide) t
  | true_ => exact @extract_append word [116, 114, 117, 101] (by decide) t
  | false_ => exact @extract_append word [102, 97, 108, 115, 101] (by decide) t
  | number n => exact extract_bare (bare_number n) t
  | string s =>
    rw [Value.render, extract_string hkey s ht.no_letter, mentionIn]
    by_cases hmention : s.Mentions word
    · rw [if_pos hmention, if_pos hmention, valueBehind_closes ht]
      rfl
    · rw [if_neg hmention, if_neg hmention]
      rfl
  | array inside es =>
    have hrender : (Value.array inside es).render ++ t =
        [91] ++ (blanks inside ++ (es.render ++ (93 :: t))) := by
      simp [Value.render]
    have hend : extractStringValue_ (93 :: t) word = extractStringValue_ t word :=
      @extract_append word [93] (by decide) t
    rw [hrender, extract_append (by decide), extract_bare (bare_blanks inside),
      extract_elements hkey es (93 :: t) (closes_cons (.inr (.inl rfl)) t), hend, mentionIn]
  | object inside ms =>
    have hrender : (Value.object inside ms).render ++ t =
        [123] ++ (blanks inside ++ (ms.render ++ (125 :: t))) := by
      simp [Value.render]
    have hend : extractStringValue_ (125 :: t) word = extractStringValue_ t word :=
      @extract_append word [125] (by decide) t
    rw [hrender, extract_append (by decide), extract_bare (bare_blanks inside),
      extract_members hkey ms (125 :: t) (closes_cons (.inr (.inr rfl)) t), hend, mentionIn]

theorem extract_elements (hkey : IsKey word) (es : Elements) (t : Bytes) (ht : Closes t) :
    extractStringValue_ (es.render ++ t) word =
      (mentionInElements word es).getD (extractStringValue_ t word) := by
  cases es with
  | none => rfl
  | cons before v after rest =>
    have hrender : (Elements.cons before v after rest).render ++ t = blanks before ++ (v.render ++
        (blanks after ++ (rest.separator ++ (rest.render ++ t)))) := by
      simp [Elements.render]
    rw [hrender, extract_bare (bare_blanks before),
      extract_value hkey v _ ((closes_elements rest ht).blanks after),
      extract_bare (bare_blanks after), extract_bare (bare_separator rest),
      extract_elements hkey rest t ht, mentionInElements]
    exact getD_orElse _ _ _

theorem extract_members (hkey : IsKey word) (ms : Members) (t : Bytes) (ht : Closes t) :
    extractStringValue_ (ms.render ++ t) word =
      (mentionInMembers word ms).getD (extractStringValue_ t word) := by
  cases ms with
  | none => rfl
  | cons before name beforeColon afterColon v after rest =>
    have hrender : (Members.cons before name beforeColon afterColon v after rest).render ++ t =
        blanks before ++ (name.render ++ (blanks beforeColon ++ (colon :: (blanks afterColon ++
          (v.render ++ (blanks after ++ (rest.separator ++ (rest.render ++ t)))))))) := by
      simp [Members.render]
    have hname : ∀ x : Bytes, ∀ b ∈ (blanks beforeColon ++ colon :: x).head?, b < 97 ∨ 122 < b := by
      intro x b hb
      cases beforeColon with
      | nil =>
        obtain rfl : colon = b := Option.some.inj hb
        decide
      | cons w ws =>
        obtain rfl : w.byte = b := Option.some.inj hb
        cases w <;> decide
    rw [hrender, extract_bare (bare_blanks before), extract_string hkey name (hname _),
      mentionInMembers]
    by_cases hmention : name.Mentions word
    · rw [if_pos hmention, if_pos hmention, valueBehind_name]
      rfl
    · have hcolon : ∀ x : Bytes, extractStringValue_ (colon :: x) word =
          extractStringValue_ x word :=
        fun x => @extract_append word [colon] (by decide) x
      rw [if_neg hmention, if_neg hmention, extract_bare (bare_blanks beforeColon), hcolon,
        extract_bare (bare_blanks afterColon),
        extract_value hkey v _ ((closes_members rest ht).blanks after),
        extract_bare (bare_blanks after), extract_bare (bare_memberSeparator rest),
        extract_members hkey rest t ht]
      exact getD_orElse _ _ _

end

/-- On the text of an object the fast path reads what is written at the first mention. -/
theorem extract_object (hkey : IsKey word) (d : ObjectText) :
    extractStringValue_ d.render word = written word d := by
  have hend : extractStringValue_ (blanks d.after) word = none := by
    have hskip := @extract_bare word (blanks d.after) (bare_blanks d.after) []
    rw [List.append_nil] at hskip
    rw [hskip]
    unfold extractStringValue_
    rw [behind_nil]
  have hclose : Closes (blanks d.after) := ⟨d.after, [], by simp, fun b hb => absurd hb (by simp)⟩
  unfold ObjectText.render written
  rw [extract_bare (bare_blanks d.before), extract_value hkey _ _ hclose, hend, mentionIn]

/-! Verdicts. -/

/-- What a code and a market say. -/
def said (code market : Option Bytes) : List Bytes := code.toList ++ market.toList

/-- All values are the market `m`, and there is one. -/
def Unanimous (values : List Bytes) (m : Bytes) : Prop := values ≠ [] ∧ ∀ x ∈ values, x = m

def Conflicting (values : List Bytes) : Prop := ∃ x ∈ values, ∃ y ∈ values, x ≠ y

theorem unanimous_said_iff (code market : Option Bytes) (m : Bytes) :
    Unanimous (said code market) m ↔
      (code = some m ∧ market = some m) ∨ (code = some m ∧ market = none) ∨
        (code = none ∧ market = some m) := by
  cases code <;> cases market <;> simp [Unanimous, said]

theorem conflicting_said_iff (code market : Option Bytes) :
    Conflicting (said code market) ↔ ∃ x y, code = some x ∧ market = some y ∧ x ≠ y := by
  cases code with
  | none => cases market <;> simp [Conflicting, said]
  | some x =>
    cases market with
    | none => simp [Conflicting, said]
    | some y =>
      simp only [Conflicting, said, Option.toList_some, List.singleton_append, List.mem_cons,
        List.not_mem_nil, or_false, Option.some.injEq]
      constructor
      · rintro ⟨a, rfl | rfl, b, rfl | rfl, hne⟩
        · exact absurd rfl hne
        · exact ⟨_, _, rfl, rfl, hne⟩
        · exact ⟨_, _, rfl, rfl, hne.symm⟩
        · exact absurd rfl hne
      · rintro ⟨a, b, rfl, rfl, hne⟩
        exact ⟨_, .inl rfl, _, .inr rfl, hne⟩

theorem fast_iff (json : Bytes) :
    (∀ m, (extractMarketFast_ json).market = some m ↔
      Unanimous (said (extractStringValue_ json code) (extractStringValue_ json market)) m) ∧
    ((extractMarketFast_ json).hadConflict = true ↔
      Conflicting (said (extractStringValue_ json code) (extractStringValue_ json market))) := by
  simp only [unanimous_said_iff, conflicting_said_iff]
  unfold extractMarketFast_
  cases extractStringValue_ json code with
  | none => cases extractStringValue_ json market <;> simp
  | some x =>
    cases extractStringValue_ json market with
    | none => simp
    | some y =>
      by_cases hxy : x = y
      · subst hxy
        simp
      · simp only [if_neg hxy]
        refine ⟨fun m => iff_of_false (by simp) ?_, fun _ => ⟨x, y, rfl, rfl, hxy⟩, fun _ => trivial⟩
        rintro (⟨hx, hy⟩ | ⟨-, hy⟩ | ⟨hx, -⟩)
        · exact hxy ((Option.some.inj hx).trans (Option.some.inj hy).symm)
        · exact absurd hy (by simp)
        · exact absurd hx (by simp)

/-- A field as the slow path takes it. -/
def field (word : Bytes) (parsed : Data) : Option Bytes :=
  if stringAt word parsed = [] then none else some (stringAt word parsed)

theorem slow_iff (parse : Bytes → Option Data) (json : Bytes) (m : Bytes) :
    extractMarketSlow_ parse json = some m ↔
      Unanimous (said ((parse json).bind (field code)) ((parse json).bind (field market))) m := by
  rw [unanimous_said_iff]
  unfold extractMarketSlow_
  cases parse json with
  | none => simp
  | some parsed =>
    simp only [Option.bind_some, field]
    generalize stringAt code parsed = x
    generalize stringAt market parsed = y
    by_cases hx : x = []
    · by_cases hy : y = []
      · simp [hx, hy]
      · simp [hx, hy]
    · by_cases hy : y = []
      · simp [hx, hy]
      · by_cases hxy : x = y
        · subst hxy
          simp [hx]
        · simp only [hx, hy, hxy, ne_eq, not_false_eq_true, and_self, if_true, if_false,
            Option.some.injEq, reduceCtorEq, and_false, false_and, or_false, false_iff, not_and]
          exact fun hm hm' => hxy (hm.trans hm'.symm)

theorem find_cons (word k : Bytes) (x : Data) (fields : List (Bytes × Data)) :
    (Data.object ((k, x) :: fields)).find word =
      ((Data.object fields).find word <|> if k = word then some x else none) := by
  simp only [Data.find]
  by_cases hkw : k = word
  · rw [List.filter_cons_of_pos (by simpa using hkw), List.getLast?_cons, if_pos hkw]
    cases (fields.filter (fun f => f.1 == word)).getLast? <;> rfl
  · rw [List.filter_cons_of_neg (by simpa using hkw), if_neg hkw]
    cases (fields.filter (fun f => f.1 == word)).getLast? <;> rfl

/-- The field that is found is the last member with the name. -/
theorem find_members (word : Bytes) (ms : Members) (fields : List (Bytes × Data))
    (h : ms.data = some fields) :
    (lastNamed word ms = none ∧ (Data.object fields).find word = none) ∨
    ∃ v x, lastNamed word ms = some v ∧ v.data = some x ∧
      (Data.object fields).find word = some x := by
  cases ms with
  | none =>
    obtain rfl : [] = fields := Option.some.inj h
    exact .inl ⟨rfl, rfl⟩
  | cons before name beforeColon afterColon v after rest =>
    rw [Members.data] at h
    obtain ⟨k, hk, h⟩ := Option.bind_eq_some_iff.mp h
    obtain ⟨x, hx, h⟩ := Option.bind_eq_some_iff.mp h
    obtain ⟨fields', hrest, rfl⟩ := Option.map_eq_some_iff.mp h
    rw [lastNamed, find_cons, hk]
    rcases find_members word rest fields' hrest with ⟨hnone, hfind⟩ | ⟨v', x', hsome, hx', hfind⟩
    · rw [hnone, hfind]
      by_cases hkw : k = word
      · rw [if_pos (congrArg some hkw), if_pos hkw]
        exact .inr ⟨v, x, rfl, hx, rfl⟩
      · rw [if_neg (fun heq => hkw (Option.some.inj heq)), if_neg hkw]
        exact .inl ⟨rfl, rfl⟩
    · rw [hsome, hfind]
      exact .inr ⟨v', x', rfl, hx', rfl⟩

theorem field_data (word : Bytes) (d : ObjectText) : d.data.bind (field word) = ownField word d := by
  unfold ownField
  obtain hnone | ⟨parsed, hparsed⟩ := Option.eq_none_or_eq_some d.data
  · rw [hnone]
    rfl
  · obtain ⟨fields, hfields, rfl⟩ := Option.map_eq_some_iff.mp hparsed
    rw [hparsed, Option.bind_some, Option.isSome_some, if_pos rfl]
    unfold field stringAt
    rcases find_members word d.members fields hfields with ⟨hnone, hfind⟩ | ⟨v, x, hsome, hx, hfind⟩
    · rw [hnone, hfind]
      rfl
    · rw [hsome, hfind, Option.bind_some]
      cases v with
      | string s =>
        obtain ⟨text, htext, rfl⟩ := Option.map_eq_some_iff.mp hx
        simp only [sayingOf, htext, Option.filter_some, decide_not]
        by_cases hempty : text = []
        · simp [hempty]
        · simp [hempty]
      | null => obtain rfl : Data.null = x := Option.some.inj hx; rfl
      | true_ => obtain rfl : Data.bool true = x := Option.some.inj hx; rfl
      | false_ => obtain rfl : Data.bool false = x := Option.some.inj hx; rfl
      | number n => obtain rfl : Data.number n.render = x := Option.some.inj hx; rfl
      | array inside es => obtain ⟨xs, -, rfl⟩ := Option.map_eq_some_iff.mp hx; rfl
      | object inside ms => obtain ⟨xs, -, rfl⟩ := Option.map_eq_some_iff.mp hx; rfl

/-! Where the paths agree. -/

/-- The market the fast path returns the slow path returns, and where the fast path reports a
    conflict the slow path returns none. -/
def PathsAgree (parse : Bytes → Option Data) (json : Bytes) : Prop :=
  (∀ m, (extractMarketFast_ json).market = some m → extractMarketSlow_ parse json = some m) ∧
    ((extractMarketFast_ json).hadConflict = true → extractMarketSlow_ parse json = none)

theorem verdict_cases (code market : Option Bytes) :
    said code market = [] ∨ (∃ m, Unanimous (said code market) m) ∨
      Conflicting (said code market) := by
  simp only [unanimous_said_iff, conflicting_said_iff]
  cases code with
  | none => cases market <;> simp [said]
  | some x =>
    cases market with
    | none => simp
    | some y =>
      by_cases hxy : x = y
      · exact .inr (.inl ⟨x, .inl ⟨rfl, by rw [hxy]⟩⟩)
      · exact .inr (.inr ⟨x, y, rfl, rfl, hxy⟩)

theorem not_unanimous_iff (code market : Option Bytes) :
    (∀ m, ¬ Unanimous (said code market) m) ↔
      said code market = [] ∨ Conflicting (said code market) := by
  constructor
  · intro hnone
    rcases verdict_cases code market with hempty | ⟨m, hm⟩ | hconflict
    · exact .inl hempty
    · exact absurd hm (hnone m)
    · exact .inr hconflict
  · rintro (hempty | ⟨x, hx, y, hy, hxy⟩) m ⟨hne, hall⟩
    · exact hne hempty
    · exact hxy ((hall x hx).trans (hall y hy).symm)

/-- What is written at the first mentions of the keys tells what the object's own fields tell: one
    market and the same, or two different ones where the fields tell none or two different ones. -/
structure TellsTheSame (d : ObjectText) : Prop where
  one : ∀ m, Unanimous (said (written code d) (written market d)) m →
    Unanimous (said (ownField code d) (ownField market d)) m
  two : Conflicting (said (written code d) (written market d)) →
    said (ownField code d) (ownField market d) = [] ∨
      Conflicting (said (ownField code d) (ownField market d))

/-- **When the fast path agrees with the slow path.** On the text of any JSON object that the
    parser reads as what it means, the two paths agree exactly when what is written at the first
    mentions of the keys tells what the object's own fields tell. -/
theorem paths_agree_iff (parse : Bytes → Option Data) (d : ObjectText)
    (hparse : parse d.render = d.data) : PathsAgree parse d.render ↔ TellsTheSame d := by
  obtain ⟨hmarket, hconflict⟩ := fast_iff d.render
  have hslow := slow_iff parse d.render
  have hnone : extractMarketSlow_ parse d.render = none ↔
      said (ownField code d) (ownField market d) = [] ∨
        Conflicting (said (ownField code d) (ownField market d)) := by
    rw [← not_unanimous_iff, Option.eq_none_iff_forall_ne_some]
    simp only [ne_eq, hslow, hparse, field_data]
  rw [extract_object (by decide), extract_object (by decide)] at hmarket hconflict
  rw [hparse, field_data, field_data] at hslow
  unfold PathsAgree
  simp only [hmarket, hconflict, hslow, hnone]
  exact ⟨fun h => ⟨h.1, h.2⟩, fun h => ⟨h.one, h.two⟩⟩

/-- A ticker as the exchange sends it. -/
def ticker : ObjectText where
  before := []
  inside := []
  members := .cons [] (spell "type") [] [] (.string (spell "ticker")) []
    (.cons [] (spell "code") [] [.space] (.string (spell "KRW-BTC")) [] .none)
  after := []

theorem paths_agree_iff_ticker : PathsAgree (fun _ => ticker.data) ticker.render := by
  refine (paths_agree_iff (fun _ => ticker.data) ticker rfl).mpr ⟨fun m hm => ?_, fun hconflict => ?_⟩
  · have hsame : said (written code ticker) (written market ticker) =
        said (ownField code ticker) (ownField market ticker) := by decide +kernel
    exact hsame ▸ hm
  · have hno : said (written code ticker) (written market ticker) =
        [(spell "KRW-BTC").raw] := by decide +kernel
    rw [hno] at hconflict
    obtain ⟨x, hx, y, hy, hxy⟩ := hconflict
    exact absurd ((List.mem_singleton.mp hx).trans (List.mem_singleton.mp hy).symm) hxy

/-- An object that has a code only inside of another field. -/
def nested : ObjectText where
  before := []
  inside := []
  members := .cons [] (spell "x") [] []
    (.object [] (.cons [] (spell "code") [] [] (.string (spell "KRW-BTC")) [] .none)) [] .none
  after := []

/-- The fast path takes the market from the inner object, the slow path finds none. -/
theorem not_paths_agree :
    ¬ ∀ (parse : Bytes → Option Data) (d : ObjectText), parse d.render = d.data →
      PathsAgree parse d.render := by
  intro hall
  have hfast : (extractMarketFast_ nested.render).market = some (spell "KRW-BTC").raw := by
    decide +kernel
  have hslow : extractMarketSlow_ (fun _ => nested.data) nested.render = none := by
    decide +kernel
  have hagree := (hall (fun _ => nested.data) nested rfl).1 _ hfast
  rw [hslow] at hagree
  exact absurd hagree (by simp)

/-! Routing. -/

/-- The router with its slow path alone. -/
def routeSlow (parse : Bytes → Option Data) (r : EventRouter) (json : Bytes) (input : RawInput) :
    Bool × EventRouter :=
  if !r.accepting then (false, r)
  else match extractMarketSlow_ parse json with
    | some key => r.deliver input key { r.stats with fallbackUsed := r.stats.fallbackUsed + 1 }
    | none => (false, { r with stats := { r.stats with parseFailures := r.stats.parseFailures + 1 } })

theorem routes_deliver (r : EventRouter) (input : RawInput) (key : Bytes) (stats stats' : Stats) :
    (r.deliver input key stats).1 = (r.deliver input key stats').1 ∧
      (r.deliver input key stats).2.routes = (r.deliver input key stats').2.routes := by
  unfold deliver
  cases r.routes.lookup key with
  | none => exact ⟨rfl, rfl⟩
  | some queue => exact ⟨rfl, rfl⟩

/-- Where the paths agree, the message goes to the queue the slow path alone sends it to. -/
theorem route_eq_slow {parse : Bytes → Option Data} {json : Bytes} (h : PathsAgree parse json)
    (r : EventRouter) (input : RawInput) :
    (r.route parse json input).1 = (r.routeSlow parse json input).1 ∧
      (r.route parse json input).2.routes = (r.routeSlow parse json input).2.routes := by
  obtain ⟨hmarket, hconflict⟩ := h
  unfold route routeSlow
  cases r.accepting with
  | false => exact ⟨rfl, rfl⟩
  | true =>
    simp only [Bool.not_true, Bool.false_eq_true, if_false]
    by_cases hfast : (extractMarketFast_ json).hadConflict = true
    · rw [if_pos hfast, hconflict hfast]
      exact ⟨rfl, rfl⟩
    · rw [if_neg hfast]
      obtain hnone | ⟨m, hm⟩ := Option.eq_none_or_eq_some (extractMarketFast_ json).market
      · rw [hnone]
        cases extractMarketSlow_ parse json <;> exact ⟨rfl, rfl⟩
      · rw [hm, hmarket m hm]
        exact routes_deliver r input m _ _

end CoinBot.EventRouter
