import Mathlib.Data.List.Basic
import Mathlib.Data.List.TakeWhile
import Mathlib.Tactic.Common

/- JSON texts.

   A text is a syntax tree: what was written, with its white space, its escapes and
   the digits of its numbers. `render` gives the bytes (UTF-8), `data` what they
   mean, none where a string has half of a surrogate pair. A quotation mark in the
   bytes of a text opens a string, closes one, or stands behind a backslash inside of
   one; the lemmas here are about what a search for a quoted word finds. -/
namespace Json

abbrev Bytes := List UInt8

def quote : UInt8 := 34
def backslash : UInt8 := 92
def colon : UInt8 := 58
def comma : UInt8 := 44

/-! White space. -/

inductive Blank where
  | space
  | tab
  | newline
  | carriageReturn
  deriving DecidableEq, Repr

def Blank.byte : Blank → UInt8
  | .space => 32
  | .tab => 9
  | .newline => 10
  | .carriageReturn => 13

/-- White space between tokens. -/
def blanks (ws : List Blank) : Bytes := ws.map Blank.byte

/-! Strings. -/

/-- A character that a string may have as it is. -/
structure PlainChar where
  char : Char
  not_control : 32 ≤ char.toNat
  not_quote : char ≠ '"'
  not_backslash : char ≠ '\\'
  deriving DecidableEq

inductive Escape where
  | quote
  | backslash
  | slash
  | backspace
  | formFeed
  | newline
  | carriageReturn
  | tab
  deriving DecidableEq, Repr

/-- The letter behind the backslash. -/
def Escape.letter : Escape → UInt8
  | .quote => 34
  | .backslash => 92
  | .slash => 47
  | .backspace => 98
  | .formFeed => 102
  | .newline => 110
  | .carriageReturn => 114
  | .tab => 116

/-- The character it stands for. -/
def Escape.denotes : Escape → UInt8
  | .quote => 34
  | .backslash => 92
  | .slash => 47
  | .backspace => 8
  | .formFeed => 12
  | .newline => 10
  | .carriageReturn => 13
  | .tab => 9

/-- A hexadecimal digit; the letters may be of either case. -/
structure HexDigit where
  value : Fin 16
  upper : Bool
  deriving DecidableEq, Repr

def HexDigit.byte (d : HexDigit) : UInt8 :=
  if d.value.val < 10 then UInt8.ofNat (48 + d.value.val)
  else UInt8.ofNat ((if d.upper then 55 else 87) + d.value.val)

/-- What a string is written of. -/
inductive Piece where
  | plain (c : PlainChar)
  | escape (e : Escape)
  | unicode (a b c d : HexDigit)
  deriving DecidableEq

def Piece.render : Piece → Bytes
  | .plain c => String.utf8EncodeChar c.char
  | .escape e => [Json.backslash, e.letter]
  | .unicode a b c d => [Json.backslash, 117, a.byte, b.byte, c.byte, d.byte]

/-- A string as it is written between the quotation marks. -/
abbrev Str := List Piece

def Str.raw (s : Str) : Bytes := s.flatMap Piece.render

def Str.render (s : Str) : Bytes := quote :: (s.raw ++ [quote])

/-- Written without escapes. -/
def Str.plain (s : Str) : Bool :=
  s.all fun p =>
    match p with
    | .plain _ => true
    | .escape _ => false
    | .unicode _ _ _ _ => false

/-- A string without escapes, of the characters that need none. -/
def spell (s : String) : Str :=
  s.toList.filterMap fun c =>
    if h : 32 ≤ c.toNat ∧ c ≠ '"' ∧ c ≠ '\\' then some (.plain ⟨c, h.1, h.2.1, h.2.2⟩) else none

/-- The code unit of a `\u` escape. -/
def codeUnit (a b c d : HexDigit) : Nat :=
  ((a.value.val * 16 + b.value.val) * 16 + c.value.val) * 16 + d.value.val

/-- What a string denotes, none where one half of a surrogate pair is missing. -/
def Str.decode : Str → Option Bytes
  | [] => some []
  | .plain c :: ps => (Str.decode ps).map (String.utf8EncodeChar c.char ++ ·)
  | .escape e :: ps => (Str.decode ps).map (e.denotes :: ·)
  | .unicode a b c d :: ps =>
    let unit := codeUnit a b c d
    if 0xD800 ≤ unit ∧ unit < 0xDC00 then
      match ps with
      | .unicode a' b' c' d' :: ps' =>
        let low := codeUnit a' b' c' d'
        if 0xDC00 ≤ low ∧ low < 0xE000 then
          (Str.decode ps').map (String.utf8EncodeChar
            (Char.ofNat (0x10000 + (unit - 0xD800) * 0x400 + (low - 0xDC00))) ++ ·)
        else none
      | _ => none
    else if 0xDC00 ≤ unit ∧ unit < 0xE000 then none
    else (Str.decode ps).map (String.utf8EncodeChar (Char.ofNat unit) ++ ·)

/-! Numbers. -/

def digit (d : Fin 10) : UInt8 := UInt8.ofNat (48 + d.val)

/-- The exponent of a number: its letter, its sign if there is one, its digits. -/
structure Exponent where
  upper : Bool
  sign : Option Bool
  first : Fin 10
  rest : List (Fin 10)
  deriving DecidableEq, Repr

structure Number where
  negative : Bool
  first : Fin 10
  rest : List (Fin 10)
  no_leading_zero : first = 0 → rest = []
  fraction : Option (Fin 10 × List (Fin 10))
  exponent : Option Exponent
  deriving DecidableEq, Repr

/-- A number of one digit. -/
def Number.ofDigit (d : Fin 10) : Number where
  negative := false
  first := d
  rest := []
  no_leading_zero := fun _ => rfl
  fraction := none
  exponent := none

def Exponent.render (x : Exponent) : Bytes :=
  (if x.upper then 69 else 101) ::
    ((match x.sign with
      | none => []
      | some true => [45]
      | some false => [43]) ++ digit x.first :: x.rest.map digit)

def Number.render (n : Number) : Bytes :=
  (if n.negative then [45] else []) ++ (digit n.first :: n.rest.map digit) ++
    (match n.fraction with
      | none => []
      | some (first, rest) => 46 :: digit first :: rest.map digit) ++
    (match n.exponent with
      | none => []
      | some x => x.render)

/-! Values. -/

mutual

/-- A value as it is written. -/
inductive Value where
  | null
  | true_
  | false_
  | number (n : Number)
  | string (s : Str)
  | array (inside : List Blank) (elements : Elements)
  | object (inside : List Blank) (members : Members)

/-- The elements of an array, each between white space. -/
inductive Elements where
  | none
  | cons (before : List Blank) (value : Value) (after : List Blank) (rest : Elements)

/-- The members of an object. -/
inductive Members where
  | none
  | cons (before : List Blank) (name : Str) (beforeColon afterColon : List Blank) (value : Value)
      (after : List Blank) (rest : Members)

end

/-- The comma in front of what follows, when something does. -/
def Elements.separator : Elements → Bytes
  | .none => []
  | .cons _ _ _ _ => [Json.comma]

def Members.separator : Members → Bytes
  | .none => []
  | .cons _ _ _ _ _ _ _ => [Json.comma]

mutual

def Value.render : Value → Bytes
  | .null => [110, 117, 108, 108]
  | .true_ => [116, 114, 117, 101]
  | .false_ => [102, 97, 108, 115, 101]
  | .number n => n.render
  | .string s => s.render
  | .array inside es => 91 :: (blanks inside ++ (es.render ++ [93]))
  | .object inside ms => 123 :: (blanks inside ++ (ms.render ++ [125]))

def Elements.render : Elements → Bytes
  | .none => []
  | .cons before v after rest =>
    blanks before ++ (v.render ++ (blanks after ++ (rest.separator ++ rest.render)))

def Members.render : Members → Bytes
  | .none => []
  | .cons before name beforeColon afterColon v after rest =>
    blanks before ++ (name.render ++ (blanks beforeColon ++ (Json.colon :: (blanks afterColon ++
      (v.render ++ (blanks after ++ (rest.separator ++ rest.render)))))))

end

/-- The text of an object. -/
structure ObjectText where
  before : List Blank
  inside : List Blank
  members : Members
  after : List Blank

def ObjectText.render (d : ObjectText) : Bytes :=
  blanks d.before ++ ((Value.object d.inside d.members).render ++ blanks d.after)

/-! What a text means. -/

/-- Parsed JSON. Of a number only the text is kept; the fields of an object are in the order they
    are written, and of two with the same name the last counts. -/
inductive Data where
  | null
  | bool (b : Bool)
  | number (text : Bytes)
  | string (s : Bytes)
  | array (xs : List Data)
  | object (fields : List (Bytes × Data))

/-- The field with the name. -/
def Data.find (name : Bytes) : Data → Option Data
  | .object fields => ((fields.filter (fun f => f.1 == name)).getLast?).map (·.2)
  | _ => none

mutual

def Value.data : Value → Option Data
  | .null => some .null
  | .true_ => some (.bool true)
  | .false_ => some (.bool false)
  | .number n => some (.number n.render)
  | .string s => s.decode.map .string
  | .array _ es => es.data.map .array
  | .object _ ms => ms.data.map .object

def Elements.data : Elements → Option (List Data)
  | .none => some []
  | .cons _ v _ rest => v.data.bind (fun x => rest.data.map (x :: ·))

def Members.data : Members → Option (List (Bytes × Data))
  | .none => some []
  | .cons _ name _ _ v _ rest =>
    name.decode.bind (fun k => v.data.bind (fun x => rest.data.map ((k, x) :: ·)))

end

def ObjectText.data (d : ObjectText) : Option Data := (Value.object d.inside d.members).data

/-! No quotation mark between the strings, and no bare one in them. -/

/-- Neither byte is one of a string's own marks. -/
def Bare (b : UInt8) : Prop := b ≠ quote ∧ b ≠ backslash

theorem bare_plain (c : PlainChar) : ∀ b ∈ String.utf8EncodeChar c.char, Bare b := by
  have hquote : c.char.val.toNat ≠ 34 := fun heq =>
    c.not_quote (Char.ext (UInt32.toNat_inj.mp heq))
  have hbackslash : c.char.val.toNat ≠ 92 := fun heq =>
    c.not_backslash (Char.ext (UInt32.toNat_inj.mp heq))
  intro b hb
  have hbyte : b.toNat ≠ 34 ∧ b.toNat ≠ 92 := by
    unfold String.utf8EncodeChar at hb
    simp only at hb
    split at hb
    · obtain rfl := List.mem_singleton.mp hb
      rw [UInt8.toNat_ofNat']
      omega
    · split at hb
      · simp only [List.mem_cons, List.not_mem_nil, or_false] at hb
        rcases hb with rfl | rfl <;> simp only [UInt8.toNat_ofNat'] <;> omega
      · split at hb
        · simp only [List.mem_cons, List.not_mem_nil, or_false] at hb
          rcases hb with rfl | rfl | rfl <;> simp only [UInt8.toNat_ofNat'] <;> omega
        · simp only [List.mem_cons, List.not_mem_nil, or_false] at hb
          rcases hb with rfl | rfl | rfl | rfl <;> simp only [UInt8.toNat_ofNat'] <;> omega
  exact ⟨fun heq => hbyte.1 (by rw [heq]; rfl), fun heq => hbyte.2 (by rw [heq]; rfl)⟩

theorem bare_hexDigit (d : HexDigit) : Bare d.byte := by
  obtain ⟨value, upper⟩ := d
  unfold Bare HexDigit.byte quote backslash
  cases upper <;> revert value <;> decide

theorem bare_blanks (ws : List Blank) : ∀ b ∈ blanks ws, Bare b := by
  intro b hb
  obtain ⟨w, -, rfl⟩ := List.mem_map.mp hb
  unfold Bare
  cases w <;> decide

theorem bare_digit (d : Fin 10) : Bare (digit d) := by
  unfold Bare digit quote backslash
  revert d
  decide

theorem bare_digits (ds : List (Fin 10)) : ∀ b ∈ ds.map digit, Bare b := by
  intro b hb
  obtain ⟨d, -, rfl⟩ := List.mem_map.mp hb
  exact bare_digit d

theorem bare_exponent (x : Exponent) : ∀ b ∈ x.render, Bare b := by
  intro b hb
  unfold Exponent.render at hb
  rcases List.mem_cons.mp hb with rfl | hb
  · cases x.upper <;> exact ⟨by decide, by decide⟩
  · rcases List.mem_append.mp hb with hsign | hdigits
    · cases hx : x.sign with
      | none => rw [hx] at hsign; exact absurd hsign List.not_mem_nil
      | some negative =>
        rw [hx] at hsign
        cases negative
        · rw [List.mem_singleton.mp hsign]; exact ⟨by decide, by decide⟩
        · rw [List.mem_singleton.mp hsign]; exact ⟨by decide, by decide⟩
    · exact bare_digits (x.first :: x.rest) b hdigits

theorem bare_number (n : Number) : ∀ b ∈ n.render, Bare b := by
  intro b hb
  unfold Number.render at hb
  rcases List.mem_append.mp hb with hb | hexponent
  · rcases List.mem_append.mp hb with hb | hfraction
    · rcases List.mem_append.mp hb with hsign | hdigits
      · cases hn : n.negative <;> rw [hn] at hsign
        · exact absurd hsign List.not_mem_nil
        · rw [List.mem_singleton.mp hsign]; exact ⟨by decide, by decide⟩
      · exact bare_digits (n.first :: n.rest) b hdigits
    · cases hf : n.fraction with
      | none => rw [hf] at hfraction; exact absurd hfraction List.not_mem_nil
      | some f =>
        rw [hf] at hfraction
        rcases List.mem_cons.mp hfraction with rfl | hdigits
        · exact ⟨by decide, by decide⟩
        · exact bare_digits (f.1 :: f.2) b hdigits
  · cases hx : n.exponent with
    | none => rw [hx] at hexponent; exact absurd hexponent List.not_mem_nil
    | some x => rw [hx] at hexponent; exact bare_exponent x b hexponent

/-! A search for a quoted word. -/

/-- What stands behind the first occurrence of a pattern. -/
def behind (pattern : Bytes) : Bytes → Option Bytes
  | [] => if pattern = [] then some [] else none
  | b :: bs => if pattern <+: b :: bs then some ((b :: bs).drop pattern.length)
      else behind pattern bs

/-- A word in quotation marks. -/
def quoted (word : Bytes) : Bytes := quote :: (word ++ [quote])

variable {word : Bytes}

theorem behind_nil : behind (quoted word) [] = none := if_neg (List.cons_ne_nil _ _)

theorem behind_append {seg : Bytes} (hseg : quote ∉ seg) (t : Bytes) :
    behind (quoted word) (seg ++ t) = behind (quoted word) t := by
  induction seg with
  | nil => rfl
  | cons b seg ih =>
    have hb : ¬ quoted word <+: b :: (seg ++ t) := by
      intro hstart
      have heq := (List.cons_prefix_cons.mp hstart).1
      exact hseg (heq ▸ List.mem_cons_self)
    rw [List.cons_append, behind, if_neg hb]
    exact ih (List.not_mem_of_not_mem_cons hseg)

/-- What stands in a string before its first bare quotation mark or behind a backslash. -/
theorem takeWhile_raw (s : Str) (t : Bytes) :
    backslash ∈ (s.raw ++ quote :: t).takeWhile (· ≠ quote) ∨
      (s.raw ++ quote :: t).takeWhile (· ≠ quote) = s.raw := by
  have hescape : ∀ x : Bytes, backslash ∈ (backslash :: x).takeWhile (· ≠ quote) := by
    intro x
    rw [List.takeWhile_cons_of_pos (by decide)]
    exact List.mem_cons_self
  induction s with
  | nil => exact .inr (List.takeWhile_cons_of_neg (by simp))
  | cons p s ih =>
    have hraw : Str.raw (p :: s) = p.render ++ Str.raw s := rfl
    rw [hraw, List.append_assoc]
    cases p with
    | plain c =>
      have hbare : ∀ b ∈ (Piece.plain c).render, (b ≠ quote : Bool) = true := by
        intro b hb
        simpa using (bare_plain c b hb).1
      rw [List.takeWhile_append_of_pos hbare]
      rcases ih with hin | heq
      · exact .inl (List.mem_append_right _ hin)
      · exact .inr (by rw [heq])
    | escape e => exact .inl (hescape _)
    | unicode a b c d => exact .inl (hescape _)

theorem prefix_raw_iff (hword : ∀ b ∈ word, Bare b) (s : Str) (t : Bytes) :
    word ++ [quote] <+: s.raw ++ quote :: t ↔ s.raw = word := by
  constructor
  · rintro ⟨rest, hrest⟩
    have htake : (s.raw ++ quote :: t).takeWhile (· ≠ quote) = word := by
      rw [← hrest, List.append_assoc, List.takeWhile_append_of_pos (fun b hb => by
        simpa using (hword b hb).1)]
      rw [List.singleton_append, List.takeWhile_cons_of_neg (by simp), List.append_nil]
    rcases takeWhile_raw s t with hin | heq
    · rw [htake] at hin
      exact absurd rfl (hword backslash hin).2
    · rw [← heq, htake]
  · rintro rfl
    exact ⟨t, by simp⟩

/-- The string mentions the word: it is the word, or it ends with a quotation mark and the word. -/
def Str.Mentions (word : Bytes) (s : Str) : Prop := s.raw = word ∨ quote :: word <:+ s.raw

instance (word : Bytes) (s : Str) : Decidable (s.Mentions word) :=
  inferInstanceAs (Decidable (_ ∨ _))

theorem suffix_append_iff {seg x : Bytes} (hseg : quote ∉ seg) :
    quote :: word <:+ seg ++ x ↔ quote :: word <:+ x := by
  induction seg with
  | nil => exact Iff.rfl
  | cons b seg ih =>
    rw [List.cons_append, List.suffix_cons_iff, ih (List.not_mem_of_not_mem_cons hseg)]
    refine ⟨fun h => h.resolve_left (fun heq => ?_), .inr⟩
    exact hseg ((List.cons.inj heq).1 ▸ List.mem_cons_self)

theorem quote_not_mem_render {p : Piece} (h : p ≠ .escape .quote) : quote ∉ p.render := by
  intro hmem
  cases p with
  | plain c => exact (bare_plain c quote hmem).1 rfl
  | unicode a b c d =>
    simp only [Piece.render, List.mem_cons, List.not_mem_nil, or_false] at hmem
    rcases hmem with heq | heq | heq | heq | heq | heq
    · exact absurd heq (by decide)
    · exact absurd heq (by decide)
    · exact (bare_hexDigit a).1 heq.symm
    · exact (bare_hexDigit b).1 heq.symm
    · exact (bare_hexDigit c).1 heq.symm
    · exact (bare_hexDigit d).1 heq.symm
  | escape e =>
    simp only [Piece.render, List.mem_cons, List.not_mem_nil, or_false] at hmem
    rcases hmem with heq | heq
    · exact absurd heq (by decide)
    · cases e with
      | quote => exact h rfl
      | backslash => exact absurd heq (by decide)
      | slash => exact absurd heq (by decide)
      | backspace => exact absurd heq (by decide)
      | formFeed => exact absurd heq (by decide)
      | newline => exact absurd heq (by decide)
      | carriageReturn => exact absurd heq (by decide)
      | tab => exact absurd heq (by decide)

theorem suffix_escapedQuote_iff (s : Str) :
    quote :: word <:+ (Piece.escape .quote).render ++ Str.raw s ↔
      Str.raw s = word ∨ quote :: word <:+ Str.raw s := by
  have hskip := @suffix_append_iff word [backslash] (quote :: Str.raw s) (by decide)
  refine hskip.trans ?_
  rw [List.suffix_cons_iff, List.cons_inj_right, eq_comm]

theorem behind_raw (hword : ∀ b ∈ word, Bare b) (s : Str) {t : Bytes}
    (ht : ¬ word ++ [quote] <+: t) :
    behind (quoted word) (s.raw ++ quote :: t) =
      if quote :: word <:+ s.raw then some t else behind (quoted word) t := by
  induction s with
  | nil =>
    have hstart : ¬ quoted word <+: quote :: t := fun h => ht (List.cons_prefix_cons.mp h).2
    have hsuffix : ¬ quote :: word <:+ Str.raw [] := fun h =>
      absurd (List.suffix_nil.mp h) (List.cons_ne_nil _ _)
    rw [if_neg hsuffix]
    show behind (quoted word) (quote :: t) = _
    rw [behind, if_neg hstart]
  | cons p s ih =>
    have hraw : Str.raw (p :: s) = p.render ++ Str.raw s := rfl
    rw [hraw, List.append_assoc]
    by_cases hquote : p = .escape .quote
    · -- An escaped quotation mark: the word may start right behind it.
      subst hquote
      have hfirst : ∀ x : Bytes, behind (quoted word) ((Piece.escape .quote).render ++ x) =
          behind (quoted word) (quote :: x) := by
        intro x
        exact @behind_append word [backslash] (by decide) (quote :: x)
      rw [hfirst, behind]
      by_cases hhere : Str.raw s = word
      · have hstart : quoted word <+: quote :: (Str.raw s ++ quote :: t) :=
          List.cons_prefix_cons.mpr ⟨rfl, (prefix_raw_iff hword s t).mpr hhere⟩
        rw [if_pos hstart, if_pos ((suffix_escapedQuote_iff s).mpr (.inl hhere)), hhere]
        simp [quoted]
      · have hstart : ¬ quoted word <+: quote :: (Str.raw s ++ quote :: t) := fun h =>
          hhere ((prefix_raw_iff hword s t).mp (List.cons_prefix_cons.mp h).2)
        rw [if_neg hstart, ih]
        simp only [suffix_escapedQuote_iff, hhere, false_or]
    · have hnone : quote ∉ p.render := quote_not_mem_render hquote
      rw [behind_append hnone, ih]
      simp only [suffix_append_iff hnone]

/-- A quoted word is found in a string that mentions it, and at its end. -/
theorem behind_string (hword : ∀ b ∈ word, Bare b) (s : Str) {t : Bytes}
    (ht : ¬ word ++ [quote] <+: t) :
    behind (quoted word) (s.render ++ t) =
      if s.Mentions word then some t else behind (quoted word) t := by
  have hrender : s.render ++ t = quote :: (s.raw ++ quote :: t) := by
    simp [Str.render]
  rw [hrender, behind]
  by_cases hhere : s.raw = word
  · have hstart : quoted word <+: quote :: (s.raw ++ quote :: t) :=
      List.cons_prefix_cons.mpr ⟨rfl, (prefix_raw_iff hword s t).mpr hhere⟩
    rw [if_pos hstart, if_pos (.inl hhere), hhere]
    simp [quoted]
  · have hstart : ¬ quoted word <+: quote :: (s.raw ++ quote :: t) := fun h =>
      hhere ((prefix_raw_iff hword s t).mp (List.cons_prefix_cons.mp h).2)
    rw [if_neg hstart, behind_raw hword s ht]
    simp only [Str.Mentions, hhere, false_or]

end Json
