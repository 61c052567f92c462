import CoinBot.Lib.Calendar
import Mathlib.Data.String.Basic
import Mathlib.Data.List.TakeWhile
import Mathlib.Tactic.Ring

/- Times as text, `YYYY-MM-DDTHH:MM:SS`.

   Texts of full width are in the order of their times. A reader takes more: apart from the
   year a field may come without its leading zero, and the day with a blank for it. Such a text
   is not in the order of times. Below a text of full width it goes with an earlier time, since
   the digit of a short field counts ten times more in the text; only a blank counts less than
   any digit (`le_or_blankDay`). -/
namespace CoinBot.Calendar

/-! Numbers. -/

def digit (n : Nat) : Char := Char.ofNat (48 + n % 10)

/-- The last `width` digits. -/
def pad : Nat → Nat → List Char
  | 0, _ => []
  | width + 1, n => pad width (n / 10) ++ [digit n]

def valueOf : List Char → Nat
  | [] => 0
  | c :: cs => (c.toNat - 48) * 10 ^ cs.length + valueOf cs

theorem toNat_digit (n : Nat) : (digit n).toNat = 48 + n % 10 := by
  have hvalid : (48 + n % 10).isValidChar := Or.inl (by omega)
  rw [digit, Char.ofNat, dif_pos hvalid]
  rfl

theorem isDigit_iff {c : Char} : c.isDigit = true ↔ 48 ≤ c.toNat ∧ c.toNat ≤ 57 := by
  simp only [Char.isDigit, Bool.and_eq_true, decide_eq_true_eq]
  rfl

theorem isDigit_digit (n : Nat) : (digit n).isDigit = true := by
  rw [isDigit_iff, toNat_digit]
  omega

@[simp] theorem length_pad (width n : Nat) : (pad width n).length = width := by
  induction width generalizing n with
  | zero => rfl
  | succ width ih => rw [pad, List.length_append, ih, List.length_singleton]

theorem isDigit_of_mem_pad {width n : Nat} : ∀ c ∈ pad width n, c.isDigit = true := by
  induction width generalizing n with
  | zero => simp [pad]
  | succ width ih =>
    intro c hc
    rw [pad, List.mem_append, List.mem_singleton] at hc
    rcases hc with hc | rfl
    · exact ih c hc
    · exact isDigit_digit n

theorem valueOf_concat (digits : List Char) (c : Char) :
    valueOf (digits ++ [c]) = 10 * valueOf digits + (c.toNat - 48) := by
  induction digits with
  | nil => simp [valueOf]
  | cons d ds ih =>
    rw [List.cons_append, valueOf, valueOf, ih, List.length_append, List.length_singleton]
    ring

theorem valueOf_pad {width n : Nat} (h : n < 10 ^ width) : valueOf (pad width n) = n := by
  induction width generalizing n with
  | zero =>
    rw [Nat.pow_zero] at h
    obtain rfl : n = 0 := by omega
    rfl
  | succ width ih =>
    rw [Nat.pow_succ] at h
    rw [pad, valueOf_concat, ih (by omega), toNat_digit]
    omega

theorem eq_digit {c : Char} (h : c.isDigit = true) : c = digit (valueOf [c]) := by
  have hrange := isDigit_iff.mp h
  have hvalue := toNat_digit (valueOf [c])
  have hone : valueOf [c] = c.toNat - 48 := by simp [valueOf]
  rw [hone] at hvalue ⊢
  refine Char.toNat_inj.mp ?_
  omega

theorem valueOf_lt {digits : List Char} (h : ∀ c ∈ digits, c.isDigit = true) :
    valueOf digits < 10 ^ digits.length := by
  induction digits with
  | nil => exact Nat.one_pos
  | cons c cs ih =>
    have hrest : valueOf cs < 10 ^ cs.length := ih fun d hd => h d (List.mem_cons_of_mem _ hd)
    have hc : c.toNat - 48 ≤ 9 := by
      have hdigit := isDigit_iff.mp (h c List.mem_cons_self)
      omega
    have hhigh : (c.toNat - 48) * 10 ^ cs.length ≤ 9 * 10 ^ cs.length := Nat.mul_le_mul_right _ hc
    rw [valueOf, List.length_cons, Nat.pow_succ]
    omega

/-! The order of texts. -/

theorem cons_le_cons {a b : Char} {s t : List Char} (h : a :: s ≤ b :: t) :
    a.toNat < b.toNat ∨ a = b ∧ s ≤ t := by
  rcases lt_or_eq_of_le h with hlt | heq
  · rcases List.cons_lt_cons_iff.mp hlt with hlt | ⟨heq, hlt⟩
    · exact .inl hlt
    · exact .inr ⟨heq, le_of_lt hlt⟩
  · obtain ⟨rfl, rfl⟩ := List.cons.inj heq
    exact .inr ⟨rfl, le_rfl⟩

/-- Numbers of one width are in the order of their texts. -/
theorem valueOf_le {d e : List Char} (hlength : d.length = e.length)
    (hd : ∀ c ∈ d, c.isDigit = true) (he : ∀ c ∈ e, c.isDigit = true) {s t : List Char}
    (h : d ++ s ≤ e ++ t) : valueOf d < valueOf e ∨ d = e ∧ s ≤ t := by
  induction d generalizing e with
  | nil =>
    obtain rfl := List.length_eq_zero_iff.mp hlength.symm
    exact .inr ⟨rfl, h⟩
  | cons a d ih =>
    cases e with
    | nil => cases hlength
    | cons b e =>
      have hlen : d.length = e.length := Nat.succ.inj hlength
      have hd' : ∀ c ∈ d, c.isDigit = true := fun c hc => hd c (List.mem_cons_of_mem _ hc)
      have he' : ∀ c ∈ e, c.isDigit = true := fun c hc => he c (List.mem_cons_of_mem _ hc)
      rw [valueOf, valueOf, hlen]
      rcases cons_le_cons h with hlt | ⟨rfl, hle⟩
      · left
        have ha := (isDigit_iff.mp (hd a List.mem_cons_self)).1
        have hrest : valueOf d < 10 ^ e.length := hlen ▸ valueOf_lt hd'
        calc (a.toNat - 48) * 10 ^ e.length + valueOf d
            < (a.toNat - 48) * 10 ^ e.length + 10 ^ e.length := by omega
          _ = (a.toNat - 48 + 1) * 10 ^ e.length := (Nat.succ_mul _ _).symm
          _ ≤ (b.toNat - 48) * 10 ^ e.length := Nat.mul_le_mul_right _ (by omega)
          _ ≤ (b.toNat - 48) * 10 ^ e.length + valueOf e := Nat.le_add_right _ _
      · rcases ih hlen hd' he' hle with hlt | ⟨heq, hle⟩
        · exact .inl (Nat.add_lt_add_left hlt _)
        · exact .inr ⟨by rw [heq], hle⟩

/-! Fields. -/

/-- A number of `shortest` to `longest` digits, and the text behind it. -/
def field (shortest longest : Nat) (s : List Char) : Option (Nat × List Char) :=
  let digits := s.takeWhile Char.isDigit
  if shortest ≤ digits.length ∧ digits.length ≤ longest then
    some (valueOf digits, s.dropWhile Char.isDigit)
  else none

/-- The same, and the separator behind it. -/
def fieldUpTo (shortest longest : Nat) (sep : Char) (s : List Char) : Option (Nat × List Char) :=
  match field shortest longest s with
  | some (n, c :: rest) => if c = sep then some (n, rest) else none
  | _ => none

theorem field_eq_some {shortest longest n : Nat} {s rest : List Char}
    (h : field shortest longest s = some (n, rest)) :
    ∃ d, s = d ++ rest ∧ (∀ c ∈ d, c.isDigit = true) ∧ shortest ≤ d.length ∧
      d.length ≤ longest ∧ n = valueOf d := by
  unfold field at h
  dsimp only at h
  split at h
  · next hlength =>
    obtain ⟨rfl, rfl⟩ := Prod.mk.inj (Option.some.inj h)
    exact ⟨_, (List.takeWhile_append_dropWhile).symm,
      fun c hc => List.mem_takeWhile_imp hc, hlength.1, hlength.2, rfl⟩
  · cases h

theorem field_pad {shortest longest width n : Nat} (hwidth : shortest ≤ width ∧ width ≤ longest)
    (hn : n < 10 ^ width) {rest : List Char} (hrest : rest.takeWhile Char.isDigit = []) :
    field shortest longest (pad width n ++ rest) = some (n, rest) := by
  have htake : (pad width n ++ rest).takeWhile Char.isDigit = pad width n := by
    rw [List.takeWhile_append_of_pos isDigit_of_mem_pad, hrest, List.append_nil]
  have hdrop : (pad width n ++ rest).dropWhile Char.isDigit = rest := by
    rw [List.dropWhile_append_of_pos isDigit_of_mem_pad]
    conv_rhs => rw [← List.takeWhile_append_dropWhile (p := Char.isDigit) (l := rest)]
    rw [hrest, List.nil_append]
  unfold field
  dsimp only
  rw [htake, hdrop, valueOf_pad hn, length_pad, if_pos hwidth]

theorem field_pad_cons {shortest longest width n : Nat}
    (hwidth : shortest ≤ width ∧ width ≤ longest) (hn : n < 10 ^ width) {sep : Char}
    (hsep : sep.isDigit = false) (rest : List Char) :
    field shortest longest (pad width n ++ sep :: rest) = some (n, sep :: rest) :=
  field_pad hwidth hn (List.takeWhile_cons_of_neg (by rw [hsep]; exact Bool.false_ne_true))

theorem fieldUpTo_eq_some_iff {shortest longest n : Nat} {sep : Char} {s rest : List Char} :
    fieldUpTo shortest longest sep s = some (n, rest) ↔
      field shortest longest s = some (n, sep :: rest) := by
  unfold fieldUpTo
  constructor
  · intro h
    split at h
    · next c tail hfield =>
      split at h
      · next heq =>
        obtain ⟨rfl, rfl⟩ := Prod.mk.inj (Option.some.inj h)
        rw [hfield, heq]
      · cases h
    · cases h
  · intro h
    rw [h]
    exact if_pos rfl

theorem fieldUpTo_pad {shortest longest width n : Nat}
    (hwidth : shortest ≤ width ∧ width ≤ longest) (hn : n < 10 ^ width) {sep : Char}
    (hsep : sep.isDigit = false) (rest : List Char) :
    fieldUpTo shortest longest sep (pad width n ++ sep :: rest) = some (n, rest) :=
  fieldUpTo_eq_some_iff.mpr (field_pad_cons hwidth hn hsep rest)

/-- `%d`: the leading zero of the day may be left out, or be a blank. -/
def dayUpTo (sep : Char) : List Char → Option (Nat × List Char)
  | ' ' :: s => fieldUpTo 1 1 sep s
  | s => fieldUpTo 1 2 sep s

theorem dayUpTo_of_ne {sep : Char} {s : List Char} (h : s.head? ≠ some ' ') :
    dayUpTo sep s = fieldUpTo 1 2 sep s := by
  unfold dayUpTo
  split
  · exact absurd rfl h
  · rfl

theorem dayUpTo_eq_some {sep : Char} {n : Nat} {s rest : List Char}
    (h : dayUpTo sep s = some (n, rest)) :
    field 1 2 s = some (n, sep :: rest) ∨
      ∃ s', s = ' ' :: s' ∧ field 1 1 s' = some (n, sep :: rest) := by
  unfold dayUpTo at h
  split at h
  · exact .inr ⟨_, rfl, fieldUpTo_eq_some_iff.mp h⟩
  · exact .inl (fieldUpTo_eq_some_iff.mp h)

/-- A short field below a padded one: it is smaller, unless both are zero. -/
theorem short_le {a sep : Char} (ha : a.isDigit = true) (hsep : sep.isDigit = false) {n : Nat}
    (hn : n < 100) (hpos : sep.toNat < 48 → 0 < valueOf [a]) {s t : List Char}
    (h : a :: sep :: s ≤ pad 2 n ++ t) : valueOf [a] < n := by
  have hvalue : valueOf [a] = a.toNat - 48 := by simp [valueOf]
  have hdigit := isDigit_iff.mp ha
  have hpad : pad 2 n ++ t = digit (n / 10) :: digit n :: t := rfl
  have hhigh := toNat_digit (n / 10)
  rw [hpad] at h
  rw [hvalue] at hpos ⊢
  rcases cons_le_cons h with hlt | ⟨rfl, hle⟩
  · omega
  · rcases cons_le_cons hle with hlt | ⟨rfl, -⟩
    · -- The separator is below a digit, so it is below all of them.
      have hlow : sep.toNat < 48 := by
        have hnot : ¬ (48 ≤ sep.toNat ∧ sep.toNat ≤ 57) := by
          rw [← isDigit_iff, hsep]
          exact Bool.false_ne_true
        have hdigit := isDigit_iff.mp (isDigit_digit n)
        omega
      have hpos := hpos hlow
      omega
    · rw [isDigit_digit] at hsep
      cases hsep

/-- What the order of texts says of a field of one or two digits. -/
theorem field_le {sep : Char} (hsep : sep.isDigit = false) {v n : Nat} (hn : n < 100)
    (hpos : sep.toNat < 48 → 0 < v) {s rest t : List Char}
    (hfield : field 1 2 s = some (v, sep :: rest)) (h : s ≤ pad 2 n ++ sep :: t) :
    v < n ∨ v = n ∧ s = pad 2 n ++ sep :: rest ∧ rest ≤ t := by
  obtain ⟨d, rfl, hd, hshort, hlong, rfl⟩ := field_eq_some hfield
  rcases Nat.lt_or_eq_of_le hlong with hlt | hlength
  · obtain ⟨a, rfl⟩ := List.length_eq_one_iff.mp (show d.length = 1 by omega)
    exact .inl (short_le (hd a List.mem_cons_self) hsep hn hpos h)
  · rcases valueOf_le (hlength.trans (length_pad 2 n).symm) hd isDigit_of_mem_pad h with
      hlt | ⟨rfl, hle⟩
    · rw [valueOf_pad hn] at hlt
      exact .inl hlt
    · rcases cons_le_cons hle with hlt | ⟨-, hle⟩
      · exact absurd hlt (lt_irrefl _)
      · exact .inr ⟨valueOf_pad hn, rfl, hle⟩

theorem field_le_year {sep : Char} {v n : Nat} (hn : n < 10000) {s rest t : List Char}
    (hfield : field 4 4 s = some (v, sep :: rest)) (h : s ≤ pad 4 n ++ sep :: t) :
    v < n ∨ v = n ∧ s = pad 4 n ++ sep :: rest ∧ rest ≤ t := by
  obtain ⟨d, rfl, hd, hshort, hlong, rfl⟩ := field_eq_some hfield
  have hlength : d.length = (pad 4 n).length := by
    rw [length_pad]
    omega
  rcases valueOf_le hlength hd isDigit_of_mem_pad h with hlt | ⟨rfl, hle⟩
  · rw [valueOf_pad hn] at hlt
    exact .inl hlt
  · rcases cons_le_cons hle with hlt | ⟨-, hle⟩
    · exact absurd hlt (lt_irrefl _)
    · exact .inr ⟨valueOf_pad hn, rfl, hle⟩

theorem field_le_last {v n : Nat} (hn : n < 100) {s : List Char}
    (hfield : field 1 2 s = some (v, [])) (h : s ≤ pad 2 n) : v ≤ n := by
  obtain ⟨d, rfl, hd, hshort, hlong, rfl⟩ := field_eq_some hfield
  rcases Nat.lt_or_eq_of_le hlong with hlt | hlength
  · obtain ⟨a, rfl⟩ := List.length_eq_one_iff.mp (show d.length = 1 by omega)
    have hvalue : valueOf [a] = a.toNat - 48 := by simp [valueOf]
    have hhigh := toNat_digit (n / 10)
    rw [hvalue]
    rcases cons_le_cons (show a :: [] ≤ digit (n / 10) :: [digit n] from h) with hlt | ⟨rfl, -⟩
    · omega
    · omega
  · rw [← List.append_nil (pad 2 n)] at h
    rcases valueOf_le (hlength.trans (length_pad 2 n).symm) hd isDigit_of_mem_pad h with
      hlt | ⟨rfl, -⟩
    · rw [valueOf_pad hn] at hlt
      exact Nat.le_of_lt hlt
    · exact Nat.le_of_eq (valueOf_pad hn)

/-! Times. -/

namespace DateTime

/-- `%Y-%m-%dT%H:%M:%S`. -/
def stamp (t : DateTime) : List Char :=
  pad 4 t.date.year ++ '-' :: (pad 2 t.date.month ++ '-' :: (pad 2 t.date.day ++ 'T' ::
    (pad 2 t.hour ++ ':' :: (pad 2 t.minute ++ ':' :: pad 2 t.second))))

def strftime (t : DateTime) : String := String.ofList t.stamp

/-- A time from numbers, if they are fields of one. -/
def ofNumbers (year month day hour minute second : Nat) : Option DateTime :=
  if h : ((1 ≤ year ∧ year ≤ 9999) ∧ (1 ≤ month ∧ month ≤ 12) ∧
      1 ≤ day ∧ day ≤ daysInMonth year month) ∧ hour < 24 ∧ minute < 60 ∧ second < 60 then
    some (ofFields ⟨year, month, day, h.1⟩ hour minute second h.2.1 h.2.2.1 h.2.2.2)
  else none

/-- `strptime` with the format of `stamp`: the leading zero is optional, save for the year, and
    that of the day may be a blank. -/
def strptime (text : String) : Option DateTime := do
  let (year, s) ← fieldUpTo 4 4 '-' text.toList
  let (month, s) ← fieldUpTo 1 2 '-' s
  let (day, s) ← dayUpTo 'T' s
  let (hour, s) ← fieldUpTo 1 2 ':' s
  let (minute, s) ← fieldUpTo 1 2 ':' s
  let (second, s) ← field 1 2 s
  if s = [] then ofNumbers year month day hour minute second else none

@[simp] theorem toList_strftime (t : DateTime) : t.strftime.toList = t.stamp := String.toList_ofList

theorem date_lt (t : DateTime) :
    t.date.year < 10 ^ 4 ∧ t.date.month < 10 ^ 2 ∧ t.date.day < 10 ^ 2 := by
  have hvalid := t.date.valid
  have hle := daysInMonth_le t.date.year t.date.month
  omega

theorem ofNumbers_fields (t : DateTime) :
    ofNumbers t.date.year t.date.month t.date.day t.hour t.minute t.second = some t.floorSecond := by
  rw [ofNumbers, dif_pos ⟨t.date.valid, t.hour_lt, t.minute_lt, t.second_lt⟩]
  exact congrArg some t.ofFields_fields

@[simp] theorem strptime_strftime (t : DateTime) : strptime t.strftime = some t.floorSecond := by
  obtain ⟨hyear, hmonth, hday⟩ := t.date_lt
  have hhour : t.hour < 10 ^ 2 := Nat.lt_trans t.hour_lt (by omega)
  have hminute : t.minute < 10 ^ 2 := Nat.lt_trans t.minute_lt (by omega)
  have hsecond : t.second < 10 ^ 2 := Nat.lt_trans t.second_lt (by omega)
  have hfour : 4 ≤ 4 ∧ 4 ≤ 4 := by omega
  have htwo : 1 ≤ 2 ∧ 2 ≤ 2 := by omega
  have hlast : field 1 2 (pad 2 t.second) = some (t.second, []) := by
    have hpad := field_pad htwo hsecond (List.takeWhile_nil (p := Char.isDigit))
    rw [List.append_nil] at hpad
    exact hpad
  have hdash : ('-' : Char).isDigit = false := rfl
  have htee : ('T' : Char).isDigit = false := rfl
  have hcolon : (':' : Char).isDigit = false := rfl
  have hdayField : ∀ rest, dayUpTo 'T' (pad 2 t.date.day ++ 'T' :: rest) =
      some (t.date.day, rest) := by
    intro rest
    rw [dayUpTo_of_ne, fieldUpTo_pad htwo hday htee]
    intro hblank
    have hdigit := isDigit_digit (t.date.day / 10)
    rw [show digit (t.date.day / 10) = ' ' from Option.some.inj hblank] at hdigit
    exact absurd hdigit (by decide)
  rw [strptime, toList_strftime, stamp]
  simp only [fieldUpTo_pad hfour hyear hdash, fieldUpTo_pad htwo hmonth hdash,
    hdayField, fieldUpTo_pad htwo hhour hcolon,
    fieldUpTo_pad htwo hminute hcolon, hlast, if_true, Option.bind_eq_bind, Option.bind_some,
    ofNumbers_fields]

theorem strptime_eq_some {text : String} {t : DateTime} (h : strptime text = some t) :
    ∃ (d : Date) (hour minute second : Nat) (hhour : hour < 24) (hminute : minute < 60)
      (hsecond : second < 60) (s₁ s₂ s₃ s₄ s₅ : List Char),
      field 4 4 text.toList = some (d.year, '-' :: s₁) ∧
      field 1 2 s₁ = some (d.month, '-' :: s₂) ∧
      (field 1 2 s₂ = some (d.day, 'T' :: s₃) ∨
        ∃ s', s₂ = ' ' :: s' ∧ field 1 1 s' = some (d.day, 'T' :: s₃)) ∧
      field 1 2 s₃ = some (hour, ':' :: s₄) ∧
      field 1 2 s₄ = some (minute, ':' :: s₅) ∧
      field 1 2 s₅ = some (second, []) ∧
      t = ofFields d hour minute second hhour hminute hsecond := by
  unfold strptime at h
  obtain ⟨⟨year, s₁⟩, hyear, h⟩ := Option.bind_eq_some_iff.mp h
  obtain ⟨⟨month, s₂⟩, hmonth, h⟩ := Option.bind_eq_some_iff.mp h
  obtain ⟨⟨day, s₃⟩, hday, h⟩ := Option.bind_eq_some_iff.mp h
  obtain ⟨⟨hour, s₄⟩, hhour, h⟩ := Option.bind_eq_some_iff.mp h
  obtain ⟨⟨minute, s₅⟩, hminute, h⟩ := Option.bind_eq_some_iff.mp h
  obtain ⟨⟨second, s₆⟩, hsecond, hend⟩ := Option.bind_eq_some_iff.mp h
  dsimp only at hend
  split at hend
  · next hnil =>
    subst hnil
    unfold ofNumbers at hend
    split at hend
    · next hvalid =>
      exact ⟨⟨year, month, day, hvalid.1⟩, hour, minute, second, hvalid.2.1, hvalid.2.2.1,
        hvalid.2.2.2, s₁, s₂, s₃, s₄, s₅, fieldUpTo_eq_some_iff.mp hyear,
        fieldUpTo_eq_some_iff.mp hmonth, dayUpTo_eq_some hday,
        fieldUpTo_eq_some_iff.mp hhour, fieldUpTo_eq_some_iff.mp hminute, hsecond,
        (Option.some.inj hend).symm⟩
    · cases hend
  · cases hend

/-- A day with a blank for its leading zero. -/
def blankDay (year month day : Nat) : List Char :=
  pad 4 year ++ '-' :: (pad 2 month ++ '-' :: [' ', digit day])

theorem strptime_blankDay (d : Date) (hday : d.day < 10) :
    strptime (String.ofList (blankDay d.year d.month d.day ++ "T23:59:59".toList)) =
      some (ofFields d 23 59 59 (by omega) (by omega) (by omega)) := by
  have hvalid := d.valid
  have hyear : d.year < 10 ^ 4 := by omega
  have hmonth : d.month < 10 ^ 2 := by omega
  have hfour : 4 ≤ 4 ∧ 4 ≤ 4 := by omega
  have htwo : 1 ≤ 2 ∧ 2 ≤ 2 := by omega
  have hone : 1 ≤ 1 ∧ 1 ≤ 1 := by omega
  have hdash : ('-' : Char).isDigit = false := rfl
  have htext : blankDay d.year d.month d.day ++ "T23:59:59".toList =
      pad 4 d.year ++ '-' :: (pad 2 d.month ++ '-' :: ' ' :: (pad 1 d.day ++ 'T' ::
        ['2', '3', ':', '5', '9', ':', '5', '9'])) := by
    simp [blankDay, pad]
  have hdayField : dayUpTo 'T' (' ' :: (pad 1 d.day ++ 'T' ::
      ['2', '3', ':', '5', '9', ':', '5', '9'])) =
        some (d.day, ['2', '3', ':', '5', '9', ':', '5', '9']) :=
    fieldUpTo_pad hone hday rfl _
  have hhour : fieldUpTo 1 2 ':' ['2', '3', ':', '5', '9', ':', '5', '9'] =
      some (23, ['5', '9', ':', '5', '9']) := by decide
  have hminute : fieldUpTo 1 2 ':' ['5', '9', ':', '5', '9'] = some (59, ['5', '9']) := by decide
  have hsecond : field 1 2 ['5', '9'] = some (59, []) := by decide
  rw [strptime, String.toList_ofList, htext]
  simp only [fieldUpTo_pad hfour hyear hdash, fieldUpTo_pad htwo hmonth hdash, hdayField, hhour,
    hminute, hsecond, if_true, Option.bind_eq_bind, Option.bind_some]
  rw [ofNumbers, dif_pos ⟨hvalid, by omega, by omega, by omega⟩]

/-- The blank is below every digit. -/
theorem blankDay_lt_stamp (u : DateTime) (day : Nat) (rest : List Char) :
    blankDay u.date.year u.date.month day ++ rest < u.stamp := by
  have hblank : ' ' < digit (u.date.day / 10) := by
    have hdigit := isDigit_iff.mp (isDigit_digit (u.date.day / 10))
    show (' ').toNat < (digit (u.date.day / 10)).toNat
    exact Nat.lt_of_lt_of_le (by decide) hdigit.1
  have hrest : ' ' :: digit day :: rest < pad 2 u.date.day ++ 'T' ::
      (pad 2 u.hour ++ ':' :: (pad 2 u.minute ++ ':' :: pad 2 u.second)) :=
    List.cons_lt_cons_iff.mpr (.inl hblank)
  have htext : blankDay u.date.year u.date.month day ++ rest = pad 4 u.date.year ++ '-' ::
      (pad 2 u.date.month ++ '-' :: ' ' :: digit day :: rest) := by
    simp [blankDay]
  rw [htext]
  exact List.append_left_lt (List.cons_lt_cons_iff.mpr (.inr ⟨rfl,
    List.append_left_lt (List.cons_lt_cons_iff.mpr (.inr ⟨rfl, hrest⟩))⟩))

theorem floorSecond_of_strptime {text : String} {t : DateTime} (h : strptime text = some t) :
    t.floorSecond = t := by
  obtain ⟨d, hour, minute, second, -, -, -, -, -, -, -, -, -, -, -, -, -, -, rfl⟩ := strptime_eq_some h
  rfl

theorem elapsed_lt_of_date {d : Date} {hour minute second : Nat} (hhour : hour < 24)
    (hminute : minute < 60) (hsecond : second < 60) {u : DateTime} (h : d.number < u.date.number) :
    (ofFields d hour minute second hhour hminute hsecond).elapsed ≤ u.elapsed := by
  rw [u.elapsed_eq]
  show secondsPerDay * d.number + 3600 * hour + 60 * minute + second ≤ _
  unfold secondsPerDay
  omega

theorem not_mem_clock {hour minute second : Nat} {s₃ s₄ s₅ : List Char}
    (hhour : field 1 2 s₃ = some (hour, ':' :: s₄))
    (hminute : field 1 2 s₄ = some (minute, ':' :: s₅))
    (hsecond : field 1 2 s₅ = some (second, [])) : 'T' ∉ s₃ := by
  obtain ⟨d₃, rfl, hd₃, -⟩ := field_eq_some hhour
  obtain ⟨d₄, rfl, hd₄, -⟩ := field_eq_some hminute
  obtain ⟨d₅, rfl, hd₅, -⟩ := field_eq_some hsecond
  have hnone : ∀ d : List Char, (∀ c ∈ d, c.isDigit = true) → 'T' ∉ d :=
    fun d hd hmem => absurd (hd _ hmem) (by decide)
  simp [hnone d₃ hd₃, hnone d₄ hd₄, hnone d₅ hd₅]

theorem stamp_ne_blankDay (t : DateTime) (year month day : Nat) (rest : List Char) :
    t.stamp ≠ blankDay year month day ++ rest := by
  intro h
  have hblank : some (digit (t.date.day / 10)) = some ' ' := congrArg (·[8]?) h
  have hdigit := isDigit_digit (t.date.day / 10)
  rw [Option.some.inj hblank] at hdigit
  exact absurd hdigit (by decide)

/-- A text that can be read and is not above a text of full width has no later time, unless its
    day has a blank. -/
theorem le_or_blankDay {text : String} {t u : DateTime} (ht : strptime text = some t)
    (h : text ≤ u.strftime) :
    t.elapsed ≤ u.elapsed ∨ ∃ rest, 'T' ∉ rest ∧ t.date.day < 10 ∧
      t.date.year = u.date.year ∧ t.date.month = u.date.month ∧
      text.toList = blankDay u.date.year u.date.month t.date.day ++ 'T' :: rest := by
  obtain ⟨d, hour, minute, second, hhour, hminute, hsecond, s₁, s₂, s₃, s₄, s₅, hyear, hmonth, hday,
    hhour', hminute', hsecond', rfl⟩ := strptime_eq_some ht
  obtain ⟨⟨hyear1, -⟩, ⟨hmonth1, -⟩, hday1, -⟩ := d.valid
  obtain ⟨hyearlt, hmonthlt, hdaylt⟩ := u.date_lt
  have huhour := u.hour_lt
  have huminute := u.minute_lt
  have husecond := u.second_lt
  rw [String.le_iff_toList_le, toList_strftime, stamp] at h
  -- Field by field: the first one that differs decides.
  rcases field_le_year hyearlt hyear h with hlt | ⟨heqyear, htextyear, h⟩
  · exact .inl (elapsed_lt_of_date hhour hminute hsecond (Date.number_lt_of_year hlt))
  rcases field_le rfl hmonthlt (fun _ => hmonth1) hmonth h with
    hlt | ⟨heqmonth, htextmonth, h⟩
  · exact .inl (elapsed_lt_of_date hhour hminute hsecond (Date.number_lt_of_month heqyear hlt))
  rcases hday with hday | ⟨s', rfl, hday⟩
  · left
    rcases field_le rfl hdaylt (fun _ => hday1) hday h with hlt | ⟨heqday, -, h⟩
    · exact elapsed_lt_of_date hhour hminute hsecond (Date.number_lt_of_day heqyear heqmonth hlt)
    have hnumber := Date.number_eq heqyear heqmonth heqday
    rw [u.elapsed_eq]
    show secondsPerDay * d.number + 3600 * hour + 60 * minute + second ≤ _
    rw [hnumber]
    rcases field_le rfl (by omega) (fun hlow => absurd hlow (by decide)) hhour' h with
      hlt | ⟨rfl, -, h⟩
    · omega
    rcases field_le rfl (by omega) (fun hlow => absurd hlow (by decide)) hminute' h with
      hlt | ⟨rfl, -, h⟩
    · omega
    have hle := field_le_last (by omega) hsecond' h
    omega
  · -- The blank is below every digit, so nothing is said of the day.
    right
    rw [date_ofFields]
    obtain ⟨digits, rfl, hdigits, hone, hone', hvalue⟩ := field_eq_some hday
    obtain ⟨c, rfl⟩ := List.length_eq_one_iff.mp (Nat.le_antisymm hone' hone)
    have hc : c = digit d.day := by
      rw [hvalue]
      exact eq_digit (hdigits c List.mem_cons_self)
    refine ⟨s₃, not_mem_clock hhour' hminute' hsecond', ?_, heqyear, heqmonth, ?_⟩
    · rw [hvalue]
      exact valueOf_lt hdigits
    · rw [htextyear, htextmonth, hc]
      simp [blankDay]

/-- Texts of full width are in the order of their times. -/
theorem strftime_le_iff {t u : DateTime} : t.strftime ≤ u.strftime ↔ t.elapsed ≤ u.elapsed := by
  have hforward : ∀ {t u : DateTime}, t.strftime ≤ u.strftime → t.elapsed ≤ u.elapsed := by
    intro t u h
    rcases le_or_blankDay t.strptime_strftime h with hle | ⟨rest, -, -, -, -, htext⟩
    · exact hle
    · rw [toList_strftime] at htext
      exact absurd htext (t.stamp_ne_blankDay _ _ _ _)
  refine ⟨hforward, fun h => ?_⟩
  rcases le_total t.strftime u.strftime with hle | hge
  · exact hle
  · -- Then the times are one, and so are their texts.
    have heq : t.elapsed = u.elapsed := Nat.le_antisymm h (hforward hge)
    have hstamp : t.strftime = u.strftime := by
      simp only [strftime, stamp, date, hour, minute, second, heq]
    exact le_of_eq hstamp

end DateTime
end CoinBot.Calendar
