import CoinBot.Lib.Decimal
import CoinBot.Lib.Json

/- Reading a parsed document: the accessors of the JSON library, with the exceptions it
   documents. A number is exactly what its text denotes. -/
namespace Json

/-- `type_error` and `out_of_range`, with their numbers. -/
inductive AccessError where
  | type (id : Nat)
  | outOfRange (id : Nat)
  deriving DecidableEq, Repr

/-- The text of a string's bytes. -/
def text (bs : Bytes) : String := (String.fromUTF8? ⟨bs.toArray⟩).getD ""

def utf8 (s : String) : Bytes := s.toByteArray.data.toList

@[simp] theorem text_utf8 (s : String) : text (utf8 s) = s := by
  have hbytes : (⟨(utf8 s).toArray⟩ : ByteArray) = s.toByteArray := by
    simp [utf8]
  unfold text String.fromUTF8?
  rw [hbytes, dif_pos s.isValidUTF8]
  rfl

/-- The number that a text of digits denotes. -/
def numberOf (digits : Bytes) : Option ℚ :=
  Decimal.parse (digits.map fun b => Char.ofNat b.toNat)

/-! What a field says. -/

/-- A field of a JSON number; zero may be left out. -/
def NumberIs (v : ℚ) : Option Data → Prop
  | none => v = 0
  | some (.number digits) => numberOf digits = some v
  | some _ => False

/-- A field of a decimal text. -/
def TextIs (v : ℚ) : Option Data → Prop
  | some (.string s) => Decimal.parse (text s).toList = some v
  | _ => False

theorem numberIs_of_digits {v : ℚ} (digits : Bytes) (h : numberOf digits = some v) :
    NumberIs v (some (.number digits)) := h

theorem textIs_utf8 {v : ℚ} (t : String) (h : Decimal.parse t.toList = some v) :
    TextIs v (some (.string (utf8 t))) := by
  show Decimal.parse (text (utf8 t)).toList = some v
  rw [text_utf8, h]

/-- A field of a decimal text; zero may be left out. -/
def TextOrZero (v : ℚ) (found : Option Data) : Prop := found = none ∧ v = 0 ∨ TextIs v found

namespace Data

def isObject : Data → Bool
  | .object _ => true
  | _ => false

/-- `j.at(name)`. -/
def at_ (j : Data) (name : String) : Except AccessError Data :=
  if j.isObject then
    match j.find (utf8 name) with
    | some x => .ok x
    | none => .error (.outOfRange 403)
  else .error (.type 304)

/-- `j.value(name, fallback)` for a string. -/
def valueString (j : Data) (name fallback : String) : Except AccessError String :=
  if j.isObject then
    match j.find (utf8 name) with
    | some (.string s) => .ok (text s)
    | some _ => .error (.type 302)
    | none => .ok fallback
  else .error (.type 306)

/-- `j.contains(name)`. -/
def contains (j : Data) (name : String) : Bool := (j.find (utf8 name)).isSome

/-- The field, if it is there and not null. -/
def nonNull (j : Data) (name : String) : Option Data :=
  match j.find (utf8 name) with
  | some .null => none
  | found => found

/-! `get<T>()`. -/

def getString : Data → Except AccessError String
  | .string s => .ok (text s)
  | _ => .error (.type 302)

def getDouble : Data → Except AccessError ℚ
  | .number digits => .ok ((numberOf digits).getD 0)
  | _ => .error (.type 302)

/-- The rational without its fraction. -/
def truncate (q : ℚ) : Int := if q < 0 then ⌈q⌉ else ⌊q⌋

def getInt64 : Data → Except AccessError Int
  | .number digits => .ok (truncate ((numberOf digits).getD 0))
  | _ => .error (.type 302)

/-- Into another integer than the library's own a truth value is converted too. -/
def getInt : Data → Except AccessError Int
  | .number digits => .ok (truncate ((numberOf digits).getD 0))
  | .bool b => .ok (if b then 1 else 0)
  | _ => .error (.type 302)

def getBool : Data → Except AccessError Bool
  | .bool b => .ok b
  | _ => .error (.type 302)

/-- The value of a field, or `fallback` where it is missing or null. -/
def getOr {α : Type} (j : Data) (name : String) (get : Data → Except AccessError α) (fallback : α) :
    Except AccessError α :=
  match j.nonNull name with
  | none => .ok fallback
  | some x => get x

/-- The value of a field, none where it is missing or null. -/
def getOption {α : Type} (j : Data) (name : String) (get : Data → Except AccessError α) :
    Except AccessError (Option α) :=
  match j.nonNull name with
  | none => .ok none
  | some x => (get x).map some

variable {j x : Data} {name : String} {v : ℚ}

theorem at_of_find (h : j.find (utf8 name) = some x) : j.at_ name = .ok x := by
  have hobject : j.isObject = true := by
    cases j with
    | object fields => rfl
    | _ => cases h
  rw [at_, if_pos hobject, h]

@[simp] theorem getString_utf8 (s : String) : getString (.string (utf8 s)) = .ok s := by
  rw [getString, text_utf8]

theorem getOr_number (h : NumberIs v (j.nonNull name)) : j.getOr name getDouble 0 = .ok v := by
  unfold getOr
  cases hfound : j.nonNull name with
  | none =>
    rw [hfound] at h
    exact congrArg Except.ok h.symm
  | some x =>
    rw [hfound] at h
    cases x with
    | number digits =>
      have hdigits : numberOf digits = some v := h
      simp only [getDouble, hdigits, Option.getD_some]
    | _ => exact h.elim

theorem truncate_intCast (n : Int) : truncate n = n := by
  unfold truncate
  split
  · exact Int.ceil_intCast n
  · exact Int.floor_intCast n

theorem getOr_count {n : Int} (h : NumberIs n (j.nonNull name)) :
    j.getOr name getInt 0 = .ok n := by
  unfold getOr
  cases hfound : j.nonNull name with
  | none =>
    rw [hfound] at h
    have hzero : n = 0 := Int.cast_eq_zero.mp h
    exact congrArg Except.ok hzero.symm
  | some x =>
    rw [hfound] at h
    cases x with
    | number digits =>
      have hdigits : numberOf digits = some (n : ℚ) := h
      simp only [getInt, hdigits, Option.getD_some, truncate_intCast]
    | _ => exact h.elim

theorem getOption_string {s : Option String}
    (h : j.nonNull name = s.map fun s => .string (utf8 s)) : j.getOption name getString = .ok s := by
  unfold getOption
  rw [h]
  cases s with
  | none => rfl
  | some s =>
    show (getString (.string (utf8 s))).map some = _
    rw [getString_utf8]
    rfl

theorem getOption_text (h : TextIs v (j.nonNull name)) :
    ∃ t, j.getOption name getString = .ok (some t) ∧ Decimal.parse t.toList = some v := by
  unfold getOption
  cases hfound : j.nonNull name with
  | none =>
    rw [hfound] at h
    exact h.elim
  | some x =>
    rw [hfound] at h
    cases x with
    | string s => exact ⟨text s, rfl, h⟩
    | _ => exact h.elim

theorem getOr_text (h : TextOrZero v (j.nonNull name)) :
    ∃ t, j.getOr name getString "0" = .ok t ∧ Decimal.parse t.toList = some v := by
  unfold getOr
  rcases h with ⟨hnone, rfl⟩ | htext
  · rw [hnone]
    exact ⟨"0", rfl, by decide +kernel⟩
  · cases hfound : j.nonNull name with
    | none =>
      rw [hfound] at htext
      exact htext.elim
    | some x =>
      rw [hfound] at htext
      cases x with
      | string s => exact ⟨text s, rfl, htext⟩
      | _ => exact htext.elim

end Data
end Json
