import CoinBot.Lib.Window
import CoinBot.Trading.Indicators
import Mathlib.Data.Nat.ModEq

/- The ring buffer as a list.

   The values in use lie in the cells from `head` on, around the end of the vector. `Holds`
   says that they are the last of a series; `contents` reads them off. As a list with its
   bound the buffer is a `Window`: each call on the buffer is the call on the window
   (`toWindow_call`), and each accessor is one of the list. -/
namespace CoinBot

namespace RingBuffer

variable {α : Type}

/-! The buffer holds the last values. -/

/-- The `k`-th of the values in use, the oldest first. -/
def cell (b : RingBuffer α) (k : Nat) : Option α := b.buf[(b.head + k) % b.cap]?

/-- The buffer was given these values since it was cleared. -/
structure Holds (b : RingBuffer α) (xs : List α) : Prop where
  size : b.size = min b.cap xs.length
  cell : ∀ k < b.size, b.cell k = xs[xs.length - b.cap + k]?

theorem holds_nil {b : RingBuffer α} (h : b.size = 0) : b.Holds [] where
  size := by simp [h]
  cell := fun k hk => absurd hk (by omega)

theorem cell_index_inj {head cap i j : Nat} (hi : i < cap) (hj : j < cap)
    (h : (head + i) % cap = (head + j) % cap) : i = j := by
  have hmod : i % cap = j % cap := Nat.ModEq.add_left_cancel' head h
  rwa [Nat.mod_eq_of_lt hi, Nat.mod_eq_of_lt hj] at hmod

variable {b : RingBuffer α} {xs : List α}

theorem Holds.full (h : b.Holds xs) (hcap : 0 < b.cap) : b.full = decide (b.cap ≤ xs.length) := by
  have hsize := h.size
  rw [RingBuffer.full, Bool.eq_iff_iff, Bool.and_eq_true, bne_iff_ne, beq_iff_eq,
    decide_eq_true_eq]
  omega

@[simp] theorem push_cap (b : RingBuffer α) (v : α) : (b.push v).2.cap = b.cap := by
  unfold push
  split
  · split <;> rfl
  · rfl

/-- `push` into a full buffer: the oldest value is overwritten. -/
theorem Holds.push_full (h : b.Holds xs) (hcap : 0 < b.cap) (hfull : b.size = b.cap) (v : α) :
    (b.push v).1 = Series.dropped b.cap xs ∧ (b.push v).2.Holds (xs ++ [v]) := by
  have hhead := b.head_lt hcap
  have hle : b.cap ≤ xs.length := by
    have hsize := h.size
    omega
  have hpush : b.push v =
      (some b.buf[b.head],
       { b with
         buf := b.buf.set b.head v hhead
         head := (b.head + 1) % b.cap
         head_lt := fun h => Nat.mod_lt _ h }) := by
    rw [push, dif_pos hcap, dif_pos hfull]
  rw [hpush]
  refine ⟨?_, ⟨?_, ?_⟩⟩
  · -- The oldest value is the first of the window.
    have holdest := h.cell 0 (by omega)
    rw [RingBuffer.cell, Nat.add_zero, Nat.mod_eq_of_lt hhead, Vector.getElem?_eq_getElem hhead]
      at holdest
    rw [Series.dropped, if_pos hle, List.rtake, List.head?_drop]
    exact holdest
  · have hsize := h.size
    simp only [List.length_append, List.length_singleton]
    omega
  · intro k hk
    replace hk : k < b.cap := hfull ▸ hk
    have hwrap : ((b.head + 1) % b.cap + k) % b.cap = (b.head + (k + 1)) % b.cap := by
      rw [Nat.mod_add_mod]
      congr 1
      omega
    simp only [RingBuffer.cell, hwrap, List.length_append, List.length_singleton]
    by_cases hlast : k + 1 = b.cap
    · -- The cell of the oldest value holds the new one.
      rw [hlast, Nat.add_mod_right, Nat.mod_eq_of_lt hhead, Vector.getElem?_set_self,
        List.getElem?_append_right (by omega)]
      have hzero : xs.length + 1 - b.cap + k - xs.length = 0 := by omega
      rw [hzero]
      rfl
    · have hk' : k + 1 < b.cap := by omega
      have hne : b.head ≠ (b.head + (k + 1)) % b.cap := by
        intro heq
        have hhead' : (b.head + 0) % b.cap = (b.head + (k + 1)) % b.cap := by
          rw [Nat.add_zero, Nat.mod_eq_of_lt hhead]
          exact heq
        exact absurd (cell_index_inj hcap hk' hhead') (by omega)
      have hold := h.cell (k + 1) (by omega)
      rw [RingBuffer.cell] at hold
      rw [Vector.getElem?_set_ne _ hne, hold, List.getElem?_append_left (by omega)]
      congr 1
      omega

theorem Holds.push_free (h : b.Holds xs) (hcap : 0 < b.cap) (hfree : b.size ≠ b.cap) (v : α) :
    (b.push v).1 = Series.dropped b.cap xs ∧ (b.push v).2.Holds (xs ++ [v]) := by
  have hlt : xs.length < b.cap := by
    have hsize := h.size
    have hle := b.size_le
    omega
  have hsize : b.size = xs.length := by
    rw [h.size]
    omega
  have hpush : b.push v =
      (none,
       { b with
         buf := b.buf.set ((b.head + b.size) % b.cap) v (Nat.mod_lt _ hcap)
         size := b.size + 1
         size_le := Nat.lt_of_le_of_ne b.size_le hfree }) := by
    rw [push, dif_pos hcap, dif_neg hfree]
  rw [hpush]
  refine ⟨?_, ⟨?_, ?_⟩⟩
  · rw [Series.dropped, if_neg (Nat.not_le_of_lt hlt)]
  · simp only [List.length_append, List.length_singleton]
    omega
  · intro k hk
    replace hk : k < b.size + 1 := hk
    simp only [RingBuffer.cell, List.length_append, List.length_singleton]
    have hzero : xs.length + 1 - b.cap + k = k := by omega
    rw [hzero]
    by_cases hlast : k = b.size
    · rw [hlast, Vector.getElem?_set_self, hsize, List.getElem?_concat_length]
    · have hne : (b.head + b.size) % b.cap ≠ (b.head + k) % b.cap := by
        intro heq
        exact hlast (cell_index_inj (by omega) (by omega) heq).symm
      have hold := h.cell k (by omega)
      rw [RingBuffer.cell] at hold
      rw [Vector.getElem?_set_ne _ hne, hold, List.getElem?_append_left (by omega)]
      congr 1
      omega

theorem Holds.push (h : b.Holds xs) (hcap : 0 < b.cap) (v : α) :
    (b.push v).1 = Series.dropped b.cap xs ∧ (b.push v).2.Holds (xs ++ [v]) := by
  by_cases hfull : b.size = b.cap
  · exact h.push_full hcap hfull v
  · exact h.push_free hcap hfull v

/-- The cell of the value pushed `backIndex` values before the newest one. -/
theorem physicalIndexFromNewest_eq {backIndex : Nat} (h : backIndex < b.size) :
    b.physicalIndexFromNewest backIndex = (b.head + (b.size - 1 - backIndex)) % b.cap := by
  have hsize := b.size_le
  have hcap : b.cap ≠ 0 := by omega
  rw [physicalIndexFromNewest, if_neg hcap, Nat.mod_eq_of_lt (by omega : backIndex < b.cap)]
  have hnewest : b.head + b.size - 1 = b.head + (b.size - 1) := by omega
  rw [hnewest]
  show ((b.head + (b.size - 1)) % b.cap + b.cap - backIndex) % b.cap = _
  rw [Nat.add_sub_assoc (by omega), Nat.mod_add_mod]
  have hturn : b.head + (b.size - 1) + (b.cap - backIndex) =
      b.head + (b.size - 1 - backIndex) + b.cap := by omega
  rw [hturn, Nat.add_mod_right]

theorem Holds.valueFromBack (h : b.Holds xs) {backIndex : Nat} (hback : backIndex < b.cap) :
    b.valueFromBack backIndex = xs.reverse[backIndex]? := by
  have hsize := h.size
  rw [RingBuffer.valueFromBack]
  split
  · next hle =>
    rw [List.getElem?_eq_none]
    rw [List.length_reverse]
    omega
  · next hlt =>
    have hlt' : backIndex < b.size := Nat.lt_of_not_le hlt
    have hold := h.cell (b.size - 1 - backIndex) (by omega)
    rw [RingBuffer.cell, ← physicalIndexFromNewest_eq hlt'] at hold
    rw [← Vector.getElem?_eq_getElem, hold, List.getElem?_reverse (by omega)]
    congr 1
    omega

/-! The values in use. -/

/-- The values in use, the oldest first. -/
def contents (b : RingBuffer α) : List α :=
  List.ofFn fun k : Fin b.size =>
    have hlt : (b.head + k) % b.cap < b.cap :=
      Nat.mod_lt _ (b.cap_pos (Nat.not_le_of_lt k.isLt))
    b.buf[(b.head + k) % b.cap]

@[simp] theorem length_contents (b : RingBuffer α) : b.contents.length = b.size :=
  List.length_ofFn

theorem getElem?_contents {k : Nat} (h : k < b.size) : b.contents[k]? = b.cell k := by
  have hlt : (b.head + k) % b.cap < b.cap := Nat.mod_lt _ (b.cap_pos (Nat.not_le_of_lt h))
  rw [contents, List.getElem?_ofFn, dif_pos h, cell, Vector.getElem?_eq_getElem hlt]

theorem Holds.contents (h : b.Holds xs) : b.contents = xs.rtake b.cap := by
  have hsize := h.size
  refine List.ext_getElem? fun k => ?_
  by_cases hk : k < b.size
  · rw [getElem?_contents hk, h.cell k hk, List.rtake, List.getElem?_drop]
  · rw [List.getElem?_eq_none, List.getElem?_eq_none]
    · rw [Series.length_rtake]
      omega
    · rw [length_contents]
      omega

theorem holds_contents (b : RingBuffer α) : b.Holds b.contents := by
  have hle := b.size_le
  refine ⟨?_, fun k hk => ?_⟩
  · rw [length_contents]
    omega
  · rw [length_contents, Nat.sub_eq_zero_of_le hle, Nat.zero_add, getElem?_contents hk]

/-! The buffer as a window. -/

def toWindow (b : RingBuffer α) : Window α where
  size := b.cap
  items := b.contents
  length_le := by
    rw [length_contents]
    exact b.size_le

@[simp] theorem toWindow_size (b : RingBuffer α) : b.toWindow.size = b.cap := rfl

@[simp] theorem toWindow_items (b : RingBuffer α) : b.toWindow.items = b.contents := rfl

/-- A call on the buffer. -/
def call [Zero α] (b : RingBuffer α) : StoreCall α → RingBuffer α
  | .feed v => (b.push v).2
  | .clear => b.clear
  | .reset capacity => reset capacity

theorem contents_of_size_eq_zero (h : b.size = 0) : b.contents = [] := by
  rw [← List.length_eq_zero_iff, length_contents, h]

theorem push_overwritten (b : RingBuffer α) (v : α) : (b.push v).1 = b.toWindow.evicted := by
  unfold Window.evicted
  rw [toWindow_items, toWindow_size, length_contents]
  by_cases hcap : 0 < b.cap
  · rw [(b.holds_contents.push hcap v).1, Series.dropped, length_contents,
      Series.rtake_of_length_le (by rw [length_contents]; exact b.size_le)]
    exact if_congr ⟨fun h => Nat.le_antisymm b.size_le h, fun h => Nat.le_of_eq h.symm⟩ rfl rfl
  · have hsize : b.size = 0 := Nat.le_zero.mp (Nat.le_trans b.size_le (Nat.le_of_not_lt hcap))
    rw [push, dif_neg hcap, contents_of_size_eq_zero hsize]
    exact (ite_self none).symm

theorem toWindow_push (b : RingBuffer α) (v : α) : (b.push v).2.toWindow = b.toWindow.feed v := by
  refine Window.ext (push_cap b v) ?_
  show (b.push v).2.contents = (b.contents ++ [v]).rtake b.cap
  by_cases hcap : 0 < b.cap
  · rw [(b.holds_contents.push hcap v).2.contents, push_cap]
  · have hzero : b.cap = 0 := Nat.le_zero.mp (Nat.le_of_not_lt hcap)
    have hsize : b.size = 0 := Nat.le_zero.mp (hzero ▸ b.size_le)
    rw [push, dif_neg hcap, contents_of_size_eq_zero hsize, hzero, List.rtake_zero]

theorem contents_push (b : RingBuffer α) (v : α) :
    (b.push v).2.contents = (b.contents ++ [v]).rtake b.cap :=
  congrArg Window.items (b.toWindow_push v)

theorem sum_push [AddCommGroup α] (hcap : b.cap ≠ 0) (v : α) :
    (b.push v).2.contents.sum = b.contents.sum - (b.push v).1.getD 0 + v := by
  have hpos : 0 < b.toWindow.size := Nat.pos_of_ne_zero hcap
  have hsum := Window.sum_map_feed id hpos v
  rw [List.map_id, List.map_id, Option.map_id, ← push_overwritten, ← toWindow_push] at hsum
  exact hsum

theorem sumsq_push [Ring α] (hcap : b.cap ≠ 0) (v : α) :
    ((b.push v).2.contents.map (fun x => x * x)).sum =
      (b.contents.map (fun x => x * x)).sum - (b.push v).1.getD 0 * (b.push v).1.getD 0 +
        v * v := by
  have hpos : 0 < b.toWindow.size := Nat.pos_of_ne_zero hcap
  have hsum := Window.sum_map_feed (fun x => x * x) hpos v
  have hsquare : (b.toWindow.evicted.map (fun x => x * x)).getD 0 =
      (b.push v).1.getD 0 * (b.push v).1.getD 0 := by
    rw [← push_overwritten]
    cases (b.push v).1 with
    | none => exact (mul_zero 0).symm
    | some old => rfl
  rw [hsquare, ← toWindow_push] at hsum
  exact hsum

/-- **Refinement.** A call on the buffer is the call on its window. -/
theorem toWindow_call [Zero α] (b : RingBuffer α) (c : StoreCall α) :
    (b.call c).toWindow = b.toWindow.call c := by
  cases c with
  | feed v => exact b.toWindow_push v
  | clear => exact Window.ext rfl (contents_of_size_eq_zero rfl)
  | reset capacity => exact Window.ext rfl (contents_of_size_eq_zero rfl)

/-! The accessors. -/

/-- What an accessor with an exception makes of a value, or of none. -/
def orThrow (what : String) : Option α → Except OutOfRange α
  | some v => .ok v
  | none => .error ⟨what⟩

theorem index_eq_cell (b : RingBuffer α) (i : Nat) : b.index i = b.cell i := by
  unfold index cell physicalIndexFromOldest
  split
  · next hcap =>
    rw [Vector.getElem?_eq_none (by omega), Vector.getElem?_eq_none (by omega)]
  · rfl

theorem index_eq {i : Nat} (h : i < b.size) : b.index i = b.contents[i]? := by
  rw [index_eq_cell, getElem?_contents h]

theorem atIndex_eq (b : RingBuffer α) (i : Nat) :
    b.atIndex i = orThrow "RingBuffer::at (oldest) out of range" b.contents[i]? := by
  unfold atIndex
  split
  · next hle =>
    rw [List.getElem?_eq_none (by rwa [length_contents])]
    rfl
  · next hlt =>
    have hphysical := b.physicalIndexFromOldest_lt i (b.cap_pos hlt)
    rw [← index_eq (Nat.lt_of_not_le hlt), index, Vector.getElem?_eq_getElem hphysical]
    rfl

theorem oldest_eq (b : RingBuffer α) :
    b.oldest = orThrow "RingBuffer::oldest on empty buffer" b.contents.head? := by
  rw [List.head?_eq_getElem?]
  unfold oldest
  split
  · next hzero =>
    rw [List.getElem?_eq_none (by rw [length_contents]; omega)]
    rfl
  · next hne =>
    have hphysical := b.physicalIndexFromOldest_lt 0
      (b.cap_pos (fun hle => hne (Nat.le_zero.mp hle)))
    rw [← index_eq (Nat.pos_of_ne_zero hne), index, Vector.getElem?_eq_getElem hphysical]
    rfl

theorem valueFromBack_eq (b : RingBuffer α) (backIndex : Nat) :
    b.valueFromBack backIndex = b.contents.reverse[backIndex]? := by
  by_cases hback : backIndex < b.cap
  · exact b.holds_contents.valueFromBack hback
  · have hle : b.size ≤ backIndex := Nat.le_trans b.size_le (Nat.le_of_not_lt hback)
    rw [valueFromBack, dif_pos hle,
      List.getElem?_eq_none (by rwa [List.length_reverse, length_contents])]

theorem refFromBack_eq (b : RingBuffer α) (backIndex : Nat) :
    b.refFromBack backIndex =
      orThrow "RingBuffer::refFromBack out of range" b.contents.reverse[backIndex]? := by
  rw [← valueFromBack_eq]
  unfold refFromBack valueFromBack
  split <;> rfl

theorem newest_eq (b : RingBuffer α) :
    b.newest = orThrow "RingBuffer::newest on empty buffer" b.contents.getLast? := by
  rw [← List.head?_reverse, List.head?_eq_getElem?, ← valueFromBack_eq]
  unfold newest valueFromBack
  by_cases hzero : b.size = 0
  · rw [dif_pos hzero, dif_pos (Nat.le_of_eq hzero)]
    rfl
  · rw [dif_neg hzero, dif_neg (fun hle => hzero (Nat.le_zero.mp hle))]
    rfl

end RingBuffer
end CoinBot
