import Mathlib.Algebra.BigOperators.Group.List.Basic
import Mathlib.Algebra.Order.BigOperators.Group.List
import Mathlib.Algebra.Order.Field.Basic
import Mathlib.Data.List.DropRight
import Mathlib.Tactic.FieldSimp
import Mathlib.Tactic.Ring

/- Series of numbers and their moving statistics, newest value last.

   A statistic of a series can be computed from all of it, or kept up to date while the
   values come one by one. `rtake n` is the window of the last `n` values; the lemmas say
   how each statistic moves when one more value is appended. -/
namespace CoinBot.Series

/-! Neighbours. -/

section Steps

variable {α β : Type*}

/-- `f` of each value and the next. -/
def steps (f : α → α → β) (xs : List α) : List β := List.zipWith f xs xs.tail

@[simp] theorem steps_nil (f : α → α → β) : steps f [] = [] := rfl

@[simp] theorem length_steps (f : α → α → β) (xs : List α) :
    (steps f xs).length = xs.length - 1 := by
  rw [steps, List.length_zipWith, List.length_tail]
  omega

theorem steps_concat (f : α → α → β) {xs : List α} {last : α} (hlast : xs.getLast? = some last)
    (x : α) : steps f (xs ++ [x]) = steps f xs ++ [f last x] := by
  induction xs with
  | nil => simp at hlast
  | cons a xs ih =>
    cases xs with
    | nil =>
      obtain rfl : a = last := by simpa using hlast
      rfl
    | cons b xs =>
      have htail : (b :: xs).getLast? = some last := by simpa using hlast
      have hmore := ih htail
      simp only [steps, List.cons_append, List.tail_cons, List.zipWith_cons_cons] at hmore ⊢
      rw [hmore]

theorem sum_steps_concat [AddMonoid β] (f : α → α → β) {xs : List α} {last : α}
    (hlast : xs.getLast? = some last) (x : α) :
    (steps f (xs ++ [x])).sum = (steps f xs).sum + f last x := by
  rw [steps_concat f hlast, List.sum_append, List.sum_singleton]

theorem take_steps (f : α → α → β) (xs : List α) (n : Nat) :
    (steps f xs).take n = steps f (xs.take (n + 1)) := by
  rw [steps, steps, List.take_zipWith]
  induction xs generalizing n with
  | nil => simp
  | cons a xs ih =>
    cases n with
    | zero => simp
    | succ n =>
      cases xs with
      | nil => simp
      | cons b xs =>
        have hmore := ih n
        simp only [List.tail_cons, List.take_succ_cons, List.zipWith_cons_cons] at hmore ⊢
        rw [hmore]

end Steps

/-! The window of the last values. -/

section Window

variable {α : Type*}

theorem length_rtake (xs : List α) (n : Nat) : (xs.rtake n).length = min n xs.length := by
  rw [List.rtake, List.length_drop]
  omega

theorem rtake_of_length_le {xs : List α} {n : Nat} (h : xs.length ≤ n) : xs.rtake n = xs := by
  rw [List.rtake, Nat.sub_eq_zero_of_le h, List.drop_zero]

theorem rtake_concat_of_lt {xs : List α} {n : Nat} (h : xs.length < n) (x : α) :
    (xs ++ [x]).rtake n = xs.rtake n ++ [x] := by
  rw [rtake_of_length_le (Nat.le_of_lt h), rtake_of_length_le]
  rw [List.length_append, List.length_singleton]
  exact h

theorem rtake_concat_of_le {xs : List α} {n : Nat} (hn : 0 < n) (h : n ≤ xs.length) (x : α) :
    (xs ++ [x]).rtake n = (xs.rtake n).tail ++ [x] := by
  obtain ⟨k, rfl⟩ := Nat.exists_eq_add_of_lt hn
  rw [Nat.zero_add] at h ⊢
  rw [List.rtake_concat_succ]
  congr 1
  rw [List.rtake, List.rtake, List.tail_drop]
  congr 1
  omega

theorem rtake_map {β : Type*} (f : α → β) (xs : List α) (n : Nat) :
    (xs.map f).rtake n = (xs.rtake n).map f := by
  rw [List.rtake, List.rtake, List.length_map, List.map_drop]

/-- What left the window before does not come back. -/
theorem rtake_rtake_concat (n : Nat) (xs : List α) (x : α) :
    (xs.rtake n ++ [x]).rtake n = (xs ++ [x]).rtake n := by
  cases n with
  | zero => rw [List.rtake_zero, List.rtake_zero]
  | succ n =>
    rw [List.rtake_concat_succ, List.rtake_concat_succ]
    congr 1
    rw [List.rtake, List.rtake, List.rtake, List.drop_drop, List.length_drop]
    congr 1
    omega

/-- The value the window loses when one more comes. -/
def dropped (n : Nat) (xs : List α) : Option α :=
  if n ≤ xs.length then (xs.rtake n).head? else none

theorem dropped_map {β : Type*} (f : α → β) (n : Nat) (xs : List α) :
    dropped n (xs.map f) = (dropped n xs).map f := by
  rw [dropped, dropped, List.length_map, rtake_map]
  split
  · exact List.head?_map
  · rfl

/-- The sum over the window, after one more value. -/
theorem sum_rtake_concat [AddCommGroup α] {n : Nat} (hn : 0 < n) (xs : List α) (x : α) :
    ((xs ++ [x]).rtake n).sum = (xs.rtake n).sum - (dropped n xs).getD 0 + x := by
  rw [dropped]
  split
  · next h =>
    have hlen : 0 < (xs.rtake n).length := by
      rw [length_rtake]
      omega
    obtain ⟨y, ys, hcons⟩ := List.exists_cons_of_length_pos hlen
    rw [rtake_concat_of_le hn h, hcons]
    simp
  · next h =>
    rw [rtake_concat_of_lt (Nat.lt_of_not_le h)]
    simp

end Window

/-! Mean and population variance. -/

section Moments

variable {α : Type*} [Field α]

def mean (xs : List α) : α := xs.sum / xs.length

def variance (xs : List α) : α :=
  (xs.map (fun x => (x - mean xs) * (x - mean xs))).sum / xs.length

theorem sum_sub_mul_self (m : α) (xs : List α) :
    (xs.map (fun x => (x - m) * (x - m))).sum =
      (xs.map (fun x => x * x)).sum - (m * xs.sum + m * xs.sum) + xs.length * (m * m) := by
  induction xs with
  | nil => simp
  | cons x xs ih =>
    simp only [List.map_cons, List.sum_cons, List.length_cons, Nat.cast_succ, ih]
    ring

/-- The variance is the mean of the squares less the square of the mean. -/
theorem variance_eq {xs : List α} (hn : (xs.length : α) ≠ 0) :
    variance xs = (xs.map (fun x => x * x)).sum / xs.length - mean xs * mean xs := by
  have hsum : xs.sum = xs.length * mean xs := by
    rw [mean, mul_div_cancel₀ _ hn]
  rw [variance, sum_sub_mul_self, hsum]
  field_simp
  ring

theorem variance_nonneg [LinearOrder α] [IsStrictOrderedRing α] (xs : List α) :
    0 ≤ variance xs := by
  refine div_nonneg (List.sum_nonneg ?_) (Nat.cast_nonneg _)
  intro y hy
  obtain ⟨x, -, rfl⟩ := List.mem_map.mp hy
  exact mul_self_nonneg _

end Moments

/-! A mean that is seeded with the first values and smoothed by the others. -/

section Smoothing

variable {α : Type*} [Field α]

/-- The weight of the newest value is one `n`-th. -/
def smoothStep (n : Nat) (avg x : α) : α := (avg * (n - 1) + x) / n

def smoothed (n : Nat) (xs : List α) : α :=
  (xs.drop n).foldl (smoothStep n) ((xs.take n).sum / n)

theorem smoothed_of_length_eq {n : Nat} {xs : List α} (h : xs.length = n) :
    smoothed n xs = xs.sum / n := by
  rw [smoothed, List.drop_of_length_le (Nat.le_of_eq h), List.take_of_length_le (Nat.le_of_eq h),
    List.foldl_nil]

theorem smoothed_concat {n : Nat} {xs : List α} (h : n ≤ xs.length) (x : α) :
    smoothed n (xs ++ [x]) = smoothStep n (smoothed n xs) x := by
  rw [smoothed, smoothed, List.drop_append_of_le_length h, List.take_append_of_le_length h,
    List.foldl_append, List.foldl_cons, List.foldl_nil]

variable {γ : Type*} {f : γ → γ → α} {xs : List γ} {last : γ} {n : Nat}

theorem smoothed_steps_seed (hlast : xs.getLast? = some last) (hlen : xs.length = n) (x : γ) :
    smoothed n (steps f (xs ++ [x])) = ((steps f xs).sum + f last x) / n := by
  have hsteps : (steps f (xs ++ [x])).length = n := by
    rw [length_steps, List.length_append, List.length_singleton]
    omega
  rw [smoothed_of_length_eq hsteps, sum_steps_concat f hlast]

theorem smoothed_steps_next (hlast : xs.getLast? = some last) (hlen : n < xs.length) (x : γ) :
    smoothed n (steps f (xs ++ [x])) = smoothStep n (smoothed n (steps f xs)) (f last x) := by
  have hsteps : n ≤ (steps f xs).length := by
    rw [length_steps]
    omega
  rw [steps_concat f hlast, smoothed_concat hsteps]

end Smoothing

end CoinBot.Series
