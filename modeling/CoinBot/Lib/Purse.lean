import Mathlib.Algebra.BigOperators.Group.List.Basic
import Mathlib.Algebra.Order.BigOperators.Group.List
import Mathlib.Algebra.Order.Group.Defs
import Mathlib.Tactic.Abel

/- A purse that pays for items in order.

   It pays for each as far as it can, and for none once it is empty: `paid` are the
   items it pays for, the last of them perhaps in part, and `drain` is what is left.
   All items are paid for exactly when the purse outlasts all of them but the last
   (`paid_eq_self_iff`). -/
namespace Purse
variable {X α : Type} [AddCommGroup α] [LinearOrder α]

/-- What is left after the items. -/
def drain (cost : X → α) : α → List X → α
  | left, [] => left
  | left, x :: xs => drain cost (max 0 (left - cost x)) xs

/-- The items paid for. -/
def paid (cost : X → α) : α → List X → List X
  | _, [] => []
  | left, x :: xs => if 0 < left then x :: paid cost (max 0 (left - cost x)) xs else []

variable {cost : X → α} {left : α} {xs : List X}

@[simp] theorem drain_nil (left : α) : drain cost left [] = left := rfl

@[simp] theorem paid_nil (left : α) : paid cost left [] = [] := rfl

theorem paid_of_empty (hleft : left ≤ 0) : paid cost left xs = [] := by
  cases xs with
  | nil => rfl
  | cons x xs => exact if_neg (not_lt.mpr hleft)

theorem drain_append (left : α) (xs ys : List X) :
    drain cost left (xs ++ ys) = drain cost (drain cost left xs) ys := by
  induction xs generalizing left with
  | nil => rfl
  | cons x xs ih => exact ih _

theorem paid_isPrefix (cost : X → α) (left : α) (xs : List X) : paid cost left xs <+: xs := by
  induction xs generalizing left with
  | nil => exact List.prefix_rfl
  | cons x xs ih =>
    by_cases hleft : 0 < left
    · rw [paid, if_pos hleft]
      exact (List.prefix_cons_inj x).mpr (ih _)
    · rw [paid_of_empty (not_lt.mp hleft)]
      exact List.nil_prefix

variable [IsOrderedAddMonoid α]

theorem drain_of_empty (hleft : left ≤ 0) (hcost : ∀ x ∈ xs, 0 ≤ cost x) :
    drain cost left xs ≤ 0 := by
  induction xs generalizing left with
  | nil => exact hleft
  | cons x xs ih =>
    have hx : left - cost x ≤ 0 :=
      sub_nonpos.mpr (hleft.trans (hcost x List.mem_cons_self))
    exact ih (max_le le_rfl hx) (fun y hy => hcost y (List.mem_cons_of_mem x hy))

/-- A purse that suffices has what the items do not cost. -/
theorem drain_of_le (hcost : ∀ x ∈ xs, 0 ≤ cost x) (hle : (xs.map cost).sum ≤ left) :
    drain cost left xs = left - (xs.map cost).sum := by
  induction xs generalizing left with
  | nil => simp
  | cons x xs ih =>
    have hrest : ∀ y ∈ xs, 0 ≤ cost y := fun y hy => hcost y (List.mem_cons_of_mem x hy)
    have hsum : 0 ≤ (xs.map cost).sum := by
      refine List.sum_nonneg (fun c hc => ?_)
      obtain ⟨y, hy, rfl⟩ := List.mem_map.mp hc
      exact hrest y hy
    rw [List.map_cons, List.sum_cons] at hle ⊢
    have hle' : (xs.map cost).sum ≤ left - cost x := le_sub_iff_add_le'.mpr hle
    rw [drain, max_eq_right (hsum.trans hle'), ih hrest hle', sub_sub]

theorem paid_append {xs ys : List X} (hcost : ∀ x ∈ xs, 0 ≤ cost x) (left : α) :
    paid cost left (xs ++ ys) = paid cost left xs ++ paid cost (drain cost left xs) ys := by
  induction xs generalizing left with
  | nil => rfl
  | cons x xs ih =>
    by_cases hleft : 0 < left
    · have hrest := ih (fun y hy => hcost y (List.mem_cons_of_mem x hy)) (max 0 (left - cost x))
      simp only [List.cons_append, paid, if_pos hleft, drain, hrest]
    · have hempty := not_lt.mp hleft
      rw [List.cons_append, paid_of_empty hempty, paid_of_empty hempty,
        paid_of_empty (drain_of_empty hempty hcost), List.append_nil]

/-- One more item is paid for while there is anything left. -/
theorem paid_concat (hcost : ∀ x ∈ xs, 0 ≤ cost x) (left : α) (x : X) :
    paid cost left (xs ++ [x]) =
      paid cost left xs ++ if 0 < drain cost left xs then [x] else [] := by
  rw [paid_append hcost]
  rfl

theorem paid_eq_self_iff (hleft : 0 < left) (hcost : ∀ x ∈ xs, 0 ≤ cost x) :
    paid cost left xs = xs ↔ (xs.dropLast.map cost).sum < left := by
  induction xs generalizing left with
  | nil => simpa using hleft
  | cons x xs ih =>
    cases xs with
    | nil => simp [paid, hleft]
    | cons y ys =>
      have hrest : ∀ z ∈ y :: ys, 0 ≤ cost z := fun z hz => hcost z (List.mem_cons_of_mem x hz)
      have hsum : 0 ≤ ((y :: ys).dropLast.map cost).sum := by
        refine List.sum_nonneg (fun c hc => ?_)
        obtain ⟨z, hz, rfl⟩ := List.mem_map.mp hc
        exact hrest z (List.dropLast_subset _ hz)
      have hgoal : ((x :: y :: ys).dropLast.map cost).sum =
          cost x + ((y :: ys).dropLast.map cost).sum := by
        rw [List.dropLast_cons_cons, List.map_cons, List.sum_cons]
      rw [hgoal, paid, if_pos hleft, List.cons_inj_right]
      by_cases hmore : 0 < left - cost x
      · rw [max_eq_right hmore.le, ih hmore hrest, lt_sub_iff_add_lt']
      · have hempty : max 0 (left - cost x) ≤ 0 := max_le le_rfl (not_lt.mp hmore)
        rw [paid_of_empty hempty]
        refine iff_of_false (fun h => nomatch h) (fun h => hmore ?_)
        exact sub_pos.mpr ((le_add_of_nonneg_right hsum).trans_lt h)

end Purse
