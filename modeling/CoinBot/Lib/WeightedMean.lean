import Mathlib.Algebra.BigOperators.Group.List.Basic
import Mathlib.Algebra.Order.BigOperators.Group.List
import Mathlib.Algebra.Order.Field.Basic
import Mathlib.Data.List.Chain
import Mathlib.Data.List.Induction
import Mathlib.Tactic.Linarith
import Mathlib.Tactic.Ring

/- Holdings at a mean cost: a quantity and the mean of what its units cost.

   An acquisition adds a quantity that cost some amount, and moves the mean to the
   weighted mean of both. What matters of a sequence of acquisitions is their total
   quantity and their total cost (`acquire_acquire`), and the mean of a positive
   holding is its total cost over its quantity (`cost_acquire`). A meter that is read
   from time to time gives the acquisitions between the readings (`acquireUpTo`); a
   holding that starts in debt forgets what was acquired below zero, so that the
   readings matter there (`acquireUpTo_eq_iff`). -/

/-- A quantity and its mean cost. -/
@[ext] structure Holding (α : Type) where
  qty : α
  mean : α

theorem le_getLast_of_isChain {X α : Type} [Preorder α] {q : X → α} {x : X} {ys : List X}
    (hgrow : List.IsChain (fun x y => q x ≤ q y) (x :: ys)) :
    q x ≤ q ((x :: ys).getLast (by simp)) := by
  induction ys generalizing x with
  | nil => exact le_rfl
  | cons y ys ih =>
    rw [List.isChain_cons_cons] at hgrow
    rw [List.getLast_cons_cons]
    exact hgrow.1.trans (ih hgrow.2)

namespace Holding
variable {α : Type} [Field α] [LinearOrder α]

def cost (h : Holding α) : α := h.qty * h.mean

/-- `q` more units, for `c` in all. The mean of an empty holding stays what it was. -/
def acquire (h : Holding α) (q c : α) : Holding α where
  qty := h.qty + q
  mean := if 0 < h.qty + q then (h.cost + c) / (h.qty + q) else h.mean

theorem cost_acquire (h : Holding α) {q : α} (hpos : 0 < h.qty + q) (c : α) :
    (h.acquire q c).cost = h.cost + c := by
  simp only [cost, acquire, if_pos hpos]
  exact mul_div_cancel₀ _ hpos.ne'

theorem mean_acquire (h : Holding α) {q : α} (hpos : 0 < h.qty + q) (c : α) :
    (h.acquire q c).mean = (h.cost + c) / (h.qty + q) := if_pos hpos

theorem acquire_zero (h : Holding α) : h.acquire 0 0 = h := by
  ext
  · exact add_zero h.qty
  · show (if 0 < h.qty + 0 then (h.cost + 0) / (h.qty + 0) else h.mean) = h.mean
    split
    · next hpos =>
      rw [add_zero] at hpos ⊢
      rw [cost, add_zero, mul_div_cancel_left₀ _ hpos.ne']
    · rfl

/-- Two acquisitions are one of both: of a first one that is empty, its cost is 0. -/
theorem acquire_acquire [IsStrictOrderedRing α] {h : Holding α} {q₁ c₁ q₂ c₂ : α} (hqty : 0 ≤ h.qty) (hq₁ : 0 ≤ q₁)
    (hq₂ : 0 < q₂) (hc₁ : q₁ = 0 → c₁ = 0) :
    (h.acquire q₁ c₁).acquire q₂ c₂ = h.acquire (q₁ + q₂) (c₁ + c₂) := by
  have hpos : 0 < h.qty + (q₁ + q₂) := by linarith
  have hpos' : 0 < (h.acquire q₁ c₁).qty + q₂ := by
    show 0 < h.qty + q₁ + q₂
    linarith
  ext
  · exact add_assoc h.qty q₁ q₂
  · rw [mean_acquire _ hpos', mean_acquire _ hpos]
    have hcost : (h.acquire q₁ c₁).cost = h.cost + c₁ := by
      by_cases hfirst : 0 < h.qty + q₁
      · exact cost_acquire h hfirst c₁
      · have hq : q₁ = 0 := by linarith
        have hh : h.qty = 0 := by linarith
        simp [cost, acquire, hq, hh, hc₁ hq]
    rw [hcost, add_assoc]
    show (h.cost + (c₁ + c₂)) / (h.qty + q₁ + q₂) = _
    rw [add_assoc h.qty]

/-- A list of acquisitions is one of their totals. -/
theorem foldl_acquire [IsStrictOrderedRing α] {X : Type} (q c : X → α) {xs : List X}
    (hq : ∀ x ∈ xs, 0 < q x) {h : Holding α} (hqty : 0 ≤ h.qty) :
    xs.foldl (fun h x => h.acquire (q x) (c x)) h = h.acquire (xs.map q).sum (xs.map c).sum := by
  induction xs using List.reverseRecOn with
  | nil => exact h.acquire_zero.symm
  | append_singleton xs x ih =>
    have hxs : ∀ y ∈ xs, 0 < q y := fun y hy => hq y (List.mem_append_left _ hy)
    have hx : 0 < q x := hq x (List.mem_append_right _ (List.mem_singleton_self x))
    have hsum : 0 ≤ (xs.map q).sum := by
      refine List.sum_nonneg (fun v hv => ?_)
      obtain ⟨y, hy, rfl⟩ := List.mem_map.mp hv
      exact (hxs y hy).le
    have hempty : (xs.map q).sum = 0 → (xs.map c).sum = 0 := by
      intro hzero
      cases xs with
      | nil => rfl
      | cons y ys =>
        have hpos : 0 < ((y :: ys).map q).sum := by
          refine List.sum_pos _ (fun v hv => ?_) (by simp)
          obtain ⟨z, hz, rfl⟩ := List.mem_map.mp hv
          exact hxs z hz
        exact absurd hzero hpos.ne'
    rw [List.foldl_append, ih hxs, List.map_append, List.map_append, List.sum_append,
      List.sum_append]
    simp only [List.foldl_cons, List.foldl_nil, List.map_cons, List.map_nil, List.sum_singleton]
    exact acquire_acquire hqty hsum hx hempty

/-! Readings of a meter. -/

section Readings
variable {X : Type} (q c : X → α)

/-- The quantity and the cost grow from the reading `x` to each of the next ones; what has grown
    in quantity is acquired. -/
def acquireUpTo (h : Holding α) : X → List X → Holding α
  | _, [] => h
  | x, y :: ys => acquireUpTo (if q x < q y then h.acquire (q y - q x) (c y - c x) else h) y ys

variable {q c}

theorem qty_acquireUpTo (h : Holding α) {x : X} {ys : List X}
    (hgrow : List.IsChain (fun x y => q x ≤ q y) (x :: ys)) :
    (h.acquireUpTo q c x ys).qty = h.qty + (q ((x :: ys).getLast (by simp)) - q x) := by
  induction ys generalizing h x with
  | nil => simp [acquireUpTo]
  | cons y ys ih =>
    rw [List.isChain_cons_cons] at hgrow
    rw [acquireUpTo, ih _ hgrow.2, List.getLast_cons_cons]
    split
    · simp only [acquire]
      ring
    · next hsame =>
      rw [le_antisymm (not_lt.mp hsame) hgrow.1]

variable [IsStrictOrderedRing α]

omit [IsStrictOrderedRing α] in
theorem ext_of_pos {h g : Holding α} (hpos : 0 < h.qty) (hqty : h.qty = g.qty)
    (hcost : h.cost = g.cost) : h = g := by
  ext
  · exact hqty
  · unfold cost at hcost
    rw [← hqty] at hcost
    exact mul_left_cancel₀ hpos.ne' hcost

/-- Above zero the cost is that of the last reading. -/
theorem cost_acquireUpTo {h : Holding α} (hpos : 0 < h.qty) {x : X} {ys : List X}
    (hgrow : List.IsChain (fun x y => q x ≤ q y) (x :: ys))
    (hkeep : List.IsChain (fun x y => q y = q x → c y = c x) (x :: ys)) :
    (h.acquireUpTo q c x ys).cost = h.cost + (c ((x :: ys).getLast (by simp)) - c x) := by
  induction ys generalizing h x with
  | nil => simp [acquireUpTo]
  | cons y ys ih =>
    rw [List.isChain_cons_cons] at hgrow hkeep
    rw [acquireUpTo, List.getLast_cons_cons]
    by_cases hmore : q x < q y
    · have hpos' : 0 < h.qty + (q y - q x) := by linarith
      rw [if_pos hmore, ih hpos' hgrow.2 hkeep.2, cost_acquire h hpos']
      ring
    · have hsame : q y = q x := le_antisymm (not_lt.mp hmore) hgrow.1
      rw [if_neg hmore, ih hpos hgrow.2 hkeep.2, hkeep.1 hsame]

/-- The reading at which the quantity passes zero is the one that counts below zero: what was
    acquired up to it must have cost what the debt is valued at. -/
def CrossesAtMean (q c : X → α) (h : Holding α) (x y : X) : Prop :=
  h.qty + q x ≤ 0 → 0 < h.qty + q y → c x = h.mean * q x

theorem crossesAtMean_of_pos {h : Holding α} {x : X} {ys : List X} (hpos : 0 < h.qty + q x)
    (hgrow : List.IsChain (fun x y => q x ≤ q y) (x :: ys)) :
    List.IsChain (h.CrossesAtMean q c) (x :: ys) := by
  induction ys generalizing x with
  | nil => exact .singleton x
  | cons y ys ih =>
    rw [List.isChain_cons_cons] at hgrow ⊢
    exact ⟨fun hneg => absurd hpos (not_lt.mpr hneg), ih (by linarith [hgrow.1]) hgrow.2⟩

/-- Where a reading leaves the debt, the quantity and the cost of the readings from there on. -/
theorem acquireUpTo_over (h : Holding α) {x y : X} {ys : List X} (hover : 0 < h.qty + q y)
    (hgrow : List.IsChain (fun x y => q x ≤ q y) (y :: ys))
    (hkeep : List.IsChain (fun x y => q y = q x → c y = c x) (y :: ys)) :
    (acquireUpTo q c (acquire ⟨h.qty + q x, h.mean⟩ (q y - q x) (c y - c x)) y ys).qty =
        h.qty + q ((y :: ys).getLast (by simp)) ∧
      (acquireUpTo q c (acquire ⟨h.qty + q x, h.mean⟩ (q y - q x) (c y - c x)) y ys).cost =
        (h.qty + q x) * h.mean + (c ((y :: ys).getLast (by simp)) - c x) := by
  have hover' : 0 < h.qty + q x + (q y - q x) := by linarith
  constructor
  · rw [qty_acquireUpTo _ hgrow]
    simp only [acquire]
    ring
  · rw [cost_acquireUpTo hover' hgrow hkeep, cost_acquire _ hover']
    simp only [cost]
    ring

/-- In debt at the reading `x`, the readings lead to the same holding as the last one alone
    exactly when the debt is left at its own mean. -/
theorem acquireUpTo_debt_iff (h : Holding α) {x : X} {ys : List X} (hdebt : h.qty + q x ≤ 0)
    (hgrow : List.IsChain (fun x y => q x ≤ q y) (x :: ys))
    (hkeep : List.IsChain (fun x y => q y = q x → c y = c x) (x :: ys)) :
    acquireUpTo q c ⟨h.qty + q x, h.mean⟩ x ys =
        h.acquire (q ((x :: ys).getLast (by simp))) (c ((x :: ys).getLast (by simp))) ↔
      List.IsChain (h.CrossesAtMean q c) (x :: ys) := by
  induction ys generalizing x with
  | nil =>
    refine iff_of_true ?_ (.singleton x)
    rw [List.getLast_singleton]
    ext
    · rfl
    · exact (if_neg (not_lt.mpr hdebt)).symm
  | cons y ys ih =>
    have hlast := le_getLast_of_isChain (List.isChain_cons_cons.mp hgrow).2
    rw [List.isChain_cons_cons] at hgrow hkeep ⊢
    rw [acquireUpTo, List.getLast_cons_cons]
    by_cases hstill : h.qty + q y ≤ 0
    · -- Still in debt: the mean has not moved.
      have hnext : (if q x < q y then acquire ⟨h.qty + q x, h.mean⟩ (q y - q x) (c y - c x)
          else ⟨h.qty + q x, h.mean⟩) = (⟨h.qty + q y, h.mean⟩ : Holding α) := by
        split
        · have hqty : h.qty + q x + (q y - q x) = h.qty + q y := by ring
          simp only [acquire, hqty, if_neg (not_lt.mpr hstill)]
        · next hsame => rw [le_antisymm (not_lt.mp hsame) hgrow.1]
      rw [hnext, ih hstill hgrow.2 hkeep.2]
      exact ⟨fun hrest => ⟨fun _ hpos => absurd hpos (not_lt.mpr hstill), hrest⟩, fun hall => hall.2⟩
    · -- The debt is over: from here on the cost adds up.
      have hover : 0 < h.qty + q y := not_le.mp hstill
      have hmore : q x < q y := by linarith
      have hend : 0 < h.qty + q ((y :: ys).getLast (by simp)) := by linarith
      obtain ⟨hqty, hcost⟩ := h.acquireUpTo_over (x := x) hover hgrow.2 hkeep.2
      have hrest : List.IsChain (h.CrossesAtMean q c) (y :: ys) :=
        crossesAtMean_of_pos hover hgrow.2
      rw [if_pos hmore]
      constructor
      · intro heq
        refine ⟨fun _ _ => ?_, hrest⟩
        rw [heq, cost_acquire h hend, cost] at hcost
        linarith
      · intro hall
        refine ext_of_pos (by rw [hqty]; exact hend) hqty ?_
        rw [hcost, cost_acquire h hend, cost, hall.1 hdebt hover]
        ring

/-- From the reading `x` of an unused meter on, the readings lead to the same holding as the last
    one alone, unless they leave a debt at a mean of its own. -/
theorem acquireUpTo_eq_iff (h : Holding α) {x : X} {ys : List X} (hq : q x = 0) (hc : c x = 0)
    (hgrow : List.IsChain (fun x y => q x ≤ q y) (x :: ys))
    (hkeep : List.IsChain (fun x y => q y = q x → c y = c x) (x :: ys)) :
    h.acquireUpTo q c x ys =
        h.acquire (q ((x :: ys).getLast (by simp))) (c ((x :: ys).getLast (by simp))) ↔
      List.IsChain (h.CrossesAtMean q c) (x :: ys) := by
  rcases lt_or_ge 0 h.qty with hpos | hdebt
  · have hend : 0 < h.qty + q ((x :: ys).getLast (by simp)) := by
      have := le_getLast_of_isChain hgrow
      linarith
    refine iff_of_true (ext_of_pos ?_ ?_ ?_) (crossesAtMean_of_pos (by linarith) hgrow)
    · rw [qty_acquireUpTo h hgrow, hq, sub_zero]
      exact hend
    · rw [qty_acquireUpTo h hgrow, hq, sub_zero]
      rfl
    · rw [cost_acquireUpTo hpos hgrow hkeep, cost_acquire h hend, hc, sub_zero]
  · have hiff := acquireUpTo_debt_iff h (by rw [hq, add_zero]; exact hdebt) hgrow hkeep
    rw [hq, add_zero] at hiff
    exact hiff

end Readings

end Holding
