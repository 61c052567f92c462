import CoinBot.Lib.Machine
import Mathlib.Algebra.BigOperators.Group.List.Basic
import Mathlib.Algebra.Order.Group.Defs
import Mathlib.Logic.Function.Basic
import Mathlib.Tactic.Abel

/- An escrow: per account `m`, an amount that is free, an amount that is spent,
   and a list of slots, each empty or holding a claim of some amount on some
   account. A claim is locked out of the free amount, paid out of in parts, handed
   to another slot, and given back. No operation creates or loses any amount
   (`total_step`), so no run does (`total_run`). -/

structure Escrow (M α : Type) where
  free : M → α
  spent : M → α
  claims : List (Option (M × α))

namespace Escrow
variable {M α : Type}

/-- What a slot claims on account `m`. -/
def claimOn [DecidableEq M] [Zero α] (m : M) : Option (M × α) → α
  | none => 0
  | some c => if c.1 = m then c.2 else 0

inductive Op (M α : Type) where
  | lock (m : M) (x : α)
  | pay (i : Nat) (x : α)
  | giveBack (i : Nat)
  | hand (i : Nat)

variable [DecidableEq M] [AddCommGroup α]

/-- Everything claimed on account `m`. -/
def claimed (e : Escrow M α) (m : M) : α := (e.claims.map (claimOn m)).sum

def total (e : Escrow M α) (m : M) : α := e.free m + e.claimed m + e.spent m

/-- One operation. A payment or a return on a slot without a claim does nothing. -/
def step (e : Escrow M α) : Op M α → Escrow M α
  | .lock m x =>
    { e with free := Function.update e.free m (e.free m - x), claims := e.claims ++ [some (m, x)] }
  | .pay i x =>
    match e.claims[i]? with
    | some (some c) =>
      { e with
        spent := Function.update e.spent c.1 (e.spent c.1 + x)
        claims := e.claims.set i (some (c.1, c.2 - x)) }
    | _ => e
  | .giveBack i =>
    match e.claims[i]? with
    | some (some c) =>
      { e with
        free := Function.update e.free c.1 (e.free c.1 + c.2)
        claims := e.claims.set i none }
    | _ => e
  | .hand i =>
    match e.claims[i]? with
    | some c => { e with claims := e.claims.set i none ++ [c] }
    | none => e

theorem claimOn_self (m : M) (x : α) : claimOn m (some (m, x)) = x := if_pos rfl

theorem claimOn_ne {m m' : M} (h : m ≠ m') (x : α) : claimOn m (some (m', x)) = 0 :=
  if_neg (Ne.symm h)

@[simp] theorem claimOn_none (m : M) : claimOn m (none : Option (M × α)) = 0 := rfl

theorem claimOn_sub (m m' : M) (x y : α) :
    claimOn m (some (m', x - y)) = claimOn m (some (m', x)) - claimOn m (some (m', y)) := by
  by_cases h : m = m'
  · subst h; simp only [claimOn_self]
  · simp only [claimOn_ne h, sub_zero]

theorem update_add_apply (f : M → α) (m m' : M) (x : α) :
    Function.update f m' (f m' + x) m = f m + claimOn m (some (m', x)) := by
  by_cases h : m = m'
  · subst h; rw [Function.update_self, claimOn_self]
  · rw [Function.update_of_ne h, claimOn_ne h, add_zero]

theorem update_sub_apply (f : M → α) (m m' : M) (x : α) :
    Function.update f m' (f m' - x) m = f m - claimOn m (some (m', x)) := by
  by_cases h : m = m'
  · subst h; rw [Function.update_self, claimOn_self]
  · rw [Function.update_of_ne h, claimOn_ne h, sub_zero]

/-! What is claimed after each operation. -/

theorem sum_claims_set {claims : List (Option (M × α))} {i : Nat} {c : Option (M × α)}
    (h : claims[i]? = some c) (m : M) (d : Option (M × α)) :
    ((claims.set i d).map (claimOn m)).sum =
      (claims.map (claimOn m)).sum - claimOn m c + claimOn m d := by
  obtain ⟨hi, rfl⟩ := List.getElem?_eq_some_iff.mp h
  rw [List.map_set, List.sum_set', dif_pos (by simpa using hi), List.getElem_map]
  abel

theorem claimed_lock (e : Escrow M α) (m m' : M) (x : α) :
    (e.step (.lock m' x)).claimed m = e.claimed m + claimOn m (some (m', x)) := by
  simp [step, claimed]

theorem claimed_pay {e : Escrow M α} {i : Nat} {c : M × α} (h : e.claims[i]? = some (some c))
    (m : M) (x : α) :
    (e.step (.pay i x)).claimed m = e.claimed m - claimOn m (some (c.1, x)) := by
  simp only [step, h, claimed, sum_claims_set h, claimOn_sub]
  abel

theorem claimed_giveBack {e : Escrow M α} {i : Nat} {c : M × α}
    (h : e.claims[i]? = some (some c)) (m : M) :
    (e.step (.giveBack i)).claimed m = e.claimed m - claimOn m (some c) := by
  simp only [step, h, claimed, sum_claims_set h, claimOn_none, add_zero]

theorem claimed_hand (e : Escrow M α) (i : Nat) (m : M) :
    (e.step (.hand i)).claimed m = e.claimed m := by
  simp only [step]
  split
  · next c hc =>
    simp only [claimed, List.map_append, List.sum_append, sum_claims_set hc, List.map_cons,
      List.map_nil, List.sum_singleton, claimOn_none]
    abel
  · rfl

theorem claimed_split {e : Escrow M α} {i : Nat} {c : Option (M × α)} (h : e.claims[i]? = some c)
    (m : M) : e.claimed m = claimOn m c + ((e.claims.set i none).map (claimOn m)).sum := by
  rw [sum_claims_set h, claimOn_none, claimed]
  abel

/-! Conservation. -/

theorem step_pay_skip {e : Escrow M α} {i : Nat} (h : ¬ ∃ c, e.claims[i]? = some (some c)) (x : α) :
    e.step (.pay i x) = e := by
  simp only [step]
  split
  · next c hc => exact absurd ⟨c, hc⟩ h
  · rfl

theorem step_giveBack_skip {e : Escrow M α} {i : Nat}
    (h : ¬ ∃ c, e.claims[i]? = some (some c)) : e.step (.giveBack i) = e := by
  simp only [step]
  split
  · next c hc => exact absurd ⟨c, hc⟩ h
  · rfl

/-- No operation creates or loses any amount. -/
theorem total_step (e : Escrow M α) (op : Op M α) (m : M) : (e.step op).total m = e.total m := by
  unfold total
  cases op with
  | lock m' x =>
    rw [claimed_lock]
    simp only [step, update_sub_apply]
    abel
  | pay i x =>
    by_cases h : ∃ c, e.claims[i]? = some (some c)
    · obtain ⟨c, hc⟩ := h
      rw [claimed_pay hc]
      simp only [step, hc, update_add_apply]
      abel
    · rw [step_pay_skip h]
  | giveBack i =>
    by_cases h : ∃ c, e.claims[i]? = some (some c)
    · obtain ⟨c, hc⟩ := h
      rw [claimed_giveBack hc]
      simp only [step, hc, update_add_apply]
      abel
    · rw [step_giveBack_skip h]
  | hand i =>
    have hframe : (e.step (.hand i)).free = e.free ∧ (e.step (.hand i)).spent = e.spent := by
      simp only [step]
      split <;> exact ⟨rfl, rfl⟩
    rw [claimed_hand, hframe.1, hframe.2]

theorem total_run (e : Escrow M α) (ops : List (Op M α)) (m : M) :
    (Machine.run step e ops).total m = e.total m := by
  induction ops generalizing e with
  | nil => rfl
  | cons op ops ih => rw [Machine.run_cons, ih, total_step]

end Escrow
