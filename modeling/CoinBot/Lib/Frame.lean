import Mathlib.Data.List.Dedup
import Mathlib.Data.List.Forall2
import Mathlib.Data.List.Sort

/- Sorting and grouping the rows of a table by a column.

   A sort answers with positions: where each row of the result stood before. It reads the keys
   alone, and what it does with equal keys is its own affair. -/
namespace CoinBot.Frame

section
variable {K : Type} [LinearOrder K]

structure Argsort (K : Type) [LinearOrder K] where
  order : List K → List Nat
  perm : ∀ keys, (order keys).Perm (List.range keys.length)
  sorted : ∀ keys, ((order keys).filterMap (keys[·]?)).Pairwise (· ≤ ·)

variable {β γ : Type}

def Argsort.sortBy (s : Argsort K) (key : β → K) (rows : List β) : List β :=
  (s.order (rows.map key)).filterMap (rows[·]?)

theorem filterMap_range_get (rows : List β) :
    (List.range rows.length).filterMap (rows[·]?) = rows := by
  induction rows with
  | nil => rfl
  | cons x xs ih =>
    rw [List.length_cons, List.range_succ_eq_map, List.filterMap_cons, List.filterMap_map]
    exact congrArg (x :: ·) ih

theorem forall₂_filterMap {f : β → Option γ} {p : β → Bool}
    (hp : ∀ x, p x = (f x).isSome) (xs : List β) :
    List.Forall₂ (fun x y => f x = some y) (xs.filter p) (xs.filterMap f) := by
  induction xs with
  | nil => exact List.Forall₂.nil
  | cons x xs ih =>
    cases hx : f x with
    | none =>
      rw [List.filterMap_cons_none hx, List.filter_cons_of_neg (by rw [hp, hx]; simp)]
      exact ih
    | some y =>
      rw [List.filterMap_cons_some hx, List.filter_cons_of_pos (by rw [hp, hx]; rfl)]
      exact List.Forall₂.cons hx ih

namespace Argsort
variable (s : Argsort K) (key : β → K)

theorem perm_sortBy (rows : List β) : (s.sortBy key rows).Perm rows := by
  have hperm := (s.perm (rows.map key)).filterMap (rows[·]?)
  rw [List.length_map, filterMap_range_get] at hperm
  exact hperm

/-- Rows that look alike to the sort are sorted alike. -/
theorem map_sortBy {key' : γ → K} {f : β → γ} (hkey : ∀ x, key' (f x) = key x) (rows : List β) :
    (s.sortBy key rows).map f = s.sortBy key' (rows.map f) := by
  have hkeys : (rows.map f).map key' = rows.map key := by
    rw [List.map_map]
    exact List.map_congr_left fun x _ => hkey x
  unfold sortBy
  rw [hkeys, List.map_filterMap]
  exact List.filterMap_congr fun i _ => List.getElem?_map.symm

theorem sorted_sortBy (rows : List β) : (s.sortBy key rows).Pairwise (key · ≤ key ·) := by
  have hsorted := s.sorted (rows.map key)
  have hmap : (s.sortBy key rows).map key = s.sortBy id (rows.map key) :=
    s.map_sortBy key (f := key) (fun _ => rfl) rows
  have hid : s.sortBy id (rows.map key) =
      (s.order (rows.map key)).filterMap ((rows.map key)[·]?) := by
    rw [sortBy, List.map_id]
  rw [← hid, ← hmap] at hsorted
  exact List.pairwise_map.mp hsorted

/-- Equal keys keep their order. -/
def stable (K : Type) [LinearOrder K] : Argsort K where
  order keys := (keys.zipIdx.insertionSort (fun x y => x.1 ≤ y.1)).map (·.2)
  perm keys := by
    have hperm := (List.perm_insertionSort (fun x y : K × Nat => x.1 ≤ y.1) keys.zipIdx).map (·.2)
    rwa [List.zipIdx_map_snd, ← List.range_eq_range'] at hperm
  sorted keys := by
    have hperm := List.perm_insertionSort (fun x y : K × Nat => x.1 ≤ y.1) keys.zipIdx
    have hkeys : ((keys.zipIdx.insertionSort (fun x y => x.1 ≤ y.1)).map (·.2)).filterMap
        (keys[·]?) = (keys.zipIdx.insertionSort (fun x y => x.1 ≤ y.1)).map (·.1) := by
      rw [List.filterMap_map, ← List.filterMap_eq_map]
      refine List.filterMap_congr fun x hx => ?_
      exact List.mem_zipIdx_iff_getElem?.mp (hperm.mem_iff.mp hx)
    rw [hkeys, List.pairwise_map]
    exact List.pairwise_insertionSort _ _

end Argsort

/-! Groups. -/

/-- The keys in order, each once. -/
def groupKeys (key : β → K) (rows : List β) : List K :=
  (rows.map key).dedup.insertionSort (· ≤ ·)

variable (key : β → K) (rows : List β)

theorem nodup_groupKeys : (groupKeys key rows).Nodup :=
  (List.perm_insertionSort _ _).nodup_iff.mpr (List.nodup_dedup _)

theorem mem_groupKeys (k : K) : k ∈ groupKeys key rows ↔ ∃ x ∈ rows, key x = k := by
  rw [groupKeys, (List.perm_insertionSort _ _).mem_iff, List.mem_dedup, List.mem_map]

/-- Of what the groups give, a key has what its own group gives. -/
theorem filter_flatMap_groups (give : K → List γ) (tag : γ → K) {ks : List K} (hnodup : ks.Nodup)
    (htag : ∀ k, ∀ y ∈ give k, tag y = k) (k : K) :
    (ks.flatMap give).filter (fun y => tag y = k) = if k ∈ ks then give k else [] := by
  induction ks with
  | nil => rfl
  | cons k' ks ih =>
    rw [List.nodup_cons] at hnodup
    rw [List.flatMap_cons, List.filter_append, ih hnodup.2]
    by_cases hk : k' = k
    · subst hk
      rw [if_neg hnodup.1, if_pos List.mem_cons_self, List.append_nil]
      exact List.filter_eq_self.mpr fun y hy => decide_eq_true (htag _ y hy)
    · have hnone : (give k').filter (fun y => decide (tag y = k)) = [] := by
        refine List.filter_eq_nil_iff.mpr fun y hy => ?_
        rw [htag _ y hy, decide_eq_true_eq]
        exact hk
      rw [hnone, List.nil_append]
      exact if_congr (by rw [List.mem_cons, or_iff_right (Ne.symm hk)]) rfl rfl

end
end CoinBot.Frame
