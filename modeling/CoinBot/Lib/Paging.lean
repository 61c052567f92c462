import Mathlib.Order.Lattice
import Mathlib.Data.List.Basic

/- Pages of a list in decreasing order, read backwards.

   A page has the greatest items up to a bound. What it leaves out lies below all of its items,
   and the page up to its least item has fewer items to draw from. -/
namespace CoinBot.Paging

variable {K β : Type} [LinearOrder K] (key : β → K)

/-- The items up to a bound, or all of them. -/
def upTo (bound : Option K) (items : List β) : List β :=
  items.filter (fun x => ∀ t ∈ bound, key x ≤ t)

/-- The `n` greatest items up to a bound. -/
def page (n : Nat) (bound : Option K) (items : List β) : List β := (upTo key bound items).take n

variable {key} {n : Nat} {bound : Option K} {items : List β} {x : β} {least : K}

theorem mem_upTo : x ∈ upTo key bound items ↔ x ∈ items ∧ ∀ t ∈ bound, key x ≤ t := by
  unfold upTo
  rw [List.mem_filter, decide_eq_true_eq]

theorem mem_of_mem_page (h : x ∈ page key n bound items) : x ∈ upTo key bound items :=
  List.mem_of_mem_take h

theorem page_of_short (h : (page key n bound items).length < n) :
    page key n bound items = upTo key bound items := by
  unfold page at h ⊢
  rw [List.length_take] at h
  exact List.take_of_length_le (by omega)

/-- What a page leaves out lies below its items. -/
theorem lt_of_left_out (hitems : items.Pairwise (key · > key ·)) (hx : x ∈ upTo key bound items)
    (hout : x ∉ page key n bound items) {y : β} (hy : y ∈ page key n bound items) :
    key x < key y := by
  have hsorted : (upTo key bound items).Pairwise (key · > key ·) := hitems.filter _
  unfold page at hout hy
  rw [← List.take_append_drop n (upTo key bound items)] at hx hsorted
  rcases List.mem_append.mp hx with hx | hx
  · exact absurd hx hout
  · exact (List.pairwise_append.mp hsorted).2.2 y hy x hx

/-- Up to the least item of a page of two or more there are fewer items. -/
theorem length_upTo_lt (hitems : items.Pairwise (key · > key ·))
    (htwo : 2 ≤ (page key n bound items).length) (hmem : ∃ y ∈ page key n bound items, key y = least)
    (hleast : ∀ y ∈ page key n bound items, least ≤ key y) :
    (upTo key (some least) items).length < (upTo key bound items).length := by
  have hsorted : (upTo key bound items).Pairwise (key · > key ·) := hitems.filter _
  have hsub : upTo key (some least) items =
      (upTo key bound items).filter (fun x => key x ≤ least) := by
    obtain ⟨y, hy, rfl⟩ := hmem
    have hbound := (mem_upTo.mp (mem_of_mem_page hy)).2
    unfold upTo
    rw [List.filter_filter]
    refine List.filter_congr fun x _ => ?_
    rw [← Bool.decide_and, decide_eq_decide]
    constructor
    · intro hle
      have hle := hle _ rfl
      exact ⟨hle, fun t ht => le_trans hle (hbound t ht)⟩
    · rintro ⟨hle, -⟩ t ht
      rw [← Option.some.inj ht]
      exact hle
  rw [hsub, List.length_filter_lt_length_iff_exists]
  -- The first of two items lies above the least one.
  unfold page at htwo hleast
  cases hcases : upTo key bound items with
  | nil => simp [hcases] at htwo
  | cons a l =>
    rw [hcases] at htwo hleast hsorted
    refine ⟨a, List.mem_cons_self, ?_⟩
    rw [decide_eq_true_eq, not_le]
    cases l with
    | nil =>
      rw [List.length_take, List.length_singleton] at htwo
      omega
    | cons b l =>
      have hn : 2 ≤ n := by
        rw [List.length_take] at htwo
        omega
      obtain ⟨m, rfl⟩ : ∃ m, n = m + 2 := ⟨n - 2, by omega⟩
      have hb : least ≤ key b := hleast b (by simp)
      exact lt_of_le_of_lt hb ((List.pairwise_cons.mp hsorted).1 b List.mem_cons_self)

end CoinBot.Paging
