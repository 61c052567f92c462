import Mathlib.Data.List.Basic
import Mathlib.Data.Set.Card
import Mathlib.Order.Interval.Finset.Nat

/- A list of positions in order, as the list of its maximal ranges.

   The open range grows while the next position is the neighbour of its end; a position farther
   off closes it and opens the next one. Ranges that are in order and apart are determined by
   the numbers in them (`Apart.ext`), and these are counted range by range (`Apart.ncard`). What
   lies between the neighbours of a list are such ranges (`apart_between`, `mem_between`). -/
namespace CoinBot.Ranges

variable {β : Type} (position : β → Nat)

/-- The ranges of what follows, the open one first. -/
def group (first last : β) : List β → List (β × β)
  | [] => [(first, last)]
  | x :: xs =>
    if position x = position last + 1 then group first x xs
    else (first, last) :: group x x xs

/-- A range has the position. -/
def Covers (r : β × β) (k : Nat) : Prop := position r.1 ≤ k ∧ k ≤ position r.2

theorem position_head_le {x y : β} {xs : List β}
    (h : (x :: xs).Pairwise (position · < position ·)) (hy : y ∈ x :: xs) :
    position x ≤ position y := by
  rcases List.mem_cons.mp hy with rfl | hmem
  · exact Nat.le_refl _
  · exact Nat.le_of_lt ((List.pairwise_cons.mp h).1 y hmem)

variable {position} {first last : β} {xs : List β}

variable (position) in
theorem forall_group {P : β → Prop} (hfirst : P first) (hlast : P last) (hxs : ∀ x ∈ xs, P x) :
    ∀ r ∈ group position first last xs, P r.1 ∧ P r.2 := by
  induction xs generalizing first last with
  | nil =>
    intro r hr
    rw [List.mem_singleton.mp hr]
    exact ⟨hfirst, hlast⟩
  | cons x xs ih =>
    have hx : P x := hxs x List.mem_cons_self
    have hrest : ∀ y ∈ xs, P y := fun y hy => hxs y (List.mem_cons_of_mem _ hy)
    intro r hr
    unfold group at hr
    split at hr
    · exact ih hfirst hx hrest r hr
    · rcases List.mem_cons.mp hr with rfl | hr
      · exact ⟨hfirst, hlast⟩
      · exact ih hx hx hrest r hr

theorem bounds_group (hle : position first ≤ position last)
    (hxs : (last :: xs).Pairwise (position · < position ·)) :
    ∀ r ∈ group position first last xs,
      position first ≤ position r.1 ∧ position r.1 ≤ position r.2 := by
  induction xs generalizing first last with
  | nil =>
    intro r hr
    rw [List.mem_singleton.mp hr]
    exact ⟨Nat.le_refl _, hle⟩
  | cons x xs ih =>
    obtain ⟨hbehind, hrest⟩ := List.pairwise_cons.mp hxs
    have hx : position last < position x := hbehind x List.mem_cons_self
    intro r hr
    unfold group at hr
    split at hr
    · exact ih (by omega) hrest r hr
    · rcases List.mem_cons.mp hr with rfl | hr
      · exact ⟨Nat.le_refl _, hle⟩
      · have hr := ih (Nat.le_refl _) hrest r hr
        omega

/-- The ranges cover the open one and the positions that follow. -/
theorem covers_group (hle : position first ≤ position last)
    (hxs : (last :: xs).Pairwise (position · < position ·)) (k : Nat) :
    (∃ r ∈ group position first last xs, Covers position r k) ↔
      Covers position (first, last) k ∨ ∃ x ∈ xs, position x = k := by
  induction xs generalizing first last with
  | nil => simp [group]
  | cons x xs ih =>
    obtain ⟨hbehind, hrest⟩ := List.pairwise_cons.mp hxs
    have hx : position last < position x := hbehind x List.mem_cons_self
    unfold group
    split
    · next hneighbour =>
      rw [ih (by omega) hrest, List.exists_mem_cons_iff, ← or_assoc]
      refine or_congr_left ?_
      unfold Covers
      dsimp only
      omega
    · rw [List.exists_mem_cons_iff, ih (Nat.le_refl _) hrest, List.exists_mem_cons_iff]
      refine or_congr_right (or_congr_left ?_)
      unfold Covers
      dsimp only
      omega

theorem separate_group (hle : position first ≤ position last)
    (hxs : (last :: xs).Pairwise (position · < position ·)) :
    (group position first last xs).Pairwise (fun r q => position r.2 + 1 < position q.1) := by
  induction xs generalizing first last with
  | nil => exact List.pairwise_singleton _ _
  | cons x xs ih =>
    obtain ⟨hbehind, hrest⟩ := List.pairwise_cons.mp hxs
    have hx : position last < position x := hbehind x List.mem_cons_self
    unfold group
    split
    · exact ih (by omega) hrest
    · next hfar =>
      refine List.pairwise_cons.mpr ⟨fun q hq => ?_, ih (Nat.le_refl _) hrest⟩
      have hq := bounds_group (Nat.le_refl (position x)) hrest q hq
      dsimp only
      omega

/-! Ranges of numbers. -/

/-- How many numbers a range has. -/
def size (r : Nat × Nat) : Nat := r.2 + 1 - r.1

/-- A number of one of the ranges. -/
def Mem (rs : List (Nat × Nat)) (k : Nat) : Prop := ∃ r ∈ rs, r.1 ≤ k ∧ k ≤ r.2

/-- No range is turned around, and between two of them a number is left out. -/
structure Apart (rs : List (Nat × Nat)) : Prop where
  le : ∀ r ∈ rs, r.1 ≤ r.2
  lt : rs.Pairwise (fun r q => r.2 + 1 < q.1)

theorem mem_cons {r : Nat × Nat} {rs : List (Nat × Nat)} {k : Nat} :
    Mem (r :: rs) k ↔ (r.1 ≤ k ∧ k ≤ r.2) ∨ Mem rs k :=
  List.exists_mem_cons_iff _ r rs

theorem not_mem_nil (k : Nat) : ¬ Mem [] k := by
  rintro ⟨r, hr, -⟩
  cases hr

section
variable {r q : Nat × Nat} {rs qs : List (Nat × Nat)}

theorem apart_nil : Apart [] where
  le := fun _ hr => absurd hr List.not_mem_nil
  lt := List.Pairwise.nil

theorem Apart.tail (h : Apart (r :: rs)) : Apart rs :=
  ⟨fun q hq => h.le q (List.mem_cons_of_mem r hq), (List.pairwise_cons.mp h.lt).2⟩

theorem Apart.head_le (h : Apart (r :: rs)) : r.1 ≤ r.2 := h.le r List.mem_cons_self

theorem Apart.lt_of_mem (h : Apart (r :: rs)) {k : Nat} (hk : Mem rs k) : r.2 + 1 < k := by
  obtain ⟨q, hq, hle, -⟩ := hk
  exact Nat.lt_of_lt_of_le ((List.pairwise_cons.mp h.lt).1 q hq) hle

theorem Apart.head_le_of_mem (h : Apart (r :: rs)) {k : Nat} (hk : Mem (r :: rs) k) : r.1 ≤ k := by
  rcases mem_cons.mp hk with hown | hrest
  · exact hown.1
  · have hlt := h.lt_of_mem hrest
    have hle := h.head_le
    omega

/-- The first range is as long as numbers follow. -/
theorem Apart.le_head_end (h : Apart (q :: qs)) (hstart : r.1 = q.1)
    (hmem : ∀ k, Mem (r :: rs) k → Mem (q :: qs) k) : r.2 ≤ q.2 := by
  by_contra hlt
  have hle := h.head_le
  have hnext : Mem (q :: qs) (q.2 + 1) := hmem _ (mem_cons.mpr (.inl (by omega)))
  rcases mem_cons.mp hnext with hown | hrest
  · omega
  · have hfar := h.lt_of_mem hrest
    omega

/-- Ranges that are apart are determined by their numbers. -/
theorem Apart.ext (h : Apart rs) (h' : Apart qs) (hmem : ∀ k, Mem rs k ↔ Mem qs k) : rs = qs := by
  induction rs generalizing qs with
  | nil =>
    cases qs with
    | nil => rfl
    | cons q qs =>
      have hq := (hmem q.1).mpr (mem_cons.mpr (.inl ⟨Nat.le_refl _, h'.head_le⟩))
      exact absurd hq (not_mem_nil _)
  | cons r rs ih =>
    cases qs with
    | nil =>
      have hr := (hmem r.1).mp (mem_cons.mpr (.inl ⟨Nat.le_refl _, h.head_le⟩))
      exact absurd hr (not_mem_nil _)
    | cons q qs =>
      have hstart : r.1 = q.1 := by
        refine Nat.le_antisymm (h.head_le_of_mem ?_) (h'.head_le_of_mem ?_)
        · exact (hmem q.1).mpr (mem_cons.mpr (.inl ⟨Nat.le_refl _, h'.head_le⟩))
        · exact (hmem r.1).mp (mem_cons.mpr (.inl ⟨Nat.le_refl _, h.head_le⟩))
      have hend : r.2 = q.2 := Nat.le_antisymm
        (h'.le_head_end hstart fun k => (hmem k).mp)
        (h.le_head_end hstart.symm fun k => (hmem k).mpr)
      obtain rfl : r = q := Prod.ext hstart hend
      -- A number behind the first range is in the others.
      have hrest : ∀ k, Mem rs k ↔ Mem qs k := by
        intro k
        constructor
        · intro hk
          have hlt := h.lt_of_mem hk
          refine (mem_cons.mp ((hmem k).mp (mem_cons.mpr (.inr hk)))).resolve_left ?_
          omega
        · intro hk
          have hlt := h'.lt_of_mem hk
          refine (mem_cons.mp ((hmem k).mpr (mem_cons.mpr (.inr hk)))).resolve_left ?_
          omega
      rw [ih h.tail h'.tail hrest]

theorem ncard_range (r : Nat × Nat) : {k | r.1 ≤ k ∧ k ≤ r.2}.ncard = size r := by
  have hset : {k | r.1 ≤ k ∧ k ≤ r.2} = (Finset.Icc r.1 r.2 : Set Nat) := by
    ext k
    simp
  rw [hset, Set.ncard_coe_finset, Nat.card_Icc, size]

theorem finite_mem (rs : List (Nat × Nat)) : {k | Mem rs k}.Finite := by
  induction rs with
  | nil => exact Set.finite_empty.subset fun k hk => not_mem_nil k hk
  | cons r rs ih =>
    refine ((Finset.Icc r.1 r.2).finite_toSet.union ih).subset fun k hk => ?_
    rcases mem_cons.mp hk with hown | hrest
    · exact .inl (Finset.mem_coe.mpr (Finset.mem_Icc.mpr hown))
    · exact .inr hrest

theorem Apart.ncard (h : Apart rs) : {k | Mem rs k}.ncard = (rs.map size).sum := by
  induction rs with
  | nil =>
    have hnone : {k | Mem [] k} = (∅ : Set Nat) :=
      Set.eq_empty_of_forall_notMem fun k hk => not_mem_nil k hk
    rw [hnone, Set.ncard_empty]
    rfl
  | cons r rs ih =>
    have hunion : {k | Mem (r :: rs) k} = {k | r.1 ≤ k ∧ k ≤ r.2} ∪ {k | Mem rs k} := by
      ext k
      exact mem_cons
    have hdisjoint : Disjoint {k | r.1 ≤ k ∧ k ≤ r.2} {k | Mem rs k} := by
      rw [Set.disjoint_left]
      intro k hown hrest
      have hlt := h.lt_of_mem hrest
      have hle : k ≤ r.2 := hown.2
      omega
    have hfinite : {k | r.1 ≤ k ∧ k ≤ r.2}.Finite :=
      (finite_mem [r]).subset fun k hk => mem_cons.mpr (.inl hk)
    rw [hunion, Set.ncard_union_eq hdisjoint hfinite (finite_mem rs), ncard_range, ih h.tail]
    rfl

end

/-! What lies between neighbours. -/

/-- The range between two positions, if there is one. -/
def gap (p q : Nat) : Option (Nat × Nat) := if p + 1 < q then some (p + 1, q - 1) else none

/-- The ranges between neighbours of the list. -/
def between : List Nat → List (Nat × Nat)
  | p :: q :: rest => (gap p q).toList ++ between (q :: rest)
  | _ => []

theorem lt_of_mem_between {p : Nat} {ps : List Nat} (h : (p :: ps).Pairwise (· < ·))
    {r : Nat × Nat} (hr : r ∈ between (p :: ps)) : p < r.1 := by
  induction ps generalizing p with
  | nil => cases hr
  | cons q ps ih =>
    obtain ⟨hbehind, hrest⟩ := List.pairwise_cons.mp h
    have hq := hbehind q List.mem_cons_self
    rcases List.mem_append.mp hr with hown | hr
    · unfold gap at hown
      split at hown
      · rw [Option.toList_some, List.mem_singleton] at hown
        rw [hown]
        exact Nat.lt_succ_self p
      · cases hown
    · exact Nat.lt_trans hq (ih hrest hr)

theorem apart_between {ps : List Nat} (h : ps.Pairwise (· < ·)) : Apart (between ps) := by
  induction ps with
  | nil => exact apart_nil
  | cons p ps ih =>
    cases ps with
    | nil => exact apart_nil
    | cons q ps =>
      obtain ⟨-, hrest⟩ := List.pairwise_cons.mp h
      have hmore := ih hrest
      unfold between gap
      split
      · next hlt =>
        refine ⟨?_, List.pairwise_cons.mpr ⟨?_, hmore.lt⟩⟩
        · intro r hr
          rcases List.mem_cons.mp hr with rfl | hr
          · show p + 1 ≤ q - 1
            omega
          · exact hmore.le r hr
        · intro r hr
          have hr := lt_of_mem_between hrest hr
          show q - 1 + 1 < r.1
          omega
      · exact hmore

/-- The numbers between neighbours are those from the first position to the last that are no
    positions. -/
theorem mem_between {p last : Nat} {ps : List Nat} (h : (p :: ps).Pairwise (· < ·))
    (hlast : (p :: ps).getLast? = some last) (k : Nat) :
    Mem (between (p :: ps)) k ↔ p ≤ k ∧ k ≤ last ∧ k ∉ p :: ps := by
  induction ps generalizing p with
  | nil =>
    obtain rfl : p = last := by simpa using hlast
    refine iff_of_false (not_mem_nil k) ?_
    rintro ⟨hge, hle, hnot⟩
    exact hnot (List.mem_singleton.mpr (Nat.le_antisymm hle hge))
  | cons q ps ih =>
    obtain ⟨hbehind, hrest⟩ := List.pairwise_cons.mp h
    have hq := hbehind q List.mem_cons_self
    have hlast' : (q :: ps).getLast? = some last := by rwa [List.getLast?_cons_cons] at hlast
    have hafter : ∀ k ∈ q :: ps, q ≤ k := fun k => position_head_le (fun k => k) hrest
    have hqlast : q ≤ last := hafter last (List.mem_of_getLast? hlast')
    have hmore := ih hrest hlast'
    have hhead : Mem (gap p q).toList k ↔ p < k ∧ k < q := by
      unfold gap
      split
      · rw [Option.toList_some, mem_cons]
        have hnone := not_mem_nil k
        simp only [hnone, or_false]
        omega
      · refine iff_of_false (not_mem_nil k) ?_
        omega
    have hsplit : Mem (between (p :: q :: ps)) k ↔
        Mem (gap p q).toList k ∨ Mem (between (q :: ps)) k := by
      unfold Mem
      rw [between]
      simp only [List.mem_append, or_and_right, exists_or]
    have hcons : k ∈ p :: q :: ps ↔ k = p ∨ k ∈ q :: ps := List.mem_cons
    rw [hsplit, hhead, hmore, hcons]
    constructor
    · rintro (⟨hlow, hhigh⟩ | ⟨hge, hle, hnot⟩)
      · refine ⟨by omega, by omega, ?_⟩
        rintro (rfl | hk)
        · exact Nat.lt_irrefl _ hlow
        · exact absurd (hafter k hk) (by omega)
      · refine ⟨by omega, hle, ?_⟩
        rintro (rfl | hk)
        · omega
        · exact hnot hk
    · rintro ⟨hge, hle, hnot⟩
      rw [not_or] at hnot
      by_cases hlow : k < q
      · exact .inl ⟨by omega, hlow⟩
      · exact .inr ⟨by omega, hle, hnot.2⟩

end CoinBot.Ranges
