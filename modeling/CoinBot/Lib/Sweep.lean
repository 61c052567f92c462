import Mathlib.Order.Lattice
import Mathlib.Data.List.Basic

/- A cursor over items in order, moved along starts in order.

   The window of a start is open on both sides and ends at the next start; that of the last one
   has no end. The cursor never goes back: what one window leaves is all that the later ones
   see, and it is all that they need. -/
namespace CoinBot.Sweep

variable {K β : Type} [LinearOrder K]

/-- Behind the start, and before the next one. -/
def Between (lo : K) (next : Option K) (x : K) : Prop := lo < x ∧ ∀ t ∈ next, x < t

instance (lo : K) (next : Option K) (x : K) : Decidable (Between lo next x) :=
  inferInstanceAs (Decidable (lo < x ∧ ∀ t ∈ next, x < t))

/-- The items of one window, and those that the cursor has not reached. -/
def cut (key : β → K) (lo : K) (next : Option K) : List β → List β × List β
  | [] => ([], [])
  | x :: xs =>
    if key x ≤ lo then cut key lo next xs
    else if next.any (· ≤ key x) then ([], x :: xs)
    else (x :: (cut key lo next xs).1, (cut key lo next xs).2)

/-- Each start with the next one. -/
def spans : List K → List (K × Option K)
  | [] => []
  | lo :: los => (lo, los.head?) :: spans los

/-- The windows that the cursor cuts. -/
def windows (key : β → K) : List K → List β → List (List β)
  | [], _ => []
  | lo :: los, items =>
    (cut key lo los.head? items).1 :: windows key los (cut key lo los.head? items).2

section
variable {key : β → K} {lo : K} {next : Option K} {items : List β}

theorem cut_fst (hitems : items.Pairwise (key · ≤ key ·)) :
    (cut key lo next items).1 = items.filter (fun x => Between lo next (key x)) := by
  induction items with
  | nil => rfl
  | cons x xs ih =>
    rw [List.pairwise_cons] at hitems
    unfold cut
    split
    · next hle =>
      rw [ih hitems.2, List.filter_cons_of_neg]
      rw [decide_eq_true_eq]
      exact fun h => absurd h.1 (not_lt.mpr hle)
    · next hlt =>
      split
      · next hnext =>
        -- All that follows is behind the end of the window too.
        obtain ⟨t, rfl, hle⟩ : ∃ t, next = some t ∧ t ≤ key x := by
          simpa [Option.any_eq_true] using hnext
        symm
        refine List.filter_eq_nil_iff.mpr fun y hy => ?_
        rw [decide_eq_true_eq]
        refine fun h => absurd (h.2 t rfl) (not_lt.mpr ?_)
        rcases List.mem_cons.mp hy with rfl | hy
        · exact hle
        · exact le_trans hle (hitems.1 y hy)
      · next hnext =>
        rw [ih hitems.2, List.filter_cons_of_pos]
        rw [decide_eq_true_eq]
        refine ⟨not_le.mp hlt, fun t ht => ?_⟩
        by_contra hle
        rw [Option.mem_def.mp ht] at hnext
        exact hnext (decide_eq_true (not_lt.mp hle))

theorem cut_snd_sublist : (cut key lo next items).2.Sublist items := by
  induction items with
  | nil => exact List.Sublist.slnil
  | cons x xs ih =>
    unfold cut
    split
    · exact ih.cons x
    · split
      · exact List.Sublist.refl _
      · exact ih.cons x

theorem cut_snd {t : K} (hlo : lo ≤ t) :
    (cut key lo (some t) items).2.filter (fun x => t < key x) =
      items.filter (fun x => t < key x) := by
  induction items with
  | nil => rfl
  | cons x xs ih =>
    unfold cut
    split
    · next hle =>
      rw [ih, List.filter_cons_of_neg]
      rw [decide_eq_true_eq]
      exact not_lt.mpr (le_trans hle hlo)
    · split
      · rfl
      · next hnext =>
        rw [ih, List.filter_cons_of_neg]
        rw [decide_eq_true_eq]
        exact fun hlt => hnext (decide_eq_true hlt.le)

end

variable {key : β → K}

omit [LinearOrder K] in
theorem map_fst_spans (los : List K) : (spans los).map (·.1) = los := by
  induction los with
  | nil => rfl
  | cons lo los ih => rw [spans, List.map_cons, ih]

theorem le_of_mem_spans {t : K} {los : List K} (hlos : (t :: los).Pairwise (· ≤ ·))
    {w : K × Option K} (hw : w ∈ spans (t :: los)) : t ≤ w.1 := by
  have hmem : w.1 ∈ t :: los := by
    rw [← map_fst_spans (t :: los)]
    exact List.mem_map_of_mem hw
  rcases List.mem_cons.mp hmem with heq | hmem
  · exact heq.ge
  · exact (List.pairwise_cons.mp hlos).1 _ hmem

theorem filter_between {t lo : K} (hle : t ≤ lo) (next : Option K) (items : List β) :
    items.filter (fun x => Between lo next (key x)) =
      (items.filter (fun x => t < key x)).filter (fun x => Between lo next (key x)) := by
  rw [List.filter_filter]
  refine List.filter_congr fun x _ => ?_
  rw [← Bool.decide_and, decide_eq_decide]
  exact ⟨fun h => ⟨h, lt_of_le_of_lt hle h.1⟩, fun h => h.1⟩

/-- The cursor cuts out of the items what lies in each window. -/
theorem windows_eq {los : List K} (hlos : los.Pairwise (· ≤ ·)) {items : List β}
    (hitems : items.Pairwise (key · ≤ key ·)) :
    windows key los items =
      (spans los).map (fun w => items.filter (fun x => Between w.1 w.2 (key x))) := by
  induction los generalizing items with
  | nil => rfl
  | cons lo los ih =>
    have hwindow : (cut key lo los.head? items).1 =
        items.filter (fun x => Between lo los.head? (key x)) := cut_fst hitems
    rw [windows, spans, List.map_cons, hwindow]
    refine congrArg _ ?_
    cases los with
    | nil => rfl
    | cons t los =>
      rw [List.pairwise_cons] at hlos
      rw [ih hlos.2 (hitems.sublist cut_snd_sublist)]
      refine List.map_congr_left fun w hw => ?_
      have hle : t ≤ w.1 := le_of_mem_spans hlos.2 hw
      rw [filter_between hle w.2 items, filter_between hle w.2 (cut _ _ _ _).2]
      exact congrArg _ (cut_snd (hlos.1 t List.mem_cons_self))

theorem spans_disjoint {los : List K} (hlos : los.Pairwise (· ≤ ·)) :
    (spans los).Pairwise (fun v w => ∀ x, Between v.1 v.2 x → ¬ Between w.1 w.2 x) := by
  induction los with
  | nil => exact List.Pairwise.nil
  | cons lo los ih =>
    rw [spans, List.pairwise_cons]
    refine ⟨fun w hw x hv hin => ?_, ih (List.pairwise_cons.mp hlos).2⟩
    cases los with
    | nil => cases hw
    | cons t los =>
      have hle : t ≤ w.1 := le_of_mem_spans (List.pairwise_cons.mp hlos).2 hw
      exact absurd (lt_of_le_of_lt hle hin.1) (not_lt.mpr (hv.2 t rfl).le)

end CoinBot.Sweep
