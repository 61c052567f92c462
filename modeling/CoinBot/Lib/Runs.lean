import Mathlib.Data.List.SplitBy

/- The runs of a stream: its maximal blocks of neighbours with the same key.

   While the stream goes on, its last run is open; the arrival of an element with another
   key closes it. So a reader that holds the last element back knows the last element of
   each closed run, and only those (`closed_concat`). Keys may come back: two runs of one
   stream may have the same key, but never two neighbours among them. -/
namespace Runs

variable {α κ : Type} [DecidableEq κ] (key : α → κ)

def runs (l : List α) : List (List α) := l.splitBy (fun a b => key a == key b)

/-- The last elements of the closed runs. -/
def closed (l : List α) : List α := (runs key l).dropLast.filterMap List.getLast?

/-- What the arrival of `a` closes, when `last` came before it. -/
def closes (last : Option α) (a : α) : List α :=
  match last with
  | none => []
  | some p => if key p = key a then [] else [p]

theorem getLast_runs {l : List α} {p : α} (h : l.getLast? = some p) :
    ∃ rs r, runs key l = rs ++ [r] ∧ r.getLast? = some p := by
  have hne : l ≠ [] := by
    rintro rfl
    cases h
  have hruns : runs key l ≠ [] := List.splitBy_ne_nil.mpr hne
  refine ⟨(runs key l).dropLast, (runs key l).getLast hruns,
    (List.dropLast_append_getLast hruns).symm, ?_⟩
  have hlast := List.getLast_getLast_splitBy (fun a b => key a == key b) hne
  rw [List.getLast?_eq_some_getLast hne] at h
  rw [List.getLast?_eq_some_getLast (List.ne_nil_of_mem_splitBy (List.getLast_mem hruns))]
  exact congrArg some (hlast.trans (Option.some.inj h))

theorem runs_concat_new {l : List α} {a : α} (h : ∀ p ∈ l.getLast?, key p ≠ key a) :
    runs key (l ++ [a]) = runs key l ++ [[a]] := by
  unfold runs
  rw [List.splitBy_append_cons]
  · rfl
  · intro p hp
    exact beq_eq_false_iff_ne.mpr (h p hp)

theorem runs_concat_same {l : List α} {a p : α} (hp : l.getLast? = some p) (h : key p = key a) :
    ∃ rs r, runs key l = rs ++ [r] ∧ runs key (l ++ [a]) = rs ++ [r ++ [a]] := by
  obtain ⟨rs, r, hruns, hr⟩ := getLast_runs key hp
  refine ⟨rs, r, hruns, ?_⟩
  obtain ⟨hflat, hnil, hchain, hbreaks⟩ := List.splitBy_eq_iff.mp hruns
  have hne : r ≠ [] := by
    rintro rfl
    cases hr
  refine List.splitBy_eq_iff.mpr ⟨?_, ?_, ?_, ?_⟩
  · rw [hflat]
    simp
  · simp only [List.mem_append, List.mem_singleton, not_or] at hnil ⊢
    exact ⟨hnil.1, by simp⟩
  · intro m hm
    rcases List.mem_append.mp hm with hm | hm
    · exact hchain m (List.mem_append_left _ hm)
    · obtain rfl := List.mem_singleton.mp hm
      refine List.isChain_append.mpr
        ⟨hchain r (List.mem_append_right _ List.mem_cons_self), List.isChain_singleton a, ?_⟩
      intro x hx y hy
      obtain rfl := Option.some.inj (hr.symm.trans hx)
      obtain rfl := Option.some.inj hy
      exact beq_iff_eq.mpr h
  · -- The break before the last run is at its head, and the head stays.
    rw [List.isChain_append] at hbreaks ⊢
    refine ⟨hbreaks.1, List.isChain_singleton _, ?_⟩
    intro x hx y hy
    obtain rfl := Option.some.inj hy
    obtain ⟨hx', hr', hbreak⟩ := hbreaks.2.2 x hx r rfl
    exact ⟨hx', by simp, by rw [List.head_append_of_ne_nil hne]; exact hbreak⟩

/-- A reader that holds the last element back finds the closed runs one by one. -/
theorem closed_concat (l : List α) (a : α) :
    closed key (l ++ [a]) = closed key l ++ closes key l.getLast? a := by
  unfold closed closes
  cases hlast : l.getLast? with
  | none =>
    rw [List.getLast?_eq_none_iff.mp hlast]
    rfl
  | some p =>
    by_cases h : key p = key a
    · obtain ⟨rs, r, hruns, hruns'⟩ := runs_concat_same key hlast h
      simp [hruns, hruns', h]
    · obtain ⟨rs, r, hruns, hr⟩ := getLast_runs key hlast
      rw [runs_concat_new key (fun q hq => by
        obtain rfl := Option.some.inj (hlast.symm.trans hq)
        exact h)]
      simp [hruns, hr, h]

theorem closed_getLast_ne (l : List α) :
    ∀ c ∈ (closed key l).getLast?, ∀ p ∈ l.getLast?, key c ≠ key p := by
  induction l using List.reverseRecOn with
  | nil => simp
  | append_singleton l a ih =>
    intro c hc p hp
    rw [closed_concat] at hc
    obtain rfl : a = p := by simpa using hp
    unfold closes at hc
    cases hlast : l.getLast? with
    | none =>
      rw [List.getLast?_eq_none_iff.mp hlast] at hc
      simp [closed, runs] at hc
    | some q =>
      simp only [hlast] at hc
      by_cases h : key q = key a
      · rw [if_pos h, List.append_nil] at hc
        exact h ▸ ih c hc q hlast
      · rw [if_neg h] at hc
        obtain rfl : q = c := by simpa using hc
        exact h

end Runs
