import Mathlib.Data.List.Basic

/- Journals: lists that only grow, newest entry last.

   `Justified P` says that every entry of a journal meets `P` with the entries before it.
   A part of a program that writes the journal is described by how it grows: `Grows P` says
   that it grows by such entries, and composes along the program. -/
namespace Journal
variable {A : Type}

/-- Every entry meets `P` with the entries before it. -/
def Justified (P : List A → A → Prop) (log : List A) : Prop :=
  ∀ before entry after, log = before ++ entry :: after → P before entry

/-- The second journal is the first with more entries, each of which meets `P` with what was
    written before it. -/
inductive Grows (P : List A → A → Prop) (log : List A) : List A → Prop where
  | refl : Grows P log log
  | write {log' : List A} {entry : A} :
    Grows P log log' → P log' entry → Grows P log (log' ++ [entry])

variable {P : List A → A → Prop}

theorem justified_nil : Justified P [] := by
  intro before entry after h
  exact absurd h.symm (List.append_ne_nil_of_right_ne_nil _ (List.cons_ne_nil _ _))

theorem justified_concat {log : List A} {entry : A} :
    Justified P (log ++ [entry]) ↔ Justified P log ∧ P log entry := by
  constructor
  · intro h
    refine ⟨fun before e after hlog => ?_, h log entry [] rfl⟩
    exact h before e (after ++ [entry]) (by rw [hlog]; simp)
  · rintro ⟨hlog, hentry⟩ before e after heq
    rcases List.eq_nil_or_concat after with rfl | ⟨rest, last, rfl⟩
    · obtain ⟨rfl, hlast⟩ := List.append_inj' heq rfl
      rw [← List.head_eq_of_cons_eq hlast]
      exact hentry
    · have hinit : log ++ [entry] = (before ++ e :: rest) ++ [last] := by rw [heq]; simp
      obtain ⟨rfl, -⟩ := List.append_inj' hinit rfl
      exact hlog before e rest rfl

theorem Grows.one {log : List A} {entry : A} (h : P log entry) : Grows P log (log ++ [entry]) :=
  .write .refl h

theorem Grows.trans {log log' log'' : List A} (h : Grows P log log') (h' : Grows P log' log'') :
    Grows P log log'' := by
  induction h' with
  | refl => exact h
  | write _ hentry ih => exact .write ih hentry

theorem Grows.imp {Q : List A → A → Prop} (hPQ : ∀ before entry, P before entry → Q before entry)
    {log log' : List A} (h : Grows P log log') : Grows Q log log' := by
  induction h with
  | refl => exact .refl
  | write _ hentry ih => exact .write ih (hPQ _ _ hentry)

theorem Grows.justified {log log' : List A} (h : Grows P log log') (hlog : Justified P log) :
    Justified P log' := by
  induction h with
  | refl => exact hlog
  | write _ hentry ih => exact justified_concat.mpr ⟨ih, hentry⟩

theorem Grows.mem {log log' : List A} (h : Grows P log log') {entry : A} (hmem : entry ∈ log) :
    entry ∈ log' := by
  induction h with
  | refl => exact hmem
  | write _ _ ih => exact List.mem_append_left _ ih

end Journal
