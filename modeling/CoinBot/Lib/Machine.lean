import Mathlib.Data.List.Basic

/- Runs of a labelled machine. A machine is a step function `S → A → S`; what the
   environment chooses is in the label. `Always P` says that `P` holds in every
   state a run reaches, the first one included, and `Guarded g` that every step
   is taken from a state and with a label that meet `g`.

   A step lemma becomes a run lemma by `always_of_guarded`. When the step fails
   `P` as soon as it is taken outside the guard, the two are equivalent along the
   whole run (`always_iff_guarded`). Two machines that stay related step by step stay related
   along a run (`run_simulates`). What the steps of a run put out one after another is
   `outputs`. Where the labels belong to parts of the state that do not see each other, each
   part ends as it does without the labels of the others (`run_filter`). -/
namespace Machine
variable {S A : Type}

/-- The state a run ends in. -/
def run (step : S → A → S) : S → List A → S
  | s, [] => s
  | s, a :: as => run step (step s a) as

/-- `P` holds in every state of the run. -/
def Always (step : S → A → S) (P : S → Prop) : S → List A → Prop
  | s, [] => P s
  | s, a :: as => P s ∧ Always step P (step s a) as

/-- Every step of the run meets `g`. -/
def Guarded (step : S → A → S) (g : S → A → Prop) : S → List A → Prop
  | _, [] => True
  | s, a :: as => g s a ∧ Guarded step g (step s a) as

variable {step : S → A → S} {P : S → Prop} {g : S → A → Prop}

@[simp] theorem run_nil (s : S) : run step s [] = s := rfl

@[simp] theorem run_cons (s : S) (a : A) (as : List A) :
    run step s (a :: as) = run step (step s a) as := rfl

theorem run_append (s : S) (as bs : List A) :
    run step s (as ++ bs) = run step (run step s as) bs := by
  induction as generalizing s with
  | nil => rfl
  | cons a as ih => exact ih (step s a)

theorem Always.head {s : S} {as : List A} (h : Always step P s as) : P s := by
  cases as with
  | nil => exact h
  | cons a as => exact h.1

theorem Always.last {s : S} {as : List A} (h : Always step P s as) : P (run step s as) := by
  induction as generalizing s with
  | nil => exact h
  | cons a as ih => exact ih h.2

theorem Always.mono {Q : S → Prop} (hPQ : ∀ s, P s → Q s) {s : S} {as : List A}
    (h : Always step P s as) : Always step Q s as := by
  induction as generalizing s with
  | nil => exact hPQ s h
  | cons a as ih => exact ⟨hPQ s h.1, ih h.2⟩

theorem guarded_of_forall {as : List A} (h : ∀ a ∈ as, ∀ s, g s a) (s : S) :
    Guarded step g s as := by
  induction as generalizing s with
  | nil => trivial
  | cons a as ih =>
    exact ⟨h a List.mem_cons_self s, ih (fun b hb => h b (List.mem_cons_of_mem a hb)) (step s a)⟩

/-- What follows from an invariant and the guard of a step, every step of the run meets. -/
theorem Guarded.imp {g' : S → A → Prop} (hstep : ∀ s a, P s → g s a → P (step s a))
    (hg' : ∀ s a, P s → g s a → g' s a) {s : S} {as : List A} (h0 : P s)
    (hg : Guarded step g s as) : Guarded step g' s as := by
  induction as generalizing s with
  | nil => trivial
  | cons a as ih => exact ⟨hg' s a h0 hg.1, ih (hstep s a h0 hg.1) hg.2⟩

/-- What every guarded step preserves, every guarded run preserves. -/
theorem always_of_guarded (hstep : ∀ s a, P s → g s a → P (step s a)) {s : S} {as : List A}
    (h0 : P s) (hg : Guarded step g s as) : Always step P s as := by
  induction as generalizing s with
  | nil => exact h0
  | cons a as ih => exact ⟨h0, ih (hstep s a h0 hg.1) hg.2⟩

/-- What every step preserves, every run preserves. -/
theorem run_keeps (hstep : ∀ s a, P s → P (step s a)) {s : S} (h0 : P s) (as : List A) :
    P (run step s as) := by
  induction as generalizing s with
  | nil => exact h0
  | cons a as ih => exact ih (hstep s a h0)

/-- A guard that is exact for a step, given an invariant `J` of every step, is exact for the
    run. -/
theorem always_iff_guarded {J : S → Prop} (hJ : ∀ s a, J s → J (step s a))
    (hstep : ∀ s a, J s → P s → (P (step s a) ↔ g s a)) {s : S} {as : List A} (hJ0 : J s)
    (h0 : P s) : Always step P s as ↔ Guarded step g s as := by
  induction as generalizing s with
  | nil => exact iff_of_true h0 trivial
  | cons a as ih =>
    constructor
    · intro h
      have hg : g s a := (hstep s a hJ0 h0).mp h.2.head
      exact ⟨hg, (ih (hJ s a hJ0) h.2.head).mp h.2⟩
    · intro h
      have hP : P (step s a) := (hstep s a hJ0 h0).mpr h.1
      exact ⟨h0, (ih (hJ s a hJ0) hP).mpr h.2⟩

theorem guarded_append {s : S} {as bs : List A} :
    Guarded step g s (as ++ bs) ↔ Guarded step g s as ∧ Guarded step g (run step s as) bs := by
  induction as generalizing s with
  | nil => exact ⟨fun h => ⟨trivial, h⟩, fun h => h.2⟩
  | cons a as ih =>
    show g s a ∧ Guarded step g (step s a) (as ++ bs) ↔ (g s a ∧ Guarded step g (step s a) as) ∧ _
    rw [ih, and_assoc]
    exact Iff.rfl

theorem run_map {B : Type} (f : B → A) (s : S) (bs : List B) :
    run step s (bs.map f) = run (fun s b => step s (f b)) s bs := by
  induction bs generalizing s with
  | nil => rfl
  | cons b bs ih => exact ih (step s (f b))

/-! Two machines on the same labels. -/

section Simulation
variable {T : Type} {step' : T → A → T} {R : S → T → Prop}

/-- What each pair of steps keeps between two machines, their runs keep. -/
theorem run_simulates (hstep : ∀ s t a, R s t → R (step s a) (step' t a)) {s : S} {t : T}
    (h : R s t) (as : List A) : R (run step s as) (run step' t as) := by
  induction as generalizing s t with
  | nil => exact h
  | cons a as ih => exact ih (hstep s t a h)

theorem map_run {f : S → T} (hstep : ∀ s a, f (step s a) = step' (f s) a) (s : S) (as : List A) :
    f (run step s as) = run step' (f s) as := by
  have hsteps : ∀ s t a, f s = t → f (step s a) = step' t a := by
    rintro s t a rfl
    exact hstep s a
  exact run_simulates hsteps rfl as

end Simulation

/-! What a run puts out. -/

variable {B : Type}

/-- What the steps of the run put out, in order. -/
def outputs (step : S → A → S) (out : S → A → List B) : S → List A → List B
  | _, [] => []
  | s, a :: as => out s a ++ outputs step out (step s a) as

theorem outputs_concat (out : S → A → List B) (s : S) (as : List A) (a : A) :
    outputs step out s (as ++ [a]) = outputs step out s as ++ out (run step s as) a := by
  induction as generalizing s with
  | nil => simp [outputs]
  | cons b as ih => simp [outputs, ih]

theorem outputs_append (out : S → A → List B) (s : S) (as bs : List A) :
    outputs step out s (as ++ bs) = outputs step out s as ++ outputs step out (run step s as) bs := by
  induction as generalizing s with
  | nil => rfl
  | cons a as ih =>
    show out s a ++ outputs step out (step s a) (as ++ bs) = _
    rw [ih, ← List.append_assoc]
    rfl

/-! Parts of a machine that do not see each other. -/

section Parts
variable {ι : Type} [DecidableEq ι] {step : S → ι × A → S}

/-- The part `i` ends as it does when only its own labels are run: `R i` relates states with like
    parts `i`, a step of the part keeps it, and so does a step of another part on one side. -/
theorem run_filter {R : ι → S → S → Prop} {g : ι × A → Prop}
    (hP : ∀ s a, P s → g a → P (step s a))
    (hown : ∀ i s t a, P s → P t → g (i, a) → R i s t → R i (step s (i, a)) (step t (i, a)))
    (hother : ∀ i j s t a, j ≠ i → P s → g (j, a) → R i s t → R i (step s (j, a)) t)
    (i : ι) {s t : S} {as : List (ι × A)} (hs : P s) (ht : P t) (hg : ∀ a ∈ as, g a)
    (hR : R i s t) : R i (run step s as) (run step t (as.filter (·.1 = i))) := by
  induction as generalizing s t with
  | nil => exact hR
  | cons a as ih =>
    obtain ⟨j, a⟩ := a
    have ha : g (j, a) := hg (j, a) List.mem_cons_self
    have hrest : ∀ b ∈ as, g b := fun b hb => hg b (List.mem_cons_of_mem _ hb)
    by_cases hij : j = i
    · subst hij
      rw [List.filter_cons_of_pos (by simp)]
      exact ih (hP s _ hs ha) (hP t _ ht ha) hrest (hown j s t a hs ht ha hR)
    · rw [List.filter_cons_of_neg (by simpa using hij)]
      exact ih (hP s _ hs ha) ht hrest (hother i j s t a hij hs ha hR)

theorem run_filter_invariant {g : ι × A → Prop} (hP : ∀ s a, P s → g a → P (step s a)) (i : ι)
    {s : S} {as : List (ι × A)} (hs : P s) (hg : ∀ a ∈ as, g a) :
    P (run step s (as.filter (·.1 = i))) :=
  (always_of_guarded (g := fun _ a => g a) hP hs
    (guarded_of_forall (fun a ha _ => hg a (List.mem_of_mem_filter ha)) s)).last

end Parts

end Machine
