import Mathlib.Logic.Function.Basic
import CoinBot.Lib.Machine

/- Objects behind a lock.

   Threads call methods of one object. A method takes the lock, runs in steps of its own and
   gives the lock back; the steps of all threads come in any order, and a step of a method
   knows nothing of the lock. `Body` is a method as such steps. Two threads are never in
   methods at once (`exclusive_run`), and what a run of all threads leaves is what the
   finished calls leave one after the other, in the order in which they gave the lock back
   (`linearizable`). To know the object it is then enough to know one call that runs alone
   (`sequential_keeps`). -/
namespace Locked
variable {T S Op L C R : Type}

/-- The steps of a method on the object's state `S`. `L` is what the thread keeps between two
    steps, `C` what the environment chooses in a step. -/
structure Body (S Op L C R : Type) where
  enter : Op → L
  move : C → L → S → L × S
  result : L → Option R

inductive Phase (Op L : Type) where
  | idle
  | waiting (op : Op)
  | inside (op : Op) (l : L)

/-- The lock's owner, the threads, the object, and the finished calls, the newest last. -/
structure State (T S Op L R : Type) where
  owner : Option T := none
  phase : T → Phase Op L
  shared : S
  log : List (T × Op × R)

inductive Label (T Op C : Type) where
  | call (t : T) (op : Op)
  | acquire (t : T)
  | move (t : T) (c : C)
  | release (t : T)

/-- All threads are idle. -/
def start (s : S) : State T S Op L R where
  phase _ := .idle
  shared := s
  log := []

variable [DecidableEq T] (body : Body S Op L C R)

/-- A step of one thread; one that the thread cannot take does nothing. -/
def step (st : State T S Op L R) : Label T Op C → State T S Op L R
  | .call t op =>
    match st.phase t with
    | .idle => { st with phase := Function.update st.phase t (.waiting op) }
    | _ => st
  | .acquire t =>
    match st.phase t, st.owner with
    | .waiting op, none =>
      { st with owner := some t, phase := Function.update st.phase t (.inside op (body.enter op)) }
    | _, _ => st
  | .move t c =>
    match st.phase t with
    | .inside op l =>
      { st with
        phase := Function.update st.phase t (.inside op (body.move c l st.shared).1)
        shared := (body.move c l st.shared).2 }
    | _ => st
  | .release t =>
    match st.phase t with
    | .inside op l =>
      match body.result l with
      | some r =>
        { st with
          owner := none
          phase := Function.update st.phase t .idle
          log := st.log ++ [(t, op, r)] }
      | none => st
    | _ => st

/-! One call alone. -/

/-- The steps of one method, with nothing between them. -/
inductive Runs (l : L) (s : S) : L → S → Prop where
  | refl : Runs l s l s
  | move {l' : L} {s' : S} (c : C) : Runs l s l' s' →
    Runs l s (body.move c l' s').1 (body.move c l' s').2

/-- The call, made in `s`, answers `r` and leaves `s'`. -/
def Alone (op : Op) (s : S) (r : R) (s' : S) : Prop :=
  ∃ l, Runs body (body.enter op) s l s' ∧ body.result l = some r

/-- The calls one after the other. -/
inductive Sequential (s : S) : List (T × Op × R) → S → Prop where
  | nil : Sequential s [] s
  | snoc {log : List (T × Op × R)} {s' s'' : S} {t : T} {op : Op} {r : R} :
    Sequential s log s' → Alone body op s' r s'' → Sequential s (log ++ [(t, op, r)]) s''

/-- What every step of a method keeps, the method keeps. -/
theorem Runs.keeps {body : Body S Op L C R} {P : L → S → Prop}
    (hmove : ∀ c l s, P l s → P (body.move c l s).1 (body.move c l s).2) {l l' : L} {s s' : S}
    (h : Runs body l s l' s') (h0 : P l s) : P l' s' := by
  induction h with
  | refl => exact h0
  | move c _ ih => exact hmove c _ _ ih

omit [DecidableEq T] in
/-- What every call alone keeps, calls one after the other keep. -/
theorem sequential_keeps {body : Body S Op L C R} {P : List (T × Op × R) → S → Prop}
    (hcall : ∀ log s t op r s', P log s → Alone body op s r s' → P (log ++ [(t, op, r)]) s')
    {s s' : S} {log : List (T × Op × R)} (h : Sequential body s log s') (h0 : P [] s) :
    P log s' := by
  induction h with
  | nil => exact h0
  | snoc _ halone ih => exact hcall _ _ _ _ _ _ ih halone

/-! All threads. -/

/-- The thread is in a method. -/
def State.Inside (st : State T S Op L R) (t : T) : Prop := ∃ op l, st.phase t = .inside op l

/-- A thread in a method owns the lock, and the object is what the finished calls and the steps of
    that method make of it. -/
structure Ordered (s : S) (st : State T S Op L R) : Prop where
  owned : ∀ t, st.Inside t ↔ st.owner = some t
  free : st.owner = none → Sequential body s st.log st.shared
  taken : ∀ t op l, st.phase t = .inside op l →
    ∃ s', Sequential body s st.log s' ∧ Runs body (body.enter op) s' l st.shared

omit [DecidableEq T] in
theorem ordered_start (s : S) : Ordered body s (start s : State T S Op L R) := by
  refine ⟨fun t => ?_, fun _ => .nil, fun t op l h => ?_⟩
  · apply iff_of_false
    · rintro ⟨op, l, h⟩
      cases h
    · intro h
      cases h
  · cases h

omit [DecidableEq T] in
/-- Only the owner is in a method. -/
theorem Ordered.exclusive {body : Body S Op L C R} {s : S} {st : State T S Op L R}
    (h : Ordered body s st) {t t' : T} (ht : st.Inside t) (ht' : st.Inside t') : t = t' := by
  have howner := (h.owned t).mp ht
  rw [(h.owned t').mp ht'] at howner
  exact (Option.some.inj howner).symm

theorem ordered_call {s : S} {st : State T S Op L R} (h : Ordered body s st) {t : T} (op : Op)
    (hidle : st.phase t = .idle) :
    Ordered body s { st with phase := Function.update st.phase t (.waiting op) } := by
  have hphase : ∀ t' op' l, Function.update st.phase t (.waiting op) t' = .inside op' l ↔
      st.phase t' = .inside op' l := by
    intro t' op' l
    by_cases ht : t' = t
    · subst ht
      simp [hidle]
    · simp [Function.update_of_ne ht]
  refine ⟨fun t' => ?_, h.free, fun t' op' l hin => ?_⟩
  · rw [← h.owned t']
    simp only [State.Inside, hphase]
  · exact h.taken t' op' l ((hphase t' op' l).mp hin)

theorem ordered_acquire {s : S} {st : State T S Op L R} (h : Ordered body s st) {t : T} {op : Op}
    (hfree : st.owner = none) :
    Ordered body s { st with
      owner := some t
      phase := Function.update st.phase t (.inside op (body.enter op)) } := by
  have hout : ∀ t', ¬ st.Inside t' := by
    intro t' hin
    have howner := (h.owned t').mp hin
    rw [hfree] at howner
    cases howner
  refine ⟨fun t' => ?_, (fun hnone => nomatch hnone), fun t' op' l hin => ?_⟩
  · by_cases ht : t' = t
    · subst ht
      exact iff_of_true ⟨op, body.enter op, Function.update_self ..⟩ rfl
    · apply iff_of_false
      · rintro ⟨op', l, hin⟩
        simp only [Function.update_of_ne ht] at hin
        exact hout t' ⟨op', l, hin⟩
      · intro hsame
        exact ht (Option.some.inj hsame).symm
  · by_cases ht : t' = t
    · subst ht
      simp only [Function.update_self] at hin
      cases hin
      exact ⟨st.shared, h.free hfree, .refl⟩
    · simp only [Function.update_of_ne ht] at hin
      exact absurd ⟨op', l, hin⟩ (hout t')

theorem ordered_move {s : S} {st : State T S Op L R} (h : Ordered body s st) {t : T} {op : Op}
    {l : L} (hin : st.phase t = .inside op l) (c : C) :
    Ordered body s { st with
      phase := Function.update st.phase t (.inside op (body.move c l st.shared).1)
      shared := (body.move c l st.shared).2 } := by
  have howner := (h.owned t).mp ⟨op, l, hin⟩
  refine ⟨fun t' => ?_, fun hnone => ?_, fun t' op' l' hin' => ?_⟩
  · rw [← h.owned t']
    by_cases ht : t' = t
    · subst ht
      exact iff_of_true ⟨op, _, Function.update_self ..⟩ ⟨op, l, hin⟩
    · simp only [State.Inside, Function.update_of_ne ht]
  · rw [howner] at hnone
    cases hnone
  · by_cases ht : t' = t
    · subst ht
      simp only [Function.update_self] at hin'
      cases hin'
      obtain ⟨s', hseq, hruns⟩ := h.taken t' op l hin
      exact ⟨s', hseq, .move c hruns⟩
    · simp only [Function.update_of_ne ht] at hin'
      exact absurd (h.exclusive ⟨op', l', hin'⟩ ⟨op, l, hin⟩) ht

theorem ordered_release {s : S} {st : State T S Op L R} (h : Ordered body s st) {t : T} {op : Op}
    {l : L} (hin : st.phase t = .inside op l) {r : R} (hr : body.result l = some r) :
    Ordered body s { st with
      owner := none
      phase := Function.update st.phase t .idle
      log := st.log ++ [(t, op, r)] } := by
  have hout : ∀ t' op' l', Function.update st.phase t .idle t' ≠ .inside op' l' := by
    intro t' op' l' hin'
    by_cases ht : t' = t
    · subst ht
      simp at hin'
    · rw [Function.update_of_ne ht] at hin'
      exact ht (h.exclusive ⟨op', l', hin'⟩ ⟨op, l, hin⟩)
  refine ⟨fun t' => ?_, fun _ => ?_, fun t' op' l' hin' => absurd hin' (hout t' op' l')⟩
  · apply iff_of_false
    · rintro ⟨op', l', hin'⟩
      exact hout t' op' l' hin'
    · intro hnone
      cases hnone
  · obtain ⟨s', hseq, hruns⟩ := h.taken t op l hin
    exact .snoc hseq ⟨l, hruns, hr⟩

theorem ordered_step {s : S} (st : State T S Op L R) (a : Label T Op C)
    (h : Ordered body s st) : Ordered body s (step body st a) := by
  cases a with
  | call t op =>
    simp only [step]
    split
    · next hidle => exact ordered_call body h op hidle
    · exact h
  | acquire t =>
    simp only [step]
    split
    · next hfree => exact ordered_acquire body h hfree
    · exact h
  | move t c =>
    simp only [step]
    split
    · next hin => exact ordered_move body h hin c
    · exact h
  | release t =>
    simp only [step]
    split
    · next hin =>
      split
      · next hr => exact ordered_release body h hin hr
      · exact h
    · exact h

theorem ordered_run (s : S) (labels : List (Label T Op C)) :
    Ordered body s (Machine.run (step body) (start s : State T S Op L R) labels) :=
  (Machine.always_of_guarded (g := fun _ _ => True) (fun st a h _ => ordered_step body st a h)
    (ordered_start body s) (Machine.guarded_of_forall (fun _ _ _ => trivial) _)).last

theorem exclusive_run (s : S) (labels : List (Label T Op C)) {t t' : T}
    (ht : (Machine.run (step body) (start s : State T S Op L R) labels).Inside t)
    (ht' : (Machine.run (step body) (start s : State T S Op L R) labels).Inside t') : t = t' :=
  (ordered_run body s labels).exclusive ht ht'

/-- Whatever the order of the steps: the finished calls are calls one after the other, and the object
    is what they leave, or a thread in a method has taken it from there. -/
theorem linearizable (s : S) (labels : List (Label T Op C)) :
    let st := Machine.run (step body) (start s : State T S Op L R) labels
    ∃ s', Sequential body s st.log s' ∧ (st.shared = s' ∨
      ∃ t op l, st.phase t = .inside op l ∧ Runs body (body.enter op) s' l st.shared) := by
  intro st
  have h : Ordered body s st := ordered_run body s labels
  cases howner : st.owner with
  | none => exact ⟨st.shared, h.free howner, .inl rfl⟩
  | some t =>
    obtain ⟨op, l, hin⟩ := (h.owned t).mpr howner
    obtain ⟨s', hseq, hruns⟩ := h.taken t op l hin
    exact ⟨s', hseq, .inr ⟨t, op, l, hin, hruns⟩⟩

end Locked
