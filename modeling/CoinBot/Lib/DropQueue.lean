import CoinBot.Lib.Machine
import CoinBot.Lib.Series
import Mathlib.Data.List.Perm.Basic

/- Queues that drop their oldest element when they are full.

   A queue is a list, its front first, and `cap` is how much it holds; no bound where
   that is zero. What any number of parties do to it one after the other is a list of
   operations. Whatever that list is, everything that was put in has been taken out,
   has been dropped, or waits (`perm_run`), what has been taken out and what waits is in
   the order in which it was put in (`sublist_run`), the newest `cap` elements are among
   it (`newest_run`), and nothing is missing iff no element was put into a full queue
   (`kept_iff`). The last three are about queues that are not cleared. -/
namespace DropQueue
variable {α : Type}

inductive Op (α : Type) where
  | put (x : α)
  | take
  | clear
  deriving DecidableEq, Repr

/-- Nothing more fits in. -/
def Full (cap : Nat) (q : List α) : Prop := 0 < cap ∧ cap ≤ q.length

instance (cap : Nat) (q : List α) : Decidable (Full cap q) :=
  inferInstanceAs (Decidable (_ ∧ _))

def put (cap : Nat) (q : List α) (x : α) : List α := (if Full cap q then q.tail else q) ++ [x]

def step (cap : Nat) (q : List α) : Op α → List α
  | .put x => put cap q x
  | .take => q.tail
  | .clear => []

/-- What an operation takes out for its caller. -/
def taken (q : List α) : Op α → List α
  | .put _ => []
  | .take => q.head?.toList
  | .clear => []

/-- What an operation throws away. -/
def dropped (cap : Nat) (q : List α) : Op α → List α
  | .put _ => if Full cap q then q.head?.toList else []
  | .take => []
  | .clear => q

/-- What was put in. -/
def puts (ops : List (Op α)) : List α :=
  ops.flatMap fun
    | .put x => [x]
    | _ => []

/-- What the operations took out, in order. -/
def allTaken (cap : Nat) (q : List α) (ops : List (Op α)) : List α :=
  Machine.outputs (step cap) taken q ops

def allDropped (cap : Nat) (q : List α) (ops : List (Op α)) : List α :=
  Machine.outputs (step cap) (dropped cap) q ops

example : allTaken 2 [] [.put 1, .put 2, .put 3, .take, .put 4, .take] = [2, 3] ∧
    allDropped 2 [] [.put 1, .put 2, .put 3, .take, .put 4, .take] = [1] := by decide

@[simp] theorem puts_concat (ops : List (Op α)) (op : Op α) :
    puts (ops ++ [op]) = puts ops ++ puts [op] := by
  simp [puts]

@[simp] theorem puts_put (x : α) : puts [Op.put x] = [x] := rfl

@[simp] theorem puts_take : puts [(Op.take : Op α)] = [] := rfl

@[simp] theorem puts_clear : puts [(Op.clear : Op α)] = [] := rfl

theorem run_concat (cap : Nat) (q : List α) (ops : List (Op α)) (op : Op α) :
    Machine.run (step cap) q (ops ++ [op]) = step cap (Machine.run (step cap) q ops) op := by
  rw [Machine.run_append]
  rfl

theorem head_append_tail (q : List α) : q.head?.toList ++ q.tail = q := by
  cases q with
  | nil => rfl
  | cons x q => rfl

theorem put_full {cap : Nat} {q : List α} (h : Full cap q) (x : α) :
    ∃ oldest, q = oldest :: q.tail ∧ put cap q x = q.tail ++ [x] := by
  have hlen : 0 < q.length := Nat.lt_of_lt_of_le h.1 h.2
  obtain ⟨oldest, rest, rfl⟩ := List.exists_cons_of_length_pos hlen
  exact ⟨oldest, rfl, by rw [put, if_pos h]⟩

theorem put_not_full {cap : Nat} {q : List α} (h : ¬ Full cap q) (x : α) :
    put cap q x = q ++ [x] := by rw [put, if_neg h]

/-! The bound. -/

theorem length_step {cap : Nat} (hcap : 0 < cap) {q : List α} (h : q.length ≤ cap) (op : Op α) :
    (step cap q op).length ≤ cap := by
  cases op with
  | put x =>
    by_cases hfull : Full cap q
    · obtain ⟨oldest, hq, hput⟩ := put_full hfull x
      have hlen : q.length = q.tail.length + 1 := congrArg List.length hq
      rw [step, hput, List.length_append, List.length_singleton]
      omega
    · rw [step, put_not_full hfull, List.length_append, List.length_singleton]
      unfold Full at hfull
      omega
  | take =>
    rw [step, List.length_tail]
    omega
  | clear => exact Nat.zero_le cap

theorem length_run {cap : Nat} (hcap : 0 < cap) {q : List α} (h : q.length ≤ cap)
    (ops : List (Op α)) : (Machine.run (step cap) q ops).length ≤ cap :=
  (Machine.always_of_guarded (P := fun q => q.length ≤ cap) (g := fun _ _ => True)
    (fun _ op hq _ => length_step hcap hq op) h
    (Machine.guarded_of_forall (fun _ _ _ => trivial) q)).last

/-! Conservation. -/

theorem perm_step (cap : Nat) (q : List α) (op : Op α) :
    (taken q op ++ dropped cap q op ++ step cap q op).Perm (q ++ puts [op]) := by
  cases op with
  | put x =>
    by_cases hfull : Full cap q
    · obtain ⟨oldest, hq, hput⟩ := put_full hfull x
      rw [puts_put, taken, dropped, if_pos hfull, step, hput, List.nil_append, ← List.append_assoc,
        head_append_tail]
    · rw [puts_put, taken, dropped, if_neg hfull, step, put_not_full hfull]
      exact .refl _
  | take =>
    rw [puts_take, taken, dropped, step, List.append_nil, head_append_tail, List.append_nil]
  | clear =>
    rw [puts_clear, taken, dropped, step, List.nil_append]

/-- Everything that was put in was taken out, was dropped, or waits: once. -/
theorem perm_run (cap : Nat) (q : List α) (ops : List (Op α)) :
    (allTaken cap q ops ++ allDropped cap q ops ++ Machine.run (step cap) q ops).Perm
      (q ++ puts ops) := by
  induction ops using List.reverseRecOn with
  | nil => simp [allTaken, allDropped, Machine.outputs, puts]
  | append_singleton ops op ih =>
    unfold allTaken allDropped at ih ⊢
    rw [run_concat, puts_concat, Machine.outputs_concat, Machine.outputs_concat,
      ← List.append_assoc q]
    refine .trans ?_ (ih.append_right (puts [op]))
    rw [List.append_assoc _ _ (puts [op])]
    refine .trans ?_ ((perm_step cap _ op).append_left _)
    generalize Machine.outputs (step cap) taken q ops = ts
    generalize Machine.outputs (step cap) (dropped cap) q ops = ds
    generalize taken (Machine.run (step cap) q ops) op = t
    -- What the step takes out stands before what was dropped earlier.
    simp only [← List.append_assoc]
    refine List.Perm.append_right _ (List.Perm.append_right _ ?_)
    rw [List.append_assoc, List.append_assoc]
    exact List.perm_append_comm.append_left ts

/-! Order. -/

theorem sublist_step (cap : Nat) (q : List α) (op : Op α) :
    (taken q op ++ step cap q op).Sublist (q ++ puts [op]) := by
  cases op with
  | put x =>
    rw [taken, step, puts_put, List.nil_append]
    by_cases hfull : Full cap q
    · obtain ⟨oldest, hq, hput⟩ := put_full hfull x
      rw [hput]
      exact (List.tail_sublist q).append_right [x]
    · rw [put_not_full hfull]
  | take => rw [taken, step, puts_take, head_append_tail, List.append_nil]
  | clear => exact List.nil_sublist _

/-- What was taken out, and then what waits, is in the order in which it was put in. -/
theorem sublist_run (cap : Nat) (q : List α) (ops : List (Op α)) :
    (allTaken cap q ops ++ Machine.run (step cap) q ops).Sublist (q ++ puts ops) := by
  induction ops using List.reverseRecOn with
  | nil => simp [allTaken, Machine.outputs, puts]
  | append_singleton ops op ih =>
    unfold allTaken at ih ⊢
    rw [run_concat, puts_concat, Machine.outputs_concat, List.append_assoc, ← List.append_assoc q]
    refine .trans ((sublist_step cap _ op).append_left _) ?_
    rw [← List.append_assoc]
    exact ih.append_right (puts [op])

/-! The newest elements. -/

theorem rtake_of_suffix {xs ys : List α} (h : ys <:+ xs) {n : Nat} (hn : ys.length = n) :
    xs.rtake n = ys := by
  obtain ⟨before, rfl⟩ := h
  subst hn
  rw [List.rtake, List.length_append, Nat.add_sub_cancel, List.drop_left]

theorem rtake_of_suffix_append {xs before ys : List α} {n : Nat} (h : xs.rtake n <:+ before ++ ys)
    (hn : ys.length = n) (hxs : n ≤ xs.length) : xs.rtake n = ys := by
  have hlen : (xs.rtake n).length = n :=
    (CoinBot.Series.length_rtake xs n).trans (Nat.min_eq_left hxs)
  rcases List.suffix_or_suffix_of_suffix h (List.suffix_append before ys) with hs | hs
  · exact hs.eq_of_length (hlen.trans hn.symm)
  · exact (hs.eq_of_length (hn.trans hlen.symm)).symm

theorem rtake_suffix_concat {cap : Nat} {xs ys : List α} (h : xs.rtake cap <:+ ys) (x : α) :
    (xs ++ [x]).rtake cap <:+ ys ++ [x] := by
  cases cap with
  | zero =>
    rw [List.rtake_zero]
    exact List.nil_suffix
  | succ n =>
    rw [List.rtake_concat_succ]
    obtain ⟨before, hbefore⟩ := h
    have hshorter : xs.rtake n <:+ xs.rtake (n + 1) := by
      rw [List.rtake_eq_reverse_take_reverse, List.rtake_eq_reverse_take_reverse,
        List.reverse_suffix]
      exact (List.take_prefix_take_left (Nat.le_succ n))
    obtain ⟨between, hbetween⟩ := hshorter
    exact ⟨before ++ between, by rw [← hbefore, ← hbetween]; simp⟩

/-- A queue that is not cleared has given out or still holds the newest `cap` elements, behind
    each other. -/
theorem newest_run {cap : Nat} {q : List α} (h : q.length ≤ cap) {ops : List (Op α)}
    (hops : Op.clear ∉ ops) :
    (q ++ puts ops).rtake cap <:+ allTaken cap q ops ++ Machine.run (step cap) q ops := by
  induction ops using List.reverseRecOn with
  | nil =>
    simp only [allTaken, Machine.outputs, puts, List.flatMap_nil, List.append_nil, List.nil_append,
      Machine.run_nil]
    exact List.drop_suffix _ _
  | append_singleton ops op ih =>
    have hlast := ih (fun hmem => hops (List.mem_append_left _ hmem))
    unfold allTaken at hlast ⊢
    rw [run_concat, puts_concat, Machine.outputs_concat, List.append_assoc, ← List.append_assoc q]
    set waiting := Machine.run (step cap) q ops with hwaiting
    cases op with
    | put x =>
      rw [puts_put, taken, step, List.nil_append]
      by_cases hfull : Full cap waiting
      · -- The queue holds just the newest elements, and drops the oldest of them.
        obtain ⟨oldest, hq, hput⟩ := put_full hfull x
        have hlen : waiting.length = cap := by
          have hle : waiting.length ≤ cap := hwaiting ▸ length_run hfull.1 h ops
          exact Nat.le_antisymm hle hfull.2
        have hall : cap ≤ (q ++ puts ops).length := by
          have hsub := (sublist_run cap q ops).length_le
          rw [List.length_append, ← hwaiting] at hsub
          omega
        have hnewest : (q ++ puts ops).rtake cap = waiting := rtake_of_suffix_append hlast hlen hall
        obtain ⟨n, rfl⟩ : ∃ n, cap = n + 1 := ⟨cap - 1, by have := hfull.1; omega⟩
        have hcut : (q ++ puts ops).rtake n = waiting.tail := by
          have hsuffix : waiting.tail <:+ q ++ puts ops :=
            (List.tail_suffix waiting).trans (hnewest ▸ List.drop_suffix _ _)
          refine rtake_of_suffix hsuffix ?_
          rw [List.length_tail, hlen, Nat.add_sub_cancel]
        rw [List.rtake_concat_succ, hcut, hput]
        exact List.suffix_append _ _
      · rw [put_not_full hfull, ← List.append_assoc]
        exact rtake_suffix_concat hlast x
    | take =>
      rw [puts_take, List.append_nil, taken, step, head_append_tail]
      exact hlast
    | clear => exact absurd (List.mem_append_right ops (List.mem_singleton_self _)) hops

/-! Nothing missing. -/

/-- The operation does not make a full queue drop something. -/
def Fits (cap : Nat) (q : List α) : Op α → Prop
  | .put _ => ¬ Full cap q
  | .take => True
  | .clear => q = []

theorem dropped_eq_nil_iff (cap : Nat) (q : List α) (op : Op α) :
    dropped cap q op = [] ↔ Fits cap q op := by
  cases op with
  | put x =>
    by_cases hfull : Full cap q
    · obtain ⟨oldest, hq, -⟩ := put_full hfull x
      have hne : q.head?.toList ≠ [] := by
        rw [hq]
        exact List.cons_ne_nil _ _
      rw [dropped, if_pos hfull]
      exact iff_of_false hne (not_not_intro hfull)
    · rw [dropped, if_neg hfull]
      exact iff_of_true rfl hfull
  | take => exact iff_of_true rfl trivial
  | clear => exact Iff.rfl

theorem allDropped_eq_nil_iff (cap : Nat) (q : List α) (ops : List (Op α)) :
    allDropped cap q ops = [] ↔ Machine.Guarded (step cap) (Fits cap) q ops := by
  induction ops generalizing q with
  | nil => exact iff_of_true rfl trivial
  | cons op ops ih =>
    show dropped cap q op ++ allDropped cap (step cap q op) ops = [] ↔ _
    rw [List.append_eq_nil_iff, dropped_eq_nil_iff, ih]
    exact Iff.rfl

/-- Nothing is missing exactly when no step dropped anything. -/
theorem kept_iff (cap : Nat) (q : List α) (ops : List (Op α)) :
    allTaken cap q ops ++ Machine.run (step cap) q ops = q ++ puts ops ↔
      Machine.Guarded (step cap) (Fits cap) q ops := by
  rw [← allDropped_eq_nil_iff]
  have hlen := (perm_run cap q ops).length_eq
  simp only [List.length_append] at hlen
  constructor
  · intro heq
    have hcount := congrArg List.length heq
    simp only [List.length_append] at hcount
    exact List.length_eq_zero_iff.mp (by omega)
  · intro hnone
    refine (sublist_run cap q ops).eq_of_length ?_
    simp only [List.length_append]
    rw [hnone, List.length_nil] at hlen
    omega

end DropQueue
