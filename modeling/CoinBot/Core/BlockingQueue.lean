import CoinBot.Lib.DropQueue

/- `core/BlockingQueue`: the queue between the threads that read the WebSockets and the
   worker of a market.

   Every method holds the mutex for its whole effect, so a call is one step. What a
   waiting `pop_for` does to the queue it does when it returns: it takes the front, and
   gives nothing only where the time is up and nothing is there. The queue carries its
   bound; `max_size_` is 0 where there is none.

   Correspondence (C++ ↔ Lean):
     `q_` (std::deque), front first   ↔ `items`
     `push`, `clear` (void)           ↔ the queue after the call
     `try_pop`, `pop_for` (optional)  ↔ `tryPop`, `popFor`, the element and the queue -/
namespace CoinBot

structure BlockingQueue (T : Type) where
  maxSize : Nat
  items : List T
  bounded : 0 < maxSize → items.length ≤ maxSize

namespace BlockingQueue
variable {T : Type}

def create (maxSize : Nat) : BlockingQueue T where
  maxSize := maxSize
  items := []
  bounded _ := Nat.zero_le maxSize

def push (q : BlockingQueue T) (v : T) : BlockingQueue T where
  maxSize := q.maxSize
  items := (if 0 < q.maxSize ∧ q.maxSize ≤ q.items.length then q.items.tail else q.items) ++ [v]
  bounded hmax := DropQueue.length_step hmax (q.bounded hmax) (.put v)

def popFront (q : BlockingQueue T) : Option T × BlockingQueue T :=
  (q.items.head?,
   { maxSize := q.maxSize
     items := q.items.tail
     bounded := fun hmax => DropQueue.length_step hmax (q.bounded hmax) .take })

def tryPop (q : BlockingQueue T) : Option T × BlockingQueue T := q.popFront

def popFor (q : BlockingQueue T) : Option T × BlockingQueue T := q.popFront

def size (q : BlockingQueue T) : Nat := q.items.length

def clear (q : BlockingQueue T) : BlockingQueue T := create q.maxSize

inductive Call (T : Type) where
  | push (v : T)
  | tryPop
  | popFor
  | clear
  deriving DecidableEq, Repr

def call (q : BlockingQueue T) : Call T → BlockingQueue T
  | .push v => q.push v
  | .tryPop => q.tryPop.2
  | .popFor => q.popFor.2
  | .clear => q.clear

/-- What a call gives to its caller. -/
def popped (q : BlockingQueue T) : Call T → List T
  | .push _ => []
  | .tryPop => q.tryPop.1.toList
  | .popFor => q.popFor.1.toList
  | .clear => []

/-- What was pushed. -/
def pushes (calls : List (Call T)) : List T :=
  calls.flatMap fun
    | .push v => [v]
    | _ => []

/-! The queue is one that drops its oldest element. -/

def Call.op : Call T → DropQueue.Op T
  | .push v => .put v
  | .tryPop => .take
  | .popFor => .take
  | .clear => .clear

theorem mem_items_push {q : BlockingQueue T} {v x : T} (h : x ∈ (q.push v).items) :
    x ∈ q.items ∨ x = v := by
  rcases List.mem_append.mp h with hold | hnew
  · left
    split at hold
    · exact List.mem_of_mem_tail hold
    · exact hold
  · exact .inr (List.mem_singleton.mp hnew)

theorem items_call (q : BlockingQueue T) (c : Call T) :
    (q.call c).items = DropQueue.step q.maxSize q.items c.op := by
  cases c <;> rfl

@[simp] theorem maxSize_call (q : BlockingQueue T) (c : Call T) :
    (q.call c).maxSize = q.maxSize := by
  cases c <;> rfl

theorem puts_ops (calls : List (Call T)) : DropQueue.puts (calls.map Call.op) = pushes calls := by
  unfold DropQueue.puts pushes
  rw [List.flatMap_map]
  refine List.flatMap_congr (fun c _ => ?_)
  cases c <;> rfl

theorem run_refines (q : BlockingQueue T) (calls : List (Call T)) :
    (Machine.run call q calls).items =
        Machine.run (DropQueue.step q.maxSize) q.items (calls.map Call.op) ∧
      Machine.outputs call popped q calls =
        DropQueue.allTaken q.maxSize q.items (calls.map Call.op) := by
  induction calls generalizing q with
  | nil => exact ⟨rfl, rfl⟩
  | cons c calls ih =>
    obtain ⟨hitems, hpopped⟩ := ih (q.call c)
    rw [maxSize_call, items_call] at hitems hpopped
    refine ⟨hitems, ?_⟩
    have hone : popped q c = DropQueue.taken q.items c.op := by cases c <;> rfl
    show popped q c ++ Machine.outputs call popped (q.call c) calls = _
    rw [hpopped, hone]
    rfl

/-- The call finds room for what it brings. -/
def HasRoom (q : BlockingQueue T) : Call T → Prop
  | .push _ => ¬ (0 < q.maxSize ∧ q.maxSize ≤ q.size)
  | _ => True

theorem hasRoom_iff (q : BlockingQueue T) {c : Call T} (hc : c ≠ .clear) :
    q.HasRoom c ↔ DropQueue.Fits q.maxSize q.items c.op := by
  cases c with
  | push v => exact Iff.rfl
  | tryPop => exact Iff.rfl
  | popFor => exact Iff.rfl
  | clear => exact absurd rfl hc

theorem guarded_hasRoom_iff (q : BlockingQueue T) {calls : List (Call T)} (h : Call.clear ∉ calls) :
    Machine.Guarded call HasRoom q calls ↔
      Machine.Guarded (DropQueue.step q.maxSize) (DropQueue.Fits q.maxSize) q.items
        (calls.map Call.op) := by
  induction calls generalizing q with
  | nil => exact Iff.rfl
  | cons c calls ih =>
    rw [List.mem_cons, not_or] at h
    have hrest := ih (q.call c) h.2
    rw [maxSize_call, items_call] at hrest
    exact and_congr (hasRoom_iff q (Ne.symm h.1)) hrest

/-- What a new queue keeps that nothing clears: the order of what was pushed, its bound, and the
    newest elements, as many as the bound allows; and everything where every push found room. -/
theorem kept (maxSize : Nat) {calls : List (Call T)} (h : Call.clear ∉ calls) :
    let q : BlockingQueue T := Machine.run call (create maxSize) calls
    let taken := Machine.outputs call popped (create maxSize) calls
    (taken ++ q.items).Sublist (pushes calls) ∧
    (0 < maxSize → q.size ≤ maxSize) ∧
    (pushes calls).rtake maxSize <:+ taken ++ q.items ∧
    (taken ++ q.items = pushes calls ↔
      Machine.Guarded call HasRoom (create maxSize) calls) := by
  intro q taken
  obtain ⟨hitems, htaken⟩ := run_refines (create maxSize : BlockingQueue T) calls
  change q.items = Machine.run (DropQueue.step maxSize) [] (calls.map Call.op) at hitems
  change taken = DropQueue.allTaken maxSize [] (calls.map Call.op) at htaken
  have hputs : pushes calls = [] ++ DropQueue.puts (calls.map Call.op) := by
    rw [List.nil_append, puts_ops]
  have hclear : DropQueue.Op.clear ∉ calls.map Call.op := by
    intro hmem
    obtain ⟨c, hc, hop⟩ := List.mem_map.mp hmem
    cases c with
    | push v => cases hop
    | tryPop => cases hop
    | popFor => cases hop
    | clear => exact h hc
  have hsize : 0 < maxSize → q.size ≤ maxSize := by
    intro hmax
    show q.items.length ≤ maxSize
    rw [hitems]
    exact DropQueue.length_run hmax (q := []) (Nat.zero_le maxSize) _
  rw [htaken, hitems, hputs]
  refine ⟨DropQueue.sublist_run _ _ _, hsize, ?_, ?_⟩
  · exact DropQueue.newest_run (Nat.zero_le maxSize) hclear
  · rw [DropQueue.kept_iff, guarded_hasRoom_iff _ h]
    exact Iff.rfl

end BlockingQueue
end CoinBot
