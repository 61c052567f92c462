import CoinBot.Lib.Machine
import CoinBot.Lib.Series

/- Stores of the last values.

   A store is fed one value after the other, and is cleared or set to another size in between.
   `Fed` is what it was given: its size, and all values since it was cleared. What it should
   hold are the last of them, as many as its size allows. `Window` is such a store as a list
   with its bound: it gives away its oldest value when it is full, and holds just these values
   (`shows_run`). -/
namespace CoinBot

variable {α : Type}

/-- What is done to a store. -/
inductive StoreCall (α : Type) where
  | feed (x : α)
  | clear
  | reset (size : Nat)
  deriving DecidableEq, Repr

/-- The size of a store, and the values since it was cleared. -/
structure Fed (α : Type) where
  size : Nat
  values : List α := []
  deriving DecidableEq, Repr

namespace Fed

def call (f : Fed α) : StoreCall α → Fed α
  | .feed x => { f with values := f.values ++ [x] }
  | .clear => { f with values := [] }
  | .reset size => { size := size }

/-- What the store should hold. -/
def last (f : Fed α) : List α := f.values.rtake f.size

example : (Machine.run call { size := 2 } [.feed 1, .clear, .feed 2, .feed 3, .feed 4]).last =
    [3, 4] := by decide

theorem last_feed (f : Fed α) (x : α) : (f.call (.feed x)).last = (f.last ++ [x]).rtake f.size :=
  (Series.rtake_rtake_concat f.size f.values x).symm

theorem last_clear (f : Fed α) : (f.call .clear).last = [] := List.rtake_nil f.size

theorem last_reset (f : Fed α) (n : Nat) : (f.call (.reset n)).last = [] := List.rtake_nil n

end Fed

/-- A list of at most `size` values. -/
@[ext] structure Window (α : Type) where
  size : Nat
  items : List α
  length_le : items.length ≤ size

namespace Window

def empty (size : Nat) : Window α where
  size := size
  items := []
  length_le := Nat.zero_le size

/-- One more value; the oldest one makes room for it. -/
def feed (w : Window α) (x : α) : Window α where
  size := w.size
  items := (w.items ++ [x]).rtake w.size
  length_le := by
    rw [Series.length_rtake]
    exact Nat.min_le_left _ _

/-- The value that leaves the window when it is fed. -/
def evicted (w : Window α) : Option α := if w.items.length = w.size then w.items.head? else none

def call (w : Window α) : StoreCall α → Window α
  | .feed x => w.feed x
  | .clear => empty w.size
  | .reset size => empty size

theorem evicted_eq_dropped (w : Window α) : w.evicted = Series.dropped w.size w.items := by
  rw [evicted, Series.dropped, Series.rtake_of_length_le w.length_le]
  exact if_congr ⟨fun h => Nat.le_of_eq h.symm, fun h => Nat.le_antisymm w.length_le h⟩ rfl rfl

/-- A sum over the window is kept up to date by what leaves it and what comes. -/
theorem sum_map_feed {β : Type} [AddCommGroup β] (g : α → β) {w : Window α} (h : 0 < w.size)
    (x : α) : ((w.feed x).items.map g).sum =
      (w.items.map g).sum - (w.evicted.map g).getD 0 + g x := by
  have hwhole : (w.items.map g).rtake w.size = w.items.map g := by
    rw [Series.rtake_map, Series.rtake_of_length_le w.length_le]
  have hsum := Series.sum_rtake_concat h (w.items.map g) (g x)
  rw [hwhole, Series.dropped_map, ← evicted_eq_dropped] at hsum
  rw [← hsum, feed, ← Series.rtake_map, List.map_append, List.map_singleton]

/-- The window holds the last of the values that it was fed. -/
structure Shows (w : Window α) (f : Fed α) : Prop where
  size : w.size = f.size
  items : w.items = f.last

theorem shows_empty (n : Nat) : (empty n : Window α).Shows { size := n } :=
  ⟨rfl, (List.rtake_nil n).symm⟩

theorem Shows.call {w : Window α} {f : Fed α} (h : w.Shows f) (c : StoreCall α) :
    (w.call c).Shows (f.call c) := by
  cases c with
  | feed x =>
    refine ⟨h.size, ?_⟩
    rw [Fed.last_feed, ← h.items, ← h.size]
    rfl
  | clear => exact ⟨h.size, (Fed.last_clear f).symm⟩
  | reset m => exact ⟨rfl, (Fed.last_reset f m).symm⟩

theorem shows_run (n : Nat) (calls : List (StoreCall α)) :
    (Machine.run call (empty n) calls).Shows (Machine.run Fed.call { size := n } calls) :=
  Machine.run_simulates (R := Shows) (fun _ _ c h => h.call c) (shows_empty n) calls

end Window
end CoinBot
