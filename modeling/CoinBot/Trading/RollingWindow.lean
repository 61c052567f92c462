import CoinBot.Trading.IndicatorHistory

/- The ring buffer and the indicators over runs of their calls.

   A buffer or an indicator is fed, cleared and reset in any order; `Fed` is what it was given
   meanwhile. The buffer presents the last of these values (`ringBuffer_refines`), and the
   sums that the indicators keep beside their buffers are those of its contents, whatever is
   evicted, skipped or thrown away (`sums_track`). -/
namespace CoinBot

/-! The buffer. -/

namespace RingBuffer
variable {α : Type}

/-- What the callers of a buffer see is the list `w`. -/
structure Presents (b : RingBuffer α) (w : List α) : Prop where
  size : b.size = w.length
  full : b.full = true ↔ b.cap ≠ 0 ∧ w.length = b.cap
  /-- A full buffer gives away its oldest value. -/
  push_full : b.full = true → ∃ oldest, w.head? = some oldest ∧ ∀ v, (b.push v).1 = some oldest
  push_free : b.full = false → ∀ v, (b.push v).1 = none
  atIndex : ∀ i, b.atIndex i = orThrow "RingBuffer::at (oldest) out of range" w[i]?
  index : ∀ i < w.length, b.index i = w[i]?
  oldest : b.oldest = orThrow "RingBuffer::oldest on empty buffer" w.head?
  newest : b.newest = orThrow "RingBuffer::newest on empty buffer" w.getLast?
  valueFromBack : ∀ k, b.valueFromBack k = w.reverse[k]?
  valueFromBack_none : ∀ k, b.valueFromBack k = none ↔ b.size ≤ k
  refFromBack : ∀ k, b.refFromBack k =
    orThrow "RingBuffer::refFromBack out of range" w.reverse[k]?
  refFromBack_throws : ∀ k, (∃ e, b.refFromBack k = .error e) ↔ b.size ≤ k

theorem full_iff (b : RingBuffer α) :
    b.full = true ↔ b.cap ≠ 0 ∧ b.contents.length = b.cap := by
  rw [full, Bool.and_eq_true, bne_iff_ne, beq_iff_eq, length_contents]

theorem valueFromBack_eq_none (b : RingBuffer α) (k : Nat) :
    b.valueFromBack k = none ↔ b.size ≤ k := by
  rw [valueFromBack_eq, List.getElem?_eq_none_iff, List.length_reverse, length_contents]

theorem refFromBack_eq_error (b : RingBuffer α) (k : Nat) :
    (∃ e, b.refFromBack k = .error e) ↔ b.size ≤ k := by
  unfold refFromBack
  split
  · next hle => exact iff_of_true ⟨_, rfl⟩ hle
  · next hlt =>
    refine iff_of_false ?_ hlt
    rintro ⟨e, he⟩
    cases he

theorem presents_contents (b : RingBuffer α) : b.Presents b.contents where
  size := b.length_contents.symm
  full := b.full_iff
  push_full := by
    intro hfull
    obtain ⟨hcap, hlength⟩ := b.full_iff.mp hfull
    obtain ⟨oldest, rest, hcons⟩ :=
      List.exists_cons_of_length_pos (hlength ▸ Nat.pos_of_ne_zero hcap)
    refine ⟨oldest, by rw [hcons]; rfl, fun v => ?_⟩
    rw [push_overwritten, Window.evicted, toWindow_items, toWindow_size, if_pos hlength, hcons]
    rfl
  push_free := by
    intro hfree v
    rw [push_overwritten, Window.evicted, toWindow_items, toWindow_size]
    split
    · next hlength =>
      -- Only a buffer without cells has as many values as cells and is not full.
      have hcap : b.cap = 0 := by
        by_contra hcap
        rw [b.full_iff.mpr ⟨hcap, hlength⟩] at hfree
        cases hfree
      rw [List.length_eq_zero_iff.mp (hlength.trans hcap)]
      rfl
    · rfl
  atIndex := b.atIndex_eq
  index := fun _ hi => index_eq (b.length_contents ▸ hi)
  oldest := b.oldest_eq
  newest := b.newest_eq
  valueFromBack := b.valueFromBack_eq
  valueFromBack_none := b.valueFromBack_eq_none
  refFromBack := b.refFromBack_eq
  refFromBack_throws := b.refFromBack_eq_error

theorem toWindow_run [Zero α] (capacity : Nat) (calls : List (StoreCall α)) :
    (Machine.run call (reset capacity) calls).toWindow =
      Machine.run Window.call (Window.empty capacity) calls := by
  have hempty : (reset capacity : RingBuffer α).toWindow = Window.empty capacity :=
    Window.ext rfl (contents_of_size_eq_zero rfl)
  rw [Machine.map_run toWindow_call, hempty]

theorem contents_run [Zero α] (capacity : Nat) (calls : List (StoreCall α)) :
    (Machine.run call (reset capacity) calls).cap =
      (Machine.run Fed.call { size := capacity } calls).size ∧
    (Machine.run call (reset capacity) calls).contents =
      (Machine.run Fed.call { size := capacity } calls).last := by
  obtain ⟨hsize, hitems⟩ := Window.shows_run capacity calls
  rw [← toWindow_run] at hsize hitems
  exact ⟨hsize, hitems⟩

end RingBuffer

/-! The close so many updates ago. -/

section
variable {α : Type} [Field α]

namespace ClosePriceWindow

def call (i : ClosePriceWindow α) : StoreCall α → ClosePriceWindow α
  | .feed close => (i.update close).2
  | .clear => i.clear
  | .reset length => reset length

structure Tracks (i : ClosePriceWindow α) (f : Fed α) : Prop where
  length : i.length = f.size
  follows : i.Follows f.values

theorem Tracks.call {i : ClosePriceWindow α} {f : Fed α} (h : i.Tracks f) (c : StoreCall α) :
    (i.call c).Tracks (f.call c) := by
  cases c with
  | feed close => exact ⟨h.length, (h.follows.update close).2⟩
  | clear => exact ⟨h.length, h.follows.cap, RingBuffer.holds_nil rfl⟩
  | reset length => exact ⟨rfl, follows_reset length⟩

theorem tracks_run (length : Nat) (calls : List (StoreCall α)) :
    (Machine.run call (reset length) calls).Tracks
      (Machine.run Fed.call { size := length } calls) :=
  Machine.run_simulates (R := Tracks) (fun _ _ c h => h.call c) ⟨rfl, follows_reset length⟩ calls

/-- The close `length` updates before the last one. -/
theorem closeAt_of_le {length : Nat} {closes : List α} (h : length ≤ closes.length) (close : α) :
    ∃ v, (closes ++ [close])[closes.length - length]? = some v ∧
      closeAt length (closes ++ [close]) = { ready := true, v := v } := by
  have hlt : closes.length - length < (closes ++ [close]).length := by
    rw [List.length_append, List.length_singleton]
    omega
  have hback : (closes ++ [close]).reverse[length]? =
      (closes ++ [close])[closes.length - length]? := by
    rw [List.getElem?_reverse (by rw [List.length_append, List.length_singleton]; omega),
      List.length_append, List.length_singleton, Nat.add_sub_cancel]
  refine ⟨_, List.getElem?_eq_getElem hlt, ?_⟩
  rw [closeAt, hback, List.getElem?_eq_getElem hlt]

theorem closeAt_of_lt {length : Nat} {closes : List α} (h : closes.length < length) (close : α) :
    closeAt length (closes ++ [close]) = .notReady := by
  have hnone : (closes ++ [close]).reverse[length]? = none := by
    rw [List.getElem?_eq_none_iff, List.length_reverse, List.length_append, List.length_singleton]
    exact h
  rw [closeAt, hnone]

end ClosePriceWindow

/-- **The ring buffer is a bounded list.** After any calls on a buffer of any capacity its callers
    see the last of the values pushed since it was cleared, as many as fit in. The window of
    closes over it answers with the close just so many updates ago, once there is one. -/
theorem ringBuffer_refines {β : Type} [Zero β] :
    (∀ (capacity : Nat) (calls : List (StoreCall β)),
      let b := Machine.run RingBuffer.call (.reset capacity) calls
      let f := Machine.run Fed.call { size := capacity } calls
      b.cap = f.size ∧ b.contents = f.values.rtake f.size ∧
        b.Presents (f.values.rtake f.size)) ∧
    ∀ (length : Nat) (calls : List (StoreCall α)) (close : α),
      let i := Machine.run ClosePriceWindow.call (.reset length) calls
      let f := Machine.run Fed.call { size := length } calls
      (f.size ≤ f.values.length →
        ∃ v, (f.values ++ [close])[f.values.length - f.size]? = some v ∧
          (i.update close).1 = { ready := true, v := v }) ∧
      (f.values.length < f.size → (i.update close).1 = .notReady) := by
  constructor
  · intro capacity calls b f
    obtain ⟨hcap, hcontents⟩ := RingBuffer.contents_run capacity calls
    have hpresents := b.presents_contents
    rw [show b.contents = f.values.rtake f.size from hcontents] at hpresents
    exact ⟨hcap, hcontents, hpresents⟩
  · intro length calls close i f
    obtain ⟨hlength, hfollows⟩ := ClosePriceWindow.tracks_run length calls
    rw [(hfollows.update close).1, hlength]
    exact ⟨fun h => ClosePriceWindow.closeAt_of_le h close,
      fun h => ClosePriceWindow.closeAt_of_lt h close⟩

/-! The sums beside the buffer. -/

namespace Sma

def call (i : Sma α) : StoreCall α → Sma α
  | .feed x => (i.update x).2
  | .clear => i.clear
  | .reset length => reset length

structure Tracks (i : Sma α) (f : Fed α) : Prop where
  length : i.length = f.size
  cap : i.window.cap = i.length
  contents : i.window.contents = f.last
  sum : i.sum = i.window.contents.sum

theorem tracks_reset (length : Nat) : (reset length : Sma α).Tracks { size := length } where
  length := rfl
  cap := rfl
  contents := (RingBuffer.contents_of_size_eq_zero rfl).trans (List.rtake_nil length).symm
  sum := by rw [RingBuffer.contents_of_size_eq_zero rfl]; rfl

variable {i : Sma α} {f : Fed α}

theorem Tracks.update (h : i.Tracks f) (x : α) : (i.update x).2.Tracks (f.call (.feed x)) := by
  unfold Sma.update
  split
  · next hzero =>
    -- Nothing is kept.
    have hsize : f.size = 0 := h.length.symm.trans hzero
    refine ⟨h.length, h.cap, h.contents.trans ?_, h.sum⟩
    rw [Fed.last_feed, Fed.last, hsize, List.rtake_zero, List.rtake_zero]
  · next hpos =>
    have hcap : i.window.cap ≠ 0 := h.cap.trans_ne hpos
    refine ⟨h.length, (RingBuffer.push_cap _ _).trans h.cap, ?_, ?_⟩
    · show (i.window.push x).2.contents = _
      rw [RingBuffer.contents_push, Fed.last_feed, h.contents, h.cap, h.length]
    · show i.sum - (i.window.push x).1.getD 0 + x = (i.window.push x).2.contents.sum
      rw [RingBuffer.sum_push hcap, h.sum]

theorem Tracks.call (h : i.Tracks f) (c : StoreCall α) : (i.call c).Tracks (f.call c) := by
  cases c with
  | feed x => exact h.update x
  | clear =>
    refine ⟨h.length, h.cap, ?_, ?_⟩
    · exact (RingBuffer.contents_of_size_eq_zero rfl).trans (Fed.last_clear f).symm
    · show (0 : α) = i.window.clear.contents.sum
      rw [RingBuffer.contents_of_size_eq_zero rfl]
      rfl
  | reset length => exact tracks_reset length

theorem tracks_run (length : Nat) (calls : List (StoreCall α)) :
    (Machine.run call (reset length) calls).Tracks
      (Machine.run Fed.call { size := length } calls) :=
  Machine.run_simulates (R := Tracks) (fun _ _ c h => h.call c) (tracks_reset length) calls

end Sma

variable [LinearOrder α]

namespace ChangeVolatilityIndicator

def call (sqrt : α → α) (i : ChangeVolatilityIndicator α) :
    StoreCall α → ChangeVolatilityIndicator α
  | .feed close => (i.update sqrt close).2
  | .clear => i.clear
  | .reset length => reset length

/-- A window of less than two is set to two. -/
def atLeastTwo : StoreCall α → StoreCall α
  | .reset length => .reset (max 2 length)
  | c => c

/-- The change rates that are defined: none after a close of 0. -/
def returns (closes : List α) : List α :=
  (Series.steps Prod.mk closes).filterMap fun (prev, close) =>
    if prev = 0 then none else some ((close - prev) / prev)

theorem returns_concat {closes : List α} {prev : α} (hlast : closes.getLast? = some prev)
    (close : α) : returns (closes ++ [close]) =
      returns closes ++ if prev = 0 then [] else [(close - prev) / prev] := by
  rw [returns, Series.steps_concat _ hlast, List.filterMap_append]
  congr 1
  by_cases hprev : prev = 0
  · simp [hprev]
  · simp [hprev]

structure Tracks (i : ChangeVolatilityIndicator α) (f : Fed α) : Prop where
  length : i.length = f.size
  cap : i.window.cap = i.length
  prev : i.length ≠ 0 → i.prevClose = f.values.getLast?
  contents : i.window.contents = (returns f.values).rtake i.length
  sum : i.sum = i.window.contents.sum
  sumsq : i.sumsq = (i.window.contents.map (fun r => r * r)).sum

theorem tracks_nil {i : ChangeVolatilityIndicator α} {n : Nat} (hlength : i.length = n)
    (hcap : i.window.cap = i.length) (hprev : i.prevClose = none) (hsize : i.window.size = 0)
    (hsum : i.sum = 0) (hsumsq : i.sumsq = 0) : i.Tracks { size := n } where
  length := hlength
  cap := hcap
  prev := fun _ => hprev
  contents := (RingBuffer.contents_of_size_eq_zero hsize).trans (List.rtake_nil _).symm
  sum := by rw [hsum, RingBuffer.contents_of_size_eq_zero hsize]; rfl
  sumsq := by rw [hsumsq, RingBuffer.contents_of_size_eq_zero hsize]; rfl

omit [LinearOrder α] in
theorem reset_length (length : Nat) :
    (reset length : ChangeVolatilityIndicator α).length = max 2 length := by
  show (if length < 2 then 2 else length) = _
  split <;> omega

variable {i : ChangeVolatilityIndicator α} {f : Fed α}

theorem Tracks.push (h : i.Tracks f) (hpos : i.length ≠ 0) {prev : α}
    (hlast : f.values.getLast? = some prev) (hprev : prev ≠ 0) (close : α) {r : α}
    (hr : (close - prev) / prev = r) :
    Tracks
      { i with
        prevClose := some close
        window := (i.window.push r).2
        sum := i.sum - (i.window.push r).1.getD 0 + r
        sumsq := i.sumsq - (i.window.push r).1.getD 0 * (i.window.push r).1.getD 0 + r * r }
      (f.call (.feed close)) := by
  have hcap : i.window.cap ≠ 0 := h.cap.trans_ne hpos
  have hreturns : returns (f.values ++ [close]) = returns f.values ++ [r] := by
    rw [returns_concat hlast, if_neg hprev, hr]
  refine ⟨h.length, (RingBuffer.push_cap _ _).trans h.cap, ?_, ?_, ?_, ?_⟩
  · intro _
    exact (List.getLast?_concat).symm
  · show (i.window.push r).2.contents = (returns (f.values ++ [close])).rtake i.length
    rw [RingBuffer.contents_push, hreturns, h.contents, h.cap, Series.rtake_rtake_concat]
  · show i.sum - (i.window.push r).1.getD 0 + r = (i.window.push r).2.contents.sum
    rw [RingBuffer.sum_push hcap, h.sum]
  · show i.sumsq - (i.window.push r).1.getD 0 * (i.window.push r).1.getD 0 + r * r =
      ((i.window.push r).2.contents.map (fun r => r * r)).sum
    rw [RingBuffer.sumsq_push hcap, h.sumsq]

theorem Tracks.update (h : i.Tracks f) (sqrt : α → α) (close : α) :
    (i.update sqrt close).2.Tracks (f.call (.feed close)) := by
  unfold ChangeVolatilityIndicator.update
  split
  · next hzero =>
    refine ⟨h.length, h.cap, fun hpos => absurd hzero hpos, ?_, h.sum, h.sumsq⟩
    rw [h.contents, hzero, List.rtake_zero, List.rtake_zero]
  · next hpos =>
    split
    · next hnone =>
      -- The first close.
      have hnil : f.values = [] := List.getLast?_eq_none_iff.mp ((h.prev hpos).symm.trans hnone)
      refine ⟨h.length, h.cap, ?_, h.contents.trans ?_, h.sum, h.sumsq⟩
      · intro _
        exact (List.getLast?_concat).symm
      · show (returns f.values).rtake i.length = (returns (f.values ++ [close])).rtake i.length
        rw [hnil]
        rfl
    · next prev hsome =>
      have hlast : f.values.getLast? = some prev := (h.prev hpos).symm.trans hsome
      dsimp only
      split
      · next hprev =>
        -- No rate is defined.
        refine ⟨h.length, h.cap, ?_, h.contents.trans ?_, h.sum, h.sumsq⟩
        · intro _
          exact (List.getLast?_concat).symm
        · show _ = (returns (f.values ++ [close])).rtake i.length
          rw [returns_concat hlast, if_pos hprev, List.append_nil]
      · next hprev => exact h.push hpos hlast hprev close rfl

theorem Tracks.call (h : i.Tracks f) (sqrt : α → α) (c : StoreCall α) :
    (i.call sqrt c).Tracks (f.call (atLeastTwo c)) := by
  cases c with
  | feed close => exact h.update sqrt close
  | clear => exact tracks_nil h.length h.cap rfl rfl rfl rfl
  | reset length => exact tracks_nil (reset_length length) rfl rfl rfl rfl rfl

theorem tracks_run (sqrt : α → α) (calls : List (StoreCall α)) :
    (Machine.run (call sqrt) inactive calls).Tracks
      (Machine.run Fed.call { size := 0 } (calls.map atLeastTwo)) := by
  have hinactive : (inactive : ChangeVolatilityIndicator α).Tracks { size := 0 } :=
    tracks_nil rfl rfl rfl rfl rfl rfl
  rw [Machine.run_map]
  exact Machine.run_simulates (R := Tracks) (fun _ _ c h => h.call sqrt c) hinactive calls

/-- The variance of a full buffer is that of its rates. -/
theorem Tracks.variance [IsStrictOrderedRing α] (h : i.Tracks f) (hfull : i.window.full = true) :
    i.sumsq / i.length - i.sum / i.length * (i.sum / i.length) =
      Series.variance i.window.contents := by
  obtain ⟨hcap, hlength⟩ := i.window.full_iff.mp hfull
  rw [h.cap] at hcap hlength
  have hne : ((i.window.contents.length : Nat) : α) ≠ 0 := by
    rw [hlength]
    exact Nat.cast_ne_zero.mpr hcap
  rw [Series.variance_eq hne, Series.mean, hlength, h.sum, h.sumsq]

end ChangeVolatilityIndicator

/-- **The sums are those of the window.** After any calls, closes of 0 among them, the sum of the
    moving average is that of its buffer, and the two sums of the volatility are those of the rates
    in its buffer and of their squares; these are the last rates that are defined. So the variance
    of a full buffer is never negative, and the deviation is its root without the clamp. -/
theorem sums_track [IsStrictOrderedRing α] (sqrt : α → α) :
    (∀ (length : Nat) (calls : List (StoreCall α)),
      let i := Machine.run Sma.call (.reset length) calls
      let f := Machine.run Fed.call { size := length } calls
      i.window.contents = f.values.rtake f.size ∧ i.sum = i.window.contents.sum) ∧
    ∀ calls : List (StoreCall α),
      let i := Machine.run (ChangeVolatilityIndicator.call sqrt) .inactive calls
      let f := Machine.run Fed.call { size := 0 }
        (calls.map ChangeVolatilityIndicator.atLeastTwo)
      i.length = f.size ∧
      i.window.contents = (ChangeVolatilityIndicator.returns f.values).rtake f.size ∧
      i.sum = i.window.contents.sum ∧
      i.sumsq = (i.window.contents.map (fun r => r * r)).sum ∧
      (i.window.full = true →
        0 ≤ i.sumsq / i.length - i.sum / i.length * (i.sum / i.length) ∧
        i.stdev_ sqrt = if i.length ≤ 2 then 0 else
          sqrt (i.sumsq / i.length - i.sum / i.length * (i.sum / i.length))) := by
  constructor
  · intro length calls i f
    have htracks := Sma.tracks_run length calls
    exact ⟨htracks.contents, htracks.sum⟩
  · intro calls i f
    have htracks : i.Tracks f := ChangeVolatilityIndicator.tracks_run sqrt calls
    refine ⟨htracks.length, ?_, htracks.sum, htracks.sumsq, fun hfull => ?_⟩
    · rw [htracks.contents, htracks.length]
    · have hvariance := htracks.variance hfull
      have hnonneg : 0 ≤ i.sumsq / i.length - i.sum / i.length * (i.sum / i.length) := by
        rw [hvariance]
        exact Series.variance_nonneg _
      refine ⟨hnonneg, ?_⟩
      have hcast : ((i.length : α) ≤ 2) ↔ i.length ≤ 2 := Nat.cast_le_ofNat
      unfold ChangeVolatilityIndicator.stdev_
      simp only [hcast, not_lt.mpr hnonneg, if_false]

/-- A close of 0 is skipped, and the buffer turns over. -/
theorem sums_track_skip :
    let i := Machine.run (ChangeVolatilityIndicator.call id)
      (.inactive : ChangeVolatilityIndicator ℚ)
      [.reset 3, .feed 100, .feed 110, .feed 0, .feed 50, .feed 25, .feed 50]
    i.sum = i.window.contents.sum ∧ i.sumsq = (i.window.contents.map (fun r => r * r)).sum ∧
      0 ≤ i.sumsq / i.length - i.sum / i.length * (i.sum / i.length) :=
  let h := (sums_track (α := ℚ) id).2
    [.reset 3, .feed 100, .feed 110, .feed 0, .feed 50, .feed 25, .feed 50]
  ⟨h.2.2.1, h.2.2.2.1, (h.2.2.2.2 (by decide +kernel)).1⟩

end
end CoinBot
