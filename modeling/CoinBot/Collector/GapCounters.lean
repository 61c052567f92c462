import CoinBot.Backtest.CandleGaps
import CoinBot.Collector.FindGaps
import Mathlib.Algebra.BigOperators.Ring.Finset

/- The two counters of missing candles.

   The backtest looks at neighbours of the stored times, the collector walks the grid and groups
   what it misses. As positions on the grid both describe the ranges between neighbours
   (`Ranges.between`): the rows of the backtest are these (`map_gapRows`), and the ranges of
   the collector have the same numbers and are apart, so they are these too (`map_ranges`). -/
namespace CoinBot.Collector
open Calendar Backtest

variable {unit : CandleUnit}

/-! The rows of the backtest. -/

/-- A pair of neighbours, in positions: the slots between them. -/
def slotsBetween (unit : CandleUnit) (row : DateTime × DateTime) : Nat × Nat :=
  (position unit row.1 + 1, position unit row.2 - 1)

theorem gapDelta_eq {s t : DateTime} (hs : OnGrid unit s) (ht : OnGrid unit t) :
    gapDelta (s, t) =
      60000000 * (unit.minutes * ((position unit t : Int) - position unit s)) := by
  have hs' : (s.elapsed : Int) = 60 * unit.minutes * position unit s := by
    rw [hs.elapsed_eq, CandleUnit.seconds]
    push_cast
    ring
  have ht' : (t.elapsed : Int) = 60 * unit.minutes * position unit t := by
    rw [ht.elapsed_eq, CandleUnit.seconds]
    push_cast
    ring
  rw [gapDelta, hs', ht', hs.microsecond, ht.microsecond]
  ring

theorem gapMinutes_eq {s t : DateTime} (hs : OnGrid unit s) (ht : OnGrid unit t) :
    gapMinutes (s, t) = unit.minutes * ((position unit t : Int) - position unit s) := by
  rw [gapMinutes, gapDelta_eq hs ht, Int.mul_ediv_cancel_left _ (by decide)]

theorem gapDelta_lt_iff {s t : DateTime} (hs : OnGrid unit s) (ht : OnGrid unit t) :
    60000000 * (unit.minutes : Int) < gapDelta (s, t) ↔
      position unit s + 1 < position unit t := by
  have hpos : (0 : Int) < unit.minutes := Int.natCast_pos.mpr unit.pos
  rw [gapDelta_eq hs ht]
  constructor
  · intro hlt
    have hmul : (unit.minutes : Int) * 1 <
        unit.minutes * ((position unit t : Int) - position unit s) := by omega
    have hone := lt_of_mul_lt_mul_left hmul (Int.le_of_lt hpos)
    omega
  · intro hlt
    have hone : (1 : Int) < (position unit t : Int) - position unit s := by omega
    have hmul := mul_lt_mul_of_pos_left hone hpos
    omega

theorem missingIn_eq {s t : DateTime} (hs : OnGrid unit s) (ht : OnGrid unit t)
    (hlt : position unit s + 1 < position unit t) :
    missingIn unit.minutes (s, t) = Ranges.size (slotsBetween unit (s, t)) ∧
    gapMinutes (s, t) = unit.minutes * ((Ranges.size (slotsBetween unit (s, t)) : Int) + 1) := by
  have hpos : (unit.minutes : Int) ≠ 0 := Int.natCast_ne_zero.mpr (Nat.ne_of_gt unit.pos)
  have hsize : (Ranges.size (slotsBetween unit (s, t)) : Int) =
      (position unit t : Int) - position unit s - 1 := by
    unfold Ranges.size slotsBetween
    dsimp only
    omega
  constructor
  · rw [missingIn, gapMinutes_eq hs ht, Int.mul_ediv_cancel_left _ hpos, hsize]
    omega
  · rw [gapMinutes_eq hs ht]
    congr 1
    omega

/-- In positions the rows are the ranges between neighbours. -/
theorem map_gapRows {index : List DateTime} (hgrid : ∀ t ∈ index, OnGrid unit t) :
    (gapRows index unit.minutes).map (slotsBetween unit) =
      Ranges.between (index.map (position unit)) := by
  induction index with
  | nil => rfl
  | cons s index ih =>
    have hrest := ih (fun t ht => hgrid t (List.mem_cons_of_mem s ht))
    cases index with
    | nil => rfl
    | cons t index =>
      have hs := hgrid s List.mem_cons_self
      have ht := hgrid t (List.mem_cons_of_mem s List.mem_cons_self)
      have hsteps : gapRows (s :: t :: index) unit.minutes =
          (if 60000000 * (unit.minutes : Int) < gapDelta (s, t) then [(s, t)] else []) ++
            gapRows (t :: index) unit.minutes := by
        unfold gapRows
        have hcons : Series.steps Prod.mk (s :: t :: index) =
            (s, t) :: Series.steps Prod.mk (t :: index) := rfl
        rw [hcons, List.filter_cons]
        by_cases h : 60000000 * (unit.minutes : Int) < gapDelta (s, t)
        · simp [h]
        · simp [h]
      have hbetween : Ranges.between ((s :: t :: index).map (position unit)) =
          (Ranges.gap (position unit s) (position unit t)).toList ++
            Ranges.between ((t :: index).map (position unit)) := rfl
      rw [hsteps, List.map_append, hrest, hbetween]
      congr 1
      simp only [gapDelta_lt_iff hs ht, Ranges.gap]
      split <;> rfl

/-- A row of the backtest is a pair of slots with others between them. -/
theorem onGrid_gapRows {index : List DateTime} (hgrid : ∀ t ∈ index, OnGrid unit t)
    {row : DateTime × DateTime} (hrow : row ∈ gapRows index unit.minutes) :
    OnGrid unit row.1 ∧ OnGrid unit row.2 ∧
      position unit row.1 + 1 < position unit row.2 := by
  obtain ⟨hmem, hfar⟩ := List.mem_filter.mp hrow
  obtain ⟨hs, ht⟩ : row.1 ∈ index ∧ row.2 ∈ index := by
    rw [Series.steps, ← List.zip_eq_zipWith] at hmem
    have hzip := List.of_mem_zip (a := row.1) (b := row.2) hmem
    exact ⟨hzip.1, List.mem_of_mem_tail hzip.2⟩
  have hs := hgrid _ hs
  have ht := hgrid _ ht
  exact ⟨hs, ht, (gapDelta_lt_iff hs ht).mp (of_decide_eq_true hfar)⟩

theorem detectCandleGaps_counts {index : List DateTime} (hgrid : ∀ t ∈ index, OnGrid unit t) :
    let ranges := Ranges.between (index.map (position unit))
    (detectCandleGaps index unit.minutes).gapCount = ranges.length ∧
    (detectCandleGaps index unit.minutes).missingCandles =
      (ranges.map fun r => (Ranges.size r : Int)).sum ∧
    (detectCandleGaps index unit.minutes).maxGapMinutes =
      (ranges.map fun r => (unit.minutes : Int) * (Ranges.size r + 1)).foldl max 0 := by
  intro ranges
  have hpos : (0 : Int) < unit.minutes := Int.natCast_pos.mpr unit.pos
  have hranges : ranges = (gapRows index unit.minutes).map (slotsBetween unit) :=
    (map_gapRows hgrid).symm
  rw [detectCandleGaps_eq index hpos, hranges]
  have hrow : ∀ row ∈ gapRows index unit.minutes,
      missingIn unit.minutes row = Ranges.size (slotsBetween unit row) ∧
      gapMinutes row = unit.minutes * ((Ranges.size (slotsBetween unit row) : Int) + 1) := by
    intro row hmem
    obtain ⟨hs, ht, hlt⟩ := onGrid_gapRows hgrid hmem
    exact missingIn_eq hs ht hlt
  rw [List.map_map, List.map_map]
  refine ⟨(List.length_map _).symm, ?_, ?_⟩
  · exact congrArg List.sum (List.map_congr_left fun row hmem => (hrow row hmem).1)
  · exact congrArg (List.foldl max 0) (List.map_congr_left fun row hmem => (hrow row hmem).2)

/-! The ranges of the collector. -/

/-- A range of slots, in positions. -/
def slotRange (unit : CandleUnit) (r : DateTime × DateTime) : Nat × Nat :=
  (position unit r.1, position unit r.2)

theorem OnGrid.position_mul_lt {t : DateTime} (ht : OnGrid unit t) {k : Nat}
    (hk : k ≤ position unit t) : unit.seconds * k < endOfTime := by
  have hle := Nat.mul_le_mul_left unit.seconds hk
  rw [← ht.elapsed_eq] at hle
  exact Nat.lt_of_le_of_lt hle t.elapsed_lt

theorem exists_slot {k : Nat} (hk : unit.seconds * k < endOfTime) :
    ∃ t, OnGrid unit t ∧ position unit t = k := by
  let t : DateTime := ⟨unit.seconds * k, 0, hk, by decide⟩
  refine ⟨t, onGrid_iff.mpr ⟨rfl, Nat.dvd_mul_right _ _⟩, ?_⟩
  exact Nat.mul_div_cancel_left k unit.seconds_pos

theorem ncard_slots {P : Nat → Prop} (hP : ∀ k, P k → unit.seconds * k < endOfTime) :
    {t | OnGrid unit t ∧ P (position unit t)}.ncard = {k | P k}.ncard := by
  have himage : position unit '' {t | OnGrid unit t ∧ P (position unit t)} = {k | P k} := by
    ext k
    constructor
    · rintro ⟨t, ⟨-, ht⟩, rfl⟩
      exact ht
    · intro hk
      obtain ⟨t, ht, rfl⟩ := exists_slot (hP k hk)
      exact ⟨t, ⟨ht, hk⟩, rfl⟩
  have hinj : Set.InjOn (position unit) {t | OnGrid unit t ∧ P (position unit t)} := by
    intro s hs t ht heq
    exact (hs.1.position_inj ht.1).mp heq
  rw [← himage, hinj.ncard_image]

theorem apart_ranges {ranges : List (DateTime × DateTime)}
    (hends : ∀ r ∈ ranges, OnGrid unit r.1 ∧ OnGrid unit r.2 ∧ r.1 ≤ r.2)
    (hseparate : ranges.Pairwise (fun r q => r.2.elapsed + unit.seconds < q.1.elapsed)) :
    Ranges.Apart (ranges.map (slotRange unit)) where
  le := by
    intro p hp
    obtain ⟨r, hr, rfl⟩ := List.mem_map.mp hp
    obtain ⟨h1, h2, hle⟩ := hends r hr
    exact (h1.position_le h2).mpr (h1.le_iff.mp hle)
  lt := by
    rw [List.pairwise_map]
    refine hseparate.imp_of_mem fun {r q} hr hq hlt => ?_
    have hr := (hends r hr).2.1
    have hq := (hends q hq).1
    rw [hr.elapsed_eq, hq.elapsed_eq, ← Nat.mul_succ] at hlt
    exact Nat.lt_of_mul_lt_mul_left hlt

theorem mem_slotRanges {ranges : List (DateTime × DateTime)} {k : Nat} :
    Ranges.Mem (ranges.map (slotRange unit)) k ↔
      ∃ r ∈ ranges, position unit r.1 ≤ k ∧ k ≤ position unit r.2 := by
  unfold Ranges.Mem
  constructor
  · rintro ⟨p, hp, hk⟩
    obtain ⟨r, hr, rfl⟩ := List.mem_map.mp hp
    exact ⟨r, hr, hk⟩
  · rintro ⟨r, hr, hk⟩
    exact ⟨slotRange unit r, List.mem_map_of_mem hr, hk⟩

section
variable {index : List DateTime} {first last : DateTime}

theorem sorted_positions (hgrid : ∀ t ∈ index, OnGrid unit t)
    (hsorted : index.Pairwise (·.elapsed < ·.elapsed)) :
    (index.map (position unit)).Pairwise (· < ·) := by
  rw [List.pairwise_map]
  exact hsorted.imp_of_mem fun hs ht hlt => ((hgrid _ hs).position_lt (hgrid _ ht)).mpr hlt

theorem mem_between_positions (hgrid : ∀ t ∈ index, OnGrid unit t)
    (hsorted : index.Pairwise (·.elapsed < ·.elapsed)) (hfirst : index.head? = some first)
    (hlast : index.getLast? = some last) (k : Nat) :
    Ranges.Mem (Ranges.between (index.map (position unit))) k ↔
      position unit first ≤ k ∧ k ≤ position unit last ∧ k ∉ index.map (position unit) := by
  obtain ⟨rest, rfl⟩ : ∃ rest, index = first :: rest := by
    cases index with
    | nil => cases hfirst
    | cons x rest => exact ⟨rest, by rw [Option.some.inj hfirst]⟩
  have hend : ((first :: rest).map (position unit)).getLast? = some (position unit last) := by
    rw [List.getLast?_map, hlast]
    rfl
  exact Ranges.mem_between (sorted_positions hgrid hsorted) hend k

theorem mem_positions (hgrid : ∀ t ∈ index, OnGrid unit t) {t : DateTime} (ht : OnGrid unit t) :
    position unit t ∈ index.map (position unit) ↔ t ∈ index := by
  rw [List.mem_map]
  constructor
  · rintro ⟨s, hs, heq⟩
    exact ((hgrid s hs).position_inj ht).mp heq ▸ hs
  · intro hmem
    exact ⟨t, hmem, rfl⟩

/-- The ranges of the collector, in positions, are those between neighbours. -/
theorem map_ranges (hgrid : ∀ t ∈ index, OnGrid unit t)
    (hsorted : index.Pairwise (·.elapsed < ·.elapsed)) (hfirst : index.head? = some first)
    (hlast : index.getLast? = some last) {ranges : List (DateTime × DateTime)}
    (hends : ∀ r ∈ ranges, OnGrid unit r.1 ∧ OnGrid unit r.2 ∧ r.1 ≤ r.2)
    (hseparate : ranges.Pairwise (fun r q => r.2.elapsed + unit.seconds < q.1.elapsed))
    (hcovers : ∀ t, OnGrid unit t → ((∃ r ∈ ranges, r.1 ≤ t ∧ t ≤ r.2) ↔
      first.elapsed ≤ t.elapsed ∧ t.elapsed ≤ last.elapsed ∧ t ∉ index)) :
    ranges.map (slotRange unit) = Ranges.between (index.map (position unit)) := by
  have hf := hgrid first (List.mem_of_mem_head? hfirst)
  have hl := hgrid last (List.mem_of_getLast? hlast)
  refine (apart_ranges hends hseparate).ext
    (Ranges.apart_between (sorted_positions hgrid hsorted)) fun k => ?_
  rw [mem_slotRanges, mem_between_positions hgrid hsorted hfirst hlast]
  by_cases hk : unit.seconds * k < endOfTime
  · obtain ⟨t, ht, rfl⟩ := exists_slot hk
    rw [hf.position_le ht, ht.position_le hl, mem_positions hgrid ht, ← hcovers t ht]
    refine exists_congr fun r => and_congr_right fun hr => ?_
    obtain ⟨h1, h2, -⟩ := hends r hr
    rw [h1.position_le ht, ht.position_le h2, h1.le_iff, ht.le_iff]
  · -- The calendar has no such slot.
    refine iff_of_false ?_ fun hmem => hk (hl.position_mul_lt hmem.2.1)
    rintro ⟨r, hr, -, hle⟩
    exact hk ((hends r hr).2.1.position_mul_lt hle)

end

/-! What the claims of the two have in common. -/

/-- The slots of a range, as the collector writes it. -/
def slots (unit : CandleUnit) (gap : String × String) : Set DateTime :=
  {t | OnGrid unit t ∧ gap.1 ≤ t.strftime ∧ t.strftime ≤ gap.2}

theorem mem_slots {r : DateTime × DateTime} (h1 : OnGrid unit r.1) (h2 : OnGrid unit r.2)
    {t : DateTime} (ht : OnGrid unit t) : t ∈ slots unit (rangeText r) ↔
      position unit r.1 ≤ position unit t ∧ position unit t ≤ position unit r.2 := by
  rw [h1.position_le ht, ht.position_le h2, ← DateTime.strftime_le_iff,
    ← DateTime.strftime_le_iff]
  exact and_iff_right ht

theorem ncard_slots_rangeText {r : DateTime × DateTime} (h1 : OnGrid unit r.1)
    (h2 : OnGrid unit r.2) :
    (slots unit (rangeText r)).ncard = Ranges.size (slotRange unit r) := by
  have hset : slots unit (rangeText r) = {t | OnGrid unit t ∧
      position unit r.1 ≤ position unit t ∧ position unit t ≤ position unit r.2} := by
    ext t
    constructor
    · intro hmem
      exact ⟨hmem.1, (mem_slots h1 h2 hmem.1).mp hmem⟩
    · rintro ⟨ht, hmem⟩
      exact (mem_slots h1 h2 ht).mpr hmem
  have hcount := ncard_slots (P := fun k => position unit r.1 ≤ k ∧ k ≤ position unit r.2)
    (fun k hk => h2.position_mul_lt hk.2)
  rw [hset]
  exact hcount.trans (Ranges.ncard_range (slotRange unit r))

theorem ncard_allSlots {ranges : List (DateTime × DateTime)}
    (hends : ∀ r ∈ ranges, OnGrid unit r.1 ∧ OnGrid unit r.2 ∧ r.1 ≤ r.2)
    (hseparate : ranges.Pairwise (fun r q => r.2.elapsed + unit.seconds < q.1.elapsed)) :
    {t | ∃ gap ∈ ranges.map rangeText, t ∈ slots unit gap}.ncard =
      ((ranges.map (slotRange unit)).map Ranges.size).sum := by
  have hset : {t | ∃ gap ∈ ranges.map rangeText, t ∈ slots unit gap} =
      {t | OnGrid unit t ∧ Ranges.Mem (ranges.map (slotRange unit)) (position unit t)} := by
    ext t
    constructor
    · rintro ⟨gap, hgap, hmem⟩
      obtain ⟨r, hr, rfl⟩ := List.mem_map.mp hgap
      obtain ⟨h1, h2, -⟩ := hends r hr
      exact ⟨hmem.1, mem_slotRanges.mpr ⟨r, hr, (mem_slots h1 h2 hmem.1).mp hmem⟩⟩
    · rintro ⟨ht, hmem⟩
      obtain ⟨r, hr, hbounds⟩ := mem_slotRanges.mp hmem
      obtain ⟨h1, h2, -⟩ := hends r hr
      exact ⟨rangeText r, List.mem_map_of_mem hr, (mem_slots h1 h2 ht).mpr hbounds⟩
  rw [hset, ncard_slots, (apart_ranges hends hseparate).ncard]
  intro k hk
  obtain ⟨r, hr, -, hle⟩ := mem_slotRanges.mp hk
  exact (hends r hr).2.1.position_mul_lt hle

/-! Agreement. -/

/-- The rows of the market and the unit are those of the times. -/
def StoredSet {α : Type} (table : CandleTable α) (market : String) (unit : CandleUnit)
    (index : List DateTime) : Prop :=
  ∀ text, (∃ row ∈ table.rows, row.market = market ∧ row.unit = unit.minutes ∧ row.ts = text) ↔
    ∃ t ∈ index, t.strftime = text

/-- The summary of the backtest is that of the ranges of the collector. -/
structure Agree (unit : CandleUnit) (q : DataQuality) (gaps : List (String × String)) : Prop where
  missing : q.missingCandles = ({t | ∃ gap ∈ gaps, t ∈ slots unit gap}.ncard : Nat)
  count : q.gapCount = gaps.length
  longest : gaps ≠ [] → ∃ gap ∈ gaps,
    (∀ other ∈ gaps, (slots unit other).ncard ≤ (slots unit gap).ncard) ∧
      q.maxGapMinutes = unit.minutes * ((slots unit gap).ncard + 1)
  empty : gaps = [] → q = {}

theorem StoredSet.stored_iff {α : Type} {table : CandleTable α} {market : String}
    {index : List DateTime} (h : StoredSet table market unit index)
    (hgrid : ∀ t ∈ index, OnGrid unit t) {t : DateTime} (ht : OnGrid unit t) :
    Stored table market unit t ↔ t ∈ index := by
  refine (h t.strftime).trans ⟨?_, fun hmem => ⟨t, hmem, rfl⟩⟩
  rintro ⟨s, hs, htext⟩
  have hle := DateTime.strftime_le_iff.mp (le_of_eq htext)
  have hge := DateTime.strftime_le_iff.mp (le_of_eq htext.symm)
  obtain rfl := (hgrid s hs).eq_of_elapsed ht (Nat.le_antisymm hle hge)
  exact hs

theorem foldl_max_minutes (unit : CandleUnit) {ranges : List (Nat × Nat)} (hsome : ranges ≠ []) :
    ∃ r ∈ ranges, (∀ q ∈ ranges, Ranges.size q ≤ Ranges.size r) ∧
      (ranges.map fun r => (unit.minutes : Int) * (Ranges.size r + 1)).foldl max 0 =
        unit.minutes * (Ranges.size r + 1) := by
  have hpos : (0 : Int) < unit.minutes := Int.natCast_pos.mpr unit.pos
  have hmap : (ranges.map fun r => (unit.minutes : Int) * (Ranges.size r + 1)) ≠ [] :=
    mt List.map_eq_nil_iff.mp hsome
  obtain ⟨hmem, hlargest⟩ := (List.max_eq_iff hmap).mp rfl
  obtain ⟨r, hr, heq⟩ := List.mem_map.mp hmem
  refine ⟨r, hr, fun q hq => ?_, ?_⟩
  · have hle := hlargest _ (List.mem_map_of_mem hq)
    rw [← heq] at hle
    have hle := le_of_mul_le_mul_left hle hpos
    omega
  · rw [List.foldl_max_eq_max hmap, ← heq]
    exact max_eq_right (Int.mul_nonneg (Int.le_of_lt hpos) (by omega))

section
variable {α : Type} {table : CandleTable α} {market : String} {index : List DateTime}
  {first last : DateTime}

/-- Ranges that cover what is missing agree with the summary of the backtest. -/
theorem agree_of_exactGaps (hgrid : ∀ t ∈ index, OnGrid unit t)
    (hsorted : index.Pairwise (·.elapsed < ·.elapsed)) (hfirst : index.head? = some first)
    (hlast : index.getLast? = some last) (hstored : StoredSet table market unit index)
    {gaps : List (String × String)} (hexact : ExactGaps table market unit first last gaps) :
    Agree unit (detectCandleGaps index unit.minutes) gaps := by
  obtain ⟨ranges, rfl, hends, hseparate, hcovers⟩ := hexact
  have hbetween := map_ranges hgrid hsorted hfirst hlast hends hseparate fun t ht => by
    rw [hcovers t ht, hstored.stored_iff hgrid ht]
  obtain ⟨hcount, hmissing, hlongest⟩ := detectCandleGaps_counts hgrid
  rw [← hbetween] at hcount hmissing hlongest
  refine ⟨?_, ?_, ?_, ?_⟩
  · rw [hmissing, ncard_allSlots hends hseparate, Nat.cast_list_sum,
      List.map_map (l := ranges.map (slotRange unit))]
    rfl
  · rw [hcount, List.length_map, List.length_map]
  · intro hsome
    have hsome : ranges.map (slotRange unit) ≠ [] := by simpa using hsome
    obtain ⟨p, hp, hmost, hfold⟩ := foldl_max_minutes unit hsome
    obtain ⟨r, hr, rfl⟩ := List.mem_map.mp hp
    have hcard : ∀ q ∈ ranges,
        (slots unit (rangeText q)).ncard = Ranges.size (slotRange unit q) := by
      intro q hq
      obtain ⟨h1, h2, -⟩ := hends q hq
      exact ncard_slots_rangeText h1 h2
    refine ⟨rangeText r, List.mem_map_of_mem hr, fun other hother => ?_, ?_⟩
    · obtain ⟨q, hq, rfl⟩ := List.mem_map.mp hother
      rw [hcard q hq, hcard r hr]
      exact hmost _ (List.mem_map_of_mem hq)
    · rw [hlongest, hfold, hcard r hr]
  · intro hnone
    have hrows : gapRows index unit.minutes = [] := by
      rw [← List.map_eq_nil_iff (f := slotsBetween unit), map_gapRows hgrid, ← hbetween,
        List.map_eq_nil_iff.mp hnone, List.map_nil]
    rw [detectCandleGaps_eq index (Int.natCast_pos.mpr unit.pos), hrows]
    rfl

/-- From the first stored time on, the collector answers unless it walks past the calendar. -/
theorem regular_iff (hfirst : OnGrid unit first) (hle : first.elapsed ≤ last.elapsed) :
    Regular unit first last ↔ last.elapsed + unit.seconds < endOfTime := by
  have hboundary : boundary unit first ≤ first.elapsed :=
    (boundary_le unit first (onGrid_iff.mp hfirst).2).mpr (Nat.sub_le _ _)
  constructor
  · intro hregular
    rcases hregular.walked with hbefore | hfits
    · omega
    · exact hfits
  · intro hfits
    exact ⟨.inl hfirst.second, Nat.lt_of_le_of_lt hboundary first.elapsed_lt, .inr hfits⟩

theorem first_le_last (hsorted : index.Pairwise (·.elapsed < ·.elapsed))
    (hfirst : index.head? = some first) (hlast : index.getLast? = some last) :
    first.elapsed ≤ last.elapsed := by
  cases index with
  | nil => cases hfirst
  | cons t rest =>
    obtain rfl := Option.some.inj hfirst
    exact Ranges.position_head_le (·.elapsed) hsorted (List.mem_of_getLast? hlast)

theorem agree_iff (hgrid : ∀ t ∈ index, OnGrid unit t)
    (hsorted : index.Pairwise (·.elapsed < ·.elapsed)) (hfirst : index.head? = some first)
    (hlast : index.getLast? = some last) (hstored : StoredSet table market unit index) :
    (∃ gaps, findGaps table market unit first.strftime last.strftime = .ok gaps ∧
      Agree unit (detectCandleGaps index unit.minutes) gaps) ↔
    last.elapsed + unit.seconds < endOfTime := by
  have hgridFirst := hgrid first (List.mem_of_mem_head? hfirst)
  rw [← regular_iff hgridFirst (first_le_last hsorted hfirst hlast)]
  constructor
  · rintro ⟨gaps, hcode, -⟩
    obtain ⟨hrounded, hwalked⟩ := inCalendar_of_ok hcode
    exact ⟨.inl hgridFirst.second, hrounded, hwalked⟩
  · intro hregular
    obtain ⟨gaps, hcode, hexact⟩ : ∃ gaps,
        findGaps table market unit first.strftime last.strftime = .ok gaps ∧
          ExactGaps table market unit first last gaps := exactGaps_of_regular hregular
    exact ⟨gaps, hcode, agree_of_exactGaps hgrid hsorted hfirst hlast hstored hexact⟩

end

/-! A table of a series of times, and two series: one with a gap, and the last two quarters of
    an hour of the calendar. -/

def rowAt (market : String) (unit : CandleUnit) (t : DateTime) : CandleRow Nat where
  market := market
  ts := t.strftime
  openPrice := 100
  high := 110
  low := 90
  close := 105
  volume := 7
  unit := unit.minutes

def tableOf (market : String) (unit : CandleUnit) (index : List DateTime)
    (hsorted : index.Pairwise (·.elapsed < ·.elapsed)) : CandleTable Nat where
  rows := index.map (rowAt market unit)
  unique := by
    rw [List.map_map]
    refine List.pairwise_map.mpr (hsorted.imp fun {s t} hlt heq => ?_)
    have htext : s.strftime = t.strftime := congrArg (·.2.1) heq
    have hle := DateTime.strftime_le_iff.mp (le_of_eq htext.symm)
    omega

theorem storedSet_tableOf (market : String) (unit : CandleUnit) (index : List DateTime)
    (hsorted : index.Pairwise (·.elapsed < ·.elapsed)) :
    StoredSet (tableOf market unit index hsorted) market unit index := by
  intro text
  constructor
  · rintro ⟨row, hrow, -, -, htext⟩
    obtain ⟨t, ht, rfl⟩ := List.mem_map.mp hrow
    exact ⟨t, ht, htext⟩
  · rintro ⟨t, ht, htext⟩
    exact ⟨rowAt market unit t, List.mem_map_of_mem ht, rfl, rfl, htext⟩

/-- The start of a quarter of an hour, counted from the first day. -/
def quarter (k : Nat) (h : 900 * k < endOfTime) : DateTime where
  elapsed := 900 * k
  microsecond := 0
  elapsed_lt := h
  microsecond_lt := halfPast.microsecond_lt

theorem onGrid_quarter (k : Nat) (h : 900 * k < endOfTime) :
    OnGrid quarterHour (quarter k h) :=
  onGrid_iff.mpr ⟨rfl, Nat.dvd_mul_right 900 k⟩

/-- The first hour of 2024, without its third quarter and its fourth. -/
def withGap : List DateTime :=
  [quarter 70932960 (by decide), quarter 70932961 (by decide), quarter 70932964 (by decide)]

example : withGap.map (·.strftime) =
    ["2024-01-01T00:00:00", "2024-01-01T00:15:00", "2024-01-01T01:00:00"] := by decide +kernel

theorem withGap_sorted : withGap.Pairwise (·.elapsed < ·.elapsed) := by decide

theorem agree_iff_withGap :
    ∃ gaps, findGaps (tableOf "KRW-ADA" quarterHour withGap withGap_sorted) "KRW-ADA" quarterHour
        "2024-01-01T00:00:00" "2024-01-01T01:00:00" = .ok gaps ∧
      Agree quarterHour (detectCandleGaps withGap 15) gaps := by
  have hhead : withGap.head? = some (quarter 70932960 (by decide)) := rfl
  have hgetLast : withGap.getLast? = some (quarter 70932964 (by decide)) := rfl
  have hagree := agree_iff (by simp [withGap, onGrid_quarter]) withGap_sorted hhead hgetLast
    (storedSet_tableOf "KRW-ADA" quarterHour withGap withGap_sorted)
  have hfirst : (quarter 70932960 (by decide)).strftime = "2024-01-01T00:00:00" := by
    decide +kernel
  have hlast : (quarter 70932964 (by decide)).strftime = "2024-01-01T01:00:00" := by
    decide +kernel
  rw [hfirst, hlast] at hagree
  exact hagree.mpr (by decide)

/-- The last half hour of the calendar. -/
def lastHalfHour : List DateTime :=
  [quarter 350597662 (by decide), quarter 350597663 (by decide)]

example : lastHalfHour.map (·.strftime) = ["9999-12-31T23:30:00", "9999-12-31T23:45:00"] := by
  decide +kernel

theorem lastHalfHour_sorted : lastHalfHour.Pairwise (·.elapsed < ·.elapsed) := by decide

theorem not_agree_lastHalfHour :
    ¬ ∀ (table : CandleTable Nat) (market : String) (unit : CandleUnit) (index : List DateTime)
        (first last : DateTime), 2 ≤ index.length → (∀ t ∈ index, OnGrid unit t) →
      index.Pairwise (·.elapsed < ·.elapsed) → index.head? = some first →
      index.getLast? = some last → StoredSet table market unit index →
      ∃ gaps, findGaps table market unit first.strftime last.strftime = .ok gaps ∧
        Agree unit (detectCandleGaps index unit.minutes) gaps := by
  intro hclaim
  obtain ⟨gaps, hcode, -⟩ := hclaim (tableOf "KRW-ADA" quarterHour lastHalfHour lastHalfHour_sorted)
    "KRW-ADA" quarterHour lastHalfHour (quarter 350597662 (by decide))
    (quarter 350597663 (by decide)) (by decide) (by simp [lastHalfHour, onGrid_quarter])
    lastHalfHour_sorted rfl rfl
    (storedSet_tableOf "KRW-ADA" quarterHour lastHalfHour lastHalfHour_sorted)
  rw [findGaps_overflow _ _ (.inr (by decide))] at hcode
  cases hcode

end CoinBot.Collector
