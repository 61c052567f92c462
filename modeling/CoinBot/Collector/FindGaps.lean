import CoinBot.Collector.FetchCandles
import CoinBot.Lib.Ranges

/- `find_gaps`: the slots of the grid that are not stored, as ranges.

   The loop walks the grid from the first slot on, and what it finds missing is grouped to
   ranges. The start is rounded up to the grid after its seconds were cut off; so a start
   behind a slot by seconds alone is rounded down to it. -/
namespace CoinBot.Collector
open Calendar

/-! The grid. -/

def CandleUnit.seconds (unit : CandleUnit) : Nat := 60 * unit.minutes

/-- A start of a candle, counted from midnight. -/
structure OnGrid (unit : CandleUnit) (t : DateTime) : Prop where
  microsecond : t.microsecond = 0
  second : t.second = 0
  aligned : totalMinutes t % unit.minutes = 0

section
variable {unit : CandleUnit} {s t u : DateTime}

theorem CandleUnit.seconds_pos (unit : CandleUnit) : 0 < unit.seconds :=
  Nat.mul_pos (by omega) unit.pos

theorem CandleUnit.dvd_day (unit : CandleUnit) : unit.seconds ∣ secondsPerDay :=
  Nat.mul_dvd_mul_left 60 unit.dvd

theorem CandleUnit.dvd_endOfTime (unit : CandleUnit) : unit.seconds ∣ endOfTime :=
  Nat.dvd_mul_right_of_dvd unit.dvd_day _

theorem totalMinutes_eq (t : DateTime) : totalMinutes t = t.elapsed / 60 % 1440 := by
  unfold totalMinutes DateTime.hour DateTime.minute
  omega

theorem totalMinutes_mod (unit : CandleUnit) (t : DateTime) :
    totalMinutes t % unit.minutes = t.elapsed / 60 % unit.minutes := by
  rw [totalMinutes_eq, Nat.mod_mod_of_dvd _ unit.dvd]

theorem onGrid_iff : OnGrid unit t ↔ t.microsecond = 0 ∧ unit.seconds ∣ t.elapsed := by
  have hsplit : t.elapsed = 60 * (t.elapsed / 60) + t.second := (Nat.div_add_mod _ _).symm
  have hlt := t.second_lt
  constructor
  · rintro ⟨hmicro, hsecond, haligned⟩
    refine ⟨hmicro, ?_⟩
    rw [totalMinutes_mod] at haligned
    rw [hsplit, hsecond, Nat.add_zero]
    exact Nat.mul_dvd_mul_left 60 (Nat.dvd_of_mod_eq_zero haligned)
  · rintro ⟨hmicro, hdvd⟩
    have hsixty : 60 ∣ t.elapsed := Nat.dvd_trans (Nat.dvd_mul_right 60 _) hdvd
    have hsecond : t.second = 0 := Nat.mod_eq_zero_of_dvd hsixty
    refine ⟨hmicro, hsecond, ?_⟩
    rw [totalMinutes_mod]
    rw [hsplit, hsecond, Nat.add_zero] at hdvd
    exact Nat.mod_eq_zero_of_dvd (Nat.dvd_of_mul_dvd_mul_left (by omega) hdvd)

theorem OnGrid.eq_of_elapsed (hs : OnGrid unit s) (ht : OnGrid unit t)
    (h : s.elapsed = t.elapsed) : s = t :=
  DateTime.ext h (hs.microsecond.trans ht.microsecond.symm)

theorem OnGrid.le_iff (hs : OnGrid unit s) : s ≤ t ↔ s.elapsed ≤ t.elapsed :=
  DateTime.le_iff_elapsed hs.microsecond

theorem OnGrid.next_le (hs : OnGrid unit s) {n : Nat} (hn : unit.seconds ∣ n)
    (hlt : s.elapsed < n) : s.elapsed + unit.seconds ≤ n := by
  have hdvd : unit.seconds ∣ n - s.elapsed := Nat.dvd_sub hn (onGrid_iff.mp hs).2
  have hle := Nat.le_of_dvd (by omega) hdvd
  omega

theorem OnGrid.next (hs : OnGrid unit s) (h : addMinutes s unit.minutes = .ok t) :
    OnGrid unit t ∧ t.elapsed = s.elapsed + unit.seconds := by
  obtain ⟨helapsed, hmicro⟩ := addMinutes_eq_ok h
  have heq : t.elapsed = s.elapsed + unit.seconds := by
    unfold CandleUnit.seconds
    omega
  refine ⟨onGrid_iff.mpr ⟨hmicro.trans hs.microsecond, ?_⟩, heq⟩
  rw [heq]
  exact Nat.dvd_add (onGrid_iff.mp hs).2 (Nat.dvd_refl _)

theorem no_next {e : CollectorError} (h : addMinutes s unit.minutes = .error e) :
    endOfTime ≤ s.elapsed + unit.seconds := by
  have hout := (addMinutes_eq_error h).2
  unfold CandleUnit.seconds
  omega

end

/-! The loop. -/

section
variable {existing : List String} {unit : CandleUnit} {last : DateTime}

/-- The loop finds the slots up to `last` that are not stored, in order. -/
theorem missingTs_spec {t : DateTime} (ht : OnGrid unit t)
    (hfits : last.elapsed < t.elapsed ∨ last.elapsed + unit.seconds < endOfTime) :
    ∃ slots : List DateTime,
      missingTs existing unit last t = .ok (slots.map (·.strftime)) ∧
      slots.Pairwise (·.elapsed < ·.elapsed) ∧
      ∀ s, s ∈ slots ↔ OnGrid unit s ∧ t.elapsed ≤ s.elapsed ∧ s.elapsed ≤ last.elapsed ∧
        s.strftime ∉ existing := by
  fun_induction missingTs existing unit last t with
  | case1 t hle e hnext =>
    have hout := no_next hnext
    have hle := ht.le_iff.mp hle
    omega
  | case2 t hle next hnext e hrest ih =>
    obtain ⟨hgrid, helapsed⟩ := ht.next hnext
    have hle := ht.le_iff.mp hle
    obtain ⟨slots, hslots, -⟩ := ih hgrid (.inr (by omega))
    cases hrest.symm.trans hslots
  | case3 t hle next hnext missing hrest ih =>
    obtain ⟨hgrid, helapsed⟩ := ht.next hnext
    have hle := ht.le_iff.mp hle
    have hpos := unit.seconds_pos
    obtain ⟨slots, hslots, hsorted, hmem⟩ := ih hgrid (.inr (by omega))
    obtain rfl : missing = slots.map (·.strftime) := Except.ok.inj (hrest.symm.trans hslots)
    -- A slot from `t` on is `t` or one from the next one on.
    have hcases : ∀ s, OnGrid unit s →
        (t.elapsed ≤ s.elapsed ↔ s = t ∨ next.elapsed ≤ s.elapsed) := by
      intro s hs
      constructor
      · intro hge
        rcases Nat.lt_or_eq_of_le hge with hlt | heq
        · exact .inr (helapsed ▸ ht.next_le (onGrid_iff.mp hs).2 hlt)
        · exact .inl (hs.eq_of_elapsed ht heq.symm)
      · rintro (rfl | hge)
        · exact Nat.le_refl _
        · omega
    by_cases hstored : t.strftime ∈ existing
    · refine ⟨slots, by rw [if_pos hstored], hsorted, fun s => ?_⟩
      rw [hmem]
      refine and_congr_right fun hs => ?_
      rw [hcases s hs]
      constructor
      · rintro ⟨hge, hlast, hnew⟩
        exact ⟨.inr hge, hlast, hnew⟩
      · rintro ⟨rfl | hge, hlast, hnew⟩
        · exact absurd hstored hnew
        · exact ⟨hge, hlast, hnew⟩
    · refine ⟨t :: slots, by rw [if_neg hstored]; rfl, ?_, fun s => ?_⟩
      · refine List.pairwise_cons.mpr ⟨fun s hs => ?_, hsorted⟩
        have hge := ((hmem s).mp hs).2.1
        omega
      · rw [List.mem_cons, hmem]
        constructor
        · rintro (rfl | ⟨hs, hge, hlast, hnew⟩)
          · exact ⟨ht, Nat.le_refl _, hle, hstored⟩
          · exact ⟨hs, (hcases s hs).mpr (.inr hge), hlast, hnew⟩
        · rintro ⟨hs, hge, hlast, hnew⟩
          exact ((hcases s hs).mp hge).imp_right fun hge => ⟨hs, hge, hlast, hnew⟩
  | case4 t hlt =>
    refine ⟨[], rfl, List.Pairwise.nil, fun s => ?_⟩
    have hlt : ¬ t.elapsed ≤ last.elapsed := fun h => hlt (ht.le_iff.mpr h)
    simp only [List.not_mem_nil, false_iff]
    omega

/-- If `last` is behind the last slot of the calendar, it is behind every slot. -/
theorem next_le_last {t next : DateTime} (hend : endOfTime ≤ last.elapsed + unit.seconds)
    (ht : OnGrid unit t) (hnext : addMinutes t unit.minutes = .ok next) :
    next.elapsed ≤ last.elapsed := by
  have hle := (ht.next hnext).1.next_le unit.dvd_endOfTime next.elapsed_lt
  omega

theorem missingTs_overflow {t : DateTime} (ht : OnGrid unit t) (hle : t.elapsed ≤ last.elapsed)
    (hend : endOfTime ≤ last.elapsed + unit.seconds) :
    missingTs existing unit last t = .error .overflowError := by
  fun_induction missingTs existing unit last t with
  | case1 t _ e hnext => rw [(addMinutes_eq_error hnext).1]
  | case2 t _ next hnext e hrest ih =>
    exact hrest.symm.trans (ih (ht.next hnext).1 (next_le_last hend ht hnext))
  | case3 t _ next hnext missing hrest ih =>
    cases hrest.symm.trans (ih (ht.next hnext).1 (next_le_last hend ht hnext))
  | case4 t hlt => exact absurd (ht.le_iff.mpr hle) hlt

/-! The first slot. -/

/-- The minute of a time, rounded up to the grid, in seconds. -/
def boundary (unit : CandleUnit) (s : DateTime) : Nat :=
  (s.elapsed / 60 + (unit.minutes - 1)) / unit.minutes * unit.seconds

theorem dvd_boundary (unit : CandleUnit) (s : DateTime) : unit.seconds ∣ boundary unit s :=
  Nat.dvd_mul_left _ _

theorem boundary_eq (unit : CandleUnit) (s : DateTime) :
    boundary unit s = s.floorMinute.elapsed +
      if s.elapsed / 60 % unit.minutes = 0 then 0
      else 60 * (unit.minutes - s.elapsed / 60 % unit.minutes) := by
  have hpos := unit.pos
  have hfloor : s.floorMinute.elapsed = 60 * (s.elapsed / 60) := by
    show s.elapsed - s.elapsed % 60 = _
    omega
  have hdiv := Nat.div_add_mod (s.elapsed / 60) unit.minutes
  have hlt := Nat.mod_lt (s.elapsed / 60) hpos
  rw [hfloor]
  unfold boundary CandleUnit.seconds
  generalize s.elapsed / 60 / unit.minutes = q at hdiv
  generalize s.elapsed / 60 % unit.minutes = r at hdiv hlt
  rw [← hdiv]
  split
  · next hzero =>
    have hq : (unit.minutes * q + r + (unit.minutes - 1)) / unit.minutes = q := by
      rw [hzero, Nat.add_zero, Nat.mul_add_div hpos, Nat.div_eq_of_lt (by omega), Nat.add_zero]
    rw [hq, hzero, Nat.add_zero, Nat.add_zero, Nat.mul_left_comm, Nat.mul_comm q]
  · next hpositive =>
    have hsum : unit.minutes * q + r + (unit.minutes - 1) = unit.minutes * (q + 1) + (r - 1) := by
      rw [Nat.mul_succ]
      omega
    have hq : (unit.minutes * q + r + (unit.minutes - 1)) / unit.minutes = q + 1 := by
      rw [hsum, Nat.mul_add_div hpos, Nat.div_eq_of_lt (by omega), Nat.add_zero]
    rw [hq, Nat.mul_left_comm, Nat.mul_comm (q + 1), ← Nat.mul_add, Nat.mul_succ]
    omega

theorem boundary_le (unit : CandleUnit) (s : DateTime) {n : Nat} (hn : unit.seconds ∣ n) :
    boundary unit s ≤ n ↔ s.floorMinute.elapsed ≤ n := by
  have heq := boundary_eq unit s
  have hlt := Nat.mod_lt (s.elapsed / 60) unit.pos
  constructor
  · intro hle
    omega
  · intro hle
    by_contra hgt
    have hdvd : unit.seconds ∣ boundary unit s - n := Nat.dvd_sub (dvd_boundary unit s) hn
    have hfar := Nat.le_of_dvd (by omega) hdvd
    unfold CandleUnit.seconds at hfar
    split at heq <;> omega

theorem parseTs_strftime (t : DateTime) : parseTs t.strftime = .ok t.floorSecond := by
  unfold parseTs
  rw [DateTime.strptime_strftime]

/-- The code looks at the minute of the start alone. -/
theorem firstBoundary_eq (unit : CandleUnit) (s : DateTime) :
    firstBoundary s.strftime unit =
      if s.elapsed / 60 % unit.minutes ≠ 0 then
        addMinutes s.floorMinute (unit.minutes - (s.elapsed / 60 % unit.minutes : Nat))
      else .ok s.floorMinute := by
  have hfloor : s.floorSecond.floorMinute = s.floorMinute := rfl
  have hdiv : s.floorMinute.elapsed / 60 = s.elapsed / 60 := by
    show (s.elapsed - s.elapsed % 60) / 60 = _
    omega
  unfold firstBoundary
  rw [parseTs_strftime]
  show (if totalMinutes s.floorSecond.floorMinute % unit.minutes ≠ 0 then _ else _) = _
  rw [hfloor, totalMinutes_mod, hdiv]
  rfl

/-- The code finds the boundary, unless the calendar ends before. -/
theorem firstBoundary_spec (unit : CandleUnit) (s : DateTime) :
    (boundary unit s < endOfTime → ∃ t, firstBoundary s.strftime unit = .ok t ∧ OnGrid unit t ∧
      t.elapsed = boundary unit s) ∧
    (endOfTime ≤ boundary unit s → firstBoundary s.strftime unit = .error .overflowError) := by
  have heq := boundary_eq unit s
  have hlt := Nat.mod_lt (s.elapsed / 60) unit.pos
  have hgrid : ∀ t : DateTime, t.microsecond = 0 → t.elapsed = boundary unit s → OnGrid unit t :=
    fun t hmicro helapsed => onGrid_iff.mpr ⟨hmicro, helapsed ▸ dvd_boundary unit s⟩
  rw [firstBoundary_eq]
  by_cases hzero : s.elapsed / 60 % unit.minutes = 0
  · -- The minute is a slot, so it is its own boundary.
    rw [if_neg (not_not.mpr hzero)]
    rw [if_pos hzero, Nat.add_zero] at heq
    refine ⟨fun _ => ⟨_, rfl, hgrid _ rfl heq.symm, heq.symm⟩, fun hend => ?_⟩
    have hin := s.floorMinute.elapsed_lt
    omega
  · rw [if_pos hzero]
    rw [if_neg hzero] at heq
    cases hadd : addMinutes s.floorMinute
        (unit.minutes - (s.elapsed / 60 % unit.minutes : Nat)) with
    | ok t =>
      obtain ⟨helapsed, hmicro⟩ := addMinutes_eq_ok hadd
      have heq' : t.elapsed = boundary unit s := by omega
      refine ⟨fun _ => ⟨t, rfl, hgrid t hmicro heq', heq'⟩, fun hend => ?_⟩
      have hin := t.elapsed_lt
      omega
    | error e =>
      obtain ⟨rfl, hout⟩ := addMinutes_eq_error hadd
      refine ⟨fun hin => ?_, fun _ => rfl⟩
      omega

/-! The ranges. -/

/-- The number of a slot. -/
def position (unit : CandleUnit) (t : DateTime) : Nat := t.elapsed / unit.seconds

theorem OnGrid.elapsed_eq {t : DateTime} (ht : OnGrid unit t) :
    t.elapsed = unit.seconds * position unit t :=
  (Nat.mul_div_cancel' (onGrid_iff.mp ht).2).symm

theorem OnGrid.position_lt {s t : DateTime} (hs : OnGrid unit s) (ht : OnGrid unit t) :
    position unit s < position unit t ↔ s.elapsed < t.elapsed := by
  rw [hs.elapsed_eq, ht.elapsed_eq]
  exact (Nat.mul_lt_mul_left unit.seconds_pos).symm

theorem OnGrid.position_le {s t : DateTime} (hs : OnGrid unit s) (ht : OnGrid unit t) :
    position unit s ≤ position unit t ↔ s.elapsed ≤ t.elapsed := by
  rw [hs.elapsed_eq, ht.elapsed_eq]
  exact (Nat.mul_le_mul_left_iff unit.seconds_pos).symm

theorem OnGrid.position_inj {s t : DateTime} (hs : OnGrid unit s) (ht : OnGrid unit t) :
    position unit s = position unit t ↔ s = t := by
  refine ⟨fun h => hs.eq_of_elapsed ht ?_, fun h => by rw [h]⟩
  rw [hs.elapsed_eq, ht.elapsed_eq, h]

theorem neighbours_iff {s t : DateTime} (hs : OnGrid unit s) (ht : OnGrid unit t)
    (hlt : s.elapsed < t.elapsed) :
    ((t.elapsed : Int) - s.elapsed).tdiv 60 = unit.minutes ↔
      position unit t = position unit s + 1 := by
  have hdvd : unit.seconds ∣ t.elapsed - s.elapsed :=
    Nat.dvd_sub (onGrid_iff.mp ht).2 (onGrid_iff.mp hs).2
  obtain ⟨k, hk⟩ := Nat.dvd_trans (Nat.dvd_mul_right 60 unit.minutes) hdvd
  have hdiff : ((t.elapsed : Int) - s.elapsed) = ((60 * k : Nat) : Int) := by omega
  have hdiv : ((60 * k : Nat) : Int).tdiv 60 = (k : Int) := by
    rw [Int.tdiv_eq_ediv_of_nonneg (by omega)]
    omega
  have hnext : position unit t = position unit s + 1 ↔ t.elapsed = s.elapsed + unit.seconds := by
    rw [ht.elapsed_eq, hs.elapsed_eq, ← Nat.mul_succ]
    exact (Nat.mul_right_inj unit.seconds_pos.ne').symm
  rw [hnext, hdiff, hdiv]
  unfold CandleUnit.seconds
  omega

/-- A range as the code writes it. -/
def rangeText (r : DateTime × DateTime) : String × String := (r.1.strftime, r.2.strftime)

theorem groupGaps_eq {first last : DateTime} {slots : List DateTime}
    (hgrid : ∀ s ∈ last :: slots, OnGrid unit s)
    (hsorted : (last :: slots).Pairwise (·.elapsed < ·.elapsed)) :
    groupGaps unit first.strftime last.strftime (slots.map (·.strftime)) =
      .ok ((Ranges.group (position unit) first last slots).map rangeText) := by
  induction slots generalizing first last with
  | nil => rfl
  | cons x xs ih =>
    obtain ⟨hbehind, hrest⟩ := List.pairwise_cons.mp hsorted
    have hgrid' : ∀ s ∈ x :: xs, OnGrid unit s := fun s hs => hgrid s (List.mem_cons_of_mem _ hs)
    have hneighbours := neighbours_iff (hgrid last List.mem_cons_self)
      (hgrid x (List.mem_cons_of_mem _ List.mem_cons_self)) (hbehind x List.mem_cons_self)
    rw [List.map_cons, groupGaps, parseTs_strftime, parseTs_strftime]
    show (if ((x.elapsed : Int) - last.elapsed).tdiv 60 = unit.minutes then _ else _) = _
    unfold Ranges.group
    by_cases h : position unit x = position unit last + 1
    · rw [if_pos (hneighbours.mpr h), if_pos h]
      exact ih hgrid' hrest
    · rw [if_neg (fun hdiv => h (hneighbours.mp hdiv)), if_neg h, ih hgrid' hrest]
      rfl

section
variable {x : DateTime} {xs : List DateTime}

theorem position_sorted (hgrid : ∀ t ∈ x :: xs, OnGrid unit t)
    (hsorted : (x :: xs).Pairwise (·.elapsed < ·.elapsed)) :
    (x :: xs).Pairwise (position unit · < position unit ·) :=
  hsorted.imp_of_mem fun ha hb hlt => ((hgrid _ ha).position_lt (hgrid _ hb)).mpr hlt

theorem onGrid_group (hgrid : ∀ t ∈ x :: xs, OnGrid unit t)
    (hsorted : (x :: xs).Pairwise (·.elapsed < ·.elapsed)) :
    ∀ r ∈ Ranges.group (position unit) x x xs,
      OnGrid unit r.1 ∧ OnGrid unit r.2 ∧ r.1 ≤ r.2 := by
  intro r hr
  have hx : OnGrid unit x := hgrid x List.mem_cons_self
  obtain ⟨h1, h2⟩ := Ranges.forall_group (position unit) hx hx
    (fun y hy => hgrid y (List.mem_cons_of_mem _ hy)) r hr
  have hbounds := Ranges.bounds_group (Nat.le_refl _) (position_sorted hgrid hsorted) r hr
  exact ⟨h1, h2, h1.le_iff.mpr ((h1.position_le h2).mp hbounds.2)⟩

theorem separate_group (hgrid : ∀ t ∈ x :: xs, OnGrid unit t)
    (hsorted : (x :: xs).Pairwise (·.elapsed < ·.elapsed)) :
    (Ranges.group (position unit) x x xs).Pairwise
      (fun r q => r.2.elapsed + unit.seconds < q.1.elapsed) := by
  have hpositions := position_sorted hgrid hsorted
  refine (Ranges.separate_group (Nat.le_refl _) hpositions).imp_of_mem fun {r q} hr hq hlt => ?_
  have hr := (onGrid_group hgrid hsorted r hr).2.1
  have hq := (onGrid_group hgrid hsorted q hq).1
  rw [hr.elapsed_eq, hq.elapsed_eq, ← Nat.mul_succ]
  exact Nat.mul_lt_mul_of_pos_left hlt unit.seconds_pos

/-- The ranges hold the slots they were grouped from. -/
theorem mem_group_iff (hgrid : ∀ t ∈ x :: xs, OnGrid unit t)
    (hsorted : (x :: xs).Pairwise (·.elapsed < ·.elapsed)) {t : DateTime} (ht : OnGrid unit t) :
    (∃ r ∈ Ranges.group (position unit) x x xs, r.1 ≤ t ∧ t ≤ r.2) ↔ t ∈ x :: xs := by
  have hcovers := Ranges.covers_group (Nat.le_refl (position unit x))
    (position_sorted hgrid hsorted) (position unit t)
  have hranges : (∃ r ∈ Ranges.group (position unit) x x xs, r.1 ≤ t ∧ t ≤ r.2) ↔
      ∃ r ∈ Ranges.group (position unit) x x xs,
        Ranges.Covers (position unit) r (position unit t) := by
    refine exists_congr fun r => and_congr_right fun hr => ?_
    obtain ⟨h1, h2, -⟩ := onGrid_group hgrid hsorted r hr
    exact and_congr (h1.le_iff.trans (h1.position_le ht).symm)
      (ht.le_iff.trans (ht.position_le h2).symm)
  rw [hranges, hcovers, List.mem_cons]
  refine or_congr ?_ ⟨?_, ?_⟩
  · rw [← ht.position_inj (hgrid x List.mem_cons_self)]
    unfold Ranges.Covers
    dsimp only
    omega
  · rintro ⟨y, hy, heq⟩
    obtain rfl := ((hgrid y (List.mem_cons_of_mem _ hy)).position_inj ht).mp heq
    exact hy
  · intro hmem
    exact ⟨t, hmem, rfl⟩

end

/-- The code walks from the boundary, and groups what it finds missing. -/
theorem findGaps_eq {α : Type} (table : CandleTable α) (market : String) {s e first : DateTime}
    (hfirst : firstBoundary s.strftime unit = .ok first) :
    findGaps table market unit s.strftime e.strftime =
      (missingTs (existingTs table market unit s.strftime e.strftime) unit e.floorSecond first >>=
        fun missing =>
          missing.head?.elim (.ok []) (fun ts => groupGaps unit ts ts missing.tail)) := by
  unfold findGaps
  rw [hfirst, parseTs_strftime]
  refine congrArg (missingTs _ unit e.floorSecond first >>= ·) ?_
  funext missing
  cases missing with
  | nil => rfl
  | cons ts rest => rfl

theorem findGaps_spec {α : Type} (table : CandleTable α) (market : String) {s e : DateTime}
    (hstart : boundary unit s < endOfTime)
    (hfits : e.elapsed < boundary unit s ∨ e.elapsed + unit.seconds < endOfTime) :
    ∃ ranges : List (DateTime × DateTime),
      findGaps table market unit s.strftime e.strftime = .ok (ranges.map rangeText) ∧
      (∀ r ∈ ranges, OnGrid unit r.1 ∧ OnGrid unit r.2 ∧ r.1 ≤ r.2) ∧
      ranges.Pairwise (fun r q => r.2.elapsed + unit.seconds < q.1.elapsed) ∧
      ∀ t, OnGrid unit t → ((∃ r ∈ ranges, r.1 ≤ t ∧ t ≤ r.2) ↔
        boundary unit s ≤ t.elapsed ∧ t.elapsed ≤ e.elapsed ∧
          t.strftime ∉ existingTs table market unit s.strftime e.strftime) := by
  obtain ⟨first, hfirst, hgrid, helapsed⟩ := (firstBoundary_spec unit s).1 hstart
  rw [← helapsed] at hfits
  obtain ⟨slots, hslots, hsorted, hmem⟩ := @missingTs_spec
    (existingTs table market unit s.strftime e.strftime) unit e.floorSecond first hgrid hfits
  have hcode := findGaps_eq table market (e := e) hfirst
  rw [hslots] at hcode
  have hslot : ∀ t, OnGrid unit t → (t ∈ slots ↔ boundary unit s ≤ t.elapsed ∧
      t.elapsed ≤ e.elapsed ∧
        t.strftime ∉ existingTs table market unit s.strftime e.strftime) := by
    intro t ht
    rw [hmem, helapsed]
    exact and_iff_right ht
  have hgrids : ∀ t ∈ slots, OnGrid unit t := fun t ht => ((hmem t).mp ht).1
  cases slots with
  | nil =>
    refine ⟨[], hcode, by simp, List.Pairwise.nil, fun t ht => ?_⟩
    rw [← hslot t ht]
    simp
  | cons x xs =>
    refine ⟨Ranges.group (position unit) x x xs, hcode.trans (groupGaps_eq hgrids hsorted),
      onGrid_group hgrids hsorted, separate_group hgrids hsorted, fun t ht => ?_⟩
    rw [mem_group_iff hgrids hsorted ht]
    exact hslot t ht

/-- Where the calendar ends too early, the code fails. -/
theorem findGaps_overflow {α : Type} (table : CandleTable α) (market : String) {s e : DateTime}
    (h : endOfTime ≤ boundary unit s ∨
      boundary unit s ≤ e.elapsed ∧ endOfTime ≤ e.elapsed + unit.seconds) :
    findGaps table market unit s.strftime e.strftime = .error .overflowError := by
  by_cases hstart : boundary unit s < endOfTime
  · obtain ⟨first, hfirst, hgrid, helapsed⟩ := (firstBoundary_spec unit s).1 hstart
    obtain hout | ⟨hle, hend⟩ := h
    · omega
    have hloop := @missingTs_overflow
      (existingTs table market unit s.strftime e.strftime) unit e.floorSecond first hgrid
      (helapsed ▸ hle) hend
    rw [findGaps_eq table market hfirst, hloop]
    rfl
  · have hfirst := (firstBoundary_spec unit s).2 (Nat.le_of_not_lt hstart)
    unfold findGaps
    rw [hfirst]
    rfl

/-! The gaps of the table. -/

/-- The table has the candle of a slot. -/
def Stored {α : Type} (table : CandleTable α) (market : String) (unit : CandleUnit)
    (t : DateTime) : Prop :=
  ∃ row ∈ table.rows, row.market = market ∧ row.unit = unit.minutes ∧ row.ts = t.strftime

/-- Ranges in order and apart, with exactly the slots from `s` to `e` that are not stored. -/
def ExactGaps {α : Type} (table : CandleTable α) (market : String) (unit : CandleUnit)
    (s e : DateTime) (gaps : List (String × String)) : Prop :=
  ∃ ranges : List (DateTime × DateTime),
    gaps = ranges.map rangeText ∧
    (∀ r ∈ ranges, OnGrid unit r.1 ∧ OnGrid unit r.2 ∧ r.1 ≤ r.2) ∧
    ranges.Pairwise (fun r q => r.2.elapsed + unit.seconds < q.1.elapsed) ∧
    ∀ t, OnGrid unit t → ((∃ r ∈ ranges, r.1 ≤ t ∧ t ≤ r.2) ↔
      s.elapsed ≤ t.elapsed ∧ t.elapsed ≤ e.elapsed ∧ ¬ Stored table market unit t)

/-- The start is not a slot with seconds behind it, and the calendar is long enough. -/
structure Regular (unit : CandleUnit) (s e : DateTime) : Prop where
  start : s.second = 0 ∨ totalMinutes s % unit.minutes ≠ 0 ∨ e.elapsed < s.floorMinute.elapsed
  rounded : boundary unit s < endOfTime
  walked : e.elapsed < boundary unit s ∨ e.elapsed + unit.seconds < endOfTime

variable {α : Type} {table : CandleTable α} {market : String} {s e : DateTime}

theorem mem_existingTs {t : DateTime} :
    t.strftime ∈ existingTs table market unit s.strftime e.strftime ↔
      Stored table market unit t ∧ s.elapsed ≤ t.elapsed ∧ t.elapsed ≤ e.elapsed := by
  unfold existingTs Stored
  rw [List.mem_map]
  constructor
  · rintro ⟨row, hrow, hts⟩
    obtain ⟨hmem, hrow⟩ := List.mem_filter.mp hrow
    obtain ⟨hmarket, hunit, hge, hle⟩ := of_decide_eq_true hrow
    rw [hts, DateTime.strftime_le_iff] at hge hle
    exact ⟨⟨row, hmem, hmarket, hunit, hts⟩, hge, hle⟩
  · rintro ⟨⟨row, hmem, hmarket, hunit, hts⟩, hge, hle⟩
    refine ⟨row, List.mem_filter.mpr ⟨hmem, decide_eq_true ⟨hmarket, hunit, ?_⟩⟩, hts⟩
    rw [hts, DateTime.strftime_le_iff, DateTime.strftime_le_iff]
    exact ⟨hge, hle⟩

theorem floorMinute_elapsed (s : DateTime) : s.floorMinute.elapsed = s.elapsed - s.second := rfl

theorem onGrid_floorMinute (h : totalMinutes s % unit.minutes = 0) :
    OnGrid unit s.floorMinute := by
  have hdiv : s.floorMinute.elapsed / 60 = s.elapsed / 60 := by
    show (s.elapsed - s.elapsed % 60) / 60 = _
    omega
  refine ⟨rfl, ?_, ?_⟩
  · show (s.elapsed - s.elapsed % 60) % 60 = 0
    omega
  · rw [totalMinutes_mod, hdiv, ← totalMinutes_mod]
    exact h

theorem boundary_le_iff {t : DateTime} (ht : OnGrid unit t) (hle : t.elapsed ≤ e.elapsed)
    (h : s.second = 0 ∨ totalMinutes s % unit.minutes ≠ 0 ∨
      e.elapsed < s.floorMinute.elapsed) :
    boundary unit s ≤ t.elapsed ↔ s.elapsed ≤ t.elapsed := by
  rw [boundary_le unit s (onGrid_iff.mp ht).2]
  have hfloor := floorMinute_elapsed s
  have hsecond : s.second = s.elapsed % 60 := rfl
  refine ⟨fun hge => ?_, fun hge => by omega⟩
  rcases h with hzero | hoff | hlast
  · omega
  · -- The minute is no slot, so the slot is in a later minute.
    have hne : t.elapsed ≠ s.floorMinute.elapsed := by
      intro heq
      have hdiv : t.elapsed / 60 = s.elapsed / 60 := by omega
      rw [totalMinutes_mod, ← hdiv, ← totalMinutes_mod] at hoff
      exact hoff ht.aligned
    have hminute : t.elapsed % 60 = 0 := ht.second
    omega
  · omega

theorem exactGaps_of_regular (h : Regular unit s e) :
    ∃ gaps, findGaps table market unit s.strftime e.strftime = .ok gaps ∧
      ExactGaps table market unit s e gaps := by
  obtain ⟨ranges, hcode, hends, hseparate, hcovers⟩ :=
    findGaps_spec table market h.rounded h.walked
  refine ⟨_, hcode, ranges, rfl, hends, hseparate, fun t ht => ?_⟩
  rw [hcovers t ht, mem_existingTs]
  constructor
  · rintro ⟨hge, hle, hnew⟩
    have hge := (boundary_le_iff ht hle h.start).mp hge
    exact ⟨hge, hle, fun hstored => hnew ⟨hstored, hge, hle⟩⟩
  · rintro ⟨hge, hle, hnew⟩
    exact ⟨(boundary_le_iff ht hle h.start).mpr hge, hle, fun hstored => hnew hstored.1⟩

theorem inCalendar_of_ok {gaps : List (String × String)}
    (hcode : findGaps table market unit s.strftime e.strftime = .ok gaps) :
    boundary unit s < endOfTime ∧
      (e.elapsed < boundary unit s ∨ e.elapsed + unit.seconds < endOfTime) := by
  by_contra hout
  have hoverflow : findGaps table market unit s.strftime e.strftime = .error .overflowError :=
    findGaps_overflow table market (by omega)
  rw [hoverflow] at hcode
  cases hcode

theorem elapsed_of_rangeText {r q : DateTime × DateTime} (h : rangeText r = rangeText q) :
    r.1.elapsed = q.1.elapsed ∧ r.2.elapsed = q.2.elapsed := by
  have helapsed : ∀ t u : DateTime, t.strftime = u.strftime → t.elapsed = u.elapsed := by
    intro t u htext
    exact Nat.le_antisymm (DateTime.strftime_le_iff.mp (le_of_eq htext))
      (DateTime.strftime_le_iff.mp (le_of_eq htext.symm))
  obtain ⟨hfirst, hlast⟩ := Prod.mk.inj h
  exact ⟨helapsed _ _ hfirst, helapsed _ _ hlast⟩

/-- The slot that a start with seconds is rounded down to is in the gaps, and lies before the
    start. -/
theorem not_exactGaps (hsecond : s.second ≠ 0) (hslot : totalMinutes s % unit.minutes = 0)
    (hle : s.floorMinute.elapsed ≤ e.elapsed) {gaps : List (String × String)}
    (hcode : findGaps table market unit s.strftime e.strftime = .ok gaps) :
    ¬ ExactGaps table market unit s e gaps := by
  rintro ⟨ranges, htexts, hends, -, hexact⟩
  have hgrid := onGrid_floorMinute hslot
  have hboundary : boundary unit s ≤ s.floorMinute.elapsed :=
    (boundary_le unit s (onGrid_iff.mp hgrid).2).mpr (Nat.le_refl _)
  have hbefore : ¬ s.elapsed ≤ s.floorMinute.elapsed := by
    have hfloor := floorMinute_elapsed s
    have hmod : s.second = s.elapsed % 60 := rfl
    omega
  obtain ⟨hrounded, hwalked⟩ := inCalendar_of_ok hcode
  obtain ⟨found, hfound, hends', -, hcovers⟩ := findGaps_spec table market hrounded hwalked
  obtain ⟨r, hr, hr1, hr2⟩ := (hcovers s.floorMinute hgrid).mpr
    ⟨hboundary, hle, fun hstored => hbefore (mem_existingTs.mp hstored).2.1⟩
  have hsame : ranges.map rangeText = found.map rangeText :=
    htexts.symm.trans (Except.ok.inj (hcode.symm.trans hfound))
  have hmem : rangeText r ∈ ranges.map rangeText := hsame ▸ List.mem_map_of_mem hr
  obtain ⟨q, hq, htext⟩ := List.mem_map.mp hmem
  obtain ⟨h1, h2⟩ := elapsed_of_rangeText htext
  obtain ⟨hq1, hq2, -⟩ := hends q hq
  have hq1' : q.1 ≤ s.floorMinute := by
    rw [hq1.le_iff, h1]
    exact DateTime.elapsed_le_of_le hr1
  have hq2' : s.floorMinute ≤ q.2 := by
    rw [hgrid.le_iff, h2]
    exact DateTime.elapsed_le_of_le hr2
  exact hbefore ((hexact s.floorMinute hgrid).mp ⟨q, hq, hq1', hq2'⟩).1

theorem exactGaps_iff (table : CandleTable α) (market : String) (unit : CandleUnit)
    (s e : DateTime) :
    (∃ gaps, findGaps table market unit s.strftime e.strftime = .ok gaps ∧
      ExactGaps table market unit s e gaps) ↔ Regular unit s e := by
  refine ⟨?_, exactGaps_of_regular⟩
  rintro ⟨gaps, hcode, hexact⟩
  obtain ⟨hrounded, hwalked⟩ := inCalendar_of_ok hcode
  refine ⟨?_, hrounded, hwalked⟩
  by_contra hstart
  simp only [not_or, not_not, Nat.not_lt] at hstart
  exact not_exactGaps hstart.1 hstart.2.1 hstart.2.2 hcode hexact

end

/-! An empty table, and a start half a minute behind a slot. -/

def quarterHour : CandleUnit := .ofChoice 15 (by decide)

def emptyTable : CandleTable Nat := ⟨[], List.nodup_nil⟩

def halfPast : DateTime where
  elapsed := 63839664030
  microsecond := 0
  elapsed_lt := by decide
  microsecond_lt := DateTime.zero_lt_million

example : halfPast.strftime = "2024-01-01T00:00:30" := by decide +kernel

theorem not_exactGaps_iff :
    ¬ ∀ (table : CandleTable Nat) (market : String) (unit : CandleUnit) (s e : DateTime),
      ∃ gaps, findGaps table market unit s.strftime e.strftime = .ok gaps ∧
        ExactGaps table market unit s e gaps := by
  intro hclaim
  obtain ⟨gaps, hcode, hexact⟩ := hclaim emptyTable "KRW-ADA" quarterHour halfPast halfPast
  exact not_exactGaps (by decide) (by decide) (by decide) hcode hexact

end CoinBot.Collector
