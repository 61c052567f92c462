import CoinBot.Collector.FetchRange
import CoinBot.Collector.FindGaps

/- When no candle is stored that has not ended.

   The end that `main` passes on is no text above that of the last slot that has ended. A text
   below it that can be read has no later time, so the gaps end by then; and a batch is filtered
   by the end of its gap. The exception is a day with a blank for its leading zero: its text is
   below those of all days of the month, so the cap lets it through (`Leaks`). -/
namespace CoinBot.Collector
open Calendar

/-- The candle that starts at `t` has ended. -/
def Ended (unit : CandleUnit) (now t : DateTime) : Prop := t.elapsed + unit.seconds ≤ now.elapsed

/-- The latest slot whose candle has ended. -/
structure LastEnded (unit : CandleUnit) (now t : DateTime) : Prop where
  onGrid : OnGrid unit t
  ended : Ended unit now t
  latest : ∀ s, OnGrid unit s → Ended unit now s → s ≤ t

section
variable {unit : CandleUnit} {now : DateTime}

theorem currentBoundary_eq (unit : CandleUnit) (now : DateTime) :
    now.floorMinute.elapsed =
      60 * (totalMinutes now % unit.minutes) + unit.seconds * (now.elapsed / unit.seconds) := by
  have hfloor : now.floorMinute.elapsed = 60 * (now.elapsed / 60) := by
    show now.elapsed - now.elapsed % 60 = _
    omega
  have hdiv : now.elapsed / unit.seconds = now.elapsed / 60 / unit.minutes :=
    (Nat.div_div_eq_div_mul _ _ _).symm
  have hmod := Nat.mod_add_div (now.elapsed / 60) unit.minutes
  rw [hfloor, hdiv, totalMinutes_mod, CandleUnit.seconds, Nat.mul_assoc, ← Nat.mul_add, hmod]

theorem calcEndTs_spec (now : DateTime) (unit : CandleUnit) :
    (∃ last, calcEndTs now unit = .ok last.strftime ∧ LastEnded unit now last) ∨
      calcEndTs now unit = .error .overflowError ∧ ∀ s, OnGrid unit s → ¬ Ended unit now s := by
  have hcurrent := currentBoundary_eq unit now
  have hdvd : unit.seconds ∣ unit.seconds * (now.elapsed / unit.seconds) := Nat.dvd_mul_right _ _
  have hlow : unit.seconds * (now.elapsed / unit.seconds) ≤ now.elapsed := Nat.mul_div_le _ _
  -- A slot has ended if the next one has begun.
  have hended : ∀ s, OnGrid unit s → (Ended unit now s ↔
      s.elapsed + unit.seconds ≤ unit.seconds * (now.elapsed / unit.seconds)) := by
    intro s hs
    obtain ⟨k, hk⟩ := Nat.dvd_add (onGrid_iff.mp hs).2 (Nat.dvd_refl _)
    unfold Ended
    rw [hk, Nat.mul_le_mul_left_iff unit.seconds_pos, Nat.le_div_iff_mul_le unit.seconds_pos,
      Nat.mul_comm k]
  cases hboundary : addMinutes now.floorMinute (-((totalMinutes now % unit.minutes : Nat) : Int)) with
  | error e =>
    have hout := (addMinutes_eq_error hboundary).2
    have hin := now.floorMinute.elapsed_lt
    omega
  | ok boundary =>
    obtain ⟨helapsed, hmicro⟩ := addMinutes_eq_ok hboundary
    have heq : boundary.elapsed = unit.seconds * (now.elapsed / unit.seconds) := by omega
    have hseconds : unit.seconds = 60 * unit.minutes := rfl
    have hcode : calcEndTs now unit =
        (addMinutes boundary (-(unit.minutes : Int))).map (·.strftime) := by
      unfold calcEndTs
      dsimp only
      rw [hboundary]
      show addMinutes boundary _ >>= _ = _
      cases addMinutes boundary (-(unit.minutes : Int)) <;> rfl
    cases hlast : addMinutes boundary (-(unit.minutes : Int)) with
    | error e =>
      obtain ⟨rfl, hout⟩ := addMinutes_eq_error hlast
      have hin := boundary.elapsed_lt
      refine .inr ⟨by rw [hcode, hlast]; rfl, fun s hs hend => ?_⟩
      have hend := (hended s hs).mp hend
      omega
    | ok last =>
      obtain ⟨helapsed', hmicro'⟩ := addMinutes_eq_ok hlast
      have hstep : last.elapsed + unit.seconds = boundary.elapsed := by omega
      have hgrid : OnGrid unit last := by
        refine onGrid_iff.mpr ⟨hmicro'.trans hmicro, ?_⟩
        rw [← heq, ← hstep] at hdvd
        exact (Nat.dvd_add_iff_left (Nat.dvd_refl _)).mpr hdvd
      refine .inl ⟨last, by rw [hcode, hlast]; rfl, hgrid, (hended last hgrid).mpr (by omega), fun s hs hend => ?_⟩
      have hend := (hended s hs).mp hend
      rw [hs.le_iff]
      omega

end

/-! The end of the run. -/

section
variable {α : Type} {unit : CandleUnit} {now last first : DateTime}

/-- `--end` is a day of this month that is written with a blank and not before today, and the last
    slot that has ended is of this month too. -/
structure BlankEnd (now : DateTime) (unit : CandleUnit) (stop : String) (day : Nat) : Prop where
  text : stop.toList = DateTime.blankDay now.date.year now.date.month day
  notBefore : now.date.day ≤ day
  single : day < 10
  inMonth : now.date.day ≠ 1 ∨ unit.minutes ≤ totalMinutes now

/-- The slot is not over, and lies from the start on, up to a day of this month. -/
structure OpenSlot (now : DateTime) (unit : CandleUnit) (first : DateTime) (day : Nat)
    (s : DateTime) : Prop where
  onGrid : OnGrid unit s
  notEnded : ¬ Ended unit now s
  start : first.floorMinute.elapsed ≤ s.elapsed
  byDay : s.date.number ≤ dayNumber now.date.year now.date.month day

/-- There is a market, and such an end lets a slot through that is not over. -/
def Leaks (now : DateTime) (args : Args) : Prop :=
  args.markets ≠ [] ∧ ∃ stop day startTs first s, args.stop = some stop ∧
    BlankEnd now args.unit stop day ∧ startTsOf now args = .ok startTs ∧
    DateTime.strptime startTs = some first ∧ OpenSlot now args.unit first day s

theorem LastEnded.lt_of_not_ended (hlast : LastEnded unit now last) {s : DateTime}
    (hs : OnGrid unit s) (hopen : ¬ Ended unit now s) : last.elapsed + unit.seconds ≤ s.elapsed := by
  refine hlast.onGrid.next_le (onGrid_iff.mp hs).2 (Nat.lt_of_not_le fun hle => hopen ?_)
  exact Nat.le_trans (Nat.add_le_add_right hle _) hlast.ended

/-- A slot that is not over is of today, or later. -/
theorem date_le_of_not_ended {s : DateTime} (hs : OnGrid unit s) (hopen : ¬ Ended unit now s) :
    now.date.number ≤ s.date.number := by
  have hday : unit.seconds ∣ secondsPerDay * (now.elapsed / secondsPerDay) :=
    Nat.dvd_mul_right_of_dvd unit.dvd_day _
  have hlow : secondsPerDay * (now.elapsed / secondsPerDay) ≤ now.elapsed := Nat.mul_div_le _ _
  rw [DateTime.number_date, DateTime.number_date, Nat.le_div_iff_mul_le (by decide), Nat.mul_comm]
  by_contra hlt
  exact hopen (Nat.le_trans (hs.next_le hday (Nat.lt_of_not_le hlt)) hlow)

theorem cut_unique {front front' back back' : List Char} (hback : 'T' ∉ back)
    (hback' : 'T' ∉ back') (h : front ++ 'T' :: back = front' ++ 'T' :: back') :
    front = front' := by
  rcases List.append_eq_append_iff.mp h with ⟨middle, rfl, hmiddle⟩ | ⟨middle, rfl, hmiddle⟩
  · cases middle with
    | nil => exact (List.append_nil _).symm
    | cons c middle =>
      obtain ⟨-, rfl⟩ := List.cons.inj hmiddle
      exact absurd (List.mem_append_right _ List.mem_cons_self) hback
  · cases middle with
    | nil => exact List.append_nil _
    | cons c middle =>
      obtain ⟨-, rfl⟩ := List.cons.inj hmiddle
      exact absurd (List.mem_append_right _ List.mem_cons_self) hback'

theorem elapsed_day (t : DateTime) :
    t.elapsed = secondsPerDay * t.date.number + 60 * totalMinutes t + t.second := by
  rw [t.elapsed_eq]
  unfold totalMinutes
  ring

/-- An end behind a slot that is not over is a day with a blank. -/
theorem blankEnd_of_open {args : Args} {endTs : String} {e s : DateTime}
    (h : endTsOf now args = .ok endTs) (he : DateTime.strptime endTs = some e)
    (hs : OnGrid args.unit s) (hopen : ¬ Ended args.unit now s) (hle : s.elapsed ≤ e.elapsed) :
    ∃ stop day, args.stop = some stop ∧ BlankEnd now args.unit stop day ∧
      s.date.number ≤ dayNumber now.date.year now.date.month day := by
  unfold endTsOf at h
  obtain ⟨cap, hcap, h⟩ := bind_eq_ok h
  rcases calcEndTs_spec now args.unit with ⟨last, hlast, hspec⟩ | ⟨herror, -⟩
  swap
  · cases hcap.symm.trans herror
  obtain rfl : cap = last.strftime := Except.ok.inj (hcap.symm.trans hlast)
  have hgap := hspec.lt_of_not_ended hs hopen
  have hpos := args.unit.seconds_pos
  have hnotcap : endTs ≠ last.strftime := by
    rintro rfl
    obtain rfl : last.floorSecond = e :=
      Option.some.inj (last.strptime_strftime.symm.trans he)
    have hsame : last.floorSecond.elapsed = last.elapsed := rfl
    omega
  split at h
  swap
  · exact absurd (Except.ok.inj h).symm hnotcap
  next stop hstop =>
  have hstop' : args.stop = some stop := Option.eq_some_of_filter_eq_some hstop
  have h : (if last.strftime < stop ++ "T23:59:59" then last.strftime else stop ++ "T23:59:59") =
      endTs := Except.ok.inj h
  split at h
  · exact absurd h.symm hnotcap
  next hbelow =>
  subst h
  rcases DateTime.le_or_blankDay he (not_lt.mp hbelow) with
    hearly | ⟨rest, hrest, hsingle, hyear, hmonth, htext⟩
  · omega
  -- The last slot, now, the open slot and the end are in this order.
  have hlastNow : last.date.number ≤ now.date.number := by
    rw [DateTime.number_date, DateTime.number_date]
    exact Nat.div_le_div_right (Nat.le_trans (Nat.le_add_right _ _) hspec.ended)
  have hnowSlot := date_le_of_not_ended hs hopen
  have hslotEnd : s.date.number ≤ e.date.number := by
    rw [DateTime.number_date, DateTime.number_date]
    exact Nat.div_le_div_right hle
  obtain ⟨hnowYear, hnowMonth⟩ := Date.month_of_between hyear.symm hmonth.symm hlastNow
    (hnowSlot.trans hslotEnd)
  refine ⟨stop, e.date.day, hstop', ⟨?_, ?_, hsingle, ?_⟩, ?_⟩
  · rw [hnowYear, hnowMonth, hyear, hmonth]
    rw [String.toList_append] at htext
    have hclock : 'T' ∉ "23:59:59".toList := by decide
    exact cut_unique hclock hrest htext
  · exact (Date.number_le_iff hnowYear hnowMonth).mp (hnowSlot.trans hslotEnd)
  · by_contra hfirst
    rw [not_or, not_not, Nat.not_le] at hfirst
    have hlastDay : last.date.day ≤ now.date.day :=
      (Date.number_le_iff (hyear.symm.trans hnowYear.symm) (hmonth.symm.trans hnowMonth.symm)).mp
        hlastNow
    have hsame : last.date.number = now.date.number :=
      Date.number_eq (hyear.symm.trans hnowYear.symm) (hmonth.symm.trans hnowMonth.symm) (by
        have hday := last.date.valid.2.2.1
        omega)
    have hlastElapsed := elapsed_day last
    have hnowElapsed := elapsed_day now
    have hsecond := now.second_lt
    have hended : last.elapsed + args.unit.seconds ≤ now.elapsed := hspec.ended
    rw [hsame] at hlastElapsed
    unfold CandleUnit.seconds at hended
    omega
  · have hnumber : e.date.number = dayNumber now.date.year now.date.month e.date.day := by
      rw [hnowYear, hnowMonth]
      rfl
    exact hnumber ▸ hslotEnd

/-! The gaps. -/

theorem missingTs_within {existing : List String} {t : DateTime} (ht : OnGrid unit t)
    {missing : List String} (h : missingTs existing unit last t = .ok missing) :
    ∀ ts ∈ missing, ∃ s : DateTime, ts = s.strftime ∧ OnGrid unit s ∧ t.elapsed ≤ s.elapsed ∧
      s.elapsed ≤ last.elapsed := by
  fun_induction missingTs existing unit last t generalizing missing with
  | case1 => cases h
  | case2 => cases h
  | case3 t hle next hnext rest hrest ih =>
    obtain rfl := Except.ok.inj h
    obtain ⟨hgrid, helapsed⟩ := ht.next hnext
    have hbehind : ∀ ts ∈ rest, ∃ s : DateTime, ts = s.strftime ∧ OnGrid unit s ∧
        t.elapsed ≤ s.elapsed ∧ s.elapsed ≤ last.elapsed := by
      intro ts hts
      obtain ⟨s, hs, hslot, hge, hle⟩ := ih hgrid hrest ts hts
      exact ⟨s, hs, hslot, by omega, hle⟩
    intro ts hts
    split at hts
    · exact hbehind ts hts
    · rcases List.mem_cons.mp hts with rfl | hts
      · exact ⟨t, rfl, ht, Nat.le_refl _, DateTime.elapsed_le_of_le hle⟩
      · exact hbehind ts hts
  | case4 =>
    obtain rfl := Except.ok.inj h
    intro ts hts
    cases hts

theorem groupGaps_ends {gapStart gapEnd : String} {rest : List String}
    {gaps : List (String × String)} (h : groupGaps unit gapStart gapEnd rest = .ok gaps) :
    ∀ gap ∈ gaps, gap.2 ∈ gapEnd :: rest := by
  induction rest generalizing gapStart gapEnd gaps with
  | nil =>
    obtain rfl := Except.ok.inj h
    intro gap hgap
    rw [List.mem_singleton.mp hgap]
    exact List.mem_cons_self
  | cons ts rest ih =>
    unfold groupGaps at h
    obtain ⟨prev, -, h⟩ := bind_eq_ok h
    obtain ⟨curr, -, h⟩ := bind_eq_ok h
    split at h
    · intro gap hgap
      exact List.mem_cons_of_mem _ (ih h gap hgap)
    · obtain ⟨behind, hrest, h⟩ := bind_eq_ok h
      obtain rfl := Except.ok.inj h
      intro gap hgap
      rcases List.mem_cons.mp hgap with rfl | hgap
      · exact List.mem_cons_self
      · exact List.mem_cons_of_mem _ (ih hrest gap hgap)

theorem parseTs_of_strptime {text : String} (h : DateTime.strptime text = some first) :
    parseTs text = parseTs first.strftime := by
  rw [parseTs_strftime]
  unfold parseTs
  rw [h, DateTime.floorSecond_of_strptime h]

theorem firstBoundary_of_strptime {startTs : String}
    (h : DateTime.strptime startTs = some first) (unit : CandleUnit) :
    firstBoundary startTs unit = firstBoundary first.strftime unit := by
  unfold firstBoundary
  rw [parseTs_of_strptime h]

/-- The gaps end with slots between the start and the end. -/
theorem findGaps_within {table : CandleTable α} {market startTs endTs : String}
    {gaps : List (String × String)} (h : findGaps table market unit startTs endTs = .ok gaps) :
    ∃ first e, DateTime.strptime startTs = some first ∧ DateTime.strptime endTs = some e ∧
      ∀ gap ∈ gaps, ∃ s : DateTime, gap.2 = s.strftime ∧ OnGrid unit s ∧
        first.floorMinute.elapsed ≤ s.elapsed ∧ s.elapsed ≤ e.elapsed := by
  unfold findGaps at h
  obtain ⟨t, ht, h⟩ := bind_eq_ok h
  obtain ⟨e, he, h⟩ := bind_eq_ok h
  obtain ⟨missing, hmissing, h⟩ := bind_eq_ok h
  obtain ⟨first, hfirst, -⟩ := bind_eq_ok ht
  have hfirst := parseTs_eq_ok hfirst
  rw [firstBoundary_of_strptime hfirst] at ht
  obtain ⟨hgrid, hge⟩ : OnGrid unit t ∧ first.floorMinute.elapsed ≤ t.elapsed := by
    have hspec := firstBoundary_spec unit first
    by_cases hin : boundary unit first < endOfTime
    · obtain ⟨t', ht', hgrid, helapsed⟩ := hspec.1 hin
      obtain rfl := Except.ok.inj (ht'.symm.trans ht)
      refine ⟨hgrid, ?_⟩
      rw [helapsed]
      exact (boundary_le unit first (dvd_boundary unit first)).mp (Nat.le_refl _)
    · cases (hspec.2 (Nat.le_of_not_lt hin)).symm.trans ht
  refine ⟨first, e, hfirst, parseTs_eq_ok he, fun gap hgap => ?_⟩
  have hmem : gap.2 ∈ missing := by
    cases missing with
    | nil =>
      obtain rfl := Except.ok.inj h
      cases hgap
    | cons ts rest => exact groupGaps_ends h gap hgap
  obtain ⟨s, hs, hslot, hlow, hhigh⟩ := missingTs_within hgrid hmissing _ hmem
  exact ⟨s, hs, hslot, hge.trans hlow, hhigh⟩

/-! The run. -/

variable {σ β : Type}

theorem inTurn_grown {P : CandleRow α → Prop} {call : β → World σ α → Run Nat × World σ α}
    {xs : List β} (hcall : ∀ x ∈ xs, ∀ w, ∃ n, Grown P w.table (call x w).2.table n)
    (w : World σ α) : ∃ n, Grown P w.table (inTurn call xs w).2.table n := by
  induction xs generalizing w with
  | nil => exact ⟨0, Grown.refl P w.table⟩
  | cons x xs ih =>
    obtain ⟨n, hgrown⟩ := hcall x List.mem_cons_self w
    unfold inTurn
    split
    · next count w' hx =>
      rw [hx] at hgrown
      obtain ⟨m, hrest⟩ := ih (fun y hy => hcall y (List.mem_cons_of_mem _ hy)) w'
      split
      · next total w'' hxs =>
        rw [hxs] at hrest
        exact ⟨n + m, hgrown.trans hrest⟩
      · exact ⟨n + m, hgrown.trans hrest⟩
    · exact ⟨n, hgrown⟩

/-- The timestamps have the format of the exchange. -/
def Stamped (api : CandleApi σ α) : Prop :=
  ∀ server req candles server', api server req = (.ok candles, server') →
    ∀ c ∈ candles, ∃ t : DateTime, c.candleDateTimeKst = t.strftime

/-- A row of the unit whose candle has ended. -/
def FinishedRow (unit : CandleUnit) (now : DateTime) (row : CandleRow α) : Prop :=
  row.unit = unit.minutes ∧ ∃ t : DateTime, row.ts = t.strftime ∧ Ended unit now t

/-- The end is the last slot that is over, if there is one, and all rows that `main` inserts are
    finished. -/
def StoresFinished (api : CandleApi σ α) (fuel : Nat) (now : DateTime) (args : Args)
    (w : World σ α) : Prop :=
  ((∃ last, calcEndTs now args.unit = .ok last.strftime ∧ LastEnded args.unit now last) ∨
    calcEndTs now args.unit = .error .overflowError ∧
      ∀ s, OnGrid args.unit s → ¬ Ended args.unit now s) ∧
  ∃ added, (main api fuel now args w).2.table.rows = w.table.rows ++ added ∧
    ∀ row ∈ added, FinishedRow args.unit now row

theorem fetchRange_finished {api : CandleApi σ α} (hstamped : Stamped api) {last : DateTime}
    (hlast : Ended unit now last) (fuel : Nat) (market startTs : String) (w : World σ α) :
    ∃ n, Grown (FinishedRow unit now) w.table
      (fetchRange api fuel market startTs last.strftime unit w).2.table n := by
  have hsends : Sends api market unit
      (fun c => ∃ t : DateTime, c.candleDateTimeKst = t.strftime) :=
    fun server toTs candles server' hanswer => hstamped server _ candles server' hanswer
  obtain ⟨n, hgrown, -⟩ :=
    fetchRangeLoop_grown startTs last.strftime hsends fuel last.strftime 0 w
  refine ⟨n, hgrown.imp ?_⟩
  rintro row ⟨c, ⟨t, ht⟩, hrange, rfl⟩
  -- A stamp that is not above the end of the range has no later time.
  have hle : t.elapsed ≤ last.elapsed := DateTime.strftime_le_iff.mp (ht ▸ hrange.2)
  exact ⟨rfl, t, ht, Nat.le_trans (Nat.add_le_add_right hle _) hlast⟩

theorem fetchMarket_finished {api : CandleApi σ α} (hstamped : Stamped api)
    {args : Args} {startTs endTs : String} (hstart : startTsOf now args = .ok startTs)
    (hend : endTsOf now args = .ok endTs) (hmarkets : args.markets ≠ []) (hsafe : ¬ Leaks now args)
    (fuel : Nat) (market : String) (w : World σ α) :
    ∃ n, Grown (FinishedRow args.unit now) w.table
      (fetchMarket api fuel market startTs endTs args.unit w).2.table n := by
  unfold fetchMarket
  split
  · exact ⟨0, Grown.refl _ _⟩
  · next gaps hgaps =>
    obtain ⟨first, e, hfirst, he, hwithin⟩ := findGaps_within hgaps
    refine inTurn_grown (fun gap hgap w => ?_) w
    obtain ⟨s, htext, hs, hge, hle⟩ := hwithin gap hgap
    have hended : Ended args.unit now s := by
      by_contra hopen
      obtain ⟨stop, day, hstop, hblank, hbyDay⟩ := blankEnd_of_open hend he hs hopen hle
      exact hsafe ⟨hmarkets, stop, day, startTs, first, s, hstop, hblank, hstart, hfirst,
        ⟨hs, hopen, hge, hbyDay⟩⟩
    rw [htext]
    exact fetchRange_finished hstamped hended fuel market gap.1 w

/-- Nothing leaks, so all that is stored has ended. -/
theorem main_finished {api : CandleApi σ α} (hstamped : Stamped api) {args : Args}
    (hsafe : ¬ Leaks now args) (fuel : Nat) (w : World σ α) :
    StoresFinished api fuel now args w := by
  refine ⟨calcEndTs_spec now args.unit, ?_⟩
  have hgrown : ∃ n, Grown (FinishedRow args.unit now) w.table
      (main api fuel now args w).2.table n := by
    unfold main
    split
    · next startTs endTs hstart hend =>
      refine inTurn_grown (fun market hmarket w => ?_) w
      exact fetchMarket_finished hstamped hstart hend (List.ne_nil_of_mem hmarket) hsafe fuel
        market w
    · exact ⟨0, Grown.refl _ _⟩
    · exact ⟨0, Grown.refl _ _⟩
  obtain ⟨n, added, hrows, -, hall⟩ := hgrown
  exact ⟨added, hrows, hall⟩

/-! What leaks. -/

/-- The last slot that is over is of this month, where the month has one. -/
theorem lastEnded_inMonth (h : now.date.day ≠ 1 ∨ unit.minutes ≤ totalMinutes now) :
    ∃ last : DateTime, calcEndTs now unit = .ok last.strftime ∧
      last.date.year = now.date.year ∧ last.date.month = now.date.month := by
  obtain ⟨hyear, hmonth, hday1, -⟩ := now.date.valid
  have hnow := elapsed_day now
  let monthStart : Date := ⟨now.date.year, now.date.month, 1, hyear, hmonth, Nat.le_refl 1,
    daysInMonth_pos _ _⟩
  let slot : DateTime := .ofFields monthStart 0 0 0 (by omega) (by omega) (by omega)
  have helapsed : slot.elapsed = secondsPerDay * monthStart.number := rfl
  have hslot : OnGrid unit slot :=
    onGrid_iff.mpr ⟨rfl, Nat.dvd_mul_right_of_dvd unit.dvd_day monthStart.number⟩
  have hended : Ended unit now slot := by
    have hle : monthStart.number ≤ now.date.number :=
      (Date.number_le_iff (d := monthStart) (e := now.date) rfl rfl).mpr hday1
    have hfits : unit.seconds ≤ secondsPerDay := Nat.le_of_dvd (by decide) unit.dvd_day
    show slot.elapsed + unit.seconds ≤ now.elapsed
    rcases h with hlater | hminutes
    · have hlt : monthStart.number < now.date.number :=
        Date.number_lt_of_day rfl rfl (Nat.lt_of_le_of_ne hday1 hlater.symm)
      unfold secondsPerDay at *
      omega
    · unfold CandleUnit.seconds secondsPerDay at *
      omega
  rcases calcEndTs_spec now unit with ⟨last, hcode, hspec⟩ | ⟨-, hnone⟩
  swap
  · exact absurd hended (hnone slot hslot)
  refine ⟨last, hcode, Date.month_of_between (d := monthStart) rfl rfl ?_ ?_⟩
  · have hle := DateTime.elapsed_le_of_le (hspec.latest slot hslot hended)
    rw [DateTime.number_date, Nat.le_div_iff_mul_le (by decide), Nat.mul_comm]
    exact hle
  · rw [DateTime.number_date, DateTime.number_date]
    exact Nat.div_le_div_right (Nat.le_trans (Nat.le_add_right _ _) hspec.ended)

/-- The end of the day that is written with a blank, past the cap. -/
theorem endTsOf_blankEnd {args : Args} {stop : String} {day : Nat} (hstop : args.stop = some stop)
    (h : BlankEnd now args.unit stop day) :
    ∃ endTs e, endTsOf now args = .ok endTs ∧ DateTime.strptime endTs = some e ∧
      e.date.number = dayNumber now.date.year now.date.month day ∧
      e.elapsed + args.unit.seconds < endOfTime ∧
      ∀ s : DateTime, s.date.number ≤ e.date.number → s.elapsed ≤ e.elapsed := by
  obtain ⟨last, hcap, hyear, hmonth⟩ := lastEnded_inMonth h.inMonth
  obtain ⟨hvalidYear, hvalidMonth, hday1, -⟩ := now.date.valid
  have hshort : 28 ≤ daysInMonth now.date.year now.date.month := daysInMonth_ge _ _
  have hpos := h.notBefore
  have hsingle := h.single
  let d : Date := ⟨now.date.year, now.date.month, day, hvalidYear, hvalidMonth, by omega, by omega⟩
  -- There is a day behind it, so the calendar goes on.
  let next : Date :=
    ⟨now.date.year, now.date.month, day + 1, hvalidYear, hvalidMonth, by omega, by omega⟩
  have hnext : d.number < next.number := Date.number_lt_of_day rfl rfl (Nat.lt_succ_self day)
  have hin := next.number_lt_maxDays
  have htext : stop ++ "T23:59:59" =
      String.ofList (DateTime.blankDay d.year d.month d.day ++ "T23:59:59".toList) := by
    rw [← h.text, ← String.toList_append, String.ofList_toList]
  have hbelow : ¬ last.strftime < stop ++ "T23:59:59" := by
    rw [not_lt, String.le_iff_toList_le, String.toList_append, h.text, DateTime.toList_strftime,
      ← hyear, ← hmonth]
    exact le_of_lt (last.blankDay_lt_stamp day _)
  have hne : stop ≠ "" := by
    rintro rfl
    have hnil := h.text
    simp [DateTime.blankDay] at hnil
  refine ⟨stop ++ "T23:59:59", .ofFields d 23 59 59 (by omega) (by omega) (by omega), ?_, ?_, ?_,
    ?_, fun s hs => ?_⟩
  · unfold endTsOf
    rw [hcap, hstop, Option.filter_some, if_pos (by simpa using hne)]
    exact congrArg Except.ok (if_neg hbelow)
  · rw [htext]
    exact DateTime.strptime_blankDay d hsingle
  · rw [DateTime.date_ofFields]
    rfl
  · have hfits : args.unit.seconds ≤ secondsPerDay := Nat.le_of_dvd (by decide) args.unit.dvd_day
    show secondsPerDay * d.number + 3600 * 23 + 60 * 59 + 59 + args.unit.seconds < _
    unfold endOfTime secondsPerDay at *
    omega
  · rw [DateTime.date_ofFields, DateTime.number_date] at hs
    have hlt := Nat.lt_mul_div_succ s.elapsed (show 0 < secondsPerDay by decide)
    show s.elapsed ≤ secondsPerDay * d.number + 3600 * 23 + 60 * 59 + 59
    unfold secondsPerDay at *
    omega

/-- The table has a row of the market at the slot. -/
def HasRow (market : String) (unit : CandleUnit) (slot : DateTime) (table : CandleTable α) : Prop :=
  (market, slot.strftime, unit.minutes) ∈ table.rows.map CandleRow.key

theorem inTurn_cons_keeps {K : CandleTable α → Prop} {call : β → World σ α → Run Nat × World σ α}
    {x : β} {xs : List β} {w : World σ α} (hone : K (call x w).2.table)
    (hrest : K (call x w).2.table → K (inTurn call xs (call x w).2).2.table) :
    K (inTurn call (x :: xs) w).2.table := by
  unfold inTurn
  split
  · next count w' hx =>
    rw [hx] at hone hrest
    have hall := hrest hone
    split
    · next total w'' hxs =>
      rw [hxs] at hall
      exact hall
    · exact hall
  · exact hone

theorem inTurn_keeps {K : CandleTable α → Prop} {call : β → World σ α → Run Nat × World σ α}
    {xs : List β} (hkeep : ∀ x ∈ xs, ∀ w, K w.table → K (call x w).2.table) (w : World σ α)
    (h : K w.table) : K (inTurn call xs w).2.table := by
  induction xs generalizing w with
  | nil => exact h
  | cons x xs ih =>
    exact inTurn_cons_keeps (hkeep x List.mem_cons_self w h)
      (ih (fun y hy => hkeep y (List.mem_cons_of_mem _ hy)) _)

theorem inTurn_stores {K : CandleTable α → Prop} {call : β → World σ α → Run Nat × World σ α}
    {xs : List β} (hdone : ∀ x ∈ xs, ∀ w, ∃ n, (call x w).1 = .done n)
    (hkeep : ∀ x ∈ xs, ∀ w, K w.table → K (call x w).2.table) {y : β} (hy : y ∈ xs)
    (hstore : ∀ w, K (call y w).2.table) (w : World σ α) : K (inTurn call xs w).2.table := by
  induction xs generalizing w with
  | nil => cases hy
  | cons x xs ih =>
    obtain ⟨n, hn⟩ := hdone x List.mem_cons_self w
    have hkeeps : ∀ z ∈ xs, ∀ w, K w.table → K (call z w).2.table :=
      fun z hz => hkeep z (List.mem_cons_of_mem _ hz)
    have hall : K (inTurn call xs (call x w).2).2.table := by
      rcases List.mem_cons.mp hy with rfl | hy
      · exact inTurn_keeps hkeeps _ (hstore w)
      · exact ih (fun z hz => hdone z (List.mem_cons_of_mem _ hz)) hkeeps hy _
    have hx : call x w = (.done n, (call x w).2) := Prod.ext hn rfl
    rw [inTurn, hx]
    simp only
    split
    · next total w'' hxs =>
      rw [hxs] at hall
      exact hall
    · exact hall

theorem fetchRange_hasRow {api : CandleApi σ α} {market m startTs endTs : String}
    {slot : DateTime} {fuel : Nat} {w : World σ α} (h : HasRow market unit slot w.table) :
    HasRow market unit slot (fetchRange api fuel m startTs endTs unit w).2.table := by
  have hsends : Sends api m unit (fun _ => True) := fun _ _ _ _ _ => fun _ _ => trivial
  obtain ⟨n, hgrown, -⟩ := fetchRangeLoop_grown startTs endTs hsends fuel endTs 0 w
  exact hgrown.keys h

theorem fetchMarket_hasRow {api : CandleApi σ α} {market m startTs endTs : String}
    {slot : DateTime} {fuel : Nat} {w : World σ α} (h : HasRow market unit slot w.table) :
    HasRow market unit slot (fetchMarket api fuel m startTs endTs unit w).2.table := by
  unfold fetchMarket
  split
  · exact h
  · next gaps hgaps =>
    have hkeep : ∀ gap ∈ gaps, ∀ w : World σ α, HasRow market unit slot w.table →
        HasRow market unit slot (fetchRange api fuel m gap.1 gap.2 unit w).2.table :=
      fun gap _ w hrow => fetchRange_hasRow hrow
    exact inTurn_keeps hkeep w h

/-- The gaps of an empty table hold every slot from the start to the end. -/
theorem findGaps_empty (market : String) {startTs endTs : String} {first e s : DateTime}
    {table : CandleTable α} (hempty : table.rows = [])
    (hfirst : DateTime.strptime startTs = some first) (he : DateTime.strptime endTs = some e)
    (hfits : e.elapsed + unit.seconds < endOfTime) (hs : OnGrid unit s)
    (hge : first.floorMinute.elapsed ≤ s.elapsed) (hle : s.elapsed ≤ e.elapsed) :
    ∃ gaps, findGaps table market unit startTs endTs = .ok gaps ∧
      ∃ gap ∈ gaps, gap.1 ≤ s.strftime ∧ s.strftime ≤ gap.2 := by
  have hboundary : boundary unit first ≤ s.elapsed :=
    (boundary_le unit first (onGrid_iff.mp hs).2).mpr hge
  have hstarts : boundary unit first < endOfTime := Nat.lt_of_le_of_lt hboundary s.elapsed_lt
  obtain ⟨ranges, hcode, -, -, hcovers⟩ := findGaps_spec table market hstarts (.inr hfits)
  have hnone : ∀ startTs endTs, existingTs table market unit startTs endTs = [] := by
    intro startTs endTs
    simp [existingTs, hempty]
  have hsame : findGaps table market unit startTs endTs =
      findGaps table market unit first.strftime e.strftime := by
    unfold findGaps
    rw [firstBoundary_of_strptime hfirst, parseTs_of_strptime he, hnone, hnone]
  obtain ⟨r, hr, hr1, hr2⟩ := (hcovers s hs).mpr ⟨hboundary, hle, by simp [hnone]⟩
  exact ⟨_, hsame.trans hcode, rangeText r, List.mem_map_of_mem hr,
    DateTime.strftime_le_iff.mpr (DateTime.elapsed_le_of_le hr1),
    DateTime.strftime_le_iff.mpr (DateTime.elapsed_le_of_le hr2)⟩

/-- An exchange that answers each request with the candle of one slot. -/
def slotApi [Inhabited α] (slot : DateTime) : CandleApi Unit α := fun _ _ =>
  (.ok [slotCandle slot], ())

section
variable [Inhabited α] {slot : DateTime} {market startTs endTs : String}

theorem stamped_slotApi (slot : DateTime) : Stamped (slotApi (α := α) slot) := by
  intro server req candles server' hanswer c hc
  obtain ⟨hok, -⟩ := Prod.mk.inj hanswer
  obtain rfl := Except.ok.inj hok
  rw [List.mem_singleton.mp hc]
  exact ⟨slot, rfl⟩

theorem fetchRange_slotApi (w : World Unit α) :
    (∃ n, (fetchRange (slotApi slot) 1 market startTs endTs unit w).1 = .done n) ∧
      (startTs ≤ slot.strftime → slot.strftime ≤ endTs → HasRow market unit slot
        (fetchRange (slotApi slot) 1 market startTs endTs unit w).2.table) := by
  have hstored := (insertBatch_spec market startTs endTs unit w.table
    [slotCandle (α := α) slot]).2 _ (List.mem_singleton_self _)
  have hbatch : fetchBatch (slotApi (α := α) slot) w.server market (some endTs) unit =
      (.ok [slotCandle slot], ()) := rfl
  have hshort : [slotCandle (α := α) slot].length < batchSize := by
    rw [List.length_singleton]
    decide
  unfold fetchRange fetchRangeLoop
  rw [hbatch]
  simp only [List.map_cons, List.map_nil, List.min?_cons, List.min?_nil, Option.elim_none,
    if_pos (Or.inl hshort)]
  exact ⟨⟨_, rfl⟩, fun hge hle => hstored ⟨hge, hle⟩⟩

theorem fetchMarket_slotApi {gaps : List (String × String)} (table : CandleTable α)
    (hgaps : findGaps table market unit startTs endTs = .ok gaps) {gap : String × String}
    (hgap : gap ∈ gaps) (hge : gap.1 ≤ slot.strftime) (hle : slot.strftime ≤ gap.2) :
    HasRow market unit slot
      (fetchMarket (slotApi slot) 1 market startTs endTs unit ⟨(), table⟩).2.table := by
  have hrange : ∀ x ∈ gaps, ∀ w : World Unit α, HasRow market unit slot w.table →
      HasRow market unit slot (fetchRange (slotApi slot) 1 market x.1 x.2 unit w).2.table :=
    fun x _ w hrow => fetchRange_hasRow hrow
  unfold fetchMarket
  simp only [hgaps]
  exact inTurn_stores (fun x _ w => (fetchRange_slotApi w).1) hrange hgap
    (fun w => (fetchRange_slotApi w).2 hge hle) ⟨(), table⟩

/-- What leaks is stored, if the exchange has it already. -/
theorem main_leaks {args : Args} {stop : String} {day : Nat} {first : DateTime}
    (hmarkets : args.markets ≠ []) (hstop : args.stop = some stop)
    (hblank : BlankEnd now args.unit stop day) (hstart : startTsOf now args = .ok startTs)
    (hfirst : DateTime.strptime startTs = some first)
    (hslot : OpenSlot now args.unit first day slot) (table : CandleTable α)
    (hempty : table.rows = []) :
    ¬ StoresFinished (slotApi (α := α) slot) 1 now args ⟨(), table⟩ := by
  obtain ⟨endTs, e, hend, he, hnumber, hfits, hbefore⟩ := endTsOf_blankEnd hstop hblank
  obtain ⟨market, markets, hcons⟩ := List.exists_cons_of_ne_nil hmarkets
  have hstored : HasRow market args.unit slot
      (fetchMarket (slotApi (α := α) slot) 1 market startTs endTs args.unit ⟨(), table⟩).2.table := by
    have hle : slot.elapsed ≤ e.elapsed := hbefore slot (hnumber ▸ hslot.byDay)
    obtain ⟨gaps, hgaps, gap, hgap, hge, hle⟩ := findGaps_empty market hempty hfirst he
      hfits hslot.onGrid hslot.start hle
    exact fetchMarket_slotApi table hgaps hgap hge hle
  have hmain : HasRow market args.unit slot
      (main (slotApi (α := α) slot) 1 now args ⟨(), table⟩).2.table := by
    have hkeep : ∀ m ∈ markets, ∀ w : World Unit α, HasRow market args.unit slot w.table →
        HasRow market args.unit slot
          (fetchMarket (slotApi slot) 1 m startTs endTs args.unit w).2.table :=
      fun m _ w hrow => fetchMarket_hasRow hrow
    unfold main
    simp only [hstart, hend, hcons]
    exact inTurn_cons_keeps hstored (inTurn_keeps hkeep _)
  rintro ⟨-, added, hrows, hall⟩
  obtain ⟨row, hrow, hkey⟩ := List.mem_map.mp hmain
  rw [hrows, hempty, List.nil_append] at hrow
  obtain ⟨-, t, hts, hended⟩ := hall row hrow
  have htext : t.strftime = slot.strftime :=
    hts.symm.trans (congrArg (fun key => key.2.1) hkey)
  have hsame : slot.elapsed ≤ t.elapsed := DateTime.strftime_le_iff.mp (le_of_eq htext.symm)
  exact hslot.notEnded (Nat.le_trans (Nat.add_le_add_right hsame _) hended)

theorem main_finished_iff (now : DateTime) (args : Args) :
    (∀ (σ : Type) (api : CandleApi σ α), Stamped api → ∀ fuel w,
      StoresFinished api fuel now args w) ↔ ¬ Leaks now args := by
  refine ⟨fun hall hleaks => ?_, fun hsafe σ api hstamped fuel w =>
    main_finished hstamped hsafe fuel w⟩
  obtain ⟨hmarkets, stop, day, startTs, first, slot, hstop, hblank, hstart, hfirst, hslot⟩ := hleaks
  exact main_leaks hmarkets hstop hblank hstart hfirst hslot ⟨[], List.nodup_nil⟩ rfl
    (hall Unit (slotApi slot) (stamped_slotApi slot) 1 _)

end

end

/-! On the fifth of a month the ninth is asked for, with a blank. -/

theorem fifth_lt : 63840046050 < endOfTime := by decide

def fifth : DateTime where
  elapsed := 63840046050
  microsecond := 0
  elapsed_lt := fifth_lt
  microsecond_lt := DateTime.zero_lt_million

example : fifth.strftime = "2024-01-05T10:07:30" := by decide +kernel

def blankArgs : Args where
  markets := ["KRW-ADA"]
  days := 1
  start := none
  stop := some "2024-01- 9"
  unit := quarterHour

/-- The slot that the fifth is in at seven past ten. -/
def openSlot : DateTime where
  elapsed := 63840046050 - 450
  microsecond := 0
  elapsed_lt := Nat.lt_of_le_of_lt (Nat.sub_le _ _) fifth_lt
  microsecond_lt := DateTime.zero_lt_million

example : openSlot.strftime = "2024-01-05T10:00:00" := by decide +kernel

theorem blankEnd_fifth : BlankEnd fifth quarterHour "2024-01- 9" 9 where
  text := by decide +kernel
  notBefore := by decide +kernel
  single := by decide
  inMonth := .inl (by decide +kernel)

/-- The candle of ten o'clock is stored eight minutes before it ends. -/
theorem not_main_finished : ¬ ∀ (σ : Type) (api : CandleApi σ Nat), Stamped api →
    ∀ now args fuel w, StoresFinished api fuel now args w := by
  intro hclaim
  obtain ⟨dayBefore, hdayBefore, helapsed⟩ : ∃ t : DateTime,
      addMinutes fifth (-1440) = .ok t ∧ t.elapsed = 63839959650 := ⟨_, rfl, rfl⟩
  have hstart : startTsOf fifth blankArgs = .ok dayBefore.strftime := by
    show (addMinutes fifth (-1440) >>= fun t => .ok t.strftime) = _
    rw [hdayBefore]
    rfl
  have hslot : OpenSlot fifth quarterHour dayBefore.floorSecond 9 openSlot := by
    refine ⟨onGrid_iff.mpr ⟨rfl, by decide⟩, ?_, ?_, by decide +kernel⟩
    · show ¬ 63840045600 + 60 * 15 ≤ 63840046050
      decide
    · show dayBefore.elapsed - _ ≤ 63840045600
      omega
  exact main_leaks (List.cons_ne_nil _ _) rfl blankEnd_fifth hstart dayBefore.strptime_strftime
    hslot emptyTable rfl (hclaim Unit (slotApi openSlot) (stamped_slotApi openSlot) fifth blankArgs 1
      ⟨(), emptyTable⟩)

end CoinBot.Collector
