import CoinBot.Collector.FetchCandles
import CoinBot.Lib.Paging
import Mathlib.Data.List.Induction

/- `fetch_range`: the batches from `end_ts` back.

   Whatever the exchange answers, the table only grows by candles of the range. Where it answers
   from a history, each full batch ends above what is still out; the next one starts at the
   oldest candle of it, so the candles up to it become fewer. -/
namespace CoinBot.Collector
open Calendar

section
variable {α : Type}

/-! The table grows. -/

/-- `n` rows behind the old ones, each with the property. -/
def Grown (P : CandleRow α → Prop) (table table' : CandleTable α) (n : Nat) : Prop :=
  ∃ added, table'.rows = table.rows ++ added ∧ added.length = n ∧ ∀ row ∈ added, P row

variable {P Q : CandleRow α → Prop} {table table' table'' : CandleTable α} {n m : Nat}

theorem Grown.refl (P : CandleRow α → Prop) (table : CandleTable α) : Grown P table table 0 :=
  ⟨[], (List.append_nil _).symm, rfl, by simp⟩

theorem Grown.trans (h : Grown P table table' n) (h' : Grown P table' table'' m) :
    Grown P table table'' (n + m) := by
  obtain ⟨added, hrows, hlength, hall⟩ := h
  obtain ⟨added', hrows', hlength', hall'⟩ := h'
  refine ⟨added ++ added', by rw [hrows', hrows, List.append_assoc], ?_, ?_⟩
  · rw [List.length_append, hlength, hlength']
  · intro row hrow
    rcases List.mem_append.mp hrow with hrow | hrow
    · exact hall row hrow
    · exact hall' row hrow

theorem Grown.imp (h : Grown P table table' n) (himp : ∀ row, P row → Q row) :
    Grown Q table table' n := by
  obtain ⟨added, hrows, hlength, hall⟩ := h
  exact ⟨added, hrows, hlength, fun row hrow => himp row (hall row hrow)⟩

theorem Grown.keys (h : Grown P table table' n) {k : String × String × Nat}
    (hk : k ∈ table.rows.map CandleRow.key) : k ∈ table'.rows.map CandleRow.key := by
  obtain ⟨added, hrows, -⟩ := h
  rw [hrows, List.map_append]
  exact List.mem_append_left _ hk

theorem insertCandleRow_grown (table : CandleTable α) (market : String) (c : CandleDto α)
    (unit : CandleUnit) :
    Grown (· = c.toRow market unit.minutes) table (insertCandleRow table market c unit).1
      (insertCandleRow table market c unit).2 := by
  unfold insertCandleRow
  dsimp only
  split
  · exact Grown.refl _ table
  · exact ⟨[c.toRow market unit.minutes], rfl, rfl, by simp⟩

theorem key_mem_insertCandleRow (table : CandleTable α) (market : String) (c : CandleDto α)
    (unit : CandleUnit) :
    (c.toRow market unit.minutes).key ∈
      (insertCandleRow table market c unit).1.rows.map CandleRow.key := by
  unfold insertCandleRow
  dsimp only
  split
  · next hstored => exact hstored
  · simp

/-! A batch. -/

/-- The candle is in the range, as the code compares. -/
def InRange (startTs endTs : String) (c : CandleDto α) : Prop :=
  startTs ≤ c.candleDateTimeKst ∧ c.candleDateTimeKst ≤ endTs

instance (startTs endTs : String) (c : CandleDto α) : Decidable (InRange startTs endTs c) :=
  inferInstanceAs (Decidable (startTs ≤ c.candleDateTimeKst ∧ c.candleDateTimeKst ≤ endTs))

/-- The row comes from one of these candles, in the range. -/
def FromRange (market startTs endTs : String) (unit : CandleUnit) (C : CandleDto α → Prop)
    (row : CandleRow α) : Prop :=
  ∃ c, C c ∧ InRange startTs endTs c ∧ row = c.toRow market unit.minutes

variable {market startTs endTs : String} {unit : CandleUnit} {candles : List (CandleDto α)}

theorem insertBatch_concat (c : CandleDto α) :
    insertBatch market startTs endTs unit table (candles ++ [c]) =
      let before := insertBatch market startTs endTs unit table candles
      if InRange startTs endTs c then
        ((insertCandleRow before.1 market c unit).1,
          before.2 + (insertCandleRow before.1 market c unit).2)
      else before := by
  unfold insertBatch
  rw [List.foldl_append]
  rfl

/-- The batch adds candles of its own in the range, and each of them is stored then. -/
theorem insertBatch_spec (market startTs endTs : String) (unit : CandleUnit)
    (table : CandleTable α) (candles : List (CandleDto α)) :
    Grown (FromRange market startTs endTs unit (· ∈ candles)) table
        (insertBatch market startTs endTs unit table candles).1
        (insertBatch market startTs endTs unit table candles).2 ∧
      ∀ c ∈ candles, InRange startTs endTs c → (c.toRow market unit.minutes).key ∈
        (insertBatch market startTs endTs unit table candles).1.rows.map CandleRow.key := by
  induction candles using List.reverseRecOn with
  | nil => exact ⟨Grown.refl _ table, by simp⟩
  | append_singleton candles c ih =>
    obtain ⟨hgrown, hstored⟩ := ih
    have hgrown := hgrown.imp (Q := FromRange market startTs endTs unit (· ∈ candles ++ [c]))
      fun row ⟨d, hd, hrange, hrow⟩ => ⟨d, List.mem_append_left _ hd, hrange, hrow⟩
    rw [insertBatch_concat]
    dsimp only
    split
    · next hrange =>
      have hinsert := insertCandleRow_grown
        (insertBatch market startTs endTs unit table candles).1 market c unit
      refine ⟨hgrown.trans (hinsert.imp fun row hrow => ⟨c, by simp, hrange, hrow⟩), ?_⟩
      intro d hd hd'
      rcases List.mem_append.mp hd with hd | hd
      · exact hinsert.keys (hstored d hd hd')
      · rw [List.mem_singleton.mp hd]
        exact key_mem_insertCandleRow _ market c unit
    · next hout =>
      refine ⟨hgrown, fun d hd hd' => ?_⟩
      rcases List.mem_append.mp hd with hd | hd
      · exact hstored d hd hd'
      · exact absurd (List.mem_singleton.mp hd ▸ hd') hout

/-! The loop. -/

section
variable {σ : Type} {api : CandleApi σ α}

/-- For this market and unit the exchange only sends candles with the property. -/
def Sends (api : CandleApi σ α) (market : String) (unit : CandleUnit) (C : CandleDto α → Prop) :
    Prop :=
  ∀ server toTs candles server',
    fetchBatch api server market toTs unit = (.ok candles, server') → ∀ c ∈ candles, C c

variable (startTs endTs) in
/-- Whatever happens, the loop adds candles of the range, and counts them. -/
theorem fetchRangeLoop_grown {C : CandleDto α → Prop} (hsends : Sends api market unit C) (fuel : Nat)
    (toTs : String) (count : Nat) (w : World σ α) :
    ∃ n, Grown (FromRange market startTs endTs unit C) w.table
        (fetchRangeLoop api market startTs endTs unit fuel toTs count w).2.table n ∧
      ∀ total, (fetchRangeLoop api market startTs endTs unit fuel toTs count w).1 = .done total →
        total = count + n := by
  induction fuel generalizing toTs count w with
  | zero =>
    refine ⟨0, Grown.refl _ _, fun total h => ?_⟩
    cases h
  | succ fuel ih =>
    unfold fetchRangeLoop
    split
    · refine ⟨0, Grown.refl _ _, fun total h => ?_⟩
      cases h
    · next candles server hanswer =>
      split
      · refine ⟨0, Grown.refl _ _, fun total h => ?_⟩
        cases h
        rfl
      · next oldestTs holdest =>
        -- The batch is in the table before the loop looks how far back it came.
        have hbatch := (insertBatch_spec market startTs endTs unit w.table candles).1.imp
          (Q := FromRange market startTs endTs unit C)
          fun row ⟨c, hc, hrange, hrow⟩ => ⟨c, hsends _ _ _ _ hanswer c hc, hrange, hrow⟩
        dsimp only
        split
        · refine ⟨_, hbatch, fun total h => ?_⟩
          cases h
          rfl
        · obtain ⟨n, hgrown, htotal⟩ := ih oldestTs
            (count + (insertBatch market startTs endTs unit w.table candles).2)
            { server := server, table := (insertBatch market startTs endTs unit w.table candles).1 }
          refine ⟨_, hbatch.trans hgrown, fun total h => ?_⟩
          rw [htotal total h, Nat.add_assoc]

theorem fetchRangeLoop_more (fuel : Nat) (toTs : String) (count : Nat) (w : World σ α) {total : Nat}
    (h : (fetchRangeLoop api market startTs endTs unit fuel toTs count w).1 = .done total)
    (more : Nat) :
    fetchRangeLoop api market startTs endTs unit (fuel + more) toTs count w =
      fetchRangeLoop api market startTs endTs unit fuel toTs count w := by
  induction fuel generalizing toTs count w with
  | zero => cases h
  | succ fuel ih =>
    rw [Nat.add_right_comm]
    unfold fetchRangeLoop at h ⊢
    split
    · rfl
    · next candles server hanswer =>
      rw [hanswer] at h
      dsimp only at h
      split
      · rfl
      · next oldestTs holdest =>
        rw [holdest] at h
        dsimp only at h ⊢
        split
        · rfl
        · next hgo =>
          rw [if_neg hgo] at h
          exact ih _ _ _ h

end

/-! A history. -/

/-- The candles of each market and unit, the newest first. -/
structure History (α : Type) where
  candles : String → Nat → List (CandleDto α)
  decreasing : ∀ market unit,
    (candles market unit).Pairwise (·.candleDateTimeKst > ·.candleDateTimeKst)

/-- An exchange that answers from a history: the newest candles up to `to`, the newest of all
    without it. -/
def History.api (history : History α) : CandleApi Unit α := fun _ req =>
  (.ok (Paging.page (·.candleDateTimeKst) req.count req.toTs
    (history.candles req.market req.unit)), ())

variable {history : History α} {toTs oldestTs : String}

/-- What the loop has still to draw from. -/
def pending (history : History α) (market : String) (unit : CandleUnit) (toTs : String) :
    List (CandleDto α) :=
  Paging.upTo (·.candleDateTimeKst) ((some toTs).filter (· ≠ ""))
    (history.candles market unit.minutes)

def batch (history : History α) (market : String) (unit : CandleUnit) (toTs : String) :
    List (CandleDto α) :=
  Paging.page (·.candleDateTimeKst) batchSize ((some toTs).filter (· ≠ ""))
    (history.candles market unit.minutes)

theorem fetchBatch_history :
    fetchBatch history.api () market (some toTs) unit = (.ok (batch history market unit toTs), ()) :=
  rfl

/-- A later `to` is behind the start, so it is not empty. -/
theorem pending_of_lt (history : History α) (market : String) (unit : CandleUnit)
    (h : startTs < oldestTs) :
    pending history market unit oldestTs = Paging.upTo (·.candleDateTimeKst) (some oldestTs)
      (history.candles market unit.minutes) := by
  have hne : oldestTs ≠ "" := by
    rintro rfl
    exact List.not_lt_nil _ (String.lt_iff_toList_lt.mp h)
  rw [pending, Option.filter_some, if_pos (by simpa using hne)]

/-- Each candle of the range that is no longer pending is stored. -/
def Covered (history : History α) (market startTs endTs : String) (unit : CandleUnit)
    (toTs : String) (table : CandleTable α) : Prop :=
  ∀ c ∈ history.candles market unit.minutes, InRange startTs endTs c →
    c ∉ pending history market unit toTs →
      (c.toRow market unit.minutes).key ∈ table.rows.map CandleRow.key

theorem oldest_of_min (h : (candles.map (·.candleDateTimeKst)).min? = some oldestTs) :
    (∃ c ∈ candles, c.candleDateTimeKst = oldestTs) ∧
      ∀ c ∈ candles, oldestTs ≤ c.candleDateTimeKst := by
  obtain ⟨hmem, hle⟩ := List.min?_eq_some_iff.mp h
  exact ⟨List.mem_map.mp hmem, fun c hc => hle _ (List.mem_map_of_mem hc)⟩

/-- With turns enough for what is pending the loop ends, and the range is covered. -/
theorem fetchRangeLoop_covers (history : History α) (market startTs endTs : String)
    (unit : CandleUnit) {fuel : Nat} {toTs : String}
    (hfuel : (pending history market unit toTs).length < fuel) (count : Nat) {w : World Unit α}
    (hcovered : Covered history market startTs endTs unit toTs w.table) :
    ∃ total table', fetchRangeLoop history.api market startTs endTs unit fuel toTs count w =
        (.done total, { server := (), table := table' }) ∧
      ∀ c ∈ history.candles market unit.minutes, InRange startTs endTs c →
        (c.toRow market unit.minutes).key ∈ table'.rows.map CandleRow.key := by
  induction fuel generalizing toTs count w with
  | zero => omega
  | succ fuel ih =>
    unfold fetchRangeLoop
    rw [fetchBatch_history]
    dsimp only
    have hitems := history.decreasing market unit.minutes
    have hspec := insertBatch_spec market startTs endTs unit w.table
      (batch history market unit toTs)
    -- A candle of the batch is stored, one that was not pending has been before.
    have hstored : ∀ c ∈ history.candles market unit.minutes, InRange startTs endTs c →
        (c ∈ pending history market unit toTs → c ∈ batch history market unit toTs) →
        (c.toRow market unit.minutes).key ∈ (insertBatch market startTs endTs unit w.table
          (batch history market unit toTs)).1.rows.map CandleRow.key := by
      intro c hc hrange hbatch
      by_cases hpending : c ∈ pending history market unit toTs
      · exact hspec.2 c (hbatch hpending) hrange
      · exact hspec.1.keys (hcovered c hc hrange hpending)
    split
    · next hempty =>
      have hnil : batch history market unit toTs = [] :=
        List.map_eq_nil_iff.mp (List.min?_eq_none_iff.mp hempty)
      have hnone : pending history market unit toTs = [] := by
        rw [batch] at hnil
        rw [pending, ← Paging.page_of_short (n := batchSize) (by rw [hnil]; exact Nat.succ_pos 199), hnil]
      refine ⟨count, w.table, rfl, fun c hc hrange => hcovered c hc hrange ?_⟩
      rw [hnone]
      exact List.not_mem_nil
    · next oldestTs holdest =>
      obtain ⟨hmem, hleast⟩ := oldest_of_min holdest
      split
      · next hstop =>
        refine ⟨_, _, rfl, fun c hc hrange => hstored c hc hrange fun hpending => ?_⟩
        rcases hstop with hshort | hstart
        · rw [batch, Paging.page_of_short hshort]
          exact hpending
        · -- What the batch leaves out lies before the start.
          by_contra hout
          obtain ⟨y, hy, rfl⟩ := hmem
          have hlt := Paging.lt_of_left_out hitems hpending hout hy
          exact absurd hrange.1 (not_le.mpr (lt_of_lt_of_le hlt hstart))
      · next hgo =>
        rw [not_or, not_lt, not_le] at hgo
        have hpending := pending_of_lt history market unit hgo.2
        have hfewer : (pending history market unit oldestTs).length <
            (pending history market unit toTs).length := by
          rw [hpending]
          exact Paging.length_upTo_lt hitems (Nat.le_trans (by decide) hgo.1) hmem hleast
        refine ih (by omega) _ fun c hc hrange hnot => hstored c hc hrange fun hin => ?_
        -- The candle lies behind the oldest of the batch.
        by_contra hout
        obtain ⟨y, hy, heq⟩ := hmem
        have hlt := Paging.lt_of_left_out hitems hin hout hy
        rw [heq] at hlt
        rw [hpending, Paging.mem_upTo] at hnot
        refine hnot ⟨hc, fun t ht => ?_⟩
        rw [← Option.some.inj ht]
        exact le_of_lt hlt

theorem sends_history (history : History α) (market : String) (unit : CandleUnit) :
    Sends history.api market unit (· ∈ history.candles market unit.minutes) := by
  intro server toTs candles server' hanswer c hc
  obtain rfl : _ = candles := by simpa [fetchBatch, History.api] using hanswer
  exact (Paging.mem_upTo.mp (Paging.mem_of_mem_page hc)).1

theorem fetchRange_complete (history : History α) (market startTs endTs : String)
    (unit : CandleUnit) (table : CandleTable α) :
    ∃ turns count table',
      (∀ fuel, turns ≤ fuel →
        fetchRange history.api fuel market startTs endTs unit { server := (), table := table } =
          (.done count, { server := (), table := table' })) ∧
      (∀ c ∈ history.candles market unit.minutes,
        startTs ≤ c.candleDateTimeKst → c.candleDateTimeKst ≤ endTs →
          (c.toRow market unit.minutes).key ∈ table'.rows.map CandleRow.key) ∧
      ∃ added, table'.rows = table.rows ++ added ∧ added.length = count ∧
        ∀ row ∈ added, ∃ c ∈ history.candles market unit.minutes,
          row = c.toRow market unit.minutes ∧ startTs ≤ row.ts ∧ row.ts ≤ endTs := by
  -- Nothing of the range lies behind `end_ts`.
  have hcovered : Covered history market startTs endTs unit endTs table := by
    intro c hc hrange hnot
    refine absurd (Paging.mem_upTo.mpr ⟨hc, fun t ht => ?_⟩) hnot
    have ht : some endTs = some t := Option.eq_some_of_filter_eq_some ht
    exact Option.some.inj ht ▸ hrange.2
  obtain ⟨count, table', hrun, hall⟩ := fetchRangeLoop_covers history market startTs endTs unit
    (Nat.lt_succ_self (pending history market unit endTs).length) 0
    (w := { server := (), table := table }) hcovered
  obtain ⟨n, hgrown, htotal⟩ := fetchRangeLoop_grown startTs endTs
    (sends_history history market unit) ((pending history market unit endTs).length + 1) endTs 0
    { server := (), table := table }
  rw [hrun] at hgrown htotal
  obtain ⟨added, hrows, hlength, hadded⟩ := hgrown
  refine ⟨(pending history market unit endTs).length + 1, count, table', fun fuel hfuel => ?_,
    fun c hc hge hle => hall c hc ⟨hge, hle⟩, added, hrows, ?_, fun row hrow => ?_⟩
  · rw [fetchRange, ← Nat.add_sub_of_le hfuel, fetchRangeLoop_more _ _ _ _ (by rw [hrun]), hrun]
  · have htotal := htotal count rfl
    omega
  · obtain ⟨c, hc, hrange, rfl⟩ := hadded row hrow
    exact ⟨c, hc, rfl, hrange⟩

end

/-! A history of five batches. -/

def slotCandle {α : Type} [Inhabited α] (slot : DateTime) : CandleDto α where
  candleDateTimeKst := slot.strftime
  openingPrice := default
  highPrice := default
  lowPrice := default
  tradePrice := default
  candleAccTradeVolume := default

section
variable {n : Nat} (hn : 60 * n ≤ endOfTime)
include hn

def minuteOf (k : Fin n) : DateTime where
  elapsed := 60 * k
  microsecond := 0
  elapsed_lt := Nat.lt_of_lt_of_le (Nat.mul_lt_mul_of_pos_left k.isLt (Nat.succ_pos _)) hn
  microsecond_lt := DateTime.zero_lt_million

theorem strftime_minuteOf_le {j k : Fin n} :
    (minuteOf hn j).strftime ≤ (minuteOf hn k).strftime ↔ j ≤ k := by
  rw [DateTime.strftime_le_iff]
  exact Nat.mul_le_mul_left_iff (by decide)

/-- The candles of the first minutes. -/
def minutesHistory : History ℚ where
  candles _ _ := (List.finRange n).reverse.map (fun k => slotCandle (minuteOf hn k))
  decreasing market unit := by
    rw [List.pairwise_map, List.pairwise_reverse]
    refine (List.pairwise_lt_finRange n).imp (fun {j k} hlt => ?_)
    exact not_le.mp (mt (strftime_minuteOf_le hn).mp (Fin.not_le.mpr hlt))

theorem length_minutesHistory (market : String) (unit : Nat) :
    ((minutesHistory hn).candles market unit).length = n := by
  simp [minutesHistory]

theorem mem_minutesHistory (market : String) (unit : Nat) (k : Fin n) :
    slotCandle (minuteOf hn k) ∈ (minutesHistory hn).candles market unit :=
  List.mem_map_of_mem (List.mem_reverse.mpr (List.mem_finRange k))

end

theorem thousand_le : 60 * 1000 ≤ endOfTime := by decide

theorem fetchRange_complete_minutes :
    ((minutesHistory thousand_le).candles "KRW-BTC" 1).length = 5 * batchSize ∧
      ∃ turns count table',
        fetchRange (minutesHistory thousand_le).api turns "KRW-BTC"
          (minuteOf thousand_le 0).strftime (minuteOf thousand_le 999).strftime
          (.ofChoice 1 (by decide))
          { server := (), table := { rows := [], unique := List.nodup_nil } } =
            (.done count, { server := (), table := table' }) ∧
        table'.rows.length = count ∧
        ∀ k, ("KRW-BTC", (minuteOf thousand_le k).strftime, 1) ∈
          table'.rows.map CandleRow.key := by
  obtain ⟨turns, count, table', hdone, hstored, added, hrows, hlength, -⟩ :=
    fetchRange_complete (minutesHistory thousand_le) "KRW-BTC"
      (minuteOf thousand_le 0).strftime (minuteOf thousand_le 999).strftime
      (.ofChoice 1 (by decide)) { rows := [], unique := List.nodup_nil }
  refine ⟨length_minutesHistory thousand_le "KRW-BTC" 1, turns, count, table',
    hdone turns le_rfl, ?_, fun k => ?_⟩
  · rw [hrows, List.nil_append, hlength]
  · refine hstored _ (mem_minutesHistory thousand_le "KRW-BTC" 1 k) ?_ ?_
    · exact (strftime_minuteOf_le thousand_le).mpr (Fin.zero_le k)
    · exact (strftime_minuteOf_le thousand_le).mpr (Fin.le_last k)

end CoinBot.Collector
