import CoinBot.Dashboard.PairTrades
import Mathlib.Algebra.BigOperators.Group.List.Basic

/- The cycles of a market, by the windows of its BIDs.

   The cursor is a sweep: it cuts from the ASKs in order what lies in each window. A filter of
   all orders by the same window has the same ASKs in another order, and the sum, the number and
   the latest time of them do not depend on it. -/
namespace CoinBot.Dashboard

section
variable {α Date : Type}

/-- Each BID with the time of the next one. -/
def withNext : List (OrderRow α) → List (OrderRow α × Option Int)
  | [] => []
  | bid :: bids => (bid, bids.head?.map (·.createdAtMs)) :: withNext bids

/-- The ASKs of a market behind a BID and before the next one. -/
def windowAsks (orders : List (OrderRow α)) (market : String) (w : OrderRow α × Option Int) :
    List (OrderRow α) :=
  ((orders.filter (·.market = market)).filter (·.side = .ask)).filter (fun ask =>
    Sweep.Between w.1.createdAtMs w.2 ask.createdAtMs)

theorem map_fst_withNext (bids : List (OrderRow α)) : (withNext bids).map (·.1) = bids := by
  induction bids with
  | nil => rfl
  | cons bid bids ih => rw [withNext, List.map_cons, ih]

theorem spans_withNext (bids : List (OrderRow α)) :
    Sweep.spans (bids.map (·.createdAtMs)) =
      (withNext bids).map (fun w => (w.1.createdAtMs, w.2)) := by
  induction bids with
  | nil => rfl
  | cons bid bids ih => rw [List.map_cons, Sweep.spans, withNext, List.map_cons, ih, List.head?_map]

section
variable [Field α] [LinearOrder α]

/-- The row of a BID, by the ASKs in its window. -/
structure IsCycle (orders : List (OrderRow α)) (market : String) (w : OrderRow α × Option Int)
    (row : TradeRow α Date) : Prop where
  ofMarket : row.market = market
  openTsMs : row.openTsMs = w.1.createdAtMs
  cost : row.cost = w.1.executedFunds + w.1.paidFee
  revenue : row.revenue =
    ((windowAsks orders market w).map (fun ask => ask.executedFunds - ask.paidFee)).sum
  pnl : row.pnl = row.revenue - row.cost
  pnlPct : row.pnlPct = if 0 < row.cost then row.pnl / row.cost else 0
  nAsks : row.nAsks = (windowAsks orders market w).length
  lastAsk : ∃ ask ∈ windowAsks orders market w, ask.createdAtMs = row.closeTsMs
  latest : ∀ ask ∈ windowAsks orders market w, ask.createdAtMs ≤ row.closeTsMs

/-! The cursor. -/

omit [Field α] [LinearOrder α] in
/-- At positive times the loop of a BID is one cut of the sweep. -/
theorem matchAsks_eq_cut {bidTs : Int} {nextBidTs : Option Int} (hnext : ∀ t ∈ nextBidTs, 0 < t)
    (asks : List (OrderRow α)) :
    matchAsks bidTs nextBidTs asks = Sweep.cut (·.createdAtMs) bidTs nextBidTs asks := by
  induction asks with
  | nil => rfl
  | cons ask rest ih =>
    have htruthy : nextBidTs.any (fun t => decide (t ≠ 0 ∧ t ≤ ask.createdAtMs)) =
        nextBidTs.any (fun t => decide (t ≤ ask.createdAtMs)) := by
      cases nextBidTs with
      | none => rfl
      | some t =>
        have hpos := hnext t rfl
        simp only [Option.any_some, decide_eq_decide]
        omega
    rw [matchAsks, Sweep.cut, ih, htruthy]

theorem pairBids_eq_zip (sellSigs : List SignalRow) (market : String) {bids : List (OrderRow α)}
    (hpos : ∀ bid ∈ bids, 0 < bid.createdAtMs) (asks : List (OrderRow α)) :
    pairBids sellSigs market bids asks =
      (bids.zip (Sweep.windows (·.createdAtMs) (bids.map (·.createdAtMs)) asks)).filterMap
        (fun w => cycleOf sellSigs market w.1 w.2) := by
  induction bids generalizing asks with
  | nil => rfl
  | cons bid bids ih =>
    have hnext : ∀ t ∈ bids.head?.map (·.createdAtMs), 0 < t := by
      intro t ht
      obtain ⟨next, hhead, rfl⟩ := Option.map_eq_some_iff.mp ht
      exact hpos next (List.mem_cons_of_mem _ (List.mem_of_mem_head? hhead))
    rw [pairBids, matchAsks_eq_cut hnext]
    show (cycleOf sellSigs market bid _).toList ++ pairBids sellSigs market bids _ = _
    rw [ih (fun b hb => hpos b (List.mem_cons_of_mem _ hb)), List.map_cons, Sweep.windows,
      List.zip_cons_cons, List.filterMap_cons, List.head?_map]
    split
    · next hnone => rw [hnone]; rfl
    · next hsome => rw [hsome]; rfl

/-- The cycles of a market, each from what lies in its window. -/
theorem pairBids_eq (sellSigs : List SignalRow) (market : String) {bids asks : List (OrderRow α)}
    (hpos : ∀ bid ∈ bids, 0 < bid.createdAtMs)
    (hbids : bids.Pairwise (·.createdAtMs ≤ ·.createdAtMs))
    (hasks : asks.Pairwise (·.createdAtMs ≤ ·.createdAtMs)) :
    pairBids sellSigs market bids asks =
      (withNext bids).filterMap (fun w => cycleOf sellSigs market w.1
        (asks.filter (fun ask => Sweep.Between w.1.createdAtMs w.2 ask.createdAtMs))) := by
  have hwindows := Sweep.windows_eq (List.pairwise_map.mpr hbids) hasks
  rw [spans_withNext, List.map_map] at hwindows
  have hzip : ∀ g : OrderRow α × Option Int → List (OrderRow α),
      bids.zip ((withNext bids).map g) = (withNext bids).map (fun w => (w.1, g w)) := by
    intro g
    calc bids.zip ((withNext bids).map g)
        = ((withNext bids).map (·.1)).zip ((withNext bids).map g) := by rw [map_fst_withNext]
      _ = (withNext bids).map (fun w => (w.1, g w)) := List.zip_map' ..
  rw [pairBids_eq_zip sellSigs market hpos, hwindows, hzip, List.filterMap_map]
  rfl

omit [Field α] [LinearOrder α] in
theorem lastAsk_of_max {asks : List (OrderRow α)} {closeTsMs : Int}
    (h : (asks.map (·.createdAtMs)).max? = some closeTsMs) :
    (∃ ask ∈ asks, ask.createdAtMs = closeTsMs) ∧ ∀ ask ∈ asks, ask.createdAtMs ≤ closeTsMs := by
  obtain ⟨hmem, hle⟩ := List.max?_eq_some_iff.mp h
  exact ⟨List.mem_map.mp hmem, fun ask hask => hle _ (List.mem_map_of_mem hask)⟩

/-- A cycle comes from the ASKs, in whatever order. -/
theorem isCycle_cycleOf {pd : Pandas Date} {sellSigs : List SignalRow} {market : String}
    {orders : List (OrderRow α)} {w : OrderRow α × Option Int} {matched : List (OrderRow α)}
    (hperm : matched.Perm (windowAsks orders market w)) {cycle : Cycle α}
    (h : cycleOf sellSigs market w.1 matched = some cycle) :
    IsCycle orders market w (cycle.withDates pd) := by
  unfold cycleOf at h
  split at h
  · cases h
  · next closeTsMs hmax =>
    obtain ⟨⟨last, hlast, heq⟩, hle⟩ := lastAsk_of_max hmax
    cases h
    exact
      { ofMarket := rfl
        openTsMs := rfl
        cost := rfl
        revenue := (hperm.map _).sum_eq
        pnl := rfl
        pnlPct := rfl
        nAsks := hperm.length_eq
        lastAsk := ⟨last, hperm.mem_iff.mp hlast, heq⟩
        latest := fun ask hask => hle ask (hperm.mem_iff.mpr hask) }

/-! The table. -/

variable {pd : Pandas Date} {orders : List (OrderRow α)} {market : String}

omit [Field α] [LinearOrder α] in
theorem perm_sideInOrder (side : OrderPosition) :
    (sideInOrder pd orders market side).Perm
      ((orders.filter (·.market = market)).filter (·.side = side)) :=
  pd.argsort.perm_sortBy _ _

omit [Field α] [LinearOrder α] in
theorem sorted_sideInOrder (side : OrderPosition) :
    (sideInOrder pd orders market side).Pairwise (·.createdAtMs ≤ ·.createdAtMs) :=
  pd.argsort.sorted_sortBy _ _

theorem mem_pairBids {sellSigs : List SignalRow} {bids asks : List (OrderRow α)} {cycle : Cycle α}
    (h : cycle ∈ pairBids sellSigs market bids asks) : cycle.market = market := by
  induction bids generalizing asks with
  | nil => cases h
  | cons bid bids ih =>
    rcases List.mem_append.mp h with h | h
    · rw [Option.mem_toList] at h
      unfold cycleOf at h
      split at h
      · cases h
      · cases h
        rfl
    · exact ih h

theorem filter_pairTrades (signals : Option (List SignalRow)) :
    ((pairTrades pd orders signals).filter (·.market = market)).Perm
      ((pairBids (sellSignals signals) market (sideInOrder pd orders market .bid)
        (sideInOrder pd orders market .ask)).map (·.withDates pd)) := by
  unfold pairTrades
  rw [List.filter_map]
  refine List.Perm.map _ ?_
  refine ((pd.argsort.perm_sortBy _ _).filter _).trans ?_
  have hgroups := Frame.filter_flatMap_groups
    (fun market => pairBids (sellSignals signals) market (sideInOrder pd orders market .bid)
      (sideInOrder pd orders market .ask))
    Cycle.market (Frame.nodup_groupKeys (·.market) orders) (fun _ _ h => mem_pairBids h) market
  refine (List.Perm.of_eq hgroups).trans ?_
  split
  · exact List.Perm.refl _
  · next hnone =>
    -- A market without orders has no BID.
    have hempty : orders.filter (·.market = market) = [] := by
      refine List.filter_eq_nil_iff.mpr fun o ho => ?_
      rw [decide_eq_true_eq]
      exact fun h => hnone ((Frame.mem_groupKeys (·.market) orders market).mpr ⟨o, ho, h⟩)
    have hbids : sideInOrder pd orders market .bid = [] := by
      have hperm : (sideInOrder pd orders market .bid).Perm _ := perm_sideInOrder .bid
      rw [hempty] at hperm
      exact hperm.eq_nil
    rw [hbids]
    exact List.Perm.refl _

/-! The signals. -/

def TradeRow.withoutReason (row : TradeRow α Date) : TradeRow α Date :=
  { row with exitReason := "" }

def Cycle.withoutReason (cycle : Cycle α) : Cycle α := { cycle with exitReason := "" }

theorem pairBids_withoutReason (sellSigs sellSigs' : List SignalRow)
    (bids asks : List (OrderRow α)) :
    (pairBids sellSigs market bids asks).map Cycle.withoutReason =
      (pairBids sellSigs' market bids asks).map Cycle.withoutReason := by
  induction bids generalizing asks with
  | nil => rfl
  | cons bid bids ih =>
    have hcycle : ∀ matched : List (OrderRow α),
        (cycleOf sellSigs market bid matched).toList.map Cycle.withoutReason =
          (cycleOf sellSigs' market bid matched).toList.map Cycle.withoutReason := by
      intro matched
      unfold cycleOf
      split <;> rfl
    unfold pairBids
    rw [List.map_append, List.map_append, hcycle, ih]

theorem pairTrades_withoutReason (signals signals' : Option (List SignalRow)) :
    (pairTrades pd orders signals).map TradeRow.withoutReason =
      (pairTrades pd orders signals').map TradeRow.withoutReason := by
  have hsort : ∀ cycles : List (Cycle α),
      ((pd.argsort.sortBy (·.closeTsMs) cycles).map (·.withDates pd)).map TradeRow.withoutReason =
        (pd.argsort.sortBy (·.closeTsMs) (cycles.map Cycle.withoutReason)).map (·.withDates pd) := by
    intro cycles
    rw [← pd.argsort.map_sortBy Cycle.closeTsMs (f := Cycle.withoutReason) (fun _ => rfl),
      List.map_map, List.map_map]
    rfl
  unfold pairTrades
  rw [hsort, hsort, List.map_flatMap, List.map_flatMap]
  simp only [pairBids_withoutReason (sellSignals signals) (sellSignals signals')]

/-! The cycles of the orders. -/

theorem isSome_cycleOf (sellSigs : List SignalRow) (bid : OrderRow α)
    (matched : List (OrderRow α)) :
    (cycleOf sellSigs market bid matched).isSome = decide (matched ≠ []) := by
  cases matched with
  | nil => rfl
  | cons ask rest =>
    have hmax : ∃ closeTsMs, ((ask :: rest).map (·.createdAtMs)).max? = some closeTsMs :=
      ⟨_, List.max?_cons⟩
    obtain ⟨closeTsMs, hmax⟩ := hmax
    rw [cycleOf, hmax]
    rfl

theorem pairTrades_cycles (pd : Pandas Date) {orders : List (OrderRow α)}
    (hpos : ∀ o ∈ orders, 0 < o.createdAtMs) (signals : Option (List SignalRow)) :
    (∀ market, ∃ bids rows,
      bids.Perm ((orders.filter (·.market = market)).filter (·.side = .bid)) ∧
      bids.Pairwise (·.createdAtMs ≤ ·.createdAtMs) ∧
      rows.Perm ((pairTrades pd orders signals).filter (·.market = market)) ∧
      List.Forall₂ (IsCycle orders market)
        ((withNext bids).filter (fun w => windowAsks orders market w ≠ [])) rows ∧
      (withNext bids).Pairwise (fun v w =>
        List.Disjoint (windowAsks orders market v) (windowAsks orders market w))) ∧
    (pairTrades pd orders signals).Pairwise (·.closeTsMs ≤ ·.closeTsMs) ∧
    ∀ signals', (pairTrades pd orders signals).map TradeRow.withoutReason =
      (pairTrades pd orders signals').map TradeRow.withoutReason := by
  refine ⟨fun market => ?_, ?_, fun signals' => pairTrades_withoutReason signals signals'⟩
  · have hbids : (sideInOrder pd orders market .bid).Perm _ := perm_sideInOrder .bid
    have hasks : (sideInOrder pd orders market .ask).Perm _ := perm_sideInOrder .ask
    have hsorted : (sideInOrder pd orders market .bid).Pairwise _ := sorted_sideInOrder .bid
    have hpos' : ∀ bid ∈ sideInOrder pd orders market .bid, 0 < bid.createdAtMs := by
      intro bid hbid
      exact hpos bid (List.mem_of_mem_filter (List.mem_of_mem_filter (hbids.mem_iff.mp hbid)))
    have hwindow : ∀ w : OrderRow α × Option Int,
        ((sideInOrder pd orders market .ask).filter (fun ask =>
          Sweep.Between w.1.createdAtMs w.2 ask.createdAtMs)).Perm
            (windowAsks orders market w) :=
      fun w => hasks.filter _
    refine ⟨_, _, hbids, hsorted, (filter_pairTrades signals).symm, ?_, ?_⟩
    · -- The sweep is the windows one by one, and a window without an ASK gives no row.
      rw [pairBids_eq (sellSignals signals) market hpos' hsorted (sorted_sideInOrder .ask),
        List.forall₂_map_right_iff]
      refine (Frame.forall₂_filterMap (fun w => ?_) _).imp fun w cycle hcycle =>
        isCycle_cycleOf (hwindow w) hcycle
      rw [isSome_cycleOf, decide_eq_decide]
      exact not_congr ⟨fun h => (h ▸ hwindow w).eq_nil, fun h => (h ▸ hwindow w).nil_eq.symm⟩
    · have hspans := Sweep.spans_disjoint (List.pairwise_map.mpr hsorted)
      rw [spans_withNext, List.pairwise_map] at hspans
      refine hspans.imp fun {v w} hdisjoint ask hv hw => ?_
      have hv' := (List.mem_filter.mp hv).2
      have hw' := (List.mem_filter.mp hw).2
      exact hdisjoint _ (of_decide_eq_true hv') (of_decide_eq_true hw')
  · exact List.pairwise_map.mpr (pd.argsort.sorted_sortBy _ _)

end
end

/-! One market: an orphan, a BID with two ASKs, and a BID at the time of an ASK. -/

/-- Times in milliseconds, and their days without an offset. -/
def plainFrames : Pandas Int where
  argsort := .stable Int
  kstDate ms := ms / 86400000

def orderRow (side : OrderPosition) (createdAtMs : Int) (executedFunds : ℚ) : OrderRow ℚ where
  market := "KRW-BTC"
  side := side
  createdAtMs := createdAtMs
  executedFunds := executedFunds
  paidFee := 1
  identifier := none

def twoCycles : List (OrderRow ℚ) :=
  [orderRow .ask 5 100, orderRow .bid 10 100, orderRow .ask 15 60, orderRow .ask 20 60,
    orderRow .ask 30 100, orderRow .bid 30 100, orderRow .ask 40 90]

theorem pairTrades_cycles_twoCycles :
    (pairTrades plainFrames twoCycles none).map (fun row => (row.openTsMs, row.nAsks, row.pnl)) =
        [(10, 2, 17), (30, 1, -12)] ∧
      (pairTrades plainFrames twoCycles none).Pairwise (·.closeTsMs ≤ ·.closeTsMs) :=
  ⟨by decide +kernel, (pairTrades_cycles plainFrames (by decide +kernel) none).2.1⟩

end CoinBot.Dashboard
