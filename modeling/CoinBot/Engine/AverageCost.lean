import CoinBot.Engine.Following

/- The average entry price of a buy.

   Each chunk that the token pays for is an acquisition at its own price, whatever part
   of it the token could pay, so a buy that starts without coin leaves the mean price of
   the chunks it paid for (`avgEntryPrice_chunkBudget`). Closing the order gives back
   KRW and keeps the coin and its price. -/
namespace CoinBot

namespace AccountManager

/-- The coin and the average price of every budget are the same. -/
def KeepsHoldings (mgr mgr' : AccountManager) : Prop :=
  ∀ m, (mgr'.getBudget m).map (·.holding) = (mgr.getBudget m).map (·.holding)

variable {mgr mgr' mgr'' : AccountManager}

theorem KeepsHoldings.refl (mgr : AccountManager) : mgr.KeepsHoldings mgr := fun _ => rfl

theorem KeepsHoldings.trans (h : mgr.KeepsHoldings mgr') (h' : mgr'.KeepsHoldings mgr'') :
    mgr.KeepsHoldings mgr'' := fun m => (h' m).trans (h m)

theorem KeepsHoldings.budget (h : mgr.KeepsHoldings mgr') {m : String} {b : MarketBudget}
    (hb : mgr.getBudget m = some b) : ∃ b', mgr'.getBudget m = some b' ∧ b'.holding = b.holding := by
  have hsame := h m
  rw [hb] at hsame
  exact Option.map_eq_some_iff.mp hsame

theorem keepsHoldings_modifyBudget (mgr : AccountManager) (m : String)
    {f : MarketBudget → MarketBudget} (hf : ∀ b, (f b).holding = b.holding) :
    mgr.KeepsHoldings (mgr.modifyBudget m f) := by
  intro m'
  by_cases hm : m' = m
  · subst hm
    rw [getBudget_modifyBudget_self, Option.map_map]
    exact congrArg (fun g => (mgr.getBudget m').map g) (funext hf)
  · rw [getBudget_modifyBudget_ne mgr f hm]

theorem holding_sweepDust (cfg : AccountConfig) (b : MarketBudget) :
    (b.sweepDust cfg).holding = b.holding := by
  unfold MarketBudget.sweepDust
  split
  · rfl
  · rfl

theorem keepsHoldings_finalizeOrder (cfg : AccountConfig) (mgr : AccountManager)
    (t : ReservationToken) : mgr.KeepsHoldings (mgr.finalizeOrder cfg t).2 := by
  have hrelease : mgr.KeepsHoldings (mgr.releaseInternal t.market t.remaining) :=
    keepsHoldings_modifyBudget mgr t.market (fun _ => rfl)
  unfold finalizeOrder
  split
  · exact .refl mgr
  · split
    · exact .refl mgr
    · refine KeepsHoldings.trans ?_ (keepsHoldings_modifyBudget _ _ (holding_sweepDust cfg))
      split
      · exact hrelease
      · exact .refl mgr

end AccountManager

namespace MarketEngine

variable {cfg : AppConfig ℚ} {e : MarketEngine} {uuid : String} {left : Amount} {b : MarketBudget}
  {d : Totals} {ds : List Totals}

/-! Closing the order. -/

theorem keepsHoldings_settleClose (cfg : AppConfig ℚ) (e : MarketEngine) {o : Order}
    (hside : o.position = .bid) :
    e.accountMgr.KeepsHoldings (e.settleClose cfg o).accountMgr := by
  unfold settleClose
  rw [hside]
  simp only
  split
  · unfold finalizeBuyToken_
    split
    · exact .refl _
    · next token htok =>
      split
      · exact .refl _
      · exact AccountManager.keepsHoldings_finalizeOrder cfg.account e.accountMgr token
  · exact .refl _

theorem keepsHoldings_onOrderSnapshot (cfg : AppConfig ℚ) (e : MarketEngine) {s : Order}
    (hside : s.position = .bid) :
    e.accountMgr.KeepsHoldings (e.onOrderSnapshot cfg s).accountMgr := by
  by_cases hskip : ¬ e.forMarket s.market ∨ e.store.get s.id = none
  · rw [onOrderSnapshot_skip hskip]
    exact .refl _
  · rw [not_or, not_not] at hskip
    obtain ⟨old, hget⟩ := Option.ne_none_iff_exists'.mp hskip.2
    obtain ⟨hid, heq⟩ := onOrderSnapshot_known cfg hskip.1 hget
    rw [heq]
    split
    · simp only
      split
      · exact keepsHoldings_settleClose cfg
          { e with store := e.store.put (mergeSnapshot old s) hid } hside
      · exact .refl _
    · exact .refl _

/-! The chunks. -/

theorem holding_bookChunk (left : Amount) (b : MarketBudget) (hvol : 0 < d.volume) :
    (bookChunk .bid left b d).holding =
      if 0 < left then b.holding.acquire d.volume d.funds else b.holding := by
  have hfunds : d.volume * (d.funds / d.volume) = d.funds := mul_div_cancel₀ _ hvol.ne'
  unfold bookChunk
  simp only
  split
  · simp only [MarketBudget.holding, MarketBudget.buy, hfunds]
    rfl
  · rfl

/-- The chunks that are paid for are acquired, and nothing else is. -/
theorem holding_chunkBudget (left : Amount) (b : MarketBudget)
    (hpos : ∀ d ∈ ds, 0 < d.volume ∧ 0 ≤ d.cost) :
    (chunkBudget .bid left b ds).holding =
      (bookedChunks .bid left ds).foldl (fun h d => h.acquire d.volume d.funds) b.holding := by
  induction ds generalizing left b with
  | nil => rfl
  | cons d ds ih =>
    obtain ⟨hvol, hcost⟩ := hpos d List.mem_cons_self
    have hrest := ih (max 0 (left - d.cost)) (bookChunk .bid left b d)
      (fun d' hd' => hpos d' (List.mem_cons_of_mem d hd'))
    rw [holding_bookChunk left b hvol] at hrest
    show (chunkBudget .bid (max 0 (left - d.cost)) (bookChunk .bid left b d) ds).holding = _
    rw [hrest]
    by_cases hleft : 0 < left
    · rw [if_pos hleft]
      simp only [bookedChunks, Purse.paid, if_pos hleft, List.foldl_cons]
    · -- The token is used up: neither this chunk nor a later one is paid for.
      have hempty : max 0 (left - d.cost) ≤ 0 := by
        refine max_le le_rfl ?_
        linarith
      rw [if_neg hleft]
      simp only [bookedChunks, Purse.paid_of_empty hempty, Purse.paid_of_empty (not_lt.mp hleft)]

/-- The price per coin of some chunks together. -/
def meanPrice (ds : List Totals) : Price := (ds.map (·.funds)).sum / (ds.map (·.volume)).sum

theorem sum_volume_pos (hne : ds ≠ []) (hpos : ∀ d ∈ ds, 0 < d.volume) :
    0 < (ds.map (·.volume)).sum := by
  refine List.sum_pos _ (fun v hv => ?_) (by simpa using hne)
  obtain ⟨d, hd, rfl⟩ := List.mem_map.mp hv
  exact hpos d hd

theorem bookedChunks_ne_nil (hleft : 0 < left) (hne : ds ≠ []) : bookedChunks .bid left ds ≠ [] := by
  cases ds with
  | nil => exact hne
  | cons d ds =>
    simp only [bookedChunks, Purse.paid, if_pos hleft]
    exact List.cons_ne_nil _ _

/-- A buy that starts without coin leaves the mean price of the chunks that are paid for. -/
theorem avgEntryPrice_chunkBudget (hcoin : b.coinBalance = 0) (hleft : 0 < left) (hne : ds ≠ [])
    (hpos : ∀ d ∈ ds, 0 < d.volume ∧ 0 ≤ d.cost) :
    (chunkBudget .bid left b ds).avgEntryPrice = meanPrice (bookedChunks .bid left ds) := by
  have hbooked : ∀ d ∈ bookedChunks .bid left ds, 0 < d.volume :=
    fun d hd => (hpos d ((Purse.paid_isPrefix Totals.cost left ds).subset hd)).1
  have hvol := sum_volume_pos (bookedChunks_ne_nil hleft hne) hbooked
  have hqty : b.holding.qty = 0 := hcoin
  have hcost : b.holding.cost = 0 := by rw [Holding.cost, hqty, zero_mul]
  have hholding := (holding_chunkBudget left b hpos).trans
    (Holding.foldl_acquire Totals.volume Totals.funds hbooked hqty.ge)
  calc (chunkBudget .bid left b ds).avgEntryPrice
      = (b.holding.acquire ((bookedChunks .bid left ds).map (·.volume)).sum
          ((bookedChunks .bid left ds).map (·.funds)).sum).mean := congrArg Holding.mean hholding
    _ = meanPrice (bookedChunks .bid left ds) := by
        rw [Holding.mean_acquire _ (by rw [hqty, zero_add]; exact hvol), hqty, hcost, zero_add,
          zero_add]
        rfl

end MarketEngine
end CoinBot
