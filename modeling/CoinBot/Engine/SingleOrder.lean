import CoinBot.Allocation.Startup
import CoinBot.Engine.MarketEngine
import CoinBot.Lib.Machine

/- One engine has at most one order out at a time.

   `SingleOrder` ties the token, the two uuids, the store and the market's budget to
   one another. Each method keeps it, so every run of calls does
   (`always_singleOrder`). -/
namespace CoinBot

/-! The ledger's side of it. -/

namespace MarketBudget

variable {b : MarketBudget}

theorem giveBack_available (h : 0 ≤ b.availableKrw) {x : Amount} (hx : 0 ≤ x) :
    0 ≤ (b.giveBack x).availableKrw := add_nonneg h hx

theorem closeSell_available (cfg : AccountConfig) (b : MarketBudget) (mark : Option Price) :
    (b.closeSell cfg mark).availableKrw = b.availableKrw ∧
      (b.closeSell cfg mark).reservedKrw = b.reservedKrw := by
  unfold closeSell
  split
  · exact ⟨rfl, rfl⟩
  · exact ⟨rfl, rfl⟩

theorem sweepDust_available {cfg : AccountConfig} (h : 0 ≤ b.availableKrw) :
    0 ≤ (b.sweepDust cfg).availableKrw := by
  unfold sweepDust
  split
  · next hdust => exact add_nonneg h hdust.1.le
  · exact h

end MarketBudget

namespace AccountManager

/-- The market's reserve is `reserved`. -/
def Reserves (mgr : AccountManager) (m : String) (reserved : Amount) : Prop :=
  ∀ b, mgr.getBudget m = some b → b.reservedKrw = reserved

/-- The market's budget is not overdrawn. -/
def Solvent (mgr : AccountManager) (m : String) : Prop :=
  ∀ b, mgr.getBudget m = some b → 0 ≤ b.availableKrw

variable {mgr : AccountManager} {m : String} {t : ReservationToken} {cfg : AccountConfig}

theorem reserves_reserve (krw : Amount) (h : mgr.Reserves m 0) :
    ((mgr.reserve m krw).1 = none ∧ (mgr.reserve m krw).2.Reserves m 0) ∨
    ∃ token, (mgr.reserve m krw).1 = some token ∧ token.active = true ∧ token.market = m ∧
      (mgr.reserve m krw).2.Reserves m token.remaining := by
  rcases reserve_cases mgr m krw with hfail | ⟨b, token, hb, hpos, hle, -, hmkt, hamt, hcon, hact, hok⟩
  · rw [hfail]
    exact .inl ⟨rfl, h⟩
  · rw [hok]
    refine .inr ⟨token, rfl, hact, hmkt, fun b' hb' => ?_⟩
    rw [getBudget_countReserve, getBudget_modifyBudget_self, hb, Option.map_some] at hb'
    obtain rfl := Option.some.inj hb'
    have hres := h b hb
    simp only [MarketBudget.hold, ReservationToken.remaining, hamt, hcon, hres]
    ring

theorem reserves_releaseInternal (h : mgr.Reserves m t.remaining) (hmkt : t.market = m) :
    (mgr.releaseInternal t.market t.remaining).Reserves m 0 := by
  subst hmkt
  intro b' hb'
  rw [releaseInternal, getBudget_modifyBudget_self] at hb'
  obtain ⟨b, hb, rfl⟩ := Option.map_eq_some_iff.mp hb'
  have hres := h b hb
  rw [MarketBudget.giveBack_of_le hres.ge]
  simp [MarketBudget.refund, hres]

theorem reserves_release (h : mgr.Reserves m t.remaining) (hact : t.active = true)
    (hmkt : t.market = m) : (mgr.release t).2.Reserves m 0 := by
  rw [release_active hact]
  exact reserves_releaseInternal h hmkt

theorem reserves_finalizeOrder (h : mgr.Reserves m t.remaining) (hact : t.active = true)
    (hmkt : t.market = m) : (mgr.finalizeOrder cfg t).2.Reserves m 0 := by
  subst hmkt
  intro b' hb'
  cases hb : mgr.getBudget t.market with
  | none =>
    have hcall : (mgr.finalizeOrder cfg t).2 = mgr := by
      simp only [finalizeOrder, hact, hb, Bool.not_true, Bool.false_eq_true, if_false]
    rw [hcall, hb] at hb'
    exact absurd hb' (by simp)
  | some b =>
    have hres := h b hb
    obtain ⟨-, hbud, -, -⟩ := finalizeOrder_active cfg hact hb hres.ge
    obtain rfl := Option.some.inj (hbud.symm.trans hb')
    have hempty : (b.refund t.remaining).reservedKrw = 0 := by simp [MarketBudget.refund, hres]
    have hsweep : (b.refund t.remaining).sweepDust cfg = b.refund t.remaining :=
      if_neg (fun hdust => absurd hdust.1 (by rw [hempty]; exact lt_irrefl 0))
    rw [hsweep]
    exact hempty

theorem reserves_finalizeFillBuy {krw coin price : ℚ} (h : mgr.Reserves m t.remaining)
    (hmkt : t.market = m) :
    (mgr.finalizeFillBuy t krw coin price).2.Reserves m
      (mgr.finalizeFillBuy t krw coin price).1.remaining := by
  subst hmkt
  by_cases hbook : mgr.BooksBuy t krw coin price
  · rw [finalizeFillBuy_booked hbook]
    have hle : charge t krw ≤ t.remaining := min_le_right _ _
    intro b' hb'
    rw [getBudget_countFill, getBudget_modifyBudget_self] at hb'
    obtain ⟨b, hb, rfl⟩ := Option.map_eq_some_iff.mp hb'
    have hres := h b hb
    have hnoclamp : ¬ t.remaining - charge t krw < 0 := by linarith
    simp only [MarketBudget.buy, hres, if_neg hnoclamp, t.remaining_addConsumed hle]
  · rw [finalizeFillBuy_skipped hbook]
    exact h

theorem token_finalizeFillBuy (mgr : AccountManager) (t : ReservationToken) (krw coin price : ℚ) :
    (mgr.finalizeFillBuy t krw coin price).1.active = t.active ∧
    (mgr.finalizeFillBuy t krw coin price).1.market = t.market := by
  by_cases hbook : mgr.BooksBuy t krw coin price
  · rw [finalizeFillBuy_booked hbook]
    exact ⟨rfl, rfl⟩
  · rw [finalizeFillBuy_skipped hbook]
    exact ⟨rfl, rfl⟩

theorem reserves_finalizeFillSell {coin krw : ℚ} {reserved : Amount} (h : mgr.Reserves m reserved) :
    (mgr.finalizeFillSell m coin krw).Reserves m reserved := by
  rcases finalizeFillSell_cases mgr m coin krw with hskip | ⟨-, -, -, hbook⟩
  · rw [hskip]
    exact h
  · rw [hbook]
    intro b' hb'
    rw [getBudget_countFill, getBudget_modifyBudget_self] at hb'
    obtain ⟨b, hb, rfl⟩ := Option.map_eq_some_iff.mp hb'
    exact h b hb

theorem reserves_finalizeSellOrder {mark : Option Price} {reserved : Amount}
    (h : mgr.Reserves m reserved) : (finalizeSellOrder cfg mgr m mark).Reserves m reserved := by
  intro b' hb'
  rw [finalizeSellOrder, getBudget_modifyBudget_self] at hb'
  obtain ⟨b, hb, rfl⟩ := Option.map_eq_some_iff.mp hb'
  exact (MarketBudget.closeSell_available cfg b mark).2.trans (h b hb)

/-! What every update of a budget keeps, every operation keeps, in its own market or another one. -/

/-- The updates of a budget keep `P`. -/
structure BudgetInvariant (cfg : AccountConfig) (P : MarketBudget → Prop) : Prop where
  hold : ∀ b krw, P b → 0 < krw → krw ≤ b.availableKrw → P (b.hold krw)
  giveBack : ∀ b krw, P b → 0 ≤ krw → P (b.giveBack krw)
  buy : ∀ b krw coin price, P b → P (b.buy krw coin price)
  sell : ∀ b coin krw, P b → 0 ≤ krw → P (b.sell coin krw)
  closeSell : ∀ b mark, P b → P (b.closeSell cfg mark)
  sweepDust : ∀ b, P b → P (b.sweepDust cfg)

/-- The market's budget, if it has one, meets `P`. -/
def Meets (P : MarketBudget → Prop) (mgr : AccountManager) (m : String) : Prop :=
  ∀ b, mgr.getBudget m = some b → P b

section
variable {P : MarketBudget → Prop}

theorem meets_modifyBudget (h : mgr.Meets P m) (m' : String) {f : MarketBudget → MarketBudget}
    (hf : ∀ b, P b → P (f b)) : (mgr.modifyBudget m' f).Meets P m := by
  intro b' hb'
  by_cases hm : m = m'
  · rw [← hm, getBudget_modifyBudget_self] at hb'
    obtain ⟨b, hb, rfl⟩ := Option.map_eq_some_iff.mp hb'
    exact hf b (h b hb)
  · rw [getBudget_modifyBudget_ne _ _ hm] at hb'
    exact h b' hb'

theorem meets_reserve (hP : BudgetInvariant cfg P) (h : mgr.Meets P m) (m' : String)
    (krw : Amount) : (mgr.reserve m' krw).2.Meets P m := by
  rcases reserve_cases mgr m' krw with hfail | ⟨b, token, hb, hpos, hle, -, -, -, -, -, hok⟩
  · rw [hfail]
    exact h
  · rw [hok]
    intro b' hb'
    rw [getBudget_countReserve] at hb'
    by_cases hm : m = m'
    · rw [hm, getBudget_modifyBudget_self, hb, Option.map_some] at hb'
      obtain rfl := Option.some.inj hb'
      exact hP.hold b krw (h b (hm ▸ hb)) hpos hle
    · rw [getBudget_modifyBudget_ne _ _ hm] at hb'
      exact h b' hb'

theorem meets_releaseInternal (hP : BudgetInvariant cfg P) (h : mgr.Meets P m)
    (t : ReservationToken) : (mgr.releaseInternal t.market t.remaining).Meets P m :=
  meets_modifyBudget h t.market (fun b hb => hP.giveBack b _ hb t.remaining_nonneg)

theorem meets_release (hP : BudgetInvariant cfg P) (h : mgr.Meets P m) (t : ReservationToken) :
    (mgr.release t).2.Meets P m := by
  unfold release
  split
  · exact h
  · exact meets_releaseInternal hP h t

theorem meets_finalizeOrder (hP : BudgetInvariant cfg P) (h : mgr.Meets P m)
    (t : ReservationToken) : (mgr.finalizeOrder cfg t).2.Meets P m := by
  unfold finalizeOrder
  split
  · exact h
  · split
    · exact h
    · refine meets_modifyBudget ?_ t.market hP.sweepDust
      split
      · exact meets_releaseInternal hP h t
      · exact h

theorem meets_finalizeFillBuy (hP : BudgetInvariant cfg P) (h : mgr.Meets P m)
    (t : ReservationToken) (krw coin price : ℚ) :
    (mgr.finalizeFillBuy t krw coin price).2.Meets P m := by
  by_cases hbook : mgr.BooksBuy t krw coin price
  · rw [finalizeFillBuy_booked hbook]
    have hbought : (mgr.modifyBudget t.market (·.buy (charge t krw) coin price)).Meets P m :=
      meets_modifyBudget h t.market (fun b hb => hP.buy b _ _ _ hb)
    exact hbought
  · rw [finalizeFillBuy_skipped hbook]
    exact h

theorem meets_finalizeFillSell (hP : BudgetInvariant cfg P) (h : mgr.Meets P m) (m' : String)
    (coin krw : ℚ) : (mgr.finalizeFillSell m' coin krw).Meets P m := by
  rcases finalizeFillSell_cases mgr m' coin krw with hskip | ⟨-, hkrw, -, hbook⟩
  · rw [hskip]
    exact h
  · rw [hbook]
    have hsold : (mgr.modifyBudget m' (·.sell coin krw)).Meets P m :=
      meets_modifyBudget h m' (fun b hb => hP.sell b _ _ hb hkrw)
    exact hsold

theorem meets_finalizeSellOrder (hP : BudgetInvariant cfg P) (h : mgr.Meets P m) (m' : String)
    (mark : Option Price) : (finalizeSellOrder cfg mgr m' mark).Meets P m :=
  meets_modifyBudget h m' (fun b hb => hP.closeSell b mark hb)

end

/-- No update overdraws a budget. -/
theorem budgetInvariant_available (cfg : AccountConfig) :
    BudgetInvariant cfg (fun b => 0 ≤ b.availableKrw) where
  hold _ _ _ _ hle := sub_nonneg.mpr hle
  giveBack _ _ hb hkrw := MarketBudget.giveBack_available hb hkrw
  buy _ _ _ _ hb := hb
  sell _ _ _ hb hkrw := add_nonneg hb hkrw
  closeSell b mark hb := by
    rw [(MarketBudget.closeSell_available cfg b mark).1]
    exact hb
  sweepDust _ hb := MarketBudget.sweepDust_available hb

/-- No update makes the reserve negative: where it would drop below zero it is clamped. -/
theorem budgetInvariant_reserved (cfg : AccountConfig) :
    BudgetInvariant cfg (fun b => 0 ≤ b.reservedKrw) where
  hold _ _ hb hpos _ := add_nonneg hb hpos.le
  giveBack b krw _ _ := by
    unfold MarketBudget.giveBack
    simp only
    split
    · exact le_rfl
    · next hclamp => exact not_lt.mp hclamp
  buy b krw _ _ _ := by
    unfold MarketBudget.buy
    simp only
    split
    · exact le_rfl
    · next hclamp => exact not_lt.mp hclamp
  sell _ _ _ hb _ := hb
  closeSell b mark hb := by
    rw [(MarketBudget.closeSell_available cfg b mark).2]
    exact hb
  sweepDust b hb := by
    unfold MarketBudget.sweepDust
    split
    · exact le_rfl
    · exact hb

end AccountManager

namespace MarketEngine

/-- The engine's side and the ledger's side of "at most one order out". -/
structure SingleOrder (e : MarketEngine) : Prop where
  /-- There is a token exactly while there is an active buy. -/
  token_iff : e.activeBuyToken.isSome ↔ e.activeBuyOrderUuid ≠ ""
  /-- A buy and a sell are never active together. -/
  exclusive : e.activeBuyToken.isSome → e.activeSellOrderUuid = ""
  /-- The token is a live one of this market. -/
  token_sound : ∀ t, e.activeBuyToken = some t → t.active = true ∧ t.market = e.market
  /-- An order the store has for this market is open and the active one of its side. -/
  stored : ∀ id o, e.store.get id = some o → o.market = e.market →
    o.status.isTerminal = false ∧ id = e.activeUuid o.position
  /-- The active order of a side is in the store, for this market and with that side. -/
  tracked : ∀ side, e.activeUuid side ≠ "" →
    ∃ o, e.store.get (e.activeUuid side) = some o ∧ o.market = e.market ∧ o.position = side
  /-- The reserve is what the token has left, 0 without one. -/
  reserves : e.accountMgr.Reserves e.market (e.activeBuyToken.elim 0 (·.remaining))

/-- The market's budget has no negative amount. -/
def NotOverdrawn (e : MarketEngine) : Prop :=
  ∀ b, e.accountMgr.getBudget e.market = some b → 0 ≤ b.availableKrw ∧ 0 ≤ b.reservedKrw

theorem SingleOrder.notOverdrawn {e : MarketEngine} (h : e.SingleOrder)
    (hsolvent : e.accountMgr.Solvent e.market) : e.NotOverdrawn := by
  intro b hb
  refine ⟨hsolvent b hb, ?_⟩
  rw [h.reserves b hb]
  cases e.activeBuyToken with
  | none => exact le_rfl
  | some t => exact t.remaining_nonneg

/-- The orders the store has for other markets are among `foreign`. -/
def OnlyForeign (foreign : String → Prop) (e : MarketEngine) : Prop :=
  ∀ id o, e.store.get id = some o → o.market ≠ e.market → foreign id

/-- What the exchange and the caller keep to: a uuid from `postOrder` is not empty, a snapshot of
    a known order has its side, and one of another market's order does not name this market.
    That the uuid is fresh does not matter here. -/
def Admissible (foreign : String → Prop) (e : MarketEngine) : EngineCall → Prop
  | .submit _ reply => reply ≠ .ok ""
  | .message (.snapshot s) | .message (.reconcile s) =>
    (∀ o, e.store.get s.id = some o → s.position = o.position) ∧
      (foreign s.id → s.market ≠ e.market)
  | _ => True

variable {cfg : AppConfig ℚ} {e : MarketEngine} {foreign : String → Prop}

theorem SingleOrder.no_buy (h : e.SingleOrder) (htok : e.activeBuyToken = none) :
    e.activeBuyOrderUuid = "" := by
  by_contra hactive
  have hsome := h.token_iff.mpr hactive
  rw [htok] at hsome
  exact absurd hsome (by simp)

theorem SingleOrder.observe (h : e.SingleOrder) (seen : Finset String) (fifo : List String)
    (events : List EngineEvent) (mark : Price) :
    SingleOrder { e with
      seenTradeUuids := seen, seenTradeUuidFifo := fifo, events := events, lastMarkPrice := mark } :=
  ⟨h.token_iff, h.exclusive, h.token_sound, h.stored, h.tracked, h.reserves⟩

/-! Settlement. -/

theorem SingleOrder.settleBuy (h : e.SingleOrder) (id : String) (krw coin price : ℚ) :
    (e.settleBuy id krw coin price).SingleOrder := by
  rcases e.settleBuy_cases id krw coin price with hskip | ⟨token, htok, hid, heq⟩
  · rw [hskip]
    exact h
  · obtain ⟨hact, hmkt⟩ := h.token_sound token htok
    obtain ⟨hact', hmkt'⟩ := AccountManager.token_finalizeFillBuy e.accountMgr token krw coin price
    have hcov := h.reserves
    rw [htok] at hcov
    rw [heq]
    refine { h with
      token_iff := ?_, exclusive := ?_, token_sound := ?_, reserves := ?_ }
    · exact ⟨fun _ => h.token_iff.mp (by rw [htok]; rfl), fun _ => rfl⟩
    · exact fun _ => h.exclusive (by rw [htok]; rfl)
    · intro t ht
      obtain rfl := Option.some.inj ht
      exact ⟨hact'.trans hact, hmkt'.trans hmkt⟩
    · exact AccountManager.reserves_finalizeFillBuy hcov hmkt

theorem SingleOrder.settleSell (h : e.SingleOrder) (coin krw : ℚ) :
    (e.settleSell coin krw).SingleOrder :=
  { h with reserves := AccountManager.reserves_finalizeFillSell h.reserves }

theorem SingleOrder.settleTrade (h : e.SingleOrder) (t : MyTrade) :
    (e.settleTrade t).SingleOrder := by
  unfold MarketEngine.settleTrade
  cases t.side with
  | bid => exact h.settleBuy _ _ _ _
  | ask => exact h.settleSell _ _

theorem singleOrder_onMyTrade (h : e.SingleOrder) (hf : e.OnlyForeign foreign) (t : MyTrade) :
    (e.onMyTrade cfg t).SingleOrder ∧ (e.onMyTrade cfg t).OnlyForeign foreign := by
  obtain ⟨seen, fifo, hskip | ⟨ord, -, -, heq⟩⟩ := e.onMyTrade_cases cfg t
  · rw [hskip]
    exact ⟨h.observe seen fifo e.events e.lastMarkPrice, hf⟩
  · rw [heq]
    refine ⟨(h.observe seen fifo (e.events ++ fillEvents t ord) e.lastMarkPrice).settleTrade t, ?_⟩
    have hframe := onlySettles_settleTrade
      { e with seenTradeUuids := seen, seenTradeUuidFifo := fifo,
               events := e.events ++ fillEvents t ord } t
    intro id o
    rw [hframe.store, hframe.market]
    exact hf id o

/-! Snapshots. -/

theorem market_mergeSnapshot_own {old s : Order} (hm : e.forMarket s.market)
    (hold : old.market = e.market) : (mergeSnapshot old s).market = e.market := by
  simp only [mergeSnapshot]
  split
  · next hne => exact hm.resolve_left hne
  · exact hold

theorem market_mergeSnapshot_foreign {old s : Order} (hm : e.forMarket s.market)
    (hs : s.market ≠ e.market) (hold : old.market ≠ e.market) :
    (mergeSnapshot old s).market ≠ e.market := by
  have hempty : s.market = "" := hm.resolve_right hs
  simp only [mergeSnapshot, hempty]
  exact hold

theorem singleOrder_update {s old : Order} {hid : (mergeSnapshot old s).id ≠ ""}
    (h : e.SingleOrder) (hf : e.OnlyForeign foreign) (hm : e.forMarket s.market)
    (hget : e.store.get s.id = some old) (hside : s.position = old.position)
    (hforeign : foreign s.id → s.market ≠ e.market) (hopen : s.status.isTerminal = false) :
    SingleOrder { e with store := e.store.put (mergeSnapshot old s) hid } ∧
    OnlyForeign foreign { e with store := e.store.put (mergeSnapshot old s) hid } := by
  have hold : (mergeSnapshot old s).id = s.id :=
    (id_mergeSnapshot old s).trans (OrderStore.id_of_get hget)
  have hself : (e.store.put (mergeSnapshot old s) hid).get s.id = some (mergeSnapshot old s) := by
    rw [← hold, OrderStore.get_put_self]
  have hother : ∀ id, id ≠ s.id →
      (e.store.put (mergeSnapshot old s) hid).get id = e.store.get id :=
    fun id hne => OrderStore.get_put_ne e.store _ hid (hold ▸ hne)
  -- The merged order belongs to this market exactly when the stored one did.
  have hmkt : (mergeSnapshot old s).market = e.market ↔ old.market = e.market := by
    constructor
    · intro hown
      by_contra hne
      exact market_mergeSnapshot_foreign hm (hforeign (hf s.id old hget hne)) hne hown
    · exact market_mergeSnapshot_own hm
  refine ⟨{ token_iff := h.token_iff, exclusive := h.exclusive, token_sound := h.token_sound,
            reserves := h.reserves, stored := ?_, tracked := ?_ }, ?_⟩
  · intro id o ho homkt
    by_cases hne : id = s.id
    · subst hne
      obtain rfl := Option.some.inj (hself.symm.trans ho)
      have hstored := (h.stored s.id old hget (hmkt.mp homkt)).2
      rw [← hside] at hstored
      exact ⟨hopen, hstored⟩
    · rw [hother id hne] at ho
      exact h.stored id o ho homkt
  · intro side hactive
    obtain ⟨o, ho, homkt, hpos⟩ := h.tracked side hactive
    by_cases hne : e.activeUuid side = s.id
    · rw [hne, hget] at ho
      obtain rfl := Option.some.inj ho
      exact ⟨_, (congrArg _ hne).trans hself, hmkt.mpr homkt, hside.trans hpos⟩
    · exact ⟨o, (hother _ hne).trans ho, homkt, hpos⟩
  · intro id o ho homkt
    by_cases hne : id = s.id
    · subst hne
      obtain rfl := Option.some.inj (hself.symm.trans ho)
      exact hf s.id old hget (fun hown => homkt (hmkt.mpr hown))
    · rw [hother id hne] at ho
      exact hf id o ho homkt

theorem SingleOrder.remove {id : String} {store : OrderStore} (h : e.SingleOrder)
    (hstore : ∀ id', store.get id' = if id' = id then none else e.store.get id')
    (hgone : ∀ side, e.activeUuid side ≠ id) : SingleOrder { e with store := store } := by
  refine { token_iff := h.token_iff, exclusive := h.exclusive, token_sound := h.token_sound,
           reserves := h.reserves, stored := ?_, tracked := ?_ }
  · intro id' o ho homkt
    rw [hstore] at ho
    split at ho
    · exact absurd ho (by simp)
    · exact h.stored id' o ho homkt
  · intro side hactive
    obtain ⟨o, ho, homkt, hpos⟩ := h.tracked side hactive
    refine ⟨o, ?_, homkt, hpos⟩
    rw [hstore]
    exact (if_neg (hgone side)).trans ho

/-- Giving up the active order of a side: its uuid and its token go, and it leaves the store. -/
theorem SingleOrder.giveUp {e' : MarketEngine} {id : String} {old : Order} (h : e.SingleOrder)
    (hget : e.store.get id = some old) (hown : old.market = e.market)
    (hmkt : e'.market = e.market)
    (hstore : ∀ id', e'.store.get id' = if id' = id then none else e.store.get id')
    (huuid : ∀ side, e'.activeUuid side = if side = old.position then "" else e.activeUuid side)
    (htoken : e'.activeBuyToken = if old.position = .bid then none else e.activeBuyToken)
    (hcov : e'.accountMgr.Reserves e'.market (e'.activeBuyToken.elim 0 (·.remaining))) :
    e'.SingleOrder := by
  have hactive : id = e.activeUuid old.position := (h.stored id old hget hown).2
  have hbuy := huuid .bid
  have hsell := huuid .ask
  simp only [activeUuid] at hbuy hsell
  refine { token_iff := ?_, exclusive := ?_, token_sound := ?_, stored := ?_, tracked := ?_,
           reserves := hcov }
  · rw [htoken, hbuy]
    cases old.position with
    | bid => simp
    | ask => simpa using h.token_iff
  · rw [htoken, hsell]
    cases old.position with
    | bid => simp
    | ask => simp
  · intro t ht
    rw [htoken] at ht
    split at ht
    · exact absurd ht (by simp)
    · rw [hmkt]
      exact h.token_sound t ht
  · intro id' o ho homkt
    rw [hstore] at ho
    split at ho
    · exact absurd ho (by simp)
    · next hne =>
      obtain ⟨hopen, hid'⟩ := h.stored id' o ho (homkt.trans hmkt)
      refine ⟨hopen, ?_⟩
      rw [huuid, if_neg, hid']
      intro hpos
      rw [hpos, ← hactive] at hid'
      exact hne hid'
  · intro side hside
    rw [huuid] at hside ⊢
    by_cases hpos : side = old.position
    · exact absurd (if_pos hpos) hside
    · rw [if_neg hpos] at hside ⊢
      obtain ⟨o, ho, homkt, hposo⟩ := h.tracked side hside
      refine ⟨o, ?_, homkt.trans hmkt.symm, hposo⟩
      rw [hstore, if_neg]
      · exact ho
      · intro heq
        rw [heq, hget] at ho
        obtain rfl := Option.some.inj ho
        exact hpos hposo.symm

theorem singleOrder_close {s old : Order} {hid : (mergeSnapshot old s).id ≠ ""}
    (h : e.SingleOrder) (hget : e.store.get s.id = some old) (hside : s.position = old.position)
    (hclosed : s.status.isTerminal = true) {e' : MarketEngine}
    (he' : e' =
      let updated := { e with store := e.store.put (mergeSnapshot old s) hid }
      let closed :=
        if s.status ≠ old.status then updated.closeOrder cfg (mergeSnapshot old s) else updated
      { closed with store := closed.store.erase s.id }) : e'.SingleOrder := by
  have hold : (mergeSnapshot old s).id = s.id :=
    (id_mergeSnapshot old s).trans (OrderStore.id_of_get hget)
  have hne : s.id ≠ "" := OrderStore.ne_of_get hget
  have hstore : ∀ id', ((e.store.put (mergeSnapshot old s) hid).erase s.id).get id' =
      if id' = s.id then none else e.store.get id' := by
    intro id'
    by_cases heq : id' = s.id
    · rw [if_pos heq, heq, OrderStore.get_erase_self]
    · rw [if_neg heq, OrderStore.get_erase_ne _ heq,
        OrderStore.get_put_ne e.store _ hid (hold ▸ heq)]
  by_cases hown : old.market = e.market
  · obtain ⟨hopen, hactive⟩ := h.stored s.id old hget hown
    have hchange : s.status ≠ old.status := fun heq => by
      rw [heq, hopen] at hclosed
      exact absurd hclosed (by simp)
    simp only [if_pos hchange, closeOrder] at he'
    -- A buy takes its token with it, a sell only its uuid.
    cases hpos : old.position with
    | bid =>
      rw [hpos] at hactive hside
      have hbuy : s.id = e.activeBuyOrderUuid := hactive
      have hsome : e.activeBuyToken.isSome = true := h.token_iff.mpr (hbuy ▸ hne)
      obtain ⟨token, htok⟩ := Option.isSome_iff_exists.mp hsome
      obtain ⟨hact, hmkt⟩ := h.token_sound token htok
      have hcov := h.reserves
      rw [htok] at hcov
      rw [settleClose_bid (e := { e with store := e.store.put (mergeSnapshot old s) hid })
        (o := mergeSnapshot old s) hside (hold.trans hbuy) hid htok] at he'
      subst he'
      refine h.giveUp hget hown rfl hstore (fun side => ?_) ?_
        (AccountManager.reserves_finalizeOrder hcov hact hmkt)
      · rw [hpos]
        cases side with
        | bid => rfl
        | ask => rfl
      · rw [hpos]
        rfl
    | ask =>
      rw [hpos] at hactive hside
      have hnone : e.activeBuyToken = none := by
        by_contra hsome
        exact hne (hactive.trans (h.exclusive (Option.ne_none_iff_isSome.mp hsome)))
      rw [settleClose_ask (e := { e with store := e.store.put (mergeSnapshot old s) hid })
        (o := mergeSnapshot old s) hside (hold.trans hactive)] at he'
      subst he'
      refine h.giveUp hget hown rfl hstore (fun side => ?_) ?_
        (AccountManager.reserves_finalizeSellOrder h.reserves)
      · rw [hpos]
        cases side with
        | bid => rfl
        | ask => rfl
      · rw [hpos]
        rfl
  · -- The order of another market is not active here: only the store and the events change.
    have hgone : ∀ side, e.activeUuid side ≠ s.id := by
      intro side heq
      obtain ⟨o, ho, homkt, -⟩ := h.tracked side (heq ▸ hne)
      rw [heq, hget] at ho
      obtain rfl := Option.some.inj ho
      exact hown homkt
    have hother : ∀ side, (mergeSnapshot old s).id ≠
        ({ e with store := e.store.put (mergeSnapshot old s) hid } : MarketEngine).activeUuid side := by
      intro side heq
      refine hgone side ?_
      rw [← hold, heq]
      cases side with
      | bid => rfl
      | ask => rfl
    have hremoved := h.remove hstore hgone
    subst he'
    simp only [closeOrder, settleClose_other (hother _)]
    split
    · exact hremoved.observe _ _ _ _
    · exact hremoved

theorem singleOrder_onOrderSnapshot (cfg : AppConfig ℚ) {s : Order} (h : e.SingleOrder)
    (hf : e.OnlyForeign foreign)
    (hside : ∀ o, e.store.get s.id = some o → s.position = o.position)
    (hforeign : foreign s.id → s.market ≠ e.market) :
    (e.onOrderSnapshot cfg s).SingleOrder ∧ (e.onOrderSnapshot cfg s).OnlyForeign foreign := by
  by_cases hm : e.forMarket s.market
  · cases hget : e.store.get s.id with
    | none =>
      rw [onOrderSnapshot_skip (.inr hget)]
      exact ⟨h, hf⟩
    | some old =>
      have hside := hside old hget
      obtain ⟨hid, heq⟩ := onOrderSnapshot_known cfg hm hget
      by_cases hclosed : s.status.isTerminal = true
      · rw [if_pos hclosed] at heq
        refine ⟨singleOrder_close h hget hside hclosed heq, ?_⟩
        intro id o ho homkt
        rw [market_onOrderSnapshot] at homkt
        rw [get_onOrderSnapshot cfg hm hget, if_pos hclosed] at ho
        split at ho
        · exact absurd ho (by simp)
        · exact hf id o ho homkt
      · rw [if_neg hclosed] at heq
        rw [heq]
        exact singleOrder_update h hf hm hget hside hforeign (by simpa using hclosed)
  · rw [onOrderSnapshot_skip (.inl hm)]
    exact ⟨h, hf⟩

theorem SingleOrder.settleDelta {prev s : Order} {e' : MarketEngine} (h : e.SingleOrder)
    (hdelta : e.settleDelta prev s = some e') : e'.SingleOrder := by
  rcases settleDelta_cases hdelta with rfl | ⟨krw, coin, price, rfl⟩ | ⟨coin, krw, rfl⟩
  · exact h
  · exact h.settleBuy _ _ _ _
  · exact h.settleSell coin krw

theorem singleOrder_reconcile {s : Order} (h : e.SingleOrder) (hf : e.OnlyForeign foreign)
    (hside : ∀ o, e.store.get s.id = some o → s.position = o.position)
    (hforeign : foreign s.id → s.market ≠ e.market) :
    (e.reconcileFromSnapshot cfg s).2.SingleOrder ∧
    (e.reconcileFromSnapshot cfg s).2.OnlyForeign foreign := by
  rcases e.reconcileFromSnapshot_cases cfg s with hskip | ⟨prev, settled, -, -, hdelta, heq⟩
  · rw [hskip]
    exact ⟨h, hf⟩
  · have hframe := onlySettles_settleDelta hdelta
    rw [heq]
    refine singleOrder_onOrderSnapshot cfg (h.settleDelta hdelta) ?_ ?_ ?_
    · intro id o
      rw [hframe.store, hframe.market]
      exact hf id o
    · rw [hframe.store]
      exact hside
    · rw [hframe.market]
      exact hforeign

/-! Submissions. -/

theorem singleOrder_submitted {req : OrderRequest ℚ} {uuid : String} (mgr : AccountManager)
    (token : Option ReservationToken) (h : e.SingleOrder) (hf : e.OnlyForeign foreign)
    (hne : uuid ≠ "") (hmkt : req.market = e.market)
    (hidle : e.activeBuyToken = none ∧ e.activeSellOrderUuid = "")
    (htoken : token.isSome ↔ req.position = .bid)
    (hsound : ∀ t, token = some t → t.active = true ∧ t.market = e.market)
    (hcov : mgr.Reserves e.market (token.elim 0 (·.remaining))) :
    (afterPost { e with accountMgr := mgr, activeBuyToken := token } req (.ok uuid)).2.SingleOrder ∧
    (afterPost { e with accountMgr := mgr, activeBuyToken := token } req
      (.ok uuid)).2.OnlyForeign foreign := by
  have hbuy := h.no_buy hidle.1
  obtain ⟨hmarket, hmgr, htok, -⟩ :=
    afterPost_frame { e with accountMgr := mgr, activeBuyToken := token } req uuid
  have hget := get_afterPost { e with accountMgr := mgr, activeBuyToken := token } req hne
  have huuid : ∀ side, (afterPost { e with accountMgr := mgr, activeBuyToken := token } req
      (.ok uuid)).2.activeUuid side = if side = req.position then uuid else "" := by
    intro side
    unfold afterPost
    cases req.position with
    | bid => cases side with
      | bid => rfl
      | ask => exact hidle.2
    | ask => cases side with
      | bid => exact hbuy
      | ask => rfl
  generalize (afterPost { e with accountMgr := mgr, activeBuyToken := token } req (.ok uuid)).2 = e'
    at hmarket hmgr htok hget huuid ⊢
  -- Nothing of this market was in the store: nothing was active.
  have hnone : ∀ id o, e.store.get id = some o → o.market ≠ e.market := by
    intro id o ho homkt
    have hactive := (h.stored id o ho homkt).2
    have hempty : e.activeUuid o.position = "" := by
      cases o.position with
      | bid => exact hbuy
      | ask => exact hidle.2
    exact OrderStore.ne_of_get ho (hactive.trans hempty)
  have hbid := huuid .bid
  have hask := huuid .ask
  simp only [activeUuid] at hbid hask
  refine ⟨{ token_iff := ?_, exclusive := ?_, token_sound := ?_, stored := ?_, tracked := ?_,
            reserves := ?_ }, ?_⟩
  · rw [htok, hbid, htoken]
    cases req.position with
    | bid => simpa using hne
    | ask => simp
  · rw [htok, hask, htoken]
    intro hpos
    rw [hpos]
    rfl
  · rw [htok, hmarket]
    exact hsound
  · intro id o ho homkt
    rw [hget] at ho
    rw [huuid]
    split at ho
    · next heq =>
      obtain rfl := Option.some.inj ho
      exact ⟨rfl, heq.trans (if_pos rfl).symm⟩
    · exact absurd (homkt.trans hmarket) (hnone id o ho)
  · intro side hside
    rw [huuid] at hside ⊢
    by_cases hpos : side = req.position
    · rw [if_pos hpos]
      exact ⟨pendingOrder req uuid, by rw [hget, if_pos rfl], hmkt.trans hmarket.symm, hpos.symm⟩
    · exact absurd (if_neg hpos) hside
  · rw [htok, hmgr, hmarket]
    exact hcov
  · intro id o ho homkt
    rw [hget] at ho
    rw [hmarket] at homkt
    split at ho
    · obtain rfl := Option.some.inj ho
      exact absurd hmkt homkt
    · exact hf id o ho homkt

theorem singleOrder_submit (cfg : AppConfig ℚ) (h : e.SingleOrder) (hf : e.OnlyForeign foreign)
    (req : OrderRequest ℚ) {reply : Except RestError String}
    (hreply : reply ≠ .ok "") :
    (e.submitReply cfg req reply).2.SingleOrder ∧
    (e.submitReply cfg req reply).2.OnlyForeign foreign := by
  unfold submitReply submit
  rcases e.beforePost_cases cfg req with ⟨code, message, hfail⟩ | ⟨message, hfail⟩ |
    ⟨-, hmkt, hpos, htok, hsell, token, mgr, hres, hok⟩ | ⟨-, hmkt, hpos, htok, hsell, hok⟩
  · rw [hfail]
    exact ⟨h, hf⟩
  · rw [hfail]
    exact ⟨{ h with reserves := h.reserves }, hf⟩
  · rw [hok]
    have hcov := h.reserves
    rw [htok] at hcov
    rcases AccountManager.reserves_reserve (computeReserveAmount cfg req) hcov with
      ⟨hnone, -⟩ | ⟨token', htoken', hact, htmkt, hres'⟩
    · rw [hres] at hnone
      exact absurd hnone (by simp)
    · rw [hres] at htoken' hres'
      obtain rfl := Option.some.inj htoken'
      cases reply with
      | error err =>
        -- The reservation is released: the engine is as before, up to the statistics.
        have hbuy := h.no_buy htok
        simp only [afterPost, hpos, releaseBuyToken]
        refine ⟨{ token_iff := by simp, exclusive := by simp, token_sound := by simp,
                  stored := ?_, tracked := ?_,
                  reserves := AccountManager.reserves_release hres' hact htmkt }, hf⟩
        · intro id o ho homkt
          obtain ⟨hopen, hid⟩ := h.stored id o ho homkt
          refine ⟨hopen, ?_⟩
          cases hside : o.position with
          | bid => rw [hside] at hid; exact hid.trans hbuy
          | ask => rw [hside] at hid; exact hid
        · intro side hactive
          cases side with
          | bid => exact absurd rfl hactive
          | ask => exact h.tracked .ask hactive
      | ok uuid =>
        have hne : uuid ≠ "" := fun hempty => hreply (congrArg Except.ok hempty)
        refine singleOrder_submitted _ _ h hf hne hmkt ⟨htok, hsell⟩ (by simp [hpos]) ?_ hres'
        intro t ht
        obtain rfl := Option.some.inj ht
        exact ⟨hact, htmkt⟩
  · rw [hok]
    cases reply with
    | error err =>
      simp only [afterPost, hpos]
      exact ⟨h, hf⟩
    | ok uuid =>
      have hne : uuid ≠ "" := fun hempty => hreply (congrArg Except.ok hempty)
      have hsubmitted := singleOrder_submitted e.accountMgr none h hf hne
        hmkt ⟨htok, hsell⟩ (by simp [hpos]) (by simp) (by have := h.reserves; rwa [htok] at this)
      rw [← htok] at hsubmitted
      exact hsubmitted

/-! What every update of a budget keeps holds whatever is called. -/

section
variable {m : String} {P : MarketBudget → Prop}

theorem meets_settleBuy (hP : AccountManager.BudgetInvariant cfg.account P)
    (h : e.accountMgr.Meets P m) (id : String) (krw coin price : ℚ) :
    (e.settleBuy id krw coin price).accountMgr.Meets P m := by
  rcases e.settleBuy_cases id krw coin price with hskip | ⟨token, -, -, heq⟩
  · rw [hskip]
    exact h
  · rw [heq]
    exact AccountManager.meets_finalizeFillBuy hP h token krw coin price

theorem meets_settleSell (hP : AccountManager.BudgetInvariant cfg.account P)
    (h : e.accountMgr.Meets P m) (coin krw : ℚ) :
    (e.settleSell coin krw).accountMgr.Meets P m :=
  AccountManager.meets_finalizeFillSell hP h e.market coin krw

theorem meets_settleTrade (hP : AccountManager.BudgetInvariant cfg.account P)
    (h : e.accountMgr.Meets P m) (t : MyTrade) :
    (e.settleTrade t).accountMgr.Meets P m := by
  unfold settleTrade
  cases t.side with
  | bid => exact meets_settleBuy hP h _ _ _ _
  | ask => exact meets_settleSell hP h _ _

theorem meets_onMyTrade (hP : AccountManager.BudgetInvariant cfg.account P)
    (h : e.accountMgr.Meets P m) (t : MyTrade) :
    (e.onMyTrade cfg t).accountMgr.Meets P m := by
  obtain ⟨seen, fifo, hskip | ⟨ord, -, -, heq⟩⟩ := e.onMyTrade_cases cfg t
  · rw [hskip]
    exact h
  · rw [heq]
    apply meets_settleTrade hP
    exact h

theorem meets_settleClose (hP : AccountManager.BudgetInvariant cfg.account P)
    (h : e.accountMgr.Meets P m) (o : Order) :
    (e.settleClose cfg o).accountMgr.Meets P m := by
  unfold settleClose
  cases o.position with
  | bid =>
    simp only
    split
    · unfold finalizeBuyToken_
      split
      · exact h
      · next token htok =>
        split
        · exact h
        · exact AccountManager.meets_finalizeOrder hP h token
    · exact h
  | ask =>
    simp only
    split
    · exact AccountManager.meets_finalizeSellOrder hP h e.market _
    · exact h

theorem meets_onOrderSnapshot (hP : AccountManager.BudgetInvariant cfg.account P)
    (h : e.accountMgr.Meets P m) (s : Order) :
    (e.onOrderSnapshot cfg s).accountMgr.Meets P m := by
  by_cases hskip : ¬ e.forMarket s.market ∨ e.store.get s.id = none
  · rw [onOrderSnapshot_skip hskip]
    exact h
  · rw [not_or, not_not] at hskip
    obtain ⟨old, hget⟩ := Option.ne_none_iff_exists'.mp hskip.2
    obtain ⟨hid, heq⟩ := onOrderSnapshot_known cfg hskip.1 hget
    rw [heq]
    split
    · simp only
      split
      · exact meets_settleClose (e := { e with store := e.store.put (mergeSnapshot old s) hid }) hP h _
      · exact h
    · exact h

theorem meets_reconcile (hP : AccountManager.BudgetInvariant cfg.account P)
    (h : e.accountMgr.Meets P m) (s : Order) :
    (e.reconcileFromSnapshot cfg s).2.accountMgr.Meets P m := by
  rcases e.reconcileFromSnapshot_cases cfg s with hskip | ⟨prev, settled, -, -, hdelta, heq⟩
  · rw [hskip]
    exact h
  · rw [heq]
    apply meets_onOrderSnapshot hP
    rcases settleDelta_cases hdelta with rfl | ⟨krw, coin, price, rfl⟩ | ⟨coin, krw, rfl⟩
    · exact h
    · exact meets_settleBuy hP h _ _ _ _
    · exact meets_settleSell hP h _ _

theorem meets_submit (hP : AccountManager.BudgetInvariant cfg.account P)
    (h : e.accountMgr.Meets P m) (req : OrderRequest ℚ)
    (reply : Except RestError String) : (e.submitReply cfg req reply).2.accountMgr.Meets P m := by
  have hafter : ∀ e : MarketEngine, e.accountMgr.Meets P m →
      (e.afterPost req reply).2.accountMgr.Meets P m := by
    intro e h
    unfold afterPost releaseBuyToken
    cases reply with
    | error err =>
      cases req.position with
      | bid =>
        simp only
        split
        · next token htok => exact AccountManager.meets_release hP h token
        · exact h
      | ask => exact h
    | ok uuid =>
      cases req.position with
      | bid => exact h
      | ask => exact h
  unfold submitReply submit
  rcases e.beforePost_cases cfg req with ⟨code, message, hfail⟩ | ⟨message, hfail⟩ |
    ⟨-, -, -, -, -, token, mgr, hres, hok⟩ | ⟨-, -, -, -, -, hok⟩
  · rw [hfail]
    exact h
  · rw [hfail]
    exact h
  · rw [hok]
    have hreserve := AccountManager.meets_reserve hP h e.market (computeReserveAmount cfg req)
    rw [hres] at hreserve
    exact hafter { e with accountMgr := mgr, activeBuyToken := some token } hreserve
  · rw [hok]
    exact hafter e h

theorem meets_call (hP : AccountManager.BudgetInvariant cfg.account P)
    (h : e.accountMgr.Meets P m) (c : EngineCall) :
    (e.call cfg c).accountMgr.Meets P m := by
  cases c with
  | submit req reply => exact meets_submit hP h req reply
  | message msg =>
    cases msg with
    | trade t => exact meets_onMyTrade hP h t
    | snapshot s => exact meets_onOrderSnapshot hP h s
    | reconcile s => exact meets_reconcile hP h s
  | setMarkPrice p => exact h
  | pollEvents => exact h

end

/-! Runs. -/

theorem singleOrder_call (h : e.SingleOrder ∧ e.OnlyForeign foreign) {c : EngineCall}
    (hc : e.Admissible foreign c) :
    (e.call cfg c).SingleOrder ∧ (e.call cfg c).OnlyForeign foreign := by
  cases c with
  | submit req reply => exact singleOrder_submit cfg h.1 h.2 req hc
  | message msg =>
    cases msg with
    | trade t => exact singleOrder_onMyTrade h.1 h.2 t
    | snapshot s => exact singleOrder_onOrderSnapshot cfg h.1 h.2 hc.1 hc.2
    | reconcile s => exact singleOrder_reconcile h.1 h.2 hc.1 hc.2
  | setMarkPrice p => exact ⟨h.1.observe _ _ _ _, h.2⟩
  | pollEvents => exact ⟨h.1.observe _ _ _ _, h.2⟩

theorem singleOrder_new {market : String} {store : OrderStore} {mgr : AccountManager}
    (hstore : ∀ id o, store.get id = some o → o.market ≠ market)
    (hidle : mgr.Reserves market 0) :
    SingleOrder { market := market, store := store, accountMgr := mgr } where
  token_iff := by simp
  exclusive := by simp
  token_sound := by simp
  stored id o ho homkt := absurd homkt (hstore id o ho)
  tracked side hside := by cases side <;> exact absurd rfl hside
  reserves := hidle

theorem singleOrder_idleEngine : idleEngine.SingleOrder := by
  refine singleOrder_new (fun id o ho => by simp at ho) (fun b hb => ?_)
  obtain rfl : _ = b := Option.some.inj hb
  rfl

/-- **Single order.** In every state of every run of a new engine, on a ledger as
    `rebuildFromAccount` leaves it, at most one order is out and the engine, the store and the
    ledger agree on it. -/
theorem always_singleOrder (cfg : AppConfig ℚ) (mgr : AccountManager) {account : Account}
    (hkrw : 0 ≤ account.krwFree) (market : String) {store : OrderStore}
    (hstore : ∀ id o, store.get id = some o → o.market ≠ market) (calls : List EngineCall)
    (hcalls : Machine.Guarded (call cfg) (Admissible (fun id => (store.get id).isSome))
      { market := market, store := store
        accountMgr := mgr.rebuildFromAccount cfg.account account } calls) :
    Machine.Always (call cfg) (fun e => e.SingleOrder ∧ e.NotOverdrawn)
      { market := market, store := store
        accountMgr := mgr.rebuildFromAccount cfg.account account } calls := by
  refine (Machine.always_of_guarded
    (P := fun e : MarketEngine => (e.SingleOrder ∧ e.OnlyForeign (fun id => (store.get id).isSome)) ∧
      ∀ m, e.accountMgr.Solvent m)
    (fun e c h hc => ⟨singleOrder_call h.1 hc,
      fun m => meets_call (AccountManager.budgetInvariant_available cfg.account) (h.2 m) c⟩)
    ⟨⟨singleOrder_new hstore ?_, ?_⟩, ?_⟩ hcalls).mono
    (fun e h => ⟨h.1.1, h.1.1.notOverdrawn (h.2 e.market)⟩)
  · exact fun b hb => (AccountManager.rebuildFromAccount_idle cfg.account mgr hb).1
  · intro id o ho _
    rw [ho]
    rfl
  · exact fun m b hb => (AccountManager.rebuildFromAccount_idle cfg.account mgr hb).2 hkrw

/-- A buy, its first fill, and the snapshot that closes it. -/
def buyCalls : List EngineCall :=
  [.submit buyRequest (.ok "u1"),
   .message (.trade { orderUuid := "u1", tradeUuid := "t1", market := "KRW-BTC", price := 1000,
                      volume := 2, executedFunds := 2000, fee := 1 }),
   .message (.reconcile { id := "u1", market := "KRW-BTC", position := .bid, type := .market,
                          executedVolume := 5, executedFunds := 5000, paidFee := 2,
                          status := .filled })]

theorem always_singleOrder_buy :
    Machine.Always (call (AppConfig.standard ℚ)) (fun e => e.SingleOrder ∧ e.NotOverdrawn)
      { market := "KRW-BTC", store := .empty
        accountMgr := AccountManager.rebuildFromAccount (AppConfig.standard ℚ).account
          { budgets := AList.singleton "KRW-BTC" { market := "KRW-BTC" } } { krwFree := 10000 } }
      buyCalls := by
  refine always_singleOrder (AppConfig.standard ℚ) _ (by decide +kernel) "KRW-BTC"
    (fun id o ho => by simp at ho) buyCalls
    ⟨by simp [Admissible], trivial, ⟨fun o ho => ?_, by simp⟩, trivial⟩
  have hside : (Option.map (·.position) (some o)) = some OrderPosition.bid := by
    rw [← ho]
    decide +kernel
  exact (Option.some.inj hside).symm

end MarketEngine
end CoinBot
