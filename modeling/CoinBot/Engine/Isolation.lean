import CoinBot.Engine.Terminal
import CoinBot.Lib.Machine
import Mathlib.Logic.Function.Basic

/- Engines of several markets over one store and one ledger.

   The engines share the ledger's budgets and the store's orders. A call on one of
   them reads and writes the budget of its own market and the orders with its own
   uuids only; of the ledger's counters it reads the next token id, which nothing
   depends on. So every method is proved once, on two engines that agree on what is
   their own (`Alike`): they still agree after the method, and what is not their own
   is as before (`Isolated`). Every market then ends as it does alone
   (`markets_isolated`). -/
namespace CoinBot

/-! The ledger. -/

/-- The token without its id. -/
def ReservationToken.anonymous (t : ReservationToken) : ReservationToken := { t with id := 0 }

theorem ReservationToken.eq_of_anonymous {t t' : ReservationToken}
    (h : t.anonymous = t'.anonymous) : t' = { t with id := t'.id } := by
  cases t
  cases t'
  simp only [anonymous, mk.injEq] at h ⊢
  simp [h]

namespace AccountManager

/-- Two ledgers that agree on the market's budget still do, and the first ledger's other budgets
    are as they were. -/
structure Isolates (m : String) (mgr mgr₁ mgr₁' : AccountManager) : Prop where
  own : mgr₁.getBudget m = mgr₁'.getBudget m
  others : ∀ m', m' ≠ m → mgr₁.getBudget m' = mgr.getBudget m'

variable {m : String} {mgr mgr' : AccountManager}

theorem isolates_refl (h : mgr.getBudget m = mgr'.getBudget m) : Isolates m mgr mgr mgr' :=
  ⟨h, fun _ _ => rfl⟩

theorem isolates_modifyBudget (h : mgr.getBudget m = mgr'.getBudget m)
    (f : MarketBudget → MarketBudget) :
    Isolates m mgr (mgr.modifyBudget m f) (mgr'.modifyBudget m f) where
  own := by rw [getBudget_modifyBudget_self, getBudget_modifyBudget_self, h]
  others m' hm' := getBudget_modifyBudget_ne mgr f hm'

theorem isolates_counted (h : mgr.getBudget m = mgr'.getBudget m) (f : MarketBudget → MarketBudget)
    {mgr₁ mgr₁' : AccountManager} (hfst : mgr₁.budgets = (mgr.modifyBudget m f).budgets)
    (hsnd : mgr₁'.budgets = (mgr'.modifyBudget m f).budgets) : Isolates m mgr mgr₁ mgr₁' := by
  obtain ⟨hown, hothers⟩ := isolates_modifyBudget h f
  have hget : ∀ m', mgr₁.getBudget m' = (mgr.modifyBudget m f).getBudget m' := by
    intro m'
    unfold getBudget
    rw [hfst]
  have hget' : mgr₁'.getBudget m = (mgr'.modifyBudget m f).getBudget m := by
    unfold getBudget
    rw [hsnd]
  exact ⟨(hget m).trans (hown.trans hget'.symm), fun m' hm' => (hget m').trans (hothers m' hm')⟩

theorem isolates_reserve (h : mgr.getBudget m = mgr'.getBudget m) (krw : Amount) :
    (mgr.reserve m krw).1.map (·.anonymous) = (mgr'.reserve m krw).1.map (·.anonymous) ∧
      (∀ t, (mgr.reserve m krw).1 = some t → t.market = m) ∧
      Isolates m mgr (mgr.reserve m krw).2 (mgr'.reserve m krw).2 := by
  unfold reserve
  rw [← h]
  cases hb : mgr.getBudget m with
  | none => exact ⟨rfl, fun t ht => absurd ht (by simp), h, fun _ _ => rfl⟩
  | some b =>
    by_cases hpos : krw ≤ 0
    · simp only [hpos, dite_true]
      exact ⟨trivial, fun t ht => absurd ht (by simp), h, fun _ _ => rfl⟩
    · by_cases havail : b.availableKrw < krw
      · simp only [hpos, havail, dite_false, if_true]
        exact ⟨trivial, fun t ht => absurd ht (by simp), h, fun _ _ => rfl⟩
      · simp only [hpos, havail, dite_false, if_false]
        refine ⟨rfl, fun t ht => ?_, isolates_counted h (·.hold krw) rfl rfl⟩
        rw [← Option.some.inj ht]

theorem isolates_release (h : mgr.getBudget m = mgr'.getBudget m) {t t' : ReservationToken}
    (ht : t.anonymous = t'.anonymous) (hm : t.market = m) :
    Isolates m mgr (mgr.release t).2 (mgr'.release t').2 := by
  rw [ReservationToken.eq_of_anonymous ht]
  subst hm
  unfold release
  cases t.active with
  | false => exact isolates_refl h
  | true => exact isolates_counted h (·.giveBack t.remaining) rfl rfl

theorem isolates_finalizeFillBuy (h : mgr.getBudget m = mgr'.getBudget m)
    {t t' : ReservationToken} (ht : t.anonymous = t'.anonymous) (hm : t.market = m)
    (krw coin price : ℚ) :
    (mgr.finalizeFillBuy t krw coin price).1.anonymous =
        (mgr'.finalizeFillBuy t' krw coin price).1.anonymous ∧
      (mgr.finalizeFillBuy t krw coin price).1.market = m ∧
      Isolates m mgr (mgr.finalizeFillBuy t krw coin price).2
        (mgr'.finalizeFillBuy t' krw coin price).2 := by
  have hsame := ReservationToken.eq_of_anonymous ht
  generalize t'.id = i at hsame
  subst hsame hm
  by_cases hbooks : mgr.BooksBuy t krw coin price
  · have hbooks' : mgr'.BooksBuy { t with id := i } krw coin price := by
      obtain ⟨hact, hkrw, hcoin, hprice, hrem, hreg⟩ := hbooks
      exact ⟨hact, hkrw, hcoin, hprice, hrem, h ▸ hreg⟩
    rw [finalizeFillBuy_booked hbooks, finalizeFillBuy_booked hbooks']
    exact ⟨rfl, rfl, isolates_counted h (·.buy (charge t krw) coin price) rfl rfl⟩
  · have hbooks' : ¬ mgr'.BooksBuy { t with id := i } krw coin price := by
      rintro ⟨hact, hkrw, hcoin, hprice, hrem, hreg⟩
      exact hbooks ⟨hact, hkrw, hcoin, hprice, hrem, h.symm ▸ hreg⟩
    rw [finalizeFillBuy_skipped hbooks, finalizeFillBuy_skipped hbooks']
    exact ⟨rfl, rfl, isolates_refl h⟩

theorem isolates_finalizeFillSell (h : mgr.getBudget m = mgr'.getBudget m) (coin krw : ℚ) :
    Isolates m mgr (mgr.finalizeFillSell m coin krw) (mgr'.finalizeFillSell m coin krw) := by
  unfold finalizeFillSell
  rw [← h]
  split
  · exact isolates_refl h
  · cases mgr.getBudget m with
    | none => exact isolates_refl h
    | some b => exact isolates_counted h (·.sell coin krw) rfl rfl

theorem isolates_finalizeOrder (cfg : AccountConfig) (h : mgr.getBudget m = mgr'.getBudget m)
    {t t' : ReservationToken} (ht : t.anonymous = t'.anonymous) (hm : t.market = m) :
    Isolates m mgr (mgr.finalizeOrder cfg t).2 (mgr'.finalizeOrder cfg t').2 := by
  have hsame := ReservationToken.eq_of_anonymous ht
  generalize t'.id = i at hsame
  subst hsame hm
  unfold finalizeOrder
  cases t.active with
  | false => exact isolates_refl h
  | true =>
    simp only [Bool.not_true, Bool.false_eq_true, if_false]
    rw [← h]
    cases mgr.getBudget t.market with
    | none => exact isolates_refl h
    | some b =>
      show Isolates t.market mgr
        ((if 0 < t.remaining then mgr.releaseInternal t.market t.remaining else mgr).modifyBudget
          t.market (·.sweepDust cfg))
        ((if 0 < t.remaining then mgr'.releaseInternal t.market t.remaining else mgr').modifyBudget
          t.market (·.sweepDust cfg))
      split
      · have hgive := isolates_modifyBudget h (·.giveBack t.remaining)
        have hsweep := isolates_modifyBudget hgive.own (·.sweepDust cfg)
        exact ⟨hsweep.own, fun m' hm' => (hsweep.others m' hm').trans (hgive.others m' hm')⟩
      · exact isolates_modifyBudget h _

end AccountManager

namespace MarketEngine

/-! Two engines that agree on what is their own. -/

/-- The engines agree on all but the ids of tokens, the budgets of other markets and the orders
    that are not `owned`; tokens and owned orders are of their market. -/
structure Alike (owned : String → Prop) (e e' : MarketEngine) : Prop where
  market : e.market = e'.market
  seen : e.seenTradeUuids = e'.seenTradeUuids
  fifo : e.seenTradeUuidFifo = e'.seenTradeUuidFifo
  events : e.events = e'.events
  token : e.activeBuyToken.map (·.anonymous) = e'.activeBuyToken.map (·.anonymous)
  token_own : ∀ t, e.activeBuyToken = some t → t.market = e.market
  buy : e.activeBuyOrderUuid = e'.activeBuyOrderUuid
  sell : e.activeSellOrderUuid = e'.activeSellOrderUuid
  mark : e.lastMarkPrice = e'.lastMarkPrice
  budget : e.accountMgr.getBudget e.market = e'.accountMgr.getBudget e.market
  store : ∀ id, owned id → e.store.get id = e'.store.get id
  store_own : ∀ id o, owned id → e.store.get id = some o → o.market = e.market

/-- After a method two such engines still agree, and the first has left alone what is not its
    own. -/
structure Isolated (owned : String → Prop) (e e₁ e₁' : MarketEngine) : Prop where
  alike : Alike owned e₁ e₁'
  market : e₁.market = e.market
  budgets : ∀ m, m ≠ e.market → e₁.accountMgr.getBudget m = e.accountMgr.getBudget m
  orders : ∀ id, ¬ owned id → e₁.store.get id = e.store.get id

variable {owned : String → Prop} {e e' e₁ e₁' e₂ e₂' : MarketEngine} {cfg : AppConfig ℚ}

theorem Alike.isolated (h : Alike owned e e') : Isolated owned e e e' :=
  ⟨h, rfl, fun _ _ => rfl, fun _ _ => rfl⟩

theorem Isolated.trans (h : Isolated owned e e₁ e₁') (h' : Isolated owned e₁ e₂ e₂') :
    Isolated owned e e₂ e₂' where
  alike := h'.alike
  market := h'.market.trans h.market
  budgets m hm := (h'.budgets m (h.market ▸ hm)).trans (h.budgets m hm)
  orders id hid := (h'.orders id hid).trans (h.orders id hid)

theorem Alike.token_cases (h : Alike owned e e') :
    (e.activeBuyToken = none ∧ e'.activeBuyToken = none) ∨
    ∃ t t', e.activeBuyToken = some t ∧ e'.activeBuyToken = some t' ∧
      t.anonymous = t'.anonymous ∧ t.market = e.market := by
  have htoken := h.token
  obtain hnone | ⟨t, ht⟩ := Option.eq_none_or_eq_some e.activeBuyToken
  · rw [hnone, Option.map_none, eq_comm, Option.map_eq_none_iff] at htoken
    exact .inl ⟨hnone, htoken⟩
  · rw [ht, Option.map_some, eq_comm, Option.map_eq_some_iff] at htoken
    obtain ⟨t', ht', hsame⟩ := htoken
    exact .inr ⟨t, t', ht, ht', hsame.symm, h.token_own t ht⟩

/-- The second engine differs from the first in the store, the ledger and the token only. -/
theorem Alike.eq (h : Alike owned e e') : ∃ store mgr token,
    e' = { e with store := store, accountMgr := mgr, activeBuyToken := token } := by
  refine ⟨e'.store, e'.accountMgr, e'.activeBuyToken, ?_⟩
  obtain ⟨hmkt, hseen, hfifo, hevents, -, -, hbuy, hsell, hmark, -, -, -⟩ := h
  cases e'
  simp only [MarketEngine.mk.injEq] at *
  exact ⟨hmkt.symm, trivial, trivial, hseen.symm, hfifo.symm, hevents.symm, trivial, hbuy.symm,
    hsell.symm, hmark.symm⟩

theorem Alike.forMarket (h : Alike owned e e') (m : String) : e.forMarket m ↔ e'.forMarket m := by
  unfold MarketEngine.forMarket
  rw [h.market]

theorem Alike.ledger (h : Alike owned e e') {mgr mgr' : AccountManager}
    (hmgr : AccountManager.Isolates e.market e.accountMgr mgr mgr') :
    Isolated owned e { e with accountMgr := mgr } { e' with accountMgr := mgr' } where
  alike := { h with budget := hmgr.own }
  market := rfl
  budgets := hmgr.others
  orders _ _ := rfl

theorem Alike.hold (h : Alike owned e e') {mgr mgr' : AccountManager}
    {token token' : Option ReservationToken}
    (hmgr : AccountManager.Isolates e.market e.accountMgr mgr mgr')
    (htoken : token.map (·.anonymous) = token'.map (·.anonymous))
    (hown : ∀ t, token = some t → t.market = e.market) :
    Isolated owned e { e with accountMgr := mgr, activeBuyToken := token }
      { e' with accountMgr := mgr', activeBuyToken := token' } where
  alike := { h with budget := hmgr.own, token := htoken, token_own := hown }
  market := rfl
  budgets := hmgr.others
  orders _ _ := rfl

theorem Alike.drop (h : Alike owned e e') {mgr mgr' : AccountManager}
    (hmgr : AccountManager.Isolates e.market e.accountMgr mgr mgr') :
    Isolated owned e { e with accountMgr := mgr, activeBuyToken := none }
      { e' with accountMgr := mgr', activeBuyToken := none } :=
  h.hold hmgr rfl (fun t ht => absurd ht (by simp))

theorem Alike.put (h : Alike owned e e') (o : Order) (hid : o.id ≠ "") (hown : owned o.id)
    (hmkt : o.market = e.market) :
    Isolated owned e { e with store := e.store.put o hid }
      { e' with store := e'.store.put o hid } where
  alike :=
    { h with
      store := by
        intro id hmine
        by_cases heq : id = o.id
        · subst heq
          rw [OrderStore.get_put_self, OrderStore.get_put_self]
        · rw [OrderStore.get_put_ne _ _ _ heq, OrderStore.get_put_ne _ _ _ heq, h.store id hmine]
      store_own := by
        intro id o' hmine ho'
        by_cases heq : id = o.id
        · subst heq
          rw [OrderStore.get_put_self] at ho'
          rw [← Option.some.inj ho']
          exact hmkt
        · rw [OrderStore.get_put_ne _ _ _ heq] at ho'
          exact h.store_own id o' hmine ho' }
  market := rfl
  budgets _ _ := rfl
  orders id hother := OrderStore.get_put_ne e.store o hid (fun heq => hother (heq ▸ hown))

theorem Alike.erase (h : Alike owned e e') {id : String} (hown : owned id) :
    Isolated owned e { e with store := e.store.erase id }
      { e' with store := e'.store.erase id } where
  alike :=
    { h with
      store := by
        intro id' hmine
        by_cases heq : id' = id
        · subst heq
          rw [OrderStore.get_erase_self, OrderStore.get_erase_self]
        · rw [OrderStore.get_erase_ne _ heq, OrderStore.get_erase_ne _ heq, h.store id' hmine]
      store_own := by
        intro id' o' hmine ho'
        by_cases heq : id' = id
        · subst heq
          rw [OrderStore.get_erase_self] at ho'
          exact absurd ho' (by simp)
        · rw [OrderStore.get_erase_ne _ heq] at ho'
          exact h.store_own id' o' hmine ho' }
  market := rfl
  budgets _ _ := rfl
  orders id' hother := OrderStore.get_erase_ne e.store (fun heq => hother (heq ▸ hown))

theorem Alike.observe (h : Alike owned e e') (seen : Finset String) (fifo : List String)
    (events : List EngineEvent) (mark : Price) :
    Isolated owned e
      { e with seenTradeUuids := seen, seenTradeUuidFifo := fifo, events := events,
               lastMarkPrice := mark }
      { e' with seenTradeUuids := seen, seenTradeUuidFifo := fifo, events := events,
                lastMarkPrice := mark } where
  alike := { h with seen := rfl, fifo := rfl, events := rfl, mark := rfl }
  market := rfl
  budgets _ _ := rfl
  orders _ _ := rfl

theorem Alike.track (h : Alike owned e e') (buy sell : String) :
    Isolated owned e { e with activeBuyOrderUuid := buy, activeSellOrderUuid := sell }
      { e' with activeBuyOrderUuid := buy, activeSellOrderUuid := sell } where
  alike := { h with buy := rfl, sell := rfl }
  market := rfl
  budgets _ _ := rfl
  orders _ _ := rfl

/-! Method by method. -/

theorem isolated_settleBuy (h : Alike owned e e') (orderUuid : String) (krw coin price : ℚ) :
    Isolated owned e (e.settleBuy orderUuid krw coin price)
      (e'.settleBuy orderUuid krw coin price) := by
  have htoken := h.token_cases
  have hbuy := h.buy
  unfold settleBuy
  rcases htoken with ⟨hnone, hnone'⟩ | ⟨t, t', ht, ht', hsame, hmkt⟩
  · rw [hnone, hnone']
    exact h.isolated
  · rw [ht, ht']
    by_cases hid : e.activeBuyOrderUuid = orderUuid
    · simp only [if_pos hid, if_pos (hbuy ▸ hid)]
      obtain ⟨hsettled, hown, hmgr⟩ :=
        AccountManager.isolates_finalizeFillBuy h.budget hsame hmkt krw coin price
      refine h.hold hmgr ?_ (fun t₁ ht₁ => Option.some.inj ht₁ ▸ hown)
      simp only [Option.map_some, hsettled]
    · simp only [if_neg hid, if_neg (hbuy ▸ hid)]
      exact h.isolated

theorem isolated_settleSell (h : Alike owned e e') (coin krw : ℚ) :
    Isolated owned e (e.settleSell coin krw) (e'.settleSell coin krw) := by
  obtain ⟨store, mgr, token, rfl⟩ := h.eq
  exact h.ledger (AccountManager.isolates_finalizeFillSell h.budget coin krw)

theorem isolated_settleTrade (h : Alike owned e e') (t : MyTrade) :
    Isolated owned e (e.settleTrade t) (e'.settleTrade t) := by
  unfold settleTrade
  cases t.side with
  | bid => exact isolated_settleBuy h _ _ _ _
  | ask => exact isolated_settleSell h _ _

theorem isolated_onMyTrade (cfg : AppConfig ℚ) (h : Alike owned e e') {t : MyTrade}
    (hown : owned t.orderUuid) : Isolated owned e (e.onMyTrade cfg t) (e'.onMyTrade cfg t) := by
  have hstored := h.store t.orderUuid hown
  obtain ⟨store, mgr, token, rfl⟩ := h.eq
  unfold onMyTrade markTradeOnce
  by_cases hmkt : t.market = e.market
  · by_cases hempty : makeTradeDedupeKey_ t = ""
    · simp only [hmkt, hempty, ne_eq, not_true_eq_false, if_true, if_false]
      exact h.isolated
    · by_cases hseen : makeTradeDedupeKey_ t ∈ e.seenTradeUuids
      · simp only [hmkt, hempty, hseen, ne_eq, not_true_eq_false, if_true, if_false]
        exact h.isolated
      · simp only [hmkt, hempty, hseen, ne_eq, not_true_eq_false, if_false, ← hstored]
        generalize evict cfg.engine.maxSeenTrades (insert (makeTradeDedupeKey_ t) e.seenTradeUuids)
          (e.seenTradeUuidFifo ++ [makeTradeDedupeKey_ t]) = marked
        cases e.store.get t.orderUuid with
        | none => exact h.observe marked.1 marked.2 e.events e.lastMarkPrice
        | some ord =>
          have hfill := h.observe marked.1 marked.2 (e.events ++ fillEvents t ord) e.lastMarkPrice
          exact hfill.trans (isolated_settleTrade hfill.alike t)
  · simp only [hmkt, ne_eq, not_false_eq_true, if_true]
    exact h.isolated

theorem isolated_settleClose (cfg : AppConfig ℚ) (h : Alike owned e e') (o : Order) :
    Isolated owned e (e.settleClose cfg o) (e'.settleClose cfg o) := by
  have htoken := h.token_cases
  obtain ⟨store, mgr, token, rfl⟩ := h.eq
  unfold settleClose
  cases o.position with
  | bid =>
    by_cases hid : o.id = e.activeBuyOrderUuid
    · simp only [if_pos hid, finalizeBuyToken_]
      rcases htoken with ⟨hnone, hnone'⟩ | ⟨t, t', ht, ht', hsame, hmkt⟩
      · simp only at hnone'
        rw [hnone, hnone']
        subst hnone'
        exact h.isolated
      · simp only at ht'
        subst ht'
        rw [ht]
        by_cases hempty : e.activeBuyOrderUuid = ""
        · have hskip : e.activeBuyOrderUuid = "" ∨ e.activeBuyOrderUuid ≠ o.id := .inl hempty
          simp only [if_pos hskip]
          exact h.isolated
        · have hfinal : ¬ (e.activeBuyOrderUuid = "" ∨ e.activeBuyOrderUuid ≠ o.id) :=
            not_or.mpr ⟨hempty, not_not.mpr hid.symm⟩
          simp only [if_neg hfinal]
          have hmgr := AccountManager.isolates_finalizeOrder cfg.account h.budget hsame hmkt
          have hheld := h.drop hmgr
          exact hheld.trans (hheld.alike.track "" e.activeSellOrderUuid)
    · simp only [if_neg hid]
      exact h.isolated
  | ask =>
    by_cases hid : o.id = e.activeSellOrderUuid
    · simp only [if_pos hid, finalizeSell]
      have hledger := h.ledger (AccountManager.isolates_modifyBudget h.budget (·.closeSell cfg.account
        (if 0 < e.lastMarkPrice then some e.lastMarkPrice else none)))
      exact hledger.trans (hledger.alike.track e.activeBuyOrderUuid "")
    · simp only [if_neg hid]
      exact h.isolated

theorem Alike.statusEvents (cfg : AppConfig ℚ) (h : Alike owned e e') (o : Order) :
    e.statusEvents cfg o = e'.statusEvents cfg o := by
  have hbudget := h.budget
  obtain ⟨store, mgr, token, rfl⟩ := h.eq
  unfold MarketEngine.statusEvents resolvePositionEffect_
  simp only at hbudget
  simp only [hbudget]

theorem isolated_closeOrder (cfg : AppConfig ℚ) (h : Alike owned e e') (o : Order) :
    Isolated owned e (e.closeOrder cfg o) (e'.closeOrder cfg o) := by
  have hclose := isolated_settleClose cfg h o
  have hevents := hclose.alike.statusEvents cfg o
  simp only [closeOrder, ← hevents, ← hclose.alike.events]
  generalize e.settleClose cfg o = closed at hclose ⊢
  generalize e'.settleClose cfg o = closed' at hclose ⊢
  generalize closed.statusEvents cfg o = announced
  obtain ⟨store, mgr, token, rfl⟩ := hclose.alike.eq
  exact hclose.trans (hclose.alike.observe closed.seenTradeUuids closed.seenTradeUuidFifo
    (closed.events ++ announced) closed.lastMarkPrice)

theorem isolated_onOrderSnapshot (cfg : AppConfig ℚ) (h : Alike owned e e') {s : Order}
    (hown : owned s.id) :
    Isolated owned e (e.onOrderSnapshot cfg s) (e'.onOrderSnapshot cfg s) := by
  have hstored := h.store s.id hown
  by_cases hskip : ¬ e.forMarket s.market ∨ e.store.get s.id = none
  · have hskip' : ¬ e'.forMarket s.market ∨ e'.store.get s.id = none := by
      rw [← h.forMarket, ← hstored]
      exact hskip
    rw [onOrderSnapshot_skip hskip, onOrderSnapshot_skip hskip']
    exact h.isolated
  · rw [not_or, not_not] at hskip
    obtain ⟨hm, hsome⟩ := hskip
    obtain ⟨old, hget⟩ := Option.ne_none_iff_exists'.mp hsome
    obtain ⟨hid, heq⟩ := onOrderSnapshot_known cfg hm hget
    obtain ⟨hid', heq'⟩ := onOrderSnapshot_known cfg ((h.forMarket _).mp hm) (hstored ▸ hget)
    have hmine : owned (mergeSnapshot old s).id := by
      rw [id_mergeSnapshot, OrderStore.id_of_get hget]
      exact hown
    have hmkt : (mergeSnapshot old s).market = e.market := by
      have hold := h.store_own s.id old hown hget
      unfold mergeSnapshot
      split
      · next hnamed => exact hm.resolve_left hnamed
      · exact hold
    have hput := h.put (mergeSnapshot old s) hid hmine hmkt
    rw [heq, heq']
    by_cases hterm : s.status.isTerminal = true
    · simp only [hterm, if_true]
      by_cases hchange : s.status ≠ old.status
      · simp only [if_pos hchange]
        have hclose := hput.trans (isolated_closeOrder cfg hput.alike (mergeSnapshot old s))
        exact hclose.trans (hclose.alike.erase hown)
      · simp only [if_neg hchange]
        exact hput.trans (hput.alike.erase hown)
    · simp only [hterm]
      exact hput

theorem isolated_settleDelta (h : Alike owned e e') (prev s : Order) :
    (e.settleDelta prev s = none ∧ e'.settleDelta prev s = none) ∨
    ∃ settled settled', e.settleDelta prev s = some settled ∧
      e'.settleDelta prev s = some settled' ∧ Isolated owned e settled settled' := by
  have htoken : e'.activeBuyToken.isNone = e.activeBuyToken.isNone := by
    rcases h.token_cases with ⟨hnone, hnone'⟩ | ⟨t, t', ht, ht', -, -⟩
    · rw [hnone, hnone']
    · rw [ht, ht']
      rfl
  unfold settleDelta
  simp only [htoken, ← h.buy, ← h.sell]
  split
  · exact .inr ⟨e, e', rfl, rfl, h.isolated⟩
  · split
    · exact .inl ⟨rfl, rfl⟩
    · cases s.position with
      | bid =>
        simp only
        split
        · exact .inl ⟨rfl, rfl⟩
        · split
          · exact .inl ⟨rfl, rfl⟩
          · exact .inr ⟨_, _, rfl, rfl, isolated_settleBuy h _ _ _ _⟩
      | ask =>
        simp only
        split
        · exact .inl ⟨rfl, rfl⟩
        · exact .inr ⟨_, _, rfl, rfl, isolated_settleSell h _ _⟩

theorem isolated_reconcile (cfg : AppConfig ℚ) (h : Alike owned e e') {s : Order}
    (hown : owned s.id) :
    Isolated owned e (e.reconcileFromSnapshot cfg s).2 (e'.reconcileFromSnapshot cfg s).2 := by
  have hstored := h.store s.id hown
  have hforMarket := h.forMarket s.market
  unfold reconcileFromSnapshot
  rw [← hstored]
  by_cases hm : e.forMarket s.market
  · have hm' := hforMarket.mp hm
    simp only [hm, hm', not_true_eq_false, if_false]
    cases e.store.get s.id with
    | none => exact h.isolated
    | some prev =>
      rcases isolated_settleDelta h prev s with ⟨hnone, hnone'⟩ | ⟨settled, settled', hsome, hsome', hsettled⟩
      · simp only [hnone, hnone']
        exact h.isolated
      · simp only [hsome, hsome']
        exact hsettled.trans (isolated_onOrderSnapshot cfg hsettled.alike hown)
  · have hm' := (not_congr hforMarket).mp hm
    simp only [hm, hm', not_false_eq_true, if_true]
    exact h.isolated

theorem isolated_beforePost (cfg : AppConfig ℚ) (h : Alike owned e e') (req : OrderRequest ℚ) :
    (e.beforePost cfg req).1 = (e'.beforePost cfg req).1 ∧
      Isolated owned e (e.beforePost cfg req).2 (e'.beforePost cfg req).2 := by
  have htoken : e'.activeBuyToken.isSome = e.activeBuyToken.isSome := by
    rcases h.token_cases with ⟨hnone, hnone'⟩ | ⟨t, t', ht, ht', -, -⟩
    · rw [hnone, hnone']
    · rw [ht, ht']
      rfl
  obtain ⟨hsame, hown, hmgr⟩ :=
    AccountManager.isolates_reserve h.budget (computeReserveAmount cfg req)
  obtain ⟨store, mgr₀, token₀, rfl⟩ := h.eq
  simp only at htoken hsame hmgr
  unfold beforePost
  cases validateRequest req with
  | some reason => exact ⟨rfl, h.isolated⟩
  | none =>
    simp only [htoken]
    split
    · exact ⟨rfl, h.isolated⟩
    · cases req.position with
      | bid =>
        simp only
        split
        · exact ⟨rfl, h.isolated⟩
        · split
          · exact ⟨rfl, h.isolated⟩
          · generalize e.accountMgr.reserve e.market (computeReserveAmount cfg req) = got
              at hsame hown hmgr ⊢
            generalize mgr₀.reserve e.market (computeReserveAmount cfg req) = got' at hsame hmgr ⊢
            obtain ⟨token, mgr⟩ := got
            obtain ⟨token', mgr'⟩ := got'
            simp only at hsame hown hmgr
            cases token with
            | none =>
              obtain rfl : token' = none := by
                rw [Option.map_none, eq_comm, Option.map_eq_none_iff] at hsame
                exact hsame
              exact ⟨rfl, h.ledger hmgr⟩
            | some t =>
              rw [Option.map_some, eq_comm, Option.map_eq_some_iff] at hsame
              obtain ⟨t', rfl, hanon⟩ := hsame
              refine ⟨rfl, h.hold hmgr ?_ hown⟩
              simp only [Option.map_some, hanon]
      | ask =>
        simp only
        split
        · exact ⟨rfl, h.isolated⟩
        · split
          · exact ⟨rfl, h.isolated⟩
          · exact ⟨rfl, h.isolated⟩

theorem isolated_releaseBuyToken (h : Alike owned e e') :
    Isolated owned e e.releaseBuyToken e'.releaseBuyToken := by
  have htoken := h.token_cases
  obtain ⟨store, mgr, token, rfl⟩ := h.eq
  unfold releaseBuyToken
  rcases htoken with ⟨hnone, hnone'⟩ | ⟨t, t', ht, ht', hsame, hmkt⟩
  · simp only at hnone'
    rw [hnone, hnone']
    subst hnone'
    have htrack := h.track "" e.activeSellOrderUuid
    rw [hnone] at htrack
    exact htrack
  · simp only at ht'
    subst ht'
    rw [ht]
    have hmgr := AccountManager.isolates_release h.budget hsame hmkt
    have hheld := h.drop hmgr
    exact hheld.trans (hheld.alike.track "" e.activeSellOrderUuid)

/-- A failed order gives the token back; an accepted one is tracked and stored. -/
theorem isolated_afterPost (h : Alike owned e e') (req : OrderRequest ℚ)
    (hmkt : req.market = e.market) {reply : Except RestError String} (hown : ∀ uuid, reply = .ok uuid → owned uuid) :
    Isolated owned e (e.afterPost req reply).2 (e'.afterPost req reply).2 := by
  obtain ⟨store, mgr, token, rfl⟩ := h.eq
  cases reply with
  | error err =>
    unfold afterPost
    cases req.position with
    | bid => exact isolated_releaseBuyToken h
    | ask => exact h.isolated
  | ok uuid =>
    have hmine : owned (pendingOrder req uuid).id := hown uuid rfl
    have hupsert : ∀ {e₁ e₁' : MarketEngine}, Isolated owned e e₁ e₁' →
        Isolated owned e { e₁ with store := e₁.store.upsert (pendingOrder req uuid) }
          { e₁' with store := e₁'.store.upsert (pendingOrder req uuid) } := by
      intro e₁ e₁' htrack
      by_cases hid : (pendingOrder req uuid).id = ""
      · simp only [OrderStore.upsert, hid, dite_true]
        exact htrack
      · rw [OrderStore.upsert_eq hid, OrderStore.upsert_eq hid]
        exact htrack.trans (htrack.alike.put _ hid hmine (hmkt.trans htrack.market.symm))
    unfold afterPost
    cases req.position with
    | bid => exact hupsert (h.track uuid e.activeSellOrderUuid)
    | ask => exact hupsert (h.track e.activeBuyOrderUuid uuid)

/-- The uuid a call brings, if it brings one, is `owned`. -/
def Owns (owned : String → Prop) : EngineCall → Prop
  | .submit _ reply => ∀ uuid, reply = .ok uuid → owned uuid
  | .message msg => owned msg.orderUuid
  | .setMarkPrice _ => True
  | .pollEvents => True

theorem isolated_submitReply (cfg : AppConfig ℚ) (h : Alike owned e e') (req : OrderRequest ℚ)
    {reply : Except RestError String} (hown : ∀ uuid, reply = .ok uuid → owned uuid) :
    Isolated owned e (e.submitReply cfg req reply).2 (e'.submitReply cfg req reply).2 := by
  obtain ⟨hresult, hbefore⟩ := isolated_beforePost cfg h req
  have hmkt : (e.beforePost cfg req).1 = none → req.market = e.market := by
    intro hnone
    rcases e.beforePost_cases cfg req with ⟨code, message, hfail⟩ | ⟨message, hfail⟩ |
      ⟨-, hmkt, -⟩ | ⟨-, hmkt, -⟩
    · rw [hfail] at hnone
      exact absurd hnone (by simp)
    · rw [hfail] at hnone
      exact absurd hnone (by simp)
    · exact hmkt
    · exact hmkt
  unfold submitReply submit
  generalize e.beforePost cfg req = before at hresult hbefore hmkt ⊢
  generalize e'.beforePost cfg req = before' at hresult hbefore ⊢
  obtain ⟨result, e₁⟩ := before
  obtain ⟨result', e₁'⟩ := before'
  simp only at hresult
  subst hresult
  cases result with
  | none =>
    exact hbefore.trans
      (isolated_afterPost hbefore.alike req ((hmkt rfl).trans hbefore.market.symm) hown)
  | some result => exact hbefore

/-- Every call keeps to what is its own. -/
theorem isolated_call (cfg : AppConfig ℚ) (h : Alike owned e e') {c : EngineCall}
    (hown : Owns owned c) : Isolated owned e (e.call cfg c) (e'.call cfg c) := by
  cases c with
  | submit req reply => exact isolated_submitReply cfg h req hown
  | message msg =>
    cases msg with
    | trade t => exact isolated_onMyTrade cfg h hown
    | snapshot s => exact isolated_onOrderSnapshot cfg h hown
    | reconcile s => exact isolated_reconcile cfg h hown
  | setMarkPrice p =>
    obtain ⟨store, mgr, token, rfl⟩ := h.eq
    exact h.observe e.seenTradeUuids e.seenTradeUuidFifo e.events p
  | pollEvents =>
    obtain ⟨store, mgr, token, rfl⟩ := h.eq
    exact h.observe e.seenTradeUuids e.seenTradeUuidFifo [] e.lastMarkPrice

end MarketEngine

/-! Several engines. -/

/-- The engines of several markets, and the store and the ledger their references are to. -/
structure MarketEngines (ι : Type) where
  store : OrderStore
  accountMgr : AccountManager
  engines : ι → MarketEngine

namespace MarketEngines
variable {ι : Type}

/-- One of the engines, with what it refers to. -/
def engine (s : MarketEngines ι) (i : ι) : MarketEngine :=
  { s.engines i with store := s.store, accountMgr := s.accountMgr }

/-- A call on one of the engines. -/
def call [DecidableEq ι] (cfg : AppConfig ℚ) (s : MarketEngines ι) (c : ι × EngineCall) :
    MarketEngines ι :=
  let e := (s.engine c.1).call cfg c.2
  { store := e.store, accountMgr := e.accountMgr, engines := Function.update s.engines c.1 e }

/-- The markets are distinct, every token is for the market of its engine, and `owner` tells which
    engine's market a stored order is of. -/
structure Shared (owner : String → Option ι) (s : MarketEngines ι) : Prop where
  distinct : Function.Injective (fun i => (s.engines i).market)
  token_own : ∀ i t, (s.engines i).activeBuyToken = some t → t.market = (s.engines i).market
  stored : ∀ id o, s.store.get id = some o →
    ∀ i, o.market = (s.engines i).market ↔ owner id = some i

/-- An order's uuid, where it is one, is of the engine `i`. -/
def OwnedBy (owner : String → Option ι) (i : ι) (id : String) : Prop :=
  id = "" ∨ owner id = some i

/-- The state of an engine without what it shares and without the id of its token. -/
def own (e : MarketEngine) : MarketEngine :=
  { e with
    store := .empty
    accountMgr := { budgets := ∅ }
    activeBuyToken := e.activeBuyToken.map (·.anonymous) }

variable {owner : String → Option ι} {s t : MarketEngines ι}

theorem Shared.alike (h : s.Shared owner) (i : ι) :
    (s.engine i).Alike (OwnedBy owner i) (s.engine i) where
  market := rfl
  seen := rfl
  fifo := rfl
  events := rfl
  token := rfl
  token_own := h.token_own i
  buy := rfl
  sell := rfl
  mark := rfl
  budget := rfl
  store _ _ := rfl
  store_own id o hown ho := by
    rcases hown with hempty | howner
    · exact absurd hempty (s.store.ne_of_get ho)
    · exact (h.stored id o ho i).mpr howner

/-- A stored order's uuid is of one engine only. -/
theorem not_ownedBy {i j : ι} (hij : j ≠ i) {id : String} (hne : id ≠ "")
    (hown : OwnedBy owner i id) : ¬ OwnedBy owner j id := by
  have howner := hown.resolve_left hne
  rintro (hempty | howner')
  · exact hne hempty
  · rw [howner] at howner'
    exact hij (Option.some.inj howner').symm

variable [DecidableEq ι] {cfg : AppConfig ℚ}

@[simp] theorem engine_call_self (cfg : AppConfig ℚ) (s : MarketEngines ι) (i : ι)
    (c : EngineCall) : (s.call cfg (i, c)).engine i = (s.engine i).call cfg c := by
  simp only [engine, call, Function.update_self]

theorem engines_call_ne (cfg : AppConfig ℚ) (s : MarketEngines ι) {i j : ι} (hij : j ≠ i)
    (c : EngineCall) : (s.call cfg (j, c)).engines i = s.engines i :=
  Function.update_of_ne hij.symm _ _

theorem market_call (h : s.Shared owner) {j : ι} {c : EngineCall}
    (hown : MarketEngine.Owns (OwnedBy owner j) c) (i : ι) :
    ((s.call cfg (j, c)).engines i).market = (s.engines i).market := by
  by_cases hij : j = i
  · subst hij
    have hmkt := (MarketEngine.isolated_call cfg (h.alike j) hown).market
    rw [← engine_call_self] at hmkt
    exact hmkt
  · rw [engines_call_ne cfg s hij]

theorem shared_call (h : s.Shared owner) {c : ι × EngineCall}
    (hown : MarketEngine.Owns (OwnedBy owner c.1) c.2) : (s.call cfg c).Shared owner := by
  obtain ⟨j, c⟩ := c
  have hstep := MarketEngine.isolated_call cfg (h.alike j) hown
  have hmarket : ∀ i, ((s.call cfg (j, c)).engines i).market = (s.engines i).market :=
    market_call h hown
  refine ⟨?_, fun i t ht => ?_, fun id o ho i => ?_⟩
  · simp only [hmarket]
    exact h.distinct
  · rw [hmarket]
    by_cases hij : j = i
    · subst hij
      exact (hstep.alike.token_own t (by rw [← engine_call_self]; exact ht)).trans hstep.market
    · rw [engines_call_ne cfg s hij] at ht
      exact h.token_own i t ht
  · rw [hmarket]
    have hne : id ≠ "" := OrderStore.ne_of_get ho
    by_cases hmine : OwnedBy owner j id
    · -- The engine's own order is of its market.
      have hmkt := (hstep.alike.store_own id o hmine ho).trans hstep.market
      have howner := hmine.resolve_left hne
      rw [hmkt, howner]
      exact ⟨fun hsame => congrArg some (h.distinct hsame),
        fun hsame => congrArg (fun i => (s.engines i).market) (Option.some.inj hsame)⟩
    · have hsame : s.store.get id = some o := (hstep.orders id hmine).symm.trans ho
      exact h.stored id o hsame i

/-- A call on another engine leaves an engine, its budget and its orders as they are. -/
theorem alike_call_ne {i j : ι} (hij : j ≠ i) (h : s.Shared owner) {c : EngineCall}
    (hown : MarketEngine.Owns (OwnedBy owner j) c)
    (hlike : (s.engine i).Alike (OwnedBy owner i) (t.engine i)) :
    ((s.call cfg (j, c)).engine i).Alike (OwnedBy owner i) (t.engine i) := by
  have hstep := MarketEngine.isolated_call cfg (h.alike j) hown
  have heq : (s.call cfg (j, c)).engine i =
      { s.engine i with
        store := ((s.engine j).call cfg c).store
        accountMgr := ((s.engine j).call cfg c).accountMgr } := by
    unfold engine
    rw [engines_call_ne cfg s hij]
    rfl
  have hget : ∀ id, OwnedBy owner i id →
      ((s.engine j).call cfg c).store.get id = s.store.get id := by
    intro id hmine
    by_cases hempty : id = ""
    · -- No order is stored under the empty uuid.
      have hnone : ∀ store : OrderStore, store.get id = none := by
        intro store
        by_contra hsome
        obtain ⟨o, ho⟩ := Option.ne_none_iff_exists'.mp hsome
        exact store.ne_of_get ho hempty
      rw [hnone, hnone]
    · exact hstep.orders id (not_ownedBy hij hempty hmine)
  rw [heq]
  exact
    { hlike with
      token_own := hlike.token_own
      budget := (hstep.budgets _ (fun hsame => hij (h.distinct hsame.symm))).trans hlike.budget
      store := fun id hmine => (hget id hmine).trans (hlike.store id hmine)
      store_own := fun id o hmine ho => hlike.store_own id o hmine ((hget id hmine).symm.trans ho) }

/-- **Market isolation.** Several engines of distinct markets share a store and a ledger; every
    uuid an exchange answers with is of the engine that asked, and every trade and snapshot is
    delivered to the engine whose order it is about. After any interleaving of calls the budget
    of a market, the state and the events of its engine and its orders in the store are those
    after its own calls alone. -/
theorem markets_isolated (cfg : AppConfig ℚ) (owner : String → Option ι) (s : MarketEngines ι)
    (h : s.Shared owner)
    (calls : List (ι × EngineCall))
    (hcalls : ∀ c ∈ calls, MarketEngine.Owns (OwnedBy owner c.1) c.2) (i : ι) :
    let final := Machine.run (call cfg) s calls
    let alone := Machine.run (call cfg) s (calls.filter (·.1 = i))
    let market := (s.engines i).market
    final.accountMgr.getBudget market = alone.accountMgr.getBudget market ∧
      own (final.engines i) = own (alone.engines i) ∧
      ∀ id o, o.market = market → (final.store.get id = some o ↔ alone.store.get id = some o) := by
  intro final alone market
  let P := fun s' : MarketEngines ι =>
    s'.Shared owner ∧ ∀ i, (s'.engines i).market = (s.engines i).market
  have hP : ∀ s' c, P s' → MarketEngine.Owns (OwnedBy owner c.1) c.2 → P (s'.call cfg c) :=
    fun s' c hs' hown =>
      ⟨shared_call hs'.1 hown, fun i => (market_call hs'.1 hown i).trans (hs'.2 i)⟩
  have hlike : (final.engine i).Alike (OwnedBy owner i) (alone.engine i) :=
    Machine.run_filter (R := fun i s t => (s.engine i).Alike (OwnedBy owner i) (t.engine i)) hP
      (fun i s t c _ _ hown hR => by
        rw [engine_call_self, engine_call_self]
        exact (MarketEngine.isolated_call cfg hR hown).alike)
      (fun i j s t c hij hs hown hR => alike_call_ne hij hs.1 hown hR) i ⟨h, fun _ => rfl⟩
      ⟨h, fun _ => rfl⟩ hcalls (h.alike i)
  have hfinal : P final :=
    (Machine.always_of_guarded (g := fun _ c => MarketEngine.Owns (OwnedBy owner c.1) c.2) hP
      ⟨h, fun _ => rfl⟩ (Machine.guarded_of_forall (fun c hc _ => hcalls c hc) s)).last
  have halone : P alone := Machine.run_filter_invariant hP i ⟨h, fun _ => rfl⟩ hcalls
  -- `Alike` speaks of the market's orders by their owner.
  refine ⟨?_, ?_, fun id o ho => ⟨fun hget => ?_, fun hget => ?_⟩⟩
  · have hbudget := hlike.budget
    rw [show (final.engine i).market = market from hfinal.2 i] at hbudget
    exact hbudget
  · obtain ⟨hmkt, hseen, hfifo, hevents, htoken, -, hbuy, hsell, hmark, -, -, -⟩ := hlike
    simp only [engine] at hmkt hseen hfifo hevents htoken hbuy hsell hmark
    simp only [own, hmkt, hseen, hfifo, hevents, htoken, hbuy, hsell, hmark]
  · have howner : owner id = some i :=
      (hfinal.1.stored id o hget i).mp (ho.trans (hfinal.2 i).symm)
    exact (hlike.store id (.inr howner)).symm.trans hget
  · have howner : owner id = some i :=
      (halone.1.stored id o hget i).mp (ho.trans (halone.2 i).symm)
    exact (hlike.store id (.inr howner)).trans hget

/-- Two new engines over an empty store. -/
def pair : MarketEngines Bool where
  store := .empty
  accountMgr :=
    { budgets := (AList.singleton "KRW-BTC" { market := "KRW-BTC", availableKrw := 10000 }).insert
        "KRW-ETH" { market := "KRW-ETH", availableKrw := 20000 } }
  engines b :=
    { market := if b then "KRW-BTC" else "KRW-ETH", store := .empty, accountMgr := { budgets := ∅ } }

def pairOwner (id : String) : Option Bool :=
  if id = "u1" then some true else if id = "u2" then some false else none

theorem markets_isolated_pair :
    let calls : List (Bool × EngineCall) :=
      [(true, .submit MarketEngine.buyRequest (.ok "u1")),
       (false, .submit { MarketEngine.buyRequest with market := "KRW-ETH" } (.ok "u2")),
       (true, .message (.trade { orderUuid := "u1", tradeUuid := "t1", market := "KRW-BTC",
                                 price := 1000, volume := 2, executedFunds := 2000, fee := 1 })),
       (false, .setMarkPrice 3000)]
    let final := Machine.run (call (AppConfig.standard ℚ)) pair calls
    let alone := Machine.run (call (AppConfig.standard ℚ)) pair (calls.filter (·.1 = true))
    final.accountMgr.getBudget "KRW-BTC" = alone.accountMgr.getBudget "KRW-BTC" ∧
      own (final.engines true) = own (alone.engines true) ∧
      ∀ id o, o.market = "KRW-BTC" →
        (final.store.get id = some o ↔ alone.store.get id = some o) :=
  markets_isolated (AppConfig.standard ℚ) pairOwner pair
    ⟨by unfold Function.Injective; decide, fun i t ht => absurd ht (by simp [pair]), fun id o ho => absurd ho (by simp [pair])⟩
    _ (by simp [MarketEngine.Owns, OwnedBy, pairOwner, Message.orderUuid]) true

end MarketEngines
end CoinBot
