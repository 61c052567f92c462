import CoinBot.Engine.MarketEngine

/- `reconcileFromSnapshot` is all or nothing, and repeating it is harmless.

   Every return of false comes before the first effect. After a return of true the store
   holds the cumulative values of the snapshot, so the same snapshot has nothing left to
   settle; or the order is closed and gone from the store, and the snapshot is refused. -/
namespace CoinBot

namespace OrderStore

theorem put_put (store : OrderStore) {o o' : Order} (h : o.id ≠ "") (h' : o'.id ≠ "")
    (hid : o'.id = o.id) : (store.put o h).put o' h' = store.put o' h' := by
  have horders : ((store.orders.insert o.id o).insert o'.id o') = store.orders.insert o'.id o' := by
    rw [hid, AList.insert_insert]
  simp only [put, horders]

end OrderStore

namespace MarketEngine

variable (cfg : AppConfig ℚ) {e : MarketEngine} {s prev : Order}

theorem orElse_repeat {α : Type} (a b : Option α) : ((a <|> b) <|> b) = (a <|> b) := by
  cases a with
  | none => cases b <;> rfl
  | some _ => rfl

theorem price_mergeSnapshot_repeat (o s : Order) :
    (mergeSnapshot (mergeSnapshot o s) s).price = (mergeSnapshot o s).price := by
  cases ho : o.price with
  | some _ => simp [mergeSnapshot, ho]
  | none =>
    cases hs : s.price with
    | none => simp [mergeSnapshot, ho, hs]
    | some _ => cases ht : s.type <;> simp [mergeSnapshot, ho, hs, ht]

theorem mergeSnapshot_repeat (o s : Order) :
    mergeSnapshot (mergeSnapshot o s) s = mergeSnapshot o s := by
  have hkeep : ∀ new old : String,
      (if new ≠ "" then new else if new ≠ "" then new else old) = if new ≠ "" then new else old := by
    intro new old
    split <;> rfl
  have hprice := price_mergeSnapshot_repeat o s
  simp only [mergeSnapshot, orElse_repeat, hkeep] at hprice ⊢
  rw [hprice]

/-- Where the volume has not grown there is nothing to settle. -/
theorem settleDelta_unchanged (e : MarketEngine) (h : s.executedVolume ≤ prev.executedVolume) :
    e.settleDelta prev s = some e := by
  have hzero : max 0 (s.executedVolume - prev.executedVolume) ≤ 0 :=
    max_le le_rfl (sub_nonpos.mpr h)
  simp only [settleDelta, if_pos hzero]

/-- A snapshot of an order that stays open does nothing the second time. -/
theorem onOrderSnapshot_repeat {o : Order} (hm : e.forMarket s.market)
    (hget : e.store.get s.id = some o) (hopen : s.status.isTerminal = false) :
    (e.onOrderSnapshot cfg s).onOrderSnapshot cfg s = e.onOrderSnapshot cfg s := by
  obtain ⟨hid, honce⟩ := onOrderSnapshot_known cfg hm hget
  have hold : (mergeSnapshot o s).id = s.id :=
    (id_mergeSnapshot o s).trans (OrderStore.id_of_get hget)
  have honce' : e.onOrderSnapshot cfg s = { e with store := e.store.put (mergeSnapshot o s) hid } := by
    rw [honce, if_neg (by rw [hopen]; exact Bool.false_ne_true)]
  rw [honce']
  have hstored : ({ e with store := e.store.put (mergeSnapshot o s) hid } : MarketEngine).store.get
      s.id = some (mergeSnapshot o s) := by
    rw [← hold]
    exact OrderStore.get_put_self e.store _ hid
  obtain ⟨hid', htwice⟩ := onOrderSnapshot_known cfg
    (e := { e with store := e.store.put (mergeSnapshot o s) hid }) hm hstored
  rw [htwice, if_neg (by rw [hopen]; exact Bool.false_ne_true)]
  have hput := OrderStore.put_put e.store hid hid' rfl
  simp only [mergeSnapshot_repeat] at hput ⊢
  rw [hput]

/-- After a reconciliation the same snapshot does nothing. -/
theorem reconcileFromSnapshot_repeat (e : MarketEngine) (s : Order) :
    ((e.reconcileFromSnapshot cfg s).2.reconcileFromSnapshot cfg s).2 =
      (e.reconcileFromSnapshot cfg s).2 := by
  rcases e.reconcileFromSnapshot_cases cfg s with hrefused |
    ⟨prev, settled, hm, hget, hdelta, htaken⟩
  · rw [hrefused]
    exact congrArg Prod.snd hrefused
  · rw [htaken]
    have hframe := onlySettles_settleDelta hdelta
    have hm' : settled.forMarket s.market := by
      unfold forMarket at hm ⊢
      rw [hframe.market]
      exact hm
    have hget' : settled.store.get s.id = some prev := by
      rw [hframe.store]
      exact hget
    have hm'' : (settled.onOrderSnapshot cfg s).forMarket s.market := by
      unfold forMarket at hm' ⊢
      rw [market_onOrderSnapshot]
      exact hm'
    have hstored := get_onOrderSnapshot cfg hm' hget' s.id
    rw [if_pos rfl] at hstored
    cases hterm : s.status.isTerminal with
    | true =>
      -- The order is closed and gone: the second call is refused.
      rw [hterm, if_pos rfl] at hstored
      simp only [reconcileFromSnapshot, hm'', hstored, not_true_eq_false, if_false]
    | false =>
      rw [hterm, if_neg Bool.false_ne_true] at hstored
      have hnone : (settled.onOrderSnapshot cfg s).settleDelta (mergeSnapshot prev s) s =
          some (settled.onOrderSnapshot cfg s) :=
        settleDelta_unchanged (settled.onOrderSnapshot cfg s) le_rfl
      rw [reconcileFromSnapshot_settled hm'' hstored hnone]
      exact onOrderSnapshot_repeat cfg hm' hget' hterm

/-- **Reconciliation is atomic and idempotent.** Whatever the engine and the snapshot, a refusal
    leaves the engine as it was, with its ledger, its store and its events; and right after the
    call, taken or refused, the same call changes nothing. -/
theorem reconcile_atomic_idempotent (e : MarketEngine) (s : Order) :
    ((e.reconcileFromSnapshot cfg s).1 = false → (e.reconcileFromSnapshot cfg s).2 = e) ∧
    ((e.reconcileFromSnapshot cfg s).2.reconcileFromSnapshot cfg s).2 =
      (e.reconcileFromSnapshot cfg s).2 := by
  refine ⟨fun hfalse => ?_, reconcileFromSnapshot_repeat cfg e s⟩
  rcases e.reconcileFromSnapshot_cases cfg s with hrefused | ⟨prev, settled, -, -, -, htaken⟩
  · rw [hrefused]
  · rw [htaken] at hfalse
    exact absurd hfalse (by simp)

end MarketEngine
end CoinBot
