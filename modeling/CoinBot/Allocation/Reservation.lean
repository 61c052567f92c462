import CoinBot.Allocation.AccountManager
import CoinBot.Lib.Escrow
import Mathlib.Algebra.Order.BigOperators.Group.List

/- The life of reservation tokens: any number of them, over any number of markets.

   A desk holds the ledger and a slot for each token object that was created. A
   slot is empty once its object is destroyed. The slots form an escrow: an
   active token claims what it has left on its market, the free amount of a
   market is its available KRW, and what its buys were charged is spent. -/
namespace CoinBot
open AccountManager

namespace AccountManager

/-- `available_krw` of a market; 0 when it is not registered. -/
def availableOn (mgr : AccountManager) (m : String) : Amount :=
  (mgr.getBudget m).elim 0 (·.availableKrw)

/-- `reserved_krw` of a market; 0 when it is not registered. -/
def reservedOn (mgr : AccountManager) (m : String) : Amount :=
  (mgr.getBudget m).elim 0 (·.reservedKrw)

/-- What the booked buys of a market were charged. -/
def spentOn (mgr : AccountManager) (m : String) : Amount :=
  (mgr.stats.fills.map (fun f => if f.market = m ∧ f.side = .bid then f.krw else 0)).sum

variable {mgr : AccountManager} {m : String} {b : MarketBudget}

theorem availableOn_of_budget {mgr' : AccountManager} (h : mgr'.getBudget m = some b)
    (hne : ∀ m', m' ≠ m → mgr'.getBudget m' = mgr.getBudget m') :
    mgr'.availableOn = Function.update mgr.availableOn m b.availableKrw := by
  funext m'
  by_cases hm : m' = m
  · subst hm; simp [availableOn, h]
  · rw [Function.update_of_ne hm, availableOn, hne m' hm, availableOn]

theorem reservedOn_of_budget {mgr' : AccountManager} (h : mgr'.getBudget m = some b)
    (hne : ∀ m', m' ≠ m → mgr'.getBudget m' = mgr.getBudget m') :
    mgr'.reservedOn = Function.update mgr.reservedOn m b.reservedKrw := by
  funext m'
  by_cases hm : m' = m
  · subst hm; simp [reservedOn, h]
  · rw [Function.update_of_ne hm, reservedOn, hne m' hm, reservedOn]

theorem availableOn_modifyBudget (h : mgr.getBudget m = some b)
    (f : MarketBudget → MarketBudget) :
    (mgr.modifyBudget m f).availableOn =
      Function.update mgr.availableOn m (f b).availableKrw :=
  availableOn_of_budget (by simp [h]) (fun _ hm => getBudget_modifyBudget_ne mgr f hm)

theorem reservedOn_modifyBudget (h : mgr.getBudget m = some b)
    (f : MarketBudget → MarketBudget) :
    (mgr.modifyBudget m f).reservedOn = Function.update mgr.reservedOn m (f b).reservedKrw :=
  reservedOn_of_budget (by simp [h]) (fun _ hm => getBudget_modifyBudget_ne mgr f hm)

theorem availableOn_eq (h : mgr.getBudget m = some b) : mgr.availableOn m = b.availableKrw := by
  simp [availableOn, h]

theorem reservedOn_eq (h : mgr.getBudget m = some b) : mgr.reservedOn m = b.reservedKrw := by
  simp [reservedOn, h]

theorem isSome_getBudget_modifyBudget (f : MarketBudget → MarketBudget) (m' : String) :
    ((mgr.modifyBudget m f).getBudget m').isSome = (mgr.getBudget m').isSome := by
  by_cases hm : m' = m
  · subst hm; simp
  · rw [getBudget_modifyBudget_ne mgr f hm]

theorem spentOn_countFill_bid (coin krw : ℚ) :
    (mgr.countFill ⟨m, .bid, coin, krw⟩).spentOn =
      Function.update mgr.spentOn m (mgr.spentOn m + krw) := by
  funext m'
  by_cases hm : m' = m
  · subst hm; simp [spentOn]
  · simp [spentOn, Function.update_of_ne hm, Ne.symm hm]

end AccountManager

/-- The ledger and a slot for each token object. -/
structure Desk where
  mgr : AccountManager
  slots : List (Option ReservationToken) := []

inductive DeskOp where
  | reserve (market : String) (krwAmount : Amount)
  | finalizeFillBuy (slot : Nat) (executedKrw : Amount) (receivedCoin : Volume) (fillPrice : Price)
  | release (slot : Nat)
  | finalizeOrder (slot : Nat)
  | move (slot : Nat)
  | destroy (slot : Nat)

namespace Desk

/-- A call that takes the token by reference: the slot holds the token after it. -/
def onToken (d : Desk) (i : Nat) (f : ReservationToken → ReservationToken × AccountManager) :
    Desk :=
  match d.slots[i]? with
  | some (some t) => { mgr := (f t).2, slots := d.slots.set i (some (f t).1) }
  | _ => d

def step (cfg : AccountConfig) (d : Desk) : DeskOp → Desk
  | .reserve m krw =>
    match d.mgr.reserve m krw with
    | (some t, mgr) => { mgr := mgr, slots := d.slots ++ [some t] }
    | (none, mgr) => { d with mgr := mgr }
  | .finalizeFillBuy i krw coin price => d.onToken i (d.mgr.finalizeFillBuy · krw coin price)
  | .release i => d.onToken i d.mgr.release
  | .finalizeOrder i => d.onToken i (d.mgr.finalizeOrder cfg)
  | .move i =>
    match d.slots[i]? with
    | some (some t) => { d with slots := d.slots.set i (some t.move.2) ++ [some t.move.1] }
    | _ => d
  | .destroy i =>
    match d.slots[i]? with
    | some (some t) => { mgr := d.mgr.destroyToken t, slots := d.slots.set i none }
    | _ => d

/-- What a slot claims: what its token has left, while it is active. -/
def claimOf : Option ReservationToken → Option (String × Amount)
  | some t => if t.active then some (t.market, t.remaining) else none
  | none => none

/-- The desk as an escrow. -/
def escrow (d : Desk) : Escrow String Amount where
  free := d.mgr.availableOn
  spent := d.mgr.spentOn
  claims := d.slots.map claimOf

/-- The sum of `amount - consumed` over the live active tokens of a market. -/
def liveOn (slots : List (Option ReservationToken)) (m : String) : Amount :=
  (slots.map (fun slot => match slot with
    | some t => if t.active ∧ t.market = m then t.amount - t.consumed else 0
    | none => 0)).sum

/-- The reserve of every market is what its live tokens have left, nothing is overdrawn, and
    available, reserved and spent KRW add up to what they did at the start. -/
def Conserved (start d : Desk) : Prop :=
  ∀ m, d.mgr.reservedOn m = liveOn d.slots m ∧ 0 ≤ d.mgr.availableOn m ∧
    d.mgr.availableOn m + d.mgr.reservedOn m + d.mgr.spentOn m =
      start.mgr.availableOn m + start.mgr.reservedOn m + start.mgr.spentOn m

/-- When an active token is finalised, the other live tokens of its market have nothing left,
    or at least the dust threshold: the sweep of the reserve finds nothing of theirs. -/
def SweepsNothing (cfg : AccountConfig) (d : Desk) : DeskOp → Prop
  | .finalizeOrder i => ∀ t, d.slots[i]? = some (some t) → t.active →
      liveOn (d.slots.set i none) t.market = 0 ∨
      cfg.krwDustThreshold ≤ liveOn (d.slots.set i none) t.market
  | _ => True

/-- Active tokens have their manager and a registered market. No operation breaks this. -/
def Sound (d : Desk) : Prop :=
  ∀ t, some t ∈ d.slots → t.active = true → t.managed = true ∧ (d.mgr.getBudget t.market).isSome

/-! The escrow's view of the slots. -/

theorem liveOn_eq (slots : List (Option ReservationToken)) (m : String) :
    liveOn slots m = ((slots.map claimOf).map (Escrow.claimOn m)).sum := by
  unfold liveOn
  rw [List.map_map]
  congr 1
  apply List.map_congr_left
  intro slot _
  cases slot with
  | none => rfl
  | some t =>
    by_cases hact : t.active = true
    · simp [claimOf, Escrow.claimOn, hact, ReservationToken.remaining]
    · simp [claimOf, hact]

theorem claimed_escrow (d : Desk) (m : String) : d.escrow.claimed m = liveOn d.slots m :=
  (liveOn_eq d.slots m).symm

theorem liveOn_nonneg (slots : List (Option ReservationToken)) (m : String) :
    0 ≤ liveOn slots m := by
  apply List.sum_nonneg
  intro x hx
  obtain ⟨slot, _, rfl⟩ := List.mem_map.mp hx
  cases slot with
  | none => exact le_rfl
  | some t =>
    show 0 ≤ if t.active = true ∧ t.market = m then t.amount - t.consumed else 0
    split
    · exact t.remaining_nonneg
    · exact le_rfl

theorem claimOf_active {t : ReservationToken} (h : t.active = true) :
    claimOf (some t) = some (t.market, t.remaining) := if_pos h

theorem claimOf_inactive {t : ReservationToken} (h : t.active = false) : claimOf (some t) = none := by
  simp [claimOf, h]

theorem getElem?_claims {d : Desk} {i : Nat} {slot : Option ReservationToken}
    (h : d.slots[i]? = some slot) : d.escrow.claims[i]? = some (claimOf slot) := by
  simp [escrow, h]

/-- A slot's claim and what the other slots claim make up the reserve. -/
theorem liveOn_split {d : Desk} {i : Nat} {t : ReservationToken}
    (h : d.slots[i]? = some (some t)) (hact : t.active = true) :
    liveOn d.slots t.market = t.remaining + liveOn (d.slots.set i none) t.market := by
  have hsplit := Escrow.claimed_split (getElem?_claims h) t.market
  rw [claimed_escrow, claimOf_active hact, Escrow.claimOn_self] at hsplit
  rw [hsplit, liveOn_eq (d.slots.set i none), List.map_set (f := claimOf)]
  rfl

/-! What each operation does, to the ledger and as an escrow. -/

/-- The ledger's reserves are what the slots claim. -/
def Backed (d : Desk) : Prop := ∀ m, d.mgr.reservedOn m = liveOn d.slots m

/-- The step from `d` to `d'` is that of the escrow operations `ops`; the reserves are backed
    after it and nothing is overdrawn by it. -/
structure Performs (d d' : Desk) (ops : List (Escrow.Op String Amount)) : Prop where
  escrow_eq : d'.escrow = Machine.run Escrow.step d.escrow ops
  backed : d'.Backed
  available_nonneg : (∀ m, 0 ≤ d.mgr.availableOn m) → ∀ m, 0 ≤ d'.mgr.availableOn m

theorem update_nonneg {f : String → Amount} (hf : ∀ m, 0 ≤ f m) {m0 : String} {x : Amount}
    (hx : 0 ≤ x) (m : String) : 0 ≤ Function.update f m0 x m := by
  by_cases hm : m = m0
  · subst hm; rwa [Function.update_self]
  · rw [Function.update_of_ne hm]; exact hf m

theorem performs_nothing {d d' : Desk} (hb : d.Backed) (hslots : d'.slots.map claimOf =
    d.slots.map claimOf) (hbud : ∀ m, d'.mgr.getBudget m = d.mgr.getBudget m)
    (hfills : d'.mgr.stats.fills = d.mgr.stats.fills) : Performs d d' [] := by
  have havail : d'.mgr.availableOn = d.mgr.availableOn := by
    funext m; simp only [availableOn, hbud]
  have hspent : d'.mgr.spentOn = d.mgr.spentOn := by
    funext m; simp only [spentOn, hfills]
  refine ⟨?_, fun m => ?_, fun h m => ?_⟩
  · simp only [Machine.run_nil, escrow, havail, hspent, hslots]
  · rw [reservedOn, hbud m, ← reservedOn, hb m, liveOn_eq, liveOn_eq, hslots]
  · rw [havail]; exact h m

theorem backed_sub {d d' : Desk} {m0 : String} {x : Amount} (hb : d.Backed)
    (hres : d'.mgr.reservedOn = Function.update d.mgr.reservedOn m0 (d.mgr.reservedOn m0 - x))
    (hclaim : ∀ m, d'.escrow.claimed m =
      d.escrow.claimed m - Escrow.claimOn m (some (m0, x))) : d'.Backed := by
  intro m
  rw [hres, Escrow.update_sub_apply, hb m, ← claimed_escrow, ← claimed_escrow, hclaim]

theorem performs_lock {d d' : Desk} {m : String} {x : Amount} {b : MarketBudget}
    {t : ReservationToken} (hb : d.Backed) (hreg : d.mgr.getBudget m = some b)
    (hx : x ≤ b.availableKrw) (hact : t.active = true) (hmkt : t.market = m)
    (hrem : t.remaining = x) (hslots : d'.slots = d.slots ++ [some t])
    (hmgr : d'.mgr = (d.mgr.modifyBudget m (·.hold x)).countReserve) :
    Performs d d' [.lock m x] := by
  have havail : d'.mgr.availableOn = Function.update d.mgr.availableOn m (b.availableKrw - x) := by
    rw [hmgr]
    exact availableOn_modifyBudget hreg _
  have hres : d'.mgr.reservedOn =
      Function.update d.mgr.reservedOn m (d.mgr.reservedOn m + x) := by
    rw [hmgr, reservedOn_eq hreg]
    exact reservedOn_modifyBudget hreg _
  have hspent : d'.mgr.spentOn = d.mgr.spentOn := by rw [hmgr]; rfl
  have hesc : d'.escrow = d.escrow.step (.lock m x) := by
    simp only [escrow, Escrow.step, havail, hspent, hslots, List.map_append, List.map_cons,
      List.map_nil, claimOf_active hact, hmkt, hrem, availableOn_eq hreg]
  refine ⟨hesc, fun m' => ?_, fun h m' => ?_⟩
  · rw [hres, Escrow.update_add_apply, hb m', ← claimed_escrow, ← claimed_escrow, hesc,
      Escrow.claimed_lock]
  · rw [havail]
    exact update_nonneg h (sub_nonneg.mpr hx) m'

theorem performs_pay {d d' : Desk} {i : Nat} {t t' : ReservationToken} {x coin price : ℚ}
    {b : MarketBudget} (hb : d.Backed) (hi : d.slots[i]? = some (some t))
    (hact : t.active = true) (hreg : d.mgr.getBudget t.market = some b) (hx : x ≤ t.remaining)
    (ht' : t' = t.addConsumed x) (hslots : d'.slots = d.slots.set i (some t'))
    (hmgr : d'.mgr = (d.mgr.modifyBudget t.market (·.buy x coin price)).countFill
      ⟨t.market, .bid, coin, x⟩) :
    Performs d d' [.pay i x] := by
  have hcl : d.escrow.claims[i]? = some (some (t.market, t.remaining)) := by
    rw [getElem?_claims hi, claimOf_active hact]
  have hle : x ≤ b.reservedKrw := by
    rw [← reservedOn_eq hreg, hb, liveOn_split hi hact]
    linarith [liveOn_nonneg (d.slots.set i none) t.market]
  -- The token's reservation is part of the reserved cash, so the clamp at 0 is not reached.
  have hnoclamp : ¬ b.reservedKrw - x < 0 := by linarith
  have havail : d'.mgr.availableOn = d.mgr.availableOn := by
    rw [hmgr]
    refine (availableOn_modifyBudget hreg _).trans ?_
    rw [← Function.update_eq_self t.market d.mgr.availableOn, availableOn_eq hreg]
    simp [MarketBudget.buy]
  have hres : d'.mgr.reservedOn =
      Function.update d.mgr.reservedOn t.market (d.mgr.reservedOn t.market - x) := by
    rw [hmgr, reservedOn_eq hreg]
    refine (reservedOn_modifyBudget hreg _).trans ?_
    simp only [MarketBudget.buy, if_neg hnoclamp]
  have hspent : d'.mgr.spentOn =
      Function.update d.mgr.spentOn t.market (d.mgr.spentOn t.market + x) := by
    rw [hmgr]
    exact spentOn_countFill_bid coin x
  have hesc : d'.escrow = d.escrow.step (.pay i x) := by
    simp only [Escrow.step, hcl]
    simp only [escrow, havail, hspent, hslots, List.map_set, ht',
      claimOf_active (t := t.addConsumed x) hact, ReservationToken.market_addConsumed,
      t.remaining_addConsumed hx]
  refine ⟨hesc, backed_sub hb hres (fun m => by rw [hesc, Escrow.claimed_pay hcl]), fun h m => ?_⟩
  rw [havail]
  exact h m

/-- Every way a token ends: its budget is refunded what it had left. -/
theorem performs_giveBack {d d' : Desk} {i : Nat} {t : ReservationToken}
    {slot : Option ReservationToken} {b : MarketBudget} (hb : d.Backed)
    (hi : d.slots[i]? = some (some t)) (hact : t.active = true)
    (hreg : d.mgr.getBudget t.market = some b) (hslot : claimOf slot = none)
    (hslots : d'.slots = d.slots.set i slot)
    (hbud : d'.mgr.getBudget t.market = some (b.refund t.remaining))
    (hne : ∀ m, m ≠ t.market → d'.mgr.getBudget m = d.mgr.getBudget m)
    (hfills : d'.mgr.stats.fills = d.mgr.stats.fills) : Performs d d' [.giveBack i] := by
  have hcl : d.escrow.claims[i]? = some (some (t.market, t.remaining)) := by
    rw [getElem?_claims hi, claimOf_active hact]
  have havail : d'.mgr.availableOn =
      Function.update d.mgr.availableOn t.market (d.mgr.availableOn t.market + t.remaining) := by
    rw [availableOn_eq hreg]
    exact availableOn_of_budget hbud hne
  have hres : d'.mgr.reservedOn =
      Function.update d.mgr.reservedOn t.market (d.mgr.reservedOn t.market - t.remaining) := by
    rw [reservedOn_eq hreg]
    exact reservedOn_of_budget hbud hne
  have hspent : d'.mgr.spentOn = d.mgr.spentOn := by
    funext m; simp only [spentOn, hfills]
  have hesc : d'.escrow = d.escrow.step (.giveBack i) := by
    simp only [Escrow.step, hcl]
    simp only [escrow, havail, hspent, hslots, List.map_set, hslot]
  refine ⟨hesc, backed_sub hb hres (fun m => by rw [hesc, Escrow.claimed_giveBack hcl]),
    fun h m => ?_⟩
  rw [havail]
  exact update_nonneg h (add_nonneg (h t.market) t.remaining_nonneg) m

theorem performs_hand {d d' : Desk} {i : Nat} {t : ReservationToken} (hb : d.Backed)
    (hi : d.slots[i]? = some (some t)) (hmgr : d'.mgr = d.mgr)
    (hslots : d'.slots = d.slots.set i (some t.move.2) ++ [some t.move.1]) :
    Performs d d' [.hand i] := by
  have hcl : d.escrow.claims[i]? = some (claimOf (some t)) := getElem?_claims hi
  have hesc : d'.escrow = d.escrow.step (.hand i) := by
    simp only [Escrow.step, hcl]
    simp only [escrow, hmgr, hslots, List.map_append, List.map_set, List.map_cons, List.map_nil]
    rfl
  refine ⟨hesc, fun m => ?_, fun h m => ?_⟩
  · rw [hmgr, hb m, ← claimed_escrow, ← claimed_escrow, hesc, Escrow.claimed_hand]
  · rw [hmgr]; exact h m

/-! The step, slot by slot. -/

theorem slot_cases (d : Desk) (i : Nat) :
    (∃ t, d.slots[i]? = some (some t)) ∨ ∀ t, d.slots[i]? ≠ some (some t) := by
  by_cases h : ∃ t, d.slots[i]? = some (some t)
  · exact .inl h
  · exact .inr (fun t ht => h ⟨t, ht⟩)

theorem onToken_some {d : Desk} {i : Nat} {t : ReservationToken}
    (h : d.slots[i]? = some (some t))
    (f : ReservationToken → ReservationToken × AccountManager) :
    d.onToken i f = { mgr := (f t).2, slots := d.slots.set i (some (f t).1) } := by
  simp only [onToken, h]

theorem onToken_skip {d : Desk} {i : Nat} (h : ∀ t, d.slots[i]? ≠ some (some t))
    (f : ReservationToken → ReservationToken × AccountManager) : d.onToken i f = d := by
  unfold onToken
  split
  · next t ht => exact absurd ht (h t)
  · rfl

theorem step_move_skip {cfg : AccountConfig} {d : Desk} {i : Nat}
    (h : ∀ t, d.slots[i]? ≠ some (some t)) : d.step cfg (.move i) = d := by
  simp only [step]

theorem step_destroy_skip {cfg : AccountConfig} {d : Desk} {i : Nat}
    (h : ∀ t, d.slots[i]? ≠ some (some t)) : d.step cfg (.destroy i) = d := by
  simp only [step]

theorem map_claimOf_set {slots : List (Option ReservationToken)} {i : Nat}
    {slot slot' : Option ReservationToken} (h : slots[i]? = some slot)
    (heq : claimOf slot' = claimOf slot) :
    (slots.set i slot').map claimOf = slots.map claimOf := by
  obtain ⟨hi, rfl⟩ := List.getElem?_eq_some_iff.mp h
  rw [List.map_set, heq, ← List.getElem_map (f := claimOf) (h := by simpa using hi),
    List.set_getElem_self]

/-! Tokens stay sound. -/

theorem Sound.set {d : Desk} (hs : d.Sound) {i : Nat} {slot : Option ReservationToken}
    {mgr : AccountManager}
    (hreg : ∀ m, (mgr.getBudget m).isSome = (d.mgr.getBudget m).isSome)
    (hslot : ∀ t, slot = some t → t.active = true →
      t.managed = true ∧ (mgr.getBudget t.market).isSome) :
    Sound { mgr := mgr, slots := d.slots.set i slot } := by
  intro t ht hact
  rcases List.mem_or_eq_of_mem_set ht with hold | hnew
  · have h := hs t hold hact
    exact ⟨h.1, (hreg t.market).trans h.2⟩
  · exact hslot t hnew.symm hact

theorem Sound.append {d : Desk} (hs : d.Sound) {t : ReservationToken} {mgr : AccountManager}
    (hreg : ∀ m, (mgr.getBudget m).isSome = (d.mgr.getBudget m).isSome)
    (ht : t.active = true → t.managed = true ∧ (mgr.getBudget t.market).isSome) :
    Sound { mgr := mgr, slots := d.slots ++ [some t] } := by
  intro t' ht' hact
  rcases List.mem_append.mp ht' with hold | hnew
  · have h := hs t' hold hact
    exact ⟨h.1, (hreg t'.market).trans h.2⟩
  · obtain rfl : t' = t := by simpa using hnew
    exact ht hact

/-- A call on a token that keeps the registered markets, and leaves the token inactive or with
    its market and manager, keeps the desk sound. -/
theorem Sound.onToken {d : Desk} (hs : d.Sound) (i : Nat)
    {f : ReservationToken → ReservationToken × AccountManager}
    (hreg : ∀ t m, ((f t).2.getBudget m).isSome = (d.mgr.getBudget m).isSome)
    (htok : ∀ t, (f t).1.active = true →
      t.active = true ∧ (f t).1.managed = t.managed ∧ (f t).1.market = t.market) :
    (d.onToken i f).Sound := by
  rcases slot_cases d i with ⟨t, hi⟩ | hskip
  · rw [onToken_some hi]
    refine hs.set (hreg t) (fun t' ht' hact => ?_)
    obtain rfl : (f t).1 = t' := Option.some.inj ht'
    obtain ⟨h, hman, hmkt⟩ := htok t hact
    have hold := hs t (List.mem_of_getElem? hi) h
    rw [hman, hmkt, hreg]
    exact hold
  · rw [onToken_skip hskip]
    exact hs

theorem isSome_finalizeFillBuy (mgr : AccountManager) (t : ReservationToken) (krw coin price : ℚ)
    (m : String) :
    ((mgr.finalizeFillBuy t krw coin price).2.getBudget m).isSome = (mgr.getBudget m).isSome := by
  by_cases h : mgr.BooksBuy t krw coin price
  · rw [finalizeFillBuy_booked h, getBudget_countFill, isSome_getBudget_modifyBudget]
  · rw [finalizeFillBuy_skipped h]

theorem isSome_release (mgr : AccountManager) (t : ReservationToken) (m : String) :
    ((mgr.release t).2.getBudget m).isSome = (mgr.getBudget m).isSome := by
  by_cases h : t.active = true
  · rw [release_active h, releaseWithoutToken, getBudget_countRelease, releaseInternal,
      isSome_getBudget_modifyBudget]
  · simp [release, h]

theorem isSome_destroyToken (mgr : AccountManager) (t : ReservationToken) (m : String) :
    ((mgr.destroyToken t).getBudget m).isSome = (mgr.getBudget m).isSome := by
  unfold destroyToken
  split
  · rw [releaseWithoutToken, getBudget_countRelease, releaseInternal,
      isSome_getBudget_modifyBudget]
  · rfl

theorem isSome_finalizeOrder (cfg : AccountConfig) (mgr : AccountManager)
    (t : ReservationToken) (m : String) :
    ((mgr.finalizeOrder cfg t).2.getBudget m).isSome = (mgr.getBudget m).isSome := by
  unfold finalizeOrder releaseInternal
  split
  · rfl
  · split
    · rfl
    · rw [isSome_getBudget_modifyBudget]
      split
      · rw [isSome_getBudget_modifyBudget]
      · rfl

theorem sound_step (cfg : AccountConfig) (d : Desk) (op : DeskOp) (hs : d.Sound) :
    (d.step cfg op).Sound := by
  cases op with
  | reserve m krw =>
    rcases reserve_cases d.mgr m krw with hfail | ⟨b, t, hreg, -, -, hman, hmkt, -, -, -, hok⟩
    · simp only [step, hfail]
      exact hs
    · simp only [step, hok]
      refine hs.append (fun m' => ?_) (fun _ => ⟨hman, ?_⟩)
      · rw [getBudget_countReserve, isSome_getBudget_modifyBudget]
      · rw [hmkt, getBudget_countReserve, isSome_getBudget_modifyBudget, hreg]
        rfl
  | finalizeFillBuy i krw coin price =>
    refine hs.onToken i (fun t m => isSome_finalizeFillBuy d.mgr t krw coin price m) (fun t h => ?_)
    -- A booked or skipped fill leaves the token in its slot, for the same market.
    by_cases hbook : d.mgr.BooksBuy t krw coin price
    · rw [finalizeFillBuy_booked hbook] at h ⊢
      exact ⟨h, rfl, rfl⟩
    · rw [finalizeFillBuy_skipped hbook] at h ⊢
      exact ⟨h, rfl, rfl⟩
  | release i =>
    refine hs.onToken i (fun t m => isSome_release d.mgr t m) (fun t h => ?_)
    by_cases hact : t.active = true
    · rw [release_active hact] at h
      exact absurd h (by simp)
    · simp [release, hact] at h
  | finalizeOrder i =>
    refine hs.onToken i (fun t m => isSome_finalizeOrder cfg d.mgr t m) (fun t h => ?_)
    unfold finalizeOrder at h
    split at h
    · next hact =>
      rw [Bool.not_eq_true'] at hact
      exact absurd h (by simp [hact])
    · split at h <;> exact absurd h (by simp)
  | move i =>
    rcases slot_cases d i with ⟨t, hi⟩ | hskip
    · simp only [step, hi]
      have hset : Sound { d with slots := d.slots.set i (some t.move.2) } :=
        hs.set (fun _ => rfl) (fun t' ht' hact => by
          obtain rfl : t.move.2 = t' := Option.some.inj ht'
          exact absurd hact (by simp [ReservationToken.move]))
      exact hset.append (fun _ => rfl) (fun hact => hs t (List.mem_of_getElem? hi) hact)
    · rw [step_move_skip hskip]
      exact hs
  | destroy i =>
    rcases slot_cases d i with ⟨t, hi⟩ | hskip
    · simp only [step, hi]
      exact hs.set (fun m => isSome_destroyToken d.mgr t m) (fun t' ht' => absurd ht' (by simp))
    · rw [step_destroy_skip hskip]
      exact hs

/-! Conservation. -/

theorem remaining_le_reserved {d : Desk} {i : Nat} {t : ReservationToken} {b : MarketBudget}
    (hb : d.Backed) (hi : d.slots[i]? = some (some t)) (hact : t.active = true)
    (hreg : d.mgr.getBudget t.market = some b) :
    b.reservedKrw = t.remaining + liveOn (d.slots.set i none) t.market := by
  rw [← reservedOn_eq hreg, hb, liveOn_split hi hact]

theorem performs_destroy {d : Desk} {i : Nat} {t : ReservationToken}
    {slot : Option ReservationToken} (hs : d.Sound) (hb : d.Backed)
    (hi : d.slots[i]? = some (some t)) (hact : t.active = true) (hslot : claimOf slot = none) :
    Performs d { mgr := d.mgr.releaseWithoutToken t.market t.remaining,
                 slots := d.slots.set i slot } [.giveBack i] := by
  obtain ⟨b, hreg⟩ := Option.isSome_iff_exists.mp (hs t (List.mem_of_getElem? hi) hact).2
  have hle : t.remaining ≤ b.reservedKrw := by
    rw [remaining_le_reserved hb hi hact hreg]
    linarith [liveOn_nonneg (d.slots.set i none) t.market]
  refine performs_giveBack hb hi hact hreg hslot rfl ?_ (fun m hm => ?_) rfl
  · simp [releaseWithoutToken, releaseInternal, hreg, MarketBudget.giveBack_of_le hle]
  · rw [releaseWithoutToken, getBudget_countRelease, releaseInternal,
      getBudget_modifyBudget_ne _ _ hm]

/-- A step that sweeps nothing is a step of the escrow. -/
theorem step_performs {cfg : AccountConfig} {d : Desk} {op : DeskOp} (hs : d.Sound)
    (hb : d.Backed) (hg : d.SweepsNothing cfg op) : ∃ ops, Performs d (d.step cfg op) ops := by
  have hskip : Performs d d [] := performs_nothing hb rfl (fun _ => rfl) rfl
  cases op with
  | reserve m krw =>
    rcases reserve_cases d.mgr m krw with hfail | ⟨b, t, hreg, -, hle, -, hmkt, hamt, hcon, hact, hok⟩
    · refine ⟨[], ?_⟩
      simp only [step, hfail]
      exact performs_nothing hb rfl (fun _ => rfl) rfl
    · refine ⟨[.lock m krw], ?_⟩
      simp only [step, hok]
      refine performs_lock hb hreg hle hact hmkt ?_ rfl rfl
      rw [ReservationToken.remaining, hamt, hcon, sub_zero]
  | finalizeFillBuy i krw coin price =>
    simp only [step]
    rcases slot_cases d i with ⟨t, hi⟩ | hempty
    · rw [onToken_some hi]
      by_cases hbook : d.mgr.BooksBuy t krw coin price
      · rw [finalizeFillBuy_booked hbook]
        obtain ⟨b, hreg⟩ := Option.isSome_iff_exists.mp hbook.2.2.2.2.2
        exact ⟨_, performs_pay hb hi hbook.1 hreg (min_le_right _ _) rfl rfl rfl⟩
      · rw [finalizeFillBuy_skipped hbook]
        exact ⟨[], performs_nothing hb (map_claimOf_set hi rfl) (fun _ => rfl) rfl⟩
    · rw [onToken_skip hempty]
      exact ⟨[], hskip⟩
  | release i =>
    simp only [step]
    rcases slot_cases d i with ⟨t, hi⟩ | hempty
    · rw [onToken_some hi]
      by_cases hact : t.active = true
      · rw [release_active hact]
        exact ⟨_, performs_destroy hs hb hi hact (claimOf_inactive rfl)⟩
      · have hcall : d.mgr.release t = (t, d.mgr) := by simp [release, hact]
        rw [hcall]
        exact ⟨[], performs_nothing hb (map_claimOf_set hi rfl) (fun _ => rfl) rfl⟩
    · rw [onToken_skip hempty]
      exact ⟨[], hskip⟩
  | finalizeOrder i =>
    simp only [step]
    rcases slot_cases d i with ⟨t, hi⟩ | hempty
    · rw [onToken_some hi]
      by_cases hact : t.active = true
      · obtain ⟨b, hreg⟩ := Option.isSome_iff_exists.mp (hs t (List.mem_of_getElem? hi) hact).2
        have hres := remaining_le_reserved hb hi hact hreg
        have hle : t.remaining ≤ b.reservedKrw := by
          linarith [liveOn_nonneg (d.slots.set i none) t.market]
        obtain ⟨htok, hbud, hne, hstats⟩ := finalizeOrder_active cfg hact hreg hle
        -- What is left of the reserve is the other tokens', so the sweep does not fire.
        have hsweep : (b.refund t.remaining).sweepDust cfg = b.refund t.remaining := by
          apply if_neg
          show ¬ (0 < b.reservedKrw - t.remaining ∧
            b.reservedKrw - t.remaining < cfg.krwDustThreshold)
          rw [hres, add_sub_cancel_left]
          rcases hg t hi hact with hzero | hlarge
          · rw [hzero]; exact fun h => lt_irrefl _ h.1
          · exact fun h => absurd h.2 (not_lt.mpr hlarge)
        rw [hsweep] at hbud
        exact ⟨_, performs_giveBack hb hi hact hreg (claimOf_inactive rfl) (by rw [htok]) hbud hne
          (by rw [hstats])⟩
      · have hcall : d.mgr.finalizeOrder cfg t = (t, d.mgr) := by simp [finalizeOrder, hact]
        rw [hcall]
        exact ⟨[], performs_nothing hb (map_claimOf_set hi rfl) (fun _ => rfl) rfl⟩
    · rw [onToken_skip hempty]
      exact ⟨[], hskip⟩
  | move i =>
    rcases slot_cases d i with ⟨t, hi⟩ | hempty
    · simp only [step, hi]
      exact ⟨_, performs_hand hb hi rfl rfl⟩
    · rw [step_move_skip hempty]
      exact ⟨[], hskip⟩
  | destroy i =>
    rcases slot_cases d i with ⟨t, hi⟩ | hempty
    · simp only [step, hi]
      by_cases hact : t.active = true
      · rw [destroyToken_active hact (hs t (List.mem_of_getElem? hi) hact).1]
        exact ⟨_, performs_destroy hs hb hi hact rfl⟩
      · have hcall : d.mgr.destroyToken t = d.mgr := by simp [destroyToken, hact]
        rw [hcall]
        exact ⟨[], performs_nothing hb
          (map_claimOf_set hi (by simp [claimOf, hact])) (fun _ => rfl) rfl⟩
    · rw [step_destroy_skip hempty]
      exact ⟨[], hskip⟩

/-- A finalisation that sweeps the reserve of other live tokens leaves them unbacked. -/
theorem not_backed_of_sweep {cfg : AccountConfig} {d : Desk} {i : Nat} {t : ReservationToken}
    (hs : d.Sound) (hb : d.Backed) (hi : d.slots[i]? = some (some t)) (hact : t.active = true)
    (hpos : liveOn (d.slots.set i none) t.market ≠ 0)
    (hdust : liveOn (d.slots.set i none) t.market < cfg.krwDustThreshold) :
    ¬ (d.step cfg (.finalizeOrder i)).Backed := by
  intro hback
  obtain ⟨b, hreg⟩ := Option.isSome_iff_exists.mp (hs t (List.mem_of_getElem? hi) hact).2
  have hothers := liveOn_nonneg (d.slots.set i none) t.market
  have hres := remaining_le_reserved hb hi hact hreg
  have hle : t.remaining ≤ b.reservedKrw := by linarith
  obtain ⟨htok, hbud, -, -⟩ := finalizeOrder_active cfg hact hreg hle
  have hsweep : ((b.refund t.remaining).sweepDust cfg).reservedKrw = 0 := by
    have hfires : 0 < (b.refund t.remaining).reservedKrw ∧
        (b.refund t.remaining).reservedKrw < cfg.krwDustThreshold := by
      show 0 < b.reservedKrw - t.remaining ∧ b.reservedKrw - t.remaining < cfg.krwDustThreshold
      rw [hres, add_sub_cancel_left]
      exact ⟨lt_of_le_of_ne hothers (Ne.symm hpos), hdust⟩
    simp only [MarketBudget.sweepDust, if_pos hfires]
  have hafter := hback t.market
  simp only [step, onToken_some hi] at hafter
  rw [reservedOn_eq hbud, hsweep, htok, liveOn_eq, List.map_set, claimOf_inactive rfl] at hafter
  apply hpos
  rw [hafter, liveOn_eq, List.map_set (f := claimOf)]
  rfl

/-- One operation keeps the desk conserved exactly when it sweeps nothing. -/
theorem conserved_step_iff {cfg : AccountConfig} {start d : Desk} {op : DeskOp}
    (hs : d.Sound) (hc : Conserved start d) :
    Conserved start (d.step cfg op) ↔ d.SweepsNothing cfg op := by
  have hb : d.Backed := fun m => (hc m).1
  constructor
  · intro h
    cases op with
    | finalizeOrder i =>
      intro t hi hact
      by_contra hbad
      obtain ⟨hpos, hdust⟩ := not_or.mp hbad
      exact not_backed_of_sweep hs hb hi hact hpos (not_le.mp hdust) (fun m => (h m).1)
    | _ => trivial
  · intro hg m
    obtain ⟨ops, hperf⟩ := step_performs hs hb hg
    refine ⟨hperf.backed m, hperf.available_nonneg (fun m => (hc m).2.1) m, ?_⟩
    have htotal : (d.step cfg op).escrow.total m = d.escrow.total m := by
      rw [hperf.escrow_eq, Escrow.total_run]
    unfold Escrow.total at htotal
    rw [claimed_escrow, claimed_escrow, ← hperf.backed m, ← hb m] at htotal
    exact htotal.trans (hc m).2.2

/-- Reservation conservation: from budgets with nothing reserved and nothing overdrawn, every
    state of a run is conserved exactly when no finalisation sweeps other tokens' reserve. -/
theorem conserved_iff (cfg : AccountConfig) (start : AccountManager)
    (hres : ∀ m b, start.getBudget m = some b → b.reservedKrw = 0 ∧ 0 ≤ b.availableKrw)
    (ops : List DeskOp) :
    Machine.Always (step cfg) (Conserved { mgr := start }) { mgr := start } ops ↔
      Machine.Guarded (step cfg) (SweepsNothing cfg) { mgr := start } ops := by
  refine Machine.always_iff_guarded (J := Sound) (fun d op => sound_step cfg d op)
    (fun d op => conserved_step_iff) (fun t ht => nomatch ht) (fun m => ?_)
  cases hm : start.getBudget m with
  | none => simp [reservedOn, availableOn, hm, liveOn]
  | some b => simp [reservedOn, availableOn, hm, liveOn, hres m b hm]

/-- A ledger of one market with 10000 KRW. -/
def oneMarket : AccountManager where
  budgets := AList.singleton "KRW-BTC" { market := "KRW-BTC", availableKrw := 10000 }

theorem oneMarket_idle (m : String) (b : MarketBudget) (h : oneMarket.getBudget m = some b) :
    b.reservedKrw = 0 ∧ 0 ≤ b.availableKrw := by
  by_cases hm : m = "KRW-BTC"
  · subst hm
    obtain rfl : _ = b := Option.some.inj h
    exact ⟨rfl, by decide +kernel⟩
  · have hnone : oneMarket.getBudget m = none := by
      rw [getBudget, AList.lookup_eq_none]
      simpa [oneMarket, AList.mem_keys] using hm
    exact absurd (hnone.symm.trans h) (by simp)

theorem conserved_iff_oneMarket :
    Machine.Always (step (AppConfig.standard ℚ).account) (Conserved { mgr := oneMarket })
      { mgr := oneMarket }
      [.reserve "KRW-BTC" 5000, .finalizeFillBuy 0 4000 2 2000, .finalizeOrder 0] := by
  have hslots : ∀ m, liveOn [none] m = 0 := fun m => by simp [liveOn]
  exact (conserved_iff _ oneMarket oneMarket_idle _).mpr
    ⟨trivial, trivial, fun t _ _ => .inl (hslots t.market), trivial⟩

/-- Two tokens of one market: finalising the first sweeps the half KRW of the second. -/
theorem not_conserved_two_tokens :
    (∀ m b, oneMarket.getBudget m = some b → b.reservedKrw = 0 ∧ 0 ≤ b.availableKrw) ∧
    ¬ Machine.Always (step (AppConfig.standard ℚ).account) (Conserved { mgr := oneMarket })
      { mgr := oneMarket }
      [.reserve "KRW-BTC" 5000, .reserve "KRW-BTC" (1 / 2), .finalizeOrder 0] := by
  refine ⟨oneMarket_idle, fun h => ?_⟩
  exact absurd (h.last "KRW-BTC").1 (by decide +kernel)

end Desk
end CoinBot
