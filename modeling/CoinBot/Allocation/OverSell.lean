import CoinBot.Allocation.AccountManager
import CoinBot.Lib.Machine

/- Selling more than the ledger holds.

   The contract of `finalizeFillSell` caps a sale at the balance: what is sold beyond it
   brings no KRW, and the balance never becomes negative. The body has no such correction.
   The contract is met exactly along the runs in which every sale is within the balance
   that it finds. -/
namespace CoinBot.AccountManager

/-- A settlement call, with the token it is given. -/
inductive Settlement where
  | fillBuy (token : ReservationToken) (executedKrw : Amount) (receivedCoin : Volume)
      (fillPrice : Price)
  | fillSell (market : String) (soldCoin : Volume) (receivedKrw : Amount)
  | sellOrder (market : String) (markPrice : Option Price)

def settle (cfg : AccountConfig) (mgr : AccountManager) : Settlement → AccountManager
  | .fillBuy token krw coin price => (mgr.finalizeFillBuy token krw coin price).2
  | .fillSell market coin krw => mgr.finalizeFillSell market coin krw
  | .sellOrder market mark => mgr.finalizeSellOrder cfg market mark

/-- No market owes coins. -/
def NoDebt (mgr : AccountManager) : Prop :=
  ∀ m b, mgr.getBudget m = some b → 0 ≤ b.coinBalance

/-- The contract of a sale: it is capped at the balance, and so is what it brings. -/
def CapsSale (mgr : AccountManager) : Settlement → Prop
  | .fillSell market sold received => 0 < sold → 0 ≤ received →
      ∀ b, mgr.getBudget market = some b →
        (mgr.finalizeFillSell market sold received).getBudget market =
          some { b with
            coinBalance := b.coinBalance - min b.coinBalance sold
            availableKrw := b.availableKrw + received * (min b.coinBalance sold / sold) }
  | _ => True

/-- A sale that is booked finds enough coins. -/
def WithinBalance (mgr : AccountManager) : Settlement → Prop
  | .fillSell market sold received => 0 < sold → 0 ≤ received →
      ∀ b, mgr.getBudget market = some b → sold ≤ b.coinBalance
  | _ => True

variable {mgr : AccountManager}

/-! One call. -/

theorem NoDebt.modifyBudget (h : mgr.NoDebt) (m : String) {f : MarketBudget → MarketBudget}
    (hf : ∀ b, mgr.getBudget m = some b → 0 ≤ (f b).coinBalance) :
    (mgr.modifyBudget m f).NoDebt := by
  intro m' b hb
  by_cases hm : m' = m
  · subst hm
    rw [getBudget_modifyBudget_self] at hb
    obtain ⟨b0, hb0, rfl⟩ := Option.map_eq_some_iff.mp hb
    exact hf b0 hb0
  · rw [getBudget_modifyBudget_ne mgr f hm] at hb
    exact h m' b hb

theorem NoDebt.finalizeFillBuy (h : mgr.NoDebt) (token : ReservationToken) (krw coin price : ℚ) :
    (mgr.finalizeFillBuy token krw coin price).2.NoDebt := by
  by_cases hbooks : mgr.BooksBuy token krw coin price
  · rw [finalizeFillBuy_booked hbooks]
    have hcoin : 0 < coin := hbooks.2.2.1
    have hmore : ∀ b, mgr.getBudget token.market = some b →
        0 ≤ (b.buy (charge token krw) coin price).coinBalance := by
      intro b hb
      exact add_nonneg (h _ b hb) hcoin.le
    exact h.modifyBudget token.market hmore
  · rw [finalizeFillBuy_skipped hbooks]
    exact h

theorem NoDebt.finalizeSellOrder (h : mgr.NoDebt) (cfg : AccountConfig) (m : String)
    (mark : Option Price) : (mgr.finalizeSellOrder cfg m mark).NoDebt := by
  refine h.modifyBudget m (fun b hb => ?_)
  unfold MarketBudget.closeSell
  split
  · exact le_rfl
  · exact h m b hb

/-- A sale leaves no debt exactly when it is within the balance. -/
theorem noDebt_finalizeFillSell_iff (h : mgr.NoDebt) (m : String) (sold received : ℚ) :
    (mgr.finalizeFillSell m sold received).NoDebt ↔
      mgr.WithinBalance (.fillSell m sold received) := by
  rcases mgr.finalizeFillSell_cases m sold received with hskip | ⟨hsold, hreceived, hreg, hbooked⟩
  · rw [hskip]
    refine iff_of_true h (fun hsold hreceived b hb => ?_)
    -- A sale of a registered market is not skipped.
    have hbooked := finalizeFillSell_booked (m := m) hsold hreceived (by rw [hb]; rfl)
    have hafter : (mgr.finalizeFillSell m sold received).getBudget m =
        some (b.sell sold received) := by
      rw [hbooked, getBudget_countFill, getBudget_modifyBudget_self, hb]
      rfl
    rw [hskip, hb] at hafter
    have hsame : b.coinBalance = b.coinBalance - sold :=
      congrArg MarketBudget.coinBalance (Option.some.inj hafter)
    exact absurd hsame (by linarith : b.coinBalance ≠ b.coinBalance - sold)
  · rw [hbooked]
    constructor
    · intro hno _ _ b hb
      have hafter := hno m (b.sell sold received) (by
        rw [getBudget_countFill, getBudget_modifyBudget_self, hb]
        rfl)
      exact sub_nonneg.mp hafter
    · intro hwithin
      exact h.modifyBudget m (fun b hb => sub_nonneg.mpr (hwithin hsold hreceived b hb))

theorem noDebt_settle_iff (cfg : AccountConfig) (h : mgr.NoDebt) (c : Settlement) :
    (mgr.settle cfg c).NoDebt ↔ mgr.WithinBalance c := by
  cases c with
  | fillBuy token krw coin price =>
    exact iff_of_true (h.finalizeFillBuy token krw coin price) trivial
  | fillSell market sold received => exact noDebt_finalizeFillSell_iff h market sold received
  | sellOrder market mark => exact iff_of_true (h.finalizeSellOrder cfg market mark) trivial

theorem WithinBalance.capsSale {c : Settlement} (h : mgr.WithinBalance c) : mgr.CapsSale c := by
  cases c with
  | fillBuy token krw coin price => trivial
  | sellOrder market mark => trivial
  | fillSell market sold received =>
    intro hsold hreceived b hb
    have hle : sold ≤ b.coinBalance := h hsold hreceived b hb
    rw [finalizeFillSell_booked hsold hreceived (by rw [hb]; rfl), getBudget_countFill,
      getBudget_modifyBudget_self, hb, min_eq_right hle, div_self hsold.ne', mul_one]
    rfl

/-! A whole run. -/

/-- **When the over-sell protection holds.** Along a run of settlements that starts without debt,
    no market ever owes coins and every sale is capped as documented exactly when every sale
    sells at most the balance it finds. -/
theorem protected_iff (cfg : AccountConfig) (h : mgr.NoDebt) (calls : List Settlement) :
    (Machine.Always (settle cfg) NoDebt mgr calls ∧
      Machine.Guarded (settle cfg) CapsSale mgr calls) ↔
    Machine.Guarded (settle cfg) WithinBalance mgr calls := by
  have hdebt : Machine.Always (settle cfg) NoDebt mgr calls ↔
      Machine.Guarded (settle cfg) WithinBalance mgr calls :=
    Machine.always_iff_guarded (J := fun _ => True) (fun _ _ _ => trivial)
      (fun s c _ hs => noDebt_settle_iff cfg hs c) trivial h
  constructor
  · rintro ⟨halways, -⟩
    exact hdebt.mp halways
  · intro hwithin
    refine ⟨hdebt.mpr hwithin, ?_⟩
    exact Machine.Guarded.imp (P := fun _ => True) (fun _ _ _ _ => trivial)
      (fun _ _ _ hc => hc.capsSale) trivial hwithin

/-- A ledger with one coin. -/
def oneCoin : AccountManager where
  budgets := AList.singleton "KRW-BTC" { market := "KRW-BTC", coinBalance := 1 }

theorem noDebt_oneCoin : oneCoin.NoDebt := by
  intro m b hb
  by_cases hm : m = "KRW-BTC"
  · subst hm
    have hone : oneCoin.getBudget "KRW-BTC" = some { market := "KRW-BTC", coinBalance := 1 } := rfl
    obtain rfl := Option.some.inj (hone.symm.trans hb)
    exact zero_le_one
  · have hkeys : oneCoin.budgets.keys = ["KRW-BTC"] := rfl
    have hnone : oneCoin.getBudget m = none := by
      refine AList.lookup_eq_none.mpr ?_
      rw [AList.mem_keys, hkeys, List.mem_singleton]
      exact hm
    rw [hnone] at hb
    cases hb

theorem protected_iff_oneCoin :
    Machine.Always (settle (AppConfig.standard ℚ).account) NoDebt oneCoin
        [.fillSell "KRW-BTC" 1 1000] ∧
      Machine.Guarded (settle (AppConfig.standard ℚ).account) CapsSale oneCoin
        [.fillSell "KRW-BTC" 1 1000] := by
  refine (protected_iff _ noDebt_oneCoin _).mpr ⟨?_, trivial⟩
  intro _ _ b hb
  have hone : oneCoin.getBudget "KRW-BTC" = some { market := "KRW-BTC", coinBalance := 1 } := rfl
  obtain rfl := Option.some.inj (hone.symm.trans hb)
  exact le_rfl

/-- Two coins are sold out of one: the ledger is left with a debt of one coin. -/
theorem not_protected :
    ¬ ∀ (mgr : AccountManager) (calls : List Settlement), mgr.NoDebt →
      Machine.Always (settle (AppConfig.standard ℚ).account) NoDebt mgr calls ∧
      Machine.Guarded (settle (AppConfig.standard ℚ).account) CapsSale mgr calls := by
  intro h
  have hafter := (h oneCoin [.fillSell "KRW-BTC" 2 2000] noDebt_oneCoin).1.last
  have hdebt : ((settle (AppConfig.standard ℚ).account oneCoin
      (.fillSell "KRW-BTC" 2 2000)).getBudget "KRW-BTC").map (·.coinBalance) = some (-1) := by
    decide +kernel
  obtain ⟨b, hb, hcoin⟩ := Option.map_eq_some_iff.mp hdebt
  have hnonneg : 0 ≤ b.coinBalance := hafter "KRW-BTC" b hb
  rw [hcoin] at hnonneg
  exact absurd hnonneg (by norm_num)

end CoinBot.AccountManager
