import CoinBot.Allocation.Startup
import Mathlib.Algebra.BigOperators.Group.List.Basic
import Mathlib.Data.List.Perm.Basic

/- What `rebuildFromAccount` leaves, whatever the ledger held before.

   Stages 1 and 2 write the coins of every market from the account alone, so which markets
   are flat, and how many, depends on the account and the set of markets (`length_flat`).
   Stage 4 then overwrites what a flat market had available and reserved, and a market that
   keeps its coins has lost both in stage 2. -/
namespace CoinBot

/-- What a market can trade with. -/
def MarketBudget.funds (b : MarketBudget) : Amount × Amount × Volume × Price :=
  (b.availableKrw, b.reservedKrw, b.coinBalance, b.avgEntryPrice)

/-- What `rebuildFromAccount` never writes. -/
def MarketBudget.records (b : MarketBudget) : String × Amount × Amount :=
  (b.market, b.initialCapital, b.realizedPnl)

theorem MarketBudget.ext_funds {b b' : MarketBudget} (hfunds : b.funds = b'.funds)
    (hrecords : b.records = b'.records) : b = b' := by
  obtain ⟨hav, hres, hcoin, havg⟩ := by simpa only [funds, Prod.mk.injEq] using hfunds
  obtain ⟨hmkt, hcap, hpnl⟩ := by simpa only [records, Prod.mk.injEq] using hrecords
  cases b
  cases b'
  simp_all only

namespace AccountManager

variable (cfg : AccountConfig) (account : Account)

/-- The KRW available over all markets. -/
def totalAvailable (mgr : AccountManager) : Amount :=
  (mgr.budgets.entries.map (fun e => e.2.availableKrw)).sum

/-! The coins. -/

theorem coins_rebuiltHolding (m : String) (b b' : MarketBudget) :
    (rebuiltHolding cfg account m b).coinBalance = (rebuiltHolding cfg account m b').coinBalance ∧
    (rebuiltHolding cfg account m b).avgEntryPrice =
      (rebuiltHolding cfg account m b').avgEntryPrice := by
  unfold rebuiltHolding
  generalize account.positions.filter (marketOf · = m) = ps
  induction ps using List.reverseRecOn with
  | nil => exact ⟨rfl, rfl⟩
  | append_singleton ps p ih =>
    simp only [List.foldl_append, List.foldl_cons, List.foldl_nil, rebuildHolding]
    split
    · exact ⟨rfl, rfl⟩
    · exact ⟨rfl, rfl⟩

theorem records_rebuiltHolding (m : String) (b : MarketBudget) :
    (rebuiltHolding cfg account m b).records = b.records := by
  unfold rebuiltHolding
  generalize account.positions.filter (marketOf · = m) = ps
  induction ps using List.reverseRecOn with
  | nil => rfl
  | append_singleton ps p ih =>
    simp only [List.foldl_append, List.foldl_cons, List.foldl_nil, rebuildHolding]
    split
    · exact ih
    · exact ih

/-- Whether a market is flat after stage 2. -/
def Flat (m : String) : Prop :=
  (rebuiltHolding cfg account m { market := m }).coinBalance < cfg.coinEpsilon

instance (m : String) : Decidable (Flat cfg account m) := inferInstanceAs (Decidable (_ < _))

theorem flat_iff {m : String} (b : MarketBudget) :
    (rebuiltHolding cfg account m b).coinBalance < cfg.coinEpsilon ↔ Flat cfg account m := by
  rw [Flat, (coins_rebuiltHolding cfg account m b { market := m }).1]

/-! The flat markets. -/

theorem mem_flatMarkets_rebuilt (mgr : AccountManager) (m : String) :
    m ∈ flatMarkets cfg (rebuildHoldings cfg mgr.budgets account.positions) ↔
      (mgr.getBudget m).isSome ∧ Flat cfg account m := by
  have hheld := lookup_rebuildHoldings cfg account mgr.budgets m
  cases hb : mgr.getBudget m with
  | none =>
    refine iff_of_false (fun hm => ?_) (fun h => absurd h.1 Bool.false_ne_true)
    obtain ⟨e, he, rfl⟩ := List.mem_map.mp hm
    have hlook := (KeyMap.mem_entries_iff _ e.1 e.2).mp (List.mem_of_mem_filter he)
    rw [hheld, show mgr.budgets.lookup e.1 = none from hb] at hlook
    cases hlook
  | some b =>
    rw [show mgr.budgets.lookup m = some b from hb, Option.map_some] at hheld
    rw [mem_flatMarkets cfg hheld, flat_iff]
    exact (and_iff_right rfl).symm

theorem nodup_flatMarkets (budgets : KeyMap String MarketBudget) :
    (flatMarkets cfg budgets).Nodup := by
  have hsub : (flatMarkets cfg budgets).Sublist budgets.keys :=
    List.filter_sublist.map _
  exact budgets.keys_nodup.sublist hsub

theorem perMarket_congr {mgr mgr' : AccountManager}
    (h : ∀ m, (mgr'.getBudget m).isSome = (mgr.getBudget m).isSome) :
    perMarket cfg mgr' account = perMarket cfg mgr account := by
  have hperm : (flatMarkets cfg (rebuildHoldings cfg mgr'.budgets account.positions)).Perm
      (flatMarkets cfg (rebuildHoldings cfg mgr.budgets account.positions)) := by
    rw [List.perm_ext_iff_of_nodup (nodup_flatMarkets cfg _) (nodup_flatMarkets cfg _)]
    intro m
    rw [mem_flatMarkets_rebuilt, mem_flatMarkets_rebuilt, h]
  rw [perMarket, perMarket, hperm.length_eq]

/-! The ledger after the call. -/

/-- What the call makes of one budget. -/
theorem rebuilt_funds (mgr : AccountManager) (m : String) :
    ((mgr.rebuildFromAccount cfg account).getBudget m).map MarketBudget.funds =
      (mgr.getBudget m).map (fun _ =>
        (if Flat cfg account m then perMarket cfg mgr account else 0, 0,
          (rebuiltHolding cfg account m { market := m }).coinBalance,
          (rebuiltHolding cfg account m { market := m }).avgEntryPrice)) := by
  rw [rebuildFromAccount_budget, Option.map_map]
  congr 1
  funext b
  obtain ⟨hcoin, havg⟩ := coins_rebuiltHolding cfg account m b { market := m }
  rw [Function.comp_apply]
  by_cases hflat : Flat cfg account m
  · rw [if_pos ((flat_iff cfg account b).mpr hflat), if_pos hflat]
    simp only [MarketBudget.funds, hcoin, havg]
  · have hkept := mt (flat_iff cfg account b).mp hflat
    rw [if_neg hkept, if_neg hflat]
    rcases rebuiltHolding_cases cfg account m b with hzero | ⟨hav, hres⟩
    · exact absurd (hzero ▸ cfg.coinEpsilon_pos) hkept
    · simp only [MarketBudget.funds, hcoin, havg, hav, hres]

theorem rebuilt_records (mgr : AccountManager) (m : String) :
    ((mgr.rebuildFromAccount cfg account).getBudget m).map MarketBudget.records =
      (mgr.getBudget m).map MarketBudget.records := by
  rw [rebuildFromAccount_budget, Option.map_map]
  congr 1
  funext b
  rw [Function.comp_apply, ← records_rebuiltHolding cfg account m b]
  split
  · rfl
  · rfl

theorem isSome_rebuilt (mgr : AccountManager) (m : String) :
    ((mgr.rebuildFromAccount cfg account).getBudget m).isSome = (mgr.getBudget m).isSome := by
  rw [rebuildFromAccount_budget, Option.isSome_map]

/-- A market of the rebuilt ledger: nothing reserved, and its share available if it is flat. -/
theorem rebuilt_market (mgr : AccountManager) {m : String} {b : MarketBudget}
    (h : (mgr.rebuildFromAccount cfg account).getBudget m = some b) :
    b.reservedKrw = 0 ∧ (b.coinBalance < cfg.coinEpsilon ↔ Flat cfg account m) ∧
      (Flat cfg account m → b.availableKrw = perMarket cfg mgr account) ∧
      (¬ Flat cfg account m → b.availableKrw = 0) := by
  have hfunds := rebuilt_funds cfg account mgr m
  have hsome := isSome_rebuilt cfg account mgr m
  rw [h] at hfunds hsome
  obtain ⟨b0, hb0⟩ := Option.isSome_iff_exists.mp hsome.symm
  rw [hb0, Option.map_some, Option.map_some] at hfunds
  obtain ⟨hav, hres, hcoin, -⟩ := by
    simpa only [MarketBudget.funds, Prod.mk.injEq] using Option.some.inj hfunds
  refine ⟨hres, ?_, ?_, ?_⟩
  · rw [hcoin]
    rfl
  · intro hflat
    rw [hav, if_pos hflat]
  · intro hflat
    rw [hav, if_neg hflat]

/-- The cash of the account is all shared out as soon as one market is flat. -/
theorem totalAvailable_rebuilt (mgr : AccountManager) {m : String} {b : MarketBudget}
    (h : (mgr.rebuildFromAccount cfg account).getBudget m = some b)
    (hflat : b.coinBalance < cfg.coinEpsilon) :
    totalAvailable (mgr.rebuildFromAccount cfg account) = account.krwFree := by
  generalize hflats : flatMarkets cfg (rebuildHoldings cfg mgr.budgets account.positions) = flat
  have hmem : ∀ m, m ∈ flat ↔
      ((mgr.rebuildFromAccount cfg account).getBudget m).isSome ∧ Flat cfg account m := by
    intro m
    rw [← hflats, mem_flatMarkets_rebuilt, isSome_rebuilt]
  -- Each market brings its share if it is flat, and nothing else.
  have hshares : totalAvailable (mgr.rebuildFromAccount cfg account) =
      ((mgr.rebuildFromAccount cfg account).budgets.keys.map
        (fun k => if k ∈ flat then perMarket cfg mgr account else 0)).sum := by
    rw [totalAvailable, KeyMap.map_values _ MarketBudget.availableKrw 0]
    congr 1
    refine List.map_congr_left (fun k hk => ?_)
    obtain ⟨bk, hbk⟩ := Option.isSome_iff_exists.mp (AList.lookup_isSome.mpr hk)
    obtain ⟨-, -, hshare, hnone⟩ := rebuilt_market cfg account mgr hbk
    have hkflat : k ∈ flat ↔ Flat cfg account k := by
      rw [hmem, getBudget, hbk]
      exact and_iff_right rfl
    rw [hbk, Option.map_some, Option.getD_some]
    by_cases hf : Flat cfg account k
    · rw [if_pos (hkflat.mpr hf), hshare hf]
    · rw [if_neg (mt hkflat.mp hf), hnone hf]
  have hperm : ((mgr.rebuildFromAccount cfg account).budgets.keys.filter (· ∈ flat)).Perm flat := by
    rw [List.perm_ext_iff_of_nodup
      ((AList.keys_nodup _).sublist List.filter_sublist) (hflats ▸ nodup_flatMarkets cfg _)]
    intro k
    rw [List.mem_filter, decide_eq_true_iff]
    refine and_iff_right_of_imp (fun hk => ?_)
    exact AList.mem_keys.mp (AList.lookup_isSome.mp ((hmem k).mp hk).1)
  have hsum : ∀ ks : List String,
      (ks.map (fun k => if k ∈ flat then perMarket cfg mgr account else 0)).sum =
        ((ks.filter (· ∈ flat)).length : ℚ) * perMarket cfg mgr account := by
    intro ks
    induction ks with
    | nil => simp
    | cons k ks ih =>
      rw [List.map_cons, List.sum_cons, ih]
      by_cases hk : k ∈ flat
      · rw [if_pos hk, List.filter_cons_of_pos (by simpa using hk), List.length_cons, Nat.cast_succ]
        ring
      · rw [if_neg hk, List.filter_cons_of_neg (by simpa using hk), zero_add]
  have hflatm : m ∈ flat :=
    (hmem m).mpr ⟨by rw [h]; rfl, (rebuilt_market cfg account mgr h).2.1.mp hflat⟩
  have hlen : (flat.length : ℚ) ≠ 0 :=
    Nat.cast_ne_zero.mpr (List.length_pos_of_mem hflatm).ne'
  rw [hshares, hsum, hperm.length_eq, perMarket, hflats, mul_div_cancel₀ _ hlen]

theorem rebuild_rebuild (mgr : AccountManager) (m : String) :
    ((mgr.rebuildFromAccount cfg account).rebuildFromAccount cfg account).getBudget m =
      (mgr.rebuildFromAccount cfg account).getBudget m := by
  have hshare := perMarket_congr cfg account (isSome_rebuilt cfg account mgr)
  have hfunds := rebuilt_funds cfg account (mgr.rebuildFromAccount cfg account) m
  have hrecords := rebuilt_records cfg account (mgr.rebuildFromAccount cfg account) m
  have honce := rebuilt_funds cfg account mgr m
  have hsome := isSome_rebuilt cfg account mgr m
  rw [hshare] at hfunds
  cases hb : (mgr.rebuildFromAccount cfg account).getBudget m with
  | none =>
    rw [hb, Option.map_none, Option.map_eq_none_iff] at hfunds
    exact hfunds
  | some b =>
    rw [hb] at hfunds hrecords honce hsome
    obtain ⟨b0, hb0⟩ := Option.isSome_iff_exists.mp hsome.symm
    obtain ⟨b2, hb2, htwice⟩ := Option.map_eq_some_iff.mp hfunds
    rw [hb0, Option.map_some, Option.map_some] at honce
    rw [hb2, Option.map_some, Option.map_some] at hrecords
    rw [hb2]
    exact congrArg some (MarketBudget.ext_funds (htwice.trans (Option.some.inj honce).symm)
      (Option.some.inj hrecords))

/-- How the ledger stands once the cash of an account is shared out. -/
structure Distributed (mgr : AccountManager) : Prop where
  reserved : ∀ m b, mgr.getBudget m = some b → b.reservedKrw = 0
  held : ∀ m b, mgr.getBudget m = some b → cfg.coinEpsilon ≤ b.coinBalance → b.availableKrw = 0
  equal : ∀ m m' b b', mgr.getBudget m = some b → mgr.getBudget m' = some b' →
    b.coinBalance < cfg.coinEpsilon → b'.coinBalance < cfg.coinEpsilon →
    b.availableKrw = b'.availableKrw
  total : ∀ m b, mgr.getBudget m = some b → b.coinBalance < cfg.coinEpsilon →
    mgr.totalAvailable = account.krwFree

/-- **The start-up distribution.** From any state of the ledger and for any account: nothing is
    reserved, the flat markets share the cash equally and in full, the others have none; the
    result depends on the account and the set of markets only, and a second call changes
    nothing. -/
theorem rebuild_distributed (mgr : AccountManager) :
    Distributed cfg account (mgr.rebuildFromAccount cfg account) ∧
    (∀ mgr' : AccountManager, (∀ m, (mgr'.getBudget m).isSome = (mgr.getBudget m).isSome) →
      ∀ m, ((mgr'.rebuildFromAccount cfg account).getBudget m).map MarketBudget.funds =
        ((mgr.rebuildFromAccount cfg account).getBudget m).map MarketBudget.funds) ∧
    ∀ m, ((mgr.rebuildFromAccount cfg account).rebuildFromAccount cfg account).getBudget m =
      (mgr.rebuildFromAccount cfg account).getBudget m := by
  refine ⟨?_, ?_, rebuild_rebuild cfg account mgr⟩
  · exact
      { reserved := fun m b hb => (rebuilt_market cfg account mgr hb).1
        held := fun m b hb hcoin => by
          obtain ⟨-, hflat, -, hnone⟩ := rebuilt_market cfg account mgr hb
          exact hnone (mt hflat.mpr (not_lt.mpr hcoin))
        equal := fun m m' b b' hb hb' hcoin hcoin' => by
          obtain ⟨-, hflat, hshare, -⟩ := rebuilt_market cfg account mgr hb
          obtain ⟨-, hflat', hshare', -⟩ := rebuilt_market cfg account mgr hb'
          rw [hshare (hflat.mp hcoin), hshare' (hflat'.mp hcoin')]
        total := fun m b hb hcoin => totalAvailable_rebuilt cfg account mgr hb hcoin }
  · intro mgr' hsame m
    rw [rebuilt_funds, rebuilt_funds, perMarket_congr cfg account hsame]
    have hm := hsame m
    cases hb : mgr.getBudget m with
    | none =>
      rw [hb, Option.isSome_none, Option.isSome_eq_false_iff, Option.isNone_iff_eq_none] at hm
      rw [hm]
    | some b =>
      rw [hb, Option.isSome_some] at hm
      obtain ⟨b', hb'⟩ := Option.isSome_iff_exists.mp hm
      rw [hb']
      rfl

end AccountManager
end CoinBot
