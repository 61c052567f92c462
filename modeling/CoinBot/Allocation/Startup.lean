import CoinBot.Allocation.AccountManager
import Mathlib.Data.List.Induction

/- The two ways the ledger is set up: the constructor on an account, and the
   constructor on an empty account followed by `rebuildFromAccount`, which is what
   the program does at its start.

   Both loop over the positions, so what counts for a market is the last position
   the account lists for it (`lastPosition`). They disagree on the initial capital:
   the constructor sets it, `rebuildFromAccount` never does. -/
namespace CoinBot.AccountManager

variable (cfg : AccountConfig) (account : Account) {markets : List String}

/-- The last position of a market: the one both set-ups keep. -/
def lastPosition (account : Account) (m : String) : Option Position :=
  (account.positions.filter (marketOf · = m)).getLast?

/-- What the account holds of a market is missing, or worth less than the dust value. -/
def HoldsDust (cfg : AccountConfig) (account : Account) (m : String) : Prop :=
  ∀ pos, lastPosition account m = some pos →
    pos.free * pos.avgBuyPrice < cfg.initDustThresholdKrw

/-- A loop in which each step overrides the steps before it is its last step. -/
theorem foldl_absorb {X B : Type} {g : X → B → B} {b : B} (h : ∀ p q, g p (g q b) = g p b)
    (ps : List X) : ps.foldl (fun b p => g p b) b = ps.getLast?.elim b (g · b) := by
  induction ps using List.reverseRecOn with
  | nil => rfl
  | append_singleton ps p ih =>
    rw [List.foldl_append, List.foldl_cons, List.foldl_nil, ih, List.getLast?_concat]
    show g p _ = g p b
    cases ps.getLast? with
    | none => rfl
    | some q => exact h p q

/-! The constructor, market by market. -/

/-- Stage 2 of the constructor, for one market. -/
def createdHolding (cfg : AccountConfig) (account : Account) (m : String) : MarketBudget :=
  (lastPosition account m).elim { market := m } (createHolding cfg · { market := m })

theorem createHolding_absorb (m : String) (p q : Position) :
    createHolding cfg p (createHolding cfg q { market := m }) =
      createHolding cfg p { market := m } := by
  simp only [createHolding]
  split <;> split <;> rfl

theorem lookup_held (markets : List String) (m : String) :
    (account.positions.foldl (fun bs pos => KeyMap.modify (marketOf pos) (createHolding cfg pos) bs)
      (markets.foldl (fun bs market => bs.insert market { market := market }) ∅)).lookup m =
      if m ∈ markets then some (createdHolding cfg account m) else none := by
  rw [KeyMap.lookup_foldl_modify marketOf (createHolding cfg),
    KeyMap.lookup_foldl_insert (fun market => ({ market := market } : MarketBudget))]
  by_cases hm : m ∈ markets
  · rw [if_pos hm, if_pos hm, Option.map_some, foldl_absorb (createHolding_absorb cfg m)]
    rfl
  · rw [if_neg hm, if_neg hm]
    rfl

/-- The constructor's budgets: the KRW is shared by the `n` markets without coin. -/
theorem create_spec (hms : markets ≠ []) :
    ∃ mgr, ∃ n : ℕ, create cfg account markets = .ok mgr ∧
      (∀ m ∈ markets, (createdHolding cfg account m).coinBalance = 0 → 0 < n) ∧
      ∀ m, mgr.getBudget m = if m ∈ markets then
        some (if 0 < account.krwFree ∧ (createdHolding cfg account m).coinBalance = 0 then
          { createdHolding cfg account m with
            availableKrw := account.krwFree / (n : ℚ), initialCapital := account.krwFree / (n : ℚ) }
          else createdHolding cfg account m) else none := by
  have hheld := lookup_held cfg account markets
  unfold create
  rw [if_neg (by simpa using hms)]
  simp only
  generalize account.positions.foldl
    (fun bs pos => KeyMap.modify (marketOf pos) (createHolding cfg pos) bs)
    (markets.foldl (fun bs market => bs.insert market ({ market := market } : MarketBudget)) ∅) =
      held at hheld ⊢
  have hcount : ∀ m ∈ markets, (createdHolding cfg account m).coinBalance = 0 →
      0 < held.entries.countP (fun e => e.2.coinBalance == 0) := by
    intro m hm hcoin
    refine List.countP_pos_iff.mpr ⟨⟨m, createdHolding cfg account m⟩, ?_, by simpa using hcoin⟩
    rw [KeyMap.mem_entries_iff, hheld, if_pos hm]
  -- The cash is shared out only when there is some, and a market without coins to take it.
  by_cases hkrw : account.krwFree ≤ 0
  · rw [if_pos hkrw]
    refine ⟨_, _, rfl, hcount, fun m => ?_⟩
    rw [getBudget, hheld]
    by_cases hm : m ∈ markets
    · rw [if_pos hm, if_pos hm, if_neg (fun h => absurd h.1 (not_lt.mpr hkrw))]
    · rw [if_neg hm, if_neg hm]
  · rw [if_neg hkrw]
    by_cases hpos : 0 < held.entries.countP (fun e => e.2.coinBalance == 0)
    · rw [if_pos hpos]
      refine ⟨_, _, rfl, hcount, fun m => ?_⟩
      rw [getBudget, KeyMap.lookup_mapVal, hheld]
      by_cases hm : m ∈ markets
      · simp [hm, not_le.mp hkrw]
      · simp [hm]
    · rw [if_neg hpos]
      refine ⟨_, _, rfl, hcount, fun m => ?_⟩
      rw [getBudget, hheld]
      by_cases hm : m ∈ markets
      · rw [if_pos hm, if_pos hm, if_neg (fun h => hpos (hcount m hm h.2))]
      · rw [if_neg hm, if_neg hm]

theorem create_empty (hms : markets ≠ []) :
    ∃ mgr, create cfg {} markets = .ok mgr ∧
      ∀ m, mgr.getBudget m = if m ∈ markets then some { market := m } else none := by
  obtain ⟨mgr, n, hok, -, hbud⟩ := create_spec cfg {} hms
  refine ⟨mgr, hok, fun m => ?_⟩
  rw [hbud m]
  by_cases hm : m ∈ markets
  · rw [if_pos hm, if_pos hm, if_neg (fun h => lt_irrefl (0 : ℚ) h.1)]
    rfl
  · rw [if_neg hm, if_neg hm]

/-! `rebuildFromAccount`, market by market. -/

/-- Stages 1 and 2 of `rebuildFromAccount`, for one market. -/
def rebuiltHolding (cfg : AccountConfig) (account : Account) (m : String) (b : MarketBudget) :
    MarketBudget :=
  (account.positions.filter (marketOf · = m)).foldl (fun b pos => rebuildHolding cfg pos b)
    { b with coinBalance := 0, avgEntryPrice := 0 }

/-- What stage 4 gives each flat market. -/
def perMarket (cfg : AccountConfig) (mgr : AccountManager) (account : Account) : Amount :=
  account.krwFree /
    ((flatMarkets cfg (rebuildHoldings cfg mgr.budgets account.positions)).length : ℚ)

theorem lookup_rebuildHoldings (budgets : KeyMap String MarketBudget) (m : String) :
    (rebuildHoldings cfg budgets account.positions).lookup m =
      (budgets.lookup m).map (rebuiltHolding cfg account m) := by
  rw [rebuildHoldings, KeyMap.lookup_foldl_modify marketOf (rebuildHolding cfg),
    KeyMap.lookup_mapVal, Option.map_map]
  rfl

theorem mem_flatMarkets {budgets : KeyMap String MarketBudget} {m : String} {b : MarketBudget}
    (h : budgets.lookup m = some b) :
    m ∈ flatMarkets cfg budgets ↔ b.coinBalance < cfg.coinEpsilon := by
  unfold flatMarkets
  constructor
  · intro hm
    obtain ⟨⟨m', b'⟩, he, rfl⟩ := List.mem_map.mp hm
    obtain ⟨hmem, hflat⟩ := List.mem_filter.mp he
    rw [KeyMap.mem_entries_iff, h] at hmem
    obtain rfl : b = b' := Option.some.inj hmem
    exact of_decide_eq_true hflat
  · intro hflat
    refine List.mem_map.mpr ⟨⟨m, b⟩, List.mem_filter.mpr ⟨?_, decide_eq_true hflat⟩, rfl⟩
    rw [KeyMap.mem_entries_iff, h]

theorem lookup_share (held : KeyMap String MarketBudget) (flat : List String) (share : Amount)
    (m : String) :
    (flat.foldl (fun bs market => KeyMap.modify market
      (fun b => { b with availableKrw := share, reservedKrw := 0 }) bs) held).lookup m =
      (held.lookup m).map (fun b =>
        if m ∈ flat then { b with availableKrw := share, reservedKrw := 0 } else b) := by
  refine (KeyMap.lookup_foldl_modify id
    (fun _ (b : MarketBudget) => { b with availableKrw := share, reservedKrw := 0 })
    flat held m).trans ?_
  congr 1
  funext b
  rw [foldl_absorb (fun _ _ => rfl)]
  cases hlast : (flat.filter (id · = m)).getLast? with
  | none =>
    have hm : m ∉ flat := fun hm => by
      have hfilter := List.getLast?_eq_none_iff.mp hlast
      exact absurd (List.mem_filter.mpr ⟨hm, by simp⟩) (hfilter ▸ List.not_mem_nil)
    rw [if_neg hm]
    rfl
  | some m' =>
    obtain ⟨hm, hid⟩ := List.mem_filter.mp (List.mem_of_getLast? hlast)
    obtain rfl : m' = m := by simpa using hid
    rw [if_pos hm]
    rfl

/-- What `rebuildFromAccount` does to one budget. -/
theorem rebuildFromAccount_budget (mgr : AccountManager) (account : Account) (m : String) :
    (mgr.rebuildFromAccount cfg account).getBudget m =
      (mgr.getBudget m).map (fun b =>
        if (rebuiltHolding cfg account m b).coinBalance < cfg.coinEpsilon then
          { rebuiltHolding cfg account m b with
            availableKrw := perMarket cfg mgr account, reservedKrw := 0 }
        else rebuiltHolding cfg account m b) := by
  have hheld := lookup_rebuildHoldings cfg account mgr.budgets m
  have hloop : (mgr.rebuildFromAccount cfg account).budgets =
      (flatMarkets cfg (rebuildHoldings cfg mgr.budgets account.positions)).foldl
        (fun bs market => KeyMap.modify market
          (fun b => { b with availableKrw := perMarket cfg mgr account, reservedKrw := 0 }) bs)
        (rebuildHoldings cfg mgr.budgets account.positions) := by
    unfold rebuildFromAccount perMarket
    simp only
    split
    · next hempty => rw [List.isEmpty_iff.mp hempty, List.foldl_nil]
    · rfl
  rw [getBudget, hloop, lookup_share, hheld, getBudget]
  cases hb : mgr.budgets.lookup m with
  | none => rfl
  | some b =>
    have hflat := mem_flatMarkets cfg (hheld.trans (by rw [hb, Option.map_some]))
    simp only [Option.map_some, hflat]

/-- `rebuildFromAccount` never sets the initial capital. -/
theorem initialCapital_rebuiltHolding (m : String) (b : MarketBudget) :
    (rebuiltHolding cfg account m b).initialCapital = b.initialCapital := by
  unfold rebuiltHolding
  generalize account.positions.filter (marketOf · = m) = ps
  have hloop : ∀ b : MarketBudget,
      (ps.foldl (fun b pos => rebuildHolding cfg pos b) b).initialCapital = b.initialCapital := by
    induction ps with
    | nil => intro b; rfl
    | cons p ps ih =>
      intro b
      rw [List.foldl_cons, ih]
      simp only [rebuildHolding]
      split <;> rfl
  exact hloop _

theorem rebuiltHolding_cases (m : String) (b : MarketBudget) :
    (rebuiltHolding cfg account m b).coinBalance = 0 ∨
    ((rebuiltHolding cfg account m b).availableKrw = 0 ∧
      (rebuiltHolding cfg account m b).reservedKrw = 0) := by
  unfold rebuiltHolding
  generalize account.positions.filter (marketOf · = m) = ps
  induction ps using List.reverseRecOn with
  | nil => exact .inl rfl
  | append_singleton ps p ih =>
    rw [List.foldl_append, List.foldl_cons, List.foldl_nil]
    simp only [rebuildHolding]
    split
    · exact .inl rfl
    · exact .inr ⟨rfl, rfl⟩

/-- Whatever the ledger held before, `rebuildFromAccount` leaves nothing reserved, and nothing
    overdrawn unless the account is. -/
theorem rebuildFromAccount_idle (mgr : AccountManager) {account : Account} {m : String}
    {b : MarketBudget} (h : (mgr.rebuildFromAccount cfg account).getBudget m = some b) :
    b.reservedKrw = 0 ∧ (0 ≤ account.krwFree → 0 ≤ b.availableKrw) := by
  rw [rebuildFromAccount_budget] at h
  obtain ⟨b0, -, rfl⟩ := Option.map_eq_some_iff.mp h
  split
  · exact ⟨rfl, fun hkrw => div_nonneg hkrw (Nat.cast_nonneg _)⟩
  · next hcoin =>
    rcases rebuiltHolding_cases cfg account m b0 with hzero | ⟨hav, hres⟩
    · exact absurd (hzero ▸ cfg.coinEpsilon_pos) hcoin
    · exact ⟨hres, fun _ => hav.ge⟩

/-! Agreement. -/

theorem createdHolding_dust {cfg : AccountConfig} {account : Account} {m : String} (h : HoldsDust cfg account m) :
    createdHolding cfg account m = { market := m } := by
  unfold createdHolding
  cases hlast : lastPosition account m with
  | none => rfl
  | some pos => simp only [Option.elim, createHolding, if_pos (h pos hlast)]

theorem rebuiltHolding_dust {cfg : AccountConfig} {account : Account} {m : String} (h : HoldsDust cfg account m) :
    rebuiltHolding cfg account m { market := m } = { market := m } := by
  have habsorb : ∀ p q, rebuildHolding cfg p (rebuildHolding cfg q { market := m }) =
      rebuildHolding cfg p { market := m } := by
    intro p q
    simp only [rebuildHolding]
    split <;> split <;> rfl
  have hloop : rebuiltHolding cfg account m { market := m } =
      (lastPosition account m).elim { market := m } (rebuildHolding cfg · { market := m }) :=
    foldl_absorb habsorb _
  rw [hloop]
  cases hlast : lastPosition account m with
  | none => rfl
  | some pos => simp only [Option.elim, rebuildHolding, if_pos (h pos hlast)]

theorem createdHolding_held {cfg : AccountConfig} {account : Account} {m : String} (h : ¬ HoldsDust cfg account m) :
    0 < (createdHolding cfg account m).initialCapital ∧
    (createdHolding cfg account m).coinBalance ≠ 0 := by
  unfold HoldsDust at h
  push Not at h
  obtain ⟨pos, hlast, hvalue⟩ := h
  have hpos : 0 < pos.free * pos.avgBuyPrice := lt_of_lt_of_le cfg.initDustThresholdKrw_pos hvalue
  simp only [createdHolding, hlast, Option.elim, createHolding, if_neg (not_lt.mpr hvalue)]
  exact ⟨hpos, fun hzero => by simp [hzero] at hpos⟩

/-- Both set-ups succeed and leave the same budget for every market. -/
def SetUpsAgree (cfg : AccountConfig) (account : Account) (markets : List String) : Prop :=
  ∃ created empty, create cfg account markets = .ok created ∧ create cfg {} markets = .ok empty ∧
    ∀ m, (empty.rebuildFromAccount cfg account).getBudget m = created.getBudget m

/-- The two set-ups agree exactly when there is no free KRW and nothing above dust is held. -/
theorem setUpsAgree_iff (cfg : AccountConfig) (account : Account) {markets : List String}
    (hms : markets ≠ []) (hkrw : 0 ≤ account.krwFree) :
    SetUpsAgree cfg account markets ↔
      account.krwFree = 0 ∧ ∀ m ∈ markets, HoldsDust cfg account m := by
  obtain ⟨created, n, hcreated, hn, hbud⟩ := create_spec cfg account hms
  obtain ⟨empty, hempty, hzero⟩ := create_empty cfg hms
  constructor
  · rintro ⟨created', empty', hcreated', hempty', h⟩
    obtain rfl : created = created' := Except.ok.inj (hcreated.symm.trans hcreated')
    obtain rfl : empty = empty' := Except.ok.inj (hempty.symm.trans hempty')
    -- The rebuilt initial capital is 0, so the constructor's has to be.
    have hcap : ∀ m ∈ markets, ∀ b, created.getBudget m = some b → b.initialCapital = 0 := by
      intro m hm b hb
      rw [← h m, rebuildFromAccount_budget, hzero, if_pos hm, Option.map_some] at hb
      obtain rfl := Option.some.inj hb
      split
      · exact initialCapital_rebuiltHolding cfg account m _
      · exact initialCapital_rebuiltHolding cfg account m _
    have hdust : ∀ m ∈ markets, HoldsDust cfg account m := by
      intro m hm
      by_contra hheld
      obtain ⟨hpos, hcoin⟩ := createdHolding_held hheld
      have hb := hbud m
      rw [if_pos hm, if_neg (fun h => hcoin h.2)] at hb
      exact absurd (hcap m hm _ hb) hpos.ne'
    refine ⟨?_, hdust⟩
    by_contra hne
    have hpos : 0 < account.krwFree := lt_of_le_of_ne hkrw (Ne.symm hne)
    obtain ⟨m, hm⟩ := List.exists_mem_of_ne_nil markets hms
    have hcoin : (createdHolding cfg account m).coinBalance = 0 := by
      rw [createdHolding_dust (hdust m hm)]
    have hb := hbud m
    rw [if_pos hm, if_pos ⟨hpos, hcoin⟩] at hb
    have hshare : account.krwFree / (n : ℚ) = 0 := hcap m hm _ hb
    exact absurd hshare (div_pos hpos (Nat.cast_pos.mpr (hn m hm hcoin))).ne'
  · rintro ⟨hfree, hdust⟩
    refine ⟨created, empty, hcreated, hempty, fun m => ?_⟩
    rw [rebuildFromAccount_budget, hzero, hbud]
    by_cases hm : m ∈ markets
    · have hflat : ({ market := m } : MarketBudget).coinBalance < cfg.coinEpsilon :=
        cfg.coinEpsilon_pos
      have hshare : perMarket cfg empty account = 0 := by rw [perMarket, hfree, zero_div]
      rw [if_pos hm, if_pos hm, Option.map_some, rebuiltHolding_dust (hdust m hm), if_pos hflat,
        if_neg (fun h => absurd h.1 hfree.not_gt), createdHolding_dust (hdust m hm), hshare]
    · rw [if_neg hm, if_neg hm, Option.map_none]

theorem setUpsAgree_dust : SetUpsAgree (AppConfig.standard ℚ).account
    { positions := [{ currency := "BTC", free := 1, avgBuyPrice := 1000 }] } ["KRW-BTC"] := by
  refine (setUpsAgree_iff _ _ (List.cons_ne_nil _ _) le_rfl).mpr ⟨rfl, fun m hm pos hpos => ?_⟩
  obtain rfl : m = "KRW-BTC" := List.mem_singleton.mp hm
  have hlast : lastPosition
      { positions := [{ currency := "BTC", free := 1, avgBuyPrice := 1000 }] } "KRW-BTC" =
      some { currency := "BTC", free := 1, avgBuyPrice := 1000 } := by decide +kernel
  obtain rfl := Option.some.inj (hlast.symm.trans hpos)
  decide +kernel

/-- 10000 KRW and no coin: the constructor takes the 10000 as initial capital, the start-up
    takes 0. -/
theorem not_setUpsAgree_krw :
    ¬ SetUpsAgree (AppConfig.standard ℚ).account { krwFree := 10000 } ["KRW-BTC"] := by
  rintro ⟨created, empty, hcreated, hempty, h⟩
  have hcap : ((create (AppConfig.standard ℚ).account { krwFree := 10000 } ["KRW-BTC"]).toOption.bind
      (·.getBudget "KRW-BTC")).map (·.initialCapital) = some 10000 := by decide +kernel
  have hcap' : ((create (AppConfig.standard ℚ).account {} ["KRW-BTC"]).toOption.bind
      (fun mgr => (mgr.rebuildFromAccount (AppConfig.standard ℚ).account
        { krwFree := 10000 }).getBudget "KRW-BTC")).map (·.initialCapital) = some 0 := by
    decide +kernel
  rw [hcreated] at hcap
  rw [hempty] at hcap'
  have hsame : (some 10000 : Option ℚ) = some 0 := by
    rw [← hcap, ← hcap']
    exact congrArg (Option.map (·.initialCapital)) (h "KRW-BTC").symm
  exact absurd hsame (by decide +kernel)

end CoinBot.AccountManager
