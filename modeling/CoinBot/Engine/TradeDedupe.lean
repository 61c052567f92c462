import CoinBot.Engine.Execution
import CoinBot.Lib.Machine
import CoinBot.Lib.Series
import Mathlib.Data.Finset.Dedup

/- The trades that `markTradeOnce` remembers.

   The engine keeps the keys of its last trades twice, as a set to look them up and as a queue
   to forget the oldest. Both are the last `max_seen_trades` of the keys that it accepted
   (`Remembers`), since the queue gives up its oldest key exactly when it holds more. So a key
   is accepted if and only if it is not one of these, and a trade that comes again before so
   many others changes nothing. No other call of the engine touches the two. -/
namespace CoinBot.MarketEngine

/-! The queue and the set. -/

theorem rtake_cons_of_le {fifo : List String} {m : Nat} (h : m ≤ fifo.length) (oldest : String) :
    (oldest :: fifo).rtake m = fifo.rtake m := by
  have hdrop : (oldest :: fifo).length - m = fifo.length - m + 1 := by
    rw [List.length_cons]
    omega
  rw [List.rtake, List.rtake, hdrop, List.drop_succ_cons]

/-- The loop leaves the last keys in the queue, and the same in the set. -/
theorem evict_eq (m : Nat) {fifo : List String} (h : fifo.Nodup) :
    evict m fifo.toFinset fifo = ((fifo.rtake m).toFinset, fifo.rtake m) := by
  induction fifo with
  | nil => rw [evict, List.rtake_nil]
  | cons oldest fifo ih =>
    obtain ⟨hnew, hnodup⟩ := List.nodup_cons.mp h
    unfold evict
    split
    · next hmore =>
      have herase : (oldest :: fifo).toFinset.erase oldest = fifo.toFinset := by
        rw [List.toFinset_cons, Finset.erase_insert (fun hmem => hnew (List.mem_toFinset.mp hmem))]
      rw [herase, ih hnodup, rtake_cons_of_le (Nat.le_of_lt_succ hmore)]
    · next hfits => rw [Series.rtake_of_length_le (Nat.le_of_not_lt hfits)]

/-! Calls of `markTradeOnce`. -/

def mark (cfg : AppConfig ℚ) (e : MarketEngine) (key : String) : MarketEngine :=
  (e.markTradeOnce cfg key).2

/-- The key, when it is accepted. -/
def accepts (cfg : AppConfig ℚ) (e : MarketEngine) (key : String) : List String :=
  if (e.markTradeOnce cfg key).1 then [key] else []

/-- The keys of the list that are accepted one after the other. -/
def accepted (cfg : AppConfig ℚ) (e : MarketEngine) (keys : List String) : List String :=
  Machine.outputs (mark cfg) (accepts cfg) e keys

/-- The engine remembers the last of the keys that it accepted. -/
structure Remembers (cfg : AppConfig ℚ) (e : MarketEngine) (acc : List String) : Prop where
  fifo : e.seenTradeUuidFifo = acc.rtake cfg.engine.maxSeenTrades
  seen : e.seenTradeUuids = e.seenTradeUuidFifo.toFinset
  nodup : e.seenTradeUuidFifo.Nodup

section
variable {cfg : AppConfig ℚ} {e : MarketEngine} {acc : List String}

theorem remembers_nil (hseen : e.seenTradeUuids = ∅) (hfifo : e.seenTradeUuidFifo = []) :
    e.Remembers cfg [] where
  fifo := hfifo.trans (List.rtake_nil _).symm
  seen := by rw [hseen, hfifo]; rfl
  nodup := by rw [hfifo]; exact List.nodup_nil

theorem Remembers.length_le (h : e.Remembers cfg acc) :
    e.seenTradeUuidFifo.length ≤ cfg.engine.maxSeenTrades := by
  rw [h.fifo, Series.length_rtake]
  exact Nat.min_le_left _ _

theorem Remembers.mem_seen (h : e.Remembers cfg acc) (key : String) :
    key ∈ e.seenTradeUuids ↔ key ∈ acc.rtake cfg.engine.maxSeenTrades := by
  rw [h.seen, List.mem_toFinset, h.fifo]

theorem Remembers.accepts_iff (h : e.Remembers cfg acc) (key : String) :
    (e.markTradeOnce cfg key).1 = true ↔
      key ≠ "" ∧ key ∉ acc.rtake cfg.engine.maxSeenTrades := by
  rw [← h.mem_seen]
  unfold markTradeOnce
  by_cases hempty : key = ""
  · simp [hempty]
  · by_cases hmem : key ∈ e.seenTradeUuids
    · simp [hempty, hmem]
    · simp [hempty, hmem]

theorem mark_of_refused {key : String} (h : (e.markTradeOnce cfg key).1 = false) :
    e.mark cfg key = e := by
  unfold mark
  unfold markTradeOnce at h ⊢
  by_cases hempty : key = ""
  · simp [hempty]
  · by_cases hmem : key ∈ e.seenTradeUuids
    · simp [hempty, hmem]
    · simp [hempty, hmem] at h

theorem Remembers.mark (h : e.Remembers cfg acc) (key : String) :
    (e.mark cfg key).Remembers cfg (acc ++ e.accepts cfg key) := by
  by_cases hmark : (e.markTradeOnce cfg key).1 = true
  · obtain ⟨hne, hnew⟩ := (h.accepts_iff key).mp hmark
    rw [← h.mem_seen] at hnew
    have hnodup : (e.seenTradeUuidFifo ++ [key]).Nodup := by
      rw [List.nodup_append]
      refine ⟨h.nodup, List.nodup_singleton key, ?_⟩
      rintro k hk _ hkey rfl
      rw [List.mem_singleton] at hkey
      exact hnew (h.seen ▸ List.mem_toFinset.mpr (hkey ▸ hk))
    have hinsert : insert key e.seenTradeUuids = (e.seenTradeUuidFifo ++ [key]).toFinset := by
      rw [List.toFinset_append, ← h.seen, Finset.union_comm]
      rfl
    have hlast : (e.seenTradeUuidFifo ++ [key]).rtake cfg.engine.maxSeenTrades =
        (acc ++ [key]).rtake cfg.engine.maxSeenTrades := by
      rw [h.fifo, Series.rtake_rtake_concat]
    have heq : e.mark cfg key =
        { e with
          seenTradeUuids := ((acc ++ [key]).rtake cfg.engine.maxSeenTrades).toFinset
          seenTradeUuidFifo := (acc ++ [key]).rtake cfg.engine.maxSeenTrades } := by
      simp only [MarketEngine.mark, markTradeOnce, hne, hnew, if_false, hinsert, evict_eq _ hnodup,
        hlast]
    rw [heq, accepts, if_pos hmark]
    exact ⟨rfl, rfl, hlast ▸ hnodup.sublist (List.drop_sublist _ _)⟩
  · rw [accepts, if_neg hmark, List.append_nil, mark_of_refused (Bool.eq_false_iff.mpr hmark)]
    exact h

theorem Remembers.run (h : e.Remembers cfg acc) (keys : List String) :
    (Machine.run (MarketEngine.mark cfg) e keys).Remembers cfg (acc ++ accepted cfg e keys) := by
  induction keys generalizing e acc with
  | nil =>
    rw [accepted, Machine.outputs, List.append_nil]
    exact h
  | cons key keys ih =>
    have hnext := ih (h.mark key)
    rw [List.append_assoc] at hnext
    exact hnext

theorem accepted_subset (e : MarketEngine) (keys : List String) :
    ∀ key ∈ accepted cfg e keys, key ∈ keys := by
  induction keys generalizing e with
  | nil =>
    intro key hkey
    cases hkey
  | cons k keys ih =>
    intro key hkey
    rcases List.mem_append.mp hkey with hown | hrest
    · unfold accepts at hown
      split at hown
      · exact List.mem_singleton.mp hown ▸ List.mem_cons_self
      · cases hown
    · exact List.mem_cons_of_mem k (ih _ key hrest)

/-- A key that was accepted is remembered until so many others are. -/
theorem mem_rtake_append (key : String) {m : Nat} {later : List String} (h : later.length < m)
    (acc : List String) : key ∈ (acc ++ [key] ++ later).rtake m := by
  have hsplit : (acc ++ [key] ++ later).rtake m =
      (acc ++ [key]).rtake (m - later.length) ++ later := by
    have hdrop : (acc ++ [key] ++ later).length - m =
        (acc ++ [key]).length - (m - later.length) := by
      simp only [List.length_append]
      omega
    rw [List.rtake, List.rtake, hdrop, List.drop_append_of_le_length (Nat.sub_le _ _)]
  obtain ⟨k, hk⟩ := Nat.exists_eq_add_of_lt (Nat.sub_pos_of_lt h)
  rw [hsplit, hk, Nat.zero_add, List.rtake_concat_succ]
  exact List.mem_append_left _ (List.mem_append_right _ List.mem_cons_self)

theorem Remembers.onMyTrade_seen (h : e.Remembers cfg acc) {t : MyTrade}
    (hkey : makeTradeDedupeKey_ t ∈ acc.rtake cfg.engine.maxSeenTrades) :
    e.onMyTrade cfg t = e := by
  have hmem := (h.mem_seen _).mpr hkey
  by_cases hmkt : t.market = e.market
  · simp [onMyTrade, markTradeOnce, hmkt, makeTradeDedupeKey_ne t, hmem]
  · simp [onMyTrade, hmkt]

end

/-- **The window of the trades.** Whatever keys came: the set has the keys of the queue, the queue
    has none twice and no more than it may, and a key is accepted if and only if it is not among
    the last that were. So a trade that comes again before so many others were accepted is refused
    and leaves the engine as it is, and a new one is accepted. -/
theorem markTradeOnce_window (cfg : AppConfig ℚ) {e : MarketEngine}
    (hseen : e.seenTradeUuids = ∅) (hfifo : e.seenTradeUuidFifo = []) (keys : List String) :
    let s := Machine.run (mark cfg) e keys
    s.seenTradeUuids = s.seenTradeUuidFifo.toFinset ∧ s.seenTradeUuidFifo.Nodup ∧
    s.seenTradeUuidFifo.length ≤ cfg.engine.maxSeenTrades ∧
    (∀ key, key ≠ "" → ((s.markTradeOnce cfg key).1 = true ↔
      key ∉ (accepted cfg e keys).rtake cfg.engine.maxSeenTrades)) ∧
    (∀ key later, (s.markTradeOnce cfg key).1 = true →
      (accepted cfg (s.mark cfg key) later).length < cfg.engine.maxSeenTrades →
      ((Machine.run (mark cfg) (s.mark cfg key) later).markTradeOnce cfg key).1 = false ∧
      ∀ t, makeTradeDedupeKey_ t = key →
        (Machine.run (mark cfg) (s.mark cfg key) later).onMyTrade cfg t =
          Machine.run (mark cfg) (s.mark cfg key) later) ∧
    ∀ key, key ≠ "" → key ∉ keys → (s.markTradeOnce cfg key).1 = true := by
  intro s
  have hs : s.Remembers cfg (accepted cfg e keys) := (remembers_nil hseen hfifo).run keys
  refine ⟨hs.seen, hs.nodup, hs.length_le, ?_, ?_, ?_⟩
  · intro key hne
    rw [hs.accepts_iff]
    exact and_iff_right hne
  · intro key later hmark hfew
    have hlater := (hs.mark key).run later
    rw [accepts, if_pos hmark] at hlater
    have hmem := mem_rtake_append key hfew (accepted cfg e keys)
    refine ⟨?_, fun t ht => hlater.onMyTrade_seen (ht ▸ hmem)⟩
    rw [Bool.eq_false_iff, ne_eq, hlater.accepts_iff]
    exact fun hnew => hnew.2 hmem
  · intro key hne hnew
    rw [hs.accepts_iff]
    refine ⟨hne, fun hmem => ?_⟩
    have haccepted : key ∈ accepted cfg e keys := List.mem_of_mem_drop hmem
    exact hnew (accepted_subset e keys key haccepted)

/-- A trade that comes again behind another one, and a new one. -/
theorem markTradeOnce_window_idle :
    let s := Machine.run (mark (AppConfig.standard ℚ)) idleEngine ["t1", "", "t1"]
    s.seenTradeUuids = s.seenTradeUuidFifo.toFinset ∧
    ((Machine.run (mark (AppConfig.standard ℚ)) (s.mark (AppConfig.standard ℚ) "t2")
      ["t3"]).markTradeOnce (AppConfig.standard ℚ) "t2").1 = false ∧
    (s.markTradeOnce (AppConfig.standard ℚ) "t4").1 = true :=
  let h := markTradeOnce_window (AppConfig.standard ℚ) (e := idleEngine) rfl rfl ["t1", "", "t1"]
  ⟨h.1, (h.2.2.2.2.1 "t2" ["t3"] (by decide +kernel) (by decide +kernel)).1,
    h.2.2.2.2.2 "t4" (by decide) (by decide)⟩

/-! The calls of the engine. -/

section
variable {cfg : AppConfig ℚ} {e e' : MarketEngine}

/-- The two engines remember the same trades. -/
structure SameSeen (e e' : MarketEngine) : Prop where
  market : e'.market = e.market
  seen : e'.seenTradeUuids = e.seenTradeUuids
  fifo : e'.seenTradeUuidFifo = e.seenTradeUuidFifo

theorem SameSeen.refl (e : MarketEngine) : e.SameSeen e := ⟨rfl, rfl, rfl⟩

theorem SameSeen.trans {e'' : MarketEngine} (h : e.SameSeen e') (h' : e'.SameSeen e'') :
    e.SameSeen e'' :=
  ⟨h'.market.trans h.market, h'.seen.trans h.seen, h'.fifo.trans h.fifo⟩

theorem SameSeen.remembers (h : e.SameSeen e') {acc : List String} (hacc : e.Remembers cfg acc) :
    e'.Remembers cfg acc where
  fifo := h.fifo.trans hacc.fifo
  seen := by rw [h.seen, h.fifo, hacc.seen]
  nodup := h.fifo ▸ hacc.nodup

theorem sameSeen_settleBuy (e : MarketEngine) (orderUuid : String) (krw coin price : ℚ) :
    e.SameSeen (e.settleBuy orderUuid krw coin price) := by
  rcases e.settleBuy_cases orderUuid krw coin price with hskip | ⟨token, -, -, heq⟩
  · rw [hskip]
    exact .refl e
  · rw [heq]
    exact ⟨rfl, rfl, rfl⟩

theorem sameSeen_settleTrade (e : MarketEngine) (t : MyTrade) : e.SameSeen (e.settleTrade t) := by
  unfold settleTrade
  cases t.side with
  | bid => exact sameSeen_settleBuy e _ _ _ _
  | ask => exact ⟨rfl, rfl, rfl⟩

theorem sameSeen_closeOrder (cfg : AppConfig ℚ) (e : MarketEngine) (o : Order) :
    e.SameSeen (e.closeOrder cfg o) := by
  obtain ⟨hmkt, -, -, hseen, hfifo⟩ := e.settleClose_frame cfg o
  exact ⟨hmkt, hseen, hfifo⟩

theorem sameSeen_onOrderSnapshot (e : MarketEngine) (s : Order) :
    e.SameSeen (e.onOrderSnapshot cfg s) := by
  by_cases hmkt : e.forMarket s.market
  · cases hget : e.store.get s.id with
    | none =>
      rw [onOrderSnapshot_skip (.inr hget)]
      exact .refl e
    | some old =>
      obtain ⟨hid, heq⟩ := onOrderSnapshot_known cfg hmkt hget
      rw [heq]
      split
      · split
        · obtain ⟨hm, hs, hf⟩ := sameSeen_closeOrder cfg
            { e with store := e.store.put (mergeSnapshot old s) hid } (mergeSnapshot old s)
          exact ⟨hm, hs, hf⟩
        · exact ⟨rfl, rfl, rfl⟩
      · exact ⟨rfl, rfl, rfl⟩
  · rw [onOrderSnapshot_skip (.inl hmkt)]
    exact .refl e

theorem sameSeen_reconcileFromSnapshot (e : MarketEngine) (s : Order) :
    e.SameSeen (e.reconcileFromSnapshot cfg s).2 := by
  rcases e.reconcileFromSnapshot_cases cfg s with hskip | ⟨prev, settled, -, -, hdelta, heq⟩
  · rw [hskip]
    exact .refl e
  · rw [heq]
    refine SameSeen.trans ?_ (sameSeen_onOrderSnapshot settled s)
    rcases settleDelta_cases hdelta with rfl | ⟨krw, coin, price, rfl⟩ | ⟨coin, krw, rfl⟩
    · exact .refl settled
    · exact sameSeen_settleBuy e _ _ _ _
    · exact ⟨rfl, rfl, rfl⟩

theorem sameSeen_afterPost (e : MarketEngine) (req : OrderRequest ℚ)
    (reply : Except RestError String) : e.SameSeen (e.afterPost req reply).2 := by
  cases reply with
  | ok uuid => cases hpos : req.position <;> simp only [afterPost, hpos] <;> exact ⟨rfl, rfl, rfl⟩
  | error err =>
    cases hpos : req.position with
    | bid =>
      simp only [afterPost, hpos, releaseBuyToken]
      split <;> exact ⟨rfl, rfl, rfl⟩
    | ask =>
      simp only [afterPost, hpos]
      exact .refl e

theorem sameSeen_submitReply (e : MarketEngine) (req : OrderRequest ℚ)
    (reply : Except RestError String) : e.SameSeen (e.submitReply cfg req reply).2 := by
  unfold submitReply submit
  rcases e.beforePost_cases cfg req with ⟨code, message, heq⟩ | ⟨message, heq⟩ |
    ⟨-, -, -, -, -, token, mgr, -, heq⟩ | ⟨-, -, -, -, -, heq⟩ <;> rw [heq]
  · exact .refl e
  · exact ⟨rfl, rfl, rfl⟩
  · obtain ⟨hm, hs, hf⟩ := sameSeen_afterPost
      { e with accountMgr := mgr, activeBuyToken := some token } req reply
    exact ⟨hm, hs, hf⟩
  · exact sameSeen_afterPost e req reply

theorem market_mark (e : MarketEngine) (key : String) : (e.mark cfg key).market = e.market := by
  unfold MarketEngine.mark markTradeOnce
  split
  · rfl
  · split <;> rfl

theorem market_run_mark (e : MarketEngine) (keys : List String) :
    (Machine.run (MarketEngine.mark cfg) e keys).market = e.market := by
  induction keys generalizing e with
  | nil => rfl
  | cons key keys ih => exact (ih (e.mark cfg key)).trans (market_mark e key)

/-- Whether a key is accepted, and what becomes of it, hangs on the remembered keys alone. -/
theorem SameSeen.mark (h : e.SameSeen e') (key : String) :
    (e.mark cfg key).SameSeen (e'.mark cfg key) := by
  unfold MarketEngine.mark markTradeOnce
  rw [h.seen, h.fifo]
  split
  · exact h
  · split
    · exact h
    · exact ⟨h.market, rfl, rfl⟩

/-- The keys of a call: that of a trade of the market. -/
def tradeKeys (market : String) : EngineCall → List String
  | .message (.trade t) => if t.market = market then [makeTradeDedupeKey_ t] else []
  | _ => []

theorem sameSeen_onMyTrade (e : MarketEngine) (t : MyTrade) (h : t.market = e.market) :
    (e.mark cfg (makeTradeDedupeKey_ t)).SameSeen (e.onMyTrade cfg t) := by
  unfold onMyTrade
  rw [if_neg (not_not.mpr h)]
  cases hmark : e.markTradeOnce cfg (makeTradeDedupeKey_ t) with
  | mk taken marked =>
    have hmarked : e.mark cfg (makeTradeDedupeKey_ t) = marked := congrArg Prod.snd hmark
    rw [hmarked]
    cases taken with
    | false => exact .refl marked
    | true =>
      dsimp only
      cases marked.store.get t.orderUuid with
      | none => exact .refl marked
      | some ord =>
        obtain ⟨hm, hs, hf⟩ :=
          sameSeen_settleTrade { marked with events := marked.events ++ fillEvents t ord } t
        exact ⟨hm, hs, hf⟩

theorem sameSeen_call (cfg : AppConfig ℚ) (e : MarketEngine) (c : EngineCall) :
    (Machine.run (MarketEngine.mark cfg) e (tradeKeys e.market c)).SameSeen (e.call cfg c) := by
  cases c with
  | submit req reply => exact sameSeen_submitReply e req reply
  | setMarkPrice p => exact ⟨rfl, rfl, rfl⟩
  | pollEvents => exact ⟨rfl, rfl, rfl⟩
  | message msg =>
    cases msg with
    | snapshot o => exact sameSeen_onOrderSnapshot e o
    | reconcile o => exact sameSeen_reconcileFromSnapshot e o
    | trade t =>
      show (Machine.run _ e (if t.market = e.market then _ else [])).SameSeen (e.onMyTrade cfg t)
      by_cases hmkt : t.market = e.market
      · rw [if_pos hmkt]
        exact sameSeen_onMyTrade e t hmkt
      · rw [if_neg hmkt, onMyTrade, if_pos hmkt]
        exact .refl e

/-- What an engine remembers are the keys of the trades it was given. -/
theorem sameSeen_run (h : e.SameSeen e') (calls : List EngineCall) :
    (Machine.run (MarketEngine.mark cfg) e (calls.flatMap (tradeKeys e.market))).SameSeen
      (Machine.run (call cfg) e' calls) := by
  induction calls generalizing e e' with
  | nil => exact h
  | cons c calls ih =>
    have hkeys : (Machine.run (MarketEngine.mark cfg) e (tradeKeys e.market c)).SameSeen
        (Machine.run (MarketEngine.mark cfg) e' (tradeKeys e.market c)) :=
      Machine.run_simulates (R := SameSeen) (fun _ _ key hsame => hsame.mark key) h _
    have hcall := sameSeen_call cfg e' c
    rw [h.market] at hcall
    have hnext := ih (hkeys.trans hcall)
    rw [market_run_mark] at hnext
    rw [List.flatMap_cons, Machine.run_append]
    exact hnext

/-- In every state that an engine reaches, it remembers the last keys of the trades of its market,
    and a trade whose key is among them changes nothing. -/
theorem seenTrades_reachable (cfg : AppConfig ℚ) {e : MarketEngine}
    (hseen : e.seenTradeUuids = ∅) (hfifo : e.seenTradeUuidFifo = [])
    (calls : List EngineCall) :
    let s := Machine.run (call cfg) e calls
    let acc := accepted cfg e (calls.flatMap (tradeKeys e.market))
    s.Remembers cfg acc ∧
    ∀ t, makeTradeDedupeKey_ t ∈ acc.rtake cfg.engine.maxSeenTrades → s.onMyTrade cfg t = s := by
  intro s acc
  have hfresh : e.Remembers cfg [] := remembers_nil hseen hfifo
  have hkeys := hfresh.run (calls.flatMap (tradeKeys e.market))
  rw [List.nil_append] at hkeys
  have hs : s.Remembers cfg acc := (sameSeen_run (.refl e) calls).remembers hkeys
  exact ⟨hs, fun t ht => hs.onMyTrade_seen ht⟩

end
end CoinBot.MarketEngine
