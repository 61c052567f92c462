import CoinBot.App.Acceptance
import CoinBot.App.MarketEngineManager

/- The identifiers of the bot's orders.

   `makeIdentifier` joins the name of the strategy, the market, a tag and a uuid by colons.
   Each decision that submits an order uses up the next number of the generator. So an
   identifier gives back its market and its number (`numbered_inj`), and the start of the
   bot knows it for its own in that market and in no other (`startsWith_numbered`). -/
namespace CoinBot

theorem cut_injective {A : Type} {c : A} {a b x y : List A} (ha : c ∉ a) (hb : c ∉ b)
    (h : a ++ c :: x = b ++ c :: y) : a = b ∧ x = y := by
  induction a generalizing b with
  | nil =>
    cases b with
    | nil => exact ⟨rfl, (List.cons.inj h).2⟩
    | cons d b => exact absurd ((List.cons.inj h).1 ▸ List.mem_cons_self) hb
  | cons d a ih =>
    cases b with
    | nil => exact absurd ((List.cons.inj h).1 ▸ List.mem_cons_self) ha
    | cons d' b =>
      obtain ⟨rfl, hrest⟩ := List.cons.inj h
      obtain ⟨rfl, hxy⟩ := ih (fun hc => ha (List.mem_cons_of_mem d hc))
        (fun hc => hb (List.mem_cons_of_mem d hc)) hrest
      exact ⟨rfl, hxy⟩

namespace RsiMeanReversionStrategy

variable {α : Type}

/-- An identifier that a strategy of the market makes of the generator's `n`-th uuid. -/
def Numbered (env : StrategyEnv α) (market : String) (n : Nat) (identifier : String) : Prop :=
  ∃ tag : String, ':' ∉ tag.toList ∧
    identifier = id ++ ":" ++ market ++ ":" ++ tag ++ ":" ++ env.uuid n

theorem numbered_toList {env : StrategyEnv α} {market identifier : String} {n : Nat}
    (h : Numbered env market n identifier) :
    ∃ tag : List Char, ':' ∉ tag ∧ identifier.toList =
      (id.toList ++ [':']) ++ (market.toList ++ ':' :: (tag ++ ':' :: (env.uuid n).toList)) := by
  obtain ⟨tag, htag, rfl⟩ := h
  refine ⟨tag.toList, htag, ?_⟩
  simp [String.toList_append]

theorem Numbered.ne {env : StrategyEnv α} {market identifier : String} {n : Nat}
    (h : Numbered env market n identifier) : identifier ≠ "" := by
  obtain ⟨tag, -, heq⟩ := numbered_toList h
  rintro rfl
  exact absurd heq.symm (by simp)

/-- An identifier has one market and one number. -/
theorem numbered_inj {env : StrategyEnv α} (huuid : Function.Injective env.uuid)
    {market market' identifier : String} {n n' : Nat} (hm : ':' ∉ market.toList)
    (hm' : ':' ∉ market'.toList) (h : Numbered env market n identifier)
    (h' : Numbered env market' n' identifier) : market = market' ∧ n = n' := by
  obtain ⟨tag, htag, heq⟩ := numbered_toList h
  obtain ⟨tag', htag', heq'⟩ := numbered_toList h'
  rw [heq] at heq'
  obtain ⟨hmarket, hrest⟩ := cut_injective hm hm' (List.append_cancel_left heq')
  obtain ⟨-, hseq⟩ := cut_injective htag htag' hrest
  exact ⟨String.toList_inj.mp hmarket, huuid (String.toList_inj.mp hseq)⟩

theorem colon_exitReason (hitStop hitTarget rsiExit : Bool) :
    ':' ∉ (exitReason hitStop hitTarget rsiExit).toList := by
  cases hitStop <;> cases hitTarget <;> cases rsiExit <;> decide +kernel

variable [Field α] [LinearOrder α] {st st' : RsiMeanReversionStrategy α}

/-- A decision's order is of the strategy's market, with the number that the decision uses up. -/
def UsesNext (env : StrategyEnv α) (st : RsiMeanReversionStrategy α) (d : Decision α)
    (st' : RsiMeanReversionStrategy α) : Prop :=
  ∀ req, d.order = some req → req.market = st.market ∧ st.seq < st'.seq ∧
    Numbered env st.market st'.seq req.identifier

omit [Field α] [LinearOrder α] in
theorem usesNext_noAction (env : StrategyEnv α) (st st' : RsiMeanReversionStrategy α) :
    st.UsesNext env .noAction st' := by
  intro req h
  cases h

omit [LinearOrder α] in
theorem usesNext_submitEntry (env : StrategyEnv α) (st : RsiMeanReversionStrategy α)
    (s : Snapshot α) (krwToUse : α) :
    st.UsesNext env (st.submitEntry env s krwToUse).1 (st.submitEntry env s krwToUse).2 := by
  intro req h
  obtain rfl := Option.some.inj h
  exact ⟨rfl, Nat.lt_succ_self _, "entry_rsi_oversold", by decide +kernel, rfl⟩

omit [LinearOrder α] in
theorem usesNext_exitWith (env : StrategyEnv α) (st : RsiMeanReversionStrategy α)
    (s : Snapshot α) (coin : α) (hitStop hitTarget rsiExit : Bool) :
    st.UsesNext env (st.exitWith env s coin (exitReason hitStop hitTarget rsiExit)).1
      (st.exitWith env s coin (exitReason hitStop hitTarget rsiExit)).2 := by
  intro req h
  obtain rfl := Option.some.inj h
  exact ⟨rfl, Nat.lt_succ_self _, exitReason hitStop hitTarget rsiExit,
    colon_exitReason hitStop hitTarget rsiExit, rfl⟩

theorem usesNext_decideOn (env : StrategyEnv α) (st : RsiMeanReversionStrategy α)
    (s : Snapshot α) (account : AccountSnapshot α) :
    st.UsesNext env (st.decideOn env s account).1 (st.decideOn env s account).2 := by
  unfold decideOn
  split
  · rcases st.maybeEnter_cases env s account with hnone | ⟨krwToUse, -, -, -, -, -, -, hsubmit⟩
    · rw [hnone]
      exact usesNext_noAction env st st
    · rw [hsubmit]
      exact usesNext_submitEntry env st s krwToUse
  · rcases st.maybeExit_cases env s account with ⟨seq, hnone⟩ | ⟨_, _, _, -, hsubmit⟩
    · rw [hnone]
      exact usesNext_noAction env st _
    · rw [hsubmit]
      exact usesNext_exitWith env st s _ _ _ _
  · exact usesNext_noAction env st st
  · exact usesNext_noAction env st st

theorem seq_selfHeal_observe (env : StrategyEnv α) (st : RsiMeanReversionStrategy α)
    (c : Candle α) (account : AccountSnapshot α) :
    ((st.observe env c).2.selfHeal env c.closePrice account).market = st.market ∧
      ((st.observe env c).2.selfHeal env c.closePrice account).seq = st.seq := by
  rcases (st.observe env c).2.selfHeal_cases env c.closePrice account with
    heq | ⟨-, -, heq⟩ | ⟨-, -, heq⟩
  · rw [heq]
    exact ⟨rfl, rfl⟩
  · rw [heq]
    exact ⟨rfl, rfl⟩
  · rw [heq]
    exact ⟨rfl, rfl⟩

theorem usesNext_onCandle (env : StrategyEnv α) (st : RsiMeanReversionStrategy α)
    (c : Candle α) (account : AccountSnapshot α) :
    st.UsesNext env (st.onCandle env c account).1 (st.onCandle env c account).2 := by
  rcases st.onCandle_cases env c account with hnone | ⟨-, heq⟩
  · rw [hnone]
    exact usesNext_noAction env st st
  · have hdecided := usesNext_decideOn env
      ((st.observe env c).2.selfHeal env c.closePrice account) (st.observe env c).1 account
    obtain ⟨hmarket, hseq⟩ := st.seq_selfHeal_observe env c account
    unfold UsesNext at hdecided
    rw [hmarket, hseq] at hdecided
    rw [heq]
    exact hdecided

theorem usesNext_onIntrabarCandle (env : StrategyEnv α) (st : RsiMeanReversionStrategy α)
    (close : α) (account : AccountSnapshot α) :
    st.UsesNext env (st.onIntrabarCandle env close account).1
      (st.onIntrabarCandle env close account).2 := by
  rcases st.onIntrabarCandle_cases env close account with hnone | ⟨_, _, -, -, heq⟩
  · rw [hnone]
    exact usesNext_noAction env st st
  · rw [heq]
    exact usesNext_exitWith env st _ _ _ _ _

/-! The number only grows. -/

theorem seq_maybeExit (env : StrategyEnv α) (st : RsiMeanReversionStrategy α) (s : Snapshot α)
    (account : AccountSnapshot α) : st.seq ≤ (st.maybeExit env s account).2.seq := by
  by_cases hcoin : 0 < account.coinAvailable
  · obtain ⟨hitStop, hitTarget, rsiExit, -, -, heq⟩ := st.maybeExit_hits env s hcoin
    rw [heq]
    split
    · exact le_refl st.seq
    · split
      · exact Nat.le_succ st.seq
      · exact Nat.le_succ st.seq
  · rw [maybeExit, if_pos hcoin]

theorem seq_decideOn (env : StrategyEnv α) (st : RsiMeanReversionStrategy α) (s : Snapshot α)
    (account : AccountSnapshot α) : st.seq ≤ (st.decideOn env s account).2.seq := by
  unfold decideOn
  split
  · rcases st.maybeEnter_cases env s account with hnone | ⟨krwToUse, -, -, -, -, -, -, hsubmit⟩
    · rw [hnone]
    · rw [hsubmit]
      exact Nat.le_succ st.seq
  · exact st.seq_maybeExit env s account
  · exact le_refl st.seq
  · exact le_refl st.seq

theorem seq_onOrderUpdate (st : RsiMeanReversionStrategy α) (ev : OrderStatusEvent α)
    (nowMs : Int) : (st.onOrderUpdate ev nowMs).2.seq = st.seq := by
  rcases st.onOrderUpdate_cases ev nowMs with hskip | ⟨cid, next, -, hnext, hcases⟩
  · rw [hskip]
  · rw [hnext]
    show next.seq = st.seq
    rcases hcases with rfl | ⟨-, rfl⟩ | ⟨-, rfl⟩ | ⟨-, rfl⟩
    · rfl
    · unfold confirmEntry
      simp only
      split
      · rfl
      · rfl
    · rfl
    · rfl

theorem seq_step (env : StrategyEnv α) (st : RsiMeanReversionStrategy α) (c : StrategyCall α) :
    st.seq ≤ (st.step env c).seq := by
  cases c with
  | onCandle c account =>
    show _ ≤ (st.onCandle env c account).2.seq
    rcases st.onCandle_cases env c account with hnone | ⟨-, heq⟩
    · rw [hnone]
    · rw [heq, ← (st.seq_selfHeal_observe env c account).2]
      exact seq_decideOn env _ _ account
  | onIntrabarCandle close account =>
    show _ ≤ (st.onIntrabarCandle env close account).2.seq
    rcases st.onIntrabarCandle_cases env close account with hnone | ⟨_, _, -, -, heq⟩
    · rw [hnone]
    · rw [heq]
      exact Nat.le_succ st.seq
  | onFill fill =>
    show _ ≤ (st.onFill fill).seq
    unfold onFill
    split
    · exact le_refl st.seq
    · simp only
      split
      · exact le_refl st.seq
      · exact le_refl st.seq
  | onOrderUpdate ev nowMs => exact (st.seq_onOrderUpdate ev nowMs).ge
  | onSubmitFailed =>
    show _ ≤ st.onSubmitFailed.seq
    unfold onSubmitFailed
    cases st.pendingClientId with
    | none => exact le_refl st.seq
    | some cid =>
      cases st.state with
      | flat | inPosition | pendingEntry | pendingExit => exact le_refl st.seq
  | syncOnStart pos =>
    show _ ≤ (st.syncOnStart pos).seq
    unfold syncOnStart
    simp only
    split
    · exact le_refl st.seq
    · exact le_refl st.seq
  | reset => exact le_refl st.seq

end RsiMeanReversionStrategy

namespace StartupRecovery

theorem startsWith_iff (s beginning : String) :
    startsWith s beginning = true ↔ ∃ rest, s.toList = beginning.toList ++ rest := by
  unfold startsWith
  rw [List.isPrefixOf_iff_prefix]
  exact ⟨fun ⟨rest, h⟩ => ⟨rest, h.symm⟩, fun ⟨rest, h⟩ => ⟨rest, h.symm⟩⟩

theorem beginning_toList (market : String) :
    (RsiMeanReversionStrategy.id ++ ":" ++ market ++ ":").toList =
      (RsiMeanReversionStrategy.id.toList ++ [':']) ++ (market.toList ++ [':']) := by
  simp [String.toList_append]

variable {α : Type} {env : StrategyEnv α} {market market' identifier : String} {n : Nat}

/-- An identifier begins as the start expects it in its own market. -/
theorem startsWith_own (h : RsiMeanReversionStrategy.Numbered env market n identifier) :
    startsWith identifier (MarketEngineManager.recoveryOptions market).botIdentifierPrefix =
      true := by
  obtain ⟨tag, -, heq⟩ := RsiMeanReversionStrategy.numbered_toList h
  simp only [startsWith_iff, MarketEngineManager.recoveryOptions, heq]
  rw [beginning_toList]
  exact ⟨tag ++ ':' :: (env.uuid n).toList, by simp⟩

/-- It does so in no other market. -/
theorem startsWith_numbered (hm : ':' ∉ market.toList) (hm' : ':' ∉ market'.toList)
    (h : RsiMeanReversionStrategy.Numbered env market n identifier) :
    startsWith identifier (MarketEngineManager.recoveryOptions market').botIdentifierPrefix =
      true ↔ market' = market := by
  refine ⟨fun hbegins => ?_, ?_⟩
  · obtain ⟨tag, -, heq⟩ := RsiMeanReversionStrategy.numbered_toList h
    simp only [startsWith_iff, MarketEngineManager.recoveryOptions, heq] at hbegins
    rw [beginning_toList] at hbegins
    obtain ⟨rest, hrest⟩ := hbegins
    rw [List.append_assoc, List.append_assoc] at hrest
    have hcut := List.append_cancel_left (List.append_cancel_left hrest)
    rw [List.append_assoc] at hcut
    exact (String.toList_inj.mp (cut_injective hm hm' hcut).1).symm
  · rintro rfl
    exact startsWith_own h

end StartupRecovery
end CoinBot
