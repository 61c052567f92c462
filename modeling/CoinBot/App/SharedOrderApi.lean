import CoinBot.App.StartupTraffic
import CoinBot.Lib.Locked

/- `api/upbit/SharedOrderApi`: one client for the threads of all markets.

   A method takes the mutex, counts itself in and out by `InFlightGuard`, and calls the client
   between. Its steps are those of the source: every access to an atomic is one, the weak
   exchange may fail without a reason, and the client is read in one step and has changed in
   a later one, so two calls at once would lose the effect of one. The threads take their
   steps in any order.

   Correspondence (C++ ↔ Lean):
     `std::lock_guard<std::mutex> lock(mtx_)` ↔ `Locked.step`, `acquire` and `release`
     `client_`, a state of the exchange       ↔ `client`
     the variables of a method, by its place  ↔ `Place`
     the test-only resets of the counters     ↔ left out -/
namespace CoinBot

/-- A call of `IOrderApi`, without its answer. -/
inductive ApiRequest where
  | getMyAccount
  | getOpenOrders (market : String)
  | cancelOrder (orderUuid identifier : Option String)
  | getOrder (orderUuid : String)
  | postOrder (req : OrderRequest ℚ)

variable {σ : Type}

def IOrderApi.perform (api : IOrderApi σ) (request : ApiRequest) (s : σ) : ApiCall × σ :=
  match request with
  | .getMyAccount => (.getMyAccount (api.getMyAccount s).1, (api.getMyAccount s).2)
  | .getOpenOrders market =>
    (.getOpenOrders market (api.getOpenOrders market s).1, (api.getOpenOrders market s).2)
  | .cancelOrder orderUuid identifier =>
    (.cancelOrder orderUuid identifier (api.cancelOrder orderUuid identifier s).1,
      (api.cancelOrder orderUuid identifier s).2)
  | .getOrder orderUuid => (.getOrder orderUuid (api.getOrder orderUuid s).1,
      (api.getOrder orderUuid s).2)
  | .postOrder req => (.postOrder req (api.postOrder req s).1, (api.postOrder req s).2)

theorem perform_recorded (api : IOrderApi σ) (request : ApiRequest) (st : σ × List ApiCall) :
    (api.recorded.perform request st).2 =
      ((api.perform request st.1).2, st.2 ++ [(api.perform request st.1).1]) := by
  cases request <;> rfl

structure SharedOrderApi (σ : Type) where
  client : σ
  inFlight : Int := 0
  maxInFlight : Int := 0

namespace SharedOrderApi

/-- Where a thread is in a method, with the lock taken. -/
inductive Place (σ : Type) where
  | guard
  | counted (cur : Int)
  | comparing (cur prev : Int)
  | calling
  | answered (answer : ApiCall) (client : σ)
  | leaving (answer : ApiCall)
  | left (answer : ApiCall)

/-- The next step of a method. The loop ends when the maximum is not below, or was exchanged. -/
def move (api : IOrderApi σ) (request : ApiRequest) (spurious : Bool) (place : Place σ)
    (s : SharedOrderApi σ) : Place σ × SharedOrderApi σ :=
  match place with
  | .guard => (.counted (s.inFlight + 1), { s with inFlight := s.inFlight + 1 })
  | .counted cur => (.comparing cur s.maxInFlight, s)
  | .comparing cur prev =>
    if prev < cur then
      if spurious ∨ s.maxInFlight ≠ prev then (.comparing cur s.maxInFlight, s)
      else (.calling, { s with maxInFlight := cur })
    else (.calling, s)
  | .calling =>
    (.answered (api.perform request s.client).1 (api.perform request s.client).2, s)
  | .answered answer client => (.leaving answer, { s with client := client })
  | .leaving answer => (.left answer, { s with inFlight := s.inFlight - 1 })
  | .left answer => (.left answer, s)

/-- The methods, for `Locked`. -/
def body (api : IOrderApi σ) :
    Locked.Body (SharedOrderApi σ) ApiRequest (ApiRequest × Place σ) Bool ApiCall where
  enter request := (request, .guard)
  move spurious l s :=
    ((l.1, (move api l.1 spurious l.2 s).1), (move api l.1 spurious l.2 s).2)
  result l :=
    match l.2 with
    | .left answer => some answer
    | _ => none

/-! One call. -/

/-- How a call that began in `s₀` has come to its place. -/
def Reached (api : IOrderApi σ) (request : ApiRequest) (s₀ : SharedOrderApi σ) (place : Place σ)
    (s : SharedOrderApi σ) : Prop :=
  let performed := api.perform request s₀.client
  match place with
  | .guard => s = s₀
  | .counted cur => cur = 1 ∧ s = { s₀ with inFlight := 1 }
  | .comparing cur prev => cur = 1 ∧ prev = s₀.maxInFlight ∧ s = { s₀ with inFlight := 1 }
  | .calling => s = { s₀ with inFlight := 1, maxInFlight := 1 }
  | .answered answer client =>
    (answer, client) = performed ∧ s = { s₀ with inFlight := 1, maxInFlight := 1 }
  | .leaving answer =>
    answer = performed.1 ∧ s = { client := performed.2, inFlight := 1, maxInFlight := 1 }
  | .left answer =>
    answer = performed.1 ∧ s = { client := performed.2, inFlight := 0, maxInFlight := 1 }

variable {api : IOrderApi σ} {s₀ : SharedOrderApi σ}

theorem reached_move (hin : s₀.inFlight = 0) (hmax : s₀.maxInFlight ≤ 1) (request : ApiRequest)
    (spurious : Bool) {place : Place σ} {s : SharedOrderApi σ}
    (h : Reached api request s₀ place s) :
    Reached api request s₀ (move api request spurious place s).1
      (move api request spurious place s).2 := by
  cases place with
  | guard =>
    subst h
    simp [move, Reached, hin]
  | counted cur =>
    obtain ⟨rfl, rfl⟩ := h
    exact ⟨rfl, rfl, rfl⟩
  | comparing cur prev =>
    obtain ⟨rfl, rfl, rfl⟩ := h
    simp only [move]
    split
    · split
      · exact ⟨rfl, rfl, rfl⟩
      · exact rfl
    · next hle =>
      have hone : s₀.maxInFlight = 1 := by omega
      simp [Reached, hone]
  | calling =>
    subst h
    exact ⟨rfl, rfl⟩
  | answered answer client =>
    obtain ⟨heq, rfl⟩ := h
    simp only [move, Reached, ← heq]
    exact ⟨trivial, trivial⟩
  | leaving answer =>
    obtain ⟨rfl, rfl⟩ := h
    exact ⟨rfl, rfl⟩
  | left answer => exact h

theorem runs_reached (hin : s₀.inFlight = 0) (hmax : s₀.maxInFlight ≤ 1) {request : ApiRequest}
    {l : ApiRequest × Place σ} {s : SharedOrderApi σ}
    (h : Locked.Runs (body api) ((body api).enter request) s₀ l s) :
    Reached api request s₀ l.2 s := by
  have hmove : ∀ spurious l s, l.1 = request ∧ Reached api request s₀ l.2 s →
      ((body api).move spurious l s).1.1 = request ∧
        Reached api request s₀ ((body api).move spurious l s).1.2
          ((body api).move spurious l s).2 := by
    rintro spurious ⟨request', place⟩ s ⟨rfl, h⟩
    exact ⟨rfl, reached_move hin hmax request' spurious h⟩
  exact (h.keeps hmove ⟨rfl, rfl⟩).2

/-- Anywhere in a call the client is as before it or as after it, and one call is counted. -/
theorem Reached.bounds (hin : s₀.inFlight = 0) (hmax : s₀.maxInFlight ≤ 1) {request : ApiRequest}
    {place : Place σ} {s : SharedOrderApi σ} (h : Reached api request s₀ place s) :
    (s.client = s₀.client ∨ s.client = (api.perform request s₀.client).2) ∧
      0 ≤ s.inFlight ∧ s.inFlight ≤ 1 ∧ s₀.maxInFlight ≤ s.maxInFlight ∧ s.maxInFlight ≤ 1 := by
  cases place with
  | guard =>
    subst h
    exact ⟨.inl rfl, by omega, by omega, le_refl _, hmax⟩
  | counted cur =>
    obtain ⟨-, rfl⟩ := h
    exact ⟨.inl rfl, by simp, by simp, le_refl _, hmax⟩
  | comparing cur prev =>
    obtain ⟨-, -, rfl⟩ := h
    exact ⟨.inl rfl, by simp, by simp, le_refl _, hmax⟩
  | calling =>
    subst h
    exact ⟨.inl rfl, by simp, by simp, hmax, le_refl _⟩
  | answered answer client =>
    obtain ⟨-, rfl⟩ := h
    exact ⟨.inl rfl, by simp, by simp, hmax, le_refl _⟩
  | leaving answer =>
    obtain ⟨-, rfl⟩ := h
    exact ⟨.inr rfl, by simp, by simp, hmax, le_refl _⟩
  | left answer =>
    obtain ⟨-, rfl⟩ := h
    exact ⟨.inr rfl, by simp, by simp, hmax, le_refl _⟩

/-- A call alone can finish, and it does what the client does. -/
theorem alone_iff (hin : s₀.inFlight = 0) (hmax : s₀.maxInFlight ≤ 1) (request : ApiRequest)
    (answer : ApiCall) (s : SharedOrderApi σ) :
    Locked.Alone (body api) request s₀ answer s ↔
      answer = (api.perform request s₀.client).1 ∧
        s = { client := (api.perform request s₀.client).2, inFlight := 0, maxInFlight := 1 } := by
  constructor
  · rintro ⟨l, hruns, hresult⟩
    have hreached := runs_reached hin hmax hruns
    obtain ⟨request', place⟩ := l
    cases place with
    | left answer' =>
      obtain rfl := Option.some.inj hresult
      exact hreached
    | _ => cases hresult
  · rintro ⟨rfl, rfl⟩
    obtain ⟨client, inFlight, maxInFlight⟩ := s₀
    simp only at hin hmax
    subst hin
    have hcompared : Locked.Runs (body api) ((body api).enter request) ⟨client, 0, maxInFlight⟩
        (request, .comparing 1 maxInFlight) ⟨client, 1, maxInFlight⟩ :=
      .move false (.move false .refl)
    have hcalling : Locked.Runs (body api) ((body api).enter request) ⟨client, 0, maxInFlight⟩
        (request, .calling) ⟨client, 1, 1⟩ := by
      have hnext := hcompared.move false
      by_cases hlow : maxInFlight < 1
      · simpa [body, move, hlow] using hnext
      · obtain rfl : maxInFlight = 1 := by omega
        exact hnext
    refine ⟨_, ((hcalling.move false).move false).move false, rfl⟩

/-! All threads. -/

/-- The calls one after the other on the recorded exchange. -/
def served (api : IOrderApi σ) (s : σ) (requests : List ApiRequest) : σ × List ApiCall :=
  requests.foldl (fun st request => (api.recorded.perform request st).2) (s, [])

theorem served_concat (api : IOrderApi σ) (s : σ) (requests : List ApiRequest)
    (request : ApiRequest) :
    served api s (requests ++ [request]) =
      ((api.perform request (served api s requests).1).2,
        (served api s requests).2 ++ [(api.perform request (served api s requests).1).1]) := by
  unfold served
  rw [List.foldl_append]
  exact perform_recorded api request _

variable {T : Type}

/-- What calls one after the other leave: the client's own calls, and a maximum of one. -/
theorem sequential_served {s : σ} {s' : SharedOrderApi σ}
    {log : List (T × ApiRequest × ApiCall)}
    (h : Locked.Sequential (body api) { client := s } log s') :
    let done := served api s (log.map (·.2.1))
    log.map (·.2.2) = done.2 ∧ s'.client = done.1 ∧ s'.inFlight = 0 ∧
      s'.maxInFlight = if log = [] then 0 else 1 := by
  apply Locked.sequential_keeps _ h
  · simp [served]
  · intro log s₁ t request answer s₂ ⟨hanswers, hclient, hin, hmax⟩ halone
    have hle : s₁.maxInFlight ≤ 1 := by
      rw [hmax]
      split <;> simp
    obtain ⟨rfl, rfl⟩ := (alone_iff hin hle request answer s₂).mp halone
    simp only [List.map_append, List.map_cons, List.map_nil, served_concat, ← hanswers, ← hclient]
    simp

variable [DecidableEq T]

/-- **One call at a time.** Let any number of threads call the shared client, their steps in any
    order. No two of them are ever in a method at once; the answers are those of the same calls
    one after the other, in the order in which the lock was given back; so is the client, but
    for the effect of a call that is not finished; and the counters say so: at most one call is
    in flight, and at most one ever was. -/
theorem calls_serialized (api : IOrderApi σ) (s : σ)
    (labels : List (Locked.Label T ApiRequest Bool)) :
    let st := Machine.run (Locked.step (body api))
      (Locked.start { client := s } : Locked.State T _ ApiRequest _ ApiCall) labels
    let done := served api s (st.log.map (·.2.1))
    (∀ t t', st.Inside t → st.Inside t' → t = t') ∧
      st.log.map (·.2.2) = done.2 ∧
      (st.shared.client = done.1 ∨ ∃ t request place, st.phase t = .inside request place ∧
        st.shared.client = (api.perform request done.1).2) ∧
      ((∀ t, ¬ st.Inside t) → st.shared.client = done.1 ∧ st.shared.inFlight = 0) ∧
      0 ≤ st.shared.inFlight ∧ st.shared.inFlight ≤ 1 ∧ st.shared.maxInFlight ≤ 1 ∧
      (st.log ≠ [] → st.shared.maxInFlight = 1) := by
  intro st done
  obtain ⟨s', hseq, hshared⟩ := Locked.linearizable (body api) { client := s } labels
  change Locked.Sequential (body api) { client := s } st.log s' at hseq
  obtain ⟨hanswers, hclient, hin, hmax⟩ := sequential_served hseq
  have hle : s'.maxInFlight ≤ 1 := by
    rw [hmax]
    split <;> simp
  have hone : st.log ≠ [] → s'.maxInFlight = 1 := by
    intro hne
    rw [hmax, if_neg hne]
  change (st.shared = s' ∨ ∃ t request l, st.phase t = .inside request l ∧
    Locked.Runs (body api) ((body api).enter request) s' l st.shared) at hshared
  refine ⟨fun t t' => Locked.exclusive_run (body api) { client := s } labels, hanswers, ?_⟩
  rcases hshared with hsame | ⟨t, request, l, hphase, hruns⟩
  · rw [hsame]
    exact ⟨.inl hclient, fun _ => ⟨hclient, hin⟩, by omega, by omega, hle, hone⟩
  · obtain ⟨hcall, hlow, hhigh, hgrown, hmax'⟩ := (runs_reached hin hle hruns).bounds hin hle
    rw [hclient] at hcall
    refine ⟨?_, fun hout => absurd ⟨request, l, hphase⟩ (hout t), hlow, hhigh, hmax', ?_⟩
    · rcases hcall with hbefore | hafter
      · exact .inl hbefore
      · exact .inr ⟨t, request, l, hphase, hafter⟩
    · intro hne
      have := hone hne
      omega

end SharedOrderApi
end CoinBot
