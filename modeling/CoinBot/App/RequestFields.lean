import CoinBot.Api.OpenOrdersMapper
import CoinBot.Api.UpbitExchangeRestClient
import CoinBot.Engine.MarketEngine
import CoinBot.Lib.Machine

/- The request of an order is set once.

   The exchange overloads the price and the volume of a message by the type, the side
   and the state of the order. The mappers leave out what is not of the request, and the
   engine takes a price only for a limit order and never replaces what it has; together
   they keep what `submit` stored (`request_fields_kept`). -/
namespace CoinBot.MarketEngine

open MyOrderMapper OpenOrdersMapper
open UpbitExchangeRestClient (toUpbitOrdType)

/-- A snapshot that a mapper makes of a message about the order, one that carries the side and the
    type submitted. -/
inductive Reported (strtod : String → Option ℚ) (cfg : AppConfig ℚ) (req : OrderRequest ℚ)
    (uuid : String) : Order → Prop where
  | myOrder (d : UpbitMyOrderDto) {o : Order} (huuid : d.uuid = uuid)
      (hside : toSide d.askBid = req.position) (htype : d.orderType = toUpbitOrdType req)
      (ho : .order o ∈ toEvents cfg d) : Reported strtod cfg req uuid o
  | order (dto : OrderResponseDto) (huuid : dto.uuid = uuid)
      (hside : toDomainPosition dto.side = req.position) (htype : dto.ordType = toUpbitOrdType req) :
      Reported strtod cfg req uuid (dto.toDomain strtod)
  | openOrder (dto : WaitOrderResponseDto) (huuid : dto.uuid = uuid)
      (hside : toDomainPosition dto.side = req.position) (htype : dto.ordType = toUpbitOrdType req) :
      Reported strtod cfg req uuid (dto.toDomain strtod)

/-- What the message says of the order with this uuid, a mapper made of the exchange's words. -/
def Mapped (strtod : String → Option ℚ) (cfg : AppConfig ℚ) (req : OrderRequest ℚ)
    (uuid : String) : Message → Prop
  | .trade _ => True
  | .snapshot s => s.id = uuid → Reported strtod cfg req uuid s
  | .reconcile s => s.id = uuid → Reported strtod cfg req uuid s

/-- The order has the request of its submission. -/
structure KeepsRequest (req : OrderRequest ℚ) (uuid : String) (o : Order) : Prop where
  price : o.price = (pendingOrder req uuid).price
  volume : o.volume = (pendingOrder req uuid).volume
  requestedAmount : o.requestedAmount = (pendingOrder req uuid).requestedAmount
  identifier : req.identifier ≠ "" → o.identifier = some req.identifier

variable {strtod : String → Option ℚ} {cfg : AppConfig ℚ} {e : MarketEngine}
  {req : OrderRequest ℚ} {uuid : String}

/-! The request. -/

theorem valid_of_accepted (hok : (e.submitReply cfg req (.ok uuid)).1.success = true) :
    validateRequest req = none := by
  unfold submitReply submit at hok
  rcases e.beforePost_cases cfg req with ⟨code, message, hfail⟩ | ⟨message, hfail⟩ | ⟨hval, -⟩ |
    ⟨hval, -⟩
  · rw [hfail] at hok
    exact absurd hok (by simp [EngineResult.fail])
  · rw [hfail] at hok
    exact absurd hok (by simp [EngineResult.fail])
  · exact hval
  · exact hval

theorem limit_of_valid (h : validateRequest req = none) (htype : req.type = .limit) :
    (∃ price, req.price = some price) ∧ ∃ volume, req.size = .volume volume := by
  have hmarket : req.market ≠ "" := by
    intro hempty
    simp [validateRequest, hempty] at h
  unfold validateRequest at h
  rw [if_neg hmarket, htype] at h
  cases hprice : req.price with
  | none =>
    rw [hprice] at h
    cases h
  | some price =>
    cases hsize : req.size with
    | amount value =>
      rw [hprice, hsize] at h
      cases h
    | volume value => exact ⟨⟨price, rfl⟩, value, rfl⟩

theorem market_of_valid (h : validateRequest req = none) (htype : req.type = .market) :
    req.price = none ∧ (req.position = .bid → ∃ amount, req.size = .amount amount) ∧
      (req.position = .ask → ∃ volume, req.size = .volume volume) := by
  have hmarket : req.market ≠ "" := by
    intro hempty
    simp [validateRequest, hempty] at h
  unfold validateRequest at h
  rw [if_neg hmarket, htype] at h
  cases hprice : req.price with
  | some price =>
    rw [hprice] at h
    cases h
  | none =>
    refine ⟨rfl, fun hside => ?_, fun hside => ?_⟩
    · cases hsize : req.size with
      | amount value => exact ⟨value, rfl⟩
      | volume value =>
        rw [hprice, hside, hsize] at h
        cases h
    · cases hsize : req.size with
      | volume value => exact ⟨value, rfl⟩
      | amount value =>
        rw [hprice, hside, hsize] at h
        cases h

theorem toUpbitOrdType_cases (h : validateRequest req = none) :
    req.type = .limit ∧ toUpbitOrdType req = "limit" ∨
      req.type = .market ∧ req.position = .bid ∧ toUpbitOrdType req = "price" ∨
      req.type = .market ∧ req.position = .ask ∧ toUpbitOrdType req = "market" := by
  cases htype : req.type with
  | limit => exact .inl ⟨rfl, by simp only [toUpbitOrdType, htype]⟩
  | market =>
    obtain ⟨-, hbid, hask⟩ := market_of_valid h htype
    right
    cases hside : req.position with
    | bid =>
      obtain ⟨amount, hsize⟩ := hbid hside
      exact .inl ⟨rfl, rfl, by simp only [toUpbitOrdType, htype, hsize]⟩
    | ask =>
      obtain ⟨volume, hsize⟩ := hask hside
      exact .inr ⟨rfl, rfl, by simp only [toUpbitOrdType, htype, hsize]⟩

/-- Both mappers read the type that was submitted. -/
theorem toOrderType_submitted (h : validateRequest req = none) :
    toOrderType (toUpbitOrdType req) = req.type := by
  rcases toUpbitOrdType_cases h with ⟨htype, hname⟩ | ⟨htype, -, hname⟩ | ⟨htype, -, hname⟩
  · rw [hname, htype]
    decide
  · rw [hname, htype]
    decide
  · rw [hname, htype]
    decide

theorem volume_of_limit_or_ask (h : validateRequest req = none)
    (hor : req.type = .limit ∨ req.position = .ask) : ∃ volume, req.size = .volume volume := by
  cases htype : req.type with
  | limit => exact (limit_of_valid h htype).2
  | market =>
    rcases hor with hlimit | hask
    · rw [htype] at hlimit
      cases hlimit
    · exact (market_of_valid h htype).2.2 hask

theorem volume_of_not_price (h : validateRequest req = none) (hname : toUpbitOrdType req ≠ "price") :
    ∃ volume, req.size = .volume volume := by
  rcases toUpbitOrdType_cases h with ⟨htype, -⟩ | ⟨-, -, hprice⟩ | ⟨-, hask, -⟩
  · exact volume_of_limit_or_ask h (.inl htype)
  · exact absurd hprice hname
  · exact volume_of_limit_or_ask h (.inr hask)

/-! One snapshot. -/

/-- A snapshot is of a limit order only if the request is, and it has a volume only if the request
    has one. -/
theorem Reported.guarded {s : Order} (h : validateRequest req = none)
    (hs : Reported strtod cfg req uuid s) :
    (s.type = .limit → req.type = .limit) ∧
      (s.volume ≠ none → ∃ volume, req.size = .volume volume) := by
  have hread := toOrderType_submitted h
  cases hs with
  | myOrder d huuid hside htype ho =>
    obtain rfl := order_mem_toEvents ho
    have hkind : (toOrder d).type = req.type := by
      rw [← hread, ← htype]
      rfl
    refine ⟨fun hlimit => hkind ▸ hlimit, fun hvolume => ?_⟩
    have hgiven : (toOrder d).type = .limit ∨ (toOrder d).position = .ask := by
      by_contra hnot
      exact hvolume (if_neg (fun hif => hnot hif.2))
    rw [hkind, show (toOrder d).position = req.position from hside] at hgiven
    exact volume_of_limit_or_ask h hgiven
  | order dto huuid hside htype =>
    have hkind : (dto.toDomain strtod).type = req.type := by
      rw [← hread, ← htype]
      rfl
    refine ⟨fun hlimit => hkind ▸ hlimit, fun hvolume => volume_of_not_price h (fun hprice => ?_)⟩
    exact hvolume (if_pos (htype.trans hprice))
  | openOrder dto huuid hside htype =>
    have hkind : (dto.toDomain strtod).type = req.type := by
      rw [← hread, ← htype]
      rfl
    refine ⟨fun hlimit => hkind ▸ hlimit, fun hvolume => volume_of_not_price h (fun hprice => ?_)⟩
    exact hvolume (if_pos (htype.trans hprice))

theorem keepsRequest_pendingOrder (req : OrderRequest ℚ) (uuid : String) :
    KeepsRequest req uuid (pendingOrder req uuid) :=
  ⟨rfl, rfl, rfl, fun hident => if_neg hident⟩

/-- Such a snapshot leaves the request as it is. -/
theorem KeepsRequest.merge {o s : Order} (hreq : validateRequest req = none)
    (h : KeepsRequest req uuid o) (hs : Reported strtod cfg req uuid s) :
    KeepsRequest req uuid (mergeSnapshot o s) := by
  obtain ⟨hlimit, hvolume⟩ := hs.guarded hreq
  refine ⟨?_, ?_, h.requestedAmount, fun hident => ?_⟩
  · -- A snapshot of a limit order finds the price of the request there.
    rw [← h.price]
    refine if_neg (fun htakes => ?_)
    simp only [Bool.and_eq_true, Option.isNone_iff_eq_none, beq_iff_eq] at htakes
    obtain ⟨⟨hnone, -⟩, htype⟩ := htakes
    obtain ⟨⟨price, hprice⟩, -⟩ := limit_of_valid hreq (hlimit htype)
    have hstored : o.price = some price := h.price.trans hprice
    rw [hnone] at hstored
    cases hstored
  · show (o.volume <|> s.volume) = _
    rw [← h.volume]
    cases hold : o.volume with
    | some volume => rfl
    | none =>
      by_contra hnew
      obtain ⟨volume, hsize⟩ := hvolume hnew
      have hstored : o.volume = some volume := by
        rw [h.volume]
        simp only [pendingOrder, hsize]
      rw [hold] at hstored
      cases hstored
  · show (o.identifier <|> s.identifier) = _
    rw [h.identifier hident]
    rfl

/-! All messages. -/

theorem get_onOrderSnapshot_cases (cfg : AppConfig ℚ) (e : MarketEngine) (s : Order) {o : Order}
    (h : (e.onOrderSnapshot cfg s).store.get uuid = some o) :
    e.store.get uuid = some o ∨
      ∃ old, s.id = uuid ∧ e.store.get uuid = some old ∧ o = mergeSnapshot old s := by
  by_cases hm : e.forMarket s.market
  · cases hold : e.store.get s.id with
    | none =>
      rw [onOrderSnapshot_skip (.inr hold)] at h
      exact .inl h
    | some old =>
      rw [get_onOrderSnapshot cfg hm hold] at h
      by_cases hid : uuid = s.id
      · -- Of a stored order the snapshot either ends it or is merged.
        rw [if_pos hid] at h
        split at h
        · cases h
        · exact .inr ⟨old, hid.symm, hid ▸ hold, (Option.some.inj h).symm⟩
      · rw [if_neg hid] at h
        exact .inl h
  · rw [onOrderSnapshot_skip (.inl hm)] at h
    exact .inl h

theorem get_deliver (cfg : AppConfig ℚ) (e : MarketEngine) (msg : Message) {o : Order}
    (h : (e.deliver cfg msg).store.get uuid = some o) :
    e.store.get uuid = some o ∨
      ∃ s old, (msg = .snapshot s ∨ msg = .reconcile s) ∧ s.id = uuid ∧
        e.store.get uuid = some old ∧ o = mergeSnapshot old s := by
  cases msg with
  | trade t =>
    have hstore := (onMyTrade_frame cfg e t).2.1
    rw [deliver, hstore] at h
    exact .inl h
  | snapshot s =>
    rcases get_onOrderSnapshot_cases cfg e s h with hsame | ⟨old, hid, hold, hmerge⟩
    · exact .inl hsame
    · exact .inr ⟨s, old, .inl rfl, hid, hold, hmerge⟩
  | reconcile s =>
    -- The difference is settled before the snapshot, which leaves the store as it is.
    rcases reconcileFromSnapshot_cases cfg e s with hskip | ⟨prev, settled, -, -, hdelta, hcall⟩
    · rw [deliver, hskip] at h
      exact .inl h
    · rw [deliver, hcall] at h
      have hstore := (onlySettles_settleDelta hdelta).store
      rcases get_onOrderSnapshot_cases cfg settled s h with hsame | ⟨old, hid, hold, hmerge⟩
      · exact .inl (hstore ▸ hsame)
      · exact .inr ⟨s, old, .inr rfl, hid, hstore ▸ hold, hmerge⟩

/-- A message of the mappers leaves the request as it is, wherever the order is stored. -/
theorem keepsRequest_deliver (hvalid : validateRequest req = none) (e : MarketEngine)
    (msg : Message) (hkeeps : ∀ o, e.store.get uuid = some o → KeepsRequest req uuid o)
    (hmapped : Mapped strtod cfg req uuid msg) :
    ∀ o, (e.deliver cfg msg).store.get uuid = some o → KeepsRequest req uuid o := by
  intro o hget
  rcases get_deliver cfg e msg hget with hsame | ⟨s, old, hmsg, hid, hold, rfl⟩
  · exact hkeeps o hsame
  · have hs : Reported strtod cfg req uuid s := by
      rcases hmsg with rfl | rfl
      · exact hmapped hid
      · exact hmapped hid
    exact (hkeeps old hold).merge hvalid hs

theorem get_opened {e : MarketEngine} (hne : uuid ≠ "")
    (hok : (e.submitReply cfg req (.ok uuid)).1.success = true) :
    (e.submitReply cfg req (.ok uuid)).2.store.get uuid = some (pendingOrder req uuid) := by
  obtain ⟨-, -, -, token, mgr, heq, -⟩ := submitReply_accepted hok
  rw [heq, get_afterPost _ req hne, if_pos rfl]

/-- **The request of an order is immutable.** Whatever snapshots and reconciliations the mappers
    make of messages that carry the side and the type submitted, in whatever state and with
    whatever numbers, as long as the order is stored it has the price, the volume, the amount and
    the identifier of its submission; a market buy has neither price nor volume. -/
theorem request_fields_kept (strtod : String → Option ℚ) (cfg : AppConfig ℚ) (e : MarketEngine)
    (req : OrderRequest ℚ) {uuid : String} {msgs : List Message} (hne : uuid ≠ "")
    (hok : (e.submitReply cfg req (.ok uuid)).1.success = true)
    (hmsgs : ∀ msg ∈ msgs, Mapped strtod cfg req uuid msg) :
    let opened := (e.submitReply cfg req (.ok uuid)).2
    opened.store.get uuid = some (pendingOrder req uuid) ∧
      ∀ o, (Machine.run (deliver cfg) opened msgs).store.get uuid = some o →
        o.price = (pendingOrder req uuid).price ∧ o.volume = (pendingOrder req uuid).volume ∧
        o.requestedAmount = (pendingOrder req uuid).requestedAmount ∧
        (req.identifier ≠ "" → o.identifier = some req.identifier) ∧
        (req.type = .market → req.position = .bid → o.price = none ∧ o.volume = none) := by
  intro opened
  have hvalid := valid_of_accepted hok
  have hopened : opened.store.get uuid = some (pendingOrder req uuid) := get_opened hne hok
  refine ⟨hopened, fun o hget => ?_⟩
  have hkeeps := (Machine.always_of_guarded
    (P := fun e : MarketEngine => ∀ o, e.store.get uuid = some o → KeepsRequest req uuid o)
    (g := fun _ msg => Mapped strtod cfg req uuid msg) (keepsRequest_deliver hvalid)
    (fun o hget => Option.some.inj (hopened.symm.trans hget) ▸ keepsRequest_pendingOrder req uuid)
    (Machine.guarded_of_forall (fun msg hmsg _ => hmsgs msg hmsg) opened)).last o hget
  refine ⟨hkeeps.price, hkeeps.volume, hkeeps.requestedAmount, hkeeps.identifier,
    fun htype hside => ?_⟩
  obtain ⟨hprice, hbid, -⟩ := market_of_valid hvalid htype
  obtain ⟨amount, hsize⟩ := hbid hside
  refine ⟨hkeeps.price.trans hprice, hkeeps.volume.trans ?_⟩
  simp only [pendingOrder, hsize]

/-- A trade message of the buy of 5000 KRW, with the price and the volume of the trade. -/
def tradeMessage : UpbitMyOrderDto :=
  { code := "KRW-BTC", uuid := "u1", askBid := "BID", orderType := "price", state := "trade"
    price := 1000, volume := 2, executedVolume := 2, executedFunds := 2000 }

/-- The order as `/v1/order` answers after it. -/
def openAnswer : OrderResponseDto :=
  { market := "KRW-BTC", uuid := "u1", side := .bid, ordType := "price", price := some "5000"
    state := .wait, createdAt := "", executedVolume := "2", executedFunds := some "2000" }

theorem request_fields_kept_buy :
    let opened := (idleEngine.submitReply (AppConfig.standard ℚ) buyRequest (.ok "u1")).2
    opened.store.get "u1" = some (pendingOrder buyRequest "u1") ∧
      ∀ o, (Machine.run (deliver (AppConfig.standard ℚ)) opened
          [.snapshot (toOrder tradeMessage),
            .reconcile (openAnswer.toDomain fun _ => none)]).store.get "u1" = some o →
        o.price = (pendingOrder buyRequest "u1").price ∧
        o.volume = (pendingOrder buyRequest "u1").volume ∧
        o.requestedAmount = (pendingOrder buyRequest "u1").requestedAmount ∧
        (buyRequest.identifier ≠ "" → o.identifier = some buyRequest.identifier) ∧
        (buyRequest.type = .market → buyRequest.position = .bid →
          o.price = none ∧ o.volume = none) :=
  request_fields_kept (fun _ => none) (AppConfig.standard ℚ) idleEngine buyRequest (by decide)
    (by decide +kernel) (fun msg hmsg => by
      rcases List.mem_cons.mp hmsg with rfl | hrest
      · intro _
        exact .myOrder tradeMessage rfl (by decide) rfl (by decide +kernel)
      · obtain rfl := List.mem_singleton.mp hrest
        intro _
        exact .order openAnswer rfl rfl rfl)

end CoinBot.MarketEngine
