import CoinBot.App.MarketContext
import CoinBot.Database.EpochMs
import CoinBot.Lib.JsonAccess
import CoinBot.Lib.UniqueTable

/- `Database::insertOrder`, and what becomes of the table `orders`.

   SQLite is not part of the program. `Sqlite` has the two calls that `insertOrder` makes on
   a connection, either of which can fail, and the table that a reader would find; what
   SQLite documents of them is `Sqlite.Documented`. A context only notes the orders that it
   asked the database to insert, for nobody looks at the results. A `Session` makes these
   inserts, with anything in between that leaves the table alone, such as the inserts of
   candles and signals. The texts that the schema checks (`side`, `order_type`) are of their
   types here. The row numbers, the indexes and the migration of old files are left out.

   Correspondence (C++ ↔ Lean):
     `db_` (null where no file is open)   ↔ `Option`, of a connection
     `sqlite3_prepare_v2(…) == SQLITE_OK` ↔ `Sqlite.prepare`
     `sqlite3_step(…) == SQLITE_DONE`     ↔ `Sqlite.step`, for the values that are bound
     a text that is bound with length -1  ↔ `boundText`, up to the first null
     `sqlite3_bind_null`                  ↔ `none` -/
namespace CoinBot.Database

def boundText (s : String) : String := String.ofList (cString s.toList)

/-- The characters of a `std::string`. -/
def charsOf (s : String) : List Char := (Json.utf8 s).map (fun b => Char.ofNat b.toNat)

structure OrderRow where
  orderUuid : String
  identifier : Option String
  market : String
  side : OrderPosition
  orderType : OrderType
  price : Option Price
  volume : Option Volume
  requestedAmount : Option Amount
  executedVolume : Volume
  executedFunds : Amount
  paidFee : Amount
  status : OrderStatus
  createdAtMs : Int

def OrderRow.of (o : Order) : OrderRow where
  orderUuid := boundText o.id
  identifier := o.identifier.map boundText
  market := boundText o.market
  side := o.position
  orderType := o.type
  price := o.price
  volume := o.volume
  requestedAmount := o.requestedAmount
  executedVolume := o.executedVolume
  executedFunds := o.executedFunds
  paidFee := o.paidFee
  status := o.status
  createdAtMs := normalizeToEpochMs (charsOf o.createdAt)

/-- `order_uuid TEXT NOT NULL UNIQUE`. -/
abbrev OrderTable := UniqueTable OrderRow String OrderRow.orderUuid

/-- What is called of SQLite on a connection `δ`, and the table that a query would show. -/
structure Sqlite (δ : Type) where
  prepare : δ → Bool × δ
  step : OrderRow → δ → Bool × δ
  orders : δ → OrderTable

variable {δ : Type}

/-- A statement that fails changes no row; one that is done inserts its row, unless the uuid has
    one (`ON CONFLICT(order_uuid) DO NOTHING`). -/
structure Sqlite.Documented (sqlite : Sqlite δ) : Prop where
  prepared : ∀ d, sqlite.orders (sqlite.prepare d).2 = sqlite.orders d
  failed : ∀ row d, (sqlite.step row d).1 = false →
    sqlite.orders (sqlite.step row d).2 = sqlite.orders d
  done : ∀ row d, (sqlite.step row d).1 = true →
    sqlite.orders (sqlite.step row d).2 = (sqlite.orders d).insert row

def insertOrder (sqlite : Sqlite δ) (o : Order) : Option δ → Bool × Option δ
  | none => (false, none)
  | some d =>
    match sqlite.prepare d with
    | (false, d) => (false, some d)
    | (true, d) =>
      let (ok, d) := sqlite.step (.of o) d
      (ok, some d)

/-- The inserts that were asked for, with their results, and what else was done in between. -/
inductive Session (sqlite : Sqlite δ) (file : δ) : List (Order × Bool) → Option δ → Prop where
  | opened : Session sqlite file [] (some file)
  | insert {js : List (Order × Bool)} {db : Option δ} (o : Order) : Session sqlite file js db →
    Session sqlite file (js ++ [(o, (insertOrder sqlite o db).1)]) (insertOrder sqlite o db).2
  | other {js : List (Order × Bool)} {d d' : δ} : Session sqlite file js (some d) →
    sqlite.orders d' = sqlite.orders d → Session sqlite file js (some d')

/-- The table has one row of the order: it was in the file, or is that of a closed order. -/
def Recorded (file after : OrderTable) (uuid : String) : Prop :=
  ∃ row ∈ after.rows, row.orderUuid = boundText uuid ∧
    (∀ row' ∈ after.rows, row'.orderUuid = boundText uuid → row' = row) ∧
    (row ∈ file.rows ∨ row.status.isTerminal = true)

/-! What is in the table. -/

variable {sqlite : Sqlite δ} {file : δ} {js : List (Order × Bool)} {db : Option δ}

theorem orders_insertOrder (h : sqlite.Documented) (o : Order) (d : δ) :
    ∃ d', (insertOrder sqlite o (some d)).2 = some d' ∧ sqlite.orders d' =
      if (insertOrder sqlite o (some d)).1 then (sqlite.orders d).insert (.of o)
      else sqlite.orders d := by
  have hprepared := h.prepared d
  rcases hprepare : sqlite.prepare d with ⟨ok, d₁⟩
  rw [hprepare] at hprepared
  cases ok with
  | false =>
    have hinsert : insertOrder sqlite o (some d) = (false, some d₁) := by
      simp only [insertOrder, hprepare]
    rw [hinsert]
    exact ⟨d₁, rfl, hprepared⟩
  | true =>
    have hinsert : insertOrder sqlite o (some d) =
        ((sqlite.step (.of o) d₁).1, some (sqlite.step (.of o) d₁).2) := by
      simp only [insertOrder, hprepare]
    rw [hinsert, ← hprepared]
    refine ⟨_, rfl, ?_⟩
    cases hstep : (sqlite.step (.of o) d₁).1 with
    | false => exact h.failed _ d₁ hstep
    | true => exact h.done _ d₁ hstep

/-- The table has the rows of the inserts that succeeded. -/
theorem Session.orders (h : sqlite.Documented) (hsession : Session sqlite file js db) :
    ∃ d, db = some d ∧ sqlite.orders d =
      (sqlite.orders file).insertAll ((js.filter (·.2)).map (fun j => .of j.1)) := by
  induction hsession with
  | opened => exact ⟨file, rfl, rfl⟩
  | other _ hsame ih =>
    obtain ⟨d, hd, htable⟩ := ih
    obtain rfl := Option.some.inj hd
    exact ⟨_, rfl, hsame.trans htable⟩
  | @insert js db o _ ih =>
    obtain ⟨d, rfl, htable⟩ := ih
    obtain ⟨d', hd', hinsert⟩ := orders_insertOrder h o d
    refine ⟨d', hd', ?_⟩
    rw [hinsert, htable, List.filter_append, List.map_append, UniqueTable.insertAll_append]
    cases (insertOrder sqlite o (some d)).1 with
    | false => rfl
    | true => rfl

/-- An order that was asked for is recorded, or each of its inserts failed. -/
theorem Session.recorded (h : sqlite.Documented) {d : δ} (hsession : Session sqlite file js (some d))
    (hclosed : ∀ j ∈ js, j.1.status.isTerminal = true) (uuid : String) :
    Recorded (sqlite.orders file) (sqlite.orders d) uuid ∨
      ∀ j ∈ js, j.1.id = uuid → j.2 = false := by
  obtain ⟨d', hd', htable⟩ := hsession.orders h
  obtain rfl := Option.some.inj hd'
  by_cases hdone : ∃ j ∈ js, j.1.id = uuid ∧ j.2 = true
  swap
  · exact .inr (fun j hj hid => Bool.eq_false_iff.mpr (fun hok => hdone ⟨j, hj, hid, hok⟩))
  obtain ⟨j, hj, rfl, hok⟩ := hdone
  refine .inl ?_
  have hlookup := UniqueTable.lookup_insertAll (sqlite.orders file)
    ((js.filter (·.2)).map (fun j => .of j.1)) (boundText j.1.id)
  rw [← htable] at hlookup
  -- The first row that was inserted under the uuid is that of a closed order, like all of them.
  obtain ⟨first, hfirst⟩ : ∃ first, ((js.filter (·.2)).map (fun j => OrderRow.of j.1)).find?
      (fun row => row.orderUuid = boundText j.1.id) = some first := by
    refine Option.isSome_iff_exists.mp (List.find?_isSome.mpr ⟨.of j.1, ?_, decide_eq_true rfl⟩)
    exact List.mem_map_of_mem (List.mem_filter.mpr ⟨hj, hok⟩)
  have hterminal : first.status.isTerminal = true := by
    obtain ⟨j', hj', rfl⟩ := List.mem_map.mp (List.mem_of_find?_eq_some hfirst)
    exact hclosed j' (List.mem_filter.mp hj').1
  rw [hfirst] at hlookup
  have honly : ∀ row, (sqlite.orders d).lookup (boundText j.1.id) = some row →
      ∀ row' ∈ (sqlite.orders d).rows, row'.orderUuid = boundText j.1.id → row' = row := by
    intro row hrow row' hmem hkey
    have hrow' := UniqueTable.lookup_eq_some_iff.mpr ⟨hmem, hkey⟩
    exact Option.some.inj (hrow'.symm.trans hrow)
  cases hbefore : (sqlite.orders file).lookup (boundText j.1.id) with
  | some row =>
    rw [hbefore] at hlookup
    obtain ⟨hrow, hkey⟩ := UniqueTable.lookup_eq_some_iff.mp hlookup
    obtain ⟨hthere, -⟩ := UniqueTable.lookup_eq_some_iff.mp hbefore
    exact ⟨row, hrow, hkey, honly row hlookup, .inl hthere⟩
  | none =>
    rw [hbefore] at hlookup
    obtain ⟨hrow, hkey⟩ := UniqueTable.lookup_eq_some_iff.mp hlookup
    exact ⟨first, hrow, hkey, honly first hlookup, .inr hterminal⟩

/-! A table in memory. -/

/-- A database that never fails: its connection is the table. -/
def memory : Sqlite OrderTable where
  prepare t := (true, t)
  step row t := (true, t.insert row)
  orders t := t

theorem documented_memory : memory.Documented where
  prepared _ := rfl
  failed _ _ hfailed := nomatch hfailed
  done _ _ _ := rfl

end CoinBot.Database
