import CoinBot.Core.Domain
import CoinBot.Lib.KeyMap

/- `engine/OrderStore`: the active orders, by uuid.

   The store carries what its operations keep: every order is stored under its own
   uuid, which is not empty. Locks are left out: an operation is one step.

   Correspondence (C++ ↔ Lean):
     `orders_` (std::unordered_map) ↔ `OrderStore.orders`
     `update`, `erase` (bool)       ↔ the store after the call, and the result of `update` -/
namespace CoinBot

structure OrderStore where
  orders : KeyMap String Order
  keyed : ∀ id o, orders.lookup id = some o → o.id = id ∧ id ≠ ""

namespace OrderStore

def empty : OrderStore where
  orders := ∅
  keyed := by intro id o h; simp at h

def get (store : OrderStore) (orderUuid : String) : Option Order := store.orders.lookup orderUuid

/-- The order put under its uuid, whether there is one already or not. -/
def put (store : OrderStore) (order : Order) (h : order.id ≠ "") : OrderStore where
  orders := store.orders.insert order.id order
  keyed := by
    intro id o ho
    by_cases hid : id = order.id
    · subst hid
      rw [AList.lookup_insert] at ho
      obtain rfl := Option.some.inj ho
      exact ⟨rfl, h⟩
    · rw [AList.lookup_insert_ne hid] at ho
      exact store.keyed id o ho

def update (store : OrderStore) (order : Order) : OrderStore × Bool :=
  match h : store.get order.id with
  | none => (store, false)
  | some o => (store.put order (store.keyed order.id o h).2, true)

def erase (store : OrderStore) (orderUuid : String) : OrderStore where
  orders := store.orders.erase orderUuid
  keyed := by
    intro id o ho
    by_cases hid : id = orderUuid
    · subst hid
      simp at ho
    · rw [AList.lookup_erase_ne hid] at ho
      exact store.keyed id o ho

def upsert (store : OrderStore) (order : Order) : OrderStore :=
  if h : order.id = "" then store else store.put order h

/-! What a lookup finds after each operation. -/

@[simp] theorem get_empty (id : String) : empty.get id = none := by
  simp [get, empty]

theorem id_of_get {store : OrderStore} {id : String} {o : Order} (h : store.get id = some o) :
    o.id = id := (store.keyed id o h).1

theorem ne_of_get {store : OrderStore} {id : String} {o : Order} (h : store.get id = some o) :
    id ≠ "" := (store.keyed id o h).2

@[simp] theorem get_put_self (store : OrderStore) (o : Order) (h : o.id ≠ "") :
    (store.put o h).get o.id = some o := by
  simp [get, put]

theorem get_put_ne (store : OrderStore) (o : Order) (h : o.id ≠ "") {id : String}
    (hid : id ≠ o.id) : (store.put o h).get id = store.get id := by
  simp [get, put, AList.lookup_insert_ne hid]

@[simp] theorem get_erase_self (store : OrderStore) (id : String) :
    (store.erase id).get id = none := by
  simp [get, erase]

theorem get_erase_ne (store : OrderStore) {id id' : String} (h : id' ≠ id) :
    (store.erase id).get id' = store.get id' := by
  simp [get, erase, AList.lookup_erase_ne h]

theorem upsert_eq {store : OrderStore} {o : Order} (h : o.id ≠ "") :
    store.upsert o = store.put o h := by
  simp [upsert, h]

theorem update_eq {store : OrderStore} {o o' : Order} (h : store.get o.id = some o') :
    store.update o = (store.put o (store.ne_of_get h), true) := by
  unfold update
  split
  · next hnone => rw [hnone] at h; exact absurd h (by simp)
  · rfl

end OrderStore
end CoinBot
