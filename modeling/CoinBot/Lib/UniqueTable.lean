import Mathlib.Data.List.Nodup
import Mathlib.Data.List.Infix

/- Tables with a unique key: lists of rows that only grow, one row for a key.

   A row whose key is there already is not inserted (`INSERT … ON CONFLICT DO NOTHING`). So
   a key keeps the first row that was inserted under it (`lookup_insertAll`), and the rows
   that are there stay (`rows_insertAll`). -/

/-- A table of rows `R`, unique by `key`. -/
structure UniqueTable (R K : Type) (key : R → K) where
  rows : List R
  unique : (rows.map key).Nodup

namespace UniqueTable
variable {R K : Type} {key : R → K}

def empty : UniqueTable R K key := ⟨[], List.nodup_nil⟩

variable [DecidableEq K]

/-- The row with the key. -/
def lookup (t : UniqueTable R K key) (k : K) : Option R := t.rows.find? (fun r => key r = k)

def insert (t : UniqueTable R K key) (r : R) : UniqueTable R K key :=
  if h : key r ∈ t.rows.map key then t
  else
    { rows := t.rows ++ [r]
      unique := by
        rw [List.map_append, List.map_singleton]
        exact t.unique.append (List.nodup_singleton _)
          (List.disjoint_singleton.mpr h) }

def insertAll (t : UniqueTable R K key) (rs : List R) : UniqueTable R K key := rs.foldl insert t

/-! The rows of a table. -/

theorem lookup_eq_some_iff {t : UniqueTable R K key} {k : K} {r : R} :
    t.lookup k = some r ↔ r ∈ t.rows ∧ key r = k := by
  have hfound : ∀ {r}, t.lookup k = some r → r ∈ t.rows ∧ key r = k := by
    intro r h
    unfold lookup at h
    have hkey := List.find?_some h
    exact ⟨List.mem_of_find?_eq_some h, of_decide_eq_true hkey⟩
  refine ⟨hfound, fun ⟨hmem, hkey⟩ => ?_⟩
  cases hlookup : t.lookup k with
  | none =>
    have hnone := List.find?_eq_none.mp hlookup r hmem
    simp [hkey] at hnone
  | some r' =>
    obtain ⟨hmem', hkey'⟩ := hfound hlookup
    exact congrArg some (List.inj_on_of_nodup_map t.unique hmem' hmem (hkey'.trans hkey.symm))

theorem lookup_isSome_iff (t : UniqueTable R K key) (k : K) :
    (t.lookup k).isSome ↔ k ∈ t.rows.map key := by
  simp [lookup, List.find?_isSome]

/-! Insertions. -/

theorem insertAll_append (t : UniqueTable R K key) (rs rs' : List R) :
    t.insertAll (rs ++ rs') = (t.insertAll rs).insertAll rs' := List.foldl_append

theorem lookup_insert (t : UniqueTable R K key) (r : R) (k : K) :
    (t.insert r).lookup k = (t.lookup k).or (if key r = k then some r else none) := by
  unfold insert
  split
  · next hknown =>
    by_cases hk : key r = k
    · subst hk
      obtain ⟨old, hold⟩ := Option.isSome_iff_exists.mp ((t.lookup_isSome_iff (key r)).mpr hknown)
      rw [hold]
      rfl
    · rw [if_neg hk, Option.or_none]
  · show (t.rows ++ [r]).find? _ = _
    rw [List.find?_append]
    by_cases hk : key r = k
    · simp [lookup, hk]
    · simp [lookup, hk]

/-- A key keeps its row; a new one gets the first row that is inserted under it. -/
theorem lookup_insertAll (t : UniqueTable R K key) (rs : List R) (k : K) :
    (t.insertAll rs).lookup k = (t.lookup k).or (rs.find? (fun r => key r = k)) := by
  induction rs generalizing t with
  | nil => exact (Option.or_none).symm
  | cons r rs ih =>
    show ((t.insert r).insertAll rs).lookup k = _
    rw [ih, lookup_insert, Option.or_assoc]
    congr 1
    by_cases hk : key r = k
    · simp [hk]
    · simp [hk]

theorem rows_insertAll (t : UniqueTable R K key) (rs : List R) :
    t.rows <+: (t.insertAll rs).rows := by
  induction rs generalizing t with
  | nil => exact List.prefix_refl _
  | cons r rs ih =>
    refine List.IsPrefix.trans ?_ (ih (t.insert r))
    unfold insert
    split
    · exact List.prefix_refl _
    · exact List.prefix_append _ _

end UniqueTable
