import Mathlib.Data.List.AList

/- Finite maps with one value per key, over Mathlib's `AList`: what a
   `std::map` or `std::unordered_map` is used for here. `mapVal` changes every
   value in place and `modify` the value at one key; neither moves, adds or
   drops a key, so a loop over the map that edits its values is a `mapVal` or a
   fold of `modify`. -/

/-- A finite map from `K` to `V`. -/
abbrev KeyMap (K V : Type) := AList (fun _ : K => V)

namespace KeyMap
variable {K V W : Type}

/-- Every value replaced by `f` of its key and itself. -/
def mapVal (f : K → V → W) (s : KeyMap K V) : KeyMap K W :=
  ⟨s.entries.map (Sigma.map id f), s.nodupKeys.map₂ f s.entries⟩

@[simp] theorem keys_mapVal (f : K → V → W) (s : KeyMap K V) : (mapVal f s).keys = s.keys := by
  simp only [mapVal, AList.keys, List.keys, List.map_map]
  rfl

@[simp] theorem mapVal_id (s : KeyMap K V) : mapVal (fun _ v => v) s = s :=
  AList.ext (List.map_id _)

variable [DecidableEq K]

@[simp] theorem lookup_mapVal (f : K → V → W) (s : KeyMap K V) (k : K) :
    (mapVal f s).lookup k = (s.lookup k).map (f k) :=
  List.dlookup_map₂ k

/-- The value at `k` replaced by `f` of it; a map without `k` is unchanged. -/
def modify (k : K) (f : V → V) (s : KeyMap K V) : KeyMap K V :=
  mapVal (fun k' v => if k' = k then f v else v) s

@[simp] theorem keys_modify (k : K) (f : V → V) (s : KeyMap K V) : (modify k f s).keys = s.keys :=
  keys_mapVal _ s

@[simp] theorem lookup_modify_self (k : K) (f : V → V) (s : KeyMap K V) :
    (modify k f s).lookup k = (s.lookup k).map f := by
  simp only [modify, lookup_mapVal, if_true]

theorem lookup_modify_ne {k k' : K} (f : V → V) (s : KeyMap K V) (h : k' ≠ k) :
    (modify k f s).lookup k' = s.lookup k' := by
  simp only [modify, lookup_mapVal, h, if_false]
  cases s.lookup k' <;> rfl

/-- A loop that edits the value at `key x` for each `x`: the value at `k` is edited by the
    `x` with that key, in their order. -/
theorem lookup_foldl_modify {X : Type} (key : X → K) (f : X → V → V) (xs : List X)
    (s : KeyMap K V) (k : K) :
    (xs.foldl (fun s x => modify (key x) (f x) s) s).lookup k =
      (s.lookup k).map (fun v => (xs.filter (key · = k)).foldl (fun v x => f x v) v) := by
  induction xs generalizing s with
  | nil => simp
  | cons x xs ih =>
    rw [List.foldl_cons, ih]
    by_cases hk : key x = k
    · subst hk
      simp [Function.comp_def]
    · rw [lookup_modify_ne (f x) s (Ne.symm hk)]
      simp [hk]

theorem lookup_foldl_insert (mk : K → V) (ks : List K) (s : KeyMap K V) (k : K) :
    (ks.foldl (fun s k => s.insert k (mk k)) s).lookup k =
      if k ∈ ks then some (mk k) else s.lookup k := by
  induction ks generalizing s with
  | nil => simp
  | cons j ks ih =>
    rw [List.foldl_cons, ih]
    by_cases hk : k = j
    · subst hk; simp
    · simp [hk, AList.lookup_insert_ne hk]

theorem mem_entries_iff (s : KeyMap K V) (k : K) (v : V) :
    (⟨k, v⟩ : Sigma fun _ => V) ∈ s.entries ↔ s.lookup k = some v :=
  AList.mem_lookup_iff.symm

theorem map_values {W : Type} (s : KeyMap K V) (f : V → W) (d : W) :
    s.entries.map (fun e => f e.2) = s.keys.map (fun k => ((s.lookup k).map f).getD d) := by
  rw [AList.keys, List.keys, List.map_map]
  refine List.map_congr_left (fun e he => ?_)
  have hlook : s.lookup e.1 = some e.2 := (mem_entries_iff s e.1 e.2).mp he
  rw [Function.comp_apply, hlook]
  rfl

end KeyMap
