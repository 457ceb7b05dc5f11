/-!
# Tables

Finite maps that keep the order in which their keys first arrived. An insertion changes the value
at its own key only (`get?_insert`), and a new key goes last (`keys_insert`).
-/

namespace TensorGraph

/-- A finite map, held as its entries in the order in which their keys first arrived. -/
structure Table (κ α : Type) where
  entries : List (κ × α) := []
  /-- No key is bound twice. -/
  nodup : (entries.map Prod.fst).Nodup := by simp
deriving DecidableEq, Repr

namespace Table

variable {κ α : Type} [DecidableEq κ]

instance : EmptyCollection (Table κ α) := ⟨{}⟩

instance : Inhabited (Table κ α) := ⟨∅⟩

/-- The entries after binding `k`: in place if it was bound, at the end if it was not. -/
def bindEntry (k : κ) (v : α) : List (κ × α) → List (κ × α)
  | [] => [(k, v)]
  | e :: es => if e.1 = k then (k, v) :: es else e :: bindEntry k v es

theorem map_fst_bindEntry (k : κ) (v : α) (es : List (κ × α)) :
    (bindEntry k v es).map Prod.fst =
      if k ∈ es.map Prod.fst then es.map Prod.fst else es.map Prod.fst ++ [k] := by
  induction es with
  | nil => simp [bindEntry]
  | cons e es ih =>
    by_cases h : e.1 = k
    · simp [bindEntry, h]
    · have h' : k ≠ e.1 := fun e' => h e'.symm
      simp only [bindEntry, h, if_false, List.map_cons, ih, List.mem_cons, h', false_or]
      split <;> simp

/-- The keys, in order of arrival. -/
def keys (t : Table κ α) : List κ := t.entries.map Prod.fst

/-- The value bound to `k`. -/
def get? (t : Table κ α) (k : κ) : Option α := (t.entries.find? (·.1 = k)).map Prod.snd

def contains (t : Table κ α) (k : κ) : Bool := t.entries.any (·.1 = k)

/-- Binds `k` to `v`, keeping the place of `k` if it was bound before. -/
def insert (t : Table κ α) (k : κ) (v : α) : Table κ α where
  entries := bindEntry k v t.entries
  nodup := by
    have h := t.nodup
    rw [map_fst_bindEntry]
    split
    · exact h
    · next hk =>
      rw [List.nodup_append]
      refine ⟨h, by simp, ?_⟩
      simp only [List.mem_singleton]
      rintro a ha b rfl rfl
      exact hk ha

/-- Removes the binding of `k`. -/
def erase (t : Table κ α) (k : κ) : Table κ α where
  entries := t.entries.filter (·.1 ≠ k)
  nodup := t.nodup.sublist (List.filter_sublist.map Prod.fst)

/-- Binds the pairs in turn; of two with one key the later value stays, at the earlier place. -/
def ofList (es : List (κ × α)) : Table κ α := es.foldl (fun t e => t.insert e.1 e.2) ∅

@[simp] theorem get?_empty (k : κ) : (∅ : Table κ α).get? k = none := rfl

@[simp] theorem get?_insert_self (t : Table κ α) (k : κ) (v : α) :
    (t.insert k v).get? k = some v := by
  simp only [get?, insert]
  induction t.entries with
  | nil => simp [bindEntry]
  | cons e es ih =>
    by_cases h : e.1 = k
    · simp [bindEntry, h]
    · simpa [bindEntry, h] using ih

theorem get?_insert_of_ne (t : Table κ α) {k k' : κ} (v : α) (h : k' ≠ k) :
    (t.insert k v).get? k' = t.get? k' := by
  simp only [get?, insert]
  induction t.entries with
  | nil => simp [bindEntry, Ne.symm h]
  | cons e es ih =>
    by_cases he : e.1 = k
    · have : e.1 ≠ k' := he ▸ Ne.symm h
      simp [bindEntry, he, Ne.symm h]
    · by_cases he' : e.1 = k'
      · simp [bindEntry, he', h]
      · simpa [bindEntry, he, he'] using ih

theorem get?_insert (t : Table κ α) (k k' : κ) (v : α) :
    (t.insert k v).get? k' = if k' = k then some v else t.get? k' := by
  split
  · next h => subst h; exact t.get?_insert_self k' v
  · next h => exact t.get?_insert_of_ne v h

theorem keys_insert (t : Table κ α) (k : κ) (v : α) :
    (t.insert k v).keys = if k ∈ t.keys then t.keys else t.keys ++ [k] :=
  map_fst_bindEntry k v t.entries

theorem get?_erase_self (t : Table κ α) (k : κ) : (t.erase k).get? k = none := by
  simp [get?, erase, List.find?_eq_none]

theorem get?_erase_of_ne (t : Table κ α) {k k' : κ} (h : k' ≠ k) :
    (t.erase k).get? k' = t.get? k' := by
  simp only [get?, erase, List.find?_filter]
  congr 2
  funext e
  by_cases he : e.1 = k' <;> simp [he, h]

theorem contains_eq_isSome_get? (t : Table κ α) (k : κ) :
    t.contains k = (t.get? k).isSome := by
  simp only [contains, get?, Option.isSome_map]
  induction t.entries with
  | nil => rfl
  | cons e es ih => by_cases h : e.1 = k <;> simp [h, ih]

end Table

end TensorGraph
