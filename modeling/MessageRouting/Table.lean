/-!
# Tables

A finite map as a list of key-value pairs. A new key goes to the end and a
known key keeps its place, so the pairs stand in order of first insertion.

Results:

* `get?_insert`, `get?_erase`: what a lookup finds after a change.
* `nodup_keys_insert`, `nodup_keys_erase`: no change makes a key known twice.
-/

namespace MessageRouting

/-- A finite map, its pairs in order of first insertion. -/
structure Table (κ : Type) (α : Type) where
  entries : List (κ × α) := []
  deriving DecidableEq, Repr

namespace Table

variable {κ α : Type} [DecidableEq κ]

/-- The value of the first pair with key `k`. -/
def find : List (κ × α) → κ → Option α
  | [], _ => none
  | (k', v) :: rest, k => if k' = k then some v else find rest k

/-- The pairs with `v` at `k`, in place if the key is known and at the end if it is new. -/
def place : List (κ × α) → κ → α → List (κ × α)
  | [], k, v => [(k, v)]
  | (k', v') :: rest, k, v => if k' = k then (k, v) :: rest else (k', v') :: place rest k v

/-- The map with no key. -/
def empty : Table κ α := ⟨[]⟩

instance : Inhabited (Table κ α) := ⟨empty⟩

def get? (t : Table κ α) (k : κ) : Option α := find t.entries k

def contains (t : Table κ α) (k : κ) : Bool := (t.get? k).isSome

def insert (t : Table κ α) (k : κ) (v : α) : Table κ α := ⟨place t.entries k v⟩

def erase (t : Table κ α) (k : κ) : Table κ α := ⟨t.entries.filter fun p => p.1 ≠ k⟩

def keys (t : Table κ α) : List κ := t.entries.map (·.1)

def values (t : Table κ α) : List α := t.entries.map (·.2)

def size (t : Table κ α) : Nat := t.entries.length

/-- The map without the keys that fail `p`. -/
def keep (t : Table κ α) (p : κ → Bool) : Table κ α := ⟨t.entries.filter fun e => p e.1⟩

omit [DecidableEq κ] in
theorem size_empty : (empty : Table κ α).size = 0 := rfl

@[simp] theorem get?_empty (k : κ) : (empty : Table κ α).get? k = none := rfl

theorem find_place (l : List (κ × α)) (k k' : κ) (v : α) :
    find (place l k v) k' = if k = k' then some v else find l k' := by
  induction l with
  | nil => simp [place, find]
  | cons p rest ih =>
    obtain ⟨k₀, v₀⟩ := p
    by_cases h : k₀ = k
    · subst h
      simp only [place, if_true, find]
      split <;> rfl
    · simp only [place, h, if_false, find, ih]
      by_cases h' : k₀ = k'
      · subst h'
        simp [Ne.symm h]
      · simp [h']

theorem find_filter (l : List (κ × α)) (p : κ → Bool) (k : κ) :
    find (l.filter fun e => p e.1) k = if p k then find l k else none := by
  induction l with
  | nil => simp [find]
  | cons e rest ih =>
    obtain ⟨k₀, v₀⟩ := e
    by_cases h : p k₀
    · by_cases h' : k₀ = k
      · subst h'
        simp [find, h]
      · simp [find, h, h', ih]
    · by_cases h' : k₀ = k
      · subst h'
        simp [h, ih]
      · simp [find, h, h', ih]

@[simp] theorem get?_insert_self (t : Table κ α) (k : κ) (v : α) :
    (t.insert k v).get? k = some v := by
  simp [get?, insert, find_place]

/-- A lookup after an insertion finds the new value at its key and the old ones elsewhere. -/
theorem get?_insert (t : Table κ α) (k k' : κ) (v : α) :
    (t.insert k v).get? k' = if k = k' then some v else t.get? k' := find_place ..

/-- A lookup after a removal finds nothing at the key and the old values elsewhere. -/
theorem get?_erase (t : Table κ α) (k k' : κ) :
    (t.erase k).get? k' = if k = k' then none else t.get? k' := by
  have h := find_filter t.entries (fun x => decide (x ≠ k)) k'
  simp only [get?, erase] at h ⊢
  rw [h]
  by_cases hk : k = k'
  · simp [hk]
  · simp [hk, Ne.symm hk]

/-- The keys are those that a lookup finds. -/
theorem mem_keys {t : Table κ α} {k : κ} : k ∈ t.keys ↔ ∃ v, t.get? k = some v := by
  obtain ⟨l⟩ := t
  induction l with
  | nil => simp [keys, get?, find]
  | cons e rest ih =>
    obtain ⟨k', v'⟩ := e
    simp only [keys, List.map_cons, List.mem_cons, get?, find] at ih ⊢
    rw [ih]
    by_cases h : k' = k
    · simp [h]
    · simp [h, Ne.symm h]

/-- A table that knows no key twice still does not after an insertion. -/
theorem nodup_keys_insert {t : Table κ α} (h : t.keys.Nodup) (k : κ) (v : α) :
    (t.insert k v).keys.Nodup := by
  obtain ⟨l⟩ := t
  simp only [keys, insert] at h ⊢
  induction l with
  | nil => simp [place]
  | cons e rest ih =>
    obtain ⟨k', v'⟩ := e
    rw [List.map_cons, List.nodup_cons] at h
    simp only [place]
    split
    · subst_vars
      exact List.nodup_cons.2 h
    · rename_i hne
      refine List.nodup_cons.2 ⟨fun hmem => ?_, ih h.2⟩
      obtain ⟨w, hw⟩ := mem_keys (t := ⟨place rest k v⟩).1 hmem
      rw [get?, find_place, if_neg (Ne.symm hne)] at hw
      exact h.1 (mem_keys (t := ⟨rest⟩).2 ⟨w, hw⟩)

theorem nodup_keys_erase {t : Table κ α} (h : t.keys.Nodup) (k : κ) : (t.erase k).keys.Nodup :=
  h.sublist (List.filter_sublist.map _)

/-- If no key is known twice, the pairs are those that lookups find. -/
theorem mem_entries {t : Table κ α} (h : t.keys.Nodup) {k : κ} {v : α} :
    (k, v) ∈ t.entries ↔ t.get? k = some v := by
  obtain ⟨l⟩ := t
  simp only [keys, get?] at h ⊢
  induction l with
  | nil => simp [find]
  | cons e rest ih =>
    obtain ⟨k', v'⟩ := e
    rw [List.map_cons, List.nodup_cons] at h
    rw [List.mem_cons, find]
    by_cases hk : k' = k
    · subst hk
      have hnone : (k', v) ∉ rest := fun hmem => h.1 (List.mem_map.2 ⟨_, hmem, rfl⟩)
      simp [hnone, eq_comm]
    · simp [hk, Ne.symm hk, ih h.2]

theorem get?_keep (t : Table κ α) (p : κ → Bool) (k : κ) :
    (t.keep p).get? k = if p k then t.get? k else none := find_filter ..

end Table

end MessageRouting
