import Mathlib.Data.List.Perm.Subperm

/-! # Key-value stores

A finite store of values under keys, as its list of entries, with the commands of a
shared cache: read, write, write if absent, delete some keys, list the keys that match.
What is known of a store is what `get` answers: each command has one lemma about it.
-/

/-- A store; only the first entry of a key counts. -/
structure KeyValue (K V : Type) where
  entries : List (K × V)

namespace KeyValue

variable {K V V' : Type} [DecidableEq K]

def empty : KeyValue K V := ⟨[]⟩

/-- `GET` -/
def get (s : KeyValue K V) (k : K) : Option V := (s.entries.find? fun e => e.1 = k).map (·.2)

/-- The entries under the keys that satisfy `p`. -/
def restrict (s : KeyValue K V) (p : K → Bool) : KeyValue K V :=
  ⟨s.entries.filter fun e => p e.1⟩

def mapValues (s : KeyValue K V) (f : V → V') : KeyValue K V' :=
  ⟨s.entries.map fun e => (e.1, f e.2)⟩

/-- `DEL` of some keys. -/
def delete (s : KeyValue K V) (keys : List K) : KeyValue K V :=
  ⟨s.entries.filter fun e => e.1 ∉ keys⟩

/-- `SET` -/
def set (s : KeyValue K V) (k : K) (v : V) : KeyValue K V := ⟨(k, v) :: (s.delete [k]).entries⟩

/-- `SET NX`, with whether the key has been set. -/
def setNx (s : KeyValue K V) (k : K) (v : V) : Bool × KeyValue K V :=
  match s.get k with
  | some _ => (false, s)
  | none => (true, s.set k v)

/-- `SCAN` for the keys that match `p`. -/
def scan (s : KeyValue K V) (p : K → Bool) : List K := (s.entries.map (·.1)).filter p

variable (s : KeyValue K V) (k k' : K) (v : V) (keys : List K) (p : K → Bool)

@[simp] theorem get_empty : (empty : KeyValue K V).get k = none := rfl

theorem get_restrict : (s.restrict p).get k = if p k then s.get k else none := by
  rcases s with ⟨entries⟩
  induction entries with
  | nil => simp [restrict, get]
  | cons e entries ih =>
      simp only [restrict, get] at ih ⊢
      by_cases hkeep : p e.1 = true
      · rw [List.filter_cons, if_pos hkeep]
        by_cases heq : e.1 = k
        · subst heq
          simp [hkeep]
        · simp only [List.find?_cons, heq, decide_false]
          exact ih
      · rw [List.filter_cons, if_neg hkeep, ih]
        split
        · -- the entry that is dropped has another key
          rename_i hp
          have hne : ¬ e.1 = k := fun h => hkeep (h ▸ hp)
          simp [hne]
        · rfl

theorem get_mapValues (f : V → V') : (s.mapValues f).get k = (s.get k).map f := by
  simp only [mapValues, get, List.find?_map, Option.map_map]
  rfl

theorem get_delete : (s.delete keys).get k = if k ∈ keys then none else s.get k := by
  have hrestrict : (s.delete keys).get k = _ := s.get_restrict k fun k => k ∉ keys
  rw [hrestrict]
  by_cases hmem : k ∈ keys
  · simp [hmem]
  · simp [hmem]

theorem get_set : (s.set k v).get k' = if k' = k then some v else s.get k' := by
  have hrest := s.get_delete k' [k]
  simp only [get] at hrest
  by_cases heq : k' = k
  · subst heq
    simp [set, get]
  · have hne : ¬ k = k' := fun h => heq h.symm
    simp only [set, get, List.find?_cons, hne, decide_false, hrest, List.mem_singleton, heq,
      if_false]

/-- `SET NX` leaves a key that is there, and sets one that is not. -/
theorem setNx_cases :
    (∃ v', s.get k = some v' ∧ s.setNx k v = (false, s)) ∨
      (s.get k = none ∧ s.setNx k v = (true, s.set k v)) := by
  unfold setNx
  cases h : s.get k with
  | some v' => exact Or.inl ⟨v', rfl, rfl⟩
  | none => exact Or.inr ⟨rfl, rfl⟩

/-- The keys that are there are those of the entries. -/
theorem mem_keys_iff : k ∈ s.entries.map (·.1) ↔ (s.get k).isSome := by
  simp [get, List.find?_isSome]

/-- A scan finds the keys that are there and match. -/
theorem mem_scan : k ∈ s.scan p ↔ (s.get k).isSome ∧ p k := by
  rw [scan, List.mem_filter, mem_keys_iff]

/-- Deleting what a scan has found leaves no key that matches, and every other one. -/
theorem get_delete_scan : (s.delete (s.scan p)).get k = if p k then none else s.get k := by
  rw [get_delete]
  by_cases hp : p k
  · cases hget : s.get k with
    | none => simp [hp]
    | some v => simp [mem_scan, hget, hp]
  · simp [mem_scan, hp]

/-- A store has at least as many entries as keys. -/
theorem length_keys_le {keys : List K} (hnodup : keys.Nodup)
    (hmem : ∀ k ∈ keys, (s.get k).isSome) : keys.length ≤ s.entries.length := by
  have hsub : keys ⊆ s.entries.map (·.1) := fun k hk => (s.mem_keys_iff k).2 (hmem k hk)
  have hle := (List.subperm_of_subset hnodup hsub).length_le
  rw [List.length_map] at hle
  exact hle

/-- Of more keys than there are entries, one is not there. -/
theorem exists_absent {keys : List K} (hnodup : keys.Nodup)
    (hlt : s.entries.length < keys.length) : ∃ k ∈ keys, s.get k = none := by
  by_contra hall
  have hmem : ∀ k ∈ keys, (s.get k).isSome := by
    intro k hk
    cases hget : s.get k with
    | none => exact absurd ⟨k, hk, hget⟩ hall
    | some v => rfl
  exact Nat.not_lt.2 (s.length_keys_le hnodup hmem) hlt

end KeyValue
