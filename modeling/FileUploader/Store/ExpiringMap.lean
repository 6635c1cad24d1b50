import Mathlib.Logic.Basic
import Mathlib.Order.Lattice

/-! # Maps with expiring entries

A keyed store in which an entry may carry a deadline, from which on the entry
reads as absent. The clock is an argument of the operations that look at
entries: the map itself does not change when time passes.
-/

/-- Entries with an optional deadline. -/
def ExpiringMap (K V T : Type) : Type := K → Option (V × Option T)

namespace ExpiringMap

variable {K V T : Type} [DecidableEq K] [LinearOrder T]

def empty : ExpiringMap K V T := fun _ => none

/-- The value at `k` at time `now`: absent from the deadline on. -/
def get (m : ExpiringMap K V T) (now : T) (k : K) : Option V :=
  match m k with
  | none => none
  | some (v, none) => some v
  | some (v, some deadline) => if now < deadline then some v else none

/-- Store a value; an earlier entry and its deadline are gone. -/
def set (m : ExpiringMap K V T) (k : K) (v : V) (deadline : Option T) : ExpiringMap K V T :=
  fun k' => if k' = k then some (v, deadline) else m k'

def erase (m : ExpiringMap K V T) (k : K) : ExpiringMap K V T :=
  fun k' => if k' = k then none else m k'

/-- Drop every entry whose key satisfies `p`. -/
def eraseAll (m : ExpiringMap K V T) (p : K → Bool) : ExpiringMap K V T :=
  fun k => if p k then none else m k

variable (m : ExpiringMap K V T) (now : T) (k : K) (v : V) (deadline : Option T)

omit [DecidableEq K] in
@[simp] theorem get_empty : (empty : ExpiringMap K V T).get now k = none := rfl

@[simp] theorem get_set_forever : (m.set k v none).get now k = some v := by
  simp [get, set]

theorem get_set_self {deadline : T} (h : now < deadline) :
    (m.set k v (some deadline)).get now k = some v := by
  simp [get, set, h]

theorem get_set_ne {k' : K} (h : k' ≠ k) : (m.set k v deadline).get now k' = m.get now k' := by
  simp [get, set, h]

@[simp] theorem get_erase_self : (m.erase k).get now k = none := by
  simp [get, erase]

theorem get_erase_ne {k' : K} (h : k' ≠ k) : (m.erase k).get now k' = m.get now k' := by
  simp [get, erase, h]

/-- What is read after a value has been stored that has not expired. -/
theorem get_set {deadline : Option T} (h : ∀ d ∈ deadline, now < d) (k' : K) :
    (m.set k v deadline).get now k' = if k' = k then some v else m.get now k' := by
  by_cases heq : k' = k
  · subst heq
    cases deadline with
    | none => simp
    | some d => simp [m.get_set_self now k' v (h d rfl)]
  · rw [if_neg heq, get_set_ne _ _ _ _ _ heq]

/-- What is read after a value has been stored that may have expired. -/
theorem get_set_until (deadline : T) (k' : K) : (m.set k v (some deadline)).get now k' =
    if k' = k then if now < deadline then some v else none else m.get now k' := by
  by_cases heq : k' = k
  · subst heq
    simp [get, set]
  · rw [if_neg heq, get_set_ne _ _ _ _ _ heq]

theorem get_erase (k' : K) : (m.erase k).get now k' = if k' = k then none else m.get now k' := by
  by_cases heq : k' = k
  · subst heq
    simp
  · rw [if_neg heq, get_erase_ne _ _ _ heq]

omit [DecidableEq K] in
theorem get_eraseAll (p : K → Bool) :
    (m.eraseAll p).get now k = if p k then none else m.get now k := by
  unfold get eraseAll
  by_cases h : p k <;> simp [h]

omit [LinearOrder T] in
@[simp] theorem erase_set : (m.set k v deadline).erase k = m.erase k := by
  funext k'
  by_cases h : k' = k <;> simp [erase, set, h]

omit [DecidableEq K] in
/-- What is read is stored. -/
theorem entry_of_get {k : K} {v : V} (h : m.get now k = some v) :
    ∃ deadline, m k = some (v, deadline) := by
  unfold get at h
  split at h
  · cases h
  · rename_i v' hentry
    cases h
    exact ⟨none, hentry⟩
  · rename_i v' deadline hentry
    split at h
    · cases h
      exact ⟨some deadline, hentry⟩
    · cases h

omit [DecidableEq K] in
/-- What is still there later was there before. -/
theorem get_of_get_later {now later : T} (h : now ≤ later) {k : K} {v : V}
    (hv : m.get later k = some v) : m.get now k = some v := by
  unfold get at hv ⊢
  split at hv
  · cases hv
  · exact hv
  · split at hv
    · rename_i hlt
      rw [if_pos (lt_of_le_of_lt h hlt)]
      exact hv
    · cases hv

omit [DecidableEq K] in
theorem get_none_later {now later : T} (h : now ≤ later) {k : K} (hv : m.get now k = none) :
    m.get later k = none := by
  cases hl : m.get later k with
  | none => rfl
  | some v => rw [m.get_of_get_later h hl] at hv; cases hv

end ExpiringMap
