import FileUploader.Store.KeyValue

/-! # Key-value stores with expiring keys

A finite store in which every value has a deadline, from which on its key reads as absent.
What can be read at one time is a plain store.
-/

/-- The clock, and the values with their deadlines. -/
structure TimedKeyValue (K V : Type) where
  now : Nat
  keys : KeyValue K (V × Nat)

namespace TimedKeyValue

variable {K V : Type} [DecidableEq K]

/-- Nothing stored yet, at time `now`. -/
def empty (now : Nat) : TimedKeyValue K V := ⟨now, .empty⟩

/-- There is a value under the key, and it has not expired. -/
def alive (s : TimedKeyValue K V) (k : K) : Bool := (s.keys.get k).any fun e => s.now < e.2

/-- What can be read now. -/
def live (s : TimedKeyValue K V) : KeyValue K V := (s.keys.restrict s.alive).mapValues Prod.fst

/-- `SET EX`, with the time to live in the unit of the clock. -/
def setEx (s : TimedKeyValue K V) (k : K) (v : V) (life : Nat) : TimedKeyValue K V :=
  { s with keys := s.keys.set k (v, s.now + life) }

/-- `DEL` of some keys. -/
def delete (s : TimedKeyValue K V) (keys : List K) : TimedKeyValue K V :=
  { s with keys := s.keys.delete keys }

/-- Time passes. -/
def advance (s : TimedKeyValue K V) (d : Nat) : TimedKeyValue K V := { s with now := s.now + d }

variable {s : TimedKeyValue K V} {k : K}

/-- A value reads as absent from its deadline on. -/
theorem get_live : s.live.get k =
    (s.keys.get k).bind fun e => if s.now < e.2 then some e.1 else none := by
  rw [live, KeyValue.get_mapValues, KeyValue.get_restrict, alive]
  cases s.keys.get k with
  | none => simp
  | some e =>
      by_cases hlt : s.now < e.2
      · simp [hlt]
      · simp [hlt]

theorem get_live_of_none (h : s.keys.get k = none) : s.live.get k = none := by
  rw [get_live, h]
  rfl

theorem get_live_of_some {v : V} {deadline : Nat} (h : s.keys.get k = some (v, deadline)) :
    s.live.get k = if s.now < deadline then some v else none := by
  rw [get_live, h]
  rfl

theorem get_live_congr {s' : TimedKeyValue K V} (hkeys : s'.keys.get k = s.keys.get k)
    (hnow : s'.now = s.now) : s'.live.get k = s.live.get k := by
  rw [get_live, get_live, hkeys, hnow]

/-- What has expired stays so. -/
theorem live_advance_of_none (h : s.live.get k = none) (d : Nat) :
    (s.advance d).live.get k = none := by
  rw [get_live] at h ⊢
  cases hget : s.keys.get k with
  | none => simp [advance, hget]
  | some e =>
      simp only [hget, Option.bind_some, ite_eq_right_iff, reduceCtorEq, imp_false] at h
      have hlate : ¬ s.now + d < e.2 := by omega
      simp [advance, hget, hlate]

end TimedKeyValue
