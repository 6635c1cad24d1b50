import FileUploader.Store.KeyValue

/-! # Servers of keys

A key-value store with a clock, where a value may have a deadline from which on its key reads
as absent. Keys are listed slot by slot, with a cursor that goes back and forth: between two
commands of one scan, others may change the keys. What is known of a server is what `get`
answers now and later.
-/

/-- The clock, and the values with their deadlines. -/
structure KeyServer (K V : Type) where
  now : Nat
  keys : KeyValue K (V × Option Nat)

namespace KeyServer

variable {K V : Type} [DecidableEq K] {n : Nat}

/-- Nothing stored yet, at time `now`. -/
def empty (now : Nat) : KeyServer K V := ⟨now, .empty⟩

/-- Time passes. -/
def advance (s : KeyServer K V) (d : Nat) : KeyServer K V := { s with now := s.now + d }

/-- `GET` -/
def get (s : KeyServer K V) (k : K) : Option V :=
  (s.keys.get k).bind fun e => if e.2.all (s.now < ·) then some e.1 else none

/-- `SET`, with the time to live in the unit of the clock. -/
def set (s : KeyServer K V) (k : K) (v : V) (life : Option Nat) : KeyServer K V :=
  { s with keys := s.keys.set k (v, life.map (s.now + ·)) }

/-- `SET NX`, with whether the key has been set. -/
def setNx (s : KeyServer K V) (k : K) (v : V) (life : Option Nat) : Bool × KeyServer K V :=
  match s.get k with
  | some _ => (false, s)
  | none => (true, s.set k v life)

/-- `DEL` of some keys. -/
def delete (s : KeyServer K V) (keys : List K) : KeyServer K V :=
  { s with keys := s.keys.delete keys }

/-- `SCAN`: the keys of the slot at the cursor that match, and the cursor to go on from, 0
after the last slot. -/
def scan (slot : K → Fin n) (s : KeyServer K V) (cursor : Nat) (p : K → Bool) : Nat × List K :=
  (if cursor + 1 < n then cursor + 1 else 0,
    s.keys.scan fun k => (s.get k).isSome && p k && decide ((slot k : Nat) = cursor))

variable (s : KeyServer K V) (k k' : K) (v : V) (life : Option Nat) (d d' : Nat)

omit [DecidableEq K] in
@[simp] theorem now_advance : (s.advance d).now = s.now + d := rfl
@[simp] theorem now_set : (s.set k v life).now = s.now := rfl
@[simp] theorem now_delete (keys : List K) : (s.delete keys).now = s.now := rfl
omit [DecidableEq K] in
@[simp] theorem advance_zero : s.advance 0 = s := rfl

omit [DecidableEq K] in
@[simp] theorem advance_advance : (s.advance d).advance d' = s.advance (d + d') := by
  simp [advance, Nat.add_assoc]

@[simp] theorem get_empty (now : Nat) : (empty now : KeyServer K V).get k = none := rfl

/-! ## What is read, now and later -/

/-- What is still there later is there now. -/
theorem get_of_later {s : KeyServer K V} {k : K} {v : V} {d : Nat}
    (h : (s.advance d).get k = some v) : s.get k = some v := by
  rcases Option.bind_eq_some_iff.1 h with ⟨⟨v', deadline⟩, hentry, hlive⟩
  have hentry : s.keys.get k = some (v', deadline) := hentry
  rw [get, hentry]
  cases deadline with
  | none => exact hlive
  | some t =>
      split at hlive
      · rename_i hlt
        have hlt : s.now + d < t := of_decide_eq_true hlt
        have hnow : s.now < t := by omega
        simpa [hnow] using hlive
      · cases hlive

theorem get_none_later {s : KeyServer K V} {k : K} (h : s.get k = none) (d : Nat) :
    (s.advance d).get k = none := by
  cases hlater : (s.advance d).get k with
  | none => rfl
  | some v =>
      rw [get_of_later hlater] at h
      cases h

theorem get_set : ((s.set k v life).advance d).get k' =
    if k' = k then (if life.all (d < ·) then some v else none) else (s.advance d).get k' := by
  simp only [get, set, advance, KeyValue.get_set]
  by_cases heq : k' = k
  · rw [if_pos heq, if_pos heq]
    cases life with
    | none => simp
    | some t => simp
  · rw [if_neg heq, if_neg heq]
    rfl

theorem get_delete (keys : List K) : ((s.delete keys).advance d).get k =
    if k ∈ keys then none else (s.advance d).get k := by
  simp only [get, delete, advance, KeyValue.get_delete]
  by_cases hmem : k ∈ keys
  · rw [if_pos hmem, if_pos hmem]
    rfl
  · rw [if_neg hmem, if_neg hmem]
    rfl

theorem delete_nil : s.delete [] = s := by
  simp [delete, KeyValue.delete]

/-- `SET NX` leaves a key that is there, and sets one that is not. -/
theorem setNx_cases :
    (∃ v', s.get k = some v' ∧ s.setNx k v life = (false, s)) ∨
      (s.get k = none ∧ s.setNx k v life = (true, s.set k v life)) := by
  unfold setNx
  cases h : s.get k with
  | some v' => exact Or.inl ⟨v', rfl, rfl⟩
  | none => exact Or.inr ⟨rfl, rfl⟩

/-! ## Scans -/

section Scan

variable {slot : K → Fin n} {s : KeyServer K V} {p : K → Prop} {q : K → Bool} {cursor : Nat}
  {found : List K}

/-- A key that is read has an entry. -/
theorem isSome_of_get {k : K} (h : (s.get k).isSome) : (s.keys.get k).isSome := by
  rw [get] at h
  cases hentry : s.keys.get k with
  | none => simp [hentry] at h
  | some e => rfl

/-- A command of a scan finds the keys of its slot that are there and match. -/
theorem mem_scan {k : K} : k ∈ (s.scan slot cursor q).2 ↔
    (s.get k).isSome ∧ q k ∧ (slot k : Nat) = cursor := by
  rw [scan, KeyValue.mem_scan]
  simp only [Bool.and_eq_true, decide_eq_true_eq]
  constructor
  · intro h
    exact ⟨h.2.1.1, h.2.1.2, h.2.2⟩
  · intro h
    exact ⟨isSome_of_get h.1, ⟨h.1, h.2.1⟩, h.2.2⟩

/-- A scan has come to `cursor`: of the keys that are there and satisfy `p` it has found all
those in the slots before. -/
def Visited (slot : K → Fin n) (p : K → Prop) (cursor : Nat) (found : List K)
    (s : KeyServer K V) : Prop :=
  ∀ k, p k → (s.get k).isSome → (slot k : Nat) < cursor → k ∈ found

theorem Visited.start (slot : K → Fin n) (p : K → Prop) (s : KeyServer K V) :
    Visited slot p 0 [] s := fun _ _ _ hlt => absurd hlt (Nat.not_lt_zero _)

/-- The next command; after the last one all slots have been visited. -/
theorem Visited.next (h : Visited slot p cursor found s) (hpq : ∀ k, p k → q k) :
    Visited slot p (if (s.scan slot cursor q).1 = 0 then n else (s.scan slot cursor q).1)
      (found ++ (s.scan slot cursor q).2) s := by
  intro k hp hget hlt
  have hle : (slot k : Nat) < cursor + 1 := by
    have hslot := (slot k).isLt
    simp only [scan] at hlt
    by_cases hmore : cursor + 1 < n
    · simpa [hmore] using hlt
    · omega
  rcases Nat.lt_succ_iff_lt_or_eq.1 hle with hbefore | hhere
  · exact List.mem_append_left _ (h k hp hget hbefore)
  · exact List.mem_append_right _ (mem_scan.2 ⟨hget, hpq k hp, hhere⟩)

/-- What a scan has found stays enough as long as no key that satisfies `p` appears. -/
theorem Visited.mono (h : Visited slot p cursor found s) {s' : KeyServer K V}
    (hless : ∀ k, p k → (s'.get k).isSome → (s.get k).isSome) :
    Visited slot p cursor found s' :=
  fun k hp hget hlt => h k hp (hless k hp hget) hlt

/-- A full scan has found every key. -/
theorem Visited.all (h : Visited slot p n found s) {k : K} (hp : p k) (hget : (s.get k).isSome) :
    k ∈ found := h k hp hget (slot k).isLt

end Scan

/-! ## What has been set -/

section Stored

/-- What is stored has been set as `ok` allows: this value, under this key, for so long. -/
def SetBy (ok : K → V → Option Nat → Prop) (s : KeyServer K V) : Prop :=
  ∀ k v deadline, s.keys.get k = some (v, deadline) →
    ∃ life t, ok k v life ∧ t ≤ s.now ∧ deadline = life.map (t + ·)

variable {ok : K → V → Option Nat → Prop} {s : KeyServer K V} {k : K} {v : V} {life : Option Nat}

theorem setBy_empty (now : Nat) : SetBy ok (empty now : KeyServer K V) :=
  fun _ _ _ hentry => by cases hentry

theorem SetBy.advance (h : SetBy ok s) (d : Nat) : SetBy ok (s.advance d) := by
  intro k v deadline hentry
  rcases h k v deadline hentry with ⟨life, t, hok, ht, hdeadline⟩
  exact ⟨life, t, hok, Nat.le_trans ht (Nat.le_add_right _ _), hdeadline⟩

theorem SetBy.set (h : SetBy ok s) (hok : ok k v life) : SetBy ok (s.set k v life) := by
  intro k' v' deadline hentry
  simp only [KeyServer.set, KeyValue.get_set] at hentry
  by_cases hk : k' = k
  · rw [if_pos hk] at hentry
    cases hentry
    exact ⟨life, s.now, hk ▸ hok, Nat.le_refl _, rfl⟩
  · rw [if_neg hk] at hentry
    exact h k' v' deadline hentry

theorem SetBy.setNx (h : SetBy ok s) (hok : ok k v life) : SetBy ok (s.setNx k v life).2 := by
  rcases s.setNx_cases k v life with ⟨_, _, hset⟩ | ⟨_, hset⟩
  · rw [hset]
    exact h
  · rw [hset]
    exact h.set hok

theorem SetBy.delete (h : SetBy ok s) (keys : List K) : SetBy ok (s.delete keys) := by
  intro k v deadline hentry
  simp only [KeyServer.delete, KeyValue.get_delete] at hentry
  split at hentry
  · cases hentry
  · exact h k v deadline hentry

/-- What is still read after a time has been set for longer. -/
theorem SetBy.later (h : SetBy ok s) {d : Nat} (hget : (s.advance d).get k = some v) :
    ∃ life, ok k v life ∧ life.all (d < ·) := by
  rcases Option.bind_eq_some_iff.1 hget with ⟨⟨v', deadline⟩, hentry, hlive⟩
  split at hlive
  · rename_i hall
    cases hlive
    rcases h k v' deadline hentry with ⟨life, t, hok, ht, rfl⟩
    refine ⟨life, hok, ?_⟩
    cases life with
    | none => rfl
    | some n =>
        have hlt : s.now + d < t + n := of_decide_eq_true hall
        exact decide_eq_true (by omega)
  · cases hlive

end Stored

end KeyServer
