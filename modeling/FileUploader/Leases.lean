import FileUploader.Service

/-! # Leases: who owns a lock key

`acquire_lock` sets a key with a TTL and `release_lock` deletes the key, whoever
has set it. A lease is what a request may believe to have: it took the lock less
than the TTL ago and has not called `release_lock` since. Over timed runs with
any delays a lease excludes all others, as long as no request deletes the key of
another one's lease.
-/

namespace FileUploader

open Await

variable {env : Env}

/-- The lock that a logged call took. -/
def lockTaken (e : Entry (service env)) : Option (UUID × Nat) := e.call.lockTaken e.resp

/-- The end of request `i`'s lease on `sid`, given its end before entry `e`. -/
def leaseStep (sid : UUID) (i : Nat) (lease : Option Nat) (e : Entry (service env)) : Option Nat :=
  if e.rid = i then
    match lockTaken e with
    | some (sid', ttl) => if sid' = sid then some (e.world.now + ttl * 1000) else lease
    | none => if e.call.lockReleased = some sid then none else lease
  else lease

/-- When the lease of request `i` on `sid` runs out: a TTL after it took the
lock, if it has not called `release_lock` since. -/
def leaseEnd (sid : UUID) (i : Nat) (log : Log env) : Option Nat :=
  log.foldl (leaseStep sid i) none

/-- Request `i` took the lock of `sid` less than its TTL before `now`, and has
not called `release_lock` since. -/
def Leased (log : Log env) (now : Nat) (sid : UUID) (i : Nat) : Prop :=
  ∃ t, leaseEnd sid i log = some t ∧ now < t

instance (log : Log env) (now : Nat) (sid : UUID) (i : Nat) : Decidable (Leased log now sid i) :=
  match h : leaseEnd sid i log with
  | none => isFalse (by simp [Leased, h])
  | some t => decidable_of_iff (now < t) (by simp [Leased, h])

/-- A lock is taken only when no other request has a lease on it. -/
def LockOwnership (log : Log env) : Prop :=
  Chronicle (fun before e => ∀ sid ttl, lockTaken e = some (sid, ttl) →
    ∀ j, j ≠ e.rid → ¬ Leased before e.world.now sid j) log

/-- A request that calls `release_lock` does not delete the key of another
request's lease: when its own lease has run out, nobody else has one. -/
def releasesNoOther (c : Run env) : Label (service env) → Bool
  | .call i _ =>
      match c.pending i with
      | some (.releaseLock sid) =>
          c.log.all fun e => e.rid = i ∨ ¬ Leased c.log c.world.now sid e.rid
      | _ => true
  | _ => true

/-! ## What one call does to the leases -/

@[simp] theorem leaseEnd_nil (sid : UUID) (i : Nat) : leaseEnd sid i ([] : Log env) = none := rfl

theorem leaseEnd_append (sid : UUID) (i : Nat) (log : Log env) (e : Entry (service env)) :
    leaseEnd sid i (log ++ [e]) = leaseStep sid i (leaseEnd sid i log) e := by
  simp [leaseEnd]

/-- A lease that is there after a call was there before, or is the one just
taken; a release by its owner ends it. -/
theorem leaseStep_eq_some {sid : UUID} {j : Nat} {lease : Option Nat} {e : Entry (service env)}
    {t : Nat} (h : leaseStep sid j lease e = some t) :
    (lease = some t ∧ (e.call.lockReleased = some sid → e.rid ≠ j)) ∨
    (∃ ttl, e.rid = j ∧ lockTaken e = some (sid, ttl) ∧ t = e.world.now + ttl * 1000) := by
  unfold leaseStep at h
  split at h
  · rename_i hj
    split at h
    · rename_i sid' ttl htaken
      split at h
      · rename_i hsid
        subst hsid
        exact Or.inr ⟨ttl, hj, htaken, by simpa using h.symm⟩
      · refine Or.inl ⟨h, ?_⟩
        intro hrel
        rw [lockTaken, Call.lockTaken_of_released hrel] at htaken
        cases htaken
    · split at h
      · cases h
      · rename_i hrel
        exact Or.inl ⟨h, fun hrel' => absurd hrel' hrel⟩
  · rename_i hj
    exact Or.inl ⟨h, fun _ => hj⟩

theorem leaseEnd_mem {sid : UUID} {j t : Nat} {log : Log env} (h : leaseEnd sid j log = some t) :
    ∃ e ∈ log, e.rid = j := by
  induction log using List.reverseRecOn with
  | nil => cases h
  | append_singleton log e ih =>
      rw [leaseEnd_append] at h
      rcases leaseStep_eq_some h with ⟨hold, _⟩ | ⟨_, hj, _, _⟩
      · rcases ih hold with ⟨e', he', hj⟩
        exact ⟨e', List.mem_append_left _ he', hj⟩
      · exact ⟨e, by simp, hj⟩

theorem releasesNoOther_spec {c : Run env} {i : Nat} {out : Outcome} {sid : UUID}
    (h : releasesNoOther c (.call i out)) (hp : c.pending i = some (.releaseLock sid)) {j : Nat}
    (hj : j ≠ i) : ¬ Leased c.log c.world.now sid j := by
  intro hl
  rcases hl with ⟨t, ht, hlt⟩
  rcases leaseEnd_mem ht with ⟨e, he, rfl⟩
  simp only [releasesNoOther, hp, List.all_eq_true, decide_eq_true_eq] at h
  rcases h e he with hi | hn
  · exact hj hi
  · exact hn ⟨t, ht, hlt⟩

/-! ## The invariant -/

/-- Every lease that has not run out is backed by the lock key, which lasts at
least as long. -/
def Backed (w : World) (log : Log env) : Prop :=
  ∀ sid j t, leaseEnd sid j log = some t → w.now < t →
    ∃ v d, w.locks sid = some (v, some d) ∧ t ≤ d

/-- A lock key that backs a lease is live, so it cannot be taken. -/
theorem Backed.lock_ne_none {w : World} {log : Log env} (h : Backed w log) {sid : UUID} {j : Nat}
    (hl : Leased log w.now sid j) : w.lock? sid ≠ none := by
  rcases hl with ⟨t, ht, hlt⟩
  rcases h sid j t ht hlt with ⟨v, d, hv, hd⟩
  have hnow : w.now < d := Nat.lt_of_lt_of_le hlt hd
  simp [World.lock?, ExpiringMap.get, hv, hnow]

/-- A call keeps leases backed, if it does not release the lock of another
request's lease. -/
theorem Backed.answer {w : World} {log : Log env} (h : Backed w log) (i : Nat) (cl : Call)
    (out : Outcome)
    (hrel : ∀ sid, cl = .releaseLock sid → ∀ j, j ≠ i → ¬ Leased log w.now sid j) :
    Backed (handle env out cl w).2
      (log ++ [⟨i, cl, (handle env out cl w).1, (handle env out cl w).2⟩]) := by
  intro sid j t ht hlt
  rw [leaseEnd_append] at ht
  rw [handle_now] at hlt
  rcases leaseStep_eq_some ht with ⟨hold, hne⟩ | ⟨ttl, -, htaken, rfl⟩
  · -- an earlier lease: only a release could take its key away
    have hleased : Leased log w.now sid j := ⟨t, hold, hlt⟩
    rcases h sid j t hold hlt with ⟨v, d, hv, hd⟩
    rcases handle_locks env out cl w sid with hsame | ⟨ttl, -, hfree, -⟩ | ⟨hc, -⟩
    · exact ⟨v, d, by rw [hsame, hv], hd⟩
    · exact absurd hfree (h.lock_ne_none hleased)
    · subst hc
      have hij : i ≠ j := hne rfl
      exact absurd hleased (hrel sid rfl j hij.symm)
  · -- the lease just taken: its key has been set with the same deadline
    have hset := (handle_lockTaken env out cl w htaken).2
    exact ⟨"locked", w.now + ttl * 1000, hset, by simp⟩

/-- In a state with all leases backed, taking a lock respects all leases. -/
theorem LockOwnership.answer {w : World} {log : Log env} (hown : LockOwnership log)
    (h : Backed w log) (i : Nat) (cl : Call) (out : Outcome) :
    LockOwnership (log ++ [⟨i, cl, (handle env out cl w).1, (handle env out cl w).2⟩]) := by
  refine Chronicle.append hown ?_
  intro sid ttl htaken j _ hl
  rw [handle_now] at hl
  exact h.lock_ne_none hl (handle_lockTaken env out cl w htaken).1

/-- Over timed runs with any delays and failures: while a request has a lease, no
other request takes the lock, if no release deletes the key of another's lease. -/
theorem lock_ownership {now : Nat} {c : Run env}
    (h : Reach (fun c l => releasesNoOther c l) (Config.start (World.empty now)) c) :
    LockOwnership c.log := by
  have hinv : Backed c.world c.log ∧ LockOwnership c.log := by
    induction h with
    | start => exact ⟨by simp [Backed, Config.start], by simp [LockOwnership, Config.start]⟩
    | step _ hg hs ih =>
        rcases ih with ⟨hback, hown⟩
        rcases step_cases hs with ⟨op, -, rfl⟩ | ⟨d, -, rfl⟩ | ⟨i, op, _, _, _, _, _, -, -, rfl⟩ |
          ⟨i, out, op, cl, k, rfl, hreq, rfl⟩
        · exact ⟨hback, hown⟩
        · -- time passes: a lease that has not run out had not before
          refine ⟨fun sid j t ht hlt => hback sid j t ht ?_, hown⟩
          exact Nat.lt_of_le_of_lt (Nat.le_add_right _ d) hlt
        · exact ⟨hback, hown⟩
        · refine ⟨hback.answer i cl out ?_, hown.answer hback i cl out⟩
          intro sid hc j hj
          exact releasesNoOther_spec hg (by simp [Config.pending, hreq, hc]) hj
  exact hinv.2

/-! ## Concrete runs -/

namespace Demo

/-- A session with one byte to upload, three uploads that have read it, and the
lock taken by the first. -/
def threeUploads : List (Label (service Demo.env)) :=
  .spawn (.initiate sid tenant file 1 (sha256 a)) :: calls 0 2 ++
    List.replicate 3 (.spawn (.uploadChunk sid 0 (sha256 a) a)) ++
    calls 1 2 ++ calls 2 1 ++ calls 3 1

end Demo

/-- The first upload has released the lock before the third one takes it. -/
theorem lock_ownership_demo :
    ∃ c : Run Demo.env, Reach (fun c l => releasesNoOther c l) (Config.start (World.empty 0)) c ∧
      LockOwnership c.log ∧ (c.log.getLast?.bind lockTaken) = some (Demo.sid, 10) := by
  have h : ((Config.start (World.empty 0)).play releasesNoOther
      (Demo.threeUploads ++ Demo.calls 1 3 ++ Demo.calls 3 1)).any
      (fun c => (c.log.getLast?.bind lockTaken) = some (Demo.sid, 10)) = true := by
    decide +kernel
  rcases exists_of_play (fun _ _ hl => hl) _ h with ⟨c, hc, hlast⟩
  exact ⟨c, hc, lock_ownership hc, by simpa using hlast⟩

/-- Request `j` has a lease when entry `k` takes the lock. -/
def overlaps (log : Log env) (k j : Nat) : Bool :=
  log[k]?.any fun e => (lockTaken e).any fun lock =>
    j ≠ e.rid ∧ Leased (log.take k) e.world.now lock.1 j

theorem not_lockOwnership_of_overlaps {log : Log env} {k j : Nat} (h : overlaps log k j = true) :
    ¬ LockOwnership log := by
  intro hown
  simp only [overlaps, Option.any_eq_true, decide_eq_true_eq] at h
  rcases h with ⟨e, he, ⟨sid, ttl⟩, hlock, hj, hl⟩
  exact hown k e he sid ttl hlock j hj hl

/-- Without the condition it fails: the first upload takes 10 s, the second one
takes the expired lock, the first one releases it, and the third one takes it
although the second has had it for no time at all. -/
theorem lock_ownership_fails :
    ∃ c : Run Demo.env, Reach (fun _ _ => True) (Config.start (World.empty 0)) c ∧
      ¬ LockOwnership c.log := by
  have h : ((Config.start (World.empty 0)).play (fun _ _ => true)
      (Demo.threeUploads ++ .move 10000 :: Demo.calls 2 1 ++ Demo.calls 1 3 ++
        Demo.calls 3 1)).any (fun c => overlaps c.log 10 2) = true := by
    decide +kernel
  rcases exists_of_play (fun _ _ _ => trivial) _ h with ⟨c, hc, hover⟩
  exact ⟨c, hc, not_lockOwnership_of_overlaps hover⟩

end FileUploader
