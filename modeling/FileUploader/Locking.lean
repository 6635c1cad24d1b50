import FileUploader.Leases
import FileUploader.SessionDiscipline

/-! # What the lock protects

As long as the lock of a session does not expire, at most one request is inside
the critical section of the session: the lock key is there while somebody is.
-/

namespace FileUploader

open Await

variable {env : Env}

/-- What request `i`, which asked for `op`, knows of its session. -/
def knows (s : Scene (service env)) (i : Nat) (op : Op) : SessionLocal :=
  s.localOf (sessionDiscipline env) SessionLocal.start i op

/-- Request `i` is inside the critical section of session `sid`. -/
def Holds (s : Scene (service env)) (sid : UUID) (i : Nat) : Prop :=
  ∃ op, s.ops[i]? = some op ∧ (knows s i op).Owns sid

/-! ## Local facts -/

namespace SessionLocal

/-- A request is in the critical section with a copy that it may work on, and that
is what it takes for stored until it has saved the session itself. -/
structure Coherent (l : SessionLocal) : Prop where
  read : ∀ v, l.copy = some v → l.op.target? = some v.sessionId
  held : l.held = true → l.closed = false ∧ ∃ v, l.copy = some v ∧ Ready v l.op
  wrote : l.wrote = true → l.op.newId? = none → ∃ v, l.copy = some v
  viewed : l.held = true → l.wrote = false → ∀ v, l.view = some v → l.copy = some v

theorem coherent_start (op : Op) : (start op).Coherent :=
  ⟨by simp [start], by simp [start], by simp [start], by simp [start]⟩

/-- What a request knows of its session stays consistent, as it reads and saves the session
under the lock that it holds. -/
theorem Coherent.next {l : SessionLocal} (h : l.Coherent) {c : Call} {r : Except Exn c.Resp}
    (hallow : l.allows env c) (hexp : (sessionDiscipline env).expects l c r) :
    (l.next c r).Coherent := by
  rcases h with ⟨hread, hheld, hwrote, hviewed⟩
  -- only calls about the session or its lock change what is known
  cases c with
  | sessionGet sid =>
      rcases hallow with ⟨hop, hcopy, _⟩
      -- who has taken the lock has read the session before
      have hnot : ¬ l.held = true := by
        intro hh
        rcases (hheld hh).2 with ⟨v, hv, _⟩
        rw [hcopy] at hv
        cases hv
      rcases r with x | _ | v
      · exact ⟨hread, hheld, hwrote, hviewed⟩
      · refine ⟨by simp [SessionLocal.next], fun hh => absurd hh hnot, ?_,
          fun hh => absurd hh hnot⟩
        intro hw hn
        rcases hwrote hw hn with ⟨v, hv⟩
        rw [hcopy] at hv
        cases hv
      · refine ⟨?_, fun hh => absurd hh hnot, fun _ _ => ⟨v, rfl⟩, fun hh => absurd hh hnot⟩
        intro v' hv'
        simp only [SessionLocal.next, Option.some.injEq] at hv' ⊢
        subst hv'
        rw [hop]
        exact congrArg some hexp.symm
  | acquireLock sid ttl =>
      rcases hallow with ⟨_, _, _, hclosed, hready⟩
      -- the lock is taken: what is read so far is what it protects
      rcases r with x | _ | _
      · exact ⟨hread, hheld, hwrote, hviewed⟩
      · exact ⟨hread, hheld, hwrote, hviewed⟩
      · exact ⟨hread, fun _ => ⟨hclosed, hready⟩, hwrote, fun _ _ _ hv => hv⟩
  | releaseLock sid =>
      rcases r with x | _
      · exact ⟨hread, by simp [SessionLocal.next], hwrote, by simp [SessionLocal.next]⟩
      · exact ⟨hread, by simp [SessionLocal.next], hwrote, by simp [SessionLocal.next]⟩
  | sessionSave s =>
      -- a new session is saved outside the critical section, an existing one inside
      have hnew : l.held = true → l.op.newId? = none := by
        intro hh
        rcases (hheld hh).2 with ⟨v, _, hv⟩
        cases hop : l.op with
        | initiate newId t f size cs => simp [Ready, hop] at hv
        | _ => rfl
      have hsome : l.op.newId? = none → ∃ v, l.copy = some v := by
        intro hn
        rcases hallow with ⟨hcreate, _⟩ | ⟨hown, _⟩
        · cases hop : l.op with
          | initiate newId t f size cs => simp [Op.newId?, hop] at hn
          | _ => simp [Creates, hop] at hcreate
        · rcases (hheld hown.1).2 with ⟨v, hv, _⟩
          exact ⟨v, hv⟩
      rcases r with x | _
      · refine ⟨hread, ?_, hwrote, by simp [SessionLocal.next]⟩
        intro hh
        exact ⟨by simp [SessionLocal.next, hnew hh, (hheld hh).1], (hheld hh).2⟩
      · refine ⟨hread, ?_, fun _ => hsome, by simp [SessionLocal.next]⟩
        intro hh
        exact ⟨by simp [SessionLocal.next, hnew hh, (hheld hh).1], (hheld hh).2⟩
  | sessionDelete sid =>
      rcases r with x | _
      · exact ⟨hread, hheld, hwrote, by simp [SessionLocal.next]⟩
      · exact ⟨hread, hheld, hwrote, by simp [SessionLocal.next]⟩
  | _ => exact ⟨hread, hheld, hwrote, hviewed⟩

/-- A request is inside the critical section after a call if it was before and
did not release, or if it has just taken the lock. -/
theorem next_owns {l : SessionLocal} {c : Call} {r : Except Exn c.Resp} {sid : UUID}
    (hallow : l.allows env c) (h : (l.next c r).Owns sid) :
    (l.Owns sid ∧ c.lockReleased = none) ∨
      c.lockTaken r = some (sid, RedisSessionRepository.lockTtl) := by
  rcases h with ⟨hheld, hop⟩
  rw [next_op] at hop
  cases c with
  | acquireLock sid' ttl =>
      rcases r with x | _ | _
      · exact Or.inl ⟨⟨hheld, hop⟩, rfl⟩
      · exact Or.inl ⟨⟨hheld, hop⟩, rfl⟩
      · rcases hallow with ⟨hop', rfl, _⟩
        rw [hop'] at hop
        cases hop
        exact Or.inr rfl
  | releaseLock sid' =>
      rcases r with x | _ <;> simp [SessionLocal.next] at hheld
  | sessionGet sid' => rcases r with x | _ <;> exact Or.inl ⟨⟨hheld, hop⟩, rfl⟩
  | sessionSave s => rcases r with x | _ <;> exact Or.inl ⟨⟨hheld, hop⟩, rfl⟩
  | sessionDelete sid' => rcases r with x | _ <;> exact Or.inl ⟨⟨hheld, hop⟩, rfl⟩
  | _ => exact Or.inl ⟨⟨hheld, hop⟩, rfl⟩

/-- A request that has left the critical section makes no more calls. -/
theorem not_allows {l : SessionLocal} (hheld : l.held = false) (hclosed : l.closed = true)
    {c : Call} : ¬ l.allows env c := by
  have hown : ∀ sid, ¬ l.Owns sid := by
    intro sid hown
    rw [hown.1] at hheld
    cases hheld
  intro hallow
  cases c <;> simp_all [allows]

theorem not_loops {l : SessionLocal} (hheld : l.held = false) :
    ¬ (sessionDiscipline env).loops l := by
  intro hloops
  rcases hloops with ⟨sid, hown, _⟩
  rw [hown.1] at hheld
  cases hheld

end SessionLocal

/-! ## What is known in every configuration reached -/

theorem knows_op (s : Scene (service env)) (i : Nat) (op : Op) : (knows s i op).op = op := by
  apply replay_fixed (D := sessionDiscipline env) (fun l => l.op)
  exact SessionLocal.next_op

theorem knows_answer_self (s : Scene (service env)) (i : Nat) (cl : Call) (out : Outcome)
    (op : Op) : knows (s.answer i cl out) i op =
      (knows s i op).next cl (handle env out cl s.world).1 := by
  unfold knows
  exact localOf_answer_self _ _ s i cl out op

theorem knows_answer_other (s : Scene (service env)) (i : Nat) (cl : Call) (out : Outcome)
    {j : Nat} (hj : j ≠ i) (op : Op) : knows (s.answer i cl out) j op = knows s j op := by
  unfold knows
  exact localOf_answer_other _ _ s i cl out hj op

/-- A new request knows nothing yet. -/
theorem knows_forall_spawn {P : Nat → Op → SessionLocal → Prop} {s : Scene (service env)}
    (hwf : s.Wf) {op : Op} (hnew : P s.ops.length op (SessionLocal.start op))
    (hold : ∀ i op', s.ops[i]? = some op' → P i op' (knows s i op')) :
    ∀ i op', (s.ops ++ [op])[i]? = some op' →
      P i op' (knows (⟨s.world, s.ops ++ [op], s.log⟩ : Scene (service env)) i op') :=
  Scene.forall_spawn (D := sessionDiscipline env) (P := P) hwf hnew hold

theorem knows_forall_answer {P : Nat → Op → SessionLocal → Prop} {s : Scene (service env)}
    {i : Nat} {op : Op} {cl : Call} {out : Outcome} (hi : s.ops[i]? = some op)
    (hself : P i op ((knows s i op).next cl (handle env out cl s.world).1))
    (hother : ∀ j op', j ≠ i → s.ops[j]? = some op' → P j op' (knows s j op')) :
    ∀ j op', s.ops[j]? = some op' → P j op' (knows (s.answer i cl out) j op') :=
  Scene.forall_answer (D := sessionDiscipline env) (P := P) hi hself hother

/-- Sessions are stored under their own ids, and what requests know is coherent. -/
structure Sound (s : Scene (service env)) : Prop where
  keyed : ∀ sid v, s.world.session? sid = some v → v.sessionId = sid
  coherent : ∀ i op, s.ops[i]? = some op → (knows s i op).Coherent

/-- A session is read back with the id it is asked for. -/
theorem Sound.expects {s : Scene (service env)} (h : Sound s) (l : SessionLocal) (cl : Call)
    (out : Outcome) : (sessionDiscipline env).expects l cl (handle env out cl s.world).1 := by
  cases cl with
  | sessionGet sid =>
      cases out with
      | works =>
          simp only [handle, respond, RedisSessionRepository.get]
          cases hv : s.world.session? sid with
          | none => trivial
          | some v => exact h.keyed sid v hv
      | raises msg => trivial
      | raisesAfter msg => trivial
  | _ => trivial

theorem sound_inductive : Inductive (sessionDiscipline env) SessionLocal.start
    (fun (_ : Run env) _ => True) (fun s => Sound s) where
  spawn := by
    intro c op _ hwf h
    refine ⟨h.keyed, ?_⟩
    exact knows_forall_spawn (P := fun _ _ l => l.Coherent) hwf
      (SessionLocal.coherent_start op) h.coherent
  move := by
    intro c d _ h
    refine ⟨?_, h.coherent⟩
    intro sid v hv
    exact h.keyed sid v (c.world.sessions.get_of_get_later (Nat.le_add_right _ d) hv)
  call := by
    intro c i op cl out _ hop _ h hallow
    have hexp := h.expects (knows c.scene i op) cl out
    refine ⟨hexp, ?_, ?_⟩
    · intro sid v hv
      rcases handle_session? env out cl c.world sid with hsame | ⟨s, _, hid, hs⟩ | ⟨_, hs⟩
      · exact h.keyed sid v (hsame.symm.trans hv)
      · cases hs.symm.trans hv
        exact hid
      · cases hs.symm.trans hv
    · exact knows_forall_answer (P := fun _ _ l => l.Coherent) hop
        ((h.coherent i op hop).next hallow hexp) (fun j op' _ hj => h.coherent j op' hj)

/-- Every configuration reached is sound, and every request in it keeps the
discipline from what it knows on. -/
structure Known (c : Run env) : Prop where
  wf : c.scene.Wf
  sound : Sound c.scene
  obeys : ∀ i op p, c.requests[i]? = some ⟨op, p⟩ →
    Obeys (sessionDiscipline env) p (knows c.scene i op) (sessionPost op)

/-- In every run, requests know what they have been answered and keep the session discipline. -/
theorem reach_known {G : Run env → Label (service env) → Prop} {now : Nat} {c : Run env}
    (h : Reach G (Config.start (World.empty now)) c) : Known c := by
  rcases (h.mono (fun _ _ _ => trivial)).invariant sessionPost
    (fun _ op _ => prog_obeys env op) sound_inductive ⟨by simp [World.session?, World.empty],
      by simp⟩ with ⟨hwf, hsound, hobeys⟩
  exact ⟨hwf, hsound, hobeys⟩

/-- The obligations for an invariant of the runs under `G`, where everything known
of the configuration before the step may be used. -/
structure Keeps (G : Run env → Label (service env) → Prop) (Inv : Scene (service env) → Prop) :
    Prop where
  spawn : ∀ (c : Run env) (op : Op), G c (.spawn op) → Known c → Inv c.scene →
    Inv ⟨c.world, c.ops ++ [op], c.log⟩
  move : ∀ (c : Run env) (d : Nat), G c (.move d) → Inv c.scene →
    Inv ⟨c.world.advance d, c.ops, c.log⟩
  call : ∀ (c : Run env) (i : Nat) (op : Op) (cl : Call) (out : Outcome), G c (.call i out) →
    Known c → c.ops[i]? = some op → c.pending i = some cl → Inv c.scene →
    (knows c.scene i op).allows env cl → Inv (c.scene.answer i cl out)

/-- What every step keeps, while requests keep their discipline, holds in every run. -/
theorem Keeps.reach {G : Run env → Label (service env) → Prop}
    {Inv : Scene (service env) → Prop} (hkeep : Keeps G Inv) {now : Nat}
    (hinit : Inv ⟨World.empty now, [], []⟩) {c : Run env}
    (h : Reach G (Config.start (World.empty now)) c) : Inv c.scene := by
  have hind : Inductive (sessionDiscipline env) SessionLocal.start
      (fun (c : Run env) l => G c l ∧ Known c) Inv := by
    refine ⟨?_, ?_, ?_⟩
    · intro c op hg _ hinv
      exact hkeep.spawn c op hg.1 hg.2 hinv
    · intro c d hg hinv
      exact hkeep.move c d hg.1 hinv
    · intro c i op cl out hg hop hp hinv hallow
      exact ⟨hg.2.sound.expects _ cl out,
        hkeep.call c i op cl out hg.1 hg.2 hop hp hinv hallow⟩
  have hreach := h.with_invariant (K := fun c => Known c) (fun c hc => reach_known hc)
  exact (hreach.invariant sessionPost (fun _ op _ => prog_obeys env op) hind hinit).2.1

/-! ## Mutual exclusion -/

/-- The lock key is there while a request is inside the critical section, and no
two requests are. -/
structure Exclusive (sid : UUID) (s : Scene (service env)) : Prop where
  locked : ∀ i op, s.ops[i]? = some op → (knows s i op).Owns sid → s.world.lock? sid ≠ none
  unique : ∀ i op, s.ops[i]? = some op → ∀ j op', s.ops[j]? = some op' →
    (knows s i op).Owns sid → (knows s j op').Owns sid → i = j

/-- A request that is inside after a call is inside alone, and has the lock key. -/
theorem Exclusive.answer {sid : UUID} {s : Scene (service env)} (h : Exclusive sid s) {i : Nat}
    {op : Op} (hop : s.ops[i]? = some op) {cl : Call} {out : Outcome}
    (hallow : (knows s i op).allows env cl) : Exclusive sid (s.answer i cl out) := by
  -- who is inside after the call was inside before, or has just taken a free lock
  have halone : ((knows s i op).next cl (handle env out cl s.world).1).Owns sid →
      ∀ j op', j ≠ i → s.ops[j]? = some op' → ¬ (knows s j op').Owns sid := by
    intro hown j op' hji hj hown'
    rcases SessionLocal.next_owns hallow hown with ⟨hold, _⟩ | htaken
    · exact hji (h.unique j op' hj i op hop hown' hold)
    · exact h.locked j op' hj hown' (handle_lockTaken env out cl s.world htaken).1
  -- the lock key stays for as long as somebody is inside
  have hkey : ∀ j op', s.ops[j]? = some op' → (knows s j op').Owns sid →
      (j = i → cl.lockReleased = none) → (handle env out cl s.world).2.lock? sid ≠ none := by
    intro j op' hj hown hrel
    have hlocked := h.locked j op' hj hown
    rcases handle_lock? env out cl s.world sid with hsame | ⟨_, _, hfree⟩ | ⟨hc, _⟩
    · rw [hsame]
      exact hlocked
    · exact absurd hfree hlocked
    · -- a release is a call of the one that is inside
      subst hc
      cases hrel (h.unique j op' hj i op hop hown hallow)
  refine ⟨?_, ?_⟩
  · refine knows_forall_answer (P := fun _ _ l => l.Owns sid →
      (handle env out cl s.world).2.lock? sid ≠ none) hop ?_
      (fun j op' hji hj hown => hkey j op' hj hown (fun hij => absurd hij hji))
    intro hown
    rcases SessionLocal.next_owns hallow hown with ⟨hold, hrel⟩ | htaken
    · exact hkey i op hop hold (fun _ => hrel)
    · have hset := (handle_lockTaken env out cl s.world htaken).2
      simp [World.lock?, ExpiringMap.get, hset, World.deadline, RedisSessionRepository.lockTtl]
  · refine knows_forall_answer (P := fun j _ l => ∀ j' op', s.ops[j']? = some op' → l.Owns sid →
      (knows (s.answer i cl out) j' op').Owns sid → j = j') hop ?_ ?_
    -- the caller against the others, then two others
    · intro j' op' hj' hown hown'
      by_cases hij : j' = i
      · exact hij.symm
      · rw [knows_answer_other s i cl out hij] at hown'
        exact absurd hown' (halone hown j' op' hij hj')
    · intro j op' hji hj j' op'' hj' hown hown'
      by_cases hij : j' = i
      · subst hij
        rw [hop] at hj'
        cases hj'
        rw [knows_answer_self] at hown'
        exact absurd hown (halone hown' j op' hji hj)
      · rw [knows_answer_other s i cl out hij] at hown'
        exact h.unique j op' hj j' op'' hj' hown hown'

/-- As long as the lock does not expire, no second request enters the critical section. -/
theorem exclusive_keeps (sid : UUID) :
    Keeps (fun (c : Run env) l => lockLasts sid c l) (Exclusive sid) where
  spawn := by
    intro c op _ hknown h
    have hstart : ¬ (SessionLocal.start op).Owns sid := by
      simp [SessionLocal.Owns, SessionLocal.start]
    refine ⟨?_, ?_⟩
    · exact knows_forall_spawn (P := fun _ _ l => l.Owns sid → c.world.lock? sid ≠ none) hknown.wf
        (fun hown => absurd hown hstart) h.locked
    · refine knows_forall_spawn (P := fun i _ l => ∀ j op', (c.ops ++ [op])[j]? = some op' →
        l.Owns sid →
        (knows (⟨c.world, c.ops ++ [op], c.log⟩ : Scene (service env)) j op').Owns sid →
          i = j) hknown.wf (fun _ _ _ hown => absurd hown hstart) ?_
      intro i op' hi
      refine knows_forall_spawn (P := fun j _ l => (knows c.scene i op').Owns sid → l.Owns sid →
        i = j) hknown.wf (fun _ hown => absurd hown hstart) ?_
      intro j op'' hj
      exact h.unique i op' hi j op'' hj
  move := by
    intro c d hg h
    refine ⟨?_, h.unique⟩
    intro i op hop hown
    have hsame : (c.world.advance d).lock? sid = c.world.lock? sid := by
      simpa [lockLasts] using hg
    rw [hsame]
    exact h.locked i op hop hown
  call := by
    intro c i op cl out _ _ hop _ h hallow
    exact h.answer hop hallow

/-- As long as the lock of `sid` does not expire, it excludes. -/
theorem reach_exclusive {G : Run env → Label (service env) → Prop} {sid : UUID}
    (hG : ∀ c l, G c l → lockLasts sid c l) {now : Nat} {c : Run env}
    (h : Reach G (Config.start (World.empty now)) c) : Exclusive sid c.scene :=
  (exclusive_keeps sid).reach ⟨by simp, by simp⟩ (h.mono hG)

/-! ## One id, one session -/

/-- A request to initiate session `sid` has saved it, or tried to. -/
def Begun (sid : UUID) (s : Scene (service env)) : Prop :=
  ∃ i op, s.ops[i]? = some op ∧ op.newId? = some sid ∧ (knows s i op).closed = true

/-- An initiate that has been made stays made. -/
theorem Begun.spawn {sid : UUID} {s : Scene (service env)} (h : Begun sid s) (op : Op) :
    Begun sid (⟨s.world, s.ops ++ [op], s.log⟩ : Scene (service env)) := by
  rcases h with ⟨i, op', hi, hnew, hclosed⟩
  have hlt := (List.getElem?_eq_some_iff.1 hi).1
  exact ⟨i, op', by rw [List.getElem?_append_left hlt, hi], hnew, hclosed⟩

namespace SessionLocal

theorem next_closed {l : SessionLocal} (h : l.closed = true) (c : Call) (r : Except Exn c.Resp) :
    (l.next c r).closed = true := by
  unfold next
  split <;> simp [h]

theorem next_wrote_of_wrote {l : SessionLocal} (h : l.wrote = true) (c : Call)
    (r : Except Exn c.Resp) : (l.next c r).wrote = true := by
  unfold next
  split <;> simp [h]

/-- A save is confirmed by the answer to `session_repo.save`. -/
theorem next_wrote {l : SessionLocal} {c : Call} {r : Except Exn c.Resp}
    (h : (l.next c r).wrote = true) : l.wrote = true ∨ ∃ s, c = .sessionSave s := by
  unfold next at h
  split at h
  all_goals first
    | exact Or.inl h
    | exact Or.inr ⟨_, rfl⟩

/-- A copy comes from the answer to `session_repo.get`. -/
theorem next_copy {l : SessionLocal} {c : Call} {r : Except Exn c.Resp} {v : UploadSession}
    (h : (l.next c r).copy = some v) : l.copy = some v ∨ c.sessionRead r = some v := by
  unfold next at h
  split at h
  · exact Or.inr h
  all_goals exact Or.inl h

/-- Who saves session `s`: the request that initiates it, or one that is inside
its critical section. -/
theorem allows_save {l : SessionLocal} {s : UploadSession} (h : l.allows env (.sessionSave s)) :
    (l.op.newId? = some s.sessionId ∧ l.closed = false ∧ s.status = .initiated ∧
      s.currentOffset = 0) ∨
    (l.Owns s.sessionId ∧ l.wrote = false ∧ ∃ v, l.view = some v ∧ Saves v s l.op) := by
  rcases h with ⟨hcreate, hclosed⟩ | hsave
  · cases hop : l.op with
    | initiate newId t f size cs =>
        rw [hop] at hcreate
        simp only [Creates] at hcreate
        subst hcreate
        exact Or.inl ⟨rfl, hclosed, rfl, rfl⟩
    | _ => simp [hop, Creates] at hcreate
  · exact Or.inr hsave

theorem Owns.newId?_eq_none {l : SessionLocal} {sid : UUID} (h : l.Owns sid) :
    l.op.newId? = none :=
  Op.newId?_eq_none h.2

end SessionLocal

theorem Begun.answer {sid : UUID} {s : Scene (service env)} (h : Begun sid s) (i : Nat)
    (cl : Call) (out : Outcome) : Begun sid (s.answer i cl out) := by
  rcases h with ⟨j, op, hj, hnew, hclosed⟩
  refine ⟨j, op, hj, hnew, ?_⟩
  by_cases hij : j = i
  · subst hij
    rw [knows_answer_self]
    exact SessionLocal.next_closed hclosed _ _
  · rw [knows_answer_other s i cl out hij]
    exact hclosed

/-- A session id belongs to one request that initiates it; nothing is stored or
read under the id before that request saves it. -/
structure Traced (sid : UUID) (s : Scene (service env)) : Prop where
  unique : ∀ (i : Nat) (op : Op), s.ops[i]? = some op → ∀ (j : Nat) (op' : Op),
    s.ops[j]? = some op' → op.newId? = some sid → op'.newId? = some sid → i = j
  stored : s.world.session? sid ≠ none → Begun sid s
  copied : ∀ (i : Nat) (op : Op), s.ops[i]? = some op → op.target? = some sid →
    (knows s i op).copy ≠ none → Begun sid s

/-- The request that initiates a session saves it only once. -/
theorem Traced.not_begun {sid : UUID} {s : Scene (service env)} (h : Traced sid s) {i : Nat}
    {op : Op} (hop : s.ops[i]? = some op) (hnew : op.newId? = some sid)
    (hclosed : (knows s i op).closed = false) : ¬ Begun sid s := by
  intro hbegun
  rcases hbegun with ⟨j, op', hj, hnew', hclosed'⟩
  have hij := h.unique i op hop j op' hj hnew hnew'
  subst hij
  rw [hop] at hj
  cases hj
  rw [hclosed] at hclosed'
  cases hclosed'

/-- A session is stored for the first time by its initiate, and later by requests that have read
it. -/
theorem Traced.answer {sid : UUID} {s : Scene (service env)} (h : Traced sid s)
    {i : Nat} {op : Op} (hop : s.ops[i]? = some op) (hcoherent : (knows s i op).Coherent)
    {cl : Call} {out : Outcome} (hallow : (knows s i op).allows env cl) :
    Traced sid (s.answer i cl out) := by
  have hknows := knows_op s i op
  refine ⟨h.unique, ?_, ?_⟩
  · intro hs
    rcases handle_session? env out cl s.world sid with hsame | ⟨v, hc, hid, _⟩ | ⟨_, hnone⟩
    · exact (h.stored (hsame ▸ hs)).answer i cl out
    · subst hc
      rcases SessionLocal.allows_save hallow with ⟨hnew, _⟩ | ⟨hown, _⟩
      · -- the request that initiates the session calls save now
        refine ⟨i, op, hop, by rw [← hknows, hnew, hid], ?_⟩
        rw [knows_answer_self]
        rcases (handle env out (.sessionSave v) s.world).1 with x | _ <;>
          simp [SessionLocal.next, hnew]
      · rcases (hcoherent.held hown.1).2 with ⟨v', hv', _⟩
        refine (h.copied i op hop ?_ (by simp [hv'])).answer i _ out
        rw [← hknows, hown.2, hid]
    · exact absurd hnone hs
  · refine knows_forall_answer (P := fun _ op' l => op'.target? = some sid → l.copy ≠ none →
      Begun sid (s.answer i cl out)) hop ?_
      (fun j op' _ hj ht hcopy => (h.copied j op' hj ht hcopy).answer i cl out)
    -- a copy comes from a read that has found the session stored
    intro ht hcopy
    rcases Option.ne_none_iff_exists'.1 hcopy with ⟨v, hv⟩
    rcases SessionLocal.next_copy hv with hold | hread
    · exact (h.copied i op hop ht (by simp [hold])).answer i cl out
    · rcases handle_sessionRead env out cl s.world hread with ⟨sid', hc, hs⟩
      subst hc
      have hsid : some sid' = some sid := by rw [← hallow.1, hknows, ht]
      cases hsid
      exact (h.stored (by simp [hs])).answer i _ out

theorem traced_keeps (sid : UUID) :
    Keeps (fun (c : Run env) l => freshIds c l) (Traced sid) where
  spawn := by
    intro c op hg hknown h
    refine ⟨?_, ?_, ?_⟩
    · have hfresh : ∀ (j : Nat) (op' : Op), c.ops[j]? = some op' → op.newId? = some sid →
          op'.newId? ≠ some sid := by
        intro j op' hj hnew
        simp only [freshIds, hnew, Option.all_some, List.all_eq_true, decide_eq_true_eq] at hg
        exact hg op' (List.mem_of_getElem? hj)
      intro i op₁ hi j op₂ hj hnew₁ hnew₂
      rcases getElem?_concat hi with hi | ⟨rfl, rfl⟩
      · rcases getElem?_concat hj with hj | ⟨rfl, rfl⟩
        · exact h.unique i op₁ hi j op₂ hj hnew₁ hnew₂
        · exact absurd hnew₁ (hfresh i op₁ hi hnew₂)
      · rcases getElem?_concat hj with hj | ⟨rfl, _⟩
        · exact absurd hnew₂ (hfresh j op₂ hj hnew₁)
        · rfl
    · exact fun hs => (h.stored hs).spawn op
    · exact knows_forall_spawn (P := fun _ op' l => op'.target? = some sid → l.copy ≠ none →
        Begun sid (⟨c.world, c.ops ++ [op], c.log⟩ : Scene (service env))) hknown.wf
        (by simp [SessionLocal.start])
        (fun j op' hj ht hcopy => (h.copied j op' hj ht hcopy).spawn op)
  move := by
    intro c d _ h
    refine ⟨h.unique, ?_, h.copied⟩
    intro hs
    refine h.stored (fun hnone => hs ?_)
    exact c.world.sessions.get_none_later (Nat.le_add_right _ d) hnone
  call := by
    intro c i op cl out _ hknown hop _ h hallow
    exact h.answer hop (hknown.sound.coherent i op hop) hallow

/-- With fresh session ids every session is traced to one request. -/
theorem reach_traced {G : Run env → Label (service env) → Prop} (sid : UUID)
    (hG : ∀ c l, G c l → freshIds c l) {now : Nat} {c : Run env}
    (h : Reach G (Config.start (World.empty now)) c) : Traced sid c.scene :=
  (traced_keeps sid).reach ⟨by simp, by simp [World.session?, World.empty], by simp⟩ (h.mono hG)

/-! ## What was stored when the lock was taken -/

/-- What was stored as session `sid` when request `i` took its lock. -/
def storedAtLock (sid : UUID) (i : Nat) (log : Log env) : Option UploadSession :=
  log.foldl (fun v e =>
    if e.rid = i ∧ (lockTaken e).map (·.1) = some sid then e.world.session? sid else v) none

@[simp] theorem storedAtLock_nil (sid : UUID) (i : Nat) :
    storedAtLock sid i ([] : Log env) = none := rfl

theorem storedAtLock_append (sid : UUID) (i : Nat) (log : Log env) (e : Entry (service env)) :
    storedAtLock sid i (log ++ [e]) =
      if e.rid = i ∧ (lockTaken e).map (·.1) = some sid then e.world.session? sid
      else storedAtLock sid i log := by
  simp [storedAtLock]

theorem storedAtLock_answer_other (s : Scene (service env)) (sid : UUID) (i : Nat) (cl : Call)
    (out : Outcome) {j : Nat} (hj : j ≠ i) :
    storedAtLock sid j (s.answer i cl out).log = storedAtLock sid j s.log := by
  have hij : ¬ i = j := fun h => hj h.symm
  simp only [Scene.answer, storedAtLock_append, hij, false_and, if_false]

theorem storedAtLock_answer_self (s : Scene (service env)) (sid : UUID) (i : Nat) (cl : Call)
    (out : Outcome) : storedAtLock sid i (s.answer i cl out).log =
      if (cl.lockTaken (handle env out cl s.world).1).map (·.1) = some sid then
        (handle env out cl s.world).2.session? sid
      else storedAtLock sid i s.log := by
  simp only [Scene.answer, storedAtLock_append, true_and]
  rfl

/-- What a request knows to be stored is what it knew before, what it has just
saved, or the copy with which it has just taken the lock. -/
theorem SessionLocal.next_view {l : SessionLocal} {c : Call} {r : Except Exn c.Resp}
    {v : UploadSession} (h : (l.next c r).view = some v) :
    l.view = some v ∨ c = .sessionSave v ∨
      (∃ lock, c.lockTaken r = some lock) ∧ l.copy = some v := by
  unfold next at h
  split at h
  · exact Or.inl h
  · exact Or.inr (Or.inr ⟨⟨_, rfl⟩, h⟩)
  · exact Or.inl h
  · exact Or.inl h
  · cases h
    exact Or.inr (Or.inl rfl)
  · cases h
  · cases h
  · cases h
  · exact Or.inl h

/-- A request takes the lock of its own session only. -/
theorem SessionLocal.lockTaken_target {l : SessionLocal} {c : Call} {r : Except Exn c.Resp}
    {lock : UUID × Nat} (hallow : l.allows env c) (h : c.lockTaken r = some lock) :
    l.op.target? = some lock.1 := by
  unfold Call.lockTaken at h
  split at h
  · cases h
    exact hallow.1
  · cases h

end FileUploader
