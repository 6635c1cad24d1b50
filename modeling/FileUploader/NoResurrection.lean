import FileUploader.Locking

/-! # Finished sessions stay finished

A session is finished when it has been deleted, or stored as failed. Upload,
finalize and abort read the session before they take the lock, so what they know
inside the critical section may be older than the last request that was there.
As long as nobody writes to a session that was already finished when the lock was
taken, no run stores a finished session again.
-/

namespace FileUploader

open Await

variable {env : Env}

/-- The session that a call stores, or of which it stores a chunk. -/
def Call.stores : Call → Option UUID
  | .sessionSave s => some s.sessionId
  | .chunkSave sid _ => some sid
  | _ => none

/-- The session that a call was answered to have deleted. -/
def Call.deleted : (c : Call) → Except Exn c.Resp → Option UUID
  | .sessionDelete sid, .ok _ => some sid
  | _, _ => none

/-- The call deleted session `sid`. -/
def Deletes (sid : UUID) (e : Entry (service env)) : Prop := e.call.deleted e.resp = some sid

/-- Session `sid` is stored as failed right after the call. -/
def LeavesFailed (sid : UUID) (e : Entry (service env)) : Prop :=
  ∃ v, e.world.session? sid = some v ∧ v.status = .failed

/-- Call `e'` stores session `sid`, or a chunk of it, although `e` deleted it; or
it stores the session as live although it had failed by `e`. -/
def Resurrects (sid : UUID) (e e' : Entry (service env)) : Prop :=
  (Deletes sid e ∧ e'.call.stores = some sid) ∨
  (LeavesFailed sid e ∧ ∃ v, e'.call = .sessionSave v ∧ v.sessionId = sid ∧
    v.status ∈ [.initiated, .uploading])

/-- The session that a call stores, stores a chunk of, or deletes. -/
def Call.writes : Call → Option UUID
  | .sessionSave s => some s.sessionId
  | .chunkSave sid _ => some sid
  | .sessionDelete sid => some sid
  | _ => none

/-- Session `sid` was stored and live when request `i` took its lock. -/
def liveAtLock (sid : UUID) (i : Nat) (log : Log env) : Bool :=
  (storedAtLock sid i log).any (fun v => v.Active)

/-- An upload or a finalize writes to session `sid` only if the session was stored
and live when it took the lock. -/
def writesLive (sid : UUID) (c : Run env) : Label (service env) → Bool
  | .call i _ =>
      match c.ops[i]?, c.pending i with
      | some op, some cl =>
          op.target? = some sid ∧ op ≠ .abort sid ∧ cl.writes = some sid →
            liveAtLock sid i c.log
      | _, _ => true
  | _ => true

/-! ## Frozen sessions -/

/-- Whatever is stored as session `sid`, or known to be stored by a request that
took the lock of the live session, satisfies `P`. -/
structure Frozen (sid : UUID) (P : UploadSession → Prop) (s : Scene (service env)) : Prop where
  stored : ∀ v, s.world.session? sid = some v → P v
  viewed : ∀ (i : Nat) (op : Op), s.ops[i]? = some op → (knows s i op).Owns sid →
    liveAtLock sid i s.log → ∀ v, (knows s i op).view = some v → P v
  begun : Begun sid s

section Frozen

variable {sid : UUID} {P : UploadSession → Prop} {s : Scene (service env)} {i : Nat} {op : Op}
  {cl : Call} {out : Outcome}

/-- What `writesLive` says of the call a request makes. -/
def GuardedWrite (sid : UUID) (s : Scene (service env)) (i : Nat) (op : Op) (cl : Call) : Prop :=
  op.target? = some sid → op ≠ .abort sid → cl.writes = some sid → liveAtLock sid i s.log

/-- Nothing is stored for a session that is frozen without being live. -/
theorem Frozen.no_store (h : Frozen sid P s) (hP : ∀ v, P v → ¬ v.Active) (htraced : Traced sid s)
    (hop : s.ops[i]? = some op) (hallow : (knows s i op).allows env cl)
    (hguard : GuardedWrite sid s i op cl) : cl.stores ≠ some sid := by
  intro hstores
  have hknows := knows_op s i op
  -- a guarded write is made inside, with a session that is active
  have hcontra : ∀ v, (knows s i op).Owns sid → op ≠ .abort sid → cl.writes = some sid →
      (knows s i op).view = some v → ¬ v.Active := by
    intro v hown habort hw hv
    have htarget : op.target? = some sid := by
      rw [← hknows]
      exact hown.2
    exact hP v (h.viewed i op hop hown (hguard htarget habort hw) v hv)
  cases cl with
  | sessionSave v =>
      have hid : v.sessionId = sid := by simpa [Call.stores] using hstores
      -- a save creates the session, which has begun long since, or is made inside
      rcases SessionLocal.allows_save hallow with ⟨hnew, hclosed, _⟩ | ⟨hown, _, v', hv', hsaves⟩
      · rw [hknows, hid] at hnew
        exact htraced.not_begun hop hnew hclosed h.begun
      · rw [hid] at hown
        rw [hknows] at hsaves
        have habort : op ≠ .abort sid := by
          intro heq
          simp [heq, SessionLocal.Saves] at hsaves
        have hact : v'.Active := by
          cases op with
          | uploadChunk => exact hsaves.1
          | finalize => exact hsaves.1
          | _ => exact hsaves.elim
        exact hcontra v' hown habort hstores hv' hact
  | chunkSave sid' chunk =>
      cases hstores
      rcases hallow with ⟨hown, _, ⟨v, hv, hact⟩, _, _, _, hop', _⟩
      rw [hknows] at hop'
      exact hcontra v hown (by simp [hop']) rfl hv hact
  | _ => cases hstores

/-- A frozen session stays frozen. -/
theorem Frozen.answer (out : Outcome) (h : Frozen sid P s) (hP : ∀ v, P v → ¬ v.Active)
    (htraced : Traced sid s)
    (hop : s.ops[i]? = some op) (hallow : (knows s i op).allows env cl)
    (hguard : GuardedWrite sid s i op cl) : Frozen sid P (s.answer i cl out) := by
  have hnostore := h.no_store hP htraced hop hallow hguard
  -- no call stores the session: what is stored was there before
  have hstored : ∀ v, (handle env out cl s.world).2.session? sid = some v → P v := by
    intro v hv
    rcases handle_session? env out cl s.world sid with hsame | ⟨v', hc, hid, _⟩ | ⟨_, hnone⟩
    · exact h.stored v (hsame.symm.trans hv)
    · subst hc
      exact absurd (congrArg some hid) hnostore
    · rw [hnone] at hv
      cases hv
  refine ⟨hstored, ?_, h.begun.answer i cl out⟩
  refine knows_forall_answer (P := fun j _ l => l.Owns sid →
    liveAtLock sid j (s.answer i cl out).log → ∀ v, l.view = some v → P v) hop ?_ ?_
  · intro hown hlive v hv
    simp only [liveAtLock, storedAtLock_answer_self] at hlive
    split at hlive
    · -- the lock has just been taken: what is stored is not live
      simp only [Option.any_eq_true, decide_eq_true_eq] at hlive
      rcases hlive with ⟨v', hv', hact⟩
      exact absurd hact (hP v' (hstored v' hv'))
    · rename_i hnot
      rcases SessionLocal.next_owns hallow hown with ⟨hold, _⟩ | htaken
      · rcases SessionLocal.next_view hv with hv | hc | ⟨⟨lock, htaken⟩, _⟩
        · exact h.viewed i op hop hold hlive v hv
        · subst hc
          rcases SessionLocal.allows_save hallow with ⟨hnew, _⟩ | ⟨hown', _⟩
          · rw [hold.newId?_eq_none] at hnew
            cases hnew
          · have hid : some v.sessionId = some sid := by rw [← hown'.2, hold.2]
            exact absurd hid hnostore
        · have hlock := SessionLocal.lockTaken_target hallow htaken
          rw [hold.2] at hlock
          exact absurd (by rw [htaken]; exact hlock.symm) hnot
      · exact absurd (by rw [htaken]; rfl) hnot
  · intro j op' hji hj hown hlive
    rw [liveAtLock, storedAtLock_answer_other s sid i cl out hji] at hlive
    exact h.viewed j op' hj hown hlive

end Frozen

/-! ## Finishing a session -/

/-- Deleting a session freezes it: nothing is stored, and nobody knows better. -/
theorem frozen_of_deleted {sid : UUID} {s : Scene (service env)} {i : Nat} {op : Op} {cl : Call}
    {out : Outcome} (P : UploadSession → Prop) (htraced : Traced sid s) (hexcl : Exclusive sid s)
    (hop : s.ops[i]? = some op) (hcoherent : (knows s i op).Coherent)
    (hallow : (knows s i op).allows env cl)
    (hdel : cl.deleted (handle env out cl s.world).1 = some sid) :
    Frozen sid P (s.answer i cl out) := by
  have hknows := knows_op s i op
  unfold Call.deleted at hdel
  split at hdel
  · rename_i sid' hans
    cases hdel
    have hown : (knows s i op).Owns sid := hallow.1
    have hworks : out = .works := by
      cases out with
      | works => rfl
      | raises msg => simp [handle, failed] at hans
      | raisesAfter msg => simp [handle, failed] at hans
    subst hworks
    refine ⟨?_, ?_, ?_⟩
    · intro v hv
      have hnone : (handle env .works (.sessionDelete sid) s.world).2.session? sid = none :=
        s.world.sessions.get_erase_self s.world.now sid
      rw [show (s.answer i (.sessionDelete sid) .works).world.session? sid = none from hnone] at hv
      cases hv
    · refine knows_forall_answer (P := fun j _ l => l.Owns sid →
        liveAtLock sid j (s.answer i (.sessionDelete sid) .works).log →
          ∀ v, l.view = some v → P v) hop ?_ ?_
      · intro _ _ v hv
        simp [handle, respond, SessionLocal.next] at hv
      · -- nobody else is inside
        intro j op' hji hj hown'
        exact absurd (hexcl.unique j op' hj i op hop hown' hown) hji
    · rcases (hcoherent.held hown.1).2 with ⟨v, hv, _⟩
      have htarget : op.target? = some sid := by
        rw [← hknows]
        exact hown.2
      exact (htraced.copied i op hop htarget (by simp [hv])).answer i _ _
  · cases hdel

/-- Storing a session as failed freezes it: it is not live, and the request that
stored it knows. -/
theorem frozen_of_failed {sid : UUID} {s : Scene (service env)} {i : Nat} {op : Op}
    {v : UploadSession} {out : Outcome} (htraced : Traced sid s) (hexcl : Exclusive sid s)
    (hop : s.ops[i]? = some op) (hcoherent : (knows s i op).Coherent)
    (hallow : (knows s i op).allows env (.sessionSave v)) (hid : v.sessionId = sid)
    (hstatus : v.status = .failed)
    (hstored : (handle env out (.sessionSave v) s.world).2.session? sid = some v) :
    Frozen sid (fun v => ¬ v.Active) (s.answer i (.sessionSave v) out) := by
  have hknows := knows_op s i op
  have hinactive : ¬ v.Active := by simp [UploadSession.Active, hstatus]
  rcases SessionLocal.allows_save hallow with ⟨_, _, hinit, _⟩ | ⟨hown, _⟩
  · rw [hstatus] at hinit
    cases hinit
  rw [hid] at hown
  refine ⟨?_, ?_, ?_⟩
  · intro v' hv'
    rw [show (s.answer i (.sessionSave v) out).world.session? sid = some v from hstored] at hv'
    cases hv'
    exact hinactive
  · refine knows_forall_answer (P := fun j _ l => l.Owns sid →
      liveAtLock sid j (s.answer i (.sessionSave v) out).log →
        ∀ v, l.view = some v → ¬ v.Active) hop ?_ ?_
    · -- the caller has seen what it has stored
      intro _ _ v' hv'
      rcases hans : (handle env out (.sessionSave v) s.world).1 with x | _
      · simp [hans, SessionLocal.next] at hv'
      · simp only [hans, SessionLocal.next, Option.some.injEq] at hv'
        subst hv'
        exact hinactive
    · intro j op' hji hj hown'
      exact absurd (hexcl.unique j op' hj i op hop hown' hown) hji
  · rcases (hcoherent.held hown.1).2 with ⟨v', hv', _⟩
    have htarget : op.target? = some sid := by
      rw [← hknows]
      exact hown.2
    exact (htraced.copied i op hop htarget (by simp [hv'])).answer i _ _

/-- A request has its deletion confirmed by the answer to that call. -/
theorem SessionLocal.next_deleted {l : SessionLocal} {c : Call} {r : Except Exn c.Resp}
    (hallow : l.allows env c) (h : (l.next c r).deleted = true) :
    l.deleted = true ∨ ∃ sid, c = .sessionDelete sid ∧ c.deleted r = some sid ∧
      l.op.target? = some sid ∧ l.view ≠ none := by
  unfold next at h
  split at h
  all_goals first
    | exact Or.inl h
    | exact Or.inr ⟨_, rfl, rfl, hallow.1.2, hallow.2.1⟩

/-- What a run knows of session `sid` once it is finished. -/
structure Finished (sid : UUID) (s : Scene (service env)) : Prop where
  history : s.log.Pairwise (fun e e' => ¬ Resurrects sid e e')
  gone : (∃ e ∈ s.log, Deletes sid e) → Frozen sid (fun _ => False) s
  failed : (∃ e ∈ s.log, LeavesFailed sid e) → Frozen sid (fun v => ¬ v.Active) s
  leaves : ∀ v, s.world.session? sid = some v → v.status = .failed →
    ∃ e ∈ s.log, LeavesFailed sid e
  deleter : ∀ (i : Nat) (op : Op), s.ops[i]? = some op → op.target? = some sid →
    (knows s i op).deleted = true → ∃ e ∈ s.log, Deletes sid e
  once : ∀ i, s.ops[i]? = some (.finalize sid) → ∀ j, s.ops[j]? = some (.finalize sid) →
    (knows s i (.finalize sid)).deleted = true → (knows s j (.finalize sid)).deleted = true → i = j

section Answer

variable {sid : UUID} {s : Scene (service env)} {i : Nat} {op : Op} {cl : Call} {out : Outcome}

theorem Finished.deleter_answer (h : Finished sid s) (hop : s.ops[i]? = some op)
    (hallow : (knows s i op).allows env cl) : ∀ (j : Nat) (op' : Op), s.ops[j]? = some op' →
      op'.target? = some sid → (knows (s.answer i cl out) j op').deleted = true →
        ∃ e ∈ (s.answer i cl out).log, Deletes sid e := by
  have hknows := knows_op s i op
  refine knows_forall_answer (P := fun j op' l => op'.target? = some sid → l.deleted = true →
    ∃ e ∈ (s.answer i cl out).log, Deletes sid e) hop ?_ ?_
  · intro htarget hdel
    rcases SessionLocal.next_deleted hallow hdel with hold | ⟨sid', _, hans, htarget', _⟩
    · rcases h.deleter i op hop htarget hold with ⟨e, he, hd⟩
      exact ⟨e, List.mem_append_left _ he, hd⟩
    · rw [hknows, htarget] at htarget'
      cases htarget'
      exact ⟨_, List.mem_append_right _ (List.mem_singleton.2 rfl), hans⟩
  · intro j op' _ hj htarget hdel
    rcases h.deleter j op' hj htarget hdel with ⟨e, he, hd⟩
    exact ⟨e, List.mem_append_left _ he, hd⟩

/-- A finalize deletes only while nobody has deleted yet. -/
theorem Finished.first_answer (h : Finished sid s) (hop : s.ops[i]? = some (.finalize sid))
    (hallow : (knows s i (.finalize sid)).allows env cl)
    (hguard : GuardedWrite sid s i (.finalize sid) cl) {j : Nat}
    (hj : s.ops[j]? = some (.finalize sid)) (hold : (knows s j (.finalize sid)).deleted = true)
    (hnew : ((knows s i (.finalize sid)).next cl (handle env out cl s.world).1).deleted = true) :
    i = j := by
  rcases SessionLocal.next_deleted hallow hnew with hdel | ⟨sid', hc, _, htarget', hview⟩
  · exact h.once i hop j hj hdel hold
  · have hfrozen := h.gone (h.deleter j _ hj rfl hold)
    rw [knows_op] at htarget'
    cases htarget'
    subst hc
    rcases Option.ne_none_iff_exists'.1 hview with ⟨v, hv⟩
    exact (hfrozen.viewed i _ hop hallow.1 (hguard rfl (by simp) rfl) v hv).elim

theorem Finished.once_answer (h : Finished sid s) (hop : s.ops[i]? = some op)
    (hallow : (knows s i op).allows env cl) (hguard : GuardedWrite sid s i op cl) :
    ∀ j, s.ops[j]? = some (.finalize sid) → ∀ k, s.ops[k]? = some (.finalize sid) →
      (knows (s.answer i cl out) j (.finalize sid)).deleted = true →
        (knows (s.answer i cl out) k (.finalize sid)).deleted = true → j = k := by
  intro j hj k hk hdj hdk
  by_cases hij : j = i
  · subst hij
    cases hop.symm.trans hj
    by_cases hkj : k = j
    · exact hkj.symm
    · rw [knows_answer_other s j cl out hkj] at hdk
      rw [knows_answer_self] at hdj
      exact h.first_answer hj hallow hguard hk hdk hdj
  · rw [knows_answer_other s i cl out hij] at hdj
    by_cases hik : k = i
    · subst hik
      cases hop.symm.trans hk
      rw [knows_answer_self] at hdk
      exact (h.first_answer hk hallow hguard hj hdj hdk).symm
    · rw [knows_answer_other s i cl out hik] at hdk
      exact h.once j hj k hk hdj hdk

theorem Finished.answer (h : Finished sid s) (htraced : Traced sid s) (hexcl : Exclusive sid s)
    (hop : s.ops[i]? = some op) (hcoherent : (knows s i op).Coherent)
    (hallow : (knows s i op).allows env cl) (hguard : GuardedWrite sid s i op cl) :
    Finished sid (s.answer i cl out) := by
  have hlog : (s.answer i cl out).log = s.log ++
    [⟨i, cl, (handle env out cl s.world).1, (handle env out cl s.world).2⟩] := rfl
  -- the finishing steps of earlier calls freeze the session now
  have hgone := fun he => (h.gone he).answer out (fun _ hf => hf.elim) htraced hop hallow
    hguard
  have hfailed := fun he => (h.failed he).answer out (fun _ hf => hf) htraced hop hallow
    hguard
  refine ⟨?_, ?_, ?_, ?_, h.deleter_answer hop hallow, h.once_answer hop hallow hguard⟩
  · -- the new call resurrects nothing that earlier calls have finished
    rw [hlog, List.pairwise_append]
    refine ⟨h.history, List.pairwise_singleton _ _, ?_⟩
    intro e he e' he'
    rw [List.mem_singleton] at he'
    subst he'
    intro hres
    rcases hres with ⟨hdel, hstores⟩ | ⟨hleft, v, hc, hid, _⟩
    · exact (h.gone ⟨e, he, hdel⟩).no_store (fun _ hf => hf.elim) htraced hop hallow hguard hstores
    · refine (h.failed ⟨e, he, hleft⟩).no_store (fun _ hf => hf) htraced hop hallow hguard ?_
      simp only at hc
      rw [hc]
      exact congrArg some hid
  · intro hdel
    rcases hdel with ⟨e, he, hd⟩
    rw [hlog, List.mem_append, List.mem_singleton] at he
    rcases he with he | rfl
    · exact hgone ⟨e, he, hd⟩
    · exact frozen_of_deleted _ htraced hexcl hop hcoherent hallow hd
  · intro hleft
    rcases hleft with ⟨e, he, v, hv, hstatus⟩
    rw [hlog, List.mem_append, List.mem_singleton] at he
    rcases he with he | rfl
    · exact hfailed ⟨e, he, v, hv, hstatus⟩
    · rcases handle_session? env out cl s.world sid with hsame | ⟨v', hc, hid, hs⟩ | ⟨_, hnone⟩
      · exact hfailed (h.leaves v (hsame.symm.trans hv) hstatus)
      · -- the call itself has saved the failed session
        subst hc
        have hvv : v' = v := Option.some.inj (hs.symm.trans hv)
        subst hvv
        exact frozen_of_failed htraced hexcl hop hcoherent hallow hid hstatus hs
      · cases hnone.symm.trans hv
  · intro v hv hstatus
    exact ⟨_, List.mem_append_right _ (List.mem_singleton.2 rfl), v, hv, hstatus⟩

end Answer

theorem Frozen.spawn {sid : UUID} {P : UploadSession → Prop} {s : Scene (service env)}
    (h : Frozen sid P s) (hwf : s.Wf) (op : Op) :
    Frozen sid P (⟨s.world, s.ops ++ [op], s.log⟩ : Scene (service env)) := by
  refine ⟨h.stored, ?_, h.begun.spawn op⟩
  refine knows_forall_spawn (P := fun j _ l => l.Owns sid → liveAtLock sid j s.log →
    ∀ v, l.view = some v → P v) hwf ?_ h.viewed
  intro hown
  simp [SessionLocal.Owns, SessionLocal.start] at hown

theorem Frozen.move {sid : UUID} {P : UploadSession → Prop} {s : Scene (service env)}
    (h : Frozen sid P s) (d : Nat) :
    Frozen sid P (⟨s.world.advance d, s.ops, s.log⟩ : Scene (service env)) := by
  refine ⟨?_, h.viewed, h.begun⟩
  intro v hv
  exact h.stored v (s.world.sessions.get_of_get_later (Nat.le_add_right _ d) hv)

theorem finished_keeps (sid : UUID) :
    Keeps (fun (c : Run env) l => freshIds c l ∧ lockLasts sid c l ∧ writesLive sid c l)
      (fun s => (Traced sid s ∧ Exclusive sid s) ∧ Finished sid s) where
  spawn := by
    intro c op hg hknown hinv
    rcases hinv with ⟨⟨htraced, hexcl⟩, h⟩
    refine ⟨⟨(traced_keeps sid).spawn c op hg.1 hknown htraced,
      (exclusive_keeps sid).spawn c op hg.2.1 hknown hexcl⟩, ?_⟩
    have hdeleted : (SessionLocal.start op).deleted = false := rfl
    refine ⟨h.history, fun he => (h.gone he).spawn hknown.wf op,
      fun he => (h.failed he).spawn hknown.wf op, h.leaves, ?_, ?_⟩
    · refine knows_forall_spawn (P := fun _ op' l => op'.target? = some sid → l.deleted = true →
        ∃ e ∈ c.log, Deletes sid e) hknown.wf ?_ h.deleter
      intro _ hd
      rw [hdeleted] at hd
      cases hd
    · -- the new request has deleted nothing
      have hnew : ∀ i, (c.ops ++ [op])[i]? = some (.finalize sid) →
          (knows (⟨c.world, c.ops ++ [op], c.log⟩ : Scene (service env)) i
            (.finalize sid)).deleted = true → c.ops[i]? = some (.finalize sid) := by
        have hold : ∀ i op', (c.ops ++ [op])[i]? = some op' →
            (knows (⟨c.world, c.ops ++ [op], c.log⟩ : Scene (service env)) i op').deleted = true →
              c.ops[i]? = some op' :=
          knows_forall_spawn (P := fun i op' l => l.deleted = true → c.ops[i]? = some op') hknown.wf
            (fun hd => by rw [hdeleted] at hd; cases hd) (fun _ _ hi _ => hi)
        exact fun i => hold i _
      intro i hi j hj hdi hdj
      exact h.once i (hnew i hi hdi) j (hnew j hj hdj) hdi hdj
  move := by
    intro c d hg hinv
    rcases hinv with ⟨⟨htraced, hexcl⟩, h⟩
    refine ⟨⟨(traced_keeps sid).move c d hg.1 htraced,
      (exclusive_keeps sid).move c d hg.2.1 hexcl⟩, ?_⟩
    refine ⟨h.history, fun he => (h.gone he).move d, fun he => (h.failed he).move d, ?_, h.deleter,
      h.once⟩
    -- a session found later was there before
    intro v hv
    exact h.leaves v (c.world.sessions.get_of_get_later (Nat.le_add_right _ d) hv)
  call := by
    intro c i op cl out hg hknown hop hpending hinv hallow
    rcases hinv with ⟨⟨htraced, hexcl⟩, h⟩
    have hcoherent := hknown.sound.coherent i op hop
    refine ⟨⟨htraced.answer hop hcoherent hallow, hexcl.answer hop hallow⟩, ?_⟩
    refine h.answer htraced hexcl hop hcoherent hallow ?_
    intro htarget habort hwrites
    have hguard := hg.2.2
    simp only [writesLive, hop, hpending, decide_eq_true_eq] at hguard
    exact hguard ⟨htarget, habort, hwrites⟩

/-- A finalize request on `sid` that has returned a URI. -/
def FinalizeSucceeded (sid : UUID) (c : Run env) (i : Nat) : Prop :=
  c.ops[i]? = some (.finalize sid) ∧ ∃ a, c.result i = some (.ok a)

theorem FinalizeSucceeded.deleted {sid : UUID} {c : Run env} {i : Nat}
    (h : FinalizeSucceeded sid c i) (hknown : Known c) :
    (knows c.scene i (.finalize sid)).deleted = true := by
  rcases h with ⟨hop, a, hres⟩
  exact hknown.obeys i _ _ (request_of_result hop hres) ⟨a, rfl⟩

/-- No resurrection, over all interleavings and failures in which the lock does
not expire: what has been deleted or stored as failed stays so, and at most one
finalize of a session succeeds, if uploads and finalizes write only to a session
that was live when they took its lock. -/
theorem no_resurrection {sid : UUID} {now : Nat} {c : Run env}
    (h : Reach (fun c l => freshIds c l ∧ lockLasts sid c l ∧ writesLive sid c l)
      (Config.start (World.empty now)) c) :
    c.log.Pairwise (fun e e' => ¬ Resurrects sid e e') ∧
      ∀ i j, FinalizeSucceeded sid c i → FinalizeSucceeded sid c j → i = j := by
  have hinit : Finished sid (⟨World.empty now, [], []⟩ : Scene (service env)) :=
    ⟨.nil, by simp, by simp, by simp [World.session?, World.empty], by simp, by simp⟩
  have hfin := ((finished_keeps sid).reach
    ⟨⟨⟨by simp, by simp [World.session?, World.empty], by simp⟩, ⟨by simp, by simp⟩⟩, hinit⟩ h).2
  have hknown := reach_known h
  refine ⟨hfin.history, ?_⟩
  intro i j hi hj
  exact hfin.once i hi.1 j hj.1 (hi.deleted hknown) (hj.deleted hknown)

/-! ## Concrete runs -/

namespace Demo

/-- A session with one byte to upload, and an upload that has read it. -/
def uploadPending : List (Label (service Demo.env)) :=
  [.spawn (.initiate sid tenant file 1 (sha256 a))] ++ calls 0 2 ++
    [.spawn (.uploadChunk sid 0 (sha256 a) a)] ++ calls 1 1

end Demo

/-- A session that is uploaded, finalized, and finalized again in vain. -/
theorem no_resurrection_demo :
    ∃ c : Run Demo.env,
      Reach (fun c l => freshIds c l ∧ lockLasts Demo.sid c l ∧ writesLive Demo.sid c l)
        (Config.start (World.empty 0)) c ∧
      (c.log.Pairwise (fun e e' => ¬ Resurrects Demo.sid e e') ∧
        ∀ i j, FinalizeSucceeded Demo.sid c i → FinalizeSucceeded Demo.sid c j → i = j) ∧
      FinalizeSucceeded Demo.sid c 2 := by
  have h : ((Config.start (World.empty 0)).play
      (fun c l => freshIds c l && lockLasts Demo.sid c l && writesLive Demo.sid c l)
      (Demo.uploadPending ++ Demo.calls 1 4 ++
        [.spawn (.finalize Demo.sid), .spawn (.finalize Demo.sid)] ++ Demo.calls 3 1 ++
        Demo.scanning 2 1 ++ Demo.committing 2 1 ++ Demo.calls 3 1 ++
        (Demo.round 3 1) ++ Demo.calls 3 1)).any
      (fun c => c.ops[2]? = some (.finalize Demo.sid) ∧ (c.result 2).any (·.isOk)) = true := by
    decide +kernel
  rcases exists_of_play (fun c l hl => by simpa [and_assoc] using hl) _ h with ⟨c, hc, hres⟩
  simp only [decide_eq_true_eq, Option.any_eq_true] at hres
  rcases hres with ⟨hop, r, hr, hok⟩
  refine ⟨c, hc, no_resurrection hc, hop, ?_⟩
  cases r with
  | error x => cases hok
  | ok a => exact ⟨a, hr⟩

/-- Without the condition it fails: an upload that read the session before it was
aborted takes the lock after that, and stores the session again. -/
theorem no_resurrection_fails :
    ∃ c : Run Demo.env,
      Reach (fun c l => freshIds c l ∧ lockLasts Demo.sid c l) (Config.start (World.empty 0)) c ∧
      ¬ (c.log.Pairwise (fun e e' => ¬ Resurrects Demo.sid e e') ∧
        ∀ i j, FinalizeSucceeded Demo.sid c i → FinalizeSucceeded Demo.sid c j → i = j) := by
  have h : ((Config.start (World.empty 0)).play
      (fun c l => freshIds c l && lockLasts Demo.sid c l)
      (Demo.uploadPending ++ .spawn (.abort Demo.sid) :: Demo.calls 2 5 ++ Demo.calls 1 4)).any
      (fun c => c.log[6]?.any (fun e => e.call.deleted e.resp = some Demo.sid) &&
        c.log[10]?.any (fun e => e.call.stores = some Demo.sid)) = true := by
    decide +kernel
  rcases exists_of_play (fun c l hl => by simpa using hl) _ h with ⟨c, hc, hcheck⟩
  simp only [Bool.and_eq_true, Option.any_eq_true, decide_eq_true_eq] at hcheck
  rcases hcheck with ⟨⟨e, he, hdel⟩, e', he', hstores⟩
  refine ⟨c, hc, fun hres => ?_⟩
  rcases List.getElem?_eq_some_iff.1 he with ⟨hk, rfl⟩
  rcases List.getElem?_eq_some_iff.1 he' with ⟨hk', rfl⟩
  exact List.pairwise_iff_getElem.1 hres.1 6 10 hk hk' (by decide) (Or.inl ⟨hdel, hstores⟩)

end FileUploader
