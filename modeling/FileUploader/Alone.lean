import FileUploader.Service

/-! # A request that runs alone

What a request does when nothing else happens meanwhile and every call goes
through: one lemma for each use case, which says how it can end and in which world.
-/

namespace FileUploader

open Await Prog

variable {env : Env}

/-- Every call is answered, and has its effect. -/
def works (env : Env) : Answers Collab World := fun c w r w' =>
  r = (respond env c w).1 ∧ w' = (respond env c w).2

/-- Request `op` runs alone from `w` to `w'`, and returns or raises `r`. -/
def Alone (env : Env) (op : Op) (w : World) (r : Except Exn Response) (w' : World) : Prop :=
  Exec (works env) (op.prog env) w r w'

/-- The lock of `sid` has been taken now. -/
def World.locking (w : World) (sid : UUID) : World :=
  { w with locks := w.locks.set sid "locked" (w.deadline RedisSessionRepository.lockTtl) }

/-- The lock of `sid` is gone. -/
def World.unlocked (w : World) (sid : UUID) : World := { w with locks := w.locks.erase sid }

@[simp] theorem World.unlocked_locking (w : World) (sid : UUID) :
    (w.locking sid).unlocked sid = w.unlocked sid := by
  simp [World.locking, World.unlocked]

/-! ## Rules for any answers -/

section AnyAnswers

variable {α β W : Type} {R : Answers Collab W} {w w' : W}

theorem exec_raiseIf_bind (bad : Prop) [Decidable bad] (x : Exn) (f : Unit → Program β)
    (o : Except Exn β) : Exec R (raiseIf bad x >>= f) w o w' ↔
      bad ∧ o = .error x ∧ w' = w ∨ ¬ bad ∧ Exec R (f ()) w o w' := by
  by_cases hb : bad
  · simp only [raiseIf, hb, if_true, true_and, not_true_eq_false, false_and, or_false]
    exact exec_raise (S := Collab) x o
  · simp only [raiseIf, hb, if_false, false_and, not_false_eq_true, true_and, false_or]
    exact Iff.rfl

theorem exec_ofExcept_bind (r : Except Exn α) (f : α → Program β) (o : Except Exn β) :
    Exec R (ofExcept r >>= f) w o w' ↔ Exec R (onOk f r) w o w' := Iff.rfl

theorem exec_map (p : Program α) (f : α → β) (o : Except Exn β) :
    Exec R (do let a ← p; pure (f a)) w o w' ↔
      ∃ o', Exec R p w o' w' ∧ o = o'.map f := by
  rw [exec_bind]
  constructor
  · intro h
    rcases h with ⟨x, h, rfl⟩ | ⟨a, w₁, h, hpure⟩
    · exact ⟨_, h, rfl⟩
    · rcases hpure with ⟨rfl, rfl⟩
      exact ⟨_, h, rfl⟩
  · intro h
    rcases h with ⟨x | a, h, rfl⟩
    · exact Or.inl ⟨x, h, rfl⟩
    · exact Or.inr ⟨a, w', h, rfl, rfl⟩

end AnyAnswers

/-! ## Rules for calls that go through -/

section Rules

variable {α β : Type} {w w' : World}

@[simp] theorem exec_ask (c : Call) (o : Except Exn c.Resp) :
    @Exec Collab World (works env) (no_index c.Resp) (ask c) w o w' ↔
      o = (respond env c w).1 ∧ w' = (respond env c w).2 :=
  exec_await (S := Collab) (R := works env) c o

theorem exec_ask_bind (c : Call) (f : c.Resp → Program β) (o : Except Exn β) :
    Exec (works env) (@Bind.bind Program _ (no_index c.Resp) β (ask c) f) w o w' ↔
      Exec (works env) (onOk f (respond env c w).1) (respond env c w).2 o w' := by
  constructor
  · intro h
    rcases h with ⟨r, w₁, ⟨rfl, rfl⟩, h⟩
    exact h
  · intro h
    exact ⟨_, _, ⟨rfl, rfl⟩, h⟩

/-- The lock is released on every way out. -/
theorem exec_releasing (sid : UUID) (p : Program α) (o : Except Exn α) :
    Exec (works env) (p.tryFinally (SessionRepository.releaseLock sid)) w o w' ↔
      ∃ w₁, Exec (works env) p w o w₁ ∧ w' = w₁.unlocked sid := by
  rw [exec_tryFinally]
  constructor
  · intro h
    rcases h with ⟨r, w₁, hp, ⟨hrel, rfl⟩ | ⟨x, hrel, _⟩⟩
    · have hrel := (exec_ask _ _).1 hrel
      exact ⟨w₁, hp, hrel.2⟩
    · have hrel := (exec_ask _ _).1 hrel
      cases hrel.1
  · intro h
    rcases h with ⟨w₁, hp, rfl⟩
    exact ⟨o, w₁, hp, Or.inl ⟨(exec_ask _ _).2 ⟨rfl, rfl⟩, rfl⟩⟩

theorem exec_requireSession (sid : UUID) (o : Except Exn UploadSession) :
    Exec (works env) (requireSession sid) w o w' ↔ w' = w ∧
      (w.session? sid = none ∧ o = .error (.entityNotFoundError "UploadSession" sid) ∨
        ∃ v, w.session? sid = some v ∧ o = .ok v) := by
  rw [requireSession, SessionRepository.get, exec_ask_bind]
  simp only [respond, RedisSessionRepository.get, onOk_ok]
  cases hv : w.session? sid with
  | none =>
      exact (exec_raise (S := Collab) _ o).trans (by simp [and_comm])
  | some v =>
      exact (exec_pure (S := Collab) v o).trans (by simp [and_comm])

theorem exec_requireSession_bind (sid : UUID) (f : UploadSession → Program β) (o : Except Exn β) :
    Exec (works env) (requireSession sid >>= f) w o w' ↔
      w.session? sid = none ∧ o = .error (.entityNotFoundError "UploadSession" sid) ∧ w' = w ∨
      ∃ v, w.session? sid = some v ∧ Exec (works env) (f v) w o w' := by
  rw [exec_bind]
  simp only [exec_requireSession]
  constructor
  · intro h
    rcases h with ⟨x, ⟨rfl, ⟨hv, hx⟩ | ⟨v, _, hx⟩⟩, rfl⟩ | ⟨v, w₁, ⟨rfl, ⟨_, hx⟩ | ⟨v', hv, hx⟩⟩, h⟩
    · cases hx
      exact Or.inl ⟨hv, rfl, rfl⟩
    · cases hx
    · cases hx
    · cases hx
      exact Or.inr ⟨v, hv, h⟩
  · intro h
    rcases h with ⟨hv, rfl, rfl⟩ | ⟨v, hv, h⟩
    · exact Or.inl ⟨_, ⟨rfl, Or.inl ⟨hv, rfl⟩⟩, rfl⟩
    · exact Or.inr ⟨v, w, ⟨rfl, Or.inr ⟨v, hv, rfl⟩⟩, h⟩

/-- Taking the lock of a session: it is taken already, or free. -/
theorem exec_acquireLock_bind (sid : UUID) (f : Program β) (o : Except Exn β) :
    Exec (works env) (do
      let locked ← SessionRepository.acquireLock sid RedisSessionRepository.lockTtl
      raiseIf (locked = false) (lockError sid)
      f) w o w' ↔
      (∃ v, w.lock? sid = some v) ∧ o = .error (lockError sid) ∧ w' = w ∨
      w.lock? sid = none ∧ Exec (works env) f (w.locking sid) o w' := by
  rw [SessionRepository.acquireLock, exec_ask_bind]
  simp only [respond, onOk_ok]
  rcases RedisSessionRepository.acquireLock_cases w sid RedisSessionRepository.lockTtl with
    ⟨v, hv, hres⟩ | ⟨hfree, hres⟩
  · rw [hres, exec_raiseIf_bind]
    simp [hv]
  · rw [hres, exec_raiseIf_bind]
    simp [hfree, World.locking]

end Rules

/-! ## Uploads -/

/-- A session that takes uploads. -/
def UploadSession.Open (v : UploadSession) : Prop := v.status ∉ [.completed, .aborted, .failed]

instance (v : UploadSession) : Decidable v.Open := by unfold UploadSession.Open; infer_instance

/-- The checks of an upload before anything is stored. -/
def Admits (env : Env) (v : UploadSession) (cs : String) (data : Bytes) : Prop :=
  data.length ≤ UploadChunkUseCase.maxChunkSize ∧
    (UploadChunkUseCase.minChunkSize ≤ data.length ∨
      v.currentOffset + data.length = v.totalSize) ∧
    lower (env.sha256 data) = lower cs

/-- An upload to `sid` gets as far as the chunk store. -/
structure Stores (env : Env) (w : World) (sid : UUID) (cs : String) (data : Bytes)
    (v : UploadSession) : Prop where
  live : w.session? sid = some v
  opened : v.Open
  free : w.lock? sid = none
  admits : Admits env v cs data

/-- The chunk that an upload stores. -/
def chunkOf (env : Env) (index : Int) (data : Bytes) : Chunk :=
  { index := index, size := data.length, checksum := env.sha256 data, rawBytes := data }

/-- What a stored upload leaves in the stores: the chunk is there in any case, the
session moves on only if the offset does. -/
def storing (env : Env) (w : World) (sid : UUID) (index : Int) (data : Bytes) :
    Except Exn UploadSession → World
  | .error _ => RedisChunkRepository.save w sid (chunkOf env index data)
  | .ok v' =>
      RedisSessionRepository.save (RedisChunkRepository.save w sid (chunkOf env index data)) v'

section Upload

variable {w w' : World} {sid : UUID} {index : Int} {cs : String} {data : Bytes}

/-- An upload that passes its checks stores its chunk, and then moves the offset. -/
theorem exec_process (v : UploadSession) (h : Admits env v cs data)
    (o : Except Exn UploadSession) :
    Exec (works env) (UploadChunkUseCase.process env v sid index cs data) w o w' ↔
      o = v.updateOffset data.length ∧ w' = storing env w sid index data o := by
  rcases h with ⟨hmax, hmin, hdigest⟩
  have hsize : ¬ data.length > UploadChunkUseCase.maxChunkSize := by omega
  have hlast : ¬ (data.length < UploadChunkUseCase.minChunkSize ∧
      ¬ v.currentOffset + data.length = v.totalSize) := by omega
  simp only [UploadChunkUseCase.process, exec_raiseIf_bind, ChunkRepository.save,
    SessionRepository.save, exec_ask_bind, respond, onOk_ok, exec_ofExcept_bind, hsize, hlast,
    hdigest, ne_eq, not_true_eq_false, false_and, false_or, not_false_eq_true, true_and]
  cases hmove : v.updateOffset data.length with
  | error x =>
      refine (exec_raise (S := Collab) x o).trans (and_congr_right fun ho => ?_)
      rw [ho]
      rfl
  | ok v' =>
      simp only [onOk_ok, exec_ask_bind, respond]
      refine (exec_pure (S := Collab) v' o).trans (and_congr_right fun ho => ?_)
      rw [ho]
      rfl

/-- An upload that fails a check stores nothing. -/
theorem process_refused {v : UploadSession} {o : Except Exn UploadSession}
    (h : Exec (works env) (UploadChunkUseCase.process env v sid index cs data) w o w')
    (hno : ¬ Admits env v cs data) : w' = w ∧ ∃ x, o = .error x := by
  simp only [UploadChunkUseCase.process, exec_raiseIf_bind] at h
  rcases h with ⟨_, ho, hw⟩ | ⟨hmax, ⟨_, ho, hw⟩ | ⟨hmin, ⟨_, ho, hw⟩ | ⟨hdigest, _⟩⟩⟩
  · exact ⟨hw, _, ho⟩
  · exact ⟨hw, _, ho⟩
  · exact ⟨hw, _, ho⟩
  · exact absurd ⟨by omega, by omega, not_not.1 hdigest⟩ hno

/-- The lock is set and released again, whatever is stored in between. -/
theorem storing_locking (o : Except Exn UploadSession) :
    (storing env (w.locking sid) sid index data o).unlocked sid =
      (storing env w sid index data o).unlocked sid := by
  cases o with
  | error x =>
      simp [storing, RedisChunkRepository.save, World.locking, World.unlocked, World.deadline]
  | ok v' =>
      simp [storing, RedisChunkRepository.save, RedisSessionRepository.save, World.locking,
        World.unlocked, World.deadline]

/-- An upload that gets as far as the chunk store. -/
theorem alone_upload {v : UploadSession} (h : Stores env w sid cs data v)
    (r : Except Exn Response) :
    Alone env (.uploadChunk sid index cs data) w r w' ↔
      r = (v.updateOffset data.length).map .uploaded ∧
        w' = (storing env w sid index data (v.updateOffset data.length)).unlocked sid := by
  have hopen : ¬ v.status ∈ [UploadStatus.completed, .aborted, .failed] := h.opened
  have hexec : ∀ o w', Exec (works env) (UploadChunkUseCase.execute env sid index cs data) w o w' ↔
      o = v.updateOffset data.length ∧ w' = (storing env w sid index data o).unlocked sid := by
    intro o w'
    simp only [UploadChunkUseCase.execute, exec_requireSession_bind, exec_raiseIf_bind,
      exec_acquireLock_bind, exec_releasing, h.live, h.free]
    simp only [reduceCtorEq, false_and, false_or, Option.some.injEq, exists_eq_left', exists_false,
      hopen, not_false_eq_true, true_and, exec_process v h.admits]
    constructor
    · intro hw
      rcases hw with ⟨_, ⟨ho, rfl⟩, rfl⟩
      exact ⟨ho, storing_locking o⟩
    · intro hw
      rcases hw with ⟨ho, rfl⟩
      exact ⟨_, ⟨ho, rfl⟩, (storing_locking o).symm⟩
  simp only [Alone, Op.prog, exec_map, hexec]
  constructor
  · intro hw
    rcases hw with ⟨_, ⟨rfl, hw⟩, hr⟩
    exact ⟨hr, hw⟩
  · intro hw
    exact ⟨_, ⟨rfl, hw.2⟩, hw.1⟩

/-- An upload that does not get there changes no more than an expired lock. -/
theorem upload_refused {r : Except Exn Response}
    (h : Alone env (.uploadChunk sid index cs data) w r w')
    (hno : ∀ v, ¬ Stores env w sid cs data v) : (w' = w ∨ w' = w.unlocked sid) ∧
      ∃ x, r = .error x := by
  simp only [Alone, Op.prog, exec_map, UploadChunkUseCase.execute, exec_requireSession_bind,
    exec_raiseIf_bind, exec_acquireLock_bind, exec_releasing] at h
  rcases h with ⟨o, ⟨_, rfl, rfl⟩ | ⟨v, hlive, ⟨_, rfl, rfl⟩ | ⟨hopen, ⟨_, rfl, rfl⟩ |
    ⟨hfree, w₁, hexec, rfl⟩⟩⟩, rfl⟩
  · exact ⟨Or.inl rfl, _, rfl⟩
  · exact ⟨Or.inl rfl, _, rfl⟩
  · exact ⟨Or.inl rfl, _, rfl⟩
  · have hadmits : ¬ Admits env v cs data := fun hadmits => hno v ⟨hlive, hopen, hfree, hadmits⟩
    rcases process_refused hexec hadmits with ⟨rfl, x, rfl⟩
    exact ⟨Or.inr (World.unlocked_locking w sid), _, rfl⟩

end Upload

/-! ## The other requests on a session -/

section Others

variable {w w' : World} {sid : UUID} {r : Except Exn Response}

/-- The session that an initiate stores. -/
def newSession (newId t f : UUID) (size : Int) (cs : String) : UploadSession :=
  { sessionId := newId, tenantId := t, fileId := f, totalSize := size, currentOffset := 0,
    checksum := cs, status := .initiated }

theorem alone_initiate (newId t f : UUID) (size : Int) (cs : String) :
    Alone env (.initiate newId t f size cs) w r w' ↔
      (∃ s3Uri, RedisMetadataRegistry.getByChecksum w t cs = some s3Uri ∧
        r = .ok (.initiated (none, some s3Uri)) ∧ w' = w) ∨
      RedisMetadataRegistry.getByChecksum w t cs = none ∧
        r = .ok (.initiated (some (newSession newId t f size cs), none)) ∧
        w' = RedisSessionRepository.save w (newSession newId t f size cs) := by
  simp only [Alone, Op.prog, exec_map, InitiateUploadUseCase.execute,
    MetadataRegistry.getByChecksum, SessionRepository.save, exec_ask_bind, respond, onOk_ok]
  cases hfound : RedisMetadataRegistry.getByChecksum w t cs with
  | some s3Uri =>
      simp only [exec_pure, and_assoc, exists_eq_left, Except.map, Option.some.injEq,
        exists_eq_left', reduceCtorEq, false_and, or_false]
      exact and_comm
  | none =>
      simp only [exec_ask_bind, respond, onOk_ok, exec_pure, and_assoc, exists_eq_left,
        Except.map, reduceCtorEq, false_and, exists_false, false_or, true_and]
      exact and_comm

/-- An abort finds no session or no free lock, or removes the session with its chunks. -/
theorem abort_cases (h : Alone env (.abort sid) w r w') :
    (∃ x, r = .error x) ∧ w' = w ∨
    (∃ v, w.session? sid = some v) ∧ r = .ok .aborted ∧
      w' = (RedisSessionRepository.delete (RedisChunkRepository.deleteAll w sid) sid).unlocked
        sid := by
  simp only [Alone, Op.prog, AbortUploadUseCase.execute, ChunkRepository.deleteAll,
    SessionRepository.delete, exec_map, exec_requireSession_bind, exec_acquireLock_bind,
    exec_releasing, exec_ask_bind, respond, onOk_ok, exec_ask] at h
  rcases h with ⟨o, ⟨_, rfl, rfl⟩ | ⟨v, hlive, ⟨_, rfl, rfl⟩ | ⟨_, w₁, ⟨rfl, rfl⟩, rfl⟩⟩, rfl⟩
  · exact Or.inl ⟨⟨_, rfl⟩, rfl⟩
  · exact Or.inl ⟨⟨_, rfl⟩, rfl⟩
  · refine Or.inr ⟨⟨v, hlive⟩, rfl, ?_⟩
    simp [World.locking, World.unlocked, RedisSessionRepository.delete,
      RedisChunkRepository.deleteAll]

/-- A query reports the session as it is stored. -/
theorem alone_query : Alone env (.query sid) w r w' ↔ w' = w ∧
    (w.session? sid = none ∧ r = .error (.entityNotFoundError "UploadSession" sid) ∨
      ∃ v, w.session? sid = some v ∧ r = .ok (.report
        ⟨v.sessionId, v.currentOffset, v.totalSize, statusStr v⟩)) := by
  simp only [Alone, Op.prog, querySession, exec_map, exec_requireSession]
  constructor
  · intro h
    rcases h with ⟨_, ⟨o, ⟨hw, ⟨hnone, rfl⟩ | ⟨v, hlive, rfl⟩⟩, rfl⟩, rfl⟩
    · exact ⟨hw, Or.inl ⟨hnone, rfl⟩⟩
    · exact ⟨hw, Or.inr ⟨v, hlive, rfl⟩⟩
  · intro h
    rcases h with ⟨hw, ⟨hnone, rfl⟩ | ⟨v, hlive, rfl⟩⟩
    · exact ⟨_, ⟨_, ⟨hw, Or.inl ⟨hnone, rfl⟩⟩, rfl⟩, rfl⟩
    · exact ⟨_, ⟨_, ⟨hw, Or.inr ⟨v, hlive, rfl⟩⟩, rfl⟩, rfl⟩

end Others

end FileUploader
