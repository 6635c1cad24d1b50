import FileUploader.Service

/-! # The locking discipline of the use cases

What a request does with its session, whatever the other requests do: it reads
the session once, takes the lock, and only under the lock stores what follows
from the copy it has read. `sessionDiscipline` states this call by call;
`prog_obeys` checks the five programs against it. The results about sessions
under concurrency use nothing else of the programs.
-/

namespace FileUploader

open Await

/-- The session takes chunks and can be finalized. -/
def UploadSession.Active (s : UploadSession) : Prop :=
  s.status ∉ [.completed, .aborted, .failed]

instance (s : UploadSession) : Decidable s.Active := inferInstanceAs (Decidable (_ ∉ _))

@[simp] theorem not_active_fail (s : UploadSession) : ¬ s.fail.Active := by
  simp [UploadSession.Active, UploadSession.fail]

/-- What a request knows of its session: the copy it read, whether it holds the
lock, what is stored as far as it can tell (`none` once it cannot), and which of
its writes were confirmed. -/
structure SessionLocal where
  op : Op
  copy : Option UploadSession
  held : Bool
  view : Option UploadSession
  wrote : Bool
  deleted : Bool
  /-- The release, or the save of a new session, has been called. -/
  closed : Bool
  /-- The release has been confirmed. -/
  freed : Bool

namespace SessionLocal

def start (op : Op) : SessionLocal := ⟨op, none, false, none, false, false, false, false⟩

/-- Inside the critical section of session `sid`. -/
def Owns (l : SessionLocal) (sid : UUID) : Prop := l.held = true ∧ l.op.target? = some sid

instance (l : SessionLocal) (sid : UUID) : Decidable (l.Owns sid) :=
  inferInstanceAs (Decidable (_ ∧ _))

def next (l : SessionLocal) : (c : Call) → Except Exn c.Resp → SessionLocal
  | .sessionGet _, .ok s => { l with copy := s }
  | .acquireLock _ _, .ok true => { l with held := true, view := l.copy }
  | .releaseLock _, .ok _ => { l with held := false, closed := true, freed := true }
  | .releaseLock _, .error _ => { l with held := false, closed := true }
  | .sessionSave s, .ok _ =>
      { l with view := some s, wrote := true, closed := l.closed || l.op.newId?.isSome }
  | .sessionSave _, .error _ => { l with view := none, closed := l.closed || l.op.newId?.isSome }
  | .sessionDelete _, .ok _ => { l with view := none, deleted := true }
  | .sessionDelete _, .error _ => { l with view := none }
  | _, _ => l

/-- A request may take the lock with copy `s`. -/
def Ready (s : UploadSession) : Op → Prop
  | .uploadChunk .. => s.Active
  | .finalize _ => s.Active ∧ s.currentOffset = s.totalSize
  | .abort _ => True
  | .initiate .. | .query _ => False

/-- A request that knows `v` to be stored may store `s`. -/
def Saves (v s : UploadSession) : Op → Prop
  | .uploadChunk _ _ _ data => v.Active ∧ v.updateOffset data.length = .ok s
  | .finalize _ => v.Active ∧ v.currentOffset = v.totalSize ∧ s = v.fail
  | .initiate .. | .abort _ | .query _ => False

/-- The session an initiate request creates. -/
def Creates (s : UploadSession) : Op → Prop
  | .initiate newId t f size cs => s = ⟨newId, t, f, size, 0, cs, .initiated⟩
  | _ => False

def allows (env : Env) (l : SessionLocal) : Call → Prop
  | .sessionGet sid => l.op.target? = some sid ∧ l.copy = none ∧ l.closed = false
  | .acquireLock sid ttl =>
      l.op.target? = some sid ∧ ttl = RedisSessionRepository.lockTtl ∧ l.held = false ∧
        l.closed = false ∧ ∃ s, l.copy = some s ∧ Ready s l.op
  | .releaseLock sid => l.Owns sid
  | .sessionSave s =>
      (Creates s l.op ∧ l.closed = false) ∨
      (l.Owns s.sessionId ∧ l.wrote = false ∧ ∃ v, l.view = some v ∧ Saves v s l.op)
  | .sessionDelete sid => l.Owns sid ∧ l.view ≠ none ∧ (l.op = .finalize sid ∨ l.op = .abort sid)
  | .chunkSave sid chunk =>
      l.Owns sid ∧ l.wrote = false ∧ (∃ v, l.view = some v ∧ v.Active) ∧
        ∃ index cs data, l.op = .uploadChunk sid index cs data ∧
          chunk = ⟨index, data.length, env.sha256 data, data⟩
  | .deleteAll sid => l.Owns sid ∧ (l.op = .finalize sid ∨ l.op = .abort sid)
  | .chunkGet sid _ | .chunkPull sid _ => l.Owns sid ∧ l.op = .finalize sid
  | .getByChecksum _ _ => l.op.target? = none ∧ l.closed = false
  | .registerFile .. | .initiateMultipartUpload _ _ | .uploadPart .. | .completeMultipartUpload ..
  | .abortMultipartUpload .. | .publishFileUploadCompleted _ =>
      ∃ sid, l.Owns sid ∧ l.op = .finalize sid

end SessionLocal

/-- A session is stored under its own id, so that is how it is read back. -/
def sessionDiscipline (env : Env) : Discipline Collab SessionLocal where
  next := SessionLocal.next
  allows := SessionLocal.allows env
  expects := fun _ c r =>
    match c, r with
    | .sessionGet sid, .ok (some s) => s.sessionId = sid
    | _, _ => True
  loops := fun l => ∃ sid, l.Owns sid ∧ l.op = .finalize sid

/-- What the local state tells about the result: an upload succeeds exactly if
its save and its release were confirmed, a finalize succeeds only if its
deletion of the session was. -/
def sessionPost : Op → Except Exn Response → SessionLocal → Prop
  | .uploadChunk .., r, l => (∃ a, r = .ok a) ↔ l.wrote = true ∧ l.freed = true
  | .finalize _, r, l => (∃ a, r = .ok a) → l.deleted = true
  | .initiate .., _, _ | .abort _, _, _ | .query _, _, _ => True

section Obeys

open SessionLocal

variable (env : Env)

@[simp] theorem sessionDiscipline_next : (sessionDiscipline env).next = SessionLocal.next := rfl

@[simp] theorem sessionDiscipline_allows :
    (sessionDiscipline env).allows = SessionLocal.allows env := rfl

@[simp] theorem sessionDiscipline_expects (l : SessionLocal) (c : Call) (r : Except Exn c.Resp) :
    (sessionDiscipline env).expects l c r =
      match c, r with
      | .sessionGet sid, .ok (some s) => s.sessionId = sid
      | _, _ => True := rfl

@[simp] theorem sessionDiscipline_loops (l : SessionLocal) :
    (sessionDiscipline env).loops l = ∃ sid, l.Owns sid ∧ l.op = .finalize sid := rfl

/-! ## The programs keep the discipline -/

@[simp] theorem SessionLocal.next_op (l : SessionLocal) (c : Call) (r : Except Exn c.Resp) :
    (l.next c r).op = l.op := by
  cases c with
  | acquireLock sid ttl => rcases r with x | _ | _ <;> simp [SessionLocal.next]
  | _ => rcases r with x | a <;> simp [SessionLocal.next]

/-- In the critical section, with `v` known to be stored and nothing written yet. -/
structure SessionLocal.Inside (l : SessionLocal) (op : Op) (v : UploadSession) : Prop where
  op_eq : l.op = op
  held : l.held = true
  view : l.view = some v
  wrote : l.wrote = false
  deleted : l.deleted = false
  freed : l.freed = false

/-- Inside the critical section, the request holds the lock of the session in its URL. -/
theorem SessionLocal.Inside.owns {l : SessionLocal} {op : Op} {v : UploadSession}
    (h : l.Inside op v) {sid : UUID} (hop : op.target? = some sid) : l.Owns sid :=
  ⟨h.held, by rw [h.op_eq, hop]⟩

/-- The locked part of an upload saves the session exactly if it returns. -/
theorem process_obeys {session : UploadSession} {sid : UUID} {index : Int} {cs : String}
    {data : Bytes} {l : SessionLocal} (h : l.Inside (.uploadChunk sid index cs data) session)
    (hid : session.sessionId = sid) (hact : session.Active) :
    Obeys (sessionDiscipline env) (UploadChunkUseCase.process env session sid index cs data) l
      (fun r l' => l'.op = l.op ∧ l'.held = true ∧ l'.freed = false ∧
        ((∃ a, r = .ok a) ↔ l'.wrote = true)) := by
  have hown : l.Owns sid := h.owns rfl
  obtain ⟨hop, hheld, hview, hwrote, -, hfreed⟩ := h
  simp only [UploadChunkUseCase.process, ChunkRepository.save, SessionRepository.save, obeys_bind,
    obeys_raiseIf, obeys_await, obeys_ofExcept, Prog.onOk_ok, Prog.onOk_error, obeys_raise,
    sessionDiscipline_next, sessionDiscipline_allows, sessionDiscipline_expects]
  refine ⟨?_, fun _ => ⟨?_, fun _ => ⟨?_, fun _ => ⟨?_, ?_, ?_⟩⟩⟩⟩
  · simp [hheld, hwrote, hfreed]
  · simp [hheld, hwrote, hfreed]
  · simp [hheld, hwrote, hfreed]
  · exact ⟨hown, hwrote, ⟨session, hview, hact⟩, index, cs, data, hop, rfl⟩
  · simp [SessionLocal.next, hheld, hwrote, hfreed]
  · rintro _ -
    -- the chunk is stored; the session is saved only if the offset fits
    cases hup : session.updateOffset data.length with
    | error x => simp [SessionLocal.next, hheld, hwrote, hfreed]
    | ok s' =>
        have hid' : s'.sessionId = sid := (UploadSession.updateOffset_ok hup).2.2.2.1.trans hid
        simp only [Prog.onOk_ok, obeys_bind, obeys_await, Prog.onOk_error, obeys_raise, obeys_pure,
          sessionDiscipline_next, sessionDiscipline_allows, sessionDiscipline_expects]
        refine ⟨Or.inr ⟨?_, hwrote, session, hview, ?_⟩, ?_, ?_⟩
        · rw [hid']
          exact hown
        · simp [SessionLocal.next, SessionLocal.Saves, hop, hact, hup]
        · simp [SessionLocal.next, hheld, hwrote, hfreed]
        · simp [SessionLocal.next, hheld, hfreed]

/-- Scanning only reads. -/
theorem scanStream_obeys {session : UploadSession} {sid : UUID} {l : SessionLocal}
    (h : l.Inside (.finalize sid) session) :
    Obeys (sessionDiscipline env)
      (LocalVirusScanner.scanStream (ChunkRepository.getStream sid) 0) l (fun _ l' => l' = l) := by
  have hown : l.Owns sid := h.owns rfl
  refine obeys_loop (fun _ l' => l' = l) rfl ?_ ?_
  · rintro _ _ rfl
    exact ⟨sid, hown, h.op_eq⟩
  · rintro index _ rfl
    simp only [ChunkRepository.getStream, obeys_bind, obeys_await, Prog.onOk_ok, Prog.onOk_error,
      obeys_raise, Option.forall, obeys_pure, sessionDiscipline_next, sessionDiscipline_allows,
      sessionDiscipline_expects]
    refine ⟨⟨hown, h.op_eq⟩, fun _ _ => rfl, fun _ => rfl, ?_⟩
    intro data _
    split
    · simp [SessionLocal.next]
    · simp [SessionLocal.next]

/-- A scan that finds malware saves the failed session and deletes it, under the lock. -/
theorem scan_obeys {session : UploadSession} {sid : UUID} {l : SessionLocal}
    (h : l.Inside (.finalize sid) session) (hid : session.sessionId = sid) (hact : session.Active)
    (hoff : session.currentOffset = session.totalSize) :
    Obeys (sessionDiscipline env) (FinalizeUploadUseCase.scan session sid) l
      (fun r l' => l'.op = l.op ∧ l'.held = true ∧ ∀ a, r = .ok a → l' = l) := by
  rw [FinalizeUploadUseCase.scan, obeys_tryExcept]
  refine (scanStream_obeys env h).mono ?_
  obtain ⟨hop, hheld, hview, hwrote, -, -⟩ := h
  rintro (x | a) _ rfl
  · simp only [Prog.onError_error]
    split
    · -- malware: the session is failed, purged and deleted
      simp [SessionRepository.save, ChunkRepository.deleteAll, SessionRepository.delete,
        SessionLocal.next, SessionLocal.allows, Owns, hop, hheld, hview, hwrote, Saves, hact, hoff,
        UploadSession.fail, hid, Op.target?]
    · simp [hheld]
  · simp [hheld]

theorem uploadParts_obeys {session : UploadSession} {sid : UUID} {l : SessionLocal}
    (h : l.Inside (.finalize sid) session) (uploadId : Nat) :
    Obeys (sessionDiscipline env) (FinalizeUploadUseCase.uploadParts session sid uploadId) l
      (fun _ l' => l' = l) := by
  have hown : l.Owns sid := h.owns rfl
  refine obeys_loop (fun _ l' => l' = l) rfl ?_ ?_
  · rintro _ _ rfl
    exact ⟨sid, hown, h.op_eq⟩
  · rintro ⟨partNumber, parts⟩ _ rfl
    simp [ChunkRepository.get, ObjectStorage.uploadPart, Option.forall, SessionLocal.next,
      SessionLocal.allows, h.op_eq, Owns, h.held, Op.target?]

/-- A failed assembly stores the session as failed; a successful one writes to S3 only. -/
theorem assemble_obeys {session : UploadSession} {sid : UUID} {l : SessionLocal}
    (h : l.Inside (.finalize sid) session) (hid : session.sessionId = sid) (hact : session.Active)
    (hoff : session.currentOffset = session.totalSize) :
    Obeys (sessionDiscipline env) (FinalizeUploadUseCase.assemble session sid) l
      (fun r l' => l'.op = l.op ∧ l'.held = true ∧ ∀ a, r = .ok a → l' = l) := by
  have hown : ∃ sid', l.Owns sid' ∧ l.op = .finalize sid' := ⟨sid, h.owns rfl, h.op_eq⟩
  have hfail : l.allows env (.sessionSave session.fail) :=
    Or.inr ⟨h.owns (congrArg some hid.symm), h.wrote, session, h.view, by
      simp [Saves, h.op_eq, hact, hoff]⟩
  simp only [FinalizeUploadUseCase.assemble, ObjectStorage.initiateMultipartUpload,
    ObjectStorage.completeMultipartUpload, ObjectStorage.abortMultipartUpload,
    SessionRepository.save, obeys_bind, obeys_await]
  refine ⟨hown, by simp [SessionLocal.next, h.held], ?_⟩
  rintro uploadId -
  simp only [Prog.onOk_ok, obeys_tryExcept, obeys_bind]
  refine (uploadParts_obeys env (l := l) h uploadId).mono ?_
  rintro (x | parts) _ rfl
  · simp [SessionLocal.next, h.held, hfail]
    exact hown
  · simp [SessionLocal.next, h.held, hfail]
    exact ⟨hown, fun _ => hown⟩

/-- A finalize that returns has deleted its session. -/
theorem publish_obeys {session : UploadSession} {sid : UUID} {l : SessionLocal}
    (h : l.Inside (.finalize sid) session) (uri : String) :
    Obeys (sessionDiscipline env) (FinalizeUploadUseCase.publish session sid uri) l
      (fun r l' => l'.op = l.op ∧ l'.held = true ∧ ((∃ a, r = .ok a) → l'.deleted = true)) := by
  have hown : ∃ sid', l.Owns sid' ∧ l.op = .finalize sid' := ⟨sid, h.owns rfl, h.op_eq⟩
  simp only [FinalizeUploadUseCase.publish, MetadataRegistry.registerFile,
    EventPublisher.publishFileUploadCompleted, ChunkRepository.deleteAll, SessionRepository.delete,
    obeys_bind, obeys_await, obeys_ofExcept, Prog.onOk_ok, Prog.onOk_error, obeys_raise]
  refine ⟨hown, by simp [SessionLocal.next, h.held], fun _ _ => ⟨hown, ?_, fun _ _ => ?_⟩⟩
  · simp [SessionLocal.next, h.held]
  · cases session.complete with
    | error x => simp [SessionLocal.next, h.held]
    | ok _ =>
        simp [SessionLocal.next, SessionLocal.allows, h.held, h.op_eq, h.view, Owns, Op.target?]

/-- A finalize reads the session before it takes the lock; whatever it saves or deletes then, it
does before the release. -/
theorem finalize_obeys (sid : UUID) :
    Obeys (sessionDiscipline env) (Op.prog env (.finalize sid)) (start (.finalize sid))
      (sessionPost (.finalize sid)) := by
  -- however the critical section ends, the lock is released
  have hrelease : ∀ (l : SessionLocal) (r : Except Exn String), l.op = .finalize sid →
      l.held = true → ((∃ a, r = .ok a) → l.deleted = true) →
      Obeys (sessionDiscipline env) (SessionRepository.releaseLock sid) l (fun r' l' =>
        Obeys (sessionDiscipline env) (Prog.onOk (fun _ => .done r) r') l' (fun r'' l'' =>
          Obeys (sessionDiscipline env) (Prog.onOk (fun uri => pure (Response.finalized uri)) r'')
            l'' (sessionPost (.finalize sid)))) := by
    intro l r hop hheld hr
    rcases r with x | uri
    · simp [SessionRepository.releaseLock, SessionLocal.allows, Owns, hop, hheld, Op.target?,
        sessionPost]
    · simp [SessionRepository.releaseLock, SessionLocal.allows, SessionLocal.next, Owns, hop,
        hheld, Op.target?, sessionPost] at hr ⊢
      exact hr
  simp only [Op.prog, FinalizeUploadUseCase.execute, requireSession, SessionRepository.get,
    SessionRepository.acquireLock, obeys_bind, obeys_await, obeys_raiseIf, obeys_tryFinally,
    Prog.onOk_ok, Prog.onOk_error, obeys_raise, obeys_pure, Option.forall, Bool.forall_bool,
    sessionDiscipline_next, sessionDiscipline_allows, sessionDiscipline_expects]
  refine ⟨⟨rfl, rfl, rfl⟩, by simp [sessionPost], by simp [sessionPost], ?_⟩
  intro session hid
  refine ⟨by simp [sessionPost], fun hst => ⟨by simp [sessionPost], fun hst' =>
    ⟨by simp [sessionPost], fun hoff => ?_⟩⟩⟩
  -- what the three checks have let through
  have hact : session.Active := by
    simp only [UploadSession.Active, List.mem_cons] at hst' ⊢
    tauto
  have hoff : session.currentOffset = session.totalSize := by simpa using hoff
  refine ⟨⟨rfl, rfl, rfl, rfl, session, rfl, hact, hoff⟩, by simp [sessionPost],
    by simp [sessionPost], fun _ => ⟨by simp, fun _ => ?_⟩⟩
  -- in the critical section
  have hin : Inside ((start (.finalize sid)).next (.sessionGet sid) (.ok (some session)) |>.next
      (.acquireLock sid RedisSessionRepository.lockTtl) (.ok true)) (.finalize sid) session :=
    ⟨rfl, rfl, rfl, rfl, rfl, rfl⟩
  refine (scan_obeys env hin hid hact hoff).mono ?_
  rintro (x | clean) l' ⟨hop, hheld, hl⟩
  · exact hrelease l' _ (hop.trans hin.op_eq) hheld (by simp)
  · obtain rfl := hl clean rfl
    simp only [Prog.onOk_ok, obeys_bind]
    refine (assemble_obeys env hin hid hact hoff).mono ?_
    rintro (x | uri) l' ⟨hop, hheld, hl⟩
    · exact hrelease l' _ (hop.trans hin.op_eq) hheld (by simp)
    · obtain rfl := hl uri rfl
      refine (publish_obeys env hin uri).mono ?_
      rintro r l' ⟨hop, hheld, hdel⟩
      exact hrelease l' r (hop.trans hin.op_eq) hheld hdel

/-- An upload saves the session that it read before the lock, moved on by its chunk. -/
theorem uploadChunk_obeys (sid : UUID) (index : Int) (cs : String) (data : Bytes) :
    Obeys (sessionDiscipline env) (Op.prog env (.uploadChunk sid index cs data))
      (start (.uploadChunk sid index cs data)) (sessionPost (.uploadChunk sid index cs data)) := by
  simp only [Op.prog, UploadChunkUseCase.execute, requireSession, SessionRepository.get,
    SessionRepository.acquireLock, obeys_bind, obeys_await, obeys_raiseIf, obeys_tryFinally,
    Prog.onOk_ok, Prog.onOk_error, obeys_raise, obeys_pure, Option.forall, Bool.forall_bool,
    sessionDiscipline_next, sessionDiscipline_allows, sessionDiscipline_expects]
  refine ⟨⟨rfl, rfl, rfl⟩, by simp [sessionPost, SessionLocal.next, start],
    by simp [sessionPost, SessionLocal.next, start], ?_⟩
  intro session hid
  refine ⟨by simp [sessionPost, SessionLocal.next, start], fun hact => ?_⟩
  refine ⟨⟨rfl, rfl, rfl, rfl, session, rfl, hact⟩,
    by simp [sessionPost, SessionLocal.next, start],
    by simp [sessionPost, SessionLocal.next, start], fun _ => ⟨by simp, fun _ => ?_⟩⟩
  have hin : Inside ((start (.uploadChunk sid index cs data)).next (.sessionGet sid)
      (.ok (some session)) |>.next (.acquireLock sid RedisSessionRepository.lockTtl) (.ok true))
      (.uploadChunk sid index cs data) session := ⟨rfl, rfl, rfl, rfl, rfl, rfl⟩
  refine (process_obeys env hin hid hact).mono ?_
  rintro r l' ⟨hop, hheld, hfreed, hwrote⟩
  rcases r with x | s
  · simp [SessionRepository.releaseLock, SessionLocal.allows, SessionLocal.next, Owns,
      hop.trans hin.op_eq, hheld, Op.target?, sessionPost] at hwrote ⊢
    simp [hwrote]
  · simp [SessionRepository.releaseLock, SessionLocal.allows, SessionLocal.next, Owns,
      hop.trans hin.op_eq, hheld, Op.target?, sessionPost, hfreed] at hwrote ⊢
    exact hwrote

theorem abort_obeys (sid : UUID) :
    Obeys (sessionDiscipline env) (Op.prog env (.abort sid)) (start (.abort sid))
      (sessionPost (.abort sid)) := by
  simp [Op.prog, AbortUploadUseCase.execute, requireSession, SessionRepository.get,
    SessionRepository.acquireLock, SessionRepository.releaseLock, SessionRepository.delete,
    ChunkRepository.deleteAll, Option.forall, SessionLocal.allows,
    SessionLocal.next, Owns, Op.target?, sessionPost, start, Ready]

theorem initiate_obeys (newId t f : UUID) (size : Int) (cs : String) :
    Obeys (sessionDiscipline env) (Op.prog env (.initiate newId t f size cs))
      (start (.initiate newId t f size cs)) (sessionPost (.initiate newId t f size cs)) := by
  simp [Op.prog, InitiateUploadUseCase.execute, MetadataRegistry.getByChecksum,
    SessionRepository.save, Option.forall, SessionLocal.allows, SessionLocal.next, Op.target?,
    sessionPost, start, Creates]

theorem query_obeys (sid : UUID) :
    Obeys (sessionDiscipline env) (Op.prog env (.query sid)) (start (.query sid))
      (sessionPost (.query sid)) := by
  simp [Op.prog, querySession, requireSession, SessionRepository.get, Option.forall,
    SessionLocal.allows, Op.target?, sessionPost, start]

/-- Every request keeps the discipline, whatever it is answered. -/
theorem prog_obeys (op : Op) :
    Obeys (sessionDiscipline env) (Op.prog env op) (start op) (sessionPost op) := by
  cases op with
  | initiate newId t f size cs => exact initiate_obeys env newId t f size cs
  | uploadChunk sid index cs data => exact uploadChunk_obeys env sid index cs data
  | finalize sid => exact finalize_obeys env sid
  | abort sid => exact abort_obeys env sid
  | query sid => exact query_obeys env sid

end Obeys

end FileUploader
