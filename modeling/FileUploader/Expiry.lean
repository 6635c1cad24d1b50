import FileUploader.Locking
import FileUploader.Truncation

/-! # Sessions and the expiry of their chunks

Every save of a session renews its deadline, but a chunk keeps the deadline that it got
when it was stored. In runs of requests one after the other, with pauses of any length
before each call, a session that takes uploads still has the chunks that were last
stored for it, as far as their own time has not run out.
-/

namespace FileUploader

open Await

variable {env : Env}

/-! ## Requests one at a time -/

/-- A request starts only when all requests before it have ended. -/
def oneAtATime (c : Run env) : Label (service env) → Bool
  | .spawn _ => (List.range c.requests.length).all fun i => (c.result i).isSome
  | _ => true

/-- All requests but the last one have ended. -/
def Sequential (c : Run env) : Prop := ∀ i op p, c.requests[i]? = some ⟨op, p⟩ →
  i + 1 < c.requests.length → ∃ r, p = .done r

theorem ended_of_result {c : Run env} {i : Nat} {op : Op} {p : Program Response}
    (hreq : c.requests[i]? = some ⟨op, p⟩) (h : (c.result i).isSome) : ∃ r, p = .done r := by
  unfold Config.result at h
  rw [hreq] at h
  cases p with
  | done r => exact ⟨r, rfl⟩
  | call cl k => cases h
  | iter body a k => cases h

/-- One at a time: all requests but the last have ended. -/
theorem reach_sequential {G : Run env → Label (service env) → Prop}
    (hG : ∀ c l, G c l → oneAtATime c l) {w : World} {c : Run env}
    (h : Reach G (Config.start w) c) : Sequential c := by
  induction h with
  | start => simp [Sequential, Config.start]
  | @step c c' l _ hg hs ih =>
      -- a request that has ended stays as it is
      have hset : ∀ (i : Nat) (op : Op) (p q : Program Response),
          c.requests[i]? = some ⟨op, p⟩ → (¬ ∃ r, p = .done r) →
          ∀ j op' p', (c.requests.set i ⟨op, q⟩)[j]? = some ⟨op', p'⟩ →
            j + 1 < (c.requests.set i ⟨op, q⟩).length → ∃ r, p' = .done r := by
        intro i op p q hreq hlive j op' p' hj hlt
        rw [List.length_set] at hlt
        by_cases hij : i = j
        · subst hij
          exact absurd (ih i op p hreq hlt) hlive
        · rw [List.getElem?_set_ne hij] at hj
          exact ih j op' p' hj hlt
      rcases step_cases hs with ⟨op, rfl, rfl⟩ | ⟨_, _, rfl⟩ |
        ⟨i, op, A, B, body, a, k, _, hreq, rfl⟩ | ⟨i, out, op, cl, k, _, hreq, rfl⟩
      · intro i op' p hreq hlt
        -- a new request comes only when all have ended
        have hended := hG _ _ hg
        simp only [oneAtATime, List.all_eq_true, List.mem_range] at hended
        have hi : i < c.requests.length := by
          simp only [Config.spawn, List.length_append, List.length_singleton] at hlt
          omega
        simp only [Config.spawn, List.getElem?_append_left hi] at hreq
        exact ended_of_result hreq (hended i hi)
      · exact ih
      · apply hset i op _ _ hreq
        rintro ⟨_, hr⟩
        cases hr
      · apply hset i op _ _ hreq
        rintro ⟨_, hr⟩
        cases hr

/-! ## The two deletions -/

/-- The session whose chunks a request has deleted with its last call. -/
def owed : Option UUID → (c : Call) → Except Exn c.Resp → Option UUID
  | _, .deleteAll sid, _ => some sid
  | _, _, _ => none

/-- The deletion of the chunks, when it goes through, is followed at once by the deletion
of the session. -/
def owingDiscipline : Discipline Collab (Option UUID) where
  next := owed
  allows := fun l c => ∀ sid, l = some sid → c = .sessionDelete sid
  expects := fun _ c r => ∀ sid, c = .deleteAll sid → ∃ a, r = .ok a
  loops := fun l => l = none

namespace Owing

@[simp] theorem owingDiscipline_next : owingDiscipline.next = owed := rfl

@[simp] theorem owingDiscipline_allows (l : Option UUID) (c : Call) :
    owingDiscipline.allows l c = ∀ sid, l = some sid → c = .sessionDelete sid := rfl

@[simp] theorem owingDiscipline_expects (l : Option UUID) (c : Call) (r : Except Exn c.Resp) :
    owingDiscipline.expects l c r = ∀ sid, c = .deleteAll sid → ∃ a, r = .ok a := rfl

@[simp] theorem owingDiscipline_loops (l : Option UUID) :
    owingDiscipline.loops l = (l = none) := rfl

/-- A scan that finds no malware stores nothing; the purge deletes the chunks and then the
session. -/
theorem scan_obeys (sid : UUID) (s : UploadSession) :
    Obeys owingDiscipline (FinalizeUploadUseCase.scan s sid) none (fun _ l => l = none) := by
  have hstream : Obeys owingDiscipline
      (LocalVirusScanner.scanStream (ChunkRepository.getStream sid) 0) none
      (fun _ l => l = none) := by
    refine obeys_loop (fun _ l => l = none) rfl (fun _ _ h => h) ?_
    rintro index l rfl
    simp only [ChunkRepository.getStream, obeys_bind, obeys_await, Prog.onOk_ok, Prog.onOk_error,
      obeys_raise, Option.forall, obeys_pure, owingDiscipline_next, owingDiscipline_allows,
      owingDiscipline_expects]
    refine ⟨by simp, fun _ _ => rfl, fun _ => rfl, ?_⟩
    intro data _
    split
    · simp [owed]
    · simp [owed]
  rw [FinalizeUploadUseCase.scan, obeys_tryExcept]
  refine hstream.mono ?_
  rintro (x | a) _ rfl
  · simp only [Prog.onError_error]
    split
    · simp [SessionRepository.save, ChunkRepository.deleteAll, SessionRepository.delete, owed]
    · simp
  · simp

theorem assemble_obeys (sid : UUID) (s : UploadSession) :
    Obeys owingDiscipline (FinalizeUploadUseCase.assemble s sid) none (fun _ l => l = none) := by
  have hparts : ∀ uploadId, Obeys owingDiscipline
      (FinalizeUploadUseCase.uploadParts s sid uploadId) none (fun _ l => l = none) := by
    intro uploadId
    refine obeys_loop (fun _ l => l = none) rfl (fun _ _ h => h) ?_
    rintro ⟨partNumber, parts⟩ l rfl
    simp [ChunkRepository.get, ObjectStorage.uploadPart, Option.forall, owed]
  simp only [FinalizeUploadUseCase.assemble, ObjectStorage.initiateMultipartUpload,
    ObjectStorage.completeMultipartUpload, obeys_bind, obeys_await, owingDiscipline_next,
    owingDiscipline_allows]
  refine ⟨by simp, by simp [owed], fun uploadId _ => ?_⟩
  simp only [Prog.onOk_ok, obeys_tryExcept, obeys_bind]
  refine (hparts uploadId).mono ?_
  rintro (x | parts) _ rfl
  · simp [ObjectStorage.abortMultipartUpload, SessionRepository.save, owed]
  · simp [ObjectStorage.abortMultipartUpload, SessionRepository.save, owed]

theorem publish_obeys (sid : UUID) (s : UploadSession) (s3Uri : String) :
    Obeys owingDiscipline (FinalizeUploadUseCase.publish s sid s3Uri) none
      (fun _ l => l = none) := by
  simp only [FinalizeUploadUseCase.publish, MetadataRegistry.registerFile,
    EventPublisher.publishFileUploadCompleted, ChunkRepository.deleteAll, SessionRepository.delete,
    obeys_bind, obeys_await, obeys_ofExcept, Prog.onOk_ok, Prog.onOk_error, obeys_raise,
    owingDiscipline_next, owingDiscipline_allows, owingDiscipline_expects]
  refine ⟨by simp, fun _ _ => rfl, fun _ _ => ⟨by simp [owed], fun _ _ => rfl, fun _ _ => ?_⟩⟩
  cases s.complete with
  | error x => simp [owed]
  | ok _ => simp [owed]

theorem finalize_obeys (env : Env) (sid : UUID) :
    Obeys owingDiscipline (Op.prog env (.finalize sid)) none (fun _ l => l = none) := by
  have hrelease : ∀ (r : Except Exn String),
      Obeys owingDiscipline (SessionRepository.releaseLock sid) none (fun r' l' =>
        Obeys owingDiscipline (Prog.onOk (fun _ => .done r) r') l' (fun r'' l'' =>
          Obeys owingDiscipline (Prog.onOk (fun uri => pure (Response.finalized uri)) r'')
            l'' (fun _ l => l = none))) := by
    intro r
    cases r <;> simp [SessionRepository.releaseLock, owed]
  simp only [Op.prog, FinalizeUploadUseCase.execute, requireSession, SessionRepository.get,
    SessionRepository.acquireLock, obeys_bind, obeys_await, obeys_raiseIf, obeys_tryFinally,
    Prog.onOk_ok, Prog.onOk_error, obeys_raise, obeys_pure, Option.forall, Bool.forall_bool,
    owingDiscipline_next, owingDiscipline_allows]
  refine ⟨by simp, by simp [owed], by simp [owed], fun s _ => ⟨by simp [owed], fun _ =>
    ⟨by simp [owed], fun _ => ⟨by simp [owed], fun _ => ⟨by simp [owed], by simp [owed],
      by simp [owed], fun _ => ⟨by simp, fun _ => ?_⟩⟩⟩⟩⟩⟩
  refine (scan_obeys sid s).mono ?_
  rintro (x | clean) _ rfl
  · exact hrelease _
  · simp only [Prog.onOk_ok, obeys_bind]
    refine (assemble_obeys sid s).mono ?_
    rintro (x | uri) _ rfl
    · exact hrelease _
    · refine (publish_obeys sid s uri).mono ?_
      rintro r _ rfl
      exact hrelease r

/-- Every request deletes a session after its chunks. -/
theorem prog_obeys (env : Env) (op : Op) :
    Obeys owingDiscipline (Op.prog env op) none (fun _ l => l = none) := by
  cases op with
  | finalize sid => exact finalize_obeys env sid
  | initiate newId t f size cs =>
      simp [Op.prog, InitiateUploadUseCase.execute, MetadataRegistry.getByChecksum,
        SessionRepository.save, Option.forall, owed]
  | uploadChunk sid index cs data =>
      simp [Op.prog, UploadChunkUseCase.execute, UploadChunkUseCase.process, requireSession,
        SessionRepository.get, SessionRepository.acquireLock, SessionRepository.releaseLock,
        SessionRepository.save, ChunkRepository.save, Option.forall, owed]
      intro s _ _ _ _
      cases s.updateOffset data.length with
      | error x => simp
      | ok updated => simp [owed]
  | abort sid =>
      simp [Op.prog, AbortUploadUseCase.execute, requireSession, SessionRepository.get,
        SessionRepository.acquireLock, SessionRepository.releaseLock, SessionRepository.delete,
        ChunkRepository.deleteAll, Option.forall, owed]
  | query sid =>
      simp [Op.prog, querySession, requireSession, SessionRepository.get, Option.forall, owed]

end Owing

/-- Requests run one at a time, and delete a session at once after its chunks. -/
structure Stepwise (c : Run env) : Prop where
  sequential : Sequential c
  obeys : ∀ i op p, c.requests[i]? = some ⟨op, p⟩ → Obeys owingDiscipline p
    (c.scene.localOf owingDiscipline (fun _ => none) i op) (fun _ l => l = none)

/-- When a request has deleted the chunks of its session, its next call deletes the session. -/
theorem reach_stepwise {G : Run env → Label (service env) → Prop}
    (hG : ∀ c l, G c l → oneAtATime c l ∧ noFaults l) {w : World} {c : Run env}
    (h : Reach G (Config.start w) c) : Stepwise c := by
  have hind : Inductive owingDiscipline (fun _ => none) (fun (_ : Run env) l => noFaults l)
      (fun _ => True) := by
    refine ⟨fun _ _ _ _ _ => trivial, fun _ _ _ _ => trivial, ?_⟩
    intro c i op cl out hg _ _ _ _
    refine ⟨?_, trivial⟩
    rintro sid rfl
    have hworks : out = .works := by simpa [noFaults] using hg
    subst hworks
    exact ⟨(), rfl⟩
  exact ⟨reach_sequential (fun c l hg => (hG c l hg).1) h,
    ((h.mono fun c l hg => (hG c l hg).2).invariant (fun _ _ l => l = none)
      (fun _ op _ => Owing.prog_obeys env op) hind trivial).2.2⟩

section Stepwise

variable {c : Run env} {i : Nat} {op : Op} {cl : Call} {e : Entry (service env)} {sid : UUID}

theorem localOf_last {log : Log env} (h : log.getLast? = some e) (hcall : e.call = .deleteAll sid) :
    owingDiscipline.replay none (callsOf e.rid log) = some sid := by
  rcases List.getLast?_eq_some_iff.1 h with ⟨before, rfl⟩
  rw [callsOf_append_self, replay_append]
  rcases e with ⟨rid, call, r, w⟩
  subst hcall
  rfl

/-- The request that makes a call is the last one. -/
theorem Stepwise.last (h : Stepwise c) (hpending : c.pending i = some cl) :
    i + 1 = c.requests.length := by
  unfold Config.pending at hpending
  split at hpending
  · rename_i op cl' k hreq
    have hi := (List.getElem?_eq_some_iff.1 hreq).1
    by_contra hne
    rcases h.sequential i op _ hreq (by omega) with ⟨r, hr⟩
    cases hr
  · cases hpending

/-- After the deletion of the chunks comes the deletion of the session. -/
theorem Stepwise.next_call (h : Stepwise c) (hwf : c.scene.Wf) (hlast : c.log.getLast? = some e)
    (hcall : e.call = .deleteAll sid) (hpending : c.pending i = some cl) :
    cl = .sessionDelete sid := by
  have hlocal := localOf_last hlast hcall
  have hrid : e.rid < c.ops.length := hwf e (List.mem_of_getLast? hlast)
  rw [Config.ops, List.length_map] at hrid
  -- the request that has made the deletion has not ended, so it makes the call
  have hopen : ∀ op p, c.requests[e.rid]? = some ⟨op, p⟩ → ¬ ∃ r, p = .done r := by
    intro op p hreq hdone
    rcases hdone with ⟨r, rfl⟩
    have hnone := h.obeys e.rid op _ hreq
    rw [obeys_done, Scene.localOf] at hnone
    exact absurd (hlocal.symm.trans hnone) (by simp)
  have hself : e.rid = i := by
    have hi := h.last hpending
    by_contra hne
    rcases h.sequential e.rid _ _ (List.getElem?_eq_getElem hrid) (by omega) with ⟨r, hr⟩
    exact hopen _ _ (List.getElem?_eq_getElem hrid) ⟨r, hr⟩
  subst hself
  unfold Config.pending at hpending
  split at hpending
  · rename_i op cl' k hreq
    cases hpending
    have hobeys := (h.obeys e.rid op _ hreq).1
    rw [Scene.localOf] at hobeys
    exact hobeys sid hlocal
  · cases hpending

end Stepwise

/-! ## What was stored last -/

/-- What a logged call has stored at this index of the session, and when. -/
def storedAt (sid : UUID) (index : Int) (e : Entry (service env)) : Option (Bytes × Nat) :=
  match e.call with
  | .chunkSave sid' chunk =>
      if sid' = sid ∧ chunk.index = index then some (chunk.rawBytes, e.world.now) else none
  | _ => none

/-- What was stored last at this index of the session, and when. -/
def lastStored (log : Log env) (sid : UUID) (index : Int) : Option (Bytes × Nat) :=
  (log.filterMap (storedAt sid index)).getLast?

theorem lastStored_append (log : Log env) (e : Entry (service env)) (sid : UUID) (index : Int) :
    lastStored (log ++ [e]) sid index = (storedAt sid index e).or (lastStored log sid index) := by
  unfold lastStored
  rw [List.filterMap_append, List.getLast?_append]
  cases h : storedAt sid index e <;> simp [h]

/-- What is stored is what was stored last, with a day to live from then on. -/
structure UpToDate (w : World) (log : Log env) (sid : UUID) (index : Int) : Prop where
  chunk : w.chunks (sid, index) = (lastStored log sid index).map fun p =>
    (p.1, some (p.2 + RedisChunkRepository.ttl * 1000))
  chunkMeta : (w.chunkMetas (sid, index)).map (·.2) = (w.chunks (sid, index)).map (·.2)

/-- Nothing has been stored for this session. -/
structure Blank (w : World) (log : Log env) (sid : UUID) : Prop where
  session : w.sessions sid = none
  chunk : ∀ index, w.chunks (sid, index) = none
  chunkMeta : ∀ index, w.chunkMetas (sid, index) = none
  last : ∀ index, lastStored log sid index = none

/-- Where nothing is stored and nothing has been accepted, the two agree. -/
theorem Blank.upToDate {w : World} {log : Log env} {sid : UUID} (h : Blank w log sid)
    (index : Int) : UpToDate w log sid index := by
  constructor
  · rw [h.chunk, h.last]
    rfl
  · rw [h.chunk, h.chunkMeta]
    rfl

section Answers

variable {s : Scene (service env)} {i : Nat} {cl : Call} {sid : UUID}

theorem storedAt_eq_none {index : Int} {r : Except Exn cl.Resp} {w : World}
    (h : ∀ chunk, cl = .chunkSave sid chunk → chunk.index ≠ index) :
    storedAt sid index (⟨i, cl, r, w⟩ : Entry (service env)) = none := by
  cases cl with
  | chunkSave sid' chunk =>
      refine if_neg fun hsame => ?_
      rcases hsame with ⟨rfl, hindex⟩
      exact h chunk rfl hindex
  | _ => rfl

/-- A call that goes through keeps what is stored up to date, unless it is the deletion
of all chunks. -/
theorem UpToDate.answer {index : Int} (h : UpToDate s.world s.log sid index)
    (hcl : cl ≠ .deleteAll sid) :
    UpToDate (s.answer i cl .works).world (s.answer i cl .works).log sid index := by
  by_cases hstore : ∃ chunk, cl = .chunkSave sid chunk ∧ chunk.index = index
  · rcases hstore with ⟨chunk, rfl, rfl⟩
    -- this chunk is stored now: payload, metadata and log agree on it
    have hlast : lastStored (s.answer i (.chunkSave sid chunk) .works).log sid chunk.index =
        some (chunk.rawBytes, s.world.now) := by
      have hentry : ∀ r w, storedAt sid chunk.index
          (⟨i, .chunkSave sid chunk, r, w⟩ : Entry (service env)) =
            some (chunk.rawBytes, w.now) := fun _ _ => if_pos ⟨rfl, rfl⟩
      rw [Scene.answer, lastStored_append, hentry]
      rfl
    have hchunk : (s.answer i (.chunkSave sid chunk) .works).world.chunks (sid, chunk.index) =
        some (chunk.rawBytes, s.world.deadline RedisChunkRepository.ttl) := if_pos rfl
    have hmeta : (s.answer i (.chunkSave sid chunk) .works).world.chunkMetas (sid, chunk.index) =
        some (⟨chunk.checksum, chunk.size⟩, s.world.deadline RedisChunkRepository.ttl) := if_pos rfl
    constructor
    · rw [hlast, hchunk]
      rfl
    · rw [hmeta, hchunk]
      rfl
  · have hnone : ∀ chunk, cl = .chunkSave sid chunk → chunk.index ≠ index :=
      fun chunk hc hindex => hstore ⟨chunk, hc, hindex⟩
    have hlast : lastStored (s.answer i cl .works).log sid index = lastStored s.log sid index := by
      rw [Scene.answer, lastStored_append, storedAt_eq_none hnone, Option.none_or]
    rcases handle_chunks env .works cl s.world sid index with ⟨hchunk, hmeta⟩ |
      ⟨chunk, hc, hindex, _⟩ | ⟨hc, _⟩
    · constructor
      · rw [hlast, ← h.chunk]
        exact hchunk
      · have hpair := h.chunkMeta
        rw [← hmeta, ← hchunk] at hpair
        exact hpair
    · exact absurd hindex (hnone chunk hc)
    · exact absurd hc hcl

/-- Nothing is stored for a session by other calls. -/
theorem Blank.answer (h : Blank s.world s.log sid)
    (hsave : ∀ v, cl = .sessionSave v → v.sessionId ≠ sid)
    (hchunk : ∀ chunk, cl ≠ .chunkSave sid chunk) :
    Blank (s.answer i cl .works).world (s.answer i cl .works).log sid := by
  constructor
  · rcases handle_sessions env .works cl s.world sid with hsame | ⟨v, hc, hid, _⟩ | ⟨_, hnone⟩
    · exact hsame.trans h.session
    · exact absurd hid (hsave v hc)
    · exact hnone
  · intro index
    rcases handle_chunks env .works cl s.world sid index with ⟨hsame, _⟩ | ⟨chunk, hc, _⟩ |
      ⟨_, hnone, _⟩
    · exact hsame.trans (h.chunk index)
    · exact absurd hc (hchunk chunk)
    · exact hnone
  · intro index
    rcases handle_chunks env .works cl s.world sid index with ⟨_, hsame⟩ | ⟨chunk, hc, _⟩ |
      ⟨_, _, hnone⟩
    · exact hsame.trans (h.chunkMeta index)
    · exact absurd hc (hchunk chunk)
    · exact hnone
  · intro index
    rw [Scene.answer, lastStored_append, storedAt_eq_none fun chunk hc => absurd hc (hchunk chunk),
      Option.none_or]
    exact h.last index

end Answers

/-! ## The invariant -/

/-- What the last request knows of its session is what is stored, alive or not. -/
def Remembers (l : SessionLocal) (w : World) : Prop :=
  ∀ v, (l.held = false ∧ l.closed = false ∧ l.copy = some v ∨ l.held = true ∧ l.view = some v) →
    ∃ deadline, w.sessions v.sessionId = some (v, deadline)

/-- Sessions that take uploads have the chunks that were stored for them last. -/
structure Cached (s : Scene (service env)) : Prop where
  unborn : ∀ sid, (∀ op ∈ s.ops, op.newId? ≠ some sid) → Blank s.world s.log sid
  unsaved : ∀ (i : Nat) (op : Op), s.ops[i]? = some op → i + 1 = s.ops.length →
    ∀ sid, op.newId? = some sid → (knows s i op).closed = false → Blank s.world s.log sid
  remembered : ∀ (i : Nat) (op : Op), s.ops[i]? = some op → i + 1 = s.ops.length →
    Remembers (knows s i op) s.world
  nonempty : ∀ (i : Nat) (op : Op), s.ops[i]? = some op → ∀ sid index cs data,
    op = .uploadChunk sid index cs data → (knows s i op).wrote = true → data ≠ []
  upToDate : ∀ sid v deadline, s.world.sessions sid = some (v, deadline) → v.Active →
    (∀ e, s.log.getLast? = some e → e.call ≠ .deleteAll sid) →
      ∀ index, UpToDate s.world s.log sid index
  purged : ∀ e sid, s.log.getLast? = some e → e.call = .deleteAll sid →
    ∀ index, s.world.chunks (sid, index) = none

section Step

variable {s : Scene (service env)} {i : Nat} {op : Op} {cl : Call}

/-- The session that a request works on under the lock is stored. -/
theorem Cached.owns (h : Cached s) (hcoherent : (knows s i op).Coherent) (hop : s.ops[i]? = some op)
    (hlast : i + 1 = s.ops.length) {sid : UUID} (hown : (knows s i op).Owns sid)
    (hwrote : (knows s i op).wrote = false) {v : UploadSession}
    (hview : (knows s i op).view = some v) :
    ∃ deadline, s.world.sessions sid = some (v, deadline) := by
  have hcopy := hcoherent.viewed hown.1 hwrote v hview
  have hid : v.sessionId = sid := by
    have hread := hcoherent.read v hcopy
    rw [hown.2] at hread
    exact (Option.some.inj hread).symm
  rw [← hid]
  exact h.remembered i op hop hlast v (Or.inr ⟨hown.1, hview⟩)

/-- A session for which nothing is stored is saved by its own initiate only. -/
theorem Cached.blank_answer (h : Cached s) (hcoherent : (knows s i op).Coherent)
    (hop : s.ops[i]? = some op) (hlast : i + 1 = s.ops.length)
    (hallow : (knows s i op).allows env cl) {sid : UUID} (hblank : Blank s.world s.log sid)
    (hnew : op.newId? = some sid → ∀ v, cl ≠ .sessionSave v) :
    Blank (s.answer i cl .works).world (s.answer i cl .works).log sid := by
  have hstored : ∀ v deadline, s.world.sessions sid ≠ some (v, deadline) := by
    intro v deadline hs
    cases hblank.session.symm.trans hs
  refine hblank.answer ?_ ?_
  · rintro v rfl rfl
    rcases SessionLocal.allows_save hallow with ⟨hid, _⟩ | ⟨hown, hwrote, v', hview, _⟩
    · rw [knows_op] at hid
      exact hnew hid v rfl
    · rcases h.owns hcoherent hop hlast hown hwrote hview with ⟨deadline, hs⟩
      exact hstored v' deadline hs
  · rintro chunk rfl
    rcases hallow with ⟨hown, hwrote, ⟨v', hview, _⟩, _⟩
    rcases h.owns hcoherent hop hlast hown hwrote hview with ⟨deadline, hs⟩
    exact hstored v' deadline hs

/-- What the last request knows of its session stays true: nobody else makes calls. -/
theorem Cached.remembered_answer (h : Cached s) (hkeyed : ∀ sid v,
      s.world.session? sid = some v → v.sessionId = sid) (hop : s.ops[i]? = some op)
    (hlast : i + 1 = s.ops.length) (hallow : (knows s i op).allows env cl) :
    Remembers ((knows s i op).next cl (handle env .works cl s.world).1)
      (handle env .works cl s.world).2 := by
  have hbefore := h.remembered i op hop hlast
  -- only a save and a delete change what is stored of a session
  have hother : (∀ v, cl ≠ .sessionSave v) → (∀ sid, cl ≠ .sessionDelete sid) → ∀ sid,
      (handle env .works cl s.world).2.sessions sid = s.world.sessions sid := by
    intro hsave hdelete sid
    rcases handle_sessions env .works cl s.world sid with hsame | ⟨v, hc, _⟩ | ⟨hc, _⟩
    · exact hsame
    · exact absurd hc (hsave v)
    · exact absurd hc (hdelete sid)
  intro v hv
  cases cl with
  | sessionGet sid =>
      rcases hv with ⟨_, _, hcopy⟩ | hview
      · -- what has been read is stored
        have hread : s.world.session? sid = some v := hcopy
        rcases s.world.sessions.entry_of_get _ hread with ⟨deadline, hentry⟩
        have hid := hkeyed sid v hread
        subst hid
        exact ⟨deadline, hentry⟩
      · exact hbefore v (Or.inr hview)
  | acquireLock sid ttl =>
      rw [hother (fun _ hc => by cases hc) (fun _ hc => by cases hc)]
      rcases hallow with ⟨_, _, hheld, hclosed, _⟩
      have hnext : ∀ b, (Remembers ((knows s i op).next (.acquireLock sid ttl) (.ok b))
          s.world) := by
        intro b v hv
        cases b with
        | false => exact hbefore v hv
        | true =>
            rcases hv with ⟨hnot, _⟩ | ⟨_, hcopy⟩
            · cases hnot
            · exact hbefore v (Or.inl ⟨hheld, hclosed, hcopy⟩)
      exact hnext _ v hv
  | sessionSave v' =>
      rcases hv with ⟨hnot, hclosed, _⟩ | ⟨_, hview⟩
      · -- who is outside the critical section has saved a new session
        rcases SessionLocal.allows_save hallow with ⟨hid, _⟩ | ⟨hown, _⟩
        · simp [SessionLocal.next, hid, handle, respond] at hclosed
        · have hheld : (knows s i op).held = false := hnot
          rw [hown.1] at hheld
          cases hheld
      · cases hview
        exact ⟨_, if_pos rfl⟩
  | sessionDelete sid =>
      rcases hv with ⟨hnot, _⟩ | ⟨_, hview⟩
      · have hheld : (knows s i op).held = false := hnot
        rw [hallow.1.1] at hheld
        cases hheld
      · cases hview
  | releaseLock sid =>
      rcases hv with ⟨_, hclosed, _⟩ | ⟨hheld, _⟩
      · cases hclosed
      · cases hheld
  | _ =>
      rw [hother (fun _ hc => by cases hc) (fun _ hc => by cases hc)]
      exact hbefore v hv

/-- An upload that saves its session has stored some bytes. -/
theorem Cached.nonempty_answer (h : Cached s) (hop : s.ops[i]? = some op)
    (hallow : (knows s i op).allows env cl) {sid : UUID} {index : Int} {cs : String} {data : Bytes}
    (hup : op = .uploadChunk sid index cs data)
    (hwrote : ((knows s i op).next cl (handle env .works cl s.world).1).wrote = true) :
    data ≠ [] := by
  rcases SessionLocal.next_wrote hwrote with hwas | ⟨v, rfl⟩
  · exact h.nonempty i op hop sid index cs data hup hwas
  · have hop' := knows_op s i op
    rcases SessionLocal.allows_save hallow with ⟨hid, _⟩ | ⟨_, _, v', _, hsaves⟩
    · rw [hop', hup] at hid
      cases hid
    · rw [hop', hup] at hsaves
      have hpos := (UploadSession.updateOffset_ok hsaves.2).1
      exact List.ne_nil_of_length_pos (by omega)

/-- The session is stored as it was, or anew by a request that knew it. -/
theorem Cached.upToDate_answer (h : Cached s) (hcoherent : (knows s i op).Coherent)
    (hop : s.ops[i]? = some op) (hlast : i + 1 = s.ops.length)
    (hallow : (knows s i op).allows env cl)
    (hpurge : ∀ e sid, s.log.getLast? = some e → e.call = .deleteAll sid → cl = .sessionDelete sid)
    {sid : UUID} {v : UploadSession} {deadline : Option Nat}
    (hstored : (handle env .works cl s.world).2.sessions sid = some (v, deadline))
    (hactive : v.Active) (hcl : cl ≠ .deleteAll sid) (index : Int) :
    UpToDate (s.answer i cl .works).world (s.answer i cl .works).log sid index := by
  -- after a deletion of the chunks only that of the session may follow
  have hkept : ∀ e, s.log.getLast? = some e → e.call ≠ .deleteAll sid := by
    intro e he hcall
    have hdelete := hpurge e sid he hcall
    subst hdelete
    have hnone : (handle env .works (.sessionDelete sid) s.world).2.sessions sid = none :=
      if_pos rfl
    cases hnone.symm.trans hstored
  refine UpToDate.answer ?_ hcl
  rcases handle_sessions env .works cl s.world sid with hsame | ⟨v', rfl, hid, hset⟩ | ⟨_, hnone⟩
  · exact h.upToDate sid v deadline (hsame.symm.trans hstored) hactive hkept index
  · cases hset.symm.trans hstored
    subst hid
    have hop' := knows_op s i op
    rcases SessionLocal.allows_save hallow with
      ⟨hnew, hclosed, _⟩ | ⟨hown, hwrote, v', hview, hsaves⟩
    · rw [hop'] at hnew
      exact (h.unsaved i op hop hlast _ hnew hclosed).upToDate index
    · rcases h.owns hcoherent hop hlast hown hwrote hview with ⟨deadline', hbefore⟩
      rw [hop'] at hsaves
      -- an upload saves the session; a finalize saves it as failed
      cases op with
      | uploadChunk sid index' cs data =>
          exact h.upToDate _ v' deadline' hbefore hsaves.1 hkept index
      | finalize sid =>
          rcases hsaves with ⟨_, _, rfl⟩
          exact absurd hactive (not_active_fail v')
      | _ => exact hsaves.elim
  · cases hnone.symm.trans hstored

/-- The calls of the one running request keep what is cached in step with what was accepted. -/
theorem Cached.answer (h : Cached s) (hsound : Sound s) (hop : s.ops[i]? = some op)
    (hlast : i + 1 = s.ops.length) (hallow : (knows s i op).allows env cl)
    (hpurge : ∀ e sid, s.log.getLast? = some e → e.call = .deleteAll sid →
      cl = .sessionDelete sid) :
    Cached (s.answer i cl .works) := by
  have hcoherent := hsound.coherent i op hop
  have hlog : (s.answer i cl .works).log.getLast? = some ⟨i, cl,
      (handle env .works cl s.world).1, (handle env .works cl s.world).2⟩ := by simp [Scene.answer]
  refine ⟨?_, ?_, ?_, ?_, ?_, ?_⟩
  · intro sid hunborn
    exact h.blank_answer hcoherent hop hlast hallow (h.unborn sid hunborn)
      (fun hnew => absurd hnew (hunborn op (List.mem_of_getElem? hop)))
  · -- only the last request makes calls: it is the caller
    intro j op' hj hj' sid hnew hclosed
    have hij : j = i := by
      have hlen : (s.answer i cl .works).ops.length = s.ops.length := rfl
      omega
    subst hij
    cases hop.symm.trans hj
    rw [knows_answer_self] at hclosed
    have hbefore : (knows s j op).closed = false := by
      by_contra hc
      rw [Bool.not_eq_false] at hc
      rw [SessionLocal.next_closed hc] at hclosed
      cases hclosed
    refine h.blank_answer hcoherent hop hlast hallow (h.unsaved j op hop hlast sid hnew hbefore) ?_
    rintro hid v rfl
    -- its own save closes the initiate
    have hop' := knows_op s j op
    simp [SessionLocal.next, hop', hid, handle, respond] at hclosed
  · intro j op' hj hj'
    have hij : j = i := by
      have hlen : (s.answer i cl .works).ops.length = s.ops.length := rfl
      omega
    subst hij
    cases hop.symm.trans hj
    rw [knows_answer_self]
    exact h.remembered_answer hsound.keyed hop hlast hallow
  · refine knows_forall_answer (P := fun _ op' l => ∀ sid index cs data,
      op' = .uploadChunk sid index cs data → l.wrote = true → data ≠ []) hop ?_
      (fun j op' _ hj => h.nonempty j op' hj)
    intro sid index cs data hup hwrote
    exact h.nonempty_answer hop hallow hup hwrote
  · intro sid v deadline hstored hactive hkept index
    exact h.upToDate_answer hcoherent hop hlast hallow hpurge hstored hactive (hkept _ hlog) index
  · intro e sid he hcall index
    cases hlog.symm.trans he
    have hdelete : cl = .deleteAll sid := hcall
    subst hdelete
    exact if_pos (by simp)

end Step

theorem cached_keeps : Keeps (fun (c : Run env) l =>
    (oneAtATime c l ∧ freshIds c l ∧ noFaults l) ∧ Stepwise c) (fun s => Cached s) where
  spawn := by
    intro c op hg hknown h
    -- the new request is the last one, and has not made a call
    have hlast : ∀ (i : Nat) (op' : Op), (c.ops ++ [op])[i]? = some op' →
        i + 1 = (c.ops ++ [op]).length → op' = op ∧
          knows (⟨c.world, c.ops ++ [op], c.log⟩ : Scene (service env)) i op' =
            SessionLocal.start op := by
      intro i op' hi hlen
      rw [List.length_append, List.length_singleton] at hlen
      have hnew : i = c.ops.length := by omega
      subst hnew
      rw [List.getElem?_concat_length] at hi
      cases hi
      refine ⟨rfl, ?_⟩
      have hnil : callsOf c.ops.length c.log = [] := hknown.wf.callsOf_eq_nil
      simp only [knows, Scene.localOf, hnil, replay_nil]
    refine ⟨?_, ?_, ?_, ?_, h.upToDate, h.purged⟩
    · intro sid hunborn
      exact h.unborn sid fun op' hop' => hunborn op' (List.mem_append_left _ hop')
    · intro i op' hi hlen sid hnew _
      rcases hlast i op' hi hlen with ⟨rfl, _⟩
      -- its id is fresh
      have hfresh := hg.1.2.1
      simp only [freshIds, hnew, Option.all_some, List.all_eq_true, decide_eq_true_eq] at hfresh
      exact h.unborn sid hfresh
    · intro i op' hi hlen
      rw [(hlast i op' hi hlen).2]
      rintro v (⟨_, _, hcopy⟩ | ⟨hheld, _⟩)
      · cases hcopy
      · cases hheld
    · exact knows_forall_spawn (P := fun _ op' l => ∀ sid index cs data,
        op' = .uploadChunk sid index cs data → l.wrote = true → data ≠ []) hknown.wf
        (by simp [SessionLocal.start]) h.nonempty
  move := by
    intro c d _ h
    -- what is stored is stored with its deadline, whatever time it is
    refine ⟨?_, ?_, h.remembered, h.nonempty, ?_, h.purged⟩
    · intro sid hunborn
      have hwas := h.unborn sid hunborn
      exact ⟨hwas.session, hwas.chunk, hwas.chunkMeta, hwas.last⟩
    · intro i op hi hlen sid hnew hclosed
      have hwas := h.unsaved i op hi hlen sid hnew hclosed
      exact ⟨hwas.session, hwas.chunk, hwas.chunkMeta, hwas.last⟩
    · intro sid v deadline hstored hactive hkept index
      have hwas := h.upToDate sid v deadline hstored hactive hkept index
      exact ⟨hwas.chunk, hwas.chunkMeta⟩
  call := by
    intro c i op cl out hg hknown hop hpending h hallow
    have hworks : out = .works := by simpa [noFaults] using hg.1.2.2
    subst hworks
    have hlast : i + 1 = c.scene.ops.length := by
      rw [hg.2.last hpending]
      simp [Config.scene, Config.ops]
    exact h.answer hknown.sound hop hlast hallow fun e sid he hcall =>
      hg.2.next_call hknown.wf he hcall hpending

/-! ## The result -/

/-- An upload of `data` at this index of the session has been accepted. -/
def ChunkAccepted (c : Run env) (sid : UUID) (index : Int) (data : Bytes) : Prop :=
  ∃ (i : Nat) (cs : String) (v : UploadSession),
    c.ops[i]? = some (.uploadChunk sid index cs data) ∧ c.result i = some (.ok (.uploaded v))

/-- `chunk_repo.get` returns what was stored last, for a day. -/
theorem UpToDate.get_iff {s : Scene (service env)} {sid : UUID} {index : Int} {data : Bytes}
    (h : UpToDate s.world s.log sid index) (hne : data ≠ []) :
    (∃ chunk, RedisChunkRepository.get s.world sid index = some chunk ∧ chunk.rawBytes = data) ↔
      ∃ t, lastStored s.log sid index = some (data, t) ∧
        s.world.now < t + RedisChunkRepository.ttl * 1000 := by
  have hchunk := h.chunk
  have hmeta := h.chunkMeta
  -- nothing stored, or a chunk with its metadata and their deadline
  cases hlast : lastStored s.log sid index with
  | none =>
      rw [hlast] at hchunk
      simp [RedisChunkRepository.get, World.chunk?, ExpiringMap.get, hchunk]
  | some p =>
      rcases p with ⟨data', t⟩
      rw [hlast] at hchunk
      rw [hchunk] at hmeta
      simp only [Option.map_some, Option.map_eq_some_iff] at hchunk hmeta
      rcases hmeta with ⟨⟨chunkMeta, deadline⟩, hentry, hsame⟩
      simp only at hsame
      subst hsame
      have hread : s.world.now < t + RedisChunkRepository.ttl * 1000 →
          RedisChunkRepository.get s.world sid index =
            if data' = [] then none
            else some ⟨index, chunkMeta.size, chunkMeta.checksum, data'⟩ := by
        intro hlive
        simp [RedisChunkRepository.get, World.chunk?, World.chunkMeta?, ExpiringMap.get, hchunk,
          hentry, hlive]
      by_cases hlive : s.world.now < t + RedisChunkRepository.ttl * 1000
      · rw [hread hlive]
        constructor
        · rintro ⟨chunk, hget, rfl⟩
          split at hget
          · cases hget
          · cases hget
            exact ⟨t, rfl, hlive⟩
        · rintro ⟨t', hsame, _⟩
          cases hsame
          exact ⟨_, if_neg hne, rfl⟩
      · -- a day has passed
        have hgone : RedisChunkRepository.get s.world sid index = none := by
          simp [RedisChunkRepository.get, World.chunk?, ExpiringMap.get, hchunk, hlive]
        rw [hgone]
        constructor
        · rintro ⟨_, hget, _⟩
          cases hget
        · rintro ⟨t', hsame, hlive'⟩
          cases hsame
          exact absurd hlive' hlive

/-- Bytes are accepted, not their absence. -/
theorem ChunkAccepted.ne_nil {c : Run env} {sid : UUID} {index : Int} {data : Bytes}
    (h : ChunkAccepted c sid index data) (hknown : Known c) (hcached : Cached c.scene) :
    data ≠ [] := by
  rcases h with ⟨i, cs, v, hop, hres⟩
  have hpost := hknown.obeys i _ _ (request_of_result hop hres)
  rw [obeys_done] at hpost
  exact hcached.nonempty i _ hop sid index cs data rfl (hpost.1 ⟨_, rfl⟩).1

/-- Chunks and their session: in every run of requests one at a time, with pauses of any
length before each call, a session that takes uploads has every accepted chunk exactly
if what was stored last at its index are the same bytes, less than a day ago, and no
request is in between its deletion of the chunks and that of the session. -/
theorem chunks_outlive {now : Nat} {c : Run env} {sid : UUID} {v : UploadSession}
    (h : Reach (fun c l => oneAtATime c l ∧ freshIds c l ∧ noFaults l)
      (Config.start (World.empty now)) c)
    (hlive : RedisSessionRepository.get c.world sid = some v)
    (hstatus : v.status = .initiated ∨ v.status = .uploading) :
    (∀ index data, ChunkAccepted c sid index data →
      ∃ chunk, RedisChunkRepository.get c.world sid index = some chunk ∧ chunk.rawBytes = data) ↔
    ∀ index data, ChunkAccepted c sid index data →
      (∀ e, c.log.getLast? = some e → e.call ≠ .deleteAll sid) ∧
      ∃ t, lastStored c.log sid index = some (data, t) ∧
        c.world.now < t + RedisChunkRepository.ttl * 1000 := by
  have hinit : Cached (⟨World.empty now, [], []⟩ : Scene (service env)) := by
    refine ⟨fun sid _ => ⟨rfl, fun _ => rfl, fun _ => rfl, fun _ => rfl⟩, by simp, by simp, by simp,
      ?_, by simp⟩
    intro sid v deadline hstored
    cases hstored
  have hstepwise := h.with_invariant (K := fun c => Stepwise c)
    (fun c hc => reach_stepwise (fun c l hg => ⟨hg.1, hg.2.2⟩) hc)
  have hcached := cached_keeps.reach hinit hstepwise
  have hknown := reach_known h
  have hactive : v.Active := by
    rcases hstatus with hst | hst
    · simp [UploadSession.Active, hst]
    · simp [UploadSession.Active, hst]
  rcases c.world.sessions.entry_of_get _ hlive with ⟨deadline, hstored⟩
  constructor
  · intro hall index data haccepted
    -- between the two deletions no chunk could be found
    have hkept : ∀ e, c.log.getLast? = some e → e.call ≠ .deleteAll sid := by
      intro e he hcall
      rcases hall index data haccepted with ⟨chunk, hget, _⟩
      have hnone := hcached.purged e sid he hcall index
      have hgone : RedisChunkRepository.get c.world sid index = none := by
        simp [RedisChunkRepository.get, World.chunk?, ExpiringMap.get,
          show c.world.chunks (sid, index) = none from hnone]
      cases hgone.symm.trans hget
    have hup := hcached.upToDate sid v deadline hstored hactive hkept index
    exact ⟨hkept, (hup.get_iff (haccepted.ne_nil hknown hcached)).1 (hall index data haccepted)⟩
  · intro hall index data haccepted
    rcases hall index data haccepted with ⟨hkept, hlast⟩
    have hup := hcached.upToDate sid v deadline hstored hactive hkept index
    exact (hup.get_iff (haccepted.ne_nil hknown hcached)).2 hlast

/-! ## Concrete runs -/

/-- The one chunk of a session, just accepted. -/
theorem chunks_outlive_demo :
    ∃ (c : Run Demo.env) (v : UploadSession),
      RedisSessionRepository.get c.world Demo.sid = some v ∧ v.status = .uploading ∧
      ((∀ index data, ChunkAccepted c Demo.sid index data →
        ∃ chunk, RedisChunkRepository.get c.world Demo.sid index = some chunk ∧
          chunk.rawBytes = data) ↔
      ∀ index data, ChunkAccepted c Demo.sid index data →
        (∀ e, c.log.getLast? = some e → e.call ≠ .deleteAll Demo.sid) ∧
        ∃ t, lastStored c.log Demo.sid index = some (data, t) ∧
          c.world.now < t + RedisChunkRepository.ttl * 1000) := by
  have h : ((Config.start (World.empty 0)).play
      (fun c l => oneAtATime c l && (freshIds c l && noFaults l))
      ([.spawn (.initiate Demo.sid Demo.tenant Demo.file 1 (Demo.sha256 Demo.a))] ++
        Demo.calls 0 2 ++ [.spawn (.uploadChunk Demo.sid 0 (Demo.sha256 Demo.a) Demo.a)] ++
        Demo.calls 1 5)).any
      (fun c => (RedisSessionRepository.get c.world Demo.sid).any fun v => v.status = .uploading) =
        true := by
    decide +kernel
  have hok : ∀ (c : Run Demo.env) l, (oneAtATime c l && (freshIds c l && noFaults l)) = true →
      oneAtATime c l ∧ freshIds c l ∧ noFaults l := by
    intro c l hl
    simpa using hl
  rcases exists_of_play hok _ h with ⟨c, hc, hcheck⟩
  rcases (Option.any_eq_true _ _).1 hcheck with ⟨v, hv, hstatus⟩
  have hst : v.status = .uploading := by simpa using hstatus
  exact ⟨c, v, hv, hst, chunks_outlive hc hv (Or.inr hst)⟩

namespace Demo

/-- The first chunk has been uploaded, and the last byte half a day later. -/
def resumed : World :=
  (storing bigEnv ((largeAt 0).advance 43200000) sid 1 b (.ok (oddSession odd))).unlocked sid

end Demo

section Storing

variable (env : Env) (w : World) (sid : UUID) (index : Int) (data : Bytes) (v : UploadSession)

theorem sessions_storing : (storing env w sid index data (.ok v)).sessions v.sessionId =
    some (v, w.deadline RedisSessionRepository.ttl) := if_pos rfl

theorem chunks_storing (i : Int) : (storing env w sid index data (.ok v)).chunks (sid, i) =
    if (sid, i) = (sid, index) then some (data, w.deadline RedisChunkRepository.ttl)
    else w.chunks (sid, i) := rfl

end Storing

theorem sessions_largeAt :
    (Demo.largeAt 0).sessions Demo.sid = some (Demo.oddSession (5 * 1024 * 1024), some 86400000) :=
  sessions_storing Demo.bigEnv _ _ _ _ (Demo.oddSession (5 * 1024 * 1024))

theorem sessions_resumed :
    Demo.resumed.sessions Demo.sid = some (Demo.oddSession Demo.odd, some 129600000) :=
  sessions_storing Demo.bigEnv _ _ _ _ (Demo.oddSession Demo.odd)

theorem chunks_resumed : Demo.resumed.chunks (Demo.sid, 0) = some (Demo.big, some 86400000) := by
  have hfirst := chunks_storing Demo.bigEnv (Demo.sized Demo.odd) Demo.sid 0 Demo.big
    (Demo.oddSession (5 * 1024 * 1024)) 0
  have hsecond := chunks_storing Demo.bigEnv ((Demo.largeAt 0).advance 43200000) Demo.sid 1 Demo.b
    (Demo.oddSession Demo.odd) 0
  rw [if_pos rfl] at hfirst
  rw [if_neg (by decide)] at hsecond
  exact hsecond.trans hfirst

theorem alone_resumed : Alone Demo.bigEnv
    (.uploadChunk Demo.sid 1 (Demo.bigEnv.sha256 Demo.b) Demo.b) ((Demo.largeAt 0).advance 43200000)
    (.ok (.uploaded (Demo.oddSession Demo.odd))) Demo.resumed := by
  have hlive : ((Demo.largeAt 0).advance 43200000).session? Demo.sid =
      some (Demo.oddSession (5 * 1024 * 1024)) := by
    have hnow : ((Demo.largeAt 0).advance 43200000).now = 43200000 := rfl
    have hsessions : ((Demo.largeAt 0).advance 43200000).sessions Demo.sid =
      some (Demo.oddSession (5 * 1024 * 1024), some 86400000) := sessions_largeAt
    simp [World.session?, ExpiringMap.get, hsessions, hnow]
  have hstores : Stores Demo.bigEnv ((Demo.largeAt 0).advance 43200000) Demo.sid
      (Demo.bigEnv.sha256 Demo.b) Demo.b (Demo.oddSession (5 * 1024 * 1024)) :=
    ⟨hlive, by decide, rfl, by decide, Or.inr rfl, rfl⟩
  exact (alone_upload hstores _).2 ⟨rfl, rfl⟩

/-- It fails over long uploads: after another half of a day and an hour, the session
still takes uploads, but its first chunk is gone. -/
theorem chunks_outlive_fails :
    ∃ c : Run Demo.bigEnv, Reach (fun c l => oneAtATime c l ∧ freshIds c l ∧ noFaults l)
        (Config.start (World.empty 0)) c ∧
      RedisSessionRepository.get c.world Demo.sid = some (Demo.oddSession Demo.odd) ∧
      (Demo.oddSession Demo.odd).status = .uploading ∧
      ChunkAccepted c Demo.sid 0 Demo.big ∧ RedisChunkRepository.get c.world Demo.sid 0 = none := by
  have hspawn : ∀ (c : Run Demo.bigEnv) (op : Op) (rs : List Served),
      c.requests = rs.map (fun d => ⟨d.1, .done d.2⟩) → oneAtATime c (.spawn op) = true := by
    intro c op rs hreq
    simp only [oneAtATime, List.all_eq_true, List.mem_range]
    intro i hi
    rw [hreq, List.length_map] at hi
    simp [Config.result, hreq, hi]
  -- the session and the first chunk
  have hinit : Alone Demo.bigEnv
      (.initiate Demo.sid Demo.tenant Demo.file Demo.odd (Demo.sha256 Demo.a)) (World.empty 0)
      (.ok (.initiated (some (newSession Demo.sid Demo.tenant Demo.file Demo.odd
        (Demo.sha256 Demo.a)), none))) (Demo.sized Demo.odd) :=
    (alone_initiate _ _ _ _ _).2 (Or.inr ⟨rfl, rfl, rfl⟩)
  rcases reach_alone (G := fun c l => oneAtATime c l ∧ freshIds c l ∧ noFaults l)
    (c := Config.start (World.empty 0)) .start ⟨hspawn _ _ [] rfl, rfl, rfl⟩
    (fun _ _ => ⟨rfl, rfl, rfl⟩) (fun _ _ => ⟨rfl, rfl, rfl⟩) hinit with ⟨c₁, hc₁, hw₁, hreq₁⟩
  rcases reach_alone hc₁ ⟨hspawn _ _ [(_, _)] hreq₁, rfl, rfl⟩ (fun _ _ => ⟨rfl, rfl, rfl⟩)
    (fun _ _ => ⟨rfl, rfl, rfl⟩) (by rw [hw₁]; exact alone_largeAt 0) with ⟨c₂, hc₂, hw₂, hreq₂⟩
  rw [hreq₁] at hreq₂
  -- half a day later, the last byte
  have hc₃ : Reach _ _ { c₂ with world := c₂.world.advance 43200000 } :=
    .step (l := .move 43200000) hc₂ ⟨rfl, rfl, rfl⟩ rfl
  rcases reach_alone hc₃ ⟨hspawn _ _ [(_, _), (_, _)] hreq₂, rfl, rfl⟩ (fun _ _ => ⟨rfl, rfl, rfl⟩)
    (fun _ _ => ⟨rfl, rfl, rfl⟩) (by rw [hw₂]; exact alone_resumed) with ⟨c₄, hc₄, hw₄, hreq₄⟩
  rw [hreq₂] at hreq₄
  have hc₅ : Reach _ _ { c₄ with world := c₄.world.advance 46800000 } :=
    .step (l := .move 46800000) hc₄ ⟨rfl, rfl, rfl⟩ rfl
  have hnow : (Demo.resumed.advance 46800000).now = 90000000 := rfl
  have hsessions : (Demo.resumed.advance 46800000).sessions Demo.sid = _ := sessions_resumed
  have hchunks : (Demo.resumed.advance 46800000).chunks (Demo.sid, 0) = _ := chunks_resumed
  refine ⟨_, hc₅, ?_, rfl, ⟨1, Demo.bigEnv.sha256 Demo.big,
    Demo.oddSession (5 * 1024 * 1024), ?_, ?_⟩, ?_⟩
  · rw [hw₄]
    simp [RedisSessionRepository.get, World.session?, ExpiringMap.get, hsessions, hnow]
  · simp [Config.ops, hreq₄, Config.start]
  · simp [Config.result, hreq₄, Config.start]
  · rw [hw₄]
    simp [RedisChunkRepository.get, World.chunk?, ExpiringMap.get, hchunks, hnow]

end FileUploader
