import FileUploader.Await.Program
import FileUploader.Infrastructure.Adapters

/-! # The calls of the use cases

What the use cases await, how each call is answered, and what a call can do to
the world: one lemma for each part of the world.
-/

namespace FileUploader

open Await

/-- The methods of the injected collaborators, with their arguments.
`chunkPull` is one step of the generator `get_stream`. -/
inductive Call where
  | sessionGet (sessionId : UUID)
  | sessionSave (session : UploadSession)
  | sessionDelete (sessionId : UUID)
  | acquireLock (sessionId : UUID) (ttlSeconds : Nat)
  | releaseLock (sessionId : UUID)
  | chunkSave (sessionId : UUID) (chunk : Chunk)
  | chunkGet (sessionId : UUID) (index : Int)
  | chunkPull (sessionId : UUID) (index : Int)
  | deleteAll (sessionId : UUID)
  | getByChecksum (tenantId : UUID) (checksum : String)
  | registerFile (tenantId fileId : UUID) (s3Uri : String) (size : Int) (checksum : String)
  | initiateMultipartUpload (tenantId fileId : UUID)
  | uploadPart (tenantId fileId : UUID) (uploadId partNumber : Nat) (data : Bytes)
  | completeMultipartUpload (tenantId fileId : UUID) (uploadId : Nat) (parts : List Part)
  | abortMultipartUpload (tenantId fileId : UUID) (uploadId : Nat)
  | publishFileUploadCompleted (event : Event)
deriving DecidableEq

@[reducible] def Call.Resp : Call → Type
  | .sessionGet _ => Option UploadSession
  | .acquireLock _ _ => Bool
  | .chunkGet _ _ => Option Chunk
  | .chunkPull _ _ => Option Bytes
  | .getByChecksum _ _ => Option String
  | .initiateMultipartUpload _ _ => Nat
  | .uploadPart .. => Part
  | .completeMultipartUpload .. => String
  | .sessionSave _ | .sessionDelete _ | .releaseLock _ | .chunkSave _ _ | .deleteAll _
  | .registerFile .. | .abortMultipartUpload .. | .publishFileUploadCompleted _ => Unit

/-- The signature of the service's collaborators. -/
@[reducible] def Collab : Sig := ⟨Call, Call.Resp, Exn⟩

/-- The answer to a call that goes through, and its effect. -/
def respond (env : Env) : (c : Call) → World → Except Exn c.Resp × World
  | .sessionGet sid, w => (.ok (RedisSessionRepository.get w sid), w)
  | .sessionSave s, w => (.ok (), RedisSessionRepository.save w s)
  | .sessionDelete sid, w => (.ok (), RedisSessionRepository.delete w sid)
  | .acquireLock sid ttl, w =>
      (.ok (RedisSessionRepository.acquireLock w sid ttl).1,
        (RedisSessionRepository.acquireLock w sid ttl).2)
  | .releaseLock sid, w => (.ok (), RedisSessionRepository.releaseLock w sid)
  | .chunkSave sid chunk, w => (.ok (), RedisChunkRepository.save w sid chunk)
  | .chunkGet sid index, w => (.ok (RedisChunkRepository.get w sid index), w)
  | .chunkPull sid index, w => (.ok (w.chunk? sid index), w)
  | .deleteAll sid, w => (.ok (), RedisChunkRepository.deleteAll w sid)
  | .getByChecksum t c, w => (.ok (RedisMetadataRegistry.getByChecksum w t c), w)
  | .registerFile t _ uri _ c, w =>
      (.ok (), RedisMetadataRegistry.registerFile RedisMetadataRegistry.wiredTtl w t uri c)
  | .initiateMultipartUpload t f, w =>
      (.ok (S3ObjectStorage.initiateMultipartUpload w t f).1,
        (S3ObjectStorage.initiateMultipartUpload w t f).2)
  | .uploadPart t f u n data, w => S3ObjectStorage.uploadPart env w t f u n data
  | .completeMultipartUpload t f u parts, w =>
      S3ObjectStorage.completeMultipartUpload env w t f u parts
  | .abortMultipartUpload _ _ u, w => (.ok (), S3ObjectStorage.abortMultipartUpload w u)
  | .publishFileUploadCompleted event, w =>
      (.ok (), NatsEventPublisher.publishFileUploadCompleted w event)

/-- The lock that a call is answered `True` for, with its TTL in seconds. -/
def Call.lockTaken : (c : Call) → Except Exn c.Resp → Option (UUID × Nat)
  | .acquireLock sid ttl, .ok true => some (sid, ttl)
  | _, _ => none

/-- The lock that a call asks to release. -/
def Call.lockReleased : Call → Option UUID
  | .releaseLock sid => some sid
  | _ => none

/-- The session that a call is answered with. -/
def Call.sessionRead : (c : Call) → Except Exn c.Resp → Option UploadSession
  | .sessionGet _, .ok s => s
  | _, _ => none

/-- The chunk payload that a call pulled from the stream: session, index, answer. -/
def Call.pulled : (c : Call) → Except Exn c.Resp → Option (UUID × Int × Option Bytes)
  | .chunkPull sid index, .ok r => some (sid, index, r)
  | _, _ => none

/-- The chunk that a call fetched. -/
def Call.fetched : (c : Call) → Except Exn c.Resp → Option Chunk
  | .chunkGet _ _, .ok chunk => chunk
  | _, _ => none

/-- The id of the multipart upload that a call has initiated. -/
def Call.initiated : (c : Call) → Except Exn c.Resp → Option Nat
  | .initiateMultipartUpload _ _, .ok u => some u
  | _, _ => none

/-- The part that a call has uploaded. -/
def Call.partUploaded : (c : Call) → Except Exn c.Resp → Option Part
  | .uploadPart .., .ok part => some part
  | _, _ => none

/-- The URI of the object that a call has committed. -/
def Call.completed : (c : Call) → Except Exn c.Resp → Option String
  | .completeMultipartUpload .., .ok uri => some uri
  | _, _ => none

/-- The dedup entry that a call has written: tenant, checksum and URI. -/
def Call.registered : (c : Call) → Except Exn c.Resp → Option (UUID × String × String)
  | .registerFile t _ uri _ cs, .ok _ => some (t, cs, uri)
  | _, _ => none

/-- The event that a call has published. -/
def Call.announced : (c : Call) → Except Exn c.Resp → Option Event
  | .publishFileUploadCompleted event, .ok _ => some event
  | _, _ => none

/-- The URI that a lookup in the dedup registry has found. -/
def Call.looked : (c : Call) → Except Exn c.Resp → Option String
  | .getByChecksum _ _, .ok found => found
  | _, _ => none

/-- What a call tells the registry or the broker about a committed object. -/
def Call.states : Call → Option Event
  | .registerFile t f uri size cs => some ⟨t, f, uri, size, cs⟩
  | .publishFileUploadCompleted event => some event
  | _ => none

/-- The multipart upload that a call is about. -/
def Call.uses : Call → Option Nat
  | .uploadPart _ _ u _ _ | .completeMultipartUpload _ _ u _ | .abortMultipartUpload _ _ u => some u
  | _ => none

/-- After this call the multipart upload takes no more parts. -/
def Call.closes : Call → Bool
  | .completeMultipartUpload .. | .abortMultipartUpload .. => true
  | _ => false

theorem Call.lockReleased_eq_some {c : Call} {sid : UUID} (h : c.lockReleased = some sid) :
    c = .releaseLock sid := by
  unfold Call.lockReleased at h
  split at h
  · cases h
    rfl
  · cases h

theorem Call.lockTaken_of_released {c : Call} {r : Except Exn c.Resp} {sid : UUID}
    (h : c.lockReleased = some sid) : c.lockTaken r = none := by
  have hc := Call.lockReleased_eq_some h
  subst hc
  rfl

/-- How a call turns out: it goes through, it raises without an effect, or it
raises although its effect took place (an answer lost on the way). -/
inductive Outcome where
  | works
  | raises (msg : String)
  | raisesAfter (msg : String)
deriving DecidableEq, Repr

/-- The answer when the driver raises. `abort_multipart_upload` logs the
exception and returns. -/
def failed (msg : String) : (c : Call) → Except Exn c.Resp
  | .abortMultipartUpload .. => .ok ()
  | .sessionGet _ | .sessionSave _ | .sessionDelete _ | .acquireLock _ _ | .releaseLock _
  | .chunkSave _ _ | .chunkGet _ _ | .chunkPull _ _ | .deleteAll _ | .getByChecksum _ _
  | .registerFile .. | .initiateMultipartUpload _ _ | .uploadPart .. | .completeMultipartUpload ..
  | .publishFileUploadCompleted _ => .error (.infrastructureError msg)

def handle (env : Env) : Outcome → (c : Call) → World → Except Exn c.Resp × World
  | .works, c, w => respond env c w
  | .raises msg, c, w => (failed msg c, w)
  | .raisesAfter msg, c, w => (failed msg c, (respond env c w).2)

/-! ## What a call can do to the world -/

section Effects

variable (env : Env) (out : Outcome) (c : Call) (w : World)

/-- A call has its full effect or none. -/
theorem handle_world :
    (handle env out c w).2 = w ∨ (handle env out c w).2 = (respond env c w).2 := by
  cases out with
  | works => exact Or.inr rfl
  | raises msg => exact Or.inl rfl
  | raisesAfter msg => exact Or.inr rfl

/-- No call moves the clock. -/
theorem respond_now : (respond env c w).2.now = w.now := by
  cases c with
  | acquireLock sid ttl =>
      obtain ⟨_, h⟩ := RedisSessionRepository.acquireLock_frame w sid ttl
      simp [respond, h]
  | uploadPart t f u n data =>
      obtain ⟨_, h⟩ := S3ObjectStorage.uploadPart_frame env w t f u n data
      simp [respond, h]
  | completeMultipartUpload t f u parts =>
      obtain ⟨_, _, h⟩ := S3ObjectStorage.completeMultipartUpload_frame env w t f u parts
      simp [respond, h]
  | _ => rfl

@[simp] theorem handle_now : (handle env out c w).2.now = w.now := by
  rcases handle_world env out c w with h | h
  · rw [h]
  · rw [h, respond_now]

/-- A session key changes by a save of that session, which sets its deadline, or by its
deletion. -/
theorem handle_sessions (sid : UUID) :
    (handle env out c w).2.sessions sid = w.sessions sid ∨
    (∃ s, c = .sessionSave s ∧ s.sessionId = sid ∧
      (handle env out c w).2.sessions sid = some (s, w.deadline RedisSessionRepository.ttl)) ∨
    (c = .sessionDelete sid ∧ (handle env out c w).2.sessions sid = none) := by
  rcases handle_world env out c w with h | h
  · exact Or.inl (by rw [h])
  rw [h]
  cases c with
  | sessionSave s =>
      by_cases hs : s.sessionId = sid
      · exact Or.inr (Or.inl ⟨s, rfl, hs, if_pos hs.symm⟩)
      · exact Or.inl (if_neg fun h => hs h.symm)
  | sessionDelete sid' =>
      by_cases hs : sid' = sid
      · subst hs
        exact Or.inr (Or.inr ⟨rfl, if_pos rfl⟩)
      · exact Or.inl (if_neg fun h => hs h.symm)
  | acquireLock sid' ttl =>
      obtain ⟨_, h⟩ := RedisSessionRepository.acquireLock_frame w sid' ttl
      exact Or.inl (by simp only [respond, h])
  | uploadPart t f u n data =>
      obtain ⟨_, h⟩ := S3ObjectStorage.uploadPart_frame env w t f u n data
      exact Or.inl (by simp only [respond, h])
  | completeMultipartUpload t f u parts =>
      obtain ⟨_, _, h⟩ := S3ObjectStorage.completeMultipartUpload_frame env w t f u parts
      exact Or.inl (by simp only [respond, h])
  | _ => exact Or.inl rfl

/-- What a session key reads as after a call. -/
theorem handle_session? (sid : UUID) :
    (handle env out c w).2.session? sid = w.session? sid ∨
    (∃ s, c = .sessionSave s ∧ s.sessionId = sid ∧
      (handle env out c w).2.session? sid = some s) ∨
    (c = .sessionDelete sid ∧ (handle env out c w).2.session? sid = none) := by
  rcases handle_sessions env out c w sid with h | ⟨s, hc, hs, h⟩ | ⟨hc, h⟩
  · exact Or.inl (by simp [World.session?, ExpiringMap.get, h])
  · exact Or.inr (Or.inl ⟨s, hc, hs, by
      simp [World.session?, ExpiringMap.get, h, World.deadline, RedisSessionRepository.ttl]⟩)
  · exact Or.inr (Or.inr ⟨hc, by simp [World.session?, ExpiringMap.get, h]⟩)

/-- A session that is read is stored. -/
theorem handle_sessionRead {v : UploadSession}
    (h : c.sessionRead (handle env out c w).1 = some v) :
    ∃ sid, c = .sessionGet sid ∧ w.session? sid = some v := by
  unfold Call.sessionRead at h
  split at h
  · rename_i sid s hans
    cases out with
    | works =>
        simp only [handle, respond, Except.ok.injEq] at hans
        exact ⟨sid, rfl, hans.trans h⟩
    | raises msg => simp [handle, failed] at hans
    | raisesAfter msg => simp [handle, failed] at hans
  · cases h

theorem handle_pulled {sid : UUID} {index : Int} {r : Option Bytes}
    (h : c.pulled (handle env out c w).1 = some (sid, index, r)) :
    c = .chunkPull sid index ∧ w.chunk? sid index = r := by
  unfold Call.pulled at h
  split at h
  · rename_i sid' index' r' hans
    cases h
    cases out with
    | works =>
        simp only [handle, respond, Except.ok.injEq] at hans
        exact ⟨rfl, hans⟩
    | raises msg => simp [handle, failed] at hans
    | raisesAfter msg => simp [handle, failed] at hans
  · cases h

/-- A chunk that is fetched is stored and not empty. -/
theorem handle_fetched {chunk : Chunk} (h : c.fetched (handle env out c w).1 = some chunk) :
    ∃ sid, c = .chunkGet sid chunk.index ∧ w.chunk? sid chunk.index = some chunk.rawBytes ∧
      chunk.rawBytes ≠ [] := by
  unfold Call.fetched at h
  split at h
  · rename_i sid index r hans
    cases out with
    | works =>
        simp only [handle, respond, Except.ok.injEq] at hans
        subst hans
        simp only [RedisChunkRepository.get] at h
        split at h
        · rename_i rawBytes chunkMeta hchunk _
          split at h
          · cases h
          · cases h
            exact ⟨sid, rfl, hchunk, by assumption⟩
        · cases h
    | raises msg => simp [handle, failed] at hans
    | raisesAfter msg => simp [handle, failed] at hans
  · cases h

/-- A lock key changes by a successful `SET NX EX` or by a release. -/
theorem handle_locks (sid : UUID) :
    (handle env out c w).2.locks sid = w.locks sid ∨
    (∃ ttl, c = .acquireLock sid ttl ∧ w.lock? sid = none ∧
      (handle env out c w).2.locks sid = some ("locked", w.deadline ttl)) ∨
    (c = .releaseLock sid ∧ (handle env out c w).2.locks sid = none) := by
  rcases handle_world env out c w with h | h
  · exact Or.inl (by rw [h])
  rw [h]
  cases c with
  | acquireLock sid' ttl =>
      rcases RedisSessionRepository.acquireLock_cases w sid' ttl with ⟨_, _, h⟩ | ⟨hfree, h⟩
      · exact Or.inl (by simp only [respond, h])
      · by_cases hs : sid' = sid
        · subst hs
          exact Or.inr (Or.inl ⟨ttl, rfl, hfree, by simp [respond, h, ExpiringMap.set]⟩)
        · have hs' : ¬ sid = sid' := fun h => hs h.symm
          exact Or.inl (by simp [respond, h, ExpiringMap.set, hs'])
  | releaseLock sid' =>
      by_cases hs : sid' = sid
      · subst hs
        exact Or.inr (Or.inr ⟨rfl, by
          simp [respond, RedisSessionRepository.releaseLock, ExpiringMap.erase]⟩)
      · have hs' : ¬ sid = sid' := fun h => hs h.symm
        exact Or.inl (by
          simp [respond, RedisSessionRepository.releaseLock, ExpiringMap.erase, hs'])
  | uploadPart t f u n data =>
      obtain ⟨_, h⟩ := S3ObjectStorage.uploadPart_frame env w t f u n data
      exact Or.inl (by simp only [respond, h])
  | completeMultipartUpload t f u parts =>
      obtain ⟨_, _, h⟩ := S3ObjectStorage.completeMultipartUpload_frame env w t f u parts
      exact Or.inl (by simp only [respond, h])
  | _ => exact Or.inl rfl

/-- What a lock key reads as after a call. -/
theorem handle_lock? (sid : UUID) :
    (handle env out c w).2.lock? sid = w.lock? sid ∨
    (∃ ttl, c = .acquireLock sid ttl ∧ w.lock? sid = none) ∨
    (c = .releaseLock sid ∧ (handle env out c w).2.lock? sid = none) := by
  rcases handle_locks env out c w sid with h | ⟨ttl, hc, hfree, _⟩ | ⟨hc, h⟩
  · exact Or.inl (by simp [World.lock?, ExpiringMap.get, h])
  · exact Or.inr (Or.inl ⟨ttl, hc, hfree⟩)
  · exact Or.inr (Or.inr ⟨hc, by simp [World.lock?, ExpiringMap.get, h]⟩)

/-- `acquire_lock` answers `True` only on a free key, which it then sets. -/
theorem handle_lockTaken {sid : UUID} {ttl : Nat}
    (h : c.lockTaken (handle env out c w).1 = some (sid, ttl)) :
    w.lock? sid = none ∧
      (handle env out c w).2.locks sid = some ("locked", w.deadline ttl) := by
  unfold Call.lockTaken at h
  split at h
  · rename_i sid' ttl' hans
    cases h
    cases out with
    | works =>
        rcases RedisSessionRepository.acquireLock_cases w sid ttl with ⟨_, _, ha⟩ | ⟨hfree, ha⟩
        · simp [handle, respond, ha] at hans
        · exact ⟨hfree, by simp [handle, respond, ha, ExpiringMap.set]⟩
    | raises msg => simp [handle, failed] at hans
    | raisesAfter msg => simp [handle, failed] at hans
  · cases h

/-- A chunk and its metadata change by a save of that chunk, which sets the deadline of
both, or by the deletion of all chunks. -/
theorem handle_chunks (sid : UUID) (i : Int) :
    ((handle env out c w).2.chunks (sid, i) = w.chunks (sid, i) ∧
      (handle env out c w).2.chunkMetas (sid, i) = w.chunkMetas (sid, i)) ∨
    (∃ chunk, c = .chunkSave sid chunk ∧ chunk.index = i ∧
      (handle env out c w).2.chunks (sid, i) =
        some (chunk.rawBytes, w.deadline RedisChunkRepository.ttl) ∧
      (handle env out c w).2.chunkMetas (sid, i) =
        some (⟨chunk.checksum, chunk.size⟩, w.deadline RedisChunkRepository.ttl)) ∨
    (c = .deleteAll sid ∧ (handle env out c w).2.chunks (sid, i) = none ∧
      (handle env out c w).2.chunkMetas (sid, i) = none) := by
  rcases handle_world env out c w with h | h
  · exact Or.inl (by rw [h]; exact ⟨rfl, rfl⟩)
  rw [h]
  cases c with
  | chunkSave sid' chunk =>
      by_cases hk : (sid', chunk.index) = (sid, i)
      · obtain ⟨rfl, rfl⟩ := Prod.mk.inj hk
        exact Or.inr (Or.inl ⟨chunk, rfl, rfl, if_pos rfl, if_pos rfl⟩)
      · exact Or.inl ⟨if_neg fun h => hk h.symm, if_neg fun h => hk h.symm⟩
  | deleteAll sid' =>
      by_cases hs : sid' = sid
      · subst hs
        exact Or.inr (Or.inr ⟨rfl, if_pos (by simp), if_pos (by simp)⟩)
      · have hs' : ¬ sid = sid' := fun h => hs h.symm
        exact Or.inl ⟨if_neg (by simp [hs']), if_neg (by simp [hs'])⟩
  | acquireLock sid' ttl =>
      obtain ⟨_, h⟩ := RedisSessionRepository.acquireLock_frame w sid' ttl
      exact Or.inl (by simp [respond, h])
  | uploadPart t f u n data =>
      obtain ⟨_, h⟩ := S3ObjectStorage.uploadPart_frame env w t f u n data
      exact Or.inl (by simp [respond, h])
  | completeMultipartUpload t f u parts =>
      obtain ⟨_, _, h⟩ := S3ObjectStorage.completeMultipartUpload_frame env w t f u parts
      exact Or.inl (by simp [respond, h])
  | _ => exact Or.inl ⟨rfl, rfl⟩

/-- What a chunk and its metadata read as after a call. -/
theorem handle_chunk? (sid : UUID) (i : Int) :
    ((handle env out c w).2.chunk? sid i = w.chunk? sid i ∧
      (handle env out c w).2.chunkMeta? sid i = w.chunkMeta? sid i) ∨
    (∃ chunk, c = .chunkSave sid chunk ∧ chunk.index = i ∧
      (handle env out c w).2.chunk? sid i = some chunk.rawBytes ∧
      (handle env out c w).2.chunkMeta? sid i = some ⟨chunk.checksum, chunk.size⟩) ∨
    (c = .deleteAll sid ∧ (handle env out c w).2.chunk? sid i = none ∧
      (handle env out c w).2.chunkMeta? sid i = none) := by
  rcases handle_chunks env out c w sid i with ⟨hc, hm⟩ | ⟨chunk, hcall, hi, hc, hm⟩ |
    ⟨hcall, hc, hm⟩
  · exact Or.inl (by simp [World.chunk?, World.chunkMeta?, ExpiringMap.get, hc, hm])
  · exact Or.inr (Or.inl ⟨chunk, hcall, hi, by
      simp [World.chunk?, World.chunkMeta?, ExpiringMap.get, hc, hm, World.deadline,
        RedisChunkRepository.ttl]⟩)
  · exact Or.inr (Or.inr ⟨hcall, by
      simp [World.chunk?, World.chunkMeta?, ExpiringMap.get, hc, hm]⟩)

/-- A dedup key changes by a registration for that tenant and checksum, which sets it
without a deadline. -/
theorem handle_dedup (t : UUID) (cs : String) :
    (handle env out c w).2.dedup (t, cs) = w.dedup (t, cs) ∨
    ∃ f uri size, c = .registerFile t f uri size cs ∧
      (handle env out c w).2.dedup (t, cs) = some (uri, none) := by
  rcases handle_world env out c w with h | h
  · exact Or.inl (by rw [h])
  rw [h]
  cases c with
  | registerFile t' f uri size cs' =>
      by_cases hk : (t', cs') = (t, cs)
      · obtain ⟨rfl, rfl⟩ := Prod.mk.inj hk
        exact Or.inr ⟨f, uri, size, rfl, if_pos rfl⟩
      · exact Or.inl (if_neg fun h => hk h.symm)
  | acquireLock sid' ttl =>
      obtain ⟨_, h⟩ := RedisSessionRepository.acquireLock_frame w sid' ttl
      exact Or.inl (by simp only [respond, h])
  | uploadPart t' f u n data =>
      obtain ⟨_, h⟩ := S3ObjectStorage.uploadPart_frame env w t' f u n data
      exact Or.inl (by simp only [respond, h])
  | completeMultipartUpload t' f u parts =>
      obtain ⟨_, _, h⟩ := S3ObjectStorage.completeMultipartUpload_frame env w t' f u parts
      exact Or.inl (by simp only [respond, h])
  | _ => exact Or.inl rfl

/-- What a dedup key reads as after a call. -/
theorem handle_dedup? (t : UUID) (cs : String) :
    (handle env out c w).2.dedup? t cs = w.dedup? t cs ∨
    ∃ f uri size, c = .registerFile t f uri size cs ∧
      (handle env out c w).2.dedup? t cs = some uri := by
  rcases handle_dedup env out c w t cs with h | ⟨f, uri, size, hc, h⟩
  · exact Or.inl (by simp [World.dedup?, ExpiringMap.get, h])
  · exact Or.inr ⟨f, uri, size, hc, by simp [World.dedup?, ExpiringMap.get, h]⟩

/-- A URI that is found is stored. -/
theorem handle_looked {uri : String} (h : c.looked (handle env out c w).1 = some uri) :
    ∃ t cs, c = .getByChecksum t cs ∧ w.dedup? t cs = some uri := by
  unfold Call.looked at h
  split at h
  · rename_i t cs found hans
    cases out with
    | works =>
        simp only [handle, respond, Except.ok.injEq] at hans
        subst hans
        refine ⟨t, cs, rfl, ?_⟩
        simp only [RedisMetadataRegistry.getByChecksum] at h
        split at h
        · rename_i s3Uri hentry
          split at h
          · cases h
          · cases h
            exact hentry
        · cases h
    | raises msg => simp [handle, failed] at hans
    | raisesAfter msg => simp [handle, failed] at hans
  · cases h

/-- An object changes by the completion of a multipart upload to its key, which is then gone. -/
theorem handle_objects (key : String) :
    (handle env out c w).2.objects key = w.objects key ∨
    ∃ t f u parts upload datas, c = .completeMultipartUpload t f u parts ∧
      S3ObjectStorage.objectKey t f = key ∧ w.uploads u = some upload ∧
      S3ObjectStorage.payloads env upload (S3ObjectStorage.sortedParts parts) = some datas ∧
      (handle env out c w).2.objects key = some datas.flatten ∧
      (handle env out c w).2.uploads u = none := by
  rcases handle_world env out c w with h | h
  · exact Or.inl (by rw [h])
  rw [h]
  cases c with
  | completeMultipartUpload t f u parts =>
      rcases S3ObjectStorage.completeMultipartUpload_cases env w t f u parts with
        ⟨_, h⟩ | ⟨upload, datas, hu, _, hp, _, h⟩
      · exact Or.inl (by simp only [respond, h])
      · by_cases hk : S3ObjectStorage.objectKey t f = key
        · exact Or.inr ⟨t, f, u, parts, upload, datas, rfl, hk, hu, hp, by simp [respond, h, hk],
            by simp [respond, h]⟩
        · refine Or.inl ?_
          simp only [respond, h]
          rw [Function.update_of_ne (fun h => hk h.symm)]
  | acquireLock sid' ttl =>
      obtain ⟨_, h⟩ := RedisSessionRepository.acquireLock_frame w sid' ttl
      exact Or.inl (by simp only [respond, h])
  | uploadPart t' f u n data =>
      obtain ⟨_, h⟩ := S3ObjectStorage.uploadPart_frame env w t' f u n data
      exact Or.inl (by simp only [respond, h])
  | _ => exact Or.inl rfl

/-- A commit that is answered has made one object of the payloads of its parts. -/
theorem handle_completed {t f : UUID} {u : Nat} {parts : List Part} {s3Uri : String}
    (h : (handle env out (.completeMultipartUpload t f u parts) w).1 = .ok s3Uri) :
    ∃ upload datas, w.uploads u = some upload ∧
      S3ObjectStorage.payloads env upload (S3ObjectStorage.sortedParts parts) = some datas ∧
      s3Uri = S3ObjectStorage.uri env (S3ObjectStorage.objectKey t f) ∧
      (handle env out (.completeMultipartUpload t f u parts) w).2.objects
        (S3ObjectStorage.objectKey t f) = some datas.flatten := by
  cases out with
  | works =>
      rcases S3ObjectStorage.completeMultipartUpload_cases env w t f u parts with
        ⟨_, hc⟩ | ⟨upload, datas, hu, _, hp, _, hc⟩
      · simp [handle, respond, hc] at h
      · simp only [handle, respond, hc, Except.ok.injEq] at h
        exact ⟨upload, datas, hu, hp, h.symm, by simp [handle, respond, hc]⟩
  | raises msg => simp [handle, failed] at h
  | raisesAfter msg => simp [handle, failed] at h

/-- S3 gives out a fresh id, for an upload without parts. -/
theorem handle_initiated {u : Nat} (h : c.initiated (handle env out c w).1 = some u) :
    u = w.nextUploadId ∧ (handle env out c w).2.nextUploadId = u + 1 ∧
      ∃ key, (handle env out c w).2.uploads u = some ⟨key, fun _ => none⟩ := by
  unfold Call.initiated at h
  split at h
  · rename_i t f u' hans
    cases h
    cases out with
    | works =>
        simp only [handle, respond, S3ObjectStorage.initiateMultipartUpload, Except.ok.injEq]
          at hans
        subst hans
        exact ⟨rfl, rfl, S3ObjectStorage.objectKey t f,
          by simp [handle, respond, S3ObjectStorage.initiateMultipartUpload]⟩
    | raises msg => simp [handle, failed] at hans
    | raisesAfter msg => simp [handle, failed] at hans
  · cases h

theorem handle_partUploaded {part : Part}
    (h : c.partUploaded (handle env out c w).1 = some part) :
    ∃ t f u n data, c = .uploadPart t f u n data ∧ part = ⟨env.etag data, n⟩ ∧
      ∃ upload, (handle env out c w).2.uploads u = some upload ∧ upload.parts n = some data := by
  unfold Call.partUploaded at h
  split at h
  · rename_i t f u n data part' hans
    cases h
    refine ⟨t, f, u, n, data, rfl, ?_⟩
    cases out with
    | works =>
        rcases S3ObjectStorage.uploadPart_cases env w t f u n data with
          ⟨_, hc⟩ | ⟨upload, _, _, hc⟩
        · simp [handle, respond, hc] at hans
        · simp only [handle, respond, hc, Except.ok.injEq] at hans
          subst hans
          exact ⟨rfl, { upload with parts := Function.update upload.parts n (some data) },
            by simp [handle, respond, hc], by simp⟩
    | raises msg => simp [handle, failed] at hans
    | raisesAfter msg => simp [handle, failed] at hans
  · cases h

theorem handle_nextUploadId : w.nextUploadId ≤ (handle env out c w).2.nextUploadId := by
  rcases handle_world env out c w with h | h
  · rw [h]
  rw [h]
  cases c with
  | initiateMultipartUpload t f => exact Nat.le_succ _
  | acquireLock sid' ttl =>
      obtain ⟨_, h⟩ := RedisSessionRepository.acquireLock_frame w sid' ttl
      simp [respond, h]
  | uploadPart t f u n data =>
      obtain ⟨_, h⟩ := S3ObjectStorage.uploadPart_frame env w t f u n data
      simp [respond, h]
  | completeMultipartUpload t f u parts =>
      obtain ⟨_, _, h⟩ := S3ObjectStorage.completeMultipartUpload_frame env w t f u parts
      simp [respond, h]
  | _ => exact Nat.le_refl _

/-- An upload with an id given out changes by an upload of one of its parts, or is
gone after the call that closes it. -/
theorem handle_uploads {u : Nat} (hu : u < w.nextUploadId) :
    (handle env out c w).2.uploads u = w.uploads u ∨
    (∃ t f n data upload, c = .uploadPart t f u n data ∧ w.uploads u = some upload ∧
      (handle env out c w).2.uploads u =
        some { upload with parts := Function.update upload.parts n (some data) }) ∨
    (∃ t f parts, c = .completeMultipartUpload t f u parts) ∨
    (∃ t f, c = .abortMultipartUpload t f u) := by
  rcases handle_world env out c w with h | h
  · exact Or.inl (by rw [h])
  rw [h]
  cases c with
  | initiateMultipartUpload t f =>
      have hne : u ≠ w.nextUploadId := Nat.ne_of_lt hu
      exact Or.inl (by simp [respond, S3ObjectStorage.initiateMultipartUpload, hne])
  | uploadPart t f u' n data =>
      rcases S3ObjectStorage.uploadPart_cases env w t f u' n data with
        ⟨_, h⟩ | ⟨upload, hup, _, h⟩
      · exact Or.inl (by simp only [respond, h])
      · by_cases hu' : u = u'
        · subst hu'
          exact Or.inr (Or.inl ⟨t, f, n, data, upload, rfl, hup, by simp [respond, h]⟩)
        · exact Or.inl (by simp [respond, h, hu'])
  | completeMultipartUpload t f u' parts =>
      by_cases hu' : u = u'
      · subst hu'
        exact Or.inr (Or.inr (Or.inl ⟨t, f, parts, rfl⟩))
      · rcases S3ObjectStorage.completeMultipartUpload_cases env w t f u' parts with
          ⟨_, h⟩ | ⟨_, _, _, _, _, _, h⟩
        · exact Or.inl (by simp only [respond, h])
        · exact Or.inl (by simp [respond, h, hu'])
  | abortMultipartUpload t f u' =>
      by_cases hu' : u = u'
      · subst hu'
        exact Or.inr (Or.inr (Or.inr ⟨t, f, rfl⟩))
      · exact Or.inl (by simp [respond, S3ObjectStorage.abortMultipartUpload, hu'])
  | acquireLock sid' ttl =>
      obtain ⟨_, h⟩ := RedisSessionRepository.acquireLock_frame w sid' ttl
      exact Or.inl (by simp only [respond, h])
  | _ => exact Or.inl rfl

/-- A call leaves the uploads that it is not about as they are. -/
theorem handle_uploads_unused {u : Nat} (hu : u < w.nextUploadId) (hunused : c.uses ≠ some u) :
    (handle env out c w).2.uploads u = w.uploads u := by
  rcases handle_uploads env out c w hu with
    hsame | ⟨t, f, n, data, _, hc, _⟩ | ⟨t, f, parts, hc⟩ | ⟨t, f, hc⟩
  · exact hsame
  all_goals
    subst hc
    exact absurd rfl hunused

/-- The event log grows by a publication only. -/
theorem handle_events :
    (handle env out c w).2.events = w.events ∨
    ∃ e, c = .publishFileUploadCompleted e ∧
      (handle env out c w).2.events = w.events ++ [e] := by
  rcases handle_world env out c w with h | h
  · exact Or.inl (by rw [h])
  rw [h]
  cases c with
  | publishFileUploadCompleted e => exact Or.inr ⟨e, rfl, rfl⟩
  | acquireLock sid' ttl =>
      obtain ⟨_, h⟩ := RedisSessionRepository.acquireLock_frame w sid' ttl
      exact Or.inl (by simp only [respond, h])
  | uploadPart t' f u n data =>
      obtain ⟨_, h⟩ := S3ObjectStorage.uploadPart_frame env w t' f u n data
      exact Or.inl (by simp only [respond, h])
  | completeMultipartUpload t f u parts =>
      obtain ⟨_, _, h⟩ := S3ObjectStorage.completeMultipartUpload_frame env w t f u parts
      exact Or.inl (by simp only [respond, h])
  | _ => exact Or.inl rfl

end Effects

end FileUploader
