import FileUploader.Await.Trace
import FileUploader.Service

/-! # The calls of each part of a use case

Which calls a part of a use case can make at all, whatever it is answered: `P` holds of
each of them if it holds of those listed here.
-/

namespace FileUploader

open Await Prog

section Parts

variable {P : Call → Prop} {env : Env} {sid : UUID} {v : UploadSession}

@[simp] theorem makes_ask (c : Call) :
    @Makes Collab (no_index c.Resp) P (ask c) ↔ P c := makes_await (S := Collab) c

/-- The session is looked up once. -/
theorem requireSession_makes (hget : P (.sessionGet sid)) : Makes P (requireSession sid) := by
  refine makes_bind ((makes_ask _).2 hget) fun found => ?_
  cases found with
  | none => exact makes_raise (S := Collab) _
  | some v => exact makes_pure (S := Collab) v

/-- An upload in its critical section. -/
theorem process_makes {index : Int} {cs : String} {data : Bytes}
    (hchunk : ∀ chunk, P (.chunkSave sid chunk)) (hsave : ∀ s, P (.sessionSave s)) :
    Makes P (UploadChunkUseCase.process env v sid index cs data) := by
  refine makes_bind (makes_raiseIf _ _) fun _ => ?_
  refine makes_bind (makes_raiseIf _ _) fun _ => ?_
  refine makes_bind (makes_raiseIf _ _) fun _ => ?_
  refine makes_bind ((makes_ask _).2 (hchunk _)) fun _ => ?_
  refine makes_bind (makes_ofExcept (S := Collab) _) fun updated => ?_
  exact makes_bind ((makes_ask _).2 (hsave updated)) fun _ => makes_pure (S := Collab) _

/-- The scan pulls chunks, and does nothing else. -/
theorem scanStream_makes (hpull : ∀ i, P (.chunkPull sid i)) :
    Makes P (LocalVirusScanner.scanStream (ChunkRepository.getStream sid) 0) := by
  refine makes_loop (fun index => ?_) 0
  refine makes_bind (makes_bind ((makes_ask _).2 (hpull _)) fun r => ?_) fun found => ?_
  · cases r with
    | none => exact makes_pure (S := Collab) _
    | some data =>
        simp only
        split
        · exact makes_pure (S := Collab) _
        · exact makes_pure (S := Collab) _
  · cases found with
    | none => exact makes_pure (S := Collab) _
    | some found => exact makes_bind (makes_raiseIf _ _) fun _ => makes_pure (S := Collab) _

/-- A scan, with the purge. -/
theorem scan_makes (hpull : ∀ i, P (.chunkPull sid i)) (hsave : P (.sessionSave v.fail))
    (hall : P (.deleteAll sid)) (hdelete : P (.sessionDelete sid)) :
    Makes P (FinalizeUploadUseCase.scan v sid) := by
  refine makes_tryExcept (scanStream_makes hpull) fun x => ?_
  split
  · refine makes_bind ((makes_ask _).2 hsave) fun _ => ?_
    refine makes_bind ((makes_ask _).2 hall) fun _ => ?_
    exact makes_bind ((makes_ask _).2 hdelete) fun _ => makes_raise (S := Collab) _
  · exact makes_raise (S := Collab) _

/-- The loop over the parts looks chunks up and sends them. -/
theorem uploadParts_makes {u : Nat} (hget : ∀ i, P (.chunkGet sid i))
    (hpart : ∀ n data, P (.uploadPart v.tenantId v.fileId u n data)) :
    Makes P (FinalizeUploadUseCase.uploadParts v sid u) := by
  refine makes_loop (fun s => ?_) _
  rcases s with ⟨partNumber, parts⟩
  refine makes_bind ((makes_ask _).2 (hget _)) fun chunk => ?_
  cases chunk with
  | none => exact makes_pure (S := Collab) _
  | some chunk => exact makes_bind ((makes_ask _).2 (hpart _ _)) fun _ => makes_pure (S := Collab) _

/-- Whatever a finalize does about S3. -/
theorem assemble_makes (hinit : P (.initiateMultipartUpload v.tenantId v.fileId))
    (hget : ∀ i, P (.chunkGet sid i))
    (hpart : ∀ u n data, P (.uploadPart v.tenantId v.fileId u n data))
    (hcomplete : ∀ u parts, P (.completeMultipartUpload v.tenantId v.fileId u parts))
    (habort : ∀ u, P (.abortMultipartUpload v.tenantId v.fileId u))
    (hsave : P (.sessionSave v.fail)) : Makes P (FinalizeUploadUseCase.assemble v sid) := by
  refine makes_bind ((makes_ask _).2 hinit) fun u => ?_
  refine makes_tryExcept (makes_bind (uploadParts_makes hget (hpart u)) fun parts => ?_) fun x => ?_
  · exact (makes_ask _).2 (hcomplete u parts)
  · refine makes_bind ((makes_ask _).2 (habort u)) fun _ => ?_
    exact makes_bind ((makes_ask _).2 hsave) fun _ => makes_raise (S := Collab) _

/-- What follows the commit. -/
theorem publish_makes {s3Uri : String}
    (hregister : P (.registerFile v.tenantId v.fileId s3Uri v.totalSize v.checksum))
    (hpublish : ∀ event, P (.publishFileUploadCompleted event)) (hall : P (.deleteAll sid))
    (hdelete : P (.sessionDelete sid)) : Makes P (FinalizeUploadUseCase.publish v sid s3Uri) := by
  refine makes_bind ((makes_ask _).2 hregister) fun _ => ?_
  refine makes_bind ((makes_ask _).2 (hpublish _)) fun _ => ?_
  refine makes_bind (makes_ofExcept (S := Collab) _) fun _ => ?_
  refine makes_bind ((makes_ask _).2 hall) fun _ => ?_
  exact makes_bind ((makes_ask _).2 hdelete) fun _ => makes_pure (S := Collab) _

/-- What runs under the lock, with the lock. -/
theorem locking_makes {α : Type} {p : Program α}
    (hacquire : P (.acquireLock sid RedisSessionRepository.lockTtl))
    (hrelease : P (.releaseLock sid)) (hp : Makes P p) : Makes P (do
      let locked ← SessionRepository.acquireLock sid RedisSessionRepository.lockTtl
      raiseIf (locked = false) (lockError sid)
      p.tryFinally (SessionRepository.releaseLock sid)) := by
  refine makes_bind ((makes_ask _).2 hacquire) fun locked => ?_
  refine makes_bind (makes_raiseIf _ _) fun _ => ?_
  exact makes_tryFinally hp ((makes_ask _).2 hrelease)

/-- All calls that a chunk upload can make. -/
theorem upload_makes {index : Int} {cs : String} {data : Bytes} (hget : P (.sessionGet sid))
    (hacquire : P (.acquireLock sid RedisSessionRepository.lockTtl))
    (hrelease : P (.releaseLock sid)) (hchunk : ∀ chunk, P (.chunkSave sid chunk))
    (hsave : ∀ s, P (.sessionSave s)) : Makes P (Op.prog env (.uploadChunk sid index cs data)) := by
  refine makes_bind (makes_bind (requireSession_makes hget) fun v => ?_) fun _ => makes_pure _
  refine makes_bind (makes_raiseIf _ _) fun _ => ?_
  exact locking_makes hacquire hrelease (process_makes hchunk hsave)

/-- All calls that an abort can make. -/
theorem abort_makes (hget : P (.sessionGet sid))
    (hacquire : P (.acquireLock sid RedisSessionRepository.lockTtl))
    (hrelease : P (.releaseLock sid)) (hall : P (.deleteAll sid))
    (hdelete : P (.sessionDelete sid)) : Makes P (Op.prog env (.abort sid)) := by
  refine makes_bind (makes_bind (requireSession_makes hget) fun v => ?_) fun _ => makes_pure _
  refine locking_makes hacquire hrelease (makes_bind ((makes_ask _).2 hall) fun _ => ?_)
  exact (makes_ask _).2 hdelete

theorem query_makes (hget : P (.sessionGet sid)) : Makes P (Op.prog env (.query sid)) :=
  makes_bind (makes_bind (requireSession_makes hget) fun _ => makes_pure _) fun _ => makes_pure _

/-- All calls that an initiate can make. -/
theorem initiate_makes {newId t f : UUID} {size : Int} {cs : String}
    (hfind : P (.getByChecksum t cs))
    (hsave : P (.sessionSave ⟨newId, t, f, size, 0, cs, .initiated⟩)) :
    Makes P (Op.prog env (.initiate newId t f size cs)) := by
  refine makes_bind (makes_bind ((makes_ask _).2 hfind) fun found => ?_) fun _ => makes_pure _
  cases found with
  | some s3Uri => exact makes_pure (S := Collab) _
  | none => exact makes_bind ((makes_ask _).2 hsave) fun _ => makes_pure (S := Collab) _

/-- All calls that a finalize can make. -/
theorem finalize_makes (hget : P (.sessionGet sid))
    (hacquire : P (.acquireLock sid RedisSessionRepository.lockTtl))
    (hrelease : P (.releaseLock sid)) (hpull : ∀ i, P (.chunkPull sid i))
    (hfail : ∀ v : UploadSession, P (.sessionSave v.fail)) (hall : P (.deleteAll sid))
    (hdelete : P (.sessionDelete sid)) (hchunk : ∀ i, P (.chunkGet sid i))
    (hinit : ∀ t f, P (.initiateMultipartUpload t f))
    (hpart : ∀ t f u n data, P (.uploadPart t f u n data))
    (hcomplete : ∀ t f u parts, P (.completeMultipartUpload t f u parts))
    (habort : ∀ t f u, P (.abortMultipartUpload t f u))
    (hregister : ∀ t f s3Uri size cs, P (.registerFile t f s3Uri size cs))
    (hpublish : ∀ event, P (.publishFileUploadCompleted event)) :
    Makes P (Op.prog env (.finalize sid)) := by
  refine makes_bind (makes_bind (requireSession_makes hget) fun v => ?_) fun _ => makes_pure _
  refine makes_bind (makes_raiseIf _ _) fun _ => makes_bind (makes_raiseIf _ _) fun _ => ?_
  refine makes_bind (makes_raiseIf _ _) fun _ => locking_makes hacquire hrelease ?_
  refine makes_bind (scan_makes hpull (hfail v) hall hdelete) fun _ => ?_
  refine makes_bind (assemble_makes (hinit _ _) hchunk (hpart _ _) (hcomplete _ _) (habort _ _)
    (hfail v)) fun _ => ?_
  exact publish_makes (hregister _ _ _ _ _) hpublish hall hdelete

end Parts

end FileUploader
