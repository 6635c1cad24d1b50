import FileUploader.Infrastructure.Calls

/-! # The use cases

`InitiateUploadUseCase`, `UploadChunkUseCase`, `FinalizeUploadUseCase` and
`AbortUploadUseCase`, the virus scanner that finalize runs over the cached
chunks, and the status query of the router. Each is the program of the calls it
awaits, in the order of the source. Log lines are left out.
-/

namespace FileUploader

open Await Prog

/-- A program over the service's collaborators. -/
abbrev Program := Prog Collab

/-- Await one call of a collaborator. -/
@[reducible] def ask (c : Call) : Program c.Resp := Prog.await (S := Collab) c

/-! ## The collaborators as programs -/

namespace SessionRepository

def get (sessionId : UUID) : Program (Option UploadSession) := ask (.sessionGet sessionId)
def save (session : UploadSession) : Program Unit := ask (.sessionSave session)
def delete (sessionId : UUID) : Program Unit := ask (.sessionDelete sessionId)
def acquireLock (sessionId : UUID) (ttlSeconds : Nat) : Program Bool :=
  ask (.acquireLock sessionId ttlSeconds)
def releaseLock (sessionId : UUID) : Program Unit := ask (.releaseLock sessionId)

end SessionRepository

/-- An asynchronous iterator: the next item and the state to go on from, or the
end of the stream. -/
abbrev AsyncIterator (σ α : Type) := σ → Program (Option (α × σ))

namespace ChunkRepository

def save (sessionId : UUID) (chunk : Chunk) : Program Unit := ask (.chunkSave sessionId chunk)
def get (sessionId : UUID) (index : Int) : Program (Option Chunk) :=
  ask (.chunkGet sessionId index)

/-- Yields the payloads of chunks 0, 1, 2, … up to the first one that is absent
or empty; the state is the next index. -/
def getStream (sessionId : UUID) : AsyncIterator Nat Bytes := fun index => do
  let chunkBytes ← ask (.chunkPull sessionId index)
  match chunkBytes with
  | none => pure none
  | some data => if data = [] then pure none else pure (some (data, index + 1))

def deleteAll (sessionId : UUID) : Program Unit := ask (.deleteAll sessionId)

end ChunkRepository

namespace MetadataRegistry

def getByChecksum (tenantId : UUID) (checksum : String) : Program (Option String) :=
  ask (.getByChecksum tenantId checksum)
def registerFile (tenantId fileId : UUID) (s3Uri : String) (size : Int) (checksum : String) :
    Program Unit :=
  ask (.registerFile tenantId fileId s3Uri size checksum)

end MetadataRegistry

namespace ObjectStorage

def initiateMultipartUpload (tenantId fileId : UUID) : Program Nat :=
  ask (.initiateMultipartUpload tenantId fileId)
def uploadPart (tenantId fileId : UUID) (uploadId partNumber : Nat) (data : Bytes) :
    Program Part :=
  ask (.uploadPart tenantId fileId uploadId partNumber data)
def completeMultipartUpload (tenantId fileId : UUID) (uploadId : Nat) (parts : List Part) :
    Program String :=
  ask (.completeMultipartUpload tenantId fileId uploadId parts)
def abortMultipartUpload (tenantId fileId : UUID) (uploadId : Nat) : Program Unit :=
  ask (.abortMultipartUpload tenantId fileId uploadId)

end ObjectStorage

def EventPublisher.publishFileUploadCompleted (event : Event) : Program Unit :=
  ask (.publishFileUploadCompleted event)

/-- Step 1 of each use case on a session: read it, and
`if not session: raise EntityNotFoundError("UploadSession", session_id)`. -/
def requireSession (sessionId : UUID) : Program UploadSession := do
  match ← SessionRepository.get sessionId with
  | none => raise (.entityNotFoundError "UploadSession" sessionId)
  | some session => pure session

def lockError (sessionId : UUID) : Exn :=
  .lockAcquisitionError s!"Could not acquire session lock for session {sessionId.str}"

/-! ## InitiateUploadUseCase -/

/-- What `execute` returns: `(session, None)` or `(None, s3_uri)`. -/
abbrev InitiateResult := Option UploadSession × Option String

/-- `newId` is what `uuid4()` gives in this execution. -/
def InitiateUploadUseCase.execute (newId tenantId fileId : UUID) (totalSize : Int)
    (checksum : String) : Program InitiateResult := do
  let existingUri ← MetadataRegistry.getByChecksum tenantId checksum
  match existingUri with
  | some uri => pure (none, some uri)
  | none =>
      let session : UploadSession :=
        { sessionId := newId, tenantId := tenantId, fileId := fileId, totalSize := totalSize,
          currentOffset := 0, checksum := checksum, status := .initiated }
      SessionRepository.save session
      pure (some session, none)

/-! ## UploadChunkUseCase -/

namespace UploadChunkUseCase

/-- 50 MB -/
def maxChunkSize : Nat := 50 * 1024 * 1024

/-- 5 MB, the least size of an intermediate chunk. -/
def minChunkSize : Nat := 5 * 1024 * 1024

/-- Steps 4 to 6, under the lock, on the copy of the session read before it. -/
def process (env : Env) (session : UploadSession) (sessionId : UUID) (chunkIndex : Int)
    (checksum : String) (data : Bytes) : Program UploadSession := do
  let chunkSize := data.length
  raiseIf (chunkSize > maxChunkSize)
    (.validationError "Chunk size exceeds maximum limit of 50 MB")
  let isFinalChunk := session.currentOffset + chunkSize = session.totalSize
  raiseIf (chunkSize < minChunkSize ∧ ¬ isFinalChunk)
    (.validationError ("Intermediate chunks must be at least 5 MB in size " ++
      "for S3 Multipart Upload compatibility"))
  let calculatedHash := env.sha256 data
  raiseIf (lower calculatedHash ≠ lower checksum)
    (.checksumMismatchError (s!"Checksum mismatch for chunk {chunkIndex}. " ++
      s!"Expected: {checksum}, Calculated: {calculatedHash}"))
  ChunkRepository.save sessionId
    { index := chunkIndex, size := chunkSize, checksum := calculatedHash, rawBytes := data }
  let updated ← ofExcept (session.updateOffset chunkSize)
  SessionRepository.save updated
  pure updated

def execute (env : Env) (sessionId : UUID) (chunkIndex : Int) (checksum : String)
    (data : Bytes) : Program UploadSession := do
  let session ← requireSession sessionId
  raiseIf (session.status ∈ [.completed, .aborted, .failed])
    (.validationError s!"Cannot upload chunk: session is in {session.status.value} state")
  let locked ← SessionRepository.acquireLock sessionId RedisSessionRepository.lockTtl
  raiseIf (locked = false) (lockError sessionId)
  tryFinally (process env session sessionId chunkIndex checksum data)
    (SessionRepository.releaseLock sessionId)

end UploadChunkUseCase

/-! ## LocalVirusScanner -/

namespace LocalVirusScanner

/-- `b"EICAR-STANDARD-ANTIVIRUS-TEST-FILE"` -/
def eicarSignature : Bytes :=
  ['E', 'I', 'C', 'A', 'R', '-', 'S', 'T', 'A', 'N', 'D', 'A', 'R', 'D', '-', 'A', 'N', 'T', 'I',
    'V', 'I', 'R', 'U', 'S', '-', 'T', 'E', 'S', 'T', '-', 'F', 'I', 'L', 'E'].map
      (fun ch => UInt8.ofNat ch.toNat)

def threat : Exn :=
  .malwareDetectedError "Malware Signature Detected: EICAR standard anti-virus test file."

/-- `async for chunk in stream`: each chunk is looked at on its own. -/
def scanStream {σ : Type} (stream : AsyncIterator σ Bytes) (start : σ) : Program Bool :=
  loop (fun s => do
    match ← stream s with
    | none => pure (.inr true)
    | some (chunk, rest) =>
        raiseIf (eicarSignature <:+: chunk) threat
        pure (.inl rest)) start

end LocalVirusScanner

/-! ## FinalizeUploadUseCase -/

namespace FinalizeUploadUseCase

/-- Step 4: on malware the session is stored as failed and everything purged. -/
def scan (session : UploadSession) (sessionId : UUID) : Program Bool :=
  tryExcept (LocalVirusScanner.scanStream (ChunkRepository.getStream sessionId) 0)
    (fun
      | .malwareDetectedError msg => do
          SessionRepository.save session.fail
          ChunkRepository.deleteAll sessionId
          SessionRepository.delete sessionId
          raise (.malwareDetectedError msg)
      | x => raise x)

/-- The `while True` of step 5: chunk `part_number - 1` becomes part
`part_number`, until a chunk is missing. -/
def uploadParts (session : UploadSession) (sessionId : UUID) (uploadId : Nat) :
    Program (List Part) :=
  loop (fun ((partNumber, parts) : Nat × List Part) => do
    match ← ChunkRepository.get sessionId ((partNumber : Int) - 1) with
    | none => pure (.inr parts)
    | some chunk =>
        let part ← ObjectStorage.uploadPart session.tenantId session.fileId uploadId partNumber
          chunk.rawBytes
        pure (.inl (partNumber + 1, parts ++ [part]))) (1, [])

/-- Step 5: any exception aborts the multipart upload and fails the session. -/
def assemble (session : UploadSession) (sessionId : UUID) : Program String := do
  let uploadId ← ObjectStorage.initiateMultipartUpload session.tenantId session.fileId
  tryExcept
    (do
      let parts ← uploadParts session sessionId uploadId
      ObjectStorage.completeMultipartUpload session.tenantId session.fileId uploadId parts)
    (fun s3Error => do
      ObjectStorage.abortMultipartUpload session.tenantId session.fileId uploadId
      SessionRepository.save session.fail
      raise (.runtimeError s!"S3 Multipart upload failed: {s3Error.str}"))

/-- Steps 6 to 8. -/
def publish (session : UploadSession) (sessionId : UUID) (s3Uri : String) : Program String := do
  MetadataRegistry.registerFile session.tenantId session.fileId s3Uri session.totalSize
    session.checksum
  EventPublisher.publishFileUploadCompleted
    { tenantId := session.tenantId, fileId := session.fileId, s3Uri := s3Uri,
      totalSize := session.totalSize, checksum := session.checksum }
  let _ ← ofExcept session.complete
  ChunkRepository.deleteAll sessionId
  SessionRepository.delete sessionId
  pure s3Uri

def execute (sessionId : UUID) : Program String := do
  let session ← requireSession sessionId
  raiseIf (session.status = .completed)
    (.validationError "Upload session has already been completed.")
  raiseIf (session.status ∈ [.aborted, .failed])
    (.validationError s!"Cannot finalize: session is in {session.status.value} state")
  raiseIf (session.currentOffset ≠ session.totalSize)
    (.validationError ("Cannot finalize: not all bytes have been uploaded. " ++
      s!"Uploaded offset: {session.currentOffset}, Expected total size: {session.totalSize}"))
  let locked ← SessionRepository.acquireLock sessionId RedisSessionRepository.lockTtl
  raiseIf (locked = false) (lockError sessionId)
  tryFinally
    (do
      let _ ← scan session sessionId
      let s3Uri ← assemble session sessionId
      publish session sessionId s3Uri)
    (SessionRepository.releaseLock sessionId)

end FinalizeUploadUseCase

/-! ## AbortUploadUseCase -/

/-- `session.abort()` only marks the local copy, which is then dropped. -/
def AbortUploadUseCase.execute (sessionId : UUID) : Program Unit := do
  let _ ← requireSession sessionId
  let locked ← SessionRepository.acquireLock sessionId RedisSessionRepository.lockTtl
  raiseIf (locked = false) (lockError sessionId)
  tryFinally
    (do
      ChunkRepository.deleteAll sessionId
      SessionRepository.delete sessionId)
    (SessionRepository.releaseLock sessionId)

/-! ## The status query -/

/-- What `HEAD /v1/uploads/{session_id}` answers with. -/
structure SessionReport where
  sessionId : UUID
  uploadOffset : Int
  uploadLength : Int
  uploadStatus : String
deriving DecidableEq, Repr

/-- `"completed" if session.current_offset == session.total_size else "active"` -/
def statusStr (session : UploadSession) : String :=
  if session.currentOffset = session.totalSize then "completed" else "active"

/-- `query_session`; the route answers 404 where this raises. -/
def querySession (sessionId : UUID) : Program SessionReport := do
  let session ← requireSession sessionId
  pure ⟨session.sessionId, session.currentOffset, session.totalSize, statusStr session⟩

end FileUploader
