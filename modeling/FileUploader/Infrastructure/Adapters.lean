import Mathlib.Data.List.Sort
import FileUploader.Domain
import FileUploader.Store.ExpiringMap

/-! # Infrastructure adapters

The repositories over Redis, the dedup registry, the S3 storage and the event
publisher, as functions of one shared world. Time is in milliseconds.

Redis values are kept decoded (what `json.loads` gives back of what `json.dumps`
wrote), one map for each kind of key. What S3 does on its side of the calls is
not in the repository: the entity tag of a part and the rules by which S3
refuses to complete an upload are parameters of `Env`, and so is SHA-256.
-/

namespace FileUploader

/-- What the service is given: its digest, its bucket, and S3's own rules. -/
structure Env where
  /-- `hashlib.sha256(data).hexdigest()` -/
  sha256 : Bytes → String
  bucketName : String
  /-- S3's entity tag of an uploaded part. -/
  etag : Bytes → String
  /-- Whether S3 completes an upload from these part numbers and payloads. -/
  s3Accepts : List Nat → List Bytes → Bool

/-- `{"checksum": .., "size": ..}` of a cached chunk. -/
structure ChunkMeta where
  checksum : String
  size : Nat
deriving DecidableEq, Repr

/-- `{"ETag": .., "PartNumber": ..}` of an uploaded part. -/
structure Part where
  etag : String
  partNumber : Nat
deriving DecidableEq, Repr

/-- A multipart upload S3 has open: its object key and the parts received. -/
structure MultipartUpload where
  key : String
  parts : Nat → Option Bytes

/-- The payload of a `FILE_UPLOAD_COMPLETED` message. -/
structure Event where
  tenantId : UUID
  fileId : UUID
  s3Uri : String
  totalSize : Int
  checksum : String
deriving DecidableEq, Repr

/-- Redis, S3, the broker's log of published events, and the clock. -/
structure World where
  now : Nat
  sessions : ExpiringMap UUID UploadSession Nat
  locks : ExpiringMap UUID String Nat
  chunks : ExpiringMap (UUID × Int) Bytes Nat
  chunkMetas : ExpiringMap (UUID × Int) ChunkMeta Nat
  dedup : ExpiringMap (UUID × String) String Nat
  objects : String → Option Bytes
  uploads : Nat → Option MultipartUpload
  nextUploadId : Nat
  events : List Event

namespace World

/-- Nothing stored yet, at time `now`. -/
def empty (now : Nat) : World where
  now := now
  sessions := .empty
  locks := .empty
  chunks := .empty
  chunkMetas := .empty
  dedup := .empty
  objects := fun _ => none
  uploads := fun _ => none
  nextUploadId := 0
  events := []

/-! What `GET` on each kind of key answers now. -/

def session? (w : World) (sessionId : UUID) : Option UploadSession := w.sessions.get w.now sessionId
def lock? (w : World) (sessionId : UUID) : Option String := w.locks.get w.now sessionId
def chunk? (w : World) (sessionId : UUID) (index : Int) : Option Bytes :=
  w.chunks.get w.now (sessionId, index)
def chunkMeta? (w : World) (sessionId : UUID) (index : Int) : Option ChunkMeta :=
  w.chunkMetas.get w.now (sessionId, index)
def dedup? (w : World) (tenantId : UUID) (checksum : String) : Option String :=
  w.dedup.get w.now (tenantId, checksum)

/-- The deadline of a key set now with `ex=ttlSeconds`. -/
def deadline (w : World) (ttlSeconds : Nat) : Option Nat := some (w.now + ttlSeconds * 1000)

/-- Time passes. -/
def advance (w : World) (d : Nat) : World := { w with now := w.now + d }

end World

/-! ## RedisSessionRepository -/

namespace RedisSessionRepository

def ttl : Nat := 86400

/-- The default of `acquire_lock`'s `ttl_seconds`, with which it is called. -/
def lockTtl : Nat := 10

def get (w : World) (sessionId : UUID) : Option UploadSession := w.session? sessionId

def save (w : World) (session : UploadSession) : World :=
  { w with sessions := w.sessions.set session.sessionId session (w.deadline ttl) }

def delete (w : World) (sessionId : UUID) : World :=
  { w with sessions := w.sessions.erase sessionId }

/-- `SET lock "locked" NX EX ttl` -/
def acquireLock (w : World) (sessionId : UUID) (ttlSeconds : Nat) : Bool × World :=
  match w.lock? sessionId with
  | some _ => (false, w)
  | none => (true, { w with locks := w.locks.set sessionId "locked" (w.deadline ttlSeconds) })

def releaseLock (w : World) (sessionId : UUID) : World :=
  { w with locks := w.locks.erase sessionId }

theorem acquireLock_cases (w : World) (sessionId : UUID) (ttlSeconds : Nat) :
    (∃ v, w.lock? sessionId = some v ∧ acquireLock w sessionId ttlSeconds = (false, w)) ∨
    (w.lock? sessionId = none ∧ acquireLock w sessionId ttlSeconds =
      (true, { w with locks := w.locks.set sessionId "locked" (w.deadline ttlSeconds) })) := by
  unfold acquireLock
  cases h : w.lock? sessionId with
  | some v => exact Or.inl ⟨v, rfl, rfl⟩
  | none => exact Or.inr ⟨rfl, rfl⟩

theorem acquireLock_frame (w : World) (sessionId : UUID) (ttlSeconds : Nat) :
    ∃ locks, (acquireLock w sessionId ttlSeconds).2 = { w with locks := locks } := by
  rcases acquireLock_cases w sessionId ttlSeconds with ⟨_, _, h⟩ | ⟨_, h⟩
  · exact ⟨w.locks, by rw [h]⟩
  · exact ⟨_, by rw [h]⟩

end RedisSessionRepository

/-! ## RedisChunkRepository -/

namespace RedisChunkRepository

def ttl : Nat := 86400

/-- Both keys are set in one pipeline. -/
def save (w : World) (sessionId : UUID) (chunk : Chunk) : World :=
  { w with
    chunks := w.chunks.set (sessionId, chunk.index) chunk.rawBytes (w.deadline ttl)
    chunkMetas := w.chunkMetas.set (sessionId, chunk.index) ⟨chunk.checksum, chunk.size⟩
      (w.deadline ttl) }

/-- An empty payload reads as no chunk. -/
def get (w : World) (sessionId : UUID) (index : Int) : Option Chunk :=
  match w.chunk? sessionId index, w.chunkMeta? sessionId index with
  | some rawBytes, some chunkMeta =>
      if rawBytes = [] then none
      else some ⟨index, chunkMeta.size, chunkMeta.checksum, rawBytes⟩
  | _, _ => none

/-- Delete every key of the session that `SCAN upload:{session_id}:*` finds. -/
def deleteAll (w : World) (sessionId : UUID) : World :=
  { w with
    chunks := w.chunks.eraseAll (fun k => k.1 = sessionId)
    chunkMetas := w.chunkMetas.eraseAll (fun k => k.1 = sessionId) }

end RedisChunkRepository

/-! ## RedisMetadataRegistry -/

namespace RedisMetadataRegistry

/-- `get_metadata_registry` wires the registry without a TTL. -/
def wiredTtl : Option Nat := none

/-- An empty URI reads as no entry. -/
def getByChecksum (w : World) (tenantId : UUID) (checksum : String) : Option String :=
  match w.dedup? tenantId checksum with
  | some s3Uri => if s3Uri = "" then none else some s3Uri
  | none => none

/-- `if self.ttl:` also takes a TTL of 0 for none. -/
def registerFile (ttl : Option Nat) (w : World) (tenantId : UUID) (s3Uri : String)
    (checksum : String) : World :=
  let deadline := match ttl with
    | none | some 0 => none
    | some seconds => w.deadline seconds
  { w with dedup := w.dedup.set (tenantId, checksum) s3Uri deadline }

end RedisMetadataRegistry

/-! ## S3ObjectStorage -/

namespace S3ObjectStorage

def objectKey (tenantId fileId : UUID) : String := s!"uploads/{tenantId.str}/raw/{fileId.str}"

/-- The URI of a key in the bucket. -/
def uri (env : Env) (key : String) : String := s!"s3://{env.bucketName}/{key}"

def initiateMultipartUpload (w : World) (tenantId fileId : UUID) : Nat × World :=
  (w.nextUploadId,
    { w with
      uploads := Function.update w.uploads w.nextUploadId
        (some ⟨objectKey tenantId fileId, fun _ => none⟩)
      nextUploadId := w.nextUploadId + 1 })

def uploadPart (env : Env) (w : World) (tenantId fileId : UUID) (uploadId partNumber : Nat)
    (data : Bytes) : Except Exn Part × World :=
  match w.uploads uploadId with
  | none => (.error (.clientError "NoSuchUpload"), w)
  | some upload =>
      if upload.key = objectKey tenantId fileId then
        (.ok ⟨env.etag data, partNumber⟩,
          { w with
            uploads := Function.update w.uploads uploadId
              (some { upload with parts := Function.update upload.parts partNumber (some data) }) })
      else
        (.error (.clientError "NoSuchUpload"), w)

/-- The payloads of the listed parts, if S3 has received each of them. -/
def payloads (env : Env) (upload : MultipartUpload) : List Part → Option (List Bytes)
  | [] => some []
  | part :: parts =>
      match upload.parts part.partNumber with
      | none => none
      | some data =>
          if env.etag data = part.etag then (payloads env upload parts).map (data :: ·) else none

/-- `sorted(parts, key=lambda p: p["PartNumber"])` -/
def sortedParts (parts : List Part) : List Part :=
  parts.insertionSort (fun p q => p.partNumber ≤ q.partNumber)

/-- The listed parts become one object, which replaces an object already there. -/
def completeMultipartUpload (env : Env) (w : World) (tenantId fileId : UUID) (uploadId : Nat)
    (parts : List Part) : Except Exn String × World :=
  let key := objectKey tenantId fileId
  match w.uploads uploadId with
  | none => (.error (.clientError "NoSuchUpload"), w)
  | some upload =>
      if upload.key = key then
        match payloads env upload (sortedParts parts) with
        | none => (.error (.clientError "InvalidPart"), w)
        | some datas =>
            if env.s3Accepts ((sortedParts parts).map (·.partNumber)) datas then
              (.ok (uri env key),
                { w with
                  objects := Function.update w.objects key (some datas.flatten)
                  uploads := Function.update w.uploads uploadId none })
            else
              (.error (.clientError "InvalidRequest"), w)
      else
        (.error (.clientError "NoSuchUpload"), w)

def abortMultipartUpload (w : World) (uploadId : Nat) : World :=
  { w with uploads := Function.update w.uploads uploadId none }

/-- Parts numbered upwards are sorted. -/
theorem sortedParts_eq {parts : List Part}
    (h : ∀ (n : Nat) part, parts[n]? = some part → part.partNumber = n + 1) :
    sortedParts parts = parts := by
  refine List.Pairwise.insertionSort_eq (List.pairwise_iff_getElem.2 ?_)
  intro m n hm hn hmn
  have hmth := h m _ (List.getElem?_eq_getElem hm)
  have hnth := h n _ (List.getElem?_eq_getElem hn)
  omega

/-- The payloads of parts that S3 holds. -/
theorem payloads_eq {env : Env} {upload : MultipartUpload} {k : Nat} (parts : List Part)
    (datas : List Bytes)
    (hlen : parts.length = datas.length)
    (h : ∀ (n : Nat) part, parts[n]? = some part → ∃ data, datas[n]? = some data ∧
      part = ⟨env.etag data, n + k⟩ ∧ upload.parts (n + k) = some data) :
    payloads env upload parts = some datas := by
  induction parts generalizing datas k with
  | nil =>
      have hnil : datas = [] := List.eq_nil_of_length_eq_zero hlen.symm
      rw [hnil]
      rfl
  | cons part parts ih =>
      rcases h 0 part rfl with ⟨data, hdata, hpart, hheld⟩
      cases datas with
      | nil => cases hdata
      | cons d datas =>
          cases hdata
          have hrest := ih (k := k + 1) datas (Nat.succ.inj hlen) (fun n p hp => by
            rcases h (n + 1) p hp with ⟨d', hd', hp', hheld'⟩
            rw [Nat.succ_add_eq_add_succ] at hp' hheld'
            exact ⟨d', hd', hp', hheld'⟩)
          rw [Nat.zero_add] at hpart hheld
          simp [payloads, hpart, hheld, hrest]

/-- A part is refused, or added to an upload that S3 has open under this key. -/
theorem uploadPart_cases (env : Env) (w : World) (tenantId fileId : UUID)
    (uploadId partNumber : Nat) (data : Bytes) :
    (∃ x, uploadPart env w tenantId fileId uploadId partNumber data = (.error x, w)) ∨
    ∃ upload, w.uploads uploadId = some upload ∧ upload.key = objectKey tenantId fileId ∧
      uploadPart env w tenantId fileId uploadId partNumber data =
        (.ok ⟨env.etag data, partNumber⟩,
          { w with
            uploads := Function.update w.uploads uploadId
              (some { upload with
                parts := Function.update upload.parts partNumber (some data) }) }) := by
  unfold uploadPart
  cases h : w.uploads uploadId with
  | none => exact Or.inl ⟨_, rfl⟩
  | some upload =>
      by_cases hkey : upload.key = objectKey tenantId fileId
      · exact Or.inr ⟨upload, rfl, hkey, by simp [hkey]⟩
      · exact Or.inl ⟨_, by simp [hkey]; rfl⟩

theorem uploadPart_frame (env : Env) (w : World) (tenantId fileId : UUID)
    (uploadId partNumber : Nat) (data : Bytes) :
    ∃ uploads, (uploadPart env w tenantId fileId uploadId partNumber data).2 =
      { w with uploads := uploads } := by
  rcases uploadPart_cases env w tenantId fileId uploadId partNumber data with
    ⟨_, h⟩ | ⟨_, _, _, h⟩
  · exact ⟨w.uploads, by rw [h]⟩
  · exact ⟨_, by rw [h]⟩

/-- Completion is refused, or makes one object of the payloads of the listed parts. -/
theorem completeMultipartUpload_cases (env : Env) (w : World) (tenantId fileId : UUID)
    (uploadId : Nat) (parts : List Part) :
    (∃ msg, completeMultipartUpload env w tenantId fileId uploadId parts =
      (.error (.clientError msg), w)) ∨
    ∃ upload datas, w.uploads uploadId = some upload ∧ upload.key = objectKey tenantId fileId ∧
      payloads env upload (sortedParts parts) = some datas ∧
      env.s3Accepts ((sortedParts parts).map (·.partNumber)) datas ∧
      completeMultipartUpload env w tenantId fileId uploadId parts =
        (.ok (uri env (objectKey tenantId fileId)),
          { w with
            objects := Function.update w.objects (objectKey tenantId fileId) (some datas.flatten)
            uploads := Function.update w.uploads uploadId none }) := by
  unfold completeMultipartUpload
  cases h : w.uploads uploadId with
  | none => exact Or.inl ⟨_, rfl⟩
  | some upload =>
      by_cases hkey : upload.key = objectKey tenantId fileId
      · cases hp : payloads env upload (sortedParts parts) with
        | none => exact Or.inl ⟨_, by simp [hkey, hp]; rfl⟩
        | some datas =>
            by_cases hacc : env.s3Accepts ((sortedParts parts).map (·.partNumber)) datas
            · exact Or.inr ⟨upload, datas, rfl, hkey, hp, hacc, by simp [hkey, hp, hacc]⟩
            · exact Or.inl ⟨_, by simp [hkey, hp, hacc]; rfl⟩
      · exact Or.inl ⟨_, by simp [hkey]; rfl⟩

theorem completeMultipartUpload_frame (env : Env) (w : World) (tenantId fileId : UUID)
    (uploadId : Nat) (parts : List Part) :
    ∃ objects uploads, (completeMultipartUpload env w tenantId fileId uploadId parts).2 =
      { w with objects := objects, uploads := uploads } := by
  rcases completeMultipartUpload_cases env w tenantId fileId uploadId parts with
    ⟨_, h⟩ | ⟨_, _, _, _, _, _, h⟩
  · exact ⟨w.objects, w.uploads, by rw [h]⟩
  · exact ⟨_, _, by rw [h]⟩

end S3ObjectStorage

/-! ## NatsEventPublisher -/

def NatsEventPublisher.publishFileUploadCompleted (w : World) (event : Event) : World :=
  { w with events := w.events ++ [event] }

end FileUploader
