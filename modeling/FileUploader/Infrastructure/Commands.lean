import FileUploader.Await.Implementation
import FileUploader.Store.KeyServer
import FileUploader.Payloads

/-! # The calls in Redis commands

What the repositories and the registry await of the Redis client: each method as a program of
commands, with the keys and the texts of the source. `get` of a chunk takes two commands, a
pipeline is sent as one transaction, and `delete_all` scans before it deletes. A request to S3
and a message to the broker stay what they are.

How Redis distributes keys over its table is not in the repository: the table is a parameter,
and it is not resized during a scan.
-/

namespace FileUploader

open Await Prog

/-- The calls that S3 and the broker answer. -/
def Call.isRemote : Call → Bool
  | .initiateMultipartUpload _ _ | .uploadPart .. | .completeMultipartUpload ..
  | .abortMultipartUpload .. | .publishFileUploadCompleted _ => true
  | _ => false

/-- The methods of the Redis client, with times to live in seconds. `scan` is one step of
`scan_iter`, and `execute` sends the `set`s of a pipeline in one transaction. -/
inductive Command where
  | get (key : String)
  | set (key : String) (value : Bytes) (ex : Option Nat)
  | setNx (key : String) (value : Bytes) (ex : Nat)
  | execute (sets : List (String × Bytes × Nat))
  | delete (keys : List String)
  | scan (cursor : Nat) (pattern : String)
  | remote (c : Call) (h : c.isRemote)

@[reducible] def Command.Resp : Command → Type
  | .get _ => Option Bytes
  | .setNx .. => Bool
  | .scan .. => Nat × List String
  | .remote c _ => c.Resp
  | .set .. | .execute _ | .delete _ => Unit

/-! ## The deployment -/

/-- S3, and the broker's log of published events. -/
structure Outside where
  objects : String → Option Bytes
  uploads : Nat → Option MultipartUpload
  nextUploadId : Nat
  events : List Event

def World.outside (w : World) : Outside := ⟨w.objects, w.uploads, w.nextUploadId, w.events⟩

/-- The world with an empty Redis. -/
def Outside.world (o : Outside) : World :=
  { World.empty 0 with
    objects := o.objects
    uploads := o.uploads
    nextUploadId := o.nextUploadId
    events := o.events }

/-- One Redis instance, and what is outside. -/
structure Deployment where
  redis : KeyServer String Bytes
  outside : Outside

def Deployment.empty (now : Nat) : Deployment := ⟨.empty now, (World.empty now).outside⟩

/-- Time passes. -/
def Deployment.advance (w : Deployment) (d : Nat) : Deployment :=
  { w with redis := w.redis.advance d }

/-- What the deployment is given: what the service is given, and the table of Redis. -/
structure Host where
  env : Env
  slots : Nat
  slot : String → Fin slots

namespace Command

/-- The answer to a command that goes through, and its effect. -/
def respond (host : Host) : (d : Command) → Deployment → Except Exn d.Resp × Deployment
  | .get key, w => (.ok (w.redis.get key), w)
  | .set key value ex, w => (.ok (), { w with redis := w.redis.set key value (ex.map (· * 1000)) })
  | .setNx key value ex, w =>
      (.ok (w.redis.setNx key value (some (ex * 1000))).1,
        { w with redis := (w.redis.setNx key value (some (ex * 1000))).2 })
  | .execute sets, w =>
      (.ok (), { w with
        redis := sets.foldl (fun redis e => redis.set e.1 e.2.1 (some (e.2.2 * 1000))) w.redis })
  | .delete keys, w => (.ok (), { w with redis := w.redis.delete keys })
  | .scan cursor pattern, w =>
      (.ok (w.redis.scan host.slot cursor (matchesPattern pattern)), w)
  | .remote c _, w =>
      ((FileUploader.respond host.env c w.outside.world).1,
        { w with outside := (FileUploader.respond host.env c w.outside.world).2.outside })

/-- The answer when the client raises. -/
def failed (msg : String) : (d : Command) → Except Exn d.Resp
  | .remote c _ => FileUploader.failed msg c
  | .get _ | .set .. | .setNx .. | .execute _ | .delete _ | .scan .. =>
      .error (.infrastructureError msg)

def handle (host : Host) : Outcome → (d : Command) → Deployment → Except Exn d.Resp × Deployment
  | .works, d, w => respond host d w
  | .raises msg, d, w => (failed msg d, w)
  | .raisesAfter msg, d, w => (failed msg d, (respond host d w).2)

/-! ## The methods -/

/-- A program over the clients. -/
abbrev Program := Prog (Collab.over Command Command.Resp)

/-- Await one command. -/
@[reducible] def send (d : Command) : Program d.Resp :=
  Prog.await (S := Collab.over Command Command.Resp) d

namespace RedisSessionRepository

/-- `get` from the data on. -/
def read (data : Option Bytes) : Option UploadSession :=
  match data with
  | none => none
  | some data => if data = [] then none else (pythonJson.loadsSession data).bind ofPayload

def get (sessionId : UUID) : Program (Option UploadSession) := do
  let data ← send (.get (sessionKey sessionId))
  pure (read data)

def save (session : UploadSession) : Program Unit :=
  send (.set (sessionKey session.sessionId) (pythonJson.dumpsSession (payload session))
    (some FileUploader.RedisSessionRepository.ttl))

def delete (sessionId : UUID) : Program Unit := send (.delete [sessionKey sessionId])

def acquireLock (sessionId : UUID) (ttlSeconds : Nat) : Program Bool :=
  send (.setNx (lockKey sessionId) (encode "locked") ttlSeconds)

def releaseLock (sessionId : UUID) : Program Unit := send (.delete [lockKey sessionId])

end RedisSessionRepository

namespace RedisChunkRepository

/-- Both `set`s are queued, and sent by `pipe.execute()`. -/
def save (sessionId : UUID) (chunk : Chunk) : Program Unit :=
  send (.execute
    [(chunkKey sessionId chunk.index, chunk.rawBytes, FileUploader.RedisChunkRepository.ttl),
      (chunkMetaKey sessionId chunk.index, pythonJson.dumpsMeta ⟨chunk.checksum, chunk.size⟩,
        FileUploader.RedisChunkRepository.ttl)])

/-- `get` from both data on. -/
def read (index : Int) (rawBytes metaData : Option Bytes) : Option Chunk :=
  match rawBytes, metaData with
  | some rawBytes, some metaData =>
      if rawBytes = [] ∨ metaData = [] then none
      else (pythonJson.loadsMeta metaData).map fun m => ⟨index, m.size, m.checksum, rawBytes⟩
  | _, _ => none

/-- `get` with the payload read. -/
def getMeta (sessionId : UUID) (index : Int) (rawBytes : Option Bytes) :
    Program (Option Chunk) := do
  let metaData ← send (.get (chunkMetaKey sessionId index))
  pure (read index rawBytes metaData)

def get (sessionId : UUID) (index : Int) : Program (Option Chunk) := do
  let rawBytes ← send (.get (chunkKey sessionId index))
  getMeta sessionId index rawBytes

/-- A step of `get_stream` awaits the payload of its index. -/
def pull (sessionId : UUID) (index : Int) : Program (Option Bytes) :=
  send (.get (chunkKey sessionId index))

/-- One round of `scan_iter`, with the keys so far; the server's cursor is 0 after the last. -/
def scanRound (pattern : String) : Nat × List String →
    Program ((Nat × List String) ⊕ List String) := fun (cursor, keys) => do
  let (cursor, found) ← send (.scan cursor pattern)
  if cursor = 0 then pure (.inr (keys ++ found)) else pure (.inl (cursor, keys ++ found))

/-- `if keys: await self.redis.delete(*keys)` -/
def deleteKeys (keys : List String) : Program Unit :=
  if keys = [] then pure () else send (.delete keys)

def deleteAll (sessionId : UUID) : Program Unit := do
  let keys ← loop (scanRound (chunkPattern sessionId)) (0, [])
  deleteKeys keys

end RedisChunkRepository

namespace RedisMetadataRegistry

/-- `get_by_checksum` from the answer on. -/
def read (s3Uri : Option Bytes) : Except Exn (Option String) :=
  match s3Uri with
  | none => .ok none
  | some s3Uri =>
      if s3Uri = [] then .ok none
      else match decode s3Uri with
        | some uri => .ok (some uri)
        | none => .error (.valueError "'utf-8' codec can't decode bytes")

def getByChecksum (tenantId : UUID) (checksum : String) : Program (Option String) := do
  let s3Uri ← send (.get (dedupKey tenantId checksum))
  ofExcept (read s3Uri)

/-- `if self.ttl:` also takes a TTL of 0 for none. -/
def registerFile (ttl : Option Nat) (tenantId : UUID) (s3Uri checksum : String) : Program Unit :=
  send (.set (dedupKey tenantId checksum) (encode s3Uri) (ttl.filter (· ≠ 0)))

end RedisMetadataRegistry

/-- The injected collaborators. -/
def ofCall : (c : Call) → Program c.Resp
  | .sessionGet sid => RedisSessionRepository.get sid
  | .sessionSave s => RedisSessionRepository.save s
  | .sessionDelete sid => RedisSessionRepository.delete sid
  | .acquireLock sid ttl => RedisSessionRepository.acquireLock sid ttl
  | .releaseLock sid => RedisSessionRepository.releaseLock sid
  | .chunkSave sid chunk => RedisChunkRepository.save sid chunk
  | .chunkGet sid index => RedisChunkRepository.get sid index
  | .chunkPull sid index => RedisChunkRepository.pull sid index
  | .deleteAll sid => RedisChunkRepository.deleteAll sid
  | .getByChecksum t cs => RedisMetadataRegistry.getByChecksum t cs
  | .registerFile t _ uri _ cs =>
      RedisMetadataRegistry.registerFile FileUploader.RedisMetadataRegistry.wiredTtl t uri cs
  | .initiateMultipartUpload t f => send (.remote (.initiateMultipartUpload t f) rfl)
  | .uploadPart t f u n data => send (.remote (.uploadPart t f u n data) rfl)
  | .completeMultipartUpload t f u parts =>
      send (.remote (.completeMultipartUpload t f u parts) rfl)
  | .abortMultipartUpload t f u => send (.remote (.abortMultipartUpload t f u) rfl)
  | .publishFileUploadCompleted event => send (.remote (.publishFileUploadCompleted event) rfl)

end Command

/-- The service on the deployment. -/
@[reducible] def commandLevel (host : Host) :
    LowLevel (service host.env) Command Command.Resp where
  World := Deployment
  Outcome := Outcome
  handle := Command.handle host
  move := fun d w => w.advance d
  impl := Command.ofCall

end FileUploader
