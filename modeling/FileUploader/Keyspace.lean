import FileUploader.Store.KeyValue
import FileUploader.Store.Runs
import FileUploader.Store.Simulation
import FileUploader.Infrastructure.Keys
import FileUploader.Service

/-! # One keyspace, four maps

The two repositories and the registry write strings and bytes under keys of one Redis
instance. What they answer is what four maps of their own would answer: sessions, locked
ids, chunks and URIs. Nothing expires here; the clock is the business of `World`.
-/

namespace FileUploader

/-! ## What is written -/

/-- What `save` gives to `json.dumps`. -/
structure SessionPayload where
  sessionId : String
  tenantId : String
  fileId : String
  totalSize : Int
  currentOffset : Int
  checksum : String
  status : String
deriving DecidableEq

/-- `json.dumps` and `json.loads` of session payloads and of chunk metadata; a text is
loaded as `none` where `loads` or the access to a field raises. -/
structure Json where
  dumpsSession : SessionPayload → Bytes
  loadsSession : Bytes → Option SessionPayload
  dumpsMeta : ChunkMeta → Bytes
  loadsMeta : Bytes → Option ChunkMeta

def payload (session : UploadSession) : SessionPayload where
  sessionId := session.sessionId.str
  tenantId := session.tenantId.str
  fileId := session.fileId.str
  totalSize := session.totalSize
  currentOffset := session.currentOffset
  checksum := session.checksum
  status := session.status.value

/-- `UploadStatus(value)` -/
def UploadStatus.ofValue (value : String) : Option UploadStatus :=
  [.initiated, .uploading, .completed, .aborted, .failed].find? fun status => status.value = value

def ofPayload (p : SessionPayload) : Option UploadSession := do
  let sessionId ← UUID.ofStr p.sessionId
  let tenantId ← UUID.ofStr p.tenantId
  let fileId ← UUID.ofStr p.fileId
  let status ← UploadStatus.ofValue p.status
  some ⟨sessionId, tenantId, fileId, p.totalSize, p.currentOffset, p.checksum, status⟩

/-- Each status is read back from its value. -/
theorem ofValue_value (status : UploadStatus) :
    UploadStatus.ofValue status.value = some status := by
  cases status <;> decide

/-- A session is read back from its payload. -/
theorem ofPayload_payload (session : UploadSession) :
    ofPayload (payload session) = some session := by
  simp [ofPayload, payload, ofStr_str, ofValue_value]

/-- `s.encode("utf-8")`, as the Redis client does with every `str`. -/
def encode (s : String) : Bytes := s.toUTF8.data.toList

/-- `data.decode("utf-8")`, where it does not raise. -/
def decode (data : Bytes) : Option String := String.fromUTF8? ⟨data.toArray⟩

theorem decode_encode (s : String) : decode (encode s) = some s := by
  simp only [decode, encode, Array.toArray_toList]
  simp [String.fromUTF8?]
  exact ⟨s.isValidUTF8, rfl⟩

theorem encode_ne_nil {s : String} (h : s ≠ "") : encode s ≠ [] := by
  intro hnil
  have hread := decode_encode s
  rw [hnil] at hread
  have hempty : decode [] = some "" := decode_encode ""
  exact h (Option.some.inj (hread.symm.trans hempty))

/-! ## The repositories over one instance -/

/-- The keyspace of a Redis instance. -/
abbrev Redis := KeyValue String Bytes

namespace Keyspace

variable (json : Json) (redis : Redis)

namespace RedisSessionRepository

def get (sessionId : UUID) : Option UploadSession :=
  match redis.get (sessionKey sessionId) with
  | none => none
  | some data => if data = [] then none else (json.loadsSession data).bind ofPayload

def save (session : UploadSession) : Redis :=
  redis.set (sessionKey session.sessionId) (json.dumpsSession (payload session))

def delete (sessionId : UUID) : Redis := redis.delete [sessionKey sessionId]

def acquireLock (sessionId : UUID) : Bool × Redis :=
  redis.setNx (lockKey sessionId) (encode "locked")

def releaseLock (sessionId : UUID) : Redis := redis.delete [lockKey sessionId]

end RedisSessionRepository

namespace RedisChunkRepository

def save (sessionId : UUID) (chunk : Chunk) : Redis :=
  (redis.set (chunkKey sessionId chunk.index) chunk.rawBytes).set
    (chunkMetaKey sessionId chunk.index) (json.dumpsMeta ⟨chunk.checksum, chunk.size⟩)

def get (sessionId : UUID) (index : Int) : Option Chunk :=
  match redis.get (chunkKey sessionId index), redis.get (chunkMetaKey sessionId index) with
  | some rawBytes, some metaData =>
      if rawBytes = [] ∨ metaData = [] then none
      else (json.loadsMeta metaData).map fun m => ⟨index, m.size, m.checksum, rawBytes⟩
  | _, _ => none

/-- The chunks from `index` on, up to the first one that is missing or empty; the fuel is
the number of keys to look at. -/
def streamFrom (sessionId : UUID) : Nat → Nat → List Bytes
  | 0, _ => []
  | fuel + 1, index =>
      match redis.get (chunkKey sessionId index) with
      | none => []
      | some chunkBytes =>
          if chunkBytes = [] then [] else chunkBytes :: streamFrom sessionId fuel (index + 1)

def getStream (sessionId : UUID) : List Bytes :=
  streamFrom redis sessionId (redis.entries.length + 1) 0

def deleteAll (sessionId : UUID) : Redis :=
  let keys := redis.scan (matchesPattern (chunkPattern sessionId))
  if keys = [] then redis else redis.delete keys

end RedisChunkRepository

namespace RedisMetadataRegistry

def getByChecksum (tenantId : UUID) (checksum : String) : Except Exn (Option String) :=
  match redis.get (dedupKey tenantId checksum) with
  | none => .ok none
  | some s3Uri =>
      if s3Uri = [] then .ok none
      else match decode s3Uri with
        | some uri => .ok (some uri)
        | none => .error (.valueError "'utf-8' codec can't decode bytes")

/-- The registry is wired without a TTL. -/
def registerFile (tenantId : UUID) (s3Uri checksum : String) : Redis :=
  redis.set (dedupKey tenantId checksum) (encode s3Uri)

end RedisMetadataRegistry

end Keyspace

/-! ## Operations -/

/-- An operation of one of the three classes. -/
inductive RepoOp where
  | sessionGet (sessionId : UUID)
  | sessionSave (session : UploadSession)
  | sessionDelete (sessionId : UUID)
  | acquireLock (sessionId : UUID) (ttlSeconds : Nat)
  | releaseLock (sessionId : UUID)
  | chunkSave (sessionId : UUID) (chunk : Chunk)
  | chunkGet (sessionId : UUID) (index : Int)
  | getStream (sessionId : UUID)
  | deleteAll (sessionId : UUID)
  | registerFile (tenantId fileId : UUID) (s3Uri : String) (size : Int) (checksum : String)
  | getByChecksum (tenantId : UUID) (checksum : String)

/-- What an operation returns or raises. -/
inductive Answer where
  | session (result : Option UploadSession)
  | locked (result : Bool)
  | chunk (result : Option Chunk)
  | stream (result : List Bytes)
  | uri (result : Option String)
  | done
  | raised (x : Exn)
deriving DecidableEq

def Answer.ofLookup : Except Exn (Option String) → Answer
  | .ok found => .uri found
  | .error x => .raised x

/-- The code: every operation on one Redis instance. -/
def exec (json : Json) : RepoOp → Redis → Answer × Redis
  | .sessionGet sid, r => (.session (Keyspace.RedisSessionRepository.get json r sid), r)
  | .sessionSave s, r => (.done, Keyspace.RedisSessionRepository.save json r s)
  | .sessionDelete sid, r => (.done, Keyspace.RedisSessionRepository.delete r sid)
  | .acquireLock sid _, r =>
      (.locked (Keyspace.RedisSessionRepository.acquireLock r sid).1,
        (Keyspace.RedisSessionRepository.acquireLock r sid).2)
  | .releaseLock sid, r => (.done, Keyspace.RedisSessionRepository.releaseLock r sid)
  | .chunkSave sid chunk, r => (.done, Keyspace.RedisChunkRepository.save json r sid chunk)
  | .chunkGet sid i, r => (.chunk (Keyspace.RedisChunkRepository.get json r sid i), r)
  | .getStream sid, r => (.stream (Keyspace.RedisChunkRepository.getStream r sid), r)
  | .deleteAll sid, r => (.done, Keyspace.RedisChunkRepository.deleteAll r sid)
  | .registerFile t _ uri _ cs, r =>
      (.done, Keyspace.RedisMetadataRegistry.registerFile r t uri cs)
  | .getByChecksum t cs, r =>
      (.ofLookup (Keyspace.RedisMetadataRegistry.getByChecksum r t cs), r)

@[reducible] def keyspace (json : Json) : Machine RepoOp Answer :=
  ⟨Redis, fun r op a r' => exec json op r = (a, r')⟩

/-- The keyspace answers every operation. -/
theorem keyspace_total (json : Json) : (keyspace json).Total := fun r op =>
  ⟨(exec json op r).1, (exec json op r).2, rfl⟩

/-! ## Four maps -/

/-- What the keyspace stands for. -/
structure Maps where
  sessions : UUID → Option UploadSession
  locked : Set UUID
  chunks : UUID × Int → Option Chunk
  uris : UUID × String → Option String

namespace Maps

def empty : Maps := ⟨fun _ => none, ∅, fun _ => none, fun _ => none⟩

/-- An empty chunk reads as absent. -/
def chunk? (m : Maps) (sid : UUID) (i : Int) : Option Chunk :=
  (m.chunks (sid, i)).filter (·.rawBytes ≠ [])

/-- The operations on the maps. -/
inductive Step : Maps → RepoOp → Answer → Maps → Prop where
  | sessionGet {m : Maps} {sid : UUID} : Step m (.sessionGet sid) (.session (m.sessions sid)) m
  | sessionSave {m : Maps} {s : UploadSession} : Step m (.sessionSave s) .done
      { m with sessions := Function.update m.sessions s.sessionId (some s) }
  | sessionDelete {m : Maps} {sid : UUID} : Step m (.sessionDelete sid) .done
      { m with sessions := Function.update m.sessions sid none }
  | acquire {m : Maps} {sid : UUID} {ttl : Nat} (h : sid ∉ m.locked) :
      Step m (.acquireLock sid ttl) (.locked true) { m with locked := insert sid m.locked }
  | refuse {m : Maps} {sid : UUID} {ttl : Nat} (h : sid ∈ m.locked) :
      Step m (.acquireLock sid ttl) (.locked false) m
  | releaseLock {m : Maps} {sid : UUID} : Step m (.releaseLock sid) .done
      { m with locked := m.locked \ {sid} }
  | chunkSave {m : Maps} {sid : UUID} {chunk : Chunk} : Step m (.chunkSave sid chunk) .done
      { m with chunks := Function.update m.chunks (sid, chunk.index) (some chunk) }
  | chunkGet {m : Maps} {sid : UUID} {i : Int} :
      Step m (.chunkGet sid i) (.chunk (m.chunk? sid i)) m
  | getStream {m : Maps} {sid : UUID} {datas : List Bytes}
      (h : RunFrom (fun k => (m.chunk? sid k).map (·.rawBytes)) 0 datas) :
      Step m (.getStream sid) (.stream datas) m
  | deleteAll {m : Maps} {sid : UUID} : Step m (.deleteAll sid) .done
      { m with chunks := fun k => if k.1 = sid then none else m.chunks k }
  | registerFile {m : Maps} {t f : UUID} {uri : String} {size : Int} {cs : String} :
      Step m (.registerFile t f uri size cs) .done
        { m with uris := Function.update m.uris (t, cs) (some uri) }
  | getByChecksum {m : Maps} {t : UUID} {cs : String} :
      Step m (.getByChecksum t cs) (.uri (m.uris (t, cs))) m

end Maps

@[reducible] def maps : Machine RepoOp Answer := ⟨Maps, Maps.Step⟩

/-- A lock that is free is taken and one that is held is refused; nothing else has a choice. -/
theorem maps_deterministic : maps.Deterministic := by
  intro m op a a' m₁ m₂ h₁ h₂
  cases h₁ with
  | acquire hfree =>
      cases h₂ with
      | acquire => exact ⟨rfl, rfl⟩
      | refuse hheld => exact absurd hheld hfree
  | refuse hheld =>
      cases h₂ with
      | acquire hfree => exact absurd hheld hfree
      | refuse => exact ⟨rfl, rfl⟩
  | getStream hrun =>
      cases h₂ with
      | getStream hrun' =>
          rw [hrun.unique hrun']
          exact ⟨rfl, rfl⟩
  | _ =>
      cases h₂
      exact ⟨rfl, rfl⟩

/-! ## The keyspace represents the maps -/

/-- Decoding undoes encoding on what this operation writes, and a URI is not empty. -/
def Json.Undoes (json : Json) : RepoOp → Prop
  | .sessionSave s =>
      json.loadsSession (json.dumpsSession (payload s)) = some (payload s) ∧
        json.dumpsSession (payload s) ≠ []
  | .chunkSave _ chunk =>
      json.loadsMeta (json.dumpsMeta ⟨chunk.checksum, chunk.size⟩) =
          some ⟨chunk.checksum, chunk.size⟩ ∧
        json.dumpsMeta ⟨chunk.checksum, chunk.size⟩ ≠ []
  | .registerFile _ _ uri _ _ => uri ≠ ""
  | _ => True

instance (json : Json) : DecidablePred json.Undoes
  | .sessionSave _ => inferInstanceAs (Decidable (_ ∧ _))
  | .chunkSave _ _ => inferInstanceAs (Decidable (_ ∧ _))
  | .registerFile _ _ uri _ _ => inferInstanceAs (Decidable (uri ≠ ""))
  | .sessionGet _ | .sessionDelete _ | .acquireLock _ _ | .releaseLock _ | .chunkGet _ _
  | .getStream _ | .deleteAll _ | .getByChecksum _ _ => inferInstanceAs (Decidable True)

open Classical in
/-- The bytes stored under a key for what the maps hold. -/
noncomputable def Maps.value (json : Json) (m : Maps) : Key → Option Bytes
  | .session sid => (m.sessions sid).map fun s => json.dumpsSession (payload s)
  | .lock sid => if sid ∈ m.locked then some (encode "locked") else none
  | .chunk sid i => (m.chunks (sid, i)).map (·.rawBytes)
  | .chunkMeta sid i => (m.chunks (sid, i)).map fun c => json.dumpsMeta ⟨c.checksum, c.size⟩
  | .dedup t cs => (m.uris (t, cs)).map encode

theorem Maps.value_lock (json : Json) {m m' : Maps} {sid : UUID}
    (h : sid ∈ m.locked ↔ sid ∈ m'.locked) :
    m.value json (.lock sid) = m'.value json (.lock sid) := by
  by_cases hheld : sid ∈ m.locked
  · rw [Maps.value, Maps.value, if_pos hheld, if_pos (h.1 hheld)]
  · rw [Maps.value, Maps.value, if_neg hheld, if_neg fun hheld' => hheld (h.2 hheld')]

/-- Under each key is what the maps hold, and it can be decoded. -/
structure Keyspace.Holds (json : Json) (r : Redis) (m : Maps) : Prop where
  read : ∀ k : Key, r.get k.str = m.value json k
  sessions : ∀ sid s, m.sessions sid = some s → json.Undoes (.sessionSave s)
  chunks : ∀ sid i c, m.chunks (sid, i) = some c →
    c.index = i ∧ json.Undoes (.chunkSave sid c)
  uris : ∀ t cs uri, m.uris (t, cs) = some uri → uri ≠ ""

/-! ### Commands on the keys -/

section Commands

variable (r : Redis) (k k' : Key) (sid : UUID)

/-- A key is written without touching another one, as no two keys have one text. -/
theorem get_set_str (data : Bytes) :
    (r.set k.str data).get k'.str = if k' = k then some data else r.get k'.str := by
  rw [KeyValue.get_set]
  by_cases h : k' = k
  · rw [if_pos h, if_pos (congrArg Key.str h)]
  · rw [if_neg h, if_neg fun hstr => h (Key.str_injective hstr)]

/-- And deleted without touching another one. -/
theorem get_delete_str :
    (r.delete [k.str]).get k'.str = if k' = k then none else r.get k'.str := by
  rw [KeyValue.get_delete]
  by_cases h : k' = k
  · rw [if_pos h, if_pos (List.mem_singleton.2 (congrArg Key.str h))]
  · rw [if_neg h, if_neg fun hstr => h (Key.str_injective (List.mem_singleton.1 hstr))]

/-- Deleting by the pattern misses no chunk key of the session and hits no other key. -/
theorem get_deleteAll_str : (Keyspace.RedisChunkRepository.deleteAll r sid).get k.str =
    if k.ofChunks sid then none else r.get k.str := by
  have hscan := r.get_delete_scan k.str (matchesPattern (chunkPattern sid))
  rw [Key.matches_iff] at hscan
  simp only [Keyspace.RedisChunkRepository.deleteAll]
  split
  · -- nothing has been found: nothing is deleted
    rename_i hnil
    rw [hnil] at hscan
    rw [← hscan, KeyValue.get_delete, if_neg List.not_mem_nil]
  · exact hscan

end Commands

/-! ### What is read -/

section Read

variable {json : Json} {r : Redis} {m : Maps} {sid : UUID}

/-- A session is read back as the map holds it. -/
theorem Keyspace.Holds.sessionGet (h : Keyspace.Holds json r m) (sid : UUID) :
    Keyspace.RedisSessionRepository.get json r sid = m.sessions sid := by
  have hread : r.get (sessionKey sid) = (m.sessions sid).map fun s =>
    json.dumpsSession (payload s) := h.read (.session sid)
  rw [Keyspace.RedisSessionRepository.get, hread]
  cases hs : m.sessions sid with
  | none => rfl
  | some s =>
      rcases h.sessions sid s hs with ⟨hloads, hne⟩
      simp [hloads, hne, ofPayload_payload]

/-- A chunk is read back from its two keys; an empty one reads as none. -/
theorem Keyspace.Holds.chunkGet (h : Keyspace.Holds json r m) (sid : UUID) (i : Int) :
    Keyspace.RedisChunkRepository.get json r sid i = m.chunk? sid i := by
  have hraw : r.get (chunkKey sid i) = (m.chunks (sid, i)).map (·.rawBytes) :=
    h.read (.chunk sid i)
  have hmeta : r.get (chunkMetaKey sid i) = (m.chunks (sid, i)).map fun c =>
    json.dumpsMeta ⟨c.checksum, c.size⟩ := h.read (.chunkMeta sid i)
  rw [Keyspace.RedisChunkRepository.get, hraw, hmeta, Maps.chunk?]
  cases hc : m.chunks (sid, i) with
  | none => rfl
  | some c =>
      rcases h.chunks sid i c hc with ⟨hindex, hloads, hne⟩
      by_cases hempty : c.rawBytes = []
      · simp [hempty, Option.filter]
      · simp [hempty, hne, hloads, ← hindex, Option.filter]

/-- An empty URI reads as no entry on both levels. -/
theorem Keyspace.Holds.getByChecksum (h : Keyspace.Holds json r m) (t : UUID) (cs : String) :
    Keyspace.RedisMetadataRegistry.getByChecksum r t cs = .ok (m.uris (t, cs)) := by
  have hread : r.get (dedupKey t cs) = (m.uris (t, cs)).map encode := h.read (.dedup t cs)
  rw [Keyspace.RedisMetadataRegistry.getByChecksum, hread]
  cases hu : m.uris (t, cs) with
  | none => rfl
  | some uri => simp [encode_ne_nil (h.uris t cs uri hu), decode_encode]

/-- The chunks that the stream yields are there. -/
theorem streamFrom_isSome {fuel index j : Nat}
    (hj : j < (Keyspace.RedisChunkRepository.streamFrom r sid fuel index).length) :
    (r.get (chunkKey sid (index + j : Nat))).isSome := by
  induction fuel generalizing index j with
  | zero => simp [Keyspace.RedisChunkRepository.streamFrom] at hj
  | succ fuel ih =>
      simp only [Keyspace.RedisChunkRepository.streamFrom] at hj
      cases hget : r.get (chunkKey sid index) with
      | none => simp [hget] at hj
      | some data =>
          cases j with
          | zero => simp [hget]
          | succ j =>
              by_cases hempty : data = []
              · simp [hget, hempty] at hj
              · simp only [hget, hempty, if_false, List.length_cons, Nat.add_lt_add_iff_right] at hj
                have hnext := ih hj
                rw [Nat.add_right_comm] at hnext
                exact hnext

/-- With fuel left, the stream has ended at a gap. -/
theorem streamFrom_run {fuel index : Nat}
    (hleft : (Keyspace.RedisChunkRepository.streamFrom r sid fuel index).length < fuel) :
    RunFrom (fun k : Nat => (r.get (chunkKey sid k)).filter (· ≠ [])) index
      (Keyspace.RedisChunkRepository.streamFrom r sid fuel index) := by
  induction fuel generalizing index with
  | zero => exact absurd hleft (Nat.not_lt_zero _)
  | succ fuel ih =>
      simp only [Keyspace.RedisChunkRepository.streamFrom] at hleft ⊢
      cases hget : r.get (chunkKey sid index) with
      | none => simp [RunFrom, hget]
      | some data =>
          by_cases hempty : data = []
          · simp [hempty, RunFrom, hget]
          · simp only [hget, hempty, if_false, List.length_cons, Nat.add_lt_add_iff_right] at hleft
            simp only [hempty, if_false]
            exact ⟨by simp [hget, hempty], ih hleft⟩

/-- The stream needs no more fuel than there are entries. -/
theorem length_getStream_lt (r : Redis) (sid : UUID) :
    (Keyspace.RedisChunkRepository.getStream r sid).length < r.entries.length + 1 := by
  have hnodup : ((List.range (Keyspace.RedisChunkRepository.getStream r sid).length).map
      fun j : Nat => chunkKey sid j).Nodup := by
    refine List.Nodup.map ?_ List.nodup_range
    intro i j hij
    have hkey : Key.chunk sid i = .chunk sid j := Key.str_injective hij
    exact Int.natCast_inj.1 (Key.chunk.inj hkey).2
  have hle := r.length_keys_le hnodup (by
    intro k hk
    rcases List.mem_map.1 hk with ⟨j, hj, rfl⟩
    have hsome := streamFrom_isSome (List.mem_range.1 hj)
    rw [Nat.zero_add] at hsome
    exact hsome)
  rw [List.length_map, List.length_range] at hle
  exact Nat.lt_succ_of_le hle

/-- The stream is the run of non-empty payloads from index 0 on. -/
theorem Keyspace.Holds.getStream (h : Keyspace.Holds json r m) (sid : UUID) :
    RunFrom (fun k : Nat => (m.chunk? sid k).map (·.rawBytes)) 0
      (Keyspace.RedisChunkRepository.getStream r sid) := by
  have hsame : (fun k : Nat => (m.chunk? sid k).map (·.rawBytes)) =
      fun k : Nat => (r.get (chunkKey sid k)).filter (· ≠ []) := by
    funext k
    have hraw : r.get (chunkKey sid k) = (m.chunks (sid, (k : Int))).map (·.rawBytes) :=
      h.read (.chunk sid k)
    rw [hraw, Maps.chunk?]
    cases m.chunks (sid, (k : Int)) with
    | none => rfl
    | some c => by_cases hempty : c.rawBytes = [] <;> simp [hempty, Option.filter]
  rw [hsame]
  exact streamFrom_run (length_getStream_lt r sid)

end Read

/-! ### What is written keeps them related -/

section Written

variable {json : Json} {r : Redis} {m : Maps} {sid : UUID}

theorem Keyspace.Holds.sessionSave (h : Keyspace.Holds json r m) {s : UploadSession}
    (hs : json.Undoes (.sessionSave s)) :
    Keyspace.Holds json (Keyspace.RedisSessionRepository.save json r s)
      { m with sessions := Function.update m.sessions s.sessionId (some s) } where
  read k := by
    show (r.set (Key.session s.sessionId).str _).get k.str = _
    rw [get_set_str, h.read]
    cases k with
    | session sid' =>
        by_cases heq : sid' = s.sessionId
        · subst heq
          simp [Maps.value]
        · simp [Maps.value, heq]
    | _ => simp [Maps.value]
  sessions sid' s' hs' := by
    change Function.update m.sessions s.sessionId (some s) sid' = some s' at hs'
    by_cases heq : sid' = s.sessionId
    · subst heq
      rw [Function.update_self] at hs'
      exact Option.some.inj hs' ▸ hs
    · rw [Function.update_of_ne heq] at hs'
      exact h.sessions sid' s' hs'
  chunks := h.chunks
  uris := h.uris

theorem Keyspace.Holds.sessionDelete (h : Keyspace.Holds json r m) (sid : UUID) :
    Keyspace.Holds json (Keyspace.RedisSessionRepository.delete r sid)
      { m with sessions := Function.update m.sessions sid none } where
  read k := by
    show (r.delete [(Key.session sid).str]).get k.str = _
    rw [get_delete_str, h.read]
    cases k with
    | session sid' =>
        by_cases heq : sid' = sid
        · subst heq
          simp [Maps.value]
        · simp [Maps.value, heq]
    | _ => simp [Maps.value]
  sessions sid' s' hs' := by
    change Function.update m.sessions sid none sid' = some s' at hs'
    by_cases heq : sid' = sid
    · subst heq
      simp at hs'
    · rw [Function.update_of_ne heq] at hs'
      exact h.sessions sid' s' hs'
  chunks := h.chunks
  uris := h.uris

/-- The lock is there exactly for the ids that are locked. -/
theorem Keyspace.Holds.lock (h : Keyspace.Holds json r m) (sid : UUID) :
    r.get (lockKey sid) = none ↔ sid ∉ m.locked := by
  have hread := h.read (.lock sid)
  rw [show r.get (lockKey sid) = m.value json (.lock sid) from hread]
  by_cases hheld : sid ∈ m.locked <;> simp [Maps.value, hheld]

theorem Keyspace.Holds.acquired (h : Keyspace.Holds json r m) (sid : UUID) :
    Keyspace.Holds json (r.set (lockKey sid) (encode "locked"))
      { m with locked := insert sid m.locked } where
  read k := by
    show (r.set (Key.lock sid).str _).get k.str = _
    rw [get_set_str, h.read]
    cases k with
    | lock sid' =>
        by_cases heq : sid' = sid
        · simp [Maps.value, heq]
        · rw [if_neg (by simpa using heq)]
          exact Maps.value_lock json ⟨Or.inr, fun hin => hin.resolve_left heq⟩
    | _ => simp [Maps.value]
  sessions := h.sessions
  chunks := h.chunks
  uris := h.uris

theorem Keyspace.Holds.releaseLock (h : Keyspace.Holds json r m) (sid : UUID) :
    Keyspace.Holds json (Keyspace.RedisSessionRepository.releaseLock r sid)
      { m with locked := m.locked \ {sid} } where
  read k := by
    show (r.delete [(Key.lock sid).str]).get k.str = _
    rw [get_delete_str, h.read]
    cases k with
    | lock sid' =>
        by_cases heq : sid' = sid
        · simp [Maps.value, heq]
        · rw [if_neg (by simpa using heq)]
          exact Maps.value_lock json ⟨fun hheld => ⟨hheld, heq⟩, And.left⟩
    | _ => simp [Maps.value]
  sessions := h.sessions
  chunks := h.chunks
  uris := h.uris

theorem Keyspace.Holds.chunkSave (h : Keyspace.Holds json r m) {chunk : Chunk}
    (hchunk : json.Undoes (.chunkSave sid chunk)) :
    Keyspace.Holds json (Keyspace.RedisChunkRepository.save json r sid chunk)
      { m with chunks := Function.update m.chunks (sid, chunk.index) (some chunk) } where
  read k := by
    show ((r.set (Key.chunk sid chunk.index).str _).set
      (Key.chunkMeta sid chunk.index).str _).get k.str = _
    rw [get_set_str, get_set_str, h.read]
    -- both keys of the chunk change, and no other
    have hchunks : ∀ sid' i, Function.update m.chunks (sid, chunk.index) (some chunk) (sid', i) =
        if sid' = sid ∧ i = chunk.index then some chunk else m.chunks (sid', i) := by
      intro sid' i
      simp only [Function.update_apply, Prod.mk.injEq]
    cases k with
    | chunk sid' i =>
        simp only [Maps.value, hchunks, Key.chunk.injEq, reduceCtorEq, if_false]
        split <;> rfl
    | chunkMeta sid' i =>
        simp only [Maps.value, hchunks, Key.chunkMeta.injEq, reduceCtorEq, if_false]
        split <;> rfl
    | _ => simp [Maps.value]
  sessions := h.sessions
  chunks sid' i c hc := by
    change Function.update m.chunks (sid, chunk.index) (some chunk) (sid', i) = some c at hc
    by_cases heq : (sid', i) = (sid, chunk.index)
    · cases heq
      rw [Function.update_self] at hc
      cases hc
      exact ⟨rfl, hchunk⟩
    · rw [Function.update_of_ne heq] at hc
      exact h.chunks sid' i c hc
  uris := h.uris

/-- The pattern matches the chunk keys of the session and no others. -/
theorem Keyspace.Holds.deleteAll (h : Keyspace.Holds json r m) (sid : UUID) :
    Keyspace.Holds json (Keyspace.RedisChunkRepository.deleteAll r sid)
      { m with chunks := fun k => if k.1 = sid then none else m.chunks k } where
  read k := by
    rw [get_deleteAll_str, h.read]
    cases k with
    | chunk sid' i => by_cases heq : sid' = sid <;> simp [Maps.value, Key.ofChunks, heq]
    | chunkMeta sid' i => by_cases heq : sid' = sid <;> simp [Maps.value, Key.ofChunks, heq]
    | _ => simp [Maps.value, Key.ofChunks]
  sessions := h.sessions
  chunks sid' i c hc := by
    by_cases heq : sid' = sid
    · simp [heq] at hc
    · simp only [heq, if_false] at hc
      exact h.chunks sid' i c hc
  uris := h.uris

/-- The entry of one tenant and checksum, and no other, is replaced. -/
theorem Keyspace.Holds.registerFile (h : Keyspace.Holds json r m) (t : UUID) (cs : String)
    {uri : String} (huri : uri ≠ "") :
    Keyspace.Holds json (Keyspace.RedisMetadataRegistry.registerFile r t uri cs)
      { m with uris := Function.update m.uris (t, cs) (some uri) } where
  read k := by
    show (r.set (Key.dedup t cs).str _).get k.str = _
    rw [get_set_str, h.read]
    cases k with
    | dedup t' cs' =>
        by_cases heq : (t', cs') = (t, cs)
        · cases heq
          simp [Maps.value]
        · have hne : ¬ (t' = t ∧ cs' = cs) := fun hboth => heq (Prod.ext hboth.1 hboth.2)
          simp [Maps.value, hne]
    | _ => simp [Maps.value]
  sessions := h.sessions
  chunks := h.chunks
  uris t' cs' uri' hu := by
    change Function.update m.uris (t, cs) (some uri) (t', cs') = some uri' at hu
    by_cases heq : (t', cs') = (t, cs)
    · cases heq
      rw [Function.update_self] at hu
      exact Option.some.inj hu ▸ huri
    · rw [Function.update_of_ne heq] at hu
      exact h.uris t' cs' uri' hu

/-- Nothing is stored in the beginning. -/
theorem Keyspace.Holds.empty (json : Json) : Keyspace.Holds json .empty Maps.empty where
  read k := by
    rw [KeyValue.get_empty]
    cases k <;> simp [Maps.value, Maps.empty]
  sessions _ _ h := by cases h
  chunks _ _ _ h := by cases h
  uris _ _ _ h := by cases h

end Written

/-! ## Refinement -/

/-- Every operation answers from the maps that the keyspace holds, and leaves the maps
that it leads to. -/
theorem keyspace_simulates (json : Json) :
    Machine.Simulates (keyspace json) maps json.Undoes (Keyspace.Holds json) := by
  intro r m op a r' hop h hstep
  -- one lemma for each operation says what it does to the maps
  cases op with
  | sessionGet sid =>
      cases hstep
      rw [h.sessionGet]
      exact ⟨m, .sessionGet, h⟩
  | sessionSave s =>
      cases hstep
      exact ⟨_, .sessionSave, h.sessionSave hop⟩
  | sessionDelete sid =>
      cases hstep
      exact ⟨_, .sessionDelete, h.sessionDelete sid⟩
  | acquireLock sid ttl =>
      cases hstep
      rcases r.setNx_cases (lockKey sid) (encode "locked") with ⟨v, hget, hset⟩ | ⟨hget, hset⟩
      · -- the lock is there: it is refused, and nothing changes
        have hheld : sid ∈ m.locked := by
          by_contra hfree
          rw [(h.lock sid).2 hfree] at hget
          cases hget
        rw [Keyspace.RedisSessionRepository.acquireLock, hset]
        exact ⟨m, .refuse hheld, h⟩
      · rw [Keyspace.RedisSessionRepository.acquireLock, hset]
        exact ⟨_, .acquire ((h.lock sid).1 hget), h.acquired sid⟩
  | releaseLock sid =>
      cases hstep
      exact ⟨_, .releaseLock, h.releaseLock sid⟩
  | chunkSave sid chunk =>
      cases hstep
      exact ⟨_, .chunkSave, h.chunkSave hop⟩
  | chunkGet sid i =>
      cases hstep
      rw [h.chunkGet]
      exact ⟨m, .chunkGet, h⟩
  | getStream sid =>
      cases hstep
      exact ⟨m, .getStream (h.getStream sid), h⟩
  | deleteAll sid =>
      cases hstep
      exact ⟨_, .deleteAll, h.deleteAll sid⟩
  | registerFile t f uri size cs =>
      cases hstep
      exact ⟨_, .registerFile, h.registerFile t cs hop⟩
  | getByChecksum t cs =>
      cases hstep
      rw [h.getByChecksum]
      exact ⟨m, .getByChecksum, h⟩

/-- The answers to a sequence of operations on one keyspace are exactly those of the four
maps, and what is then in the keyspace is what the maps hold. -/
theorem keyspace_refines (json : Json) (ops : List RepoOp) (hops : ∀ op ∈ ops, json.Undoes op) :
    (∀ answers, (∃ r, (keyspace json).Run .empty ops answers r) ↔
      ∃ m, maps.Run Maps.empty ops answers m) ∧
    ∀ answers r, (keyspace json).Run .empty ops answers r →
      ∃ m, maps.Run Maps.empty ops answers m ∧ ∀ k : Key, r.get k.str = m.value json k := by
  constructor
  · intro answers
    exact (keyspace_simulates json).run_iff (fun r _ op _ _ => keyspace_total json r op)
      maps_deterministic hops
      (.empty json) answers
  · intro answers r hrun
    rcases (keyspace_simulates json).run hops (.empty json) hrun with ⟨m, hmaps, hholds⟩
    exact ⟨m, hmaps, hholds.read⟩

namespace Demo

/-- What `json.dumps` writes for payloads with nothing to escape. -/
def dumpsSession (p : SessionPayload) : String :=
  "\x7b\"session_id\": \"" ++ p.sessionId ++ "\", \"tenant_id\": \"" ++ p.tenantId ++
    "\", \"file_id\": \"" ++ p.fileId ++ "\", \"total_size\": " ++ toString p.totalSize ++
    ", \"current_offset\": " ++ toString p.currentOffset ++ ", \"checksum\": \"" ++
    p.checksum ++ "\", \"status\": \"" ++ p.status ++ "\"\x7d"

def dumpsMeta (m : ChunkMeta) : String :=
  "\x7b\"checksum\": \"" ++ m.checksum ++ "\", \"size\": " ++ toString m.size ++ "\x7d"

def session : UploadSession := ⟨sid, tenant, file, 1, 0, sha256 a, .initiated⟩

/-- A chunk of `data` at an index below zero. -/
def chunkBelow (data : Bytes) : Chunk := ⟨-3, data.length, sha256 data, data⟩

/-- The texts of `session` and of the metadata of its chunks are read back. -/
def json : Json where
  dumpsSession p := encode (dumpsSession p)
  loadsSession data :=
    if data = encode (dumpsSession (payload session)) then some (payload session) else none
  dumpsMeta m := encode (dumpsMeta m)
  loadsMeta data :=
    [⟨sha256 a, 1⟩, ⟨sha256 [], 0⟩].find? fun m => encode (dumpsMeta m) = data

def ops : List RepoOp :=
  [.sessionSave session, .acquireLock sid 10, .acquireLock sid 10, .chunkSave sid (chunkBelow a),
    .chunkSave sid ⟨0, 1, sha256 a, a⟩, .chunkSave sid ⟨1, 0, sha256 [], []⟩,
    .registerFile tenant file "s3://bronze-file-uploads/f" 1 (sid.str ++ ":chunk:0"),
    .chunkGet sid (-3), .chunkGet sid 1, .getStream sid, .deleteAll sid, .chunkGet sid (-3),
    .getStream sid, .sessionGet sid, .releaseLock sid, .acquireLock sid 10, .sessionDelete sid,
    .sessionGet sid, .getByChecksum tenant (sid.str ++ ":chunk:0")]

def answers : List Answer :=
  [.done, .locked true, .locked false, .done, .done, .done, .done, .chunk (some (chunkBelow a)),
    .chunk none, .stream [a], .done, .chunk none, .stream [], .session (some session), .done,
    .locked true, .done, .session none, .uri (some "s3://bronze-file-uploads/f")]

end Demo

/-- The answers of a sequence of operations. -/
def execAll (json : Json) : List RepoOp → Redis → List Answer × Redis
  | [], r => ([], r)
  | op :: ops, r =>
      ((exec json op r).1 :: (execAll json ops (exec json op r).2).1,
        (execAll json ops (exec json op r).2).2)

/-- Evaluation gives a run, for concrete operations. -/
theorem run_execAll (json : Json) (ops : List RepoOp) (r : Redis) :
    (keyspace json).Run r ops (execAll json ops r).1 (execAll json ops r).2 := by
  induction ops generalizing r with
  | nil => exact .nil
  | cons op ops ih => exact .cons rfl (ih _)

/-- A session with three chunks, one of them empty and one below zero, its lock taken
twice, and a dedup entry whose checksum looks like a chunk key. -/
theorem keyspace_refines_demo :
    (∀ answers, (∃ r, (keyspace Demo.json).Run .empty Demo.ops answers r) ↔
      ∃ m, maps.Run Maps.empty Demo.ops answers m) ∧
    ∃ m, maps.Run Maps.empty Demo.ops Demo.answers m := by
  have hops : ∀ op ∈ Demo.ops, Demo.json.Undoes op := by
    decide +kernel
  have hanswers : (execAll Demo.json Demo.ops .empty).1 = Demo.answers := by decide +kernel
  have hrefines := keyspace_refines Demo.json Demo.ops hops
  have hrun := run_execAll Demo.json Demo.ops .empty
  rw [hanswers] at hrun
  exact ⟨hrefines.1, (hrefines.1 Demo.answers).1 ⟨_, hrun⟩⟩

/-! ## The adapters of the world

With the clock standing still the decoded maps of `World` answer as the four maps too.
-/

/-- The adapters that the use cases call; a stream is read to its end at once. -/
inductive World.Answers : World → RepoOp → Answer → World → Prop where
  | sessionGet {w : World} {sid : UUID} :
      Answers w (.sessionGet sid) (.session (RedisSessionRepository.get w sid)) w
  | sessionSave {w : World} {s : UploadSession} :
      Answers w (.sessionSave s) .done (RedisSessionRepository.save w s)
  | sessionDelete {w : World} {sid : UUID} :
      Answers w (.sessionDelete sid) .done (RedisSessionRepository.delete w sid)
  | acquireLock {w : World} {sid : UUID} {ttl : Nat} :
      Answers w (.acquireLock sid ttl) (.locked (RedisSessionRepository.acquireLock w sid ttl).1)
        (RedisSessionRepository.acquireLock w sid ttl).2
  | releaseLock {w : World} {sid : UUID} :
      Answers w (.releaseLock sid) .done (RedisSessionRepository.releaseLock w sid)
  | chunkSave {w : World} {sid : UUID} {chunk : Chunk} :
      Answers w (.chunkSave sid chunk) .done (RedisChunkRepository.save w sid chunk)
  | chunkGet {w : World} {sid : UUID} {i : Int} :
      Answers w (.chunkGet sid i) (.chunk (RedisChunkRepository.get w sid i)) w
  | getStream {w : World} {sid : UUID} {datas : List Bytes}
      (h : RunFrom (fun k => (w.chunk? sid k).filter (· ≠ [])) 0 datas) :
      Answers w (.getStream sid) (.stream datas) w
  | deleteAll {w : World} {sid : UUID} :
      Answers w (.deleteAll sid) .done (RedisChunkRepository.deleteAll w sid)
  | registerFile {w : World} {t f : UUID} {uri : String} {size : Int} {cs : String} :
      Answers w (.registerFile t f uri size cs) .done
        (RedisMetadataRegistry.registerFile RedisMetadataRegistry.wiredTtl w t uri cs)
  | getByChecksum {w : World} {t : UUID} {cs : String} :
      Answers w (.getByChecksum t cs) (.uri (RedisMetadataRegistry.getByChecksum w t cs)) w

@[reducible] def adapters : Machine RepoOp Answer := ⟨World, World.Answers⟩

/-- A URI is not empty, and a lock is asked for with some time to live. -/
def Lasting : RepoOp → Prop
  | .acquireLock _ ttl => 0 < ttl
  | .registerFile _ _ uri _ _ => uri ≠ ""
  | _ => True

/-- Read now, the world holds the maps. -/
structure World.Holds (w : World) (m : Maps) : Prop where
  session : ∀ sid, w.session? sid = m.sessions sid
  lock : ∀ sid, w.lock? sid = none ↔ sid ∉ m.locked
  chunk : ∀ sid i, w.chunk? sid i = (m.chunks (sid, i)).map (·.rawBytes)
  chunkMeta : ∀ sid i, w.chunkMeta? sid i =
    (m.chunks (sid, i)).map fun c => ⟨c.checksum, c.size⟩
  dedup : ∀ t cs, w.dedup? t cs = m.uris (t, cs)
  index : ∀ sid i c, m.chunks (sid, i) = some c → c.index = i
  uris : ∀ t cs uri, m.uris (t, cs) = some uri → uri ≠ ""

section Adapters

variable {w : World} {m : Maps} {sid : UUID}

/-- The adapters of the decoded world find the same chunk. -/
theorem World.Holds.get (h : w.Holds m) (sid : UUID) (i : Int) :
    RedisChunkRepository.get w sid i = m.chunk? sid i := by
  rw [RedisChunkRepository.get, h.chunk, h.chunkMeta, Maps.chunk?]
  cases hc : m.chunks (sid, i) with
  | none => rfl
  | some c =>
      have hindex := h.index sid i c hc
      by_cases hempty : c.rawBytes = []
      · simp [hempty, Option.filter]
      · simp [hempty, ← hindex, Option.filter]

theorem World.Holds.getByChecksum (h : w.Holds m) (t : UUID) (cs : String) :
    RedisMetadataRegistry.getByChecksum w t cs = m.uris (t, cs) := by
  rw [RedisMetadataRegistry.getByChecksum, h.dedup]
  cases hu : m.uris (t, cs) with
  | none => rfl
  | some uri => simp [h.uris t cs uri hu]

/-- And stream the same payloads. -/
theorem World.Holds.stream (h : w.Holds m) (sid : UUID) :
    (fun k : Nat => (w.chunk? sid k).filter (· ≠ [])) =
      fun k : Nat => (m.chunk? sid k).map (·.rawBytes) := by
  funext k
  rw [h.chunk, Maps.chunk?]
  cases m.chunks (sid, (k : Int)) with
  | none => rfl
  | some c => by_cases hempty : c.rawBytes = [] <;> simp [hempty, Option.filter]

/-- A value that is written is there, as its lifetime is positive. -/
theorem World.lt_deadline (w : World) {ttl : Nat} (h : 0 < ttl) :
    ∀ d ∈ w.deadline ttl, w.now < d := by
  intro d hd
  cases hd
  omega

theorem World.Holds.sessionSave (h : w.Holds m) (s : UploadSession) :
    (RedisSessionRepository.save w s).Holds
      { m with sessions := Function.update m.sessions s.sessionId (some s) } where
  session sid := by
    show (w.sessions.set s.sessionId s _).get w.now sid =
      Function.update m.sessions s.sessionId (some s) sid
    rw [ExpiringMap.get_set _ _ _ _ (w.lt_deadline (by decide)), Function.update_apply]
    split
    · rfl
    · exact h.session sid
  lock := h.lock
  chunk := h.chunk
  chunkMeta := h.chunkMeta
  dedup := h.dedup
  index := h.index
  uris := h.uris

theorem World.Holds.sessionDelete (h : w.Holds m) (sid : UUID) :
    (RedisSessionRepository.delete w sid).Holds
      { m with sessions := Function.update m.sessions sid none } where
  session sid' := by
    show (w.sessions.erase sid).get w.now sid' = Function.update m.sessions sid none sid'
    rw [ExpiringMap.get_erase, Function.update_apply]
    split
    · rfl
    · exact h.session sid'
  lock := h.lock
  chunk := h.chunk
  chunkMeta := h.chunkMeta
  dedup := h.dedup
  index := h.index
  uris := h.uris

/-- A lock that is taken is held. -/
theorem World.Holds.acquired (h : w.Holds m) (sid : UUID) {ttl : Nat} (httl : 0 < ttl) :
    World.Holds { w with locks := w.locks.set sid "locked" (w.deadline ttl) }
      { m with locked := insert sid m.locked } where
  session := h.session
  lock sid' := by
    show (w.locks.set sid "locked" _).get w.now sid' = none ↔ ¬ (sid' = sid ∨ sid' ∈ m.locked)
    rw [ExpiringMap.get_set _ _ _ _ (w.lt_deadline httl), not_or, ← h.lock]
    by_cases heq : sid' = sid
    · simp [heq]
    · rw [if_neg heq]
      exact ⟨fun hnone => ⟨heq, hnone⟩, And.right⟩
  chunk := h.chunk
  chunkMeta := h.chunkMeta
  dedup := h.dedup
  index := h.index
  uris := h.uris

theorem World.Holds.releaseLock (h : w.Holds m) (sid : UUID) :
    (RedisSessionRepository.releaseLock w sid).Holds { m with locked := m.locked \ {sid} } where
  session := h.session
  lock sid' := by
    show (w.locks.erase sid).get w.now sid' = none ↔ ¬ (sid' ∈ m.locked ∧ ¬ sid' = sid)
    rw [ExpiringMap.get_erase, not_and, not_not]
    by_cases heq : sid' = sid
    · simp [heq]
    · rw [if_neg heq]
      exact (h.lock sid').trans ⟨fun hfree hheld => absurd hheld hfree, fun himp hheld =>
        heq (himp hheld)⟩
  chunk := h.chunk
  chunkMeta := h.chunkMeta
  dedup := h.dedup
  index := h.index
  uris := h.uris

theorem World.Holds.chunkSave (h : w.Holds m) (sid : UUID) (chunk : Chunk) :
    (RedisChunkRepository.save w sid chunk).Holds
      { m with chunks := Function.update m.chunks (sid, chunk.index) (some chunk) } where
  session := h.session
  lock := h.lock
  chunk sid' i := by
    show (w.chunks.set (sid, chunk.index) chunk.rawBytes _).get w.now (sid', i) =
      (Function.update m.chunks (sid, chunk.index) (some chunk) (sid', i)).map _
    rw [ExpiringMap.get_set _ _ _ _ (w.lt_deadline (by decide)), Function.update_apply]
    split
    · rfl
    · exact h.chunk sid' i
  chunkMeta sid' i := by
    show (w.chunkMetas.set (sid, chunk.index) ⟨chunk.checksum, chunk.size⟩ _).get w.now (sid', i) =
      (Function.update m.chunks (sid, chunk.index) (some chunk) (sid', i)).map _
    rw [ExpiringMap.get_set _ _ _ _ (w.lt_deadline (by decide)), Function.update_apply]
    split
    · rfl
    · exact h.chunkMeta sid' i
  dedup := h.dedup
  index sid' i c hc := by
    change Function.update m.chunks (sid, chunk.index) (some chunk) (sid', i) = some c at hc
    rw [Function.update_apply] at hc
    split at hc
    · rename_i heq
      cases heq
      cases hc
      rfl
    · exact h.index sid' i c hc
  uris := h.uris

/-- The chunks of the session are gone, and no others. -/
theorem World.Holds.deleteAll (h : w.Holds m) (sid : UUID) :
    (RedisChunkRepository.deleteAll w sid).Holds
      { m with chunks := fun k => if k.1 = sid then none else m.chunks k } where
  session := h.session
  lock := h.lock
  chunk sid' i := by
    show (w.chunks.eraseAll fun k => k.1 = sid).get w.now (sid', i) = _
    rw [ExpiringMap.get_eraseAll]
    by_cases heq : sid' = sid
    · simp [heq]
    · simp only [heq, decide_false, Bool.false_eq_true, if_false]
      exact h.chunk sid' i
  chunkMeta sid' i := by
    show (w.chunkMetas.eraseAll fun k => k.1 = sid).get w.now (sid', i) = _
    rw [ExpiringMap.get_eraseAll]
    by_cases heq : sid' = sid
    · simp [heq]
    · simp only [heq, decide_false, Bool.false_eq_true, if_false]
      exact h.chunkMeta sid' i
  dedup := h.dedup
  index sid' i c hc := by
    by_cases heq : sid' = sid
    · simp [heq] at hc
    · simp only [heq, if_false] at hc
      exact h.index sid' i c hc
  uris := h.uris

theorem World.Holds.registerFile (h : w.Holds m) (t : UUID) (cs : String) {uri : String}
    (huri : uri ≠ "") :
    (RedisMetadataRegistry.registerFile RedisMetadataRegistry.wiredTtl w t uri cs).Holds
      { m with uris := Function.update m.uris (t, cs) (some uri) } where
  session := h.session
  lock := h.lock
  chunk := h.chunk
  chunkMeta := h.chunkMeta
  dedup t' cs' := by
    show (w.dedup.set (t, cs) uri none).get w.now (t', cs') =
      Function.update m.uris (t, cs) (some uri) (t', cs')
    rw [ExpiringMap.get_set _ _ _ _ (fun d hd => by cases hd), Function.update_apply]
    split
    · rfl
    · exact h.dedup t' cs'
  index := h.index
  uris t' cs' uri' hu := by
    change Function.update m.uris (t, cs) (some uri) (t', cs') = some uri' at hu
    rw [Function.update_apply] at hu
    split at hu
    · exact Option.some.inj hu ▸ huri
    · exact h.uris t' cs' uri' hu

end Adapters

/-- The adapters of the world implement the same four maps as the keyspace. -/
theorem adapters_simulate : Machine.Simulates adapters maps Lasting World.Holds := by
  intro w m op a w' hop h hstep
  cases hstep with
  | sessionGet =>
      rw [RedisSessionRepository.get, h.session]
      exact ⟨m, .sessionGet, h⟩
  | sessionSave => exact ⟨_, .sessionSave, h.sessionSave _⟩
  | sessionDelete => exact ⟨_, .sessionDelete, h.sessionDelete _⟩
  | @acquireLock sid ttl =>
      rcases RedisSessionRepository.acquireLock_cases w sid ttl with
        ⟨v, hlock, hacq⟩ | ⟨hlock, hacq⟩
      · -- the lock is there
        have hheld : sid ∈ m.locked := by
          by_contra hfree
          rw [(h.lock sid).2 hfree] at hlock
          cases hlock
        rw [hacq]
        exact ⟨m, .refuse hheld, h⟩
      · rw [hacq]
        exact ⟨_, .acquire ((h.lock sid).1 hlock), h.acquired sid hop⟩
  | releaseLock => exact ⟨_, .releaseLock, h.releaseLock _⟩
  | chunkSave => exact ⟨_, .chunkSave, h.chunkSave _ _⟩
  | chunkGet =>
      rw [h.get]
      exact ⟨m, .chunkGet, h⟩
  | getStream hrun =>
      rw [h.stream] at hrun
      exact ⟨m, .getStream hrun, h⟩
  | deleteAll => exact ⟨_, .deleteAll, h.deleteAll _⟩
  | registerFile => exact ⟨_, .registerFile, h.registerFile _ _ hop⟩
  | getByChecksum =>
      rw [h.getByChecksum]
      exact ⟨m, .getByChecksum, h⟩

theorem World.Holds.empty (now : Nat) : (World.empty now).Holds Maps.empty where
  session _ := rfl
  lock _ := ⟨fun _ h => h, fun _ => rfl⟩
  chunk _ _ := rfl
  chunkMeta _ _ := rfl
  dedup _ _ := rfl
  index _ _ _ h := by cases h
  uris _ _ _ h := by cases h

/-- Whatever the adapters answer on the decoded maps, the code answers on the keyspace. -/
theorem keyspace_of_adapters {json : Json} {ops : List RepoOp} {answers : List Answer} {now : Nat}
    {w : World} (hops : ∀ op ∈ ops, json.Undoes op) (hlasting : ∀ op ∈ ops, Lasting op)
    (hrun : adapters.Run (World.empty now) ops answers w) :
    ∃ r, (keyspace json).Run .empty ops answers r := by
  rcases adapters_simulate.run hlasting (.empty now) hrun with ⟨m, hmaps, _⟩
  exact ((keyspace_refines json ops hops).1 answers).2 ⟨m, hmaps⟩

end FileUploader
