import FileUploader.Infrastructure.Commands
import FileUploader.Alone

/-! # The world in Redis

What the world of the calls is in the deployment: the bytes under the keys, with the deadlines
that Redis keeps for them. A call that runs alone does in commands what it does in one step: a
scan comes to an end, and then every key of the session has been found.
-/

namespace FileUploader

open Await Prog Command

/-! ## What the deployment stands for -/

/-- The bytes that a key holds for what the world has under it. -/
def World.value (w : World) : Key → Option Bytes
  | .session sid => (w.session? sid).map fun s => pythonJson.dumpsSession (payload s)
  | .lock sid => (w.lock? sid).map encode
  | .chunk sid i => w.chunk? sid i
  | .chunkMeta sid i => (w.chunkMeta? sid i).map pythonJson.dumpsMeta
  | .dedup t cs => (w.dedup? t cs).map encode

/-- Every key reads as what the world has under it, whenever it is read; a chunk and its
metadata are there together. -/
structure ReadsAs (w : Deployment) (v : World) : Prop where
  now : w.redis.now = v.now
  read : ∀ (d : Nat) (k : Key), (w.redis.advance d).get k.str = (v.advance d).value k
  paired : ∀ (d : Nat) (sid : UUID) (i : Int),
    ((v.advance d).chunk? sid i).isSome = ((v.advance d).chunkMeta? sid i).isSome
  outside : w.outside = v.outside

section Read

variable {w : Deployment} {v : World}

/-- A key reads as the world has it, at once. -/
theorem ReadsAs.get (h : ReadsAs w v) (k : Key) : w.redis.get k.str = v.value k := h.read 0 k

theorem World.advance_advance (v : World) (d d' : Nat) :
    (v.advance d).advance d' = v.advance (d + d') := by
  simp [World.advance, Nat.add_assoc]

/-- And at any later time. -/
theorem ReadsAs.advance (h : ReadsAs w v) (d : Nat) :
    ReadsAs (w.advance d) (v.advance d) where
  now := congrArg (· + d) h.now
  read d' k := by
    show ((w.redis.advance d).advance d').get k.str = _
    rw [KeyServer.advance_advance, h.read, World.advance_advance]
  paired d' sid i := by
    rw [World.advance_advance]
    exact h.paired _ sid i
  outside := h.outside

theorem readsAs_empty (now : Nat) : ReadsAs (Deployment.empty now) (World.empty now) where
  now := rfl
  read d k := by cases k <;> rfl
  paired _ _ _ := rfl
  outside := rfl

/-! ### Answers -/

/-- The session is read back from its text. -/
theorem ReadsAs.sessionGet (h : ReadsAs w v) (sid : UUID) :
    Command.RedisSessionRepository.read (w.redis.get (sessionKey sid)) = v.session? sid := by
  rw [show w.redis.get (sessionKey sid) = v.value (.session sid) from h.get (.session sid),
    World.value]
  cases v.session? sid with
  | none => rfl
  | some s =>
      have hne : pythonJson.dumpsSession (payload s) ≠ [] := dumps_ne_nil _
      simp [Command.RedisSessionRepository.read, hne, loadsSession_dumps, ofPayload_payload]

/-- The chunk is read back from its two keys. -/
theorem ReadsAs.chunkGet (h : ReadsAs w v) (sid : UUID) (i : Int) :
    Command.RedisChunkRepository.read i (w.redis.get (chunkKey sid i))
        (w.redis.get (chunkMetaKey sid i)) = RedisChunkRepository.get v sid i := by
  rw [show w.redis.get (chunkKey sid i) = v.value (.chunk sid i) from h.get (.chunk sid i),
    show w.redis.get (chunkMetaKey sid i) = v.value (.chunkMeta sid i) from
      h.get (.chunkMeta sid i),
    World.value, World.value, RedisChunkRepository.get]
  cases v.chunk? sid i with
  | none => rfl
  | some data =>
      cases v.chunkMeta? sid i with
      | none => rfl
      | some m =>
          have hne : pythonJson.dumpsMeta m ≠ [] := dumps_ne_nil _
          by_cases hempty : data = []
          · simp [Command.RedisChunkRepository.read, hempty]
          · simp [Command.RedisChunkRepository.read, hempty, hne, loadsMeta_dumps]

/-- No URI in the registry fails to be decoded. -/
theorem ReadsAs.getByChecksum (h : ReadsAs w v) (t : UUID) (cs : String) :
    Command.RedisMetadataRegistry.read (w.redis.get (dedupKey t cs)) =
      .ok (RedisMetadataRegistry.getByChecksum v t cs) := by
  rw [show w.redis.get (dedupKey t cs) = v.value (.dedup t cs) from h.get (.dedup t cs),
    World.value,
    RedisMetadataRegistry.getByChecksum]
  cases v.dedup? t cs with
  | none => rfl
  | some uri =>
      by_cases hempty : uri = ""
      · subst hempty
        rfl
      · simp [Command.RedisMetadataRegistry.read, hempty, encode_ne_nil hempty, decode_encode]

end Read

/-! ### Effects -/

section Written

variable {w : Deployment} {v : World}

/-- A key is written with its deadline, and no other key is touched. -/
theorem get_set_key (r : KeyServer String Bytes) (k k' : Key) (data : Bytes) (life : Option Nat)
    (d : Nat) : ((r.set k.str data life).advance d).get k'.str =
      if k' = k then (if life.all (d < ·) then some data else none)
      else (r.advance d).get k'.str := by
  rw [KeyServer.get_set]
  by_cases h : k' = k
  · rw [if_pos h, if_pos (congrArg Key.str h)]
  · rw [if_neg h, if_neg fun hstr => h (Key.str_injective hstr)]

theorem get_delete_key (r : KeyServer String Bytes) (k k' : Key) (d : Nat) :
    ((r.delete [k.str]).advance d).get k'.str =
      if k' = k then none else (r.advance d).get k'.str := by
  rw [KeyServer.get_delete]
  by_cases h : k' = k
  · rw [if_pos h, if_pos (List.mem_singleton.2 (congrArg Key.str h))]
  · rw [if_neg h, if_neg fun hstr => h (Key.str_injective (List.mem_singleton.1 hstr))]

/-- What is read of a value that has been stored for `ttl` seconds. -/
theorem get_stored {K V : Type} [DecidableEq K] (m : ExpiringMap K V Nat) (v : World) (k k' : K)
    (x : V) (ttl d : Nat) : (m.set k x (v.deadline ttl)).get (v.advance d).now k' =
      if k' = k then (if d < ttl * 1000 then some x else none) else m.get (v.advance d).now k' := by
  rw [World.deadline, ExpiringMap.get_set_until]
  simp [World.advance]

theorem ReadsAs.sessionSave (h : ReadsAs w v) (s : UploadSession) :
    ReadsAs ⟨w.redis.set (sessionKey s.sessionId) (pythonJson.dumpsSession (payload s))
      (some (RedisSessionRepository.ttl * 1000)), w.outside⟩
      (RedisSessionRepository.save v s) where
  now := h.now
  outside := h.outside
  paired := h.paired
  read d k := by
    show ((w.redis.set (Key.session s.sessionId).str _ _).advance d).get k.str = _
    rw [get_set_key, h.read]
    cases k with
    | session sid =>
        show _ = ((v.sessions.set s.sessionId s _).get (v.advance d).now sid).map _
        rw [get_stored]
        by_cases heq : sid = s.sessionId
        · subst heq
          by_cases hlt : d < RedisSessionRepository.ttl * 1000 <;> simp [hlt]
        · rw [if_neg (by simpa using heq), if_neg heq]
          rfl
    | _ => rfl

theorem ReadsAs.sessionDelete (h : ReadsAs w v) (sid : UUID) :
    ReadsAs ⟨w.redis.delete [sessionKey sid], w.outside⟩
      (RedisSessionRepository.delete v sid) where
  now := h.now
  outside := h.outside
  paired := h.paired
  read d k := by
    show ((w.redis.delete [(Key.session sid).str]).advance d).get k.str = _
    rw [get_delete_key, h.read]
    cases k with
    | session sid' =>
        show _ = ((v.sessions.erase sid).get (v.advance d).now sid').map _
        rw [ExpiringMap.get_erase]
        by_cases heq : sid' = sid
        · simp [heq]
        · rw [if_neg (by simpa using heq), if_neg heq]
          rfl
    | _ => rfl

/-- `SET NX` takes the lock exactly if the world has it free. -/
theorem ReadsAs.acquireLock (h : ReadsAs w v) (sid : UUID) (ttl : Nat) :
    (w.redis.setNx (lockKey sid) (encode "locked") (some (ttl * 1000))).1 =
        (RedisSessionRepository.acquireLock v sid ttl).1 ∧
      ReadsAs ⟨(w.redis.setNx (lockKey sid) (encode "locked") (some (ttl * 1000))).2, w.outside⟩
        (RedisSessionRepository.acquireLock v sid ttl).2 := by
  have hread : w.redis.get (lockKey sid) = (v.lock? sid).map encode := h.get (.lock sid)
  rcases w.redis.setNx_cases (lockKey sid) (encode "locked") (some (ttl * 1000)) with
    ⟨_, hget, hset⟩ | ⟨hget, hset⟩ <;>
  rcases RedisSessionRepository.acquireLock_cases v sid ttl with ⟨_, hlock, hacq⟩ | ⟨hlock, hacq⟩
  · rw [hset, hacq]
    exact ⟨rfl, h⟩
  · simp [hread, hlock] at hget
  · simp [hread, hlock] at hget
  · -- the lock is free on both levels
    rw [hset, hacq]
    refine ⟨rfl, h.now, ?_, h.paired, h.outside⟩
    intro d k
    show ((w.redis.set (Key.lock sid).str _ _).advance d).get k.str = _
    rw [get_set_key, h.read]
    cases k with
    | lock sid' =>
        show _ = ((v.locks.set sid "locked" _).get (v.advance d).now sid').map _
        rw [get_stored]
        by_cases heq : sid' = sid
        · subst heq
          by_cases hlt : d < ttl * 1000 <;> simp [hlt]
        · rw [if_neg (by simpa using heq), if_neg heq]
          rfl
    | _ => rfl

theorem ReadsAs.releaseLock (h : ReadsAs w v) (sid : UUID) :
    ReadsAs ⟨w.redis.delete [lockKey sid], w.outside⟩
      (RedisSessionRepository.releaseLock v sid) where
  now := h.now
  outside := h.outside
  paired := h.paired
  read d k := by
    show ((w.redis.delete [(Key.lock sid).str]).advance d).get k.str = _
    rw [get_delete_key, h.read]
    cases k with
    | lock sid' =>
        show _ = ((v.locks.erase sid).get (v.advance d).now sid').map _
        rw [ExpiringMap.get_erase]
        by_cases heq : sid' = sid
        · simp [heq]
        · rw [if_neg (by simpa using heq), if_neg heq]
          rfl
    | _ => rfl

/-- Both keys are written in one command, so they expire together. -/
theorem ReadsAs.chunkSave (h : ReadsAs w v) (sid : UUID) (chunk : Chunk) :
    ReadsAs ⟨(w.redis.set (chunkKey sid chunk.index) chunk.rawBytes
        (some (RedisChunkRepository.ttl * 1000))).set (chunkMetaKey sid chunk.index)
        (pythonJson.dumpsMeta ⟨chunk.checksum, chunk.size⟩)
        (some (RedisChunkRepository.ttl * 1000)), w.outside⟩
      (RedisChunkRepository.save v sid chunk) where
  now := h.now
  outside := h.outside
  paired d sid' i := by
    show ((v.chunks.set (sid, chunk.index) chunk.rawBytes _).get (v.advance d).now _).isSome =
      ((v.chunkMetas.set (sid, chunk.index) _ _).get (v.advance d).now _).isSome
    rw [get_stored, get_stored]
    split
    · split <;> rfl
    · exact h.paired d sid' i
  read d k := by
    show (((w.redis.set (Key.chunk sid chunk.index).str _ _).set
      (Key.chunkMeta sid chunk.index).str _ _).advance d).get k.str = _
    rw [get_set_key, get_set_key, h.read]
    -- the keys of the chunk change, both for the same time
    cases k with
    | chunk sid' i =>
        show _ = (v.chunks.set (sid, chunk.index) chunk.rawBytes _).get (v.advance d).now (sid', i)
        rw [get_stored]
        simp only [Key.chunk.injEq, reduceCtorEq, if_false, Prod.mk.injEq, Option.all_some,
          decide_eq_true_eq]
        rfl
    | chunkMeta sid' i =>
        show _ = ((v.chunkMetas.set (sid, chunk.index) _ _).get (v.advance d).now (sid', i)).map _
        rw [get_stored]
        simp only [Key.chunkMeta.injEq, reduceCtorEq, if_false, Prod.mk.injEq, Option.all_some,
          decide_eq_true_eq]
        split
        · split <;> rfl
        · rfl
    | _ => rfl

/-- After the deletion of a session's chunk keys. -/
theorem value_deleteAll (v : World) (sid : UUID) (k : Key) (d : Nat) :
    ((RedisChunkRepository.deleteAll v sid).advance d).value k =
      if k.ofChunks sid then none else (v.advance d).value k := by
  cases k with
  | chunk sid' i =>
      show (v.chunks.eraseAll fun k => k.1 = sid).get (v.advance d).now (sid', i) = _
      rw [ExpiringMap.get_eraseAll]
      rfl
  | chunkMeta sid' i =>
      show ((v.chunkMetas.eraseAll fun k => k.1 = sid).get (v.advance d).now (sid', i)).map _ = _
      rw [ExpiringMap.get_eraseAll]
      by_cases heq : sid' = sid
      · simp [heq, Key.ofChunks]
      · simp [heq, Key.ofChunks]
        rfl
  | _ => rfl

/-- Deleting the keys that a scan has found: all that are there, and no other session's. -/
theorem ReadsAs.deleteAll (h : ReadsAs w v) {sid : UUID} {keys : List String}
    (hall : ∀ k : Key, k.ofChunks sid → (w.redis.get k.str).isSome → k.str ∈ keys)
    (hown : ∀ k : Key, k.str ∈ keys → k.ofChunks sid) :
    ReadsAs ⟨w.redis.delete keys, w.outside⟩ (RedisChunkRepository.deleteAll v sid) where
  now := h.now
  outside := h.outside
  paired d sid' i := by
    show ((v.chunks.eraseAll fun k => k.1 = sid).get (v.advance d).now (sid', i)).isSome =
      ((v.chunkMetas.eraseAll fun k => k.1 = sid).get (v.advance d).now (sid', i)).isSome
    rw [ExpiringMap.get_eraseAll, ExpiringMap.get_eraseAll]
    split
    · rfl
    · exact h.paired d sid' i
  read d k := by
    rw [value_deleteAll, ← h.read]
    show ((w.redis.delete keys).advance d).get k.str = _
    rw [KeyServer.get_delete]
    by_cases hmem : k.str ∈ keys
    · rw [if_pos hmem, if_pos (hown k hmem)]
    · rw [if_neg hmem]
      split
      · -- what the scan has not found is not there
        rename_i hk
        have hnone : w.redis.get k.str = none := by
          rw [← Option.not_isSome_iff_eq_none]
          exact fun hsome => hmem (hall k hk hsome)
        exact KeyServer.get_none_later hnone d
      · rfl

theorem ReadsAs.registerFile (h : ReadsAs w v) (t : UUID) (uri cs : String) :
    ReadsAs ⟨w.redis.set (dedupKey t cs) (encode uri) none, w.outside⟩
      (RedisMetadataRegistry.registerFile RedisMetadataRegistry.wiredTtl v t uri cs) where
  now := h.now
  outside := h.outside
  paired := h.paired
  read d k := by
    show ((w.redis.set (Key.dedup t cs).str _ _).advance d).get k.str = _
    rw [get_set_key, h.read]
    cases k with
    | dedup t' cs' =>
        show _ = ((v.dedup.set (t, cs) uri none).get (v.advance d).now (t', cs')).map _
        rw [ExpiringMap.get_set _ _ _ _ (fun d hd => by cases hd)]
        simp only [Key.dedup.injEq, Prod.mk.injEq, Option.all_none, if_true]
        split <;> rfl
    | _ => rfl

/-- The world with another S3 and another broker. -/
def World.withOutside (v : World) (o : Outside) : World :=
  { v with
    objects := o.objects
    uploads := o.uploads
    nextUploadId := o.nextUploadId
    events := o.events }

/-- S3 and the broker neither see nor touch Redis. -/
theorem respond_remote (env : Env) {c : Call} (hc : c.isRemote) (v : World) :
    respond env c v = ((respond env c v.outside.world).1,
      v.withOutside (respond env c v.outside.world).2.outside) := by
  cases c with
  | uploadPart t f u n data =>
      simp only [respond, S3ObjectStorage.uploadPart, World.outside, Outside.world]
      cases v.uploads u with
      | none => rfl
      | some upload =>
          by_cases hkey : upload.key = S3ObjectStorage.objectKey t f
          · simp only [hkey, if_true]
            rfl
          · simp only [hkey, if_false]
            rfl
  | completeMultipartUpload t f u parts =>
      simp only [respond, S3ObjectStorage.completeMultipartUpload, World.outside, Outside.world]
      cases v.uploads u with
      | none => rfl
      | some upload =>
          by_cases hkey : upload.key = S3ObjectStorage.objectKey t f
          · simp only [hkey, if_true]
            cases S3ObjectStorage.payloads env upload (S3ObjectStorage.sortedParts parts) with
            | none => rfl
            | some datas =>
                by_cases haccepts : env.s3Accepts ((S3ObjectStorage.sortedParts parts).map
                  (·.partNumber)) datas
                · simp only [haccepts, if_true]
                  rfl
                · simp only [haccepts]
                  rfl
          · simp only [hkey, if_false]
            rfl
  | initiateMultipartUpload t f => rfl
  | abortMultipartUpload t f u => rfl
  | publishFileUploadCompleted event => rfl
  | _ => cases hc

/-- S3 and the broker are no concern of Redis. -/
theorem ReadsAs.withOutside (h : ReadsAs w v) (o : Outside) :
    ReadsAs ⟨w.redis, o⟩ (v.withOutside o) where
  now := h.now
  outside := rfl
  paired := h.paired
  read d k := by
    rw [h.read]
    cases k <;> rfl

end Written

/-! ## Calls in commands -/

/-- A chunk key of the session, as it is stored. -/
def OfChunks (sid : UUID) (key : String) : Prop := ∃ k : Key, k.ofChunks sid ∧ key = k.str

/-- What a scan for the keys of a session has found when it has come to `cursor`. -/
structure Scanned (host : Host) (sid : UUID) (cursor : Nat) (keys : List String) (w : Deployment) :
    Prop where
  visited : KeyServer.Visited host.slot (OfChunks sid) cursor keys w.redis
  own : ∀ k : Key, k.str ∈ keys → k.ofChunks sid

/-- The payload that `get` has read is still that of the chunk, or both keys have expired. -/
def StillRead (sid : UUID) (index : Int) (rawBytes : Option Bytes) (w : Deployment) : Prop :=
  w.redis.get (chunkKey sid index) = rawBytes ∨
    (w.redis.get (chunkKey sid index) = none ∧ w.redis.get (chunkMetaKey sid index) = none)

/-- The next command of a scan; after the last one every slot has been visited. -/
theorem Scanned.next {host : Host} {sid : UUID} {cursor : Nat} {keys : List String}
    {w : Deployment} (h : Scanned host sid cursor keys w) :
    Scanned host sid
      (if (w.redis.scan host.slot cursor (matchesPattern (chunkPattern sid))).1 = 0 then host.slots
        else (w.redis.scan host.slot cursor (matchesPattern (chunkPattern sid))).1)
      (keys ++ (w.redis.scan host.slot cursor (matchesPattern (chunkPattern sid))).2) w := by
  refine ⟨h.visited.next ?_, ?_⟩
  · intro key hkey
    rcases hkey with ⟨k, hk, rfl⟩
    rw [Key.matches_iff]
    exact hk
  · intro k hk
    rcases List.mem_append.1 hk with hk | hk
    · exact h.own k hk
    · rw [← Key.matches_iff]
      exact (KeyServer.mem_scan.1 hk).2.1

section Commands

variable {host : Host} {w : Deployment} {v : World}

/-- The command `d` is all that is left of `c`. -/
structure Last (host : Host) (c : Call) (d : Command)
    (g : Except Exn d.Resp → Command.Program c.Resp) (w : Deployment) (v : World) : Prop where
  fails : ∀ msg, g (Command.failed msg d) = .done (failed msg c)
  answer : g (Command.respond host d w).1 = .done (respond host.env c v).1
  effect : ReadsAs (Command.respond host d w).2 (respond host.env c v).2

/-- The last command turns out as the call does. -/
theorem Last.handle {c : Call} {d : Command} {g : Except Exn d.Resp → Command.Program c.Resp}
    (h : Last host c d g w v) (hrep : ReadsAs w v) (out : Outcome) :
    g (Command.handle host out d w).1 = .done (handle host.env out c v).1 ∧
      ReadsAs (Command.handle host out d w).2 (handle host.env out c v).2 := by
  cases out with
  | works => exact ⟨h.answer, h.effect⟩
  | raises msg => exact ⟨h.fails msg, hrep⟩
  | raisesAfter msg => exact ⟨h.fails msg, h.effect⟩

/-- The calls that are one command. -/
theorem ReadsAs.last (hrep : ReadsAs w v) {c : Call} {d : Command}
    {g : Except Exn d.Resp → Command.Program c.Resp} (hc : ∀ sid index, c ≠ .chunkGet sid index)
    (h : Command.ofCall c = .call d g) : Last host c d g w v := by
  cases c with
  | chunkGet sid index => exact absurd rfl (hc sid index)
  | deleteAll sid => cases h
  | sessionGet sid =>
      cases h
      refine ⟨fun _ => rfl, ?_, hrep⟩
      exact congrArg (fun s => Prog.done (.ok s)) (hrep.sessionGet sid)
  | sessionSave s =>
      cases h
      exact ⟨fun _ => rfl, rfl, hrep.sessionSave s⟩
  | sessionDelete sid =>
      cases h
      exact ⟨fun _ => rfl, rfl, hrep.sessionDelete sid⟩
  | acquireLock sid ttl =>
      cases h
      refine ⟨fun _ => rfl, ?_, (hrep.acquireLock sid ttl).2⟩
      exact congrArg (fun b => Prog.done (.ok b)) (hrep.acquireLock sid ttl).1
  | releaseLock sid =>
      cases h
      exact ⟨fun _ => rfl, rfl, hrep.releaseLock sid⟩
  | chunkSave sid chunk =>
      cases h
      exact ⟨fun _ => rfl, rfl, hrep.chunkSave sid chunk⟩
  | chunkPull sid index =>
      cases h
      refine ⟨fun _ => rfl, ?_, hrep⟩
      exact congrArg (fun r => Prog.done (.ok r)) (hrep.get (.chunk sid index))
  | getByChecksum t cs =>
      cases h
      refine ⟨fun _ => rfl, ?_, hrep⟩
      exact congrArg Prog.done (hrep.getByChecksum t cs)
  | registerFile t f uri size cs =>
      cases h
      exact ⟨fun _ => rfl, rfl, hrep.registerFile t uri cs⟩
  | _ =>
      -- S3 and the broker
      cases h
      refine ⟨fun _ => rfl, ?_, ?_⟩
      · rw [respond_remote host.env rfl v, ← hrep.outside]
        rfl
      · rw [respond_remote host.env rfl v, ← hrep.outside]
        exact hrep.withOutside _

/-- The second command of `get`. -/
theorem ReadsAs.lastMeta (hrep : ReadsAs w v) {sid : UUID} {index : Int}
    {rawBytes : Option Bytes} (hread : StillRead sid index rawBytes w) {d : Command}
    {g : Except Exn d.Resp → Command.Program (Option Chunk)}
    (h : Command.RedisChunkRepository.getMeta sid index rawBytes = .call d g) :
    Last host (.chunkGet sid index) d g w v := by
  cases h
  refine ⟨fun _ => rfl, ?_, hrep⟩
  refine congrArg (fun chunk => Prog.done (.ok chunk)) ?_
  rw [← hrep.chunkGet]
  rcases hread with hread | ⟨hchunk, hmeta⟩
  · rw [← hread]
  · -- both keys have expired
    rw [hchunk, hmeta]
    cases rawBytes <;> rfl

/-! ### Calls that run alone -/

/-- Every command goes through. -/
def commandWorks (host : Host) : Answers (Collab.over Command Command.Resp) Deployment :=
  fun d w r w' => r = (Command.respond host d w).1 ∧ w' = (Command.respond host d w).2

/-- A command, and what is done with its answer. -/
theorem exec_command (d : Command) {α : Type} (g : Except Exn d.Resp → Command.Program α)
    {o : Except Exn α} {w' : Deployment}
    (h : Exec (commandWorks host) (g (Command.respond host d w).1) (Command.respond host d w).2
      o w') : Exec (commandWorks host) (.call d g) w o w' := ⟨_, _, ⟨rfl, rfl⟩, h⟩

/-- The last command of a call answers it. -/
theorem Last.exec {c : Call} {d : Command} {g : Except Exn d.Resp → Command.Program c.Resp}
    (h : Last host c d g w v) : ∃ w', Exec (commandWorks host) (.call d g) w
      (respond host.env c v).1 w' ∧ ReadsAs w' (respond host.env c v).2 := by
  refine ⟨_, exec_command d g ?_, h.effect⟩
  rw [h.answer]
  exact ⟨rfl, rfl⟩

open Command.RedisChunkRepository (getMeta)

/-- One round of a scan: it is the last one, or the next one goes on from its cursor. -/
theorem exec_scanCommand {sid : UUID} {cursor cursor' : Nat} {found : List String}
    (keys : List String)
    (h : w.redis.scan host.slot cursor (matchesPattern (chunkPattern sid)) = (cursor', found)) :
    Exec (commandWorks host)
      (Command.RedisChunkRepository.scanRound (chunkPattern sid) (cursor, keys)) w
      (.ok (if cursor' = 0 then .inr (keys ++ found) else .inl (cursor', keys ++ found))) w := by
  refine exec_command (.scan cursor (chunkPattern sid)) _ ?_
  simp only [Command.respond, h, andThen_done, onOk_ok]
  by_cases hlast : cursor' = 0
  · rw [if_pos hlast, if_pos hlast]
    exact ⟨rfl, rfl⟩
  · rw [if_neg hlast, if_neg hlast]
    exact ⟨rfl, rfl⟩

/-- A scan goes on to the last slot, and has then found everything. -/
theorem rounds_scan {sid : UUID} {cursor : Nat} {keys : List String}
    (hscan : Scanned host sid cursor keys w) :
    ∃ all, Rounds (fun s => Exec (commandWorks host)
        (Command.RedisChunkRepository.scanRound (chunkPattern sid) s)) (cursor, keys) w (.ok all)
        w ∧
      Scanned host sid host.slots all w := by
  -- on the slots that are left
  generalize hleft : host.slots - cursor = left
  induction left using Nat.strong_induction_on generalizing cursor keys with
  | _ left ih =>
      have hnext := hscan.next
      have hcursor : (w.redis.scan host.slot cursor (matchesPattern (chunkPattern sid))).1 =
          if cursor + 1 < host.slots then cursor + 1 else 0 := rfl
      generalize hanswer : w.redis.scan host.slot cursor (matchesPattern (chunkPattern sid)) =
        answer at hnext hcursor
      rcases answer with ⟨cursor', found⟩
      have hround := exec_scanCommand keys hanswer
      by_cases hlast : cursor' = 0
      · rw [if_pos hlast] at hnext hround
        exact ⟨_, .stop hround, hnext⟩
      · rw [if_neg hlast] at hnext hround
        have hmore : cursor + 1 < host.slots ∧ cursor' = cursor + 1 := by
          by_cases hlt : cursor + 1 < host.slots
          · exact ⟨hlt, hcursor.trans (if_pos hlt)⟩
          · exact absurd (hcursor.trans (if_neg hlt)) hlast
        rcases ih _ (by omega) hnext rfl with ⟨all, hrounds, hall⟩
        exact ⟨all, .again hround hrounds, hall⟩

theorem exec_delete (w : Deployment) (keys : List String) :
    Exec (commandWorks host) (Command.send (.delete keys)) w (.ok ())
      { w with redis := w.redis.delete keys } :=
  exec_command (.delete keys) _ ⟨rfl, rfl⟩

/-- No command is sent for no keys. -/
theorem exec_deleteKeys (w : Deployment) (keys : List String) :
    Exec (commandWorks host) (Command.RedisChunkRepository.deleteKeys keys) w (.ok ())
      { w with redis := w.redis.delete keys } := by
  by_cases hnil : keys = []
  · subst hnil
    rw [Command.RedisChunkRepository.deleteKeys, if_pos rfl, KeyServer.delete_nil]
    exact ⟨rfl, rfl⟩
  · rw [Command.RedisChunkRepository.deleteKeys, if_neg hnil]
    exact exec_delete w keys

/-- `delete_all` alone deletes what a full scan has found. -/
theorem exec_deleteAll (w : Deployment) (sid : UUID) :
    ∃ all, Exec (commandWorks host) (Command.RedisChunkRepository.deleteAll sid) w (.ok ())
      { w with redis := w.redis.delete all } ∧ Scanned host sid host.slots all w := by
  have hstart : Scanned host sid 0 [] w := ⟨.start _ _ _, fun k hk => by cases hk⟩
  rcases rounds_scan hstart with ⟨all, hrounds, hfound⟩
  exact ⟨all, ⟨.ok all, w, hrounds, exec_deleteKeys w all⟩, hfound⟩

/-- All calls but two are one command. -/
theorem ofCall_one {c : Call} (hget : ∀ sid index, c ≠ .chunkGet sid index)
    (hall : ∀ sid, c ≠ .deleteAll sid) : ∃ d g, Command.ofCall c = .call d g := by
  cases c with
  | chunkGet sid index => exact absurd rfl (hget sid index)
  | deleteAll sid => exact absurd rfl (hall sid)
  | _ => exact ⟨_, _, rfl⟩

/-- A call that runs alone is answered in commands as it is in one step. -/
theorem exec_ofCall {c : Call} {v' : World} {r : Except Exn c.Resp} (hrep : ReadsAs w v)
    (h : works host.env c v r v') :
    ∃ w', Exec (commandWorks host) (Command.ofCall c) w r w' ∧ ReadsAs w' v' := by
  rcases h with ⟨rfl, rfl⟩
  by_cases hget : ∃ sid index, c = .chunkGet sid index
  · rcases hget with ⟨sid, index, rfl⟩
    have hlast : ∀ {d g}, getMeta sid index (w.redis.get (chunkKey sid index)) = .call d g →
        Last host (.chunkGet sid index) d g w v := hrep.lastMeta (Or.inl rfl)
    rcases (hlast rfl).exec with ⟨w', hexec, hrep'⟩
    exact ⟨w', exec_command (.get (chunkKey sid index)) _ hexec, hrep'⟩
  · by_cases hall : ∃ sid, c = .deleteAll sid
    · rcases hall with ⟨sid, rfl⟩
      rcases exec_deleteAll w sid with ⟨all, hexec, hfound⟩
      refine ⟨_, hexec, hrep.deleteAll (fun k hk hsome => ?_) hfound.own⟩
      exact hfound.visited.all ⟨k, hk, rfl⟩ hsome
    · rcases ofCall_one (fun sid index hc => hget ⟨sid, index, hc⟩)
        (fun sid hc => hall ⟨sid, hc⟩) with ⟨d, g, hcall⟩
      rw [hcall]
      exact (hrep.last (fun sid index hc => hget ⟨sid, index, hc⟩) hcall).exec

end Commands

/-- A deployment with a table of two slots. -/
def Demo.host : Host := ⟨Demo.env, 2, fun key => if key = sessionKey Demo.sid then 1 else 0⟩

end FileUploader
