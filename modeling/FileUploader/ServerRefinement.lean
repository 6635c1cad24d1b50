import FileUploader.DedupCompleteness
import FileUploader.Refusals
import FileUploader.Scanner
import FileUploader.Store.Simulation
import FileUploader.TenantIsolation
import FileUploader.UploadServer

/-! # The service answers as the server

Every HTTP request that runs alone, with calls that go through, is one step of the upload
server, whatever time passes between the requests. The world models the server key by key:
what Redis holds for a session is its transfer, with the deadlines, and S3 and the dedup keys
hold the files and the catalogue. The locks are no part of it: they are free between requests.
-/

namespace FileUploader

open Await Prog S3ObjectStorage

/-- What the server is given in this deployment. -/
def policy (gateway : Gateway) (env : Env) : Policy where
  tenantOf := getTenantId gateway
  digest := env.sha256
  address := fun tenantId fileId => uri env (objectKey tenantId fileId)
  accepts := fun datas => env.s3Accepts (List.range' 1 datas.length) datas

/-- The service, one HTTP request after the other, each with the time since the one before. -/
def httpService (gateway : Gateway) (env : Env) : Machine (Nat × HttpRequest) HttpResponse where
  State := World
  step := fun w op response w' =>
    Exec (works env) (op.2.handler gateway env) (w.advance op.1) (.ok response) w'

/-! ## What the world stands for -/

/-- The session that is stored for a transfer. -/
def Transfer.session (sid : UUID) (t : Transfer) : UploadSession where
  sessionId := sid
  tenantId := t.tenantId
  fileId := t.fileId
  totalSize := t.totalSize
  currentOffset := t.received
  checksum := t.checksum
  status := if t.failed then .failed else if t.received = 0 then .initiated else .uploading

/-- Redis, S3 and the log of events hold what the server does; no upload to S3 is open. -/
structure Models (env : Env) (w : World) (a : Server) : Prop where
  now : w.now = a.now
  session : ∀ sid, w.sessions sid = (a.transfers sid).map fun t => (t.session sid, some t.expires)
  chunk : ∀ sid i, w.chunks (sid, i) =
    (a.transfers sid).bind fun t => (t.pieces.get i).map fun piece =>
      (piece.data, some piece.expires)
  chunkMeta : ∀ sid i, w.chunkMetas (sid, i) =
    (a.transfers sid).bind fun t => (t.pieces.get i).map fun piece =>
      (⟨env.sha256 piece.data, piece.data.length⟩, some piece.expires)
  dedup : ∀ tenantId checksum, w.dedup (tenantId, checksum) =
    (a.catalogue (tenantId, checksum)).map fun fileId =>
      (uri env (objectKey tenantId fileId), none)
  object : ∀ tenantId fileId, w.objects (objectKey tenantId fileId) = a.files (tenantId, fileId)
  noOther : ∀ key, (∀ tenantId fileId, key ≠ objectKey tenantId fileId) → w.objects key = none
  events : w.events = a.announced
  idle : ∀ uploadId, w.uploads uploadId = none

section Reads

variable {env : Env} {w : World} {a : Server} {sid : UUID} {t : Transfer}

theorem models_empty (env : Env) (now : Nat) : Models env (World.empty now) (Server.empty now) where
  now := rfl
  session := fun _ => rfl
  chunk := fun _ _ => rfl
  chunkMeta := fun _ _ => rfl
  dedup := fun _ _ => rfl
  object := fun _ _ => rfl
  noOther := fun _ _ => rfl
  events := rfl
  idle := fun _ => rfl

theorem Models.advance (h : Models env w a) (d : Nat) : Models env (w.advance d) (a.wait d) :=
  { h with now := congrArg (· + d) h.now }

/-- A session is found exactly while the transfer is remembered. -/
theorem Models.session? (h : Models env w a) (sid : UUID) :
    w.session? sid = (a.transfer? sid).map (·.session sid) := by
  unfold World.session? ExpiringMap.get Server.transfer?
  rw [h.session, h.now]
  cases a.transfers sid with
  | none => rfl
  | some t =>
      by_cases hlive : a.now < t.expires
      · simp [Option.filter, hlive]
      · simp [Option.filter, hlive]

theorem transfers_of_transfer? (ht : a.transfer? sid = some t) : a.transfers sid = some t :=
  (Option.filter_eq_some_iff.1 ht).1

theorem Models.chunk? (h : Models env w a) (ht : a.transfer? sid = some t) (i : Int) :
    w.chunk? sid i = t.piece? a.now i := by
  unfold World.chunk? ExpiringMap.get Transfer.piece?
  rw [h.chunk, transfers_of_transfer? ht, h.now]
  cases hpiece : t.pieces.get i with
  | none => simp [hpiece]
  | some piece =>
      by_cases hlive : a.now < piece.expires
      · simp [hpiece, Option.filter, hlive]
      · simp [hpiece, Option.filter, hlive]

theorem Models.payload? (h : Models env w a) (ht : a.transfer? sid = some t) :
    w.payload? sid = t.next? a.now := by
  funext k
  rw [World.payload?, Transfer.next?, h.chunk? ht]

/-- A chunk is there with its metadata. -/
theorem Models.paired (h : Models env w a) (sid : UUID) (i : Int) :
    (w.chunkMeta? sid i).isSome = (w.chunk? sid i).isSome := by
  unfold World.chunkMeta? World.chunk? ExpiringMap.get
  rw [h.chunkMeta, h.chunk]
  cases a.transfers sid with
  | none => rfl
  | some t =>
      cases hpiece : t.pieces.get i with
      | none => simp [hpiece]
      | some piece =>
          by_cases hlive : w.now < piece.expires
          · simp [hpiece, hlive]
          · simp [hpiece, hlive]

theorem Models.getByChecksum (h : Models env w a) (tenantId : UUID) (checksum : String) :
    RedisMetadataRegistry.getByChecksum w tenantId checksum =
      (a.catalogue (tenantId, checksum)).map fun fileId => uri env (objectKey tenantId fileId) := by
  unfold RedisMetadataRegistry.getByChecksum World.dedup? ExpiringMap.get
  rw [h.dedup]
  cases a.catalogue (tenantId, checksum) with
  | none => rfl
  | some fileId => simp [uri_ne_empty]

end Reads

/-! ## What is written -/

section Writes

variable {env : Env} {w : World} {a : Server} {sid : UUID} {t : Transfer}

/-- A session is stored, with the pieces that are there. -/
theorem Models.sessionSave (h : Models env w a) (hexpires : t.expires = a.now + retention)
    (hpieces : ∀ i, (a.transfers sid).bind (fun t => t.pieces.get i) = t.pieces.get i) :
    Models env (RedisSessionRepository.save w (t.session sid)) (a.put sid t) where
  now := h.now
  session sid' := by
    by_cases hsid : sid' = sid
    · subst hsid
      have hdeadline : w.deadline RedisSessionRepository.ttl = some t.expires := by
        rw [hexpires, ← h.now]
        rfl
      simp [RedisSessionRepository.save, Server.put, ExpiringMap.set, Transfer.session, hdeadline]
    · simp [RedisSessionRepository.save, Server.put, ExpiringMap.set, Transfer.session, hsid,
        h.session]
  chunk sid' i := by
    show w.chunks (sid', i) = _
    rw [h.chunk]
    by_cases hsid : sid' = sid
    · subst hsid
      simp only [Server.put, Function.update_self, Option.bind_some, ← hpieces, Option.map_bind]
      rfl
    · simp [Server.put, hsid]
  chunkMeta sid' i := by
    show w.chunkMetas (sid', i) = _
    rw [h.chunkMeta]
    by_cases hsid : sid' = sid
    · subst hsid
      simp only [Server.put, Function.update_self, Option.bind_some, ← hpieces, Option.map_bind]
      rfl
    · simp [Server.put, hsid]
  dedup := h.dedup
  object := h.object
  noOther := h.noOther
  events := h.events
  idle := h.idle

/-- A chunk is stored. -/
theorem Models.chunkSave (h : Models env w a) (ht : a.transfers sid = some t) (index : Int)
    (data : Bytes) : Models env (RedisChunkRepository.save w sid (chunkOf env index data))
      (a.put sid (t.keep a.now index data)) where
  now := h.now
  session sid' := by
    show w.sessions sid' = _
    rw [h.session]
    by_cases hsid : sid' = sid
    · subst hsid
      simp [Server.put, ht, Transfer.session, Transfer.keep]
    · simp [Server.put, hsid]
  chunk sid' i := by
    have hdeadline : w.deadline RedisChunkRepository.ttl = some (a.now + retention) := by
      rw [← h.now]
      rfl
    by_cases hsid : sid' = sid
    · subst hsid
      by_cases hi : i = index
      · subst hi
        simp [RedisChunkRepository.save, ExpiringMap.set, Server.put, Transfer.keep, chunkOf,
          KeyValue.get_set, hdeadline]
      · simp [RedisChunkRepository.save, ExpiringMap.set, Server.put, Transfer.keep, chunkOf,
          KeyValue.get_set, hi, h.chunk, ht]
    · simp [RedisChunkRepository.save, ExpiringMap.set, Server.put, hsid, h.chunk]
  chunkMeta sid' i := by
    have hdeadline : w.deadline RedisChunkRepository.ttl = some (a.now + retention) := by
      rw [← h.now]
      rfl
    by_cases hsid : sid' = sid
    · subst hsid
      by_cases hi : i = index
      · subst hi
        simp [RedisChunkRepository.save, ExpiringMap.set, Server.put, Transfer.keep, chunkOf,
          KeyValue.get_set, hdeadline]
      · simp [RedisChunkRepository.save, ExpiringMap.set, Server.put, Transfer.keep, chunkOf,
          KeyValue.get_set, hi, h.chunkMeta, ht]
    · simp [RedisChunkRepository.save, ExpiringMap.set, Server.put, hsid, h.chunkMeta]
  dedup := h.dedup
  object := h.object
  noOther := h.noOther
  events := h.events
  idle := h.idle

/-- A session is removed with its chunks. -/
theorem Models.purge (h : Models env w a) (sid : UUID) :
    Models env (RedisSessionRepository.delete (RedisChunkRepository.deleteAll w sid) sid)
      (a.drop sid) where
  now := h.now
  session sid' := by
    by_cases hsid : sid' = sid
    · simp [RedisSessionRepository.delete, RedisChunkRepository.deleteAll, ExpiringMap.erase,
        Server.drop, hsid]
    · simp [RedisSessionRepository.delete, RedisChunkRepository.deleteAll, ExpiringMap.erase,
        Server.drop, hsid, h.session]
  chunk sid' i := by
    by_cases hsid : sid' = sid
    · simp [RedisSessionRepository.delete, RedisChunkRepository.deleteAll, ExpiringMap.eraseAll,
        Server.drop, hsid]
    · simp [RedisSessionRepository.delete, RedisChunkRepository.deleteAll, ExpiringMap.eraseAll,
        Server.drop, hsid, h.chunk]
  chunkMeta sid' i := by
    by_cases hsid : sid' = sid
    · simp [RedisSessionRepository.delete, RedisChunkRepository.deleteAll, ExpiringMap.eraseAll,
        Server.drop, hsid]
    · simp [RedisSessionRepository.delete, RedisChunkRepository.deleteAll, ExpiringMap.eraseAll,
        Server.drop, hsid, h.chunkMeta]
  dedup := h.dedup
  object := h.object
  noOther := h.noOther
  events := h.events
  idle := h.idle

/-- Locks are no part of what is modelled. -/
theorem Models.locking (h : Models env w a) (sid : UUID) :
    Models env (w.locking sid) a := { h with }

theorem Models.unlocked (h : Models env w a) (sid : UUID) : Models env (w.unlocked sid) a :=
  { h with }

/-- An upload to S3 has come and gone. -/
theorem Models.closed (h : Models env w a) : Models env w.closed a where
  now := h.now
  session := h.session
  chunk := h.chunk
  chunkMeta := h.chunkMeta
  dedup := h.dedup
  object := h.object
  noOther := h.noOther
  events := h.events
  idle uploadId := by
    by_cases hid : uploadId = w.nextUploadId
    · simp [World.closed, hid]
    · simp [World.closed, hid, h.idle]

/-- The object is committed, registered and announced, and the session removed. -/
theorem Models.commit (h : Models env w a) (gateway : Gateway) (sid : UUID) (t : Transfer)
    (datas : List Bytes) :
    Models env (RedisSessionRepository.delete (RedisChunkRepository.deleteAll
      ((w.committed (objectKey t.tenantId t.fileId) datas).published (t.session sid)
        (uri env (objectKey t.tenantId t.fileId))) sid) sid)
      (a.commit (policy gateway env) sid t datas.flatten) where
  now := h.now
  session := (h.closed.purge sid).session
  chunk := (h.closed.purge sid).chunk
  chunkMeta := (h.closed.purge sid).chunkMeta
  dedup tenantId checksum := by
    show (w.dedup.set (t.tenantId, t.checksum) _ none) (tenantId, checksum) = _
    by_cases hkey : (tenantId, checksum) = (t.tenantId, t.checksum)
    · cases hkey
      simp [ExpiringMap.set, Server.commit, policy]
    · simp [ExpiringMap.set, Server.commit, hkey, h.dedup]
  object tenantId fileId := by
    show Function.update w.objects (objectKey t.tenantId t.fileId) (some datas.flatten)
      (objectKey tenantId fileId) = Function.update a.files (t.tenantId, t.fileId)
        (some datas.flatten) (tenantId, fileId)
    by_cases hkey : (tenantId, fileId) = (t.tenantId, t.fileId)
    · cases hkey
      rw [Function.update_self, Function.update_self]
    · have hne : objectKey tenantId fileId ≠ objectKey t.tenantId t.fileId := by
        intro heq
        rcases objectKey_inj.1 heq with ⟨htenant, hfile⟩
        exact hkey (by rw [htenant, hfile])
      rw [Function.update_of_ne hne, Function.update_of_ne hkey, h.object]
  noOther key hkey := by
    show Function.update w.objects (objectKey t.tenantId t.fileId) (some datas.flatten) key = none
    rw [Function.update_of_ne (hkey _ _), h.noOther key hkey]
  events := by
    show w.events ++ [_] = a.announced ++ [_]
    rw [h.events]
    rfl
  idle := h.closed.idle

end Writes

/-! ## One request -/

section Transfers

variable {gateway : Gateway} {env : Env} {a : Server} {sid : UUID} {t : Transfer} {data : Bytes}

@[simp] theorem put_put (t t' : Transfer) : (a.put sid t).put sid t' = a.put sid t' := by
  simp [Server.put]

@[simp] theorem drop_put (t : Transfer) : (a.put sid t).drop sid = a.drop sid := by
  simp [Server.put, Server.drop]

theorem session_open : (t.session sid).Open ↔ t.failed = false := by
  cases hfailed : t.failed with
  | true => simp [Transfer.session, UploadSession.Open, hfailed]
  | false =>
      by_cases hzero : t.received = 0
      · simp [Transfer.session, UploadSession.Open, hfailed, hzero]
      · simp [Transfer.session, UploadSession.Open, hfailed, hzero]

theorem session_fail (now : Nat) : (t.session sid).fail = (t.fail now).session sid := by
  simp [Transfer.session, UploadSession.fail, Transfer.fail]

/-- The entity moves its offset as the transfer counts. -/
theorem updateOffset_session (now : Nat) (h : t.HasRoom data) :
    (t.session sid).updateOffset data.length = .ok ((t.count now data h).session sid) := by
  have hpos : 0 < (data.length : Int) := by
    have hlength := List.length_pos_of_ne_nil h.1
    omega
  have hfits := h.2
  have hnonneg := t.received_nonneg
  have hmoved : t.received + (data.length : Int) ≠ 0 := by omega
  have hover : ¬ t.totalSize < t.received + (data.length : Int) := by omega
  have hlt : 0 < t.received + (data.length : Int) := by omega
  cases hfailed : t.failed with
  | true =>
      simp [UploadSession.updateOffset, Transfer.session, Transfer.count, hfailed, h.1, hover]
  | false =>
      by_cases hzero : t.received = 0
      · rw [hzero, zero_add] at hover
        simp [UploadSession.updateOffset, Transfer.session, Transfer.count, hfailed, h.1, hover,
          hzero]
      · simp [UploadSession.updateOffset, Transfer.session, Transfer.count, hfailed, h.1, hover,
          hzero, hmoved]

/-- Where there is no room it raises. -/
theorem updateOffset_session_error (sid : UUID) (h : ¬ t.HasRoom data) :
    ∃ msg, (t.session sid).updateOffset data.length = .error (.valueError msg) := by
  refine valueError_of_not_fits fun hfits => h ⟨?_, hfits.2⟩
  exact List.ne_nil_of_length_pos hfits.1

end Transfers

section Requests

variable {gateway : Gateway} {env : Env} {w : World} {a : Server} {sid : UUID} {t : Transfer}

/-- The operation runs alone and is answered as by the server, whose new state it leaves. -/
def Serves (env : Env) (w : World) (op : Op) (reply : Except Exn Response → HttpResponse)
    (answer : HttpResponse × Server) : Prop :=
  ∃ r w', Alone env op w r w' ∧ reply r = answer.1 ∧ Models env w' answer.2

theorem Models.initiate (h : Models env w a) (authorization : Option String)
    (payload : InitiateUploadRequest) {newId : UUID} (hfresh : a.transfers newId = none)
    {tenantId : UUID} (htenant : getTenantId gateway authorization = .ok tenantId) :
    Serves env w (.initiate newId tenantId payload.fileId payload.totalSize payload.checksum)
      (HttpRequest.reply ⟨authorization, .initiateUpload payload newId⟩)
      (a.initiate (policy gateway env) authorization payload newId) := by
  have hfound := h.getByChecksum tenantId payload.checksum
  simp only [Server.initiate, policy, htenant]
  cases hlisted : a.catalogue (tenantId, payload.checksum) with
  | some fileId =>
      rw [hlisted] at hfound
      refine ⟨_, w, (alone_initiate ..).2 (Or.inl ⟨_, hfound, rfl, rfl⟩), ?_, h⟩
      have hne := uri_ne_empty env (objectKey tenantId fileId)
      simp [HttpRequest.reply, initiateResponse, Option.filter, hne]
  | none =>
      rw [hlisted] at hfound
      refine ⟨_, _, (alone_initiate ..).2 (Or.inr ⟨hfound, rfl, rfl⟩), rfl, ?_⟩
      have hpieces : ∀ i, (a.transfers newId).bind (fun t => t.pieces.get i) =
          (Transfer.begin a.now tenantId payload).pieces.get i := by
        intro i
        rw [hfresh]
        rfl
      exact h.sessionSave rfl hpieces

theorem missing_reply (sid : UUID) :
    httpException 404 (.entityNotFoundError "UploadSession" sid) = Server.missing sid := by
  simp only [httpException, Exn.str, Server.missing]
  congr 1

/-- An upload to an open session under a free lock. -/
theorem alone_process {v : UploadSession} {index : Int} {cs : String} {data : Bytes}
    (hlive : w.session? sid = some v) (hopen : v.Open) (hfree : w.lock? sid = none)
    {o : Except Exn UploadSession} {w₁ : World}
    (hexec : Exec (works env) (UploadChunkUseCase.process env v sid index cs data)
      (w.locking sid) o w₁) :
    Alone env (.uploadChunk sid index cs data) w (o.map .uploaded) (w₁.unlocked sid) := by
  simp only [Alone, Op.prog, exec_map, UploadChunkUseCase.execute, exec_requireSession_bind,
    exec_raiseIf_bind, exec_acquireLock_bind, exec_releasing]
  exact ⟨o, Or.inr ⟨v, hlive, Or.inr ⟨hopen, Or.inr ⟨hfree, w₁, hexec, rfl⟩⟩⟩, rfl⟩

/-- An upload that the server refuses is refused, and changes nothing that is modelled. -/
theorem Models.refuse (h : Models env w a) (hfree : w.lock? sid = none)
    (ht : a.transfer? sid = some t) (authorization : Option String) (index : Int) (cs : String)
    (data : Bytes) {response : HttpResponse}
    (hrefused : Server.refusal? (policy gateway env) t cs data = some response) :
    Serves env w (.uploadChunk sid index cs data)
      (HttpRequest.reply ⟨authorization, .uploadChunk sid index cs data⟩) (response, a) := by
  have hlive : w.session? sid = some (t.session sid) := by rw [h.session? sid, ht, Option.map_some]
  unfold Server.refusal? at hrefused
  by_cases hfailed : t.failed
  · -- before the lock is taken
    rw [if_pos hfailed] at hrefused
    cases hrefused
    have hstatus : (t.session sid).status = .failed := by simp [Transfer.session, hfailed]
    refine ⟨.error (.validationError s!"Cannot upload chunk: session is in {
      (t.session sid).status.value} state"), w, ?_, by rw [hstatus]; rfl, h⟩
    simp only [Alone, Op.prog, exec_map, UploadChunkUseCase.execute, exec_requireSession_bind,
      exec_raiseIf_bind]
    exact ⟨_, Or.inr ⟨_, hlive, Or.inl ⟨by simp [hstatus], rfl, trivial⟩⟩, rfl⟩
  · -- under the lock
    rw [if_neg hfailed] at hrefused
    have hopen : (t.session sid).Open := session_open.2 (by simpa using hfailed)
    have hrefuse : ∀ {x : Exn}, Exec (works env)
        (UploadChunkUseCase.process env (t.session sid) sid index cs data) (w.locking sid)
        (.error x) (w.locking sid) →
        HttpRequest.reply ⟨authorization, .uploadChunk sid index cs data⟩ (.error x) = response →
        Serves env w (.uploadChunk sid index cs data)
          (HttpRequest.reply ⟨authorization, .uploadChunk sid index cs data⟩) (response, a) :=
      fun hexec hreply => ⟨_, _, alone_process hlive hopen hfree hexec, hreply,
        (h.locking sid).unlocked sid⟩
    simp only [UploadChunkUseCase.process, exec_raiseIf_bind] at hrefuse
    split at hrefused
    · rename_i hlarge
      cases hrefused
      exact hrefuse (Or.inl ⟨hlarge, rfl, trivial⟩) rfl
    · rename_i hlarge
      split at hrefused
      · rename_i hsmall
        cases hrefused
        exact hrefuse (Or.inr ⟨hlarge, Or.inl ⟨hsmall, rfl, trivial⟩⟩) rfl
      · rename_i hsmall
        split at hrefused
        · rename_i hdigest
          cases hrefused
          exact hrefuse (Or.inr ⟨hlarge, Or.inr ⟨hsmall, Or.inl ⟨hdigest, rfl, trivial⟩⟩⟩) rfl
        · cases hrefused

/-- What the server does not refuse passes the checks of the use case. -/
theorem admits_of_refusal? (sid : UUID) {cs : String} {data : Bytes}
    (h : Server.refusal? (policy gateway env) t cs data = none) :
    (t.session sid).Open ∧ Admits env (t.session sid) cs data := by
  unfold Server.refusal? at h
  split at h
  · cases h
  · rename_i hfailed
    split at h
    · cases h
    · rename_i hlarge
      split at h
      · cases h
      · rename_i hsmall
        split at h
        · cases h
        · rename_i hdigest
          refine ⟨session_open.2 (by simpa using hfailed), Nat.not_lt.1 hlarge, ?_,
            not_not.1 hdigest⟩
          by_cases hmin : UploadChunkUseCase.minChunkSize ≤ data.length
          · exact Or.inl hmin
          · exact Or.inr (not_not.1 fun hne => hsmall ⟨Nat.not_le.1 hmin, hne⟩)

theorem Models.upload (h : Models env w a) (hfree : w.lock? sid = none)
    (authorization : Option String) (index : Int) (cs : String) (data : Bytes) :
    Serves env w (.uploadChunk sid index cs data)
      (HttpRequest.reply ⟨authorization, .uploadChunk sid index cs data⟩)
      (a.upload (policy gateway env) sid index cs data) := by
  have hsession := h.session? sid
  unfold Server.upload
  cases ht : a.transfer? sid with
  | none =>
      rw [ht] at hsession
      refine ⟨.error (.entityNotFoundError "UploadSession" sid), w, ?_, missing_reply sid, h⟩
      simp only [Alone, Op.prog, exec_map, UploadChunkUseCase.execute, exec_requireSession_bind]
      exact ⟨_, Or.inl ⟨hsession, rfl, trivial⟩, rfl⟩
  | some t =>
      rw [ht, Option.map_some] at hsession
      dsimp only
      cases hrefused : Server.refusal? (policy gateway env) t cs data with
      | some response => exact h.refuse hfree ht authorization index cs data hrefused
      | none =>
          rcases admits_of_refusal? sid hrefused with ⟨hopen, hadmits⟩
          have hstores : Stores env w sid cs data (t.session sid) :=
            ⟨hsession, hopen, hfree, hadmits⟩
          have hstored := h.chunkSave (transfers_of_transfer? ht) index data
          by_cases hroom : t.HasRoom data
          · -- the offset moves
            simp only [dif_pos hroom]
            refine ⟨_, _, (alone_upload hstores _).2 ⟨rfl, rfl⟩, ?_, ?_⟩
            · rw [updateOffset_session a.now hroom]
              rfl
            · rw [updateOffset_session a.now hroom]
              have hpieces : ∀ i,
                  ((a.put sid (t.keep a.now index data)).transfers sid).bind
                    (fun t => t.pieces.get i) =
                    ((t.count a.now data hroom).keep a.now index data).pieces.get i := by
                intro i
                simp [Server.put, Transfer.keep, Transfer.count]
              have hsaved := hstored.sessionSave rfl hpieces
              rw [put_put] at hsaved
              exact hsaved.unlocked sid
          · -- the chunk stays, and the route answers 500
            simp only [dif_neg hroom]
            rcases updateOffset_session_error sid hroom with ⟨msg, hraises⟩
            refine ⟨_, _, (alone_upload hstores _).2 ⟨rfl, rfl⟩, ?_, ?_⟩
            · rw [hraises]
              rfl
            · rw [hraises]
              exact hstored.unlocked sid

theorem Models.query (h : Models env w a) (authorization : Option String) (sid : UUID) :
    Serves env w (.query sid) (HttpRequest.reply ⟨authorization, .querySession sid⟩)
      (a.query sid) := by
  have hsession := h.session? sid
  unfold Server.query
  cases ht : a.transfer? sid with
  | none =>
      rw [ht] at hsession
      exact ⟨_, w, alone_query.2 ⟨rfl, Or.inl ⟨hsession, rfl⟩⟩, rfl, h⟩
  | some t =>
      rw [ht] at hsession
      exact ⟨_, w, alone_query.2 ⟨rfl, Or.inr ⟨_, hsession, rfl⟩⟩, rfl, h⟩

theorem Models.abort (h : Models env w a) (hfree : w.lock? sid = none)
    (authorization : Option String) :
    Serves env w (.abort sid) (HttpRequest.reply ⟨authorization, .abortUpload sid⟩)
      (a.abort sid) := by
  have hsession := h.session? sid
  unfold Server.abort
  cases ht : a.transfer? sid with
  | none =>
      rw [ht] at hsession
      refine ⟨.error (.entityNotFoundError "UploadSession" sid), w, ?_, missing_reply sid, h⟩
      simp only [Alone, Op.prog, exec_map, AbortUploadUseCase.execute, exec_requireSession_bind]
      exact ⟨_, Or.inl ⟨hsession, rfl, trivial⟩, rfl⟩
  | some t =>
      rw [ht, Option.map_some] at hsession
      refine ⟨.ok .aborted, _, ?_, rfl, ((h.locking sid).purge sid).unlocked sid⟩
      simp only [Alone, Op.prog, AbortUploadUseCase.execute, ChunkRepository.deleteAll,
        SessionRepository.delete, exec_map, exec_requireSession_bind, exec_acquireLock_bind,
        exec_releasing, exec_ask_bind, respond, onOk_ok, exec_ask]
      exact ⟨.ok (), Or.inr ⟨_, hsession, Or.inr ⟨hfree, _, ⟨rfl, rfl⟩, rfl⟩⟩, rfl⟩

/-- A finalize that is not ready is refused, and changes nothing. -/
theorem Models.notReady (h : Models env w a) (authorization : Option String)
    (ht : a.transfer? sid = some t) (hnot : t.failed ∨ t.received ≠ t.totalSize) :
    Serves env w (.finalize sid) (HttpRequest.reply ⟨authorization, .finalizeUpload sid⟩)
      (a.finalize (policy gateway env) sid) := by
  have hlive : w.session? sid = some (t.session sid) := by rw [h.session? sid, ht, Option.map_some]
  simp only [Server.finalize, ht]
  by_cases hfailed : t.failed
  · rw [if_pos hfailed]
    have hstatus : (t.session sid).status = .failed := by simp [Transfer.session, hfailed]
    refine ⟨.error (.validationError s!"Cannot finalize: session is in {
      (t.session sid).status.value} state"), w, ?_, by rw [hstatus]; rfl, h⟩
    simp only [Alone, Op.prog, exec_map, FinalizeUploadUseCase.execute, exec_requireSession_bind,
      exec_raiseIf_bind]
    exact ⟨_, Or.inr ⟨_, hlive, Or.inr ⟨by simp [hstatus], Or.inl ⟨by simp [hstatus], rfl,
      trivial⟩⟩⟩, rfl⟩
  · have hoffset : t.received ≠ t.totalSize := hnot.resolve_left hfailed
    rw [if_neg hfailed, if_pos hoffset]
    have hopen : (t.session sid).Open := session_open.2 (by simpa using hfailed)
    have hdone : ¬ (t.session sid).status = .completed := fun hs => hopen (by simp [hs])
    have hover : ¬ (t.session sid).status ∈ [UploadStatus.aborted, .failed] := fun hs =>
      hopen (List.mem_cons_of_mem _ hs)
    refine ⟨.error (.validationError ("Cannot finalize: not all bytes have been uploaded. " ++
      s!"Uploaded offset: {t.received}, Expected total size: {t.totalSize}")), w, ?_, rfl, h⟩
    simp only [Alone, Op.prog, exec_map, FinalizeUploadUseCase.execute, exec_requireSession_bind,
      exec_raiseIf_bind]
    exact ⟨_, Or.inr ⟨_, hlive, Or.inr ⟨hdone, Or.inr ⟨hover, Or.inl ⟨hoffset, rfl,
      trivial⟩⟩⟩⟩, rfl⟩

/-- A finalize that is ready: its scan and its assembly find the body of the transfer. -/
theorem Models.ready (h : Models env w a) (hfree : w.lock? sid = none)
    (authorization : Option String) (ht : a.transfer? sid = some t) (hfailed : t.failed = false)
    (hoffset : t.received = t.totalSize) :
    Serves env w (.finalize sid) (HttpRequest.reply ⟨authorization, .finalizeUpload sid⟩)
      (a.finalize (policy gateway env) sid) := by
  have hlive : w.session? sid = some (t.session sid) := by rw [h.session? sid, ht, Option.map_some]
  have hready : Finalizable w sid (t.session sid) :=
    ⟨hlive, session_open.2 hfailed, hoffset, hfree⟩
  have hlocking := h.locking sid
  have hrun : RunFrom ((w.locking sid).payload? sid) 0 (t.body a.now) := by
    rw [hlocking.payload? ht]
    exact t.body_run a.now
  have hstream : StreamedFrom (w.locking sid) sid 0 (t.body a.now) := streamedFrom_iff.2 hrun
  have hfetch : FetchedFrom (w.locking sid) sid 0 (t.body a.now) :=
    (fetchedFrom_iff (hlocking.paired sid)).2 hrun
  -- the failed session, as it is stored
  have hfail : ∀ {w₁ : World}, Models env w₁ a →
      Models env (RedisSessionRepository.save w₁ (t.session sid).fail)
        (a.put sid (t.fail a.now)) := by
    intro w₁ h₁
    rw [session_fail a.now]
    refine h₁.sessionSave rfl fun i => ?_
    rw [transfers_of_transfer? ht]
    rfl
  simp only [Server.finalize, ht, hfailed, Bool.false_eq_true, if_false, hoffset, ne_eq,
    not_true_eq_false]
  by_cases hmalware : ∃ data ∈ t.body a.now, LocalVirusScanner.eicarSignature <:+: data
  · rw [if_pos hmalware]
    rcases hmalware with ⟨bad, hmem, hbad⟩
    rcases LocalVirusScanner.exists_infected hstream hmem (not_not.2 hbad) with
      ⟨passed, first, hinf⟩
    refine ⟨_, _, (alone_finalize hready _).2 ⟨_, _, .infected hinf, rfl, rfl⟩, rfl, ?_⟩
    have hpurged := (hfail hlocking).purge sid
    rw [drop_put] at hpurged
    exact hpurged.unlocked sid
  · rw [if_neg hmalware]
    have hclean : ∀ data ∈ t.body a.now, CleanChunk data := by
      intro data hdata hfound
      exact hmalware ⟨data, hdata, hfound⟩
    by_cases hs3 : (policy gateway env).accepts (t.body a.now)
    · rw [if_pos hs3]
      refine ⟨_, _, (alone_finalize hready _).2 ⟨_, _, .committed hstream hclean hfetch hs3, rfl,
        rfl⟩, rfl, ?_⟩
      exact (hlocking.commit gateway sid t (t.body a.now)).unlocked sid
    · rw [if_neg hs3]
      refine ⟨_, _, (alone_finalize hready _).2 ⟨_, _, .refused hstream hclean hfetch hs3, rfl,
        rfl⟩, rfl, ?_⟩
      exact (hfail hlocking.closed).unlocked sid

theorem Models.finalize (h : Models env w a) (hfree : w.lock? sid = none)
    (authorization : Option String) :
    Serves env w (.finalize sid) (HttpRequest.reply ⟨authorization, .finalizeUpload sid⟩)
      (a.finalize (policy gateway env) sid) := by
  cases ht : a.transfer? sid with
  | none =>
      have hsession := h.session? sid
      rw [ht] at hsession
      simp only [Server.finalize, ht]
      refine ⟨.error (.entityNotFoundError "UploadSession" sid), w, ?_, missing_reply sid, h⟩
      simp only [Alone, Op.prog, exec_map, FinalizeUploadUseCase.execute, exec_requireSession_bind]
      exact ⟨_, Or.inl ⟨hsession, rfl, trivial⟩, rfl⟩
  | some t =>
      by_cases hnot : t.failed ∨ t.received ≠ t.totalSize
      · exact h.notReady authorization ht hnot
      · rw [not_or, not_not] at hnot
        exact h.ready hfree authorization ht (by simpa using hnot.1) hnot.2

/-- A request is served as by the server, and leaves the locks free. -/
theorem Models.serve (h : Models env w a) (hfree : ∀ sid, w.lock? sid = none) (gateway : Gateway)
    (request : HttpRequest)
    (hfresh : ∀ newId, request.newId? = some newId → a.transfers newId = none) :
    ∃ w', Exec (works env) (request.handler gateway env) w
        (.ok (a.serve (policy gateway env) request).1) w' ∧
      Models env w' (a.serve (policy gateway env) request).2 ∧ ∀ sid, w'.lock? sid = none := by
  have hserves : ∀ {op answer}, request.op gateway = .ok op →
      Serves env w op request.reply answer →
      ∃ w', Exec (works env) (request.handler gateway env) w (.ok answer.1) w' ∧
        Models env w' answer.2 ∧ ∀ sid, w'.lock? sid = none := by
    intro op answer hop hserves
    rcases hserves with ⟨r, w', halone, hreply, hmodels⟩
    refine ⟨w', ?_, hmodels, alone_free hfree halone⟩
    rw [handler_eq, hop, ← hreply]
    exact (exec_andThen _ _ _).2 ⟨r, w', halone, rfl, rfl⟩
  rcases request with ⟨authorization, endpoint⟩
  cases endpoint with
  | initiateUpload payload newId =>
      cases htenant : getTenantId gateway authorization with
      | error response =>
          -- the request does not get as far as the service
          simp only [Server.serve, Server.initiate, policy, htenant]
          refine ⟨w, ?_, h, hfree⟩
          rw [handler_eq]
          simp only [HttpRequest.op, htenant, Except.map]
          exact ⟨rfl, rfl⟩
      | ok tenantId =>
          exact hserves (by simp [HttpRequest.op, htenant, Except.map])
            (h.initiate authorization payload (hfresh newId rfl) htenant)
  | uploadChunk sid index cs body =>
      exact hserves rfl (h.upload (hfree sid) authorization index cs body)
  | querySession sid => exact hserves rfl (h.query authorization sid)
  | abortUpload sid => exact hserves rfl (h.abort (hfree sid) authorization)
  | finalizeUpload sid => exact hserves rfl (h.finalize (hfree sid) authorization)

end Requests

/-! ## Whole runs -/

section Runs

variable {env : Env} {w : World} {a : Server}

theorem httpService_deterministic (gateway : Gateway) (env : Env) :
    (httpService gateway env).Deterministic := by
  intro w op response response' w₁ w₂ h₁ h₂
  have hworks : ∀ (c : Call) (w : World) r₁ w₁ r₂ w₂, works env c w r₁ w₁ → works env c w r₂ w₂ →
      r₁ = r₂ ∧ w₁ = w₂ :=
    fun c w r₁ w₁ r₂ w₂ h₁ h₂ => ⟨h₁.1.trans h₂.1.symm, h₁.2.trans h₂.2.symm⟩
  rcases Exec.unique hworks h₁ h₂ with ⟨hsame, hworld⟩
  exact ⟨Except.ok.inj hsame, hworld⟩

/-- The service serves whatever comes, as the server does. -/
theorem Models.run (h : Models env w a) (hfree : ∀ sid, w.lock? sid = none) (gateway : Gateway)
    (requests : List (Nat × HttpRequest))
    (hfresh : ∀ op ∈ requests, ∀ newId, op.2.newId? = some newId → a.transfers newId = none)
    (hids : (requests.filterMap fun op => op.2.newId?).Nodup) :
    ∃ w', (httpService gateway env).Run w requests
        (a.serveAll (policy gateway env) requests).1 w' ∧
      Models env w' (a.serveAll (policy gateway env) requests).2 := by
  induction requests generalizing w a with
  | nil => exact ⟨w, .nil, h⟩
  | cons op requests ih =>
      rcases op with ⟨d, request⟩
      have hlater : ∀ sid, (w.advance d).lock? sid = none := fun sid =>
        w.locks.get_none_later (Nat.le_add_right w.now d) (hfree sid)
      rcases (h.advance d).serve hlater gateway request
        (hfresh (d, request) List.mem_cons_self) with ⟨w₁, hexec, hmodels, hfree₁⟩
      have hrest : (requests.filterMap fun op => op.2.newId?).Nodup := by
        rw [List.filterMap_cons] at hids
        split at hids
        · exact hids
        · exact (List.nodup_cons.1 hids).2
      -- ids that are still to come are not in use yet
      have hfresh₁ : ∀ op ∈ requests, ∀ newId, op.2.newId? = some newId →
          ((a.wait d).serve (policy gateway env) request).2.transfers newId = none := by
        intro op hop newId hid
        have hunused : (a.wait d).transfers newId = none :=
          hfresh op (List.mem_cons_of_mem _ hop) newId hid
        refine Server.serve_transfers _ _ _ ?_ hunused
        intro hsame
        have hcons : (newId :: requests.filterMap fun op => op.2.newId?).Nodup := by
          simpa [List.filterMap_cons, hsame] using hids
        exact (List.nodup_cons.1 hcons).1 (List.mem_filterMap.2 ⟨op, hop, hid⟩)
      rcases ih hmodels hfree₁ hfresh₁ hrest with ⟨w', hrun, hend⟩
      exact ⟨w', .cons hexec hrun, hend⟩

/-- The service, with every call going through and each request ending before the next one
comes, gives exactly the answers of the server, whatever time passes in between; and what it
has stored in the end is what the server has then. -/
theorem service_is_server (gateway : Gateway) (env : Env) (now : Nat)
    {requests : List (Nat × HttpRequest)}
    (hids : (requests.filterMap fun op => op.2.newId?).Nodup) (responses : List HttpResponse) :
    ((∃ w, (httpService gateway env).Run (World.empty now) requests responses w) ↔
      responses = ((Server.empty now).serveAll (policy gateway env) requests).1) ∧
    ∀ w, (httpService gateway env).Run (World.empty now) requests responses w →
      Models env w ((Server.empty now).serveAll (policy gateway env) requests).2 := by
  rcases (models_empty env now).run (fun _ => rfl) gateway requests
    (fun _ _ _ _ => rfl) hids with ⟨w', hrun, hmodels⟩
  -- the service has no other run
  have hunique : ∀ {responses w}, (httpService gateway env).Run (World.empty now) requests
      responses w → responses = ((Server.empty now).serveAll (policy gateway env) requests).1 ∧
        w = w' :=
    fun hother => (httpService_deterministic gateway env).run hother hrun
  constructor
  · constructor
    · intro h
      rcases h with ⟨w, hother⟩
      exact (hunique hother).1
    · intro h
      rw [h]
      exact ⟨w', hrun⟩
  · intro w hother
    rw [(hunique hother).2]
    exact hmodels

end Runs

/-! ## A file, and the same file again -/

namespace Demo

/-- A file of one byte. -/
def payload : InitiateUploadRequest where
  fileId := file
  totalSize := 1
  checksum := sha256 a
  totalSize_pos := by decide
  totalSize_le := by decide
  checksum_length := by decide +kernel

def fromTenant (endpoint : Endpoint) : HttpRequest := ⟨some ("Bearer " ++ tenant.str), endpoint⟩

/-- The file is uploaded, finalized after an hour, and announced again a month later. -/
def visit : List (Nat × HttpRequest) :=
  [(0, fromTenant (.initiateUpload payload sid)),
    (1000, fromTenant (.uploadChunk sid 0 (sha256 a) a)),
    (3600000, fromTenant (.finalizeUpload sid)), (2592000000, fromTenant (.querySession sid)),
    (0, fromTenant (.initiateUpload payload ⟨4⟩))]

def replies : List HttpResponse :=
  [⟨201, .initiated (some sid) none false⟩, ⟨200, .progress 1 "completed"⟩,
    ⟨200, .finalized registeredUri⟩, ⟨404, .detail s!"UploadSession with id {sid.str} not found."⟩,
    ⟨200, .initiated none (some registeredUri) true⟩]

end Demo

theorem service_is_server_demo : ∃ w,
    (httpService Demo.gateway Demo.env).Run (World.empty 0) Demo.visit Demo.replies w ∧
      w.objects Demo.key = some Demo.a := by
  have hanswers : Demo.replies =
      ((Server.empty 0).serveAll (policy Demo.gateway Demo.env) Demo.visit).1 := by
    decide +kernel
  have hids : (Demo.visit.filterMap fun op => op.2.newId?).Nodup := by decide
  have hserver := service_is_server Demo.gateway Demo.env 0 hids Demo.replies
  rcases hserver.1.2 hanswers with ⟨w, hrun⟩
  refine ⟨w, hrun, ((hserver.2 w hrun).object Demo.tenant Demo.file).trans ?_⟩
  decide +kernel

end FileUploader
