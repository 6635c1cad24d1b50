import FileUploader.Footprint
import FileUploader.Serial

/-! # The order of uploads

Uploads with different indices can be accepted in one order and refused in another. Where
two orders are both accepted throughout, what they leave is the same: it is given in closed
form by the set of the uploads. A finalize only sees the session it is about, and so commits
the same object after either of them.
-/

namespace FileUploader

open Await Prog

variable {env : Env}

/-! ## Worlds that are alike for one session -/

/-- The session, its lock and its chunks read alike, and S3 holds the same. -/
structure Alike (sid : UUID) (w w' : World) : Prop where
  keys : SameKeys sid w w'
  lock : w'.lock? sid = w.lock? sid
  objects : w'.objects = w.objects
  uploads : w'.uploads = w.uploads
  nextUploadId : w'.nextUploadId = w.nextUploadId

/-- A call of a request that is about session `sid`, other than to the dedup registry. -/
def Call.OnSession (sid : UUID) : Call → Prop
  | .acquireLock sid' ttl => sid' = sid ∧ 0 < ttl
  | .sessionGet sid' | .sessionDelete sid' | .releaseLock sid'
  | .chunkSave sid' _ | .chunkGet sid' _ | .chunkPull sid' _ | .deleteAll sid' => sid' = sid
  | .getByChecksum _ _ => False
  | _ => True

section Alike

variable {sid : UUID} {w w' : World}

theorem session?_save (w : World) (v : UploadSession) (sid : UUID) :
    (RedisSessionRepository.save w v).session? sid =
      if v.sessionId = sid then some v else w.session? sid := by
  split
  · exact session?_save_self ‹_›
  · exact session?_save_ne ‹_›

theorem SameKeys.chunkGet (h : SameKeys sid w w') (i : Int) :
    RedisChunkRepository.get w' sid i = RedisChunkRepository.get w sid i := by
  simp only [RedisChunkRepository.get, h.chunk i, h.chunkMeta i]

theorem SameKeys.chunkSave (h : SameKeys sid w w') (chunk : Chunk) : SameKeys sid
    (RedisChunkRepository.save w sid chunk) (RedisChunkRepository.save w' sid chunk) := by
  have hlive : ∀ now : Nat, ∀ d ∈ some (now + RedisChunkRepository.ttl * 1000), now < d := by
    intro now d hd
    cases hd
    simp [RedisChunkRepository.ttl]
  refine ⟨h.session, fun i => ?_, fun i => ?_⟩
  · have hi := h.chunk i
    unfold World.chunk? at hi ⊢
    simp only [RedisChunkRepository.save, World.deadline, ExpiringMap.get_set _ _ _ _ (hlive _), hi]
  · have hi := h.chunkMeta i
    unfold World.chunkMeta? at hi ⊢
    simp only [RedisChunkRepository.save, World.deadline, ExpiringMap.get_set _ _ _ _ (hlive _), hi]

theorem SameKeys.deleteAll (h : SameKeys sid w w') : SameKeys sid
    (RedisChunkRepository.deleteAll w sid) (RedisChunkRepository.deleteAll w' sid) := by
  refine ⟨h.session, fun i => ?_, fun i => ?_⟩
  · exact (w'.chunks.get_eraseAll w'.now (sid, i) _).trans
      ((w.chunks.get_eraseAll w.now (sid, i) _).trans (by simp)).symm
  · exact (w'.chunkMetas.get_eraseAll w'.now (sid, i) _).trans
      ((w.chunkMetas.get_eraseAll w.now (sid, i) _).trans (by simp)).symm

theorem lock?_set (w : World) (sid : UUID) {ttl : Nat} (hpos : 0 < ttl) :
    ({ w with locks := w.locks.set sid "locked" (w.deadline ttl) } : World).lock? sid =
      some "locked" :=
  w.locks.get_set_self w.now sid _ (by omega)

/-- The lock is asked for in the same state. -/
theorem Alike.acquireLock (h : Alike sid w w') {ttl : Nat} (hpos : 0 < ttl) :
    (RedisSessionRepository.acquireLock w' sid ttl).1 =
        (RedisSessionRepository.acquireLock w sid ttl).1 ∧
      Alike sid (RedisSessionRepository.acquireLock w sid ttl).2
        (RedisSessionRepository.acquireLock w' sid ttl).2 := by
  rcases RedisSessionRepository.acquireLock_cases w sid ttl with ⟨v, hv, hres⟩ | ⟨hfree, hres⟩
  · have hres' : RedisSessionRepository.acquireLock w' sid ttl = (false, w') := by
      simp only [RedisSessionRepository.acquireLock, h.lock, hv]
    rw [hres, hres']
    exact ⟨rfl, h⟩
  · have hres' : RedisSessionRepository.acquireLock w' sid ttl =
        (true, { w' with locks := w'.locks.set sid "locked" (w'.deadline ttl) }) := by
      simp only [RedisSessionRepository.acquireLock, h.lock, hfree]
    rw [hres, hres']
    refine ⟨rfl, ⟨h.keys.session, h.keys.chunk, h.keys.chunkMeta⟩, ?_, h.objects, h.uploads,
      h.nextUploadId⟩
    rw [lock?_set w sid hpos, lock?_set w' sid hpos]

/-- What S3 has open decides its answers. -/
theorem Alike.uploadPart (env : Env) (h : Alike sid w w') (t f : UUID) (u n : Nat) (data : Bytes) :
    (S3ObjectStorage.uploadPart env w' t f u n data).1 =
        (S3ObjectStorage.uploadPart env w t f u n data).1 ∧
      Alike sid (S3ObjectStorage.uploadPart env w t f u n data).2
        (S3ObjectStorage.uploadPart env w' t f u n data).2 := by
  unfold S3ObjectStorage.uploadPart
  rw [h.uploads]
  cases w.uploads u with
  | none => exact ⟨rfl, h⟩
  | some upload =>
      by_cases hkey : upload.key = S3ObjectStorage.objectKey t f
      · simp only [hkey, if_true]
        exact ⟨trivial, ⟨h.keys.session, h.keys.chunk, h.keys.chunkMeta⟩, h.lock, h.objects, rfl,
          h.nextUploadId⟩
      · simp only [hkey, if_false]
        exact ⟨trivial, h⟩

theorem Alike.complete (env : Env) (h : Alike sid w w') (t f : UUID) (u : Nat)
    (parts : List Part) :
    (S3ObjectStorage.completeMultipartUpload env w' t f u parts).1 =
        (S3ObjectStorage.completeMultipartUpload env w t f u parts).1 ∧
      Alike sid (S3ObjectStorage.completeMultipartUpload env w t f u parts).2
        (S3ObjectStorage.completeMultipartUpload env w' t f u parts).2 := by
  simp only [S3ObjectStorage.completeMultipartUpload]
  rw [h.uploads]
  cases w.uploads u with
  | none => exact ⟨rfl, h⟩
  | some upload =>
      by_cases hkey : upload.key = S3ObjectStorage.objectKey t f
      · simp only [hkey, if_true]
        cases S3ObjectStorage.payloads env upload (S3ObjectStorage.sortedParts parts) with
        | none => exact ⟨rfl, h⟩
        | some datas =>
            by_cases hacc : env.s3Accepts
                ((S3ObjectStorage.sortedParts parts).map (·.partNumber)) datas = true
            · simp only [hacc, if_true]
              exact ⟨trivial, ⟨h.keys.session, h.keys.chunk, h.keys.chunkMeta⟩, h.lock,
                by simp only [h.objects], rfl, h.nextUploadId⟩
            · simp only [hacc]
              exact ⟨rfl, h⟩
      · simp only [hkey, if_false]
        exact ⟨trivial, h⟩

/-- Calls on the session are answered alike, and leave the worlds alike. -/
theorem Alike.respond (env : Env) {c : Call} (hc : c.OnSession sid) (h : Alike sid w w') :
    (respond env c w').1 = (respond env c w).1 ∧
      Alike sid (respond env c w).2 (respond env c w').2 := by
  -- most calls change one of the things that are compared
  have hkeys : ∀ {u u' : World}, SameKeys sid u u' → u.lock? sid = w.lock? sid →
      u'.lock? sid = w'.lock? sid → u.objects = w.objects → u'.objects = w'.objects →
      u.uploads = w.uploads → u'.uploads = w'.uploads → u.nextUploadId = w.nextUploadId →
      u'.nextUploadId = w'.nextUploadId → Alike sid u u' := by
    intro u u' hsame hl hl' ho ho' hu hu' hn hn'
    exact ⟨hsame, by rw [hl, hl', h.lock], by rw [ho, ho', h.objects], by rw [hu, hu', h.uploads],
      by rw [hn, hn', h.nextUploadId]⟩
  cases c with
  | sessionGet sid' =>
      cases hc
      exact ⟨congrArg Except.ok h.keys.session, h⟩
  | sessionSave v =>
      refine ⟨rfl, hkeys ⟨?_, h.keys.chunk, h.keys.chunkMeta⟩ rfl rfl rfl rfl rfl rfl rfl rfl⟩
      simp only [FileUploader.respond, session?_save, h.keys.session]
  | sessionDelete sid' =>
      cases hc
      refine ⟨rfl, hkeys ⟨?_, h.keys.chunk, h.keys.chunkMeta⟩ rfl rfl rfl rfl rfl rfl rfl rfl⟩
      exact (w'.sessions.get_erase_self w'.now sid).trans
        (w.sessions.get_erase_self w.now sid).symm
  | acquireLock sid' ttl =>
      cases hc.1
      have hlock := h.acquireLock hc.2
      exact ⟨congrArg Except.ok hlock.1, hlock.2⟩
  | releaseLock sid' =>
      cases hc
      refine ⟨rfl, ⟨h.keys.session, h.keys.chunk, h.keys.chunkMeta⟩, ?_, h.objects, h.uploads,
        h.nextUploadId⟩
      exact (w'.locks.get_erase_self w'.now sid).trans (w.locks.get_erase_self w.now sid).symm
  | chunkSave sid' chunk =>
      cases hc
      exact ⟨rfl, hkeys (h.keys.chunkSave chunk) rfl rfl rfl rfl rfl rfl rfl rfl⟩
  | chunkGet sid' index =>
      cases hc
      exact ⟨congrArg Except.ok (h.keys.chunkGet index), h⟩
  | chunkPull sid' index =>
      cases hc
      exact ⟨congrArg Except.ok (h.keys.chunk index), h⟩
  | deleteAll sid' =>
      cases hc
      exact ⟨rfl, hkeys h.keys.deleteAll rfl rfl rfl rfl rfl rfl rfl rfl⟩
  -- the registry is not compared, and not asked about a session
  | getByChecksum t cs => exact hc.elim
  | registerFile t f uri size cs =>
      exact ⟨rfl, hkeys ⟨h.keys.session, h.keys.chunk, h.keys.chunkMeta⟩
        rfl rfl rfl rfl rfl rfl rfl rfl⟩
  | initiateMultipartUpload t f =>
      refine ⟨congrArg Except.ok h.nextUploadId,
        ⟨h.keys.session, h.keys.chunk, h.keys.chunkMeta⟩, h.lock, h.objects, ?_, ?_⟩
      · simp only [FileUploader.respond, S3ObjectStorage.initiateMultipartUpload, h.nextUploadId,
          h.uploads]
      · simp only [FileUploader.respond, S3ObjectStorage.initiateMultipartUpload, h.nextUploadId]
  | uploadPart t f u n data => exact h.uploadPart env t f u n data
  | completeMultipartUpload t f u parts => exact h.complete env t f u parts
  | abortMultipartUpload t f u =>
      refine ⟨rfl, ⟨h.keys.session, h.keys.chunk, h.keys.chunkMeta⟩, h.lock, h.objects, ?_,
        h.nextUploadId⟩
      simp only [FileUploader.respond, S3ObjectStorage.abortMultipartUpload, h.uploads]
  | publishFileUploadCompleted event =>
      exact ⟨rfl, hkeys ⟨h.keys.session, h.keys.chunk, h.keys.chunkMeta⟩
        rfl rfl rfl rfl rfl rfl rfl rfl⟩

end Alike

/-! ## Uploads in some order -/

/-- An upload to a session: `chunk_index`, `checksum` and `data` of the request. -/
structure ChunkUpload where
  index : Int
  checksum : String
  data : Bytes

def ChunkUpload.op (sid : UUID) (q : ChunkUpload) : Op :=
  .uploadChunk sid q.index q.checksum q.data

/-- The bytes of these uploads. -/
def bytesOf (reqs : List ChunkUpload) : Nat := (reqs.map fun q => q.data.length).sum

/-- The session after `n` more bytes. -/
def UploadSession.advanced (v : UploadSession) (n : Nat) : UploadSession :=
  { v with
    currentOffset := v.currentOffset + n
    status := if 0 < n ∧ v.currentOffset + n > 0 ∧ v.status = .initiated then .uploading
      else v.status }

/-- What these uploads have made of session `sid`, which was `v`, and of its chunks. -/
structure Collected (env : Env) (sid : UUID) (v : UploadSession) (reqs : List ChunkUpload)
    (w w' : World) : Prop where
  session : w'.session? sid = some (v.advanced (bytesOf reqs))
  stored : ∀ q ∈ reqs, w'.chunk? sid q.index = some q.data ∧
    w'.chunkMeta? sid q.index = some ⟨env.sha256 q.data, q.data.length⟩
  rest : ∀ i, (∀ q ∈ reqs, q.index ≠ i) → w'.chunk? sid i = w.chunk? sid i ∧
    w'.chunkMeta? sid i = w.chunkMeta? sid i
  lock : w'.lock? sid = w.lock? sid
  objects : w'.objects = w.objects
  uploads : w'.uploads = w.uploads
  nextUploadId : w'.nextUploadId = w.nextUploadId

section Order

variable {sid : UUID} {v v' : UploadSession} {w w₁ w₂ : World} {reqs reqs₁ reqs₂ : List ChunkUpload}
  {q : ChunkUpload}

@[simp] theorem bytesOf_append : bytesOf (reqs ++ [q]) = bytesOf reqs + q.data.length := by
  simp [bytesOf]

/-- Moving the offset further is moving it at once. -/
theorem updateOffset_advanced {n m : Nat} (h : (v.advanced n).updateOffset m = .ok v') :
    v' = v.advanced (n + m) := by
  have hoffset : v.currentOffset + (n : Int) + m = v.currentOffset + (n + m : Nat) := by omega
  unfold UploadSession.updateOffset at h
  split at h
  · cases h
  · split at h
    · cases h
    · rename_i hpos _
      cases h
      simp only [UploadSession.advanced, hoffset, UploadSession.mk.injEq, true_and]
      by_cases hbefore : 0 < n ∧ v.currentOffset + n > 0 ∧ v.status = .initiated
      · rw [if_pos hbefore, if_neg (fun h => nomatch h.2),
          if_pos ⟨by omega, by omega, hbefore.2.2⟩]
      · rw [if_neg hbefore]
        refine if_congr ?_ rfl rfl
        exact ⟨fun h => ⟨by omega, h⟩, fun h => h.2⟩

/-- What an accepted upload does in such a state. -/
theorem Collected.next {r : Except Exn Response} (hid : v.sessionId = sid)
    (h : Collected env sid v reqs w w₁) (hnew : ∀ q' ∈ reqs, q'.index ≠ q.index)
    (halone : Alone env (q.op sid) w₁ r w₂) (hok : ∃ a, r = .ok a) :
    Collected env sid v (reqs ++ [q]) w w₂ := by
  -- an accepted upload has been stored
  by_cases hstores : ∃ v₁, Stores env w₁ sid q.checksum q.data v₁
  · rcases hstores with ⟨v₁, hstores⟩
    cases hstores.live.symm.trans h.session
    have hworld := ((alone_upload hstores r).1 halone).2
    have hid₁ : (v.advanced (bytesOf reqs)).sessionId = sid := hid
    rcases upload_stored hid₁ hstores halone with ⟨rfl, hchunk, ⟨v', hmove, hsession⟩ |
      ⟨⟨x, hmove⟩, _⟩⟩
    · rw [hmove] at hworld
      subst hworld
      refine ⟨?_, fun q' hq' => ?_, fun i hi => ?_, ?_, h.objects, h.uploads, h.nextUploadId⟩
      · rw [bytesOf_append, ← updateOffset_advanced hmove]
        exact hsession
      · rw [hchunk.chunk, hchunk.chunkMeta]
        rcases List.mem_append.1 hq' with hq' | hq'
        · rw [if_neg (hnew q' hq'), if_neg (hnew q' hq')]
          exact h.stored q' hq'
        · rw [List.mem_singleton.1 hq', if_pos rfl, if_pos rfl]
          exact ⟨rfl, rfl⟩
      · have hne : ¬ i = q.index := fun hs => hi q (by simp) hs.symm
        rw [hchunk.chunk, hchunk.chunkMeta, if_neg hne, if_neg hne]
        exact h.rest i fun q' hq' => hi q' (List.mem_append_left _ hq')
      · rw [← h.lock, hstores.free]
        exact ExpiringMap.get_erase_self _ _ sid
    · rw [hmove] at hok
      rcases hok with ⟨a, ha⟩
      cases ha
  · rcases upload_refused halone (fun v₁ hv => hstores ⟨v₁, hv⟩) with ⟨_, x, hx⟩
    rcases hok with ⟨a, ha⟩
    cases hx.symm.trans ha

theorem Collected.wait {d : Nat} (h : Collected env sid v reqs w w₁) (hlasts : Lasts w₁ d) :
    Collected env sid v reqs w (w₁.advance d) := by
  rcases hlasts sid with ⟨hsession, hlock, hchunks⟩
  refine ⟨hsession.trans h.session, fun q hq => ?_, fun i hi => ?_, hlock.trans h.lock,
    h.objects, h.uploads, h.nextUploadId⟩
  · rw [(hchunks _).1, (hchunks _).2]
    exact h.stored q hq
  · rw [(hchunks _).1, (hchunks _).2]
    exact h.rest i hi

theorem advanced_open {n : Nat} (h : v.Open) : (v.advanced n).Open := by
  unfold UploadSession.Open UploadSession.advanced at *
  simp only
  split
  · decide
  · exact h

/-- An upload that passes the checks in such a state. -/
theorem Collected.accepts (h : Collected env sid v reqs w w₁) (hopen : v.Open)
    (hfree : w.lock? sid = none)
    (hadmits : Admits env (v.advanced (bytesOf reqs)) q.checksum q.data)
    (hpos : 0 < q.data.length)
    (hfits : v.currentOffset + bytesOf reqs + q.data.length ≤ v.totalSize) :
    ∃ a w₂, Alone env (q.op sid) w₁ (.ok a) w₂ := by
  have hstores : Stores env w₁ sid q.checksum q.data (v.advanced (bytesOf reqs)) :=
    ⟨h.session, advanced_open hopen, h.lock.trans hfree, hadmits⟩
  have hroom : 0 < (q.data.length : Int) := by omega
  have hmove : ∃ v', (v.advanced (bytesOf reqs)).updateOffset q.data.length = .ok v' :=
    UploadSession.updateOffset_fits hroom hfits
  rcases hmove with ⟨v', hmove⟩
  refine ⟨.uploaded v', _, (alone_upload hstores _).2 ⟨?_, rfl⟩⟩
  rw [hmove]
  rfl

end Order

namespace Demo

end Demo

end FileUploader
