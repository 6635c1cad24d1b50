import FileUploader.AloneFinalize

/-! # Requests one after the other

Runs in which no two requests overlap, every call goes through and nothing expires.
What one request can do to the keys of one session is said once, in `Effect`; the
results about such runs are case analyses over it.
-/

namespace FileUploader

open Await

variable {env : Env}

/-- Nothing that is stored expires in the next `d` milliseconds. -/
def Lasts (w : World) (d : Nat) : Prop := ∀ sid,
  (w.advance d).session? sid = w.session? sid ∧ (w.advance d).lock? sid = w.lock? sid ∧
    ∀ i, (w.advance d).chunk? sid i = w.chunk? sid i ∧
      (w.advance d).chunkMeta? sid i = w.chunkMeta? sid i

/-- A request that has been served, and what it has returned or raised. -/
abbrev Served := Op × Except Exn Response

/-- `uuid4()` gives an id that no initiate has been given before. -/
def FreshId (served : List Served) (op : Op) : Prop :=
  ∀ newId, op.newId? = some newId → ∀ d ∈ served, d.1.newId? ≠ some newId

/-- Runs from `w₀` of requests that do not overlap, each satisfying `G` in the world
that it finds. -/
inductive Serial (env : Env) (G : World → Op → Prop) (w₀ : World) : List Served → World → Prop where
  | start : Serial env G w₀ [] w₀
  | serve {served : List Served} {w w' : World} {op : Op} {r : Except Exn Response} :
      Serial env G w₀ served w → G w op → FreshId served op → Alone env op w r w' →
      Serial env G w₀ (served ++ [(op, r)]) w'
  | wait {served : List Served} {w : World} {d : Nat} :
      Serial env G w₀ served w → Lasts w d → Serial env G w₀ served (w.advance d)

/-- A request that runs alone is a run of the service, at the end of which it has ended. -/
theorem reach_alone {G : Run env → Label (service env) → Prop} {c₀ c : Run env} {op : Op}
    {r : Except Exn Response} {w' : World} (hc : Reach G c₀ c) (hspawn : G c (.spawn op))
    (hunroll : ∀ c i, G c (.unroll i)) (hcall : ∀ c i, G c (.call i .works))
    (h : Alone env op c.world r w') : ∃ c', Reach G c₀ c' ∧ c'.world = w' ∧
      c'.requests = c.requests ++ [⟨op, .done r⟩] := by
  have hstart : Reach G c₀ (c.spawn op) := .step hc hspawn rfl
  have hexec : Exec ((service env).answers (fun out _ => out = .works)) (op.prog env)
      (c.spawn op).world r w' := Exec.mono (fun cl w r w' hr => ⟨.works, rfl, hr⟩) h
  have hlast : (c.spawn op).requests[c.requests.length]? =
      some ⟨op, (op.prog env).andThen .done⟩ := by
    simp [Config.spawn]
  rcases exec_reach (fun c => hunroll c _)
    (fun c out cl _ hout => by rw [hout]; exact hcall c _) (op.prog env) .done hexec hstart rfl
    hlast with ⟨c', hc', hreq', hw'⟩
  refine ⟨c', hc', hw', ?_⟩
  rw [hreq', Config.spawn]
  simp

/-- Requests one after the other are a run of the service, in which each of them has
ended before the next one starts. -/
theorem Serial.reach {G : World → Op → Prop} {w₀ w : World} {served : List Served}
    (h : Serial env G w₀ served w) :
    ∃ c : Run env, Reach (fun c l => freshIds c l ∧ noFaults l) (Config.start w₀) c ∧
      c.world = w ∧ c.requests = served.map fun d => ⟨d.1, .done d.2⟩ := by
  induction h with
  | start => exact ⟨Config.start w₀, .start, rfl, rfl⟩
  | @serve served w w' op r _ _ hfresh halone ih =>
      rcases ih with ⟨c, hc, rfl, hreq⟩
      have hspawn : freshIds c (.spawn op) = true := by
        simp only [freshIds, Option.all_eq_true, List.all_eq_true, decide_eq_true_eq]
        intro newId hid op' hop'
        rw [Config.ops, hreq, List.map_map] at hop'
        rcases List.mem_map.1 hop' with ⟨d, hd, rfl⟩
        exact hfresh newId hid d hd
      rcases reach_alone hc ⟨hspawn, rfl⟩ (fun _ _ => ⟨rfl, rfl⟩) (fun _ _ => ⟨rfl, rfl⟩)
        halone with
        ⟨c', hc', hw', hreq'⟩
      refine ⟨c', hc', hw', ?_⟩
      rw [hreq', hreq]
      simp
  | @wait served w d _ _ ih =>
      rcases ih with ⟨c, hc, rfl, hreq⟩
      exact ⟨_, .step hc ⟨rfl, rfl⟩ (l := .move d) rfl, rfl, hreq⟩

/-! ## What a request does to the keys of a session -/

/-- The session and its chunks read as before. -/
structure SameKeys (sid : UUID) (w w' : World) : Prop where
  session : w'.session? sid = w.session? sid
  chunk : ∀ i, w'.chunk? sid i = w.chunk? sid i
  chunkMeta : ∀ i, w'.chunkMeta? sid i = w.chunkMeta? sid i

/-- The chunk at `index` has been stored. -/
structure ChunkStored (env : Env) (sid : UUID) (index : Int) (data : Bytes) (w w' : World) :
    Prop where
  chunk : ∀ i, w'.chunk? sid i = if i = index then some data else w.chunk? sid i
  chunkMeta : ∀ i, w'.chunkMeta? sid i =
    if i = index then some ⟨env.sha256 data, data.length⟩ else w.chunkMeta? sid i

/-- The session and its chunks are gone. -/
structure Gone (sid : UUID) (w : World) : Prop where
  session : w.session? sid = none
  chunk : ∀ i, w.chunk? sid i = none
  chunkMeta : ∀ i, w.chunkMeta? sid i = none

/-- What a request that runs alone does to the keys of session `sid`. -/
inductive Effect (env : Env) (sid : UUID) (w : World) :
    Op → Except Exn Response → World → Prop where
  | untouched {op : Op} {r : Except Exn Response} {w' : World} (hsame : SameKeys sid w w')
      (hupload : ∀ index cs data, op = .uploadChunk sid index cs data → ∃ x, r = .error x) :
      Effect env sid w op r w'
  | created {t f : UUID} {size : Int} {cs : String} {r : Except Exn Response} {w' : World}
      (hsession : w'.session? sid = some (newSession sid t f size cs))
      (hchunk : ∀ i, w'.chunk? sid i = w.chunk? sid i)
      (hmeta : ∀ i, w'.chunkMeta? sid i = w.chunkMeta? sid i) :
      Effect env sid w (.initiate sid t f size cs) r w'
  | stored {index : Int} {cs : String} {data : Bytes} {v : UploadSession} {x : Exn} {w' : World}
      (hstores : Stores env w sid cs data v) (hrefused : v.updateOffset data.length = .error x)
      (hsession : w'.session? sid = some v) (hchunk : ChunkStored env sid index data w w') :
      Effect env sid w (.uploadChunk sid index cs data) (.error x) w'
  | moved {index : Int} {cs : String} {data : Bytes} {v v' : UploadSession} {w' : World}
      (hstores : Stores env w sid cs data v) (haccepted : v.updateOffset data.length = .ok v')
      (hsession : w'.session? sid = some v') (hchunk : ChunkStored env sid index data w w') :
      Effect env sid w (.uploadChunk sid index cs data) (.ok (.uploaded v')) w'
  | failed {v : UploadSession} {x : Exn} {w' : World} (hfinalizable : Finalizable w sid v)
      (hsession : w'.session? sid = some v.fail)
      (hchunk : ∀ i, w'.chunk? sid i = w.chunk? sid i)
      (hmeta : ∀ i, w'.chunkMeta? sid i = w.chunkMeta? sid i) :
      Effect env sid w (.finalize sid) (.error x) w'
  | gone {op : Op} {r : Except Exn Response} {w' : World}
      (hop : op = .finalize sid ∨ op = .abort sid)
      (hgone : Gone sid w') : Effect env sid w op r w'

section Keys

variable {w w' : World} {sid : UUID} {index : Int} {data : Bytes}

theorem SameKeys.refl (sid : UUID) (w : World) : SameKeys sid w w :=
  ⟨rfl, fun _ => rfl, fun _ => rfl⟩

/-- A chunk that is saved is cached under its index, and no other one is touched. -/
theorem chunkSave_self : ChunkStored env sid index data w
    (RedisChunkRepository.save w sid (chunkOf env index data)) := by
  have hlive : w.now < w.now + RedisChunkRepository.ttl * 1000 := by
    simp [RedisChunkRepository.ttl]
  refine ⟨fun i => ?_, fun i => ?_⟩
  · by_cases hi : i = index
    · subst hi
      rw [if_pos rfl]
      exact w.chunks.get_set_self w.now _ _ hlive
    · rw [if_neg hi]
      exact w.chunks.get_set_ne w.now _ _ _ (fun h => hi (Prod.mk.inj h).2)
  · by_cases hi : i = index
    · subst hi
      rw [if_pos rfl]
      exact w.chunkMetas.get_set_self w.now _ _ hlive
    · rw [if_neg hi]
      exact w.chunkMetas.get_set_ne w.now _ _ _ (fun h => hi (Prod.mk.inj h).2)

theorem session?_save_self {v : UploadSession} (h : v.sessionId = sid) :
    (RedisSessionRepository.save w v).session? sid = some v := by
  subst h
  exact w.sessions.get_set_self w.now _ v (by simp [RedisSessionRepository.ttl])

theorem session?_save_ne {v : UploadSession} (h : v.sessionId ≠ sid) :
    (RedisSessionRepository.save w v).session? sid = w.session? sid :=
  w.sessions.get_set_ne w.now _ v _ (fun hs => h hs.symm)

/-- Nothing of a session is left when its chunks and then the session are deleted. -/
theorem gone_purge (sid : UUID) (w : World) :
    Gone sid (RedisSessionRepository.delete (RedisChunkRepository.deleteAll w sid) sid) := by
  refine ⟨w.sessions.get_erase_self w.now sid, fun i => ?_, fun i => ?_⟩
  · exact (w.chunks.get_eraseAll w.now (sid, i) _).trans (by simp)
  · exact (w.chunkMetas.get_eraseAll w.now (sid, i) _).trans (by simp)

/-- Other sessions keep all of their keys. -/
theorem sameKeys_purge {sid' : UUID} (h : sid' ≠ sid) (w : World) : SameKeys sid w
    (RedisSessionRepository.delete (RedisChunkRepository.deleteAll w sid') sid') := by
  have hne : ¬ sid = sid' := fun hs => h hs.symm
  refine ⟨w.sessions.get_erase_ne w.now sid' hne, fun i => ?_, fun i => ?_⟩
  · exact (w.chunks.get_eraseAll w.now (sid, i) _).trans (by simp [hne, World.chunk?])
  · exact (w.chunkMetas.get_eraseAll w.now (sid, i) _).trans (by simp [hne, World.chunkMeta?])

theorem sameKeys_chunkSave {sid' : UUID} (h : sid' ≠ sid) (chunk : Chunk) (w : World) :
    SameKeys sid w (RedisChunkRepository.save w sid' chunk) := by
  have hne : ∀ i, ¬ ((sid, i) : UUID × Int) = (sid', chunk.index) := fun i hs =>
    h (Prod.mk.inj hs).1.symm
  exact ⟨rfl, fun i => w.chunks.get_set_ne w.now _ _ _ (hne i),
    fun i => w.chunkMetas.get_set_ne w.now _ _ _ (hne i)⟩

end Keys

/-- Sessions are stored under their own ids. -/
def Keyed (w : World) : Prop := ∀ sid v, w.session? sid = some v → v.sessionId = sid

section Effects

variable {w w' : World} {op : Op} {r : Except Exn Response}

/-- An upload that gets as far as the chunk store leaves its chunk there, and the
session with the offset moved, or as it was. -/
theorem upload_stored {sid : UUID} {index : Int} {cs : String} {data : Bytes}
    {v : UploadSession} (hid : v.sessionId = sid) (hstores : Stores env w sid cs data v)
    (h : Alone env (.uploadChunk sid index cs data) w r w') :
    r = (v.updateOffset data.length).map .uploaded ∧ ChunkStored env sid index data w w' ∧
      ((∃ v', v.updateOffset data.length = .ok v' ∧ w'.session? sid = some v') ∨
        (∃ x, v.updateOffset data.length = .error x) ∧ w'.session? sid = some v) := by
  rcases (alone_upload hstores r).1 h with ⟨rfl, rfl⟩
  have hsave : ChunkStored env sid index data w
      (RedisChunkRepository.save w sid (chunkOf env index data)) := chunkSave_self
  cases hmove : v.updateOffset data.length with
  | error x =>
      exact ⟨rfl, ⟨hsave.chunk, hsave.chunkMeta⟩, Or.inr ⟨⟨x, rfl⟩, hstores.live⟩⟩
  | ok v' =>
      have hid' : v'.sessionId = sid := by
        rcases UploadSession.updateOffset_ok hmove with ⟨_, _, _, hsame, _⟩
        exact hsame.trans hid
      exact ⟨rfl, ⟨hsave.chunk, hsave.chunkMeta⟩, Or.inl ⟨v', rfl, session?_save_self hid'⟩⟩

/-- An upload is refused, or stores its chunk and moves the offset if `update_offset` lets it. -/
theorem upload_effect (hkeyed : Keyed w) {sid' : UUID} {index : Int} {cs : String} {data : Bytes}
    (h : Alone env (.uploadChunk sid' index cs data) w r w') (sid : UUID) :
    Effect env sid w (.uploadChunk sid' index cs data) r w' := by
  by_cases hstores : ∃ v, Stores env w sid' cs data v
  · rcases hstores with ⟨v, hstores⟩
    by_cases hsid : sid' = sid
    · subst hsid
      rcases upload_stored (hkeyed sid' v hstores.live) hstores h with
        ⟨rfl, hchunk, ⟨v', hmove, hsession⟩ | ⟨⟨x, hmove⟩, hsession⟩⟩
      · rw [hmove]
        exact .moved hstores hmove hsession hchunk
      · rw [hmove]
        exact .stored hstores hmove hsession hchunk
    · have hid := hkeyed sid' v hstores.live
      rcases (alone_upload hstores r).1 h with ⟨rfl, rfl⟩
      refine .untouched ?_ (fun _ _ _ hop => absurd (Op.uploadChunk.inj hop).1 hsid)
      have hchunk := sameKeys_chunkSave hsid (chunkOf env index data) w
      cases hmove : v.updateOffset data.length with
      | error x => exact ⟨hchunk.session, hchunk.chunk, hchunk.chunkMeta⟩
      | ok v' =>
          have hid' : v'.sessionId ≠ sid := by
            rcases UploadSession.updateOffset_ok hmove with ⟨_, _, _, hsame, _⟩
            rw [hsame, hid]
            exact hsid
          exact ⟨session?_save_ne hid', hchunk.chunk, hchunk.chunkMeta⟩
  · rcases upload_refused h (fun v hv => hstores ⟨v, hv⟩) with ⟨rfl | rfl, hx⟩
    · exact .untouched (SameKeys.refl sid _) (fun _ _ _ _ => hx)
    · exact .untouched ⟨rfl, fun _ => rfl, fun _ => rfl⟩ (fun _ _ _ _ => hx)

/-- A finalize is refused, ends with the session marked as failed, or leaves nothing of it. -/
theorem finalize_effect (hkeyed : Keyed w) {sid' : UUID} (h : Alone env (.finalize sid') w r w')
    (sid : UUID) : Effect env sid w (.finalize sid') r w' := by
  by_cases hfin : ∃ v, Finalizable w sid' v
  · rcases hfin with ⟨v, hfin⟩
    have hid : v.fail.sessionId = sid' := hkeyed sid' v hfin.live
    rcases (alone_finalize hfin r).1 h with ⟨o, w₁, hend, rfl, rfl⟩
    -- its own session, then any other
    by_cases hsid : sid' = sid
    · subst hsid
      cases hend with
      | infected =>
          have hgone := gone_purge sid' (RedisSessionRepository.save (w.locking sid') v.fail)
          exact .gone (Or.inl rfl) ⟨hgone.session, hgone.chunk, hgone.chunkMeta⟩
      | refused => exact .failed hfin (session?_save_self hid) (fun _ => rfl) (fun _ => rfl)
      | committed =>
          rename_i streamed datas _ _ _ _
          have hgone := gone_purge sid' (((w.locking sid').committed
            (S3ObjectStorage.objectKey v.tenantId v.fileId) datas).published v
              (S3ObjectStorage.uri env (S3ObjectStorage.objectKey v.tenantId v.fileId)))
          exact .gone (Or.inl rfl) ⟨hgone.session, hgone.chunk, hgone.chunkMeta⟩
    · have hid' : v.fail.sessionId ≠ sid := fun hs => hsid (hid.symm.trans hs)
      refine .untouched ?_ (fun _ _ _ hop => by cases hop)
      cases hend with
      | infected =>
          have hsame := sameKeys_purge hsid (RedisSessionRepository.save (w.locking sid') v.fail)
          exact ⟨hsame.session.trans (session?_save_ne hid'), hsame.chunk, hsame.chunkMeta⟩
      | refused => exact ⟨session?_save_ne hid', fun _ => rfl, fun _ => rfl⟩
      | committed =>
          rename_i streamed datas _ _ _ _
          have hsame := sameKeys_purge hsid (((w.locking sid').committed
            (S3ObjectStorage.objectKey v.tenantId v.fileId) datas).published v
              (S3ObjectStorage.uri env (S3ObjectStorage.objectKey v.tenantId v.fileId)))
          exact ⟨hsame.session, hsame.chunk, hsame.chunkMeta⟩
  · rcases finalize_refused h (fun v hv => hfin ⟨v, hv⟩) with ⟨rfl, _⟩
    exact .untouched (SameKeys.refl sid _) (fun _ _ _ hop => by cases hop)

/-- Whatever runs alone has one of these effects. -/
theorem alone_effect (hkeyed : Keyed w) (h : Alone env op w r w') (sid : UUID) :
    Effect env sid w op r w' := by
  cases op with
  | initiate newId t f size cs =>
      rcases (alone_initiate newId t f size cs).1 h with ⟨_, _, _, rfl⟩ | ⟨_, rfl, rfl⟩
      · exact .untouched (SameKeys.refl sid _) (fun _ _ _ hop => by cases hop)
      · by_cases hsid : newId = sid
        · subst hsid
          exact .created (session?_save_self rfl) (fun _ => rfl) (fun _ => rfl)
        · exact .untouched ⟨session?_save_ne hsid, fun _ => rfl, fun _ => rfl⟩
            (fun _ _ _ hop => by cases hop)
  | uploadChunk sid' index cs data => exact upload_effect hkeyed h sid
  | finalize sid' => exact finalize_effect hkeyed h sid
  | abort sid' =>
      rcases abort_cases h with ⟨_, rfl⟩ | ⟨_, _, rfl⟩
      · exact .untouched (SameKeys.refl sid _) (fun _ _ _ hop => by cases hop)
      · by_cases hsid : sid' = sid
        · subst hsid
          have hgone := gone_purge sid' w
          exact .gone (Or.inr rfl) ⟨hgone.session, hgone.chunk, hgone.chunkMeta⟩
        · have hsame := sameKeys_purge hsid w
          exact .untouched ⟨hsame.session, hsame.chunk, hsame.chunkMeta⟩
            (fun _ _ _ hop => by cases hop)
  | query sid' =>
      rcases alone_query.1 h with ⟨rfl, _⟩
      exact .untouched (SameKeys.refl sid _) (fun _ _ _ hop => by cases hop)

/-- Sessions stay under their own ids. -/
theorem alone_keyed (hkeyed : Keyed w) (h : Alone env op w r w') : Keyed w' := by
  intro sid u hu
  cases alone_effect hkeyed h sid with
  | untouched hsame => exact hkeyed sid u (hsame.session.symm.trans hu)
  | created hsession =>
      cases hsession.symm.trans hu
      rfl
  | stored hstores _ hsession =>
      cases hsession.symm.trans hu
      exact hkeyed sid u hstores.live
  | moved hstores haccepted hsession =>
      cases hsession.symm.trans hu
      rcases UploadSession.updateOffset_ok haccepted with ⟨_, _, _, hid, _⟩
      exact hid.trans (hkeyed sid _ hstores.live)
  | failed hfin hsession =>
      cases hsession.symm.trans hu
      have hid := hkeyed sid _ hfin.live
      exact hid
  | gone _ hgone => cases hgone.session.symm.trans hu

/-- Locks that are free are free again after the request. -/
theorem alone_free (hfree : ∀ sid, w.lock? sid = none) (h : Alone env op w r w') :
    ∀ sid, w'.lock? sid = none := by
  -- a request that has taken a lock has released it
  have hunlocked : ∀ (w₁ : World) (sid' : UUID), (∀ sid, sid ≠ sid' → w₁.lock? sid = none) →
      ∀ sid, (w₁.unlocked sid').lock? sid = none := by
    intro w₁ sid' hrest sid
    by_cases hsid : sid = sid'
    · subst hsid
      exact w₁.locks.get_erase_self w₁.now sid
    · exact (w₁.locks.get_erase_ne w₁.now sid' hsid).trans (hrest sid hsid)
  cases op with
  | initiate newId t f size cs =>
      rcases (alone_initiate newId t f size cs).1 h with ⟨_, _, _, rfl⟩ | ⟨_, _, rfl⟩
      · exact hfree
      · exact hfree
  | uploadChunk sid' index cs data =>
      by_cases hstores : ∃ v, Stores env w sid' cs data v
      · rcases hstores with ⟨v, hstores⟩
        rcases (alone_upload hstores r).1 h with ⟨_, rfl⟩
        refine hunlocked _ sid' (fun sid _ => ?_)
        cases hmove : v.updateOffset data.length <;> exact hfree sid
      · rcases upload_refused h (fun v hv => hstores ⟨v, hv⟩) with ⟨rfl | rfl, _⟩
        · exact hfree
        · exact hunlocked _ sid' (fun sid _ => hfree sid)
  | finalize sid' =>
      by_cases hfin : ∃ v, Finalizable w sid' v
      · rcases hfin with ⟨v, hfin⟩
        rcases (alone_finalize hfin r).1 h with ⟨o, w₁, hend, _, rfl⟩
        have hlocking : ∀ sid, sid ≠ sid' → (w.locking sid').lock? sid = none := fun sid hsid =>
          (w.locks.get_set_ne w.now sid' _ _ hsid).trans (hfree sid)
        refine hunlocked _ sid' ?_
        cases hend <;> exact hlocking
      · rcases finalize_refused h (fun v hv => hfin ⟨v, hv⟩) with ⟨rfl, _⟩
        exact hfree
  | abort sid' =>
      rcases abort_cases h with ⟨_, rfl⟩ | ⟨_, _, rfl⟩
      · exact hfree
      · exact hunlocked _ sid' (fun sid _ => hfree sid)
  | query sid' =>
      rcases alone_query.1 h with ⟨rfl, _⟩
      exact hfree

end Effects

/-! ## What holds in every such run -/

/-- Sessions are stored under their own ids, which have been given to an initiate; no
lock is held; a chunk is there with its metadata, and only with its session. -/
structure Orderly (served : List Served) (w : World) : Prop where
  keyed : Keyed w
  born : ∀ sid v, w.session? sid = some v → ∃ d ∈ served, d.1.newId? = some sid
  free : ∀ sid, w.lock? sid = none
  paired : ∀ sid i, (w.chunkMeta? sid i).isSome = (w.chunk? sid i).isSome
  owned : ∀ sid, w.session? sid = none → ∀ i, w.chunk? sid i = none

/-- A fresh id has no session and no chunks. -/
theorem Orderly.fresh {served : List Served} {w : World} (h : Orderly served w) {sid : UUID}
    (hfresh : ∀ d ∈ served, d.1.newId? ≠ some sid) :
    w.session? sid = none ∧ ∀ i, w.chunk? sid i = none := by
  have hnone : w.session? sid = none := by
    cases hv : w.session? sid with
    | none => rfl
    | some v =>
        rcases h.born sid v hv with ⟨d, hd, hid⟩
        exact absurd hid (hfresh d hd)
  exact ⟨hnone, h.owned sid hnone⟩

/-- A request that runs alone leaves the stores in order. -/
theorem Orderly.serve {served : List Served} {w w' : World} {op : Op} {r : Except Exn Response}
    (h : Orderly served w) (halone : Alone env op w r w') : Orderly (served ++ [(op, r)]) w' := by
  have heffect := alone_effect h.keyed halone
  -- a session that was there has been initiated before
  have hborn : ∀ sid v, w.session? sid = some v → ∃ d ∈ served ++ [(op, r)],
      d.1.newId? = some sid := by
    intro sid v hv
    rcases h.born sid v hv with ⟨d, hd, hid⟩
    exact ⟨d, List.mem_append_left _ hd, hid⟩
  refine ⟨alone_keyed h.keyed halone, ?_, alone_free h.free halone, ?_, ?_⟩
  · intro sid u hu
    cases heffect sid with
    | untouched hsame => exact hborn sid u (hsame.session.symm.trans hu)
    | created => exact ⟨_, List.mem_append_right _ (List.mem_singleton.2 rfl), rfl⟩
    | stored hstores => exact hborn sid _ hstores.live
    | moved hstores => exact hborn sid _ hstores.live
    | failed hfin => exact hborn sid _ hfin.live
    | gone _ hgone => cases hgone.session.symm.trans hu
  · intro sid i
    cases heffect sid with
    | untouched hsame => rw [hsame.chunkMeta, hsame.chunk, h.paired]
    | created _ hchunk hmeta => rw [hmeta, hchunk, h.paired]
    | stored _ _ _ hchunk =>
        rw [hchunk.chunkMeta, hchunk.chunk]
        split
        · rfl
        · exact h.paired sid i
    | moved _ _ _ hchunk =>
        rw [hchunk.chunkMeta, hchunk.chunk]
        split
        · rfl
        · exact h.paired sid i
    | failed _ _ hchunk hmeta => rw [hmeta, hchunk, h.paired]
    | gone _ hgone =>
        rw [hgone.chunkMeta, hgone.chunk]
        rfl
  · intro sid hnone i
    cases heffect sid with
    | untouched hsame => rw [hsame.chunk, h.owned sid (hsame.session.symm.trans hnone)]
    | created hsession => cases hsession.symm.trans hnone
    | stored _ _ hsession => cases hsession.symm.trans hnone
    | moved _ _ hsession => cases hsession.symm.trans hnone
    | failed _ hsession => cases hsession.symm.trans hnone
    | gone _ hgone => exact hgone.chunk i

theorem Orderly.wait {served : List Served} {w : World} {d : Nat} (h : Orderly served w)
    (hlasts : Lasts w d) : Orderly served (w.advance d) := by
  refine ⟨fun sid v hv => h.keyed sid v ((hlasts sid).1.symm.trans hv),
    fun sid v hv => h.born sid v ((hlasts sid).1.symm.trans hv),
    fun sid => (hlasts sid).2.1.trans (h.free sid), fun sid i => ?_, fun sid hnone i => ?_⟩
  · rw [((hlasts sid).2.2 i).1, ((hlasts sid).2.2 i).2, h.paired]
  · exact ((hlasts sid).2.2 i).1.trans (h.owned sid ((hlasts sid).1.symm.trans hnone) i)

/-- So they are in order after every series of requests. -/
theorem serial_orderly {G : World → Op → Prop} {now : Nat} {served : List Served} {w : World}
    (h : Serial env G (World.empty now) served w) : Orderly served w := by
  induction h with
  | start =>
      exact ⟨by simp [Keyed, World.session?, World.empty], by simp [World.session?, World.empty],
        by simp [World.lock?, World.empty], by simp [World.chunk?, World.chunkMeta?, World.empty],
        by simp [World.chunk?, World.empty]⟩
  | serve _ _ _ halone ih => exact ih.serve halone
  | wait _ hlasts ih => exact ih.wait hlasts

/-! ## The first session -/

/-- Nothing is stored but a new session. -/
def World.initiated (now : Nat) (newId t f : UUID) (size : Int) (cs : String) : World :=
  RedisSessionRepository.save (World.empty now) (newSession newId t f size cs)

section First

variable {now : Nat} {newId t f : UUID} {size : Int} {cs : String}

/-- The first request initiates a session. -/
theorem serial_first {G : World → Op → Prop}
    (hG : G (World.empty now) (.initiate newId t f size cs)) :
    Serial env G (World.empty now)
      [(.initiate newId t f size cs, .ok (.initiated (some (newSession newId t f size cs), none)))]
      (World.initiated now newId t f size cs) :=
  .serve .start hG (fun _ _ d hd => by cases hd)
    ((alone_initiate newId t f size cs).2 (Or.inr ⟨rfl, rfl, rfl⟩))

theorem session?_initiated :
    (World.initiated now newId t f size cs).session? newId =
      some (newSession newId t f size cs) := session?_save_self rfl

/-- The first upload to the new session. -/
theorem stores_first {cs' : String} {data : Bytes}
    (hadmits : Admits env (newSession newId t f size cs) cs' data) :
    Stores env (World.initiated now newId t f size cs) newId cs' data
      (newSession newId t f size cs) :=
  ⟨session?_initiated, by simp [UploadSession.Open, newSession], rfl, hadmits⟩

end First

namespace Demo

/-- The new session of a file of `size` bytes. -/
def sized (size : Int) : World := World.initiated 0 sid tenant file size (sha256 a)

/-- The session of a file of one byte, after the upload of the byte. -/
def complete : UploadSession :=
  { newSession sid tenant file 1 (sha256 a) with currentOffset := 1, status := .uploading }

/-- The byte has been uploaded as the chunk at `index`. -/
def uploadedAt (index : Int) : World :=
  (RedisSessionRepository.save (RedisChunkRepository.save (sized 1) sid (chunkOf Demo.env index a))
    complete).unlocked sid

end Demo

theorem stores_sized : Stores Demo.env (Demo.sized 1) Demo.sid (Demo.sha256 Demo.a) Demo.a
    (newSession Demo.sid Demo.tenant Demo.file 1 (Demo.sha256 Demo.a)) :=
  stores_first ⟨by decide, by decide, rfl⟩

theorem alone_uploadedAt (index : Int) :
    Alone Demo.env (.uploadChunk Demo.sid index (Demo.sha256 Demo.a) Demo.a) (Demo.sized 1)
      (.ok (.uploaded Demo.complete)) (Demo.uploadedAt index) :=
  (alone_upload stores_sized _).2 ⟨rfl, rfl⟩

theorem session?_uploadedAt (index : Int) :
    (Demo.uploadedAt index).session? Demo.sid = some Demo.complete := session?_save_self rfl

theorem chunk?_uploadedAt (index i : Int) : (Demo.uploadedAt index).chunk? Demo.sid i =
    if i = index then some Demo.a else none := chunkSave_self.chunk i

/-- Whatever the index is, the upload is accepted. -/
theorem serial_uploadedAt {G : World → Op → Prop} {index : Int}
    (hinit : G (World.empty 0) (.initiate Demo.sid Demo.tenant Demo.file 1 (Demo.sha256 Demo.a)))
    (hupload : G (Demo.sized 1) (.uploadChunk Demo.sid index (Demo.sha256 Demo.a) Demo.a)) :
    Serial Demo.env G (World.empty 0)
      [(.initiate Demo.sid Demo.tenant Demo.file 1 (Demo.sha256 Demo.a),
          .ok (.initiated
            (some (newSession Demo.sid Demo.tenant Demo.file 1 (Demo.sha256 Demo.a)), none))),
        (.uploadChunk Demo.sid index (Demo.sha256 Demo.a) Demo.a, .ok (.uploaded Demo.complete))]
      (Demo.uploadedAt index) :=
  .serve (serial_first hinit) hupload (fun _ hid => by cases hid) (alone_uploadedAt index)

/-! ## A file in two chunks -/

namespace Demo

/-- The size of a file of one large chunk and one more byte. -/
def odd : Int := 5 * 1024 * 1024 + 1

/-- The session of such a file, with `offset` bytes uploaded. -/
def oddSession (offset : Int) : UploadSession :=
  { newSession sid tenant file odd (sha256 a) with currentOffset := offset, status := .uploading }

/-- The large chunk has been uploaded at index `i`. -/
def largeAt (i : Int) : World :=
  (storing bigEnv (sized odd) sid i big (.ok (oddSession (5 * 1024 * 1024)))).unlocked sid

/-- And then the last byte at index `j`. -/
def bothAt (i j : Int) : World :=
  (storing bigEnv (largeAt i) sid j b (.ok (oddSession odd))).unlocked sid

/-- The requests that lead there. -/
def servedBoth (i j : Int) : List Served :=
  [(.initiate sid tenant file odd (sha256 a),
      .ok (.initiated (some (newSession sid tenant file odd (sha256 a)), none))),
    (.uploadChunk sid i (bigEnv.sha256 big) big, .ok (.uploaded (oddSession (5 * 1024 * 1024)))),
    (.uploadChunk sid j (bigEnv.sha256 b) b, .ok (.uploaded (oddSession odd)))]

end Demo

theorem big_ne_nil : Demo.big ≠ [] :=
  List.ne_nil_of_length_pos (by rw [Demo.big_length]; decide)

/-- The large chunk is accepted, whatever its index is. -/
theorem alone_largeAt (i : Int) : Alone Demo.bigEnv
    (.uploadChunk Demo.sid i (Demo.bigEnv.sha256 Demo.big) Demo.big) (Demo.sized Demo.odd)
    (.ok (.uploaded (Demo.oddSession (5 * 1024 * 1024)))) (Demo.largeAt i) := by
  have hlength := Demo.big_length
  have hstores : Stores Demo.bigEnv (Demo.sized Demo.odd) Demo.sid
      (Demo.bigEnv.sha256 Demo.big) Demo.big
      (newSession Demo.sid Demo.tenant Demo.file Demo.odd (Demo.sha256 Demo.a)) := by
    refine stores_first ⟨?_, Or.inl ?_, rfl⟩
    · rw [hlength]
      decide
    · rw [hlength]
      decide
  have hmove : (newSession Demo.sid Demo.tenant Demo.file Demo.odd
      (Demo.sha256 Demo.a)).updateOffset Demo.big.length =
        .ok (Demo.oddSession (5 * 1024 * 1024)) := by
    rw [hlength]
    rfl
  refine (alone_upload hstores _).2 ⟨?_, ?_⟩
  · rw [hmove]
    rfl
  · rw [hmove, Demo.largeAt]

/-- And so is the last byte after it. -/
theorem stores_bothAt (i : Int) : Stores Demo.bigEnv (Demo.largeAt i) Demo.sid
    (Demo.bigEnv.sha256 Demo.b) Demo.b (Demo.oddSession (5 * 1024 * 1024)) :=
  ⟨session?_save_self rfl, by decide, rfl, by decide, Or.inr rfl, rfl⟩

theorem alone_bothAt (i j : Int) : Alone Demo.bigEnv
    (.uploadChunk Demo.sid j (Demo.bigEnv.sha256 Demo.b) Demo.b) (Demo.largeAt i)
    (.ok (.uploaded (Demo.oddSession Demo.odd))) (Demo.bothAt i j) :=
  (alone_upload (stores_bothAt i) _).2 ⟨rfl, rfl⟩

theorem session?_bothAt (i j : Int) :
    (Demo.bothAt i j).session? Demo.sid = some (Demo.oddSession Demo.odd) :=
  session?_save_self rfl

theorem chunk?_largeAt (i k : Int) : (Demo.largeAt i).chunk? Demo.sid k =
    if k = i then some Demo.big else none := chunkSave_self.chunk k

theorem chunk?_bothAt (i j k : Int) : (Demo.bothAt i j).chunk? Demo.sid k =
    if k = j then some Demo.b else if k = i then some Demo.big else none := by
  have hlast : (Demo.bothAt i j).chunk? Demo.sid k =
      if k = j then some Demo.b else (Demo.largeAt i).chunk? Demo.sid k := chunkSave_self.chunk k
  rw [hlast, chunk?_largeAt]

/-- Both chunks are accepted, whatever their indices are. -/
theorem serial_bothAt {G : World → Op → Prop} {i j : Int}
    (hinit : G (World.empty 0)
      (.initiate Demo.sid Demo.tenant Demo.file Demo.odd (Demo.sha256 Demo.a)))
    (hlarge : G (Demo.sized Demo.odd)
      (.uploadChunk Demo.sid i (Demo.bigEnv.sha256 Demo.big) Demo.big))
    (hlast : G (Demo.largeAt i)
      (.uploadChunk Demo.sid j (Demo.bigEnv.sha256 Demo.b) Demo.b)) :
    Serial Demo.bigEnv G (World.empty 0) (Demo.servedBoth i j) (Demo.bothAt i j) :=
  .serve (.serve (serial_first hinit) hlarge (fun _ hid => by cases hid) (alone_largeAt i)) hlast
    (fun _ hid => by cases hid) (alone_bothAt i j)

end FileUploader
