import FileUploader.CommitDiscipline
import FileUploader.Locking
import FileUploader.Infrastructure.Keys

/-! # Scopes: some sessions and some tenants

A call of a request is about one session or one tenant. What it is answered, and what it
writes, depends on the keys of that session and tenant only: worlds that agree on a scope
answer every call in the scope alike, and outside the scope nothing is written.
-/

namespace FileUploader

open Await S3ObjectStorage

variable {env : Env}

/-! ## Object keys of a tenant -/

/-- The key starts with `uploads/{tenant_id}/`. -/
def UnderTenant (t : UUID) (key : String) : Prop := (s!"uploads/{t.str}/").toList <+: key.toList

theorem tenantPrefix_toList (t : UUID) : (s!"uploads/{t.str}/").toList =
    ['u', 'p', 'l', 'o', 'a', 'd', 's', '/'] ++ (t.str.toList ++ ['/']) := by
  simp [toString]

theorem objectKey_toList (t f : UUID) : (objectKey t f).toList =
    ['u', 'p', 'l', 'o', 'a', 'd', 's', '/'] ++ (t.str.toList ++
      ('/' :: ['r', 'a', 'w', '/'] ++ f.str.toList)) := by
  simp [objectKey, toString]

/-- No two files share an object. -/
theorem objectKey_inj {t t' f f' : UUID} : objectKey t f = objectKey t' f' ↔ t = t' ∧ f = f' := by
  constructor
  · intro h
    have hlist := congrArg String.toList h
    rw [objectKey_toList, objectKey_toList] at hlist
    rcases Key.id_inj (List.append_cancel_left hlist) with ⟨rfl, hrest⟩
    have hfile := List.append_cancel_left (List.cons.inj hrest).2
    exact ⟨rfl, UUID.str_injective (String.toList_inj.1 hfile)⟩
  · rintro ⟨rfl, rfl⟩
    rfl

/-- An object key is under its own tenant and no other. -/
theorem underTenant_objectKey (t t' f : UUID) : UnderTenant t (objectKey t' f) ↔ t = t' := by
  rw [UnderTenant, tenantPrefix_toList, objectKey_toList, List.prefix_append_right_inj]
  constructor
  · intro h
    rcases h with ⟨rest, h⟩
    rw [List.append_assoc] at h
    exact (Key.id_inj h).1
  · intro h
    subst h
    exact (List.prefix_append_right_inj _).2 ⟨_, rfl⟩

/-! ## Scopes -/

/-- Some sessions, and some tenants. -/
structure Scope where
  sessions : Set UUID
  tenants : Set UUID

/-- No session and no tenant in common. -/
def Scope.Disjoint (P P' : Scope) : Prop :=
  (∀ sid ∈ P.sessions, sid ∉ P'.sessions) ∧ ∀ t ∈ P.tenants, t ∉ P'.tenants

/-- The call reads and writes keys of the scope only. Parts of an upload are addressed by
its id, and events by nobody. -/
def Call.About (P : Scope) : Call → Prop
  | .sessionGet sid | .sessionDelete sid | .acquireLock sid _ | .releaseLock sid
  | .chunkSave sid _ | .chunkGet sid _ | .chunkPull sid _ | .deleteAll sid => sid ∈ P.sessions
  | .sessionSave s => s.sessionId ∈ P.sessions
  | .getByChecksum t _ | .registerFile t _ _ _ _ | .initiateMultipartUpload t _
  | .uploadPart t _ _ _ _ | .completeMultipartUpload t _ _ _ => t ∈ P.tenants
  | .abortMultipartUpload .. | .publishFileUploadCompleted _ => True

/-- The worlds are the same as far as the scope goes, deadlines included. -/
structure AgreeOn (P : Scope) (w w' : World) : Prop where
  now : w'.now = w.now
  sessions : ∀ sid ∈ P.sessions, w'.sessions sid = w.sessions sid
  locks : ∀ sid ∈ P.sessions, w'.locks sid = w.locks sid
  chunks : ∀ sid ∈ P.sessions, ∀ i, w'.chunks (sid, i) = w.chunks (sid, i)
  chunkMetas : ∀ sid ∈ P.sessions, ∀ i, w'.chunkMetas (sid, i) = w.chunkMetas (sid, i)
  dedup : ∀ t ∈ P.tenants, ∀ cs, w'.dedup (t, cs) = w.dedup (t, cs)
  objects : ∀ t ∈ P.tenants, ∀ key, UnderTenant t key → w'.objects key = w.objects key

namespace AgreeOn

variable {P : Scope} {w w' w'' : World}

theorem refl (P : Scope) (w : World) : AgreeOn P w w :=
  ⟨rfl, fun _ _ => rfl, fun _ _ => rfl, fun _ _ _ => rfl, fun _ _ _ => rfl, fun _ _ _ => rfl,
    fun _ _ _ _ => rfl⟩

theorem symm (h : AgreeOn P w w') : AgreeOn P w' w where
  now := h.now.symm
  sessions sid hsid := (h.sessions sid hsid).symm
  locks sid hsid := (h.locks sid hsid).symm
  chunks sid hsid i := (h.chunks sid hsid i).symm
  chunkMetas sid hsid i := (h.chunkMetas sid hsid i).symm
  dedup t ht cs := (h.dedup t ht cs).symm
  objects t ht key hkey := (h.objects t ht key hkey).symm

theorem trans (h : AgreeOn P w w') (h' : AgreeOn P w' w'') : AgreeOn P w w'' where
  now := h'.now.trans h.now
  sessions sid hsid := (h'.sessions sid hsid).trans (h.sessions sid hsid)
  locks sid hsid := (h'.locks sid hsid).trans (h.locks sid hsid)
  chunks sid hsid i := (h'.chunks sid hsid i).trans (h.chunks sid hsid i)
  chunkMetas sid hsid i := (h'.chunkMetas sid hsid i).trans (h.chunkMetas sid hsid i)
  dedup t ht cs := (h'.dedup t ht cs).trans (h.dedup t ht cs)
  objects t ht key hkey := (h'.objects t ht key hkey).trans (h.objects t ht key hkey)

section Read

variable (h : AgreeOn P w w') {sid t : UUID}
include h

theorem session? (hsid : sid ∈ P.sessions) : w'.session? sid = w.session? sid := by
  simp only [World.session?, ExpiringMap.get, h.now, h.sessions sid hsid]

theorem lock? (hsid : sid ∈ P.sessions) : w'.lock? sid = w.lock? sid := by
  simp only [World.lock?, ExpiringMap.get, h.now, h.locks sid hsid]

theorem chunk? (hsid : sid ∈ P.sessions) (i : Int) : w'.chunk? sid i = w.chunk? sid i := by
  simp only [World.chunk?, ExpiringMap.get, h.now, h.chunks sid hsid]

theorem chunkMeta? (hsid : sid ∈ P.sessions) (i : Int) :
    w'.chunkMeta? sid i = w.chunkMeta? sid i := by
  simp only [World.chunkMeta?, ExpiringMap.get, h.now, h.chunkMetas sid hsid]

theorem dedup? (ht : t ∈ P.tenants) (cs : String) : w'.dedup? t cs = w.dedup? t cs := by
  simp only [World.dedup?, ExpiringMap.get, h.now, h.dedup t ht]

end Read

end AgreeOn

/-- Outside its scope a call changes nothing. -/
theorem handle_outside (env : Env) {P P' : Scope} (hdisj : P.Disjoint P') {c : Call}
    (hc : c.About P)
    (out : Outcome) (w : World) : AgreeOn P' w (handle env out c w).2 where
  now := handle_now env out c w
  sessions sid hsid := by
    rcases handle_sessions env out c w sid with h | ⟨s, rfl, rfl, _⟩ | ⟨rfl, _⟩
    · exact h
    · exact absurd hsid (hdisj.1 _ hc)
    · exact absurd hsid (hdisj.1 _ hc)
  locks sid hsid := by
    rcases handle_locks env out c w sid with h | ⟨ttl, rfl, _⟩ | ⟨rfl, _⟩
    · exact h
    · exact absurd hsid (hdisj.1 _ hc)
    · exact absurd hsid (hdisj.1 _ hc)
  chunks sid hsid i := by
    rcases handle_chunks env out c w sid i with ⟨h, _⟩ | ⟨chunk, rfl, _⟩ | ⟨rfl, _⟩
    · exact h
    · exact absurd hsid (hdisj.1 _ hc)
    · exact absurd hsid (hdisj.1 _ hc)
  chunkMetas sid hsid i := by
    rcases handle_chunks env out c w sid i with ⟨_, h⟩ | ⟨chunk, rfl, _⟩ | ⟨rfl, _⟩
    · exact h
    · exact absurd hsid (hdisj.1 _ hc)
    · exact absurd hsid (hdisj.1 _ hc)
  dedup t ht cs := by
    rcases handle_dedup env out c w t cs with h | ⟨f, uri, size, rfl, _⟩
    · exact h
    · exact absurd ht (hdisj.2 _ hc)
  objects t ht key hkey := by
    rcases handle_objects env out c w key with h | ⟨t', f, u, parts, _, _, rfl, rfl, _⟩
    · exact h
    · -- an object of this tenant is committed by a call about this tenant
      have heq := (underTenant_objectKey t t' f).1 hkey
      subst heq
      exact absurd ht (hdisj.2 _ hc)

/-! ## Calls in the scope -/

namespace AgreeOn

variable {P : Scope} {w w' : World} (h : AgreeOn P w w')
include h

theorem sessionSave (s : UploadSession) :
    AgreeOn P (RedisSessionRepository.save w s) (RedisSessionRepository.save w' s) :=
  { h with
    sessions := fun sid hsid => by
      simp only [RedisSessionRepository.save, ExpiringMap.set, World.deadline, h.now,
        h.sessions sid hsid] }

theorem sessionDelete (sid : UUID) :
    AgreeOn P (RedisSessionRepository.delete w sid) (RedisSessionRepository.delete w' sid) :=
  { h with
    sessions := fun sid' hsid => by
      simp only [RedisSessionRepository.delete, ExpiringMap.erase, h.sessions sid' hsid] }

theorem lockSet (sid : UUID) (ttl : Nat) :
    AgreeOn P { w with locks := w.locks.set sid "locked" (w.deadline ttl) }
      { w' with locks := w'.locks.set sid "locked" (w'.deadline ttl) } :=
  { h with
    locks := fun sid' hsid => by
      simp only [ExpiringMap.set, World.deadline, h.now, h.locks sid' hsid] }

theorem releaseLock (sid : UUID) : AgreeOn P (RedisSessionRepository.releaseLock w sid)
    (RedisSessionRepository.releaseLock w' sid) :=
  { h with
    locks := fun sid' hsid => by
      simp only [RedisSessionRepository.releaseLock, ExpiringMap.erase, h.locks sid' hsid] }

theorem chunkSave (sid : UUID) (chunk : Chunk) : AgreeOn P
    (RedisChunkRepository.save w sid chunk) (RedisChunkRepository.save w' sid chunk) :=
  { h with
    chunks := fun sid' hsid i => by
      simp only [RedisChunkRepository.save, ExpiringMap.set, World.deadline, h.now,
        h.chunks sid' hsid]
    chunkMetas := fun sid' hsid i => by
      simp only [RedisChunkRepository.save, ExpiringMap.set, World.deadline, h.now,
        h.chunkMetas sid' hsid] }

theorem deleteAll (sid : UUID) :
    AgreeOn P (RedisChunkRepository.deleteAll w sid) (RedisChunkRepository.deleteAll w' sid) :=
  { h with
    chunks := fun sid' hsid i => by
      simp only [RedisChunkRepository.deleteAll, ExpiringMap.eraseAll, h.chunks sid' hsid]
    chunkMetas := fun sid' hsid i => by
      simp only [RedisChunkRepository.deleteAll, ExpiringMap.eraseAll, h.chunkMetas sid' hsid] }

theorem registerFile (ttl : Option Nat) (t : UUID) (s3Uri cs : String) :
    AgreeOn P (RedisMetadataRegistry.registerFile ttl w t s3Uri cs)
      (RedisMetadataRegistry.registerFile ttl w' t s3Uri cs) :=
  { h with
    dedup := fun t' ht cs' => by
      simp only [RedisMetadataRegistry.registerFile, ExpiringMap.set, World.deadline, h.now,
        h.dedup t' ht] }

/-- The uploads are no part of it. -/
theorem uploads (uploads uploads' : Nat → Option MultipartUpload) :
    AgreeOn P { w with uploads := uploads } { w' with uploads := uploads' } :=
  { h with }

theorem objects_set (key : String) (object : Option Bytes) :
    AgreeOn P { w with objects := Function.update w.objects key object }
      { w' with objects := Function.update w'.objects key object } :=
  { h with
    objects := fun t ht key' hkey => by
      simp only [Function.update_apply, h.objects t ht key' hkey] }

end AgreeOn

/-- The call has nothing to do with multipart uploads. -/
def Call.Plain : Call → Prop
  | .initiateMultipartUpload .. | .uploadPart .. | .completeMultipartUpload ..
  | .abortMultipartUpload .. => False
  | _ => True

/-- A call that has nothing to do with uploads leaves them as they are. -/
theorem respond_plain (env : Env) {c : Call} (hplain : c.Plain) (w : World) :
    (respond env c w).2.uploads = w.uploads ∧
    (respond env c w).2.nextUploadId = w.nextUploadId := by
  cases c with
  | acquireLock sid ttl =>
      rcases RedisSessionRepository.acquireLock_frame w sid ttl with ⟨_, h⟩
      simp [respond, h]
  | initiateMultipartUpload t f => exact hplain.elim
  | uploadPart t f u n data => exact hplain.elim
  | completeMultipartUpload t f u parts => exact hplain.elim
  | abortMultipartUpload t f u => exact hplain.elim
  | _ => exact ⟨rfl, rfl⟩

/-- What a call in the scope is answered, and leaves there, is the same in worlds that
agree on the scope. -/
theorem respond_agree (env : Env) {P : Scope} {c : Call} {w w' : World} (hc : c.About P)
    (hplain : c.Plain)
    (h : AgreeOn P w w') : (respond env c w').1 = (respond env c w).1 ∧
      AgreeOn P (respond env c w).2 (respond env c w').2 := by
  cases c with
  | sessionGet sid =>
      simp only [respond, RedisSessionRepository.get, h.session? hc]
      exact ⟨trivial, h⟩
  | sessionSave s => exact ⟨rfl, h.sessionSave s⟩
  | sessionDelete sid => exact ⟨rfl, h.sessionDelete sid⟩
  | acquireLock sid ttl =>
      -- both find the lock taken, or both take it
      have hsame := h.lock? hc
      rcases RedisSessionRepository.acquireLock_cases w sid ttl with
        ⟨v, hlock, hacq⟩ | ⟨hlock, hacq⟩
      · have hacq' : RedisSessionRepository.acquireLock w' sid ttl = (false, w') := by
          simp only [RedisSessionRepository.acquireLock, hsame, hlock]
        simp only [respond, hacq, hacq']
        exact ⟨trivial, h⟩
      · have hacq' : RedisSessionRepository.acquireLock w' sid ttl =
            (true, { w' with locks := w'.locks.set sid "locked" (w'.deadline ttl) }) := by
          simp only [RedisSessionRepository.acquireLock, hsame, hlock]
        simp only [respond, hacq, hacq']
        exact ⟨trivial, h.lockSet sid ttl⟩
  | releaseLock sid => exact ⟨rfl, h.releaseLock sid⟩
  | chunkSave sid chunk => exact ⟨rfl, h.chunkSave sid chunk⟩
  | chunkGet sid i =>
      simp only [respond, RedisChunkRepository.get, h.chunk? hc, h.chunkMeta? hc]
      exact ⟨trivial, h⟩
  | chunkPull sid i =>
      simp only [respond, h.chunk? hc]
      exact ⟨trivial, h⟩
  | deleteAll sid => exact ⟨rfl, h.deleteAll sid⟩
  | getByChecksum t cs =>
      simp only [respond, RedisMetadataRegistry.getByChecksum, h.dedup? hc]
      exact ⟨trivial, h⟩
  | registerFile t f uri size cs =>
      exact ⟨rfl, h.registerFile RedisMetadataRegistry.wiredTtl t uri cs⟩
  | publishFileUploadCompleted event => exact ⟨rfl, { h with }⟩
  | initiateMultipartUpload t f => exact hplain.elim
  | uploadPart t f u n data => exact hplain.elim
  | completeMultipartUpload t f u parts => exact hplain.elim
  | abortMultipartUpload t f u => exact hplain.elim

/-- The same for calls that may fail. -/
theorem handle_agree (env : Env) {P : Scope} {c : Call} {w w' : World} (hc : c.About P)
    (hplain : c.Plain)
    (h : AgreeOn P w w') (out : Outcome) :
    (handle env out c w').1 = (handle env out c w).1 ∧
      AgreeOn P (handle env out c w).2 (handle env out c w').2 := by
  rcases respond_agree env hc hplain h with ⟨hsame, hagree⟩
  cases out with
  | works => exact ⟨hsame, hagree⟩
  | raises msg => exact ⟨rfl, h⟩
  | raisesAfter msg => exact ⟨rfl, hagree⟩

/-! ### Multipart uploads

Uploads are found by their ids, which need not be the same in both worlds. -/

section Uploads

variable {P : Scope} {w w' : World} {t f : UUID} {u u' : Nat}

/-- The worlds hold the same upload under these two ids. -/
def SameUpload (w w' : World) (u u' : Nat) : Prop := w'.uploads u' = w.uploads u

/-- The new uploads may have different ids, but are in the same state. -/
theorem respond_initiate (env : Env) (t f : UUID) (h : AgreeOn P w w') :
    AgreeOn P (respond env (.initiateMultipartUpload t f) w).2
        (respond env (.initiateMultipartUpload t f) w').2 ∧
      SameUpload (respond env (.initiateMultipartUpload t f) w).2
        (respond env (.initiateMultipartUpload t f) w').2 w.nextUploadId w'.nextUploadId := by
  refine ⟨{ h with }, ?_⟩
  simp [SameUpload, respond, initiateMultipartUpload]

/-- A part is stored alike in uploads that are the same but for their ids. -/
theorem respond_uploadPart (env : Env) (t f : UUID) (h : AgreeOn P w w')
    (hsame : SameUpload w w' u u') (n : Nat)
    (data : Bytes) :
    (respond env (.uploadPart t f u' n data) w').1 = (respond env (.uploadPart t f u n data) w).1 ∧
      AgreeOn P (respond env (.uploadPart t f u n data) w).2
        (respond env (.uploadPart t f u' n data) w').2 ∧
      SameUpload (respond env (.uploadPart t f u n data) w).2
        (respond env (.uploadPart t f u' n data) w').2 u u' := by
  simp only [SameUpload] at hsame ⊢
  simp only [respond, uploadPart, hsame]
  cases hu : w.uploads u with
  | none => exact ⟨rfl, h, by rw [hsame, hu]⟩
  | some upload =>
      by_cases hkey : upload.key = objectKey t f
      · simp only [hkey, if_true, Function.update_self]
        exact ⟨trivial, h.uploads _ _, trivial⟩
      · simp only [hkey, if_false]
        exact ⟨trivial, h, by rw [hsame, hu]⟩

/-- A completion answers the same URI, and makes the same object, under either id. -/
theorem respond_complete (env : Env) (t f : UUID) (h : AgreeOn P w w')
    (hsame : SameUpload w w' u u') (parts : List Part) :
    (respond env (.completeMultipartUpload t f u' parts) w').1 =
        (respond env (.completeMultipartUpload t f u parts) w).1 ∧
      AgreeOn P (respond env (.completeMultipartUpload t f u parts) w).2
        (respond env (.completeMultipartUpload t f u' parts) w').2 ∧
      SameUpload (respond env (.completeMultipartUpload t f u parts) w).2
        (respond env (.completeMultipartUpload t f u' parts) w').2 u u' := by
  simp only [SameUpload] at hsame ⊢
  simp only [respond]
  -- S3 decides from the upload, which is the same here and there
  have hanswer : (completeMultipartUpload env w' t f u' parts).1 =
      (completeMultipartUpload env w t f u parts).1 := by
    simp only [completeMultipartUpload, hsame]
    split
    · rfl
    · split
      · split
        · rfl
        · split <;> rfl
      · rfl
  rcases completeMultipartUpload_cases env w t f u parts with ⟨msg, hres⟩ |
    ⟨upload, datas, hu, hkey, hpay, hacc, hres⟩
  · -- what S3 refuses here it refuses there
    rcases completeMultipartUpload_cases env w' t f u' parts with ⟨msg', hres'⟩ |
      ⟨_, _, _, _, _, _, hres'⟩
    · refine ⟨hanswer, ?_⟩
      rw [hres, hres']
      exact ⟨h, hsame⟩
    · rw [hres, hres'] at hanswer
      cases hanswer
  · have hres' : completeMultipartUpload env w' t f u' parts = (.ok (uri env (objectKey t f)),
        { w' with
          objects := Function.update w'.objects (objectKey t f) (some datas.flatten)
          uploads := Function.update w'.uploads u' none }) := by
      simp [completeMultipartUpload, hsame, hu, hkey, hpay, hacc]
    refine ⟨hanswer, ?_⟩
    rw [hres, hres']
    constructor
    · exact (h.objects_set (objectKey t f) (some datas.flatten)).uploads _ _
    · simp

/-- And they are aborted alike. -/
theorem respond_abort (env : Env) (t f : UUID) (h : AgreeOn P w w') :
    AgreeOn P (respond env (.abortMultipartUpload t f u) w).2
        (respond env (.abortMultipartUpload t f u') w').2 ∧
      SameUpload (respond env (.abortMultipartUpload t f u) w).2
        (respond env (.abortMultipartUpload t f u') w').2 u u' := by
  refine ⟨{ h with }, ?_⟩
  simp [SameUpload, respond, abortMultipartUpload]

end Uploads

/-! ## Requests in a scope -/

/-- The request is about a session of the scope, or initiates one for a tenant of it. -/
def Op.Within (P : Scope) : Op → Prop
  | .initiate newId t _ _ _ => newId ∈ P.sessions ∧ t ∈ P.tenants
  | .uploadChunk sid _ _ _ | .finalize sid | .abort sid | .query sid => sid ∈ P.sessions

/-- Sessions of the scope belong to tenants of the scope, and are stored under their ids. -/
structure Tenanted (P : Scope) (w : World) : Prop where
  tenant : ∀ sid ∈ P.sessions, ∀ v, w.session? sid = some v → v.tenantId ∈ P.tenants
  keyed : ∀ sid ∈ P.sessions, ∀ v, w.session? sid = some v → v.sessionId = sid

/-- Whose sessions they are depends on the scope only. -/
theorem tenanted_agree {P : Scope} {w w' : World} (h : Tenanted P w) (hagree : AgreeOn P w w') :
    Tenanted P w' :=
  ⟨fun sid hsid v hv => h.tenant sid hsid v ((hagree.session? hsid).symm.trans hv),
    fun sid hsid v hv => h.keyed sid hsid v ((hagree.session? hsid).symm.trans hv)⟩

/-- Sessions that are read later are stored now. -/
theorem Tenanted.advance {P : Scope} {w : World} (h : Tenanted P w) (d : Nat) :
    Tenanted P (w.advance d) := by
  have hread : ∀ sid v, (w.advance d).session? sid = some v → w.session? sid = some v :=
    fun _ _ hv => w.sessions.get_of_get_later (Nat.le_add_right _ d) hv
  constructor
  · exact fun sid hsid v hv => h.tenant sid hsid v (hread sid v hv)
  · exact fun sid hsid v hv => h.keyed sid hsid v (hread sid v hv)

/-- A session of the scope is read back under its id. -/
theorem Tenanted.expects {P : Scope} {w : World} (h : Tenanted P w) (l : SessionLocal) {c : Call}
    (hc : c.About P) (out : Outcome) :
    (sessionDiscipline env).expects l c (handle env out c w).1 := by
  cases c with
  | sessionGet sid =>
      cases out with
      | works =>
          simp only [handle, respond, RedisSessionRepository.get]
          cases hv : w.session? sid with
          | none => trivial
          | some v => exact h.keyed sid hc v hv
      | raises msg => trivial
      | raisesAfter msg => trivial
  | _ => trivial

/-- A request in the scope has heard of tenants of the scope only. -/
structure InScope (P : Scope) (op : Op) (l : SessionLocal) (l' : CommitLocal) : Prop where
  within : op.Within P
  knows_op : l.op = op
  answered_op : l'.op = op
  copy : ∀ v, l.copy = some v → v.tenantId ∈ P.tenants
  view : ∀ v, l.view = some v → v.tenantId ∈ P.tenants
  read : ∀ v, l'.copy = some v → v.tenantId ∈ P.tenants

section InScope

variable {P : Scope} {op : Op} {l : SessionLocal} {l' : CommitLocal} {c : Call}

/-- A request that has done nothing is in its scope. -/
theorem inScope_start (h : op.Within P) :
    InScope P op (SessionLocal.start op) (CommitLocal.start op) :=
  ⟨h, rfl, rfl, (fun _ hv => by cases hv), (fun _ hv => by cases hv), (fun _ hv => by cases hv)⟩

/-- A request about a session is about one of the scope. -/
theorem Op.Within.target (h : op.Within P) {sid : UUID} (htarget : op.target? = some sid) :
    sid ∈ P.sessions := by
  cases op with
  | initiate newId t f size cs => cases htarget
  | _ =>
      cases htarget
      exact h

/-- A request inside a critical section of the scope is about a session of the scope. -/
theorem InScope.owned (h : InScope P op l l') {sid : UUID} (hown : l.Owns sid) :
    sid ∈ P.sessions := by
  have htarget := hown.2
  rw [h.knows_op] at htarget
  exact h.within.target htarget

/-- It saves sessions of the scope only. -/
theorem InScope.saved (h : InScope P op l l') {s : UploadSession}
    (hallow : l.allows env (.sessionSave s)) :
    s.sessionId ∈ P.sessions ∧ s.tenantId ∈ P.tenants := by
  have hop := h.knows_op
  rcases hallow with ⟨hnew, _⟩ | ⟨hown, _, v, hview, hsaves⟩
  · rw [hop] at hnew
    cases op with
    | initiate newId t f size cs =>
        simp only [SessionLocal.Creates] at hnew
        subst hnew
        exact h.within
    | _ => exact hnew.elim
  · -- the tenant is that of the session it takes for stored
    refine ⟨h.owned hown, ?_⟩
    have htenant : s.tenantId = v.tenantId := by
      rw [hop] at hsaves
      cases op with
      | uploadChunk sid index cs data =>
          rcases UploadSession.updateOffset_ok hsaves.2 with ⟨_, _, _, _, htenant, _⟩
          exact htenant
      | finalize sid =>
          rw [hsaves.2.2]
          rfl
      | _ => exact hsaves.elim
    rw [htenant]
    exact h.view v hview

/-- It makes calls about the scope only. -/
theorem InScope.about (h : InScope P op l l') (hallow : l.allows env c) (hallow' : l'.allows c) :
    c.About P := by
  cases c with
  | sessionGet sid =>
      have htarget := hallow.1
      rw [h.knows_op] at htarget
      exact h.within.target htarget
  | sessionSave s => exact (h.saved hallow).1
  | sessionDelete sid => exact h.owned hallow.1
  | acquireLock sid ttl =>
      have htarget := hallow.1
      rw [h.knows_op] at htarget
      exact h.within.target htarget
  | releaseLock sid => exact h.owned hallow
  | chunkSave sid chunk => exact h.owned hallow.1
  | chunkGet sid i => exact h.owned hallow.1
  | chunkPull sid i => exact h.owned hallow.1
  | deleteAll sid => exact h.owned hallow.1
  | getByChecksum t cs =>
      rcases hallow' with ⟨newId, f, size, hop⟩
      rw [h.answered_op] at hop
      have hwithin := h.within
      rw [hop] at hwithin
      exact hwithin.2
  | registerFile t f uri size cs =>
      rcases hallow' with ⟨_, v, hcopy, _, rfl, _⟩
      exact h.read v hcopy
  | initiateMultipartUpload t f =>
      rcases hallow' with ⟨_, _, _, v, hcopy, rfl, _⟩
      exact h.read v hcopy
  | uploadPart t f u n data =>
      rcases hallow' with ⟨_, _, _, _, _, _, v, hcopy, rfl, _⟩
      exact h.read v hcopy
  | completeMultipartUpload t f u parts =>
      rcases hallow' with ⟨_, _, _, _, _, v, hcopy, rfl, _⟩
      exact h.read v hcopy
  | abortMultipartUpload t f u => trivial
  | publishFileUploadCompleted event => trivial

/-- What it is answered from a world in which the scope is in order keeps it so. -/
theorem InScope.next {w : World} (h : InScope P op l l') (hw : Tenanted P w)
    (hallow : l.allows env c) (hallow' : l'.allows c) (out : Outcome) :
    InScope P op (l.next c (handle env out c w).1) (l'.next c (handle env out c w).1) := by
  have hread : ∀ v, c.sessionRead (handle env out c w).1 = some v → v.tenantId ∈ P.tenants := by
    intro v hv
    rcases handle_sessionRead env out c w hv with ⟨sid, rfl, hstored⟩
    exact hw.tenant sid (h.about hallow hallow') v hstored
  refine ⟨h.within, ?_, ?_, ?_, ?_, ?_⟩
  · rw [SessionLocal.next_op, h.knows_op]
  · rw [CommitLocal.next_op, h.answered_op]
  · intro v hv
    rcases SessionLocal.next_copy hv with hv | hv
    · exact h.copy v hv
    · exact hread v hv
  · intro v hv
    rcases SessionLocal.next_view hv with hv | rfl | ⟨_, hv⟩
    · exact h.view v hv
    · exact (h.saved hallow).2
    · exact h.copy v hv
  · intro v hv
    rw [CommitLocal.next_copy _ hallow'] at hv
    rcases Option.or_eq_some_iff.1 hv with hv | ⟨_, hv⟩
    · exact h.read v hv
    · exact hread v hv

/-- It leaves the scope in order. -/
theorem InScope.tenanted {w : World} (h : InScope P op l l') (hw : Tenanted P w)
    (hallow : l.allows env c) (out : Outcome) : Tenanted P (handle env out c w).2 := by
  constructor
  · intro sid hsid v hv
    rcases handle_session? env out c w sid with hsame | ⟨s, rfl, _, hs⟩ | ⟨_, hnone⟩
    · exact hw.tenant sid hsid v (hsame.symm.trans hv)
    · cases hs.symm.trans hv
      exact (h.saved hallow).2
    · cases hnone.symm.trans hv
  · intro sid hsid v hv
    rcases handle_session? env out c w sid with hsame | ⟨s, rfl, hid, hs⟩ | ⟨_, hnone⟩
    · exact hw.keyed sid hsid v (hsame.symm.trans hv)
    · cases hs.symm.trans hv
      exact hid
    · cases hnone.symm.trans hv

end InScope

end FileUploader
