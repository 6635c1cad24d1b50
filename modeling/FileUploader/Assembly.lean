import FileUploader.CommitDiscipline

/-! # The committed object

What a finalize commits is the concatenation of the payloads that it has fetched,
in their order, whatever the other requests do in between: no other request can
touch its multipart upload.
-/

namespace FileUploader

open Await S3ObjectStorage

variable {env : Env}

/-! ## The record of a finalize -/

/-- What a `chunk_repo.get` finds: session, index, and the payload cached there in `w`. -/
def Call.cached (w : World) : (c : Call) → Except Exn c.Resp → Option (UUID × Int × Bytes)
  | .chunkGet sid index, .ok _ =>
      (RedisChunkRepository.get w sid index).map fun chunk => (sid, index, chunk.rawBytes)
  | _, _ => none

/-- The object a call has committed: tenant, file, URI, and its bytes in `w`. -/
def Call.committed (w : World) :
    (c : Call) → Except Exn c.Resp → Option (UUID × UUID × String × Bytes)
  | .completeMultipartUpload t f _ _, .ok uri =>
      (w.objects (objectKey t f)).map fun object => (t, f, uri, object)
  | _, _ => none

section Record

variable (calls : Log env)

/-- The sessions that these calls have read. -/
def readsOf : List UploadSession := calls.filterMap fun e => e.call.sessionRead e.resp

/-- The chunks that these calls have found, each as it was cached then. -/
def chunksOf : List (UUID × Int × Bytes) :=
  calls.filterMap fun e => e.call.cached e.world e.resp

def fetchesOf : List Bytes := (chunksOf calls).map (·.2.2)

/-- The objects that these calls have committed, each with the bytes stored then. -/
def commitsOf : List (UUID × UUID × String × Bytes) :=
  calls.filterMap fun e => e.call.committed e.world e.resp

def registrationsOf : List (UUID × String × String) :=
  calls.filterMap fun e => e.call.registered e.resp

def announcementsOf : List Event := calls.filterMap fun e => e.call.announced e.resp

/-- The local state of a request is what its calls have on record. -/
structure Recorded (l : CommitLocal) : Prop where
  reads : readsOf calls = l.copy.toList
  fetches : fetchesOf calls = l.fetched
  places : ∀ sid, l.op = .finalize sid →
    chunksOf calls = l.fetched.mapIdx fun n data => (sid, (n : Int), data)
  uncommitted : l.uri = none → commitsOf calls = []
  committed : ∀ s3Uri, l.uri = some s3Uri → ∃ s, l.copy = some s ∧
    s3Uri = uri env (objectKey s.tenantId s.fileId) ∧
      commitsOf calls = [(s.tenantId, s.fileId, s3Uri, l.fetched.flatten)]
  unregistered : l.registered = false → registrationsOf calls = []
  registered : l.registered = true → ∃ s s3Uri, l.copy = some s ∧ l.uri = some s3Uri ∧
    registrationsOf calls = [(s.tenantId, s.checksum, s3Uri)]
  unpublished : l.published = false → announcementsOf calls = []
  published : l.published = true → ∃ s s3Uri, l.copy = some s ∧ l.uri = some s3Uri ∧
    announcementsOf calls = [⟨s.tenantId, s.fileId, s3Uri, s.totalSize, s.checksum⟩]

end Record

theorem filterMap_concat {α β : Type} (f : α → Option β) (l : List α) (a : α) :
    (l ++ [a]).filterMap f = l.filterMap f ++ (f a).toList := by
  rw [List.filterMap_append]
  cases h : f a <;> simp [h]

theorem Call.committed_of_completed_none {w : World} {cl : Call} {r : Except Exn cl.Resp}
    (h : cl.completed r = none) : cl.committed w r = none := by
  cases cl with
  | completeMultipartUpload t f u parts =>
      rcases r with x | a
      · rfl
      · cases h
  | _ => rfl

/-- A chunk is looked up in the request's own session, at the next index. -/
theorem CommitLocal.cached_eq {l : CommitLocal} {cl : Call} {r : Except Exn cl.Resp} {w : World}
    (hallow : l.allows cl) (hcached : ∀ sid index, cl = .chunkGet sid index →
      cl.cached w r = (cl.fetched r).map fun chunk => (sid, index, chunk.rawBytes)) :
    (cl.cached w r).map (·.2.2) = (cl.fetched r).map (·.rawBytes) ∧
      ∀ sid, l.op = .finalize sid → cl.cached w r =
        (cl.fetched r).map fun chunk => (sid, (l.fetched.length : Int), chunk.rawBytes) := by
  cases cl with
  | chunkGet sid index =>
      rcases hallow with ⟨hop, _, _, hindex, _⟩
      have hfound := hcached sid index rfl
      refine ⟨?_, fun sid' hop' => ?_⟩
      · rw [hfound, Option.map_map]
        rfl
      · rw [hop] at hop'
        cases hop'
        rw [hfound, hindex]
  | _ => exact ⟨rfl, fun _ _ => rfl⟩

section Next

variable {calls : Log env} {i : Nat} {l : CommitLocal} {cl : Call} {r : Except Exn cl.Resp}
  {w : World}

/-- The copy of the session is read once. -/
theorem CommitLocal.next_copy_of_some (hallow : l.allows cl) (r : Except Exn cl.Resp)
    {s : UploadSession} (hs : l.copy = some s) : (l.next cl r).copy = some s := by
  rw [CommitLocal.next_copy r hallow, hs]
  rfl

/-- The object is committed once. -/
theorem CommitLocal.next_uri_of_some (hallow : l.allows cl) (r : Except Exn cl.Resp)
    {s3Uri : String} (hs : l.uri = some s3Uri) : (l.next cl r).uri = some s3Uri := by
  rw [CommitLocal.next_uri]
  cases hc : cl.completed r with
  | none => exact hs
  | some s3Uri' =>
      rw [CommitLocal.uri_of_completed hallow hc] at hs
      cases hs

variable (h : Recorded calls l) (hallow : l.allows cl)
include h hallow

theorem Recorded.reads_next : readsOf (calls ++ [(⟨i, cl, r, w⟩ : Entry (service env))]) =
    (l.next cl r).copy.toList := by
  have hreads : readsOf (calls ++ [(⟨i, cl, r, w⟩ : Entry (service env))]) =
      readsOf calls ++ (cl.sessionRead r).toList := filterMap_concat _ _ _
  rw [hreads, h.reads, CommitLocal.next_copy r hallow]
  cases hc : l.copy with
  | none => rfl
  | some s =>
      cases cl with
      | sessionGet sid =>
          rw [show l.copy = none from hallow] at hc
          cases hc
      | _ => rfl

theorem Recorded.committed_next {s3Uri : String}
    (hcommit : ∀ s3Uri, cl.completed r = some s3Uri → ∃ s, l.copy = some s ∧
      s3Uri = uri env (objectKey s.tenantId s.fileId) ∧
        cl.committed w r = some (s.tenantId, s.fileId, s3Uri, l.fetched.flatten))
    (hsome : (l.next cl r).uri = some s3Uri) : ∃ s, (l.next cl r).copy = some s ∧
      s3Uri = uri env (objectKey s.tenantId s.fileId) ∧
        commitsOf (calls ++ [(⟨i, cl, r, w⟩ : Entry (service env))]) =
          [(s.tenantId, s.fileId, s3Uri, (l.next cl r).fetched.flatten)] := by
  have hcommits : commitsOf (calls ++ [(⟨i, cl, r, w⟩ : Entry (service env))]) =
      commitsOf calls ++ (cl.committed w r).toList := filterMap_concat _ _ _
  rw [CommitLocal.next_uri] at hsome
  rw [hcommits, CommitLocal.next_fetched]
  cases hc : cl.completed r with
  | none =>
      rw [hc] at hsome
      rcases h.committed s3Uri hsome with ⟨s, hs, hkey, hobject⟩
      refine ⟨s, CommitLocal.next_copy_of_some hallow r hs, hkey, ?_⟩
      rw [Call.committed_of_completed_none hc, hobject]
      cases hf : cl.fetched r with
      | none => simp
      | some chunk =>
          -- nothing is fetched once the object is committed
          rw [CommitLocal.uri_of_fetched hallow hf] at hsome
          cases hsome
  | some s3Uri' =>
      rw [hc] at hsome
      cases hsome
      rcases hcommit s3Uri hc with ⟨s, hs, hkey, hobject⟩
      refine ⟨s, CommitLocal.next_copy_of_some hallow r hs, hkey, ?_⟩
      rw [hobject, h.uncommitted (CommitLocal.uri_of_completed hallow hc)]
      have hno : cl.fetched r = none := by
        cases cl with
        | completeMultipartUpload t f u parts => rfl
        | _ => simp [Call.completed] at hc
      simp [hno]

theorem Recorded.registered_next (htrue : (l.next cl r).registered = true) :
    ∃ s s3Uri, (l.next cl r).copy = some s ∧ (l.next cl r).uri = some s3Uri ∧
      registrationsOf (calls ++ [(⟨i, cl, r, w⟩ : Entry (service env))]) =
        [(s.tenantId, s.checksum, s3Uri)] := by
  have hregs : registrationsOf (calls ++ [(⟨i, cl, r, w⟩ : Entry (service env))]) =
      registrationsOf calls ++ (cl.registered r).toList := filterMap_concat _ _ _
  rw [CommitLocal.next_registered] at htrue
  cases hc : cl.registered r with
  | none =>
      rw [hc] at htrue
      rcases h.registered (by simpa using htrue) with ⟨s, s3Uri, hs, hu, hlist⟩
      exact ⟨s, s3Uri, CommitLocal.next_copy_of_some hallow r hs,
        CommitLocal.next_uri_of_some hallow r hu, by rw [hregs, hc, hlist]; rfl⟩
  | some entry =>
      rcases entry with ⟨t, cs, s3Uri⟩
      rcases CommitLocal.registers_of_registered hallow hc with ⟨honce, s, hs, hu, rfl, rfl⟩
      exact ⟨s, s3Uri, CommitLocal.next_copy_of_some hallow r hs,
        CommitLocal.next_uri_of_some hallow r hu, by rw [hregs, hc, h.unregistered honce]; rfl⟩

theorem Recorded.published_next (htrue : (l.next cl r).published = true) :
    ∃ s s3Uri, (l.next cl r).copy = some s ∧ (l.next cl r).uri = some s3Uri ∧
      announcementsOf (calls ++ [(⟨i, cl, r, w⟩ : Entry (service env))]) =
        [⟨s.tenantId, s.fileId, s3Uri, s.totalSize, s.checksum⟩] := by
  have hanns : announcementsOf (calls ++ [(⟨i, cl, r, w⟩ : Entry (service env))]) =
      announcementsOf calls ++ (cl.announced r).toList := filterMap_concat _ _ _
  rw [CommitLocal.next_published] at htrue
  cases hc : cl.announced r with
  | none =>
      rw [hc] at htrue
      rcases h.published (by simpa using htrue) with ⟨s, s3Uri, hs, hu, hlist⟩
      exact ⟨s, s3Uri, CommitLocal.next_copy_of_some hallow r hs,
        CommitLocal.next_uri_of_some hallow r hu, by rw [hanns, hc, hlist]; rfl⟩
  | some event =>
      rcases CommitLocal.registers_of_announced hallow hc with ⟨honce, s, s3Uri, hs, hu, rfl⟩
      exact ⟨s, s3Uri, CommitLocal.next_copy_of_some hallow r hs,
        CommitLocal.next_uri_of_some hallow r hu, by rw [hanns, hc, h.unpublished honce]; rfl⟩

/-- The record after one more call. -/
theorem Recorded.next
    (hcached : ∀ sid index, cl = .chunkGet sid index →
      cl.cached w r = (cl.fetched r).map fun chunk => (sid, index, chunk.rawBytes))
    (hcommit : ∀ s3Uri, cl.completed r = some s3Uri → ∃ s, l.copy = some s ∧
      s3Uri = uri env (objectKey s.tenantId s.fileId) ∧
        cl.committed w r = some (s.tenantId, s.fileId, s3Uri, l.fetched.flatten)) :
    Recorded (calls ++ [⟨i, cl, r, w⟩]) (l.next cl r) := by
  have hcommits : commitsOf (calls ++ [(⟨i, cl, r, w⟩ : Entry (service env))]) =
      commitsOf calls ++ (cl.committed w r).toList := filterMap_concat _ _ _
  have hregs : registrationsOf (calls ++ [(⟨i, cl, r, w⟩ : Entry (service env))]) =
      registrationsOf calls ++ (cl.registered r).toList := filterMap_concat _ _ _
  have hanns : announcementsOf (calls ++ [(⟨i, cl, r, w⟩ : Entry (service env))]) =
      announcementsOf calls ++ (cl.announced r).toList := filterMap_concat _ _ _
  have hchunks : chunksOf (calls ++ [(⟨i, cl, r, w⟩ : Entry (service env))]) =
      chunksOf calls ++ (cl.cached w r).toList := filterMap_concat _ _ _
  rcases CommitLocal.cached_eq hallow hcached with ⟨hdata, hplace⟩
  -- each list of the log grows by what this call adds to it
  constructor
  · exact h.reads_next hallow
  · have hfetches := h.fetches
    rw [fetchesOf] at hfetches ⊢
    rw [hchunks, List.map_append, hfetches, CommitLocal.next_fetched, ← hdata]
    cases cl.cached w r <;> rfl
  · intro sid hop
    rw [CommitLocal.next_op] at hop
    rw [hchunks, h.places sid hop, hplace sid hop, CommitLocal.next_fetched]
    cases cl.fetched r with
    | none => simp
    | some chunk => simp [List.mapIdx_append]
  · intro hnone
    rw [CommitLocal.next_uri, Option.or_eq_none_iff] at hnone
    rw [hcommits, Call.committed_of_completed_none hnone.1, h.uncommitted hnone.2]
    rfl
  · exact fun s3Uri hsome => h.committed_next hallow hcommit hsome
  · intro hfalse
    rw [CommitLocal.next_registered, Bool.or_eq_false_iff, Option.isSome_eq_false_iff,
      Option.isNone_iff_eq_none] at hfalse
    rw [hregs, hfalse.2, h.unregistered hfalse.1]
    rfl
  · exact h.registered_next hallow
  · intro hfalse
    rw [CommitLocal.next_published, Bool.or_eq_false_iff, Option.isSome_eq_false_iff,
      Option.isNone_iff_eq_none] at hfalse
    rw [hanns, hfalse.2, h.unpublished hfalse.1]
    rfl
  · exact h.published_next hallow

end Next

/-! ## What S3 holds of an open upload -/

/-- S3 holds the parts that it has answered with, each with the payload fetched for it. -/
def Received (env : Env) (w : World) (l : CommitLocal) : Prop :=
  l.opened = true → ∀ u, l.uploadId = some u → ∃ upload, w.uploads u = some upload ∧
    ∀ (n : Nat) part, l.parts[n]? = some part → ∃ data, l.fetched[n]? = some data ∧
      part = ⟨env.etag data, n + 1⟩ ∧ upload.parts (n + 1) = some data

/-- What S3 makes one object of is what has been fetched, in that order. -/
theorem Received.payloads {w : World} {l : CommitLocal} {u : Nat} (h : Received env w l)
    (hopen : l.opened = true) (hu : l.uploadId = some u)
    (hlen : l.parts.length = l.fetched.length) :
    ∃ upload, w.uploads u = some upload ∧
      S3ObjectStorage.payloads env upload (sortedParts l.parts) = some l.fetched := by
  rcases h hopen u hu with ⟨upload, hup, hparts⟩
  have hnumbers : ∀ (n : Nat) part, l.parts[n]? = some part → part.partNumber = n + 1 := by
    intro n part hpart
    rcases hparts n part hpart with ⟨data, _, rfl, _⟩
    rfl
  rw [sortedParts_eq hnumbers]
  exact ⟨upload, hup, payloads_eq l.parts l.fetched hlen hparts⟩

section Step

variable {w : World} {l : CommitLocal} {cl : Call} {out : Outcome}

/-- A call of another request leaves an open upload as it is. -/
theorem Received.of_other {u : Nat} (h : Received env w l) (hu : l.uploadId = some u)
    (hissued : u < w.nextUploadId) (hother : ∀ u', cl.uses = some u' → u' ≠ u) :
    Received env (handle env out cl w).2 l := by
  intro hopen u' hu'
  rw [hu] at hu'
  cases hu'
  rcases h hopen u hu with ⟨upload, hup, hparts⟩
  refine ⟨upload, ?_, hparts⟩
  rw [handle_uploads_unused env out cl w hissued fun hu' => hother u hu' rfl, hup]

/-- An upload that stays open is still there, and so are the parts answered before. -/
theorem uploads_next (out : Outcome) {upload : MultipartUpload} {u : Nat} (hallow : l.allows cl)
    (hissued : u < w.nextUploadId) (hup : w.uploads u = some upload)
    (hcloses : cl.closes = false) :
    ∃ upload', (handle env out cl w).2.uploads u = some upload' ∧
      ∀ n, n < l.parts.length → upload'.parts (n + 1) = upload.parts (n + 1) := by
  rcases handle_uploads env out cl w hissued with
    hsame | ⟨t, f, n, data, upload', hc, hup', hset⟩ | ⟨t, f, parts, hc⟩ | ⟨t, f, hc⟩
  · exact ⟨upload, hsame.trans hup, fun _ _ => rfl⟩
  · -- a new part comes after them
    subst hc
    rcases hallow with ⟨_, _, _, hn, _, hlen, _⟩
    rw [hup] at hup'
    cases hup'
    refine ⟨_, hset, fun m hm => Function.update_of_ne ?_ _ _⟩
    omega
  · subst hc
    cases hcloses
  · subst hc
    cases hcloses

/-- After a call of its own request. -/
theorem Received.next (h : Received env w l) (hallow : l.allows cl)
    (hissued : ∀ u, l.uploadId = some u → u < w.nextUploadId) :
    Received env (handle env out cl w).2 (l.next cl (handle env out cl w).1) := by
  intro hopen u hu
  rw [CommitLocal.next_uploadId] at hu
  cases hi : cl.initiated (handle env out cl w).1 with
  | some u' =>
      -- an upload without parts
      rw [hi] at hu
      cases hu
      rcases handle_initiated env out cl w hi with ⟨_, _, key, hup⟩
      refine ⟨_, hup, ?_⟩
      have hnil : (l.next cl (handle env out cl w).1).parts = [] := by
        cases cl with
        | initiateMultipartUpload t f =>
            rcases hallow with ⟨_, _, hparts, _⟩
            rw [CommitLocal.next_parts, hparts]
            rfl
        | _ => simp [Call.initiated] at hi
      simp [hnil]
  | none =>
      rw [hi, Option.none_or] at hu
      rcases CommitLocal.next_opened hopen with hsome | ⟨hwas, hcloses⟩
      · simp [hi] at hsome
      rcases h hwas u hu with ⟨upload, hup, hparts⟩
      rcases uploads_next out hallow (hissued u hu) hup hcloses with
        ⟨upload', hup', hsame⟩
      refine ⟨upload', hup', ?_⟩
      intro n part hpart
      rw [CommitLocal.next_parts] at hpart
      rw [CommitLocal.next_fetched]
      -- a part that was there before: its payload is still what S3 holds
      have hold : l.parts[n]? = some part → ∃ data,
          (l.fetched ++ ((cl.fetched (handle env out cl w).1).map (·.rawBytes)).toList)[n]? =
            some data ∧ part = ⟨env.etag data, n + 1⟩ ∧ upload'.parts (n + 1) = some data := by
        intro hpart
        rcases hparts n part hpart with ⟨data, hdata, hpart', hheld⟩
        have hn := (List.getElem?_eq_some_iff.1 hpart).1
        have hn' := (List.getElem?_eq_some_iff.1 hdata).1
        exact ⟨data, by rw [List.getElem?_append_left hn', hdata], hpart', (hsame n hn).trans hheld⟩
      cases hp : cl.partUploaded (handle env out cl w).1 with
      | none =>
          rw [hp] at hpart
          exact hold (by simpa using hpart)
      | some part' =>
          rw [hp] at hpart
          rcases getElem?_concat hpart with hpart | ⟨rfl, rfl⟩
          · exact hold hpart
          -- the part just answered
          rcases handle_partUploaded env out cl w hp with
            ⟨t, f, u', n, data, hc, hpart', upload'', hup'', hheld⟩
          subst hc
          rcases hallow with ⟨_, _, hu', hn, hlast, hlen, _⟩
          rw [hu] at hu'
          cases hu'
          rw [hup'] at hup''
          cases hup''
          have hn' : l.parts.length + 1 = n := by omega
          refine ⟨data, ?_, by rw [hpart', hn'], by rw [hn', hheld]⟩
          rw [List.getLast?_eq_getElem?] at hlast
          rw [show l.parts.length = l.fetched.length - 1 by omega]
          simpa [Call.fetched] using hlast

end Step

/-! ## The invariant -/

/-- Multipart uploads are used by the request that has initiated them only, and
what S3 holds and what is logged is what the requests have been answered. -/
structure Assembled (s : Scene (service env)) : Prop where
  issued : ∀ (i : Nat) (op : Op), s.ops[i]? = some op → ∀ u,
    (answered s i op).uploadId = some u → u < s.world.nextUploadId
  own : ∀ (i : Nat) (op : Op), s.ops[i]? = some op → ∀ (j : Nat) (op' : Op), s.ops[j]? = some op' →
    ∀ u, (answered s i op).uploadId = some u → (answered s j op').uploadId = some u → i = j
  received : ∀ (i : Nat) (op : Op), s.ops[i]? = some op → Received env s.world (answered s i op)
  recorded : ∀ (i : Nat) (op : Op), s.ops[i]? = some op →
    Recorded (callsOf i s.log) (answered s i op)

section Step

variable {s : Scene (service env)} {i : Nat} {op : Op} {cl : Call} {out : Outcome}

/-- The only new upload id is a fresh one, and it is the caller's. -/
theorem uploadId_answer (hop : s.ops[i]? = some op) (cl : Call) (out : Outcome) :
    ∀ (j : Nat) (op' : Op),
    s.ops[j]? = some op' → ∀ u, (answered (s.answer i cl out) j op').uploadId = some u →
      (answered s j op').uploadId = some u ∨
        j = i ∧ u = s.world.nextUploadId ∧ (handle env out cl s.world).2.nextUploadId = u + 1 := by
  refine answered_forall_answer (P := fun j op' l => ∀ u, l.uploadId = some u →
    (answered s j op').uploadId = some u ∨ j = i ∧ u = s.world.nextUploadId ∧
      (handle env out cl s.world).2.nextUploadId = u + 1) hop ?_ (fun j op' _ _ u hu => Or.inl hu)
  intro u hu
  rw [CommitLocal.next_uploadId] at hu
  cases hi : cl.initiated (handle env out cl s.world).1 with
  | none =>
      rw [hi, Option.none_or] at hu
      exact Or.inl hu
  | some u' =>
      rw [hi] at hu
      cases hu
      rcases handle_initiated env out cl s.world hi with ⟨hfresh, hnext, _⟩
      exact Or.inr ⟨rfl, hfresh, hnext⟩

theorem uses_eq {l : CommitLocal} (hallow : l.allows cl) {u : Nat} (h : cl.uses = some u) :
    l.uploadId = some u := by
  cases cl with
  | uploadPart t f u' n data =>
      rcases hallow with ⟨_, _, hu, _⟩
      cases h
      exact hu
  | completeMultipartUpload t f u' parts =>
      rcases hallow with ⟨_, _, hu, _⟩
      cases h
      exact hu
  | abortMultipartUpload t f u' =>
      cases h
      exact hallow
  | _ => cases h

theorem cached_eq_fetched (w : World) (sid : UUID) (index : Int) (hc : cl = .chunkGet sid index) :
    cl.cached (handle env out cl w).2 (handle env out cl w).1 =
      (cl.fetched (handle env out cl w).1).map fun chunk => (sid, index, chunk.rawBytes) := by
  subst hc
  cases out with
  | works => rfl
  | raises msg => rfl
  | raisesAfter msg => rfl

/-- What is committed is what has been fetched. -/
theorem Assembled.commit (h : Assembled s) (hop : s.ops[i]? = some op)
    (hallow : (answered s i op).allows cl) {s3Uri : String}
    (hc : cl.completed (handle env out cl s.world).1 = some s3Uri) :
    ∃ v, (answered s i op).copy = some v ∧ s3Uri = uri env (objectKey v.tenantId v.fileId) ∧
      (handle env out cl s.world).2.objects (objectKey v.tenantId v.fileId) =
        some (answered s i op).fetched.flatten ∧
      cl.committed (handle env out cl s.world).2 (handle env out cl s.world).1 =
        some (v.tenantId, v.fileId, s3Uri, (answered s i op).fetched.flatten) := by
  cases cl with
  | completeMultipartUpload t f u parts =>
      rcases hallow with ⟨hopen, _, hu, rfl, hlen, v, hv, rfl, rfl⟩
      cases hr : (handle env out (.completeMultipartUpload v.tenantId v.fileId u
          (answered s i op).parts) s.world).1 with
      | error x => rw [hr] at hc; cases hc
      | ok s3Uri' =>
          rw [hr] at hc
          cases hc
          rcases handle_completed env out s.world hr with ⟨upload, datas, hup, hp, huri, hobject⟩
          rcases (h.received i op hop).payloads hopen hu hlen with ⟨upload', hup', hp'⟩
          rw [hup] at hup'
          cases hup'
          rw [hp] at hp'
          cases hp'
          exact ⟨v, hv, huri, hobject, by simp only [Call.committed, hobject, Option.map_some]⟩
  | _ => simp [Call.completed] at hc

theorem Assembled.answer (h : Assembled s) (hop : s.ops[i]? = some op)
    (hallow : (answered s i op).allows cl) : Assembled (s.answer i cl out) := by
  have hids := uploadId_answer hop cl out
  refine ⟨?_, ?_, ?_, ?_⟩
  · -- an id that is known was known before, or has just been given out
    intro j op' hj u hu
    rcases hids j op' hj u hu with hwas | ⟨_, _, hnext⟩
    · exact Nat.lt_of_lt_of_le (h.issued j op' hj u hwas) (handle_nextUploadId env out cl s.world)
    · exact hnext ▸ Nat.lt_succ_self u
  · -- an id given out by this call is larger than all before
    intro j op' hj k op'' hk u hju hku
    rcases hids j op' hj u hju with hj' | ⟨rfl, hfresh, _⟩
    · rcases hids k op'' hk u hku with hk' | ⟨_, hfresh, _⟩
      · exact h.own j op' hj k op'' hk u hj' hk'
      · have hlt := h.issued j op' hj u hj'
        omega
    · rcases hids k op'' hk u hku with hk' | ⟨rfl, _, _⟩
      · have hlt := h.issued k op'' hk u hk'
        omega
      · rfl
  · refine answered_forall_answer (P := fun _ _ l => Received env (handle env out cl s.world).2 l)
      hop ((h.received i op hop).next hallow (h.issued i op hop)) ?_
    intro j op' hj hop' hopen u hu
    refine (h.received j op' hop').of_other hu (h.issued j op' hop' u hu) ?_ hopen u hu
    intro u' hu' heq
    subst heq
    exact hj (h.own j op' hop' i op hop _ hu (uses_eq hallow hu'))
  · refine answered_forall_answer (P := fun j _ l =>
      Recorded (callsOf j (s.answer i cl out).log) l) hop ?_ ?_
    · rw [callsOf_answer_self]
      exact (h.recorded i op hop).next hallow (cached_eq_fetched s.world)
        (fun s3Uri hc => by
          rcases h.commit hop hallow hc with ⟨v, hv, huri, _, hcommitted⟩
          exact ⟨v, hv, huri, hcommitted⟩)
    · intro j op' hj hop'
      rw [callsOf_answer_other s i cl out hj]
      exact h.recorded j op' hop'

/-- The upload of another request is as it was. -/
theorem Assembled.uploads_kept (h : Assembled s) (hop : s.ops[i]? = some op)
    (hallow : (answered s i op).allows cl) {j : Nat} {op' : Op} (hj : j ≠ i)
    (hop' : s.ops[j]? = some op') {u : Nat} (hu : (answered s j op').uploadId = some u) :
    (handle env out cl s.world).2.uploads u = s.world.uploads u := by
  apply handle_uploads_unused
  · exact h.issued j op' hop' u hu
  · intro hu'
    exact hj (h.own j op' hop' i op hop u hu (uses_eq hallow hu'))

end Step

theorem assembled_inductive (G : Run env → Label (service env) → Prop) :
    Inductive commitDiscipline CommitLocal.start G (fun s => Assembled s) where
  spawn := by
    intro c op _ hwf h
    have hnil : callsOf c.ops.length c.log = [] := hwf.callsOf_eq_nil
    refine ⟨?_, ?_, ?_, ?_⟩
    · exact answered_forall_spawn (P := fun _ _ l => ∀ u, l.uploadId = some u →
        u < c.world.nextUploadId) hwf (by simp [CommitLocal.start]) h.issued
    · refine answered_forall_spawn (P := fun i _ l => ∀ (j : Nat) (op' : Op),
        (c.ops ++ [op])[j]? = some op' → ∀ u, l.uploadId = some u →
          (answered (⟨c.world, c.ops ++ [op], c.log⟩ : Scene (service env)) j op').uploadId =
            some u → i = j) hwf (by simp [CommitLocal.start]) ?_
      intro i op' hi
      exact answered_forall_spawn (P := fun j _ l => ∀ u,
        (answered c.scene i op').uploadId = some u → l.uploadId = some u → i = j) hwf
        (by simp [CommitLocal.start]) (fun j op'' hj => h.own i op' hi j op'' hj)
    · exact answered_forall_spawn (P := fun _ _ l => Received env c.world l) hwf
        (by simp [Received, CommitLocal.start]) h.received
    · refine answered_forall_spawn (P := fun i _ l => Recorded (callsOf i c.log) l) hwf ?_
        h.recorded
      rw [show callsOf c.scene.ops.length c.log = [] from hnil]
      exact ⟨rfl, rfl, fun _ _ => rfl, fun _ => rfl, by simp [CommitLocal.start], fun _ => rfl,
        by simp [CommitLocal.start], fun _ => rfl, by simp [CommitLocal.start]⟩
  move := fun _ _ _ h => ⟨h.issued, h.own, h.received, h.recorded⟩
  call := fun _ _ _ _ _ _ hop _ h hallow => ⟨trivial, h.answer hop hallow⟩

/-- What is known of every configuration reached. -/
theorem reach_assembled {G : Run env → Label (service env) → Prop} {now : Nat} {c : Run env}
    (h : Reach G (Config.start (World.empty now)) c) :
    Assembled c.scene ∧ ∀ i op r, c.ops[i]? = some op → c.result i = some r →
      commitPost op r (answered c.scene i op) := by
  have hinit : Assembled (⟨World.empty now, [], []⟩ : Scene (service env)) :=
    ⟨by simp, by simp, by simp, by simp⟩
  rcases h.invariant commitPost (fun _ op _ => Commit.prog_obeys env op) (assembled_inductive G)
    hinit with ⟨_, hinv, hobeys⟩
  exact ⟨hinv, fun i op r hop hres => hobeys i op _ (request_of_result hop hres)⟩

/-- In every run, a finalize that has returned a URI has read one session, committed one
object there, registered it and announced it, each once and with the session's digest. The
object is the concatenation of the payloads that the finalize has found, at 0, 1, 2, … -/
theorem committed_once {now : Nat} {c : Run env} {i : Nat} {sid : UUID} {s3Uri : String}
    (h : Reach (fun _ _ => True) (Config.start (World.empty now)) c)
    (hop : c.ops[i]? = some (.finalize sid))
    (hres : c.result i = some (.ok (.finalized s3Uri))) :
    ∃ (s : UploadSession) (datas : List Bytes), readsOf (callsOf i c.log) = [s] ∧
      commitsOf (callsOf i c.log) = [(s.tenantId, s.fileId, s3Uri, datas.flatten)] ∧
      registrationsOf (callsOf i c.log) = [(s.tenantId, s.checksum, s3Uri)] ∧
      announcementsOf (callsOf i c.log) =
        [⟨s.tenantId, s.fileId, s3Uri, s.totalSize, s.checksum⟩] ∧
      chunksOf (callsOf i c.log) = datas.mapIdx (fun n data => (sid, (n : Int), data)) ∧
      datas = (answered c.scene i (.finalize sid)).fetched := by
  rcases reach_assembled h with ⟨hinv, hpost⟩
  rcases hpost i _ _ hop hres _ rfl with ⟨s3Uri', heq, huri, hregistered, hpublished⟩
  cases heq
  have hrec : Recorded (callsOf i c.log) (answered c.scene i (.finalize sid)) :=
    hinv.recorded i _ hop
  rcases hrec.committed s3Uri huri with ⟨s, hcopy, _, hcommits⟩
  rcases hrec.registered hregistered with ⟨s', u', hcopy', huri', hregs⟩
  rcases hrec.published hpublished with ⟨s'', u'', hcopy'', huri'', hanns⟩
  -- the three records are about the one session that was read
  have hs' : s = s' := Option.some.inj (hcopy.symm.trans hcopy')
  have hs'' : s = s'' := Option.some.inj (hcopy.symm.trans hcopy'')
  have hu' : s3Uri = u' := Option.some.inj (huri.symm.trans huri')
  have hu'' : s3Uri = u'' := Option.some.inj (huri.symm.trans huri'')
  subst hs' hs'' hu' hu''
  have hplaces := hrec.places sid (answered_op c.scene i (.finalize sid))
  refine ⟨s, _, ?_, hcommits, hregs, hanns, hplaces, rfl⟩
  rw [hrec.reads, hcopy]
  rfl

/-! ## Concrete runs -/

namespace Demo

/-- A session of one byte under the declared digest, uploaded. -/
def oneUploaded (declared : String) : List (Label (service Demo.env)) :=
  [.spawn (.initiate sid tenant file 1 declared)] ++ calls 0 2 ++
    [.spawn (.uploadChunk sid 0 (sha256 a) a)] ++ calls 1 5

/-- And its finalize. -/
def oneFinalized : List (Label (service Demo.env)) :=
  [.spawn (.finalize sid)] ++ scanning 2 1 ++ committing 2 1

def oneByte (declared : String) : List (Label (service Demo.env)) :=
  oneUploaded declared ++ oneFinalized

/-- Where the object of the session is committed. -/
def s3Uri : String := uri Demo.env (objectKey tenant file)

end Demo

end FileUploader
