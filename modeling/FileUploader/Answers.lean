import FileUploader.Await.Trace
import FileUploader.TenantIsolation

/-! # What an answer tells

All that a client sees of a request is the status of its answer. In every run, whatever other
requests do meanwhile and whatever fails, the status says what the request has done: all that
it was asked for, or nothing at all, or that the file was found to be infected and has been
purged. Only 500 leaves it open; and it is answered just when a call has raised, or when the
guards of the session refuse a chunk that has been stored.
-/

namespace FileUploader

open Await Prog

variable {env : Env}

/-! ## What a request has changed -/

/-- The call changes nothing, except for the lock. -/
def Call.harmless : Call → Bool
  | .sessionGet _ | .acquireLock _ _ | .releaseLock _ | .chunkGet _ _ | .chunkPull _ _
  | .getByChecksum _ _ => true
  | _ => false

/-- The changes that have been asked for, in order. -/
def changes (calls : Trace Collab) : List Call :=
  (calls.map fun e => e.call).filter fun c => !c.harmless

/-- The chunks that have been scanned. -/
def scannedIn (calls : Trace Collab) : List Bytes :=
  calls.filterMap fun e => (e.call.pulled e.resp).bind fun p => p.2.2

/-- The chunks that have been found for the assembly. -/
def foundIn (calls : Trace Collab) : List Bytes :=
  calls.filterMap fun e => (e.call.fetched e.resp).map fun chunk => chunk.rawBytes

/-- The parts that S3 has taken. -/
def partsIn (calls : Trace Collab) : List Part :=
  calls.filterMap fun e => e.call.partUploaded e.resp

/-- No call has raised. -/
def Smooth (calls : Trace Collab) : Prop := ∀ e ∈ calls, ¬ e.raised

section Traces

variable (calls calls' : Trace Collab)

@[simp] theorem changes_append : changes (calls ++ calls') = changes calls ++ changes calls' := by
  simp [changes]

@[simp] theorem scannedIn_append :
    scannedIn (calls ++ calls') = scannedIn calls ++ scannedIn calls' :=
  List.filterMap_append

@[simp] theorem foundIn_append : foundIn (calls ++ calls') = foundIn calls ++ foundIn calls' :=
  List.filterMap_append

@[simp] theorem partsIn_append : partsIn (calls ++ calls') = partsIn calls ++ partsIn calls' :=
  List.filterMap_append

@[simp] theorem smooth_append : Smooth (calls ++ calls') ↔ Smooth calls ∧ Smooth calls' := by
  simp [Smooth, or_imp, forall_and]

@[simp] theorem smooth_nil : Smooth [] := fun _ he => by cases he

@[simp] theorem smooth_cons (e : Answered Collab) :
    Smooth (e :: calls) ↔ ¬ e.raised ∧ Smooth calls := by
  simp [Smooth]

variable {calls} in
theorem Smooth.ok (h : Smooth calls) (c : Call) (a : c.Resp) :
    Smooth (calls ++ [⟨c, .ok a⟩]) := by
  intro e he
  rcases List.mem_append.1 he with he | he
  · exact h e he
  · rw [List.mem_singleton.1 he]
    rintro ⟨x, hx⟩
    cases hx

/-- A call that raises cannot be taken back. -/
theorem not_smooth (c : Call) (x : Exn) : ¬ Smooth (calls ++ [⟨c, .error x⟩]) :=
  fun h => h ⟨c, .error x⟩ (List.mem_append_right _ (List.mem_singleton_self _)) ⟨x, rfl⟩

end Traces

/-! ## The answers -/

/-- The parts of an assembled file. -/
def partCalls (session : UploadSession) (uploadId : Nat) (datas : List Bytes) : List Call :=
  datas.mapIdx fun k data =>
    .uploadPart session.tenantId session.fileId uploadId (k + 1) data

/-- A file of one chunk more has one part more, with the next number. -/
theorem partCalls_concat (session : UploadSession) (uploadId : Nat) (datas : List Bytes)
    (data : Bytes) : partCalls session uploadId (datas ++ [data]) =
      partCalls session uploadId datas ++
        [.uploadPart session.tenantId session.fileId uploadId (datas.length + 1) data] :=
  List.mapIdx_concat

/-- The request has done what it was asked for. -/
def Fulfilled (env : Env) : Op → HttpResponse → Trace Collab → Prop
  | .initiate newId t f size cs, response, calls =>
      (response = ⟨201, .initiated (some newId) none false⟩ ∧
        changes calls = [.sessionSave ⟨newId, t, f, size, 0, cs, .initiated⟩]) ∨
      ∃ s3Uri, response = ⟨200, .initiated none (some s3Uri) true⟩ ∧
        ⟨.getByChecksum t cs, .ok (some s3Uri)⟩ ∈ calls ∧ changes calls = []
  | .uploadChunk sid index cs data, response, calls =>
      ∃ session updated, ⟨.sessionGet sid, .ok (some session)⟩ ∈ calls ∧
        lower (env.sha256 data) = lower cs ∧ session.updateOffset data.length = .ok updated ∧
        response = uploadChunkResponse updated ∧
        changes calls = [.chunkSave sid ⟨index, data.length, env.sha256 data, data⟩,
          .sessionSave updated]
  | .finalize sid, response, calls =>
      ∃ session uploadId s3Uri, ⟨.sessionGet sid, .ok (some session)⟩ ∈ calls ∧
        session.currentOffset = session.totalSize ∧
        (∀ data ∈ scannedIn calls, ¬ LocalVirusScanner.eicarSignature <:+: data) ∧
        ⟨.completeMultipartUpload session.tenantId session.fileId uploadId (partsIn calls),
          .ok s3Uri⟩ ∈ calls ∧
        response = ⟨200, .finalized s3Uri⟩ ∧
        changes calls = [.initiateMultipartUpload session.tenantId session.fileId] ++
          partCalls session uploadId (foundIn calls) ++
          [.completeMultipartUpload session.tenantId session.fileId uploadId (partsIn calls),
            .registerFile session.tenantId session.fileId s3Uri session.totalSize
              session.checksum,
            .publishFileUploadCompleted ⟨session.tenantId, session.fileId, s3Uri,
              session.totalSize, session.checksum⟩,
            .deleteAll sid, .sessionDelete sid]
  | .abort sid, response, calls =>
      response = ⟨204, .empty⟩ ∧ changes calls = [.deleteAll sid, .sessionDelete sid]
  | .query sid, response, calls =>
      ∃ session, ⟨.sessionGet sid, .ok (some session)⟩ ∈ calls ∧ changes calls = [] ∧
        response = ⟨200, .report ⟨session.sessionId, session.currentOffset, session.totalSize,
          statusStr session⟩⟩

/-- The file is infected, and all of it is purged. -/
def Purged : Op → Trace Collab → Prop
  | .finalize sid, calls =>
      ∃ session, ⟨.sessionGet sid, .ok (some session)⟩ ∈ calls ∧
        (∃ data ∈ scannedIn calls, LocalVirusScanner.eicarSignature <:+: data) ∧
        changes calls = [.sessionSave session.fail, .deleteAll sid, .sessionDelete sid]
  | _, _ => False

/-- The guards of the session have refused a chunk that has been stored. -/
def Misfit (env : Env) : Op → Trace Collab → Prop
  | .uploadChunk sid index _ data, calls =>
      ∃ session, ⟨.sessionGet sid, .ok (some session)⟩ ∈ calls ∧
        (data = [] ∨ session.totalSize < session.currentOffset + (data.length : Int)) ∧
        changes calls = [.chunkSave sid ⟨index, data.length, env.sha256 data, data⟩]
  | _, _ => False

/-- What the answer to a request tells about the calls it has made. -/
inductive Tells (env : Env) (op : Op) (response : HttpResponse) (calls : Trace Collab) : Prop where
  | fulfilled (smooth : Smooth calls) (done : Fulfilled env op response calls)
  | refused (status : response.statusCode ∈ [400, 404, 460]) (smooth : Smooth calls)
      (untouched : changes calls = [])
  | infected (status : response.statusCode = 422) (smooth : Smooth calls)
      (purged : Purged op calls)
  | failed (status : response.statusCode = 500)
      (because : ¬ Smooth calls ∨ Misfit env op calls)

/-! ## Exceptions that no route expects -/

/-- No clause and no handler catches it. -/
def Exn.Unexpected (x : Exn) : Prop := ∀ cls, x.isA cls = false

/-- What drivers raise is unexpected, and no empty URI is found in the registry. -/
def Possible : (c : Call) → Except Exn c.Resp → Prop
  | .getByChecksum _ _, .ok found => found ≠ some ""
  | _, .ok _ => True
  | _, .error x => x.Unexpected

theorem possible_error {c : Call} {x : Exn} : Possible c (.error x) ↔ x.Unexpected := by
  cases c <;> exact Iff.rfl

theorem failed_possible (msg : String) (c : Call) : Possible c (failed msg c) := by
  cases c with
  | abortMultipartUpload t f u => trivial
  | _ => exact fun _ => rfl

/-- No empty URI is found: an empty value reads as no entry. -/
theorem respond_possible (env : Env) (c : Call) (w : World) : Possible c (respond env c w).1 := by
  cases c with
  | getByChecksum t cs =>
      intro hempty
      have hempty : RedisMetadataRegistry.getByChecksum w t cs = some "" := hempty
      unfold RedisMetadataRegistry.getByChecksum at hempty
      split at hempty
      · rename_i s3Uri _
        by_cases hs : s3Uri = ""
        · rw [if_pos hs] at hempty
          cases hempty
        · rw [if_neg hs] at hempty
          exact hs (Option.some.inj hempty)
      · cases hempty
  | uploadPart t f u n data =>
      rw [respond, S3ObjectStorage.uploadPart]
      split
      · exact fun _ => rfl
      · split
        · trivial
        · exact fun _ => rfl
  | completeMultipartUpload t f u parts =>
      rcases S3ObjectStorage.completeMultipartUpload_cases env w t f u parts with
        ⟨msg, h⟩ | ⟨_, _, _, _, _, _, h⟩
      · rw [respond, h]
        exact fun _ => rfl
      · rw [respond, h]
        trivial
  | _ => trivial

/-- Whatever the outcome of a call is, its answer is possible. -/
theorem handle_possible (env : Env) (out : Outcome) (c : Call) (w : World) :
    Possible c (handle env out c w).1 := by
  cases out with
  | works => exact respond_possible env c w
  | raises msg => exact failed_possible msg c
  | raisesAfter msg => exact failed_possible msg c

/-- What no route expects is answered with 500. -/
theorem Exn.Unexpected.reply {x : Exn} (h : x.Unexpected) (request : HttpRequest) :
    (request.reply (.error x)).statusCode = 500 := by
  have hcatches : ∀ clauses : Clauses, clauses.catches x = none := by
    intro clauses
    have hnone : (clauses.find? fun clause => clause.1.any x.isA) = none := by
      rw [List.find?_eq_none]
      intro clause _
      simpa using fun cls _ => h cls
    rw [Clauses.catches, hnone]
    rfl
  have hunhandled : unhandled x = internalServerError := by
    rw [unhandled, hcatches]
    rfl
  rcases request with ⟨authorization, endpoint⟩
  cases endpoint <;> simp [HttpRequest.reply, hcatches, hunhandled, internalServerError]

/-! ## One call after another -/

/-- Where a call raises, the program may end with what it raises. -/
def MayRaise {α : Type} (Q : Except Exn α → Trace Collab → Prop) : Prop :=
  ∀ x calls, Exn.Unexpected x → ¬ Smooth calls → Q (.error x) calls

section Rules

variable {α β : Type} {calls : Trace Collab}

/-- A call: what it raises ends the program, so only its answers are left to look at. -/
theorem MayRaise.ask {c : Call} {Q : Except Exn c.Resp → Trace Collab → Prop} (hQ : MayRaise Q)
    (hs : Smooth calls)
    (h : ∀ a, Smooth (calls ++ [⟨c, .ok a⟩]) → Q (.ok a) (calls ++ [⟨c, .ok a⟩])) :
    Obeys (tracing Possible) (ask c) calls Q := by
  refine ⟨trivial, fun r hr => ?_⟩
  cases r with
  | error x => exact hQ x _ (possible_error.1 hr) (not_smooth _ _ _)
  | ok a => exact h a (hs.ok c a)

/-- A call, and what comes after it. -/
theorem MayRaise.call {c : Call} {f : c.Resp → Program β}
    {Q : Except Exn β → Trace Collab → Prop} (hQ : MayRaise Q) (hs : Smooth calls)
    (h : ∀ a, Possible c (.ok a) → Smooth (calls ++ [⟨c, .ok a⟩]) →
      Obeys (tracing Possible) (f a) (calls ++ [⟨c, .ok a⟩]) Q) :
    Obeys (tracing Possible) (@Bind.bind Program _ (no_index c.Resp) β (FileUploader.ask c) f)
      calls Q := by
  refine ⟨trivial, fun r hr => ?_⟩
  cases r with
  | error x => exact hQ x _ (possible_error.1 hr) (not_smooth _ _ _)
  | ok a => exact h a hr (hs.ok c a)

/-- A check, and what comes after it. -/
theorem traced_raiseIf {bad : Prop} [Decidable bad] {x : Exn} {f : Unit → Program β}
    {Q : Except Exn β → Trace Collab → Prop} (hbad : bad → Q (.error x) calls)
    (h : ¬ bad → Obeys (tracing Possible) (f ()) calls Q) :
    Obeys (tracing Possible) (raiseIf bad x >>= f) calls Q := by
  rw [obeys_bind, obeys_raiseIf]
  exact ⟨hbad, h⟩

/-- Under the lock: at last it is released. -/
theorem MayRaise.locked {p : Program α} {sid : UUID} {Q : Except Exn α → Trace Collab → Prop}
    (hQ : MayRaise Q)
    (h : MayRaise (fun r calls' => Q r (calls' ++ [⟨.releaseLock sid, .ok ()⟩])) →
      Obeys (tracing Possible) p calls fun r calls' =>
        Q r (calls' ++ [⟨.releaseLock sid, .ok ()⟩])) :
    Obeys (tracing Possible) (tryFinally p (SessionRepository.releaseLock sid)) calls Q := by
  have hQ' : MayRaise fun r calls' => Q r (calls' ++ [⟨.releaseLock sid, .ok ()⟩]) :=
    fun x calls' hx hraised => hQ x _ hx fun hs => hraised ((smooth_append _ _).1 hs).1
  refine (obeys_tryFinally _ _ calls Q).2 ((h hQ').mono fun r calls' hr => ?_)
  refine (obeys_await _ _ _).2 ⟨trivial, fun x hx => ?_, fun _ _ => hr⟩
  have hx : Possible (.releaseLock sid) (.error x) := hx
  exact hQ x _ (possible_error.1 hx) (not_smooth _ _ _)

/-- The result of a program is wrapped. -/
theorem traced_wrap {p : Program α} {g : α → β} {Q : Except Exn β → Trace Collab → Prop}
    (h : Obeys (tracing Possible) p calls fun r => Q (r.map g)) :
    Obeys (tracing Possible) (do let a ← p; pure (g a) : Program β) calls Q := by
  refine (obeys_bind _ _ _ _).2 (h.mono fun r calls' hr => ?_)
  cases r with
  | error x => exact hr
  | ok a => exact hr

/-- Step 1 of a use case on a session. -/
theorem MayRaise.require {sid : UUID} {f : UploadSession → Program α}
    {Q : Except Exn α → Trace Collab → Prop} (hQ : MayRaise Q)
    (hmissing : Smooth ([] ++ [⟨.sessionGet sid, .ok none⟩]) →
      Q (.error (.entityNotFoundError "UploadSession" sid))
        ([] ++ [⟨.sessionGet sid, .ok none⟩]))
    (h : ∀ session, Smooth ([] ++ [⟨.sessionGet sid, .ok (some session)⟩]) →
      Obeys (tracing Possible) (f session) ([] ++ [⟨.sessionGet sid, .ok (some session)⟩]) Q) :
    Obeys (tracing Possible) (requireSession sid >>= f) [] Q := by
  refine ⟨trivial, fun r hr => ?_⟩
  cases r with
  | error x =>
      have hx : Possible (.sessionGet sid) (.error x) := hr
      exact hQ x _ (possible_error.1 hx) (not_smooth [] _ _)
  | ok found =>
      have hs : Smooth ([] ++ [⟨.sessionGet sid, .ok found⟩]) := smooth_nil.ok _ _
      cases found with
      | none => exact hmissing hs
      | some session => exact h session hs

end Rules

/-! ## The endpoints without loops -/

section Endpoints

variable {op : Op} {response : HttpResponse} {calls : Trace Collab}

/-- An exception that nothing catches is answered with 500, which tells of a call that raised. -/
theorem tells_mayRaise (env : Env) (request : HttpRequest) (op : Op) :
    MayRaise fun r calls => Tells env op (request.reply r) calls :=
  fun _ _ hx hraised => .failed (hx.reply request) (Or.inl hraised)

/-- A refusal before anything has been changed. -/
theorem Tells.refuses {n : Nat} (status : response.statusCode = n) (hn : n ∈ [400, 404, 460])
    (smooth : Smooth calls) (untouched : changes calls = []) : Tells env op response calls :=
  .refused (status ▸ hn) smooth untouched

/-- An initiate answers 200 with what the registry holds, or 201 once the session is saved. -/
theorem initiate_tells (authorization : Option String) (payload : InitiateUploadRequest)
    (newId t : UUID) :
    Obeys (tracing Possible) (Op.prog env (.initiate newId t payload.fileId payload.totalSize
      payload.checksum)) [] fun r calls =>
        Tells env (.initiate newId t payload.fileId payload.totalSize payload.checksum)
          ((⟨authorization, .initiateUpload payload newId⟩ : HttpRequest).reply r) calls := by
  have hQ := tells_mayRaise env ⟨authorization, .initiateUpload payload newId⟩
    (.initiate newId t payload.fileId payload.totalSize payload.checksum)
  refine traced_wrap (MayRaise.call hQ smooth_nil fun found hfound hs => ?_)
  cases found with
  | some s3Uri =>
      have hne : s3Uri ≠ "" := fun hempty => hfound (congrArg some hempty)
      refine .fulfilled hs (Or.inr ⟨s3Uri, ?_, List.mem_singleton_self _, rfl⟩)
      show initiateResponse (none, some s3Uri) = _
      simp [initiateResponse, Option.filter, hne]
  | none =>
      refine MayRaise.call hQ hs fun _ _ hs => ?_
      exact .fulfilled hs (Or.inl ⟨rfl, rfl⟩)

/-- A query changes nothing, whether it finds the session or not. -/
theorem query_tells (authorization : Option String) (sid : UUID) :
    Obeys (tracing Possible) (Op.prog env (.query sid)) [] fun r calls =>
      Tells env (.query sid) ((⟨authorization, .querySession sid⟩ : HttpRequest).reply r)
        calls := by
  have hQ := tells_mayRaise env ⟨authorization, .querySession sid⟩ (.query sid)
  refine traced_wrap (MayRaise.require hQ (fun hs => ?_) fun session hs => ?_)
  · exact .refuses (n := 404) rfl (by decide) hs rfl
  · exact .fulfilled hs ⟨session, List.mem_singleton_self _, rfl, rfl⟩

/-- An abort that answers 204 has removed the chunks and then the session. -/
theorem abort_tells (authorization : Option String) (sid : UUID) :
    Obeys (tracing Possible) (Op.prog env (.abort sid)) [] fun r calls =>
      Tells env (.abort sid) ((⟨authorization, .abortUpload sid⟩ : HttpRequest).reply r)
        calls := by
  have hQ := tells_mayRaise env ⟨authorization, .abortUpload sid⟩ (.abort sid)
  refine traced_wrap (MayRaise.require hQ (fun hs => ?_) fun session hs => ?_)
  · exact .refuses (n := 404) rfl (by decide) hs rfl
  refine MayRaise.call hQ hs fun locked _ hs => traced_raiseIf (fun _ => ?_) fun _ => ?_
  · exact .refuses (n := 400) rfl (by decide) hs rfl
  refine MayRaise.locked hQ fun hQ => ?_
  refine MayRaise.call hQ hs fun _ _ hs => MayRaise.ask hQ hs fun _ hs => ?_
  exact .fulfilled (hs.ok _ _) ⟨rfl, rfl⟩

/-- No route expects what `update_offset` raises. -/
theorem updateOffset_unexpected {session : UploadSession} {n : Int} {x : Exn}
    (h : session.updateOffset n = .error x) : x.Unexpected := by
  unfold UploadSession.updateOffset at h
  split at h
  · cases h
    exact fun _ => rfl
  · split at h
    · cases h
      exact fun _ => rfl
    · cases h

/-- An upload is refused before the chunk is stored, or answers 500 when the guards of the
session refuse a chunk that is stored already, or has stored the chunk and moved the offset. -/
theorem upload_tells (authorization : Option String) (sid : UUID) (index : Int) (cs : String)
    (data : Bytes) :
    Obeys (tracing Possible) (Op.prog env (.uploadChunk sid index cs data)) [] fun r calls =>
      Tells env (.uploadChunk sid index cs data)
        ((⟨authorization, .uploadChunk sid index cs data⟩ : HttpRequest).reply r) calls := by
  have hQ := tells_mayRaise env ⟨authorization, .uploadChunk sid index cs data⟩
    (.uploadChunk sid index cs data)
  refine traced_wrap (MayRaise.require hQ (fun hs => ?_) fun session hs => ?_)
  · exact .refuses (n := 404) rfl (by decide) hs rfl
  refine traced_raiseIf (fun _ => ?_) fun _ => ?_
  · exact .refuses (n := 400) rfl (by decide) hs rfl
  refine MayRaise.call hQ hs fun locked _ hs => traced_raiseIf (fun _ => ?_) fun _ => ?_
  · exact .refuses (n := 400) rfl (by decide) hs rfl
  refine MayRaise.locked hQ fun hQ => ?_
  -- the checks before anything is stored
  refine traced_raiseIf (fun _ => ?_) fun _ => traced_raiseIf (fun _ => ?_) fun _ => ?_
  · exact .refuses (n := 400) rfl (by decide) (hs.ok _ _) rfl
  · exact .refuses (n := 400) rfl (by decide) (hs.ok _ _) rfl
  refine traced_raiseIf (fun _ => ?_) fun hdigest => ?_
  · exact .refuses (n := 460) rfl (by decide) (hs.ok _ _) rfl
  refine MayRaise.call hQ hs fun _ _ hs => ?_
  cases hmove : session.updateOffset data.length with
  | error x =>
      refine .failed ((updateOffset_unexpected hmove).reply _) (Or.inr ⟨session, ?_, ?_, rfl⟩)
      · simp
      · rcases UploadSession.updateOffset_error hmove with hempty | hmore
        · exact Or.inl (List.eq_nil_of_length_eq_zero (by omega))
        · exact Or.inr hmore
  | ok updated =>
      refine MayRaise.call hQ hs fun _ _ hs => ?_
      refine .fulfilled (hs.ok _ _) ⟨session, updated, ?_, not_not.1 hdigest, hmove, rfl, rfl⟩
      simp

end Endpoints

/-! ## Finalize -/

/-- The calls of a scan: nothing is changed, and nothing assembled yet. -/
structure ScannedOnly (calls : Trace Collab) : Prop where
  smooth : Smooth calls
  untouched : changes calls = []
  found : foundIn calls = []
  parts : partsIn calls = []

/-- What is raised is unexpected, and a call has raised. -/
def Broken (x : Exn) (calls : Trace Collab) : Prop := x.Unexpected ∧ ¬ Smooth calls

/-- A program that is broken stays broken, whatever it does to clean up. -/
theorem Broken.append {x : Exn} {calls : Trace Collab} (h : ¬ Smooth calls)
    (more : Trace Collab) (hx : x.Unexpected) : Broken x (calls ++ more) :=
  ⟨hx, fun hs => h ((smooth_append _ _).1 hs).1⟩

/-- A chunk that is pulled is scanned, and changes nothing. -/
theorem ScannedOnly.pull {calls : Trace Collab} (h : ScannedOnly calls) (sid : UUID) (index : Int)
    (r : Option Bytes) : ScannedOnly (calls ++ [⟨.chunkPull sid index, .ok r⟩]) where
  smooth := h.smooth.ok _ _
  untouched := by
    rw [changes_append, h.untouched]
    rfl
  found := by
    rw [foundIn_append, h.found]
    rfl
  parts := by
    rw [partsIn_append, h.parts]
    rfl

section Parts

variable {session : UploadSession} {sid : UUID}

/-- The scan pulls chunks and does nothing else; it raises for a chunk with the signature, or
because a call has. -/
theorem scanStream_traced : Obeys (tracing Possible)
    (LocalVirusScanner.scanStream (ChunkRepository.getStream sid) 0) [] fun r calls =>
      match r with
      | .ok _ => ScannedOnly calls ∧
          ∀ data ∈ scannedIn calls, ¬ LocalVirusScanner.eicarSignature <:+: data
      | .error x => Broken x calls ∨ x = LocalVirusScanner.threat ∧ ScannedOnly calls ∧
          ∃ data ∈ scannedIn calls, LocalVirusScanner.eicarSignature <:+: data := by
  refine obeys_loop (fun _ calls => ScannedOnly calls ∧
    ∀ data ∈ scannedIn calls, ¬ LocalVirusScanner.eicarSignature <:+: data)
    ⟨⟨smooth_nil, rfl, rfl, rfl⟩, fun _ hd => by cases hd⟩ (fun _ _ _ => trivial) ?_
  intro index calls h
  rcases h with ⟨hscan, hclean⟩
  have hscanned : ∀ r : Option Bytes, scannedIn (calls ++ [⟨.chunkPull sid index, .ok r⟩]) =
      scannedIn calls ++ r.toList := by
    intro r
    rw [scannedIn_append]
    cases r <;> rfl
  -- a chunk that is let pass
  have hpass : ∀ r : Option Bytes,
      (∀ data, r = some data → ¬ LocalVirusScanner.eicarSignature <:+: data) →
      ∀ data ∈ scannedIn (calls ++ [⟨.chunkPull sid index, .ok r⟩]),
        ¬ LocalVirusScanner.eicarSignature <:+: data := by
    intro r hr data hd
    rw [hscanned, List.mem_append, Option.mem_toList] at hd
    rcases hd with hd | hd
    · exact hclean data hd
    · exact hr data hd
  simp only [ChunkRepository.getStream, obeys_bind, obeys_await, onOk_ok, onOk_error, obeys_raise,
    Option.forall, obeys_pure, tracing_allows, tracing_next]
  refine ⟨trivial, fun x hx => ?_, fun _ => ?_, fun data _ => ?_⟩
  · have hx : Possible (.chunkPull sid index) (.error x) := hx
    exact Or.inl ⟨possible_error.1 hx, not_smooth _ _ _⟩
  · exact ⟨hscan.pull _ _ _, hpass none fun _ hnone => by cases hnone⟩
  · by_cases hempty : data = []
    · subst hempty
      simp only [if_true, obeys_pure, onOk_ok]
      refine ⟨hscan.pull _ _ _, hpass (some []) ?_⟩
      intro data hdata hsig
      cases hdata
      have hnil := List.infix_nil.1 hsig
      cases hnil
    · simp only [hempty, if_false, obeys_pure, onOk_ok, obeys_bind, obeys_raiseIf, onOk_error,
        obeys_raise]
      constructor
      · intro hsig
        refine Or.inr ⟨trivial, hscan.pull _ _ _, data, ?_, hsig⟩
        rw [hscanned]
        exact List.mem_append_right _ (List.mem_singleton_self _)
      · intro hsig
        refine ⟨hscan.pull _ _ _, hpass (some data) ?_⟩
        intro data' hdata
        cases hdata
        exact hsig

/-- How a scan ends: a file that is found to be infected is purged. -/
def ScanEnds (session : UploadSession) (sid : UUID) : Except Exn Bool → Trace Collab → Prop
  | .ok _, calls => ScannedOnly calls ∧
      ∀ data ∈ scannedIn calls, ¬ LocalVirusScanner.eicarSignature <:+: data
  | .error x, calls => Broken x calls ∨ x = LocalVirusScanner.threat ∧ Smooth calls ∧
      (∃ data ∈ scannedIn calls, LocalVirusScanner.eicarSignature <:+: data) ∧
      changes calls = [.sessionSave session.fail, .deleteAll sid, .sessionDelete sid]

/-- Step 4 of a finalize: the session is marked as failed and purged if the scan finds malware. -/
theorem scan_traced : Obeys (tracing Possible) (FinalizeUploadUseCase.scan session sid) []
    (ScanEnds session sid) := by
  have hQ : MayRaise (ScanEnds session sid) := fun x calls hx hraised => Or.inl ⟨hx, hraised⟩
  refine (obeys_tryExcept _ _ _ _).2 (scanStream_traced.mono ?_)
  rintro (x | clean) calls h
  · rcases h with ⟨hx, hraised⟩ | ⟨rfl, hscan, hsig⟩
    · cases x with
      | malwareDetectedError msg => cases hx .malwareDetectedError
      | _ => exact Or.inl ⟨hx, hraised⟩
    · -- the purge
      show Obeys (tracing Possible) (do
        SessionRepository.save session.fail
        ChunkRepository.deleteAll sid
        SessionRepository.delete sid
        raise LocalVirusScanner.threat : Program Bool) calls _
      refine MayRaise.call hQ hscan.smooth fun _ _ hs => MayRaise.call hQ hs fun _ _ hs => ?_
      refine MayRaise.call hQ hs fun _ _ hs => ?_
      rcases hsig with ⟨data, hdata, hsig⟩
      refine Or.inr ⟨rfl, hs, ⟨data, ?_, hsig⟩, ?_⟩
      · simp [hdata]
      · simp only [changes_append, hscan.untouched]
        rfl
  · exact h

/-- Step 5, the loop: one part for each chunk that is found. -/
theorem uploadParts_traced {u : Nat} : Obeys (tracing Possible)
    (FinalizeUploadUseCase.uploadParts session sid u) [] fun r calls =>
      match r with
      | .ok parts => Smooth calls ∧ scannedIn calls = [] ∧ partsIn calls = parts ∧
          changes calls = partCalls session u (foundIn calls)
      | .error x => Broken x calls := by
  refine obeys_loop (fun round calls => Smooth calls ∧ scannedIn calls = [] ∧
    partsIn calls = round.2 ∧ changes calls = partCalls session u (foundIn calls) ∧
      round.1 = (foundIn calls).length + 1) ⟨smooth_nil, rfl, rfl, rfl, rfl⟩
    (fun _ _ _ => trivial) ?_
  intro round calls h
  rcases round with ⟨partNumber, parts⟩
  rcases h with ⟨hs, hscanned, hparts, hchanges, hnumber⟩
  have hnumber : partNumber = (foundIn calls).length + 1 := hnumber
  simp only [ChunkRepository.get, ObjectStorage.uploadPart, obeys_bind, obeys_await, onOk_ok,
    onOk_error, obeys_raise, Option.forall, obeys_pure, tracing_allows, tracing_next]
  refine ⟨trivial, fun x hx => ?_, fun _ => ?_, fun chunk _ => ⟨trivial, fun x hx => ?_,
    fun part _ => ?_⟩⟩
  · have hx : Possible (.chunkGet sid ((partNumber : Int) - 1)) (.error x) := hx
    exact ⟨possible_error.1 hx, not_smooth _ _ _⟩
  · -- no chunk: the end of the file
    refine ⟨hs.ok _ _, ?_, ?_, ?_⟩
    · rw [scannedIn_append, hscanned]
      rfl
    · rw [partsIn_append, hparts]
      exact List.append_nil _
    · rw [changes_append, foundIn_append, hchanges]
      show _ ++ [] = partCalls session u (_ ++ [])
      rw [List.append_nil, List.append_nil]
  · have hx : Possible (.uploadPart session.tenantId session.fileId u partNumber chunk.rawBytes)
        (.error x) := hx
    exact ⟨possible_error.1 hx, not_smooth _ _ _⟩
  · refine ⟨(hs.ok _ _).ok _ _, ?_, ?_, ?_, ?_⟩
    · rw [scannedIn_append, scannedIn_append, hscanned]
      rfl
    · rw [partsIn_append, partsIn_append, hparts]
      show (parts ++ []) ++ [part] = parts ++ [part]
      rw [List.append_nil]
    · rw [changes_append, changes_append, foundIn_append, foundIn_append, hchanges]
      show (_ ++ []) ++ [Call.uploadPart session.tenantId session.fileId u partNumber
        chunk.rawBytes] = partCalls session u ((_ ++ [chunk.rawBytes]) ++ [])
      rw [List.append_nil, List.append_nil, partCalls_concat, hnumber]
    · rw [foundIn_append, foundIn_append]
      show partNumber + 1 = ((_ ++ [chunk.rawBytes]) ++ []).length + 1
      rw [List.append_nil, List.length_append, hnumber]
      rfl

/-- How the assembly ends. -/
def AssembleEnds (session : UploadSession) : Except Exn String → Trace Collab → Prop
  | .ok s3Uri, calls => ∃ uploadId, Smooth calls ∧ scannedIn calls = [] ∧
      ⟨.completeMultipartUpload session.tenantId session.fileId uploadId (partsIn calls),
        .ok s3Uri⟩ ∈ calls ∧
      changes calls = [.initiateMultipartUpload session.tenantId session.fileId] ++
        partCalls session uploadId (foundIn calls) ++
        [.completeMultipartUpload session.tenantId session.fileId uploadId (partsIn calls)]
  | .error x, calls => Broken x calls

/-- Step 5: whatever raises ends the assembly with an exception. -/
theorem assemble_traced : Obeys (tracing Possible) (FinalizeUploadUseCase.assemble session sid) []
    (AssembleEnds session) := by
  have hQ : MayRaise (AssembleEnds session) := fun x calls hx hraised => ⟨hx, hraised⟩
  refine MayRaise.call hQ smooth_nil fun u _ hs => ?_
  -- after a call that has raised
  have hgiveUp : ∀ (x : Exn) (calls : Trace Collab), ¬ Smooth calls → Obeys (tracing Possible) (do
      ObjectStorage.abortMultipartUpload session.tenantId session.fileId u
      SessionRepository.save session.fail
      raise (.runtimeError s!"S3 Multipart upload failed: {x.str}") : Program String) calls
      (AssembleEnds session) := by
    intro x calls hraised
    simp only [ObjectStorage.abortMultipartUpload, SessionRepository.save, obeys_bind, obeys_await,
      onOk_ok, onOk_error, obeys_raise, tracing_allows, tracing_next, List.append_assoc]
    refine ⟨trivial, fun y hy => ?_, fun _ _ => ⟨trivial, fun y hy => ?_, fun _ _ => ?_⟩⟩
    · exact Broken.append hraised _ hy
    · exact Broken.append hraised _ hy
    · exact Broken.append hraised _ fun _ => rfl
  refine (obeys_tryExcept _ _ _ _).2 ((obeys_bind _ _ _ _).2 ((uploadParts_traced.part _).mono ?_))
  rintro (x | parts) _ ⟨made, rfl, h⟩
  · exact hgiveUp x _ fun hall => h.2 ((smooth_append _ _).1 hall).2
  rcases h with ⟨hmade, hscanned, rfl, hchanges⟩
  refine (obeys_await _ _ _).2 ⟨trivial, fun x _ => ?_, fun s3Uri _ => ?_⟩
  · exact hgiveUp x _ (not_smooth _ _ _)
  · show AssembleEnds session (.ok s3Uri) _
    have hall := ((smooth_append _ _).2 ⟨hs, hmade⟩).ok (.completeMultipartUpload session.tenantId
      session.fileId u (partsIn made)) s3Uri
    rw [tracing_next]
    generalize hcalls : _ ++ made ++ _ = calls at hall ⊢
    have hparts : partsIn calls = partsIn made := by
      rw [← hcalls, partsIn_append, partsIn_append]
      exact List.append_nil _
    have hfound : foundIn calls = foundIn made := by
      rw [← hcalls, foundIn_append, foundIn_append]
      exact List.append_nil _
    refine ⟨u, hall, ?_, ?_, ?_⟩
    · rw [← hcalls, scannedIn_append, scannedIn_append, hscanned]
      rfl
    · rw [hparts, ← hcalls]
      exact List.mem_append_right _ (List.mem_singleton_self _)
    · rw [hparts, hfound, ← hcalls, changes_append, changes_append, hchanges]
      rfl

/-- How steps 6 to 8 end. -/
def PublishEnds (session : UploadSession) (sid : UUID) (s3Uri : String) :
    Except Exn String → Trace Collab → Prop
  | .ok answer, calls => answer = s3Uri ∧ Smooth calls ∧ scannedIn calls = [] ∧
      foundIn calls = [] ∧ partsIn calls = [] ∧
      changes calls = [.registerFile session.tenantId session.fileId s3Uri session.totalSize
          session.checksum,
        .publishFileUploadCompleted ⟨session.tenantId, session.fileId, s3Uri, session.totalSize,
          session.checksum⟩,
        .deleteAll sid, .sessionDelete sid]
  | .error x, calls => Broken x calls

/-- Steps 6 to 8: the file is registered and announced, and then the session is deleted. -/
theorem publish_traced {s3Uri : String} (hcomplete : session.currentOffset = session.totalSize) :
    Obeys (tracing Possible) (FinalizeUploadUseCase.publish session sid s3Uri) []
      (PublishEnds session sid s3Uri) := by
  have hQ : MayRaise (PublishEnds session sid s3Uri) := fun x calls hx hraised => ⟨hx, hraised⟩
  refine MayRaise.call hQ smooth_nil fun _ _ hs => MayRaise.call hQ hs fun _ _ hs => ?_
  rw [UploadSession.complete_eq_ok hcomplete]
  refine MayRaise.call hQ hs fun _ _ hs => MayRaise.call hQ hs fun _ _ hs => ?_
  exact ⟨rfl, hs, rfl, rfl, rfl, rfl⟩

/-- A finalize that answers 200 has scanned, assembled, registered and announced the file, in
this order; with 422 it has purged the session; any other way out is a refusal at the start, or
a call that raised. -/
theorem finalize_tells (authorization : Option String) :
    Obeys (tracing Possible) (Op.prog env (.finalize sid)) [] fun r calls =>
      Tells env (.finalize sid) ((⟨authorization, .finalizeUpload sid⟩ : HttpRequest).reply r)
        calls := by
  have hQ := tells_mayRaise env ⟨authorization, .finalizeUpload sid⟩ (.finalize sid)
  refine traced_wrap (MayRaise.require hQ (fun hs => ?_) fun session hs => ?_)
  · exact .refuses (n := 404) rfl (by decide) hs rfl
  refine traced_raiseIf (fun _ => ?_) fun _ => traced_raiseIf (fun _ => ?_) fun _ => ?_
  · exact .refuses (n := 400) rfl (by decide) hs rfl
  · exact .refuses (n := 400) rfl (by decide) hs rfl
  refine traced_raiseIf (fun _ => ?_) fun hoffset => ?_
  · exact .refuses (n := 400) rfl (by decide) hs rfl
  refine MayRaise.call hQ hs fun locked _ hs => traced_raiseIf (fun _ => ?_) fun _ => ?_
  · exact .refuses (n := 400) rfl (by decide) hs rfl
  refine MayRaise.locked hQ fun hQ => ?_
  -- in the critical section
  refine (obeys_bind _ _ _ _).2 ((scan_traced.part _).mono ?_)
  rintro (x | clean) _ ⟨scanned, rfl, hscan⟩
  · rcases hscan with ⟨hx, hraised⟩ | ⟨rfl, hsmooth, hsig, hpurge⟩
    · exact hQ x _ hx fun hall => hraised ((smooth_append _ _).1 hall).2
    · rcases hsig with ⟨data, hdata, hsig⟩
      refine .infected rfl (((smooth_append _ _).2 ⟨hs, hsmooth⟩).ok _ _)
        ⟨session, by simp, ⟨data, ?_, hsig⟩, ?_⟩
      · rw [scannedIn_append, scannedIn_append]
        exact List.mem_append_left _ (List.mem_append_right _ hdata)
      · rw [changes_append, changes_append, hpurge]
        rfl
  rcases hscan with ⟨hscan, hclean⟩
  refine (obeys_bind _ _ _ _).2 ((assemble_traced.part _).mono ?_)
  rintro (x | s3Uri) _ ⟨assembled, rfl, hassemble⟩
  · exact hQ x _ hassemble.1 fun hall => hassemble.2 ((smooth_append _ _).1 hall).2
  rcases hassemble with ⟨u, hsmooth, hnone, hcomplete, hchanges⟩
  refine ((publish_traced (not_not.1 hoffset)).part _).mono ?_
  rintro (x | answer) _ ⟨published, rfl, hpublish⟩
  · exact hQ x _ hpublish.1 fun hall => hpublish.2 ((smooth_append _ _).1 hall).2
  rcases hpublish with ⟨rfl, hsmooth', hnone', hfound', hparts', hchanges'⟩
  show Tells env (.finalize sid) ⟨200, .finalized answer⟩ _
  have hall := ((smooth_append _ _).2 ⟨(smooth_append _ _).2 ⟨(smooth_append _ _).2
    ⟨hs, hscan.smooth⟩, hsmooth⟩, hsmooth'⟩).ok (.releaseLock sid) ()
  generalize hcalls : _ ++ scanned ++ assembled ++ published ++ _ = calls at hall ⊢
  have hscanned : scannedIn calls = scannedIn scanned := by
    simp only [← hcalls, scannedIn_append, hnone, hnone', List.append_nil]
    exact List.append_nil _
  have hfound : foundIn calls = foundIn assembled := by
    simp only [← hcalls, foundIn_append, hscan.found, hfound', List.append_nil]
    exact List.append_nil _
  have hparts : partsIn calls = partsIn assembled := by
    simp only [← hcalls, partsIn_append, hscan.parts, hparts', List.append_nil]
    exact List.append_nil _
  refine .fulfilled hall ⟨session, u, answer, ?_, not_not.1 hoffset, ?_, ?_, rfl, ?_⟩
  · simp [← hcalls]
  · rw [hscanned]
    exact hclean
  · rw [hparts, ← hcalls]
    exact List.mem_append_left _ (List.mem_append_left _ (List.mem_append_right _ hcomplete))
  · have hchanged : changes calls = changes assembled ++ changes published := by
      simp only [← hcalls, changes_append, hscan.untouched, List.append_nil]
      exact List.append_nil _
    rw [hchanged, hchanges, hchanges', hfound, hparts, List.append_assoc]
    rfl

end Parts

/-! ## Runs -/

/-- Every route: the answer tells what the program of its request has called. -/
theorem prog_tells (gateway : Gateway) (env : Env) {request : HttpRequest} {op : Op}
    (hop : request.op gateway = .ok op) : Obeys (tracing Possible) (Op.prog env op) []
      fun r calls => Tells env op (request.reply r) calls := by
  rcases request with ⟨authorization, endpoint⟩
  cases endpoint with
  | initiateUpload payload newId =>
      simp only [HttpRequest.op] at hop
      cases ht : getTenantId gateway authorization with
      | error response =>
          rw [ht] at hop
          cases hop
      | ok t =>
          rw [ht] at hop
          cases hop
          exact initiate_tells authorization payload newId t
  | uploadChunk sid index cs data =>
      cases hop
      exact upload_tells authorization sid index cs data
  | querySession sid =>
      cases hop
      exact query_tells authorization sid
  | abortUpload sid =>
      cases hop
      exact abort_tells authorization sid
  | finalizeUpload sid =>
      cases hop
      exact finalize_tells authorization

/-- In every run, with any interleaving, delays and failures, the answer to a request that
reaches the service tells what the request has done: with 200, 201 or 204 exactly what it was
asked for, with 400, 404 or 460 nothing, with 422 the purge of an infected file; and it is 500
just when a call has raised, or a stored chunk does not fit into the file. -/
theorem answers_tell (gateway : Gateway) (request : HttpRequest) {w : World} {c : Run env}
    (h : Reach (fun _ _ => True) (Config.start w) c) {op : Op}
    (hop : request.op gateway = .ok op) {i : Nat} (hi : c.ops[i]? = some op)
    {r : Except Exn Response} (hr : c.result i = some r) :
    Tells env op (request.reply r) (traceOf i c.log) :=
  h.traced (fun out cl w => handle_possible env out cl w) (prog_tells gateway env hop) hi hr

namespace Demo

/-- A session of one byte, uploaded, and then an upload of an empty chunk. -/
def emptyChunk : List (Label (service Demo.env)) :=
  [.spawn (.initiate sid tenant file 1 (sha256 a))] ++ calls 0 2 ++
    [.spawn (.uploadChunk sid 0 (sha256 a) a)] ++ calls 1 5 ++
    [.spawn (.uploadChunk sid 1 (sha256 []) [])] ++ calls 2 4

end Demo

/-- The empty chunk has been stored, and is answered with 500. -/
theorem answers_tell_demo : ∃ c : Run Demo.env,
    Reach (fun _ _ => True) (Config.start (World.empty 0)) c ∧
      Tells Demo.env (.uploadChunk Demo.sid 1 (Demo.sha256 []) []) internalServerError
        (traceOf 2 c.log) ∧
      changes (traceOf 2 c.log) = [.chunkSave Demo.sid ⟨1, 0, Demo.sha256 [], []⟩] := by
  have h : ((Config.start (World.empty 0)).play (fun _ _ => true) Demo.emptyChunk).any
      (fun c => c.ops[2]? = some (.uploadChunk Demo.sid 1 (Demo.sha256 []) []) ∧
        c.result 2 = some (.error (.valueError "Bytes uploaded must be positive")) ∧
          changes (traceOf 2 c.log) = [.chunkSave Demo.sid ⟨1, 0, Demo.sha256 [], []⟩]) = true := by
    decide +kernel
  rcases exists_of_play (fun _ _ _ => trivial) _ h with ⟨c, hc, hcheck⟩
  simp only [decide_eq_true_eq] at hcheck
  rcases hcheck with ⟨hop, hresult, hchanges⟩
  exact ⟨c, hc, answers_tell Demo.gateway
    ⟨none, .uploadChunk Demo.sid 1 (Demo.sha256 []) []⟩ hc rfl hop hresult, hchanges⟩

end FileUploader
