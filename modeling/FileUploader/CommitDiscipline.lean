import FileUploader.Service

/-! # The committing discipline of finalize

What a finalize request does with the chunks of its session, whatever the other
requests do: it pulls them through the scanner, fetches them again one by one,
uploads each as the next part, completes the upload with all parts, registers the
object and publishes it. `commitDiscipline` states this call by call. The results
about scanned, assembled, registered and announced bytes use nothing else of the
programs.
-/

namespace FileUploader

open Await

/-- What a request has been answered so far. -/
structure CommitLocal where
  op : Op
  copy : Option UploadSession
  /-- The answers of the stream that is scanned, by index. -/
  pulls : List (Option Bytes)
  /-- The payloads of the chunks fetched for assembly, by index. -/
  fetched : List Bytes
  uploadId : Option Nat
  /-- The upload takes parts: it has been initiated, and not completed or aborted. -/
  opened : Bool
  parts : List Part
  uri : Option String
  registered : Bool
  published : Bool
  /-- The lookup in the dedup registry. -/
  found : Option String
  /-- The release of the lock has been called. -/
  ended : Bool

namespace CommitLocal

def start (op : Op) : CommitLocal :=
  ⟨op, none, [], [], none, false, [], none, false, false, none, false⟩

def next (l : CommitLocal) : (c : Call) → Except Exn c.Resp → CommitLocal
  | .sessionGet _, .ok s => { l with copy := s }
  | .chunkPull _ _, .ok r => { l with pulls := l.pulls ++ [r] }
  | .chunkGet _ _, .ok (some chunk) => { l with fetched := l.fetched ++ [chunk.rawBytes] }
  | .initiateMultipartUpload _ _, .ok u => { l with uploadId := some u, opened := true }
  | .uploadPart .., .ok part => { l with parts := l.parts ++ [part] }
  | .completeMultipartUpload .., .ok uri => { l with opened := false, uri := some uri }
  | .completeMultipartUpload .., .error _ => { l with opened := false }
  | .abortMultipartUpload .., _ => { l with opened := false }
  | .registerFile .., .ok _ => { l with registered := true }
  | .publishFileUploadCompleted _, .ok _ => { l with published := true }
  | .getByChecksum _ _, .ok found => { l with found := found }
  | .releaseLock _, _ => { l with ended := true }
  | _, _ => l

/-- The scanner lets this chunk pass, and goes on. -/
def Passes (r : Option Bytes) : Prop :=
  ∃ data, r = some data ∧ data ≠ [] ∧ ¬ LocalVirusScanner.eicarSignature <:+: data

def AllPass (pulls : List (Option Bytes)) : Prop := ∀ r ∈ pulls, Passes r

/-- The scanner has returned: all chunks passed, up to one that is absent or empty. -/
def Clean (pulls : List (Option Bytes)) : Prop :=
  ∃ passed last, pulls = passed ++ [last] ∧ AllPass passed ∧ (last = none ∨ last = some [])

/-- What the registry is told about the object at `uri`. -/
def Registers (l : CommitLocal) (t f : UUID) (uri : String) (size : Int) (cs : String) : Prop :=
  ∃ s, l.copy = some s ∧ l.uri = some uri ∧ t = s.tenantId ∧ f = s.fileId ∧ size = s.totalSize ∧
    cs = s.checksum

def allows (l : CommitLocal) : Call → Prop
  | .sessionGet _ => l.copy = none
  | .chunkPull sid index =>
      l.op = .finalize sid ∧ l.ended = false ∧ index = l.pulls.length ∧ AllPass l.pulls
  | .initiateMultipartUpload t f =>
      Clean l.pulls ∧ l.uploadId = none ∧ l.parts = [] ∧
        ∃ s, l.copy = some s ∧ t = s.tenantId ∧ f = s.fileId
  | .chunkGet sid index =>
      l.op = .finalize sid ∧ l.ended = false ∧ Clean l.pulls ∧ index = l.fetched.length ∧
        l.parts.length = l.fetched.length ∧ l.uri = none
  | .uploadPart t f u n data =>
      Clean l.pulls ∧ l.opened = true ∧ l.uploadId = some u ∧ n = l.fetched.length ∧
        l.fetched.getLast? = some data ∧ l.fetched.length = l.parts.length + 1 ∧
        ∃ s, l.copy = some s ∧ t = s.tenantId ∧ f = s.fileId
  | .completeMultipartUpload t f u parts =>
      l.opened = true ∧ l.uri = none ∧ l.uploadId = some u ∧ parts = l.parts ∧
        l.parts.length = l.fetched.length ∧ ∃ s, l.copy = some s ∧ t = s.tenantId ∧ f = s.fileId
  | .abortMultipartUpload _ _ u => l.uploadId = some u
  | .registerFile t f uri size cs => l.registered = false ∧ l.Registers t f uri size cs
  | .publishFileUploadCompleted event =>
      l.registered = true ∧ l.published = false ∧
        l.Registers event.tenantId event.fileId event.s3Uri event.totalSize event.checksum
  | .getByChecksum t cs => ∃ newId f size, l.op = .initiate newId t f size cs
  | .releaseLock _ => True
  | .sessionSave _ | .sessionDelete _ | .acquireLock _ _ | .chunkSave _ _ | .deleteAll _ => True

/-- What a call changes of what is on record, one field after the other. -/
structure Follows (l : CommitLocal) (c : Call) (r : Except Exn c.Resp) (l' : CommitLocal) :
    Prop where
  op : l'.op = l.op
  /-- The session is read once. -/
  copy : (∀ sid, c = .sessionGet sid → l.copy = none) → l'.copy = l.copy.or (c.sessionRead r)
  pulls : l'.pulls = l.pulls ++ ((c.pulled r).map (·.2.2)).toList
  fetched : l'.fetched = l.fetched ++ ((c.fetched r).map (·.rawBytes)).toList
  /-- The upload id is the one that S3 has answered with. -/
  uploadId : l'.uploadId = (c.initiated r).or l.uploadId
  parts : l'.parts = l.parts ++ (c.partUploaded r).toList
  uri : l'.uri = (c.completed r).or l.uri
  /-- An upload that takes parts has just been initiated, or took parts before. -/
  opened : l'.opened = true → (c.initiated r).isSome ∨ l.opened = true ∧ c.closes = false
  registered : l'.registered = (l.registered || (c.registered r).isSome)
  published : l'.published = (l.published || (c.announced r).isSome)
  /-- A URI on record has just been looked up, or was on record before. -/
  found : ∀ s3Uri, l'.found = some s3Uri → l.found = some s3Uri ∨ c.looked r = some s3Uri
  ended : l'.ended = false → l.ended = false

/-- What a call puts on record, one field after the other, whichever call it is. -/
theorem next_follows (l : CommitLocal) (c : Call) (r : Except Exn c.Resp) :
    Follows l c r (l.next c r) := by
  cases c with
  | sessionGet sid =>
      rcases r with x | s
      all_goals
        constructor <;> simp_all [next, Call.sessionRead, Call.pulled, Call.fetched,
          Call.initiated, Call.partUploaded, Call.completed, Call.closes, Call.registered,
          Call.announced, Call.looked]
  | chunkGet sid index =>
      rcases r with x | _ | chunk
      all_goals
        constructor <;> simp_all [next, Call.sessionRead, Call.pulled, Call.fetched,
          Call.initiated, Call.partUploaded, Call.completed, Call.closes, Call.registered,
          Call.announced, Call.looked]
  | _ =>
      rcases r with x | a
      all_goals
        constructor <;> simp_all [next, Call.sessionRead, Call.pulled, Call.fetched,
          Call.initiated, Call.partUploaded, Call.completed, Call.closes, Call.registered,
          Call.announced, Call.looked]

section Follows

variable (l : CommitLocal) (c : Call) (r : Except Exn c.Resp)

@[simp] theorem next_op : (l.next c r).op = l.op := (next_follows l c r).op

theorem next_pulls : (l.next c r).pulls = l.pulls ++ ((c.pulled r).map (·.2.2)).toList :=
  (next_follows l c r).pulls

theorem next_fetched : (l.next c r).fetched = l.fetched ++
    ((c.fetched r).map (·.rawBytes)).toList :=
  (next_follows l c r).fetched

theorem next_uploadId : (l.next c r).uploadId = (c.initiated r).or l.uploadId :=
  (next_follows l c r).uploadId

theorem next_parts : (l.next c r).parts = l.parts ++ (c.partUploaded r).toList :=
  (next_follows l c r).parts

theorem next_uri : (l.next c r).uri = (c.completed r).or l.uri := (next_follows l c r).uri

theorem next_registered : (l.next c r).registered = (l.registered || (c.registered r).isSome) :=
  (next_follows l c r).registered

theorem next_published : (l.next c r).published = (l.published || (c.announced r).isSome) :=
  (next_follows l c r).published

end Follows

/-- Only S3 opens an upload. -/
theorem next_opened {l : CommitLocal} {c : Call} {r : Except Exn c.Resp}
    (h : (l.next c r).opened = true) :
    (c.initiated r).isSome ∨ l.opened = true ∧ c.closes = false :=
  (next_follows l c r).opened h

/-- The copy of the session is what the one read of it has answered. -/
theorem next_copy {l : CommitLocal} {c : Call} (r : Except Exn c.Resp) (hallow : l.allows c) :
    (l.next c r).copy = l.copy.or (c.sessionRead r) := by
  apply (next_follows l c r).copy
  rintro sid rfl
  exact hallow

theorem next_found {l : CommitLocal} {c : Call} {r : Except Exn c.Resp} {s3Uri : String}
    (h : (l.next c r).found = some s3Uri) : l.found = some s3Uri ∨ c.looked r = some s3Uri :=
  (next_follows l c r).found s3Uri h

theorem next_ended {l : CommitLocal} {c : Call} {r : Except Exn c.Resp}
    (h : (l.next c r).ended = false) : l.ended = false :=
  (next_follows l c r).ended h

section Allowed

variable {l : CommitLocal} {c : Call} {r : Except Exn c.Resp}

/-- Nothing is fetched for an object that is committed. -/
theorem uri_of_fetched (hallow : l.allows c) {chunk : Chunk} (h : c.fetched r = some chunk) :
    l.uri = none := by
  cases c with
  | chunkGet sid index =>
      rcases hallow with ⟨_, _, _, _, _, huri⟩
      exact huri
  | _ => simp [Call.fetched] at h

/-- One object is committed. -/
theorem uri_of_completed (hallow : l.allows c) {s3Uri : String} (h : c.completed r = some s3Uri) :
    l.uri = none := by
  cases c with
  | completeMultipartUpload t f u parts =>
      rcases hallow with ⟨_, huri, _⟩
      exact huri
  | _ => simp [Call.completed] at h

/-- What is registered is the committed object, once, under the declared digest. -/
theorem registers_of_registered (hallow : l.allows c) {t : UUID} {cs s3Uri : String}
    (h : c.registered r = some (t, cs, s3Uri)) : l.registered = false ∧
      ∃ s, l.copy = some s ∧ l.uri = some s3Uri ∧ t = s.tenantId ∧ cs = s.checksum := by
  cases c with
  | registerFile t' f uri' size cs' =>
      rcases hallow with ⟨honce, s, hcopy, huri, ht, _, _, hcs⟩
      rcases r with x | a
      · cases h
      · cases h
        exact ⟨honce, s, hcopy, huri, ht, hcs⟩
  | _ => simp [Call.registered] at h

/-- What is announced is the registered object, once, with the declared digest. -/
theorem registers_of_announced (hallow : l.allows c) {event : Event}
    (h : c.announced r = some event) : l.published = false ∧
      ∃ s s3Uri, l.copy = some s ∧ l.uri = some s3Uri ∧
        event = ⟨s.tenantId, s.fileId, s3Uri, s.totalSize, s.checksum⟩ := by
  cases c with
  | publishFileUploadCompleted event' =>
      rcases hallow with ⟨_, honce, s, hcopy, huri, ht, hf, hsize, hcs⟩
      rcases r with x | a
      · cases h
      · cases h
        refine ⟨honce, s, event.s3Uri, hcopy, huri, ?_⟩
        rw [← ht, ← hf, ← hsize, ← hcs]
  | _ => simp [Call.announced] at h

/-- What a call states is what the session says of the committed object. -/
theorem registers_of_states (hallow : l.allows c) {event : Event} (h : c.states = some event) :
    l.Registers event.tenantId event.fileId event.s3Uri event.totalSize event.checksum := by
  cases c with
  | registerFile t f uri size cs =>
      cases h
      exact hallow.2
  | publishFileUploadCompleted event' =>
      cases h
      exact hallow.2.2
  | _ => cases h

/-- The committed object and its session stay. -/
theorem Registers.next (hallow : l.allows c) {t f : UUID} {uri : String} {size : Int} {cs : String}
    (h : l.Registers t f uri size cs) : (l.next c r).Registers t f uri size cs := by
  rcases h with ⟨s, hcopy, huri, hrest⟩
  refine ⟨s, ?_, ?_, hrest⟩
  · rw [next_copy r hallow, hcopy]
    rfl
  · rw [next_uri]
    cases hc : c.completed r with
    | none => exact huri
    | some s3Uri =>
        rw [uri_of_completed hallow hc] at huri
        cases huri

end Allowed

end CommitLocal

def commitDiscipline : Discipline Collab CommitLocal where
  next := CommitLocal.next
  allows := CommitLocal.allows
  expects := fun _ _ _ => True
  loops := fun _ => True

/-- A finalize returns the URI it has committed, registered and published; an
initiate returns an existing URI only if it has found one. -/
def commitPost : Op → Except Exn Response → CommitLocal → Prop
  | .finalize _, r, l =>
      ∀ a, r = .ok a → ∃ uri, a = .finalized uri ∧ l.uri = some uri ∧ l.registered = true ∧
        l.published = true
  | .initiate .., r, l => ∀ uri, r = .ok (.initiated (none, some uri)) → l.found = some uri
  | .uploadChunk .., _, _ | .abort _, _, _ | .query _, _, _ => True

@[simp] theorem commitDiscipline_next : commitDiscipline.next = CommitLocal.next := rfl

@[simp] theorem commitDiscipline_allows : commitDiscipline.allows = CommitLocal.allows := rfl

@[simp] theorem commitDiscipline_expects (l : CommitLocal) (c : Call) (r : Except Exn c.Resp) :
    commitDiscipline.expects l c r = True := rfl

@[simp] theorem commitDiscipline_loops (l : CommitLocal) : commitDiscipline.loops l = True := rfl

/-! ## The programs keep the discipline -/

namespace Commit

open CommitLocal

/-- In the critical section of a finalize that has read `s`, before the scan. -/
structure Scanning (l : CommitLocal) (sid : UUID) (s : UploadSession) : Prop where
  op_eq : l.op = .finalize sid
  copy : l.copy = some s
  ended : l.ended = false
  fetched : l.fetched = []
  uploadId : l.uploadId = none
  parts : l.parts = []
  uri : l.uri = none
  registered : l.registered = false
  published : l.published = false

/-- The scanner returns only if all that it has pulled is clean. -/
theorem scanStream_obeys {sid : UUID} {s : UploadSession} {l : CommitLocal}
    (h : Scanning l sid s) (hpulls : l.pulls = []) :
    Obeys commitDiscipline (LocalVirusScanner.scanStream (ChunkRepository.getStream sid) 0) l
      (fun r l' => ∀ a, r = .ok a → Scanning l' sid s ∧ Clean l'.pulls) := by
  -- the invariant of the loop: all pulled so far has passed the scanner
  refine obeys_loop (fun (index : Nat) l' => Scanning l' sid s ∧ index = l'.pulls.length ∧
    AllPass l'.pulls) ⟨h, by simp [hpulls], by simp [hpulls, AllPass]⟩ (fun _ _ _ => trivial) ?_
  intro index l' hI
  rcases hI with ⟨hs, rfl, hpass⟩
  -- a pull that finds nothing, or an empty chunk, ends the scan
  have hend : ∀ r : Option Bytes, (r = none ∨ r = some []) →
      Scanning (l'.next (.chunkPull sid l'.pulls.length) (.ok r)) sid s ∧
        Clean (l'.next (.chunkPull sid l'.pulls.length) (.ok r)).pulls :=
    fun r hr => ⟨⟨hs.op_eq, hs.copy, hs.ended, hs.fetched, hs.uploadId, hs.parts, hs.uri,
      hs.registered,
      hs.published⟩, l'.pulls, r, rfl, hpass, hr⟩
  simp only [ChunkRepository.getStream, obeys_bind, obeys_await, Prog.onOk_ok, Prog.onOk_error,
    obeys_raise, Option.forall, obeys_pure, commitDiscipline_next, commitDiscipline_allows]
  refine ⟨⟨hs.op_eq, hs.ended, rfl, hpass⟩, by simp, fun _ _ _ => hend none (Or.inl rfl), ?_⟩
  intro data _
  by_cases hempty : data = []
  · subst hempty
    simp only [if_true, obeys_pure, Prog.onOk_ok]
    exact fun _ _ => hend (some []) (Or.inr rfl)
  · simp only [hempty, if_false, obeys_pure, Prog.onOk_ok, obeys_bind, obeys_raiseIf,
      Prog.onOk_error, obeys_raise]
    refine ⟨by simp, fun hclean => ⟨⟨hs.op_eq, hs.copy, hs.ended, hs.fetched, hs.uploadId,
      hs.parts, hs.uri, hs.registered, hs.published⟩, by simp [CommitLocal.next], ?_⟩⟩
    intro r hr
    simp only [CommitLocal.next, List.mem_append, List.mem_singleton] at hr
    rcases hr with hr | rfl
    · exact hpass r hr
    · exact ⟨data, rfl, hempty, hclean⟩

/-- A scan that returns leaves chunks on record that have all passed. -/
theorem scan_obeys {sid : UUID} {s : UploadSession} {l : CommitLocal}
    (h : Scanning l sid s) (hpulls : l.pulls = []) :
    Obeys commitDiscipline (FinalizeUploadUseCase.scan s sid) l
      (fun r l' => ∀ a, r = .ok a → Scanning l' sid s ∧ Clean l'.pulls) := by
  rw [FinalizeUploadUseCase.scan, obeys_tryExcept]
  refine (scanStream_obeys h hpulls).mono ?_
  intro r l' hr
  cases r with
  | ok a =>
      simp only [Prog.onError_ok, obeys_done]
      exact hr
  | error x =>
      simp only [Prog.onError_error]
      split
      · simp [SessionRepository.save, ChunkRepository.deleteAll, SessionRepository.delete,
          CommitLocal.allows]
      · simp

/-- Between two rounds of the assembly: every chunk fetched is an uploaded part. -/
structure Assembling (l : CommitLocal) (sid : UUID) (s : UploadSession) (uploadId : Nat)
    (parts : List Part) : Prop where
  op_eq : l.op = .finalize sid
  copy : l.copy = some s
  ended : l.ended = false
  clean : Clean l.pulls
  uploadId : l.uploadId = some uploadId
  opened : l.opened = true
  parts : l.parts = parts
  length : l.parts.length = l.fetched.length
  uri : l.uri = none
  registered : l.registered = false
  published : l.published = false

/-- The assembly may be given up at any time after it has got its upload id. -/
def Abortable (l : CommitLocal) (uploadId : Nat) : Prop := l.uploadId = some uploadId

/-- Each round uploads the chunk that it has just fetched, with the next part number; whenever
it stops, the upload may still be aborted. -/
theorem uploadParts_obeys {sid : UUID} {s : UploadSession} {l : CommitLocal} {uploadId : Nat}
    (h : Assembling l sid s uploadId []) :
    Obeys commitDiscipline (FinalizeUploadUseCase.uploadParts s sid uploadId) l
      (fun r l' => Abortable l' uploadId ∧ ∀ parts, r = .ok parts →
        Assembling l' sid s uploadId parts) := by
  -- the invariant of the loop: the next number is one above the parts made
  refine obeys_loop (fun (round : Nat × List Part) l' => round.1 = round.2.length + 1 ∧
    Assembling l' sid s uploadId round.2) ⟨rfl, h⟩ (fun _ _ _ => trivial) ?_
  intro round l' hI
  rcases round with ⟨partNumber, parts⟩
  rcases hI with ⟨hnumber, hs⟩
  simp only at hnumber
  subst hnumber
  have hparts : l'.parts = parts := hs.parts
  have hlength := hs.length
  simp only [ChunkRepository.get, ObjectStorage.uploadPart, obeys_bind, obeys_await, Prog.onOk_ok,
    Prog.onOk_error, obeys_raise, Option.forall, obeys_pure, commitDiscipline_next,
    commitDiscipline_allows]
  refine ⟨⟨hs.op_eq, hs.ended, hs.clean, ?_, hlength, hs.uri⟩, ?_, ?_, ?_⟩
  · rw [← hparts, hlength]
    simp
  · exact fun _ _ => ⟨hs.uploadId, by simp⟩
  · exact fun _ => ⟨hs.uploadId, fun _ hr => by cases hr; exact hs⟩
  · intro chunk _
    refine ⟨⟨hs.clean, hs.opened, hs.uploadId, ?_, ?_, ?_, s, hs.copy, rfl, rfl⟩, ?_, ?_⟩
    · rw [← hparts]
      simp [CommitLocal.next, hlength]
    · simp [CommitLocal.next]
    · simp [CommitLocal.next, hlength]
    · exact fun _ _ => ⟨hs.uploadId, by simp⟩
    · intro part _
      refine ⟨by simp, hs.op_eq, hs.copy, hs.ended, hs.clean, hs.uploadId, hs.opened, ?_, ?_,
        hs.uri,
        hs.registered, hs.published⟩
      · simp [CommitLocal.next, hparts]
      · simp [CommitLocal.next, hlength]

/-- A committed object. -/
structure Committed (l : CommitLocal) (s : UploadSession) (uri : String) : Prop where
  copy : l.copy = some s
  uri : l.uri = some uri
  registered : l.registered = false
  published : l.published = false

/-- An assembly that returns has completed one upload, with all of its parts. -/
theorem assemble_obeys {sid : UUID} {s : UploadSession} {l : CommitLocal} (h : Scanning l sid s)
    (hclean : Clean l.pulls) :
    Obeys commitDiscipline (FinalizeUploadUseCase.assemble s sid) l
      (fun r l' => ∀ uri, r = .ok uri → Committed l' s uri) := by
  simp only [FinalizeUploadUseCase.assemble, ObjectStorage.initiateMultipartUpload,
    ObjectStorage.completeMultipartUpload, ObjectStorage.abortMultipartUpload,
    SessionRepository.save, obeys_bind, obeys_await, Prog.onOk_ok, Prog.onOk_error, obeys_raise,
    obeys_tryExcept, commitDiscipline_next, commitDiscipline_allows]
  refine ⟨⟨hclean, h.uploadId, h.parts, s, h.copy, rfl, rfl⟩, by simp, ?_⟩
  intro uploadId _
  have hopen : Assembling (l.next (.initiateMultipartUpload s.tenantId s.fileId) (.ok uploadId))
      sid s uploadId [] :=
    ⟨h.op_eq, h.copy, h.ended, hclean, rfl, rfl, h.parts,
      by simp [CommitLocal.next, h.parts, h.fetched], h.uri, h.registered, h.published⟩
  refine (uploadParts_obeys hopen).mono ?_
  intro r l' hr
  cases r with
  | error x => simp [CommitLocal.allows, show l'.uploadId = some uploadId from hr.1]
  | ok parts =>
      have hs := hr.2 parts rfl
      simp only [Prog.onOk_ok, obeys_await, Prog.onError_ok, Prog.onError_error, obeys_bind,
        obeys_done, Prog.onOk_error, obeys_raise, commitDiscipline_next, commitDiscipline_allows]
      refine ⟨⟨hs.opened, hs.uri, hs.uploadId, hs.parts.symm, hs.length, s, hs.copy, rfl, rfl⟩,
        ?_, ?_⟩
      · intro x _
        refine ⟨hs.uploadId, by simp, fun _ _ => ⟨trivial, by simp, by simp⟩⟩
      · intro uri _ uri' hr'
        cases hr'
        exact ⟨hs.copy, rfl, hs.registered, hs.published⟩

/-- Registered first, then announced, and both under the URI of the commit. -/
theorem publish_obeys {sid : UUID} {s : UploadSession} {l : CommitLocal} {uri : String}
    (h : Committed l s uri) :
    Obeys commitDiscipline (FinalizeUploadUseCase.publish s sid uri) l
      (fun r l' => ∀ a, r = .ok a → a = uri ∧ l'.uri = some uri ∧ l'.registered = true ∧
        l'.published = true) := by
  simp only [FinalizeUploadUseCase.publish, MetadataRegistry.registerFile,
    EventPublisher.publishFileUploadCompleted, ChunkRepository.deleteAll, SessionRepository.delete,
    obeys_bind, obeys_await, obeys_ofExcept, Prog.onOk_ok, Prog.onOk_error, obeys_raise,
    commitDiscipline_next, commitDiscipline_allows]
  refine ⟨⟨h.registered, s, h.copy, h.uri, rfl, rfl, rfl, rfl⟩, by simp, fun _ _ => ?_⟩
  refine ⟨⟨rfl, h.published, s, h.copy, h.uri, rfl, rfl, rfl, rfl⟩, by simp, fun _ _ => ?_⟩
  cases s.complete with
  | error x => simp
  | ok _ => simp [CommitLocal.allows, CommitLocal.next, h.uri]

/-- A finalize keeps the order: it fetches nothing before the scan has ended, commits nothing
that it has not fetched, and registers and announces nothing else. -/
theorem finalize_obeys (env : Env) (sid : UUID) :
    Obeys commitDiscipline (Op.prog env (.finalize sid)) (start (.finalize sid))
      (commitPost (.finalize sid)) := by
  -- the release keeps what the critical section has ended with
  have hrelease : ∀ (l : CommitLocal) (r : Except Exn String),
      (∀ a, r = .ok a → l.uri = some a ∧ l.registered = true ∧ l.published = true) →
      Obeys commitDiscipline (SessionRepository.releaseLock sid) l (fun r' l' =>
        Obeys commitDiscipline (Prog.onOk (fun _ => .done r) r') l' (fun r'' l'' =>
          Obeys commitDiscipline (Prog.onOk (fun uri => pure (Response.finalized uri)) r'')
            l'' (commitPost (.finalize sid)))) := by
    intro l r hr
    cases r with
    | error x => simp [SessionRepository.releaseLock, CommitLocal.allows, commitPost]
    | ok uri =>
        have hpost := hr uri rfl
        simp [SessionRepository.releaseLock, CommitLocal.allows, CommitLocal.next, commitPost,
          hpost]
  simp only [Op.prog, FinalizeUploadUseCase.execute, requireSession, SessionRepository.get,
    SessionRepository.acquireLock, obeys_bind, obeys_await, obeys_raiseIf, obeys_tryFinally,
    Prog.onOk_ok, Prog.onOk_error, obeys_raise, obeys_pure, Option.forall, Bool.forall_bool,
    commitDiscipline_next, commitDiscipline_allows]
  refine ⟨rfl, by simp [commitPost], by simp [commitPost], fun s _ => ?_⟩
  refine ⟨by simp [commitPost], fun _ => ⟨by simp [commitPost], fun _ =>
    ⟨by simp [commitPost], fun _ => ⟨trivial, by simp [commitPost], by simp [commitPost],
      fun _ => ⟨by simp, fun _ => ?_⟩⟩⟩⟩⟩
  -- in the critical section
  have hin : Scanning ((start (.finalize sid)).next (.sessionGet sid) (.ok (some s)) |>.next
      (.acquireLock sid RedisSessionRepository.lockTtl) (.ok true)) sid s :=
    ⟨rfl, rfl, rfl, rfl, rfl, rfl, rfl, rfl, rfl⟩
  refine (scan_obeys hin rfl).mono ?_
  intro r l' hr
  cases r with
  | error x => exact hrelease l' _ (by simp)
  | ok clean =>
      have hscanned := hr clean rfl
      simp only [Prog.onOk_ok, obeys_bind]
      refine (assemble_obeys hscanned.1 hscanned.2).mono ?_
      intro r l' hr
      cases r with
      | error x => exact hrelease l' _ (by simp)
      | ok uri =>
          refine (publish_obeys (hr uri rfl)).mono ?_
          intro r l' hr
          refine hrelease l' r (fun a ha => ?_)
          rcases hr a ha with ⟨rfl, hpost⟩
          exact hpost

/-- An initiate commits nothing; it asks the registry for its own tenant and checksum. -/
theorem initiate_obeys (env : Env) (newId t f : UUID) (size : Int) (cs : String) :
    Obeys commitDiscipline (Op.prog env (.initiate newId t f size cs))
      (start (.initiate newId t f size cs)) (commitPost (.initiate newId t f size cs)) := by
  simp [Op.prog, InitiateUploadUseCase.execute, MetadataRegistry.getByChecksum,
    SessionRepository.save, Option.forall, CommitLocal.allows, CommitLocal.next, commitPost, start]

/-- An upload has no part in a commit. -/
theorem uploadChunk_obeys (env : Env) (sid : UUID) (index : Int) (cs : String) (data : Bytes) :
    Obeys commitDiscipline (Op.prog env (.uploadChunk sid index cs data))
      (start (.uploadChunk sid index cs data)) (commitPost (.uploadChunk sid index cs data)) := by
  simp [Op.prog, UploadChunkUseCase.execute, UploadChunkUseCase.process, requireSession,
    SessionRepository.get, SessionRepository.acquireLock, SessionRepository.releaseLock,
    SessionRepository.save, ChunkRepository.save, Option.forall, CommitLocal.allows, commitPost,
    start]
  intro s _ _ _ _ _ _ _
  cases s.updateOffset data.length with
  | error x => simp [commitPost]
  | ok updated => simp [CommitLocal.allows, commitPost]

theorem abort_obeys (env : Env) (sid : UUID) :
    Obeys commitDiscipline (Op.prog env (.abort sid)) (start (.abort sid))
      (commitPost (.abort sid)) := by
  simp [Op.prog, AbortUploadUseCase.execute, requireSession, SessionRepository.get,
    SessionRepository.acquireLock, SessionRepository.releaseLock, SessionRepository.delete,
    ChunkRepository.deleteAll, Option.forall, CommitLocal.allows, commitPost, start]

theorem query_obeys (env : Env) (sid : UUID) :
    Obeys commitDiscipline (Op.prog env (.query sid)) (start (.query sid))
      (commitPost (.query sid)) := by
  simp [Op.prog, querySession, requireSession, SessionRepository.get, Option.forall,
    CommitLocal.allows, commitPost, start]

/-- Every request keeps the discipline, whatever it is answered. -/
theorem prog_obeys (env : Env) (op : Op) :
    Obeys commitDiscipline (Op.prog env op) (start op) (commitPost op) := by
  cases op with
  | initiate newId t f size cs => exact initiate_obeys env newId t f size cs
  | uploadChunk sid index cs data => exact uploadChunk_obeys env sid index cs data
  | finalize sid => exact finalize_obeys env sid
  | abort sid => exact abort_obeys env sid
  | query sid => exact query_obeys env sid

end Commit

/-! ## In a run -/

variable {env : Env}

/-- What request `i`, which asked for `op`, has been answered. -/
@[reducible] def answered (s : Scene (service env)) (i : Nat) (op : Op) : CommitLocal :=
  s.localOf commitDiscipline CommitLocal.start i op

theorem answered_op (s : Scene (service env)) (i : Nat) (op : Op) :
    (answered s i op).op = op := by
  apply replay_fixed (D := commitDiscipline) (fun l => l.op)
  exact CommitLocal.next_op

/-- The record of the request that has called moves on by the call. -/
theorem answered_answer_self (s : Scene (service env)) (i : Nat) (cl : Call) (out : Outcome)
    (op : Op) : answered (s.answer i cl out) i op =
      (answered s i op).next cl (handle env out cl s.world).1 :=
  localOf_answer_self commitDiscipline CommitLocal.start s i cl out op

/-- The records of the others stay as they are. -/
theorem answered_answer_other (s : Scene (service env)) (i : Nat) (cl : Call) (out : Outcome)
    {j : Nat} (hj : j ≠ i) (op : Op) : answered (s.answer i cl out) j op = answered s j op :=
  localOf_answer_other commitDiscipline CommitLocal.start s i cl out hj op

/-- What holds of all records still holds when a request comes in, if it holds of a new record. -/
theorem answered_forall_spawn {P : Nat → Op → CommitLocal → Prop} {s : Scene (service env)}
    (hwf : s.Wf) {op : Op} (hnew : P s.ops.length op (CommitLocal.start op))
    (hold : ∀ i op', s.ops[i]? = some op' → P i op' (answered s i op')) :
    ∀ i op', (s.ops ++ [op])[i]? = some op' →
      P i op' (answered (⟨s.world, s.ops ++ [op], s.log⟩ : Scene (service env)) i op') :=
  Scene.forall_spawn (D := commitDiscipline) (P := P) hwf hnew hold

/-- What holds of all records still holds after a call, if the call keeps it for its own request
and for the others. -/
theorem answered_forall_answer {P : Nat → Op → CommitLocal → Prop} {s : Scene (service env)}
    {i : Nat} {op : Op} {cl : Call} {out : Outcome} (hi : s.ops[i]? = some op)
    (hself : P i op ((answered s i op).next cl (handle env out cl s.world).1))
    (hother : ∀ j op', j ≠ i → s.ops[j]? = some op' → P j op' (answered s j op')) :
    ∀ j op', s.ops[j]? = some op' → P j op' (answered (s.answer i cl out) j op') :=
  Scene.forall_answer (D := commitDiscipline) (P := P) hi hself hother

end FileUploader
