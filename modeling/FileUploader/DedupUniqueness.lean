import FileUploader.Immutability
import FileUploader.SessionDiscipline

/-! # One object for each content

The dedup registry is asked when a session is initiated, and told when its finalize has
committed. In between other sessions for the same content may be initiated, and each is
finalized under a file id of its own. What a session is for does not change on the way
from the initiate to the commit, so the objects of one content are as many as the file
ids for which the registry was asked in vain.
-/

namespace FileUploader

open Await S3ObjectStorage

variable {env : Env}

/-- The tenant and checksum for which a lookup has found no entry. -/
def Call.missed : (c : Call) → Except Exn c.Resp → Option (UUID × String)
  | .getByChecksum t cs, .ok none => some (t, cs)
  | _, _ => none

/-! ## From the initiate to the commit -/

/-- What matters of a request: the session it has read, and whether the registry has told
it that there is no entry. -/
structure LineageLocal where
  op : Op
  copy : Option UploadSession
  missed : Bool

/-- Two sessions for the same file of the same tenant, with the same checksum. -/
structure SameFile (v s : UploadSession) : Prop where
  tenant : s.tenantId = v.tenantId
  file : s.fileId = v.fileId
  checksum : s.checksum = v.checksum

namespace LineageLocal

def start (op : Op) : LineageLocal := ⟨op, none, false⟩

def next (l : LineageLocal) : (c : Call) → Except Exn c.Resp → LineageLocal
  | .sessionGet _, .ok s => { l with copy := s }
  | .getByChecksum _ _, .ok none => { l with missed := true }
  | _, _ => l

/-- A new session is stored only by an initiate that has found no entry; any other save
or commit is for the file of the session that the request has read. -/
def allows (l : LineageLocal) : Call → Prop
  | .sessionGet _ => l.copy = none
  | .getByChecksum t cs => ∃ newId f size, l.op = .initiate newId t f size cs
  | .sessionSave s =>
      (l.missed = true ∧ SessionLocal.Creates s l.op) ∨ ∃ v, l.copy = some v ∧ SameFile v s
  | .completeMultipartUpload t f _ _ => ∃ v, l.copy = some v ∧ t = v.tenantId ∧ f = v.fileId
  | _ => True

/-- The session that has been read is the one that is kept. -/
theorem next_copy {l : LineageLocal} {c : Call} (r : Except Exn c.Resp) (hallow : l.allows c) :
    (l.next c r).copy = l.copy.or (c.sessionRead r) := by
  cases c with
  | sessionGet sid =>
      rw [show l.copy = none from hallow]
      rcases r with x | s
      · exact hallow
      · rfl
  | getByChecksum t cs => rcases r with x | _ | s3Uri <;> simp [next, Call.sessionRead]
  | _ => simp [next, Call.sessionRead]

theorem next_missed (l : LineageLocal) (c : Call) (r : Except Exn c.Resp) :
    (l.next c r).missed = (l.missed || (c.missed r).isSome) := by
  cases c with
  | getByChecksum t cs => rcases r with x | _ | s3Uri <;> simp [next, Call.missed]
  | _ => rcases r with x | a <;> simp [next, Call.missed]

@[simp] theorem next_op (l : LineageLocal) (c : Call) (r : Except Exn c.Resp) :
    (l.next c r).op = l.op := by
  unfold next
  split <;> rfl

end LineageLocal

def lineage : Discipline Collab LineageLocal where
  next := LineageLocal.next
  allows := LineageLocal.allows
  expects := fun _ _ _ => True
  loops := fun _ => True

@[simp] theorem lineage_next : lineage.next = LineageLocal.next := rfl

@[simp] theorem lineage_allows : lineage.allows = LineageLocal.allows := rfl

@[simp] theorem lineage_expects (l : LineageLocal) (c : Call) (r : Except Exn c.Resp) :
    lineage.expects l c r = True := rfl

@[simp] theorem lineage_loops (l : LineageLocal) : lineage.loops l = True := rfl

namespace Lineage

open LineageLocal

variable {sid : UUID} {v : UploadSession} {l : LineageLocal}

/-- A session that moves on is still for the same file. -/
theorem sameFile_updateOffset {s : UploadSession} {n : Int} (h : v.updateOffset n = .ok s) :
    SameFile v s := by
  rcases UploadSession.updateOffset_ok h with ⟨_, _, _, _, ht, hf, _, hcs, _⟩
  exact ⟨ht, hf, hcs⟩

/-- A finalize and an upload work for the session that they have read. -/
theorem scan_obeys (h : l.copy = some v) :
    Obeys lineage (FinalizeUploadUseCase.scan v sid) l (fun _ l' => l' = l) := by
  have hstream : Obeys lineage
      (LocalVirusScanner.scanStream (ChunkRepository.getStream sid) 0) l (fun _ l' => l' = l) := by
    refine obeys_loop (fun _ l' => l' = l) rfl (fun _ _ _ => trivial) ?_
    rintro index l' rfl
    simp only [ChunkRepository.getStream, obeys_bind, obeys_await, Prog.onOk_ok, Prog.onOk_error,
      obeys_raise, Option.forall, obeys_pure]
    refine ⟨trivial, fun _ _ => rfl, fun _ => rfl, ?_⟩
    intro data _
    split
    · rfl
    · simp [LineageLocal.next]
  rw [FinalizeUploadUseCase.scan, obeys_tryExcept]
  refine hstream.mono ?_
  rintro (x | a) _ rfl
  · simp only [Prog.onError_error]
    split
    · -- malware: the failed session is the same file
      have hfail : SameFile v v.fail := ⟨rfl, rfl, rfl⟩
      simp only [SessionRepository.save, ChunkRepository.deleteAll, SessionRepository.delete,
        obeys_bind, obeys_await, Prog.onOk_ok, Prog.onOk_error, obeys_raise]
      exact ⟨Or.inr ⟨v, h, hfail⟩, fun _ _ => rfl, fun _ _ => ⟨trivial, fun _ _ => rfl,
        fun _ _ => ⟨trivial, fun _ _ => rfl, fun _ _ => rfl⟩⟩⟩
    · rfl
  · rfl

theorem assemble_obeys (h : l.copy = some v) :
    Obeys lineage (FinalizeUploadUseCase.assemble v sid) l (fun _ l' => l' = l) := by
  have hparts : ∀ uploadId, Obeys lineage
      (FinalizeUploadUseCase.uploadParts v sid uploadId) l (fun _ l' => l' = l) := by
    intro uploadId
    refine obeys_loop (fun _ l' => l' = l) rfl (fun _ _ _ => trivial) ?_
    rintro ⟨partNumber, parts⟩ l' rfl
    simp [ChunkRepository.get, ObjectStorage.uploadPart, Option.forall, LineageLocal.next,
      LineageLocal.allows]
  have hfail : SameFile v v.fail := ⟨rfl, rfl, rfl⟩
  simp only [FinalizeUploadUseCase.assemble, ObjectStorage.initiateMultipartUpload,
    ObjectStorage.completeMultipartUpload, ObjectStorage.abortMultipartUpload,
    SessionRepository.save, obeys_bind, obeys_await, Prog.onOk_ok, Prog.onOk_error, obeys_raise,
    obeys_tryExcept]
  refine ⟨trivial, fun _ _ => rfl, fun uploadId _ => ?_⟩
  refine (hparts uploadId).mono ?_
  rintro (x | parts) _ rfl
  · simp [LineageLocal.next, LineageLocal.allows, h, hfail]
  · simp [LineageLocal.next, LineageLocal.allows, h, hfail]

theorem publish_obeys (s3Uri : String) :
    Obeys lineage (FinalizeUploadUseCase.publish v sid s3Uri) l (fun _ l' => l' = l) := by
  simp only [FinalizeUploadUseCase.publish, MetadataRegistry.registerFile,
    EventPublisher.publishFileUploadCompleted, ChunkRepository.deleteAll, SessionRepository.delete,
    obeys_bind, obeys_await, obeys_ofExcept, Prog.onOk_ok, Prog.onOk_error, obeys_raise]
  refine ⟨trivial, fun _ _ => rfl, fun _ _ => ⟨trivial, fun _ _ => rfl, fun _ _ => ?_⟩⟩
  cases v.complete with
  | error x => simp [LineageLocal.next]
  | ok _ => simp [LineageLocal.next, LineageLocal.allows]

theorem finalize_obeys (env : Env) (sid : UUID) :
    Obeys lineage (Op.prog env (.finalize sid)) (start (.finalize sid)) (fun _ _ => True) := by
  have hrelease : ∀ (l : LineageLocal) (r : Except Exn String),
      Obeys lineage (SessionRepository.releaseLock sid) l (fun r' l' =>
        Obeys lineage (Prog.onOk (fun _ => .done r) r') l' (fun r'' l'' =>
          Obeys lineage (Prog.onOk (fun uri => pure (Response.finalized uri)) r'')
            l'' (fun _ _ => True))) := by
    intro l r
    cases r <;> simp [SessionRepository.releaseLock, LineageLocal.allows]
  simp only [Op.prog, FinalizeUploadUseCase.execute, requireSession, SessionRepository.get,
    SessionRepository.acquireLock, obeys_bind, obeys_await, obeys_raiseIf, obeys_tryFinally,
    Prog.onOk_ok, Prog.onOk_error, obeys_raise, obeys_pure, Option.forall, Bool.forall_bool]
  refine ⟨rfl, fun _ _ => trivial, fun _ => trivial, fun v _ => ?_⟩
  refine ⟨fun _ => trivial, fun _ => ⟨fun _ => trivial, fun _ => ⟨fun _ => trivial, fun _ =>
    ⟨trivial, fun _ _ => trivial, fun _ => ⟨fun _ => trivial, fun _ => ?_⟩,
      fun _ => ⟨fun _ => trivial, fun _ => ?_⟩⟩⟩⟩⟩
  all_goals
    refine (scan_obeys rfl).mono ?_
    rintro (x | clean) l' rfl
    · exact hrelease _ _
    · simp only [Prog.onOk_ok, obeys_bind]
      refine (assemble_obeys rfl).mono ?_
      rintro (x | s3Uri) l' rfl
      · exact hrelease _ _
      · refine (publish_obeys s3Uri).mono ?_
        rintro r l' rfl
        exact hrelease _ r

/-- An upload saves the session that it has read, with the offset moved. -/
theorem process_obeys {index : Int} {cs : String} {data : Bytes} (h : l.copy = some v) :
    Obeys lineage (UploadChunkUseCase.process env v sid index cs data) l (fun _ _ => True) := by
  simp only [UploadChunkUseCase.process, ChunkRepository.save, SessionRepository.save, obeys_bind,
    obeys_raiseIf, obeys_await, obeys_ofExcept, Prog.onOk_ok, Prog.onOk_error, obeys_raise]
  refine ⟨fun _ => trivial, fun _ => ⟨fun _ => trivial, fun _ => ⟨fun _ => trivial, fun _ =>
    ⟨trivial, fun _ _ => trivial, fun _ _ => ?_⟩⟩⟩⟩
  cases hmove : v.updateOffset data.length with
  | error x => exact trivial
  | ok s =>
      simp only [Prog.onOk_ok, obeys_bind, obeys_await, Prog.onOk_error, obeys_raise, obeys_pure]
      exact ⟨Or.inr ⟨v, h, sameFile_updateOffset hmove⟩, fun _ _ => trivial, fun _ _ => trivial⟩

theorem uploadChunk_obeys (env : Env) (sid : UUID) (index : Int) (cs : String) (data : Bytes) :
    Obeys lineage (Op.prog env (.uploadChunk sid index cs data))
      (start (.uploadChunk sid index cs data)) (fun _ _ => True) := by
  have hrelease : ∀ (l : LineageLocal) (r : Except Exn UploadSession),
      Obeys lineage (SessionRepository.releaseLock sid) l (fun r' l' =>
        Obeys lineage (Prog.onOk (fun _ => .done r) r') l' (fun r'' l'' =>
          Obeys lineage (Prog.onOk (fun s => pure (Response.uploaded s)) r'')
            l'' (fun _ _ => True))) := by
    intro l r
    cases r <;> simp [SessionRepository.releaseLock, LineageLocal.allows]
  simp only [Op.prog, UploadChunkUseCase.execute, requireSession, SessionRepository.get,
    SessionRepository.acquireLock, obeys_bind, obeys_await, obeys_raiseIf, obeys_tryFinally,
    Prog.onOk_ok, Prog.onOk_error, obeys_raise, obeys_pure, Option.forall, Bool.forall_bool]
  refine ⟨rfl, fun _ _ => trivial, fun _ => trivial, fun v _ => ⟨fun _ => trivial, fun _ =>
    ⟨trivial, fun _ _ => trivial, fun _ => ⟨fun _ => trivial, fun _ => ?_⟩,
      fun _ => ⟨fun _ => trivial, fun _ => ?_⟩⟩⟩⟩
  all_goals
    refine (process_obeys rfl).mono ?_
    rintro r l' -
    exact hrelease l' r

/-- Every request keeps the discipline. -/
theorem prog_obeys (env : Env) (op : Op) :
    Obeys lineage (Op.prog env op) (start op) (fun _ _ => True) := by
  cases op with
  | initiate newId t f size cs =>
      simp [Op.prog, InitiateUploadUseCase.execute, MetadataRegistry.getByChecksum,
        SessionRepository.save, Option.forall, LineageLocal.allows, LineageLocal.next, start,
        SessionLocal.Creates]
  | uploadChunk sid index cs data => exact uploadChunk_obeys env sid index cs data
  | finalize sid => exact finalize_obeys env sid
  | abort sid =>
      simp [Op.prog, AbortUploadUseCase.execute, requireSession, SessionRepository.get,
        SessionRepository.acquireLock, SessionRepository.releaseLock, SessionRepository.delete,
        ChunkRepository.deleteAll, Option.forall, LineageLocal.allows, start]
  | query sid =>
      simp [Op.prog, querySession, requireSession, SessionRepository.get, Option.forall,
        LineageLocal.allows, start]

end Lineage

/-! ## What the registry was asked for in vain -/

/-- The file of an initiate request. -/
def Op.fileId? : Op → Option UUID
  | .initiate _ _ f _ _ => some f
  | _ => none

/-- An initiate for this file has been told that there is no entry for this content. -/
def Missed (s : Scene (service env)) (t : UUID) (cs : String) (f : UUID) : Prop :=
  ∃ e ∈ s.log, e.call.missed e.resp = some (t, cs) ∧
    ∃ op, s.ops[e.rid]? = some op ∧ op.fileId? = some f

/-- A lookup finds an entry, or it is for the same file as every earlier one for the same
content that has found none. -/
def missesForOneFile (c : Run env) : Label (service env) → Bool
  | .call i .works =>
      match c.pending i with
      | some (.getByChecksum t cs) =>
          (RedisMetadataRegistry.getByChecksum c.world t cs).isSome || c.log.all fun e =>
            e.call.missed e.resp ≠ some (t, cs) ||
              (c.ops[e.rid]?).bind Op.fileId? = (c.ops[i]?).bind Op.fileId?
      | _ => true
  | _ => true

/-- What request `i`, which asked for `op`, has read and been told. -/
def traced (s : Scene (service env)) (i : Nat) (op : Op) : LineageLocal :=
  s.localOf lineage LineageLocal.start i op

theorem traced_op (s : Scene (service env)) (i : Nat) (op : Op) : (traced s i op).op = op :=
  replay_fixed (D := lineage) (·.op) LineageLocal.next_op (LineageLocal.start op) (callsOf i s.log)

/-- Every session in the store or in flight goes back to an initiate that has found no
entry for its content, and all these initiates are for one file. -/
structure OneFile (s : Scene (service env)) : Prop where
  agree : ∀ t cs f f', Missed s t cs f → Missed s t cs f' → f = f'
  told : ∀ (i : Nat) (op : Op), s.ops[i]? = some op → (traced s i op).missed = true →
    ∀ newId t f size cs, op = .initiate newId t f size cs → Missed s t cs f
  stored : ∀ sid v, s.world.session? sid = some v → Missed s v.tenantId v.checksum v.fileId
  copied : ∀ (i : Nat) (op : Op), s.ops[i]? = some op → ∀ v, (traced s i op).copy = some v →
    Missed s v.tenantId v.checksum v.fileId
  reads : ∀ (i : Nat) (op : Op), s.ops[i]? = some op →
    readsOf (callsOf i s.log) = (traced s i op).copy.toList
  completes : ∀ e ∈ s.log, ∀ t f u parts, e.call = .completeMultipartUpload t f u parts →
    ∃ op v, s.ops[e.rid]? = some op ∧ (traced s e.rid op).copy = some v ∧
      t = v.tenantId ∧ f = v.fileId

section Step

variable {s : Scene (service env)} {i : Nat} {op : Op} {cl : Call} {out : Outcome}

/-- A lookup that missed stays on record. -/
theorem Missed.answer {t : UUID} {cs : String} {f : UUID} (h : Missed s t cs f) :
    Missed (s.answer i cl out) t cs f := by
  rcases h with ⟨e, he, hmiss, hop⟩
  exact ⟨e, List.mem_append_left _ he, hmiss, hop⟩

theorem Missed.spawn {t : UUID} {cs : String} {f : UUID} (h : Missed s t cs f) (op : Op) :
    Missed (⟨s.world, s.ops ++ [op], s.log⟩ : Scene (service env)) t cs f := by
  rcases h with ⟨e, he, hmiss, op', hop, hf⟩
  have hlt := (List.getElem?_eq_some_iff.1 hop).1
  exact ⟨e, he, hmiss, op', (List.getElem?_append_left hlt).trans hop, hf⟩

/-- A lookup that has missed is one that has gone through, by an initiate for the content. -/
theorem miss_cases {t : UUID} {cs : String}
    (hmiss : cl.missed (handle env out cl s.world).1 = some (t, cs)) :
    cl = .getByChecksum t cs ∧ out = .works ∧
      RedisMetadataRegistry.getByChecksum s.world t cs = none := by
  unfold Call.missed at hmiss
  split at hmiss
  · rename_i t' cs' hans
    cases hmiss
    cases out with
    | works =>
        simp only [handle, respond, Except.ok.injEq] at hans
        exact ⟨rfl, rfl, hans⟩
    | raises msg => simp [handle, failed] at hans
    | raisesAfter msg => simp [handle, failed] at hans
  · cases hmiss

/-- A new miss is for the file of the earlier ones, under the condition. -/
theorem missed_agree {c : Run env} {t : UUID} {cs : String} (hop : c.ops[i]? = some op)
    (hpending : c.pending i = some cl) (hg : missesForOneFile c (.call i out) = true)
    (hmiss : cl.missed (handle env out cl c.world).1 = some (t, cs)) {f : UUID}
    (hold : Missed c.scene t cs f) : op.fileId? = some f := by
  rcases miss_cases (s := c.scene) hmiss with ⟨rfl, rfl, hnone⟩
  rcases hold with ⟨e, he, hmiss', op', hop', hf⟩
  have hnone' : RedisMetadataRegistry.getByChecksum c.world t cs = none := hnone
  simp only [missesForOneFile, hpending, hnone', Option.isSome_none, Bool.false_or,
    List.all_eq_true] at hg
  have hsame := hg e he
  have hop'' : c.ops[e.rid]? = some op' := hop'
  rw [hop'', hop] at hsame
  simp only [hmiss', Option.bind_some, hf] at hsame
  have hfile : some f = op.fileId? := by simpa using hsame
  exact hfile.symm

/-- The miss of this call, if it is one. -/
theorem missed_now {t : UUID} {cs : String} (hop : s.ops[i]? = some op)
    (hallow : (traced s i op).allows cl)
    (hmiss : cl.missed (handle env out cl s.world).1 = some (t, cs)) {newId t' f : UUID}
    {size : Int} {cs' : String} (hinit : op = .initiate newId t' f size cs') :
    t' = t ∧ cs' = cs ∧ Missed (s.answer i cl out) t cs f := by
  rcases miss_cases hmiss with ⟨rfl, _, _⟩
  rcases hallow with ⟨newId', f', size', hop'⟩
  rw [traced_op, hinit] at hop'
  cases hop'
  refine ⟨rfl, rfl, _, List.mem_append_right _ (List.mem_singleton.2 rfl), hmiss, op, hop, ?_⟩
  rw [hinit]
  rfl

/-- What is saved goes back to an initiate that has found no entry. -/
theorem OneFile.saved (h : OneFile s) (hop : s.ops[i]? = some op) {v : UploadSession}
    (hallow : (traced s i op).allows (.sessionSave v)) :
    Missed s v.tenantId v.checksum v.fileId := by
  rcases hallow with ⟨hmissed, hnew⟩ | ⟨v', hcopy, hsame⟩
  · rw [traced_op] at hnew
    cases op with
    | initiate newId t f size cs =>
        have hmiss := h.told i _ hop hmissed newId t f size cs rfl
        rw [SessionLocal.Creates] at hnew
        subst hnew
        exact hmiss
    | _ => exact hnew.elim
  · have hmiss := h.copied i op hop v' hcopy
    rw [hsame.tenant, hsame.checksum, hsame.file]
    exact hmiss

/-- The session on record is the one that was read. -/
theorem OneFile.reads_answer (h : OneFile s) (hop : s.ops[i]? = some op)
    (hallow : (traced s i op).allows cl) : ∀ (j : Nat) (op' : Op), s.ops[j]? = some op' →
      readsOf (callsOf j (s.answer i cl out).log) =
        (traced (s.answer i cl out) j op').copy.toList := by
  refine Scene.forall_answer (D := lineage) (P := fun j _ l =>
    readsOf (callsOf j (s.answer i cl out).log) = l.copy.toList) hop ?_ ?_
  · -- the reading request itself
    have hcalls : readsOf (callsOf i (s.answer i cl out).log) =
        readsOf (callsOf i s.log) ++ (cl.sessionRead (handle env out cl s.world).1).toList := by
      rw [callsOf_answer_self]
      exact filterMap_concat _ _ _
    have hcopy := LineageLocal.next_copy (handle env out cl s.world).1 hallow
    have hbefore := h.reads i op hop
    show _ = ((traced s i op).next cl (handle env out cl s.world).1).copy.toList
    rw [hcalls, hbefore, hcopy]
    cases hc : (traced s i op).copy with
    | none => simp
    | some v =>
        have hread : cl.sessionRead (handle env out cl s.world).1 = none := by
          cases cl with
          | sessionGet sid =>
              rw [show (traced s i op).copy = none from hallow] at hc
              cases hc
          | _ => simp [Call.sessionRead]
        simp [hread]
  · intro j op' hne hj
    rw [callsOf_answer_other s i cl out hne]
    exact h.reads j op' hj

/-- A completion is for the file of the session that its request has read. -/
theorem OneFile.completes_answer (h : OneFile s) (hop : s.ops[i]? = some op)
    (hallow : (traced s i op).allows cl) : ∀ e ∈ (s.answer i cl out).log, ∀ t f u parts,
      e.call = .completeMultipartUpload t f u parts → ∃ op' v, s.ops[e.rid]? = some op' ∧
        (traced (s.answer i cl out) e.rid op').copy = some v ∧ t = v.tenantId ∧ f = v.fileId := by
  -- a session that has been read is kept
  have hkept : ∀ (j : Nat) (op' : Op) v, s.ops[j]? = some op' → (traced s j op').copy = some v →
      (traced (s.answer i cl out) j op').copy = some v := by
    intro j op' v hj hv
    by_cases hij : j = i
    · subst hij
      rw [hop] at hj
      cases hj
      rw [traced, localOf_answer_self]
      refine (LineageLocal.next_copy _ hallow).trans ?_
      rw [hv]
      rfl
    · rw [traced, localOf_answer_other _ _ _ _ _ _ hij]
      exact hv
  intro e he t f u parts hc
  rcases List.mem_append.1 he with he | he
  · rcases h.completes e he t f u parts hc with ⟨op', v, hop', hv, ht, hf⟩
    exact ⟨op', v, hop', hkept _ _ v hop' hv, ht, hf⟩
  · rw [List.mem_singleton.1 he] at hc ⊢
    simp only at hc
    subst hc
    rcases hallow with ⟨v, hv, ht, hf⟩
    exact ⟨op, v, hop, hkept i op v hop hv, ht, hf⟩

/-- Two misses: at most one of them is this call. -/
theorem OneFile.agree_answer {c : Run env} (h : OneFile c.scene) (hop : c.ops[i]? = some op)
    (hpending : c.pending i = some cl) (hg : missesForOneFile c (.call i out)) {t : UUID}
    {cs : String} {f f' : UUID} (h₁ : Missed (c.scene.answer i cl out) t cs f)
    (h₂ : Missed (c.scene.answer i cl out) t cs f') : f = f' := by
  have hscene : c.scene.ops[i]? = some op := hop
  have hsplit : ∀ {f : UUID}, Missed (c.scene.answer i cl out) t cs f → Missed c.scene t cs f ∨
      (cl.missed (handle env out cl c.world).1 = some (t, cs) ∧ op.fileId? = some f) := by
    intro f hmiss
    rcases hmiss with ⟨e, he, hm, op', hop', hf⟩
    rcases List.mem_append.1 he with he | he
    · exact Or.inl ⟨e, he, hm, op', hop', hf⟩
    · rw [List.mem_singleton.1 he] at hm hop'
      cases hscene.symm.trans hop'
      exact Or.inr ⟨hm, hf⟩
  rcases hsplit h₁ with h₁ | ⟨hm, hf⟩
  · rcases hsplit h₂ with h₂ | ⟨hm, hf'⟩
    · exact h.agree t cs f f' h₁ h₂
    · exact Option.some.inj ((missed_agree hop hpending hg hm h₁).symm.trans hf')
  · rcases hsplit h₂ with h₂ | ⟨_, hf'⟩
    · exact Option.some.inj (hf.symm.trans (missed_agree hop hpending hg hm h₂))
    · exact Option.some.inj (hf.symm.trans hf')

/-- An initiate that has been told that there is no entry has missed it. -/
theorem OneFile.told_answer (h : OneFile s) (hop : s.ops[i]? = some op)
    (hallow : (traced s i op).allows cl) : ∀ (j : Nat) (op' : Op), s.ops[j]? = some op' →
      (traced (s.answer i cl out) j op').missed = true → ∀ newId t f size cs,
        op' = .initiate newId t f size cs → Missed (s.answer i cl out) t cs f := by
  refine Scene.forall_answer (D := lineage) (P := fun _ (op' : Op) l => l.missed = true →
    ∀ newId t f size cs, op' = .initiate newId t f size cs →
      Missed (s.answer i cl out) t cs f) hop ?_
    (fun j op' _ hj hm newId t f size cs hinit =>
      (h.told j op' hj hm newId t f size cs hinit).answer)
  intro hm newId t f size cs hinit
  rw [lineage_next, LineageLocal.next_missed, Bool.or_eq_true] at hm
  rcases hm with hm | hm
  · exact (h.told i op hop hm newId t f size cs hinit).answer
  · rcases Option.isSome_iff_exists.1 hm with ⟨⟨t', cs'⟩, hmiss⟩
    rcases missed_now hop hallow hmiss hinit with ⟨rfl, rfl, hmissed⟩
    exact hmissed

/-- A session is stored by the initiate that missed, or saved again for the same file. -/
theorem OneFile.stored_answer (h : OneFile s) (hop : s.ops[i]? = some op)
    (hallow : (traced s i op).allows cl) (sid : UUID) (v : UploadSession)
    (hv : (s.answer i cl out).world.session? sid = some v) :
    Missed (s.answer i cl out) v.tenantId v.checksum v.fileId := by
  rcases handle_session? env out cl s.world sid with hsame | ⟨v', hc, _, hs⟩ | ⟨_, hnone⟩
  · exact (h.stored sid v (hsame.symm.trans hv)).answer
  · subst hc
    cases hs.symm.trans hv
    exact (h.saved hop hallow).answer
  · cases hnone.symm.trans hv

/-- A session that is read has been stored. -/
theorem OneFile.copied_answer (h : OneFile s) (hop : s.ops[i]? = some op)
    (hallow : (traced s i op).allows cl) : ∀ (j : Nat) (op' : Op), s.ops[j]? = some op' →
      ∀ v, (traced (s.answer i cl out) j op').copy = some v →
        Missed (s.answer i cl out) v.tenantId v.checksum v.fileId := by
  refine Scene.forall_answer (D := lineage) (P := fun _ _ l => ∀ v, l.copy = some v →
    Missed (s.answer i cl out) v.tenantId v.checksum v.fileId) hop ?_
    (fun j op' _ hj v hv => (h.copied j op' hj v hv).answer)
  intro v hv
  have hcopy := LineageLocal.next_copy (handle env out cl s.world).1 hallow
  rw [lineage_next] at hv
  rcases Option.or_eq_some_iff.1 (hcopy.symm.trans hv) with hwas | ⟨_, hread⟩
  · exact (h.copied i op hop v hwas).answer
  · rcases handle_sessionRead env out cl s.world hread with ⟨sid, _, hstored⟩
    exact (h.stored sid v hstored).answer

theorem OneFile.spawn {c : Run env} (h : OneFile c.scene) (hwf : c.scene.Wf) (op : Op) :
    OneFile (⟨c.world, c.ops ++ [op], c.log⟩ : Scene (service env)) := by
  have hlift : ∀ {t : UUID} {cs : String} {f : UUID}, Missed c.scene t cs f →
      Missed (⟨c.world, c.ops ++ [op], c.log⟩ : Scene (service env)) t cs f :=
    fun hmiss => hmiss.spawn op
  refine ⟨?_, ?_, fun sid v hv => hlift (h.stored sid v hv), ?_, ?_, ?_⟩
  · -- no call has been made: the requests of the log are the old ones
    have hback : ∀ {t : UUID} {cs : String} {f : UUID},
        Missed (⟨c.world, c.ops ++ [op], c.log⟩ : Scene (service env)) t cs f →
        Missed c.scene t cs f := by
      intro t cs f hmiss
      rcases hmiss with ⟨e, he, hm, op', hop', hf⟩
      refine ⟨e, he, hm, op', ?_, hf⟩
      rcases getElem?_concat hop' with hold | ⟨heq, _⟩
      · exact hold
      · have hlt : e.rid < c.ops.length := hwf e he
        omega
    exact fun t cs f f' h₁ h₂ => h.agree t cs f f' (hback h₁) (hback h₂)
  · exact Scene.forall_spawn (D := lineage) (P := fun _ (op' : Op) l => l.missed = true →
      ∀ newId t f size cs, op' = .initiate newId t f size cs →
        Missed (⟨c.world, c.ops ++ [op], c.log⟩ : Scene (service env)) t cs f) hwf
      (by simp [LineageLocal.start])
      (fun i op' hi hm newId t f size cs hop => hlift (h.told i op' hi hm newId t f size cs hop))
  · exact Scene.forall_spawn (D := lineage) (P := fun _ _ l => ∀ v, l.copy = some v →
      Missed (⟨c.world, c.ops ++ [op], c.log⟩ : Scene (service env)) v.tenantId v.checksum
        v.fileId) hwf (by simp [LineageLocal.start])
      (fun i op' hi v hv => hlift (h.copied i op' hi v hv))
  · refine Scene.forall_spawn (D := lineage) (P := fun j _ l =>
      readsOf (callsOf j c.log) = l.copy.toList) hwf ?_ h.reads
    have hnil := hwf.callsOf_eq_nil
    simp only [Config.scene] at hnil
    simp [Config.scene, hnil, LineageLocal.start, readsOf]
  · intro e he t f u parts hc
    rcases h.completes e he t f u parts hc with ⟨op', v, hop', hrest⟩
    have hlt := (List.getElem?_eq_some_iff.1 hop').1
    exact ⟨op', v, (List.getElem?_append_left hlt).trans hop', hrest⟩

theorem oneFile_inductive : Inductive lineage LineageLocal.start
    (fun (c : Run env) l => missesForOneFile c l) (fun s => OneFile s) where
  spawn := fun _ op _ hwf h => h.spawn hwf op
  move := by
    intro c d _ h
    refine ⟨h.agree, h.told, fun sid v hv => h.stored sid v ?_, h.copied, h.reads, h.completes⟩
    exact c.world.sessions.get_of_get_later (Nat.le_add_right _ d) hv
  call := by
    intro c i op cl out hg hop hpending h hallow
    refine ⟨trivial, ?_⟩
    constructor
    · exact fun t cs f f' h₁ h₂ => h.agree_answer hop hpending hg h₁ h₂
    · exact h.told_answer hop hallow
    · exact h.stored_answer hop hallow
    · exact h.copied_answer hop hallow
    · exact h.reads_answer hop hallow
    · exact h.completes_answer hop hallow

end Step

/-! ## The objects of one content -/

/-- The session of request `i` has this tenant and checksum. -/
def worksFor (c : Run env) (t : UUID) (cs : String) (i : Nat) : Bool :=
  (readsOf (callsOf i c.log)).any fun v => v.tenantId = t ∧ v.checksum = cs

/-- The keys to which the finalizes of the sessions of this tenant and checksum have asked
S3 to complete an upload, whatever S3 has answered. -/
def keysOf (c : Run env) (t : UUID) (cs : String) : List String :=
  c.log.filterMap fun e =>
    match e.call with
    | .completeMultipartUpload t' f _ _ =>
        if worksFor c t cs e.rid then some (objectKey t' f) else none
    | _ => none

theorem mem_keysOf {c : Run env} {t : UUID} {cs key : String} (h : key ∈ keysOf c t cs) :
    ∃ e ∈ c.log, ∃ t' f u parts, e.call = .completeMultipartUpload t' f u parts ∧
      key = objectKey t' f ∧
      ∃ v ∈ readsOf (callsOf e.rid c.log), v.tenantId = t ∧ v.checksum = cs := by
  rcases List.mem_filterMap.1 h with ⟨e, he, hkey⟩
  split at hkey
  · rename_i t' f u parts hc
    split at hkey
    · rename_i hworks
      cases hkey
      simp only [worksFor, List.any_eq_true, decide_eq_true_eq] at hworks
      exact ⟨e, he, t', f, u, parts, hc, rfl, hworks⟩
    · cases hkey
  · cases hkey

/-- A key that is committed for a tenant and checksum is that of a file whose initiate missed
the entry. -/
theorem OneFile.key_eq {c : Run env} (h : OneFile c.scene) {t : UUID} {cs key : String}
    (hkey : key ∈ keysOf c t cs) : ∃ f, key = objectKey t f ∧ Missed c.scene t cs f := by
  rcases mem_keysOf hkey with ⟨e, he, t', f, u, parts, hc, rfl, v, hread, rfl, rfl⟩
  rcases h.completes e he t' f u parts hc with ⟨op, v', hop, hcopy, rfl, rfl⟩
  have hreads : readsOf (callsOf e.rid c.log) = (traced c.scene e.rid op).copy.toList :=
    h.reads e.rid op hop
  rw [hreads, hcopy, Option.mem_toList] at hread
  cases hread
  exact ⟨v.fileId, rfl, h.copied e.rid op hop v hcopy⟩

/-- Dedup uniqueness: over all interleavings, failures and expiries, the finalizes of the
sessions of one tenant and checksum commit at most one key, if no two initiates for them
with different file ids have both been told that there is no entry. -/
theorem dedup_uniqueness {now : Nat} {c : Run env}
    (h : Reach (fun c l => missesForOneFile c l) (Config.start (World.empty now)) c)
    (t : UUID) (cs : String) :
    ∀ key ∈ keysOf c t cs, ∀ key' ∈ keysOf c t cs, key = key' := by
  have hinit : OneFile (⟨World.empty now, [], []⟩ : Scene (service env)) :=
    ⟨by simp [Missed], by simp, by simp [World.session?, World.empty], by simp, by simp, by simp⟩
  have hone : OneFile c.scene :=
    (h.invariant (fun _ _ _ => True) (fun _ op _ => Lineage.prog_obeys env op) oneFile_inductive
      hinit).2.1
  intro key hkey key' hkey'
  rcases hone.key_eq hkey with ⟨f, rfl, hmiss⟩
  rcases hone.key_eq hkey' with ⟨f', rfl, hmiss'⟩
  rw [hone.agree t cs f f' hmiss hmiss']

/-! ## Concrete runs -/

namespace Demo

/-- The byte is uploaded to a session and finalized, by requests `i` and `i + 1`. -/
def uploadAndFinalize (sid : UUID) (i : Nat) : List (Label (service Demo.env)) :=
  [.spawn (.uploadChunk sid 0 (sha256 a) a)] ++ calls i 5 ++
    [.spawn (.finalize sid)] ++ scanning (i + 1) 1 ++ committing (i + 1) 1

/-- Two sessions for the same byte are initiated before either of them is finalized. -/
def twice (f : UUID) : List (Label (service Demo.env)) :=
  [.spawn (.initiate sid tenant file 1 (sha256 a))] ++ calls 0 2 ++
    [.spawn (.initiate ⟨4⟩ tenant f 1 (sha256 a))] ++ calls 1 2 ++
    uploadAndFinalize sid 2 ++ uploadAndFinalize ⟨4⟩ 4

/-- Where the second session is committed if it is for another file id. -/
def otherKey : String := objectKey tenant ⟨5⟩

end Demo

/-- Both sessions are for one file id, and both are committed. -/
theorem dedup_uniqueness_demo :
    ∃ c : Run Demo.env, (keysOf c Demo.tenant (Demo.sha256 Demo.a)).length = 2 ∧
      ∀ key ∈ keysOf c Demo.tenant (Demo.sha256 Demo.a),
        ∀ key' ∈ keysOf c Demo.tenant (Demo.sha256 Demo.a), key = key' := by
  have h : ((Config.start (World.empty 0)).play missesForOneFile (Demo.twice Demo.file)).any
      (fun c => (keysOf c Demo.tenant (Demo.sha256 Demo.a)).length = 2) = true := by
    decide +kernel
  rcases exists_of_play (fun _ _ hl => hl) _ h with ⟨c, hc, hcheck⟩
  exact ⟨c, of_decide_eq_true hcheck, dedup_uniqueness hc _ _⟩

/-- Two workers of one tenant upload the same byte under file ids of their own: there are
two objects for it. -/
theorem dedup_uniqueness_fails :
    ∃ c : Run Demo.env,
      Reach (fun c l => freshIds c l ∧ noFaults l) (Config.start (World.empty 0)) c ∧
      Demo.key ∈ keysOf c Demo.tenant (Demo.sha256 Demo.a) ∧
      Demo.otherKey ∈ keysOf c Demo.tenant (Demo.sha256 Demo.a) ∧
      c.world.objects Demo.key = some Demo.a ∧ c.world.objects Demo.otherKey = some Demo.a ∧
      Demo.key ≠ Demo.otherKey := by
  have h : ((Config.start (World.empty 0)).play (fun c l => freshIds c l && noFaults l)
      (Demo.twice ⟨5⟩)).any (fun c =>
        Demo.key ∈ keysOf c Demo.tenant (Demo.sha256 Demo.a) ∧
        Demo.otherKey ∈ keysOf c Demo.tenant (Demo.sha256 Demo.a) ∧
        c.world.objects Demo.key = some Demo.a ∧ c.world.objects Demo.otherKey = some Demo.a ∧
        Demo.key ≠ Demo.otherKey) = true := by
    decide +kernel
  rcases exists_of_play (fun _ _ hl => by simpa using hl) _ h with ⟨c, hc, hcheck⟩
  exact ⟨c, hc, of_decide_eq_true hcheck⟩

end FileUploader
