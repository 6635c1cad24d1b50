import FileUploader.Faults

/-! # Cleaning up after S3

While a finalize assembles the object it makes one call after the other: it fetches a chunk,
uploads it as a part, and in the end completes the upload. Whichever of these calls raises,
the multipart upload is aborted and the session stored as failed; nothing else is left. The
run is followed call by call, up to the one that raises.
-/

namespace FileUploader

open Await Prog S3ObjectStorage

variable {env : Env}

/-- The calls of the assembly that an exception can come from. -/
def Call.assembles : Call → Bool
  | .chunkGet _ _ | .uploadPart .. | .completeMultipartUpload .. => true
  | _ => false

/-- How many of them there are. -/
def assemblyCalls (t : Trace Collab) : Nat := t.countP (·.call.assembles)

/-- Call number `n` of the assembly raises without an effect, all other calls work. -/
def faultAt (n : Nat) (msg : String) : Pattern := fun t out c =>
  out = if c.assembles ∧ assemblyCalls t = n then .raises msg else .works

/-- A call that opens a multipart upload, or ends it. -/
def Call.settles : Call → Bool
  | .initiateMultipartUpload _ _ | .completeMultipartUpload .. | .abortMultipartUpload .. => true
  | _ => false

/-- The multipart uploads that have been initiated. -/
def opened (t : Trace Collab) : List Nat := t.filterMap fun e => e.call.initiated e.resp

/-- The multipart uploads that it has been asked to abort. -/
def abortedUploads (t : Trace Collab) : List Nat := t.filterMap fun e =>
  match e.call with
  | .abortMultipartUpload _ _ u => some u
  | _ => none

/-- The multipart uploads that it has been asked to complete. -/
def completedUploads (t : Trace Collab) : List Nat := t.filterMap fun e =>
  match e.call with
  | .completeMultipartUpload _ _ u _ => some u
  | _ => none

section Traces

variable {t t' : Trace Collab} {n : Nat} {msg : String} {c : Call}

@[simp] theorem assemblyCalls_append :
    assemblyCalls (t ++ t') = assemblyCalls t + assemblyCalls t' := List.countP_append

@[simp] theorem opened_append : opened (t ++ t') = opened t ++ opened t' := List.filterMap_append

@[simp] theorem abortedUploads_append :
    abortedUploads (t ++ t') = abortedUploads t ++ abortedUploads t' := List.filterMap_append

@[simp] theorem completedUploads_append :
    completedUploads (t ++ t') = completedUploads t ++ completedUploads t' :=
  List.filterMap_append

theorem unsettled (h : ∀ e ∈ t, e.call.settles = false) :
    opened t = [] ∧ abortedUploads t = [] ∧ completedUploads t = [] := by
  refine ⟨List.filterMap_eq_nil_iff.2 fun e he => ?_, List.filterMap_eq_nil_iff.2 fun e he => ?_,
    List.filterMap_eq_nil_iff.2 fun e he => ?_⟩
  all_goals
    have hc := h e he
    rcases e with ⟨c, r⟩
    cases c with
    | initiateMultipartUpload t f => cases hc
    | completeMultipartUpload t f u parts => cases hc
    | abortMultipartUpload t f u => cases hc
    | _ => rfl

/-- The other calls go through. -/
theorem faultAt_works (hc : c.assembles = false) : faultAt n msg t .works c := by
  simp [faultAt, hc]

/-- So do the calls of the assembly before the one that raises, and after it. -/
theorem faultAt_other (ht : assemblyCalls t ≠ n) : faultAt n msg t .works c := by
  simp [faultAt, ht]

theorem faultAt_hit (hc : c.assembles = true) (ht : assemblyCalls t = n) :
    faultAt n msg t (.raises msg) c := by
  simp [faultAt, hc, ht]

/-- The pattern decides how each call turns out. -/
theorem faultAt_unique {w w₁ w₂ : World × Trace Collab} {r₁ r₂ : Except Exn c.Resp}
    (h₁ : faulty env (faultAt n msg) c w r₁ w₁) (h₂ : faulty env (faultAt n msg) c w r₂ w₂) :
    r₁ = r₂ ∧ w₁ = w₂ := by
  rcases h₁ with ⟨out₁, hout₁, rfl, rfl⟩
  rcases h₂ with ⟨out₂, hout₂, rfl, rfl⟩
  have hsame : out₁ = out₂ := hout₁.trans hout₂.symm
  subst hsame
  exact ⟨rfl, rfl⟩

end Traces

/-! ## The assembly -/

namespace FinalizeUploadUseCase

/-- The `try` of step 5. -/
def commit (session : UploadSession) (sessionId : UUID) (uploadId : Nat) : Program String := do
  let parts ← uploadParts session sessionId uploadId
  ObjectStorage.completeMultipartUpload session.tenantId session.fileId uploadId parts

/-- The `except` of step 5. -/
def giveUp (session : UploadSession) (uploadId : Nat) (s3Error : Exn) : Program String := do
  ObjectStorage.abortMultipartUpload session.tenantId session.fileId uploadId
  SessionRepository.save session.fail
  raise (.runtimeError s!"S3 Multipart upload failed: {s3Error.str}")

theorem assemble_eq (session : UploadSession) (sessionId : UUID) : assemble session sessionId = (do
    let uploadId ← ObjectStorage.initiateMultipartUpload session.tenantId session.fileId
    tryExcept (commit session sessionId uploadId) (giveUp session uploadId)) := rfl

end FinalizeUploadUseCase

section Assembly

variable {n : Nat} {msg : String} {w : World} {t : Trace Collab} {sid : UUID} {u : Nat}
  {v : UploadSession} {datas rest : List Bytes}

/-- A round in which the chunk is not fetched. -/
theorem round_unfetched (ht : assemblyCalls t = n) :
    Exec (faulty env (faultAt n msg)) (partRound v sid u (datas.length + 1, partsOf env datas))
      (w, t) (.error (.infrastructureError msg))
      (w, t ++ [⟨.chunkGet sid datas.length, .error (.infrastructureError msg)⟩]) := by
  have hindex : ((datas.length + 1 : Nat) : Int) - 1 = datas.length := by omega
  rw [partRound, ChunkRepository.get, exec_faulty_bind, hindex]
  exact ⟨_, faultAt_hit rfl ht, rfl, rfl⟩

/-- A round in which there is no more chunk. -/
theorem round_last (hfetch : RedisChunkRepository.get w sid datas.length = none)
    (ht : assemblyCalls t ≠ n) :
    Exec (faulty env (faultAt n msg)) (partRound v sid u (datas.length + 1, partsOf env datas))
      (w.holding u (objectKey v.tenantId v.fileId) datas, t) (.ok (.inr (partsOf env datas)))
      (w.holding u (objectKey v.tenantId v.fileId) datas,
        t ++ [⟨.chunkGet sid datas.length, .ok none⟩]) := by
  have hindex : ((datas.length + 1 : Nat) : Int) - 1 = datas.length := by omega
  have hget : RedisChunkRepository.get (w.holding u (objectKey v.tenantId v.fileId) datas) sid
      datas.length = none := hfetch
  rw [partRound, ChunkRepository.get, exec_faulty_bind, hindex]
  refine ⟨.works, faultAt_other ht, ?_⟩
  simp only [handle, respond, hget, onOk_ok]
  exact ⟨rfl, rfl⟩

section Chunk

variable {chunk : Chunk}

/-- A round in which the chunk is fetched: what is left is to upload it. -/
theorem round_fetched (hfetch : RedisChunkRepository.get w sid datas.length = some chunk)
    (ht : assemblyCalls t ≠ n) {o : Except Exn ((Nat × List Part) ⊕ List Part)}
    {s : World × Trace Collab}
    (h : Exec (faulty env (faultAt n msg)) (do
        let part ← ObjectStorage.uploadPart v.tenantId v.fileId u (datas.length + 1) chunk.rawBytes
        pure (.inl (datas.length + 1 + 1, partsOf env datas ++ [part])))
      (w.holding u (objectKey v.tenantId v.fileId) datas,
        t ++ [⟨.chunkGet sid datas.length, .ok (some chunk)⟩]) o s) :
    Exec (faulty env (faultAt n msg)) (partRound v sid u (datas.length + 1, partsOf env datas))
      (w.holding u (objectKey v.tenantId v.fileId) datas, t) o s := by
  have hindex : ((datas.length + 1 : Nat) : Int) - 1 = datas.length := by omega
  have hget : RedisChunkRepository.get (w.holding u (objectKey v.tenantId v.fileId) datas) sid
      datas.length = some chunk := hfetch
  rw [partRound, ChunkRepository.get, exec_faulty_bind, hindex]
  refine ⟨.works, faultAt_other ht, ?_⟩
  simp only [handle, respond, hget, onOk_ok]
  exact h

/-- The upload of the part raises. -/
theorem part_unsent {number : Nat} {data : Bytes} (parts : List Part)
    (ht : assemblyCalls t = n) :
    Exec (faulty env (faultAt n msg)) (do
        let part ← ObjectStorage.uploadPart v.tenantId v.fileId u number data
        pure (.inl (number + 1, parts ++ [part]) : (Nat × List Part) ⊕ List Part))
      (w, t) (.error (.infrastructureError msg))
      (w, t ++ [⟨.uploadPart v.tenantId v.fileId u number data,
        .error (.infrastructureError msg)⟩]) := by
  rw [ObjectStorage.uploadPart, exec_faulty_bind]
  exact ⟨_, faultAt_hit rfl ht, rfl, rfl⟩

/-- The part is uploaded. -/
theorem part_sent {data : Bytes} (ht : assemblyCalls t ≠ n) :
    Exec (faulty env (faultAt n msg)) (do
        let part ← ObjectStorage.uploadPart v.tenantId v.fileId u (datas.length + 1) data
        pure (.inl (datas.length + 1 + 1, partsOf env datas ++ [part]) :
          (Nat × List Part) ⊕ List Part))
      (w.holding u (objectKey v.tenantId v.fileId) datas, t)
      (.ok (.inl ((datas ++ [data]).length + 1, partsOf env (datas ++ [data]))))
      (w.holding u (objectKey v.tenantId v.fileId) (datas ++ [data]),
        t ++ [⟨.uploadPart v.tenantId v.fileId u (datas.length + 1) data,
          .ok ⟨env.etag data, datas.length + 1⟩⟩]) := by
  rw [ObjectStorage.uploadPart, exec_faulty_bind]
  refine ⟨.works, faultAt_other ht, ?_⟩
  simp only [handle, respond, uploadPart_holding, onOk_ok, ← partsOf_append]
  refine ⟨?_, rfl⟩
  simp

end Chunk

/-- The assembly loop from index `datas.length` on: all chunks become parts, or call number
`n` raises on the way. -/
theorem exists_rounds (hfetch : FetchedFrom w sid datas.length rest)
    (ht : assemblyCalls t = 2 * datas.length) (hn : 2 * datas.length ≤ n) :
    ∃ o made held, Rounds (fun s => Exec (faulty env (faultAt n msg)) (partRound v sid u s))
        (datas.length + 1, partsOf env datas)
        (w.holding u (objectKey v.tenantId v.fileId) datas, t) o
        (w.holding u (objectKey v.tenantId v.fileId) held, t ++ made) ∧
      (∀ e ∈ made, e.call.settles = false) ∧
      (2 * (datas ++ rest).length + 1 ≤ n ∧ o = .ok (partsOf env (datas ++ rest)) ∧
          held = datas ++ rest ∧ assemblyCalls (t ++ made) = 2 * (datas ++ rest).length + 1 ∨
        n < 2 * (datas ++ rest).length + 1 ∧ o = .error (.infrastructureError msg)) := by
  -- over the chunks left; `n` is compared with the calls made so far
  induction rest generalizing datas t with
  | nil =>
      rw [List.append_nil]
      -- no chunk is left: the last call asks for one that is not there
      rcases Nat.lt_or_eq_of_le hn with hlt | heq
      · refine ⟨_, _, datas, .stop (round_last hfetch (by omega)), by simp [Call.settles],
          Or.inl ⟨by omega, rfl, rfl, ?_⟩⟩
        rw [assemblyCalls_append, ht]
        rfl
      · exact ⟨_, _, datas, .fail (round_unfetched (ht.trans heq)), by simp [Call.settles],
          Or.inr ⟨by omega, rfl⟩⟩
  | cons data rest ih =>
      rcases hfetch with ⟨⟨chunk, hchunk, rfl⟩, hfetch⟩
      have hlength : (datas ++ chunk.rawBytes :: rest).length = datas.length + rest.length + 1 := by
        simp only [List.length_append, List.length_cons]
        omega
      rcases Nat.lt_or_eq_of_le hn with hlt | heq
      · -- the chunk is fetched
        have ht₁ : assemblyCalls (t ++ [⟨.chunkGet sid datas.length, .ok (some chunk)⟩]) =
            2 * datas.length + 1 := by
          rw [assemblyCalls_append, ht]
          rfl
        rcases Nat.lt_or_eq_of_le (Nat.succ_le_of_lt hlt) with hlt' | heq'
        · -- and uploaded as a part
          have ht₂ : assemblyCalls (t ++ [⟨.chunkGet sid datas.length, .ok (some chunk)⟩] ++
              [⟨.uploadPart v.tenantId v.fileId u (datas.length + 1) chunk.rawBytes,
                .ok ⟨env.etag chunk.rawBytes, datas.length + 1⟩⟩]) =
              2 * (datas ++ [chunk.rawBytes]).length := by
            rw [assemblyCalls_append, ht₁, List.length_append]
            rfl
          have hfetch' : FetchedFrom w sid (datas ++ [chunk.rawBytes]).length rest := by
            simpa using hfetch
          have hn' : 2 * (datas ++ [chunk.rawBytes]).length ≤ n := by
            rw [List.length_append, List.length_singleton]
            omega
          rcases ih hfetch' ht₂ hn' with ⟨o, made, held, hrounds, hmade, hend⟩
          rw [List.append_assoc, List.append_assoc] at hrounds
          rw [List.append_assoc, List.append_assoc, List.append_assoc,
            List.singleton_append] at hend
          refine ⟨o, _, held, .again (round_fetched hchunk (by omega) (part_sent (by omega))) ?_,
            ?_, hend⟩
          · rw [List.append_assoc]
            exact hrounds
          · intro e he
            rcases List.mem_append.1 he with he | he
            · rw [List.mem_singleton.1 he]
              rfl
            · rcases List.mem_append.1 he with he | he
              · rw [List.mem_singleton.1 he]
                rfl
              · exact hmade e he
        · -- fetched, but the upload is call number `n`
          have hround : Exec (faulty env (faultAt n msg))
              (partRound v sid u (datas.length + 1, partsOf env datas))
              (w.holding u (objectKey v.tenantId v.fileId) datas, t)
              (.error (.infrastructureError msg))
              (w.holding u (objectKey v.tenantId v.fileId) datas, _) :=
            round_fetched hchunk (by omega) (part_unsent _ (ht₁.trans heq'))
          rw [List.append_assoc] at hround
          exact ⟨_, _, datas, .fail hround, by simp [Call.settles], Or.inr ⟨by omega, rfl⟩⟩
      · exact ⟨_, _, datas, .fail (round_unfetched (ht.trans heq)), by simp [Call.settles],
          Or.inr ⟨by omega, rfl⟩⟩

variable (env n msg) in
/-- The object is made of all chunks, or the assembly has raised, and S3 still has the
upload open. -/
theorem exists_commit (v : UploadSession) (u : Nat) (hfetch : FetchedFrom w sid 0 datas)
    (ht : assemblyCalls t = 0) :
    ∃ o w' made, Exec (faulty env (faultAt n msg)) (FinalizeUploadUseCase.commit v sid u)
        (w.holding u (objectKey v.tenantId v.fileId) [], t) o (w', t ++ made) ∧
      opened made = [] ∧ abortedUploads made = [] ∧
      ((n < 2 * datas.length + 2 ∨ ¬ S3Accepts env datas) ∧ (∃ x, o = .error x) ∧
          (∃ held, w' = w.holding u (objectKey v.tenantId v.fileId) held) ∨
        (2 * datas.length + 2 ≤ n ∧ S3Accepts env datas) ∧
          o = .ok (uri env (objectKey v.tenantId v.fileId)) ∧ completedUploads made = [u] ∧
          w' = { w with
            objects := Function.update w.objects (objectKey v.tenantId v.fileId)
              (some datas.flatten)
            uploads := Function.update w.uploads u none }) := by
  have hfetch₀ : FetchedFrom w sid ([] : List Bytes).length datas := hfetch
  rcases exists_rounds (n := n) hfetch₀ ht (Nat.zero_le _) with
    ⟨o, made, held, hrounds, hmade, hend⟩
  rw [List.nil_append] at hend
  rcases unsettled hmade with ⟨hopened, haborted, hcompleted⟩
  have hloop : Exec (faulty env (faultAt n msg)) (FinalizeUploadUseCase.uploadParts v sid u)
      (w.holding u (objectKey v.tenantId v.fileId) [], t) o
      (w.holding u (objectKey v.tenantId v.fileId) held, t ++ made) := by
    rw [uploadParts_eq, exec_loop]
    exact hrounds
  rcases hend with ⟨hn, rfl, rfl, hcalls⟩ | ⟨hn, rfl⟩
  · -- the loop has ended, and the upload is to be completed
    have hcomplete : ∀ out r w₂, faultAt n msg (t ++ made) out
        (.completeMultipartUpload v.tenantId v.fileId u (partsOf env held)) →
        handle env out (.completeMultipartUpload v.tenantId v.fileId u (partsOf env held))
          (w.holding u (objectKey v.tenantId v.fileId) held) = (r, w₂) →
        Exec (faulty env (faultAt n msg)) (FinalizeUploadUseCase.commit v sid u)
        (w.holding u (objectKey v.tenantId v.fileId) [], t) r (w₂, t ++ (made ++
          [⟨.completeMultipartUpload v.tenantId v.fileId u (partsOf env held), r⟩])) := by
      intro out r w₂ hout hanswer
      refine (exec_bind (S := Collab) _ _ _).2 (Or.inr ⟨_, _, hloop, ?_⟩)
      refine (exec_await (S := Collab) _ _).2 ⟨out, hout, ?_, ?_⟩
      · rw [hanswer]
      · rw [hanswer, List.append_assoc]
    -- the completing call is call number `n`, or it goes through and S3 decides
    rcases Nat.lt_or_eq_of_le hn with hlt | heq
    · have hworks := fun r w₂ => hcomplete .works r w₂ (faultAt_other (by omega))
      simp only [handle, respond, complete_holding] at hworks
      by_cases hacc : env.s3Accepts (List.range' 1 held.length) held = true
      · refine ⟨_, _, _, hworks _ _ (if_pos hacc), ?_, ?_,
          Or.inr ⟨⟨by omega, hacc⟩, rfl, ?_, rfl⟩⟩
        · rw [opened_append, hopened]
          rfl
        · rw [abortedUploads_append, haborted]
          rfl
        · rw [completedUploads_append, hcompleted]
          rfl
      · refine ⟨_, _, _, hworks _ _ (if_neg hacc), ?_, ?_,
          Or.inl ⟨Or.inr hacc, ⟨_, rfl⟩, held, rfl⟩⟩
        · rw [opened_append, hopened]
          rfl
        · rw [abortedUploads_append, haborted]
          rfl
    · refine ⟨_, _, _, hcomplete _ _ _ (faultAt_hit rfl (hcalls.trans heq)) rfl, ?_, ?_,
        Or.inl ⟨Or.inl (by omega), ⟨_, rfl⟩, held, rfl⟩⟩
      · rw [opened_append, hopened]
        rfl
      · rw [abortedUploads_append, haborted]
        rfl
  · exact ⟨_, _, made, (exec_bind (S := Collab) _ _ _).2 (Or.inl ⟨_, hloop, rfl⟩), hopened,
      haborted, Or.inl ⟨Or.inl (by omega), ⟨_, rfl⟩, held, rfl⟩⟩

theorem exec_giveUp (x : Exn) :
    Exec (faulty env (faultAt n msg)) (FinalizeUploadUseCase.giveUp v u x) (w, t)
      (.error (.runtimeError s!"S3 Multipart upload failed: {x.str}"))
      (RedisSessionRepository.save (abortMultipartUpload w u) v.fail,
        t ++ [⟨.abortMultipartUpload v.tenantId v.fileId u, .ok ()⟩, ⟨.sessionSave v.fail, .ok ()⟩])
      := by
  rw [FinalizeUploadUseCase.giveUp, ObjectStorage.abortMultipartUpload, exec_faulty_bind]
  refine ⟨.works, faultAt_works rfl, ?_⟩
  simp only [handle, respond, onOk_ok]
  rw [SessionRepository.save, exec_faulty_bind]
  refine ⟨.works, faultAt_works rfl, ?_⟩
  simp only [handle, respond, onOk_ok, List.append_assoc]
  exact ⟨rfl, rfl⟩

variable (env n msg) in
/-- The assembly: an object is made of all chunks, or the upload has been aborted and the
session has failed. -/
theorem exists_assemble (v : UploadSession) (hfetch : FetchedFrom w sid 0 datas)
    (ht : assemblyCalls t = 0) :
    ∃ o w' made, Exec (faulty env (faultAt n msg)) (FinalizeUploadUseCase.assemble v sid) (w, t) o
        (w', t ++ made) ∧ opened made = [w.nextUploadId] ∧
      ((n < 2 * datas.length + 2 ∨ ¬ S3Accepts env datas) ∧ (∃ x, o = .error x) ∧
          abortedUploads made = [w.nextUploadId] ∧
          w' = RedisSessionRepository.save w.closed v.fail ∨
        (2 * datas.length + 2 ≤ n ∧ S3Accepts env datas) ∧
          o = .ok (uri env (objectKey v.tenantId v.fileId)) ∧
          completedUploads made = [w.nextUploadId] ∧ abortedUploads made = [] ∧
          w' = w.committed (objectKey v.tenantId v.fileId) datas) := by
  -- the trace with the upload initiated
  have ht₁ : assemblyCalls (t ++ [⟨.initiateMultipartUpload v.tenantId v.fileId,
      .ok w.nextUploadId⟩]) = 0 := by
    rw [assemblyCalls_append, ht]
    rfl
  have hfetch₁ : FetchedFrom w.issued sid 0 datas := hfetch.congr fun _ => rfl
  rcases exists_commit env n msg v w.nextUploadId hfetch₁ ht₁ with
    ⟨o, w₁, made, hcommit, hopened, haborted, hend⟩
  -- the initiating call is not number `n`: it goes through
  have hassemble : ∀ {o' w' t'}, Exec (faulty env (faultAt n msg)) (tryExcept
      (FinalizeUploadUseCase.commit v sid w.nextUploadId)
      (FinalizeUploadUseCase.giveUp v w.nextUploadId))
      (w.issued.holding w.nextUploadId (objectKey v.tenantId v.fileId) [],
        t ++ [⟨.initiateMultipartUpload v.tenantId v.fileId, .ok w.nextUploadId⟩]) o' (w', t') →
      Exec (faulty env (faultAt n msg)) (FinalizeUploadUseCase.assemble v sid) (w, t) o'
        (w', t') := by
    intro o' w' t' h
    rw [FinalizeUploadUseCase.assemble_eq, ObjectStorage.initiateMultipartUpload,
      exec_faulty_bind]
    refine ⟨.works, faultAt_works rfl, ?_⟩
    simp only [handle, respond, initiate_holding, onOk_ok]
    exact h
  -- the commit has raised and the upload is given up, or it has made the object
  rcases hend with ⟨hwhy, ⟨x, rfl⟩, held, rfl⟩ | ⟨hwhy, rfl, hcompleted, rfl⟩
  · have htry := (exec_tryExcept _ (FinalizeUploadUseCase.giveUp v w.nextUploadId) _).2
      (Or.inr ⟨x, _, hcommit, exec_giveUp x⟩)
    rw [abort_holding, List.append_assoc, List.append_assoc] at htry
    refine ⟨_, _, _, hassemble htry, ?_, Or.inl ⟨hwhy, ⟨_, rfl⟩, ?_, rfl⟩⟩
    · rw [opened_append, opened_append, hopened]
      rfl
    · rw [abortedUploads_append, abortedUploads_append, haborted]
      rfl
  · have htry := (exec_tryExcept _ (FinalizeUploadUseCase.giveUp v w.nextUploadId) _).2
      (Or.inl ⟨_, hcommit, rfl⟩)
    rw [List.append_assoc] at htry
    refine ⟨_, _, _, hassemble htry, ?_, Or.inr ⟨hwhy, rfl, ?_, ?_, rfl⟩⟩
    · rw [opened_append, hopened]
      rfl
    · rw [completedUploads_append, hcompleted]
      rfl
    · rw [abortedUploads_append, haborted]
      rfl

end Assembly

/-! ## The whole request -/

/-- A finalize that has given up: its multipart upload is aborted, the session stored as
failed, and everything else as it was. -/
structure CleanedUp (v : UploadSession) (w : World) (r : Except Exn Response) (w' : World)
    (t : Trace Collab) : Prop where
  raised : ∃ x, r = .error x
  opened : opened t = [w.nextUploadId]
  aborted : abortedUploads t = [w.nextUploadId]
  closed : w'.uploads w.nextUploadId = none
  session : w'.session? v.sessionId = some { v with status := .failed }
  chunks : w'.chunks = w.chunks
  chunkMetas : w'.chunkMetas = w.chunkMetas
  objects : w'.objects = w.objects
  dedup : w'.dedup = w.dedup
  events : w'.events = w.events
  free : w'.lock? v.sessionId = none

/-- A finalize that has completed its multipart upload. -/
structure Completed (w : World) (r : Except Exn Response) (w' : World) (t : Trace Collab) :
    Prop where
  returned : ∃ s3Uri, r = .ok (.finalized s3Uri)
  opened : opened t = [w.nextUploadId]
  completed : completedUploads t = [w.nextUploadId]
  aborted : abortedUploads t = []
  closed : w'.uploads w.nextUploadId = none

section Finalize

variable {v : UploadSession} {w : World} {streamed datas : List Bytes}

/-- A call that neither assembles nor settles. -/
def Call.Quiet (c : Call) : Prop := c.assembles = false ∧ c.settles = false

theorem quiet {t : Trace Collab} (h : ∀ e ∈ t, e.call.Quiet) : assemblyCalls t = 0 ∧
    opened t = [] ∧ abortedUploads t = [] ∧ completedUploads t = [] := by
  refine ⟨List.countP_eq_zero.2 fun e he => ?_, unsettled fun e he => (h e he).2⟩
  rw [(h e he).1]
  simp

theorem scan_quiet (v : UploadSession) (sid : UUID) :
    Makes Call.Quiet (FinalizeUploadUseCase.scan v sid) :=
  scan_makes (fun _ => ⟨rfl, rfl⟩) ⟨rfl, rfl⟩ ⟨rfl, rfl⟩ ⟨rfl, rfl⟩

theorem publish_quiet (v : UploadSession) (sid : UUID) (s3Uri : String) :
    Makes Call.Quiet (FinalizeUploadUseCase.publish v sid s3Uri) :=
  publish_makes ⟨rfl, rfl⟩ (fun _ => ⟨rfl, rfl⟩) ⟨rfl, rfl⟩ ⟨rfl, rfl⟩

variable (env) in
/-- The finalize of clean chunks under such a fault. -/
theorem exists_finalize (n : Nat) (msg : String) (hready : Finalizable w v.sessionId v)
    (hstream : StreamedFrom w v.sessionId 0 streamed) (hclean : ∀ data ∈ streamed, CleanChunk data)
    (hfetch : FetchedFrom w v.sessionId 0 datas) :
    ∃ r w' t, Exec (faulty env (faultAt n msg)) (Op.prog env (.finalize v.sessionId)) (w, []) r
        (w', t) ∧
      ((n < 2 * datas.length + 2 ∨ ¬ S3Accepts env datas) ∧ CleanedUp v w r w' t ∨
        (2 * datas.length + 2 ≤ n ∧ S3Accepts env datas) ∧ Completed w r w' t) := by
  have hworks : ∀ t c, c.Quiet → faultAt n msg t .works c := fun _ _ hc => faultAt_works hc.1
  have hscan : Exec (works env) (FinalizeUploadUseCase.scan v v.sessionId)
      (w.locking v.sessionId) (.ok true) (w.locking v.sessionId) :=
    (exec_scan _).2 (Or.inl ⟨streamed, hstream.congr fun _ => rfl, hclean, rfl, rfl⟩)
  rcases exists_faulty (scan_quiet v v.sessionId) hworks hscan (lockTrace v.sessionId v) with
    ⟨scanned, hscan, hscanned⟩
  rcases quiet hscanned with ⟨hcalls, hopened, haborted, hcompleted⟩
  have hlocked : assemblyCalls (lockTrace v.sessionId v ++ scanned) = 0 := by
    rw [assemblyCalls_append, hcalls]
    rfl
  have hfetch' : FetchedFrom (w.locking v.sessionId) v.sessionId 0 datas :=
    hfetch.congr fun _ => rfl
  rcases exists_assemble env n msg v hfetch' hlocked with ⟨o, w₁, made, hassemble, hone, hend⟩
  rcases hend with ⟨hwhy, ⟨x, rfl⟩, haborted', rfl⟩ | ⟨hwhy, rfl, hcompleted', haborted', rfl⟩
  · have hcritical : Exec (faulty env (faultAt n msg))
        (FinalizeUploadUseCase.critical v v.sessionId)
        (w.locking v.sessionId, [] ++ lockTrace v.sessionId v) (.error x) _ :=
      (exec_bind (S := Collab) _ _ _).2 (Or.inr ⟨true, _, hscan,
        (exec_bind (S := Collab) _ _ _).2 (Or.inl ⟨x, hassemble, rfl⟩)⟩)
    have hfinalize := finalize_enters hready (faultAt_works rfl) (faultAt_works rfl) hcritical
      (faultAt_works rfl)
    refine ⟨_, _, _, (exec_map _ _ _).2 ⟨_, hfinalize, rfl⟩, Or.inl ⟨hwhy, ?_⟩⟩
    refine ⟨⟨x, rfl⟩, ?_, ?_, ?_, ?_, rfl, rfl, rfl, rfl, rfl, ?_⟩
    · rw [opened_append, opened_append, opened_append, hopened, hone]
      rfl
    · rw [abortedUploads_append, abortedUploads_append, abortedUploads_append, haborted,
        haborted']
      rfl
    · exact Function.update_self _ _ _
    · exact session?_save_self rfl
    · exact ExpiringMap.get_erase_self _ _ _
  · have hpublish : Exec (works env) (FinalizeUploadUseCase.publish v v.sessionId
        (uri env (objectKey v.tenantId v.fileId)))
        ((w.locking v.sessionId).committed (objectKey v.tenantId v.fileId) datas) _ _ :=
      (exec_publish hready.full _ _).2 ⟨rfl, rfl⟩
    rcases exists_faulty (publish_quiet v v.sessionId _) hworks hpublish
      (lockTrace v.sessionId v ++ scanned ++ made) with ⟨told, hpublish, htold⟩
    rcases quiet htold with ⟨_, hopened'', haborted'', hcompleted''⟩
    have hcritical : Exec (faulty env (faultAt n msg))
        (FinalizeUploadUseCase.critical v v.sessionId)
        (w.locking v.sessionId, [] ++ lockTrace v.sessionId v)
        (.ok (uri env (objectKey v.tenantId v.fileId))) _ :=
      (exec_bind (S := Collab) _ _ _).2 (Or.inr ⟨true, _, hscan,
        (exec_bind (S := Collab) _ _ _).2 (Or.inr ⟨_, _, hassemble, hpublish⟩)⟩)
    have hfinalize := finalize_enters hready (faultAt_works rfl) (faultAt_works rfl) hcritical
      (faultAt_works rfl)
    refine ⟨_, _, _, (exec_map _ _ _).2 ⟨_, hfinalize, rfl⟩, Or.inr ⟨hwhy, ?_⟩⟩
    refine ⟨⟨_, rfl⟩, ?_, ?_, ?_, ?_⟩
    · rw [opened_append, opened_append, opened_append, opened_append, hopened, hone, hopened'']
      rfl
    · rw [completedUploads_append, completedUploads_append, completedUploads_append,
        completedUploads_append, hcompleted, hcompleted', hcompleted'']
      rfl
    · rw [abortedUploads_append, abortedUploads_append, abortedUploads_append,
        abortedUploads_append, haborted, haborted', haborted'']
      rfl
    · exact Function.update_self _ _ _

end Finalize

/-- S3 failure cleanup: for every ready session with clean chunks, and every call of the
assembly that raises, a finalize aborts the multipart upload that it has opened, once, stores
the session as failed, and leaves everything else as it was; if none raises and S3 accepts the
chunks, it completes the upload, once, and does not abort it. -/
theorem s3_failure_cleanup {v : UploadSession} {w : World} {streamed datas : List Bytes}
    (n : Nat) (msg : String) (hready : Finalizable w v.sessionId v)
    (hstream : StreamedFrom w v.sessionId 0 streamed) (hclean : ∀ data ∈ streamed, CleanChunk data)
    (hfetch : FetchedFrom w v.sessionId 0 datas) :
    (∃ r w' t, Exec (faulty env (faultAt n msg)) (Op.prog env (.finalize v.sessionId)) (w, []) r
      (w', t)) ∧
    ∀ r w' t, Exec (faulty env (faultAt n msg)) (Op.prog env (.finalize v.sessionId)) (w, []) r
        (w', t) →
      (n < 2 * datas.length + 2 ∨ ¬ S3Accepts env datas → CleanedUp v w r w' t) ∧
      (2 * datas.length + 2 ≤ n ∧ S3Accepts env datas → Completed w r w' t) := by
  rcases exists_finalize env n msg hready hstream hclean hfetch with ⟨r, w', t, hexec, hend⟩
  refine ⟨⟨r, w', t, hexec⟩, fun r₁ w₁ t₁ hexec₁ => ?_⟩
  -- there is no other execution
  rcases Exec.unique (fun _ _ _ _ _ _ => faultAt_unique) hexec hexec₁ with ⟨rfl, hsame⟩
  cases hsame
  rcases hend with ⟨hwhy, hcleaned⟩ | ⟨hwhy, hcompleted⟩
  · refine ⟨fun _ => hcleaned, fun hno => ?_⟩
    rcases hwhy with hlt | hrefused
    · omega
    · exact absurd hno.2 hrefused
  · refine ⟨fun hno => ?_, fun _ => hcompleted⟩
    rcases hno with hlt | hrefused
    · omega
    · exact absurd hwhy.2 hrefused

/-- The one part of a file of one byte is not uploaded. -/
theorem s3_failure_cleanup_demo : ∃ r w' t,
    Exec (faulty Demo.env (faultAt 1 "SlowDown"))
      (Op.prog Demo.env (.finalize Demo.complete.sessionId)) (Demo.uploadedAt 0, []) r (w', t) ∧
    CleanedUp Demo.complete (Demo.uploadedAt 0) r w' t := by
  have hready : Finalizable (Demo.uploadedAt 0) Demo.sid Demo.complete :=
    ⟨session?_uploadedAt 0, by decide, rfl, ExpiringMap.get_erase_self _ _ _⟩
  have hchunk : (Demo.uploadedAt 0).chunk? Demo.sid ((0 : Nat) : Int) = some Demo.a :=
    chunk?_uploadedAt 0 0
  have hend : (Demo.uploadedAt 0).chunk? Demo.sid ((1 : Nat) : Int) = none := chunk?_uploadedAt 0 1
  have hget : RedisChunkRepository.get (Demo.uploadedAt 0) Demo.sid ((0 : Nat) : Int) =
      some (chunkOf Demo.env 0 Demo.a) := by decide +kernel
  have hnone : RedisChunkRepository.get (Demo.uploadedAt 0) Demo.sid ((1 : Nat) : Int) = none := by
    decide +kernel
  have hclean : ∀ data ∈ [Demo.a], CleanChunk data := by
    intro data hdata
    rw [List.mem_singleton.1 hdata]
    unfold CleanChunk
    decide
  have hstream : StreamedFrom (Demo.uploadedAt 0) Demo.complete.sessionId 0 [Demo.a] :=
    ⟨hchunk, by decide, Or.inl hend⟩
  have hfetch : FetchedFrom (Demo.uploadedAt 0) Demo.complete.sessionId 0 [Demo.a] :=
    ⟨⟨_, hget, rfl⟩, hnone⟩
  have hexists : ∃ r w' t, Exec (faulty Demo.env (faultAt 1 "SlowDown"))
      (Op.prog Demo.env (.finalize Demo.complete.sessionId)) (Demo.uploadedAt 0, []) r (w', t) :=
    (s3_failure_cleanup 1 "SlowDown" hready hstream hclean hfetch).1
  rcases hexists with ⟨r, w', t, hexec⟩
  refine ⟨r, w', t, hexec, ?_⟩
  exact ((s3_failure_cleanup 1 "SlowDown" hready hstream hclean hfetch).2 r w' t hexec).1
    (Or.inl (by decide))

end FileUploader
