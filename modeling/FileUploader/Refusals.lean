import FileUploader.Presentation.Uploads
import FileUploader.ResumeOffset

/-! # Refused uploads

The checks of an upload are spread over the use case and the entity. Those of the use case
come before anything is stored. The guards of `update_offset` come after the chunk has
been saved, and are not implied by the others: what they refuse is already in the store,
and is refused with an exception that no route expects.
-/

namespace FileUploader

open Await

variable {env : Env}

section Guards

variable {v : UploadSession} {data : Bytes}

theorem fits_iff : v.Fits data ↔ ∃ v', v.updateOffset data.length = .ok v' := by
  constructor
  · intro h
    exact UploadSession.updateOffset_fits (by exact_mod_cast h.1) h.2
  · intro h
    rcases h with ⟨v', hmove⟩
    rcases UploadSession.updateOffset_ok hmove with ⟨hpos, hfits, _⟩
    exact ⟨by exact_mod_cast hpos, hfits⟩

/-- The guards of the entity raise `ValueError`. -/
theorem valueError_of_not_fits (h : ¬ v.Fits data) :
    ∃ msg, v.updateOffset data.length = .error (.valueError msg) := by
  unfold UploadSession.updateOffset
  split
  · exact ⟨_, rfl⟩
  · split
    · exact ⟨_, rfl⟩
    · refine absurd ⟨?_, ?_⟩ h
      · omega
      · omega

end Guards

/-! ## What a refused upload leaves -/

/-- The chunk at `index` reads as this upload would store it. -/
def HoldsChunk (env : Env) (w : World) (sid : UUID) (index : Int) (data : Bytes) : Prop :=
  w.chunk? sid index = some data ∧ w.chunkMeta? sid index = some ⟨env.sha256 data, data.length⟩

section Trace

variable {w w' : World} {sid : UUID} {index : Int} {cs : String} {data : Bytes} {x : Exn}

theorem sameKeys_unlocked (sid sid' : UUID) (w : World) : SameKeys sid' w (w.unlocked sid) :=
  ⟨rfl, fun _ => rfl, fun _ => rfl⟩

/-- An upload that the guards of the entity refuse has stored its chunk. -/
theorem guarded_sameKeys {v : UploadSession} (hstores : Stores env w sid cs data v)
    (hfits : ¬ v.Fits data) (h : Alone env (.uploadChunk sid index cs data) w (.error x) w') :
    (∀ sid', SameKeys sid' w w') ↔ HoldsChunk env w sid index data := by
  rcases valueError_of_not_fits hfits with ⟨msg, hmove⟩
  have hworld := ((alone_upload hstores _).1 h).2
  rw [hmove] at hworld
  subst hworld
  have hself : ChunkStored env sid index data w
      ((RedisChunkRepository.save w sid (chunkOf env index data)).unlocked sid) :=
    ⟨chunkSave_self.chunk, chunkSave_self.chunkMeta⟩
  constructor
  · intro hsame
    have hchunk := (hsame sid).chunk index
    have hmeta := (hsame sid).chunkMeta index
    refine ⟨hchunk.symm.trans ?_, hmeta.symm.trans ?_⟩
    · exact (hself.chunk index).trans (if_pos rfl)
    · exact (hself.chunkMeta index).trans (if_pos rfl)
  · intro hold sid'
    by_cases hsid : sid = sid'
    · subst hsid
      refine ⟨rfl, fun i => (hself.chunk i).trans ?_, fun i => (hself.chunkMeta i).trans ?_⟩
      · by_cases hi : i = index
        · rw [if_pos hi, hi, hold.1]
        · rw [if_neg hi]
      · by_cases hi : i = index
        · rw [if_pos hi, hi, hold.2]
        · rw [if_neg hi]
    · have hother := sameKeys_chunkSave hsid (chunkOf env index data) w
      exact ⟨hother.session, hother.chunk, hother.chunkMeta⟩

end Trace

/-- Refused uploads leave no trace: in every world, an upload that raises leaves all
sessions, chunks and metadata as they were, exactly if it is refused before the chunk is
saved, or the chunk is there already. -/
theorem refused_unchanged {w w' : World} {sid : UUID} {index : Int} {cs : String} {data : Bytes}
    {x : Exn} (h : Alone env (.uploadChunk sid index cs data) w (.error x) w') :
    (∀ sid', SameKeys sid' w w') ↔
      ∀ v, Stores env w sid cs data v → ¬ v.Fits data → HoldsChunk env w sid index data := by
  by_cases hguarded : ∃ v, Stores env w sid cs data v ∧ ¬ v.Fits data
  · rcases hguarded with ⟨v, hstores, hfits⟩
    rw [guarded_sameKeys hstores hfits h]
    exact ⟨fun hold _ _ _ => hold, fun hall => hall v hstores hfits⟩
  · refine iff_of_true ?_ (fun v hstores hfits => absurd ⟨v, hstores, hfits⟩ hguarded)
    have hno : ∀ v, ¬ Stores env w sid cs data v := by
      intro v hstores
      by_cases hfits : v.Fits data
      · rcases fits_iff.1 hfits with ⟨v', hmove⟩
        have hresult := ((alone_upload hstores _).1 h).1
        rw [hmove] at hresult
        cases hresult
      · exact hguarded ⟨v, hstores, hfits⟩
    intro sid'
    rcases upload_refused h hno with ⟨rfl | rfl, _⟩
    · exact SameKeys.refl sid' _
    · exact sameKeys_unlocked sid sid' w

/-! ## Which exceptions it raises -/

section Raises

variable {w w' : World} {sid : UUID} {index : Int} {cs : String} {data : Bytes} {x : Exn}

/-- What `process` raises before it saves the chunk is a domain exception. -/
theorem process_raises {v : UploadSession} {w w' : World}
    (h : Exec (works env) (UploadChunkUseCase.process env v sid index cs data) w (.error x) w')
    (hno : ¬ Admits env v cs data) : x.isA .domainError = true := by
  simp only [UploadChunkUseCase.process, exec_raiseIf_bind] at h
  rcases h with ⟨_, hx, _⟩ | ⟨hmax, ⟨_, hx, _⟩ | ⟨hmin, ⟨_, hx, _⟩ | ⟨hdigest, _⟩⟩⟩
  · cases hx
    rfl
  · cases hx
    rfl
  · cases hx
    rfl
  · exact absurd ⟨by omega, by omega, not_not.1 hdigest⟩ hno

/-- An upload that does not get as far as the chunk store raises a domain exception. -/
theorem upload_raises (h : Alone env (.uploadChunk sid index cs data) w (.error x) w')
    (hno : ∀ v, ¬ Stores env w sid cs data v) : x.isA .domainError = true := by
  simp only [Alone, Op.prog, exec_map, UploadChunkUseCase.execute, exec_requireSession_bind,
    exec_raiseIf_bind, exec_acquireLock_bind, exec_releasing] at h
  rcases h with ⟨o, ⟨_, rfl, _⟩ | ⟨v, hlive, ⟨_, rfl, _⟩ | ⟨hopen, ⟨_, rfl, _⟩ |
    ⟨hfree, w₁, hexec, _⟩⟩⟩, hx⟩
  · cases hx
    rfl
  · cases hx
    rfl
  · cases hx
    rfl
  · have hadmits : ¬ Admits env v cs data := fun hadmits => hno v ⟨hlive, hopen, hfree, hadmits⟩
    rcases process_refused hexec hadmits with ⟨_, y, rfl⟩
    cases hx
    exact process_raises hexec hadmits

/-- A finalize raises a domain exception, or the one that it makes of S3's refusal. -/
theorem finalize_raises (h : Alone env (.finalize sid) w (.error x) w') :
    x.isA .domainError = true ∨ x = assemblyError := by
  by_cases hfin : ∃ v, Finalizable w sid v
  · rcases hfin with ⟨v, hfin⟩
    rcases (alone_finalize hfin _).1 h with ⟨o, w₁, hend, hx, _⟩
    cases hend with
    | infected =>
        cases hx
        exact Or.inl rfl
    | refused =>
        cases hx
        exact Or.inr rfl
    | committed => cases hx
  · -- not ready: one of the checks before the critical section has raised
    simp only [Alone, Op.prog, exec_map, FinalizeUploadUseCase.execute, exec_requireSession_bind,
      exec_raiseIf_bind, exec_acquireLock_bind] at h
    rcases h with ⟨o, ⟨_, rfl, _⟩ | ⟨v, hlive, ⟨_, rfl, _⟩ | ⟨hdone, ⟨_, rfl, _⟩ | ⟨hover,
      ⟨_, rfl, _⟩ | ⟨hfull, ⟨_, rfl, _⟩ | ⟨hfree, _⟩⟩⟩⟩⟩, hx⟩
    · cases hx
      exact Or.inl rfl
    · cases hx
      exact Or.inl rfl
    · cases hx
      exact Or.inl rfl
    · cases hx
      exact Or.inl rfl
    · cases hx
      exact Or.inl rfl
    · refine absurd ⟨v, hlive, ?_, not_not.1 hfull, hfree⟩ hfin
      intro hs
      rcases List.mem_cons.1 hs with hs | hs
      · exact hdone hs
      · exact hover hs

end Raises

/-! ## The guards of the entity -/

/-- How the route answers when its use case raises. -/
def refusal (x : Exn) : HttpResponse := answering uploadChunkResponse uploadChunkClauses (.error x)

/-- The route has an answer of its own for every domain exception. -/
theorem refusal_domain {x : Exn} (h : x.isA .domainError = true) :
    400 ≤ (refusal x).statusCode ∧ (refusal x).statusCode < 500 := by
  cases x with
  | entityNotFoundError entity identifier =>
      simp [refusal, answering, Clauses.catches, uploadChunkClauses, httpException, Exn.isA]
  | validationError msg =>
      simp [refusal, answering, Clauses.catches, uploadChunkClauses, httpException, Exn.isA]
  | checksumMismatchError msg =>
      simp [refusal, answering, Clauses.catches, uploadChunkClauses, Exn.isA]
  | malwareDetectedError msg =>
      simp [refusal, answering, Clauses.catches, uploadChunkClauses, httpException, Exn.isA]
  | lockAcquisitionError msg =>
      simp [refusal, answering, Clauses.catches, uploadChunkClauses, httpException, Exn.isA]
  | _ => cases h

/-- Neither entity method raises `ValueError` when an upload or a finalize calls it, and
whatever an upload raises, its route answers with a client error. -/
structure Guarded (env : Env) (w : World) (sid : UUID) (index : Int) (cs : String)
    (data : Bytes) : Prop where
  upload : ∀ x w', Alone env (.uploadChunk sid index cs data) w (.error x) w' →
    (∀ msg, x ≠ .valueError msg) ∧ 400 ≤ (refusal x).statusCode ∧ (refusal x).statusCode < 500
  finalize : ∀ x w', Alone env (.finalize sid) w (.error x) w' → ∀ msg, x ≠ .valueError msg

/-- The guards of the entity are unreachable, in any world and for any upload, exactly if
an upload that gets as far as the chunk store is not empty and does not exceed the size
of the file. -/
theorem entity_guards {w : World} {sid : UUID} {index : Int} {cs : String} {data : Bytes} :
    Guarded env w sid index cs data ↔ ∀ v, Stores env w sid cs data v → v.Fits data := by
  constructor
  · intro h v hstores
    by_contra hfits
    rcases valueError_of_not_fits hfits with ⟨msg, hmove⟩
    have halone : Alone env (.uploadChunk sid index cs data) w (.error (.valueError msg)) _ :=
      (alone_upload hstores _).2 ⟨by rw [hmove]; rfl, rfl⟩
    exact (h.upload _ _ halone).1 msg rfl
  · intro h
    refine ⟨fun x w' halone => ?_, fun x w' halone msg hx => ?_⟩
    · have hno : ∀ v, ¬ Stores env w sid cs data v := by
        intro v hstores
        rcases fits_iff.1 (h v hstores) with ⟨v', hmove⟩
        have hresult := ((alone_upload hstores _).1 halone).1
        rw [hmove] at hresult
        cases hresult
      have hdomain := upload_raises halone hno
      refine ⟨fun msg hx => ?_, refusal_domain hdomain⟩
      rw [hx] at hdomain
      cases hdomain
    · subst hx
      rcases finalize_raises halone with hdomain | hassembly
      · cases hdomain
      · cases hassembly

/-! ## Concrete runs -/

namespace Demo

/-- An upload of nothing, with its digest. -/
def emptyUpload : Op := .uploadChunk sid 0 (sha256 []) []

end Demo

/-- Nothing is a final chunk of a file that is there already. -/
theorem stores_empty :
    Stores Demo.env (Demo.uploadedAt 0) Demo.sid (Demo.sha256 []) [] Demo.complete :=
  ⟨session?_uploadedAt 0, by decide, rfl, by decide, by decide, rfl⟩

theorem not_fits_empty : ¬ Demo.complete.Fits [] := by
  intro h
  exact absurd h.1 (by decide)

theorem raises_empty : ∃ w', Alone Demo.env Demo.emptyUpload (Demo.uploadedAt 0)
    (.error (.valueError "Bytes uploaded must be positive")) w' :=
  ⟨_, (alone_upload stores_empty _).2 ⟨rfl, rfl⟩⟩

/-- The byte of a file of one byte is sent with a wrong digest. -/
theorem refused_unchanged_demo : ∃ (x : Exn) (w' : World),
    Alone Demo.env (.uploadChunk Demo.sid 0 (Demo.sha256 Demo.b) Demo.a) (Demo.sized 1)
      (.error x) w' ∧ ∀ sid', SameKeys sid' (Demo.sized 1) w' := by
  have hrun : ((Op.prog Demo.env (.uploadChunk Demo.sid 0 (Demo.sha256 Demo.b) Demo.a)).run
      (respond Demo.env) 10 (Demo.sized 1)).any (fun s => s.1.toOption = none) = true := by
    decide +kernel
  rcases exists_exec_of_run (R := works Demo.env) (fun _ _ => ⟨rfl, rfl⟩) 10 hrun with
    ⟨x | a, w', hexec, hcheck⟩
  · refine ⟨x, w', hexec, (refused_unchanged hexec).2 fun v hstores _ => ?_⟩
    have hdigest : lower (Demo.sha256 Demo.a) = lower (Demo.sha256 Demo.b) := hstores.admits.2.2
    exact absurd hdigest (by decide)
  · simp [Except.toOption] at hcheck

/-- After a file of one byte has been uploaded, an upload of nothing is refused, and the
byte is gone. -/
theorem refused_unchanged_fails :
    ∃ served w x w', Serial Demo.env (fun _ _ => True) (World.empty 0) served w ∧
      Alone Demo.env Demo.emptyUpload w (.error x) w' ∧ ¬ ∀ sid', SameKeys sid' w w' := by
  rcases raises_empty with ⟨w', halone⟩
  refine ⟨_, _, _, w', serial_uploadedAt trivial trivial, halone, fun hsame => ?_⟩
  have hheld := (guarded_sameKeys stores_empty not_fits_empty halone).1 hsame
  have hchunk := hheld.1.symm.trans (chunk?_uploadedAt 0 0)
  cases hchunk

/-- The same upload is answered as an internal error. -/
theorem entity_guards_fails :
    ∃ served w, Serial Demo.env (fun _ _ => True) (World.empty 0) served w ∧
      ¬ Guarded Demo.env w Demo.sid 0 (Demo.sha256 []) [] := by
  rcases raises_empty with ⟨w', halone⟩
  refine ⟨_, Demo.uploadedAt 0, serial_uploadedAt trivial trivial, fun h => ?_⟩
  exact (h.upload _ w' halone).1 _ rfl

end FileUploader
