import FileUploader.Truncation

/-! # Recovery after the commit

A finalize that has committed its object registers it, announces it, and removes the
chunks and the session. When one of these calls raises, the session may still be stored;
whether a second finalize then commits the same bytes again depends on which one it was.
-/

namespace FileUploader

open Await Prog S3ObjectStorage

variable {env : Env}

/-! ## One late failure -/

/-- The calls after the commit. -/
def Call.late : Call → Bool
  | .registerFile .. | .publishFileUploadCompleted _ | .deleteAll _ | .sessionDelete _ => true
  | _ => false

/-- How far a finalize has come: a late call fails at most once. -/
inductive Phase where
  | running
  | committed
  | failed (call : Call)

def Phase.after : Phase → (c : Call) → Except Exn c.Resp → Phase
  | .running, c, r => if (c.completed r).isSome then .committed else .running
  | phase, _, _ => phase

/-- Calls go through, except that one after the commit may raise without an effect. -/
def lateFault (env : Env) : Answers Collab (World × Phase) := fun c s r s' =>
  (r = (respond env c s.1).1 ∧ s' = ((respond env c s.1).2, s.2.after c r)) ∨
  (s.2 = .committed ∧ c.late = true ∧ (∃ msg, r = .error (.infrastructureError msg)) ∧
    s' = (s.1, .failed c))

/-! ## Up to the commit -/

/-- Up to and including the completion of an upload; the local state says whether it has
been completed. -/
def committing : Discipline Collab Bool where
  next := fun l c r => l || (c.completed r).isSome
  allows := fun l _ => l = false
  expects := fun _ _ _ => True
  loops := fun l => l = false

namespace Committing

@[simp] theorem committing_next (l : Bool) (c : Call) (r : Except Exn c.Resp) :
    committing.next l c r = (l || (c.completed r).isSome) := rfl

@[simp] theorem committing_allows (l : Bool) (c : Call) :
    committing.allows l c = (l = false) := rfl

@[simp] theorem committing_expects (l : Bool) (c : Call) (r : Except Exn c.Resp) :
    committing.expects l c r = True := rfl

@[simp] theorem committing_loops (l : Bool) : committing.loops l = (l = false) := rfl

theorem scan_obeys (sid : UUID) (v : UploadSession) :
    Obeys committing (FinalizeUploadUseCase.scan v sid) false (fun _ l => l = false) := by
  have hstream : Obeys committing
      (LocalVirusScanner.scanStream (ChunkRepository.getStream sid) 0) false
      (fun _ l => l = false) := by
    refine obeys_loop (fun _ l => l = false) rfl (fun _ _ h => h) ?_
    rintro index l rfl
    simp only [ChunkRepository.getStream, obeys_bind, obeys_await, onOk_ok, onOk_error,
      obeys_raise, Option.forall, obeys_pure, committing_next, committing_allows,
      committing_expects]
    refine ⟨trivial, fun _ _ => rfl, fun _ => rfl, ?_⟩
    intro data _
    split
    · simp [Call.completed]
    · simp [Call.completed]
  rw [FinalizeUploadUseCase.scan, obeys_tryExcept]
  refine hstream.mono ?_
  rintro (x | a) _ rfl
  · simp only [onError_error]
    split
    · simp [SessionRepository.save, ChunkRepository.deleteAll, SessionRepository.delete,
        Call.completed]
    · simp
  · simp

/-- The assembly returns exactly if it has completed its upload. -/
theorem assemble_obeys (sid : UUID) (v : UploadSession) :
    Obeys committing (FinalizeUploadUseCase.assemble v sid) false
      (fun r l => l = true ↔ ∃ a, r = .ok a) := by
  have hparts : ∀ uploadId, Obeys committing
      (FinalizeUploadUseCase.uploadParts v sid uploadId) false (fun _ l => l = false) := by
    intro uploadId
    refine obeys_loop (fun _ l => l = false) rfl (fun _ _ h => h) ?_
    rintro ⟨partNumber, parts⟩ l rfl
    simp [ChunkRepository.get, ObjectStorage.uploadPart, Option.forall, Call.completed]
  simp only [FinalizeUploadUseCase.assemble, ObjectStorage.initiateMultipartUpload,
    ObjectStorage.completeMultipartUpload, obeys_bind, obeys_await, committing_next,
    committing_allows]
  refine ⟨trivial, by simp [Call.completed], fun uploadId _ => ?_⟩
  simp only [onOk_ok, obeys_tryExcept, obeys_bind]
  refine (hparts uploadId).mono ?_
  rintro (x | parts) _ rfl
  · simp [ObjectStorage.abortMultipartUpload, SessionRepository.save, Call.completed]
  · simp [ObjectStorage.abortMultipartUpload, SessionRepository.save, Call.completed]

theorem requireSession_obeys (sid : UUID) :
    Obeys committing (requireSession sid) false (fun _ l => l = false) := by
  simp only [requireSession, SessionRepository.get, obeys_bind, obeys_await]
  refine ⟨rfl, by simp [Call.completed], fun found _ => ?_⟩
  cases found with
  | none => simp [Call.completed]
  | some v => simp [Call.completed]

theorem acquireLock_obeys (sid : UUID) : Obeys committing
    (SessionRepository.acquireLock sid RedisSessionRepository.lockTtl) false
    (fun _ l => l = false) := by
  simp [SessionRepository.acquireLock, Call.completed]

end Committing

def Phase.ofBool : Bool → Phase
  | false => .running
  | true => .committed

/-- Before the commit nothing fails. -/
theorem exec_committing {α : Type} {p : Program α} {Q : Except Exn α → Bool → Prop}
    (h : Obeys committing p false Q) {w : World} {o : Except Exn α} {s' : World × Phase}
    (hexec : Exec (lateFault env) p (w, .running) o s') :
    Exec (works env) p w o s'.1 ∧ ∃ l, Q o l ∧ s'.2 = .ofBool l := by
  refine Obeys.exec (f := Prod.fst) (I := fun l s => s.2 = .ofBool l) h ?_ rfl hexec
  intro l c s r s' hphase hallow hr
  have hfalse : l = false := hallow
  subst hfalse
  rcases hr with ⟨rfl, rfl⟩ | ⟨hcommitted, _⟩
  · refine ⟨trivial, ⟨rfl, rfl⟩, ?_⟩
    simp only [hphase, Phase.ofBool, Phase.after, Committing.committing_next, Bool.false_or]
    cases (c.completed (respond env c s.1).1).isSome <;> rfl
  · rw [hphase] at hcommitted
    cases hcommitted

section Halt

variable {w w₁ : World} {sid : UUID} {call : Call} {α β : Type}

theorem Phase.ofBool_ne_failed (l : Bool) (call : Call) : Phase.ofBool l ≠ .failed call := by
  cases l with
  | false =>
      intro h
      cases h
  | true =>
      intro h
      cases h

/-- If the second part of a sequence fails late, its first part has returned. -/
theorem exec_committing_bind {p : Program α} {f : α → Program β}
    {Q : Except Exn α → Bool → Prop} (h : Obeys committing p false Q) {o : Except Exn β}
    (hexec : Exec (lateFault env) (p >>= f) (w, .running) o (w₁, .failed call)) :
    ∃ a w' l, Exec (works env) p w (.ok a) w' ∧ Q (.ok a) l ∧
      Exec (lateFault env) (f a) (w', .ofBool l) o (w₁, .failed call) := by
  rcases (exec_bind p f o).1 hexec with ⟨x, hp, _⟩ | ⟨a, ⟨w', phase⟩, hp, hf⟩
  · rcases exec_committing h hp with ⟨_, l, _, hl⟩
    exact absurd hl.symm (Phase.ofBool_ne_failed l call)
  · rcases exec_committing h hp with ⟨hworks, l, hQ, hl⟩
    simp only at hl
    subst hl
    exact ⟨a, w', l, hworks, hQ, hf⟩

/-- The world in which a late call has failed: what comes before it has been done. -/
inductive Halted (w : World) (v : UploadSession) (sid : UUID) (s3Uri : String) :
    Call → World → Prop where
  | register : Halted w v sid s3Uri
      (.registerFile v.tenantId v.fileId s3Uri v.totalSize v.checksum) w
  | publish : Halted w v sid s3Uri
      (.publishFileUploadCompleted ⟨v.tenantId, v.fileId, s3Uri, v.totalSize, v.checksum⟩)
      (RedisMetadataRegistry.registerFile RedisMetadataRegistry.wiredTtl w v.tenantId s3Uri
        v.checksum)
  | deleteAll : Halted w v sid s3Uri (.deleteAll sid) (w.published v s3Uri)
  | sessionDelete : Halted w v sid s3Uri (.sessionDelete sid)
      (RedisChunkRepository.deleteAll (w.published v s3Uri) sid)

/-- A late call raises, and nothing follows, or it goes through. -/
theorem exec_late_bind {c : Call} (hlate : c.late = true) (f : c.Resp → Program β)
    {o : Except Exn β}
    (hexec : Exec (lateFault env) (@Bind.bind Program _ (no_index c.Resp) β (ask c) f)
      (w, .committed) o (w₁, .failed call)) :
    (call = c ∧ w₁ = w ∧ ∃ x, o = .error x) ∨
      Exec (lateFault env) (onOk f (respond env c w).1) ((respond env c w).2, .committed) o
        (w₁, .failed call) := by
  rcases hexec with ⟨r, s, ⟨rfl, rfl⟩ | ⟨_, _, ⟨msg, rfl⟩, rfl⟩, h⟩
  · exact Or.inr h
  · rcases h with ⟨rfl, hs⟩
    cases hs
    exact Or.inl ⟨rfl, rfl, _, rfl⟩

theorem exec_publish_late {v : UploadSession} (hfull : v.currentOffset = v.totalSize)
    {s3Uri : String} {o : Except Exn String}
    (hexec : Exec (lateFault env) (FinalizeUploadUseCase.publish v sid s3Uri) (w, .committed) o
      (w₁, .failed call)) : Halted w v sid s3Uri call w₁ ∧ ∃ x, o = .error x := by
  rcases exec_late_bind rfl _ hexec with ⟨rfl, rfl, hx⟩ | hexec
  · exact ⟨.register, hx⟩
  rcases exec_late_bind rfl _ hexec with ⟨rfl, rfl, hx⟩ | hexec
  · exact ⟨.publish, hx⟩
  rw [UploadSession.complete_eq_ok hfull] at hexec
  rcases exec_late_bind rfl _ hexec with ⟨rfl, rfl, hx⟩ | hexec
  · exact ⟨.deleteAll, hx⟩
  rcases exec_late_bind rfl _ hexec with ⟨rfl, rfl, hx⟩ | hexec
  · exact ⟨.sessionDelete, hx⟩
  · -- every call has gone through
    rcases hexec with ⟨_, hs⟩
    cases hs

/-- A check that has passed before a late failure. -/
theorem exec_raiseIf_late {bad : Prop} [Decidable bad] {x : Exn} {f : Unit → Program β}
    {o : Except Exn β}
    (hexec : Exec (lateFault env) (raiseIf bad x >>= f) (w, .running) o (w₁, .failed call)) :
    ¬ bad ∧ Exec (lateFault env) (f ()) (w, .running) o (w₁, .failed call) := by
  have hobeys : Obeys committing (raiseIf bad x) false (fun _ l => l = false) := by simp
  rcases exec_committing_bind hobeys hexec with ⟨_, w', _, hcheck, rfl, hrest⟩
  rcases (exec_raiseIf (S := Collab) bad x _).1 hcheck with ⟨rfl, ⟨_, hx⟩ | ⟨hgood, _⟩⟩
  · cases hx
  · exact ⟨hgood, hrest⟩

/-- The critical section of a finalize, with a late failure. -/
theorem exec_critical_late {v : UploadSession} (hfull : v.currentOffset = v.totalSize)
    {o : Except Exn String}
    (hexec : Exec (lateFault env) (do
      let _ ← FinalizeUploadUseCase.scan v sid
      let s3Uri ← FinalizeUploadUseCase.assemble v sid
      FinalizeUploadUseCase.publish v sid s3Uri) (w, .running) o (w₁, .failed call)) :
    ∃ streamed datas, StreamedFrom w sid 0 streamed ∧ (∀ data ∈ streamed, CleanChunk data) ∧
      FetchedFrom w sid 0 datas ∧ S3Accepts env datas ∧
      Halted (w.committed (objectKey v.tenantId v.fileId) datas) v sid
        (uri env (objectKey v.tenantId v.fileId)) call w₁ ∧ ∃ x, o = .error x := by
  rcases exec_committing_bind (Committing.scan_obeys sid v) hexec with
    ⟨_, w', _, hscan, rfl, hrest⟩
  rcases (exec_scan _).1 hscan with ⟨streamed, hstream, hclean, _, rfl⟩ | ⟨_, _, _, hx, _⟩
  · rcases exec_committing_bind (Committing.assemble_obeys sid v) hrest with
      ⟨s3Uri, w₂, l, hassemble, hcommitted, hlate⟩
    have hl : l = true := hcommitted.2 ⟨s3Uri, rfl⟩
    subst hl
    rcases (exec_assemble _).1 hassemble with ⟨datas, hfetch, ⟨hacc, huri, rfl⟩ | ⟨_, hx, _⟩⟩
    · cases huri
      rcases exec_publish_late hfull hlate with ⟨hhalted, hx⟩
      exact ⟨streamed, datas, hstream, hclean, hfetch, hacc, hhalted, hx⟩
    · cases hx
  · cases hx

/-- Whatever has failed, the lock is released. -/
theorem exec_releasing_late {p : Program α} {phase : Phase} {o : Except Exn α}
    (hexec : Exec (lateFault env) (p.tryFinally (SessionRepository.releaseLock sid)) (w, phase) o
      (w₁, .failed call)) :
    ∃ w', Exec (lateFault env) p (w, phase) o (w', .failed call) ∧ w₁ = w'.unlocked sid := by
  -- a release is no late call: it goes through and leaves the phase as it is
  have hrelease : ∀ (s : World × Phase) (o' : Except Exn Unit),
      Exec (lateFault env) (SessionRepository.releaseLock sid) s o' (w₁, .failed call) →
      o' = .ok () ∧ w₁ = s.1.unlocked sid ∧ s.2 = .failed call := by
    intro s o' h
    rcases (exec_await (S := Collab) _ _).1 h with ⟨rfl, hs⟩ | ⟨_, hlate, _⟩
    · rcases s with ⟨w', _ | _ | call'⟩ <;> cases hs
      exact ⟨rfl, rfl, rfl⟩
    · cases hlate
  rcases (exec_tryFinally p _ o).1 hexec with ⟨r, s, hp, ⟨hrel, rfl⟩ | ⟨x, hrel, _⟩⟩
  · rcases hrelease s _ hrel with ⟨_, hw, hphase⟩
    exact ⟨s.1, by rw [← hphase]; exact hp, hw⟩
  · rcases hrelease s _ hrel with ⟨hx, _⟩
    cases hx

/-- A finalize with a late failure: it has committed the run of chunks that it found, and
stopped at this call. -/
theorem exec_finalize_late {r : Except Exn Response}
    (hexec : Exec (lateFault env) (Op.prog env (.finalize sid)) (w, .running) r
      (w₁, .failed call)) :
    ∃ v streamed datas w', Finalizable w sid v ∧ StreamedFrom w sid 0 streamed ∧
      (∀ data ∈ streamed, CleanChunk data) ∧ FetchedFrom w sid 0 datas ∧ S3Accepts env datas ∧
      Halted ((w.locking sid).committed (objectKey v.tenantId v.fileId) datas) v sid
        (uri env (objectKey v.tenantId v.fileId)) call w' ∧
      w₁ = w'.unlocked sid ∧ ∃ x, r = .error x := by
  have hexecute : ∀ o, Exec (lateFault env) (FinalizeUploadUseCase.execute sid) (w, .running) o
      (w₁, .failed call) → ∃ v streamed datas w', Finalizable w sid v ∧
      StreamedFrom w sid 0 streamed ∧ (∀ data ∈ streamed, CleanChunk data) ∧
      FetchedFrom w sid 0 datas ∧ S3Accepts env datas ∧
      Halted ((w.locking sid).committed (objectKey v.tenantId v.fileId) datas) v sid
        (uri env (objectKey v.tenantId v.fileId)) call w' ∧
      w₁ = w'.unlocked sid ∧ ∃ x, o = .error x := by
    intro o h
    rcases exec_committing_bind (Committing.requireSession_obeys sid) h with
      ⟨v, w₀, _, hread, rfl, h₁⟩
    rcases (exec_requireSession _ _).1 hread with ⟨rfl, ⟨_, hx⟩ | ⟨v', hlive, hv⟩⟩
    · cases hx
    cases hv
    -- a late failure comes after the commit: no check before it has raised
    rcases exec_raiseIf_late h₁ with ⟨hdone, h₂⟩
    rcases exec_raiseIf_late h₂ with ⟨hover, h₃⟩
    rcases exec_raiseIf_late h₃ with ⟨hfull, h₄⟩
    rcases exec_committing_bind (Committing.acquireLock_obeys sid) h₄ with
      ⟨locked, w', _, hlock, rfl, h₅⟩
    rcases exec_raiseIf_late h₅ with ⟨hlocked, h₆⟩
    rcases exec_releasing_late h₆ with ⟨w₂, h₇, hw⟩
    -- the lock was free
    have hfree : w₀.lock? sid = none ∧ w' = w₀.locking sid := by
      have hlock := (exec_ask _ _).1 hlock
      simp only [respond, Except.ok.injEq] at hlock
      rcases RedisSessionRepository.acquireLock_cases w₀ sid RedisSessionRepository.lockTtl with
        ⟨_, _, hres⟩ | ⟨hfree, hres⟩
      · rw [hres] at hlock
        exact absurd hlock.1 hlocked
      · rw [hres] at hlock
        exact ⟨hfree, hlock.2⟩
    rcases hfree with ⟨hfree, rfl⟩
    rcases exec_critical_late (not_not.1 hfull) h₇ with
      ⟨streamed, datas, hstream, hclean, hfetch, hacc, hhalted, hx⟩
    have hopen : v.Open := by
      intro hs
      rcases List.mem_cons.1 hs with hs | hs
      · exact hdone hs
      · exact hover hs
    have hrun := streamedFrom_iff.1 hstream
    have hsame : RunFrom (w₀.payload? sid) 0 streamed := hrun
    exact ⟨v, streamed, datas, w₂, ⟨hlive, hopen, not_not.1 hfull, hfree⟩,
      streamedFrom_iff.2 hsame, hclean,
      hfetch.congr fun _ => rfl, hacc, hhalted, hw, hx⟩
  rcases (exec_bind (S := Collab) _ _ r).1 hexec with ⟨x, h, rfl⟩ | ⟨s3Uri, s, h, hr, hs⟩
  · rcases hexecute _ h with ⟨v, streamed, datas, w', hready, hstream, hclean, hfetch, hacc,
      hhalted, hw, _⟩
    exact ⟨v, streamed, datas, w', hready, hstream, hclean, hfetch, hacc, hhalted, hw, x, rfl⟩
  · cases hs
    rcases hexecute _ h with ⟨_, _, _, _, _, _, _, _, _, _, _, x, hx⟩
    cases hx

/-- A late failure changes no session and no lock, and the chunks only if all of them
have been deleted. -/
theorem Halted.keys {v : UploadSession} {s3Uri : String} (h : Halted w v sid s3Uri call w₁) :
    ((∀ sid', call ≠ .sessionDelete sid') ∧ (∀ sid', SameKeys sid' w w₁)) ∨
      call = .sessionDelete sid ∧
        ∀ sid', SameKeys sid' (RedisChunkRepository.deleteAll w sid) w₁ := by
  cases h with
  | register => exact Or.inl ⟨(fun _ hcall => by cases hcall), fun sid' => SameKeys.refl sid' _⟩
  | publish =>
      exact Or.inl ⟨(fun _ hcall => by cases hcall), fun _ => ⟨rfl, fun _ => rfl, fun _ => rfl⟩⟩
  | deleteAll =>
      exact Or.inl ⟨(fun _ hcall => by cases hcall), fun _ => ⟨rfl, fun _ => rfl, fun _ => rfl⟩⟩
  | sessionDelete => exact Or.inr ⟨rfl, fun _ => ⟨rfl, fun _ => rfl, fun _ => rfl⟩⟩

theorem Halted.rest {v : UploadSession} {s3Uri : String} (h : Halted w v sid s3Uri call w₁) :
    w₁.objects = w.objects ∧ w₁.locks = w.locks ∧ w₁.now = w.now := by
  cases h with
  | register => exact ⟨rfl, rfl, rfl⟩
  | publish => exact ⟨rfl, rfl, rfl⟩
  | deleteAll => exact ⟨rfl, rfl, rfl⟩
  | sessionDelete => exact ⟨rfl, rfl, rfl⟩

end Halt

/-! ## Between the two finalizes -/

/-- What a finalize with a late failure leaves behind. -/
structure Interrupted (env : Env) (w : World) (v : UploadSession) (sid : UUID) (datas : List Bytes)
    (call : Call) (w₁ : World) : Prop where
  ready : Finalizable w sid v
  run : RunFrom (w.payload? sid) 0 datas
  clean : ∀ data ∈ datas, CleanChunk data
  accepted : S3Accepts env datas
  object : w₁.objects (objectKey v.tenantId v.fileId) = some datas.flatten
  session : ∀ sid', w₁.session? sid' = w.session? sid'
  others : ∀ sid', sid' ≠ sid → SameKeys sid' w w₁
  chunks : ((∀ sid', call ≠ .sessionDelete sid') ∧ SameKeys sid w w₁) ∨
    call = .sessionDelete sid ∧ ∀ i, w₁.chunk? sid i = none ∧ w₁.chunkMeta? sid i = none
  free : (∀ sid', w.lock? sid' = none) → ∀ sid', w₁.lock? sid' = none

section Between

variable {w w₁ w' : World} {sid : UUID} {v : UploadSession} {datas : List Bytes} {call : Call}

theorem interrupted_of_exec {r : Except Exn Response}
    (hpaired : ∀ i, (w.chunkMeta? sid i).isSome = (w.chunk? sid i).isSome)
    (hexec : Exec (lateFault env) (Op.prog env (.finalize sid)) (w, .running) r
      (w₁, .failed call)) :
    ∃ v datas, Interrupted env w v sid datas call w₁ ∧ ∃ x, r = .error x := by
  rcases exec_finalize_late hexec with ⟨v, streamed, datas, w', hready, hstream, hclean, hfetch,
    hacc, hhalted, rfl, hx⟩
  have hrun := (fetchedFrom_iff hpaired).1 hfetch
  -- scanned and assembled are the same chunks: both keys are there
  have hsame : streamed = datas := (streamedFrom_iff.1 hstream).unique hrun
  subst hsame
  rcases hhalted.rest with ⟨hobjects, hlocks, hnow⟩
  have hcommitted : ((w.locking sid).committed (objectKey v.tenantId v.fileId)
      streamed).objects (objectKey v.tenantId v.fileId) = some streamed.flatten :=
    Function.update_self (objectKey v.tenantId v.fileId) _ w.objects
  have hsessions : ∀ sid', (w'.unlocked sid).session? sid' = w.session? sid' := by
    intro sid'
    rcases hhalted.keys with ⟨_, hkeys⟩ | ⟨_, hkeys⟩
    · exact (hkeys sid').session
    · exact (hkeys sid').session
  refine ⟨v, streamed, ⟨hready, hrun, hclean, hacc, ?_, hsessions, ?_, ?_, ?_⟩, hx⟩
  · exact (congrFun hobjects _).trans hcommitted
  · intro sid' hne
    rcases hhalted.keys with ⟨_, hkeys⟩ | ⟨_, hkeys⟩
    · exact ⟨hsessions sid', (hkeys sid').chunk, (hkeys sid').chunkMeta⟩
    · refine ⟨hsessions sid', fun i => ?_, fun i => ?_⟩
      · refine ((hkeys sid').chunk i).trans ?_
        exact (w.chunks.get_eraseAll w.now (sid', i) _).trans (by simp [hne, World.chunk?])
      · refine ((hkeys sid').chunkMeta i).trans ?_
        exact (w.chunkMetas.get_eraseAll w.now (sid', i) _).trans (by simp [hne, World.chunkMeta?])
  · -- stopped before the chunks were deleted, or after that
    rcases hhalted.keys with ⟨hcall, hkeys⟩ | ⟨rfl, hkeys⟩
    · exact Or.inl ⟨hcall, hsessions sid, (hkeys sid).chunk, (hkeys sid).chunkMeta⟩
    · refine Or.inr ⟨rfl, fun i => ⟨?_, ?_⟩⟩
      · refine ((hkeys sid).chunk i).trans ?_
        exact (w.chunks.get_eraseAll w.now (sid, i) _).trans (by simp)
      · refine ((hkeys sid).chunkMeta i).trans ?_
        exact (w.chunkMetas.get_eraseAll w.now (sid, i) _).trans (by simp)
  · intro hfree sid'
    by_cases hne : sid' = sid
    · subst hne
      exact w'.locks.get_erase_self w'.now sid'
    · refine (w'.locks.get_erase_ne w'.now sid hne).trans ?_
      rw [hlocks, hnow]
      exact (w.locks.get_set_ne w.now sid _ _ hne).trans (hfree sid')

/-- The order of the stores has survived the failure. -/
theorem Interrupted.orderly (h : Interrupted env w v sid datas call w₁) {served : List Served}
    (hord : Orderly served w) : Orderly served w₁ := by
  refine ⟨fun sid' u hu => hord.keyed sid' u ((h.session sid').symm.trans hu),
    fun sid' u hu => hord.born sid' u ((h.session sid').symm.trans hu), h.free hord.free,
    fun sid' i => ?_, fun sid' hnone i => ?_⟩
  · by_cases hne : sid' = sid
    · subst hne
      rcases h.chunks with ⟨_, hsame⟩ | ⟨_, hgone⟩
      · rw [hsame.chunk, hsame.chunkMeta, hord.paired]
      · rw [(hgone i).1, (hgone i).2]
        rfl
    · rw [(h.others sid' hne).chunk, (h.others sid' hne).chunkMeta, hord.paired]
  · have hnone' := (h.session sid').symm.trans hnone
    by_cases hne : sid' = sid
    · subst hne
      cases h.ready.live.symm.trans hnone'
    · rw [(h.others sid' hne).chunk, hord.owned sid' hnone']

/-- A complete session is left as it is, or fails, or goes. -/
def Settled (sid : UUID) (v : UploadSession) (w : World) : Prop :=
  ∀ u, w.session? sid = some u → u = v ∨ u = v.fail

theorem Settled.serve (h : Settled sid v w) (hfull : v.currentOffset = v.totalSize)
    (hkeyed : Keyed w) {op : Op} {r : Except Exn Response} (hnew : op.newId? ≠ some sid)
    (halone : Alone env op w r w') : Settled sid v w' := by
  intro u hu
  cases alone_effect hkeyed halone sid with
  | untouched hsame => exact h u (hsame.session.symm.trans hu)
  | created => exact absurd rfl hnew
  | stored hstores _ hsession => exact h u (hstores.live.trans (hsession.symm.trans hu))
  | moved hstores haccepted hsession =>
      rcases UploadSession.updateOffset_ok haccepted with ⟨hpos, hfits, _⟩
      rcases h _ hstores.live with rfl | rfl
      · omega
      · exact absurd hstores.opened (by simp [UploadSession.Open, UploadSession.fail])
  | failed hfin hsession =>
      cases hsession.symm.trans hu
      rcases h _ hfin.live with rfl | rfl
      · exact Or.inr rfl
      · exact Or.inr rfl
  | gone _ hgone => cases hgone.session.symm.trans hu

/-- The requests that may change the chunks of a complete session without removing it. -/
def Op.worksOn (sid : UUID) : Op → Prop
  | .uploadChunk sid' .. | .finalize sid' => sid' = sid
  | _ => False

/-- The session is as it was, with its chunks, or gone. -/
def Untouched (sid : UUID) (w w' : World) : Prop := w'.session? sid = none ∨ SameKeys sid w w'

theorem Untouched.serve (h : Untouched sid w₁ w) (hkeyed : Keyed w) {op : Op}
    {r : Except Exn Response} (hnew : op.newId? ≠ some sid) (hop : ¬ op.worksOn sid)
    (halone : Alone env op w r w') : Untouched sid w₁ w' := by
  cases alone_effect hkeyed halone sid with
  | untouched hsame =>
      rcases h with hnone | h
      · exact Or.inl (hsame.session.trans hnone)
      · exact Or.inr ⟨hsame.session.trans h.session, fun i => (hsame.chunk i).trans (h.chunk i),
          fun i => (hsame.chunkMeta i).trans (h.chunkMeta i)⟩
  | created => exact absurd rfl hnew
  | stored => exact absurd rfl hop
  | moved => exact absurd rfl hop
  | failed => exact absurd rfl hop
  | gone _ hgone => exact Or.inl hgone.session

theorem Interrupted.between (h : Interrupted env w v sid datas call w₁) {served : List Served}
    (hord : Orderly served w) {between : List Served} {w₂ : World}
    (hbetween : Serial env (fun _ op => op.newId? ≠ some sid) w₁ between w₂) :
    Orderly (served ++ between) w₂ ∧ Settled sid v w₂ ∧
      ((∀ d ∈ between, ¬ d.1.worksOn sid) → Untouched sid w₁ w₂) := by
  induction hbetween with
  | start =>
      rw [List.append_nil]
      refine ⟨h.orderly hord, fun u hu => Or.inl ?_, fun _ => Or.inr (SameKeys.refl sid w₁)⟩
      cases h.ready.live.symm.trans ((h.session sid).symm.trans hu)
      rfl
  | serve _ hnew _ halone ih =>
      rcases ih with ⟨hord', hsettled, huntouched⟩
      rw [← List.append_assoc]
      refine ⟨hord'.serve halone, hsettled.serve h.ready.full hord'.keyed hnew halone, ?_⟩
      intro hidle
      refine (huntouched fun d hd => hidle d (List.mem_append_left _ hd)).serve hord'.keyed hnew
        ?_ halone
      exact hidle _ (List.mem_append_right _ (List.mem_singleton.2 rfl))
  | wait _ hlasts ih =>
      rcases ih with ⟨hord', hsettled, huntouched⟩
      refine ⟨hord'.wait hlasts, fun u hu => hsettled u ((hlasts sid).1.symm.trans hu), ?_⟩
      intro hidle
      rcases huntouched hidle with hnone | hsame
      · exact Or.inl ((hlasts sid).1.trans hnone)
      · exact Or.inr ⟨(hlasts sid).1.trans hsame.session,
          fun i => ((hlasts sid).2.2 i).1.trans (hsame.chunk i),
          fun i => ((hlasts sid).2.2 i).2.trans (hsame.chunkMeta i)⟩

end Between

/-! ## The second finalize -/

/-- A finalize, with no failures, returns the URI of the session's file and leaves these
bytes there, with the dedup entry and the event in place. -/
def Recovers (env : Env) (w : World) (sid : UUID) (v : UploadSession) (bytes : Bytes) : Prop :=
  ∃ w', Alone env (.finalize sid) w
      (.ok (.finalized (uri env (objectKey v.tenantId v.fileId)))) w' ∧
    w'.objects (objectKey v.tenantId v.fileId) = some bytes ∧
    w'.dedup? v.tenantId v.checksum = some (uri env (objectKey v.tenantId v.fileId)) ∧
    ⟨v.tenantId, v.fileId, uri env (objectKey v.tenantId v.fileId), v.totalSize, v.checksum⟩ ∈
      w'.events

/-- The chunks that a finalize finds make up these bytes, and may be committed. -/
def Recoverable (env : Env) (w : World) (sid : UUID) (bytes : Bytes) : Prop :=
  ∃ datas, RunFrom (w.payload? sid) 0 datas ∧ (∀ data ∈ datas, CleanChunk data) ∧
    S3Accepts env datas ∧ datas.flatten = bytes

section Recovers

variable {w w₁ : World} {sid : UUID} {v : UploadSession} {bytes : Bytes} {datas : List Bytes}
  {call : Call}

/-- A finalize that commits leaves the dedup entry and the event. -/
theorem committed_published (w : World) (sid : UUID) (v : UploadSession) (s3Uri : String) :
    ((RedisSessionRepository.delete (RedisChunkRepository.deleteAll
        (w.published v s3Uri) sid) sid).unlocked sid).dedup? v.tenantId v.checksum = some s3Uri ∧
      ⟨v.tenantId, v.fileId, s3Uri, v.totalSize, v.checksum⟩ ∈
        ((RedisSessionRepository.delete (RedisChunkRepository.deleteAll
          (w.published v s3Uri) sid) sid).unlocked sid).events := by
  constructor
  · show (w.dedup.set (v.tenantId, v.checksum) s3Uri none).get w.now _ = _
    simp [ExpiringMap.get, ExpiringMap.set]
  · exact List.mem_append_right _ (List.mem_singleton.2 rfl)

theorem recovers_iff (hready : Finalizable w sid v)
    (hpaired : ∀ i, (w.chunkMeta? sid i).isSome = (w.chunk? sid i).isSome) :
    Recovers env w sid v bytes ↔ Recoverable env w sid bytes := by
  constructor
  · intro h
    rcases h with ⟨w', halone, hobject, _, _⟩
    rcases (alone_finalize hready _).1 halone with ⟨o, w₁, hend, ho, rfl⟩
    cases hend with
    | infected => cases ho
    | refused => cases ho
    | @committed streamed datas hstream hclean hfetch hacc =>
        have hrun := (fetchedFrom_iff hpaired).1 (hfetch.congr fun _ => rfl)
        have hstreamed := streamedFrom_iff.1 hstream
        have hsame : streamed = datas := RunFrom.unique hstreamed hrun
        subst hsame
        rw [objects_committed] at hobject
        exact ⟨streamed, hrun, hclean, hacc, Option.some.inj hobject⟩
  · intro h
    rcases h with ⟨datas, hrun, hclean, hacc, rfl⟩
    rcases committed_published ((w.locking sid).committed (objectKey v.tenantId v.fileId) datas)
      sid v (uri env (objectKey v.tenantId v.fileId)) with ⟨hdedup, hevent⟩
    exact ⟨_, (alone_finalize_run hready hpaired hrun hclean _).2 (Or.inl ⟨hacc, rfl, rfl⟩),
      objects_committed .., hdedup, hevent⟩

/-- With its chunks as they were, the session recovers; without them, if it had none. -/
theorem Interrupted.recoverable (h : Interrupted env w v sid datas call w₁) {w₂ : World}
    (hsame : SameKeys sid w₁ w₂) : Recoverable env w₂ sid datas.flatten ↔
      (∀ sid', call ≠ .sessionDelete sid') ∨ w.payload? sid 0 = none := by
  rcases h.chunks with ⟨hcall, hkept⟩ | ⟨rfl, hgone⟩
  · refine iff_of_true ⟨datas, ?_, h.clean, h.accepted, rfl⟩ (Or.inl hcall)
    have hpayload : w₂.payload? sid = w.payload? sid := by
      funext k
      simp only [World.payload?, hsame.chunk, hkept.chunk]
    rw [hpayload]
    exact h.run
  · have hnil : RunFrom (w₂.payload? sid) 0 [] := by
      refine payload?_eq_none.2 (Or.inl ?_)
      rw [hsame.chunk, (hgone _).1]
    have hrun := h.run
    cases datas with
    | nil => exact iff_of_true ⟨[], hnil, h.clean, h.accepted, rfl⟩ (Or.inr hrun)
    | cons data datas =>
        -- the first chunk is missing from what a second finalize finds
        have hfirst := payload?_eq_some.1 hrun.1
        refine iff_of_false ?_ ?_
        · intro hrec
          rcases hrec with ⟨datas', hrun', _, _, hflat⟩
          have hnone := hrun'.unique hnil
          subst hnone
          simp [hfirst.2] at hflat
        · intro hor
          rcases hor with hcall | hnone
          · exact hcall sid rfl
          · cases hrun.1.symm.trans hnone

end Recovers

/-- Recovery after the commit: a finalize that runs after any requests one after the
other, and raises because one call after the commit has failed, has left an object. While
the session is stored, a later finalize returns the same URI and leaves the same bytes,
dedup entry and event exactly if the session is still open and the cached chunks make up
these bytes. If nothing has been uploaded to it nor finalized meanwhile, this is exactly
if the failed call was not the deletion of the session, or no chunk was cached at all. -/
theorem recovery {now : Nat} {served between : List Served} {w w₁ w₂ : World} {sid : UUID}
    {call : Call} {r : Except Exn Response} {v₂ : UploadSession}
    (h : Serial env (fun _ _ => True) (World.empty now) served w)
    (hfail : Exec (lateFault env) (Op.prog env (.finalize sid)) (w, .running) r
      (w₁, .failed call))
    (hbetween : Serial env (fun _ op => op.newId? ≠ some sid) w₁ between w₂)
    (hstored : w₂.session? sid = some v₂) :
    ∃ v bytes, w.session? sid = some v ∧ (∃ x, r = .error x) ∧
      w₁.objects (objectKey v.tenantId v.fileId) = some bytes ∧
      (Recovers env w₂ sid v bytes ↔ v₂.Open ∧ Recoverable env w₂ sid bytes) ∧
      ((∀ d ∈ between, ¬ d.1.worksOn sid) → (Recovers env w₂ sid v bytes ↔
        (∀ sid', call ≠ .sessionDelete sid') ∨ w.payload? sid 0 = none)) := by
  have hord := serial_orderly h
  rcases interrupted_of_exec (hord.paired sid) hfail with ⟨v, datas, hint, hx⟩
  rcases hint.between hord hbetween with ⟨hord₂, hsettled, huntouched⟩
  -- the session is as before the failure, or it has been set to failed
  have hiff : Recovers env w₂ sid v datas.flatten ↔
      v₂.Open ∧ Recoverable env w₂ sid datas.flatten := by
    rcases hsettled v₂ hstored with rfl | rfl
    · have hready : Finalizable w₂ sid v₂ :=
        ⟨hstored, hint.ready.opened, hint.ready.full, hord₂.free sid⟩
      rw [recovers_iff hready (hord₂.paired sid)]
      exact (and_iff_right hready.opened).symm
    · -- a session that has failed is refused
      have hclosed : ¬ v.fail.Open := by simp [UploadSession.Open, UploadSession.fail]
      refine iff_of_false ?_ (fun hopen => hclosed hopen.1)
      rintro ⟨w₃, halone, _⟩
      have hno : ∀ u, ¬ Finalizable w₂ sid u := by
        intro u hready
        cases hstored.symm.trans hready.live
        exact hclosed hready.opened
      rcases finalize_refused halone hno with ⟨_, x, hx⟩
      cases hx
  refine ⟨v, datas.flatten, hint.ready.live, hx, hint.object, hiff, ?_⟩
  intro hidle
  -- left alone, nothing but the failed call decides
  rcases huntouched hidle with hnone | hsame
  · cases hstored.symm.trans hnone
  · have hv : v₂ = v := by
      have hlive := hsame.session.trans (hint.session sid)
      rw [hstored, hint.ready.live] at hlive
      exact Option.some.inj hlive
    subst hv
    rw [hiff, and_iff_right hint.ready.opened, hint.recoverable hsame]

/-! ## Concrete runs -/

namespace Demo

/-- Calls go through, except that this one fails after the commit. -/
def failing (call c : Call) (s : World × Phase) : Except Exn c.Resp × (World × Phase) :=
  match s.2 with
  | .committed =>
      if c.late = true ∧ c = call then
        (FileUploader.failed "Connection reset by peer" c, (s.1, .failed c))
      else
        ((respond Demo.env c s.1).1,
          ((respond Demo.env c s.1).2, s.2.after c (respond Demo.env c s.1).1))
  | _ =>
      ((respond Demo.env c s.1).1,
        ((respond Demo.env c s.1).2, s.2.after c (respond Demo.env c s.1).1))

end Demo

theorem failed_late {c : Call} (hlate : c.late = true) (msg : String) :
    failed msg c = .error (.infrastructureError msg) := by
  cases c with
  | abortMultipartUpload t f u => cases hlate
  | _ => rfl

theorem lateFault_failing (call c : Call) (s : World × Phase) :
    lateFault Demo.env c s (Demo.failing call c s).1 (Demo.failing call c s).2 := by
  rcases s with ⟨w, phase⟩
  cases phase with
  | running => exact Or.inl ⟨rfl, rfl⟩
  | failed call' => exact Or.inl ⟨rfl, rfl⟩
  | committed =>
      by_cases hc : c.late = true ∧ c = call
      · have hfailing : Demo.failing call c (w, .committed) =
            (failed "Connection reset by peer" c, (w, .failed c)) := if_pos hc
        rw [hfailing]
        exact Or.inr ⟨rfl, hc.1, ⟨_, failed_late hc.1 _⟩, rfl⟩
      · have hworking : Demo.failing call c (w, .committed) = ((respond Demo.env c w).1,
            ((respond Demo.env c w).2, Phase.committed.after c (respond Demo.env c w).1)) :=
          if_neg hc
        rw [hworking]
        exact Or.inl ⟨rfl, rfl⟩

/-- The finalize of a file of one byte, with this late failure. -/
theorem finalize_failing {call : Call} (h : (Prog.run (Demo.failing call) 20
      (Op.prog Demo.env (.finalize Demo.sid)) (Demo.uploadedAt 0, .running)).any (fun s =>
        match s.2.2 with
        | .failed call' => call' = call
        | _ => false) = true) :
    ∃ r w₁, Exec (lateFault Demo.env) (Op.prog Demo.env (.finalize Demo.sid))
      (Demo.uploadedAt 0, .running) r (w₁, .failed call) := by
  rcases exists_exec_of_run (lateFault_failing call) 20 h with ⟨r, ⟨w₁, phase⟩, hexec, hcheck⟩
  cases phase with
  | running => cases hcheck
  | committed => cases hcheck
  | failed call' =>
      have hcall : call' = call := of_decide_eq_true hcheck
      subst hcall
      exact ⟨r, w₁, hexec⟩

/-- The file has been uploaded, and everything is still there. -/
theorem uploadedAt_zero : Serial Demo.env (fun _ _ => True) (World.empty 0)
    [(.initiate Demo.sid Demo.tenant Demo.file 1 (Demo.sha256 Demo.a),
        .ok (.initiated
          (some (newSession Demo.sid Demo.tenant Demo.file 1 (Demo.sha256 Demo.a)), none))),
      (.uploadChunk Demo.sid 0 (Demo.sha256 Demo.a) Demo.a, .ok (.uploaded Demo.complete))]
    (Demo.uploadedAt 0) ∧ (Demo.uploadedAt 0).payload? Demo.sid 0 = some Demo.a :=
  ⟨serial_uploadedAt trivial trivial, payload?_eq_some.2 ⟨chunk?_uploadedAt 0 0, by decide⟩⟩

/-- When the chunks could not be deleted, the next finalize does all of it again. -/
theorem recovery_demo : ∃ r w₁ v bytes, Exec (lateFault Demo.env)
      (Op.prog Demo.env (.finalize Demo.sid)) (Demo.uploadedAt 0, .running) r
      (w₁, .failed (.deleteAll Demo.sid)) ∧
    w₁.objects (objectKey v.tenantId v.fileId) = some bytes ∧
    Recovers Demo.env w₁ Demo.sid v bytes := by
  rcases uploadedAt_zero with ⟨hrun, _⟩
  have hfail : ∃ r w₁, Exec (lateFault Demo.env) (Op.prog Demo.env (.finalize Demo.sid))
      (Demo.uploadedAt 0, .running) r (w₁, .failed (.deleteAll Demo.sid)) :=
    finalize_failing (by decide +kernel)
  rcases hfail with ⟨r, w₁, hexec⟩
  rcases interrupted_of_exec ((serial_orderly hrun).paired _) hexec with ⟨_, _, hint, _⟩
  have hstored := (hint.session Demo.sid).trans (session?_uploadedAt 0)
  rcases recovery hrun hexec .start hstored with ⟨v, bytes, _, _, hobject, _, hiff⟩
  have hidle : ∀ d ∈ ([] : List Served), ¬ d.1.worksOn Demo.sid := fun d hd => by cases hd
  have hcall : ∀ sid', Call.deleteAll Demo.sid ≠ .sessionDelete sid' := fun _ h => by cases h
  exact ⟨r, w₁, v, bytes, hexec, hobject, (hiff hidle).2 (Or.inl hcall)⟩

/-- When the session could not be deleted, its chunks are gone already: the next finalize
does not give the committed bytes. -/
theorem recovery_fails : ∃ served w r w₁ v bytes,
    Serial Demo.env (fun _ _ => True) (World.empty 0) served w ∧
    Exec (lateFault Demo.env) (Op.prog Demo.env (.finalize Demo.sid)) (w, .running) r
      (w₁, .failed (.sessionDelete Demo.sid)) ∧
    w₁.session? Demo.sid = some v ∧
    w₁.objects (objectKey v.tenantId v.fileId) = some bytes ∧
    ¬ Recovers Demo.env w₁ Demo.sid v bytes := by
  rcases uploadedAt_zero with ⟨hrun, hpayload⟩
  have hfail : ∃ r w₁, Exec (lateFault Demo.env) (Op.prog Demo.env (.finalize Demo.sid))
      (Demo.uploadedAt 0, .running) r (w₁, .failed (.sessionDelete Demo.sid)) :=
    finalize_failing (by decide +kernel)
  rcases hfail with ⟨r, w₁, hexec⟩
  have hord := serial_orderly hrun
  rcases interrupted_of_exec (hord.paired _) hexec with ⟨v, datas, hint, _⟩
  have hstored := (hint.session Demo.sid).trans hint.ready.live
  refine ⟨_, _, r, w₁, v, datas.flatten, hrun, hexec, hstored, hint.object, ?_⟩
  have hready : Finalizable w₁ Demo.sid v :=
    ⟨hstored, hint.ready.opened, hint.ready.full, hint.free hord.free _⟩
  rw [recovers_iff hready ((hint.orderly hord).paired _),
    hint.recoverable (SameKeys.refl Demo.sid w₁)]
  rintro (hcall | hnone)
  · exact hcall Demo.sid rfl
  · cases hpayload.symm.trans hnone

end FileUploader
