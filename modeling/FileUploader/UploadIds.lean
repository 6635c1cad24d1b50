import FileUploader.Await.Renaming
import FileUploader.Assembly
import FileUploader.Tenancy

/-! # The ids of multipart uploads

S3 names an upload by an id of its own choice. A finalize request hands the id back and
does nothing else with it: answered with other ids, every request makes the same calls
but for the ids in them.
-/

namespace FileUploader

open Await Prog S3ObjectStorage

variable {env : Env}

/-! ## Renaming uploads -/

/-- The call with another upload id. -/
def Call.renamed (π : Equiv.Perm Nat) : Call → Call
  | .uploadPart t f u n data => .uploadPart t f (π u) n data
  | .completeMultipartUpload t f u parts => .completeMultipartUpload t f (π u) parts
  | .abortMultipartUpload t f u => .abortMultipartUpload t f (π u)
  | c => c

/-- The answer, with the id that it would have without the renaming. -/
def Call.named (π : Equiv.Perm Nat) :
    (c : Call) → Except Exn (c.renamed π).Resp → Except Exn c.Resp
  | .initiateMultipartUpload _ _, r => r.map π.symm
  | .sessionGet _, r | .sessionSave _, r | .sessionDelete _, r | .acquireLock _ _, r
  | .releaseLock _, r | .chunkSave _ _, r | .chunkGet _ _, r | .chunkPull _ _, r
  | .deleteAll _, r | .getByChecksum _ _, r | .registerFile .., r | .uploadPart .., r
  | .completeMultipartUpload .., r | .abortMultipartUpload .., r
  | .publishFileUploadCompleted _, r => r

def uploadRenaming (π : Equiv.Perm Nat) : Renaming Collab where
  call := Call.renamed π
  back := Call.named π

/-! ## No request can tell -/

/-- The program hands on no upload id. -/
abbrev NoId {α : Type} (p : Program α) : Prop := Closed uploadRenaming p

section Programs

variable {α : Type}

theorem noId_ask {c : Call} (hc : c.Plain) :
    @Closed Collab (no_index c.Resp) _ uploadRenaming (ask c) := by
  intro π
  cases c with
  | initiateMultipartUpload t f => exact hc.elim
  | uploadPart t f u n data => exact hc.elim
  | completeMultipartUpload t f u parts => exact hc.elim
  | abortMultipartUpload t f u => exact hc.elim
  | _ => rfl

theorem noId_requireSession (sid : UUID) : NoId (requireSession sid) := by
  refine Closed.bind (noId_ask (c := .sessionGet sid) trivial) fun stored => ?_
  cases stored with
  | none => exact closed_raise _
  | some v => exact closed_pure v

theorem noId_process (v : UploadSession) (sid : UUID) (index : Int) (cs : String)
    (data : Bytes) : NoId (UploadChunkUseCase.process env v sid index cs data) := by
  refine Closed.bind (closed_raiseIf _ _) fun _ => ?_
  refine Closed.bind (closed_raiseIf _ _) fun _ => ?_
  refine Closed.bind (closed_raiseIf _ _) fun _ => ?_
  refine Closed.bind (noId_ask (c := .chunkSave _ _) trivial) fun _ => ?_
  refine Closed.bind (closed_ofExcept _) fun v' => ?_
  refine Closed.bind (noId_ask (c := .sessionSave v') trivial) fun _ => ?_
  exact closed_pure v'

theorem noId_scan (v : UploadSession) (sid : UUID) : NoId (FinalizeUploadUseCase.scan v sid) := by
  refine Closed.tryExcept (closed_loop 0 fun index => ?_) fun x => ?_
  · refine Closed.bind (Closed.bind (noId_ask (c := .chunkPull _ _) trivial) ?_) ?_
    · intro chunkBytes
      cases chunkBytes with
      | none => exact closed_pure none
      | some data =>
          show NoId (if data = [] then _ else _)
          split
          · exact closed_pure none
          · exact closed_pure _
    · intro next
      cases next with
      | none => exact closed_pure _
      | some next => exact Closed.bind (closed_raiseIf _ _) fun _ => closed_pure _
  · cases x with
    | malwareDetectedError msg =>
        refine Closed.bind (noId_ask (c := .sessionSave _) trivial) fun _ => ?_
        refine Closed.bind (noId_ask (c := .deleteAll _) trivial) fun _ => ?_
        refine Closed.bind (noId_ask (c := .sessionDelete _) trivial) fun _ => ?_
        exact closed_raise _
    | _ => exact closed_raise _

theorem noId_publish (v : UploadSession) (sid : UUID) (s3Uri : String) :
    NoId (FinalizeUploadUseCase.publish v sid s3Uri) := by
  refine Closed.bind (noId_ask (c := .registerFile ..) trivial) fun _ => ?_
  refine Closed.bind (noId_ask (c := .publishFileUploadCompleted _) trivial) fun _ => ?_
  refine Closed.bind (closed_ofExcept _) fun _ => ?_
  refine Closed.bind (noId_ask (c := .deleteAll _) trivial) fun _ => ?_
  refine Closed.bind (noId_ask (c := .sessionDelete _) trivial) fun _ => ?_
  exact closed_pure _

/-! ### The upload of a finalize -/

section Upload

variable (π : Equiv.Perm Nat) (v : UploadSession) (sid : UUID)

/-- What follows the initiation of an upload is given the id that S3 answers with. -/
theorem rename_initiate (t f : UUID) (k : Nat → Program α) :
    rename (uploadRenaming π) (ObjectStorage.initiateMultipartUpload t f >>= k) =
      ObjectStorage.initiateMultipartUpload t f >>=
        fun u => rename (uploadRenaming π) (k (π.symm u)) := by
  show Prog.call _ _ = Prog.call _ _
  congr 1
  funext r
  cases r with
  | error x => rfl
  | ok u => rfl

theorem rename_uploadParts (u : Nat) :
    rename (uploadRenaming π) (FinalizeUploadUseCase.uploadParts v sid u) =
      FinalizeUploadUseCase.uploadParts v sid (π u) := by
  rw [FinalizeUploadUseCase.uploadParts, FinalizeUploadUseCase.uploadParts, rename_loop]
  congr 1
  funext state
  rw [rename_bind, ChunkRepository.get, noId_ask (c := .chunkGet _ _) trivial π]
  congr 1
  funext chunk
  cases chunk with
  | none => rfl
  | some chunk =>
      rw [rename_bind]
      rfl

theorem rename_complete (t f : UUID) (u : Nat) (parts : List Part) :
    rename (uploadRenaming π) (ObjectStorage.completeMultipartUpload t f u parts) =
      ObjectStorage.completeMultipartUpload t f (π u) parts := rfl

theorem rename_abort (t f : UUID) (u : Nat) :
    rename (uploadRenaming π) (ObjectStorage.abortMultipartUpload t f u) =
      ObjectStorage.abortMultipartUpload t f (π u) := rfl

/-- The id is chosen by S3, and is used for this upload only. -/
theorem noId_assemble : NoId (FinalizeUploadUseCase.assemble v sid) := by
  intro π
  rw [FinalizeUploadUseCase.assemble, rename_initiate]
  congr 1
  funext u
  rw [rename_tryExcept, rename_bind, rename_uploadParts, π.apply_symm_apply]
  congr 1
  · congr 1
    funext parts
    rw [rename_complete, π.apply_symm_apply]
  · funext x
    rw [rename_bind, rename_abort, π.apply_symm_apply]
    congr 1
    funext _
    exact Closed.bind (noId_ask (c := .sessionSave _) trivial) (fun _ => closed_raise _) π

end Upload

/-! ### The requests -/

theorem noId_locked {sid : UUID} {p : Program α} (hp : NoId p) :
    NoId (do
      let locked ← SessionRepository.acquireLock sid RedisSessionRepository.lockTtl
      raiseIf (locked = false) (lockError sid)
      tryFinally p (SessionRepository.releaseLock sid)) := by
  refine Closed.bind (noId_ask (c := .acquireLock _ _) trivial) fun _ => ?_
  refine Closed.bind (closed_raiseIf _ _) fun _ => ?_
  exact Closed.tryFinally hp (noId_ask (c := .releaseLock _) trivial)

/-- No request has an upload id of its own. -/
theorem prog_noId (env : Env) (op : Op) : NoId (Op.prog env op) := by
  -- the calls with an upload id get it from the initiating call
  cases op with
  | initiate newId t f size cs =>
      refine Closed.bind ?_ fun _ => closed_pure _
      refine Closed.bind (noId_ask (c := .getByChecksum _ _) trivial) fun found => ?_
      cases found with
      | some uri => exact closed_pure _
      | none =>
          exact Closed.bind (noId_ask (c := .sessionSave _) trivial) fun _ => closed_pure _
  | uploadChunk sid index cs data =>
      refine Closed.bind ?_ fun _ => closed_pure _
      refine Closed.bind (noId_requireSession sid) fun v => ?_
      refine Closed.bind (closed_raiseIf _ _) fun _ => ?_
      exact noId_locked (noId_process v sid index cs data)
  | finalize sid =>
      refine Closed.bind ?_ fun _ => closed_pure _
      refine Closed.bind (noId_requireSession sid) fun v => ?_
      refine Closed.bind (closed_raiseIf _ _) fun _ => ?_
      refine Closed.bind (closed_raiseIf _ _) fun _ => ?_
      refine Closed.bind (closed_raiseIf _ _) fun _ => ?_
      apply noId_locked
      refine Closed.bind (noId_scan v sid) fun _ => ?_
      exact Closed.bind (noId_assemble v sid) fun s3Uri => noId_publish v sid s3Uri
  | abort sid =>
      refine Closed.bind ?_ fun _ => closed_pure _
      refine Closed.bind (noId_requireSession sid) fun _ => ?_
      apply noId_locked
      refine Closed.bind (noId_ask (c := .deleteAll _) trivial) fun _ => ?_
      exact noId_ask (c := .sessionDelete _) trivial
  | query sid =>
      refine Closed.bind ?_ fun _ => closed_pure _
      exact Closed.bind (noId_requireSession sid) fun _ => closed_pure _

end Programs

/-! ### After a call -/

section Call

variable {α : Type}

/-- A call that is no business of uploads leaves no id to hand on. -/
theorem noId_plain {c : Call} {k : Except Exn c.Resp → Program α} (hplain : c.Plain)
    (h : NoId (Prog.call (S := Collab) c k)) (r : Except Exn c.Resp) : NoId (k r) := by
  intro π
  have heq := h π
  cases c with
  | initiateMultipartUpload t f => exact hplain.elim
  | uploadPart t f u n data => exact hplain.elim
  | completeMultipartUpload t f u parts => exact hplain.elim
  | abortMultipartUpload t f u => exact hplain.elim
  | _ => exact congrFun (eq_of_heq (call.inj heq).2) r

/-- Answered with another id, a request is left with the renamed program. -/
theorem rename_initiated {t f : UUID} {k : Except Exn Nat → Program α}
    (h : NoId (Prog.call (S := Collab) (.initiateMultipartUpload t f) k)) (π : Equiv.Perm Nat)
    (u : Nat) : k (.ok (π u)) = rename (uploadRenaming π) (k (.ok u)) := by
  have hk : rename (uploadRenaming π) (k (.ok (π.symm (π u)))) = k (.ok (π u)) :=
    congrFun (eq_of_heq (call.inj (h π)).2) (.ok (π u))
  rw [π.symm_apply_apply] at hk
  exact hk.symm

/-- No upload, no id. -/
theorem noId_refused {t f : UUID} {k : Except Exn Nat → Program α}
    (h : NoId (Prog.call (S := Collab) (.initiateMultipartUpload t f) k)) (x : Exn) :
    NoId (k (.error x)) := fun π => congrFun (eq_of_heq (call.inj (h π)).2) (.error x)

end Call

/-! ## Answers under other ids -/

section Answers

variable {P : Scope} {w w' : World} {c : Call} {u : Nat} {π : Equiv.Perm Nat}

/-- The upload with this id is not initiated by the call, and no other one is used. -/
def Call.UsesOnly (u : Nat) : Call → Prop
  | .initiateMultipartUpload _ _ => False
  | .uploadPart _ _ v _ _ | .completeMultipartUpload _ _ v _ | .abortMultipartUpload _ _ v => v = u
  | _ => True

theorem named_failed (msg : String) (c : Call) :
    c.named π (failed msg (c.renamed π)) = failed msg c := by
  cases c <;> rfl

/-- Where the same upload has another id, the renamed call is answered alike. -/
theorem respond_renamed (env : Env) (hc : c.About P) (huses : c.UsesOnly u) (h : AgreeOn P w w')
    (hsame : SameUpload w w' u (π u)) :
    c.named π (respond env (c.renamed π) w').1 = (respond env c w).1 ∧
      AgreeOn P (respond env c w).2 (respond env (c.renamed π) w').2 ∧
      SameUpload (respond env c w).2 (respond env (c.renamed π) w').2 u (π u) := by
  by_cases hplain : c.Plain
  · rcases respond_agree env hc hplain h with ⟨hanswer, hagree⟩
    have huploads := (respond_plain env hplain w).1
    have huploads' := (respond_plain env hplain w').1
    have hkept : SameUpload (respond env c w).2 (respond env c w').2 u (π u) := by
      rw [SameUpload, huploads, huploads']
      exact hsame
    cases c with
    | initiateMultipartUpload t f => exact hplain.elim
    | uploadPart t f u n data => exact hplain.elim
    | completeMultipartUpload t f u parts => exact hplain.elim
    | abortMultipartUpload t f u => exact hplain.elim
    | _ => exact ⟨hanswer, hagree, hkept⟩
  -- of the calls about parts only those with this upload id are left
  cases c with
  | initiateMultipartUpload t f => exact huses.elim
  | uploadPart t f v n data =>
      cases huses
      exact respond_uploadPart env t f h hsame n data
  | completeMultipartUpload t f v parts =>
      cases huses
      exact respond_complete env t f h hsame parts
  | abortMultipartUpload t f v =>
      cases huses
      exact ⟨rfl, respond_abort env t f h⟩
  | _ => exact absurd trivial hplain

theorem handle_renamed (env : Env) (hc : c.About P) (huses : c.UsesOnly u) (h : AgreeOn P w w')
    (hsame : SameUpload w w' u (π u)) (out : Outcome) :
    c.named π (handle env out (c.renamed π) w').1 = (handle env out c w).1 ∧
      AgreeOn P (handle env out c w).2 (handle env out (c.renamed π) w').2 ∧
      SameUpload (handle env out c w).2 (handle env out (c.renamed π) w').2 u (π u) := by
  rcases respond_renamed env hc huses h hsame with ⟨hanswer, hagree, hkept⟩
  cases out with
  | works => exact ⟨hanswer, hagree, hkept⟩
  | raises msg => exact ⟨named_failed msg c, h, hsame⟩
  | raisesAfter msg => exact ⟨named_failed msg c, hagree, hkept⟩

end Answers

/-! ## What is left of a request in two runs -/

/-- A request is left with these programs: the same one as long as it has no upload, and
one that differs in the id of its upload then. -/
def Twin (w w' : World) (p p' : Program Response) : Option Nat → Option Nat → Prop
  | none, none => NoId p ∧ p' = p
  | some u, some u' => SameUpload w w' u u' ∧
      ∃ π : Equiv.Perm Nat, π u = u' ∧ p' = rename (uploadRenaming π) p
  | _, _ => False

section Twin

variable {P : Scope} {w w' v v' : World} {p p' : Program Response} {l l' : CommitLocal}
  {c : Call} {k : Except Exn c.Resp → Program Response}

/-- It is in order as long as nobody else uses its upload. -/
theorem Twin.mono {i i' : Option Nat} (h : Twin w w' p p' i i')
    (hkept : ∀ u, i = some u → v.uploads u = w.uploads u)
    (hkept' : ∀ u', i' = some u' → v'.uploads u' = w'.uploads u') : Twin v v' p p' i i' := by
  cases i with
  | none =>
      cases i' with
      | none => exact h
      | some u' => exact h.elim
  | some u =>
      cases i' with
      | none => exact h.elim
      | some u' =>
          rcases h with ⟨hsame, hp⟩
          refine ⟨?_, hp⟩
          rw [SameUpload, hkept u rfl, hkept' u' rfl]
          exact hsame

/-- Both have ended, with the same result, or none has. -/
theorem Twin.done_iff {i i' : Option Nat} (h : Twin w w' p p' i i') (r : Except Exn Response) :
    p = .done r ↔ p' = .done r := by
  cases i with
  | none =>
      cases i' with
      | none => rw [h.2]
      | some u' => exact h.elim
  | some u =>
      cases i' with
      | none => exact h.elim
      | some u' =>
          rcases h with ⟨_, π, _, rfl⟩
          exact (rename_eq_done _).symm

/-- A loop is unrolled in both. -/
theorem Twin.unroll {i i' : Option Nat} {A B : Type} {body : A → Program (A ⊕ B)} {a : A}
    {k : Except Exn B → Program Response} (h : Twin w w' (.iter body a k) p' i i') :
    ∃ (body' : A → Program (A ⊕ B)) (k' : Except Exn B → Program Response),
      p' = .iter body' a k' ∧ Twin w w' (Prog.unroll body a k) (Prog.unroll body' a k') i i' := by
  cases i with
  | none =>
      cases i' with
      | none => exact ⟨body, k, h.2, Closed.unroll h.1, rfl⟩
      | some u' => exact h.elim
  | some u =>
      cases i' with
      | none => exact h.elim
      | some u' =>
          rcases h with ⟨hsame, π, hπ, rfl⟩
          exact ⟨_, _, rfl, hsame, π, hπ, (rename_unroll _ body a k).symm⟩

theorem usesOnly_of_allows {u : Nat} (hallow : l.allows c) (hu : l.uploadId = some u) :
    c.UsesOnly u := by
  cases c with
  | initiateMultipartUpload t f =>
      rcases hallow with ⟨_, hnone, _⟩
      cases hnone.symm.trans hu
  | uploadPart t f v n data =>
      rcases hallow with ⟨_, _, hv, _⟩
      exact Option.some.inj (hv.symm.trans hu)
  | completeMultipartUpload t f v parts =>
      rcases hallow with ⟨_, _, hv, _⟩
      exact Option.some.inj (hv.symm.trans hu)
  | abortMultipartUpload t f v => exact Option.some.inj (hallow.symm.trans hu)
  | _ => trivial

/-- The answer that initiates no upload. -/
theorem initiated_eq_none {u : Nat} (huses : c.UsesOnly u) (r : Except Exn c.Resp) :
    c.initiated r = none := by
  cases c with
  | initiateMultipartUpload t f => exact huses.elim
  | _ => rfl

theorem renamed_usesOnly {u : Nat} {π : Equiv.Perm Nat} (huses : c.UsesOnly u) :
    (c.renamed π).UsesOnly (π u) := by
  cases c with
  | initiateMultipartUpload t f => exact huses.elim
  | uploadPart t f v n data => exact congrArg π huses
  | completeMultipartUpload t f v parts => exact congrArg π huses
  | abortMultipartUpload t f v => exact congrArg π huses
  | _ => trivial

/-- A request without an upload makes the same call in both. -/
theorem twin_call_without (env : Env) (hno : NoId (Prog.call (S := Collab) c k)) (hc : c.About P)
    (hplain : c.Plain ∨ ∃ t f, c = .initiateMultipartUpload t f) (hagree : AgreeOn P w w')
    (out : Outcome) :
    AgreeOn P (handle env out c w).2 (handle env out c w').2 ∧
      Twin (handle env out c w).2 (handle env out c w').2 (k (handle env out c w).1)
        (k (handle env out c w').1) (c.initiated (handle env out c w).1)
        (c.initiated (handle env out c w').1) := by
  rcases hplain with hplain | ⟨t, f, rfl⟩
  · rcases handle_agree env hc hplain hagree out with ⟨hanswer, hagree'⟩
    refine ⟨hagree', ?_⟩
    have hnone : ∀ r, c.initiated r = none := by
      intro r
      cases c with
      | initiateMultipartUpload t f => exact hplain.elim
      | _ => rfl
    rw [hanswer, hnone]
    exact ⟨noId_plain hplain hno _, rfl⟩
  · cases out with
    | works =>
        -- two ids for the same upload
        rcases respond_initiate env t f hagree with ⟨hagree', hsame⟩
        refine ⟨hagree', hsame, Equiv.swap w.nextUploadId w'.nextUploadId,
          Equiv.swap_apply_left _ _, ?_⟩
        have hk := rename_initiated hno (Equiv.swap w.nextUploadId w'.nextUploadId) w.nextUploadId
        rw [Equiv.swap_apply_left] at hk
        exact hk
    | raises msg => exact ⟨hagree, noId_refused hno _, rfl⟩
    | raisesAfter msg =>
        exact ⟨(respond_initiate env t f hagree).1, noId_refused hno _, rfl⟩

/-- Both make the next call, and are left with twins. -/
theorem Twin.call (env : Env) (h : Twin w w' (.call c k) p' l.uploadId l'.uploadId) (hc : c.About P)
    (hallow : l.allows c) (hagree : AgreeOn P w w') (out : Outcome) :
    ∃ (c' : Call) (k' : Except Exn c'.Resp → Program Response),
      p' = .call c' k' ∧ AgreeOn P (handle env out c w).2 (handle env out c' w').2 ∧
      Twin (handle env out c w).2 (handle env out c' w').2 (k (handle env out c w).1)
        (k' (handle env out c' w').1) (l.next c (handle env out c w).1).uploadId
        (l'.next c' (handle env out c' w').1).uploadId := by
  simp only [CommitLocal.next_uploadId]
  -- without an upload both are the same program, with one it is renamed
  cases hi : l.uploadId with
  | none =>
      cases hi' : l'.uploadId with
      | some u' =>
          rw [hi, hi'] at h
          exact h.elim
      | none =>
          rw [hi, hi'] at h
          rcases h with ⟨hno, rfl⟩
          simp only [Option.or_none]
          -- no id is known, so no call about parts can be made
          have hplain : c.Plain ∨ ∃ t f, c = .initiateMultipartUpload t f := by
            have hunused : ∀ u, c.uses ≠ some u := by
              intro u hu
              cases hi.symm.trans (uses_eq hallow hu)
            cases c with
            | initiateMultipartUpload t f => exact Or.inr ⟨t, f, rfl⟩
            | uploadPart t f u n data => exact absurd rfl (hunused u)
            | completeMultipartUpload t f u parts => exact absurd rfl (hunused u)
            | abortMultipartUpload t f u => exact absurd rfl (hunused u)
            | _ => exact Or.inl trivial
          exact ⟨c, k, rfl, twin_call_without env hno hc hplain hagree out⟩
  | some u =>
      cases hi' : l'.uploadId with
      | none =>
          rw [hi, hi'] at h
          exact h.elim
      | some u' =>
          rw [hi, hi'] at h
          rcases h with ⟨hsame, π, rfl, rfl⟩
          have huses := usesOnly_of_allows hallow hi
          rcases handle_renamed env hc huses hagree hsame out with
            ⟨hanswer, hagree', hsame'⟩
          refine ⟨c.renamed π, _, rfl, hagree', ?_⟩
          rw [initiated_eq_none huses, initiated_eq_none (renamed_usesOnly huses)]
          refine ⟨hsame', π, rfl, ?_⟩
          rw [← hanswer]
          rfl

end Twin

end FileUploader
