import FileUploader.Assembly
import FileUploader.Footprint

/-! # Open multipart uploads

S3 keeps the parts of a multipart upload until it is completed or aborted. A finalize that
fails aborts its upload, so that none should be left behind. Of what is open in S3 at any time
of any run, everything is accounted for: it is in the hands of one finalize that has not ended,
or the answer that should have told its id was lost, or the call to abort it, which never
raises.
-/

namespace FileUploader

open Await Prog

variable {env : Env}

/-! ## The upload in the hands of a request -/

/-- The upload that a request has opened and not closed, after one more call. -/
def Call.holds (held : Option Nat) : (c : Call) → Except Exn c.Resp → Option Nat
  | .initiateMultipartUpload _ _, .ok u => some u
  | .completeMultipartUpload .., .ok _ => none
  | .abortMultipartUpload .., _ => none
  | _, _ => held

structure UploadLocal where
  op : Op
  held : Option Nat

namespace UploadLocal

def next (l : UploadLocal) (c : Call) (r : Except Exn c.Resp) : UploadLocal :=
  { l with held := c.holds l.held r }

/-- One upload at a time, which only its owner closes. -/
def allows (l : UploadLocal) : Call → Prop
  | .initiateMultipartUpload _ _ => l.held = none ∧ ∃ sid, l.op = .finalize sid
  | .completeMultipartUpload _ _ u _ | .abortMultipartUpload _ _ u => l.held = some u
  | _ => True

end UploadLocal

def uploadDiscipline : Discipline Collab UploadLocal where
  next := UploadLocal.next
  allows := UploadLocal.allows
  expects := fun _ _ _ => True
  loops := fun _ => True

@[simp] theorem uploadDiscipline_next : uploadDiscipline.next = UploadLocal.next := rfl

@[simp] theorem uploadDiscipline_allows : uploadDiscipline.allows = UploadLocal.allows := rfl

/-- The call neither opens an upload nor closes one. -/
def Call.leavesUploads : Call → Bool
  | .initiateMultipartUpload .. | .completeMultipartUpload .. | .abortMultipartUpload .. => false
  | _ => true

/-- What makes no such calls keeps the upload that it has. -/
theorem keeps_upload {α : Type} {p : Program α} (h : Makes (fun c : Call => c.leavesUploads) p)
    (l : UploadLocal) : Obeys uploadDiscipline p l (fun _ l' => l' = l) := by
  refine h.obeys ?_ ?_ trivial
  · intro c hc
    cases c with
    | initiateMultipartUpload t f => cases hc
    | completeMultipartUpload t f u parts => cases hc
    | abortMultipartUpload t f u => cases hc
    | _ => trivial
  · intro c r hc
    cases c with
    | initiateMultipartUpload t f => cases hc
    | completeMultipartUpload t f u parts => cases hc
    | abortMultipartUpload t f u => cases hc
    | _ => rfl

/-! ## The programs close what they open -/

section Parts

variable {s : UploadSession} {sid : UUID} {l : UploadLocal}

/-- The assembly ends as it began: it holds no upload. -/
theorem assemble_closes (hop : l.op = .finalize sid) (hheld : l.held = none) :
    Obeys uploadDiscipline (FinalizeUploadUseCase.assemble s sid) l (fun _ l' => l' = l) := by
  have hsame : ∀ {held}, ({ l with held := held } : UploadLocal).held = none →
      ({ l with held := held } : UploadLocal) = l := by
    intro held hnone
    rw [← hheld] at hnone
    cases l
    cases hnone
    rfl
  simp only [FinalizeUploadUseCase.assemble, ObjectStorage.initiateMultipartUpload,
    ObjectStorage.completeMultipartUpload, obeys_bind, obeys_await, Prog.onOk_ok, Prog.onOk_error,
    obeys_raise, obeys_tryExcept, uploadDiscipline_allows, uploadDiscipline_next]
  refine ⟨⟨hheld, sid, hop⟩, fun x _ => rfl, ?_⟩
  intro u _
  -- whatever goes wrong, the upload is aborted
  have hgiveUp : ∀ x : Exn, Obeys uploadDiscipline (do
      ObjectStorage.abortMultipartUpload s.tenantId s.fileId u
      SessionRepository.save s.fail
      raise (.runtimeError s!"S3 Multipart upload failed: {x.str}") : Program String)
      { l with held := some u } (fun _ l' => l' = l) := by
    intro x
    simp only [ObjectStorage.abortMultipartUpload, SessionRepository.save, obeys_bind, obeys_await,
      Prog.onOk_ok, Prog.onOk_error, obeys_raise, uploadDiscipline_allows, uploadDiscipline_next]
    exact ⟨rfl, fun _ _ => hsame rfl, fun _ _ => ⟨trivial, fun _ _ => hsame rfl,
      fun _ _ => hsame rfl⟩⟩
  have hparts : Makes (fun c : Call => c.leavesUploads)
      (FinalizeUploadUseCase.uploadParts s sid u) :=
    uploadParts_makes (fun _ => rfl) (fun _ _ => rfl)
  refine (keeps_upload hparts _).mono ?_
  rintro r _ rfl
  cases r with
  | error x => exact hgiveUp x
  | ok parts =>
      rw [Prog.onOk_ok, obeys_await]
      refine ⟨rfl, ?_, ?_⟩
      · intro x _
        exact hgiveUp x
      · intro s3Uri _
        exact hsame rfl

/-- A finalize that ends holds no upload. -/
theorem finalize_closes (env : Env) (sid : UUID) :
    Obeys uploadDiscipline (Op.prog env (.finalize sid)) ⟨.finalize sid, none⟩
      (fun _ l => l.held = none) := by
  -- the lock is released at last, which closes nothing
  have hrelease : ∀ r : Except Exn String,
      Obeys uploadDiscipline (SessionRepository.releaseLock sid) ⟨.finalize sid, none⟩
        (fun r' l' => Obeys uploadDiscipline (Prog.onOk (fun _ => .done r) r') l' (fun r'' l'' =>
          Obeys uploadDiscipline (Prog.onOk (fun uri => pure (Response.finalized uri)) r'')
            l'' fun _ l => l.held = none)) := by
    intro r
    rw [SessionRepository.releaseLock, obeys_await]
    refine ⟨trivial, fun _ _ => rfl, fun _ _ => ?_⟩
    cases r with
    | error x => rfl
    | ok uri => rfl
  simp only [Op.prog, FinalizeUploadUseCase.execute, requireSession, SessionRepository.get,
    SessionRepository.acquireLock, obeys_bind, obeys_await, obeys_raiseIf, obeys_tryFinally,
    Prog.onOk_ok, Prog.onOk_error, obeys_raise, obeys_pure, Option.forall, Bool.forall_bool,
    uploadDiscipline_allows, uploadDiscipline_next]
  refine ⟨trivial, fun _ _ => rfl, fun _ => rfl, fun s _ => ?_⟩
  refine ⟨fun _ => rfl, fun _ => ⟨fun _ => rfl, fun _ => ⟨fun _ => rfl, fun _ => ?_⟩⟩⟩
  refine ⟨trivial, fun _ _ => rfl, fun _ => ⟨fun _ => rfl, fun h => absurd trivial h⟩, fun _ => ?_⟩
  refine ⟨fun _ => rfl, fun _ => ?_⟩
  -- in the critical section
  refine (keeps_upload (scan_makes (fun _ => rfl) rfl rfl rfl) _).mono ?_
  rintro r _ rfl
  cases r with
  | error x => exact hrelease _
  | ok clean =>
      rw [Prog.onOk_ok, obeys_bind]
      refine (assemble_closes rfl rfl).mono ?_
      rintro r _ rfl
      cases r with
      | error x => exact hrelease _
      | ok uri =>
          refine (keeps_upload (publish_makes rfl (fun _ => rfl) rfl rfl) _).mono ?_
          rintro r _ rfl
          exact hrelease r

/-- When a request has ended, it has closed what it has opened. -/
theorem prog_closes (env : Env) (op : Op) :
    Obeys uploadDiscipline (Op.prog env op) ⟨op, none⟩ (fun _ l => l.held = none) := by
  have hkeeps : Makes (fun c : Call => c.leavesUploads) (Op.prog env op) →
      Obeys uploadDiscipline (Op.prog env op) ⟨op, none⟩ (fun _ l => l.held = none) := by
    intro h
    refine (keeps_upload h _).mono ?_
    rintro _ _ rfl
    rfl
  cases op with
  | initiate newId t f size cs => exact hkeeps (initiate_makes rfl rfl)
  | uploadChunk sid index cs data =>
      exact hkeeps (upload_makes rfl rfl rfl (fun _ => rfl) fun _ => rfl)
  | finalize sid => exact finalize_closes env sid
  | abort sid => exact hkeeps (abort_makes rfl rfl rfl rfl rfl)
  | query sid => exact hkeeps (query_makes rfl)

end Parts

/-! ## What S3 has open -/

section World

variable {env : Env} {out : Outcome} {c : Call} {w : World} {u : Nat}

/-- What becomes open has just been initiated. -/
theorem handle_opened (hclosed : w.uploads u = none)
    (hopen : ((handle env out c w).2.uploads u).isSome) :
    (∃ t f, c = .initiateMultipartUpload t f) ∧ u = w.nextUploadId ∧
      (handle env out c w).2.nextUploadId = u + 1 := by
  -- a call that leaves the uploads as they are opens none
  have hsame : (handle env out c w).2.uploads u ≠ w.uploads u := by
    intro hsame
    rw [hsame, hclosed] at hopen
    cases hopen
  rcases handle_world env out c w with h | h
  · exact absurd (by rw [h]) hsame
  rw [h] at hsame hopen ⊢
  cases c with
  | initiateMultipartUpload t f =>
      have hu : u = w.nextUploadId := by
        by_contra hne
        exact hsame (Function.update_of_ne hne _ _)
      subst hu
      exact ⟨⟨t, f, rfl⟩, rfl, rfl⟩
  | uploadPart t f u' n data =>
      refine absurd ?_ hsame
      rcases S3ObjectStorage.uploadPart_cases env w t f u' n data with ⟨_, h⟩ | ⟨upload, hup, _, h⟩
      · rw [respond, h]
      · have hne : u ≠ u' := by
          intro hu
          rw [hu, hup] at hclosed
          cases hclosed
        rw [respond, h]
        exact Function.update_of_ne hne _ _
  | completeMultipartUpload t f u' parts =>
      refine absurd ?_ hsame
      rcases S3ObjectStorage.completeMultipartUpload_cases env w t f u' parts with
        ⟨_, h⟩ | ⟨upload, _, hup, _, _, _, h⟩
      · rw [respond, h]
      · have hne : u ≠ u' := by
          intro hu
          rw [hu, hup] at hclosed
          cases hclosed
        rw [respond, h]
        exact Function.update_of_ne hne _ _
  | abortMultipartUpload t f u' =>
      by_cases hu : u = u'
      · subst hu
        refine absurd hopen ?_
        simp [respond, S3ObjectStorage.abortMultipartUpload]
      · exact absurd (Function.update_of_ne hu _ _) hsame
  | acquireLock sid ttl =>
      rcases RedisSessionRepository.acquireLock_frame w sid ttl with ⟨_, h⟩
      exact absurd (by rw [respond, h]) hsame
  | _ => exact absurd rfl hsame

/-- An upload that S3 says is completed is not open any more. -/
theorem uploads_completed {t f : UUID} {parts : List Part} {s3Uri : String}
    (h : (handle env out (.completeMultipartUpload t f u parts) w).1 = .ok s3Uri) :
    (handle env out (.completeMultipartUpload t f u parts) w).2.uploads u = none := by
  cases out with
  | works =>
      rcases S3ObjectStorage.completeMultipartUpload_cases env w t f u parts with
        ⟨_, hc⟩ | ⟨_, _, _, _, _, _, hc⟩
      · simp [handle, respond, hc] at h
      · simp [handle, respond, hc]
  | raises msg => simp [handle, failed] at h
  | raisesAfter msg => simp [handle, failed] at h

/-- An upload that is held after a call was opened by it, or held before. -/
theorem Call.holds_eq_some {held : Option Nat} {r : Except Exn c.Resp}
    (h : c.holds held r = some u) : c.initiated r = some u ∨ held = some u := by
  unfold Call.holds at h
  split at h
  · exact Or.inl h
  · cases h
  · cases h
  · exact Or.inr h

end World

/-! ## The invariant -/

/-- The upload that request `i` has opened and not closed. -/
def heldBy (i : Nat) (log : Log env) : Option Nat :=
  (callsOf i log).foldl (fun held e => e.call.holds held e.resp) none

/-- The call that opened this upload raised, and its answer is lost. -/
def LostAnswer (u : Nat) (log : Log env) : Prop :=
  ∃ before e after, log = before ++ e :: after ∧ (∃ t f, e.call = .initiateMultipartUpload t f) ∧
    (∃ x, e.resp = .error x) ∧ (e.world.uploads u).isSome ∧
    ∀ e' ∈ before, e'.world.uploads u = none

/-- A call to abort this upload has left it open. -/
def LostAbort (u : Nat) (log : Log env) : Prop :=
  ∃ e ∈ log, (∃ t f, e.call = .abortMultipartUpload t f u) ∧ (e.world.uploads u).isSome

theorem LostAnswer.append {u : Nat} {log : Log env} (h : LostAnswer u log)
    (e : Entry (service env)) : LostAnswer u (log ++ [e]) := by
  rcases h with ⟨before, e', after, rfl, hrest⟩
  exact ⟨before, e', after ++ [e], by simp, hrest⟩

theorem LostAbort.append {u : Nat} {log : Log env} (h : LostAbort u log)
    (e : Entry (service env)) : LostAbort u (log ++ [e]) := by
  rcases h with ⟨e', hmem, hrest⟩
  exact ⟨e', List.mem_append_left _ hmem, hrest⟩

/-- Uploads belong to one finalize each, and what is open is accounted for. -/
structure UploadsAccounted (s : Scene (service env)) : Prop where
  unused : ∀ u, s.world.nextUploadId ≤ u → s.world.uploads u = none
  past : ∀ e ∈ s.log, ∀ u, s.world.nextUploadId ≤ u → e.world.uploads u = none
  held : ∀ i u, heldBy i s.log = some u →
    u < s.world.nextUploadId ∧ ∃ sid, s.ops[i]? = some (.finalize sid)
  own : ∀ i j u, heldBy i s.log = some u → heldBy j s.log = some u → i = j
  accounted : ∀ u, (s.world.uploads u).isSome →
    (∃ i, heldBy i s.log = some u) ∨ LostAnswer u s.log ∨ LostAbort u s.log

section Step

variable {s : Scene (service env)} {i : Nat} {op : Op} {cl : Call} {out : Outcome}

/-- What a request holds can be read off its calls. -/
theorem replay_held (l : UploadLocal) (calls : Log env) : uploadDiscipline.replay l calls =
    ⟨l.op, calls.foldl (fun held e => e.call.holds held e.resp) l.held⟩ := by
  induction calls generalizing l with
  | nil => rfl
  | cons e calls ih => exact ih (l.next e.call e.resp)

theorem localOf_held (s : Scene (service env)) (i : Nat) (op : Op) :
    s.localOf uploadDiscipline (fun op => ⟨op, none⟩) i op = ⟨op, heldBy i s.log⟩ :=
  replay_held _ _

theorem heldBy_answer_self : heldBy i (s.answer i cl out).log =
    cl.holds (heldBy i s.log) (handle env out cl s.world).1 := by
  rw [heldBy, callsOf_answer_self, List.foldl_append]
  rfl

theorem heldBy_answer_other {j : Nat} (hj : j ≠ i) :
    heldBy j (s.answer i cl out).log = heldBy j s.log := by
  rw [heldBy, callsOf_answer_other s i cl out hj]
  rfl

/-- An upload that is held after a call was held before, or has a new id and is the caller's. -/
theorem heldBy_answer {j u : Nat} (h : heldBy j (s.answer i cl out).log = some u) :
    heldBy j s.log = some u ∨
      j = i ∧ (∃ t f, cl = .initiateMultipartUpload t f) ∧ u = s.world.nextUploadId ∧
        (handle env out cl s.world).2.nextUploadId = u + 1 := by
  by_cases hj : j = i
  · subst hj
    rw [heldBy_answer_self] at h
    rcases Call.holds_eq_some h with hinit | hold
    · rcases handle_initiated env out cl s.world hinit with ⟨hfresh, hnext, _⟩
      refine Or.inr ⟨rfl, ?_, hfresh, hnext⟩
      cases cl with
      | initiateMultipartUpload t f => exact ⟨t, f, rfl⟩
      | _ => simp [Call.initiated] at hinit
    · exact Or.inl hold
  · rw [heldBy_answer_other hj] at h
    exact Or.inl h

/-- An upload that is still open after a call of the request that has it: it has it still, or
has tried in vain to abort it. -/
theorem still_held {u : Nat} (hheld : heldBy i s.log = some u)
    (hallow : UploadLocal.allows ⟨op, heldBy i s.log⟩ cl)
    (hopen : ((handle env out cl s.world).2.uploads u).isSome) :
    heldBy i (s.answer i cl out).log = some u ∨ LostAbort u (s.answer i cl out).log := by
  rw [heldBy_answer_self, hheld]
  cases cl with
  | initiateMultipartUpload t f =>
      have hnone : heldBy i s.log = none := hallow.1
      rw [hheld] at hnone
      cases hnone
  | completeMultipartUpload t f u' parts =>
      have hown : heldBy i s.log = some u' := hallow
      rw [hheld] at hown
      cases hown
      cases hr : (handle env out (.completeMultipartUpload t f u parts) s.world).1 with
      | error x => exact Or.inl rfl
      | ok s3Uri =>
          rw [uploads_completed hr] at hopen
          cases hopen
  | abortMultipartUpload t f u' =>
      have hown : heldBy i s.log = some u' := hallow
      rw [hheld] at hown
      cases hown
      exact Or.inr ⟨_, List.mem_append_right _ (List.mem_singleton_self _), ⟨t, f, rfl⟩, hopen⟩
  | _ => exact Or.inl rfl

/-- One call keeps every open upload accounted for. -/
theorem UploadsAccounted.answer (h : UploadsAccounted s) (hop : s.ops[i]? = some op)
    (hallow : UploadLocal.allows ⟨op, heldBy i s.log⟩ cl) :
    UploadsAccounted (s.answer i cl out) := by
  have hgrows : s.world.nextUploadId ≤ (handle env out cl s.world).2.nextUploadId :=
    handle_nextUploadId env out cl s.world
  have hunused : ∀ u, (handle env out cl s.world).2.nextUploadId ≤ u →
      (handle env out cl s.world).2.uploads u = none := by
    intro u hu
    by_contra hopen
    rcases handle_opened (h.unused u (Nat.le_trans hgrows hu))
      (Option.isSome_iff_ne_none.2 hopen) with ⟨_, _, hnext⟩
    omega
  refine ⟨hunused, ?_, ?_, ?_, ?_⟩
  · intro e he u hu
    rcases List.mem_append.1 he with he | he
    · exact h.past e he u (Nat.le_trans hgrows hu)
    · rw [List.mem_singleton.1 he]
      exact hunused u hu
  · intro j u hj
    rcases heldBy_answer hj with hold | ⟨rfl, ⟨t, f, rfl⟩, _, hnext⟩
    · exact ⟨Nat.lt_of_lt_of_le (h.held j u hold).1 hgrows, (h.held j u hold).2⟩
    · rcases hallow with ⟨_, sid, hfin⟩
      have hfin : op = .finalize sid := hfin
      refine ⟨?_, sid, hfin ▸ hop⟩
      show u < (handle env out _ s.world).2.nextUploadId
      omega
  · intro j k u hj hk
    rcases heldBy_answer hj with hold | ⟨rfl, _, hnew, _⟩
    · rcases heldBy_answer hk with hold' | ⟨rfl, _, hnew, _⟩
      · exact h.own j k u hold hold'
      · have hlt := (h.held j u hold).1
        omega
    · rcases heldBy_answer hk with hold | ⟨rfl, _, _, _⟩
      · have hlt := (h.held k u hold).1
        omega
      · rfl
  · intro u hopen
    have hopen : ((handle env out cl s.world).2.uploads u).isSome := hopen
    cases hbefore : s.world.uploads u with
    | none =>
        -- it has just been opened
        rcases handle_opened hbefore hopen with ⟨⟨t, f, rfl⟩, hu, _⟩
        cases hr : (handle env out (.initiateMultipartUpload t f) s.world).1 with
        | error x =>
            refine Or.inr (Or.inl ⟨s.log, _, [], rfl, ⟨t, f, rfl⟩, ⟨x, hr⟩, hopen, ?_⟩)
            intro e he
            exact h.past e he u (Nat.le_of_eq hu.symm)
        | ok u' =>
            have hinit : (Call.initiateMultipartUpload t f).initiated
                (handle env out (.initiateMultipartUpload t f) s.world).1 = some u' := by
              rw [hr]
              rfl
            have hu' := (handle_initiated env out _ s.world hinit).1
            refine Or.inl ⟨i, ?_⟩
            rw [heldBy_answer_self, hr, hu, ← hu']
            rfl
    | some upload =>
        rcases h.accounted u (by rw [hbefore]; rfl) with ⟨j, hheld⟩ | hlost | hlost
        · by_cases hj : j = i
          · subst hj
            rcases still_held hheld hallow hopen with hstill | hlost
            · exact Or.inl ⟨j, hstill⟩
            · exact Or.inr (Or.inr hlost)
          · exact Or.inl ⟨j, (heldBy_answer_other hj).trans hheld⟩
        · exact Or.inr (Or.inl (hlost.append _))
        · exact Or.inr (Or.inr (hlost.append _))

end Step

theorem uploadsAccounted_inductive (G : Run env → Label (service env) → Prop) :
    Inductive uploadDiscipline (fun op => ⟨op, none⟩) G fun s => UploadsAccounted s where
  spawn := by
    intro c op _ hwf h
    refine ⟨h.unused, h.past, ?_, h.own, h.accounted⟩
    intro i u hheld
    rcases h.held i u hheld with ⟨hlt, sid, hfin⟩
    refine ⟨hlt, sid, ?_⟩
    have hi := (List.getElem?_eq_some_iff.1 hfin).1
    exact (List.getElem?_append_left hi).trans hfin
  move := fun _ _ _ h => ⟨h.unused, h.past, h.held, h.own, h.accounted⟩
  call := by
    intro c i op cl out _ hop _ h hallow
    rw [uploadDiscipline_allows, localOf_held] at hallow
    exact ⟨trivial, h.answer hop hallow⟩

theorem uploadsAccounted_empty (env : Env) (now : Nat) :
    UploadsAccounted (⟨World.empty now, [], []⟩ : Scene (service env)) where
  unused := fun _ _ => rfl
  past := fun _ he => by cases he
  held := fun _ _ hheld => by cases hheld
  own := fun _ _ _ hheld => by cases hheld
  accounted := fun _ hopen => by cases hopen

/-- In every run, with any interleaving, delays and failures, every multipart upload that is
open in S3 is in the hands of one finalize, which has not ended; or the answer to the call that
opened it was lost; or a call to abort it has not reached S3. -/
theorem open_uploads {now : Nat} {c : Run env}
    (h : Reach (fun _ _ => True) (Config.start (World.empty now)) c) {u : Nat}
    (hopen : (c.world.uploads u).isSome) :
    (∃ i sid, c.ops[i]? = some (.finalize sid) ∧ c.result i = none ∧
      heldBy i c.log = some u ∧ ∀ j, heldBy j c.log = some u → j = i) ∨
      LostAnswer u c.log ∨ LostAbort u c.log := by
  rcases h.invariant (fun _ _ l => l.held = none) (fun _ op _ => prog_closes env op)
    (uploadsAccounted_inductive _) (uploadsAccounted_empty env now) with ⟨_, hinv, hobeys⟩
  rcases hinv.accounted u hopen with ⟨i, hheld⟩ | hlost
  · rcases (hinv.held i u hheld).2 with ⟨sid, hop⟩
    have hop : c.ops[i]? = some (.finalize sid) := hop
    refine Or.inl ⟨i, sid, hop, ?_, hheld, fun j hj => hinv.own j i u hj hheld⟩
    -- a request that has ended has no upload
    cases hresult : c.result i with
    | none => rfl
    | some r =>
        have hended := hobeys i _ _ (request_of_result hop hresult)
        rw [localOf_held] at hended
        have hended : heldBy i c.scene.log = none := hended
        rw [hheld] at hended
        cases hended
  · exact Or.inr hlost

namespace Demo

/-- A session of one byte, uploaded; its finalize has got an upload id. -/
def assembling : List (Label (service Demo.env)) :=
  [.spawn (.initiate sid tenant file 1 (sha256 a))] ++ calls 0 2 ++
    [.spawn (.uploadChunk sid 0 (sha256 a) a)] ++ calls 1 5 ++
    [.spawn (.finalize sid)] ++ scanning 2 1 ++ calls 2 1

end Demo

/-- The upload of a finalize that is assembling its parts, and one that nobody knows of: the
answer of S3 to a second finalize, which has outlived the lock of the first, is lost. -/
theorem open_uploads_demo : ∃ c : Run Demo.env,
    Reach (fun _ _ => True) (Config.start (World.empty 0)) c ∧ heldBy 2 c.log = some 0 ∧
      ((∃ i sid, c.ops[i]? = some (.finalize sid) ∧ c.result i = none ∧
        heldBy i c.log = some 1 ∧ ∀ j, heldBy j c.log = some 1 → j = i) ∨
        LostAnswer 1 c.log ∨ LostAbort 1 c.log) := by
  have h : ((Config.start (World.empty 0)).play (fun _ _ => true)
      (Demo.assembling ++ .move 10000 :: .spawn (.finalize Demo.sid) :: Demo.scanning 3 1 ++
        [.call 3 (.raisesAfter "timeout"), .call 3 .works])).any (fun c =>
          heldBy 2 c.log = some 0 ∧ (c.world.uploads 1).isSome ∧ (c.result 3).isSome) = true := by
    decide +kernel
  rcases exists_of_play (fun _ _ _ => trivial) _ h with ⟨c, hc, hcheck⟩
  simp only [decide_eq_true_eq] at hcheck
  exact ⟨c, hc, hcheck.1, open_uploads hc hcheck.2.1⟩

end FileUploader
