import FileUploader.Presentation.Uploads
import FileUploader.Serial
import FileUploader.Tenancy

/-! # Requests of other tenants

Only `initiate_upload` asks who is calling. A request that names a session in its URL is
served whoever sends it; one that does not name a session of another tenant leaves all of
them alone, and cannot tell whether they exist.
-/

namespace FileUploader

open Await Prog S3ObjectStorage

variable {env : Env}

/-- Every call goes through or fails. -/
def anyAnswer (env : Env) : Answers Collab World := fun c w r w' =>
  ∃ out, r = (handle env out c w).1 ∧ w' = (handle env out c w).2

/-! ## Answers that are the same elsewhere -/

/-- The worlds agree on the scope, and on what S3 has open. -/
structure Matches (P : Scope) (w w' : World) : Prop where
  agree : AgreeOn P w w'
  uploads : w'.uploads = w.uploads
  nextUploadId : w'.nextUploadId = w.nextUploadId

section Matches

variable {P : Scope} {w w' : World} {c : Call}

theorem Matches.symm (h : Matches P w w') : Matches P w' w :=
  ⟨h.agree.symm, h.uploads.symm, h.nextUploadId.symm⟩

/-- A call about the scope answers the same in worlds that match there. -/
theorem Matches.respond (env : Env) (hc : c.About P) (h : Matches P w w') :
    (respond env c w').1 = (respond env c w).1 ∧
      Matches P (respond env c w).2 (respond env c w').2 := by
  have hsame : ∀ u, SameUpload w w' u u := fun u => congrFun h.uploads u
  by_cases hplain : c.Plain
  · rcases respond_agree env hc hplain h.agree with ⟨hanswer, hagree⟩
    rcases respond_plain env hplain w with ⟨hu, hn⟩
    rcases respond_plain env hplain w' with ⟨hu', hn'⟩
    exact ⟨hanswer, hagree, by rw [hu, hu', h.uploads], by rw [hn, hn', h.nextUploadId]⟩
  -- what is left are the calls about parts, with the same upload id here and there
  cases c with
  | initiateMultipartUpload t f =>
      refine ⟨?_, (respond_initiate env t f h.agree).1, ?_, ?_⟩
      · simp only [FileUploader.respond, initiateMultipartUpload, h.nextUploadId]
      · simp only [FileUploader.respond, initiateMultipartUpload, h.nextUploadId, h.uploads]
      · simp only [FileUploader.respond, initiateMultipartUpload, h.nextUploadId]
  | uploadPart t f u n data =>
      rcases respond_uploadPart env t f h.agree (hsame u) n data with
        ⟨hanswer, hagree, _⟩
      refine ⟨hanswer, hagree, ?_, ?_⟩
      all_goals
        simp only [FileUploader.respond, uploadPart, h.uploads]
        split
        · simp only [h.uploads, h.nextUploadId]
        · split <;> simp only [h.uploads, h.nextUploadId]
  | completeMultipartUpload t f u parts =>
      rcases respond_complete env t f h.agree (hsame u) parts with
        ⟨hanswer, hagree, _⟩
      refine ⟨hanswer, hagree, ?_, ?_⟩
      all_goals
        simp only [FileUploader.respond, completeMultipartUpload, h.uploads]
        split
        · simp only [h.uploads, h.nextUploadId]
        · split
          · split
            · simp only [h.uploads, h.nextUploadId]
            · split <;> simp only [h.uploads, h.nextUploadId]
          · simp only [h.uploads, h.nextUploadId]
  | abortMultipartUpload t f u =>
      refine ⟨rfl, (respond_abort env t f h.agree).1, ?_, h.nextUploadId⟩
      simp only [FileUploader.respond, abortMultipartUpload, h.uploads]
  | _ => exact absurd trivial hplain

/-- So does a call that may fail. -/
theorem Matches.handle (env : Env) (hc : c.About P) (h : Matches P w w') (out : Outcome) :
    (handle env out c w').1 = (handle env out c w).1 ∧
      Matches P (handle env out c w).2 (handle env out c w').2 := by
  rcases h.respond env hc with ⟨hanswer, hmatches⟩
  cases out with
  | works => exact ⟨hanswer, hmatches⟩
  | raises msg => exact ⟨rfl, h⟩
  | raisesAfter msg => exact ⟨rfl, hmatches⟩

end Matches

/-- What a request has heard of its session. -/
structure LookupLocal where
  target : Option UUID
  read : Bool
  missing : Bool

/-- It is not an `EntityNotFoundError`. -/
def Exn.Other (x : Exn) : Prop := x.isA .entityNotFoundError = false

def lookupDiscipline : Discipline Collab LookupLocal where
  next := fun l c r =>
    match c, r with
    | .sessionGet _, .ok none => { l with read := true, missing := true }
    | .sessionGet _, _ => { l with read := true }
    | _, _ => l
  allows := fun l c =>
    match c with
    | .sessionGet sid => l.read = false ∧ l.target = some sid
    | _ => l.read = true
  expects := fun _ _ r => ∀ x, r = .error x → x.Other
  loops := fun _ => True

/-- Ends in the state it started in, and raises nothing but `Other` exceptions. -/
def Found {α : Type} (l : LookupLocal) (r : Except Exn α) (l' : LookupLocal) : Prop :=
  l' = l ∧ ∀ x, r = .error x → x.Other

section Lookup

variable {l : LookupLocal}

/-- An `EntityNotFoundError` tells that no session has been found. -/
def LookupPost {α : Type} (r : Except Exn α) (l : LookupLocal) : Prop :=
  ∀ x, r = .error x → ¬ x.Other → l.missing = true

/-- A session that is read, and what is done with it. -/
theorem requireSession_obeys {α : Type} {sid : UUID} {f : UploadSession → Program α}
    (hf : ∀ v, Obeys lookupDiscipline (f v) ⟨some sid, true, false⟩
      (Found ⟨some sid, true, false⟩)) :
    Obeys lookupDiscipline (requireSession sid >>= f) ⟨some sid, false, false⟩ LookupPost := by
  rw [requireSession, SessionRepository.get, obeys_bind, obeys_bind]
  refine (obeys_await (S := Collab) _ _ _).2 ⟨⟨rfl, rfl⟩, ?_, ?_⟩
  · intro x hx y hy hother
    cases hy
    exact absurd (hx x rfl) hother
  · intro stored _
    cases stored with
    | none => exact fun _ _ _ => rfl
    | some v =>
        refine (hf v).mono ?_
        intro r l h x hx hother
        exact absurd (h.2 x hx) hother

theorem LookupPost.map {α β : Type} {p : Program α} {f : α → β}
    (h : Obeys lookupDiscipline p l LookupPost) :
    Obeys lookupDiscipline (do let a ← p; pure (f a)) l LookupPost := by
  rw [obeys_bind]
  refine h.mono ?_
  rintro (x | a) l' hpost
  · exact fun y hy => hpost y (by cases hy; rfl)
  · exact fun y hy => by cases hy

end Lookup

/-- The request is answered with `response`, and leaves `w'`. -/
def HttpRequest.Serves (request : HttpRequest) (gateway : Gateway) (env : Env) (w : World)
    (response : HttpResponse) (w' : World) : Prop :=
  Exec (anyAnswer env) (request.handler gateway env) w (.ok response) w'

/-- The session does not exist: its key, its lock and its chunks are gone. -/
def World.without (w : World) (sid : UUID) : World :=
  { w with
    sessions := w.sessions.erase sid
    locks := w.locks.erase sid
    chunks := w.chunks.eraseAll fun k => k.1 = sid
    chunkMetas := w.chunkMetas.eraseAll fun k => k.1 = sid }

section Isolated

variable {w : World} {op : Op} {request : HttpRequest} {gateway : Gateway}

end Isolated

namespace Demo

/-- No header is refused; there is no `jwt` to decode other tokens with. -/
def gateway : Gateway where
  security := fun authorization =>
    match authorization with
    | none => .error ⟨403, .detail "Not authenticated"⟩
    | some header => .ok (String.ofList (header.toList.drop "Bearer ".toList.length))
  jwtTenantId := fun _ => none

end Demo

end FileUploader
