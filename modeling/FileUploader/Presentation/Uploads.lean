import FileUploader.Service
import FileUploader.Infrastructure.Keys

/-! # The upload routes

The five endpoints under `/v1/uploads`: who is asking (`get_tenant_id`), which use case is
run, and how its result and its exceptions become responses. A handler is a program that
ends with a response; requests arrive after FastAPI has parsed and validated them.
-/

namespace FileUploader

open Await Prog

/-! ## Responses -/

/-- The content of a response. -/
inductive Content where
  | initiated (uploadSessionId : Option UUID) (s3Uri : Option String) (deduplicated : Bool)
  | progress (currentOffset : Int) (status : String)
  /-- The JSON of the query, whose headers repeat it. -/
  | report (report : SessionReport)
  | finalized (s3Uri : String)
  | detail (msg : String)
  | text (msg : String)
  | empty
deriving DecidableEq

structure HttpResponse where
  statusCode : Nat
  content : Content
deriving DecidableEq

/-- `HTTPException(status_code, detail=str(e))` -/
def httpException (statusCode : Nat) (x : Exn) : HttpResponse := ⟨statusCode, .detail x.str⟩

/-- The answer of Starlette to an exception that nobody handles. -/
def internalServerError : HttpResponse := ⟨500, .text "Internal Server Error"⟩

/-! ## Exceptions and their handlers -/

/-- The classes that are caught by name. -/
inductive ExnClass where
  | domainError
  | entityNotFoundError
  | validationError
  | checksumMismatchError
  | malwareDetectedError
  | lockAcquisitionError
deriving DecidableEq

/-- `isinstance(x, cls)` -/
def Exn.isA : Exn → ExnClass → Bool
  | .entityNotFoundError _ _, cls => cls ∈ [.entityNotFoundError, .domainError]
  | .validationError _, cls => cls ∈ [.validationError, .domainError]
  | .checksumMismatchError _, cls => cls ∈ [.checksumMismatchError, .validationError, .domainError]
  | .malwareDetectedError _, cls => cls ∈ [.malwareDetectedError, .validationError, .domainError]
  | .lockAcquisitionError _, cls => cls ∈ [.lockAcquisitionError, .domainError]
  | .valueError _, _ | .runtimeError _, _ | .clientError _, _ | .infrastructureError _, _ => false

/-- `except` clauses: the classes caught, and the answer. -/
abbrev Clauses := List (List ExnClass × (Exn → HttpResponse))

/-- The first clause that catches `x`. -/
def Clauses.catches (clauses : Clauses) (x : Exn) : Option HttpResponse :=
  (clauses.find? fun clause => clause.1.any x.isA).map fun clause => clause.2 x

/-- `register_exception_handlers`; nothing in the service raises an `ApplicationError`. -/
def globalHandlers : Clauses :=
  [([.entityNotFoundError], httpException 404), ([.domainError], httpException 422)]

/-- What the app answers when a handler raises. -/
def unhandled (x : Exn) : HttpResponse := (globalHandlers.catches x).getD internalServerError

/-- `try: return respond(await p)` with these clauses, inside the app. -/
def route {α : Type} (p : Program α) (respond : α → HttpResponse) (clauses : Clauses) :
    Program HttpResponse :=
  tryExcept
    (tryExcept (do let a ← p; pure (respond a)) fun x =>
      match clauses.catches x with
      | some response => pure response
      | none => raise x)
    fun x => pure (unhandled x)

/-- What a route answers once its use case has ended. -/
def answering {α : Type} (respond : α → HttpResponse) (clauses : Clauses) :
    Except Exn α → HttpResponse
  | .ok a => respond a
  | .error x => (clauses.catches x).getD (unhandled x)

theorem route_eq {α : Type} (p : Program α) (respond : α → HttpResponse) (clauses : Clauses) :
    route p respond clauses = p.andThen fun r => .done (.ok (answering respond clauses r)) := by
  rw [route, tryExcept, tryExcept, bind_eq, andThen_assoc, andThen_assoc]
  congr 1
  funext r
  cases r with
  | ok a => rfl
  | error x =>
      simp only [onOk_error, raise, andThen_done, onError_error, answering]
      cases clauses.catches x with
      | some response => rfl
      | none => rfl

/-! ## Who is asking -/

/-- What is not in the repository: FastAPI's `HTTPBearer`, which takes the token out of the
`Authorization` header or refuses the request itself, and the `tenant_id` that `jwt.decode`
finds in a token whose signature is not verified, if it finds a string. -/
structure Gateway where
  security : Option String → Except HttpResponse String
  jwtTenantId : String → Option String

/-- `s.replace(pattern, "")`; `skip` characters of an occurrence are still to go. -/
def removing (pattern : List Char) : Nat → List Char → List Char
  | _, [] => []
  | skip + 1, _ :: cs => removing pattern skip cs
  | 0, c :: cs =>
      if pattern.isPrefixOf (c :: cs) then removing pattern (pattern.length - 1) cs
      else c :: removing pattern 0 cs

def isBrace (c : Char) : Bool := c = '\x7b' ∨ c = '\x7d'

/-- `s.strip("\x7b\x7d")` -/
def stripBraces (cs : List Char) : List Char :=
  ((cs.dropWhile isBrace).reverse.dropWhile isBrace).reverse

/-- `UUID(token)`, for a token in one of the forms in which a UUID is written. -/
def UUID.ofToken (token : String) : Option UUID :=
  UUID.ofStr (String.ofList
    (stripBraces (removing "uuid:".toList 0 (removing "urn:".toList 0 token.toList))))

/-- `get_tenant_id` -/
def getTenantId (gateway : Gateway) (authorization : Option String) : Except HttpResponse UUID :=
  match gateway.security authorization with
  | .error response => .error response
  | .ok token =>
      match UUID.ofToken token with
      | some tenantId => .ok tenantId
      | none =>
          match (gateway.jwtTenantId token).bind UUID.ofToken with
          | some tenantId => .ok tenantId
          | none => .error ⟨401, .detail "Invalid Bearer Token. Must be a valid UUID string."⟩

/-! ## The endpoints -/

/-- `InitiateUploadRequest`, as validated. -/
structure InitiateUploadRequest where
  fileId : UUID
  totalSize : Int
  checksum : String
  totalSize_pos : 0 < totalSize
  totalSize_le : totalSize ≤ 1024 * 1024 * 1024
  checksum_length : checksum.length = 64

/-- A request to one of the routes, with its parameters; `newId` is what `uuid4()` gives
while it is served. -/
inductive Endpoint where
  | initiateUpload (payload : InitiateUploadRequest) (newId : UUID)
  | uploadChunk (sessionId : UUID) (chunkIndex : Int) (xChunkChecksum : String) (body : Bytes)
  | querySession (sessionId : UUID)
  | abortUpload (sessionId : UUID)
  | finalizeUpload (sessionId : UUID)

structure HttpRequest where
  authorization : Option String
  endpoint : Endpoint

/-- `if s3_uri:`, and then `assert session is not None`. -/
def initiateResponse : InitiateResult → HttpResponse
  | (session, s3Uri) =>
      match s3Uri.filter (· ≠ ""), session with
      | some uri, _ => ⟨200, .initiated none (some uri) true⟩
      | none, some session => ⟨201, .initiated (some session.sessionId) none false⟩
      | none, none => internalServerError

def uploadChunkResponse (session : UploadSession) : HttpResponse :=
  ⟨200, .progress session.currentOffset (statusStr session)⟩

def uploadChunkClauses : Clauses :=
  [([.entityNotFoundError], httpException 404),
    ([.checksumMismatchError], fun _ => ⟨460, .detail "Checksum mismatch."⟩),
    ([.validationError, .lockAcquisitionError], httpException 400)]

/-- `if not session: raise HTTPException(...)`, where `querySession` raises. -/
def querySessionClauses (sessionId : UUID) : Clauses :=
  [([.entityNotFoundError], fun _ =>
    ⟨404, .detail s!"UploadSession with id {sessionId.str} not found."⟩)]

def abortUploadClauses : Clauses :=
  [([.entityNotFoundError], httpException 404),
    ([.validationError, .lockAcquisitionError], httpException 400)]

def finalizeUploadClauses : Clauses :=
  [([.entityNotFoundError], httpException 404), ([.malwareDetectedError], httpException 422),
    ([.validationError, .lockAcquisitionError], httpException 400)]

/-- The handler of an endpoint. Only `initiate_upload` depends on `get_tenant_id`. -/
def HttpRequest.handler (gateway : Gateway) (env : Env) (request : HttpRequest) :
    Program HttpResponse :=
  match request.endpoint with
  | .initiateUpload payload newId =>
      match getTenantId gateway request.authorization with
      | .error response => pure response
      | .ok tenantId =>
          route (InitiateUploadUseCase.execute newId tenantId payload.fileId payload.totalSize
            payload.checksum) initiateResponse []
  | .uploadChunk sessionId chunkIndex xChunkChecksum body =>
      route (UploadChunkUseCase.execute env sessionId chunkIndex xChunkChecksum body)
        uploadChunkResponse uploadChunkClauses
  | .querySession sessionId =>
      route (FileUploader.querySession sessionId) (fun report => ⟨200, .report report⟩)
        (querySessionClauses sessionId)
  | .abortUpload sessionId =>
      route (AbortUploadUseCase.execute sessionId) (fun _ => ⟨204, .empty⟩) abortUploadClauses
  | .finalizeUpload sessionId =>
      route (FinalizeUploadUseCase.execute sessionId) (fun s3Uri => ⟨200, .finalized s3Uri⟩)
        finalizeUploadClauses

/-! ## Handlers and requests to the service -/

/-- The id under which a new session is stored. -/
def HttpRequest.newId? (request : HttpRequest) : Option UUID :=
  match request.endpoint with
  | .initiateUpload _ newId => some newId
  | _ => none

/-- The session that the URL names. -/
def HttpRequest.target? (request : HttpRequest) : Option UUID :=
  match request.endpoint with
  | .initiateUpload _ _ => none
  | .uploadChunk sid _ _ _ | .querySession sid | .abortUpload sid | .finalizeUpload sid => some sid

/-- What the service is asked to do; the refusal, if the request does not get that far. -/
def HttpRequest.op (gateway : Gateway) (request : HttpRequest) : Except HttpResponse Op :=
  match request.endpoint with
  | .initiateUpload payload newId =>
      (getTenantId gateway request.authorization).map fun tenantId =>
        .initiate newId tenantId payload.fileId payload.totalSize payload.checksum
  | .uploadChunk sid index cs body => .ok (.uploadChunk sid index cs body)
  | .querySession sid => .ok (.query sid)
  | .abortUpload sid => .ok (.abort sid)
  | .finalizeUpload sid => .ok (.finalize sid)

/-- How the result of the service is answered. -/
def HttpRequest.reply (request : HttpRequest) (r : Except Exn Response) : HttpResponse :=
  match request.endpoint, r with
  | .initiateUpload _ _, .ok (.initiated result) => initiateResponse result
  | .initiateUpload _ _, .error x => unhandled x
  | .uploadChunk _ _ _ _, .ok (.uploaded session) => uploadChunkResponse session
  | .uploadChunk _ _ _ _, .error x => (uploadChunkClauses.catches x).getD (unhandled x)
  | .querySession _, .ok (.report report) => ⟨200, .report report⟩
  | .querySession sid, .error x => ((querySessionClauses sid).catches x).getD (unhandled x)
  | .abortUpload _, .ok .aborted => ⟨204, .empty⟩
  | .abortUpload _, .error x => (abortUploadClauses.catches x).getD (unhandled x)
  | .finalizeUpload _, .ok (.finalized s3Uri) => ⟨200, .finalized s3Uri⟩
  | .finalizeUpload _, .error x => (finalizeUploadClauses.catches x).getD (unhandled x)
  | _, .ok _ => internalServerError

/-- A use case whose result is wrapped, and then answered. -/
theorem andThen_map {α β γ : Type} (p : Program α) (f : α → β) (g : Except Exn β → Program γ) :
    (do let a ← p; pure (f a) : Program β).andThen g = p.andThen fun r => g (r.map f) := by
  rw [bind_eq, andThen_assoc]
  congr 1
  funext r
  cases r <;> rfl

/-- A handler refuses the request, or has the service do what it asks for. -/
theorem handler_eq (gateway : Gateway) (env : Env) (request : HttpRequest) :
    request.handler gateway env = match request.op gateway with
      | .error response => pure response
      | .ok op => (op.prog env).andThen fun r => .done (.ok (request.reply r)) := by
  rcases request with ⟨authorization, endpoint⟩
  cases endpoint with
  | initiateUpload payload newId =>
      simp only [HttpRequest.handler, HttpRequest.op]
      cases getTenantId gateway authorization with
      | error response => rfl
      | ok tenantId =>
          simp only [Except.map, route_eq, Op.prog, andThen_map]
          congr 1
          funext r
          cases r <;> rfl
  | querySession sid =>
      simp only [HttpRequest.handler, HttpRequest.op, route_eq, Op.prog, andThen_map]
      congr 1
      funext r
      cases r <;> rfl
  | uploadChunk sid index cs body =>
      simp only [HttpRequest.handler, HttpRequest.op, route_eq, Op.prog, andThen_map]
      congr 1
      funext r
      cases r <;> rfl
  | abortUpload sid =>
      simp only [HttpRequest.handler, HttpRequest.op, route_eq, Op.prog, andThen_map]
      congr 1
      funext r
      cases r <;> rfl
  | finalizeUpload sid =>
      simp only [HttpRequest.handler, HttpRequest.op, route_eq, Op.prog, andThen_map]
      congr 1
      funext r
      cases r <;> rfl

end FileUploader
