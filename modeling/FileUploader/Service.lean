import FileUploader.Await.Discipline
import FileUploader.UseCases

/-! # The service as a system of requests

The requests of the API over one Redis, one bucket and one broker, and the
conditions on runs that the results share: fresh session ids, no failing calls,
no expiring locks.
-/

namespace FileUploader

open Await

/-- A request to the service. -/
inductive Op where
  | initiate (newId tenantId fileId : UUID) (totalSize : Int) (checksum : String)
  | uploadChunk (sessionId : UUID) (chunkIndex : Int) (checksum : String) (data : Bytes)
  | finalize (sessionId : UUID)
  | abort (sessionId : UUID)
  | query (sessionId : UUID)
deriving DecidableEq

/-- What a request returns. -/
inductive Response where
  | initiated (result : InitiateResult)
  | uploaded (session : UploadSession)
  | finalized (s3Uri : String)
  | aborted
  | report (report : SessionReport)
deriving DecidableEq

def Op.prog (env : Env) : Op → Program Response
  | .initiate newId t f size cs => do
      let r ← InitiateUploadUseCase.execute newId t f size cs
      pure (.initiated r)
  | .uploadChunk sid index cs data => do
      let s ← UploadChunkUseCase.execute env sid index cs data
      pure (.uploaded s)
  | .finalize sid => do
      let uri ← FinalizeUploadUseCase.execute sid
      pure (.finalized uri)
  | .abort sid => do
      AbortUploadUseCase.execute sid
      pure .aborted
  | .query sid => do
      let r ← querySession sid
      pure (.report r)

/-- The id under which an initiate request stores its session. -/
def Op.newId? : Op → Option UUID
  | .initiate newId .. => some newId
  | _ => none

/-- The session an upload, finalize, abort or query request is about. -/
def Op.target? : Op → Option UUID
  | .initiate .. => none
  | .uploadChunk sid .. | .finalize sid | .abort sid | .query sid => some sid

/-- A request is about a stored session, or initiates one. -/
theorem Op.newId?_eq_none {op : Op} {sid : UUID} (h : op.target? = some sid) :
    op.newId? = none := by
  cases op with
  | initiate newId t f size cs => cases h
  | _ => rfl

/-- The service: a move of the world is the passing of `d` milliseconds. -/
@[reducible] def service (env : Env) : System Collab where
  World := World
  Outcome := Outcome
  handle := handle env
  Move := Nat
  move := fun d w => w.advance d
  Op := Op
  Result := Response
  prog := Op.prog env

abbrev Run (env : Env) := Config (service env)
abbrev Log (env : Env) := List (Entry (service env))

section Conditions

variable {env : Env}

/-- `uuid4()` never gives an id twice. -/
def freshIds (c : Run env) : Label (service env) → Bool
  | .spawn op => op.newId?.all fun newId => c.ops.all fun op' => op'.newId? ≠ some newId
  | _ => true

/-- Every call goes through. -/
def noFaults : Label (service env) → Bool
  | .call _ out => out = .works
  | _ => true

/-- The lock of `sid` does not expire while time passes. -/
def lockLasts (sid : UUID) (c : Run env) : Label (service env) → Bool
  | .move d => (c.world.advance d).lock? sid = c.world.lock? sid
  | _ => true

end Conditions

/-! ## A small deployment

For concrete runs: real digests for the payloads that occur in them, and an S3
that refuses to complete an upload without parts. -/

namespace Demo

/-- `a` -/
def a : Bytes := [97]
/-- `b` -/
def b : Bytes := [98]

def digests : List (Bytes × String) :=
  [([], "e3b0c44298fc1c149afbf4c8996fb92427ae41e4649b934ca495991b7852b855"),
    (a, "ca978112ca1bbdcafac231b39a23dc4da786eff8147c4e72b9807785afee48bb"),
    (b, "3e23e8160039594a33894f6564e1b1348bbd7a0088d42c4acb73eeaed59c009d")]

def sha256 (data : Bytes) : String := (digests.lookup data).getD "unknown"

def env : Env where
  sha256 := sha256
  bucketName := "bronze-file-uploads"
  etag := sha256
  s3Accepts := fun _ datas => datas ≠ []

/-- 5 MB of `a`: the least that an intermediate chunk may have. -/
@[irreducible] def big : Bytes := List.replicate (5 * 1024 * 1024) 97

theorem big_length : big.length = 5 * 1024 * 1024 := by
  unfold big
  exact List.length_replicate

/-- The deployment with the digest of `big` as well. -/
def bigEnv : Env :=
  { env with
    sha256 := fun data =>
      if data = big then "a29968fad2e782aa9f2040a35f05adb97ed8979eb1f572c8c8ea78637e275f3c"
      else sha256 data }

def sid : UUID := ⟨1⟩
def tenant : UUID := ⟨2⟩
def file : UUID := ⟨3⟩

/-- The next `n` calls of request `i`, all going through. -/
def calls (i n : Nat) : List (Label (service env)) := List.replicate n (.call i .works)

/-- A round of the loop request `i` is in, with `n` calls. -/
def round (i n : Nat) : List (Label (service env)) := .unroll i :: calls i n

/-- Finalize request `i` up to the end of its scan of `chunks` chunks. -/
def scanning (i chunks : Nat) : List (Label (service env)) :=
  calls i 2 ++ (List.replicate (chunks + 1) (round i 1)).flatten

/-- The rest of finalize request `i`, with `chunks` chunks to assemble. -/
def committing (i chunks : Nat) : List (Label (service env)) :=
  calls i 1 ++ (List.replicate chunks (round i 2)).flatten ++ round i 1 ++ calls i 6

end Demo

end FileUploader
