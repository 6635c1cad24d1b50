import Mathlib.Data.BitVec

/-! # Domain: sessions, chunks, exceptions

The entities, value objects and exceptions of the upload service.
-/

namespace FileUploader

/-- `bytes` -/
abbrev Bytes := List UInt8

/-- `s.lower()`, for ASCII letters: no other character has a hexadecimal digit for
its lower case. -/
def lower (s : String) : String := String.ofList (s.toList.map Char.toLower)

/-! ## UUIDs -/

/-- `uuid.UUID`: a 128-bit value. -/
structure UUID where
  int : BitVec 128
deriving DecidableEq, Repr

namespace UUID

/-- The 32 hexadecimal digits, most significant first. -/
def hex (u : UUID) : List Char :=
  (List.range 32).map fun i => Nat.digitChar ((u.int >>> (4 * (31 - i))).toNat % 16)

/-- `str(u)`: the digits in groups of 8, 4, 4, 4 and 12. -/
def str (u : UUID) : String :=
  String.ofList (u.hex.take 8 ++ '-' :: (u.hex.drop 8).take 4 ++ '-' :: (u.hex.drop 12).take 4 ++
    '-' :: (u.hex.drop 16).take 4 ++ '-' :: u.hex.drop 20)

/-- `repr(u)` -/
def repr (u : UUID) : String := s!"UUID('{u.str}')"

end UUID

/-! ## Exceptions -/

/-- What a use case may raise: the domain exceptions, the built-in exceptions
the code raises itself, S3's refusal of a request (`clientError`), and whatever
a driver raises when a call does not go through (`infrastructureError`). -/
inductive Exn where
  | entityNotFoundError (entity : String) (identifier : UUID)
  | validationError (msg : String)
  | checksumMismatchError (msg : String)
  | malwareDetectedError (msg : String)
  | lockAcquisitionError (msg : String)
  | valueError (msg : String)
  | runtimeError (msg : String)
  | clientError (msg : String)
  | infrastructureError (msg : String)
deriving DecidableEq, Repr

/-- `str(e)` -/
def Exn.str : Exn → String
  | .entityNotFoundError entity identifier =>
      s!"{entity} with id {identifier.repr} was not found."
  | .validationError msg | .checksumMismatchError msg | .malwareDetectedError msg
  | .lockAcquisitionError msg | .valueError msg | .runtimeError msg | .clientError msg
  | .infrastructureError msg => msg

/-! ## Upload sessions -/

/-- Lifecycle states of a chunked upload session. -/
inductive UploadStatus where
  | initiated
  | uploading
  | completed
  | aborted
  | failed
deriving DecidableEq, Repr

/-- The `StrEnum` value, which is also how a status prints. -/
def UploadStatus.value : UploadStatus → String
  | .initiated => "INITIATED"
  | .uploading => "UPLOADING"
  | .completed => "COMPLETED"
  | .aborted => "ABORTED"
  | .failed => "FAILED"

/-- An active chunked upload session. -/
structure UploadSession where
  sessionId : UUID
  tenantId : UUID
  fileId : UUID
  totalSize : Int
  currentOffset : Int
  /-- Full file SHA-256 hash. -/
  checksum : String
  status : UploadStatus
deriving DecidableEq, Repr

namespace UploadSession

/-- Advance the current upload offset by the number of bytes uploaded. -/
def updateOffset (s : UploadSession) (bytesUploaded : Int) : Except Exn UploadSession :=
  if bytesUploaded ≤ 0 then
    .error (.valueError "Bytes uploaded must be positive")
  else if s.currentOffset + bytesUploaded > s.totalSize then
    .error (.valueError "Upload exceeds total file size")
  else
    let offset := s.currentOffset + bytesUploaded
    .ok { s with
      currentOffset := offset
      status := if offset > 0 ∧ s.status = .initiated then .uploading else s.status }

/-- Mark the upload session as successfully completed. -/
def complete (s : UploadSession) : Except Exn UploadSession :=
  if s.currentOffset ≠ s.totalSize then
    .error (.valueError (s!"Cannot complete session: offset ({s.currentOffset}) " ++
      s!"does not match total size ({s.totalSize})"))
  else
    .ok { s with status := .completed }

/-- Mark the upload session as aborted. -/
def abort (s : UploadSession) : UploadSession := { s with status := .aborted }

/-- Mark the upload session as failed. -/
def fail (s : UploadSession) : UploadSession := { s with status := .failed }

/-! `update_offset` either raises or moves the offset; it touches no other field
than offset and status. -/

theorem updateOffset_ok {s s' : UploadSession} {n : Int} (h : s.updateOffset n = .ok s') :
    0 < n ∧ s.currentOffset + n ≤ s.totalSize ∧ s'.currentOffset = s.currentOffset + n ∧
      s'.sessionId = s.sessionId ∧ s'.tenantId = s.tenantId ∧ s'.fileId = s.fileId ∧
      s'.totalSize = s.totalSize ∧ s'.checksum = s.checksum ∧
      s'.status = if s.currentOffset + n > 0 ∧ s.status = .initiated then .uploading
        else s.status := by
  unfold updateOffset at h
  split at h
  · cases h
  · split at h
    · cases h
    · cases h
      exact ⟨by omega, by omega, rfl, rfl, rfl, rfl, rfl, rfl, rfl⟩

theorem updateOffset_error {s : UploadSession} {n : Int} {x : Exn}
    (h : s.updateOffset n = .error x) : n ≤ 0 ∨ s.currentOffset + n > s.totalSize := by
  unfold updateOffset at h
  split at h
  · exact Or.inl ‹_›
  · split at h
    · exact Or.inr ‹_›
    · cases h

theorem updateOffset_fits {s : UploadSession} {n : Int} (hpos : 0 < n)
    (hfits : s.currentOffset + n ≤ s.totalSize) : ∃ s', s.updateOffset n = .ok s' := by
  cases h : s.updateOffset n with
  | ok s' => exact ⟨s', rfl⟩
  | error x =>
      have hbad := updateOffset_error h
      omega

theorem complete_eq_ok {s : UploadSession} (h : s.currentOffset = s.totalSize) :
    s.complete = .ok { s with status := .completed } := by
  simp [complete, h]

end UploadSession

/-- An individual chunk segment of a file upload. -/
structure Chunk where
  index : Int
  size : Nat
  /-- Chunk-specific SHA-256 hash. -/
  checksum : String
  rawBytes : Bytes
deriving DecidableEq, Repr

end FileUploader
