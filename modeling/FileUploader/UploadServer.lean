import FileUploader.Presentation.Uploads
import FileUploader.Store.KeyValue
import FileUploader.Store.Runs

/-! # The upload server

What the service is for, without Redis, S3, locks and awaited calls: transfers, which collect
the pieces of a file; the files, each under its tenant; a catalogue of them by checksum; and
the announcements of what has arrived. A request is answered in one step.

Transfers and pieces are kept for a day after they were last stored, the rest for ever. The
catalogue lists files that are there, and so do the announcements: a server carries this with
it, and a transfer that it has not counted more bytes than the file has.
-/

namespace FileUploader

/-! ## Transfers -/

/-- A day, in milliseconds. -/
def retention : Nat := 24 * 60 * 60 * 1000

/-- A piece of a file, and when it is forgotten. -/
structure Piece where
  data : Bytes
  expires : Nat

/-- A file on its way: what it should become, how much of it has been counted, and the pieces. -/
structure Transfer where
  tenantId : UUID
  fileId : UUID
  totalSize : Int
  checksum : String
  received : Int
  failed : Bool
  pieces : KeyValue Int Piece
  expires : Nat
  received_nonneg : 0 ≤ received
  received_le : received ≤ totalSize

namespace Transfer

/-- Nothing has arrived yet. -/
def begin (now : Nat) (tenantId : UUID) (payload : InitiateUploadRequest) : Transfer where
  tenantId := tenantId
  fileId := payload.fileId
  totalSize := payload.totalSize
  checksum := payload.checksum
  received := 0
  failed := false
  pieces := .empty
  expires := now + retention
  received_nonneg := Int.le_refl 0
  received_le := Int.le_of_lt payload.totalSize_pos

variable (t : Transfer) (now : Nat)

/-- A piece arrives, and replaces the one with its number. -/
def keep (index : Int) (data : Bytes) : Transfer :=
  { t with pieces := t.pieces.set index ⟨data, now + retention⟩ }

theorem keep_get (index i : Int) (data : Bytes) : (t.keep now index data).pieces.get i =
    if i = index then some ⟨data, now + retention⟩ else t.pieces.get i :=
  t.pieces.get_set index i ⟨data, now + retention⟩

/-- There is room for a piece, and something in it. -/
def HasRoom (data : Bytes) : Prop := data ≠ [] ∧ t.received + data.length ≤ t.totalSize

instance (data : Bytes) : Decidable (t.HasRoom data) := by unfold HasRoom; infer_instance

/-- The bytes of a piece are counted. -/
def count (data : Bytes) (h : t.HasRoom data) : Transfer :=
  { t with
    received := t.received + data.length
    expires := now + retention
    received_nonneg := Int.add_nonneg t.received_nonneg (Int.natCast_nonneg _)
    received_le := h.2 }

def fail : Transfer := { t with failed := true, expires := now + retention }

/-- The piece with this number, unless it has been forgotten. -/
def piece? (index : Int) : Option Bytes :=
  ((t.pieces.get index).filter (now < ·.expires)).map (·.data)

/-- The one with this number that the file can go on with. -/
def next? (k : Nat) : Option Bytes := (t.piece? now k).filter (· ≠ [])

/-- What would become the file: the pieces 0, 1, 2, … up to the first that is not there or
empty. -/
def body : List Bytes := takeRun (t.next? now) (t.pieces.entries.length + 1) 0

/-- There are no more of them than pieces. -/
theorem body_run : RunFrom (t.next? now) 0 (t.body now) := by
  refine runFrom_takeRun ?_
  have hnodup : (indices (t.pieces.entries.length + 1)).Nodup :=
    List.nodup_range.map Nat.cast_injective
  rcases t.pieces.exists_absent hnodup (by simp [indices]) with ⟨i, hi, habsent⟩
  rcases List.mem_map.1 hi with ⟨n, hn, rfl⟩
  refine ⟨n, List.mem_range.1 hn, ?_⟩
  simp [next?, piece?, habsent]

/-- How far a client is told the transfer is. -/
def progress : String := if t.received = t.totalSize then "completed" else "active"

end Transfer

/-! ## The server -/

/-- What is decided elsewhere: for whom a request is, the digest of a piece, the address of a
file, and which bodies can be stored. -/
structure Policy where
  tenantOf : Option String → Except HttpResponse UUID
  digest : Bytes → String
  address : UUID → UUID → String
  accepts : List Bytes → Bool

/-- Files are known by tenant and file id, and listed by tenant and checksum. -/
structure Server where
  now : Nat
  transfers : UUID → Option Transfer
  files : UUID × UUID → Option Bytes
  catalogue : UUID × String → Option UUID
  announced : List Event
  listed : ∀ tenantId checksum fileId, catalogue (tenantId, checksum) = some fileId →
    (files (tenantId, fileId)).isSome
  arrived : ∀ event ∈ announced, (files (event.tenantId, event.fileId)).isSome

namespace Server

def empty (now : Nat) : Server where
  now := now
  transfers := fun _ => none
  files := fun _ => none
  catalogue := fun _ => none
  announced := []
  listed := fun _ _ _ h => by cases h
  arrived := fun _ h => by cases h

variable (p : Policy) (a : Server) (sid : UUID)

/-- Time passes. -/
def wait (d : Nat) : Server := { a with now := a.now + d }

/-- The transfer with this id, unless it has been forgotten. -/
def transfer? : Option Transfer := (a.transfers sid).filter (a.now < ·.expires)

def put (t : Transfer) : Server := { a with transfers := Function.update a.transfers sid (some t) }

def drop : Server := { a with transfers := Function.update a.transfers sid none }

/-- The event that says that a transfer has become a file. -/
def eventOf (t : Transfer) : Event :=
  ⟨t.tenantId, t.fileId, p.address t.tenantId t.fileId, t.totalSize, t.checksum⟩

/-- What is added to the files stays there. -/
theorem isSome_update (key key' : UUID × UUID) (content : Bytes) (h : (a.files key').isSome) :
    (Function.update a.files key (some content) key').isSome := by
  by_cases hkey : key' = key
  · subst hkey
    simp
  · rw [Function.update_of_ne hkey]
    exact h

/-- A transfer becomes a file, which replaces one with the same id, is listed and announced. -/
def commit (t : Transfer) (content : Bytes) : Server where
  now := a.now
  transfers := Function.update a.transfers sid none
  files := Function.update a.files (t.tenantId, t.fileId) (some content)
  catalogue := Function.update a.catalogue (t.tenantId, t.checksum) (some t.fileId)
  announced := a.announced ++ [eventOf p t]
  listed := by
    intro tenantId checksum fileId h
    by_cases hkey : (tenantId, checksum) = (t.tenantId, t.checksum)
    · rw [hkey, Function.update_self] at h
      cases h
      cases hkey
      simp
    · rw [Function.update_of_ne hkey] at h
      exact a.isSome_update _ _ content (a.listed tenantId checksum fileId h)
  arrived := by
    intro event h
    rcases List.mem_append.1 h with h | h
    · exact a.isSome_update _ _ content (a.arrived event h)
    · rw [List.mem_singleton.1 h]
      simp [eventOf]

/-! ## The requests -/

def initiate (authorization : Option String) (payload : InitiateUploadRequest) (newId : UUID) :
    HttpResponse × Server :=
  match p.tenantOf authorization with
  | .error response => (response, a)
  | .ok tenantId =>
      match a.catalogue (tenantId, payload.checksum) with
      | some fileId => (⟨200, .initiated none (some (p.address tenantId fileId)) true⟩, a)
      | none => (⟨201, .initiated (some newId) none false⟩,
          a.put newId (.begin a.now tenantId payload))

/-- The answer about a transfer that is not there. -/
def missing : HttpResponse := ⟨404, .detail s!"UploadSession with id {sid.repr} was not found."⟩

/-- The answer to a piece that is not even stored, if it is refused. -/
def refusal? (t : Transfer) (checksum : String) (data : Bytes) : Option HttpResponse :=
  if t.failed then
    some ⟨400, .detail "Cannot upload chunk: session is in FAILED state"⟩
  else if 50 * 1024 * 1024 < data.length then
    some ⟨400, .detail "Chunk size exceeds maximum limit of 50 MB"⟩
  else if data.length < 5 * 1024 * 1024 ∧ t.received + data.length ≠ t.totalSize then
    some ⟨400, .detail
      "Intermediate chunks must be at least 5 MB in size for S3 Multipart Upload compatibility"⟩
  else if lower (p.digest data) ≠ lower checksum then
    some ⟨460, .detail "Checksum mismatch."⟩
  else none

/-- A piece that there is no room for, or that is empty, is stored nevertheless. -/
def upload (index : Int) (checksum : String) (data : Bytes) : HttpResponse × Server :=
  match a.transfer? sid with
  | none => (missing sid, a)
  | some t =>
      match refusal? p t checksum data with
      | some response => (response, a)
      | none =>
          if h : t.HasRoom data then
            (⟨200, .progress (t.count a.now data h).received (t.count a.now data h).progress⟩,
              a.put sid ((t.count a.now data h).keep a.now index data))
          else (internalServerError, a.put sid (t.keep a.now index data))

def query : HttpResponse × Server :=
  match a.transfer? sid with
  | none => (⟨404, .detail s!"UploadSession with id {sid.str} not found."⟩, a)
  | some t => (⟨200, .report ⟨sid, t.received, t.totalSize, t.progress⟩⟩, a)

def abort : HttpResponse × Server :=
  match a.transfer? sid with
  | none => (missing sid, a)
  | some _ => (⟨204, .empty⟩, a.drop sid)

/-- Malware ends the transfer, and a body that cannot be stored fails it. -/
def finalize : HttpResponse × Server :=
  match a.transfer? sid with
  | none => (missing sid, a)
  | some t =>
      if t.failed then
        (⟨400, .detail "Cannot finalize: session is in FAILED state"⟩, a)
      else if t.received ≠ t.totalSize then
        (⟨400, .detail ("Cannot finalize: not all bytes have been uploaded. " ++
          s!"Uploaded offset: {t.received}, Expected total size: {t.totalSize}")⟩, a)
      else if ∃ data ∈ t.body a.now, LocalVirusScanner.eicarSignature <:+: data then
        (⟨422, .detail "Malware Signature Detected: EICAR standard anti-virus test file."⟩,
          a.drop sid)
      else if p.accepts (t.body a.now) then
        (⟨200, .finalized (p.address t.tenantId t.fileId)⟩,
          a.commit p sid t (t.body a.now).flatten)
      else (internalServerError, a.put sid (t.fail a.now))

def serve (request : HttpRequest) : HttpResponse × Server :=
  match request.endpoint with
  | .initiateUpload payload newId => a.initiate p request.authorization payload newId
  | .uploadChunk sid index checksum body => a.upload p sid index checksum body
  | .querySession sid => a.query sid
  | .abortUpload sid => a.abort sid
  | .finalizeUpload sid => a.finalize p sid

/-- Requests one after the other, each with the time since the one before. -/
def serveAll : Server → List (Nat × HttpRequest) → List HttpResponse × Server
  | a, [] => ([], a)
  | a, (d, request) :: requests =>
      (((a.wait d).serve p request).1 ::
        (serveAll ((a.wait d).serve p request).2 requests).1,
        (serveAll ((a.wait d).serve p request).2 requests).2)

/-- A request changes no transfer but the one that it begins, or that it is about; serving it
takes no time. -/
theorem serve_one (request : HttpRequest) :
    (a.serve p request).2.now = a.now ∧ ((a.serve p request).2.transfers = a.transfers ∨
      ∃ sid t, (request.newId? = some sid ∨
          request.target? = some sid ∧ (a.transfers sid).isSome) ∧
        (a.serve p request).2.transfers = Function.update a.transfers sid t) := by
  have hthere : ∀ {sid t}, a.transfer? sid = some t → (a.transfers sid).isSome := by
    intro sid t ht
    cases h : a.transfers sid with
    | none =>
        rw [transfer?, h] at ht
        cases ht
    | some _ => rfl
  rcases request with ⟨authorization, endpoint⟩
  cases endpoint with
  | initiateUpload payload newId =>
      simp only [serve, initiate]
      split
      · exact ⟨rfl, Or.inl rfl⟩
      · split
        · exact ⟨rfl, Or.inl rfl⟩
        · exact ⟨rfl, Or.inr ⟨newId, _, Or.inl rfl, rfl⟩⟩
  | uploadChunk sid index checksum body =>
      simp only [serve, upload]
      split
      · exact ⟨rfl, Or.inl rfl⟩
      · rename_i t ht
        split
        · exact ⟨rfl, Or.inl rfl⟩
        · split
          · exact ⟨rfl, Or.inr ⟨sid, _, Or.inr ⟨rfl, hthere ht⟩, rfl⟩⟩
          · exact ⟨rfl, Or.inr ⟨sid, _, Or.inr ⟨rfl, hthere ht⟩, rfl⟩⟩
  | querySession sid =>
      simp only [serve, query]
      split
      · exact ⟨rfl, Or.inl rfl⟩
      · exact ⟨rfl, Or.inl rfl⟩
  | abortUpload sid =>
      simp only [serve, abort]
      split
      · exact ⟨rfl, Or.inl rfl⟩
      · rename_i t ht
        exact ⟨rfl, Or.inr ⟨sid, _, Or.inr ⟨rfl, hthere ht⟩, rfl⟩⟩
  | finalizeUpload sid =>
      simp only [serve, finalize]
      split
      · exact ⟨rfl, Or.inl rfl⟩
      · rename_i t ht
        split
        · exact ⟨rfl, Or.inl rfl⟩
        · split
          · exact ⟨rfl, Or.inl rfl⟩
          · split
            · exact ⟨rfl, Or.inr ⟨sid, _, Or.inr ⟨rfl, hthere ht⟩, rfl⟩⟩
            · split
              · exact ⟨rfl, Or.inr ⟨sid, _, Or.inr ⟨rfl, hthere ht⟩, rfl⟩⟩
              · exact ⟨rfl, Or.inr ⟨sid, _, Or.inr ⟨rfl, hthere ht⟩, rfl⟩⟩

/-- Only an initiate begins a transfer, under the id that it is given. -/
theorem serve_transfers {request : HttpRequest} (hid : request.newId? ≠ some sid)
    (h : a.transfers sid = none) : (a.serve p request).2.transfers sid = none := by
  rcases (a.serve_one p request).2 with hsame | ⟨sid', t, hone, hupdate⟩
  · rw [hsame, h]
  · have hne : sid ≠ sid' := by
      rintro rfl
      rcases hone with hnew | ⟨_, hthere⟩
      · exact hid hnew
      · rw [h] at hthere
        cases hthere
    rw [hupdate, Function.update_of_ne hne, h]

/-- What a request is not about, it leaves as it is. -/
theorem serve_other {request : HttpRequest} (hid : request.newId? ≠ some sid)
    (htarget : request.target? ≠ some sid) :
    (a.serve p request).2.transfers sid = a.transfers sid := by
  rcases (a.serve_one p request).2 with hsame | ⟨sid', t, hone, hupdate⟩
  · rw [hsame]
  · have hne : sid ≠ sid' := by
      rintro rfl
      rcases hone with hnew | ⟨hsame, _⟩
      · exact hid hnew
      · exact htarget hsame
    rw [hupdate, Function.update_of_ne hne]

theorem serveAll_length (requests : List (Nat × HttpRequest)) :
    (a.serveAll p requests).1.length = requests.length := by
  induction requests generalizing a with
  | nil => rfl
  | cons op requests ih =>
      rcases op with ⟨d, request⟩
      simp only [serveAll, List.length_cons, ih]

theorem serveAll_append (requests requests' : List (Nat × HttpRequest)) :
    a.serveAll p (requests ++ requests') =
      ((a.serveAll p requests).1 ++ ((a.serveAll p requests).2.serveAll p requests').1,
        ((a.serveAll p requests).2.serveAll p requests').2) := by
  induction requests generalizing a with
  | nil => rfl
  | cons op requests ih =>
      rcases op with ⟨d, request⟩
      simp only [List.cons_append, serveAll, ih]

end Server

end FileUploader
