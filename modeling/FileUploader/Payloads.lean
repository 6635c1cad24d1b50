import FileUploader.Text.Json
import FileUploader.Keyspace
import FileUploader.Publisher

/-! # The texts that are written

The dictionaries that the repositories and the publisher give to `json.dumps`, and what is
read out of a text. With these texts the repositories need no assumption on JSON, and who
receives a message of the publisher can tell the event.
-/

namespace FileUploader

open JsonText (Value)
open Await

/-! ## Texts as bytes -/

/-- `json.dumps(v)`, as the clients send it. -/
@[irreducible] def dumps (v : Value) : Bytes := encode (String.ofList (JsonText.dumps v))

/-- `json.loads(data)`, of a text in UTF-8. -/
@[irreducible] def loads (data : Bytes) : Option Value :=
  (decode data).bind fun text => JsonText.loads text.toList

/-- A value is read back from its text, if no object in it has a key twice. -/
theorem loads_dumps {v : Value} (h : JsonText.Wf v) : loads (dumps v) = some v := by
  simp [loads, dumps, decode_encode, JsonText.loads_dumps h]

/-- No text is empty, so none is taken for a missing value. -/
theorem dumps_ne_nil (v : Value) : dumps v ≠ [] := by
  rw [dumps]
  refine encode_ne_nil fun hempty => JsonText.dumps_ne_nil v ?_
  simpa using congrArg String.toList hempty

namespace JsonFields

/-- `v[k]`, where it is a string. -/
def str? (v : Value) (k : String) : Option String :=
  match v.member? k with
  | some (.str s) => some s
  | _ => none

/-- `int(v[k])`, of a number or a truth value. -/
def int? (v : Value) (k : String) : Option Int :=
  match v.member? k with
  | some (.int n) => some n
  | some (.bool b) => some b.toInt
  | _ => none

end JsonFields

open JsonFields

/-! ## Dictionaries -/

/-- The `payload` of `RedisSessionRepository.save`. -/
def sessionDict (p : SessionPayload) : Value :=
  .object [("session_id", .str p.sessionId), ("tenant_id", .str p.tenantId),
    ("file_id", .str p.fileId), ("total_size", .int p.totalSize),
    ("current_offset", .int p.currentOffset), ("checksum", .str p.checksum),
    ("status", .str p.status)]

def ofSessionDict (v : Value) : Option SessionPayload := do
  let sessionId ← str? v "session_id"
  let tenantId ← str? v "tenant_id"
  let fileId ← str? v "file_id"
  let totalSize ← int? v "total_size"
  let currentOffset ← int? v "current_offset"
  let checksum ← str? v "checksum"
  let status ← str? v "status"
  some ⟨sessionId, tenantId, fileId, totalSize, currentOffset, checksum, status⟩

/-- What `RedisChunkRepository.save` stores beside the payload. -/
def metaDict (m : ChunkMeta) : Value :=
  .object [("checksum", .str m.checksum), ("size", .int m.size)]

/-- `size` is the length of a payload; one below zero is not read. -/
def ofMetaDict (v : Value) : Option ChunkMeta := do
  let size ← int? v "size"
  let checksum ← str? v "checksum"
  if 0 ≤ size then some ⟨checksum, size.toNat⟩ else none

/-- The `payload` of `publish_file_upload_completed`. -/
def eventDict (p : Nats.EventPayload) : Value :=
  .object [("tenant_id", .str p.tenantId), ("file_id", .str p.fileId), ("s3_uri", .str p.s3Uri),
    ("total_size", .int p.totalSize), ("checksum", .str p.checksum)]

def ofEventDict (v : Value) : Option Event := do
  let tenantId ← (str? v "tenant_id").bind UUID.ofStr
  let fileId ← (str? v "file_id").bind UUID.ofStr
  let s3Uri ← str? v "s3_uri"
  let totalSize ← int? v "total_size"
  let checksum ← str? v "checksum"
  some ⟨tenantId, fileId, s3Uri, totalSize, checksum⟩

/-- The event that a subscriber reads out of a message. -/
def readEvent (data : Bytes) : Option Event := (loads data).bind ofEventDict

/-- The texts of Python's `json`. -/
def pythonJson : Json where
  dumpsSession p := dumps (sessionDict p)
  loadsSession data := (loads data).bind ofSessionDict
  dumpsMeta m := dumps (metaDict m)
  loadsMeta data := (loads data).bind ofMetaDict

/-- `json.dumps(payload).encode("utf-8")` of the publisher. -/
def dumpsEvent (p : Nats.EventPayload) : Bytes := dumps (eventDict p)

/-! ## What is read of what was written -/

theorem wf_sessionDict (p : SessionPayload) : JsonText.Wf (sessionDict p) := by
  simp [sessionDict, JsonText.Wf, JsonText.WfMembers]

theorem wf_metaDict (m : ChunkMeta) : JsonText.Wf (metaDict m) := by
  simp [metaDict, JsonText.Wf, JsonText.WfMembers]

theorem wf_eventDict (p : Nats.EventPayload) : JsonText.Wf (eventDict p) := by
  simp [eventDict, JsonText.Wf, JsonText.WfMembers]

/-- The fields of a session are found under their names. -/
theorem ofSessionDict_sessionDict (p : SessionPayload) :
    ofSessionDict (sessionDict p) = some p := by
  simp [ofSessionDict, sessionDict, str?, int?, Value.member?]

theorem ofMetaDict_metaDict (m : ChunkMeta) : ofMetaDict (metaDict m) = some m := by
  simp [ofMetaDict, metaDict, str?, int?, Value.member?]

theorem ofEventDict_eventDict (event : Event) :
    ofEventDict (eventDict (Nats.eventPayload event)) = some event := by
  simp [ofEventDict, eventDict, Nats.eventPayload, str?, int?, Value.member?, ofStr_str]

/-- A session survives `json.dumps` and `json.loads`. -/
theorem loadsSession_dumps (p : SessionPayload) :
    pythonJson.loadsSession (pythonJson.dumpsSession p) = some p := by
  show (loads (dumps (sessionDict p))).bind ofSessionDict = some p
  rw [loads_dumps (wf_sessionDict p), Option.bind_some, ofSessionDict_sessionDict]

/-- And so does the metadata of a chunk. -/
theorem loadsMeta_dumps (m : ChunkMeta) :
    pythonJson.loadsMeta (pythonJson.dumpsMeta m) = some m := by
  show (loads (dumps (metaDict m))).bind ofMetaDict = some m
  rw [loads_dumps (wf_metaDict m), Option.bind_some, ofMetaDict_metaDict]

/-- A subscriber reads the event that was published. -/
theorem readEvent_dumps (event : Event) :
    readEvent (dumpsEvent (Nats.eventPayload event)) = some event := by
  rw [readEvent, dumpsEvent, loads_dumps (wf_eventDict _), Option.bind_some,
    ofEventDict_eventDict]

/-- A URI is not empty; S3's are not. -/
def NamesObject : RepoOp → Prop
  | .registerFile _ _ uri _ _ => uri ≠ ""
  | _ => True

/-- Python's `json` undoes whatever the repositories write, as the results on the keyspace
assume. -/
theorem pythonJson_undoes {op : RepoOp} (h : NamesObject op) :
    pythonJson.Undoes op := by
  cases op with
  | sessionSave s => exact ⟨loadsSession_dumps _, dumps_ne_nil (sessionDict (payload s))⟩
  | chunkSave sid chunk =>
      exact ⟨loadsMeta_dumps _, dumps_ne_nil (metaDict ⟨chunk.checksum, chunk.size⟩)⟩
  | registerFile t f uri size cs => exact h
  | _ => trivial

/-! ## The messages -/

namespace Nats

/-- What the client has taken over, for its subject. -/
def takenBy (t : Trace Client) : List (String × Bytes) :=
  t.filterMap fun e => if e.call.takes e.resp then e.call.message? else none

/-- What is taken has been handed over. -/
theorem takenBy_subset (t : Trace Client) : takenBy t ⊆ messagesIn t := by
  intro m hm
  rcases List.mem_filterMap.1 hm with ⟨e, he, htaken⟩
  split at htaken
  · exact List.mem_filterMap.2 ⟨e, he, htaken⟩
  · cases htaken

/-- The client takes something over exactly if the call has its effect. -/
theorem takenBy_ne_nil (t : Trace Client) : takenBy t ≠ [] ↔ handedOver t = true := by
  rw [ne_eq, takenBy, List.filterMap_eq_nil_iff, handedOver, List.any_eq_true]
  constructor
  · intro h
    rcases not_forall.1 h with ⟨e, he⟩
    rcases Classical.not_imp.1 he with ⟨hmem, htaken⟩
    refine ⟨e, hmem, ?_⟩
    by_contra hno
    exact htaken (if_neg hno)
  · intro h hall
    rcases h with ⟨e, hmem, htaken⟩
    have hnone := hall e hmem
    rw [if_pos htaken] at hnone
    rcases e with ⟨c, r⟩
    -- only a message is taken
    cases c with
    | publish subject data => cases hnone
    | _ => cases htaken

variable {attempts : Nat → Attempt} {p : NatsEventPublisher} {event : Event}
  {o : Except PublishExn Unit} {s : Nat × Trace Client}

/-- Whatever the client does: every message is read as the event, and what a subscriber that
drops repeats reads of those that are taken over is what the call adds to the world. -/
theorem messages_read (env : Env) (w : World)
    (h : Halts (play attempts) (p.publishFileUploadCompleted dumpsEvent event) (0, []) o s) :
    (∀ m ∈ messagesIn s.2, m.1 = p.subject ∧ readEvent m.2 = some event) ∧
      (handle env (asOutcome o s.2) (.publishFileUploadCompleted event) w).2.events.map some =
        w.events.map some ++ ((takenBy s.2).map fun m => readEvent m.2).dedup := by
  have hread : ∀ m ∈ messagesIn s.2, m.1 = p.subject ∧ readEvent m.2 = some event := by
    rcases halts_ended h with ⟨b, t₀, htried, _, hs⟩
    intro m hm
    rw [hs, messagesIn_append, List.mem_append] at hm
    have hm : m = (p.subject, dumpsEvent (eventPayload event)) := by
      rcases hm with hm | hm
      · exact htried.messages m hm
      · exact (triedCalls_observed _ _ _).2.2 m hm
    rw [hm]
    exact ⟨rfl, readEvent_dumps event⟩
  refine ⟨hread, ?_⟩
  rw [publisher_one_call env w h]
  by_cases hover : handedOver s.2 = true
  · -- all that is taken over reads as the one event
    have hne := (takenBy_ne_nil s.2).2 hover
    have hall : (takenBy s.2).map (fun m => readEvent m.2) =
        List.replicate (takenBy s.2).length (some event) := by
      rw [List.eq_replicate_iff, List.length_map]
      refine ⟨rfl, ?_⟩
      intro r hr
      rcases List.mem_map.1 hr with ⟨m, hm, rfl⟩
      exact (hread m (takenBy_subset s.2 hm)).2
    rw [if_pos hover, hall, List.replicate_dedup (by simpa using hne)]
    simp [respond, FileUploader.NatsEventPublisher.publishFileUploadCompleted]
  · have hnil : takenBy s.2 = [] := by
      by_contra hne
      exact hover ((takenBy_ne_nil s.2).1 hne)
    rw [if_neg hover, hnil]
    simp

namespace Demo

/-- The broker does not confirm the first message. -/
def flaky (i : Nat) : Attempt where
  isConnected := true
  isReconnecting := false
  publish := .ok ()
  flush := if i = 0 then .error (.clientError "nats: timeout") else .ok ()

end Demo

theorem messages_read_demo : ∃ o s,
    Halts (play Demo.flaky) (Demo.publisher.publishFileUploadCompleted dumpsEvent Demo.event)
      (0, []) o s ∧
    (handle FileUploader.Demo.env (asOutcome o s.2) (.publishFileUploadCompleted Demo.event)
        (World.empty 0)).2.events.map some =
      ((takenBy s.2).map fun m => readEvent m.2).dedup := by
  have hfinite : ∀ j, Demo.publisher.retryDelay.timesTwoPow j ≠ some (.infinity false) := by
    intro j
    have hzero : |Demo.publisher.retryDelay.val| * 2 ^ j < 2 ^ binary64.limit := by
      simp [Demo.publisher]
    exact FloatFormat.Finite.timesTwoPow_ne_infinity hzero false
  rcases exists_halts (p := Demo.publisher) Demo.flaky dumpsEvent Demo.event
    (fun j _ _ => hfinite j) with ⟨o, s, hhalts⟩
  exact ⟨o, s, hhalts, (messages_read FileUploader.Demo.env (World.empty 0) hhalts).2⟩

end Nats

end FileUploader
