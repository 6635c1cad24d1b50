import FileUploader.Alone

/-! # A finalize that runs alone

Both passes over the cached chunks see the same chunks: those at 0, 1, 2, … up to
the first one that is absent or empty. A finalize that runs alone either is refused,
finds malware among them, or makes one object of them, if S3 accepts it.
-/

namespace FileUploader

open Await Prog S3ObjectStorage

variable {env : Env}

/-! ## The two passes -/

/-- The chunks that the stream yields from index `k` on. -/
def StreamedFrom (w : World) (sid : UUID) : Nat → List Bytes → Prop
  | k, [] => w.chunk? sid k = none ∨ w.chunk? sid k = some []
  | k, data :: datas => w.chunk? sid k = some data ∧ data ≠ [] ∧ StreamedFrom w sid (k + 1) datas

/-- The chunks that `chunk_repo.get` finds from index `k` on. -/
def FetchedFrom (w : World) (sid : UUID) : Nat → List Bytes → Prop
  | k, [] => RedisChunkRepository.get w sid k = none
  | k, data :: datas => (∃ chunk, RedisChunkRepository.get w sid k = some chunk ∧
      chunk.rawBytes = data) ∧ FetchedFrom w sid (k + 1) datas

def CleanChunk (data : Bytes) : Prop := ¬ LocalVirusScanner.eicarSignature <:+: data

/-- The chunks from index `k` on are clean up to `bad`, which is not. -/
def InfectedFrom (w : World) (sid : UUID) (bad : Bytes) : Nat → List Bytes → Prop
  | k, [] => w.chunk? sid k = some bad ∧ ¬ CleanChunk bad
  | k, data :: datas => w.chunk? sid k = some data ∧ data ≠ [] ∧ CleanChunk data ∧
      InfectedFrom w sid bad (k + 1) datas

section Scan

variable {w w' : World} {sid : UUID}

theorem StreamedFrom.congr {k : Nat} {datas : List Bytes} (hs : StreamedFrom w sid k datas)
    (h : ∀ i : Nat, w'.chunk? sid i = w.chunk? sid i) : StreamedFrom w' sid k datas := by
  induction datas generalizing k with
  | nil =>
      unfold StreamedFrom at *
      rwa [h k]
  | cons data datas ih => exact ⟨(h k).trans hs.1, hs.2.1, ih hs.2.2⟩

/-- One step of the stream. -/
theorem exec_getStream (k : Nat) (o : Except Exn (Option (Bytes × Nat))) :
    Exec (works env) (ChunkRepository.getStream sid k) w o w' ↔ w' = w ∧
      ((w.chunk? sid k = none ∨ w.chunk? sid k = some []) ∧ o = .ok none ∨
        ∃ data, w.chunk? sid k = some data ∧ data ≠ [] ∧ o = .ok (some (data, k + 1))) := by
  rw [ChunkRepository.getStream, exec_ask_bind]
  simp only [respond, onOk_ok]
  cases hchunk : w.chunk? sid k with
  | none => simpa using and_comm
  | some data =>
      by_cases hempty : data = []
      · subst hempty
        simpa using and_comm
      · simpa [hempty] using and_comm

/-- The body of the scanner's loop over the cached chunks. -/
def scanRound (sid : UUID) (k : Nat) : Program (Nat ⊕ Bool) := do
  match ← ChunkRepository.getStream sid k with
  | none => pure (.inr true)
  | some (chunk, rest) =>
      raiseIf (LocalVirusScanner.eicarSignature <:+: chunk) LocalVirusScanner.threat
      pure (.inl rest)

theorem scanStream_eq (sid : UUID) (k : Nat) :
    LocalVirusScanner.scanStream (ChunkRepository.getStream sid) k = loop (scanRound sid) k := by
  unfold LocalVirusScanner.scanStream
  congr 1
  funext k
  unfold scanRound
  congr 1
  funext found
  cases found with
  | none => rfl
  | some found => rfl

/-- One round of the scan: it is over, finds malware, or goes on. -/
theorem exec_scanRound (k : Nat) (o : Except Exn (Nat ⊕ Bool)) :
    Exec (works env) (scanRound sid k) w o w' ↔ w' = w ∧
      ((w.chunk? sid k = none ∨ w.chunk? sid k = some []) ∧ o = .ok (.inr true) ∨
        ∃ data, w.chunk? sid k = some data ∧ data ≠ [] ∧
          (¬ CleanChunk data ∧ o = .error LocalVirusScanner.threat ∨
            CleanChunk data ∧ o = .ok (.inl (k + 1)))) := by
  rw [scanRound, exec_bind]
  simp only [exec_getStream]
  constructor
  · intro h
    rcases h with ⟨x, ⟨_, ⟨_, hx⟩ | ⟨_, _, _, hx⟩⟩, _⟩ | ⟨found, w₁, ⟨rfl, h⟩, hrest⟩
    · cases hx
    · cases hx
    -- what the stream has yielded decides
    rcases h with ⟨hend, hf⟩ | ⟨data, hdata, hne, hf⟩
    · cases hf
      rcases hrest with ⟨rfl, rfl⟩
      exact ⟨rfl, Or.inl ⟨hend, rfl⟩⟩
    · cases hf
      rcases (exec_raiseIf_bind _ _ _ _).1 hrest with ⟨hbad, rfl, rfl⟩ | ⟨hclean, rfl, rfl⟩
      · exact ⟨rfl, Or.inr ⟨data, hdata, hne, Or.inl ⟨not_not.2 hbad, rfl⟩⟩⟩
      · exact ⟨rfl, Or.inr ⟨data, hdata, hne, Or.inr ⟨hclean, rfl⟩⟩⟩
  · intro h
    rcases h with ⟨rfl, ⟨hend, rfl⟩ | ⟨data, hdata, hne, h⟩⟩
    · exact Or.inr ⟨none, w', ⟨rfl, Or.inl ⟨hend, rfl⟩⟩, rfl, rfl⟩
    · refine Or.inr ⟨some (data, k + 1), w', ⟨rfl, Or.inr ⟨data, hdata, hne, rfl⟩⟩, ?_⟩
      refine (exec_raiseIf_bind _ _ _ _).2 ?_
      rcases h with ⟨hbad, rfl⟩ | ⟨hclean, rfl⟩
      · exact Or.inl ⟨not_not.1 hbad, rfl, rfl⟩
      · exact Or.inr ⟨hclean, rfl, rfl⟩

/-- The scan from index `k` on. -/
theorem exec_scanStream (k : Nat) (o : Except Exn Bool) :
    Exec (works env) (LocalVirusScanner.scanStream (ChunkRepository.getStream sid) k) w o w' ↔
      w' = w ∧ ((∃ datas, StreamedFrom w sid k datas ∧ (∀ data ∈ datas, CleanChunk data) ∧
          o = .ok true) ∨
        ∃ datas bad, InfectedFrom w sid bad k datas ∧ o = .error LocalVirusScanner.threat) := by
  rw [scanStream_eq, exec_loop]
  constructor
  · intro h
    -- the rounds that were made give the chunks that were scanned
    induction h with
    | again hround hrest ih =>
        rcases (exec_scanRound _ _).1 hround with ⟨rfl, ⟨_, hx⟩ | ⟨data, hdata, hne, h⟩⟩
        · cases hx
        rcases h with ⟨_, hx⟩ | ⟨hclean, hx⟩
        · cases hx
        cases hx
        rcases ih with ⟨rfl, ⟨datas, hs, hall, rfl⟩ | ⟨datas, bad, hinf, rfl⟩⟩
        · refine ⟨rfl, Or.inl ⟨data :: datas, ⟨hdata, hne, hs⟩, ?_, rfl⟩⟩
          intro d hd
          rcases List.mem_cons.1 hd with rfl | hd
          · exact hclean
          · exact hall d hd
        · exact ⟨rfl, Or.inr ⟨data :: datas, bad, ⟨hdata, hne, hclean, hinf⟩, rfl⟩⟩
    | stop hround =>
        rcases (exec_scanRound _ _).1 hround with ⟨rfl, ⟨hend, hx⟩ | ⟨_, _, _, h⟩⟩
        · cases hx
          exact ⟨rfl, Or.inl ⟨[], hend, by simp, rfl⟩⟩
        · rcases h with ⟨_, hx⟩ | ⟨_, hx⟩ <;> cases hx
    | fail hround =>
        rcases (exec_scanRound _ _).1 hround with ⟨rfl, ⟨_, hx⟩ | ⟨data, hdata, _, h⟩⟩
        · cases hx
        rcases h with ⟨hbad, hx⟩ | ⟨_, hx⟩
        · cases hx
          exact ⟨rfl, Or.inr ⟨[], data, ⟨hdata, hbad⟩, rfl⟩⟩
        · cases hx
  · intro h
    rcases h with ⟨rfl, ⟨datas, hs, hall, rfl⟩ | ⟨datas, bad, hinf, rfl⟩⟩
    · -- clean to the end: one round for each chunk
      induction datas generalizing k with
      | nil => exact .stop ((exec_scanRound _ _).2 ⟨rfl, Or.inl ⟨hs, rfl⟩⟩)
      | cons data datas ih =>
          rcases hs with ⟨hdata, hne, hs⟩
          refine .again ((exec_scanRound _ _).2 ⟨rfl, Or.inr ⟨data, hdata, hne,
            Or.inr ⟨hall data (by simp), rfl⟩⟩⟩) (ih (k + 1) hs fun d hd => hall d ?_)
          exact List.mem_cons_of_mem data hd
    · -- clean up to the infected chunk, which ends the loop
      induction datas generalizing k with
      | nil =>
          refine .fail ((exec_scanRound _ _).2 ⟨rfl, Or.inr ⟨bad, hinf.1, ?_,
            Or.inl ⟨hinf.2, rfl⟩⟩⟩)
          intro hempty
          subst hempty
          exact hinf.2 (fun hfound => by
            rw [List.infix_nil] at hfound
            cases hfound)
      | cons data datas ih =>
          rcases hinf with ⟨hdata, hne, hclean, hinf⟩
          exact .again ((exec_scanRound _ _).2 ⟨rfl, Or.inr ⟨data, hdata, hne,
            Or.inr ⟨hclean, rfl⟩⟩⟩) (ih (k + 1) hinf)

end Scan

/-! ## The assembly -/

/-- The parts that S3 has answered with for these payloads. -/
def partsOf (env : Env) (datas : List Bytes) : List Part :=
  datas.mapIdx fun n data => ⟨env.etag data, n + 1⟩

/-- S3 has upload `u` open with these payloads as parts 1, 2, …. -/
def World.holding (w : World) (u : Nat) (key : String) (datas : List Bytes) : World :=
  { w with
    uploads := Function.update w.uploads u
      (some ⟨key, fun n => if n = 0 then none else datas[n - 1]?⟩) }

section Assembly

variable {w w' : World} {sid : UUID} {u : Nat} {t f : UUID} {datas : List Bytes}

theorem partsOf_append (datas : List Bytes) (data : Bytes) :
    partsOf env (datas ++ [data]) = partsOf env datas ++ [⟨env.etag data, datas.length + 1⟩] := by
  simp [partsOf, List.mapIdx_append]

theorem partsOf_getElem? {n : Nat} {part : Part} (h : (partsOf env datas)[n]? = some part) :
    ∃ data, datas[n]? = some data ∧ part = ⟨env.etag data, n + 1⟩ := by
  simp only [partsOf, List.getElem?_mapIdx, Option.map_eq_some_iff] at h
  rcases h with ⟨data, hdata, rfl⟩
  exact ⟨data, hdata, rfl⟩

theorem uploadPart_holding (data : Bytes) :
    uploadPart env (w.holding u (objectKey t f) datas) t f u (datas.length + 1) data =
      (.ok ⟨env.etag data, datas.length + 1⟩, w.holding u (objectKey t f) (datas ++ [data])) := by
  have hparts : Function.update (fun n => if n = 0 then none else datas[n - 1]?) (datas.length + 1)
      (some data) = fun n => if n = 0 then none else (datas ++ [data])[n - 1]? := by
    funext n
    by_cases hn : n = datas.length + 1
    · subst hn
      simp
    · rw [Function.update_of_ne hn]
      by_cases hzero : n = 0
      · simp [hzero]
      · rcases Nat.lt_or_ge (n - 1) datas.length with hlt | hge
        · rw [List.getElem?_append_left hlt]
        · rw [List.getElem?_eq_none hge, List.getElem?_eq_none (by simp; omega)]
  simp [uploadPart, World.holding, hparts]

theorem complete_holding : completeMultipartUpload env (w.holding u (objectKey t f) datas) t f u
      (partsOf env datas) =
    if env.s3Accepts (List.range' 1 datas.length) datas then
      (.ok (uri env (objectKey t f)),
        { w with
          objects := Function.update w.objects (objectKey t f) (some datas.flatten)
          uploads := Function.update w.uploads u none })
    else
      (.error (.clientError "InvalidRequest"), w.holding u (objectKey t f) datas) := by
  have hsorted : sortedParts (partsOf env datas) = partsOf env datas := by
    refine sortedParts_eq fun n part hpart => ?_
    rcases partsOf_getElem? hpart with ⟨data, _, rfl⟩
    rfl
  have hnumbers : (partsOf env datas).map (·.partNumber) = List.range' 1 datas.length := by
    apply List.ext_getElem?
    intro n
    simp only [partsOf, List.getElem?_map, List.getElem?_mapIdx, Option.map_map]
    by_cases hn : n < datas.length
    · simp [hn, Nat.add_comm]
    · simp [hn]
  have hpayloads : payloads env ⟨objectKey t f, fun n => if n = 0 then none else datas[n - 1]?⟩
      (partsOf env datas) = some datas := by
    refine payloads_eq (k := 1) (partsOf env datas) datas (by simp [partsOf]) ?_
    intro n part hpart
    rcases partsOf_getElem? hpart with ⟨data, hdata, rfl⟩
    exact ⟨data, hdata, rfl, by simpa using hdata⟩
  simp [completeMultipartUpload, World.holding, hsorted, hnumbers, hpayloads]

/-- The body of the assembly loop. -/
def partRound (v : UploadSession) (sid : UUID) (u : Nat) :
    Nat × List Part → Program ((Nat × List Part) ⊕ List Part) :=
  fun (partNumber, parts) => do
    match ← ChunkRepository.get sid ((partNumber : Int) - 1) with
    | none => pure (.inr parts)
    | some chunk =>
        let part ← ObjectStorage.uploadPart v.tenantId v.fileId u partNumber chunk.rawBytes
        pure (.inl (partNumber + 1, parts ++ [part]))

theorem uploadParts_eq (v : UploadSession) (sid : UUID) (u : Nat) :
    FinalizeUploadUseCase.uploadParts v sid u = loop (partRound v sid u) (1, []) := rfl

variable {v : UploadSession}

/-- One round of the assembly: there is no more chunk, or the next one becomes a part. -/
theorem exec_partRound (o : Except Exn ((Nat × List Part) ⊕ List Part)) :
    Exec (works env) (partRound v sid u (datas.length + 1, partsOf env datas))
      (w.holding u (objectKey v.tenantId v.fileId) datas) o w' ↔
      (RedisChunkRepository.get w sid datas.length = none ∧ o = .ok (.inr (partsOf env datas)) ∧
        w' = w.holding u (objectKey v.tenantId v.fileId) datas) ∨
      ∃ chunk, RedisChunkRepository.get w sid datas.length = some chunk ∧
        o = .ok (.inl ((datas ++ [chunk.rawBytes]).length + 1,
          partsOf env (datas ++ [chunk.rawBytes]))) ∧
        w' = w.holding u (objectKey v.tenantId v.fileId) (datas ++ [chunk.rawBytes]) := by
  have hindex : ((datas.length + 1 : Nat) : Int) - 1 = datas.length := by omega
  have hget : RedisChunkRepository.get (w.holding u (objectKey v.tenantId v.fileId) datas) sid
      datas.length = RedisChunkRepository.get w sid datas.length := rfl
  rw [partRound, ChunkRepository.get, exec_ask_bind]
  simp only [respond, onOk_ok, hindex, hget]
  cases hchunk : RedisChunkRepository.get w sid datas.length with
  | none => simp
  | some chunk =>
      simp only [ObjectStorage.uploadPart, exec_ask_bind, respond, uploadPart_holding, onOk_ok,
        partsOf_append]
      simp

/-- The assembly of the chunks from index `datas.length` on. -/
theorem rounds_partRound (o : Except Exn (List Part)) :
    Rounds (fun s => Exec (works env) (partRound v sid u s)) (datas.length + 1, partsOf env datas)
      (w.holding u (objectKey v.tenantId v.fileId) datas) o w' ↔
      ∃ rest, FetchedFrom w sid datas.length rest ∧ o = .ok (partsOf env (datas ++ rest)) ∧
        w' = w.holding u (objectKey v.tenantId v.fileId) (datas ++ rest) := by
  constructor
  · intro h
    generalize hs : (datas.length + 1, partsOf env datas) = s at h
    generalize hw : w.holding u (objectKey v.tenantId v.fileId) datas = w₀ at h
    -- each round has fetched one more chunk, until none was left
    induction h generalizing datas with
    | again hround _ ih =>
        subst hs hw
        rcases (exec_partRound _).1 hround with ⟨_, hx, _⟩ | ⟨chunk, hchunk, hx, hw⟩
        · cases hx
        cases hx
        rcases ih rfl hw.symm with ⟨rest, hrest, ho, hw'⟩
        refine ⟨chunk.rawBytes :: rest, ⟨⟨chunk, hchunk, rfl⟩, ?_⟩, ?_, ?_⟩
        · simpa using hrest
        · simpa using ho
        · simpa using hw'
    | stop hround =>
        subst hs hw
        rcases (exec_partRound _).1 hround with ⟨hnone, hx, hw⟩ | ⟨_, _, hx, _⟩
        · cases hx
          exact ⟨[], hnone, by simp, by simpa using hw⟩
        · cases hx
    | fail hround =>
        subst hs hw
        rcases (exec_partRound _).1 hround with ⟨_, hx, _⟩ | ⟨_, _, hx, _⟩ <;> cases hx
  · intro h
    rcases h with ⟨rest, hrest, rfl, rfl⟩
    -- one round for each chunk, and one that finds none
    induction rest generalizing datas with
    | nil => exact .stop ((exec_partRound _).2 (Or.inl ⟨hrest, by simp, by simp⟩))
    | cons data rest ih =>
        rcases hrest with ⟨⟨chunk, hchunk, rfl⟩, hrest⟩
        have hrest' : FetchedFrom w sid (datas ++ [chunk.rawBytes]).length rest := by
          simpa using hrest
        have hnext := ih hrest'
        rw [List.append_assoc, List.singleton_append] at hnext
        exact .again ((exec_partRound _).2 (Or.inr ⟨chunk, hchunk, rfl, rfl⟩)) hnext

/-- The next upload id is used up, and its upload gone. -/
def World.closed (w : World) : World :=
  { w with
    uploads := Function.update w.uploads w.nextUploadId none
    nextUploadId := w.nextUploadId + 1 }

/-- There is an object at `key`, made of these payloads. -/
def World.committed (w : World) (key : String) (datas : List Bytes) : World :=
  { w.closed with objects := Function.update w.objects key (some datas.flatten) }

/-- S3's own rules admit these payloads as parts 1, 2, …. -/
def S3Accepts (env : Env) (datas : List Bytes) : Prop :=
  env.s3Accepts (List.range' 1 datas.length) datas = true

theorem FetchedFrom.congr {w₁ w₂ : World} {k : Nat} (hf : FetchedFrom w₁ sid k datas)
    (h : ∀ k : Nat, RedisChunkRepository.get w₁ sid k = RedisChunkRepository.get w₂ sid k) :
    FetchedFrom w₂ sid k datas := by
  induction datas generalizing k with
  | nil => exact (h k).symm.trans hf
  | cons data datas ih =>
      rcases hf with ⟨⟨chunk, hchunk, hdata⟩, hf⟩
      exact ⟨⟨chunk, (h k).symm.trans hchunk, hdata⟩, ih hf⟩

/-- The world in which the next upload id has been given out. -/
def World.issued (w : World) : World := { w with nextUploadId := w.nextUploadId + 1 }

theorem initiate_holding (t f : UUID) : initiateMultipartUpload w t f =
    (w.nextUploadId, w.issued.holding w.nextUploadId (objectKey t f) []) := by
  have hnone : (fun _ : Nat => (none : Option Bytes)) =
      fun n => if n = 0 then none else ([] : List Bytes)[n - 1]? := by
    funext n
    simp
  simp [initiateMultipartUpload, World.holding, World.issued, hnone]

/-- The parts uploaded and the upload completed: S3 accepts it, or raises. -/
theorem exec_commit (o : Except Exn String) :
    Exec (works env) (do
      let parts ← FinalizeUploadUseCase.uploadParts v sid u
      ObjectStorage.completeMultipartUpload v.tenantId v.fileId u parts)
      (w.holding u (objectKey v.tenantId v.fileId) []) o w' ↔
      ∃ datas, FetchedFrom w sid 0 datas ∧
        o = (completeMultipartUpload env (w.holding u (objectKey v.tenantId v.fileId) datas)
          v.tenantId v.fileId u (partsOf env datas)).1 ∧
        w' = (completeMultipartUpload env (w.holding u (objectKey v.tenantId v.fileId) datas)
          v.tenantId v.fileId u (partsOf env datas)).2 := by
  have hrounds : ∀ (o : Except Exn (List Part)) w',
      Exec (works env) (FinalizeUploadUseCase.uploadParts v sid u)
        (w.holding u (objectKey v.tenantId v.fileId) []) o w' ↔
        ∃ datas, FetchedFrom w sid 0 datas ∧ o = .ok (partsOf env datas) ∧
          w' = w.holding u (objectKey v.tenantId v.fileId) datas := by
    intro o w'
    rw [uploadParts_eq, exec_loop]
    exact @rounds_partRound env w w' sid u [] v o
  rw [exec_bind]
  simp only [hrounds, ObjectStorage.completeMultipartUpload, exec_ask, respond]
  constructor
  · intro h
    rcases h with ⟨x, ⟨datas, _, hx, _⟩, _⟩ | ⟨parts, _, ⟨datas, hf, hx, rfl⟩, ho, hw⟩
    · cases hx
    · cases hx
      exact ⟨datas, hf, ho, hw⟩
  · intro h
    rcases h with ⟨datas, hf, ho, hw⟩
    exact Or.inr ⟨_, _, ⟨datas, hf, rfl, rfl⟩, ho, hw⟩

/-- What is left of an upload that has been aborted. -/
theorem abort_holding (w : World) (key : String) (datas : List Bytes) :
    abortMultipartUpload (w.issued.holding w.nextUploadId key datas) w.nextUploadId = w.closed := by
  simp [abortMultipartUpload, World.holding, World.issued, World.closed]

def assemblyError : Exn := .runtimeError "S3 Multipart upload failed: InvalidRequest"

/-- The assembly: an object is made of all chunks, or the session has failed. -/
theorem exec_assemble (o : Except Exn String) :
    Exec (works env) (FinalizeUploadUseCase.assemble v sid) w o w' ↔
      ∃ datas, FetchedFrom w sid 0 datas ∧
        (S3Accepts env datas ∧ o = .ok (uri env (objectKey v.tenantId v.fileId)) ∧
          w' = w.committed (objectKey v.tenantId v.fileId) datas ∨
        ¬ S3Accepts env datas ∧ o = .error assemblyError ∧
          w' = RedisSessionRepository.save w.closed v.fail) := by
  -- initiating the upload touches no chunk
  have hsame : ∀ k : Nat, RedisChunkRepository.get w.issued sid k =
      RedisChunkRepository.get w sid k := fun _ => rfl
  have hget : ∀ (datas : List Bytes), FetchedFrom w.issued sid 0 datas ↔
      FetchedFrom w sid 0 datas :=
    fun datas => ⟨fun hf => hf.congr hsame, fun hf => hf.congr fun k => (hsame k).symm⟩
  simp only [FinalizeUploadUseCase.assemble, ObjectStorage.initiateMultipartUpload, exec_ask_bind,
    respond, initiate_holding, onOk_ok, exec_tryExcept, exec_commit, hget, complete_holding,
    ObjectStorage.abortMultipartUpload, SessionRepository.save]
  constructor
  · intro h
    -- the commit has gone through, or its error has been handled
    rcases h with ⟨s3Uri, ⟨datas, hf, hx, hw⟩, rfl⟩ | ⟨x, w₁, ⟨datas, hf, hx, hw⟩, hrest⟩
    · refine ⟨datas, hf, ?_⟩
      by_cases hacc : env.s3Accepts (List.range' 1 datas.length) datas
      · simp only [hacc, if_true, Except.ok.injEq] at hx hw
        exact Or.inl ⟨hacc, by rw [hx], hw⟩
      · simp [hacc] at hx
    · refine ⟨datas, hf, ?_⟩
      by_cases hacc : env.s3Accepts (List.range' 1 datas.length) datas
      · simp [hacc] at hx
      · simp only [hacc, Bool.false_eq_true, if_false, Except.error.injEq] at hx hw
        subst hx hw
        rw [abort_holding] at hrest
        rcases hrest with ⟨rfl, rfl⟩
        exact Or.inr ⟨hacc, rfl, rfl⟩
  · intro h
    rcases h with ⟨datas, hf, ⟨hacc, rfl, rfl⟩ | ⟨hacc, rfl, rfl⟩⟩
    · have haccept : env.s3Accepts (List.range' 1 datas.length) datas = true := hacc
      refine Or.inl ⟨_, ⟨datas, hf, ?_, ?_⟩, rfl⟩
      · simp [haccept]
      · simp [haccept]
        rfl
    · have haccept : ¬ env.s3Accepts (List.range' 1 datas.length) datas = true := hacc
      refine Or.inr ⟨.clientError "InvalidRequest", _, ⟨datas, hf, ?_, rfl⟩, ?_⟩
      · simp [haccept]
      · rw [if_neg haccept, abort_holding]
        exact ⟨rfl, rfl⟩

end Assembly

/-! ## The whole request -/

/-- What a finalize may work on: a live session with all bytes uploaded, and its lock. -/
structure Finalizable (w : World) (sid : UUID) (v : UploadSession) : Prop where
  live : w.session? sid = some v
  opened : v.Open
  full : v.currentOffset = v.totalSize
  free : w.lock? sid = none

/-- The committed object is registered and announced. -/
def World.published (w : World) (v : UploadSession) (s3Uri : String) : World :=
  NatsEventPublisher.publishFileUploadCompleted
    (RedisMetadataRegistry.registerFile RedisMetadataRegistry.wiredTtl w v.tenantId s3Uri
      v.checksum)
    ⟨v.tenantId, v.fileId, s3Uri, v.totalSize, v.checksum⟩

section Finalize

variable {w w' : World} {sid : UUID} {v : UploadSession}

/-- The session has failed, and is gone with its chunks. -/
def World.quarantined (w : World) (v : UploadSession) (sid : UUID) : World :=
  RedisSessionRepository.delete (RedisChunkRepository.deleteAll
    (RedisSessionRepository.save w v.fail) sid) sid

/-- The scan of a finalize, with what it does about malware. -/
theorem exec_scan (o : Except Exn Bool) :
    Exec (works env) (FinalizeUploadUseCase.scan v sid) w o w' ↔
      (∃ datas, StreamedFrom w sid 0 datas ∧ (∀ data ∈ datas, CleanChunk data) ∧ o = .ok true ∧
        w' = w) ∨
      ∃ datas bad, InfectedFrom w sid bad 0 datas ∧ o = .error LocalVirusScanner.threat ∧
        w' = w.quarantined v sid := by
  -- the handler of the malware
  have hpurge : ∀ (o : Except Exn Bool) w', Exec (works env) (do
      SessionRepository.save v.fail
      ChunkRepository.deleteAll sid
      SessionRepository.delete sid
      raise LocalVirusScanner.threat) w o w' ↔
        o = .error LocalVirusScanner.threat ∧ w' = w.quarantined v sid := by
    intro o w'
    simp only [SessionRepository.save, ChunkRepository.deleteAll, SessionRepository.delete,
      exec_ask_bind, respond, onOk_ok]
    exact exec_raise (S := Collab) _ o
  rw [FinalizeUploadUseCase.scan, exec_tryExcept]
  simp only [exec_scanStream]
  constructor
  · intro h
    rcases h with ⟨a, ⟨rfl, ⟨datas, hs, hall, hx⟩ | ⟨_, _, _, hx⟩⟩, rfl⟩ |
      ⟨x, _, ⟨rfl, ⟨_, _, _, hx⟩ | ⟨datas, bad, hinf, hx⟩⟩, hrest⟩
    · cases hx
      exact Or.inl ⟨datas, hs, hall, rfl, rfl⟩
    · cases hx
    · cases hx
    · cases hx
      rcases (hpurge _ _).1 hrest with ⟨rfl, rfl⟩
      exact Or.inr ⟨datas, bad, hinf, rfl, rfl⟩
  · intro h
    rcases h with ⟨datas, hs, hall, rfl, rfl⟩ | ⟨datas, bad, hinf, rfl, rfl⟩
    · exact Or.inl ⟨true, ⟨rfl, Or.inl ⟨datas, hs, hall, rfl⟩⟩, rfl⟩
    · exact Or.inr ⟨LocalVirusScanner.threat, w, ⟨rfl, Or.inr ⟨datas, bad, hinf, rfl⟩⟩,
        (hpurge _ _).2 ⟨rfl, rfl⟩⟩

theorem exec_publish (hfull : v.currentOffset = v.totalSize) (s3Uri : String)
    (o : Except Exn String) :
    Exec (works env) (FinalizeUploadUseCase.publish v sid s3Uri) w o w' ↔ o = .ok s3Uri ∧
      w' = RedisSessionRepository.delete (RedisChunkRepository.deleteAll
        (w.published v s3Uri) sid) sid := by
  simp only [FinalizeUploadUseCase.publish, MetadataRegistry.registerFile,
    EventPublisher.publishFileUploadCompleted, ChunkRepository.deleteAll, SessionRepository.delete,
    exec_ask_bind, respond, onOk_ok, exec_ofExcept_bind, UploadSession.complete_eq_ok hfull]
  exact exec_pure (S := Collab) s3Uri o

/-- How the critical section of a finalize ends: malware is found, an object is
committed and announced, or S3 refuses the chunks. -/
inductive Finalized (env : Env) (w : World) (sid : UUID) (v : UploadSession) :
    Except Exn String → World → Prop where
  | infected {datas : List Bytes} {bad : Bytes} (h : InfectedFrom w sid bad 0 datas) :
      Finalized env w sid v (.error LocalVirusScanner.threat) (w.quarantined v sid)
  | refused {streamed datas : List Bytes} (hstream : StreamedFrom w sid 0 streamed)
      (hclean : ∀ data ∈ streamed, CleanChunk data) (hfetch : FetchedFrom w sid 0 datas)
      (hs3 : ¬ S3Accepts env datas) :
      Finalized env w sid v (.error assemblyError) (RedisSessionRepository.save w.closed v.fail)
  | committed {streamed datas : List Bytes} (hstream : StreamedFrom w sid 0 streamed)
      (hclean : ∀ data ∈ streamed, CleanChunk data) (hfetch : FetchedFrom w sid 0 datas)
      (hs3 : S3Accepts env datas) :
      Finalized env w sid v (.ok (uri env (objectKey v.tenantId v.fileId)))
        (RedisSessionRepository.delete (RedisChunkRepository.deleteAll
          ((w.committed (objectKey v.tenantId v.fileId) datas).published v
            (uri env (objectKey v.tenantId v.fileId))) sid) sid)

theorem exec_critical (hfull : v.currentOffset = v.totalSize) (o : Except Exn String) :
    Exec (works env) (do
      let _ ← FinalizeUploadUseCase.scan v sid
      let s3Uri ← FinalizeUploadUseCase.assemble v sid
      FinalizeUploadUseCase.publish v sid s3Uri) w o w' ↔ Finalized env w sid v o w' := by
  simp only [exec_bind (S := Collab), exec_scan, exec_assemble, exec_publish hfull]
  -- the three ways it can end are the three of `Finalized`
  constructor
  · intro h
    rcases h with ⟨x, ⟨_, _, _, hx, _⟩ | ⟨datas, bad, hinf, hx, rfl⟩, rfl⟩ |
      ⟨_, w₁, ⟨streamed, hs, hall, _, rfl⟩ | ⟨_, _, _, hx, _⟩, h⟩
    · cases hx
    · cases hx
      exact .infected hinf
    · rcases h with ⟨x, ⟨datas, hf, ⟨_, hx, _⟩ | ⟨hacc, hx, rfl⟩⟩, rfl⟩ |
        ⟨_, _, ⟨datas, hf, ⟨hacc, hx, rfl⟩ | ⟨_, hx, _⟩⟩, rfl, rfl⟩
      · cases hx
      · cases hx
        exact .refused hs hall hf hacc
      · cases hx
        exact .committed hs hall hf hacc
      · cases hx
    · cases hx
  · intro h
    cases h with
    | infected hinf => exact Or.inl ⟨_, Or.inr ⟨_, _, hinf, rfl, rfl⟩, rfl⟩
    | refused hs hall hf hacc =>
        exact Or.inr ⟨true, w, Or.inl ⟨_, hs, hall, rfl, rfl⟩,
          Or.inl ⟨_, ⟨_, hf, Or.inr ⟨hacc, rfl, rfl⟩⟩, rfl⟩⟩
    | committed hs hall hf hacc =>
        exact Or.inr ⟨true, w, Or.inl ⟨_, hs, hall, rfl, rfl⟩,
          Or.inr ⟨_, _, ⟨_, hf, Or.inl ⟨hacc, rfl, rfl⟩⟩, rfl, rfl⟩⟩

theorem alone_finalize (h : Finalizable w sid v) (r : Except Exn Response) :
    Alone env (.finalize sid) w r w' ↔ ∃ o w₁, Finalized env (w.locking sid) sid v o w₁ ∧
      r = o.map .finalized ∧ w' = w₁.unlocked sid := by
  have hdone : ¬ v.status = .completed := fun hs => h.opened (by simp [hs])
  have hover : ¬ v.status ∈ [UploadStatus.aborted, .failed] := fun hs =>
    h.opened (List.mem_cons_of_mem _ hs)
  have hfull : ¬ v.currentOffset ≠ v.totalSize := not_not.2 h.full
  simp only [Alone, Op.prog, exec_map, FinalizeUploadUseCase.execute, exec_requireSession_bind,
    exec_raiseIf_bind, exec_acquireLock_bind, exec_releasing, h.live, h.free]
  simp only [reduceCtorEq, false_and, false_or, Option.some.injEq, exists_eq_left', exists_false,
    hdone, hover, hfull, not_false_eq_true, true_and, exec_critical h.full]
  constructor
  · intro hw
    rcases hw with ⟨o, ⟨w₁, hf, hw⟩, hr⟩
    exact ⟨o, w₁, hf, hr, hw⟩
  · intro hw
    rcases hw with ⟨o, w₁, hf, hr, hw⟩
    exact ⟨o, ⟨w₁, hf, hw⟩, hr⟩

/-- Otherwise it changes nothing. -/
theorem finalize_refused {r : Except Exn Response} (h : Alone env (.finalize sid) w r w')
    (hno : ∀ v, ¬ Finalizable w sid v) : w' = w ∧ ∃ x, r = .error x := by
  simp only [Alone, Op.prog, exec_map, FinalizeUploadUseCase.execute, exec_requireSession_bind,
    exec_raiseIf_bind, exec_acquireLock_bind] at h
  rcases h with ⟨o, ⟨_, rfl, rfl⟩ | ⟨v, hlive, ⟨_, rfl, rfl⟩ | ⟨hdone, ⟨_, rfl, rfl⟩ | ⟨hover,
    ⟨_, rfl, rfl⟩ | ⟨hfull, ⟨_, rfl, rfl⟩ | ⟨hfree, _⟩⟩⟩⟩⟩, rfl⟩
  · exact ⟨rfl, _, rfl⟩
  · exact ⟨rfl, _, rfl⟩
  · exact ⟨rfl, _, rfl⟩
  · exact ⟨rfl, _, rfl⟩
  · exact ⟨rfl, _, rfl⟩
  · refine absurd ⟨hlive, ?_, not_not.1 hfull, hfree⟩ (hno v)
    intro hs
    rcases List.mem_cons.1 hs with hs | hs
    · exact hdone hs
    · exact hover hs

end Finalize

end FileUploader
