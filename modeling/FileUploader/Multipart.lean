import FileUploader.Assembly
import FileUploader.Cleanup
import FileUploader.Locking
import FileUploader.Store.Runs
import FileUploader.Truncation

/-! # Multipart validity

S3 exempts the part with the highest number from the minimum size, an upload of a chunk
exempts the one that brings the offset to the size of the file. Which of the cached chunks
comes last is up to the indices that the client has chosen, not to the order in which they
came; and nothing bounds the number of chunks.
-/

namespace FileUploader

open Await Prog S3ObjectStorage

variable {env : Env}

/-! ## The parts of a finalize -/

/-- The part that a call has uploaded for multipart upload `u`: number and payload. -/
def Call.sent (u : Nat) : (c : Call) → Except Exn c.Resp → Option (Nat × Bytes)
  | .uploadPart _ _ u' n data, .ok _ => if u' = u then some (n, data) else none
  | _, _ => none

/-- The parts that have been uploaded for `u`, in order. -/
def sentParts (u : Nat) (t : Trace Collab) : List (Nat × Bytes) :=
  t.filterMap fun e => e.call.sent u e.resp

/-- A part is uploaded, or the upload is to be completed. -/
def Call.transfers : Call → Bool
  | .uploadPart .. | .completeMultipartUpload .. => true
  | _ => false

def Call.completes : Call → Bool
  | .completeMultipartUpload .. => true
  | _ => false

/-- These payloads as parts 1, 2, …. -/
def asParts (datas : List Bytes) : List (Nat × Bytes) := datas.mapIdx fun n data => (n + 1, data)

/-- The chunks of `sid` are found as before. -/
def SameChunks (sid : UUID) (w w' : World) : Prop :=
  ∀ i, RedisChunkRepository.get w' sid i = RedisChunkRepository.get w sid i

section Traces

variable {t t' : Trace Collab} {u : Nat}

@[simp] theorem sentParts_append :
    sentParts u (t ++ t') = sentParts u t ++ sentParts u t' := List.filterMap_append

/-- Nothing is sent by calls that transfer nothing. -/
theorem sentParts_eq_nil (h : ∀ e ∈ t, e.call.transfers = false) : sentParts u t = [] := by
  refine List.filterMap_eq_nil_iff.2 fun e he => ?_
  have hc := h e he
  rcases e with ⟨c, r⟩
  cases c with
  | uploadPart tn f u' n data => cases hc
  | _ => rfl

theorem completes_eq_false (h : ∀ e ∈ t, e.call.transfers = false) :
    ∀ e ∈ t, e.call.completes = false := by
  intro e he
  have hc := h e he
  rcases e with ⟨c, r⟩
  cases c with
  | completeMultipartUpload tn f u' parts => cases hc
  | _ => rfl

@[simp] theorem asParts_append (datas : List Bytes) (data : Bytes) :
    asParts (datas ++ [data]) = asParts datas ++ [(datas.length + 1, data)] := by
  simp [asParts, List.mapIdx_append]

theorem asParts_getElem? (datas : List Bytes) (n : Nat) :
    (asParts datas)[n]? = datas[n]?.map fun data => (n + 1, data) := List.getElem?_mapIdx

/-- The list given to `complete_multipart_upload` names the parts that were sent. -/
theorem partsOf_eq (datas : List Bytes) :
    partsOf env datas = (asParts datas).map fun p => ⟨env.etag p.2, p.1⟩ := by
  apply List.ext_getElem?
  intro n
  rw [List.getElem?_map, asParts_getElem?, partsOf, List.getElem?_mapIdx, Option.map_map]
  rfl

/-- The parts are numbered 1, 2, 3, …. -/
theorem asParts_numbers (datas : List Bytes) :
    (asParts datas).map (·.1) = List.range' 1 datas.length := by
  apply List.ext_getElem?
  intro n
  rw [List.getElem?_map, asParts_getElem?, Option.map_map]
  by_cases hn : n < datas.length
  · simp [hn, Nat.add_comm]
  · simp [hn]

theorem SameChunks.trans {sid : UUID} {w w₁ w₂ : World} (h₁ : SameChunks sid w w₁)
    (h₂ : SameChunks sid w₁ w₂) : SameChunks sid w w₂ := fun i => (h₂ i).trans (h₁ i)

/-- Only saving or deleting a chunk makes a difference. -/
theorem sameChunks_handle {sid : UUID} {out : Outcome} {c : Call} {w : World}
    (hsave : ∀ chunk, c ≠ .chunkSave sid chunk) (hall : c ≠ .deleteAll sid) :
    SameChunks sid w (handle env out c w).2 := by
  intro i
  rcases handle_chunk? env out c w sid i with ⟨hc, hm⟩ | ⟨chunk, hcall, _⟩ | ⟨hcall, _⟩
  · unfold RedisChunkRepository.get
    rw [hc, hm]
  · exact absurd hcall (hsave chunk)
  · exact absurd hcall hall

end Traces

/-- The parts that complete upload `u` are the cached chunks, each sent under its number. -/
def Transferred (env : Env) (w : World) (sid : UUID) (u : Nat) (parts : List Part)
    (t : Trace Collab) : Prop :=
  ∃ datas, FetchedFrom w sid 0 datas ∧ parts = partsOf env datas ∧ sentParts u t = asParts datas

section Assembly

variable {ok : Pattern} {w w' : World} {t t' : Trace Collab} {sid : UUID} {u : Nat}
  {v : UploadSession} {datas : List Bytes}

/-- One round of the assembly that has ended well. -/
theorem partRound_sent {s : (Nat × List Part) ⊕ List Part}
    (h : Exec (faulty env ok) (partRound v sid u (datas.length + 1, partsOf env datas)) (w, t)
      (.ok s) (w', t')) : SameChunks sid w w' ∧
    ((RedisChunkRepository.get w sid datas.length = none ∧ s = .inr (partsOf env datas) ∧
        sentParts u t' = sentParts u t) ∨
      ∃ chunk, RedisChunkRepository.get w sid datas.length = some chunk ∧
        s = .inl ((datas ++ [chunk.rawBytes]).length + 1,
          partsOf env (datas ++ [chunk.rawBytes])) ∧
        sentParts u t' = sentParts u t ++ [(datas.length + 1, chunk.rawBytes)]) := by
  have hindex : ((datas.length + 1 : Nat) : Int) - 1 = datas.length := by omega
  rw [partRound, ChunkRepository.get, exec_faulty_bind, hindex] at h
  rcases h with ⟨out, _, h⟩
  have hfetch : SameChunks sid w (handle env out (.chunkGet sid datas.length) w).2 :=
    sameChunks_handle (by simp) (by simp)
  cases out with
  | raises msg => cases h.1
  | raisesAfter msg => cases h.1
  | works =>
      simp only [handle, respond, onOk_ok] at h hfetch
      -- no chunk: the loop ends; a chunk: it is sent as the next part
      cases hget : RedisChunkRepository.get w sid datas.length with
      | none =>
          rw [hget] at h
          rcases h with ⟨ho, hs⟩
          cases ho
          cases hs
          refine ⟨hfetch, Or.inl ⟨rfl, rfl, ?_⟩⟩
          rw [sentParts_append]
          exact List.append_nil _
      | some chunk =>
          rw [hget] at h
          simp only [ObjectStorage.uploadPart, exec_faulty_bind] at h
          rcases h with ⟨out, _, h⟩
          have hsend : SameChunks sid w (handle env out
              (.uploadPart v.tenantId v.fileId u (datas.length + 1) chunk.rawBytes) w).2 :=
            sameChunks_handle (by simp) (by simp)
          cases hpart : (handle env out
              (.uploadPart v.tenantId v.fileId u (datas.length + 1) chunk.rawBytes) w).1 with
          | error x =>
              rw [hpart] at h
              cases h.1
          | ok part =>
              rcases handle_partUploaded env out _ w (by rw [hpart]; rfl) with
                ⟨_, _, _, _, _, hcall, hpart', _⟩
              cases hcall
              rw [hpart, onOk_ok] at h
              rcases h with ⟨ho, hs⟩
              cases ho
              cases hs
              refine ⟨hsend, Or.inr ⟨chunk, rfl, ?_, ?_⟩⟩
              · rw [partsOf_append, hpart']
                simp
              · rw [sentParts_append, sentParts_append]
                simp [sentParts, Call.sent]

/-- The assembly loop from index `datas.length` on. -/
theorem rounds_sent {o : Except Exn (List Part)} {s s' : World × Trace Collab}
    {start : Nat × List Part}
    (h : Rounds (fun s => Exec (faulty env ok) (partRound v sid u s)) start s o s')
    (hstart : start = (datas.length + 1, partsOf env datas)) (hsame : SameChunks sid w s.1)
    {parts : List Part} (ho : o = .ok parts) :
    ∃ rest, FetchedFrom w sid datas.length rest ∧ parts = partsOf env (datas ++ rest) ∧
      (sentParts u s.2 = asParts datas → sentParts u s'.2 = asParts (datas ++ rest)) := by
  -- over the rounds; `datas` are the chunks sent before
  induction h generalizing datas with
  | again hround _ ih =>
      subst hstart
      rcases partRound_sent hround with ⟨hkept, ⟨_, hx, _⟩ | ⟨chunk, hchunk, hnext, hsent⟩⟩
      · cases hx
      · cases hnext
        rcases ih rfl (hsame.trans hkept) ho with ⟨rest, hrest, hparts, hall⟩
        refine ⟨chunk.rawBytes :: rest, ⟨⟨chunk, ?_, rfl⟩, ?_⟩, ?_, fun hbefore => ?_⟩
        · exact (hsame _).symm.trans hchunk
        · simpa using hrest
        · simpa using hparts
        · rw [List.append_cons]
          refine hall ?_
          rw [hsent, hbefore, asParts_append]
  | stop hround =>
      subst hstart
      cases ho
      rcases partRound_sent hround with ⟨_, ⟨hnone, hlast, hsent⟩ | ⟨_, _, hx, _⟩⟩
      · cases hlast
        refine ⟨[], (hsame _).symm.trans hnone, by simp, fun hbefore => ?_⟩
        rw [hsent, hbefore, List.append_nil]
      · cases hx
  | fail _ => cases ho

/-- No part is uploaded and no upload completed. -/
def Call.Idle (c : Call) : Prop := c.transfers = false

/-- A completion is not among calls that have nothing to do with parts. -/
theorem not_mem_of_idle {t : Trace Collab} (hidle : ∀ e ∈ t, e.call.Idle) {e : Answered Collab}
    {tn f : UUID} {parts : List Part} (hc : e.call = .completeMultipartUpload tn f u parts) :
    e ∉ t := by
  intro he
  have hbad := hidle e he
  rw [Call.Idle, hc] at hbad
  cases hbad

/-- Between the initiate and the end of the `try`: the only completion is the last call. -/
theorem commit_transferred {o : Except Exn String} (hempty : sentParts u t = [])
    (hnone : ∀ e ∈ t, e.call.completes = false)
    (h : Exec (faulty env ok) (FinalizeUploadUseCase.commit v sid u) (w, t) o (w', t'))
    {e : Answered Collab} (he : e ∈ t') {tn f : UUID} {u' : Nat} {parts : List Part}
    (hc : e.call = .completeMultipartUpload tn f u' parts) :
    u' = u ∧ Transferred env w sid u parts t' := by
  -- in the loop nothing is completed
  have hloop : ∀ {o : Except Exn (List Part)} {w₁ : World} {t₁ : Trace Collab},
      Exec (faulty env ok) (FinalizeUploadUseCase.uploadParts v sid u) (w, t) o (w₁, t₁) →
      e ∉ t₁ := by
    intro o w₁ t₁ hparts hmem
    have hmakes : Makes (fun c : Call => c.completes = false)
        (FinalizeUploadUseCase.uploadParts v sid u) :=
      uploadParts_makes (fun _ => rfl) (fun _ _ => rfl)
    rcases faulty_trace hmakes hparts with ⟨made, rfl, hmade⟩
    have hcompletes : e.call.completes = false := by
      rcases List.mem_append.1 hmem with hmem | hmem
      · exact hnone e hmem
      · exact hmade e hmem
    rw [hc] at hcompletes
    cases hcompletes
  rcases (exec_bind (S := Collab) _ _ _).1 h with ⟨x, hparts, _⟩ | ⟨parts', ⟨w₁, t₁⟩, hparts, h⟩
  · exact absurd he (hloop hparts)
  · rcases (exec_await (S := Collab) _ _).1 h with ⟨out, _, _, hs⟩
    cases hs
    rcases List.mem_append.1 he with he | he
    · exact absurd he (hloop hparts)
    rw [List.mem_singleton.1 he] at hc
    cases hc
    have hrounds : Rounds (fun s => Exec (faulty env ok) (partRound v sid u s)) (1, []) (w, t)
        (.ok parts) (w₁, t₁) := by
      rw [uploadParts_eq, exec_loop] at hparts
      exact hparts
    have hstart : (1, []) = (([] : List Bytes).length + 1, partsOf env []) := rfl
    have hkept : SameChunks sid w w := fun _ => rfl
    rcases rounds_sent hrounds hstart hkept rfl with ⟨datas, hfetch, hmade, hsent⟩
    refine ⟨rfl, datas, hfetch, hmade, ?_⟩
    rw [sentParts_append, hsent hempty]
    simp [sentParts, Call.sent]

/-- The assembly: the upload is completed with the parts that have been sent, if at all. -/
theorem assemble_transferred {o : Except Exn String} (hidle : ∀ e ∈ t, e.call.Idle)
    (h : Exec (faulty env ok) (FinalizeUploadUseCase.assemble v sid) (w, t) o (w', t'))
    {e : Answered Collab} (he : e ∈ t') {tn f : UUID} {parts : List Part}
    (hc : e.call = .completeMultipartUpload tn f u parts) : Transferred env w sid u parts t' := by
  rw [FinalizeUploadUseCase.assemble_eq, ObjectStorage.initiateMultipartUpload,
    exec_faulty_bind] at h
  rcases h with ⟨out, _, h⟩
  have hsame : SameChunks sid w
      (handle env out (.initiateMultipartUpload v.tenantId v.fileId) w).2 :=
    sameChunks_handle (by simp) (by simp)
  -- up to the initiating call no part has been sent and nothing completed
  have hopen : ∀ e ∈ t ++ [⟨.initiateMultipartUpload v.tenantId v.fileId,
      (handle env out (.initiateMultipartUpload v.tenantId v.fileId) w).1⟩], e.call.Idle := by
    intro e he
    rcases List.mem_append.1 he with he | he
    · exact hidle e he
    · rw [List.mem_singleton.1 he]
      rfl
  -- if the upload is not initiated, nothing is completed
  cases hinit : (handle env out (.initiateMultipartUpload v.tenantId v.fileId) w).1 with
  | error x =>
      rw [hinit] at h hopen
      cases h.2
      exact absurd he (not_mem_of_idle hopen hc)
  | ok u' =>
      rw [hinit, onOk_ok] at h
      rw [hinit] at hopen
      have hcommit : ∀ {o₁ : Except Exn String} {w₁ : World} {t₁ : Trace Collab},
          Exec (faulty env ok) (FinalizeUploadUseCase.commit v sid u')
            ((handle env out (.initiateMultipartUpload v.tenantId v.fileId) w).2,
              t ++ [⟨.initiateMultipartUpload v.tenantId v.fileId, .ok u'⟩]) o₁ (w₁, t₁) →
          e ∈ t₁ → Transferred env w sid u parts t₁ := by
        intro o₁ w₁ t₁ hexec hmem
        rcases commit_transferred (sentParts_eq_nil hopen) (completes_eq_false hopen) hexec hmem
          hc with ⟨rfl, datas, hfetch, hrest⟩
        exact ⟨datas, hfetch.congr fun k => hsame k, hrest⟩
      rcases (exec_tryExcept _ _ _).1 h with ⟨a, hexec, rfl⟩ | ⟨x, ⟨w₁, t₁⟩, hexec, hgive⟩
      · exact hcommit hexec he
      · -- giving up sends nothing
        have hmakes : Makes Call.Idle (FinalizeUploadUseCase.giveUp v u' x) := by
          refine makes_bind ((makes_ask _).2 rfl) fun _ => ?_
          exact makes_bind ((makes_ask _).2 rfl) fun _ => makes_raise (S := Collab) _
        rcases faulty_trace hmakes hgive with ⟨made, rfl, hmade⟩
        rcases List.mem_append.1 he with he | he
        · rcases hcommit hexec he with ⟨datas, hfetch, hparts, hsent⟩
          refine ⟨datas, hfetch, hparts, ?_⟩
          rw [sentParts_append, sentParts_eq_nil hmade, List.append_nil, hsent]
        · exact absurd he (not_mem_of_idle hmade hc)

/-- The scan leaves the chunks alone, if it lets the finalize go on. -/
theorem scan_sameChunks {clean : Bool}
    (h : Exec (faulty env ok) (FinalizeUploadUseCase.scan v sid) (w, t) (.ok clean) (w', t')) :
    SameChunks sid w w' := by
  have hmakes : Makes (fun c : Call => (∀ chunk, c ≠ .chunkSave sid chunk) ∧ c ≠ .deleteAll sid)
      (LocalVirusScanner.scanStream (ChunkRepository.getStream sid) 0) :=
    scanStream_makes fun _ => ⟨by simp, by simp⟩
  refine faulty_keeps hmakes (SameChunks sid w) ?_ (scan_returned h) fun _ => rfl
  intro out c w₁ hc hw₁
  exact hw₁.trans (sameChunks_handle hc.1 hc.2)

/-- Whatever upload the finalize completes, it has transferred the chunks to it. -/
theorem critical_transferred {o : Except Exn String} (hidle : ∀ e ∈ t, e.call.Idle)
    (h : Exec (faulty env ok) (FinalizeUploadUseCase.critical v sid) (w, t) o (w', t'))
    {e : Answered Collab} (he : e ∈ t') {tn f : UUID} {parts : List Part}
    (hc : e.call = .completeMultipartUpload tn f u parts) : Transferred env w sid u parts t' := by
  -- only the assembly sends or completes anything
  have hscans : Makes Call.Idle (FinalizeUploadUseCase.scan v sid) :=
    scan_makes (fun _ => rfl) rfl rfl rfl
  have hpublishes : ∀ s3Uri, Makes Call.Idle (FinalizeUploadUseCase.publish v sid s3Uri) :=
    fun s3Uri => publish_makes rfl (fun _ => rfl) rfl rfl
  have hscanned : ∀ {made : Trace Collab}, (∀ e ∈ made, e.call.Idle) →
      ∀ e ∈ t ++ made, e.call.Idle := by
    intro made hmade e he
    rcases List.mem_append.1 he with he | he
    · exact hidle e he
    · exact hmade e he
  -- the scan has raised: nothing has been completed
  rcases (exec_bind (S := Collab) _ _ _).1 h with ⟨x, hscan, _⟩ | ⟨_, ⟨w₁, t₁⟩, hscan, h⟩
  · rcases faulty_trace hscans hscan with ⟨made, rfl, hmade⟩
    exact absurd he (not_mem_of_idle (hscanned hmade) hc)
  have hsame := scan_sameChunks hscan
  rcases faulty_trace hscans hscan with ⟨made, rfl, hmade⟩
  have hassembled : ∀ {o₁ : Except Exn String} {w₂ : World} {t₂ : Trace Collab},
      Exec (faulty env ok) (FinalizeUploadUseCase.assemble v sid) (w₁, t ++ made) o₁ (w₂, t₂) →
      e ∈ t₂ → Transferred env w sid u parts t₂ := by
    intro o₁ w₂ t₂ hexec hmem
    rcases assemble_transferred (hscanned hmade) hexec hmem hc with ⟨datas, hfetch, hrest⟩
    exact ⟨datas, hfetch.congr fun k => hsame k, hrest⟩
  rcases (exec_bind (S := Collab) _ _ _).1 h with ⟨x, hassemble, _⟩ | ⟨s3Uri, ⟨w₂, t₂⟩, hassemble,
    hpublish⟩
  · exact hassembled hassemble he
  · rcases faulty_trace (hpublishes s3Uri) hpublish with ⟨told, rfl, htold⟩
    rcases List.mem_append.1 he with he | he
    · rcases hassembled hassemble he with ⟨datas, hfetch, hparts, hsent⟩
      refine ⟨datas, hfetch, hparts, ?_⟩
      rw [sentParts_append, sentParts_eq_nil htold, List.append_nil, hsent]
    · exact absurd he (not_mem_of_idle htold hc)

/-- Whatever fails in a finalize: if it completes the upload, then with the cached chunks,
each sent as the part of its number. -/
theorem finalize_transferred {r : Except Exn Response}
    (h : Exec (faulty env ok) (Op.prog env (.finalize sid)) (w, []) r (w', t))
    {e : Answered Collab} (he : e ∈ t) {tn f : UUID} {parts : List Part}
    (hc : e.call = .completeMultipartUpload tn f u parts) : Transferred env w sid u parts t := by
  rcases (exec_map _ _ _).1 h with ⟨o, h, _⟩
  rcases finalize_faulty h with ⟨_, hstop⟩ | ⟨v, o₁, w₁, t₁, out, henter⟩
  · rcases hstop.calls with ⟨made, rfl, hmade⟩
    rcases hmade e he with hcall | hcall
    · cases hcall.symm.trans hc
    · cases hcall.symm.trans hc
  · have hlock : ∀ e ∈ [] ++ lockTrace sid v, e.call.Idle := by
      intro e he
      simp only [lockTrace, List.nil_append, List.mem_cons, List.not_mem_nil, or_false] at he
      rcases he with rfl | rfl
      · rfl
      · rfl
    rw [henter.calls] at he ⊢
    rcases List.mem_append.1 he with he | he
    · rcases critical_transferred hlock henter.critical he hc with ⟨datas, hfetch, hparts, hsent⟩
      refine ⟨datas, hfetch.congr fun _ => rfl, hparts, ?_⟩
      rw [sentParts_append, hsent]
      exact List.append_nil _
    · rw [List.mem_singleton.1 he] at hc
      cases hc

end Assembly

/-! ## Which chunks have been let in -/

/-- What matters of an upload: the session that it has read. -/
structure SizeLocal where
  op : Op
  copy : Option UploadSession

/-- The size of a chunk is admitted: an upload that brings the offset to the size of the file
may be of any size below the maximum. -/
def LetIn (v : UploadSession) (data : Bytes) : Prop :=
  data.length ≤ UploadChunkUseCase.maxChunkSize ∧
    (UploadChunkUseCase.minChunkSize ≤ data.length ∨
      v.currentOffset + data.length = v.totalSize)

namespace SizeLocal

def start (op : Op) : SizeLocal := ⟨op, none⟩

def next (l : SizeLocal) (c : Call) (r : Except Exn c.Resp) : SizeLocal :=
  { l with copy := (c.sessionRead r).or l.copy }

/-- An upload stores chunks only that the session it has read lets in. -/
def allows (l : SizeLocal) : Call → Prop
  | .chunkSave _ chunk => (∃ sid index cs data, l.op = .uploadChunk sid index cs data) →
      ∃ v, l.copy = some v ∧ LetIn v chunk.rawBytes
  | _ => True

@[simp] theorem next_op (l : SizeLocal) (c : Call) (r : Except Exn c.Resp) :
    (l.next c r).op = l.op := rfl

theorem next_copy (l : SizeLocal) (c : Call) (r : Except Exn c.Resp) :
    (l.next c r).copy = (c.sessionRead r).or l.copy := rfl

end SizeLocal

def sizeDiscipline : Discipline Collab SizeLocal where
  next := SizeLocal.next
  allows := SizeLocal.allows
  expects := fun _ _ _ => True
  loops := fun _ => True

@[simp] theorem sizeDiscipline_next : sizeDiscipline.next = SizeLocal.next := rfl

@[simp] theorem sizeDiscipline_allows : sizeDiscipline.allows = SizeLocal.allows := rfl

@[simp] theorem sizeDiscipline_expects (l : SizeLocal) (c : Call) (r : Except Exn c.Resp) :
    sizeDiscipline.expects l c r = True := rfl

@[simp] theorem sizeDiscipline_loops (l : SizeLocal) : sizeDiscipline.loops l = True := rfl

namespace Sizing

open SizeLocal

variable {sid : UUID} {index : Int} {cs : String} {data : Bytes} {v : UploadSession}
  {l : SizeLocal}

/-- The checks come before the chunk store. -/
theorem process_obeys (hcopy : l.copy = some v) :
    Obeys sizeDiscipline (UploadChunkUseCase.process env v sid index cs data) l
      (fun _ _ => True) := by
  simp only [UploadChunkUseCase.process, ChunkRepository.save, SessionRepository.save, obeys_bind,
    obeys_raiseIf, obeys_await, obeys_ofExcept, Prog.onOk_ok, Prog.onOk_error, obeys_raise]
  refine ⟨fun _ => trivial, fun hmax => ⟨fun _ => trivial, fun hmin => ⟨fun _ => trivial,
    fun _ => ⟨fun _ => ⟨v, hcopy, ?_⟩, fun _ _ => trivial, fun _ _ => ?_⟩⟩⟩⟩
  · have hletin : LetIn v data := ⟨by omega, by omega⟩
    exact hletin
  cases v.updateOffset data.length with
  | error x => exact trivial
  | ok s =>
      simp only [Prog.onOk_ok, obeys_bind, obeys_await, Prog.onOk_error, obeys_raise, obeys_pure]
      exact ⟨trivial, fun _ _ => trivial, fun _ _ => trivial⟩

/-- An upload stores its chunk only after the checks on its size. -/
theorem uploadChunk_obeys (env : Env) (sid : UUID) (index : Int) (cs : String) (data : Bytes) :
    Obeys sizeDiscipline (Op.prog env (.uploadChunk sid index cs data))
      (start (.uploadChunk sid index cs data)) (fun _ _ => True) := by
  have hrelease : ∀ (l : SizeLocal) (r : Except Exn UploadSession),
      Obeys sizeDiscipline (SessionRepository.releaseLock sid) l (fun r' l' =>
        Obeys sizeDiscipline (Prog.onOk (fun _ => .done r) r') l' (fun r'' l'' =>
          Obeys sizeDiscipline (Prog.onOk (fun s => pure (Response.uploaded s)) r'')
            l'' (fun _ _ => True))) := by
    intro l r
    cases r <;> simp [SessionRepository.releaseLock, SizeLocal.allows]
  simp only [Op.prog, UploadChunkUseCase.execute, requireSession, SessionRepository.get,
    SessionRepository.acquireLock, obeys_bind, obeys_await, obeys_raiseIf, obeys_tryFinally,
    Prog.onOk_ok, Prog.onOk_error, obeys_raise, obeys_pure, Option.forall, Bool.forall_bool]
  refine ⟨trivial, fun _ _ => trivial, fun _ => trivial, fun v _ => ⟨fun _ => trivial, fun _ =>
    ⟨trivial, fun _ _ => trivial, fun _ => ⟨fun _ => trivial, fun _ => ?_⟩,
      fun _ => ⟨fun _ => trivial, fun _ => ?_⟩⟩⟩⟩
  all_goals
    refine (process_obeys (v := v) rfl).mono ?_
    rintro r l' -
    exact hrelease l' r

/-- Every request keeps the discipline, which binds the uploads only. -/
theorem prog_obeys (env : Env) (op : Op) :
    Obeys sizeDiscipline (Op.prog env op) (start op) (fun _ _ => True) := by
  by_cases hup : ∃ sid index cs data, op = .uploadChunk sid index cs data
  · rcases hup with ⟨sid, index, cs, data, rfl⟩
    exact uploadChunk_obeys env sid index cs data
  · refine (obeys_of_allowed (D := sizeDiscipline) (fun l => l.op = op) ?_ ?_
      (fun _ _ => trivial) (Op.prog env op) rfl).mono (fun _ _ _ => trivial)
    · intro l c r hl
      exact hl
    · intro l c hl
      cases c with
      | chunkSave sid chunk => exact fun hop => absurd hop (by rw [hl]; exact hup)
      | _ => trivial

end Sizing

/-- What request `i`, which asked for `op`, has read. -/
def sized (s : Scene (service env)) (i : Nat) (op : Op) : SizeLocal :=
  s.localOf sizeDiscipline SizeLocal.start i op

theorem sized_op (s : Scene (service env)) (i : Nat) (op : Op) : (sized s i op).op = op :=
  replay_fixed (D := sizeDiscipline) (·.op) SizeLocal.next_op (SizeLocal.start op)
    (callsOf i s.log)

/-- A session that the request of this call has read lets the chunk in. -/
def Admitted (log : Log env) (e : Entry (service env)) (chunk : Chunk) : Prop :=
  ∃ v ∈ readsOf (callsOf e.rid log), LetIn v chunk.rawBytes

/-- Every chunk that is cached has been stored, and every chunk that an upload has stored has
been let in. -/
structure LetInOnly (s : Scene (service env)) : Prop where
  reads : ∀ (i : Nat) (op : Op), s.ops[i]? = some op → ∀ v, (sized s i op).copy = some v →
    v ∈ readsOf (callsOf i s.log)
  stored : ∀ sid index data deadline, s.world.chunks (sid, index) = some (data, deadline) →
    ∃ e ∈ s.log, ∃ chunk, e.call = .chunkSave sid chunk ∧ chunk.index = index ∧
      chunk.rawBytes = data
  admitted : ∀ e ∈ s.log, ∀ sid chunk, e.call = .chunkSave sid chunk →
    ∀ sid' index cs data, s.ops[e.rid]? = some (.uploadChunk sid' index cs data) →
      Admitted s.log e chunk

section Step

variable {s : Scene (service env)} {i : Nat} {op : Op} {cl : Call} {out : Outcome}

theorem readsOf_append (i : Nat) (log : Log env) (e : Entry (service env)) :
    readsOf (callsOf i (log ++ [e])) = readsOf (callsOf i log) ++ readsOf (callsOf i [e]) := by
  simp [callsOf, readsOf]

/-- A chunk that was let in stays so. -/
theorem Admitted.append {log : Log env} {e : Entry (service env)} {chunk : Chunk}
    (h : Admitted log e chunk) (e' : Entry (service env)) : Admitted (log ++ [e']) e chunk := by
  rcases h with ⟨v, hv, hletin⟩
  refine ⟨v, ?_, hletin⟩
  rw [readsOf_append]
  exact List.mem_append_left _ hv

/-- One call keeps it so that every stored chunk was let in. -/
theorem LetInOnly.answer (h : LetInOnly s) (hop : s.ops[i]? = some op)
    (hallow : (sized s i op).allows cl) : LetInOnly (s.answer i cl out) := by
  refine ⟨?_, ?_, ?_⟩
  · have hold : ∀ j v, v ∈ readsOf (callsOf j s.log) →
        v ∈ readsOf (callsOf j (s.answer i cl out).log) := by
      intro j v hv
      rw [Scene.answer, readsOf_append]
      exact List.mem_append_left _ hv
    refine Scene.forall_answer (D := sizeDiscipline) (P := fun j _ (l : SizeLocal) => ∀ v,
      l.copy = some v → v ∈ readsOf (callsOf j (s.answer i cl out).log)) hop ?_
      (fun j op' _ hj v hv => hold j v (h.reads j op' hj v hv))
    intro v hv
    rw [sizeDiscipline_next, SizeLocal.next_copy, Option.or_eq_some_iff] at hv
    rcases hv with hnow | ⟨_, hwas⟩
    · rw [Scene.answer, readsOf_append]
      have hmem : ∀ w, v ∈ readsOf (callsOf i [(⟨i, cl, _, w⟩ : Entry (service env))]) :=
        fun w => List.mem_filterMap.2 ⟨_, mem_callsOf.2 ⟨List.mem_singleton.2 rfl, rfl⟩, hnow⟩
      exact List.mem_append_right _ (hmem _)
    · exact hold i v (h.reads i op hop v hwas)
  · intro sid index data deadline hchunk
    rcases handle_chunks env out cl s.world sid index with ⟨hsame, _⟩ |
      ⟨chunk, hc, hindex, hset, _⟩ | ⟨_, hgone, _⟩
    · rcases h.stored sid index data deadline (hsame.symm.trans hchunk) with ⟨e, he, hrest⟩
      exact ⟨e, List.mem_append_left _ he, hrest⟩
    · cases hset.symm.trans hchunk
      exact ⟨_, List.mem_append_right _ (List.mem_singleton.2 rfl), chunk, hc, hindex, rfl⟩
    · cases hgone.symm.trans hchunk
  · intro e he sid chunk hc sid' index cs data hop'
    rcases List.mem_append.1 he with he | he
    · exact (h.admitted e he sid chunk hc sid' index cs data hop').append _
    · rw [List.mem_singleton.1 he] at hc hop'
      simp only at hc
      subst hc
      cases hop.symm.trans hop'
      rcases hallow ⟨sid', index, cs, data, sized_op s i _⟩ with ⟨v, hcopy, hletin⟩
      have hread : v ∈ readsOf (callsOf i s.log) := h.reads i _ hop v hcopy
      rw [List.mem_singleton.1 he]
      exact Admitted.append ⟨v, hread, hletin⟩ _

theorem letInOnly_inductive (G : Run env → Label (service env) → Prop) :
    Inductive sizeDiscipline SizeLocal.start G (fun s => LetInOnly s) where
  spawn := by
    intro c op _ hwf h
    refine ⟨?_, h.stored, ?_⟩
    · refine Scene.forall_spawn (D := sizeDiscipline) (s := c.scene)
        (P := fun j _ (l : SizeLocal) => ∀ v, l.copy = some v → v ∈ readsOf (callsOf j c.log))
        hwf ?_ (fun i op' hi => h.reads i op' hi)
      intro v hv
      cases hv
    · intro e he sid chunk hc sid' index cs data hop'
      have hlt : e.rid < c.ops.length := hwf e he
      refine h.admitted e he sid chunk hc sid' index cs data ?_
      exact (List.getElem?_append_left hlt).symm.trans hop'
  move := fun _ _ _ h => ⟨h.reads, h.stored, h.admitted⟩
  call := fun _ _ _ _ _ _ hop _ h hallow => ⟨trivial, h.answer hop hallow⟩

end Step

/-- Chunks are stored by uploads only. -/
def StoredByUploads (s : Scene (service env)) : Prop :=
  ∀ e ∈ s.log, ∀ sid chunk, e.call = .chunkSave sid chunk →
    ∃ index cs data, s.ops[e.rid]? = some (.uploadChunk sid index cs data)

/-- In every run, what is cached was stored by an upload. -/
theorem storedByUploads_keeps (G : Run env → Label (service env) → Prop) :
    Keeps G StoredByUploads where
  spawn := by
    intro c op _ hknown h e he sid chunk hc
    rcases h e he sid chunk hc with ⟨index, cs, data, hop⟩
    exact ⟨index, cs, data, (List.getElem?_append_left (hknown.wf e he)).trans hop⟩
  move := fun _ _ _ h => h
  call := by
    intro c i op cl out _ _ hop _ h hallow e he sid chunk hc
    rcases List.mem_append.1 he with he | he
    · exact h e he sid chunk hc
    · rw [List.mem_singleton.1 he] at hc ⊢
      simp only at hc
      subst hc
      rcases hallow with ⟨⟨_, htarget⟩, _, _, index, cs, data, hop', _⟩
      rw [knows_op] at hop' htarget
      subst hop'
      cases htarget
      exact ⟨index, cs, data, hop⟩

/-! ## S3's rules -/

/-- What S3 asks of the parts of an upload: consecutive numbers up to 10000, at most 50 MB
each, and at least 5 MB for all but the one with the highest number. -/
structure MultipartValid (parts : List (Nat × Bytes)) : Prop where
  numbers : parts.map (·.1) = List.range' 1 parts.length
  nonempty : 1 ≤ parts.length
  most : parts.length ≤ 10000
  largest : ∀ p ∈ parts, p.2.length ≤ UploadChunkUseCase.maxChunkSize
  smallest : ∀ p ∈ parts, ∀ q ∈ parts, p.1 < q.1 → UploadChunkUseCase.minChunkSize ≤ p.2.length

/-- An upload of less than 5 MB to `sid` as chunk `index` has been let in, as it brought the
offset of the session it had read to the size of the file. -/
def LetInAsFinal (c : Run env) (sid : UUID) (index : Nat) (data : Bytes) : Prop :=
  data.length < UploadChunkUseCase.minChunkSize ∧
    ∃ e ∈ c.log, ∃ chunk, e.call = .chunkSave sid chunk ∧ chunk.index = index ∧
      chunk.rawBytes = data ∧ ∃ v ∈ readsOf (callsOf e.rid c.log),
        v.currentOffset + data.length = v.totalSize

/-- The run of cached chunks starts, ends by index 10000, and ends with each upload below the
minimum that is still cached in it. -/
structure FinalComesLast (c : Run env) (sid : UUID) : Prop where
  starts : (c.world.fetched? sid 0).isSome
  ends : ∃ k ≤ 10000, c.world.fetched? sid k = none
  last : ∀ index data, LetInAsFinal c sid index data → c.world.fetched? sid index = some data →
    ∃ k ≤ index + 1, c.world.fetched? sid k = none

section Rules

variable {c : Run env} {sid : UUID} {datas : List Bytes}

theorem RunFrom.get_lt {f : Nat → Option Bytes} (h : RunFrom f 0 datas) {n : Nat}
    (hn : n < datas.length) : f n = some datas[n] := by
  have hplace := runFrom_iff.1 h n (Nat.le_of_lt hn)
  rwa [Nat.zero_add, List.getElem?_eq_getElem hn] at hplace

theorem RunFrom.get_end {f : Nat → Option Bytes} (h : RunFrom f 0 datas) :
    f datas.length = none := by
  have hplace := runFrom_iff.1 h datas.length (Nat.le_refl _)
  rwa [Nat.zero_add, List.getElem?_eq_none (Nat.le_refl _)] at hplace

/-- A part carries the chunk of its number. -/
theorem mem_asParts {p : Nat × Bytes} : p ∈ asParts datas ↔
    ∃ n, ∃ h : n < datas.length, p = (n + 1, datas[n]) := by
  rw [asParts, List.mem_mapIdx]
  constructor
  · intro h
    rcases h with ⟨n, hn, rfl⟩
    exact ⟨n, hn, rfl⟩
  · intro h
    rcases h with ⟨n, hn, rfl⟩
    exact ⟨n, hn, rfl⟩

/-- What is cached has been let in, and all of it has a size that the session admitted. -/
theorem fetched_letIn {now : Nat} (h : Reach (fun _ _ => True) (Config.start (World.empty now)) c)
    {index : Nat} {data : Bytes} (hfetch : c.world.fetched? sid index = some data) :
    data.length ≤ UploadChunkUseCase.maxChunkSize ∧
      (data.length < UploadChunkUseCase.minChunkSize → LetInAsFinal c sid index data) := by
  rcases c.world.chunks.entry_of_get c.world.now (chunk?_of_fetched? hfetch) with
    ⟨deadline, hchunk⟩
  rcases h.invariant (fun _ _ _ => True) (fun _ op _ => Sizing.prog_obeys env op)
    (letInOnly_inductive _) ⟨by simp, by simp [World.empty, ExpiringMap.empty], by simp⟩ with
    ⟨_, hletin, _⟩
  have huploads := (storedByUploads_keeps _).reach (by simp [StoredByUploads]) h
  rcases hletin.stored sid index data deadline hchunk with ⟨e, he, chunk, hc, hindex, hdata⟩
  rcases huploads e he sid chunk hc with ⟨index', cs, data', hop⟩
  rcases hletin.admitted e he sid chunk hc sid index' cs data' hop with ⟨v, hv, hmax, hmin⟩
  rw [hdata] at hmax hmin
  refine ⟨hmax, fun hsmall => ⟨hsmall, e, he, chunk, hc, hindex, hdata, v, hv, ?_⟩⟩
  exact hmin.resolve_left (by omega)

/-- The parts of a run of cached chunks. -/
theorem multipartValid_iff {now : Nat}
    (h : Reach (fun _ _ => True) (Config.start (World.empty now)) c)
    (hrun : RunFrom (c.world.fetched? sid) 0 datas) :
    MultipartValid (asParts datas) ↔ FinalComesLast c sid := by
  have hlength : (asParts datas).length = datas.length := List.length_mapIdx
  constructor
  · intro hvalid
    have hone := hvalid.nonempty
    have hmost := hvalid.most
    rw [hlength] at hone hmost
    refine ⟨?_, ⟨datas.length, hmost, hrun.get_end⟩, fun index data hfinal hfetch => ?_⟩
    · rw [hrun.get_lt hone]
      rfl
    · refine ⟨datas.length, ?_, hrun.get_end⟩
      -- otherwise a part with a higher number would follow
      by_contra hlong
      have hlt : index + 1 < datas.length := by omega
      have hbound : index < datas.length := Nat.lt_of_succ_lt hlt
      cases (hrun.get_lt hbound).symm.trans hfetch
      have hmin : UploadChunkUseCase.minChunkSize ≤ datas[index].length :=
        hvalid.smallest _ (mem_asParts.2 ⟨index, hbound, rfl⟩) _
          (mem_asParts.2 ⟨index + 1, hlt, rfl⟩) (Nat.lt_succ_self _)
      have hsmall := hfinal.1
      omega
  · intro hlast
    -- the parts end where the first gap is
    have hgap : ∀ k, c.world.fetched? sid k = none → datas.length ≤ k := by
      intro k hk
      by_contra hlt
      cases (hrun.get_lt (Nat.lt_of_not_le hlt)).symm.trans hk
    refine ⟨?_, ?_, ?_, ?_, ?_⟩
    · rw [asParts_numbers, hlength]
    · rw [hlength]
      by_contra hnone
      have hzero : datas.length = 0 := by omega
      have hend := hrun.get_end
      rw [hzero] at hend
      have hstarts := hlast.starts
      rw [hend] at hstarts
      cases hstarts
    · -- at most so many parts: there is a gap early enough
      rcases hlast.ends with ⟨k, hk, hnone⟩
      rw [hlength]
      exact Nat.le_trans (hgap k hnone) hk
    · intro p hp
      rcases mem_asParts.1 hp with ⟨n, hn, rfl⟩
      exact (fetched_letIn h (hrun.get_lt hn)).1
    · intro p hp q hq hlt
      rcases mem_asParts.1 hp with ⟨n, hn, rfl⟩
      rcases mem_asParts.1 hq with ⟨m, hm, rfl⟩
      -- a small part is the final chunk, and no part comes after that
      by_contra hsmall
      have hfinal := (fetched_letIn h (hrun.get_lt hn)).2 (Nat.lt_of_not_le hsmall)
      rcases hlast.last n _ hfinal (hrun.get_lt hn) with ⟨k, hk, hnone⟩
      have hends := hgap k hnone
      simp only at hlt
      omega

end Rules

/-- Multipart validity: over all runs, whatever has failed in them, and whatever fails in a
finalize that then runs alone: if it asks S3 to complete its upload, then with the parts that
it has sent, and they keep the rules exactly if the run of cached chunks starts, is not too
long, and ends with each chunk that was let in as the final one. -/
theorem multipart_valid {now : Nat} {c : Run env} {sid : UUID} {ok : Pattern}
    {r : Except Exn Response} {w' : World} {t : Trace Collab} {e : Answered Collab}
    {tn f : UUID} {u : Nat} {parts : List Part}
    (h : Reach (fun _ _ => True) (Config.start (World.empty now)) c)
    (hfin : Exec (faulty env ok) (Op.prog env (.finalize sid)) (c.world, []) r (w', t))
    (he : e ∈ t) (hcall : e.call = .completeMultipartUpload tn f u parts) :
    parts = (sentParts u t).map (fun p => ⟨env.etag p.2, p.1⟩) ∧
      (MultipartValid (sentParts u t) ↔ FinalComesLast c sid) := by
  rcases finalize_transferred hfin he hcall with ⟨datas, hfetch, hparts, hsent⟩
  rw [hsent]
  refine ⟨?_, multipartValid_iff h (fetchedFrom_iff_run.1 hfetch)⟩
  rw [hparts, partsOf_eq]

/-! ## Concrete runs -/

/-- Every call goes through. -/
def nothingFails : Pattern := fun _ out _ => out = .works

/-- What goes through in the plain world goes through in a faulty one in which nothing fails. -/
theorem exists_nothingFails {α : Type} {p : Program α} {w w' : World} {o : Except Exn α}
    (h : Exec (works env) p w o w') : ∃ t, Exec (faulty env nothingFails) p (w, []) o (w', t) := by
  have hworks : ∀ t c, True → nothingFails t .works c := fun _ _ _ => rfl
  rcases exists_faulty (makes_any p) hworks h [] with ⟨t, hexec, _⟩
  exact ⟨[] ++ t, hexec⟩

/-- An object is made by completing an upload. -/
theorem exists_completes {ok : Pattern} {α : Type} {p : Program α} {w w' : World}
    {t : Trace Collab} {o : Except Exn α} (h : Exec (faulty env ok) p (w, []) o (w', t))
    {key : String} {bytes : Bytes} (hnone : w.objects key = none)
    (hmade : w'.objects key = some bytes) :
    ∃ e ∈ t, ∃ tn f u parts, e.call = .completeMultipartUpload tn f u parts := by
  have hstep : ∀ (l : Unit) c (s : World × Trace Collab) r s',
      (s.1.objects key = w.objects key ∨
        ∃ e ∈ s.2, ∃ tn f u parts, e.call = .completeMultipartUpload tn f u parts) →
      (only fun _ => True).allows l c → faulty env ok c s r s' →
      (only fun _ => True).expects l c r ∧ faulty env ok c s r s' ∧
        (s'.1.objects key = w.objects key ∨
          ∃ e ∈ s'.2, ∃ tn f u parts, e.call = .completeMultipartUpload tn f u parts) := by
    intro l c s r s' hs _ hr
    refine ⟨trivial, hr, ?_⟩
    rcases hr with ⟨out, _, _, rfl⟩
    rcases hs with hsame | ⟨e, he, hrest⟩
    · rcases handle_objects env out c s.1 key with hkept | ⟨tn, f, u, parts, _, _, hc, _⟩
      · exact Or.inl (hkept.trans hsame)
      · exact Or.inr ⟨_, List.mem_append_right _ (List.mem_singleton.2 rfl), tn, f, u, parts, hc⟩
    · exact Or.inr ⟨e, List.mem_append_left _ he, hrest⟩
  rcases Obeys.exec (f := id) (makes_any p) hstep (Or.inl rfl) h with ⟨_, _, _, hend⟩
  refine hend.resolve_left fun hsame => ?_
  cases hmade.symm.trans (hsame.trans hnone)

/-- The finalize of a file of two chunks completes its upload with two parts. -/
theorem multipart_valid_demo :
    ∃ (c : Run Demo.bigEnv) (r : Except Exn Response) (w' : World) (t : Trace Collab) (u : Nat),
      c.world = Demo.bothAt 0 1 ∧
      Exec (faulty Demo.bigEnv nothingFails) (Op.prog Demo.bigEnv (.finalize Demo.sid))
        (c.world, []) r (w', t) ∧
      MultipartValid (sentParts u t) := by
  have hrun : Serial Demo.bigEnv (fun _ _ => True) (World.empty 0) _ (Demo.bothAt 0 1) :=
    serial_bothAt trivial trivial trivial
  rcases hrun.reach with ⟨c, hc, hw, _⟩
  rcases returns_bothAt payloads_bothAt (by simp) (by simp) with ⟨w', hfin, hobject⟩
  rcases exists_nothingFails hfin with ⟨t, hexec⟩
  rcases exists_completes hexec rfl hobject with ⟨e, he, tn, f, u, parts, hcall⟩
  -- the chunks are cached at 0 and 1
  have hfetched : ∀ k : Nat, c.world.fetched? Demo.sid k =
      if k = 0 then some Demo.big else if k = 1 then some Demo.b else none := by
    intro k
    rw [hw, fetched?_eq_payload? ((serial_orderly hrun).paired _)]
    by_cases h₀ : k = 0
    · subst h₀
      exact payload?_eq_some.2 ⟨chunk?_bothAt 0 1 0, big_ne_nil⟩
    · by_cases h₁ : k = 1
      · subst h₁
        exact payload?_eq_some.2 ⟨chunk?_bothAt 0 1 1, by decide⟩
      · rw [if_neg h₀, if_neg h₁]
        refine payload?_eq_none.2 (Or.inl ?_)
        rw [chunk?_bothAt, if_neg (by omega), if_neg (by omega)]
  rw [← hw] at hexec
  have hreach : Reach (fun _ _ => True) (Config.start (World.empty 0)) c :=
    hc.mono fun _ _ _ => trivial
  refine ⟨c, _, w', t, u, hw, hexec, ((multipart_valid hreach hexec he hcall).2).2 ⟨?_, ?_, ?_⟩⟩
  · rw [hfetched]
    rfl
  · exact ⟨2, by decide, hfetched 2⟩
  · -- only the large chunk has another one behind it
    intro index data hsmall hdata
    rcases Nat.eq_zero_or_pos index with rfl | hpos
    · have hbig : data = Demo.big := by
        rw [hfetched] at hdata
        exact (Option.some.inj hdata).symm
      rw [hbig] at hsmall
      have hleast := hsmall.1
      rw [Demo.big_length] at hleast
      exact absurd hleast (by decide)
    · exact ⟨2, by omega, hfetched 2⟩

/-- It fails with all calls going through: the last byte is exempt as it came last, and
becomes the first of two parts. -/
theorem multipart_valid_fails :
    ∃ (served : List Served) (r : Except Exn Response) (w' : World) (t : Trace Collab) (u : Nat),
      Serial Demo.bigEnv (fun _ _ => True) (World.empty 0) served (Demo.bothAt 1 0) ∧
      Exec (faulty Demo.bigEnv nothingFails) (Op.prog Demo.bigEnv (.finalize Demo.sid))
        (Demo.bothAt 1 0, []) r (w', t) ∧
      (∃ e ∈ t, ∃ tn f parts, e.call = .completeMultipartUpload tn f u parts) ∧
      sentParts u t = [(1, Demo.b), (2, Demo.big)] ∧ ¬ MultipartValid (sentParts u t) := by
  have hrun : Serial Demo.bigEnv (fun _ _ => True) (World.empty 0) _ (Demo.bothAt 1 0) :=
    serial_bothAt trivial trivial trivial
  have hpayloads : RunFrom ((Demo.bothAt 1 0).payload? Demo.sid) 0 [Demo.b, Demo.big] :=
    ⟨payload?_eq_some.2 ⟨chunk?_bothAt 1 0 0, by decide⟩,
      payload?_eq_some.2 ⟨chunk?_bothAt 1 0 1, big_ne_nil⟩,
      payload?_eq_none.2 (Or.inl (chunk?_bothAt 1 0 2))⟩
  rcases returns_bothAt hpayloads (by simp) (by simp) with ⟨w', hfin, hobject⟩
  rcases exists_nothingFails hfin with ⟨t, hexec⟩
  rcases exists_completes hexec rfl hobject with ⟨e, he, tn, f, u, parts, hcall⟩
  -- the parts are the cached chunks
  have hsent : sentParts u t = [(1, Demo.b), (2, Demo.big)] := by
    rcases finalize_transferred hexec he hcall with ⟨datas, hfetch, _, hsent⟩
    have hpaired := (serial_orderly hrun).paired Demo.sid
    have hdatas := ((fetchedFrom_iff hpaired).1 hfetch).unique hpayloads
    rw [hsent, hdatas]
    rfl
  refine ⟨_, _, w', t, u, hrun, hexec, ⟨e, he, tn, f, parts, hcall⟩, hsent, ?_⟩
  intro hvalid
  rw [hsent] at hvalid
  have hmin := hvalid.smallest (1, Demo.b) (by simp) (2, Demo.big) (by simp) (by decide)
  exact absurd hmin (by decide)

end FileUploader
