import FileUploader.Faults
import FileUploader.Truncation

/-! # Bounded progress

With Redis working, the offset of a session moves when an upload to it is accepted, by the
size of the upload, and at no other time, whatever else fails. An accepted upload has 5 MB,
or is the one that completes the file; after that one the offset leaves room for no other.
-/

namespace FileUploader

open Await Prog

variable {env : Env}

/-- A call of the session or the chunk repository. -/
def Call.OnStores : Call → Prop
  | .sessionGet _ | .sessionSave _ | .sessionDelete _ | .acquireLock _ _ | .releaseLock _
  | .chunkSave _ _ | .chunkGet _ _ | .chunkPull _ _ | .deleteAll _ => True
  | .getByChecksum _ _ | .registerFile .. | .initiateMultipartUpload _ _ | .uploadPart ..
  | .completeMultipartUpload .. | .abortMultipartUpload .. | .publishFileUploadCompleted _ => False

/-- Sessions and chunks are stored and read without fail; anything else may fail. -/
def storesWork : Pattern := fun _ out c => c.OnStores → out = .works

/-- The session is the one of before, up to its status. -/
structure SameOffset (v v' : UploadSession) : Prop where
  sessionId : v'.sessionId = v.sessionId
  totalSize : v'.totalSize = v.totalSize
  currentOffset : v'.currentOffset = v.currentOffset

/-- What a request to session `sid` may do to it. -/
inductive Advance (env : Env) (sid : UUID) (w : World) :
    Op → Except Exn Response → World → Prop where
  | kept {op : Op} {r : Except Exn Response} {w' : World}
      (hupload : ∀ index cs data, op = .uploadChunk sid index cs data → ∃ x, r = .error x)
      (hsession : ∀ v', w'.session? sid = some v' →
        ∃ v, w.session? sid = some v ∧ SameOffset v v') : Advance env sid w op r w'
  | moved {index : Int} {cs : String} {data : Bytes} {v v' : UploadSession} {w' : World}
      (hstores : Stores env w sid cs data v) (hmove : v.updateOffset data.length = .ok v')
      (hsession : w'.session? sid = some v') :
      Advance env sid w (.uploadChunk sid index cs data) (.ok (.uploaded v')) w'

section Attempts

variable {w w' : World} {t t' : Trace Collab} {sid : UUID} {op : Op} {r : Except Exn Response}

theorem SameOffset.refl (v : UploadSession) : SameOffset v v := ⟨rfl, rfl, rfl⟩

/-- A request that leaves the session as it is. -/
theorem Advance.of_same (hsame : w'.session? sid = w.session? sid)
    (hupload : ∀ index cs data, op = .uploadChunk sid index cs data → ∃ x, r = .error x) :
    Advance env sid w op r w' :=
  .kept hupload fun v' hv' => ⟨v', hsame.symm.trans hv', .refl v'⟩

/-- A chunk upload advances the session by its bytes, or leaves the offset as it is. -/
theorem upload_advance {index : Int} {cs : String} {data : Bytes}
    (hid : ∀ v, w.session? sid = some v → v.sessionId = sid)
    (h : Alone env (.uploadChunk sid index cs data) w r w') :
    Advance env sid w (.uploadChunk sid index cs data) r w' := by
  by_cases hstores : ∃ v, Stores env w sid cs data v
  · rcases hstores with ⟨v, hstores⟩
    rcases upload_stored (hid v hstores.live) hstores h with ⟨rfl, _, ⟨v', hmove, hsession⟩ |
      ⟨⟨x, hmove⟩, hsession⟩⟩
    · rw [hmove]
      exact .moved hstores hmove hsession
    · rw [hmove]
      exact .of_same (hsession.trans hstores.live.symm) fun _ _ _ _ => ⟨x, rfl⟩
  · rcases upload_refused h (fun v hv => hstores ⟨v, hv⟩) with ⟨rfl | rfl, hx⟩
    · exact .of_same rfl fun _ _ _ _ => hx
    · exact .of_same rfl fun _ _ _ _ => hx

/-- Under the lock of a finalize, the session can only fail or go. -/
theorem critical_sameOffset {ok : Pattern} {v : UploadSession} {o : Except Exn String}
    (hlive : w.session? sid = some v)
    (h : Exec (faulty env ok) (FinalizeUploadUseCase.critical v sid) (w, t) o (w', t')) :
    ∀ v', w'.session? sid = some v' → SameOffset v v' := by
  refine faulty_keeps (critical_makes sid v)
    (fun w => ∀ v', w.session? sid = some v' → SameOffset v v') ?_ h ?_
  · intro out c w hc hw v' hv'
    rcases handle_session? env out c w sid with hsame | ⟨s, rfl, _, hs⟩ | ⟨_, hnone⟩
    · exact hw v' (hsame.symm.trans hv')
    · cases hs.symm.trans hv'
      have hfail : v' = v.fail := hc
      rw [hfail]
      exact ⟨rfl, rfl, rfl⟩
    · cases hnone.symm.trans hv'
  · intro v' hv'
    cases hlive.symm.trans hv'
    exact .refl v

theorem session?_acquireLock (w : World) (sid sid' : UUID) (ttl : Nat) :
    (RedisSessionRepository.acquireLock w sid' ttl).2.session? sid = w.session? sid := by
  rcases RedisSessionRepository.acquireLock_frame w sid' ttl with ⟨locks, h⟩
  rw [h]
  rfl

/-- A finalize, whatever fails in it, leaves the offset as it is or the session is gone. -/
theorem finalize_advance {ok : Pattern}
    (h : Exec (faulty env ok) (Op.prog env (.finalize sid)) (w, t) r (w', t')) :
    Advance env sid w (.finalize sid) r w' := by
  rcases (exec_map _ _ _).1 h with ⟨o, hexec, _⟩
  rcases finalize_faulty hexec with ⟨_, hstop⟩ | ⟨v, o₁, w₁, t₁, out, henter⟩
  · refine .of_same ?_ (fun _ _ _ hop => by cases hop)
    rcases hstop.world with rfl | rfl
    · rfl
    · exact session?_acquireLock w sid sid _
  · refine .kept (fun _ _ _ hop => by cases hop) fun v' hv' => ⟨v, henter.ready.live, ?_⟩
    have hlive : (w.locking sid).session? sid = some v := henter.ready.live
    refine critical_sameOffset hlive henter.critical v' ?_
    rw [henter.world] at hv'
    rcases handle_session? env out (.releaseLock sid) w₁ sid with hsame | ⟨s, hc, _⟩ | ⟨hc, _⟩
    · exact hsame.symm.trans hv'
    · cases hc
    · cases hc

/-- Whatever fails besides the stores, a request to the session has one of these effects. -/
theorem attempt_advance (hid : ∀ v, w.session? sid = some v → v.sessionId = sid)
    (htarget : op.target? = some sid)
    (h : Exec (faulty env storesWork) (op.prog env) (w, t) r (w', t')) :
    Advance env sid w op r w' := by
  have hok : ∀ t out (c : Call), c.OnStores → storesWork t out c → out = .works :=
    fun _ _ _ hc hout => hout hc
  cases op with
  | initiate newId t f size cs => cases htarget
  | uploadChunk sid' index cs data =>
      cases htarget
      refine upload_advance hid (works_of_faulty ?_ hok h)
      exact upload_makes trivial trivial trivial (fun _ => trivial) fun _ => trivial
  | finalize sid' =>
      cases htarget
      exact finalize_advance h
  | abort sid' =>
      cases htarget
      have halone : Alone env (.abort sid) w r w' :=
        works_of_faulty (abort_makes trivial trivial trivial trivial trivial) hok h
      rcases abort_cases halone with ⟨_, rfl⟩ | ⟨_, _, rfl⟩
      · exact .of_same rfl fun _ _ _ hop => by cases hop
      · refine .kept (fun _ _ _ hop => by cases hop) fun v' hv' => ?_
        cases (gone_purge sid w).session.symm.trans hv'
  | query sid' =>
      cases htarget
      have halone : Alone env (.query sid) w r w' := works_of_faulty (query_makes trivial) hok h
      rcases alone_query.1 halone with ⟨rfl, _⟩
      exact .of_same rfl fun _ _ _ hop => by cases hop

end Attempts

/-! ## Counting -/

/-- The sizes of the uploads to `sid` that have been accepted. -/
def acceptedSizes (sid : UUID) (done : List Attempt) : List Nat :=
  (accepted sid (done.map fun a => (a.op, a.result))).map (·.2.length)

/-- Uploads of these sizes have been accepted to session `sid`, of a file of `T` bytes. -/
structure Counts (sid : UUID) (T : Int) (sizes : List Nat) (w : World) : Prop where
  stored : ∀ v, w.session? sid = some v →
    v.sessionId = sid ∧ v.totalSize = T ∧ v.currentOffset = sizes.sum
  within : sizes.sum ≤ T
  /-- All of them have 5 MB, or the last one has completed the file. -/
  few : sizes.length * UploadChunkUseCase.minChunkSize ≤ sizes.sum ∨
    sizes.sum = T ∧ sizes.length * UploadChunkUseCase.minChunkSize <
      T + UploadChunkUseCase.minChunkSize

section Counting

variable {sid : UUID} {T : Int} {sizes : List Nat} {w w' : World} {op : Op}
  {r : Except Exn Response} {done : List Attempt} {t : Trace Collab}

theorem acceptedSizes_append (a : Attempt) : acceptedSizes sid (done ++ [a]) =
    acceptedSizes sid done ++ (accepted sid [(a.op, a.result)]).map (·.2.length) := by
  rw [acceptedSizes, List.map_append, List.map_singleton, accepted_append, List.map_append]
  rfl

/-- One more upload is accepted. -/
theorem Counts.moved (h : Counts sid T sizes w) {cs : String} {data : Bytes}
    {v v' : UploadSession} (hstores : Stores env w sid cs data v)
    (hmove : v.updateOffset data.length = .ok v') (hsession : w'.session? sid = some v') :
    Counts sid T (sizes ++ [data.length]) w' := by
  rcases h.stored v hstores.live with ⟨hid, htotal, hoffset⟩
  rcases UploadSession.updateOffset_ok hmove with ⟨hpos, hroom, hoffset', hid', _, _, htotal', _⟩
  have hmin := hstores.admits.2.1
  have hsum : (sizes ++ [data.length]).sum = sizes.sum + data.length := by simp
  have hlength : (sizes ++ [data.length]).length = sizes.length + 1 := by simp
  refine ⟨fun u hu => ?_, ?_, ?_⟩
  · cases hsession.symm.trans hu
    refine ⟨hid'.trans hid, htotal'.trans htotal, ?_⟩
    rw [hoffset', hoffset, hsum]
    omega
  · rw [hsum]
    omega
  · rw [hsum, hlength]
    simp only [Nat.cast_add, Nat.cast_one, add_mul, one_mul]
    have hfew := h.few
    -- the offset has not been `T`, as there was room for this one
    rcases hmin with hlarge | hlast
    · omega
    · omega

/-- The offset goes on counting the accepted bytes. -/
theorem Counts.advance (h : Counts sid T sizes w) (hadvance : Advance env sid w op r w') :
    Counts sid T (sizes ++ (accepted sid [(op, r)]).map (·.2.length)) w' := by
  cases hadvance with
  | kept hupload hsession =>
      rw [accepted_other hupload, List.map_nil, List.append_nil]
      refine ⟨fun v' hv' => ?_, h.within, h.few⟩
      rcases hsession v' hv' with ⟨v, hlive, hsame⟩
      rcases h.stored v hlive with ⟨hid, htotal, hoffset⟩
      exact ⟨hsame.sessionId.trans hid, hsame.totalSize.trans htotal,
        hsame.currentOffset.trans hoffset⟩
  | moved hstores hmove hsession =>
      rw [accepted_upload]
      exact h.moved hstores hmove hsession

theorem Counts.attempt (h : Counts sid T sizes w) (htarget : op.target? = some sid)
    {t' : Trace Collab} (hexec : Exec (faulty env storesWork) (op.prog env) (w, t) r (w', t')) :
    Advance env sid w op r w' :=
  attempt_advance (fun v hv => (h.stored v hv).1) htarget hexec

/-- Over a whole series, the offset counts the accepted bytes. -/
theorem series_counts {f t : UUID} {cs : String} {w₀ : World} (hpos : 0 < T)
    (hnew : w₀.session? sid = some (newSession sid t f T cs))
    (h : Series env (fun _ _ => storesWork) (fun _ op => op.target? = some sid)
      (fun _ _ => True) w₀ done w) : Counts sid T (acceptedSizes sid done) w := by
  induction h with
  | start =>
      refine ⟨fun v hv => ?_, ?_, Or.inl (by simp [acceptedSizes, accepted])⟩
      · cases hnew.symm.trans hv
        exact ⟨rfl, rfl, rfl⟩
      · simp only [acceptedSizes, accepted, List.map_nil, List.filterMap_nil, List.sum_nil]
        omega
  | attempt _ htarget hexec ih =>
      rw [acceptedSizes_append]
      exact ih.advance (ih.attempt htarget hexec)
  | @wait done w d _ _ ih =>
      refine ⟨fun v hv => ih.stored v ?_, ih.within, ih.few⟩
      exact w.sessions.get_of_get_later (Nat.le_add_right _ _) hv

end Counting

/-- What an attempt does to the offset of a file of `T` bytes: an accepted upload moves it
by its size, from below `T`; anything else leaves it, or the session is gone. -/
structure Progresses (T : Int) (sid : UUID) (op : Op) (r : Except Exn Response) (w w' : World) :
    Prop where
  accepted : ∀ index cs data a, op = .uploadChunk sid index cs data → r = .ok a →
    ∃ v v', w.session? sid = some v ∧ w'.session? sid = some v' ∧ v.currentOffset < T ∧
      v.currentOffset < v'.currentOffset ∧ v'.currentOffset = v.currentOffset + data.length
  other : (∀ index cs data, op = .uploadChunk sid index cs data → ∃ x, r = .error x) →
    ∀ v v', w.session? sid = some v → w'.session? sid = some v' →
      v'.currentOffset = v.currentOffset

/-- Bounded progress: in every series of requests to a new session of `T` bytes, with Redis
working and anything else failing or not, the offset stays within `T`, no more than
`⌈T / 5 MB⌉` uploads are accepted, and whatever comes next moves the offset by the size of
an accepted upload, which starts below `T`, or not at all. -/
theorem bounded_progress {sid t f : UUID} {T : Int} {cs : String} {w₀ w : World}
    {done : List Attempt} (hpos : 0 < T)
    (hnew : w₀.session? sid = some (newSession sid t f T cs))
    (h : Series env (fun _ _ => storesWork) (fun _ op => op.target? = some sid)
      (fun _ _ => True) w₀ done w) :
    (∀ v, w.session? sid = some v → 0 ≤ v.currentOffset ∧ v.currentOffset ≤ T) ∧
      (acceptedSizes sid done).length ≤
        (T + UploadChunkUseCase.minChunkSize - 1) / UploadChunkUseCase.minChunkSize ∧
      ∀ op r w' t', op.target? = some sid →
        Exec (faulty env storesWork) (op.prog env) (w, []) r (w', t') →
        Progresses T sid op r w w' := by
  have hcounts := series_counts hpos hnew h
  refine ⟨fun v hv => ?_, ?_, fun op r w' t' htarget hexec => ?_⟩
  · rcases hcounts.stored v hv with ⟨_, _, hoffset⟩
    have hwithin := hcounts.within
    omega
  · -- each but the last takes 5 MB of the total
    have hfew := hcounts.few
    have hwithin := hcounts.within
    simp only [UploadChunkUseCase.minChunkSize] at hfew ⊢
    omega
  · -- the next request has moved nothing, or an upload has been stored
    rcases hcounts.attempt htarget hexec with ⟨hupload, hsession⟩ | ⟨hstores, hmove, hsession⟩
    · refine ⟨fun index cs data a hop hr => ?_, fun _ v v' hv hv' => ?_⟩
      · rcases hupload index cs data hop with ⟨x, hx⟩
        cases hx.symm.trans hr
      · rcases hsession v' hv' with ⟨u, hu, hsame⟩
        cases hv.symm.trans hu
        exact hsame.currentOffset
    · rcases UploadSession.updateOffset_ok hmove with ⟨hlen, hroom, hoffset, _⟩
      rcases hcounts.stored _ hstores.live with ⟨_, htotal, _⟩
      refine ⟨fun index cs data a hop _ => ?_, fun hrefused => ?_⟩
      · cases hop
        exact ⟨_, _, hstores.live, hsession, by omega, by omega, hoffset⟩
      · rcases hrefused _ _ _ rfl with ⟨x, hx⟩
        cases hx

/-- A file of two chunks, after both have been uploaded. -/
theorem bounded_progress_demo : ∃ (done : List Attempt) (w : World),
    Series Demo.bigEnv (fun _ _ => storesWork) (fun _ op => op.target? = some Demo.sid)
      (fun _ _ => True) (Demo.sized Demo.odd) done w ∧ done.length = 2 ∧
    w.session? Demo.sid = some (Demo.oddSession Demo.odd) ∧
    (acceptedSizes Demo.sid done).length ≤
      (Demo.odd + UploadChunkUseCase.minChunkSize - 1) / UploadChunkUseCase.minChunkSize := by
  have hmakes : ∀ index data, Makes Call.OnStores (Op.prog Demo.bigEnv
      (.uploadChunk Demo.sid index (Demo.bigEnv.sha256 data) data)) :=
    fun _ _ => upload_makes trivial trivial trivial (fun _ => trivial) fun _ => trivial
  have hok : ∀ t c, c.OnStores → storesWork t .works c := fun _ _ _ _ => rfl
  rcases exists_faulty (hmakes 0 Demo.big) hok (alone_largeAt 0) [] with ⟨made, hfirst, _⟩
  rcases exists_faulty (hmakes 1 Demo.b) hok (alone_bothAt 0 1) [] with ⟨made', hlast, _⟩
  have hseries : Series Demo.bigEnv (fun _ _ => storesWork)
      (fun _ op => op.target? = some Demo.sid) (fun _ _ => True) (Demo.sized Demo.odd) _
      (Demo.bothAt 0 1) := .attempt (.attempt .start rfl hfirst) rfl hlast
  exact ⟨_, _, hseries, rfl, session?_bothAt 0 1,
    (bounded_progress (by decide) session?_initiated hseries).2.1⟩

end FileUploader
