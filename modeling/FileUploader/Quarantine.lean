import FileUploader.Faults
import FileUploader.Locking
import FileUploader.Scanner

/-! # Quarantine

A finalize that finds malware stores its session as failed, deletes the chunks, and deletes
the session, in this order. Whichever of the three calls fails, what is left keeps every later
finalize from S3: the session is gone, or failed, or its chunks are still there to be found
infected again. An abort deletes the chunks without having stored anything before: when its
second call fails, an open session without chunks is left.
-/

namespace FileUploader

open Await Prog

variable {env : Env}

/-- A call that leaves S3, the registry and the broker alone. -/
def Call.Contained : Call → Prop
  | .initiateMultipartUpload _ _ | .uploadPart .. | .completeMultipartUpload ..
  | .abortMultipartUpload .. | .registerFile .. | .publishFileUploadCompleted _ => False
  | _ => True

/-- What is not in the cache is as it was. -/
structure SameOutside (w w' : World) : Prop where
  uploads : w'.uploads = w.uploads
  objects : w'.objects = w.objects
  dedup : w'.dedup = w.dedup
  events : w'.events = w.events

/-- The request has raised, and has had no effect beyond the cache. -/
structure Rejected (r : Except Exn Response) (w w' : World) (t : Trace Collab) : Prop where
  raised : ∃ x, r = .error x
  calls : ∀ e ∈ t, e.call.Contained
  outside : SameOutside w w'

/-- Nothing fails but the release of the lock. -/
def OnlyReleaseFails (sid : UUID) (ok : Pattern) : Prop :=
  ∀ t out c, ok t out c → c ≠ .releaseLock sid → out = .works

/-- No upload replaces one of the chunks 0 to `n`. -/
def Spares (sid : UUID) (n : Nat) (ok : World → Op → Pattern) : Prop :=
  ∀ w op t out chunk, ok w op t out (.chunkSave sid chunk) → 0 ≤ chunk.index → chunk.index ≤ n →
    ∃ msg, out = .raises msg

/-- An abort that finds the session open does not delete its chunks without the session:
`delete_all` does not raise after it has taken effect, nor `delete` before. -/
def AbortsWhole (sid : UUID) (ok : World → Op → Pattern) : Prop :=
  ∀ w v, w.session? sid = some v → v.Open → ∀ t out,
    (ok w (.abort sid) t out (.deleteAll sid) → ∀ msg, out ≠ .raisesAfter msg) ∧
    (ok w (.abort sid) t out (.sessionDelete sid) → ∀ msg, out ≠ .raises msg)

/-- The ids of new sessions are not `sid`. -/
def OtherIds (sid : UUID) (_ : World) (op : Op) : Prop := op.newId? ≠ some sid

/-- The chunks 0 to `n` that are there do not expire. -/
def ChunksLast (sid : UUID) (n : Nat) (w : World) (d : Nat) : Prop :=
  ∀ i : Nat, i ≤ n → (w.advance d).chunk? sid i = w.chunk? sid i

/-- If the session is open, it is complete and its chunks are still infected. -/
structure Quarantined (sid : UUID) (bad : Bytes) (datas : List Bytes) (w : World) : Prop where
  keyed : Keyed w
  state : ∀ v, w.session? sid = some v → v.Open →
    v.currentOffset = v.totalSize ∧ InfectedFrom w sid bad 0 datas

/-- How far the purge of session `v` has come. -/
inductive Residue (v : UploadSession) (sid : UUID) (w : World) : World → Prop where
  | untouched : Residue v sid w w
  | failed : Residue v sid w (RedisSessionRepository.save w v.fail)
  | purged : Residue v sid w
      (RedisChunkRepository.deleteAll (RedisSessionRepository.save w v.fail) sid)
  | deleted : Residue v sid w (w.quarantined v sid)

/-! ## What one call can do -/

section Step

variable {sid : UUID} {bad : Bytes} {datas : List Bytes} {w w' : World}

/-- A session is saved under its own id. -/
theorem Keyed.handle (h : Keyed w) (out : Outcome) (c : Call) : Keyed (handle env out c w).2 := by
  intro sid v hv
  rcases handle_session? env out c w sid with hsame | ⟨s, _, hs, hsaved⟩ | ⟨_, hnone⟩
  · exact h sid v (hsame.symm.trans hv)
  · cases hsaved.symm.trans hv
    exact hs
  · cases hnone.symm.trans hv

/-- Only the chunks up to the infected one count. -/
theorem InfectedFrom.congr {k : Nat} (h : InfectedFrom w sid bad k datas)
    (hsame : ∀ i : Nat, k ≤ i → i ≤ k + datas.length → w'.chunk? sid i = w.chunk? sid i) :
    InfectedFrom w' sid bad k datas := by
  induction datas generalizing k with
  | nil =>
      have hk := hsame k (Nat.le_refl k) (Nat.le_add_right k _)
      exact ⟨hk.trans h.1, h.2⟩
  | cons data datas ih =>
      rcases h with ⟨hdata, hne, hclean, hrest⟩
      have hk := hsame k (Nat.le_refl k) (Nat.le_add_right k _)
      refine ⟨hk.trans hdata, hne, hclean, ih hrest fun i hi hle => hsame i (by omega) ?_⟩
      rw [List.length_cons]
      omega

/-- A session in quarantine stays there unless it is saved open, one of its chunks is
replaced, or they are deleted while it is open. -/
theorem Quarantined.handle (h : Quarantined sid bad datas w) (env : Env) (out : Outcome)
    (c : Call) (hsave : ∀ s, c = .sessionSave s → s.sessionId = sid → ¬ s.Open)
    (hchunk : ∀ chunk, c = .chunkSave sid chunk → 0 ≤ chunk.index → chunk.index ≤ datas.length →
      ∃ msg, out = .raises msg)
    (hall : c = .deleteAll sid → ∀ v, w.session? sid = some v → ¬ v.Open) :
    Quarantined sid bad datas (handle env out c w).2 := by
  refine ⟨h.keyed.handle out c, fun v hv hopen => ?_⟩
  rcases handle_session? env out c w sid with hsame | ⟨s, hc, hs, hsaved⟩ | ⟨_, hnone⟩
  · have hstored : w.session? sid = some v := hsame.symm.trans hv
    rcases h.state v hstored hopen with ⟨hfull, hinf⟩
    refine ⟨hfull, hinf.congr fun i _ hi => ?_⟩
    rcases handle_chunk? env out c w sid i with ⟨hi', _⟩ | ⟨chunk, hc, hindex, _⟩ | ⟨hc, _⟩
    · exact hi'
    · -- a chunk in this range is not saved
      have hfails : ∃ msg, out = .raises msg := hchunk chunk hc (by omega) (by omega)
      rcases hfails with ⟨msg, rfl⟩
      rfl
    · exact absurd hopen (hall hc v hstored)
  · cases hsaved.symm.trans hv
    exact absurd hopen (hsave _ hc hs)
  · cases hnone.symm.trans hv

/-- Time takes nothing from the quarantine, as long as the chunks do not expire. -/
theorem Quarantined.wait (h : Quarantined sid bad datas w) {d : Nat}
    (hlast : ChunksLast sid datas.length w d) : Quarantined sid bad datas (w.advance d) := by
  have hbefore : ∀ sid v, (w.advance d).session? sid = some v → w.session? sid = some v :=
    fun sid v hv => w.sessions.get_of_get_later (Nat.le_add_right w.now d) hv
  refine ⟨fun sid v hv => h.keyed sid v (hbefore sid v hv), fun v hv hopen => ?_⟩
  rcases h.state v (hbefore sid v hv) hopen with ⟨hfull, hinf⟩
  exact ⟨hfull, hinf.congr fun i _ hi => hlast i (by omega)⟩

end Step

/-! ## A scan whose calls may fail -/

section Scan

variable {sid : UUID} {bad data : Bytes} {datas : List Bytes} {v : UploadSession} {ok : Pattern}
  {w w' : World} {t t' : Trace Collab}

/-- One step of the stream, at a chunk that is there. -/
theorem getStream_faulty {k : Nat} {o : Except Exn (Option (Bytes × Nat))}
    (hdata : w.chunk? sid k = some data) (hne : data ≠ [])
    (h : Exec (faulty env ok) (ChunkRepository.getStream sid k) (w, t) o (w', t')) :
    w' = w ∧ ((∃ msg, o = .error (.infrastructureError msg)) ∧ ¬ OnlyReleaseFails sid ok ∨
      o = .ok (some (data, k + 1))) := by
  rw [ChunkRepository.getStream] at h
  rcases faulty_call (fun _ => rfl) h with ⟨⟨out, hout, hno⟩, hw, msg, ho, _⟩ | h
  · refine ⟨hw.elim id id, Or.inl ⟨⟨msg, ho⟩, fun honly => ?_⟩⟩
    exact hno (honly t out _ hout (by simp))
  · simp only [respond, hdata, onOk_ok, if_neg hne] at h
    rcases h with ⟨ho, hs⟩
    cases hs
    exact ⟨rfl, Or.inr ho⟩

/-- One round of the scan, at a chunk that is there: the chunk is not read, or is infected,
or the scan goes on. -/
theorem scanRound_faulty {k : Nat} {o : Except Exn (Nat ⊕ Bool)}
    (hdata : w.chunk? sid k = some data) (hne : data ≠ [])
    (h : Exec (faulty env ok) (scanRound sid k) (w, t) o (w', t')) :
    w' = w ∧ ((∃ msg, o = .error (.infrastructureError msg)) ∧ ¬ OnlyReleaseFails sid ok ∨
      ¬ CleanChunk data ∧ o = .error LocalVirusScanner.threat ∨
      CleanChunk data ∧ o = .ok (.inl (k + 1))) := by
  rcases (exec_bind _ _ _).1 h with ⟨x, hpull, ho⟩ | ⟨found, ⟨w₁, t₁⟩, hpull, h⟩
  · rcases getStream_faulty hdata hne hpull with ⟨rfl, ⟨⟨msg, hx⟩, hfails⟩ | hx⟩
    · cases hx
      exact ⟨rfl, Or.inl ⟨⟨msg, ho⟩, hfails⟩⟩
    · cases hx
  · rcases getStream_faulty hdata hne hpull with ⟨rfl, ⟨⟨msg, hx⟩, _⟩ | hx⟩
    · cases hx
    cases hx
    rcases (exec_raiseIf_bind _ _ _ _).1 h with ⟨hbad, ho, hs⟩ | ⟨hclean, ho, hs⟩
    · cases hs
      exact ⟨rfl, Or.inr (Or.inl ⟨not_not.2 hbad, ho⟩)⟩
    · cases hs
      exact ⟨rfl, Or.inr (Or.inr ⟨hclean, ho⟩)⟩

/-- One round of the scan of infected chunks. -/
theorem infectedRound_faulty {k : Nat} {o : Except Exn (Nat ⊕ Bool)}
    (hinf : InfectedFrom w sid bad k datas)
    (h : Exec (faulty env ok) (scanRound sid k) (w, t) o (w', t')) :
    w' = w ∧ ((∃ msg, o = .error (.infrastructureError msg)) ∧ ¬ OnlyReleaseFails sid ok ∨
      o = .error LocalVirusScanner.threat ∨
      ∃ rest, o = .ok (.inl (k + 1)) ∧ InfectedFrom w sid bad (k + 1) rest) := by
  cases datas with
  | nil =>
      have hne : bad ≠ [] := LocalVirusScanner.ne_nil_of_not_clean hinf.2
      rcases scanRound_faulty hinf.1 hne h with ⟨hw, hfails | ⟨_, ho⟩ | ⟨hclean, _⟩⟩
      · exact ⟨hw, Or.inl hfails⟩
      · exact ⟨hw, Or.inr (Or.inl ho)⟩
      · exact absurd hclean hinf.2
  | cons data rest =>
      rcases hinf with ⟨hdata, hne, hclean, hrest⟩
      rcases scanRound_faulty hdata hne h with ⟨hw, hfails | ⟨hbad, _⟩ | ⟨_, ho⟩⟩
      · exact ⟨hw, Or.inl hfails⟩
      · exact absurd hclean hbad
      · exact ⟨hw, Or.inr (Or.inr ⟨rest, ho, hrest⟩)⟩

/-- The scan of infected chunks does not return: it finds the malware, or a chunk is not
read. -/
theorem scanStream_faulty {k : Nat} {o : Except Exn Bool} (hinf : InfectedFrom w sid bad k datas)
    (h : Exec (faulty env ok) (LocalVirusScanner.scanStream (ChunkRepository.getStream sid) k)
      (w, t) o (w', t')) :
    w' = w ∧ ((∃ msg, o = .error (.infrastructureError msg)) ∧ ¬ OnlyReleaseFails sid ok ∨
      o = .error LocalVirusScanner.threat) := by
  rw [scanStream_eq, exec_loop] at h
  generalize hs : (w, t) = s at h
  generalize hs' : (w', t') = s' at h
  -- along the rounds, from every index whose chunks are infected further on
  induction h generalizing datas t with
  | @again k k' s s₁ s₂ o hround _ ih =>
      subst hs
      rcases s₁ with ⟨w₁, t₁⟩
      rcases infectedRound_faulty hinf hround with ⟨rfl, ⟨⟨_, hx⟩, _⟩ | hx | ⟨rest, hx, hrest⟩⟩
      · cases hx
      · cases hx
      · cases hx
        exact ih hrest rfl hs'
  | @stop k b s s₁ hround =>
      subst hs hs'
      rcases infectedRound_faulty hinf hround with ⟨_, ⟨⟨_, hx⟩, _⟩ | hx | ⟨_, hx, _⟩⟩
      · cases hx
      · cases hx
      · cases hx
  | @fail k x s s₁ hround =>
      subst hs hs'
      rcases infectedRound_faulty hinf hround with ⟨hw, ⟨⟨msg, hx⟩, hfails⟩ | hx | ⟨_, hx, _⟩⟩
      · cases hx
        exact ⟨hw, Or.inl ⟨⟨msg, rfl⟩, hfails⟩⟩
      · cases hx
        exact ⟨hw, Or.inr rfl⟩
      · cases hx

/-- And it comes to an end, however its calls turn out. -/
theorem scanStream_ends {k : Nat} (hok : ∀ t c, ∃ out, ok t out c)
    (hinf : InfectedFrom w sid bad k datas) :
    Ends (faulty env ok) (LocalVirusScanner.scanStream (ChunkRepository.getStream sid) k)
      (w, t) := by
  -- a round makes one call
  have hround : ∀ (k : Nat) s, Ends (faulty env ok) (scanRound sid k) s := by
    intro k s
    refine Ends.bind (Ends.bind (ends_faulty hok s) fun found s₁ _ => ?_) fun found s₁ _ => ?_
    · cases found with
      | none => exact ends_done _
      | some data =>
          simp only
          split
          · exact ends_done _
          · exact ends_done _
    · cases found with
      | none => exact ends_done _
      | some found => exact ends_raiseIf_bind fun _ => ends_done _
  rw [scanStream_eq]
  -- chunk by chunk, up to the infected one
  induction datas generalizing k t with
  | nil =>
      refine Ends.loop (hround k _) fun k' s₁ hnext => ?_
      have hne : bad ≠ [] := LocalVirusScanner.ne_nil_of_not_clean hinf.2
      rcases scanRound_faulty hinf.1 hne hnext with ⟨_, ⟨⟨_, hx⟩, _⟩ | ⟨_, hx⟩ | ⟨hclean, _⟩⟩
      · cases hx
      · cases hx
      · exact absurd hclean hinf.2
  | cons data rest ih =>
      refine Ends.loop (hround k _) fun k' s₁ hnext => ?_
      rcases hinf with ⟨hdata, hne, _, hrest⟩
      rcases s₁ with ⟨w₁, t₁⟩
      rcases scanRound_faulty hdata hne hnext with ⟨rfl, ⟨⟨_, hx⟩, _⟩ | ⟨_, hx⟩ | ⟨_, hx⟩⟩
      · cases hx
      · cases hx
      · cases hx
        exact ih hrest

/-- The purge stops at the call that fails, if one does. -/
theorem purge_faulty {x : Exn} {o : Except Exn Bool} (h : Exec (faulty env ok) (do
      SessionRepository.save v.fail
      ChunkRepository.deleteAll sid
      SessionRepository.delete sid
      raise x) (w, t) o (w', t')) :
    (∃ x, o = .error x) ∧ Residue v sid w w' ∧
      (OnlyReleaseFails sid ok → w' = w.quarantined v sid) := by
  -- if only releases fail, none of these calls has failed
  have hstops : ∀ {t : Trace Collab} {c : Call}, (∃ out, ok t out c ∧ out ≠ .works) →
      c ≠ .releaseLock sid → OnlyReleaseFails sid ok → w' = w.quarantined v sid := by
    intro t c hwhy hc honly
    rcases hwhy with ⟨out, hout, hno⟩
    exact absurd (honly t out c hout hc) hno
  rw [SessionRepository.save] at h
  rcases faulty_call (fun _ => rfl) h with ⟨hwhy, hw, msg, ho, _⟩ | h
  · refine ⟨⟨_, ho⟩, ?_, hstops hwhy (by simp)⟩
    rcases hw with rfl | rfl
    · exact .untouched
    · exact .failed
  -- the session is stored as failed
  simp only [respond, onOk_ok, ChunkRepository.deleteAll] at h
  rcases faulty_call (fun _ => rfl) h with ⟨hwhy, hw, msg, ho, _⟩ | h
  · refine ⟨⟨_, ho⟩, ?_, hstops hwhy (by simp)⟩
    rcases hw with rfl | rfl
    · exact .failed
    · exact .purged
  -- and its chunks are deleted
  simp only [respond, onOk_ok, SessionRepository.delete] at h
  rcases faulty_call (fun _ => rfl) h with ⟨hwhy, hw, msg, ho, _⟩ | h
  · refine ⟨⟨_, ho⟩, ?_, hstops hwhy (by simp)⟩
    rcases hw with rfl | rfl
    · exact .purged
    · exact .deleted
  · rcases h with ⟨ho, hs⟩
    cases hs
    exact ⟨⟨_, ho⟩, .deleted, fun _ => rfl⟩

/-- A scan of infected chunks raises, and leaves a residue of the session. -/
theorem scan_faulty {o : Except Exn Bool} (hinf : InfectedFrom w sid bad 0 datas)
    (h : Exec (faulty env ok) (FinalizeUploadUseCase.scan v sid) (w, t) o (w', t')) :
    (∃ x, o = .error x) ∧ Residue v sid w w' ∧
      (OnlyReleaseFails sid ok → w' = w.quarantined v sid) := by
  rcases (exec_tryExcept _ _ _).1 h with ⟨clean, hstream, _⟩ | ⟨x, ⟨w₁, t₁⟩, hstream, h⟩
  · rcases scanStream_faulty hinf hstream with ⟨_, ⟨⟨_, hx⟩, _⟩ | hx⟩
    · cases hx
    · cases hx
  · rcases scanStream_faulty hinf hstream with ⟨rfl, ⟨⟨msg, hx⟩, hfails⟩ | hx⟩
    · cases hx
      rcases h with ⟨ho, hs⟩
      cases hs
      exact ⟨⟨_, ho⟩, .untouched, fun honly => absurd honly hfails⟩
    · cases hx
      exact purge_faulty h

/-- Whatever the purge leaves is in quarantine. -/
theorem Quarantined.residue (h : Quarantined sid bad datas w) (env : Env) (hid : v.sessionId = sid)
    (hres : Residue v sid w w') : Quarantined sid bad datas w' := by
  have hclosed : ¬ v.fail.Open := by simp [UploadSession.Open, UploadSession.fail]
  have hfailed : Quarantined sid bad datas (RedisSessionRepository.save w v.fail) := by
    refine h.handle env .works (.sessionSave v.fail) ?_ (by simp) (by simp)
    intro s hs _
    cases hs
    exact hclosed
  have hpurged : Quarantined sid bad datas
      (RedisChunkRepository.deleteAll (RedisSessionRepository.save w v.fail) sid) := by
    refine hfailed.handle env .works (.deleteAll sid) (by simp) (by simp) ?_
    intro _ s hs
    cases hs.symm.trans (session?_save_self hid)
    exact hclosed
  cases hres with
  | untouched => exact h
  | failed => exact hfailed
  | purged => exact hpurged
  | deleted =>
      exact hpurged.handle env .works (.sessionDelete sid) (by simp) (by simp) (by simp)

theorem Residue.outside (hres : Residue v sid w w') : SameOutside w w' := by
  cases hres with
  | untouched => exact ⟨rfl, rfl, rfl, rfl⟩
  | failed => exact ⟨rfl, rfl, rfl, rfl⟩
  | purged => exact ⟨rfl, rfl, rfl, rfl⟩
  | deleted => exact ⟨rfl, rfl, rfl, rfl⟩

end Scan

/-! ## A finalize whose calls may fail -/

section Finalize

variable {sid : UUID} {bad : Bytes} {datas : List Bytes} {v : UploadSession} {ok : Pattern}
  {w w' w₁ : World} {t t' t₁ : Trace Collab}

theorem SameOutside.trans {w₂ : World} (h : SameOutside w w₁) (h' : SameOutside w₁ w₂) :
    SameOutside w w₂ :=
  ⟨h'.uploads.trans h.uploads, h'.objects.trans h.objects, h'.dedup.trans h.dedup,
    h'.events.trans h.events⟩

theorem sameOutside_acquireLock (w : World) (sid : UUID) (ttl : Nat) :
    SameOutside w (RedisSessionRepository.acquireLock w sid ttl).2 := by
  rcases RedisSessionRepository.acquireLock_frame w sid ttl with ⟨_, h⟩
  rw [h]
  exact ⟨rfl, rfl, rfl, rfl⟩

theorem sameOutside_releaseLock (out : Outcome) (w : World) (sid : UUID) :
    SameOutside w (handle env out (.releaseLock sid) w).2 := by
  rcases handle_world env out (.releaseLock sid) w with h | h
  · rw [h]
    exact ⟨rfl, rfl, rfl, rfl⟩
  · rw [h]
    exact ⟨rfl, rfl, rfl, rfl⟩

/-- The critical section comes no further than the scan. -/
theorem critical_faulty {o : Except Exn String} (hinf : InfectedFrom w sid bad 0 datas)
    (h : Exec (faulty env ok) (FinalizeUploadUseCase.critical v sid) (w, t) o (w', t')) :
    (∃ x, o = .error x) ∧ Residue v sid w w' ∧
      (OnlyReleaseFails sid ok → w' = w.quarantined v sid) ∧
      ∃ made, t' = t ++ made ∧ ∀ e ∈ made, e.call.Contained := by
  have hmade : Makes Call.Contained (FinalizeUploadUseCase.scan v sid) :=
    scan_makes (fun _ => trivial) trivial trivial trivial
  rcases (exec_bind _ _ _).1 h with ⟨x, hscan, ho⟩ | ⟨clean, ⟨w₁, t₁⟩, hscan, _⟩
  · rcases scan_faulty hinf hscan with ⟨_, hres, hworks⟩
    exact ⟨⟨x, ho⟩, hres, hworks, faulty_trace hmade hscan⟩
  · rcases scan_faulty hinf hscan with ⟨⟨_, hx⟩, _⟩
    cases hx

/-- Infected chunks stay as they are until one is stored or all are deleted. -/
theorem InfectedFrom.handle {k : Nat} (h : InfectedFrom w sid bad k datas) (env : Env)
    (out : Outcome) {c : Call} (hsave : ∀ chunk, c ≠ .chunkSave sid chunk)
    (hall : c ≠ .deleteAll sid) : InfectedFrom (handle env out c w).2 sid bad k datas := by
  refine h.congr fun i _ _ => ?_
  rcases handle_chunk? env out c w sid i with ⟨hsame, _⟩ | ⟨chunk, hc, _⟩ | ⟨hc, _⟩
  · exact hsame
  · exact absurd hc (hsave chunk)
  · exact absurd hc hall

theorem scan_ends (hok : ∀ t c, ∃ out, ok t out c) (hinf : InfectedFrom w sid bad 0 datas) :
    Ends (faulty env ok) (FinalizeUploadUseCase.scan v sid) (w, t) := by
  refine Ends.tryExcept (scanStream_ends hok hinf) fun x s₁ _ => ?_
  split
  · refine Ends.bind (ends_faulty hok _) fun _ s₂ _ => ?_
    refine Ends.bind (ends_faulty hok _) fun _ s₃ _ => ?_
    exact Ends.bind (ends_faulty hok _) fun _ _ _ => ends_done _
  · exact ends_done _

/-- A finalize of infected chunks comes to an end, however its calls turn out. -/
theorem finalize_ends (hok : ∀ t c, ∃ out, ok t out c) (hinf : InfectedFrom w sid bad 0 datas) :
    Ends (faulty env ok) (Op.prog env (.finalize sid)) (w, t) := by
  -- the calls before the scan leave the chunks alone
  have hkept : ∀ {α : Type} {p : Program α} {s s' : World × Trace Collab} {o : Except Exn α},
      Makes (fun c : Call => (∀ chunk, c ≠ .chunkSave sid chunk) ∧ c ≠ .deleteAll sid) p →
      InfectedFrom s.1 sid bad 0 datas → Exec (faulty env ok) p s o s' →
      InfectedFrom s'.1 sid bad 0 datas := by
    intro α p s s' o hp hinf₁ hexec
    exact faulty_keeps hp (InfectedFrom · sid bad 0 datas)
      (fun out c w hc hw => hw.handle env out hc.1 hc.2) hexec hinf₁
  have hrequire : Ends (faulty env ok) (requireSession sid) (w, t) := by
    refine Ends.bind (ends_faulty hok _) fun found s₁ _ => ?_
    cases found with
    | none => exact ends_done _
    | some v => exact ends_done _
  refine Ends.bind (Ends.bind hrequire fun v s₁ hread => ?_) fun _ _ _ => ends_done _
  have hinf₁ := hkept (requireSession_makes ⟨by simp, by simp⟩) hinf hread
  refine ends_raiseIf_bind fun _ => ends_raiseIf_bind fun _ => ends_raiseIf_bind fun _ => ?_
  refine Ends.bind (ends_faulty hok _) fun locked s₂ hlock => ?_
  have hinf₂ := hkept ((makes_ask _).2 ⟨by simp, by simp⟩) hinf₁ hlock
  refine ends_raiseIf_bind fun _ => Ends.tryFinally ?_ fun s₃ => ends_faulty hok s₃
  -- the scan does not return
  refine Ends.bind (scan_ends hok hinf₂) fun clean s₃ hscan => ?_
  rcases (scan_faulty hinf₂ hscan).1 with ⟨x, hx⟩
  cases hx

/-- A finalize of a session in quarantine is rejected, and leaves it there. -/
theorem finalize_rejected {r : Except Exn Response} (h : Quarantined sid bad datas w)
    (hexec : Exec (faulty env ok) (Op.prog env (.finalize sid)) (w, []) r (w', t')) :
    Quarantined sid bad datas w' ∧ Rejected r w w' t' := by
  rcases (exec_map _ _ _).1 hexec with ⟨o, hrun, rfl⟩
  rcases finalize_faulty hrun with ⟨_, hstop⟩ | ⟨v, o₁, w₁, t₁, out, hent⟩
  · -- it has not come to its critical section
    rcases hstop.raised with ⟨x, rfl⟩
    rcases hstop.calls with ⟨made, ht, hmade⟩
    have hcalls : ∀ e ∈ t', e.call.Contained := by
      intro e he
      rw [ht, List.nil_append] at he
      rcases hmade e he with hc | hc
      · rw [hc]
        trivial
      · rw [hc]
        trivial
    rcases hstop.world with rfl | rfl
    · exact ⟨h, ⟨x, rfl⟩, hcalls, rfl, rfl, rfl, rfl⟩
    · refine ⟨?_, ⟨x, rfl⟩, hcalls, sameOutside_acquireLock w sid _⟩
      exact h.handle env .works (.acquireLock sid _) (by simp) (by simp) (by simp)
  · -- it has taken the lock, and scans infected chunks
    rcases h.state v hent.ready.live hent.ready.opened with ⟨_, hinf⟩
    have hlocked : Quarantined sid bad datas (w.locking sid) :=
      ⟨h.keyed, fun v hv hopen => ⟨(h.state v hv hopen).1,
        (h.state v hv hopen).2.congr fun _ _ _ => rfl⟩⟩
    have hinf' : InfectedFrom (w.locking sid) sid bad 0 datas := hinf.congr fun _ _ _ => rfl
    rcases critical_faulty hinf' hent.critical with ⟨⟨x, rfl⟩, hres, _, made, ht, hmade⟩
    have hleft : Quarantined sid bad datas w₁ :=
      hlocked.residue env (h.keyed sid v hent.ready.live) hres
    refine ⟨?_, ?_, ?_, ?_⟩
    · rw [hent.world]
      exact hleft.handle env out _ (by simp) (by simp) (by simp)
    · -- it has raised, from the critical section or from the release
      rcases hent.result with ⟨_, rfl⟩ | ⟨_, y, rfl⟩
      · exact ⟨x, rfl⟩
      · exact ⟨y, rfl⟩
    · intro e he
      rw [hent.calls, ht] at he
      simp only [lockTrace, List.nil_append, List.mem_append, List.mem_cons, List.not_mem_nil,
        or_false] at he
      rcases he with ((rfl | rfl) | he) | rfl
      · trivial
      · trivial
      · exact hmade e he
      · trivial
    · have hlock : SameOutside w (w.locking sid) := ⟨rfl, rfl, rfl, rfl⟩
      rw [hent.world]
      exact (hlock.trans hres.outside).trans (sameOutside_releaseLock out w₁ sid)

/-- If only the release may fail, nothing of the session is left. -/
theorem finalize_gone {r : Except Exn Response} (hready : Finalizable w sid v)
    (hinf : InfectedFrom w sid bad 0 datas) (honly : OnlyReleaseFails sid ok)
    (hexec : Exec (faulty env ok) (Op.prog env (.finalize sid)) (w, []) r (w', t')) :
    Gone sid w' := by
  rcases (exec_map _ _ _).1 hexec with ⟨o, hrun, rfl⟩
  rcases finalize_faulty hrun with ⟨hwhy, _⟩ | ⟨v', o₁, w₁, t₁, out, hent⟩
  · rcases hwhy with hno | ⟨t₀, out, c, hout, hno, hc⟩
    · exact absurd hready (hno v)
    · refine absurd (honly t₀ out c hout ?_) hno
      rcases hc with rfl | rfl <;> simp
  · have hinf' : InfectedFrom (w.locking sid) sid bad 0 datas := hinf.congr fun _ _ _ => rfl
    rcases critical_faulty hinf' hent.critical with ⟨_, _, hworks, _⟩
    have hgone : Gone sid w₁ := by
      rw [hworks honly]
      exact gone_purge sid _
    rw [hent.world]
    rcases handle_world env out (.releaseLock sid) w₁ with hsame | hsame
    · rw [hsame]
      exact hgone
    · rw [hsame]
      exact ⟨hgone.session, hgone.chunk, hgone.chunkMeta⟩

end Finalize

/-! ## The other requests -/

/-- A request that is no finalize or abort of a session in quarantine: what it has read of the
session is complete, so that it stores nothing more. -/
structure Bystander (sid : UUID) (bad : Bytes) (datas : List Bytes) (op : Op) (l : SessionLocal)
    (w : World) : Prop where
  world : Quarantined sid bad datas w
  asked : l.op = op
  coherent : l.Coherent
  full : ∀ v, l.copy = some v → v.sessionId = sid → v.Open → v.currentOffset = v.totalSize

section Others

variable {sid : UUID} {bad : Bytes} {datas : List Bytes} {op : Op} {ok : Pattern}
  {w w' : World} {t t' : Trace Collab} {r : Except Exn Response}

/-- The session is saved by nobody else, unless as failed. -/
theorem Bystander.saves {l : SessionLocal} {s : UploadSession}
    (h : Bystander sid bad datas op l w) (hnew : op.newId? ≠ some sid)
    (hallow : l.allows env (.sessionSave s)) (hs : s.sessionId = sid) : ¬ s.Open := by
  intro hopen
  rcases SessionLocal.allows_save hallow with ⟨hid, _⟩ | ⟨hown, hwrote, v, hv, hsaves⟩
  · rw [h.asked, hs] at hid
    exact hnew hid
  · have hcopy : l.copy = some v := h.coherent.viewed hown.1 hwrote v hv
    have hid : v.sessionId = sid := by
      have htarget := (h.coherent.read v hcopy).symm.trans hown.2
      rw [← hs]
      exact Option.some.inj htarget
    rw [h.asked] at hsaves
    cases op with
    | uploadChunk sid' index cs data =>
        -- a complete session takes no more bytes
        rcases hsaves with ⟨hactive, haccepted⟩
        have hfull := h.full v hcopy hid hactive
        rcases UploadSession.updateOffset_ok haccepted with ⟨hpos, hfits, _⟩
        omega
    | finalize sid' =>
        rcases hsaves with ⟨_, _, hfail⟩
        subst hfail
        exact hopen (by simp [UploadSession.fail])
    | _ => exact hsaves

theorem Bystander.handle {l : SessionLocal} {c : Call} {out : Outcome}
    (h : Bystander sid bad datas op l w) (hfin : op ≠ .finalize sid) (habort : op ≠ .abort sid)
    (hnew : op.newId? ≠ some sid)
    (hchunk : ∀ chunk, c = .chunkSave sid chunk → 0 ≤ chunk.index → chunk.index ≤ datas.length →
      ∃ msg, out = .raises msg)
    (hallow : l.allows env c) :
    (sessionDiscipline env).expects l c (handle env out c w).1 ∧
      Bystander sid bad datas op (l.next c (handle env out c w).1) (handle env out c w).2 := by
  have hsound : Sound (⟨w, [], []⟩ : Scene (service env)) := ⟨h.world.keyed, by simp⟩
  have hexp : (sessionDiscipline env).expects l c (FileUploader.handle env out c w).1 :=
    hsound.expects l c out
  refine ⟨hexp, ?_, ?_, h.coherent.next hallow hexp, ?_⟩
  · refine h.world.handle env out c (fun s hc hs => ?_) hchunk (fun hc => ?_)
    · subst hc
      exact h.saves hnew hallow hs
    · subst hc
      rcases hallow with ⟨_, hop | hop⟩
      · exact absurd (h.asked.symm.trans hop) hfin
      · exact absurd (h.asked.symm.trans hop) habort
  · rw [SessionLocal.next_op]
    exact h.asked
  · intro v hv hid hopen
    rcases SessionLocal.next_copy hv with hold | hread
    · exact h.full v hold hid hopen
    · rcases handle_sessionRead env out c w hread with ⟨sid', _, hstored⟩
      have hsame : sid' = sid := (h.world.keyed sid' v hstored).symm.trans hid
      subst hsame
      exact (h.world.state v hstored hopen).1

/-- The session stays in quarantine. -/
theorem others_quarantined (h : Quarantined sid bad datas w) (hfin : op ≠ .finalize sid)
    (habort : op ≠ .abort sid) (hnew : op.newId? ≠ some sid)
    (hspares : ∀ t out chunk, ok t out (.chunkSave sid chunk) → 0 ≤ chunk.index →
      chunk.index ≤ datas.length → ∃ msg, out = .raises msg)
    (hexec : Exec (faulty env ok) (op.prog env) (w, t) r (w', t')) :
    Quarantined sid bad datas w' := by
  have hstep : ∀ (l : SessionLocal) c (s : World × Trace Collab) r s',
      Bystander sid bad datas op l s.1 → (sessionDiscipline env).allows l c →
      faulty env ok c s r s' → (sessionDiscipline env).expects l c r ∧ faulty env ok c s r s' ∧
        Bystander sid bad datas op ((sessionDiscipline env).next l c r) s'.1 := by
    intro l c s r s' hl hallow hr
    have hanswer := hr
    rcases hanswer with ⟨out, hout, rfl, rfl⟩
    have hchunk : ∀ chunk, c = .chunkSave sid chunk → 0 ≤ chunk.index →
        chunk.index ≤ datas.length → ∃ msg, out = .raises msg := by
      intro chunk hc
      subst hc
      exact hspares s.2 out chunk hout
    rcases hl.handle hfin habort hnew hchunk hallow with ⟨hexp, hnext⟩
    exact ⟨hexp, hr, hnext⟩
  have hstart : Bystander sid bad datas op (SessionLocal.start op) w :=
    ⟨h, rfl, SessionLocal.coherent_start op, by simp [SessionLocal.start]⟩
  rcases Obeys.exec (f := id) (I := fun l s => Bystander sid bad datas op l s.1)
    (prog_obeys env op) hstep hstart hexec with ⟨_, _, _, hend⟩
  exact hend.world

end Others

/-! ## An abort -/

/-- The requests that an abort makes, with a local state that tells whether the chunks have
been deleted and the session has not. -/
def purging (sid : UUID) : Discipline Collab Bool where
  next := fun l c r =>
    match c, r with
    | .deleteAll _, .ok _ => true
    | .sessionDelete _, _ => false
    | _, _ => l
  allows := fun _ c =>
    match c with
    | .sessionGet _ | .acquireLock _ _ | .releaseLock _ => True
    | .deleteAll sid' | .sessionDelete sid' => sid' = sid
    | _ => False
  expects := fun _ _ _ => True
  loops := fun _ => True

theorem purging_obeys (sid : UUID) :
    Obeys (purging sid) (Op.prog env (.abort sid)) false (fun _ l => l = false) := by
  simp [Op.prog, AbortUploadUseCase.execute, requireSession, SessionRepository.get,
    SessionRepository.acquireLock, SessionRepository.releaseLock, SessionRepository.delete,
    ChunkRepository.deleteAll, Option.forall, purging]

section Abort

variable {sid : UUID} {bad : Bytes} {datas : List Bytes} {ok : Pattern}
  {w w' : World} {t t' : Trace Collab} {r : Except Exn Response}

/-- In between, the session may be open without its chunks. -/
theorem purging_step {l : Bool} {c : Call} {out : Outcome}
    (hall : c = .deleteAll sid → ∀ msg, out ≠ .raisesAfter msg)
    (hdelete : c = .sessionDelete sid → ∀ msg, out ≠ .raises msg)
    (h : Keyed w ∧ (l = false → Quarantined sid bad datas w)) (hallow : (purging sid).allows l c) :
    Keyed (handle env out c w).2 ∧ ((purging sid).next l c (handle env out c w).1 = false →
      Quarantined sid bad datas (handle env out c w).2) := by
  refine ⟨h.1.handle out c, ?_⟩
  cases c with
  | sessionGet sid' => exact fun hl => (h.2 hl).handle env out _ (by simp) (by simp) (by simp)
  | acquireLock sid' ttl => exact fun hl => (h.2 hl).handle env out _ (by simp) (by simp) (by simp)
  | releaseLock sid' => exact fun hl => (h.2 hl).handle env out _ (by simp) (by simp) (by simp)
  | deleteAll sid' =>
      have hsid : sid' = sid := hallow
      subst hsid
      cases out with
      | works => exact fun hl => by cases hl
      | raises msg => exact h.2
      | raisesAfter msg => exact absurd rfl (hall rfl msg)
  | sessionDelete sid' =>
      -- the session is gone
      have hsid : sid' = sid := hallow
      subst hsid
      have hgone : ∀ w' : World, w' = RedisSessionRepository.delete w sid' →
          ∀ v, w'.session? sid' = some v → v.Open →
            v.currentOffset = v.totalSize ∧ InfectedFrom w' sid' bad 0 datas := by
        intro w' hw' v hv
        rw [hw'] at hv
        cases (w.sessions.get_erase_self w.now sid').symm.trans hv
      intro _
      refine ⟨h.1.handle out _, ?_⟩
      cases out with
      | works => exact hgone _ rfl
      | raises msg => exact absurd rfl (hdelete rfl msg)
      | raisesAfter msg => exact hgone _ rfl
  | _ => exact hallow.elim

/-- A session that is not open is not opened by an abort. -/
theorem abort_closed (hkeyed : Keyed w) (hclosed : ∀ v, w.session? sid = some v → ¬ v.Open)
    (hexec : Exec (faulty env ok) (Op.prog env (.abort sid)) (w, t) r (w', t')) :
    Keyed w' ∧ ∀ v, w'.session? sid = some v → ¬ v.Open := by
  have hmakes : Makes (fun c : Call => ∀ s, c ≠ .sessionSave s) (Op.prog env (.abort sid)) :=
    abort_makes (by simp) (by simp) (by simp) (by simp) (by simp)
  refine faulty_keeps hmakes (fun w => Keyed w ∧ ∀ v, w.session? sid = some v → ¬ v.Open) ?_
    hexec ⟨hkeyed, hclosed⟩
  intro out c w hc hw
  refine ⟨hw.1.handle out c, fun v hv => ?_⟩
  rcases handle_session? env out c w sid with hsame | ⟨s, hsave, _⟩ | ⟨_, hnone⟩
  · exact hw.2 v (hsame.symm.trans hv)
  · exact absurd hsave (hc s)
  · cases hnone.symm.trans hv

/-- An abort that deletes the chunks with the session keeps the quarantine. -/
theorem abort_quarantined (h : Quarantined sid bad datas w)
    (hwhole : ∀ v, w.session? sid = some v → v.Open → ∀ t out,
      (ok t out (.deleteAll sid) → ∀ msg, out ≠ .raisesAfter msg) ∧
      (ok t out (.sessionDelete sid) → ∀ msg, out ≠ .raises msg))
    (hexec : Exec (faulty env ok) (Op.prog env (.abort sid)) (w, t) r (w', t')) :
    Quarantined sid bad datas w' := by
  by_cases hopen : ∃ v, w.session? sid = some v ∧ v.Open
  · rcases hopen with ⟨v, hv, hopen⟩
    have hstep : ∀ (l : Bool) c (s : World × Trace Collab) r s',
        (Keyed s.1 ∧ (l = false → Quarantined sid bad datas s.1)) → (purging sid).allows l c →
        faulty env ok c s r s' → (purging sid).expects l c r ∧ faulty env ok c s r s' ∧
          Keyed s'.1 ∧ ((purging sid).next l c r = false → Quarantined sid bad datas s'.1) := by
      intro l c s r s' hl hallow hr
      have hanswer := hr
      rcases hanswer with ⟨out, hout, rfl, rfl⟩
      refine ⟨trivial, hr, purging_step (fun hc => ?_) (fun hc => ?_) hl hallow⟩
      · subst hc
        exact (hwhole v hv hopen s.2 out).1 hout
      · subst hc
        exact (hwhole v hv hopen s.2 out).2 hout
    rcases Obeys.exec (f := id)
      (I := fun l s => Keyed s.1 ∧ (l = false → Quarantined sid bad datas s.1))
      (purging_obeys sid) hstep ⟨h.keyed, fun _ => h⟩ hexec with ⟨_, l, hl, hend⟩
    exact hend.2 hl
  · have hclosed : ∀ v, w.session? sid = some v → ¬ v.Open :=
      fun v hv hv' => hopen ⟨v, hv, hv'⟩
    rcases abort_closed h.keyed hclosed hexec with ⟨hkeyed, hend⟩
    exact ⟨hkeyed, fun v hv hv' => absurd hv' (hend v hv)⟩

end Abort

/-! ## Runs -/

section Runs

variable {sid : UUID} {bad : Bytes} {datas : List Bytes} {ok : World → Op → Pattern}
  {w w₀ : World} {done : List Attempt}

/-- Every request of the run leaves the session in quarantine, and every finalize of it is
rejected. -/
theorem series_quarantined (h₀ : Quarantined sid bad datas w₀)
    (hspares : Spares sid datas.length ok) (hwhole : AbortsWhole sid ok)
    (h : Series env ok (OtherIds sid) (ChunksLast sid datas.length) w₀ done w) :
    Quarantined sid bad datas w ∧
      ∀ a ∈ done, a.op = .finalize sid → ∀ e ∈ a.calls, e.call.Contained := by
  induction h with
  | start => exact ⟨h₀, fun a ha => by cases ha⟩
  | @attempt done w w' op r t _ hnew hexec ih =>
      rcases ih with ⟨hquar, hdone⟩
      have hlast : Quarantined sid bad datas w' ∧
          (op = .finalize sid → ∀ e ∈ t, e.call.Contained) := by
        by_cases hfin : op = .finalize sid
        · subst hfin
          rcases finalize_rejected hquar hexec with ⟨hquar', hrej⟩
          exact ⟨hquar', fun _ => hrej.calls⟩
        · refine ⟨?_, fun hop => absurd hop hfin⟩
          by_cases habort : op = .abort sid
          · subst habort
            exact abort_quarantined hquar (hwhole w) hexec
          · exact others_quarantined hquar hfin habort hnew
              (fun t out chunk => hspares w op t out chunk) hexec
      refine ⟨hlast.1, fun a ha hop => ?_⟩
      rcases List.mem_append.1 ha with ha | ha
      · exact hdone a ha hop
      · cases List.mem_singleton.1 ha
        exact hlast.2 hop
  | wait _ hwait ih => exact ⟨ih.1.wait hwait, ih.2⟩

end Runs

/-- Malware quarantine: for every reachable session that is ready to be finalized and has
malware among its chunks, the finalize comes to an end, however its calls turn out; it then has
raised, without an effect beyond the cache, and if none of its calls has failed, nothing of the
session is left. In every continuation in which no upload replaces those chunks, they do not
expire, and no abort deletes them without the session, no finalize of the session comes to
S3. -/
theorem malware_quarantine {now : Nat} {c : Run env} {sid : UUID} {v : UploadSession}
    {bad : Bytes} {datas : List Bytes} {ok : Pattern}
    (h : Reach (fun _ _ => True) (Config.start (World.empty now)) c)
    (hready : Finalizable c.world sid v) (hinf : InfectedFrom c.world sid bad 0 datas) :
    ((∀ t cl, ∃ out, ok t out cl) → ∃ r w₁ t₁,
      Exec (faulty env ok) (Op.prog env (.finalize sid)) (c.world, []) r (w₁, t₁)) ∧
    ∀ {r : Except Exn Response} {w₁ : World} {t₁ : Trace Collab},
      Exec (faulty env ok) (Op.prog env (.finalize sid)) (c.world, []) r (w₁, t₁) →
      Rejected r c.world w₁ t₁ ∧ (OnlyReleaseFails sid ok → Gone sid w₁) ∧
      ∀ {ok' : World → Op → Pattern} {done : List Attempt} {w : World},
        Spares sid datas.length ok' → AbortsWhole sid ok' →
        Series env ok' (OtherIds sid) (ChunksLast sid datas.length) w₁ done w →
        ∀ a ∈ done, a.op = .finalize sid → ∀ e ∈ a.calls, e.call.Contained := by
  refine ⟨fun hok => ?_, fun {r w₁ t₁} hfin => ?_⟩
  · rcases finalize_ends (t := []) hok hinf with ⟨r, ⟨w₁, t₁⟩, hfin⟩
    exact ⟨r, w₁, t₁, hfin⟩
  have hquar : Quarantined sid bad datas c.world := by
    refine ⟨(reach_known h).sound.keyed, fun s hs _ => ?_⟩
    cases hs.symm.trans hready.live
    exact ⟨hready.full, hinf⟩
  rcases finalize_rejected hquar hfin with ⟨hquar₁, hrej⟩
  refine ⟨hrej, fun honly => finalize_gone hready hinf honly hfin, ?_⟩
  intro ok' done w hspares hwhole hseries
  exact (series_quarantined hquar₁ hspares hwhole hseries).2

/-! ## Concrete runs -/

namespace Demo

/-- A file that consists of the signature. -/
def eicar : Bytes := LocalVirusScanner.eicarSignature

/-- Its session after the upload of its only chunk. -/
def infectedSession : UploadSession :=
  { newSession sid tenant file 34 (sha256 a) with currentOffset := 34, status := .uploading }

/-- The file has been uploaded. -/
def infected : World :=
  (RedisSessionRepository.save (RedisChunkRepository.save (sized 34) sid
    (chunkOf Demo.env 0 eicar)) infectedSession).unlocked sid

/-- Calls turn out as `f` says. -/
def fixed (f : Call → Outcome) : Pattern := fun _ out c => out = f c

/-- What is answered then, with the calls recorded. -/
def answer (f : Call → Outcome) (c : Call) (s : World × Trace Collab) :
    Except Exn c.Resp × (World × Trace Collab) :=
  ((FileUploader.handle Demo.env (f c) c s.1).1, (FileUploader.handle Demo.env (f c) c s.1).2,
    s.2 ++ [⟨c, (FileUploader.handle Demo.env (f c) c s.1).1⟩])

/-- Nothing can be saved. -/
def savesFail : Call → Outcome
  | .sessionSave _ | .chunkSave _ _ => .raises "Connection reset by peer"
  | _ => .works

/-- Sessions cannot be deleted, and chunks not be saved. -/
def deletesFail : Call → Outcome
  | .sessionDelete _ | .chunkSave _ _ => .raises "Connection reset by peer"
  | _ => .works

end Demo

theorem answers_fixed (f : Call → Outcome) (c : Call) (s : World × Trace Collab) :
    faulty Demo.env (Demo.fixed f) c s (Demo.answer f c s).1 (Demo.answer f c s).2 :=
  ⟨f c, rfl, rfl, rfl⟩

/-- The file can be uploaded, and is ready to be finalized. -/
theorem reach_infected : ∃ c : Run Demo.env,
    Reach (fun _ _ => True) (Config.start (World.empty 0)) c ∧ c.world = Demo.infected := by
  have hstores : Stores Demo.env (Demo.sized 34) Demo.sid "unknown" Demo.eicar
      (newSession Demo.sid Demo.tenant Demo.file 34 (Demo.sha256 Demo.a)) :=
    stores_first ⟨by decide, by decide, by decide +kernel⟩
  have hupload : Alone Demo.env (.uploadChunk Demo.sid 0 "unknown" Demo.eicar) (Demo.sized 34)
      (.ok (.uploaded Demo.infectedSession)) Demo.infected :=
    (alone_upload hstores _).2 ⟨rfl, rfl⟩
  have hserial : Serial Demo.env (fun _ _ => True) (World.empty 0) _ Demo.infected :=
    .serve (serial_first trivial) trivial (fun _ hid => by cases hid) hupload
  rcases hserial.reach with ⟨c, hc, hw, _⟩
  exact ⟨c, hc.mono fun _ _ _ => trivial, hw⟩

theorem finalizable_infected : Finalizable Demo.infected Demo.sid Demo.infectedSession :=
  ⟨session?_save_self rfl, by decide, rfl, ExpiringMap.get_erase_self _ _ _⟩

theorem infectedFrom_infected : InfectedFrom Demo.infected Demo.sid Demo.eicar 0 [] := by
  refine ⟨chunkSave_self.chunk 0, ?_⟩
  unfold CleanChunk Demo.eicar
  decide

/-- When the session cannot be stored as failed, the next finalize finds the malware again;
when nothing fails, nothing is left. -/
theorem malware_quarantine_demo :
    (∃ r w₁ t₁ a w, Rejected r Demo.infected w₁ t₁ ∧
      Series Demo.env (fun _ _ => Demo.fixed Demo.savesFail) (OtherIds Demo.sid)
        (ChunksLast Demo.sid 0) w₁ [a] w ∧
      a.op = .finalize Demo.sid ∧ ∀ e ∈ a.calls, e.call.Contained) ∧
    ∃ r w₁ t₁, Exec (faulty Demo.env (Demo.fixed fun _ => .works))
      (Op.prog Demo.env (.finalize Demo.sid)) (Demo.infected, []) r (w₁, t₁) ∧
      Gone Demo.sid w₁ := by
  rcases reach_infected with ⟨c, hc, hw⟩
  have hready : Finalizable c.world Demo.sid Demo.infectedSession := by
    rw [hw]
    exact finalizable_infected
  have hinf : InfectedFrom c.world Demo.sid Demo.eicar 0 [] := by
    rw [hw]
    exact infectedFrom_infected
  have hworks : ∀ (t : Trace Collab) (c : Call), ∃ out, (Demo.fixed fun _ => .works) t out c :=
    fun _ _ => ⟨_, rfl⟩
  constructor
  · have h : (Prog.run (Demo.answer Demo.savesFail) 20 (Op.prog Demo.env (.finalize Demo.sid))
        (Demo.infected, [])).any (fun s => (Prog.run (Demo.answer Demo.savesFail) 20
          (Op.prog Demo.env (.finalize Demo.sid)) (s.2.1, [])).any fun _ => true) = true := by
      decide +kernel
    rcases exists_exec_of_run (answers_fixed _) 20 h with ⟨r, ⟨w₁, t₁⟩, hfin, h⟩
    rcases exists_exec_of_run (answers_fixed _) 20 h with ⟨r', ⟨w, t⟩, hagain, _⟩
    have hseries : Series Demo.env (fun _ _ => Demo.fixed Demo.savesFail) (OtherIds Demo.sid)
        (ChunksLast Demo.sid 0) w₁ ([] ++ [⟨.finalize Demo.sid, r', t⟩]) w :=
      .attempt .start (by simp [OtherIds, Op.newId?]) hagain
    rw [← hw] at hfin
    rcases (malware_quarantine hc hready hinf).2 hfin with ⟨hrej, _, hlater⟩
    rw [hw] at hrej
    refine ⟨r, w₁, t₁, _, w, hrej, hseries, rfl, ?_⟩
    refine hlater (fun w op t out chunk hout _ _ => ?_) (fun w v _ _ t out => ?_) hseries _
      (by simp) rfl
    · exact ⟨_, hout⟩
    · constructor
      · intro hout msg hraises
        cases hout.symm.trans hraises
      · intro hout msg hraises
        cases hout.symm.trans hraises
  · rcases (malware_quarantine hc hready hinf).1 hworks with ⟨r, w₁, t₁, hfin⟩
    have hgone := ((malware_quarantine hc hready hinf).2 hfin).2.1 fun t out call hout _ => hout
    rw [hw] at hfin
    exact ⟨r, w₁, t₁, hfin, hgone⟩

/-- After an abort that has deleted the chunks but not the session, a finalize opens a
multipart upload for it. -/
theorem malware_quarantine_fails : ∃ (c : Run Demo.env) (ok : Pattern)
    (ok' : World → Op → Pattern) (r : Except Exn Response) (w₁ w : World) (t₁ : Trace Collab)
    (done : List Attempt) (a : Attempt) (e : Answered Collab),
      Reach (fun _ _ => True) (Config.start (World.empty 0)) c ∧
      Finalizable c.world Demo.sid Demo.infectedSession ∧
      InfectedFrom c.world Demo.sid Demo.eicar 0 [] ∧
      Exec (faulty Demo.env ok) (Op.prog Demo.env (.finalize Demo.sid)) (c.world, []) r (w₁, t₁) ∧
      Spares Demo.sid 0 ok' ∧
      Series Demo.env ok' (OtherIds Demo.sid) (ChunksLast Demo.sid 0) w₁ done w ∧
      a ∈ done ∧ a.op = .finalize Demo.sid ∧ e ∈ a.calls ∧
      e.call = .initiateMultipartUpload Demo.tenant Demo.file := by
  rcases reach_infected with ⟨c, hc, hw⟩
  have h : (Prog.run (Demo.answer Demo.savesFail) 20 (Op.prog Demo.env (.finalize Demo.sid))
      (Demo.infected, [])).any (fun s₁ => (Prog.run (Demo.answer Demo.deletesFail) 20
        (Op.prog Demo.env (.abort Demo.sid)) (s₁.2.1, [])).any fun s₂ =>
          (Prog.run (Demo.answer Demo.deletesFail) 20 (Op.prog Demo.env (.finalize Demo.sid))
            (s₂.2.1, [])).any fun s₃ => s₃.2.2.any fun e =>
              e.call = .initiateMultipartUpload Demo.tenant Demo.file) = true := by
    decide +kernel
  rcases exists_exec_of_run (answers_fixed _) 20 h with ⟨r₁, ⟨w₁, t₁⟩, hfin, h⟩
  rcases exists_exec_of_run (answers_fixed _) 20 h with ⟨r₂, ⟨w₂, t₂⟩, habort, h⟩
  rcases exists_exec_of_run (answers_fixed _) 20 h with ⟨r₃, ⟨w₃, t₃⟩, hagain, h⟩
  rcases List.any_eq_true.1 h with ⟨e, he, hopens⟩
  have hseries : Series Demo.env (fun _ _ => Demo.fixed Demo.deletesFail) (OtherIds Demo.sid)
      (ChunksLast Demo.sid 0) w₁ (([] ++ [⟨.abort Demo.sid, r₂, t₂⟩]) ++
        [⟨.finalize Demo.sid, r₃, t₃⟩]) w₃ :=
    .attempt (.attempt .start (by simp [OtherIds, Op.newId?]) habort)
      (by simp [OtherIds, Op.newId?]) hagain
  refine ⟨c, Demo.fixed Demo.savesFail, fun _ _ => Demo.fixed Demo.deletesFail, r₁, w₁, w₃, t₁, _,
    ⟨.finalize Demo.sid, r₃, t₃⟩, e, hc, ?_, ?_, ?_, ?_, hseries, by simp, rfl, he,
    of_decide_eq_true hopens⟩
  · rw [hw]
    exact finalizable_infected
  · rw [hw]
    exact infectedFrom_infected
  · rw [hw]
    exact hfin
  · exact fun w op t out chunk hout _ _ => ⟨_, hout⟩

end FileUploader
