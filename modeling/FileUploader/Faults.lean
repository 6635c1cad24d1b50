import FileUploader.Footprint
import FileUploader.Serial

/-! # Requests whose calls may fail

`faulty env ok` answers as the service does when its calls may turn out as `ok` admits,
and records them; what is admitted may depend on the calls made so far, so that a pattern
of failures can be given call by call. A finalize under any such pattern stops before its
critical section, or runs it and then asks for the release of the lock.
-/

namespace FileUploader

open Await Prog

variable {env : Env}

/-- The calls made so far decide how the next one may turn out. -/
abbrev Pattern := Trace Collab → Outcome → Call → Prop

/-- Calls turn out as `ok` admits, and are recorded. -/
def faulty (env : Env) (ok : Pattern) : Answers Collab (World × Trace Collab) :=
  fun c s r s' => ∃ out, ok s.2 out c ∧ r = (handle env out c s.1).1 ∧
    s' = ((handle env out c s.1).2, s.2 ++ [⟨c, r⟩])

/-- What a finalize does under the lock. -/
def FinalizeUploadUseCase.critical (session : UploadSession) (sessionId : UUID) :
    Program String := do
  let _ ← scan session sessionId
  let s3Uri ← assemble session sessionId
  publish session sessionId s3Uri

/-- The calls that it can make. -/
def Call.InCritical (sid : UUID) (session : UploadSession) : Call → Prop
  | .sessionSave s => s = session.fail
  | .sessionDelete sid' | .chunkGet sid' _ | .chunkPull sid' _ | .deleteAll sid' => sid' = sid
  | .registerFile .. | .initiateMultipartUpload _ _ | .uploadPart .. | .completeMultipartUpload ..
  | .abortMultipartUpload .. | .publishFileUploadCompleted _ => True
  | .sessionGet _ | .acquireLock _ _ | .releaseLock _ | .chunkSave _ _ | .getByChecksum _ _ => False

theorem critical_makes (sid : UUID) (session : UploadSession) :
    Makes (Call.InCritical sid session) (FinalizeUploadUseCase.critical session sid) := by
  refine makes_bind (scan_makes (fun _ => rfl) rfl rfl rfl) fun _ => ?_
  refine makes_bind (assemble_makes trivial (fun _ => rfl) (fun _ _ _ => trivial)
    (fun _ _ => trivial) (fun _ => trivial) rfl) fun s3Uri => ?_
  exact publish_makes trivial (fun _ => trivial) rfl rfl

section Rules

variable {ok : Pattern} {α β : Type} {w w' : World} {t t' : Trace Collab}

/-- A call that may turn out in some way is answered. -/
theorem ends_faulty {c : Call} (hok : ∀ t c, ∃ out, ok t out c) (s : World × Trace Collab) :
    @Ends Collab _ (no_index c.Resp) (faulty env ok) (ask c) s := by
  rcases hok s.2 c with ⟨out, hout⟩
  exact ends_await ⟨_, _, out, hout, rfl, rfl⟩

theorem exec_faulty_bind (c : Call) (f : c.Resp → Program β) (o : Except Exn β)
    (s' : World × Trace Collab) :
    Exec (faulty env ok) (@Bind.bind Program _ (no_index c.Resp) β (ask c) f) (w, t) o s' ↔
      ∃ out, ok t out c ∧ Exec (faulty env ok) (onOk f (handle env out c w).1)
        ((handle env out c w).2, t ++ [⟨c, (handle env out c w).1⟩]) o s' := by
  constructor
  · intro h
    rcases h with ⟨r, s₁, ⟨out, hok, rfl, rfl⟩, h⟩
    exact ⟨out, hok, h⟩
  · intro h
    rcases h with ⟨out, hok, h⟩
    exact ⟨_, _, ⟨out, hok, rfl, rfl⟩, h⟩

/-- A call that comes first fails, with its effect or without it, and ends the program; or it
goes through. -/
theorem faulty_call {c : Call} {f : c.Resp → Program β} {o : Except Exn β}
    (hfails : ∀ msg, failed msg c = .error (.infrastructureError msg))
    (h : Exec (faulty env ok) (@Bind.bind Program _ (no_index c.Resp) β (ask c) f) (w, t) o
      (w', t')) :
    (∃ out, ok t out c ∧ out ≠ .works) ∧ (w' = w ∨ w' = (respond env c w).2) ∧
        (∃ msg, o = .error (.infrastructureError msg) ∧
          t' = t ++ [⟨c, .error (.infrastructureError msg)⟩]) ∨
      Exec (faulty env ok) (onOk f (respond env c w).1)
        ((respond env c w).2, t ++ [⟨c, (respond env c w).1⟩]) o (w', t') := by
  rcases (exec_faulty_bind c f o _).1 h with ⟨out, hout, h⟩
  cases out with
  | works => exact Or.inr h
  | raises msg =>
      simp only [handle, hfails, onOk_error] at h
      rcases h with ⟨ho, hs⟩
      cases hs
      exact Or.inl ⟨⟨_, hout, by simp⟩, Or.inl rfl, msg, ho, rfl⟩
  | raisesAfter msg =>
      simp only [handle, hfails, onOk_error] at h
      rcases h with ⟨ho, hs⟩
      cases hs
      exact Or.inl ⟨⟨_, hout, by simp⟩, Or.inr rfl, msg, ho, rfl⟩

/-- What runs under a pattern makes its own calls only. -/
theorem faulty_trace {P : Call → Prop} {p : Program α} (hp : Makes P p) {o : Except Exn α}
    (h : Exec (faulty env ok) p (w, t) o (w', t')) :
    ∃ made, t' = t ++ made ∧ ∀ e ∈ made, P e.call := by
  refine hp.trace (fun c s r s' hr => ?_) h
  rcases hr with ⟨out, _, _, rfl⟩
  rfl

/-- What makes calls only that go through runs as if nothing could fail. -/
theorem works_of_faulty {P : Call → Prop} {p : Program α} (hp : Makes P p)
    (hok : ∀ t out c, P c → ok t out c → out = .works) {o : Except Exn α}
    (h : Exec (faulty env ok) p (w, t) o (w', t')) : Exec (works env) p w o w' := by
  have hstep : ∀ (l : Unit) c (s : World × Trace Collab) r s', True → (only P).allows l c →
      faulty env ok c s r s' → (only P).expects l c r ∧ works env c s.1 r s'.1 ∧ True := by
    intro l c s r s' _ hc hr
    rcases hr with ⟨out, hout, rfl, rfl⟩
    rw [hok s.2 out c hc hout]
    exact ⟨trivial, ⟨rfl, rfl⟩, trivial⟩
  exact (Obeys.exec (f := Prod.fst) (I := fun _ _ => True) hp hstep trivial h).1

/-- What makes calls only that may go through can run as if nothing could fail. -/
theorem exists_faulty {P : Call → Prop} {p : Program α} (hp : Makes P p)
    (hok : ∀ t c, P c → ok t .works c) {o : Except Exn α} (h : Exec (works env) p w o w')
    (t : Trace Collab) :
    ∃ made, Exec (faulty env ok) p (w, t) o (w', t ++ made) ∧ ∀ e ∈ made, P e.call := by
  have hstep : ∀ (l : Unit) c (w : World) (s : World × Trace Collab) r w₁, s.1 = w →
      (only P).allows l c → works env c w r w₁ → (only P).expects l c r ∧
        ∃ s₁, faulty env ok c s r s₁ ∧ s₁.1 = w₁ := by
    intro l c w s r w₁ hs hc hr
    subst hs
    rcases hr with ⟨rfl, rfl⟩
    exact ⟨trivial, _, ⟨.works, hok s.2 c hc, rfl, rfl⟩, rfl⟩
  have hrun : ∃ s, ∃ _ : Unit, Exec (faulty env ok) p (w, t) o s ∧ True ∧ s.1 = w' :=
    Obeys.simulate (I := fun _ w (s : World × Trace Collab) => s.1 = w) hp hstep rfl h
  rcases hrun with ⟨⟨w₁, t'⟩, _, hexec, _, rfl⟩
  rcases faulty_trace hp hexec with ⟨made, rfl, hmade⟩
  exact ⟨made, hexec, hmade⟩

/-- What each of the calls keeps is kept. -/
theorem faulty_keeps {P : Call → Prop} {p : Program α} (hp : Makes P p) (I : World → Prop)
    (hI : ∀ out c w, P c → I w → I (handle env out c w).2) {o : Except Exn α}
    (h : Exec (faulty env ok) p (w, t) o (w', t')) (hw : I w) : I w' := by
  have hstep : ∀ (l : Unit) c (s : World × Trace Collab) r s', I s.1 → (only P).allows l c →
      faulty env ok c s r s' →
        (only P).expects l c r ∧ faulty env ok c s r s' ∧ I s'.1 := by
    intro l c s r s' hs hc hr
    have hworld := hr
    rcases hworld with ⟨out, _, _, rfl⟩
    exact ⟨trivial, hr, hI out c s.1 hc hs⟩
  rcases Obeys.exec (f := id) (I := fun _ s => I s.1) hp hstep hw h with ⟨_, _, _, hend⟩
  exact hend

end Rules

/-! ## A finalize whose calls may fail -/

/-- A finalize that has stopped before its critical section: it has asked for its session,
and perhaps for the lock. -/
structure Stopped (env : Env) (sid : UUID) (w : World) (t : Trace Collab) (o : Except Exn String)
    (w' : World) (t' : Trace Collab) : Prop where
  raised : ∃ x, o = .error x
  world : w' = w ∨ w' = (RedisSessionRepository.acquireLock w sid RedisSessionRepository.lockTtl).2
  calls : ∃ made, t' = t ++ made ∧ ∀ e ∈ made, e.call = .sessionGet sid ∨
    e.call = .acquireLock sid RedisSessionRepository.lockTtl

/-- The calls before the critical section. -/
def lockTrace (sid : UUID) (v : UploadSession) : Trace Collab :=
  [⟨.sessionGet sid, .ok (some v)⟩, ⟨.acquireLock sid RedisSessionRepository.lockTtl, .ok true⟩]

/-- A finalize that has taken the lock: its critical section has ended with `o₁`, and then
the lock has been released, or not. -/
structure Entered (env : Env) (ok : Pattern) (sid : UUID) (v : UploadSession) (w : World)
    (t : Trace Collab) (o : Except Exn String) (w' : World) (t' : Trace Collab)
    (o₁ : Except Exn String) (w₁ : World) (t₁ : Trace Collab) (out : Outcome) : Prop where
  ready : Finalizable w sid v
  critical : Exec (faulty env ok) (FinalizeUploadUseCase.critical v sid)
    (w.locking sid, t ++ lockTrace sid v) o₁ (w₁, t₁)
  admitted : ok t₁ out (.releaseLock sid)
  world : w' = (handle env out (.releaseLock sid) w₁).2
  calls : t' = t₁ ++ [⟨.releaseLock sid, (handle env out (.releaseLock sid) w₁).1⟩]
  result : out = .works ∧ o = o₁ ∨ out ≠ .works ∧ ∃ x, o = .error x

section Finalize

variable {ok : Pattern} {w w' : World} {t t' : Trace Collab} {sid : UUID} {o : Except Exn String}

/-- The call that reads the session or asks for the lock is the last one. -/
theorem stopped_after {c : Call} {r : Except Exn c.Resp} (before : Trace Collab)
    (hbefore : ∀ e ∈ before, e.call = .sessionGet sid)
    (hc : c = .sessionGet sid ∨ c = .acquireLock sid RedisSessionRepository.lockTtl)
    (hraised : ∃ x, o = .error x)
    (hworld : w' = w ∨
      w' = (RedisSessionRepository.acquireLock w sid RedisSessionRepository.lockTtl).2) :
    Stopped env sid w t o w' (t ++ before ++ [⟨c, r⟩]) := by
  refine ⟨hraised, hworld, before ++ [⟨c, r⟩], by simp, fun e he => ?_⟩
  rcases List.mem_append.1 he with he | he
  · exact Or.inl (hbefore e he)
  · rw [List.mem_singleton.1 he]
    exact hc

/-- Reading the session: there is none, the call has failed, or it is there. -/
theorem faulty_requireSession {f : UploadSession → Program String}
    (h : Exec (faulty env ok) (requireSession sid >>= f) (w, t) o (w', t')) :
    (w.session? sid = none ∨ ∃ out, ok t out (.sessionGet sid) ∧ out ≠ .works) ∧
        Stopped env sid w t o w' t' ∨
      ∃ v, w.session? sid = some v ∧
        Exec (faulty env ok) (f v) (w, t ++ [⟨.sessionGet sid, .ok (some v)⟩]) o (w', t') := by
  -- nothing but the read has been called
  have hstopped : ∀ (r : Except Exn (Option UploadSession)), (∃ x, o = .error x) →
      Stopped env sid w t o w (t ++ [⟨.sessionGet sid, r⟩]) := by
    intro r hraised
    have hlast : Stopped env sid w t o w (t ++ [] ++ [⟨.sessionGet sid, r⟩]) :=
      stopped_after [] (by simp) (Or.inl rfl) hraised (Or.inl rfl)
    simpa using hlast
  rcases h with ⟨r, s, ⟨out, hout, rfl, rfl⟩, h⟩
  cases out with
  | works =>
      cases hv : w.session? sid with
      | none =>
          simp only [handle, respond, RedisSessionRepository.get, hv] at h
          rcases h with ⟨ho, hs⟩
          cases hs
          exact Or.inl ⟨Or.inl rfl, hstopped _ ⟨_, ho⟩⟩
      | some v =>
          simp only [handle, respond, RedisSessionRepository.get, hv] at h
          exact Or.inr ⟨v, rfl, h⟩
  | raises msg =>
      rcases h with ⟨ho, hs⟩
      cases hs
      exact Or.inl ⟨Or.inr ⟨_, hout, by simp⟩, hstopped _ ⟨_, ho⟩⟩
  | raisesAfter msg =>
      rcases h with ⟨ho, hs⟩
      cases hs
      exact Or.inl ⟨Or.inr ⟨_, hout, by simp⟩, hstopped _ ⟨_, ho⟩⟩

/-- Asking for the lock: it is taken, the call has failed, or the lock is taken now. -/
theorem faulty_acquireLock {p : Program String} (h : Exec (faulty env ok) (do
      let locked ← SessionRepository.acquireLock sid RedisSessionRepository.lockTtl
      raiseIf (locked = false) (lockError sid)
      p) (w, t) o (w', t')) :
    ((∃ a, w.lock? sid = some a) ∨
        ∃ out, ok t out (.acquireLock sid RedisSessionRepository.lockTtl) ∧ out ≠ .works) ∧
      (∃ x, o = .error x) ∧
      (w' = w ∨
        w' = (RedisSessionRepository.acquireLock w sid RedisSessionRepository.lockTtl).2) ∧
      (∃ r, t' = t ++ [⟨.acquireLock sid RedisSessionRepository.lockTtl, r⟩]) ∨
    w.lock? sid = none ∧ Exec (faulty env ok) p (w.locking sid,
      t ++ [⟨.acquireLock sid RedisSessionRepository.lockTtl, .ok true⟩]) o (w', t') := by
  rw [SessionRepository.acquireLock] at h
  rcases faulty_call (fun _ => rfl) h with ⟨hwhy, hw, msg, ho, ht⟩ | h
  · exact Or.inl ⟨Or.inr hwhy, ⟨_, ho⟩, hw, _, ht⟩
  · simp only [respond, onOk_ok] at h
    rcases RedisSessionRepository.acquireLock_cases w sid RedisSessionRepository.lockTtl with
      ⟨a, ha, hres⟩ | ⟨hfree, hres⟩
    · rw [hres] at h
      rcases (exec_raiseIf_bind _ _ _ _).1 h with ⟨_, ho, hs⟩ | ⟨hno, _⟩
      · cases hs
        exact Or.inl ⟨Or.inl ⟨a, ha⟩, ⟨_, ho⟩, Or.inl rfl, _, rfl⟩
      · exact absurd rfl hno
    · rw [hres] at h
      rcases (exec_raiseIf_bind _ _ _ _).1 h with ⟨hno, _⟩ | ⟨_, h⟩
      · cases hno
      · exact Or.inr ⟨hfree, h⟩

/-- A scan returns only if the stream of chunks has been found clean: what it does about
malware ends with an exception, whatever its calls are answered. -/
theorem scan_returned {v : UploadSession} {clean : Bool}
    (h : Exec (faulty env ok) (FinalizeUploadUseCase.scan v sid) (w, t) (.ok clean) (w', t')) :
    Exec (faulty env ok) (LocalVirusScanner.scanStream (ChunkRepository.getStream sid) 0) (w, t)
      (.ok clean) (w', t') := by
  rcases (exec_tryExcept _ _ _).1 h with ⟨a, hstream, ho⟩ | ⟨x, s₁, _, hpurge⟩
  · cases ho
    exact hstream
  · -- However the handler goes on, it raises.
    refine absurd hpurge (not_returned ?_)
    split
    · simp [SessionRepository.save, ChunkRepository.deleteAll, SessionRepository.delete, only]
    · simp

/-- The release comes last, whatever it is answered. -/
theorem faulty_releasing {p : Program String}
    (h : Exec (faulty env ok) (p.tryFinally (SessionRepository.releaseLock sid)) (w, t) o
      (w', t')) :
    ∃ o₁ w₁ t₁ out, Exec (faulty env ok) p (w, t) o₁ (w₁, t₁) ∧ ok t₁ out (.releaseLock sid) ∧
      w' = (handle env out (.releaseLock sid) w₁).2 ∧
      t' = t₁ ++ [⟨.releaseLock sid, (handle env out (.releaseLock sid) w₁).1⟩] ∧
      (out = .works ∧ o = o₁ ∨ out ≠ .works ∧ ∃ x, o = .error x) := by
  rw [exec_tryFinally] at h
  rcases h with ⟨o₁, ⟨w₁, t₁⟩, hp, hrelease⟩
  refine ⟨o₁, w₁, t₁, ?_⟩
  rcases hrelease with ⟨hrelease, rfl⟩ | ⟨x, hrelease, rfl⟩
  · rcases (exec_await (S := Collab) _ _).1 hrelease with ⟨out, hout, hr, hs⟩
    cases hs
    refine ⟨out, hp, hout, rfl, by rw [← hr], Or.inl ⟨?_, rfl⟩⟩
    cases out with
    | works => rfl
    | raises msg => cases hr
    | raisesAfter msg => cases hr
  · rcases (exec_await (S := Collab) _ _).1 hrelease with ⟨out, hout, hr, hs⟩
    cases hs
    refine ⟨out, hp, hout, rfl, by rw [← hr], Or.inr ⟨?_, _, rfl⟩⟩
    intro hworks
    subst hworks
    cases hr

/-- A finalize stops before its critical section, unless it may work on its session and
has taken the lock. -/
theorem finalize_faulty
    (h : Exec (faulty env ok) (FinalizeUploadUseCase.execute sid) (w, t) o (w', t')) :
    ((∀ v, ¬ Finalizable w sid v) ∨
        (∃ t₀ out c, ok t₀ out c ∧ out ≠ .works ∧ (c = .sessionGet sid ∨
          c = .acquireLock sid RedisSessionRepository.lockTtl))) ∧ Stopped env sid w t o w' t' ∨
      ∃ v o₁ w₁ t₁ out, Entered env ok sid v w t o w' t' o₁ w₁ t₁ out := by
  rcases faulty_requireSession h with ⟨hwhy, hstop⟩ | ⟨v, hlive, h⟩
  · refine Or.inl ⟨?_, hstop⟩
    rcases hwhy with hnone | ⟨out, hout, hne⟩
    · exact Or.inl fun v hready => by cases hnone.symm.trans hready.live
    · exact Or.inr ⟨t, out, _, hout, hne, Or.inl rfl⟩
  -- the session is there: it is refused for its status or offset, or the lock is asked for
  have hrefused : ∀ {x : Exn}, o = .error x →
      (w', t') = (w, t ++ [⟨.sessionGet sid, .ok (some v)⟩]) → Stopped env sid w t o w' t' := by
    intro x ho hs
    cases hs
    have hlast : Stopped env sid w t o w (t ++ [] ++ [⟨.sessionGet sid, .ok (some v)⟩]) :=
      stopped_after [] (by simp) (Or.inl rfl) ⟨x, ho⟩ (Or.inl rfl)
    simpa using hlast
  have hone : ∀ v', Finalizable w sid v' → v' = v := by
    intro v' hready
    cases hready.live.symm.trans hlive
    rfl
  rcases (exec_raiseIf_bind _ _ _ _).1 h with ⟨hdone, ho, hs⟩ | ⟨hdone, h⟩
  · refine Or.inl ⟨Or.inl fun v' hready => ?_, hrefused ho hs⟩
    rw [hone v' hready] at hready
    exact hready.opened (by simp [hdone])
  rcases (exec_raiseIf_bind _ _ _ _).1 h with ⟨hover, ho, hs⟩ | ⟨hover, h⟩
  · refine Or.inl ⟨Or.inl fun v' hready => ?_, hrefused ho hs⟩
    rw [hone v' hready] at hready
    exact hready.opened (List.mem_cons_of_mem _ hover)
  rcases (exec_raiseIf_bind _ _ _ _).1 h with ⟨hpart, ho, hs⟩ | ⟨hfull, h⟩
  · refine Or.inl ⟨Or.inl fun v' hready => ?_, hrefused ho hs⟩
    rw [hone v' hready] at hready
    exact hpart hready.full
  rcases faulty_acquireLock h with ⟨hwhy, hraised, hworld, r, ht⟩ | ⟨hfree, h⟩
  · refine Or.inl ⟨?_, ?_⟩
    · rcases hwhy with ⟨a, ha⟩ | ⟨out, hout, hne⟩
      · exact Or.inl fun v' hready => by cases ha.symm.trans hready.free
      · exact Or.inr ⟨_, out, _, hout, hne, Or.inr rfl⟩
    · rw [ht]
      exact stopped_after [⟨.sessionGet sid, .ok (some v)⟩] (by simp) (Or.inr rfl) hraised hworld
  · rcases faulty_releasing h with ⟨o₁, w₁, t₁, out, hp, hout, hw, ht, hresult⟩
    refine Or.inr ⟨v, o₁, w₁, t₁, out, ⟨hlive, ?_, not_not.1 hfull, hfree⟩, ?_, hout, hw, ht,
      hresult⟩
    · intro hs
      rcases List.mem_cons.1 hs with hs | hs
      · exact hdone hs
      · exact hover hs
    · have hcritical : Exec (faulty env ok) (FinalizeUploadUseCase.critical v sid) _ _ _ := hp
      simpa [lockTrace] using hcritical

/-- The other way: the critical section of a session that is ready runs under the lock. -/
theorem finalize_enters {v : UploadSession} {w₁ : World} {t₁ : Trace Collab}
    (hready : Finalizable w sid v) (hget : ok t .works (.sessionGet sid))
    (hacquire : ok (t ++ [⟨.sessionGet sid, .ok (some v)⟩]) .works
      (.acquireLock sid RedisSessionRepository.lockTtl))
    (hcritical : Exec (faulty env ok) (FinalizeUploadUseCase.critical v sid)
      (w.locking sid, t ++ lockTrace sid v) o (w₁, t₁))
    (hrelease : ok t₁ .works (.releaseLock sid)) :
    Exec (faulty env ok) (FinalizeUploadUseCase.execute sid) (w, t) o
      (w₁.unlocked sid, t₁ ++ [⟨.releaseLock sid, .ok ()⟩]) := by
  -- the three checks let a session pass that is ready
  have hdone : ¬ v.status = .completed := fun hs => hready.opened (by simp [hs])
  have hover : ¬ v.status ∈ [UploadStatus.aborted, .failed] := fun hs =>
    hready.opened (List.mem_cons_of_mem _ hs)
  have hread : Exec (faulty env ok) (requireSession sid) (w, t) (.ok v)
      (w, t ++ [⟨.sessionGet sid, .ok (some v)⟩]) := by
    refine (exec_faulty_bind _ _ _ _).2 ⟨.works, hget, ?_⟩
    simp only [handle, respond, RedisSessionRepository.get, hready.live, onOk_ok]
    exact ⟨rfl, rfl⟩
  refine (exec_bind (S := Collab) _ _ _).2 (Or.inr ⟨v, _, hread, ?_⟩)
  refine (exec_raiseIf_bind _ _ _ _).2 (Or.inr ⟨hdone, ?_⟩)
  refine (exec_raiseIf_bind _ _ _ _).2 (Or.inr ⟨hover, ?_⟩)
  refine (exec_raiseIf_bind _ _ _ _).2 (Or.inr ⟨not_not.2 hready.full, ?_⟩)
  refine (exec_faulty_bind _ _ _ _).2 ⟨.works, hacquire, ?_⟩
  rcases RedisSessionRepository.acquireLock_cases w sid RedisSessionRepository.lockTtl with
    ⟨a, ha, _⟩ | ⟨_, hres⟩
  · cases ha.symm.trans hready.free
  simp only [handle, respond, onOk_ok, hres]
  refine (exec_raiseIf_bind _ _ _ _).2 (Or.inr ⟨by simp, ?_⟩)
  refine (exec_tryFinally _ _ _).2 ⟨o, (w₁, t₁), ?_, Or.inl ⟨?_, rfl⟩⟩
  · rw [List.append_assoc]
    exact hcritical
  · exact (exec_await (S := Collab) _ _).2 ⟨.works, hrelease, rfl, rfl⟩

end Finalize

/-! ## Requests one after the other -/

/-- A request, what it has returned or raised, and the calls it has made. -/
structure Attempt where
  op : Op
  result : Except Exn Response
  calls : Trace Collab

/-- Runs from `w₀` of requests that do not overlap, each satisfying `G` and having its calls
turn out as `ok` admits in the world that it finds. In between, time passes as `D` admits. -/
inductive Series (env : Env) (ok : World → Op → Pattern) (G : World → Op → Prop)
    (D : World → Nat → Prop) (w₀ : World) : List Attempt → World → Prop where
  | start : Series env ok G D w₀ [] w₀
  | attempt {done : List Attempt} {w w' : World} {op : Op} {r : Except Exn Response}
      {t : Trace Collab} :
      Series env ok G D w₀ done w → G w op →
      Exec (faulty env (ok w op)) (op.prog env) (w, []) r (w', t) →
      Series env ok G D w₀ (done ++ [⟨op, r, t⟩]) w'
  | wait {done : List Attempt} {w : World} {d : Nat} :
      Series env ok G D w₀ done w → D w d → Series env ok G D w₀ done (w.advance d)

end FileUploader
