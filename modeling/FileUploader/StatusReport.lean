import FileUploader.Await.Trace
import FileUploader.Serial
import FileUploader.SessionInvariant

/-! # The status report

A query tells whether an upload is complete from the offset alone, a finalize decides it
from offset and status. The two agree on the pairs of offset and status that can be
reached, but for one: a session that has failed keeps its offset.
-/

namespace FileUploader

open Await Prog

variable {env : Env}

/-- A query of `sid` reports `completed`. -/
def ReportsCompleted (env : Env) (w : World) (sid : UUID) : Prop :=
  ∃ report w', Alone env (.query sid) w (.ok (.report report)) w' ∧
    report.uploadStatus = "completed"

/-- A finalize of `sid` is refused with a `ValidationError` and has not asked for the lock. -/
def RefusedUnlocked (env : Env) (w : World) (sid : UUID) : Prop :=
  ∃ msg w' t, Exec (recording (works env)) (Op.prog env (.finalize sid)) (w, [])
    (.error (.validationError msg)) (w', t) ∧ ∀ e ∈ t, ∀ ttl, e.call ≠ .acquireLock sid ttl

section Reports

variable {w : World} {sid : UUID} {v : UploadSession}

theorem reportsCompleted_iff (hlive : w.session? sid = some v) :
    ReportsCompleted env w sid ↔ v.currentOffset = v.totalSize := by
  have hstatus : statusStr v = "completed" ↔ v.currentOffset = v.totalSize := by
    unfold statusStr
    split
    · exact iff_of_true rfl ‹_›
    · exact iff_of_false (by decide) ‹_›
  rw [← hstatus]
  constructor
  · intro h
    rcases h with ⟨report, w', halone, hcompleted⟩
    rcases alone_query.1 halone with ⟨_, ⟨hnone, _⟩ | ⟨v', hv, hreport⟩⟩
    · cases hnone.symm.trans hlive
    · cases hv.symm.trans hlive
      cases hreport
      exact hcompleted
  · intro hcompleted
    exact ⟨_, w, alone_query.2 ⟨rfl, Or.inr ⟨v, hlive, rfl⟩⟩, hcompleted⟩

/-- The session is read, and nothing else is called for. -/
theorem exec_read (hlive : w.session? sid = some v) :
    Exec (recording (works env)) (requireSession sid) (w, []) (.ok v)
      (w, [⟨.sessionGet sid, .ok (some v)⟩]) := by
  have hget : Exec (recording (works env)) (SessionRepository.get sid) (w, []) (.ok (some v))
      (w, [⟨.sessionGet sid, .ok (some v)⟩]) := by
    refine (exec_await (S := Collab) _ _).2 ⟨⟨?_, rfl⟩, rfl⟩
    rw [respond, RedisSessionRepository.get, hlive]
  exact (exec_bind (S := Collab) _ _ _).2 (Or.inr ⟨some v, _, hget, rfl, rfl⟩)

/-- A finalize of an open session with all its bytes raises no `ValidationError`. -/
theorem ready_not_invalid (hlive : w.session? sid = some v)
    (hready : v.Open ∧ v.currentOffset = v.totalSize) {msg : String} {w' : World} :
    ¬ Alone env (.finalize sid) w (.error (.validationError msg)) w' := by
  intro halone
  by_cases hfree : w.lock? sid = none
  · have hfin : Finalizable w sid v := ⟨hlive, hready.1, hready.2, hfree⟩
    rcases (alone_finalize hfin _).1 halone with ⟨o, w₁, hend, hx, _⟩
    cases hend with
    | infected => cases hx
    | refused => cases hx
    | committed => cases hx
  · simp only [Alone, Op.prog, exec_map, FinalizeUploadUseCase.execute, exec_requireSession_bind,
      exec_raiseIf_bind, exec_acquireLock_bind, hlive, hfree] at halone
    rcases halone with ⟨o, ⟨hnone, _⟩ | ⟨v', hv, hcases⟩, hx⟩
    · cases hnone
    cases hv
    rcases hcases with ⟨hdone, _⟩ | ⟨_, ⟨hover, _⟩ | ⟨_, ⟨hpart, _⟩ | ⟨_, ⟨_, rfl, _⟩ | ⟨hno, _⟩⟩⟩⟩
    · exact absurd (by simp [hdone]) hready.1
    · exact absurd (List.mem_cons_of_mem _ hover) hready.1
    · exact absurd hready.2 hpart
    · cases hx
    · exact hno.elim

/-- What a finalize checks before it asks for the lock. -/
theorem refusedUnlocked_iff (hlive : w.session? sid = some v) :
    RefusedUnlocked env w sid ↔ ¬ (v.Open ∧ v.currentOffset = v.totalSize) := by
  constructor
  · intro h hready
    rcases h with ⟨msg, w', t, hexec, _⟩
    exact ready_not_invalid hlive hready (exec_of_recording hexec)
  · intro hbad
    -- one of the three checks fails, with the session read
    have hexec : ∃ msg, Exec (recording (works env)) (FinalizeUploadUseCase.execute sid) (w, [])
        (.error (.validationError msg)) (w, [⟨.sessionGet sid, .ok (some v)⟩]) := by
      unfold FinalizeUploadUseCase.execute
      have hafter : ∀ {f : UploadSession → Program String} {o : Except Exn String} {s},
          Exec (recording (works env)) (f v) (w, [⟨.sessionGet sid, .ok (some v)⟩]) o s →
          Exec (recording (works env)) (requireSession sid >>= f) (w, []) o s :=
        fun h => (exec_bind (S := Collab) _ _ _).2 (Or.inr ⟨v, _, exec_read hlive, h⟩)
      by_cases hdone : v.status = .completed
      · exact ⟨_, hafter ((exec_raiseIf_bind _ _ _ _).2 (Or.inl ⟨hdone, rfl, rfl⟩))⟩
      · by_cases hover : v.status ∈ [UploadStatus.aborted, .failed]
        · exact ⟨_, hafter ((exec_raiseIf_bind _ _ _ _).2 (Or.inr ⟨hdone,
            (exec_raiseIf_bind _ _ _ _).2 (Or.inl ⟨hover, rfl, rfl⟩)⟩))⟩
        · have hpart : v.currentOffset ≠ v.totalSize := by
            intro hfull
            refine hbad ⟨fun hs => ?_, hfull⟩
            rcases List.mem_cons.1 hs with hs | hs
            · exact hdone hs
            · exact hover hs
          exact ⟨_, hafter ((exec_raiseIf_bind _ _ _ _).2 (Or.inr ⟨hdone,
            (exec_raiseIf_bind _ _ _ _).2 (Or.inr ⟨hover,
              (exec_raiseIf_bind _ _ _ _).2 (Or.inl ⟨hpart, rfl, rfl⟩)⟩)⟩))⟩
    rcases hexec with ⟨msg, hexec⟩
    refine ⟨msg, w, _, (exec_bind (S := Collab) _ _ _).2 (Or.inl ⟨_, hexec, rfl⟩), ?_⟩
    intro e he ttl hcall
    rw [List.mem_singleton.1 he] at hcall
    cases hcall

end Reports

/-- The status report agrees with finalize: in every state that can be reached, for every
stored session, it says `completed` exactly if a finalize would pass its checks, unless
the session has failed. -/
theorem status_report {now : Nat} {c : Run env} {sid : UUID} {v : UploadSession}
    (h : Reach (fun _ l => sizesPositive l) (Config.start (World.empty now)) c)
    (hlive : c.world.session? sid = some v) :
    (ReportsCompleted env c.world sid ↔ ¬ RefusedUnlocked env c.world sid) ↔
      v.status ≠ .failed := by
  have hinit : Represented (⟨World.empty now, [], []⟩ : Scene (service env)) :=
    ⟨by simp, by simp [World.session?, World.empty], by simp, by simp⟩
  have hwf := ((represented_keeps.reach hinit h).stored sid v hlive).wellFormed
  rw [reportsCompleted_iff hlive, refusedUnlocked_iff hlive, not_not]
  constructor
  · intro hagree hfailed
    have hready := hagree.1 (hwf.failed hfailed)
    exact hready.1 (by simp [hfailed])
  · intro hfailed
    refine ⟨fun hfull => ⟨?_, hfull⟩, fun hready => hready.2⟩
    intro hs
    simp only [List.mem_cons, List.not_mem_nil, or_false] at hs
    rcases hs with hs | hs | hs
    · exact hwf.ended.1 hs
    · exact hwf.ended.2 hs
    · exact hfailed hs

namespace Demo

/-- The byte of a file of one byte is uploaded as the second chunk, and the session is
finalized: S3 refuses the upload without parts. -/
def refusing : List (Label (service Demo.env)) :=
  [.spawn (.initiate sid tenant file 1 (sha256 a))] ++ calls 0 2 ++
    [.spawn (.uploadChunk sid 1 (sha256 a) a)] ++ calls 1 5 ++
    [.spawn (.finalize sid)] ++ scanning 2 0 ++ calls 2 1 ++ round 2 1 ++ calls 2 4

end Demo

/-- The session of one byte after its upload: the query says `completed`, and a finalize
passes its checks. -/
theorem status_report_demo :
    ∃ (c : Run Demo.env) (v : UploadSession), c.world.session? Demo.sid = some v ∧
      v.currentOffset = v.totalSize ∧ ReportsCompleted Demo.env c.world Demo.sid ∧
      ¬ RefusedUnlocked Demo.env c.world Demo.sid := by
  have h : ((Config.start (World.empty 0)).play (fun _ l => sizesPositive l)
      (Demo.refusing.take 9)).any (fun c => (c.world.session? Demo.sid).any
        fun v => v.status ≠ .failed ∧ v.currentOffset = v.totalSize) = true := by
    decide +kernel
  rcases exists_of_play (fun _ _ hl => hl) _ h with ⟨c, hc, hcheck⟩
  rcases (Option.any_eq_true _ _).1 hcheck with ⟨v, hv, hopen⟩
  rw [decide_eq_true_eq] at hopen
  have hreports : ReportsCompleted Demo.env c.world Demo.sid :=
    (reportsCompleted_iff hv).2 hopen.2
  exact ⟨c, v, hv, hopen.2, hreports, ((status_report hc hv).2 hopen.1).1 hreports⟩

/-- It fails once S3 has refused: the query says `completed`, and the finalize that
follows is refused. -/
theorem status_report_fails :
    ∃ (c : Run Demo.env) (v : UploadSession),
      Reach (fun _ l => sizesPositive l) (Config.start (World.empty 0)) c ∧
      c.world.session? Demo.sid = some v ∧ ReportsCompleted Demo.env c.world Demo.sid ∧
      RefusedUnlocked Demo.env c.world Demo.sid := by
  have h : ((Config.start (World.empty 0)).play (fun _ l => sizesPositive l)
      Demo.refusing).any (fun c => (c.world.session? Demo.sid).any
        fun v => v.status = .failed ∧ v.currentOffset = v.totalSize) = true := by
    decide +kernel
  rcases exists_of_play (fun _ _ hl => hl) _ h with ⟨c, hc, hcheck⟩
  rcases (Option.any_eq_true _ _).1 hcheck with ⟨v, hv, hfailed⟩
  simp only [decide_eq_true_eq] at hfailed
  refine ⟨c, v, hc, hv, (reportsCompleted_iff hv).2 hfailed.2, (refusedUnlocked_iff hv).2 ?_⟩
  intro hready
  exact hready.1 (by simp [hfailed.1])

end FileUploader
