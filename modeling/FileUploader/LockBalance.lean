import FileUploader.Footprint
import FileUploader.Serial

/-! # The lock on every path

Upload, finalize and abort take the lock of their session before a `try` and release it in
its `finally`. Whichever calls raise in between, the lock is free again afterwards, and a
request that finds it taken does nothing.
-/

namespace FileUploader

open Await Prog

variable {env : Env}

/-- Calls may raise, with their effect or without it, but for two: a release goes through,
and a request for the lock that raises has not taken it. -/
def releasesWork (out : Outcome) : Call → Prop
  | .releaseLock _ => out = .works
  | .acquireLock _ _ => ∀ msg, out ≠ .raisesAfter msg
  | _ => True

/-- A request about the lock of a session. -/
def Call.locks : Call → Bool
  | .acquireLock _ _ | .releaseLock _ => true
  | _ => false

/-- The lock of `sid` is taken when it is free, and released when it has been taken. -/
def balanced (sid : UUID) : Discipline Collab Bool where
  next := fun l c r =>
    match c, r with
    | .acquireLock _ _, .ok taken => taken
    | .releaseLock _, _ => false
    | _, _ => l
  allows := fun l c =>
    match c with
    | .acquireLock sid' _ => sid' = sid ∧ l = false
    | .releaseLock sid' => sid' = sid ∧ l = true
    | _ => True
  expects := fun _ _ _ => True
  loops := fun _ => True

namespace Balance

variable {sid : UUID} {l : Bool} {α : Type} {p : Program α}

/-- What asks for no lock is balanced. -/
theorem obeys_of_makes (h : Makes (fun c : Call => c.locks = false) p) :
    Obeys (balanced sid) p l (fun _ l' => l' = l) := by
  refine h.obeys (fun c hc => ?_) (fun c r hc => ?_) trivial
  · cases c with
    | acquireLock sid' ttl => cases hc
    | releaseLock sid' => cases hc
    | _ => trivial
  · cases c with
    | acquireLock sid' ttl => cases hc
    | releaseLock sid' => cases hc
    | _ => rfl

/-- The lock is asked for, and what follows runs under it and releases it. -/
theorem obeys_critical (h : Makes (fun c : Call => c.locks = false) p) :
    Obeys (balanced sid) (do
      let locked ← SessionRepository.acquireLock sid RedisSessionRepository.lockTtl
      raiseIf (locked = false) (lockError sid)
      p.tryFinally (SessionRepository.releaseLock sid)) false (fun _ l => l = false) := by
  have hbody : Obeys (balanced sid) p true (fun _ l => l = true) := obeys_of_makes h
  simp only [SessionRepository.acquireLock, SessionRepository.releaseLock, obeys_bind,
    obeys_await, onOk_ok, onOk_error, obeys_raise, obeys_raiseIf, obeys_tryFinally]
  refine ⟨⟨rfl, rfl⟩, fun _ _ => rfl, fun taken _ => ⟨fun htaken => htaken, fun htaken => ?_⟩⟩
  have hheld : taken = true := Bool.of_not_eq_false htaken
  subst hheld
  refine hbody.mono fun r l hl => ?_
  subst hl
  exact ⟨⟨rfl, rfl⟩, fun _ _ => rfl, fun _ _ => rfl⟩

/-- Before the lock is asked for, none is held. -/
theorem obeys_before {β : Type} {f : α → Program β} (h : Makes (fun c : Call => c.locks = false) p)
    (hf : ∀ a, Obeys (balanced sid) (f a) false (fun _ l => l = false)) :
    Obeys (balanced sid) (p >>= f) false (fun _ l => l = false) := by
  rw [obeys_bind]
  refine (obeys_of_makes h).mono fun r l hl => ?_
  subst hl
  cases r with
  | ok a => exact hf a
  | error x => rfl

theorem requireSession_unlocked (sid : UUID) :
    Makes (fun c : Call => c.locks = false) (requireSession sid) := requireSession_makes rfl

/-- The three requests that take a lock. -/
theorem prog_obeys {op : Op} (hop : op.target? = some sid) (hquery : op ≠ .query sid) :
    Obeys (balanced sid) (Op.prog env op) false (fun _ l => l = false) := by
  have hmap : ∀ {α : Type} {p : Program α} {f : α → Response},
      Obeys (balanced sid) p false (fun _ l => l = false) →
      Obeys (balanced sid) (do let a ← p; pure (f a)) false (fun _ l => l = false) := by
    intro α p f h
    rw [obeys_bind]
    refine h.mono fun r l hl => ?_
    cases r with
    | ok a => exact hl
    | error x => exact hl
  cases op with
  | initiate newId t f size cs => cases hop
  | uploadChunk sid' index cs data =>
      cases hop
      refine hmap (obeys_before (requireSession_unlocked sid) fun v => ?_)
      refine obeys_before (makes_raiseIf _ _) fun _ => ?_
      exact obeys_critical (process_makes (fun _ => rfl) (fun _ => rfl))
  | finalize sid' =>
      cases hop
      refine hmap (obeys_before (requireSession_unlocked sid) fun v => ?_)
      refine obeys_before (makes_raiseIf _ _) fun _ => ?_
      refine obeys_before (makes_raiseIf _ _) fun _ => ?_
      refine obeys_before (makes_raiseIf _ _) fun _ => ?_
      refine obeys_critical (makes_bind (scan_makes (fun _ => rfl) rfl rfl rfl) fun _ => ?_)
      refine makes_bind (assemble_makes rfl (fun _ => rfl) (fun _ _ _ => rfl) (fun _ _ => rfl)
        (fun _ => rfl) rfl) fun s3Uri => ?_
      exact publish_makes rfl (fun _ => rfl) rfl rfl
  | abort sid' =>
      cases hop
      refine hmap (obeys_before (requireSession_unlocked sid) fun v => ?_)
      refine obeys_critical (makes_bind ((makes_ask _).2 rfl) fun _ => ?_)
      exact (makes_ask _).2 rfl
  | query sid' =>
      cases hop
      exact absurd rfl hquery

end Balance

/-! ## A lock that is taken -/

/-- Only the session is read and the lock asked for, in vain. -/
def contended (sid : UUID) : Discipline Collab Unit where
  next := fun _ _ _ => ()
  allows := fun _ c => c = .sessionGet sid ∨ ∃ ttl, c = .acquireLock sid ttl
  expects := fun _ c r => c.lockTaken r = none
  loops := fun _ => True

namespace Contended

theorem prog_obeys {op : Op} {sid : UUID} (hop : op.target? = some sid)
    (hquery : op ≠ .query sid) :
    Obeys (contended sid) (Op.prog env op) () (fun r _ => ∃ x, r = .error x) := by
  cases op with
  | initiate newId t f size cs => cases hop
  | uploadChunk sid' index cs data =>
      cases hop
      simp [Op.prog, UploadChunkUseCase.execute, requireSession, SessionRepository.get,
        SessionRepository.acquireLock, contended, Option.forall, Call.lockTaken]
  | finalize sid' =>
      cases hop
      simp [Op.prog, FinalizeUploadUseCase.execute, requireSession, SessionRepository.get,
        SessionRepository.acquireLock, contended, Option.forall, Call.lockTaken]
  | abort sid' =>
      cases hop
      simp [Op.prog, AbortUploadUseCase.execute, requireSession, SessionRepository.get,
        SessionRepository.acquireLock, contended, Option.forall, Call.lockTaken]
  | query sid' =>
      cases hop
      exact absurd rfl hquery

end Contended

/-! ## What one call does to the lock -/

section Step

variable {sid : UUID} {c : Call} {w w' : World} {r : Except Exn c.Resp}

/-- As long as the request does not hold the lock, it is free. -/
theorem balanced_step {l : Bool} (hfree : l = false → w.lock? sid = none)
    (hallow : (balanced sid).allows l c)
    (h : (service env).answers releasesWork c w r w') :
    (balanced sid).next l c r = false → w'.lock? sid = none := by
  rcases h with ⟨out, hout, rfl, rfl⟩
  cases c with
  | acquireLock sid' ttl =>
      rcases hallow with ⟨rfl, rfl⟩
      cases out with
      | works =>
          intro hnext
          rcases RedisSessionRepository.acquireLock_cases w sid' ttl with ⟨v, hv, _⟩ | ⟨_, hres⟩
          · cases hv.symm.trans (hfree rfl)
          · simp [balanced, handle, respond, hres] at hnext
      | raises msg => exact fun _ => hfree rfl
      | raisesAfter msg => exact absurd rfl (hout msg)
  | releaseLock sid' =>
      rcases hallow with ⟨rfl, rfl⟩
      have hworks : out = .works := hout
      subst hworks
      intro _
      exact w.locks.get_erase_self w.now sid'
  | _ =>
      intro hl
      rcases handle_lock? env out _ w sid with hsame | ⟨_, hc, _⟩ | ⟨hc, _⟩
      · exact hsame.trans (hfree hl)
      · cases hc
      · cases hc

/-- A lock that is taken is not given, and nothing changes. -/
theorem contended_step (hheld : w.lock? sid ≠ none) (hallow : (contended sid).allows () c)
    (h : (service env).answers releasesWork c w r w') :
    (contended sid).expects () c r ∧ w' = w := by
  rcases h with ⟨out, hout, rfl, rfl⟩
  rcases hallow with rfl | ⟨ttl, rfl⟩
  · cases out with
    | works => exact ⟨rfl, rfl⟩
    | raises msg => exact ⟨rfl, rfl⟩
    | raisesAfter msg => exact ⟨rfl, rfl⟩
  · rcases RedisSessionRepository.acquireLock_cases w sid ttl with ⟨v, _, hres⟩ | ⟨hfree, _⟩
    · cases out with
      | works => simp [contended, handle, respond, hres, Call.lockTaken]
      | raises msg => exact ⟨rfl, rfl⟩
      | raisesAfter msg => exact absurd rfl (hout msg)
    · exact absurd hfree hheld

end Step

/-- Lock discipline: for an upload, a finalize and an abort, from every world and however
the calls turn out, the lock of the session is free afterwards if it was free before; if
it was taken, the request raises and has changed nothing at all. -/
theorem lock_balance {op : Op} {sid : UUID} (hop : op.target? = some sid)
    (hquery : op ≠ .query sid) {w w' : World} {r : Except Exn Response}
    (h : Exec ((service env).answers releasesWork) (op.prog env) w r w') :
    (w.lock? sid = none → w'.lock? sid = none) ∧
      (w.lock? sid ≠ none → (∃ x, r = .error x) ∧ w' = w) := by
  constructor
  · intro hfree
    have hstep : ∀ (l : Bool) c w r w', (l = false → w.lock? sid = none) →
        (balanced sid).allows l c → (service env).answers releasesWork c w r w' →
        (balanced sid).expects l c r ∧ (service env).answers releasesWork c w r w' ∧
          ((balanced sid).next l c r = false → w'.lock? sid = none) :=
      fun l c w r w' hI hallow hr => ⟨trivial, hr, balanced_step hI hallow hr⟩
    rcases Obeys.exec (f := id) (I := fun l w => l = false → w.lock? sid = none)
      (Balance.prog_obeys hop hquery) hstep (fun _ => hfree) h with ⟨_, l', hl', hend⟩
    exact hend hl'
  · intro hheld
    have hstep : ∀ (l : Unit) c w₁ r w₂, w₁ = w → (contended sid).allows l c →
        (service env).answers releasesWork c w₁ r w₂ → (contended sid).expects l c r ∧
          (service env).answers releasesWork c w₁ r w₂ ∧ w₂ = w := by
      intro l c w₁ r w₂ hw hallow hr
      subst hw
      rcases contended_step hheld hallow hr with ⟨hexp, hsame⟩
      exact ⟨hexp, hr, hsame⟩
    rcases Obeys.exec (f := id) (I := fun _ w₁ => w₁ = w) (Contended.prog_obeys hop hquery) hstep
      rfl h with ⟨_, _, hx, hw⟩
    exact ⟨hx, hw⟩

namespace Demo

/-- The chunk store is out of reach. -/
def chunkStoreDown : Call → Outcome
  | .chunkSave _ _ => .raises "connection reset"
  | _ => .works

/-- The byte of a file of one byte. -/
def byteUpload : Op := .uploadChunk sid 0 (sha256 a) a

end Demo

/-- An upload whose chunk cannot be saved. -/
theorem lock_balance_demo : ∃ (x : Exn) (w' : World),
    Exec ((service Demo.env).answers releasesWork) (Op.prog Demo.env Demo.byteUpload)
      (Demo.sized 1) (.error x) w' ∧ w'.lock? Demo.sid = none := by
  have hrun : ((Op.prog Demo.env Demo.byteUpload).run
      (fun c w => handle Demo.env (Demo.chunkStoreDown c) c w) 10 (Demo.sized 1)).any
        (fun s => s.1.toOption = none) = true := by
    decide +kernel
  have hanswers : ∀ c w, (service Demo.env).answers releasesWork c w
      (handle Demo.env (Demo.chunkStoreDown c) c w).1
      (handle Demo.env (Demo.chunkStoreDown c) c w).2 := by
    intro c w
    refine ⟨Demo.chunkStoreDown c, ?_, rfl, rfl⟩
    cases c with
    | releaseLock sid => exact rfl
    | acquireLock sid ttl =>
        intro msg hout
        cases hout
    | _ => trivial
  rcases exists_exec_of_run hanswers 10 hrun with ⟨x | a, w', hexec, hcheck⟩
  · exact ⟨x, w', hexec, (lock_balance rfl (by decide) hexec).1 rfl⟩
  · simp [Except.toOption] at hcheck

end FileUploader
