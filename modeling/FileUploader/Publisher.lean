import Mathlib.Data.ENat.Lattice
import Mathlib.Tactic.Ring
import FileUploader.Await.Trace
import FileUploader.Infrastructure.Calls
import FileUploader.Numbers.FloatFormat

/-! # The retry loop of the publisher

The use cases see `publish_file_upload_completed` as one call. Inside, the publisher tries up
to `max_retries` times, with waits that double each time. The delay is a float and the power
an integer: from 2 ** 1024 on it cannot be converted, and the loop ends with an
`OverflowError` of its own. Seen from outside, each run that ends is one call that goes
through or raises, with its effect or without.
-/

namespace FileUploader

open Await Prog

namespace Nats

/-! ## The client -/

/-- What `publish_file_upload_completed` may meet: the exceptions that it raises itself, and
those of the client. -/
inductive PublishExn where
  | connectionError (msg : String)
  | overflowError (msg : String)
  | runtimeError (msg : String)
  | clientError (msg : String)
deriving DecidableEq

/-- `str(e)` -/
def PublishExn.str : PublishExn → String
  | .connectionError msg | .overflowError msg | .runtimeError msg | .clientError msg => msg

/-- The properties that are read of the client, its methods, and `asyncio.sleep`. -/
inductive ClientCall where
  | isConnected
  | isReconnecting
  | publish (subject : String) (payload : Bytes)
  | flush
  | sleep (delay : binary64.Number)

@[reducible] def ClientCall.Resp : ClientCall → Type
  | .isConnected | .isReconnecting => Bool
  | .publish _ _ | .flush | .sleep _ => Unit

@[reducible] def Client : Sig := ⟨ClientCall, ClientCall.Resp, PublishExn⟩

/-- Await one call. -/
@[reducible] def request (c : ClientCall) : Prog Client c.Resp := Prog.await (S := Client) c

/-- `asyncio.sleep`; from an infinite delay there is no waking up. -/
def sleep : binary64.Number → Prog Client Unit
  | .infinity false => loop (fun _ : Unit => pure (.inl ())) ()
  | delay => request (.sleep delay)

/-! ## NatsEventPublisher -/

/-- What is given to `json.dumps`. -/
structure EventPayload where
  tenantId : String
  fileId : String
  s3Uri : String
  totalSize : Int
  checksum : String
deriving DecidableEq

def eventPayload (event : Event) : EventPayload where
  tenantId := event.tenantId.str
  fileId := event.fileId.str
  s3Uri := event.s3Uri
  totalSize := event.totalSize
  checksum := event.checksum

structure NatsEventPublisher where
  subject : String := "FILE_UPLOAD_COMPLETED"
  maxRetries : Int := 3
  retryDelay : binary64.Finite := ⟨1, FloatFormat.isFloat_one⟩

namespace NatsEventPublisher

variable (self : NatsEventPublisher)

/-- The `try` block of the loop. -/
def tryPublish (payloadBytes : Bytes) : Prog Client Unit := do
  let connected ← request .isConnected
  let usable ← if connected = true then pure true else request .isReconnecting
  raiseIf (usable = false) (.connectionError "NATS client is disconnected")
  request (.publish self.subject payloadBytes)
  request .flush

/-- `self.retry_delay * (2 ** (attempt - 1))` -/
def backoff (attempt : Nat) : Except PublishExn binary64.Number :=
  match self.retryDelay.timesTwoPow (attempt - 1) with
  | some delay => .ok delay
  | none => .error (.overflowError "int too large to convert to float")

/-- What is raised after the last attempt. -/
def exhausted (e : PublishExn) : PublishExn :=
  .runtimeError s!"Failed to publish event to NATS after {self.maxRetries} attempts: {e.str}"

/-- The body of the loop, with the attempts made so far. -/
def round (payloadBytes : Bytes) (attempt : Nat) : Prog Client (Nat ⊕ Unit) :=
  tryExcept
    (do
      self.tryPublish payloadBytes
      pure (.inr ()))
    (fun e => do
      raiseIf (self.maxRetries ≤ attempt + 1) (self.exhausted e)
      let delay ← ofExcept (self.backoff (attempt + 1))
      sleep delay
      pure (.inl (attempt + 1)))

/-- `dumps` is `json.dumps(payload).encode("utf-8")`. -/
def publishFileUploadCompleted (dumps : EventPayload → Bytes) (event : Event) :
    Prog Client Unit :=
  loop (self.round (dumps (eventPayload event))) 0

end NatsEventPublisher

/-! ## Sequences of attempts -/

/-- How one attempt goes: the state of the client, and what its two methods do. -/
structure Attempt where
  isConnected : Bool
  isReconnecting : Bool
  publish : Except PublishExn Unit
  flush : Except PublishExn Unit

namespace Attempt

variable (a : Attempt)

def Succeeds : Prop :=
  (a.isConnected = true ∨ a.isReconnecting = true) ∧ a.publish = .ok () ∧ a.flush = .ok ()

/-- How the `try` block ends. -/
def result : Except PublishExn Unit :=
  if a.isConnected = true ∨ a.isReconnecting = true then
    match a.publish with
    | .error e => .error e
    | .ok _ => a.flush
  else .error (.connectionError "NATS client is disconnected")

theorem succeeds_iff : a.Succeeds ↔ a.result = .ok () := by
  unfold Succeeds result
  by_cases hclient : a.isConnected = true ∨ a.isReconnecting = true
  · simp only [hclient, true_and, if_true]
    cases a.publish with
    | error e => simp
    | ok _ => simp
  · simp [hclient]

end Attempt

/-- The answer of the attempt that is under way. -/
def Attempt.answer (a : Attempt) : (c : ClientCall) → Except PublishExn c.Resp
  | .isConnected => .ok a.isConnected
  | .isReconnecting => .ok a.isReconnecting
  | .publish _ _ => a.publish
  | .flush => a.flush
  | .sleep _ => .ok ()

def ClientCall.isSleep : ClientCall → Bool
  | .sleep _ => true
  | _ => false

/-- The `n`-th wait ends the `n`-th attempt; all calls are recorded. -/
def play (attempts : Nat → Attempt) (c : ClientCall) (s : Nat × Trace Client) :
    Except PublishExn c.Resp × (Nat × Trace Client) :=
  ((attempts s.1).answer c,
    (if c.isSleep then s.1 + 1 else s.1, s.2 ++ [⟨c, (attempts s.1).answer c⟩]))

/-- The calls of the `try` block. -/
def triedCalls (subject : String) (payloadBytes : Bytes) (a : Attempt) : Trace Client :=
  ⟨.isConnected, .ok a.isConnected⟩ ::
    ((if a.isConnected = true then [] else [⟨.isReconnecting, .ok a.isReconnecting⟩]) ++
      if a.isConnected = true ∨ a.isReconnecting = true then
        ⟨.publish subject payloadBytes, a.publish⟩ ::
          (match a.publish with
            | .error _ => []
            | .ok _ => [⟨.flush, a.flush⟩])
      else [])

section Round

variable {attempts : Nat → Attempt} {p : NatsEventPublisher} {payloadBytes : Bytes} {i : Nat}
  {t : Trace Client}

theorem play_of_call {c : ClientCall} (h : c.isSleep = false) : play attempts c (i, t) =
    ((attempts i).answer c, (i, t ++ [⟨c, (attempts i).answer c⟩])) := by
  simp [play, h]

/-- The calls once the client is found usable. -/
theorem exec_publishFlush (o : Except PublishExn Unit) (s : Nat × Trace Client) :
    Exec (answersOf (play attempts)) (do
      request (.publish p.subject payloadBytes)
      request .flush) (i, t) o s ↔
      o = (match (attempts i).publish with
        | .error e => .error e
        | .ok _ => (attempts i).flush) ∧
      s = (i, t ++ ⟨.publish p.subject payloadBytes, (attempts i).publish⟩ ::
        (match (attempts i).publish with
          | .error _ => []
          | .ok _ => [⟨.flush, (attempts i).flush⟩])) := by
  rw [exec_await_bind, play_of_call rfl]
  simp only [Attempt.answer]
  cases (attempts i).publish with
  | error e => exact (exec_raise (S := Client) e o).trans (by simp)
  | ok _ =>
      refine (exec_await (S := Client) .flush o).trans ?_
      rw [answersOf, play_of_call rfl]
      simp only [Attempt.answer]
      constructor
      · intro h
        cases h
        exact ⟨rfl, by simp⟩
      · intro h
        rcases h with ⟨rfl, rfl⟩
        simp

/-- One attempt: how it ends, and its calls. -/
theorem exec_tryPublish (o : Except PublishExn Unit) (s : Nat × Trace Client) :
    Exec (answersOf (play attempts)) (p.tryPublish payloadBytes) (i, t) o s ↔
      o = (attempts i).result ∧
        s = (i, t ++ triedCalls p.subject payloadBytes (attempts i)) := by
  unfold NatsEventPublisher.tryPublish Attempt.result triedCalls
  rw [exec_await_bind, play_of_call rfl]
  simp only [Attempt.answer, onOk_ok]
  cases hconn : (attempts i).isConnected with
  | true =>
      refine (exec_publishFlush o s).trans ?_
      simp
  | false =>
      refine (exec_await_bind (S := Client) .isReconnecting _ o).trans ?_
      rw [play_of_call rfl]
      simp only [Attempt.answer, onOk_ok]
      cases hrec : (attempts i).isReconnecting with
      | true =>
          refine (exec_publishFlush o s).trans ?_
          simp
      | false =>
          refine (exec_raise (S := Client) _ o).trans ?_
          simp

/-- Nothing ends an infinite wait. -/
theorem exec_sleep {delay : binary64.Number} (o : Except PublishExn Unit)
    (s : Nat × Trace Client) : Exec (answersOf (play attempts)) (sleep delay) (i, t) o s ↔
      delay ≠ .infinity false ∧ o = .ok () ∧ s = (i + 1, t ++ [⟨.sleep delay, .ok ()⟩]) := by
  by_cases hforever : delay = .infinity false
  · subst hforever
    constructor
    · intro h
      have hround : ∀ (u : Unit) s r s₁, Exec (answersOf (play attempts))
          (pure (.inl u) : Prog Client (Unit ⊕ Unit)) s r s₁ → ∃ u', r = .ok (.inl u') :=
        fun u s r s₁ hr => ⟨u, hr.1⟩
      exact absurd ((exec_loop _ _ _).1 h) (not_rounds hround)
    · intro h
      exact absurd rfl h.1
  · have hsleep : sleep delay = request (.sleep delay) := by
      unfold sleep
      split
      · exact absurd rfl hforever
      · rfl
    rw [hsleep]
    refine (exec_await (S := Client) (.sleep delay) o).trans ?_
    constructor
    · intro h
      cases h
      exact ⟨hforever, rfl, rfl⟩
    · intro h
      rcases h with ⟨_, rfl, rfl⟩
      rfl

/-- What follows a failed attempt: it is the last one, or a wait follows. -/
theorem exec_retry (e : PublishExn) (a : Nat) (r : Except PublishExn (Nat ⊕ Unit))
    (s : Nat × Trace Client) :
    Exec (answersOf (play attempts)) (do
      raiseIf (p.maxRetries ≤ a + 1) (p.exhausted e)
      let delay ← ofExcept (p.backoff (a + 1))
      sleep delay
      pure (.inl (a + 1))) (i, t) r s ↔
      (p.maxRetries ≤ a + 1 ∧ r = .error (p.exhausted e) ∧ s = (i, t)) ∨
      (a + 1 < p.maxRetries ∧
        ((∃ x, p.backoff (a + 1) = .error x ∧ r = .error x ∧ s = (i, t)) ∨
          ∃ delay, p.backoff (a + 1) = .ok delay ∧ delay ≠ .infinity false ∧
            r = .ok (.inl (a + 1)) ∧ s = (i + 1, t ++ [⟨.sleep delay, .ok ()⟩]))) := by
  by_cases hlast : p.maxRetries ≤ a + 1
  · rw [raiseIf, if_pos hlast]
    refine (exec_raise (S := Client) _ r).trans ?_
    simp [hlast]
  · rw [raiseIf, if_neg hlast]
    have hnext : (a : Int) + 1 < p.maxRetries := by omega
    cases hbackoff : p.backoff (a + 1) with
    | error x =>
        refine (exec_raise (S := Client) x r).trans ?_
        simp [hlast, hnext]
    | ok delay =>
        refine (exec_bind (S := Client) (sleep delay) _ r).trans ?_
        simp only [exec_sleep]
        simp [hlast, hnext]

/-- One round: the attempt succeeds, or it fails. -/
theorem exec_round (a : Nat) (r : Except PublishExn (Nat ⊕ Unit)) (s : Nat × Trace Client) :
    Exec (answersOf (play attempts)) (p.round payloadBytes a) (i, t) r s ↔
      ((attempts i).result = .ok () ∧ r = .ok (.inr ()) ∧
        s = (i, t ++ triedCalls p.subject payloadBytes (attempts i))) ∨
      ∃ e, (attempts i).result = .error e ∧ Exec (answersOf (play attempts)) (do
        raiseIf (p.maxRetries ≤ a + 1) (p.exhausted e)
        let delay ← ofExcept (p.backoff (a + 1))
        sleep delay
        pure (.inl (a + 1)))
        (i, t ++ triedCalls p.subject payloadBytes (attempts i)) r s := by
  unfold NatsEventPublisher.round
  rw [exec_tryExcept]
  constructor
  · intro h
    -- the `try` block has returned, or its error is handled
    rcases h with ⟨b, hbody, rfl⟩ | ⟨e, s₁, hbody, hretry⟩
    · rcases (exec_bind (S := Client) _ _ _).1 hbody with ⟨x, _, hx⟩ | ⟨_, s₁, htry, hend⟩
      · cases hx
      · rcases hend with ⟨hb, rfl⟩
        rcases (exec_tryPublish _ _).1 htry with ⟨hresult, rfl⟩
        cases hb
        exact Or.inl ⟨hresult.symm, rfl, rfl⟩
    · rcases (exec_bind (S := Client) _ _ _).1 hbody with ⟨x, htry, hx⟩ | ⟨_, _, _, hend⟩
      · rcases (exec_tryPublish _ _).1 htry with ⟨hresult, rfl⟩
        cases hx
        exact Or.inr ⟨e, hresult.symm, hretry⟩
      · cases hend.1
  · intro h
    rcases h with ⟨hresult, rfl, rfl⟩ | ⟨e, hresult, hretry⟩
    · refine Or.inl ⟨.inr (), (exec_bind (S := Client) _ _ _).2 (Or.inr ⟨(), _, ?_, rfl, rfl⟩), rfl⟩
      exact (exec_tryPublish _ _).2 ⟨hresult.symm, rfl⟩
    · refine Or.inr ⟨e, _, (exec_bind (S := Client) _ _ _).2 (Or.inl ⟨e, ?_, rfl⟩), hretry⟩
      exact (exec_tryPublish _ _).2 ⟨hresult.symm, rfl⟩

end Round

/-! ## What a run has done -/

/-- An attempt begins by looking at the connection. -/
def ClientCall.beginsAttempt : ClientCall → Bool
  | .isConnected => true
  | _ => false

def ClientCall.wait? : ClientCall → Option binary64.Number
  | .sleep delay => some delay
  | _ => none

def ClientCall.message? : ClientCall → Option (String × Bytes)
  | .publish subject payload => some (subject, payload)
  | _ => none

section Observed

variable (t t' : Trace Client)

def attemptsIn : Nat := t.countP fun e => e.call.beginsAttempt

/-- The waits, in order. -/
def waitsIn : List binary64.Number := t.filterMap fun e => e.call.wait?

/-- The messages handed to the client, each with its subject. -/
def messagesIn : List (String × Bytes) := t.filterMap fun e => e.call.message?

@[simp] theorem attemptsIn_append : attemptsIn (t ++ t') = attemptsIn t + attemptsIn t' :=
  List.countP_append

@[simp] theorem waitsIn_append : waitsIn (t ++ t') = waitsIn t ++ waitsIn t' :=
  List.filterMap_append

@[simp] theorem messagesIn_append : messagesIn (t ++ t') = messagesIn t ++ messagesIn t' :=
  List.filterMap_append

@[simp] theorem attemptsIn_sleep (delay : binary64.Number) (r : Except PublishExn Unit) :
    attemptsIn [⟨.sleep delay, r⟩] = 0 := rfl

@[simp] theorem waitsIn_sleep (delay : binary64.Number) (r : Except PublishExn Unit) :
    waitsIn [⟨.sleep delay, r⟩] = [delay] := rfl

@[simp] theorem messagesIn_sleep (delay : binary64.Number) (r : Except PublishExn Unit) :
    messagesIn [⟨.sleep delay, r⟩] = [] := rfl

/-- One attempt begins once, waits for nothing, and hands over nothing but its message. -/
theorem triedCalls_observed (subject : String) (payloadBytes : Bytes) (a : Attempt) :
    attemptsIn (triedCalls subject payloadBytes a) = 1 ∧
      waitsIn (triedCalls subject payloadBytes a) = [] ∧
        ∀ m ∈ messagesIn (triedCalls subject payloadBytes a), m = (subject, payloadBytes) := by
  rcases a with ⟨conn, recon, publish, flush⟩
  cases conn <;> cases recon <;> rcases publish with e | _ <;>
    simp [triedCalls, attemptsIn, waitsIn, messagesIn, ClientCall.beginsAttempt,
      ClientCall.wait?, ClientCall.message?]

end Observed

/-- `a` attempts have failed, each but the last of those allowed, and each has been waited
after. -/
structure Tried (attempts : Nat → Attempt) (p : NatsEventPublisher) (payloadBytes : Bytes)
    (a : Nat) (t : Trace Client) : Prop where
  count : attemptsIn t = a
  waits : (waitsIn t).map some = (List.range a).map p.retryDelay.timesTwoPow
  messages : ∀ m ∈ messagesIn t, m = (p.subject, payloadBytes)
  failed : ∀ j < a, ¬ (attempts j).Succeeds ∧ (j : Int) + 1 < p.maxRetries

/-- How the loop ends in attempt `a + 1`: it succeeds, it is the last one allowed, or the
wait after it cannot be computed. -/
inductive Cause (attempts : Nat → Attempt) (p : NatsEventPublisher) (a : Nat) :
    Except PublishExn Unit → Prop where
  | success (h : (attempts a).Succeeds) : Cause attempts p a (.ok ())
  | exhausted (e : PublishExn) (h : ¬ (attempts a).Succeeds) (hlast : p.maxRetries ≤ a + 1) :
      Cause attempts p a (.error (p.exhausted e))
  | overflow (msg : String) (h : ¬ (attempts a).Succeeds) (hmore : (a : Int) + 1 < p.maxRetries)
      (hbackoff : p.retryDelay.timesTwoPow a = none) :
      Cause attempts p a (.error (.overflowError msg))

section Run

variable {attempts : Nat → Attempt} {p : NatsEventPublisher} {payloadBytes : Bytes} {a : Nat}
  {t : Trace Client} {o : Except PublishExn Unit} {s : Nat × Trace Client}

theorem backoff_eq_ok {delay : binary64.Number} (h : p.backoff (a + 1) = .ok delay) :
    p.retryDelay.timesTwoPow a = some delay := by
  unfold NatsEventPublisher.backoff at h
  rw [Nat.add_sub_cancel] at h
  split at h
  · rename_i hpow
    cases h
    exact hpow
  · cases h

theorem backoff_eq_error {x : PublishExn} (h : p.backoff (a + 1) = .error x) :
    p.retryDelay.timesTwoPow a = none ∧ ∃ msg, x = .overflowError msg := by
  unfold NatsEventPublisher.backoff at h
  rw [Nat.add_sub_cancel] at h
  split at h
  · cases h
  · rename_i hpow
    cases h
    exact ⟨hpow, _, rfl⟩

/-- A failed attempt and the wait after it. -/
theorem Tried.next (h : Tried attempts p payloadBytes a t) (hfails : ¬ (attempts a).Succeeds)
    (hmore : (a : Int) + 1 < p.maxRetries) {delay : binary64.Number}
    (hdelay : p.retryDelay.timesTwoPow a = some delay) :
    Tried attempts p payloadBytes (a + 1)
      (t ++ triedCalls p.subject payloadBytes (attempts a) ++ [⟨.sleep delay, .ok ()⟩]) := by
  rcases triedCalls_observed p.subject payloadBytes (attempts a) with ⟨hone, hnone, hall⟩
  refine ⟨?_, ?_, ?_, ?_⟩
  · simp [h.count, hone]
  · simp [h.waits, hnone, hdelay, List.range_succ]
  · intro m hm
    simp only [messagesIn_append, messagesIn_sleep, List.append_nil, List.mem_append] at hm
    rcases hm with hm | hm
    · exact h.messages m hm
    · exact hall m hm
  · intro j hj
    rcases Nat.lt_succ_iff_lt_or_eq.1 hj with hlt | rfl
    · exact h.failed j hlt
    · exact ⟨hfails, hmore⟩

/-- One round after `a` failed attempts: the loop goes on, or it ends. -/
theorem round_cases (h : Tried attempts p payloadBytes a t)
    {r : Except PublishExn (Nat ⊕ Unit)}
    (hround : Exec (answersOf (play attempts)) (p.round payloadBytes a) (a, t) r s) :
    (r = .ok (.inl (a + 1)) ∧ s.1 = a + 1 ∧ Tried attempts p payloadBytes (a + 1) s.2) ∨
      ∃ o, r = o.map .inr ∧ Cause attempts p a o ∧
        s = (a, t ++ triedCalls p.subject payloadBytes (attempts a)) := by
  rcases (exec_round a r s).1 hround with ⟨hresult, rfl, rfl⟩ | ⟨e, hresult, hretry⟩
  · exact Or.inr ⟨.ok (), rfl, .success ((attempts a).succeeds_iff.2 hresult), rfl⟩
  · have hfails : ¬ (attempts a).Succeeds := by
      rw [Attempt.succeeds_iff, hresult]
      simp
    rcases (exec_retry e a r s).1 hretry with
      ⟨hlast, rfl, rfl⟩ | ⟨hmore, ⟨x, hbackoff, rfl, rfl⟩ | ⟨delay, hbackoff, _, rfl, rfl⟩⟩
    · exact Or.inr ⟨.error (p.exhausted e), rfl, .exhausted e hfails hlast, rfl⟩
    · rcases backoff_eq_error hbackoff with ⟨hpow, msg, rfl⟩
      exact Or.inr ⟨.error (.overflowError msg), rfl, .overflow msg hfails hmore hpow, rfl⟩
    · exact Or.inl ⟨rfl, rfl, h.next hfails hmore (backoff_eq_ok hbackoff)⟩

/-- Every run of the loop after `a` failed attempts. -/
theorem rounds_ended (h : Tried attempts p payloadBytes a t)
    (hrun : Rounds (fun a => Exec (answersOf (play attempts)) (p.round payloadBytes a)) a (a, t)
      o s) : ∃ b t₀, Tried attempts p payloadBytes b t₀ ∧ Cause attempts p b o ∧
        s = (b, t₀ ++ triedCalls p.subject payloadBytes (attempts b)) := by
  generalize hs : (a, t) = s₀ at hrun
  induction hrun generalizing t with
  | @again a a' w w₁ w₂ o hround _ ih =>
      subst hs
      rcases round_cases h hround with ⟨hr, hindex, htried⟩ | ⟨o', hr, _⟩
      · cases hr
        exact ih htried (Prod.ext hindex.symm rfl)
      · cases o' <;> cases hr
  | @stop a b w w₁ hround =>
      subst hs
      rcases round_cases h hround with ⟨hr, _⟩ | ⟨o', hr, hcause, rfl⟩
      · cases hr
      · cases o' with
        | error x => cases hr
        | ok _ => exact ⟨a, t, h, hcause, rfl⟩
  | @fail a x w w₁ hround =>
      subst hs
      rcases round_cases h hround with ⟨hr, _⟩ | ⟨o', hr, hcause, rfl⟩
      · cases hr
      · cases o' with
        | error y =>
            cases hr
            exact ⟨a, t, h, hcause, rfl⟩
        | ok _ => cases hr

/-- A round raises after the last attempt allowed, and where the wait cannot be computed. -/
theorem exec_round_raises {e x : PublishExn} (hresult : (attempts a).result = .error e)
    (hx : p.maxRetries ≤ a + 1 ∧ x = p.exhausted e ∨
      (a : Int) + 1 < p.maxRetries ∧ p.backoff (a + 1) = .error x) (t : Trace Client) :
    Exec (answersOf (play attempts)) (p.round payloadBytes a) (a, t) (.error x)
      (a, t ++ triedCalls p.subject payloadBytes (attempts a)) := by
  refine (exec_round a _ _).2 (Or.inr ⟨e, hresult, (exec_retry e a _ _).2 ?_⟩)
  rcases hx with ⟨hlast, rfl⟩ | ⟨hmore, hbackoff⟩
  · exact Or.inl ⟨hlast, rfl, rfl⟩
  · exact Or.inr ⟨hmore, Or.inl ⟨x, hbackoff, rfl, rfl⟩⟩

/-- The loop ends with an attempt that succeeds, with the last one allowed, and with one after
which the wait cannot be computed. -/
theorem exists_rounds_last (hend : (attempts a).Succeeds ∨ p.maxRetries ≤ a + 1 ∨
      p.retryDelay.timesTwoPow a = none) (t : Trace Client) :
    ∃ o s, Rounds (fun a => Exec (answersOf (play attempts)) (p.round payloadBytes a)) a (a, t)
      o s := by
  cases hresult : (attempts a).result with
  | ok _ => exact ⟨.ok (), _, .stop ((exec_round a _ _).2 (Or.inl ⟨hresult, rfl, rfl⟩))⟩
  | error e =>
      by_cases hlast : p.maxRetries ≤ a + 1
      · exact ⟨_, _, .fail (exec_round_raises hresult (Or.inl ⟨hlast, rfl⟩) t)⟩
      · have hpow : p.retryDelay.timesTwoPow a = none := by
          rcases hend with hsucceeds | hlast' | hpow
          · rw [Attempt.succeeds_iff, hresult] at hsucceeds
            cases hsucceeds
          · exact absurd hlast' hlast
          · exact hpow
        have hbackoff : p.backoff (a + 1) =
            .error (.overflowError "int too large to convert to float") := by
          rw [NatsEventPublisher.backoff, Nat.add_sub_cancel, hpow]
        exact ⟨_, _, .fail (exec_round_raises hresult (Or.inr ⟨not_le.1 hlast, hbackoff⟩) t)⟩

/-- After a failed attempt and a wait that can be computed and ends, it goes on. -/
theorem exists_round_next (hfails : ¬ (attempts a).Succeeds)
    (hmore : (a : Int) + 1 < p.maxRetries) {delay : binary64.Number}
    (hdelay : p.retryDelay.timesTwoPow a = some delay) (hfinite : delay ≠ .infinity false)
    (t : Trace Client) : ∃ t', Exec (answersOf (play attempts)) (p.round payloadBytes a) (a, t)
      (.ok (.inl (a + 1))) (a + 1, t') := by
  have hbackoff : p.backoff (a + 1) = .ok delay := by
    rw [NatsEventPublisher.backoff, Nat.add_sub_cancel, hdelay]
  cases hresult : (attempts a).result with
  | ok _ => exact absurd ((attempts a).succeeds_iff.2 hresult) hfails
  | error e =>
      refine ⟨t ++ triedCalls p.subject payloadBytes (attempts a) ++ [⟨.sleep delay, .ok ()⟩],
        (exec_round a _ _).2 (Or.inr ⟨e, hresult, ?_⟩)⟩
      exact (exec_retry e a _ _).2 (Or.inr ⟨hmore, Or.inr ⟨delay, hbackoff, hfinite, rfl, rfl⟩⟩)

/-- A run ends, unless it waits for ever. -/
theorem exists_rounds (hwaits : ∀ j, (∀ i ≤ j, ¬ (attempts i).Succeeds) →
      (j : Int) + 1 < p.maxRetries → p.retryDelay.timesTwoPow j ≠ some (.infinity false))
    (hfailed : ∀ j < a, ¬ (attempts j).Succeeds) (t : Trace Client) :
    ∃ o s, Rounds (fun a => Exec (answersOf (play attempts)) (p.round payloadBytes a)) a (a, t)
      o s := by
  -- by induction on the number of attempts that are left
  obtain ⟨left, hleft⟩ : ∃ left : Nat, p.maxRetries - a ≤ left :=
    ⟨(p.maxRetries - a).toNat, Int.self_le_toNat _⟩
  induction left generalizing a t with
  | zero => exact exists_rounds_last (Or.inr (Or.inl (by omega))) t
  | succ left ih =>
      by_cases hend : (attempts a).Succeeds ∨ p.maxRetries ≤ a + 1
      · exact exists_rounds_last (hend.imp_right Or.inl) t
      · rw [not_or, not_le] at hend
        rcases hend with ⟨hfails, hmore⟩
        have hfailed' : ∀ j ≤ a, ¬ (attempts j).Succeeds := by
          intro j hj
          rcases Nat.lt_or_eq_of_le hj with hlt | rfl
          · exact hfailed j hlt
          · exact hfails
        cases hdelay : p.retryDelay.timesTwoPow a with
        | none => exact exists_rounds_last (Or.inr (Or.inr hdelay)) t
        | some delay =>
            have hfinite : delay ≠ .infinity false := by
              intro hinf
              rw [hinf] at hdelay
              exact hwaits a hfailed' hmore hdelay
            rcases exists_round_next hfails hmore hdelay hfinite t with ⟨t', hround⟩
            have hleft' : p.maxRetries - (a + 1 : Nat) ≤ left := by omega
            rcases ih (fun j hj => hfailed' j (Nat.le_of_lt_succ hj)) t' hleft' with
              ⟨o, s, hrest⟩
            exact ⟨o, s, .again hround hrest⟩

end Run

/-! ## Whole runs -/

/-- The position of the first attempt that succeeds, from 1 on; infinite if none does. -/
noncomputable def firstSuccess (attempts : Nat → Attempt) : ℕ∞ :=
  ⨅ i, ⨅ (_ : (attempts i).Succeeds), ((i + 1 : ℕ) : ℕ∞)

/-- `max(1, max_retries)` -/
def NatsEventPublisher.allowed (p : NatsEventPublisher) : ℕ := (max 1 p.maxRetries).toNat

/-- A run that ends with `o` and these calls has kept to the limit and to the schedule. -/
structure Retries (dumps : EventPayload → Bytes) (p : NatsEventPublisher) (event : Event)
    (attempts : Nat → Attempt) (o : Except PublishExn Unit) (t : Trace Client) : Prop where
  count : (attemptsIn t : ℕ∞) = min (firstSuccess attempts) p.allowed
  returns : o = .ok () ↔ firstSuccess attempts ≤ p.allowed
  raises : o ≠ .ok () → ∃ msg, o = .error (.runtimeError msg)
  waits : (waitsIn t).map (·.toRat?) =
    (List.range (attemptsIn t - 1)).map fun j => some (p.retryDelay.val * 2 ^ j)
  total : ((waitsIn t).filterMap (·.toRat?)).sum =
    p.retryDelay.val * (2 ^ (attemptsIn t - 1) - 1)
  messages : ∀ m ∈ messagesIn t, m = (p.subject, dumps (eventPayload event))

section Whole

variable {attempts : Nat → Attempt} {p : NatsEventPublisher}

theorem lt_firstSuccess {n : ℕ} :
    (n : ℕ∞) < firstSuccess attempts ↔ ∀ i < n, ¬ (attempts i).Succeeds := by
  constructor
  · intro h i hi hsucceeds
    have hle : firstSuccess attempts ≤ ((i + 1 : ℕ) : ℕ∞) := iInf₂_le i hsucceeds
    have hlt : (n : ℕ∞) < ((i + 1 : ℕ) : ℕ∞) := lt_of_lt_of_le h hle
    have hlt' : n < i + 1 := by exact_mod_cast hlt
    omega
  · intro h
    have hle : ((n + 1 : ℕ) : ℕ∞) ≤ firstSuccess attempts := by
      refine le_iInf₂ fun i hsucceeds => ?_
      have hi : n ≤ i := not_lt.1 fun hlt => h i hlt hsucceeds
      exact_mod_cast Nat.succ_le_succ hi
    exact lt_of_lt_of_le (by exact_mod_cast Nat.lt_succ_self n) hle

theorem firstSuccess_eq {n : ℕ} (hsucceeds : (attempts n).Succeeds)
    (hfailed : ∀ i < n, ¬ (attempts i).Succeeds) : firstSuccess attempts = ((n + 1 : ℕ) : ℕ∞) := by
  refine le_antisymm (iInf₂_le n hsucceeds) (le_iInf₂ fun i hi => ?_)
  have hle : n ≤ i := not_lt.1 fun hlt => hfailed i hlt hi
  exact_mod_cast Nat.succ_le_succ hle

theorem lt_allowed {n : ℕ} : n + 1 < p.allowed ↔ (n : Int) + 1 < p.maxRetries := by
  unfold NatsEventPublisher.allowed
  omega

/-- The waits that the schedule asks for. -/
theorem lt_limit_iff {j : ℕ} : ((j + 1 : ℕ) : ℕ∞) < min (firstSuccess attempts) p.allowed ↔
    (∀ i ≤ j, ¬ (attempts i).Succeeds) ∧ (j : Int) + 1 < p.maxRetries := by
  rw [lt_min_iff, lt_firstSuccess, Nat.cast_lt, lt_allowed]
  simp only [Nat.lt_succ_iff]

theorem sum_doubling (d : ℚ) (n : ℕ) :
    ((List.range n).map fun j => d * 2 ^ j).sum = d * (2 ^ n - 1) := by
  induction n with
  | zero => simp
  | succ n ih =>
      rw [List.range_succ, List.map_append, List.sum_append, ih]
      simp only [List.map_cons, List.map_nil, List.sum_cons, List.sum_nil]
      ring

/-- Waits as they are computed are exact as long as the products are in range. -/
theorem waits_exact_iff {x : binary64.Finite} {ws : List binary64.Number} {n : ℕ}
    (h : ws.map some = (List.range n).map x.timesTwoPow) :
    (ws.map (·.toRat?) = (List.range n).map fun j => some (x.val * 2 ^ j)) ↔
      ∀ j < n, j < 1024 ∧ |x.val| * 2 ^ j < 2 ^ 1024 := by
  have hlimit : binary64.limit = 1024 := rfl
  have hcomputed : ws.map (·.toRat?) =
      (List.range n).map fun j => (x.timesTwoPow j).bind (·.toRat?) := by
    calc ws.map (·.toRat?) = (ws.map some).map (·.bind (·.toRat?)) := by simp
      _ = (List.range n).map fun j => (x.timesTwoPow j).bind (·.toRat?) := by
        rw [h, List.map_map]
        rfl
  rw [hcomputed, List.map_inj_left, ← hlimit]
  simp only [List.mem_range, Option.bind_eq_some_iff, FloatFormat.Finite.timesTwoPow_exact_iff]

/-- What is waited in total. -/
theorem sum_waits {ws : List binary64.Number} {d : ℚ} {n : ℕ}
    (h : ws.map (·.toRat?) = (List.range n).map fun j => some (d * 2 ^ j)) :
    (ws.filterMap (·.toRat?)).sum = d * (2 ^ n - 1) := by
  have hvalues : ws.filterMap (·.toRat?) = (List.range n).map fun j => d * 2 ^ j := by
    calc ws.filterMap (·.toRat?) = (ws.map (·.toRat?)).filterMap id := by
          rw [List.filterMap_map]
          rfl
      _ = (List.range n).map fun j => d * 2 ^ j := by
          rw [h, List.filterMap_map, ← List.filterMap_eq_map]
          rfl
  rw [hvalues, sum_doubling]

variable {dumps : EventPayload → Bytes} {event : Event} {o : Except PublishExn Unit}
  {s : Nat × Trace Client}

/-- Every run of the publisher: how far it has come, and why it has ended there. -/
theorem halts_ended
    (h : Halts (play attempts) (p.publishFileUploadCompleted dumps event) (0, []) o s) :
    ∃ b t₀, Tried attempts p (dumps (eventPayload event)) b t₀ ∧ Cause attempts p b o ∧
      s.2 = t₀ ++ triedCalls p.subject (dumps (eventPayload event)) (attempts b) := by
  have hstart : Tried attempts p (dumps (eventPayload event)) 0 [] :=
    ⟨rfl, rfl, by simp [messagesIn], by simp⟩
  rcases rounds_ended hstart ((exec_loop _ _ _).1 (halts_iff.1 h)) with ⟨b, t₀, htried, hcause, rfl⟩
  exact ⟨b, t₀, htried, hcause, rfl⟩

/-- The publisher ends, unless it waits for ever. -/
theorem exists_halts (attempts : Nat → Attempt) (dumps : EventPayload → Bytes) (event : Event)
    (hwaits : ∀ j, (∀ i ≤ j, ¬ (attempts i).Succeeds) → (j : Int) + 1 < p.maxRetries →
      p.retryDelay.timesTwoPow j ≠ some (.infinity false)) :
    ∃ o s, Halts (play attempts) (p.publishFileUploadCompleted dumps event) (0, []) o s := by
  have hnone : ∀ j < 0, ¬ (attempts j).Succeeds := fun j hj => absurd hj (Nat.not_lt_zero j)
  rcases exists_rounds hwaits hnone [] with ⟨o, s, hrun⟩
  exact ⟨o, s, halts_of_exec ((exec_loop _ _ _).2 hrun)⟩

/-- Failed attempts have been allowed, and one more is. -/
theorem Tried.le_allowed {payloadBytes : Bytes} {a : Nat} {t : Trace Client}
    (h : Tried attempts p payloadBytes a t) : a + 1 ≤ p.allowed := by
  cases a with
  | zero =>
      unfold NatsEventPublisher.allowed
      omega
  | succ a => exact lt_allowed.2 (h.failed a (Nat.lt_succ_self a)).2

/-- The attempts are counted right, unless the wait after the last one has raised. -/
theorem Cause.count {payloadBytes : Bytes} {b : Nat} {t : Trace Client}
    (htried : Tried attempts p payloadBytes b t) (hcause : Cause attempts p b o)
    (hpow : (∀ i ≤ b, ¬ (attempts i).Succeeds) → (b : Int) + 1 < p.maxRetries →
      p.retryDelay.timesTwoPow b ≠ none) :
    min (firstSuccess attempts) p.allowed = ((b + 1 : ℕ) : ℕ∞) ∧
      (o = .ok () ↔ firstSuccess attempts ≤ p.allowed) ∧
      (o ≠ .ok () → ∃ msg, o = .error (.runtimeError msg)) := by
  have hallowed : ((b + 1 : ℕ) : ℕ∞) ≤ p.allowed := by exact_mod_cast htried.le_allowed
  -- the attempts before have failed, or the loop would have ended
  have hfailed : ¬ (attempts b).Succeeds → ∀ i < b + 1, ¬ (attempts i).Succeeds := by
    intro hfails i hi
    rcases Nat.lt_succ_iff_lt_or_eq.1 hi with hlt | rfl
    · exact (htried.failed i hlt).1
    · exact hfails
  cases hcause with
  | success hsucceeds =>
      have hfirst := firstSuccess_eq hsucceeds fun i hi => (htried.failed i hi).1
      rw [hfirst, min_eq_left hallowed]
      exact ⟨rfl, ⟨fun _ => hallowed, fun _ => rfl⟩, fun hne => absurd rfl hne⟩
  | exhausted e hfails hlast =>
      have hfirst := lt_firstSuccess.2 (hfailed hfails)
      have hnext : ¬ b + 1 < p.allowed := fun hlt => by
        have hmore := lt_allowed.1 hlt
        omega
      have heq : (p.allowed : ℕ∞) = ((b + 1 : ℕ) : ℕ∞) :=
        le_antisymm (by exact_mod_cast not_lt.1 hnext) hallowed
      rw [heq, min_eq_right hfirst.le]
      exact ⟨rfl, ⟨fun ho => (by cases ho), fun hle => absurd hle (not_le.2 hfirst)⟩,
        fun _ => ⟨_, rfl⟩⟩
  | overflow msg hfails hmore hnone =>
      exact absurd hnone (hpow (fun i hi => hfailed hfails i (Nat.lt_succ_of_le hi)) hmore)

/-- All waits that the schedule asks for are in the range of the float. -/
def InRange (p : NatsEventPublisher) (attempts : Nat → Attempt) : Prop :=
  ∀ j : ℕ, ((j + 1 : ℕ) : ℕ∞) < min (firstSuccess attempts) p.allowed →
    j < 1024 ∧ |p.retryDelay.val| * 2 ^ j < 2 ^ 1024

/-- A schedule that has been kept to was in range. -/
theorem Retries.inRange
    (hhalts : Halts (play attempts) (p.publishFileUploadCompleted dumps event) (0, []) o s)
    (h : Retries dumps p event attempts o s.2) : InRange p attempts := by
  intro j hj
  rcases halts_ended hhalts with ⟨b, t₀, htried, _, hs⟩
  rcases triedCalls_observed p.subject (dumps (eventPayload event)) (attempts b) with
    ⟨hone, hnone, _⟩
  have hcount := h.count
  have hwaits := h.waits
  rw [hs, attemptsIn_append, htried.count, hone] at hcount hwaits
  rw [waitsIn_append, hnone, List.append_nil, Nat.add_sub_cancel] at hwaits
  rw [← hcount] at hj
  have hlt : j + 1 < b + 1 := by exact_mod_cast hj
  exact (waits_exact_iff htried.waits).1 hwaits j (Nat.lt_of_succ_lt_succ hlt)

/-- Every run with a schedule in range has kept to it. -/
theorem InRange.retries (h : InRange p attempts)
    (hhalts : Halts (play attempts) (p.publishFileUploadCompleted dumps event) (0, []) o s) :
    Retries dumps p event attempts o s.2 := by
  rcases halts_ended hhalts with ⟨b, t₀, htried, hcause, hs⟩
  rcases triedCalls_observed p.subject (dumps (eventPayload event)) (attempts b) with
    ⟨hone, hnone, hall⟩
  -- the wait after the last attempt would not have raised
  have hpow : (∀ i ≤ b, ¬ (attempts i).Succeeds) → (b : Int) + 1 < p.maxRetries →
      p.retryDelay.timesTwoPow b ≠ none := by
    intro hfailed hmore
    have hlt : b < binary64.limit := (h b (lt_limit_iff.2 ⟨hfailed, hmore⟩)).1
    rw [FloatFormat.Finite.timesTwoPow_of_lt hlt]
    simp
  rcases hcause.count htried hpow with ⟨hmin, hreturns, hraises⟩
  have hcount : attemptsIn s.2 = b + 1 := by rw [hs, attemptsIn_append, htried.count, hone]
  have hwaits : waitsIn s.2 = waitsIn t₀ := by rw [hs, waitsIn_append, hnone, List.append_nil]
  -- the waits made were asked for, so they are exact
  have hschedule : (waitsIn t₀).map (·.toRat?) =
      (List.range b).map fun j => some (p.retryDelay.val * 2 ^ j) := by
    refine (waits_exact_iff htried.waits).2 fun j hj => h j ?_
    rw [hmin]
    exact_mod_cast Nat.succ_lt_succ hj
  refine ⟨?_, hreturns, hraises, ?_, ?_, ?_⟩
  · rw [hcount, hmin]
  · rw [hcount, hwaits]
    exact hschedule
  · rw [hcount, hwaits]
    exact sum_waits hschedule
  · intro m hm
    rw [hs, messagesIn_append, List.mem_append] at hm
    rcases hm with hm | hm
    · exact htried.messages m hm
    · exact hall m hm

end Whole

section AsOneCall

variable {attempts : Nat → Attempt} {p : NatsEventPublisher} {dumps : EventPayload → Bytes}
  {event : Event} {o : Except PublishExn Unit} {s : Nat × Trace Client}

/-- The client has taken a message over. -/
def ClientCall.takes : (c : ClientCall) → Except PublishExn c.Resp → Bool
  | .publish _ _, .ok _ => true
  | _, _ => false

/-- The broker may have the message. -/
def handedOver (t : Trace Client) : Bool := t.any fun e => e.call.takes e.resp

/-- What the use cases see of a run that ends with `o` and these calls. A message that has
been taken over is not taken back when the loop raises. -/
def asOutcome (o : Except PublishExn Unit) (t : Trace Client) : Outcome :=
  match o with
  | .ok _ => .works
  | .error e => if handedOver t then .raisesAfter e.str else .raises e.str

/-- An attempt that succeeds has handed its message over. -/
theorem handedOver_triedCalls {a : Attempt} (h : a.Succeeds) (subject : String)
    (payloadBytes : Bytes) : handedOver (triedCalls subject payloadBytes a) = true := by
  rcases h with ⟨hclient, hpublish, _⟩
  simp [handedOver, triedCalls, hclient, hpublish, ClientCall.takes]

/-- Every run that ends is one call to the broker: it returns or raises as the run does, and
it has its effect if a message has been handed over. -/
theorem publisher_one_call (env : Env) (w : World)
    (h : Halts (play attempts) (p.publishFileUploadCompleted dumps event) (0, []) o s) :
    handle env (asOutcome o s.2) (.publishFileUploadCompleted event) w =
      (o.mapError fun e => Exn.infrastructureError e.str,
        if handedOver s.2 = true then (respond env (.publishFileUploadCompleted event) w).2
        else w) := by
  rcases halts_ended h with ⟨b, t₀, _, hcause, hs⟩
  cases o with
  | ok _ =>
      have hsucceeds : (attempts b).Succeeds := by
        cases hcause
        assumption
      have hover : handedOver s.2 = true := by
        rw [hs, handedOver, List.any_append, ← handedOver, ← handedOver,
          handedOver_triedCalls hsucceeds, Bool.or_true]
      rw [hover, if_pos rfl]
      rfl
  | error e =>
      unfold asOutcome
      cases handedOver s.2 with
      | true => rfl
      | false => rfl

end AsOneCall

/-- If the first 1025 attempts fail and more are allowed, the loop ends there, with an error
that is not its own. -/
theorem halts_overflow {p : NatsEventPublisher} (attempts : Nat → Attempt)
    (dumps : EventPayload → Bytes) (event : Event)
    (hfailed : ∀ j ≤ 1024, ¬ (attempts j).Succeeds) (hmore : 1025 < p.maxRetries)
    (hfinite : ∀ j, p.retryDelay.timesTwoPow j ≠ some (.infinity false)) :
    ∃ msg s, Halts (play attempts) (p.publishFileUploadCompleted dumps event) (0, [])
      (.error (.overflowError msg)) s ∧ attemptsIn s.2 = 1025 := by
  have hlimit : binary64.limit = 1024 := rfl
  rcases exists_halts (p := p) attempts dumps event fun j _ _ => hfinite j with ⟨o, s, hhalts⟩
  rcases halts_ended hhalts with ⟨b, t₀, htried, hcause, hs⟩
  have hb : b ≤ 1024 := by
    -- each wait before has been computed
    by_contra hlt
    have hmem : p.retryDelay.timesTwoPow 1024 ∈ (waitsIn t₀).map some := by
      rw [htried.waits]
      exact List.mem_map_of_mem (List.mem_range.2 (not_le.1 hlt))
    rw [FloatFormat.Finite.timesTwoPow_of_le hlimit.le] at hmem
    simp at hmem
  cases hcause with
  | success hsucceeds => exact absurd hsucceeds (hfailed b hb)
  | exhausted e _ hlast => omega
  | overflow msg _ _ hnone =>
      have hend : b = 1024 := by
        refine le_antisymm hb (not_lt.1 fun hlt => ?_)
        rw [FloatFormat.Finite.timesTwoPow_of_lt (hlimit.symm ▸ hlt)] at hnone
        cases hnone
      refine ⟨msg, s, hhalts, ?_⟩
      rcases triedCalls_observed p.subject (dumps (eventPayload event)) (attempts b) with
        ⟨hone, _, _⟩
      rw [hs, attemptsIn_append, htried.count, hone, hend]

/-- The publisher ends, within its limit and on its schedule, if and only if all waits that
the schedule asks for are in the range of the float. -/
theorem publisher_retries (dumps : EventPayload → Bytes) (p : NatsEventPublisher)
    (event : Event) (attempts : Nat → Attempt) :
    (∃ o s, Halts (play attempts) (p.publishFileUploadCompleted dumps event) (0, []) o s ∧
      Retries dumps p event attempts o s.2) ↔ InRange p attempts := by
  constructor
  · intro h
    rcases h with ⟨o, s, hhalts, hretries⟩
    exact hretries.inRange hhalts
  · intro h
    have hwaits : ∀ j, (∀ i ≤ j, ¬ (attempts i).Succeeds) → (j : Int) + 1 < p.maxRetries →
        p.retryDelay.timesTwoPow j ≠ some (.infinity false) := by
      intro j hfailed hmore
      have hlt := (h j (lt_limit_iff.2 ⟨hfailed, hmore⟩)).2
      exact FloatFormat.Finite.timesTwoPow_ne_infinity hlt false
    rcases exists_halts attempts dumps event hwaits with ⟨o, s, hhalts⟩
    exact ⟨o, s, hhalts, h.retries hhalts⟩

namespace Demo

/-- The client has lost its connection, and does not look for another. -/
def disconnected : Attempt where
  isConnected := false
  isReconnecting := false
  publish := .ok ()
  flush := .ok ()

/-- 1026 attempts, without a pause. -/
def publisher : NatsEventPublisher where
  maxRetries := 1026
  retryDelay := ⟨0, 0, 0, by decide, by decide, by decide, by norm_num⟩

def event : Event := ⟨⟨2⟩, ⟨3⟩, "s3://bronze-file-uploads/bronze", 1, "ca978112"⟩

/-- What `json.dumps` gives; the message is handed over in no attempt. -/
def dumps (payload : EventPayload) : Bytes := payload.s3Uri.toUTF8.data.toList

theorem not_succeeds : ¬ disconnected.Succeeds := by
  intro h
  rcases h.1 with h | h
  · cases h
  · cases h

end Demo

/-- One attempt is missing, and the error is another one. -/
theorem publisher_retries_fails :
    (∃ msg s, Halts (play fun _ => Demo.disconnected)
      (Demo.publisher.publishFileUploadCompleted Demo.dumps Demo.event) (0, [])
      (.error (.overflowError msg)) s ∧ attemptsIn s.2 = 1025) ∧
    ¬ ∃ o s, Halts (play fun _ => Demo.disconnected)
      (Demo.publisher.publishFileUploadCompleted Demo.dumps Demo.event) (0, []) o s ∧
      Retries Demo.dumps Demo.publisher Demo.event (fun _ => Demo.disconnected) o s.2 := by
  have hfinite : ∀ j, Demo.publisher.retryDelay.timesTwoPow j ≠ some (.infinity false) := by
    intro j
    have hzero : |Demo.publisher.retryDelay.val| * 2 ^ j < 2 ^ binary64.limit := by
      simp [Demo.publisher]
    exact FloatFormat.Finite.timesTwoPow_ne_infinity hzero false
  have hoverflow := halts_overflow (fun _ => Demo.disconnected) Demo.dumps Demo.event
    (fun _ _ => Demo.not_succeeds) (by decide : (1025 : Int) < Demo.publisher.maxRetries) hfinite
  refine ⟨hoverflow, ?_⟩
  intro hends
  rcases hoverflow with ⟨msg, s, hhalts, _⟩
  rcases hends with ⟨o, s', hhalts', hretries⟩
  rcases hhalts'.unique hhalts with ⟨rfl, rfl⟩
  rcases hretries.raises (by simp) with ⟨msg', hmsg⟩
  cases hmsg

end Nats

end FileUploader
