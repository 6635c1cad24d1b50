import FileUploader.DeployedServer
import FileUploader.Footprint

/-! # What Redis holds

Whatever happens to requests (delays, lost answers, locks that run out in the middle of a
request, requests that stop for good), Redis holds nothing but keys of the five formats, with
texts that read back as what the key is for. It also forgets: a lock after ten seconds, and all
else of a session after a day. So no request can block a session for longer than that, and an
abort after it removes every key that is left of the session.
-/

namespace FileUploader

open Await Prog

variable {host : Host}

/-! ## What a key is for -/

namespace Key

/-- How long a value is kept, in milliseconds. -/
def life : Key → Option Nat
  | .session _ => some (RedisSessionRepository.ttl * 1000)
  | .lock _ => some (RedisSessionRepository.lockTtl * 1000)
  | .chunk _ _ | .chunkMeta _ _ => some (RedisChunkRepository.ttl * 1000)
  | .dedup _ _ => none

/-- The value reads as what the key is for. -/
def Reads (value : Bytes) : Key → Prop
  | .session sid =>
      ∃ s, Command.RedisSessionRepository.read (some value) = some s ∧ s.sessionId = sid
  | .lock _ => decode value = some "locked"
  | .chunk _ _ => True
  | .chunkMeta _ _ => ∃ m, pythonJson.loadsMeta value = some m
  | .dedup _ _ => ∃ s3Uri, decode value = some s3Uri

/-- The key is one of those of the session. -/
def ofSession (sid : UUID) : Key → Bool
  | .session sid' | .lock sid' | .chunk sid' _ | .chunkMeta sid' _ => sid' = sid
  | .dedup _ _ => false

theorem ofSession_iff {k : Key} {sid : UUID} :
    k.ofSession sid ↔ k = .session sid ∨ k = .lock sid ∨ k.ofChunks sid := by
  cases k <;> simp [ofSession, ofChunks]

end Key

/-- The value is stored under a key that it is for, for as long as it should. -/
def Kept (key : String) (value : Bytes) (life : Option Nat) : Prop :=
  ∃ k : Key, key = k.str ∧ k.Reads value ∧ life = k.life

theorem kept_session (s : UploadSession) : Kept (sessionKey s.sessionId)
    (pythonJson.dumpsSession (payload s)) (some (RedisSessionRepository.ttl * 1000)) := by
  refine ⟨.session s.sessionId, rfl, ⟨s, ?_, rfl⟩, rfl⟩
  have hne : pythonJson.dumpsSession (payload s) ≠ [] := dumps_ne_nil _
  simp [Command.RedisSessionRepository.read, hne, loadsSession_dumps, ofPayload_payload]

/-! ## The commands that are sent -/

/-- What the command sets is kept as it should be. -/
def Command.Keeps : Command → Prop
  | .set key value ex => Kept key value (ex.map (· * 1000))
  | .setNx key value ex => Kept key value (some (ex * 1000))
  | .execute sets => ∀ e ∈ sets, Kept e.1 e.2.1 (some (e.2.2 * 1000))
  | .get _ | .delete _ | .scan _ _ | .remote _ _ => True

/-- Locks are taken for the default time. -/
def Call.LocksBriefly : Call → Prop
  | .acquireLock _ ttl => ttl = RedisSessionRepository.lockTtl
  | _ => True

@[simp] theorem makes_send {P : Command → Prop} (d : Command) :
    @Makes (Collab.over Command Command.Resp) (no_index d.Resp) P (Command.send d) ↔ P d :=
  makes_await (S := Collab.over Command Command.Resp) d

/-- The repositories keep to it. -/
theorem ofCall_keeps {c : Call} (h : c.LocksBriefly) : Makes Command.Keeps (Command.ofCall c) := by
  cases c with
  | sessionGet sid => exact makes_bind ((makes_send _).2 trivial) fun _ => makes_done _
  | sessionSave s => exact (makes_send _).2 (kept_session s)
  | sessionDelete sid => exact (makes_send _).2 trivial
  | acquireLock sid ttl =>
      have httl : ttl = RedisSessionRepository.lockTtl := h
      subst httl
      exact (makes_send _).2 ⟨.lock sid, rfl, decode_encode _, rfl⟩
  | releaseLock sid => exact (makes_send _).2 trivial
  | chunkSave sid chunk =>
      refine (makes_send _).2 ?_
      intro e he
      simp only [List.mem_cons, List.not_mem_nil, or_false] at he
      rcases he with rfl | rfl
      · exact ⟨.chunk sid chunk.index, rfl, trivial, rfl⟩
      · exact ⟨.chunkMeta sid chunk.index, rfl, ⟨_, loadsMeta_dumps _⟩, rfl⟩
  | chunkGet sid index =>
      refine makes_bind ((makes_send _).2 trivial) fun _ => ?_
      exact makes_bind ((makes_send _).2 trivial) fun _ => makes_done _
  | chunkPull sid index => exact (makes_send _).2 trivial
  | deleteAll sid =>
      refine makes_bind (makes_loop (fun s => ?_) _) fun keys => ?_
      · rcases s with ⟨cursor, keys⟩
        refine makes_bind ((makes_send _).2 trivial) fun answer => ?_
        rcases answer with ⟨cursor', found⟩
        simp only
        split
        · exact makes_done _
        · exact makes_done _
      · unfold Command.RedisChunkRepository.deleteKeys
        split
        · exact makes_done _
        · exact (makes_send _).2 trivial
  | getByChecksum t cs => exact makes_bind ((makes_send _).2 trivial) fun _ => makes_done _
  | registerFile t f s3Uri size cs =>
      exact (makes_send _).2 ⟨.dedup t cs, rfl, ⟨s3Uri, decode_encode _⟩, rfl⟩
  | initiateMultipartUpload t f => exact (makes_send _).2 trivial
  | uploadPart t f u n data => exact (makes_send _).2 trivial
  | completeMultipartUpload t f u parts => exact (makes_send _).2 trivial
  | abortMultipartUpload t f u => exact (makes_send _).2 trivial
  | publishFileUploadCompleted event => exact (makes_send _).2 trivial

theorem prog_locksBriefly (env : Env) (op : Op) : Makes Call.LocksBriefly (Op.prog env op) := by
  cases op with
  | initiate newId t f size cs => exact initiate_makes trivial trivial
  | uploadChunk sid index cs data =>
      exact upload_makes trivial rfl trivial (fun _ => trivial) fun _ => trivial
  | finalize sid =>
      exact finalize_makes trivial rfl trivial (fun _ => trivial) (fun _ => trivial) trivial trivial
        (fun _ => trivial) (fun _ _ => trivial) (fun _ _ _ _ _ => trivial) (fun _ _ _ _ => trivial)
        (fun _ _ _ => trivial) (fun _ _ _ _ _ => trivial) fun _ => trivial
  | abort sid => exact abort_makes trivial rfl trivial trivial trivial
  | query sid => exact query_makes trivial

/-! ## Runs -/

/-- All that Redis holds is kept as it should be, after such a command as before it. -/
theorem handle_keeps {w : Deployment} (h : w.redis.SetBy Kept) {d : Command} (hd : d.Keeps)
    (out : Outcome) : (Command.handle host out d w).2.redis.SetBy Kept := by
  have hrespond : (Command.respond host d w).2.redis.SetBy Kept := by
    cases d with
    | set key value ex => exact h.set hd
    | setNx key value ex => exact h.setNx hd
    | execute sets =>
        have hfold : ∀ {redis : KeyServer String Bytes}, redis.SetBy Kept →
            (sets.foldl (fun redis e => redis.set e.1 e.2.1 (some (e.2.2 * 1000))) redis).SetBy
              Kept := by
          intro redis hredis
          exact List.foldlRecOn sets _ hredis fun redis hredis e he => hredis.set (hd e he)
        exact hfold h
    | delete keys => exact h.delete keys
    | get key => exact h
    | scan cursor pattern => exact h
    | remote c hc => exact h
  cases out with
  | works => exact hrespond
  | raises msg => exact h
  | raisesAfter msg => exact hrespond

theorem keeps_inductive (G : Config (commandLevel host).system → Label (commandLevel host).system →
    Prop) : Inductive (only Command.Keeps) (fun _ => ()) G
      fun s : Scene (commandLevel host).system => s.world.redis.SetBy Kept where
  spawn := fun _ _ _ _ h => h
  move := fun _ d _ h => h.advance d
  call := fun _ _ _ _ out _ _ _ h hd => ⟨trivial, handle_keeps h hd out⟩

theorem reach_keeps {now : Nat} {f : Config (commandLevel host).system}
    (h : Reach (fun _ _ => True) (Config.start (Deployment.empty now)) f) :
    f.world.redis.SetBy Kept := by
  have hprog : ∀ op, Makes Command.Keeps ((commandLevel host).system.prog op) := fun op =>
    makes_implement (prog_locksBriefly host.env op) fun _ hc => ofCall_keeps hc
  exact (h.invariant (fun _ _ _ => True) (fun _ op _ => hprog op) (keeps_inductive _)
    (KeyServer.setBy_empty now)).2.1

/-- In every run of the service in commands, with any interleaving, delays and failures, what
Redis holds is under keys of the five formats and reads as what the key is for, and what it
still holds after a time in which nothing is sent, it has been told to keep for longer. -/
theorem redis_contents {now : Nat} {f : Config (commandLevel host).system}
    (h : Reach (fun _ _ => True) (Config.start (Deployment.empty now)) f) {key : String}
    {value : Bytes} {d : Nat} (hget : (f.world.redis.advance d).get key = some value) :
    ∃ k : Key, key = k.str ∧ k.Reads value ∧ k.life.all (d < ·) := by
  rcases (reach_keeps h).later hget with ⟨_, ⟨k, hkey, hreads, rfl⟩, hall⟩
  exact ⟨k, hkey, hreads, hall⟩

namespace Demo

/-- Two initiates at the same time; the first one does not learn that its session is stored. -/
def initiates : List (Label (commandLevel host).system) :=
  [.spawn (.initiate sid tenant file 1 (sha256 a)), .spawn (.initiate ⟨4⟩ tenant file 1 (sha256 b)),
    .call 0 .works, .call 1 .works, .call 0 (.raisesAfter "Connection reset by peer"),
    .call 1 .works]

end Demo

/-- The session whose client does not know of it: it is there for a day. -/
theorem redis_contents_demo : ∃ (f : Config (commandLevel Demo.host).system) (value : Bytes),
    Reach (fun _ _ => True) (Config.start (Deployment.empty 0)) f ∧
      (f.world.redis.advance 86399999).get (sessionKey Demo.sid) = some value ∧
      ∃ k : Key, sessionKey Demo.sid = k.str ∧ k.Reads value ∧ k.life.all (86399999 < ·) := by
  have h : ((Config.start (Deployment.empty 0)).play (fun _ _ => true) Demo.initiates).any
      (fun f : Config (commandLevel Demo.host).system =>
        ((f.world.redis.advance 86399999).get (sessionKey Demo.sid)).isSome) = true := by
    decide +kernel
  rcases exists_of_play (fun _ _ _ => trivial) _ h with ⟨f, hf, hcheck⟩
  rcases Option.isSome_iff_exists.1 hcheck with ⟨value, hget⟩
  exact ⟨f, value, hf, hget, redis_contents hf hget⟩

/-! ## A session that has been left behind -/

section Abort

variable {w : Deployment} {sid : UUID}

/-- A lock that no request renews is gone after ten seconds. -/
theorem lock_gone (h : w.redis.SetBy Kept) {d : Nat}
    (hd : RedisSessionRepository.lockTtl * 1000 ≤ d) (sid : UUID) :
    (w.redis.advance d).get (lockKey sid) = none := by
  cases hget : (w.redis.advance d).get (lockKey sid) with
  | none => rfl
  | some value =>
      rcases h.later hget with ⟨_, ⟨k, hkey, _, rfl⟩, hall⟩
      have hk : Key.lock sid = k := Key.str_injective hkey
      subst hk
      have hlt : d < RedisSessionRepository.lockTtl * 1000 := of_decide_eq_true hall
      omega

/-- A session that is stored is read. -/
theorem session_read (h : w.redis.SetBy Kept) {value : Bytes}
    (hget : w.redis.get (sessionKey sid) = some value) :
    ∃ s, Command.RedisSessionRepository.read (w.redis.get (sessionKey sid)) = some s := by
  rcases h.later (d := 0) hget with ⟨_, ⟨k, hkey, hreads, _⟩, _⟩
  have hk : Key.session sid = k := Key.str_injective hkey
  subst hk
  rcases hreads with ⟨s, hread, _⟩
  exact ⟨s, by rw [hget, hread]⟩

theorem exec_sessionGet (w : Deployment) (sid : UUID) :
    Exec (commandWorks host) ((SessionRepository.get sid).implement Command.ofCall) w
      (.ok (Command.RedisSessionRepository.read (w.redis.get (sessionKey sid)))) w :=
  exec_implement_await (exec_command (.get (sessionKey sid)) _ ⟨rfl, rfl⟩)

/-- With the lock of the session set. -/
def Deployment.locking (w : Deployment) (sid : UUID) : Deployment :=
  { w with
    redis := w.redis.set (lockKey sid) (encode "locked")
      (some (RedisSessionRepository.lockTtl * 1000)) }

theorem exec_acquireFree (hfree : w.redis.get (lockKey sid) = none) :
    Exec (commandWorks host)
      (Command.ofCall (.acquireLock sid RedisSessionRepository.lockTtl)) w (.ok true)
      (w.locking sid) := by
  rcases w.redis.setNx_cases (lockKey sid) (encode "locked")
    (some (RedisSessionRepository.lockTtl * 1000)) with ⟨_, hheld, _⟩ | ⟨_, hset⟩
  · rw [hfree] at hheld
    cases hheld
  · refine exec_command (.setNx (lockKey sid) (encode "locked") RedisSessionRepository.lockTtl) _ ?_
    rw [Command.respond, hset]
    exact ⟨rfl, rfl⟩

/-- An abort that runs alone removes all keys of the session, and no others. -/
theorem exec_abort {s : UploadSession}
    (hread : Command.RedisSessionRepository.read (w.redis.get (sessionKey sid)) = some s)
    (hfree : w.redis.get (lockKey sid) = none) :
    ∃ w', Exec (commandWorks host) ((AbortUploadUseCase.execute sid).implement Command.ofCall) w
        (.ok ()) w' ∧ w'.outside = w.outside ∧
      ∀ k : Key, w'.redis.get k.str = if k.ofSession sid then none else w.redis.get k.str := by
  have hremoved : ∃ all, Exec (commandWorks host) (Command.RedisChunkRepository.deleteAll sid)
      (w.locking sid) (.ok ()) { w.locking sid with redis := (w.locking sid).redis.delete all } ∧
        Scanned host sid host.slots all (w.locking sid) := exec_deleteAll (w.locking sid) sid
  rcases hremoved with ⟨all, hdelete, hfound⟩
  refine ⟨⟨(((w.locking sid).redis.delete all).delete [sessionKey sid]).delete [lockKey sid],
    w.outside⟩, ?_, rfl, ?_⟩
  · have hsession : Exec (commandWorks host) ((requireSession sid).implement Command.ofCall) w
        (.ok s) w := by
      refine exec_implement_bind (exec_sessionGet w sid) ?_
      rw [hread]
      exact ⟨rfl, rfl⟩
    have hunlocked : Exec (commandWorks host)
        ((raiseIf (true = false) (lockError sid) : Program Unit).implement Command.ofCall)
        (w.locking sid) (.ok ()) (w.locking sid) := by
      rw [raiseIf, if_neg (by simp)]
      exact ⟨rfl, rfl⟩
    refine exec_implement_bind hsession ?_
    refine exec_implement_bind (exec_implement_await (exec_acquireFree hfree)) ?_
    refine exec_implement_bind hunlocked ?_
    exact exec_implement_tryFinally (exec_implement_bind (exec_implement_await hdelete)
      (exec_implement_await (exec_delete _ _))) (exec_implement_await (exec_delete _ _))
  · intro k
    have hget : ∀ (r : KeyServer String Bytes) (keys : List String),
        (r.delete keys).get k.str = if k.str ∈ keys then none else r.get k.str :=
      fun r keys => r.get_delete k.str 0 keys
    have hset : (w.locking sid).redis.get k.str =
        if k = .lock sid then some (encode "locked") else w.redis.get k.str :=
      get_set_key w.redis (.lock sid) k (encode "locked") _ 0
    have hsession : k.str ∈ [sessionKey sid] ↔ k = .session sid := by
      show k.str ∈ [(Key.session sid).str] ↔ _
      rw [List.mem_singleton, Key.str_inj]
    have hlock : k.str ∈ [lockKey sid] ↔ k = .lock sid := by
      show k.str ∈ [(Key.lock sid).str] ↔ _
      rw [List.mem_singleton, Key.str_inj]
    have hchunks : k.ofChunks sid →
        (if k.str ∈ all then none else (w.locking sid).redis.get k.str) = none := by
      intro hk
      by_cases hmem : k.str ∈ all
      · exact if_pos hmem
      · rw [if_neg hmem]
        by_contra hsome
        exact hmem (hfound.visited.all ⟨k, hk, rfl⟩ (Option.isSome_iff_ne_none.2 hsome))
    rw [hget, hget, hget]
    by_cases hown : k.ofSession sid
    · rw [if_pos hown]
      rcases Key.ofSession_iff.1 hown with h | h | h
      · rw [if_pos (hsession.2 h), ite_self]
      · rw [if_pos (hlock.2 h)]
      · rw [hchunks h, ite_self, ite_self]
    · have hother := Key.ofSession_iff.not.1 hown
      simp only [not_or] at hother
      rw [if_neg hown, if_neg (hlock.not.2 hother.2.1), if_neg (hsession.not.2 hother.1),
        if_neg fun hmem => hother.2.2 (hfound.own k hmem), hset, if_neg hother.2.1]

theorem exec_abort_missing
    (hread : Command.RedisSessionRepository.read (w.redis.get (sessionKey sid)) = none) :
    Exec (commandWorks host) ((AbortUploadUseCase.execute sid).implement Command.ofCall) w
      (.error (.entityNotFoundError "UploadSession" sid)) w := by
  refine exec_implement_bind_error (exec_implement_bind (exec_sessionGet w sid) ?_)
  rw [hread]
  exact ⟨rfl, rfl⟩

end Abort

/-- From whatever a run has left behind, with any interleaving, delays and failures, and with
requests that have stopped for good: once no request has been served for ten seconds, an abort
of a session that is stored goes through, and removes every key of that session and no other
one; if the session is not stored, the abort says so and changes nothing. -/
theorem abort_recovers (gateway : Gateway) {now : Nat} {f : Config (commandLevel host).system}
    (h : Reach (fun _ _ => True) (Config.start (Deployment.empty now)) f) (sid : UUID) {d : Nat}
    (hd : 10 * 1000 ≤ d) (authorization : Option String) :
    ∃ response w', (deployedService gateway host).step f.world
        (d, ⟨authorization, .abortUpload sid⟩) response w' ∧
      (((f.world.redis.advance d).get (sessionKey sid) = none ∧
          response = Server.missing sid ∧ w' = f.world.advance d) ∨
        (((f.world.redis.advance d).get (sessionKey sid)).isSome ∧ response = ⟨204, .empty⟩ ∧
          w'.outside = f.world.outside ∧ ∀ k : Key, w'.redis.get k.str =
            if k.ofSession sid then none else (f.world.redis.advance d).get k.str)) := by
  have hkeeps : (f.world.advance d).redis.SetBy Kept := (reach_keeps h).advance d
  have hfree : (f.world.advance d).redis.get (lockKey sid) = none :=
    lock_gone (reach_keeps h) hd sid
  -- the route turns the outcome of the use case into its response
  have hroute : ∀ {o : Except Exn Unit} {w' : Deployment},
      Exec (commandWorks host) ((AbortUploadUseCase.execute sid).implement Command.ofCall)
        (f.world.advance d) o w' →
      (deployedService gateway host).step f.world (d, ⟨authorization, .abortUpload sid⟩)
        (answering (fun _ => ⟨204, .empty⟩) abortUploadClauses o) w' := by
    intro o w' hexec
    show Exec (commandWorks host) ((route _ _ _).implement Command.ofCall) _ _ _
    rw [route_eq, implement_andThen]
    exact (exec_andThen _ _ _).2 ⟨o, w', hexec, rfl, rfl⟩
  cases hget : (f.world.advance d).redis.get (sessionKey sid) with
  | none =>
      have hread : Command.RedisSessionRepository.read
          ((f.world.advance d).redis.get (sessionKey sid)) = none := by
        rw [hget]
        rfl
      exact ⟨_, _, hroute (exec_abort_missing hread), Or.inl ⟨hget, missing_reply sid, rfl⟩⟩
  | some value =>
      rcases session_read hkeeps hget with ⟨s, hread⟩
      rcases exec_abort hread hfree with ⟨w', hexec, houtside, hkeys⟩
      exact ⟨_, w', hroute hexec, Or.inr ⟨Option.isSome_of_eq_some hget, rfl, houtside, hkeys⟩⟩

/-- The session whose client does not know of it is removed. -/
theorem abort_recovers_demo : ∃ (f : Config (commandLevel Demo.host).system) (w' : Deployment),
    f.result 0 = some (.error (.infrastructureError "Connection reset by peer")) ∧
      (deployedService Demo.gateway Demo.host).step f.world
        (10000, ⟨none, .abortUpload Demo.sid⟩) ⟨204, .empty⟩ w' ∧
      w'.redis.get (sessionKey Demo.sid) = none := by
  have h : ((Config.start (Deployment.empty 0)).play (fun _ _ => true) Demo.initiates).any
      (fun f : Config (commandLevel Demo.host).system =>
        f.result 0 = some (.error (.infrastructureError "Connection reset by peer")) ∧
          ((f.world.redis.advance 10000).get (sessionKey Demo.sid)).isSome) = true := by
    decide +kernel
  rcases exists_of_play (fun _ _ _ => trivial) _ h with ⟨f, hf, hcheck⟩
  simp only [decide_eq_true_eq] at hcheck
  rcases abort_recovers Demo.gateway hf Demo.sid (d := 10000) (by decide) none with
    ⟨response, w', hstep, ⟨hnone, _⟩ | ⟨_, rfl, _, hkeys⟩⟩
  · rw [hnone] at hcheck
    cases hcheck.2
  · refine ⟨f, w', hcheck.1, hstep, (hkeys (.session Demo.sid)).trans (if_pos ?_)⟩
    decide

end FileUploader
