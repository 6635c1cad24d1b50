import FileUploader.Assembly
import FileUploader.FetchDiscipline

/-! # The declared digest

The digest that is declared at initiate is registered and announced with the committed object,
and nowhere compared with it. So the object has that digest exactly if the chunks that were
cached for the session when its finalize began have it, put one after the other, as long as
nobody else changes them meanwhile.
-/

namespace FileUploader

open Await

variable {env : Env}

/-- The chunks cached for `sid` at 0, 1, 2, … up to the first that is missing have this digest,
put one after the other. -/
def DeclaredCached (env : Env) (w : World) (sid : UUID) (checksum : String) : Prop :=
  ∃ datas, RunFrom (w.fetched? sid) 0 datas ∧ lower (env.sha256 datas.flatten) = lower checksum

/-- The chunks of `sid` change by a call of request `i` only: no other request stores or deletes
one, and none expires. -/
def leavesChunks (i : Nat) (sid : UUID) (c : Run env) (l : Label (service env)) : Prop :=
  (∃ out, l = .call i out) ∨ ∀ c', c.step l = some c' → c'.world.fetched? sid = c.world.fetched? sid

/-- A finalize does not change the chunks itself before it deletes them. -/
theorem handle_fetched? {l : FetchLocal} {sid : UUID} {cl : Call} (w : World) (out : Outcome)
    (hop : l.op = .finalize sid) (hallow : l.allows cl)
    (hpurged : (l.next cl (handle env out cl w).1).purged = false) :
    (handle env out cl w).2.fetched? sid = w.fetched? sid := by
  funext k
  rcases handle_chunk? env out cl w sid k with ⟨hchunk, hmeta⟩ | ⟨chunk, rfl, _⟩ | ⟨rfl, _⟩
  · simp only [World.fetched?, RedisChunkRepository.get, hchunk, hmeta]
  · exact absurd hop (hallow sid)
  · cases hpurged

/-- While nobody else changes the chunks, a finalize looks them up as they were when it began. -/
structure SeenSince (w₀ : World) (sid : UUID) (calls : Log env) (w : World) : Prop where
  now : (fetchDiscipline.replay (FetchLocal.start (.finalize sid)) calls).purged = false →
    w.fetched? sid = w₀.fetched? sid
  looked : ∀ e ∈ calls, ∀ index, e.call = .chunkGet sid index →
    e.world.fetched? sid = w₀.fetched? sid

section Step

variable {w₀ w : World} {sid : UUID} {calls : Log env}

/-- After a call of the finalize itself. -/
theorem SeenSince.next (h : SeenSince w₀ sid calls w) (i : Nat) {cl : Call} (out : Outcome)
    (hop : (fetchDiscipline.replay (FetchLocal.start (.finalize sid)) calls).op = .finalize sid)
    (hallow : (fetchDiscipline.replay (FetchLocal.start (.finalize sid)) calls).allows cl) :
    SeenSince w₀ sid (calls ++ [⟨i, cl, (handle env out cl w).1, (handle env out cl w).2⟩])
      (handle env out cl w).2 := by
  constructor
  · intro hpurged
    rw [replay_append] at hpurged
    rw [handle_fetched? w out hop hallow hpurged]
    exact h.now (FetchLocal.next_purged hpurged)
  · intro e he index hcall
    rcases List.mem_append.1 he with he | he
    · exact h.looked e he index hcall
    · rw [List.mem_singleton.1 he] at hcall ⊢
      simp only at hcall
      subst hcall
      -- a chunk is looked up before the chunks are deleted, and stays
      rcases hallow with ⟨_, _, _, hpurged⟩
      have hsame : (handle env out (.chunkGet sid index) w).2 = w := by cases out <;> rfl
      rw [hsame]
      exact h.now hpurged

end Step

theorem reach_seenSince {now : Nat} {c₀ c : Run env} {i : Nat} {sid : UUID}
    (h₀ : Reach (fun _ _ => True) (Config.start (World.empty now)) c₀)
    (hbegins : callsOf i c₀.log = []) (h : Reach (leavesChunks i sid) c₀ c)
    (hop : ∀ op, c.ops[i]? = some op → op = .finalize sid) :
    SeenSince c₀.world sid (callsOf i c.log) c.world := by
  induction h with
  | start => exact ⟨fun _ => rfl, by simp [hbegins]⟩
  | @step c c' l hreach hg hs ih =>
      have hstep : Reach (leavesChunks i sid) c c' := .step .start hg hs
      have hsince := ih fun op h => hop op (hstep.ops_kept h)
      -- a step that is not of the finalize
      have hother : (∀ out, l ≠ .call i out) → callsOf i c'.log = callsOf i c.log →
          SeenSince c₀.world sid (callsOf i c'.log) c'.world := by
        intro hl hlog
        have hsame : c'.world.fetched? sid = c.world.fetched? sid := by
          rcases hg with ⟨out, rfl⟩ | hsame
          · exact absurd rfl (hl out)
          · exact hsame c' hs
        rw [hlog]
        exact ⟨fun hpurged => hsame.trans (hsince.now hpurged), hsince.looked⟩
      rcases step_cases hs with ⟨op, rfl, rfl⟩ | ⟨m, rfl, rfl⟩ |
        ⟨j, op, A, B, body, a, k, rfl, hreq, rfl⟩ | ⟨j, out, op, cl, k, rfl, hreq, rfl⟩
      · exact hother (by simp) rfl
      · exact hother (by simp) rfl
      · exact hother (by simp) rfl
      · by_cases hj : j = i
        · subst hj
          have hop' : op = .finalize sid := hop op (hstep.ops_kept (ops_getElem? hreq))
          subst hop'
          have hrun := h₀.trans (hreach.mono fun _ _ _ => trivial)
          have hallow := ((reach_fetched hrun).2 j _ _ hreq).1
          have hcalls : callsOf j (c.answer j (.finalize sid) cl k out).log =
              callsOf j c.log ++ [⟨j, cl, (handle env out cl c.world).1,
                (handle env out cl c.world).2⟩] := callsOf_append_self c.log ⟨j, cl, _, _⟩
          rw [hcalls]
          exact hsince.next j out (fetchedBy_op c.scene j (.finalize sid)) hallow
        · refine hother (fun out' h => hj ?_) (callsOf_append_other c.log _ hj)
          cases h
          rfl

/-- In every run, a finalize that has returned a URI has read one session, committed one object
there, registered it and announced it, each once and with the session's digest; the object is
the concatenation of the payloads that it has found cached at 0, 1, 2, … Unless others change
the chunks of the session after the finalize has begun, the object has the digest of the
session if and only if the chunks that were cached then have it. -/
theorem committed_digest {now : Nat} {c₀ c : Run env} {i : Nat} {sid : UUID} {s3Uri : String}
    (h₀ : Reach (fun _ _ => True) (Config.start (World.empty now)) c₀)
    (hbegins : callsOf i c₀.log = []) (h : Reach (fun _ _ => True) c₀ c)
    (hop : c.ops[i]? = some (.finalize sid))
    (hres : c.result i = some (.ok (.finalized s3Uri))) :
    ∃ (s : UploadSession) (object : Bytes), readsOf (callsOf i c.log) = [s] ∧
      commitsOf (callsOf i c.log) = [(s.tenantId, s.fileId, s3Uri, object)] ∧
      registrationsOf (callsOf i c.log) = [(s.tenantId, s.checksum, s3Uri)] ∧
      announcementsOf (callsOf i c.log) =
        [⟨s.tenantId, s.fileId, s3Uri, s.totalSize, s.checksum⟩] ∧
      (∃ datas : List Bytes, object = datas.flatten ∧
        chunksOf (callsOf i c.log) = datas.mapIdx fun n data => (sid, (n : Int), data)) ∧
      (Reach (leavesChunks i sid) c₀ c →
        (lower (env.sha256 object) = lower s.checksum ↔
          DeclaredCached env c₀.world sid s.checksum)) := by
  have hrun := h₀.trans h
  rcases committed_once hrun hop hres with
    ⟨s, datas, hreads, hcommits, hregs, hanns, hchunks, hdatas⟩
  refine ⟨s, _, hreads, hcommits, hregs, hanns, ⟨datas, rfl, hchunks⟩, fun hleaves => ?_⟩
  -- the finalize has fetched the run of chunks that was cached when it began
  rcases reach_fetched hrun with ⟨hfetched, hobeys⟩
  have hwhole : (fetchedBy c.scene i (.finalize sid)).whole = true :=
    hobeys i _ _ (request_of_result hop hres) _ rfl
  have hsince := reach_seenSince h₀ hbegins hleaves fun op h => Option.some.inj (h.symm.trans hop)
  have hcached : RunFrom (c₀.world.fetched? sid) 0 datas := by
    rw [hdatas, ← fetchedBy_found]
    exact (hfetched i _ hop).run (fetchedBy_op c.scene i _) hwhole hsince.looked
  constructor
  · intro hdigest
    exact ⟨datas, hcached, hdigest⟩
  · rintro ⟨datas', hcached', hdigest⟩
    rw [hcached.unique hcached']
    exact hdigest

/-! ## Concrete runs -/

/-- Steps of request `i`, and new requests: what nobody else changes, stays. -/
def Demo.alone (i : Nat) : Label (service env) → Bool
  | .call j _ => j = i
  | .spawn _ | .unroll _ => true
  | .move _ => false

theorem leavesChunks_of_alone {i : Nat} {c : Run env} {l : Label (service env)} (sid : UUID)
    (h : Demo.alone i l = true) : leavesChunks i sid c l := by
  cases l with
  | spawn op =>
      right
      rintro _ ⟨rfl⟩
      rfl
  | unroll j =>
      right
      intro c' hs
      rcases step_cases hs with ⟨_, h, _⟩ | ⟨_, h, _⟩ | ⟨_, _, _, _, _, _, _, _, _, rfl⟩ |
        ⟨_, _, _, _, _, h, _⟩
      · cases h
      · cases h
      · rfl
      · cases h
  | call j out => exact Or.inl ⟨out, by rw [of_decide_eq_true h]⟩
  | move d => cases h

/-- A file that is the declared one. -/
theorem committed_digest_demo :
    ∃ (c : Run Demo.env) (s : UploadSession) (object : Bytes),
      commitsOf (callsOf 2 c.log) = [(s.tenantId, s.fileId, Demo.s3Uri, object)] ∧
      registrationsOf (callsOf 2 c.log) = [(s.tenantId, s.checksum, Demo.s3Uri)] ∧
      lower (Demo.env.sha256 object) = lower s.checksum := by
  have h : ((Config.start (World.empty 0)).play (fun _ _ => true)
      (Demo.oneUploaded (Demo.sha256 Demo.a))).any (fun c₀ =>
        (callsOf 2 c₀.log = [] ∧ c₀.world.fetched? Demo.sid 0 = some Demo.a ∧
          c₀.world.fetched? Demo.sid 1 = none) &&
        (c₀.play (fun _ => Demo.alone 2) Demo.oneFinalized).any (fun c =>
          c.ops[2]? = some (.finalize Demo.sid) ∧
            c.result 2 = some (.ok (.finalized Demo.s3Uri)) ∧
            readsOf (callsOf 2 c.log) =
              [⟨Demo.sid, Demo.tenant, Demo.file, 1, 1, Demo.sha256 Demo.a, .uploading⟩])) =
        true := by
    decide +kernel
  rcases exists_of_play (fun _ _ _ => trivial) _ h with ⟨c₀, hc₀, hcheck⟩
  simp only [Bool.and_eq_true, decide_eq_true_eq] at hcheck
  rcases hcheck with ⟨⟨hbegins, hfirst, hgap⟩, hplay⟩
  rcases exists_of_play (fun _ _ => leavesChunks_of_alone Demo.sid) _ hplay with ⟨c, hc, hcheck⟩
  simp only [decide_eq_true_eq] at hcheck
  rcases hcheck with ⟨hop, hres, hreads⟩
  rcases committed_digest hc₀ hbegins (hc.mono fun _ _ _ => trivial) hop hres with
    ⟨s, object, hs, hcommits, hregs, _, _, hdigest⟩
  rw [hreads] at hs
  cases hs
  refine ⟨c, _, object, hcommits, hregs, (hdigest hc).2 ⟨[Demo.a], ⟨hfirst, hgap⟩, ?_⟩⟩
  decide +kernel

/-- Without the condition, a file is committed under a digest that is not its own: `a` is
registered and announced as a file with the digest of `b`. -/
theorem committed_digest_fails :
    ∃ c : Run Demo.env, Reach (fun _ _ => True) (Config.start (World.empty 0)) c ∧
      c.ops[2]? = some (.finalize Demo.sid) ∧
      c.result 2 = some (.ok (.finalized Demo.s3Uri)) ∧
      commitsOf (callsOf 2 c.log) = [(Demo.tenant, Demo.file, Demo.s3Uri, Demo.a)] ∧
      registrationsOf (callsOf 2 c.log) = [(Demo.tenant, Demo.sha256 Demo.b, Demo.s3Uri)] ∧
      announcementsOf (callsOf 2 c.log) =
        [⟨Demo.tenant, Demo.file, Demo.s3Uri, 1, Demo.sha256 Demo.b⟩] ∧
      lower (Demo.env.sha256 Demo.a) ≠ lower (Demo.sha256 Demo.b) := by
  have h : ((Config.start (World.empty 0)).play (fun _ _ => true)
      (Demo.oneByte (Demo.sha256 Demo.b))).any (fun c =>
        c.ops[2]? = some (.finalize Demo.sid) ∧
          c.result 2 = some (.ok (.finalized Demo.s3Uri)) ∧
          commitsOf (callsOf 2 c.log) = [(Demo.tenant, Demo.file, Demo.s3Uri, Demo.a)] ∧
          registrationsOf (callsOf 2 c.log) = [(Demo.tenant, Demo.sha256 Demo.b, Demo.s3Uri)] ∧
          announcementsOf (callsOf 2 c.log) =
            [⟨Demo.tenant, Demo.file, Demo.s3Uri, 1, Demo.sha256 Demo.b⟩] ∧
          lower (Demo.env.sha256 Demo.a) ≠ lower (Demo.sha256 Demo.b)) = true := by
    decide +kernel
  rcases exists_of_play (fun _ _ _ => trivial) _ h with ⟨c, hc, hcheck⟩
  exact ⟨c, hc, by simpa using hcheck⟩

end FileUploader
