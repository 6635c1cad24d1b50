import FileUploader.Assembly
import FileUploader.ScanBeforeCommit

/-! # Write ordering

A finalize first commits the object, then registers it, then announces it, and only
then removes the session and its chunks. Any call may raise, with or without its
effect, and any request may stop for good after any of its calls: at every point of
every run, what a later write tells of an earlier one is true.
-/

namespace FileUploader

open Await S3ObjectStorage

variable {env : Env}

/-! ## What the writes say -/

/-- There is an object at this URI. -/
def Stored (env : Env) (w : World) (s3Uri : String) : Prop :=
  ∃ key object, s3Uri = uri env key ∧ w.objects key = some object

/-- Dedup entries have no deadline. -/
def Permanent (w : World) : Prop := ∀ t cs entry, w.dedup (t, cs) = some entry → entry.2 = none

theorem Permanent.dedup?_advance {w : World} (h : Permanent w) (d : Nat) (t : UUID) (cs : String) :
    (w.advance d).dedup? t cs = w.dedup? t cs := by
  show w.dedup.get (w.now + d) (t, cs) = w.dedup.get w.now (t, cs)
  unfold ExpiringMap.get
  cases hentry : w.dedup (t, cs) with
  | none => rfl
  | some entry =>
      have hnone := h t cs entry hentry
      rcases entry with ⟨s3Uri, deadline⟩
      simp only at hnone
      rw [hnone]

section Handle

variable {w : World} {cl : Call} {out : Outcome}

/-- A committed object is never removed. -/
theorem Stored.handle {s3Uri : String} (h : Stored env w s3Uri) :
    Stored env (handle env out cl w).2 s3Uri := by
  rcases h with ⟨key, object, huri, hobject⟩
  rcases handle_objects env out cl w key with hsame | ⟨_, _, _, _, _, datas, _, _, _, _, hnew, _⟩
  · exact ⟨key, object, huri, hsame.trans hobject⟩
  · exact ⟨key, datas.flatten, huri, hnew⟩

theorem Permanent.handle (h : Permanent w) : Permanent (handle env out cl w).2 := by
  intro t cs entry hentry
  rcases handle_dedup env out cl w t cs with hsame | ⟨_, _, _, _, hset⟩
  · exact h t cs entry (hsame.symm.trans hentry)
  · cases hset.symm.trans hentry
    rfl

/-- An entry may be replaced, but is never removed. -/
theorem dedup?_isSome_handle {t : UUID} {cs : String} (h : (w.dedup? t cs).isSome) :
    ((handle env out cl w).2.dedup? t cs).isSome := by
  rcases handle_dedup? env out cl w t cs with hsame | ⟨_, _, _, _, hset⟩
  · rw [hsame]
    exact h
  · rw [hset]
    rfl

/-- A registration that is answered has left its entry. -/
theorem handle_registered {t : UUID} {cs s3Uri : String}
    (h : cl.registered (handle env out cl w).1 = some (t, cs, s3Uri)) :
    ((handle env out cl w).2.dedup? t cs).isSome := by
  cases cl with
  | registerFile t' f uri size cs' =>
      cases out with
      | works =>
          cases h
          rw [show (handle env .works (.registerFile t f s3Uri size cs) w).2.dedup? t cs =
            some s3Uri
            from w.dedup.get_set_forever w.now _ _]
          rfl
      | raises msg => cases h
      | raisesAfter msg => cases h
  | _ => simp [Call.registered] at h

end Handle

/-- What the registry and the broker say of committed objects, and what the running
requests rely on when they go on to say it. -/
structure Ordered (s : Scene (service env)) : Prop where
  permanent : Permanent s.world
  committed : ∀ (i : Nat) (op : Op), s.ops[i]? = some op → ∀ s3Uri,
    (answered s i op).uri = some s3Uri → Stored env s.world s3Uri
  registered : ∀ (i : Nat) (op : Op), s.ops[i]? = some op → (answered s i op).registered = true →
    ∃ v, (answered s i op).copy = some v ∧ (s.world.dedup? v.tenantId v.checksum).isSome
  entries : ∀ t cs s3Uri, s.world.dedup? t cs = some s3Uri → Stored env s.world s3Uri
  announced : ∀ event ∈ s.world.events,
    (s.world.dedup? event.tenantId event.checksum).isSome ∧ Stored env s.world event.s3Uri

section Step

variable {s : Scene (service env)} {i : Nat} {op : Op} {cl : Call} {out : Outcome}

/-- A URI that a request has been answered leads to an object. -/
theorem Ordered.committed_answer (h : Ordered s) (hop : s.ops[i]? = some op)
    (hallow : (answered s i op).allows cl) : ∀ (j : Nat) (op' : Op), s.ops[j]? = some op' →
      ∀ s3Uri, (answered (s.answer i cl out) j op').uri = some s3Uri →
        Stored env (handle env out cl s.world).2 s3Uri := by
  refine answered_forall_answer (P := fun _ _ l => ∀ s3Uri, l.uri = some s3Uri →
    Stored env (handle env out cl s.world).2 s3Uri) hop ?_
    (fun j op' _ hj s3Uri hu => (h.committed j op' hj s3Uri hu).handle)
  intro s3Uri hu
  rw [CommitLocal.next_uri] at hu
  cases hc : cl.completed (handle env out cl s.world).1 with
  | none =>
      rw [hc] at hu
      exact (h.committed i op hop s3Uri hu).handle
  | some s3Uri' =>
      rw [hc] at hu
      cases hu
      cases cl with
      | completeMultipartUpload t f u parts =>
          rcases hr : (handle env out (.completeMultipartUpload t f u parts) s.world).1 with x | a
          · rw [hr] at hc
            cases hc
          · rw [hr] at hc
            cases hc
            rcases handle_completed env out s.world hr with ⟨_, datas, _, _, huri, hobject⟩
            exact ⟨objectKey t f, datas.flatten, huri, hobject⟩
      | _ => simp [Call.completed] at hc

/-- A request that has been answered that its object is registered has its entry. -/
theorem Ordered.registered_answer (h : Ordered s) (hop : s.ops[i]? = some op)
    (hallow : (answered s i op).allows cl) : ∀ (j : Nat) (op' : Op), s.ops[j]? = some op' →
      (answered (s.answer i cl out) j op').registered = true →
      ∃ v, (answered (s.answer i cl out) j op').copy = some v ∧
        ((handle env out cl s.world).2.dedup? v.tenantId v.checksum).isSome := by
  refine answered_forall_answer (P := fun _ _ l => l.registered = true → ∃ v, l.copy = some v ∧
    ((handle env out cl s.world).2.dedup? v.tenantId v.checksum).isSome) hop ?_ ?_
  · intro hreg
    have hkeep : ∀ v, (answered s i op).copy = some v →
        ((answered s i op).next cl (handle env out cl s.world).1).copy = some v := by
      intro v hv
      rw [CommitLocal.next_copy _ hallow, hv]
      rfl
    rw [CommitLocal.next_registered, Bool.or_eq_true] at hreg
    rcases hreg with hreg | hreg
    · rcases h.registered i op hop hreg with ⟨v, hv, hentry⟩
      exact ⟨v, hkeep v hv, dedup?_isSome_handle hentry⟩
    · -- the registration itself
      rcases Option.isSome_iff_exists.1 hreg with ⟨⟨t, cs, s3Uri⟩, hr⟩
      rcases CommitLocal.registers_of_registered hallow hr with ⟨_, v, hv, _, rfl, rfl⟩
      exact ⟨v, hkeep v hv, handle_registered hr⟩
  · intro j op' _ hj hreg
    rcases h.registered j op' hj hreg with ⟨v, hv, hentry⟩
    exact ⟨v, hv, dedup?_isSome_handle hentry⟩

theorem Ordered.answer (h : Ordered s) (hop : s.ops[i]? = some op)
    (hallow : (answered s i op).allows cl) : Ordered (s.answer i cl out) := by
  refine ⟨h.permanent.handle, h.committed_answer hop hallow, h.registered_answer hop hallow,
    ?_, ?_⟩
  · -- what is registered has been committed
    intro t cs s3Uri hentry
    rcases handle_dedup? env out cl s.world t cs with hsame | ⟨f, s3Uri', size, hc, hset⟩
    · exact (h.entries t cs s3Uri (hsame.symm.trans hentry)).handle
    · subst hc
      cases hset.symm.trans hentry
      rcases hallow with ⟨_, v, _, huri, _⟩
      exact (h.committed i op hop s3Uri huri).handle
  · -- what is announced has been registered
    intro event hevent
    -- what was announced before stays registered and stored
    have hold : event ∈ s.world.events →
        ((handle env out cl s.world).2.dedup? event.tenantId event.checksum).isSome ∧
          Stored env (handle env out cl s.world).2 event.s3Uri := by
      intro hmem
      rcases h.announced event hmem with ⟨hentry, hstored⟩
      exact ⟨dedup?_isSome_handle hentry, hstored.handle⟩
    rcases handle_events env out cl s.world with hsame | ⟨event', hc, hmore⟩
    · exact hold (hsame ▸ hevent)
    · have hmem : event ∈ s.world.events ++ [event'] := hmore ▸ hevent
      rcases List.mem_append.1 hmem with hmem | hmem
      · exact hold hmem
      · rw [List.mem_singleton] at hmem
        subst hmem hc
        rcases hallow with ⟨hreg, _, v, hv, huri, ht, _, _, hcs⟩
        rcases h.registered i op hop hreg with ⟨v', hv', hentry⟩
        cases hv.symm.trans hv'
        constructor
        · rw [ht, hcs]
          exact dedup?_isSome_handle hentry
        · exact (h.committed i op hop _ huri).handle

end Step

theorem ordered_inductive : Inductive commitDiscipline CommitLocal.start
    (fun (_ : Run env) _ => True) (fun s => Ordered s) where
  spawn := by
    intro c op _ hwf h
    refine ⟨h.permanent, ?_, ?_, h.entries, h.announced⟩
    · exact answered_forall_spawn (P := fun _ _ l => ∀ s3Uri, l.uri = some s3Uri →
        Stored env c.world s3Uri) hwf (by simp [CommitLocal.start]) h.committed
    · exact answered_forall_spawn (P := fun _ _ l => l.registered = true → ∃ v, l.copy = some v ∧
        (c.world.dedup? v.tenantId v.checksum).isSome) hwf (by simp [CommitLocal.start])
        h.registered
  move := by
    intro c d _ h
    have hsame := h.permanent.dedup?_advance d
    refine ⟨h.permanent, h.committed, ?_, ?_, ?_⟩
    · intro i op hop hreg
      rcases h.registered i op hop hreg with ⟨v, hv, hentry⟩
      exact ⟨v, hv, (congrArg Option.isSome (hsame _ _)).trans hentry⟩
    · intro t cs s3Uri hentry
      exact h.entries t cs s3Uri ((hsame t cs).symm.trans hentry)
    · intro event hevent
      rcases h.announced event hevent with ⟨hentry, hstored⟩
      exact ⟨(congrArg Option.isSome (hsame _ _)).trans hentry, hstored⟩
  call := fun _ _ _ _ _ _ hop _ h hallow => ⟨trivial, h.answer hop hallow⟩

theorem reach_ordered {G : Run env → Label (service env) → Prop} {now : Nat} {c : Run env}
    (h : Reach G (Config.start (World.empty now)) c) : Ordered c.scene := by
  have hinit : Ordered (⟨World.empty now, [], []⟩ : Scene (service env)) :=
    ⟨by simp [Permanent, World.empty, ExpiringMap.empty], by simp, by simp,
      by simp [World.dedup?, World.empty], by simp [World.empty]⟩
  exact ((h.mono fun _ _ _ => trivial).invariant commitPost
    (fun _ op _ => Commit.prog_obeys env op) ordered_inductive hinit).2.1

/-! ## Who removes keys -/

/-- A call that removes the session key or chunk keys. -/
def Call.purges : Call → Bool
  | .deleteAll _ | .sessionDelete _ => true
  | _ => false

namespace CommitLocal

/-- The scanner has been given a chunk with the signature in it. -/
def Detected (l : CommitLocal) : Prop :=
  ∃ data, some data ∈ l.pulls ∧ LocalVirusScanner.eicarSignature <:+: data

/-- A finalize removes keys only once it has detected malware or published its event. -/
def allowsPurge (l : CommitLocal) (c : Call) : Prop :=
  c.purges = true → ∀ sid, l.op = .finalize sid → l.published = true ∨ l.Detected

theorem Detected.next {l : CommitLocal} (h : l.Detected) (c : Call) (r : Except Exn c.Resp) :
    (l.next c r).Detected := by
  rcases h with ⟨data, hmem, hfound⟩
  refine ⟨data, ?_, hfound⟩
  rw [next_pulls]
  exact List.mem_append_left _ hmem

end CommitLocal

/-- The local states of `commitDiscipline`; no collaborator raises `MalwareDetectedError`. -/
def purgeDiscipline : Discipline Collab CommitLocal where
  next := CommitLocal.next
  allows := CommitLocal.allowsPurge
  expects := fun _ _ r => ∀ msg, r ≠ .error (.malwareDetectedError msg)
  loops := fun _ => True

@[simp] theorem purgeDiscipline_next : purgeDiscipline.next = CommitLocal.next := rfl

@[simp] theorem purgeDiscipline_allows : purgeDiscipline.allows = CommitLocal.allowsPurge := rfl

@[simp] theorem purgeDiscipline_expects (l : CommitLocal) (c : Call) (r : Except Exn c.Resp) :
    purgeDiscipline.expects l c r = ∀ msg, r ≠ .error (.malwareDetectedError msg) := rfl

@[simp] theorem purgeDiscipline_loops (l : CommitLocal) : purgeDiscipline.loops l = True := rfl

namespace Purge

open CommitLocal

/-- A call that removes no key is always allowed. -/
@[simp] theorem allowsPurge_of_not {l : CommitLocal} {c : Call} (h : c.purges = false) :
    l.allowsPurge c := by
  intro hpurges
  rw [h] at hpurges
  cases hpurges

/-- The scan raises `MalwareDetectedError` only about a chunk that it was given. -/
theorem scanStream_obeys (sid : UUID) (l : CommitLocal) :
    Obeys purgeDiscipline (LocalVirusScanner.scanStream (ChunkRepository.getStream sid) 0) l
      (fun r l' => ∀ msg, r = .error (.malwareDetectedError msg) → l'.Detected) := by
  refine obeys_loop (fun _ _ => True) trivial (fun _ _ _ => trivial) ?_
  intro index l' _
  simp only [ChunkRepository.getStream, obeys_bind, obeys_await, Prog.onOk_ok, Prog.onOk_error,
    obeys_raise, Option.forall, obeys_pure, purgeDiscipline_next, purgeDiscipline_allows,
    purgeDiscipline_expects]
  refine ⟨allowsPurge_of_not rfl, ?_, ?_, ?_⟩
  · intro x hx msg hr
    cases hr
    exact absurd rfl (hx msg)
  · intro _ msg hr
    cases hr
  · intro data _
    by_cases hempty : data = []
    · simp only [hempty, if_true, obeys_pure, Prog.onOk_ok]
      intro msg hr
      cases hr
    · simp only [hempty, if_false, obeys_pure, Prog.onOk_ok, obeys_bind, obeys_raiseIf,
        Prog.onOk_error, obeys_raise]
      refine ⟨fun hfound _ _ => ⟨data, ?_, hfound⟩, fun _ => trivial⟩
      simp [CommitLocal.next]

theorem scan_obeys (sid : UUID) (s : UploadSession) (l : CommitLocal) :
    Obeys purgeDiscipline (FinalizeUploadUseCase.scan s sid) l (fun _ _ => True) := by
  rw [FinalizeUploadUseCase.scan, obeys_tryExcept]
  refine (scanStream_obeys sid l).mono ?_
  intro r l' hr
  cases r with
  | ok a => simp
  | error x =>
      simp only [Prog.onError_error]
      split
      · -- malware: the handler may remove the keys
        rename_i msg
        have hdetected := hr msg rfl
        simp only [SessionRepository.save, ChunkRepository.deleteAll, SessionRepository.delete,
          obeys_bind, obeys_await, Prog.onOk_ok, Prog.onOk_error, obeys_raise,
          purgeDiscipline_next, purgeDiscipline_allows]
        refine ⟨allowsPurge_of_not rfl, fun _ _ => trivial, fun _ _ => ⟨?_, fun _ _ => trivial,
          fun _ _ => ⟨?_, fun _ _ => trivial, fun _ _ => trivial⟩⟩⟩
        · exact fun _ _ _ => Or.inr (hdetected.next _ _)
        · exact fun _ _ _ => Or.inr ((hdetected.next _ _).next _ _)
      · simp

theorem assemble_obeys (sid : UUID) (s : UploadSession) (l : CommitLocal) :
    Obeys purgeDiscipline (FinalizeUploadUseCase.assemble s sid) l (fun _ _ => True) := by
  have hparts : ∀ uploadId l', Obeys purgeDiscipline
      (FinalizeUploadUseCase.uploadParts s sid uploadId) l' (fun _ _ => True) := by
    intro uploadId l'
    refine obeys_loop (fun _ _ => True) trivial (fun _ _ _ => trivial) ?_
    intro round l' _
    simp [ChunkRepository.get, ObjectStorage.uploadPart, Option.forall, CommitLocal.allowsPurge,
      Call.purges]
  simp only [FinalizeUploadUseCase.assemble, ObjectStorage.initiateMultipartUpload,
    ObjectStorage.completeMultipartUpload, ObjectStorage.abortMultipartUpload,
    SessionRepository.save, obeys_bind, obeys_await, Prog.onOk_ok, Prog.onOk_error, obeys_raise,
    obeys_tryExcept, purgeDiscipline_next, purgeDiscipline_allows]
  refine ⟨allowsPurge_of_not rfl, fun _ _ => trivial, fun uploadId _ => ?_⟩
  refine (hparts uploadId _).mono ?_
  intro r l' _
  cases r with
  | error x => simp [CommitLocal.allowsPurge, Call.purges]
  | ok parts => simp [CommitLocal.allowsPurge, Call.purges]

/-- The cleanup comes after the answer of the publisher. -/
theorem publish_obeys (sid : UUID) (s : UploadSession) (s3Uri : String) (l : CommitLocal) :
    Obeys purgeDiscipline (FinalizeUploadUseCase.publish s sid s3Uri) l (fun _ _ => True) := by
  simp only [FinalizeUploadUseCase.publish, MetadataRegistry.registerFile,
    EventPublisher.publishFileUploadCompleted, ChunkRepository.deleteAll, SessionRepository.delete,
    obeys_bind, obeys_await, obeys_ofExcept, Prog.onOk_ok, Prog.onOk_error, obeys_raise,
    purgeDiscipline_next, purgeDiscipline_allows]
  refine ⟨allowsPurge_of_not rfl, fun _ _ => trivial, fun _ _ =>
    ⟨allowsPurge_of_not rfl, fun _ _ => trivial, fun _ _ => ?_⟩⟩
  cases s.complete with
  | error x => simp
  | ok _ => simp [CommitLocal.allowsPurge, CommitLocal.next]

/-- A finalize removes keys only once it has detected malware or published. -/
theorem finalize_obeys (env : Env) (sid : UUID) :
    Obeys purgeDiscipline (Op.prog env (.finalize sid)) (start (.finalize sid))
      (fun _ _ => True) := by
  -- a release purges nothing
  have hrelease : ∀ (l : CommitLocal) (r : Except Exn String),
      Obeys purgeDiscipline (SessionRepository.releaseLock sid) l (fun r' l' =>
        Obeys purgeDiscipline (Prog.onOk (fun _ => .done r) r') l' (fun r'' l'' =>
          Obeys purgeDiscipline (Prog.onOk (fun uri => pure (Response.finalized uri)) r'')
            l'' (fun _ _ => True))) := by
    intro l r
    cases r <;> simp [SessionRepository.releaseLock, CommitLocal.allowsPurge, Call.purges]
  simp only [Op.prog, FinalizeUploadUseCase.execute, requireSession, SessionRepository.get,
    SessionRepository.acquireLock, obeys_bind, obeys_await, obeys_raiseIf, obeys_tryFinally,
    Prog.onOk_ok, Prog.onOk_error, obeys_raise, obeys_pure, Option.forall, Bool.forall_bool,
    purgeDiscipline_next, purgeDiscipline_allows]
  refine ⟨allowsPurge_of_not rfl, fun _ _ => trivial, fun _ => trivial, fun s _ => ?_⟩
  refine ⟨fun _ => trivial, fun _ => ⟨fun _ => trivial, fun _ => ⟨fun _ => trivial, fun _ =>
    ⟨allowsPurge_of_not rfl, fun _ _ => trivial, fun _ => ⟨fun _ => trivial, fun _ => ?_⟩,
      fun _ => ⟨fun _ => trivial, fun _ => ?_⟩⟩⟩⟩⟩
  all_goals
    refine (scan_obeys sid s _).mono ?_
    intro r l' _
    cases r with
    | error x => exact hrelease l' _
    | ok clean =>
        simp only [Prog.onOk_ok, obeys_bind]
        refine (assemble_obeys sid s l').mono ?_
        intro r l' _
        cases r with
        | error x => exact hrelease l' _
        | ok uri => exact (publish_obeys sid s uri l').mono fun r l' _ => hrelease l' r

/-- Only a finalize has something to keep to. -/
theorem other_obeys (env : Env) (op : Op) (hop : ∀ sid, op ≠ .finalize sid) :
    Obeys purgeDiscipline (Op.prog env op) (start op) (fun _ _ => True) := by
  have hallow : ∀ (l : CommitLocal) (c : Call), l.op = op → l.allowsPurge c := by
    intro l c hl _ sid hfin
    exact absurd (hl.symm.trans hfin) (hop sid)
  have hobeys := obeys_of_allowed (D := purgeDiscipline) (fun l => l.op = op)
    (fun l c r hl => (CommitLocal.next_op l c r).trans hl) hallow (fun _ _ => trivial)
    (Op.prog env op) (l := start op) rfl
  exact hobeys.mono fun _ _ _ => trivial

/-- Every request keeps the discipline. -/
theorem prog_obeys (env : Env) (op : Op) :
    Obeys purgeDiscipline (Op.prog env op) (start op) (fun _ _ => True) := by
  cases op with
  | finalize sid => exact finalize_obeys env sid
  | _ => exact other_obeys env _ (fun _ h => by cases h)

end Purge

/-! ## In a run -/

/-- A finalize that removes keys has been answered before that its event is
published, or has given a chunk with the signature in it to the scanner. -/
def PurgesLate (ops : List Op) (before : Log env) (e : Entry (service env)) : Prop :=
  e.call.purges = true → ∃ op, ops[e.rid]? = some op ∧ ∀ sid, op = .finalize sid →
    (∃ e' ∈ callsOf e.rid before, (e'.call.announced e'.resp).isSome) ∨
    ∃ e' ∈ callsOf e.rid before, ∃ sid' index data, pulled e' = some (sid', index, some data) ∧
      LocalVirusScanner.eicarSignature <:+: data

/-- No collaborator raises `MalwareDetectedError`. -/
theorem handle_ne_malware (out : Outcome) (cl : Call) (w : World) (msg : String) :
    (handle env out cl w).1 ≠ .error (.malwareDetectedError msg) := by
  have hfailed : ∀ msg', failed msg' cl ≠ .error (.malwareDetectedError msg) := by
    intro msg'
    cases cl <;> simp [failed]
  cases out with
  | raises msg' => exact hfailed msg'
  | raisesAfter msg' => exact hfailed msg'
  | works =>
      show (respond env cl w).1 ≠ _
      cases cl with
      | uploadPart t f u n data =>
          simp only [respond, uploadPart]
          split
          · simp
          · split <;> simp
      | completeMultipartUpload t f u parts =>
          rcases completeMultipartUpload_cases env w t f u parts with ⟨x, h⟩ | ⟨_, _, _, _, _, _, h⟩
          · simp [respond, h]
          · simp [respond, h]
      | _ => simp [respond]

/-- What has been answered is in the log. -/
theorem published_logged {s : Scene (service env)} {i : Nat} {op : Op}
    (h : (answered s i op).published = true) :
    ∃ e ∈ callsOf i s.log, (e.call.announced e.resp).isSome := by
  have hany := replay_any (D := commitDiscipline) (·.published)
    (fun c r => (c.announced r).isSome) CommitLocal.next_published (CommitLocal.start op)
    (callsOf i s.log)
  have htrue := hany.symm.trans h
  simp only [CommitLocal.start, Bool.false_or, List.any_eq_true] at htrue
  exact htrue

theorem detected_logged {s : Scene (service env)} {i : Nat} {op : Op}
    (h : (answered s i op).Detected) : ∃ e ∈ callsOf i s.log, ∃ sid index data,
      pulled e = some (sid, index, some data) ∧ LocalVirusScanner.eicarSignature <:+: data := by
  rcases h with ⟨data, hmem, hfound⟩
  have hpulls := replay_flatMap (D := commitDiscipline) (·.pulls)
    (fun c r => ((Call.pulled c r).map fun (p : UUID × Int × Option Bytes) => p.2.2).toList)
    CommitLocal.next_pulls (CommitLocal.start op) (callsOf i s.log)
  have hmem' := (show (answered s i op).pulls = _ from hpulls) ▸ hmem
  simp only [CommitLocal.start, List.nil_append, List.mem_flatMap, Option.mem_toList,
    Option.map_eq_some_iff] at hmem'
  rcases hmem' with ⟨e, he, ⟨sid, index, r⟩, hp, hr⟩
  simp only at hr
  subst hr
  exact ⟨e, he, sid, index, data, hp, hfound⟩

theorem purges_inductive : Inductive purgeDiscipline CommitLocal.start
    (fun (_ : Run env) _ => True) (fun s => Chronicle (PurgesLate s.ops) s.log) where
  spawn := by
    intro c op _ _ h
    refine h.mono ?_
    intro before e hlate hpurges
    rcases hlate hpurges with ⟨op', hop, hrest⟩
    have hlt := (List.getElem?_eq_some_iff.1 hop).1
    exact ⟨op', (List.getElem?_append_left hlt).trans hop, hrest⟩
  move := fun _ _ _ h => h
  call := by
    intro c i op cl out _ hop _ h hallow
    refine ⟨fun msg => handle_ne_malware out cl c.world msg, h.append ?_⟩
    intro hpurges
    refine ⟨op, hop, ?_⟩
    intro sid hfin
    rcases hallow hpurges sid ((answered_op c.scene i op).trans hfin) with hpub | hdet
    · exact Or.inl (published_logged hpub)
    · exact Or.inr (detected_logged hdet)

/-- Write ordering: at every point of every run, whatever calls fail and whichever
requests stop for good, each published event has its dedup entry and its object,
each dedup entry has its object, and a finalize that has removed keys had been
answered by the publisher before, unless it had found malware. -/
theorem write_ordering {now : Nat} {c : Run env}
    (h : Reach (fun _ _ => True) (Config.start (World.empty now)) c) :
    (∀ event ∈ c.world.events, (c.world.dedup? event.tenantId event.checksum).isSome ∧
      Stored env c.world event.s3Uri) ∧
    (∀ t cs s3Uri, c.world.dedup? t cs = some s3Uri → Stored env c.world s3Uri) ∧
    Chronicle (PurgesLate c.ops) c.log := by
  have hordered := reach_ordered h
  have hlate := (h.invariant (fun _ _ _ => True) (fun _ op _ => Purge.prog_obeys env op)
    purges_inductive (chronicle_nil _)).2.1
  exact ⟨hordered.announced, hordered.entries, hlate⟩

/-- A finalize runs to its end, next to an upload that stops for good after one call. -/
theorem write_ordering_demo :
    ∃ c : Run Demo.env, Reach (fun _ _ => True) (Config.start (World.empty 0)) c ∧
      c.world.events ≠ [] ∧
      ((∀ event ∈ c.world.events, (c.world.dedup? event.tenantId event.checksum).isSome ∧
        Stored Demo.env c.world event.s3Uri) ∧
      (∀ t cs s3Uri, c.world.dedup? t cs = some s3Uri → Stored Demo.env c.world s3Uri) ∧
      Chronicle (PurgesLate c.ops) c.log) := by
  have h : ((Config.start (World.empty 0)).play (fun _ _ => true)
      (Demo.storedOnce ++ Demo.scanning 3 1 ++ Demo.committing 3 1)).any
      (fun c => c.world.events ≠ []) = true := by
    decide +kernel
  rcases exists_of_play (fun _ _ _ => trivial) _ h with ⟨c, hc, hevents⟩
  exact ⟨c, hc, by simpa using hevents, write_ordering hc⟩

end FileUploader
