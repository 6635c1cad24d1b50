import FileUploader.CommitDiscipline
import FileUploader.Footprint

/-! # The dedup registry and the event log

A finalize registers the committed object before it announces it, so an entry may
outlive a finalize that has announced nothing. Which call has written an entry, and
what else its finalize has told about the object, is an invariant of every run; that
an entry found has been announced is one only under a condition.
-/

namespace FileUploader

open Await

variable {env : Env}

/-! ## Who has written an entry -/

/-- A registration for this tenant and checksum that is stored after the call. -/
def writesEntry (t : UUID) (cs : String) (e : Entry (service env)) : Bool :=
  match e.call with
  | .registerFile t' _ uri _ cs' => t' = t ∧ cs' = cs ∧ e.world.dedup? t cs = some uri
  | _ => false

theorem writesEntry_spec {t : UUID} {cs : String} {e : Entry (service env)}
    (h : writesEntry t cs e = true) :
    ∃ f uri size, e.call = .registerFile t f uri size cs ∧ e.world.dedup? t cs = some uri := by
  unfold writesEntry at h
  split at h
  · rename_i t' f uri size cs' hc
    simp only [decide_eq_true_eq] at h
    rcases h with ⟨rfl, rfl, hentry⟩
    exact ⟨f, uri, size, hc, hentry⟩
  · cases h

/-- The call that has written the entry of this tenant and checksum. -/
def lastWrite (t : UUID) (cs : String) (log : Log env) : Option (Entry (service env)) :=
  (log.filter (writesEntry t cs)).getLast?

theorem lastWrite_append (t : UUID) (cs : String) (log : Log env) (e : Entry (service env)) :
    lastWrite t cs (log ++ [e]) = if writesEntry t cs e then some e else lastWrite t cs log := by
  unfold lastWrite
  rw [List.filter_append]
  by_cases h : writesEntry t cs e <;> simp [h]

/-- Entries are written by registrations, and what is registered or announced is what
the session of that request says of its committed object. -/
structure Registered (s : Scene (service env)) : Prop where
  written : ∀ t cs uri, s.world.dedup? t cs = some uri → ∃ e f size,
    lastWrite t cs s.log = some e ∧ e.call = .registerFile t f uri size cs
  stated : ∀ e ∈ s.log, ∀ event, e.call.states = some event → ∃ op, s.ops[e.rid]? = some op ∧
    (answered s e.rid op).Registers event.tenantId event.fileId event.s3Uri event.totalSize
      event.checksum
  kept : ∀ e ∈ s.log, ∀ event ∈ e.world.events, event ∈ s.world.events

section Step

variable {s : Scene (service env)} {i : Nat} {op : Op} {cl : Call} {out : Outcome}

theorem mem_events_handle {w : World} {event : Event} (h : event ∈ w.events) :
    event ∈ (handle env out cl w).2.events := by
  rcases handle_events env out cl w with hsame | ⟨e, _, hmore⟩
  · rw [hsame]
    exact h
  · rw [hmore]
    exact List.mem_append_left _ h

/-- A call keeps the registry and the log in step: what is registered has been committed by the
request that registers it. -/
theorem Registered.answer (h : Registered s) (hop : s.ops[i]? = some op)
    (hallow : (answered s i op).allows cl) : Registered (s.answer i cl out) := by
  have hlog : (s.answer i cl out).log = s.log ++
    [⟨i, cl, (handle env out cl s.world).1, (handle env out cl s.world).2⟩] := rfl
  refine ⟨?_, ?_, ?_⟩
  · intro t cs uri huri
    rw [hlog, lastWrite_append]
    split
    · -- the call has written the entry
      rename_i hwrites
      rcases writesEntry_spec hwrites with ⟨f, uri', size, hc, hentry⟩
      have heq : uri' = uri := Option.some.inj (hentry.symm.trans huri)
      subst heq
      exact ⟨_, f, size, rfl, hc⟩
    · rename_i hwrites
      -- the entry is an old one: no other call writes it
      rcases handle_dedup? env out cl s.world t cs with hsame | ⟨f, uri', size, hc, hset⟩
      · exact h.written t cs uri (hsame.symm.trans huri)
      · subst hc
        simp [writesEntry, hset] at hwrites
  · -- what was stated before is still so, and this call states what its session says
    have hold : ∀ e ∈ s.log, ∀ event, e.call.states = some event →
        ∃ op', s.ops[e.rid]? = some op' ∧ (answered (s.answer i cl out) e.rid op').Registers
          event.tenantId event.fileId event.s3Uri event.totalSize event.checksum := by
      intro e he event hstates
      rcases h.stated e he event hstates with ⟨op', hop', hreg⟩
      refine ⟨op', hop', ?_⟩
      by_cases hi : e.rid = i
      · rw [hi] at hop' hreg ⊢
        rw [hop] at hop'
        cases hop'
        rw [answered_answer_self]
        exact hreg.next hallow
      · rw [answered_answer_other s i cl out hi]
        exact hreg
    intro e he event hstates
    rw [hlog, List.mem_append, List.mem_singleton] at he
    rcases he with he | rfl
    · exact hold e he event hstates
    · refine ⟨op, hop, ?_⟩
      rw [answered_answer_self]
      exact (CommitLocal.registers_of_states hallow hstates).next hallow
  · intro e he event hevent
    rw [hlog, List.mem_append, List.mem_singleton] at he
    rcases he with he | rfl
    · exact mem_events_handle (h.kept e he event hevent)
    · exact hevent

end Step

theorem Registered.spawn {c : Run env} (h : Registered c.scene) (op : Op) :
    Registered (⟨c.world, c.ops ++ [op], c.log⟩ : Scene (service env)) := by
  refine ⟨h.written, ?_, h.kept⟩
  intro e he event hstates
  rcases h.stated e he event hstates with ⟨op', hop', hreg⟩
  have hlt := (List.getElem?_eq_some_iff.1 hop').1
  exact ⟨op', (List.getElem?_append_left hlt).trans hop', hreg⟩

theorem Registered.move {c : Run env} (h : Registered c.scene) (d : Nat) :
    Registered (⟨c.world.advance d, c.ops, c.log⟩ : Scene (service env)) := by
  refine ⟨?_, h.stated, h.kept⟩
  intro t cs uri huri
  exact h.written t cs uri (c.world.dedup.get_of_get_later (Nat.le_add_right _ d) huri)

/-! ## Dedup implies announced -/

/-- Request `i` has made its call to the publisher, and its event is in the log of
the broker after it. -/
def announcedBy (i : Nat) (log : Log env) : Bool :=
  (callsOf i log).any fun e =>
    match e.call with
    | .publishFileUploadCompleted event => event ∈ e.world.events
    | _ => false

/-- The publish call of the request has put its event on the stream. -/
theorem announcedBy_spec {i : Nat} {log : Log env} (h : announcedBy i log = true) :
    ∃ e ∈ log, e.rid = i ∧ ∃ event, e.call = .publishFileUploadCompleted event ∧
      event ∈ e.world.events := by
  simp only [announcedBy, List.any_eq_true, mem_callsOf] at h
  rcases h with ⟨e, ⟨he, hi⟩, hcall⟩
  split at hcall
  · rename_i event hc
    exact ⟨e, he, hi, event, hc, by simpa using hcall⟩
  · cases hcall

/-- The registry is asked for an entry only after the finalize that has written it has made its
call to the publisher, with the event in the log of the broker. -/
def findsAnnounced (c : Run env) : Label (service env) → Bool
  | .call i _ =>
      match c.pending i with
      | some (.getByChecksum t cs) => (lastWrite t cs c.log).all fun e => announcedBy e.rid c.log
      | _ => true
  | _ => true

/-- An event that announces this file has been published. -/
def Published (w : World) (t : UUID) (cs s3Uri : String) : Prop :=
  ∃ event ∈ w.events, event.tenantId = t ∧ event.checksum = cs ∧ event.s3Uri = s3Uri

/-- An entry whose finalize has published announces its own URI. -/
theorem Registered.published {s : Scene (service env)} (h : Registered s) {t : UUID}
    {cs s3Uri : String} (hentry : s.world.dedup? t cs = some s3Uri)
    (hann : ∀ e, lastWrite t cs s.log = some e → announcedBy e.rid s.log = true) :
    Published s.world t cs s3Uri := by
  rcases h.written t cs s3Uri hentry with ⟨e, f, size, hlast, hc⟩
  have he : e ∈ s.log := by
    have hmem := List.mem_of_getLast? hlast
    exact (List.mem_filter.1 hmem).1
  rcases announcedBy_spec (hann e hlast) with ⟨e', he', hi, event, hc', hevent⟩
  rcases h.stated e he ⟨t, f, s3Uri, size, cs⟩ (by rw [hc]; rfl) with ⟨op, hop, v, hv, huri, ht, _,
    _, hcs⟩
  rcases h.stated e' he' event (by rw [hc']; rfl) with ⟨op', hop', v', hv', huri', ht', _, _, hcs'⟩
  -- the same request, so the same session and the same object
  rw [hi, hop] at hop'
  cases hop'
  rw [hi] at hv' huri'
  have hsession : v = v' := Option.some.inj (hv.symm.trans hv')
  have hobject : s3Uri = event.s3Uri := Option.some.inj (huri.symm.trans huri')
  subst hsession
  exact ⟨event, h.kept e' he' event hevent, ht'.trans ht.symm, hcs'.trans hcs.symm, hobject.symm⟩

/-- Every initiate that has found an entry has found an announced one. -/
structure Announced (s : Scene (service env)) : Prop where
  registered : Registered s
  found : ∀ (i : Nat) (op : Op), s.ops[i]? = some op → ∀ newId t f size cs,
    op = .initiate newId t f size cs → ∀ s3Uri, (answered s i op).found = some s3Uri →
      Published s.world t cs s3Uri

/-- If every lookup finds entries that have been announced, then whoever is told of an entry is
told of a file that is on the stream. -/
theorem announced_inductive : Inductive commitDiscipline CommitLocal.start
    (fun (c : Run env) l => findsAnnounced c l) (fun s => Announced s) where
  spawn := by
    intro c op _ hwf h
    refine ⟨h.registered.spawn op, ?_⟩
    exact answered_forall_spawn (P := fun _ op' l => ∀ newId t f size cs,
      op' = .initiate newId t f size cs → ∀ s3Uri, l.found = some s3Uri →
        Published c.world t cs s3Uri) hwf (by simp [CommitLocal.start]) h.found
  move := fun c d _ h => ⟨h.registered.move d, h.found⟩
  call := by
    intro c i op cl out hg hop hpending h hallow
    refine ⟨trivial, h.registered.answer hop hallow, ?_⟩
    have hkept : ∀ {t : UUID} {cs s3Uri : String}, Published c.world t cs s3Uri →
        Published (handle env out cl c.world).2 t cs s3Uri := by
      intro t cs s3Uri hpub
      rcases hpub with ⟨event, hevent, hrest⟩
      exact ⟨event, mem_events_handle hevent, hrest⟩
    have hscene : c.scene.ops[i]? = some op := hop
    refine answered_forall_answer (P := fun _ op' l => ∀ newId t f size cs,
      op' = .initiate newId t f size cs → ∀ s3Uri, l.found = some s3Uri →
        Published (handle env out cl c.world).2 t cs s3Uri) hscene ?_ ?_
    · intro newId t f size cs hinit s3Uri hfound
      rcases CommitLocal.next_found hfound with hwas | hnow
      · exact hkept (h.found i op hop newId t f size cs hinit s3Uri hwas)
      · -- the lookup itself
        rcases handle_looked env out cl c.world hnow with ⟨t', cs', hc, hentry⟩
        subst hc
        rcases hallow with ⟨newId', f', size', hop'⟩
        rw [answered_op, hinit] at hop'
        cases hop'
        refine hkept (h.registered.published hentry ?_)
        intro e hlast
        simp only [findsAnnounced, hpending] at hg
        have hlast' : lastWrite t cs c.log = some e := hlast
        rw [hlast'] at hg
        exact hg
    · intro j op' _ hj newId t f size cs hinit s3Uri hfound
      exact hkept (h.found j op' hj newId t f size cs hinit s3Uri hfound)

/-- Dedup implies announced: over all interleavings and failures, an initiate returns
an existing URI only after an event with its tenant, checksum and URI has been
published, if the registry is asked only for entries whose finalize has published. -/
theorem dedup_announced {now : Nat} {c : Run env} {i : Nat} {newId t f : UUID} {size : Int}
    {cs s3Uri : String}
    (h : Reach (fun c l => findsAnnounced c l) (Config.start (World.empty now)) c)
    (hop : c.ops[i]? = some (.initiate newId t f size cs))
    (hres : c.result i = some (.ok (.initiated (none, some s3Uri)))) :
    Published c.world t cs s3Uri := by
  have hinit : Announced (⟨World.empty now, [], []⟩ : Scene (service env)) :=
    ⟨⟨by simp [World.dedup?, World.empty], by simp, by simp⟩, by simp⟩
  rcases h.invariant commitPost (fun _ op _ => Commit.prog_obeys env op) announced_inductive
    hinit with ⟨_, hinv, hobeys⟩
  have hpost := hobeys i _ _ (request_of_result hop hres) s3Uri rfl
  exact hinv.found i _ hop newId t f size cs rfl s3Uri hpost

/-! ## When an entry is not announced -/

/-- The request has registered its object and has not called the publisher. -/
def Call.owes (owes : Bool) : (c : Call) → Except Exn c.Resp → Bool
  | .registerFile .., .ok _ => true
  | .publishFileUploadCompleted _, _ => false
  | _, _ => owes

/-- What has been registered is announced by the very next call. -/
def owing : Discipline Collab Bool where
  next := Call.owes
  allows := fun owes c => owes = true → ∃ event, c = .publishFileUploadCompleted event
  expects := fun _ _ _ => True
  loops := fun owes => owes = false

@[simp] theorem owing_next : owing.next = Call.owes := rfl

@[simp] theorem owing_allows (owes : Bool) (c : Call) :
    owing.allows owes c ↔ (owes = true → ∃ event, c = .publishFileUploadCompleted event) := Iff.rfl

/-- The call tells neither the registry nor the publisher about a committed object. -/
def Call.tellsNothing (c : Call) : Prop := c.states = none

/-- What makes such calls only owes nothing. -/
theorem keeps_owing {α : Type} {p : Program α} (h : Makes Call.tellsNothing p) :
    Obeys owing p false (fun _ owes => owes = false) := by
  refine h.obeys (fun _ _ h => by cases h) ?_ rfl
  intro c r hc
  cases c with
  | registerFile t f s3Uri size cs => cases hc
  | publishFileUploadCompleted event => cases hc
  | _ => rfl

/-- Nothing comes between the registration and the publish call. -/
theorem publish_owing {s : UploadSession} {sid : UUID} {s3Uri : String} :
    Obeys owing (FinalizeUploadUseCase.publish s sid s3Uri) false (fun _ owes => owes = false) := by
  simp only [FinalizeUploadUseCase.publish, MetadataRegistry.registerFile,
    EventPublisher.publishFileUploadCompleted, ChunkRepository.deleteAll, SessionRepository.delete,
    obeys_bind, obeys_await, obeys_ofExcept, Prog.onOk_ok, Prog.onOk_error, obeys_raise,
    owing_next, owing_allows]
  refine ⟨by simp, fun _ _ => rfl, fun _ _ => ⟨fun _ => ⟨_, rfl⟩, fun _ _ => rfl, fun _ _ => ?_⟩⟩
  cases s.complete with
  | error x => rfl
  | ok _ => simp [Call.owes]

/-- A finalize owes a publish call from its registration on, and for no other reason. -/
theorem finalize_owing (env : Env) (sid : UUID) :
    Obeys owing (Op.prog env (.finalize sid)) false (fun _ owes => owes = false) := by
  -- the release owes nothing either
  have hrelease : ∀ r : Except Exn String,
      Obeys owing (SessionRepository.releaseLock sid) false (fun r' owes =>
        Obeys owing (Prog.onOk (fun _ => .done r) r') owes (fun r'' owes =>
          Obeys owing (Prog.onOk (fun uri => pure (Response.finalized uri)) r'') owes
            fun _ owes => owes = false)) := by
    intro r
    rw [SessionRepository.releaseLock, obeys_await]
    refine ⟨by simp, fun _ _ => rfl, fun _ _ => ?_⟩
    cases r with
    | error x => rfl
    | ok uri => rfl
  simp only [Op.prog, FinalizeUploadUseCase.execute, requireSession, SessionRepository.get,
    SessionRepository.acquireLock, obeys_bind, obeys_await, obeys_raiseIf, obeys_tryFinally,
    Prog.onOk_ok, Prog.onOk_error, obeys_raise, obeys_pure, Option.forall, Bool.forall_bool,
    owing_next, owing_allows]
  refine ⟨by simp, fun _ _ => rfl, fun _ => rfl, fun s _ => ⟨fun _ => rfl, fun _ =>
    ⟨fun _ => rfl, fun _ => ⟨fun _ => rfl, fun _ => ⟨by simp [Call.owes], fun _ _ => rfl, ?_⟩⟩⟩⟩⟩
  refine ⟨fun _ => ⟨fun _ => rfl, fun h => absurd trivial h⟩, fun _ => ⟨fun _ => rfl, fun _ => ?_⟩⟩
  -- in the critical section
  refine (keeps_owing (scan_makes (fun _ => rfl) rfl rfl rfl)).mono ?_
  rintro r _ rfl
  cases r with
  | error x => exact hrelease _
  | ok clean =>
      rw [Prog.onOk_ok, obeys_bind]
      refine (keeps_owing (assemble_makes rfl (fun _ => rfl) (fun _ _ _ => rfl) (fun _ _ => rfl)
        (fun _ => rfl) rfl)).mono ?_
      rintro r _ rfl
      cases r with
      | error x => exact hrelease _
      | ok uri =>
          refine publish_owing.mono ?_
          rintro r _ rfl
          exact hrelease r

theorem prog_owing (env : Env) (op : Op) :
    Obeys owing (Op.prog env op) false (fun _ owes => owes = false) := by
  cases op with
  | initiate newId t f size cs => exact keeps_owing (initiate_makes rfl rfl)
  | uploadChunk sid index cs data =>
      exact keeps_owing (upload_makes rfl rfl rfl (fun _ => rfl) fun _ => rfl)
  | finalize sid => exact finalize_owing env sid
  | abort sid => exact keeps_owing (abort_makes rfl rfl rfl rfl rfl)
  | query sid => exact keeps_owing (query_makes rfl)

/-- A call to the registry or the publisher about a committed object that has raised. -/
def Untold (e : Entry (service env)) : Prop := e.call.states.isSome = true ∧ ∃ x, e.resp = .error x

/-- Whether request `i` owes an announcement. -/
@[reducible] def owesBy (s : Scene (service env)) (i : Nat) : Bool :=
  s.localOf owing (fun _ => false) i (.query ⟨0⟩)

/-- What has been registered is announced, or owed, or a call that tells of it has raised. -/
def AnnouncementDue (s : Scene (service env)) : Prop :=
  ∀ e ∈ s.log, ∀ t f s3Uri size cs, e.call = .registerFile t f s3Uri size cs →
    announcedBy e.rid s.log = true ∨ owesBy s e.rid = true ∨ ∃ e' ∈ callsOf e.rid s.log, Untold e'

section AnnouncementDue

variable {s : Scene (service env)} {i : Nat} {cl : Call} {out : Outcome}

theorem announcedBy_answer {j : Nat} (h : announcedBy j s.log = true) :
    announcedBy j (s.answer i cl out).log = true := by
  rw [announcedBy, Scene.answer, callsOf, List.filter_append, List.any_append, Bool.or_eq_true]
  exact Or.inl h

/-- A publication that is called for is made, or raises. -/
theorem told_of_publish (s : Scene (service env)) (i : Nat) (out : Outcome) {event : Event}
    (hcl : cl = .publishFileUploadCompleted event) :
    announcedBy i (s.answer i cl out).log = true ∨
      ∃ e ∈ callsOf i (s.answer i cl out).log, Untold e := by
  subst hcl
  rw [announcedBy, callsOf_answer_self]
  cases out with
  | works =>
      left
      simp [handle, respond, NatsEventPublisher.publishFileUploadCompleted]
  | raises msg =>
      exact Or.inr ⟨_, List.mem_append_right _ (List.mem_singleton.2 rfl), rfl, _, rfl⟩
  | raisesAfter msg =>
      exact Or.inr ⟨_, List.mem_append_right _ (List.mem_singleton.2 rfl), rfl, _, rfl⟩

/-- The request that has registered publishes next; until then, or if that raises, lookups are
told too soon. -/
theorem AnnouncementDue.answer (h : AnnouncementDue s) (hallow : owing.allows (owesBy s i) cl) :
    AnnouncementDue (s.answer i cl out) := by
  intro e he t f s3Uri size cs hcall
  rcases List.mem_append.1 he with he | he
  · rcases h e he t f s3Uri size cs hcall with hann | howes | ⟨e', he', huntold⟩
    · exact Or.inl (announcedBy_answer hann)
    · by_cases hi : e.rid = i
      · -- this request has nothing to do but to publish
        rw [hi] at howes ⊢
        rcases hallow howes with ⟨event, hcl⟩
        rcases told_of_publish s i out hcl with hann | huntold
        · exact Or.inl hann
        · exact Or.inr (Or.inr huntold)
      · refine Or.inr (Or.inl ?_)
        rw [owesBy, localOf_answer_other owing _ s i cl out hi]
        exact howes
    · refine Or.inr (Or.inr ⟨e', ?_, huntold⟩)
      exact mem_callsOf.2 ⟨List.mem_append_left _ (mem_callsOf.1 he').1, (mem_callsOf.1 he').2⟩
  · rw [List.mem_singleton.1 he] at hcall ⊢
    simp only at hcall
    subst hcall
    rw [owesBy, localOf_answer_self, callsOf_answer_self]
    cases out with
    | works => exact Or.inr (Or.inl rfl)
    | raises msg =>
        refine Or.inr (Or.inr ⟨_, List.mem_append_right _ (List.mem_singleton.2 rfl), rfl, _, rfl⟩)
    | raisesAfter msg =>
        refine Or.inr (Or.inr ⟨_, List.mem_append_right _ (List.mem_singleton.2 rfl), rfl, _, rfl⟩)

end AnnouncementDue

theorem announcementDue_inductive (G : Run env → Label (service env) → Prop) :
    Inductive owing (fun _ => false) G (fun s => AnnouncementDue s) where
  spawn := fun _ _ _ _ h => h
  move := fun _ _ _ h => h
  call := fun _ _ _ _ _ _ _ _ h hallow => ⟨trivial, h.answer hallow⟩

/-- In every run, a finalize that has written a dedup entry has had its event published, or is
just about to call the publisher, or its call to the registry or to the publisher has raised. -/
theorem announcedBy_or {G : Run env → Label (service env) → Prop} {now : Nat} {c : Run env}
    (h : Reach G (Config.start (World.empty now)) c) {t : UUID} {cs : String}
    {e : Entry (service env)} (hlast : lastWrite t cs c.log = some e) :
    announcedBy e.rid c.log = true ∨
      (∃ event, c.pending e.rid = some (.publishFileUploadCompleted event)) ∨
        ∃ e' ∈ callsOf e.rid c.log, Untold e' := by
  rcases h.invariant (fun _ _ owes => owes = false) (fun _ op _ => prog_owing env op)
    (announcementDue_inductive G) (by simp [AnnouncementDue]) with ⟨hwf, htold, hobeys⟩
  have hmem := List.mem_filter.1 (List.mem_of_getLast? hlast)
  rcases writesEntry_spec hmem.2 with ⟨f, s3Uri, size, hcall, _⟩
  rcases htold e hmem.1 t f s3Uri size cs hcall with hann | howes | huntold
  · exact Or.inl hann
  · -- a request that owes an announcement has not ended, and is in no loop
    refine Or.inr (Or.inl ?_)
    have hlt : e.rid < c.requests.length := by
      have hlt := hwf e hmem.1
      simpa [Config.scene, Config.ops] using hlt
    rcases hreq : c.requests[e.rid] with ⟨op, p⟩
    have hget : c.requests[e.rid]? = some ⟨op, p⟩ := by rw [List.getElem?_eq_getElem hlt, hreq]
    have hp : Obeys owing p (owesBy c.scene e.rid) fun _ owes => owes = false :=
      hobeys e.rid op p hget
    cases p with
    | done r => cases howes.symm.trans hp
    | iter body a k =>
        rcases hp with ⟨I, hI, hround⟩
        cases howes.symm.trans (hround a _ hI).1
    | call cl k =>
        rcases hp.1 howes with ⟨event, rfl⟩
        exact ⟨event, by rw [Config.pending, hget]⟩
  · exact Or.inr (Or.inr huntold)

/-- No lookup is made while the finalize that has written the entry is just about to publish, nor
after one of its calls to the registry or the publisher has raised. -/
def looksUpTold (c : Run env) : Label (service env) → Prop
  | .call i _ => ∀ t cs, c.pending i = some (.getByChecksum t cs) →
      ∀ e, lastWrite t cs c.log = some e →
        (∀ event, c.pending e.rid ≠ some (.publishFileUploadCompleted event)) ∧
          ∀ e' ∈ callsOf e.rid c.log, ¬ Untold e'
  | _ => True

/-- Such runs find announced entries only. -/
theorem reach_findsAnnounced {now : Nat} {c : Run env}
    (h : Reach looksUpTold (Config.start (World.empty now)) c) :
    Reach (fun c l => findsAnnounced c l) (Config.start (World.empty now)) c := by
  refine (h.with_invariant fun _ h => h).mono ?_
  rintro c l ⟨hg, hc⟩
  cases l with
  | call i out =>
      rw [findsAnnounced]
      split
      · rename_i t cs hpending
        rw [Option.all_eq_true]
        intro e hlast
        rcases hg t cs hpending e hlast with ⟨hpublishing, htold⟩
        rcases announcedBy_or hc hlast with hann | ⟨event, hevent⟩ | ⟨e', he', huntold⟩
        · exact hann
        · exact absurd hevent (hpublishing event)
        · exact absurd huntold (htold e' he')
      · rfl
  | _ => rfl

/-! ## Concrete runs -/

namespace Demo

/-- A session of one byte, uploaded and finalized up to the registration. -/
def registering : List (Label (service Demo.env)) :=
  [.spawn (.initiate sid tenant file 1 (sha256 a))] ++ calls 0 2 ++
    [.spawn (.uploadChunk sid 0 (sha256 a) a)] ++ calls 1 5 ++
    [.spawn (.finalize sid)] ++ scanning 2 1 ++
    calls 2 1 ++ round 2 2 ++ round 2 1 ++ calls 2 2

/-- Another initiate for the same file. -/
def again : Op := .initiate ⟨4⟩ tenant file 1 (sha256 a)

/-- Where the object of the session is committed. -/
def registeredUri : String :=
  S3ObjectStorage.uri Demo.env (S3ObjectStorage.objectKey tenant file)

end Demo

/-- The finalize publishes and ends, then the file is asked for again. -/
theorem dedup_announced_demo :
    ∃ c : Run Demo.env, Reach (fun c l => findsAnnounced c l) (Config.start (World.empty 0)) c ∧
      Published c.world Demo.tenant (Demo.sha256 Demo.a) Demo.registeredUri := by
  have h : ((Config.start (World.empty 0)).play findsAnnounced
      (Demo.registering ++ Demo.calls 2 4 ++ .spawn Demo.again :: Demo.calls 3 1)).any (fun c =>
        c.ops[3]? = some Demo.again ∧
          c.result 3 = some (.ok (.initiated (none, some Demo.registeredUri)))) = true := by
    decide +kernel
  rcases exists_of_play (fun _ _ hl => hl) _ h with ⟨c, hc, hcheck⟩
  simp only [decide_eq_true_eq] at hcheck
  exact ⟨c, hc, dedup_announced hc hcheck.1 hcheck.2⟩

/-- Without the condition it fails: the publisher raises, the finalize with it, and
the next initiate is told that the file is there, with no event published at all. -/
theorem dedup_announced_fails :
    ∃ c : Run Demo.env, Reach (fun _ _ => True) (Config.start (World.empty 0)) c ∧
      c.ops[3]? = some Demo.again ∧
      c.result 3 = some (.ok (.initiated (none, some Demo.registeredUri))) ∧
      c.world.events = [] := by
  have h : ((Config.start (World.empty 0)).play (fun _ _ => true)
      (Demo.registering ++ .call 2 (.raises "NATS publish failed") :: Demo.calls 2 1 ++
        .spawn Demo.again :: Demo.calls 3 1)).any (fun c =>
        c.ops[3]? = some Demo.again ∧
          c.result 3 = some (.ok (.initiated (none, some Demo.registeredUri))) ∧
          c.world.events = []) = true := by
    decide +kernel
  rcases exists_of_play (fun _ _ _ => trivial) _ h with ⟨c, hc, hcheck⟩
  exact ⟨c, hc, by simpa using hcheck⟩

end FileUploader
