import FileUploader.DeclaredDigest
import FileUploader.Registry
import FileUploader.Tenancy

/-! # Immutable objects

An object's key is made of tenant and file id alone, and a commit replaces what is
there. As long as no commit replaces other bytes, what a finalize has committed
stays, and every dedup entry leads to the object its finalize has assembled.
-/

namespace FileUploader

open Await S3ObjectStorage

variable {env : Env}

/-- An upload is completed to a key only if there is no object at it, or one with
the bytes that have been fetched for the upload. -/
def replacesNothing (c : Run env) : Label (service env) → Bool
  | .call i _ =>
      match c.pending i with
      | some (.completeMultipartUpload t f _ _) =>
          (c.world.objects (objectKey t f)).all fun object =>
            object = (fetchesOf (callsOf i c.log)).flatten
      | _ => true
  | _ => true

/-! ## What a commit does to the objects -/

section Step

variable {s : Scene (service env)} {i : Nat} {op : Op} {cl : Call} {out : Outcome}

/-- An object changes by a commit, to what the committing request has fetched. -/
theorem Assembled.objects (h : Assembled s) (hop : s.ops[i]? = some op)
    (hallow : (answered s i op).allows cl) (out : Outcome) (key : String) :
    (handle env out cl s.world).2.objects key = s.world.objects key ∨
    ∃ t f u parts, cl = .completeMultipartUpload t f u parts ∧ objectKey t f = key ∧
      (handle env out cl s.world).2.objects key = some (fetchesOf (callsOf i s.log)).flatten ∧
      (handle env out cl s.world).2.uploads u = none := by
  rcases handle_objects env out cl s.world key with
    hsame | ⟨t, f, u, parts, upload, datas, hc, hkey, hup, hp, hobject, hgone⟩
  · exact Or.inl hsame
  · subst hc
    rcases hallow with ⟨hopen, _, hu, hparts, hlen, _⟩
    rcases (h.received i op hop).payloads hopen hu hlen with ⟨upload', hup', hp'⟩
    rw [hup] at hup'
    cases hup'
    rw [hparts, hp'] at hp
    cases hp
    refine Or.inr ⟨t, f, u, parts, rfl, hkey, ?_, hgone⟩
    rw [hobject, (h.recorded i op hop).fetches]

/-- Under the condition, no call changes an object that is there. -/
theorem Assembled.objects_kept (h : Assembled s) (hop : s.ops[i]? = some op)
    (hallow : (answered s i op).allows cl)
    (hguard : ∀ t f u parts, cl = .completeMultipartUpload t f u parts → ∀ object,
      s.world.objects (objectKey t f) = some object →
        object = (fetchesOf (callsOf i s.log)).flatten)
    {key : String} {object : Bytes} (hobject : s.world.objects key = some object) :
    (handle env out cl s.world).2.objects key = some object := by
  rcases h.objects hop hallow out key with hsame | ⟨t, f, u, parts, hc, hkey, hnew, _⟩
  · rw [hsame, hobject]
  · subst hkey
    rw [hnew, hguard t f u parts hc object hobject]

end Step

theorem replacesNothing_spec {c : Run env} {i : Nat} {cl : Call} {out : Outcome}
    (h : replacesNothing c (.call i out) = true) (hpending : c.pending i = some cl) :
    ∀ t f u parts, cl = .completeMultipartUpload t f u parts → ∀ object,
      c.world.objects (objectKey t f) = some object →
        object = (fetchesOf (callsOf i c.log)).flatten := by
  intro t f u parts hc object hobject
  subst hc
  simpa [replacesNothing, hpending, hobject] using h

/-! ## The invariant -/

/-- The committed object of every request is where it has been committed. -/
structure Immutable (s : Scene (service env)) : Prop where
  assembled : Assembled s
  registered : Registered s
  stored : ∀ (i : Nat) (op : Op), s.ops[i]? = some op → ∀ v s3Uri,
    (answered s i op).copy = some v → (answered s i op).uri = some s3Uri →
      s.world.objects (objectKey v.tenantId v.fileId) = some (answered s i op).fetched.flatten

theorem Immutable.stored_answer {s : Scene (service env)} {i : Nat} {op : Op} {cl : Call}
    {out : Outcome} (h : Immutable s) (hop : s.ops[i]? = some op)
    (hallow : (answered s i op).allows cl)
    (hkept : ∀ key object, s.world.objects key = some object →
      (handle env out cl s.world).2.objects key = some object) :
    ∀ (j : Nat) (op' : Op), s.ops[j]? = some op' → ∀ v s3Uri,
      (answered (s.answer i cl out) j op').copy = some v →
        (answered (s.answer i cl out) j op').uri = some s3Uri →
          (handle env out cl s.world).2.objects (objectKey v.tenantId v.fileId) =
            some (answered (s.answer i cl out) j op').fetched.flatten := by
  refine answered_forall_answer (P := fun _ _ l => ∀ v s3Uri, l.copy = some v →
    l.uri = some s3Uri → (handle env out cl s.world).2.objects
      (objectKey v.tenantId v.fileId) = some l.fetched.flatten) hop ?_
    (fun j op' _ hj v s3Uri hv hu => hkept _ _ (h.stored j op' hj v s3Uri hv hu))
  intro v s3Uri hv hu
  -- nothing is fetched once a commit has been made
  have hfetched : (answered s i op).uri = some s3Uri ∨
      cl.completed (handle env out cl s.world).1 = some s3Uri →
      ((answered s i op).next cl (handle env out cl s.world).1).fetched =
        (answered s i op).fetched := by
    intro hcommitted
    rw [CommitLocal.next_fetched]
    cases hf : cl.fetched (handle env out cl s.world).1 with
    | none => simp
    | some chunk =>
        have hnone := CommitLocal.uri_of_fetched hallow hf
        cases cl with
        | chunkGet sid index =>
            rcases hcommitted with hcommitted | hcommitted
            · rw [hnone] at hcommitted
              cases hcommitted
            · simp [Call.completed] at hcommitted
        | _ => simp [Call.fetched] at hf
  rw [CommitLocal.next_uri] at hu
  rw [CommitLocal.next_copy _ hallow] at hv
  cases hc : cl.completed (handle env out cl s.world).1 with
  | none =>
      -- committed before: the object is kept
      rw [hc, Option.none_or] at hu
      rcases (h.assembled.recorded i op hop).committed s3Uri hu with ⟨v', hv', _⟩
      rw [hv'] at hv
      cases hv
      rw [hfetched (Or.inl hu)]
      exact hkept _ _ (h.stored i op hop v s3Uri hv' hu)
  | some s3Uri' =>
      -- committed by this call
      rw [hc] at hu
      cases hu
      rcases h.assembled.commit hop hallow hc with ⟨v', hv', _, hobject, _⟩
      rw [hv'] at hv
      cases hv
      rw [hfetched (Or.inr hc)]
      exact hobject

theorem immutable_inductive : Inductive commitDiscipline CommitLocal.start
    (fun (c : Run env) l => replacesNothing c l) (fun s => Immutable s) where
  spawn := by
    intro c op hg hwf h
    refine ⟨(assembled_inductive (fun _ _ => True)).spawn c op trivial hwf h.assembled,
      h.registered.spawn op, ?_⟩
    exact answered_forall_spawn (P := fun _ _ l => ∀ v s3Uri, l.copy = some v →
      l.uri = some s3Uri → c.world.objects (objectKey v.tenantId v.fileId) =
        some l.fetched.flatten) hwf (by simp [CommitLocal.start]) h.stored
  move := fun c d hg h =>
    ⟨(assembled_inductive (fun _ _ => True)).move c d trivial h.assembled, h.registered.move d,
      h.stored⟩
  call := by
    intro c i op cl out hg hop hpending h hallow
    refine ⟨trivial, h.assembled.answer hop hallow, h.registered.answer hop hallow, ?_⟩
    exact h.stored_answer (s := c.scene) hop hallow (fun key object hobject =>
      h.assembled.objects_kept hop hallow (replacesNothing_spec hg hpending) hobject)

theorem reach_immutable {now : Nat} {c : Run env}
    (h : Reach (fun c l => replacesNothing c l) (Config.start (World.empty now)) c) :
    Immutable c.scene ∧ ∀ i op p, c.requests[i]? = some ⟨op, p⟩ →
      Obeys commitDiscipline p (answered c.scene i op) (commitPost op) := by
  have hinit : Immutable (⟨World.empty now, [], []⟩ : Scene (service env)) :=
    ⟨⟨by simp, by simp, by simp, by simp⟩, ⟨by simp [World.dedup?, World.empty], by simp, by simp⟩,
      by simp⟩
  exact (h.invariant commitPost (fun _ op _ => Commit.prog_obeys env op) immutable_inductive
    hinit).2

/-- A committed object stays as it is for the rest of the run. -/
theorem objects_stay {now : Nat} {c c' : Run env}
    (h : Reach (fun c l => replacesNothing c l) (Config.start (World.empty now)) c)
    (h' : Reach (fun c l => replacesNothing c l) c c') {key : String} {object : Bytes}
    (hobject : c.world.objects key = some object) : c'.world.objects key = some object := by
  induction h' with
  | start => exact hobject
  | @step c₁ c₂ l hreach hg hs ih =>
      rcases reach_immutable (h.trans hreach) with ⟨hinv, hobeys⟩
      rcases step_cases hs with ⟨op, -, rfl⟩ | ⟨d, -, rfl⟩ | ⟨i, op, _, _, _, _, _, -, -, rfl⟩ |
        ⟨i, out, op, cl, k, rfl, hreq, rfl⟩
      · exact ih
      · exact ih
      · exact ih
      · have hpending : c₁.pending i = some cl := by simp [Config.pending, hreq]
        exact hinv.assembled.objects_kept (ops_getElem? hreq) (hobeys i op _ hreq).1
          (replacesNothing_spec hg hpending) ih

/-! ## File ids that are used again -/

/-- A completion for this tenant and file that has taken effect, whatever it was answered. -/
def CommitsAt (t f : UUID) (e : Entry (service env)) : Prop :=
  ∃ u parts, e.call = .completeMultipartUpload t f u parts ∧ e.world.uploads u = none

/-- The chunks cached for `sid` at 0, 1, 2, … up to the first that is missing were these,
whenever request `i` has looked one up. -/
def CachedAs (log : Log env) (i : Nat) (sid : UUID) (datas : List Bytes) : Prop :=
  ∀ e ∈ callsOf i log, ∀ index, e.call = .chunkGet sid index →
    RunFrom (e.world.fetched? sid) 0 datas

/-- A tenant and file id that has been committed to is used again by a finalize of the same
session only, for which the same chunks are cached as for the finalize before. -/
def reusesForSession (c : Run env) : Label (service env) → Prop
  | .call i _ => ∀ t f u parts, c.pending i = some (.completeMultipartUpload t f u parts) →
      ∀ e ∈ c.log, CommitsAt t f e → ∃ sid datas, c.ops[i]? = some (.finalize sid) ∧
        c.ops[e.rid]? = some (.finalize sid) ∧ CachedAs c.log i sid datas ∧
          CachedAs c.log e.rid sid datas
  | _ => True

/-- Every object has been committed by a finalize that had come to the missing chunk. -/
def Made (s : Scene (service env)) : Prop :=
  ∀ key object, s.world.objects key = some object → ∃ e ∈ s.log, ∃ t f sid,
    CommitsAt t f e ∧ objectKey t f = key ∧ s.ops[e.rid]? = some (.finalize sid) ∧
      (fetchedBy s e.rid (.finalize sid)).whole = true ∧
        object = (fetchedBy s e.rid (.finalize sid)).found.flatten

/-- What is known of every configuration reached. -/
structure CommitSound (c : Run env) : Prop where
  assembled : Assembled c.scene
  allowed : ∀ i op cl, c.ops[i]? = some op → c.pending i = some cl →
    (answered c.scene i op).allows cl

/-- In every run, requests commit what they have fetched, for the session that they have read. -/
theorem reach_commitSound {G : Run env → Label (service env) → Prop} {now : Nat} {c : Run env}
    (h : Reach G (Config.start (World.empty now)) c) : CommitSound c := by
  have hinit : Assembled (⟨World.empty now, [], []⟩ : Scene (service env)) :=
    ⟨by simp, by simp, by simp, by simp⟩
  rcases (h.invariant commitPost (fun _ op _ => Commit.prog_obeys env op) (assembled_inductive G)
    hinit).2 with ⟨hinv, hobeys⟩
  refine ⟨hinv, fun i op cl hop hpending => ?_⟩
  rcases request_of_pending hop hpending with ⟨k, hreq⟩
  exact (hobeys i op _ hreq).1

section Made

variable {c : Run env} {i : Nat} {op : Op} {cl : Call} {out : Outcome}

/-- A completion makes its object and replaces the one before; nothing else touches an object. -/
theorem Made.answer (h : Made c.scene) (hsound : CommitSound c) (hop : c.ops[i]? = some op)
    (hpending : c.pending i = some cl) (hallow : (fetchedBy c.scene i op).allows cl) :
    Made (c.scene.answer i cl out) := by
  intro key object hobject
  rcases hsound.assembled.objects hop (hsound.allowed i op cl hop hpending) out key with
    hsame | ⟨t, f, u, parts, rfl, hkey, hnew, hgone⟩
  · -- an object that was there: nothing is found by its finalize any more
    rcases h key object (hsame.symm.trans hobject) with
      ⟨e, he, t, f, sid, hcommits, hkey, hop', hwhole, hfound⟩
    refine ⟨e, List.mem_append_left _ he, t, f, sid, hcommits, hkey, hop', ?_⟩
    by_cases hi : e.rid = i
    · have hsid : op = .finalize sid := by
        rw [hi] at hop'
        exact Option.some.inj (hop.symm.trans hop')
      subst hsid
      rw [hi] at hwhole hfound ⊢
      rcases FetchLocal.next_of_whole (handle env out cl c.world).1 hallow hwhole with
        ⟨hfound', hwhole'⟩
      rw [fetchedBy, localOf_answer_self]
      exact ⟨hwhole', hfound.trans (congrArg List.flatten hfound').symm⟩
    · rw [fetchedBy, localOf_answer_other fetchDiscipline FetchLocal.start c.scene i cl out hi]
      exact ⟨hwhole, hfound⟩
  · -- the object of this commit
    rcases hallow with ⟨hwhole, sid, hsid⟩
    rw [fetchedBy_op] at hsid
    subst hsid
    refine ⟨_, List.mem_append_right _ (List.mem_singleton.2 rfl), t, f, sid,
      ⟨u, parts, rfl, hgone⟩, hkey, hop, ?_⟩
    rw [fetchedBy, localOf_answer_self]
    refine ⟨hwhole, ?_⟩
    cases hnew.symm.trans hobject
    have hfound := fetchedBy_found c.scene i (.finalize sid)
    rw [← (hsound.assembled.recorded i _ hop).fetches] at hfound
    exact congrArg List.flatten hfound.symm

end Made

theorem made_inductive : Inductive fetchDiscipline FetchLocal.start
    (fun (c : Run env) _ => CommitSound c) (fun s => Made s) where
  spawn := by
    intro c op _ hwf h key object hobject
    rcases h key object hobject with ⟨e, he, t, f, sid, hcommits, hkey, hop, hrest⟩
    have hlt := (List.getElem?_eq_some_iff.1 hop).1
    exact ⟨e, he, t, f, sid, hcommits, hkey, (List.getElem?_append_left hlt).trans hop, hrest⟩
  move := fun _ _ _ h => h
  call := fun _ _ _ _ _ hsound hop hpending h hallow =>
    ⟨trivial, h.answer hsound hop hpending hallow⟩

/-- In every run, every object has been made by a completion in the log. -/
theorem reach_made {G : Run env → Label (service env) → Prop} {now : Nat} {c : Run env}
    (h : Reach G (Config.start (World.empty now)) c) : Made c.scene := by
  have hinit : Made (⟨World.empty now, [], []⟩ : Scene (service env)) := by
    simp [Made, World.empty]
  have hsound := (h.with_invariant fun _ h => reach_commitSound h).mono fun _ _ h => h.2
  exact (hsound.invariant fetchPost (fun _ op _ => Fetch.prog_fetches env op) made_inductive
    hinit).2.1

/-- A finalize that uses a key again so assembles the bytes that are there. -/
theorem replacesNothing_of_reuses {now : Nat} {c : Run env} {l : Label (service env)}
    (h : Reach reusesForSession (Config.start (World.empty now)) c) (hg : reusesForSession c l) :
    replacesNothing c l = true := by
  cases l with
  | call i out =>
      rw [replacesNothing]
      split
      · rename_i t f u parts hpending
        rw [Option.all_eq_true]
        intro object hobject
        rcases reach_made h _ object hobject with
          ⟨e, he, t', f', sid, hcommits, hkey, hope, hwhole, rfl⟩
        rcases objectKey_inj.1 hkey with ⟨rfl, rfl⟩
        rcases hg t' f' u parts hpending e he hcommits with
          ⟨sid', datas, hopi, hope', hcachedi, hcachede⟩
        cases hope.symm.trans hope'
        -- both have come to the missing chunk, and have fetched the chunks before it
        rcases reach_fetched h with ⟨hfetched, hobeys⟩
        rcases request_of_pending hopi hpending with ⟨k, hreq⟩
        have hallow := (hobeys i _ _ hreq).1
        have hfoundi := (hfetched i _ hopi).found_eq (fetchedBy_op c.scene i _) hallow.1 hcachedi
        have hfounde := (hfetched e.rid _ hope).found_eq (fetchedBy_op c.scene e.rid _) hwhole
          hcachede
        have hfetches := (reach_commitSound h).assembled.recorded i _ hopi |>.fetches
        rw [decide_eq_true_eq, hfounde]
        rw [fetchedBy_found] at hfoundi
        rw [show fetchesOf (callsOf i c.log) = datas from hfetches.trans hfoundi]
      · rfl
  | _ => rfl

theorem reach_replacesNothing {now : Nat} {c c' : Run env}
    (h : Reach reusesForSession (Config.start (World.empty now)) c)
    (h' : Reach reusesForSession c c') : Reach (fun c l => replacesNothing c l) c c' :=
  (h'.with_invariant fun _ hc => h.trans hc).mono fun _ _ hg => replacesNothing_of_reuses hg.2 hg.1

/-- Bronze-layer immutability, over all interleavings and failures: an object that is
committed is never changed, and the URI of a dedup entry leads to what the finalize
that has written the entry has assembled, if no other session uses the file id again, and a
session that is finalized again has the same chunks as before. -/
theorem bronze_immutability {now : Nat} {c : Run env}
    (h : Reach reusesForSession (Config.start (World.empty now)) c) :
    (∀ c' key object, Reach reusesForSession c c' →
      c.world.objects key = some object → c'.world.objects key = some object) ∧
    ∀ t cs s3Uri, c.world.dedup? t cs = some s3Uri → ∃ e f size, lastWrite t cs c.log = some e ∧
      e.call = .registerFile t f s3Uri size cs ∧ s3Uri = uri env (objectKey t f) ∧
        c.world.objects (objectKey t f) = some (fetchesOf (callsOf e.rid c.log)).flatten := by
  have hnothing := reach_replacesNothing .start h
  refine ⟨fun c' key object h' hobject =>
    objects_stay hnothing (reach_replacesNothing h h') hobject, ?_⟩
  intro t cs s3Uri hentry
  have hinv : Immutable c.scene := (reach_immutable hnothing).1
  rcases hinv.registered.written t cs s3Uri hentry with ⟨e, f, size, hlast, hc⟩
  have he : e ∈ c.log := (List.mem_filter.1 (List.mem_of_getLast? hlast)).1
  rcases hinv.registered.stated e he ⟨t, f, s3Uri, size, cs⟩ (by rw [hc]; rfl) with
    ⟨op, hop, v, hv, huri, ht, hf, _, _⟩
  simp only at ht hf huri
  have hrec : Recorded (callsOf e.rid c.log) (answered c.scene e.rid op) :=
    hinv.assembled.recorded e.rid op hop
  rcases hrec.committed s3Uri huri with ⟨v', hv', hkey, _⟩
  rw [hv] at hv'
  cases hv'
  refine ⟨e, f, size, hlast, hc, ?_, ?_⟩
  · rw [hkey, ht, hf]
  · rw [ht, hf, hrec.fetches]
    exact hinv.stored e.rid op hop v s3Uri hv huri

/-! ## Concrete runs -/

namespace Demo

def key : String := objectKey tenant file

/-- A second session for the same file id, with other content. -/
def otherByte : List (Label (service Demo.env)) :=
  [.spawn (.initiate ⟨4⟩ tenant file 1 (sha256 b))] ++ calls 3 2 ++
    [.spawn (.uploadChunk ⟨4⟩ 0 (sha256 b) b)] ++ calls 4 5 ++
    [.spawn (.finalize ⟨4⟩)] ++ scanning 5 1 ++ committing 5 1

/-- A finalize commits the byte, and the registry raises; then the session is finalized again. -/
def recommitted : List (Label (service Demo.env)) :=
  oneUploaded (sha256 a) ++ [.spawn (.finalize sid)] ++ scanning 2 1 ++ calls 2 1 ++ round 2 2 ++
    round 2 1 ++ calls 2 1 ++ [.call 2 (.raises "Redis is gone")] ++ calls 2 1 ++
    [.spawn (.finalize sid)] ++ scanning 3 1 ++ committing 3 1

/-- Every completion is by a finalize of the one session, and every chunk was looked up while
the byte was cached. -/
def reusesByte (c : Run Demo.env) : Label (service Demo.env) → Bool
  | .call i _ => (c.pending i).all fun cl => !cl.closes ||
      c.ops[i]? = some (.finalize sid) && c.log.all fun e =>
        (!e.call.closes || c.ops[e.rid]? = some (.finalize sid)) &&
          (!e.call.looksUp || e.world.fetched? sid 0 = some a && e.world.fetched? sid 1 = none)
  | _ => true

end Demo

/-- Every completion is then for the one session, with the one byte cached. -/
theorem reusesForSession_of_byte {c : Run Demo.env} {l : Label (service Demo.env)}
    (h : Demo.reusesByte c l = true) : reusesForSession c l := by
  cases l with
  | call i out =>
      intro t f u parts hpending e he hcommits
      rw [Demo.reusesByte, hpending, Option.all_some, Call.closes] at h
      simp only [Bool.not_true, Bool.false_or, Bool.and_eq_true,
        decide_eq_true_eq, List.all_eq_true, Bool.or_eq_true, Bool.not_eq_true'] at h
      rcases h with ⟨hop, hlog⟩
      rcases hcommits with ⟨u', parts', hcall, _⟩
      have hcached : ∀ j, CachedAs c.log j Demo.sid [Demo.a] := by
        intro j e' he' index hget
        have hlook := (hlog e' (mem_callsOf.1 he').1).2
        rw [hget] at hlook
        exact hlook.resolve_left (by simp [Call.looksUp])
      refine ⟨Demo.sid, [Demo.a], hop, (hlog e he).1.resolve_left ?_, hcached i, hcached e.rid⟩
      rw [hcall]
      simp [Call.closes]
  | _ => trivial

/-- One file is committed twice and registered. -/
theorem bronze_immutability_demo :
    ∃ c : Run Demo.env,
      commitsOf (callsOf 2 c.log) = [(Demo.tenant, Demo.file, Demo.s3Uri, Demo.a)] ∧
      c.world.objects Demo.key = some Demo.a ∧
      (∀ c', Reach reusesForSession c c' → c'.world.objects Demo.key = some Demo.a) ∧
      ∃ e f size, lastWrite Demo.tenant (Demo.sha256 Demo.a) c.log = some e ∧
        e.call = .registerFile Demo.tenant f Demo.s3Uri size (Demo.sha256 Demo.a) ∧
        Demo.s3Uri = uri Demo.env (objectKey Demo.tenant f) ∧
        c.world.objects (objectKey Demo.tenant f) =
          some (fetchesOf (callsOf e.rid c.log)).flatten := by
  have h : ((Config.start (World.empty 0)).play Demo.reusesByte Demo.recommitted).any (fun c =>
        commitsOf (callsOf 2 c.log) = [(Demo.tenant, Demo.file, Demo.s3Uri, Demo.a)] ∧
          c.world.objects Demo.key = some Demo.a ∧
          c.world.dedup? Demo.tenant (Demo.sha256 Demo.a) = some Demo.s3Uri) = true := by
    decide +kernel
  rcases exists_of_play (fun _ _ => reusesForSession_of_byte) _ h with ⟨c, hc, hcheck⟩
  simp only [decide_eq_true_eq] at hcheck
  rcases hcheck with ⟨hfirst, hobject, hdedup⟩
  rcases bronze_immutability hc with ⟨hstay, hentry⟩
  exact ⟨c, hfirst, hobject, fun c' h' => hstay c' _ _ h' hobject, hentry _ _ _ hdedup⟩

/-- Without the condition it fails: the finalize of a second session for the same
file id replaces the object, to which the dedup entry of the first one still leads. -/
theorem bronze_immutability_fails :
    ∃ c c' : Run Demo.env, Reach (fun _ _ => True) (Config.start (World.empty 0)) c ∧
      Reach (fun _ _ => True) c c' ∧
      c.world.objects Demo.key = some Demo.a ∧ c'.world.objects Demo.key = some Demo.b ∧
      c'.world.dedup? Demo.tenant (Demo.sha256 Demo.a) = some (uri Demo.env Demo.key) := by
  have h : ((Config.start (World.empty 0)).play (fun _ _ => true)
      (Demo.oneByte (Demo.sha256 Demo.a))).any (fun c =>
        c.world.objects Demo.key = some Demo.a &&
          (c.play (fun _ _ => true) Demo.otherByte).any fun c' =>
            c'.world.objects Demo.key = some Demo.b ∧
              c'.world.dedup? Demo.tenant (Demo.sha256 Demo.a) = some (uri Demo.env Demo.key)) =
        true := by
    decide +kernel
  rcases exists_of_play (fun _ _ _ => trivial) _ h with ⟨c, hc, hcheck⟩
  simp only [Bool.and_eq_true, decide_eq_true_eq] at hcheck
  rcases exists_of_play (fun _ _ _ => trivial) _ hcheck.2 with ⟨c', hc', hcheck'⟩
  simp only [decide_eq_true_eq] at hcheck'
  exact ⟨c, c', hc, hc', hcheck.1, hcheck'⟩

end FileUploader
