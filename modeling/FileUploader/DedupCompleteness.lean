import FileUploader.Immutability
import FileUploader.Serial

/-! # Dedup completeness

The entry that a finalize registers has no TTL, and no call of the service removes one:
the deletions of a session go by the prefix of its own keys. So an initiate that asks for
the entry finds it in every later run. It asks under the checksum as the client has spelled
it, though, while the digests of chunks are compared in lower case.
-/

namespace FileUploader

open Await

variable {env : Env}

/-- What the registry has told about the entry of a tenant and checksum. -/
def Call.lookup : (c : Call) → Except Exn c.Resp → Option (UUID × String × Option String)
  | .getByChecksum t cs, .ok found => some (t, cs, found)
  | _, _ => none

/-- A lookup in the registry that raises. -/
def Call.lookupRaises : (c : Call) → Except Exn c.Resp → Bool
  | .getByChecksum _ _, .error _ => true
  | _, _ => false

/-- A session is stored, or might be. -/
def Call.saves : Call → Bool
  | .sessionSave _ => true
  | _ => false

/-! ## What an initiate asks and does -/

/-- What matters of a request: what the registry has told it, whether a lookup has raised, and
whether it has called for a session to be saved. -/
structure RegistryLocal where
  op : Op
  told : Option (UUID × String × Option String)
  raised : Bool
  saved : Bool

namespace RegistryLocal

def start (op : Op) : RegistryLocal := ⟨op, none, false, false⟩

def next (l : RegistryLocal) (c : Call) (r : Except Exn c.Resp) : RegistryLocal :=
  { l with told := (c.lookup r).or l.told, raised := l.raised || c.lookupRaises r,
           saved := l.saved || c.saves }

/-- An initiate asks once, for its own tenant and checksum, and saves a session only when
it has been told that there is no entry. -/
def allows (l : RegistryLocal) (c : Call) : Prop :=
  match l.op, c with
  | .initiate _ t _ _ cs, .getByChecksum t' cs' =>
      l.told = none ∧ l.saved = false ∧ t' = t ∧ cs' = cs
  | .initiate _ t _ _ cs, .sessionSave _ => l.told = some (t, cs, none)
  | _, _ => True

@[simp] theorem next_op (l : RegistryLocal) (c : Call) (r : Except Exn c.Resp) :
    (l.next c r).op = l.op := rfl

theorem next_told (l : RegistryLocal) (c : Call) (r : Except Exn c.Resp) :
    (l.next c r).told = (c.lookup r).or l.told := rfl

theorem next_raised (l : RegistryLocal) (c : Call) (r : Except Exn c.Resp) :
    (l.next c r).raised = (l.raised || c.lookupRaises r) := rfl

theorem next_saved (l : RegistryLocal) (c : Call) (r : Except Exn c.Resp) :
    (l.next c r).saved = (l.saved || c.saves) := rfl

/-- An initiate is told once. -/
theorem told_eq_none {l : RegistryLocal} {c : Call} {r : Except Exn c.Resp} (hallow : l.allows c)
    {newId t f : UUID} {size : Int} {cs : String} (hop : l.op = .initiate newId t f size cs)
    {found : UUID × String × Option String} (h : c.lookup r = some found) : l.told = none := by
  unfold Call.lookup at h
  split at h
  · simp only [allows, hop] at hallow
    exact hallow.1
  · cases h

end RegistryLocal

def registryDiscipline : Discipline Collab RegistryLocal where
  next := RegistryLocal.next
  allows := RegistryLocal.allows
  expects := fun _ _ _ => True
  loops := fun _ => True

/-- An initiate that has ended: its lookup raised and so did it, it returned the URI it was
told of, or it was told that there is none and went on to save a session. -/
def registryPost : Op → Except Exn Response → RegistryLocal → Prop
  | .initiate _ t _ _ cs, r, l =>
      (l.told = none ∧ l.raised = true ∧ l.saved = false ∧ ∃ x, r = .error x) ∨
      (∃ uri, l.told = some (t, cs, some uri) ∧ l.saved = false ∧
        r = .ok (.initiated (none, some uri))) ∨
      (l.told = some (t, cs, none) ∧ l.saved = true)
  | _, _, _ => True

@[simp] theorem registryDiscipline_next : registryDiscipline.next = RegistryLocal.next := rfl

@[simp] theorem registryDiscipline_allows : registryDiscipline.allows = RegistryLocal.allows := rfl

@[simp] theorem registryDiscipline_expects (l : RegistryLocal) (c : Call) (r : Except Exn c.Resp) :
    registryDiscipline.expects l c r = True := rfl

@[simp] theorem registryDiscipline_loops (l : RegistryLocal) :
    registryDiscipline.loops l = True := rfl

namespace RegistryUse

open RegistryLocal

/-- Every request keeps the discipline, which binds the initiates only. -/
theorem prog_obeys (env : Env) (op : Op) :
    Obeys registryDiscipline (Op.prog env op) (start op) (registryPost op) := by
  have hother : ∀ op : Op, (∀ l c, l.op = op → RegistryLocal.allows l c) →
      Obeys registryDiscipline (Op.prog env op) (start op) (fun _ _ => True) := by
    intro op hfree
    refine (obeys_of_allowed (D := registryDiscipline) (fun l => l.op = op) ?_ hfree
      (fun _ _ => trivial) (Op.prog env op) rfl).mono (fun _ _ _ => trivial)
    intro l c r hl
    exact hl
  cases op with
  | initiate newId t f size cs =>
      simp [Op.prog, InitiateUploadUseCase.execute, MetadataRegistry.getByChecksum,
        SessionRepository.save, Option.forall, RegistryLocal.allows, RegistryLocal.next,
        registryPost, start, Call.lookup, Call.lookupRaises, Call.saves]
  | uploadChunk sid index cs data =>
      exact hother _ (fun l c hl => by simp [RegistryLocal.allows, hl])
  | finalize sid => exact hother _ (fun l c hl => by simp [RegistryLocal.allows, hl])
  | abort sid => exact hother _ (fun l c hl => by simp [RegistryLocal.allows, hl])
  | query sid => exact hother _ (fun l c hl => by simp [RegistryLocal.allows, hl])

end RegistryUse

/-- What request `i`, which asked for `op`, has been told by the registry. -/
def told (s : Scene (service env)) (i : Nat) (op : Op) : RegistryLocal :=
  s.localOf registryDiscipline RegistryLocal.start i op

theorem told_op (s : Scene (service env)) (i : Nat) (op : Op) : (told s i op).op = op :=
  replay_fixed (D := registryDiscipline) (·.op) RegistryLocal.next_op (RegistryLocal.start op)
    (callsOf i s.log)

theorem told_raised (s : Scene (service env)) (i : Nat) (op : Op) :
    (told s i op).raised = (callsOf i s.log).any fun e => e.call.lookupRaises e.resp :=
  replay_any (D := registryDiscipline) (·.raised) (fun c r => c.lookupRaises r)
    RegistryLocal.next_raised (RegistryLocal.start op) (callsOf i s.log)

theorem told_saved (s : Scene (service env)) (i : Nat) (op : Op) :
    (told s i op).saved = (callsOf i s.log).any fun e => e.call.saves :=
  replay_any (D := registryDiscipline) (·.saved) (fun c _ => c.saves) RegistryLocal.next_saved
    (RegistryLocal.start op) (callsOf i s.log)

/-- The registry has told request `i` this. -/
def ToldTo (i : Nat) (log : Log env) (found : UUID × String × Option String) : Prop :=
  ∃ e ∈ log, e.rid = i ∧ e.call.lookup e.resp = some found

theorem toldTo_append {i : Nat} {log : Log env} {e : Entry (service env)}
    {found : UUID × String × Option String} : ToldTo i (log ++ [e]) found ↔
      ToldTo i log found ∨ e.rid = i ∧ e.call.lookup e.resp = some found := by
  simp [ToldTo, or_and_right, exists_or]

/-- What an initiate has been told is in the log, and nothing else is. -/
def ToldInLog (s : Scene (service env)) : Prop :=
  ∀ (i : Nat) (op : Op), s.ops[i]? = some op → ∀ newId t f size cs,
    op = .initiate newId t f size cs → ∀ found, (told s i op).told = some found ↔
      ToldTo i s.log found

/-- An initiate asks once, so the answer to it is all that it has been told. -/
theorem toldInLog_inductive (G : Run env → Label (service env) → Prop) :
    Inductive registryDiscipline RegistryLocal.start G ToldInLog where
  spawn := by
    intro c op _ hwf h
    refine Scene.forall_spawn (D := registryDiscipline) (s := c.scene)
      (P := fun i (op' : Op) (l : RegistryLocal) => ∀ newId t f size cs,
        op' = .initiate newId t f size cs → ∀ found, l.told = some found ↔ ToldTo i c.log found)
      hwf ?_ (fun i op' hop => h i op' hop)
    intro newId t f size cs _ found
    constructor
    · intro hfound
      cases hfound
    · intro htold
      -- nothing in the log is a call of the new request
      rcases htold with ⟨e, he, hi, _⟩
      exact absurd hi (Nat.ne_of_lt (hwf e he))
  move := fun _ _ _ h => h
  call := by
    intro c i op cl out _ hop _ h hallow
    refine ⟨trivial, ?_⟩
    have hscene : c.scene.ops[i]? = some op := hop
    refine Scene.forall_answer (D := registryDiscipline) (P := fun j (op' : Op) l =>
      ∀ newId t f size cs, op' = .initiate newId t f size cs → ∀ found,
        l.told = some found ↔ ToldTo j (c.scene.answer i cl out).log found) hscene ?_ ?_
    · intro newId t f size cs hinit found
      have hbefore := h i op hop newId t f size cs hinit found
      rw [Scene.answer, toldTo_append, ← hbefore, registryDiscipline_next, RegistryLocal.next_told]
      -- whether this call is the lookup
      cases hnow : cl.lookup (handle env out cl c.world).1 with
      | none =>
          have hnow' : cl.lookup ((service env).handle out cl c.scene.world).1 = none := hnow
          simp [hnow', told]
      | some found' =>
          -- it has not been told anything before
          have hnone : (told c.scene i op).told = none :=
            RegistryLocal.told_eq_none hallow (by rw [told_op, hinit]) hnow
          have hnow' : cl.lookup ((service env).handle out cl c.scene.world).1 = some found' := hnow
          have hnone' : (c.scene.localOf registryDiscipline RegistryLocal.start i op).told = none :=
            hnone
          simp [hnow', hnone', told]
    · intro j op' hj hop' newId t f size cs hinit found
      refine (h j op' hop' newId t f size cs hinit found).trans ?_
      rw [Scene.answer, toldTo_append]
      exact ⟨Or.inl, fun htold => htold.resolve_right fun hnow => hj hnow.1.symm⟩

/-! ## An entry stays -/

/-- What is registered is a URI of the object storage, which is not empty. -/
theorem S3ObjectStorage.uri_ne_empty (env : Env) (key : String) :
    S3ObjectStorage.uri env key ≠ "" := by
  intro h
  have hnil := congrArg String.toList h
  simp [S3ObjectStorage.uri, toString] at hnil

/-- What the registry tells about an entry, given what has been called before. -/
def ToldTrue (log : Log env) (e : Entry (service env)) : Prop :=
  ∀ t cs found, e.call.lookup e.resp = some (t, cs, found) →
    (found.isSome ↔ ∃ e' ∈ log, writesEntry t cs e') ∧
    ∀ uri ∈ found, ∃ e' ∈ log, ∃ f size, e'.call = .registerFile t f uri size cs

/-- Every entry is one that reads as such for ever, and the registry tells of it. -/
structure EntriesStay (s : Scene (service env)) : Prop where
  registered : Registered s
  uris : ∀ (i : Nat) (op : Op), s.ops[i]? = some op → ∀ uri, (answered s i op).uri = some uri →
    uri ≠ ""
  entries : ∀ t cs uri deadline, s.world.dedup (t, cs) = some (uri, deadline) →
    uri ≠ "" ∧ deadline = none
  kept : ∀ t cs, ∀ e ∈ s.log, writesEntry t cs e → (s.world.dedup (t, cs)).isSome
  writes : ∀ e ∈ s.log, ∀ t cs uri, e.call.registered e.resp = some (t, cs, uri) →
    writesEntry t cs e
  told : Chronicle ToldTrue s.log

section Step

variable {s : Scene (service env)} {i : Nat} {op : Op} {cl : Call} {out : Outcome}

/-- A lookup that is answered tells what the entry reads as. -/
theorem handle_lookup {w : World} {t : UUID} {cs : String} {found : Option String}
    (h : cl.lookup (handle env out cl w).1 = some (t, cs, found)) :
    found = RedisMetadataRegistry.getByChecksum w t cs := by
  unfold Call.lookup at h
  split at h
  · rename_i t' cs' found' hans
    cases h
    cases out with
    | works =>
        simp only [handle, respond, Except.ok.injEq] at hans
        exact hans.symm
    | raises msg => simp [handle, failed] at hans
    | raisesAfter msg => simp [handle, failed] at hans
  · cases h

/-- Entries do not expire and hold no empty URI, so a lookup answers what is there. -/
theorem EntriesStay.getByChecksum_eq (h : EntriesStay s) (t : UUID) (cs : String) :
    RedisMetadataRegistry.getByChecksum s.world t cs = s.world.dedup? t cs ∧
      (s.world.dedup? t cs).isSome = (s.world.dedup (t, cs)).isSome := by
  rcases hentry : s.world.dedup (t, cs) with _ | ⟨uri, deadline⟩
  · simp [RedisMetadataRegistry.getByChecksum, World.dedup?, ExpiringMap.get, hentry]
  · rcases h.entries t cs uri deadline hentry with ⟨huri, rfl⟩
    simp [RedisMetadataRegistry.getByChecksum, World.dedup?, ExpiringMap.get, hentry, huri]

/-- An entry is there exactly if it has been written. -/
theorem EntriesStay.isSome_iff (h : EntriesStay s) (t : UUID) (cs : String) :
    (RedisMetadataRegistry.getByChecksum s.world t cs).isSome ↔
      ∃ e ∈ s.log, writesEntry t cs e := by
  rcases h.getByChecksum_eq t cs with ⟨hget, hraw⟩
  rw [hget]
  constructor
  · intro hsome
    rcases Option.isSome_iff_exists.1 hsome with ⟨uri, huri⟩
    rcases h.registered.written t cs uri huri with ⟨e, f, size, hlast, _⟩
    have hmem := List.mem_filter.1 (List.mem_of_getLast? hlast)
    exact ⟨e, hmem.1, hmem.2⟩
  · intro hwritten
    rcases hwritten with ⟨e, he, hwrites⟩
    rw [hraw]
    exact h.kept t cs e he hwrites

/-- What a lookup is answered is true of the log at that time. -/
theorem EntriesStay.toldTrue (h : EntriesStay s) :
    ToldTrue s.log ⟨i, cl, (handle env out cl s.world).1, (handle env out cl s.world).2⟩ := by
  intro t cs found htold
  have hfound := handle_lookup htold
  subst hfound
  refine ⟨h.isSome_iff t cs, ?_⟩
  intro uri huri
  rw [(h.getByChecksum_eq t cs).1, Option.mem_def] at huri
  rcases h.registered.written t cs uri huri with ⟨e, f, size, hlast, hc⟩
  exact ⟨e, (List.mem_filter.1 (List.mem_of_getLast? hlast)).1, f, size, hc⟩

/-- A committed object has a URI of the storage. -/
theorem uri_of_handle_completed {w : World} {uri : String}
    (h : cl.completed (handle env out cl w).1 = some uri) :
    ∃ key, uri = S3ObjectStorage.uri env key := by
  unfold Call.completed at h
  split at h
  · rename_i t f u parts uri' hans
    cases h
    rcases handle_completed env out w hans with ⟨_, _, _, _, huri, _⟩
    exact ⟨_, huri⟩
  · cases h

/-- A registration that is answered has written its entry. -/
theorem writesEntry_of_registered {w : World} {t : UUID} {cs uri : String}
    (h : cl.registered (handle env out cl w).1 = some (t, cs, uri)) :
    writesEntry t cs (⟨i, cl, (handle env out cl w).1, (handle env out cl w).2⟩ :
      Entry (service env)) = true := by
  unfold Call.registered at h
  split at h
  · rename_i t' f uri' size cs' hans
    cases h
    cases out with
    | works =>
        simp [writesEntry, handle, respond, RedisMetadataRegistry.registerFile,
          RedisMetadataRegistry.wiredTtl, World.dedup?]
    | raises msg => simp [handle, failed] at hans
    | raisesAfter msg => simp [handle, failed] at hans
  · cases h

/-- S3 answers with a URI that is not empty. -/
theorem EntriesStay.uris_answer (h : EntriesStay s) (hop : s.ops[i]? = some op) :
    ∀ (j : Nat) (op' : Op), s.ops[j]? = some op' → ∀ uri,
      (answered (s.answer i cl out) j op').uri = some uri → uri ≠ "" := by
  refine answered_forall_answer (P := fun _ _ l => ∀ uri, l.uri = some uri → uri ≠ "") hop ?_
    (fun j op' _ hj => h.uris j op' hj)
  intro uri huri
  rw [CommitLocal.next_uri, Option.or_eq_some_iff] at huri
  rcases huri with hnow | ⟨_, hwas⟩
  · rcases uri_of_handle_completed hnow with ⟨key, rfl⟩
    exact S3ObjectStorage.uri_ne_empty env key
  · exact h.uris i op hop uri hwas

/-- What is registered is registered for good. -/
theorem EntriesStay.entries_answer (h : EntriesStay s) (hop : s.ops[i]? = some op)
    (hallow : (answered s i op).allows cl) (t : UUID) (cs uri : String) (deadline : Option Nat)
    (hentry : (s.answer i cl out).world.dedup (t, cs) = some (uri, deadline)) :
    uri ≠ "" ∧ deadline = none := by
  rcases handle_dedup env out cl s.world t cs with hsame | ⟨f, uri', size, hc, hset⟩
  · exact h.entries t cs uri deadline (hsame.symm.trans hentry)
  · subst hc
    rcases hallow with ⟨_, v, _, huri, _⟩
    cases hset.symm.trans hentry
    exact ⟨h.uris i op hop uri huri, rfl⟩

/-- An entry that was written is still there. -/
theorem EntriesStay.kept_answer (h : EntriesStay s) (t : UUID) (cs : String) :
    ∀ e ∈ (s.answer i cl out).log, writesEntry t cs e →
      ((s.answer i cl out).world.dedup (t, cs)).isSome := by
  intro e he hwrites
  rcases List.mem_append.1 he with he | he
  · -- no call removes an entry
    have hthere := h.kept t cs e he hwrites
    rcases handle_dedup env out cl s.world t cs with hsame | ⟨f, uri, size, _, hset⟩
    · exact (congrArg Option.isSome hsame).trans hthere
    · exact congrArg Option.isSome hset
  · rw [List.mem_singleton.1 he] at hwrites
    rcases writesEntry_spec hwrites with ⟨f, uri, size, _, hentry⟩
    have hread : (handle env out cl s.world).2.dedup? t cs = some uri := hentry
    cases hraw : (handle env out cl s.world).2.dedup (t, cs) with
    | none => simp [World.dedup?, ExpiringMap.get, hraw] at hread
    | some entry => exact congrArg Option.isSome hraw

theorem EntriesStay.answer (h : EntriesStay s) (hop : s.ops[i]? = some op)
    (hallow : (answered s i op).allows cl) : EntriesStay (s.answer i cl out) := by
  constructor
  · exact h.registered.answer hop hallow
  · exact h.uris_answer hop
  · exact h.entries_answer hop hallow
  · exact h.kept_answer
  · intro e he t cs uri hreg
    rcases List.mem_append.1 he with he | he
    · exact h.writes e he t cs uri hreg
    · rw [List.mem_singleton.1 he] at hreg ⊢
      exact writesEntry_of_registered hreg
  · exact h.told.append h.toldTrue

end Step

theorem entriesStay_inductive (G : Run env → Label (service env) → Prop) :
    Inductive commitDiscipline CommitLocal.start G (fun s => EntriesStay s) where
  spawn := fun _ op _ hwf h => ⟨h.registered.spawn op,
    answered_forall_spawn (P := fun _ _ l => ∀ uri, l.uri = some uri → uri ≠ "") hwf
      (by simp [CommitLocal.start]) h.uris, h.entries, h.kept, h.writes, h.told⟩
  move := fun _ d _ h => ⟨h.registered.move d, h.uris, h.entries, h.kept, h.writes, h.told⟩
  call := fun _ _ _ _ _ _ hop _ h hallow => ⟨trivial, h.answer hop hallow⟩

/-! ## A later initiate -/

/-- A finalize has succeeded, and the session it has read is this one. -/
def FinalizedAs (c : Run env) (i : Nat) (v : UploadSession) : Prop :=
  (∃ sid a, c.ops[i]? = some (.finalize sid) ∧ c.result i = some (.ok a)) ∧
    v ∈ readsOf (callsOf i c.log)

/-- Request `j` has created no session, and has returned the URI of an object that has been
registered for this tenant and checksum, unless its lookup raised. -/
def Deduplicated (c : Run env) (j : Nat) (t : UUID) (cs : String) : Prop :=
  (∀ e ∈ callsOf j c.log, e.call.saves = false) ∧
    ((∃ uri, c.result j = some (.ok (.initiated (none, some uri))) ∧
        ∃ e ∈ c.log, ∃ f size, e.call = .registerFile t f uri size cs) ∨
      (∃ x, c.result j = some (.error x)) ∧
        ∃ e ∈ callsOf j c.log, e.call.lookupRaises e.resp = true)

/-- What the registry has told request `j` it has told after the entry of this tenant and
checksum had been written. -/
def AskedAfterWrite (c : Run env) (j : Nat) (t : UUID) (cs : String) : Prop :=
  Chronicle (fun log e => e.rid = j → (e.call.lookup e.resp).isSome →
    ∃ e' ∈ log, writesEntry t cs e') c.log

/-- A run from the empty service, with what the registry has told in it. -/
theorem reach_entriesStay {G : Run env → Label (service env) → Prop} {now : Nat} {c : Run env}
    (h : Reach G (Config.start (World.empty now)) c) : c.scene.Wf ∧ EntriesStay c.scene := by
  have hinit : EntriesStay (⟨World.empty now, [], []⟩ : Scene (service env)) :=
    ⟨⟨by simp [World.dedup?, World.empty], by simp, by simp⟩, by simp,
      by simp [World.empty, ExpiringMap.empty], by simp, by simp, by simp⟩
  rcases h.invariant commitPost (fun _ op _ => Commit.prog_obeys env op) (entriesStay_inductive G)
    hinit with ⟨hwf, hinv, _⟩
  exact ⟨hwf, hinv⟩

/-- A finalize that has succeeded has written the entry of its session. -/
theorem FinalizedAs.writes {now : Nat} {c : Run env} {i : Nat} {v : UploadSession}
    (h : Reach (fun _ _ => True) (Config.start (World.empty now)) c) (hfin : FinalizedAs c i v) :
    ∃ e ∈ c.log, writesEntry v.tenantId v.checksum e := by
  rcases hfin with ⟨⟨sid, a, hop, hres⟩, hread⟩
  rcases reach_assembled h with ⟨hinv, hpost⟩
  rcases hpost i _ _ hop hres a rfl with ⟨uri, _, _, hregistered, _⟩
  have hrec : Recorded (callsOf i c.log) (answered c.scene i (.finalize sid)) :=
    hinv.recorded i _ hop
  rcases hrec.registered hregistered with ⟨v', uri', hcopy, _, hregs⟩
  rw [hrec.reads, hcopy, Option.mem_toList] at hread
  cases hread
  have hmem : (v.tenantId, v.checksum, uri') ∈ registrationsOf (callsOf i c.log) := by
    rw [hregs]
    exact List.mem_singleton_self _
  rcases List.mem_filterMap.1 hmem with ⟨e, he, hreg⟩
  have hlog := (mem_callsOf.1 he).1
  exact ⟨e, hlog, (reach_entriesStay h).2.writes e hlog _ _ _ hreg⟩

/-- What initiate `j` has been told, and what it has come to. -/
theorem reach_told {G : Run env → Label (service env) → Prop} {now : Nat} {c : Run env} {j : Nat}
    {newId t f : UUID} {size : Int} {cs : String} {r : Except Exn Response}
    (h : Reach G (Config.start (World.empty now)) c)
    (hop : c.ops[j]? = some (.initiate newId t f size cs)) (hres : c.result j = some r) :
    registryPost (.initiate newId t f size cs) r (told c.scene j (.initiate newId t f size cs)) ∧
      ∀ found, (told c.scene j (.initiate newId t f size cs)).told = some found ↔
        ToldTo j c.log found := by
  rcases h.invariant registryPost (fun _ op _ => RegistryUse.prog_obeys env op)
    (toldInLog_inductive G) (by simp [ToldInLog]) with ⟨_, hinv, hobeys⟩
  exact ⟨hobeys j _ _ (request_of_result hop hres), hinv j _ hop newId t f size cs rfl⟩

/-- What is told to a request of a later run is told after all that was called before. -/
theorem ToldTo.later {G : Run env → Label (service env) → Prop} {now : Nat} {c₁ c₂ : Run env}
    {j : Nat} {found : UUID × String × Option String}
    (h₁ : Reach G (Config.start (World.empty now)) c₁) (h₂ : Reach G c₁ c₂)
    (hlater : c₁.requests.length ≤ j) (h : ToldTo j c₂.log found) :
    ∃ k e, c₂.log[k]? = some e ∧ e.rid = j ∧ e.call.lookup e.resp = some found ∧
      ∀ e' ∈ c₁.log, e' ∈ c₂.log.take k := by
  rcases h with ⟨e, he, hj, hfound⟩
  rcases List.mem_iff_getElem?.1 he with ⟨k, hk⟩
  refine ⟨k, e, hk, hj, hfound, ?_⟩
  rcases h₂.log_prefix with ⟨rest, hrest⟩
  have hlen : c₁.log.length ≤ k := by
    by_contra hlt
    rw [← hrest, List.getElem?_append_left (by omega)] at hk
    have hwf := (reach_entriesStay h₁).1 e (List.mem_of_getElem? hk)
    simp only [Config.scene, Config.ops, List.length_map] at hwf
    omega
  intro e' he'
  rw [← hrest, List.take_append]
  exact List.mem_append_left _ (by rwa [List.take_of_length_le hlen])

theorem saves_of_not_saved {calls : Log env} (h : calls.any (fun e => e.call.saves) = false) :
    ∀ e ∈ calls, e.call.saves = false := by
  simpa using h

/-- Dedup completeness: over all interleavings, failures and expiries, an initiate that is
made after a finalize of the same tenant has succeeded creates no session and returns a
registered URI, unless its lookup raises, exactly if it spells the checksum as that session
did, or the entry of its own spelling has been written before it asks. -/
theorem dedup_complete {now : Nat} {c₁ c₂ : Run env} {i j : Nat} {v : UploadSession}
    {newId f : UUID} {size : Int} {cs : String} {r : Except Exn Response}
    (h₁ : Reach (fun _ _ => True) (Config.start (World.empty now)) c₁)
    (hfin : FinalizedAs c₁ i v) (h₂ : Reach (fun _ _ => True) c₁ c₂)
    (hlater : c₁.requests.length ≤ j)
    (hop : c₂.ops[j]? = some (.initiate newId v.tenantId f size cs))
    (hres : c₂.result j = some r) :
    Deduplicated c₂ j v.tenantId cs ↔ cs = v.checksum ∨ AskedAfterWrite c₂ j v.tenantId cs := by
  have h := h₁.trans h₂
  rcases reach_told h hop hres with ⟨hpost, htold⟩
  have hsaved := told_saved c₂.scene j (.initiate newId v.tenantId f size cs)
  have hraised := told_raised c₂.scene j (.initiate newId v.tenantId f size cs)
  have htrue : Chronicle ToldTrue c₂.log := (reach_entriesStay h).2.told
  -- what the lookup was answered decides how the request went on
  rcases hpost with ⟨hnone, hraise, hsave, x, rfl⟩ | ⟨uri, hfound, hsave, rfl⟩ | ⟨hfound, hsave⟩
  · -- the lookup has failed, and the request with it
    refine iff_of_true ⟨?_, Or.inr ⟨⟨x, hres⟩, ?_⟩⟩ (Or.inr ?_)
    · exact saves_of_not_saved (hsaved.symm.trans hsave)
    · exact List.any_eq_true.1 (hraised.symm.trans hraise)
    · intro k e hk hj hlookup
      rcases Option.isSome_iff_exists.1 hlookup with ⟨found, hfound⟩
      have htold' := (htold found).2 ⟨e, List.mem_of_getElem? hk, hj, hfound⟩
      cases hnone.symm.trans htold'
  · -- it has been told of an entry, which has been written by then
    refine iff_of_true ⟨?_, Or.inl ⟨uri, hres, ?_⟩⟩ (Or.inr ?_)
    · exact saves_of_not_saved (hsaved.symm.trans hsave)
    · rcases (htold _).1 hfound with ⟨e, he, _, hlookup⟩
      rcases List.mem_iff_getElem?.1 he with ⟨k, hk⟩
      rcases (htrue k e hk _ _ _ hlookup).2 uri rfl with ⟨e', he', hreg⟩
      exact ⟨e', List.mem_of_mem_take he', hreg⟩
    · intro k e hk hj hlookup
      rcases Option.isSome_iff_exists.1 hlookup with ⟨found, hfound'⟩
      have htold' := (htold found).2 ⟨e, List.mem_of_getElem? hk, hj, hfound'⟩
      cases hfound.symm.trans htold'
      exact (htrue k e hk _ _ _ hfound').1.1 rfl
  · -- it has been told that there is none, and has saved a session
    refine iff_of_false ?_ ?_
    · intro hdedup
      rcases List.any_eq_true.1 (hsaved.symm.trans hsave) with ⟨e, he, hsaves⟩
      exact Bool.false_ne_true ((hdedup.1 e he).symm.trans hsaves)
    · intro hcond
      rcases ((htold _).1 hfound).later h₁ h₂ hlater with ⟨k, e, hk, hj, hlookup, hbefore⟩
      have hunwritten : ¬ ∃ e' ∈ c₂.log.take k, writesEntry v.tenantId cs e' := by
        intro hwritten
        cases (htrue k e hk _ _ _ hlookup).1.2 hwritten
      rcases hcond with rfl | hafter
      · rcases hfin.writes h₁ with ⟨e', he', hwrites⟩
        exact hunwritten ⟨e', hbefore e' he', hwrites⟩
      · exact hunwritten (hafter k e hk hj (by rw [hlookup]; rfl))

/-! ## Concrete runs -/

namespace Demo

/-- The digest of `a`, spelled in upper case. -/
def shouted : String := "CA978112CA1BBDCAFAC231B39A23DC4DA786EFF8147C4E72B9807785AFEE48BB"

/-- An initiate for the file of this digest. -/
def asking (cs : String) : Op := .initiate ⟨4⟩ tenant file 1 cs

/-- The finalize of the session has succeeded. -/
def finalized (c : Run Demo.env) : Bool :=
  (c.result 2).any (·.isOk) && c.ops[2]? = some (.finalize sid) &&
    readsOf (callsOf 2 c.log) = [complete] && c.requests.length = 3

theorem finalizedAs {c : Run Demo.env} (h : finalized c = true) :
    FinalizedAs c 2 complete ∧ c.requests.length = 3 := by
  simp only [finalized, Bool.and_eq_true, decide_eq_true_eq, Option.any_eq_true] at h
  rcases h with ⟨⟨⟨⟨r, hres, hok⟩, hop⟩, hreads⟩, hlen⟩
  cases r with
  | error x => cases hok
  | ok a => exact ⟨⟨⟨sid, a, hop, hres⟩, by simp [hreads]⟩, hlen⟩

end Demo

/-- The file is asked for again after it has been finalized. -/
theorem dedup_complete_demo :
    ∃ c : Run Demo.env, Reach (fun _ _ => True) (Config.start (World.empty 0)) c ∧
      c.ops[3]? = some (Demo.asking (Demo.sha256 Demo.a)) ∧
      Deduplicated c 3 Demo.tenant (Demo.sha256 Demo.a) := by
  have h : ((Config.start (World.empty 0)).play (fun _ _ => true)
      (Demo.oneByte (Demo.sha256 Demo.a))).any (fun c => Demo.finalized c &&
        (c.play (fun _ _ => true) (.spawn (Demo.asking (Demo.sha256 Demo.a)) ::
          Demo.calls 3 1)).any fun c' => c'.ops[3]? = some (Demo.asking (Demo.sha256 Demo.a)) ∧
            c'.result 3 = some (.ok (.initiated (none, some Demo.registeredUri)))) = true := by
    decide +kernel
  rcases exists_of_play (fun _ _ _ => trivial) _ h with ⟨c, hc, hcheck⟩
  rw [Bool.and_eq_true] at hcheck
  rcases Demo.finalizedAs hcheck.1 with ⟨hfin, hlen⟩
  rcases exists_of_play (fun _ _ _ => trivial) _ hcheck.2 with ⟨c', hc', hcheck'⟩
  rw [decide_eq_true_eq] at hcheck'
  exact ⟨c', hc.trans hc', hcheck'.1, (dedup_complete hc hfin hc' (Nat.le_of_eq hlen) hcheck'.1
    hcheck'.2).2 (Or.inl rfl)⟩

/-- Without the condition it fails: the same digest in upper case is not found, and a
session is created for the file that is already there. -/
theorem dedup_complete_fails :
    ∃ (c c' : Run Demo.env) (s : UploadSession),
      Reach (fun _ _ => True) (Config.start (World.empty 0)) c ∧ FinalizedAs c 2 Demo.complete ∧
      Reach (fun _ _ => True) c c' ∧ c.requests.length ≤ 3 ∧
      lower Demo.shouted = lower Demo.complete.checksum ∧
      c'.ops[3]? = some (.initiate ⟨4⟩ Demo.complete.tenantId Demo.file 1 Demo.shouted) ∧
      c'.result 3 = some (.ok (.initiated (some s, none))) ∧
      c'.world.session? s.sessionId = some s ∧
      ¬ Deduplicated c' 3 Demo.complete.tenantId Demo.shouted := by
  have h : ((Config.start (World.empty 0)).play (fun _ _ => true)
      (Demo.oneByte (Demo.sha256 Demo.a))).any (fun c => Demo.finalized c &&
        (c.play (fun _ _ => true) (.spawn (Demo.asking Demo.shouted) ::
          Demo.calls 3 2)).any fun c' => c'.ops[3]? = some (Demo.asking Demo.shouted) ∧
            c'.result 3 = some (.ok (.initiated
              (some (newSession ⟨4⟩ Demo.tenant Demo.file 1 Demo.shouted), none))) ∧
            c'.world.session? ⟨4⟩ =
              some (newSession ⟨4⟩ Demo.tenant Demo.file 1 Demo.shouted)) = true := by
    decide +kernel
  rcases exists_of_play (fun _ _ _ => trivial) _ h with ⟨c, hc, hcheck⟩
  rw [Bool.and_eq_true] at hcheck
  rcases Demo.finalizedAs hcheck.1 with ⟨hfin, hlen⟩
  rcases exists_of_play (fun _ _ _ => trivial) _ hcheck.2 with ⟨c', hc', hcheck'⟩
  rw [decide_eq_true_eq] at hcheck'
  rcases hcheck' with ⟨hop, hres, hstored⟩
  refine ⟨c, c', _, hc, hfin, hc', Nat.le_of_eq hlen, ?_, hop, hres, hstored, ?_⟩
  · decide +kernel
  · intro hdedup
    rcases hdedup.2 with ⟨uri, hreturned, _⟩ | ⟨⟨x, hraised⟩, _⟩
    · cases hres.symm.trans hreturned
    · cases hres.symm.trans hraised

end FileUploader
