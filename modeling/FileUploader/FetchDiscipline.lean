import FileUploader.CachedRun
import FileUploader.CommitDiscipline
import FileUploader.Footprint

/-! # The fetching discipline of finalize

The assembly looks the chunks of its session up one by one, from 0 on, until one is not there,
and completes the upload only then; it has deleted none before. What it has fetched is
therefore what was cached at 0, 1, 2, … when it looked.
-/

namespace FileUploader

open Await Prog

variable {env : Env}

/-- The call looks a chunk up for the assembly. -/
def Call.looksUp : Call → Bool
  | .chunkGet .. => true
  | _ => false

/-- What a request knows of the chunks of its session. -/
structure FetchLocal where
  op : Op
  /-- The payloads fetched so far, by index. -/
  found : List Bytes
  /-- The next one was not there. -/
  whole : Bool
  /-- The chunks have been asked to be deleted. -/
  purged : Bool

namespace FetchLocal

def start (op : Op) : FetchLocal := ⟨op, [], false, false⟩

def next (l : FetchLocal) : (c : Call) → Except Exn c.Resp → FetchLocal
  | .chunkGet _ _, .ok (some chunk) => { l with found := l.found ++ [chunk.rawBytes] }
  | .chunkGet _ _, .ok none => { l with whole := true }
  | .deleteAll _, _ => { l with purged := true }
  | _, _ => l

/-- Chunks are looked up in order until one is missing; a finalize stores none. -/
def allows (l : FetchLocal) : Call → Prop
  | .chunkGet sid index =>
      l.op = .finalize sid ∧ index = l.found.length ∧ l.whole = false ∧ l.purged = false
  | .completeMultipartUpload .. => l.whole = true ∧ ∃ sid, l.op = .finalize sid
  | .chunkSave _ _ => ∀ sid, l.op ≠ .finalize sid
  | _ => True

@[simp] theorem next_op (l : FetchLocal) (c : Call) (r : Except Exn c.Resp) :
    (l.next c r).op = l.op := by
  cases c with
  | chunkGet sid index => rcases r with x | _ | chunk <;> rfl
  | _ => rfl

theorem next_found (l : FetchLocal) (c : Call) (r : Except Exn c.Resp) :
    (l.next c r).found = l.found ++ ((c.fetched r).map (·.rawBytes)).toList := by
  cases c with
  | chunkGet sid index => rcases r with x | _ | chunk <;> simp [next, Call.fetched]
  | _ => simp [next, Call.fetched]

theorem next_purged {l : FetchLocal} {c : Call} {r : Except Exn c.Resp}
    (h : (l.next c r).purged = false) : l.purged = false := by
  cases c with
  | chunkGet sid index => rcases r with x | _ | chunk <;> exact h
  | deleteAll sid => cases h
  | _ => exact h

/-- Nothing is found any more behind the chunk that is missing. -/
theorem next_of_whole {l : FetchLocal} {c : Call} (r : Except Exn c.Resp) (hallow : l.allows c)
    (hwhole : l.whole = true) : (l.next c r).found = l.found ∧ (l.next c r).whole = true := by
  cases c with
  | chunkGet sid index =>
      rcases hallow with ⟨_, _, hmore, _⟩
      cases hwhole.symm.trans hmore
  | _ => exact ⟨rfl, hwhole⟩

end FetchLocal

def fetchDiscipline : Discipline Collab FetchLocal where
  next := FetchLocal.next
  allows := FetchLocal.allows
  expects := fun _ _ _ => True
  loops := fun _ => True

@[simp] theorem fetchDiscipline_next : fetchDiscipline.next = FetchLocal.next := rfl

@[simp] theorem fetchDiscipline_allows : fetchDiscipline.allows = FetchLocal.allows := rfl

@[simp] theorem fetchDiscipline_expects (l : FetchLocal) (c : Call) (r : Except Exn c.Resp) :
    fetchDiscipline.expects l c r = True := rfl

/-- A finalize that returns has come to the chunk that is missing. -/
def fetchPost : Op → Except Exn Response → FetchLocal → Prop
  | .finalize _, r, l => ∀ a, r = .ok a → l.whole = true
  | .initiate .., _, _ | .uploadChunk .., _, _ | .abort _, _, _ | .query _, _, _ => True

/-! ## The programs keep the discipline -/

/-- The call neither looks a chunk up for the assembly nor completes an upload, and leaves the
chunks as they are. -/
def Call.passesBy : Call → Bool
  | .chunkGet .. | .completeMultipartUpload .. | .chunkSave .. | .deleteAll _ => false
  | _ => true

/-- Calls that are not about chunks or commits are always allowed. -/
theorem FetchLocal.allows_of_passesBy (l : FetchLocal) {c : Call} (hc : c.passesBy) :
    l.allows c := by
  cases c with
  | chunkGet sid index => cases hc
  | completeMultipartUpload t f u parts => cases hc
  | chunkSave sid chunk => cases hc
  | deleteAll sid => cases hc
  | _ => trivial

theorem FetchLocal.next_of_passesBy (l : FetchLocal) {c : Call} (r : Except Exn c.Resp)
    (hc : c.passesBy) : l.next c r = l := by
  cases c with
  | chunkGet sid index => cases hc
  | completeMultipartUpload t f u parts => cases hc
  | chunkSave sid chunk => cases hc
  | deleteAll sid => cases hc
  | _ => rfl

namespace Fetch

/-- What makes no such calls knows as much of the chunks as before. -/
theorem keeps_fetched {α : Type} {p : Program α} (h : Makes (fun c : Call => c.passesBy) p)
    (l : FetchLocal) : Obeys fetchDiscipline p l (fun _ l' => l' = l) :=
  h.obeys (fun _ hc => l.allows_of_passesBy hc) (fun _ r hc => l.next_of_passesBy r hc) trivial

/-- Requests other than a finalize look nothing up and complete nothing. -/
theorem obeys_of_stores {op : Op} (env : Env) (hop : ∀ sid, op ≠ .finalize sid)
    (h : Makes (fun c : Call => c.passesBy ∨ (∃ sid chunk, c = .chunkSave sid chunk) ∨
      ∃ sid, c = .deleteAll sid) (Op.prog env op)) :
    Obeys fetchDiscipline (Op.prog env op) (FetchLocal.start op) fun _ l => l.op = op := by
  refine h.obeys_keeping ?_ ?_ (fun _ _ => trivial) rfl
  · rintro l c hl (hc | ⟨sid, chunk, rfl⟩ | ⟨sid, rfl⟩)
    · exact l.allows_of_passesBy hc
    · intro sid' hop'
      exact hop sid' (hl.symm.trans hop')
    · trivial
  · intro l c r hl _
    exact (FetchLocal.next_op l c r).trans hl

section Parts

variable {s : UploadSession} {sid : UUID} {l : FetchLocal}

/-- A scan deletes the chunks only if it then raises. -/
theorem scan_fetches : Obeys fetchDiscipline (FinalizeUploadUseCase.scan s sid) l
    (fun r l' => ∀ a, r = .ok a → l' = l) := by
  rw [FinalizeUploadUseCase.scan, obeys_tryExcept]
  refine (keeps_fetched (scanStream_makes fun _ => rfl) l).mono ?_
  rintro r _ rfl
  cases r with
  | ok a => simp
  | error x =>
      rw [Prog.onError_error]
      split
      · simp [SessionRepository.save, ChunkRepository.deleteAll, SessionRepository.delete,
          FetchLocal.allows]
      · simp

/-- The loop goes on up to the chunk that is missing. -/
theorem uploadParts_fetches {u : Nat} (hop : l.op = .finalize sid) (hfound : l.found = [])
    (hwhole : l.whole = false) (hpurged : l.purged = false) :
    Obeys fetchDiscipline (FinalizeUploadUseCase.uploadParts s sid u) l
      (fun r l' => l'.op = .finalize sid ∧ ∀ parts, r = .ok parts → l'.whole = true) := by
  -- the invariant of the loop: the part number is one above the chunks found
  refine obeys_loop (fun (round : Nat × List Part) l' => l'.op = .finalize sid ∧
    round.1 = l'.found.length + 1 ∧ l'.whole = false ∧ l'.purged = false)
    ⟨hop, by simp [hfound], hwhole, hpurged⟩ (fun _ _ _ => trivial) ?_
  intro round l' hI
  rcases round with ⟨partNumber, parts⟩
  rcases hI with ⟨hop', hnumber, hwhole', hpurged'⟩
  simp only at hnumber
  subst hnumber
  simp only [ChunkRepository.get, ObjectStorage.uploadPart, obeys_bind, obeys_await, Prog.onOk_ok,
    Prog.onOk_error, obeys_raise, Option.forall, obeys_pure, fetchDiscipline_next,
    fetchDiscipline_allows]
  refine ⟨⟨hop', by simp, hwhole', hpurged'⟩, ?_, ?_, ?_⟩
  · exact fun _ _ => ⟨hop', by simp⟩
  · exact fun _ => ⟨hop', fun _ _ => rfl⟩
  · intro chunk _
    refine ⟨trivial, fun _ _ => ⟨hop', by simp⟩, fun part _ => ?_⟩
    exact ⟨hop', by simp [FetchLocal.next], hwhole', hpurged'⟩

/-- An assembly that returns has seen the whole run. -/
theorem assemble_fetches (hop : l.op = .finalize sid) (hfound : l.found = [])
    (hwhole : l.whole = false) (hpurged : l.purged = false) :
    Obeys fetchDiscipline (FinalizeUploadUseCase.assemble s sid) l
      (fun r l' => ∀ s3Uri, r = .ok s3Uri → l'.whole = true) := by
  simp only [FinalizeUploadUseCase.assemble, ObjectStorage.initiateMultipartUpload,
    ObjectStorage.completeMultipartUpload, ObjectStorage.abortMultipartUpload,
    SessionRepository.save, obeys_bind, obeys_await, Prog.onOk_ok, Prog.onOk_error, obeys_raise,
    obeys_tryExcept, fetchDiscipline_next, fetchDiscipline_allows]
  refine ⟨trivial, by simp, fun u _ => ?_⟩
  refine (uploadParts_fetches (l := l) hop hfound hwhole hpurged).mono ?_
  intro r l' hr
  rcases hr with ⟨hop', hwhole'⟩
  cases r with
  | error x => simp [FetchLocal.allows]
  | ok parts =>
      have hmissing := hwhole' parts rfl
      simp only [Prog.onOk_ok, obeys_await, Prog.onError_ok, Prog.onError_error, obeys_bind,
        obeys_done, Prog.onOk_error, obeys_raise, fetchDiscipline_next, fetchDiscipline_allows]
      exact ⟨⟨hmissing, sid, hop'⟩, fun x _ => ⟨trivial, by simp, fun _ _ =>
        ⟨trivial, by simp, by simp⟩⟩, fun _ _ _ _ => hmissing⟩

/-- What follows the commit looks nothing up. -/
theorem publish_fetches {s3Uri : String} (hwhole : l.whole = true) :
    Obeys fetchDiscipline (FinalizeUploadUseCase.publish s sid s3Uri) l
      (fun _ l' => l'.whole = true) := by
  have hmakes : Makes (fun c : Call => c.passesBy ∨ c = .deleteAll sid)
      (FinalizeUploadUseCase.publish s sid s3Uri) :=
    publish_makes (Or.inl rfl) (fun _ => Or.inl rfl) (Or.inr rfl) (Or.inl rfl)
  refine hmakes.obeys_keeping ?_ ?_ (fun _ _ => trivial) hwhole
  · rintro l c _ (hc | rfl)
    · exact l.allows_of_passesBy hc
    · trivial
  · rintro l c r hl (hc | rfl)
    · rw [fetchDiscipline_next, l.next_of_passesBy r hc]
      exact hl
    · exact hl

/-- A finalize that returns has seen the run up to its first gap before it commits. -/
theorem finalize_fetches (env : Env) (sid : UUID) :
    Obeys fetchDiscipline (Op.prog env (.finalize sid)) (FetchLocal.start (.finalize sid))
      (fetchPost (.finalize sid)) := by
  -- the release keeps what the critical section has ended with
  have hrelease : ∀ (l : FetchLocal) (r : Except Exn String),
      (∀ a, r = .ok a → l.whole = true) →
      Obeys fetchDiscipline (SessionRepository.releaseLock sid) l (fun r' l' =>
        Obeys fetchDiscipline (Prog.onOk (fun _ => .done r) r') l' (fun r'' l'' =>
          Obeys fetchDiscipline (Prog.onOk (fun uri => pure (Response.finalized uri)) r'')
            l'' (fetchPost (.finalize sid)))) := by
    intro l r hr
    rw [SessionRepository.releaseLock, obeys_await]
    refine ⟨trivial, fun _ _ => by simp [fetchPost], fun _ _ => ?_⟩
    cases r with
    | error x => simp [fetchPost]
    | ok uri =>
        intro _ _
        exact hr uri rfl
  simp only [Op.prog, FinalizeUploadUseCase.execute, requireSession, SessionRepository.get,
    SessionRepository.acquireLock, obeys_bind, obeys_await, obeys_raiseIf, obeys_tryFinally,
    Prog.onOk_ok, Prog.onOk_error, obeys_raise, obeys_pure, Option.forall, Bool.forall_bool,
    fetchDiscipline_next, fetchDiscipline_allows]
  refine ⟨trivial, by simp [fetchPost], by simp [fetchPost], fun s _ => ?_⟩
  refine ⟨by simp [fetchPost], fun _ => ⟨by simp [fetchPost], fun _ =>
    ⟨by simp [fetchPost], fun _ => ⟨trivial, by simp [fetchPost], by simp [fetchPost],
      fun _ => ⟨by simp, fun _ => ?_⟩⟩⟩⟩⟩
  -- in the critical section
  refine (scan_fetches (l := FetchLocal.start (.finalize sid))).mono ?_
  intro r l' hr
  cases r with
  | error x => exact hrelease l' _ (by simp)
  | ok clean =>
      rcases hr clean rfl with rfl
      rw [Prog.onOk_ok, obeys_bind]
      refine (assemble_fetches rfl rfl rfl rfl).mono ?_
      intro r l' hr
      cases r with
      | error x => exact hrelease l' _ (by simp)
      | ok uri =>
          refine (publish_fetches (hr uri rfl)).mono fun r l'' hwhole => ?_
          exact hrelease l'' r fun _ _ => hwhole

end Parts

/-- Every request keeps the discipline, whatever it is answered. -/
theorem prog_fetches (env : Env) (op : Op) :
    Obeys fetchDiscipline (Op.prog env op) (FetchLocal.start op) (fetchPost op) := by
  cases op with
  | finalize sid => exact finalize_fetches env sid
  | initiate newId t f size cs =>
      exact (obeys_of_stores env (by simp) (initiate_makes (Or.inl rfl) (Or.inl rfl))).mono
        fun _ _ _ => trivial
  | uploadChunk sid index cs data =>
      refine (obeys_of_stores env (by simp) (upload_makes (Or.inl rfl) (Or.inl rfl) (Or.inl rfl)
        ?_ fun _ => Or.inl rfl)).mono fun _ _ _ => trivial
      exact fun chunk => Or.inr (Or.inl ⟨sid, chunk, rfl⟩)
  | abort sid =>
      refine (obeys_of_stores env (by simp) (abort_makes (Or.inl rfl) (Or.inl rfl) (Or.inl rfl)
        ?_ (Or.inl rfl))).mono fun _ _ _ => trivial
      exact Or.inr (Or.inr ⟨sid, rfl⟩)
  | query sid =>
      exact (obeys_of_stores env (by simp) (query_makes (Or.inl rfl))).mono fun _ _ _ => trivial

end Fetch

/-! ## In a run -/

/-- What request `i`, which asked for `op`, knows of the chunks. -/
@[reducible] def fetchedBy (s : Scene (service env)) (i : Nat) (op : Op) : FetchLocal :=
  s.localOf fetchDiscipline FetchLocal.start i op

theorem fetchedBy_op (s : Scene (service env)) (i : Nat) (op : Op) :
    (fetchedBy s i op).op = op :=
  replay_fixed (fun l => l.op) FetchLocal.next_op (FetchLocal.start op) (callsOf i s.log)

/-- The payloads found are those on record for the commit. -/
theorem fetchedBy_found (s : Scene (service env)) (i : Nat) (op : Op) :
    (fetchedBy s i op).found = (answered s i op).fetched := by
  have hfound := replay_flatMap (D := fetchDiscipline) (fun l => l.found) _ FetchLocal.next_found
    (FetchLocal.start op) (callsOf i s.log)
  have hfetched := replay_flatMap (D := commitDiscipline) (fun l => l.fetched) _
    CommitLocal.next_fetched (CommitLocal.start op) (callsOf i s.log)
  exact hfound.trans hfetched.symm

/-- The calls have looked up the chunk at `n`, and this is what was cached there. -/
def LookedUp (calls : Log env) (sid : UUID) (n : Nat) (found : Option Bytes) : Prop :=
  ∃ e ∈ calls, e.call = .chunkGet sid n ∧ e.world.fetched? sid n = found

/-- What a finalize has fetched, and that the next chunk is missing, it has seen in the cache. -/
structure Fetched (calls : Log env) (l : FetchLocal) : Prop where
  found : ∀ sid, l.op = .finalize sid → ∀ (n : Nat) data, l.found[n]? = some data →
    LookedUp calls sid n (some data)
  gap : ∀ sid, l.op = .finalize sid → l.whole = true → LookedUp calls sid l.found.length none

section Step

variable {calls : Log env} {l : FetchLocal} {sid : UUID} {n : Nat} {found : Option Bytes}

/-- What was looked up stays on record. -/
theorem LookedUp.append (h : LookedUp calls sid n found) (e : Entry (service env)) :
    LookedUp (calls ++ [e]) sid n found := by
  rcases h with ⟨e', he, hcall, hfound⟩
  exact ⟨e', List.mem_append_left _ he, hcall, hfound⟩

/-- A lookup is answered with what is cached, and changes nothing. -/
theorem LookedUp.of_chunkGet (calls : Log env) (i : Nat) {w : World} {r : Option Chunk}
    {out : Outcome} (h : (handle env out (.chunkGet sid n) w).1 = .ok r) :
    LookedUp (calls ++ [⟨i, .chunkGet sid n, (handle env out (.chunkGet sid n) w).1,
      (handle env out (.chunkGet sid n) w).2⟩]) sid n (r.map (·.rawBytes)) := by
  refine ⟨_, List.mem_append_right _ (List.mem_singleton.2 rfl), rfl, ?_⟩
  cases out with
  | works =>
      cases h
      rfl
  | raises msg => cases h
  | raisesAfter msg => cases h

/-- The next lookup of a finalize goes on record with what it found. -/
theorem Fetched.next {w : World} {i : Nat} {cl : Call} {out : Outcome} (h : Fetched calls l)
    (hallow : l.allows cl) :
    Fetched (calls ++ [⟨i, cl, (handle env out cl w).1, (handle env out cl w).2⟩])
      (l.next cl (handle env out cl w).1) := by
  have hsame : Fetched (calls ++ [⟨i, cl, (handle env out cl w).1, (handle env out cl w).2⟩]) l :=
    ⟨fun sid hop n data hn => (h.found sid hop n data hn).append _,
      fun sid hop hwhole => (h.gap sid hop hwhole).append _⟩
  cases cl with
  | chunkGet sid index =>
      rcases hallow with ⟨hop, rfl, hwhole, _⟩
      cases hr : (handle env out (.chunkGet sid l.found.length) w).1 with
      | error x =>
          rw [← hr, show l.next _ (handle env out _ w).1 = l by rw [hr]; rfl]
          exact hsame
      | ok r =>
          have hlooked := LookedUp.of_chunkGet calls i hr
          rw [← hr]
          cases r with
          | none =>
              rw [show l.next _ (handle env out _ w).1 = { l with whole := true } by rw [hr]; rfl]
              refine ⟨hsame.found, fun sid' hop' _ => ?_⟩
              cases hop.symm.trans hop'
              exact hlooked
          | some chunk =>
              rw [show l.next _ (handle env out _ w).1 =
                { l with found := l.found ++ [chunk.rawBytes] } by rw [hr]; rfl]
              refine ⟨fun sid' hop' n data hn => ?_, fun _ _ hw => ?_⟩
              · cases hop.symm.trans hop'
                -- found before, or by this call
                rcases getElem?_concat hn with hn | ⟨rfl, rfl⟩
                · exact hsame.found sid hop n data hn
                · exact hlooked
              · cases hwhole.symm.trans hw
  | deleteAll sid => exact ⟨hsame.found, hsame.gap⟩
  | _ => exact hsame

end Step

/-- What every finalize has fetched, it has seen in the cache. -/
def AllFetched (s : Scene (service env)) : Prop :=
  ∀ (i : Nat) (op : Op), s.ops[i]? = some op → Fetched (callsOf i s.log) (fetchedBy s i op)

theorem fetched_inductive (G : Run env → Label (service env) → Prop) :
    Inductive fetchDiscipline FetchLocal.start G (fun s => AllFetched s) where
  spawn := by
    intro c op _ hwf h
    refine Scene.forall_spawn (P := fun i _ l => Fetched (callsOf i c.log) l) hwf ?_ h
    exact ⟨by simp [FetchLocal.start], by simp [FetchLocal.start]⟩
  move := fun _ _ _ h => h
  call := by
    intro c i op cl out _ hop _ h hallow
    refine ⟨trivial, Scene.forall_answer (s := c.scene) (P := fun j _ l =>
      Fetched (callsOf j (c.scene.answer i cl out).log) l) hop ?_ fun j op' hj hop' => ?_⟩
    · rw [callsOf_answer_self]
      exact (h i op hop).next hallow
    · rw [callsOf_answer_other c.scene i cl out hj]
      exact h j op' hop'

/-- In every configuration reached, with what the requests may still do. -/
theorem reach_fetched {G : Run env → Label (service env) → Prop} {now : Nat} {c : Run env}
    (h : Reach G (Config.start (World.empty now)) c) :
    AllFetched c.scene ∧ ∀ i op p, c.requests[i]? = some ⟨op, p⟩ →
      Obeys fetchDiscipline p (fetchedBy c.scene i op) (fetchPost op) := by
  have hinit : AllFetched (⟨World.empty now, [], []⟩ : Scene (service env)) := by
    simp [AllFetched]
  exact (h.invariant fetchPost (fun _ op _ => Fetch.prog_fetches env op) (fetched_inductive G)
    hinit).2

section Runs

variable {calls : Log env} {l : FetchLocal} {sid : UUID} {datas : List Bytes}

/-- If the cache was the same at all lookups, all of its run is fetched. -/
theorem Fetched.run {f : Nat → Option Bytes} (h : Fetched calls l) (hop : l.op = .finalize sid)
    (hwhole : l.whole = true)
    (hsame : ∀ e ∈ calls, ∀ index, e.call = .chunkGet sid index → e.world.fetched? sid = f) :
    RunFrom f 0 l.found := by
  refine runFrom_iff.2 fun n hn => ?_
  rw [Nat.zero_add]
  cases hdata : l.found[n]? with
  | some data =>
      rcases h.found sid hop n data hdata with ⟨e, he, hcall, hfound⟩
      rw [← hsame e he _ hcall, hfound]
  | none =>
      rw [List.getElem?_eq_none_iff] at hdata
      rcases h.gap sid hop hwhole with ⟨e, he, hcall, hgap⟩
      rw [Nat.le_antisymm hn hdata, ← hsame e he _ hcall, hgap]

/-- If the run of cached chunks was the same at all lookups, it is what is fetched. -/
theorem Fetched.found_eq (h : Fetched calls l) (hop : l.op = .finalize sid)
    (hwhole : l.whole = true)
    (hdatas : ∀ e ∈ calls, ∀ index, e.call = .chunkGet sid index →
      RunFrom (e.world.fetched? sid) 0 datas) : l.found = datas := by
  apply eq_of_found
  · intro n data hn
    rcases h.found sid hop n data hn with ⟨e, he, hcall, hfound⟩
    exact ⟨_, hdatas e he _ hcall, hfound⟩
  · rcases h.gap sid hop hwhole with ⟨e, he, hcall, hgap⟩
    exact ⟨_, hdatas e he _ hcall, hgap⟩

end Runs

end FileUploader
