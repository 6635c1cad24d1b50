import Mathlib.Data.List.Perm.Subperm
import FileUploader.Await.Credit
import FileUploader.Assembly
import FileUploader.Footprint
import FileUploader.ScanBeforeCommit

/-! # Bounded work

The two loops of a finalize go on for as long as they find chunks, and while they run others
may store more of them. Still a finalize ends: whenever it goes on, a chunk has been stored at
an index that it had not come to before. How many calls it makes is bounded by the number of
indices at which saves of chunks of its session have been called, whether these have raised or
not (a save that raises may have stored its chunk); the calls of all other requests are
bounded outright.
-/

namespace FileUploader

open Await Prog

variable {env : Env}

/-! ## The credit of a finalize -/

/-- The index of a chunk that the scan has been given. -/
def Call.scanned : (c : Call) → Except Exn c.Resp → Option Int
  | .chunkPull _ index, .ok (some data) => if data = [] then none else some index
  | _, _ => none

/-- The index of a chunk that the assembly has found. -/
def Call.assembled : (c : Call) → Except Exn c.Resp → Option Int
  | .chunkGet _ index, .ok (some _) => some index
  | _, _ => none

theorem Call.scanned_eq_some {c : Call} {r : Except Exn c.Resp} {index : Int}
    (h : c.scanned r = some index) :
    ∃ sid data, c.pulled r = some (sid, index, some data) := by
  unfold Call.scanned at h
  split at h
  · rename_i sid index' data
    split at h
    · cases h
    · cases h
      exact ⟨sid, data, rfl⟩
  · cases h

theorem Call.assembled_eq_some {c : Call} {r : Except Exn c.Resp} {index : Int}
    (h : c.assembled r = some index) :
    ∃ sid chunk, c = .chunkGet sid index ∧ c.fetched r = some chunk := by
  unfold Call.assembled at h
  split at h
  · rename_i sid index' chunk
    cases h
    exact ⟨sid, chunk, rfl, rfl⟩
  · cases h

/-- The scan spends one call on a chunk, and the assembly two. -/
def Call.goesOn (c : Call) (r : Except Exn c.Resp) : Nat :=
  (c.scanned r).toList.length + 2 * (c.assembled r).toList.length

/-- The calls of a request that finds no chunks. -/
def Op.work : Op → Nat
  | .initiate .. => 2
  | .uploadChunk .. => 5
  | .finalize _ => 11
  | .abort _ => 5
  | .query _ => 1

/-- At least `n` is left of a part of a finalize that returns, and one for the release of the
lock in any case. -/
def Leaves {α : Type} (n : Nat) (r : Except Exn α) (l : Nat) : Prop :=
  1 ≤ l ∧ ∀ a, r = .ok a → n ≤ l

theorem Leaves.mono {α : Type} (n : Nat) (r : Except Exn α) (l l' : Nat) (hl : l ≤ l')
    (h : Leaves n r l) : Leaves n r l' :=
  ⟨Nat.le_trans h.1 hl, fun a ha => Nat.le_trans (h.2 a ha) hl⟩

section Parts

variable {s : UploadSession} {sid : UUID}

/-- A round of the scan that goes on costs nothing. -/
theorem scanStream_credit : Obeys (credit Call.goesOn)
    (LocalVirusScanner.scanStream (ChunkRepository.getStream sid) 0) 9 (fun _ l => 8 ≤ l) := by
  refine obeys_loop (fun _ l => l = 9) rfl (fun _ _ _ => trivial) ?_
  intro index l hl
  subst hl
  simp only [ChunkRepository.getStream, obeys_bind, obeys_await, Prog.onOk_ok, Prog.onOk_error,
    obeys_raise, Option.forall, obeys_pure, credit_allows, credit_next]
  refine ⟨by omega, by intro x _; omega, by intro _; omega, ?_⟩
  intro data _
  by_cases hempty : data = []
  · simp only [hempty, if_true, obeys_pure, Prog.onOk_ok]
    omega
  · simp only [hempty, if_false, obeys_pure, Prog.onOk_ok, obeys_bind, obeys_raiseIf,
      Prog.onOk_error, obeys_raise]
    constructor
    · intro _
      omega
    · intro _
      simp [Call.goesOn, Call.scanned, Call.assembled, hempty]

/-- The scan leaves enough for what follows it, or for the purge. -/
theorem scan_credit :
    Obeys (credit Call.goesOn) (FinalizeUploadUseCase.scan s sid) 9 (Leaves 8) := by
  rw [FinalizeUploadUseCase.scan, obeys_tryExcept]
  refine scanStream_credit.mono ?_
  intro r l hl
  cases r with
  | ok a => exact ⟨by omega, fun _ _ => hl⟩
  | error x =>
      -- the purge
      refine Obeys.richer ?_ (Leaves.mono 8) hl
      simp only [Prog.onError_error]
      split
      · simp [SessionRepository.save, ChunkRepository.deleteAll, SessionRepository.delete, Leaves,
          Call.goesOn, Call.scanned, Call.assembled]
      · simp [Leaves]

/-- A round of the assembly that goes on costs nothing. -/
theorem uploadParts_credit {u : Nat} :
    Obeys (credit Call.goesOn) (FinalizeUploadUseCase.uploadParts s sid u) 7
      (fun _ l => 6 ≤ l) := by
  refine obeys_loop (fun _ l => l = 7) rfl (fun _ _ _ => trivial) ?_
  intro round l hl
  subst hl
  rcases round with ⟨partNumber, parts⟩
  simp only [ChunkRepository.get, ObjectStorage.uploadPart, obeys_bind, obeys_await, Prog.onOk_ok,
    Prog.onOk_error, obeys_raise, Option.forall, obeys_pure, credit_allows, credit_next]
  refine ⟨by omega, by intro x _; omega, by intro _; omega, ?_⟩
  intro chunk _
  have hfound : (Call.chunkGet sid ((partNumber : Int) - 1)).goesOn (.ok (some chunk)) = 2 := rfl
  refine ⟨by omega, by intro x _; omega, ?_⟩
  intro part _
  rfl

/-- So does the assembly, or enough for the abort of the upload. -/
theorem assemble_credit :
    Obeys (credit Call.goesOn) (FinalizeUploadUseCase.assemble s sid) 8 (Leaves 5) := by
  have hgiveUp : ∀ (u : Nat) (x : Exn), Obeys (credit Call.goesOn) (do
      ObjectStorage.abortMultipartUpload s.tenantId s.fileId u
      SessionRepository.save s.fail
      raise (.runtimeError s!"S3 Multipart upload failed: {x.str}") : Program String) 5
      (Leaves 5) := by
    intro u x
    simp [ObjectStorage.abortMultipartUpload, SessionRepository.save, Leaves, Call.goesOn,
      Call.scanned, Call.assembled]
  simp only [FinalizeUploadUseCase.assemble, ObjectStorage.initiateMultipartUpload,
    ObjectStorage.completeMultipartUpload, obeys_bind, obeys_await, Prog.onOk_ok, Prog.onOk_error,
    obeys_raise, obeys_tryExcept, credit_allows, credit_next]
  refine ⟨by omega, by intro x _; exact ⟨by omega, fun _ h => by cases h⟩, ?_⟩
  intro u _
  refine uploadParts_credit.mono ?_
  intro r l hl
  cases r with
  | error x => exact (hgiveUp u x).richer (Leaves.mono 5) (by omega)
  | ok parts =>
      rw [Prog.onOk_ok, obeys_await]
      refine ⟨?_, ?_, ?_⟩
      · rw [credit_allows]
        omega
      · intro x _
        refine (hgiveUp u x).richer (Leaves.mono 5) ?_
        rw [credit_next]
        omega
      · intro s3Uri _
        rw [Prog.onError_ok, obeys_done, credit_next]
        exact ⟨by omega, fun _ _ => by omega⟩

theorem publish_credit {s3Uri : String} :
    Obeys (credit Call.goesOn) (FinalizeUploadUseCase.publish s sid s3Uri) 5 (Leaves 1) := by
  simp [FinalizeUploadUseCase.publish, MetadataRegistry.registerFile,
    EventPublisher.publishFileUploadCompleted, ChunkRepository.deleteAll, SessionRepository.delete,
    Leaves, Call.goesOn, Call.scanned, Call.assembled]
  cases s.complete with
  | error x => simp [Leaves]
  | ok _ => simp [Leaves, Call.goesOn, Call.scanned, Call.assembled]

end Parts

/-- A finalize gets by on eleven calls and what it is paid for the chunks it finds. -/
theorem finalize_credit (env : Env) (sid : UUID) :
    Obeys (credit Call.goesOn) (Op.prog env (.finalize sid)) 11 (fun _ _ => True) := by
  -- there is enough left for the release
  have hrelease : ∀ (r : Except Exn String) (l : Nat), 1 ≤ l →
      Obeys (credit Call.goesOn) (SessionRepository.releaseLock sid) l (fun r' l' =>
        Obeys (credit Call.goesOn) (Prog.onOk (fun _ => .done r) r') l' (fun r'' l'' =>
          Obeys (credit Call.goesOn) (Prog.onOk (fun uri => pure (Response.finalized uri)) r'')
            l'' fun _ _ => True)) := by
    intro r l hl
    rw [SessionRepository.releaseLock, obeys_await]
    refine ⟨hl, ?_, ?_⟩
    · intro x _
      trivial
    · intro _ _
      cases r with
      | error x => trivial
      | ok uri => trivial
  simp only [Op.prog, FinalizeUploadUseCase.execute, requireSession, SessionRepository.get,
    SessionRepository.acquireLock, obeys_bind, obeys_await, obeys_raiseIf, obeys_tryFinally,
    Prog.onOk_ok, Prog.onOk_error, obeys_raise, obeys_pure, Option.forall, Bool.forall_bool,
    credit_allows, credit_next, implies_true, true_and]
  refine ⟨by omega, fun s _ _ _ _ => ⟨by omega, ?_, fun _ _ => ?_⟩⟩
  · exact fun _ hfalse => absurd trivial hfalse
  -- in the critical section
  refine (scan_credit.richer (Leaves.mono 8) (by omega)).mono ?_
  intro r l hl
  cases r with
  | error x => exact hrelease _ l hl.1
  | ok clean =>
      rw [Prog.onOk_ok, obeys_bind]
      refine (assemble_credit.richer (Leaves.mono 5) (hl.2 clean rfl)).mono ?_
      intro r l hl
      cases r with
      | error x => exact hrelease _ l hl.1
      | ok uri =>
          refine (publish_credit.richer (Leaves.mono 1) (hl.2 uri rfl)).mono ?_
          intro r l hl
          exact hrelease r l hl.1

/-- Every request gets by on its credit. -/
theorem prog_credit (env : Env) (op : Op) :
    Obeys (credit Call.goesOn) (Op.prog env op) op.work (fun _ _ => True) := by
  cases op with
  | initiate newId t f size cs =>
      simp [Op.prog, Op.work, InitiateUploadUseCase.execute, MetadataRegistry.getByChecksum,
        SessionRepository.save, Option.forall, Call.goesOn, Call.scanned, Call.assembled]
  | uploadChunk sid index cs data =>
      simp [Op.prog, Op.work, UploadChunkUseCase.execute, UploadChunkUseCase.process,
        requireSession, SessionRepository.get, SessionRepository.acquireLock,
        SessionRepository.releaseLock, SessionRepository.save, ChunkRepository.save, Option.forall,
        Call.goesOn, Call.scanned, Call.assembled]
      intro s _ _ _ _ _ _
      cases s.updateOffset data.length with
      | error x => simp
      | ok updated => simp [Call.goesOn, Call.scanned, Call.assembled]
  | finalize sid => exact finalize_credit env sid
  | abort sid =>
      simp [Op.prog, Op.work, AbortUploadUseCase.execute, requireSession, SessionRepository.get,
        SessionRepository.acquireLock, SessionRepository.releaseLock, SessionRepository.delete,
        ChunkRepository.deleteAll, Option.forall, Call.goesOn, Call.scanned, Call.assembled]
  | query sid =>
      simp [Op.prog, Op.work, querySession, requireSession, SessionRepository.get, Option.forall]

/-! ## The indices that a finalize comes to -/

/-- The index at which a call saves a chunk of `sid`. -/
def Call.savedIn (sid : UUID) : Call → Option Int
  | .chunkSave sid' chunk => if sid' = sid then some chunk.index else none
  | _ => none

/-- The indices at which saves of chunks of `sid` have been called, the saves that raised among
them. -/
def savedAt (sid : UUID) (log : Log env) : List Int := log.filterMap fun e => e.call.savedIn sid

/-- Where these calls have been given a chunk to scan, and where they have found one to
assemble. -/
def scannedAt (calls : Log env) : List Int := calls.filterMap fun e => e.call.scanned e.resp
def assembledAt (calls : Log env) : List Int := calls.filterMap fun e => e.call.assembled e.resp

/-- What a finalize is paid for is what it has been given to scan and has found to assemble. -/
theorem paid_goesOn (calls : Log env) : paid Call.goesOn calls =
    (scannedAt calls).length + 2 * (assembledAt calls).length := by
  induction calls using List.reverseRecOn with
  | nil => rfl
  | append_singleton calls e ih =>
      have hscanned : scannedAt (calls ++ [e]) =
          scannedAt calls ++ (e.call.scanned e.resp).toList := filterMap_concat _ _ _
      have hassembled : assembledAt (calls ++ [e]) =
          assembledAt calls ++ (e.call.assembled e.resp).toList := filterMap_concat _ _ _
      rw [paid_append, ih, hscanned, hassembled, List.length_append, List.length_append,
        Call.goesOn]
      omega

theorem mem_savedAt_answer {s : Scene (service env)} (i : Nat) (cl : Call) (out : Outcome)
    {sid : UUID} {index : Int} (h : index ∈ savedAt sid s.log ∨ cl.savedIn sid = some index) :
    index ∈ savedAt sid (s.answer i cl out).log := by
  rw [savedAt, Scene.answer, filterMap_concat, List.mem_append]
  rcases h with h | h
  · exact Or.inl h
  · exact Or.inr (by simp [h])

/-- Different indices below `n`, each of a chunk whose save has been called. -/
structure Visited (op : Op) (log : Log env) (indices : List Int) (n : Nat) : Prop where
  nodup : indices.Nodup
  below : ∀ k ∈ indices, k < n
  saved : ∀ k ∈ indices, ∃ sid, op = .finalize sid ∧ k ∈ savedAt sid log

section Visited

variable {op : Op} {log log' : Log env} {indices : List Int} {n n' : Nat}

theorem Visited.mono (h : Visited op log indices n) (hn : n ≤ n')
    (hlog : ∀ sid k, k ∈ savedAt sid log → k ∈ savedAt sid log') :
    Visited op log' indices n' where
  nodup := h.nodup
  below := by
    intro k hk
    have hlt := h.below k hk
    omega
  saved := by
    intro k hk
    rcases h.saved k hk with ⟨sid, hop, hsaved⟩
    exact ⟨sid, hop, hlog sid k hsaved⟩

/-- The next index, if there is one, is a new one. -/
theorem Visited.next (h : Visited op log indices n) {index : Option Int} (hn : n ≤ n')
    (hlog : ∀ sid k, k ∈ savedAt sid log → k ∈ savedAt sid log')
    (hindex : ∀ k, index = some k → k = n ∧ n < n' ∧
      ∃ sid, op = .finalize sid ∧ k ∈ savedAt sid log) :
    Visited op log' (indices ++ index.toList) n' := by
  cases index with
  | none =>
      rw [Option.toList_none, List.append_nil]
      exact h.mono hn hlog
  | some k =>
      rcases hindex k rfl with ⟨rfl, hlt, sid, hop, hsaved⟩
      have hmem : ∀ k, k ∈ indices ++ [(n : Int)] → k ∈ indices ∨ k = n := by
        intro k hk
        rcases List.mem_append.1 hk with hk | hk
        · exact Or.inl hk
        · exact Or.inr (List.mem_singleton.1 hk)
      constructor
      · refine h.nodup.append (List.nodup_singleton _) ?_
        intro k hk hk'
        rw [Option.toList_some, List.mem_singleton] at hk'
        have hbelow := h.below k hk
        omega
      · intro k hk
        rcases hmem k hk with hk | rfl
        · have hbelow := h.below k hk
          omega
        · omega
      · intro k hk
        rcases hmem k hk with hk | rfl
        · rcases h.saved k hk with ⟨sid, hop, hsaved⟩
          exact ⟨sid, hop, hlog sid k hsaved⟩
        · exact ⟨sid, hop, hlog sid _ hsaved⟩

/-- There are no more of them than indices that chunks may be stored at. -/
theorem Visited.length_le {sid : UUID} (h : Visited (.finalize sid) log indices n)
    {stored : List Int} (hstored : savedAt sid log ⊆ stored) :
    indices.length ≤ stored.dedup.length := by
  refine (h.nodup.subperm fun k hk => ?_).length_le
  rcases h.saved k hk with ⟨sid', hop, hsaved⟩
  cases hop
  exact List.mem_dedup.2 (hstored hsaved)

/-- Only a finalize visits any. -/
theorem Visited.eq_nil (h : Visited op log indices n) (hop : ∀ sid, op ≠ .finalize sid) :
    indices = [] := by
  cases indices with
  | nil => rfl
  | cons k indices =>
      rcases h.saved k List.mem_cons_self with ⟨sid, hfin, _⟩
      exact absurd hfin (hop sid)

end Visited

/-! ## The invariant -/

/-- What is stored has been saved, and every finalize has come to new indices only. -/
structure Searched (s : Scene (service env)) : Prop where
  stored : ∀ sid index data, s.world.chunk? sid index = some data → index ∈ savedAt sid s.log
  scanned : ∀ (i : Nat) (op : Op), s.ops[i]? = some op →
    Visited op s.log (scannedAt (callsOf i s.log)) (answered s i op).pulls.length
  assembled : ∀ (i : Nat) (op : Op), s.ops[i]? = some op →
    Visited op s.log (assembledAt (callsOf i s.log)) (answered s i op).fetched.length

theorem visited_nil (op : Op) (log : Log env) : Visited op log [] 0 where
  nodup := List.nodup_nil
  below := fun _ hk => by cases hk
  saved := fun _ hk => by cases hk

section Step

variable {s : Scene (service env)} {i : Nat} {op : Op} {cl : Call} {out : Outcome}

/-- A chunk that is scanned is stored at the next index. -/
theorem Searched.scan (h : Searched s) (hop : s.ops[i]? = some op)
    (hallow : (answered s i op).allows cl) :
    Visited op (s.answer i cl out).log (scannedAt (callsOf i (s.answer i cl out).log))
      (answered (s.answer i cl out) i op).pulls.length := by
  rw [callsOf_answer_self, scannedAt, filterMap_concat, answered_answer_self,
    CommitLocal.next_pulls, List.length_append]
  refine (h.scanned i op hop).next (Nat.le_add_right _ _)
    (fun sid k hk => mem_savedAt_answer i cl out (Or.inl hk)) ?_
  intro k hk
  rcases Call.scanned_eq_some hk with ⟨sid, data, hpulled⟩
  rcases handle_pulled env out cl s.world hpulled with ⟨rfl, hstored⟩
  rcases hallow with ⟨hfin, _, hindex, _⟩
  refine ⟨hindex, ?_, sid, (answered_op s i op).symm.trans hfin, h.stored sid k data hstored⟩
  rw [hpulled]
  simp

/-- A chunk that is assembled is stored at the next index. -/
theorem Searched.assemble (h : Searched s) (hop : s.ops[i]? = some op)
    (hallow : (answered s i op).allows cl) :
    Visited op (s.answer i cl out).log (assembledAt (callsOf i (s.answer i cl out).log))
      (answered (s.answer i cl out) i op).fetched.length := by
  rw [callsOf_answer_self, assembledAt, filterMap_concat, answered_answer_self,
    CommitLocal.next_fetched, List.length_append]
  refine (h.assembled i op hop).next (Nat.le_add_right _ _)
    (fun sid k hk => mem_savedAt_answer i cl out (Or.inl hk)) ?_
  intro k hk
  rcases Call.assembled_eq_some hk with ⟨sid, chunk, rfl, hfetched⟩
  rcases hallow with ⟨hfin, _, _, hindex, _⟩
  have hsaved : k ∈ savedAt sid s.log := by
    rcases handle_fetched env out (.chunkGet sid k) s.world hfetched with ⟨sid', hc, hstored, _⟩
    cases hc
    exact h.stored sid _ chunk.rawBytes hstored
  refine ⟨hindex, ?_, sid, (answered_op s i op).symm.trans hfin, hsaved⟩
  rw [hfetched]
  simp

/-- A call comes to the next index if to any, where its chunk was stored before. -/
theorem Searched.answer (h : Searched s) (hop : s.ops[i]? = some op)
    (hallow : (answered s i op).allows cl) : Searched (s.answer i cl out) where
  stored := by
    intro sid index data hdata
    have hdata : (handle env out cl s.world).2.chunk? sid index = some data := hdata
    rcases chunk?_handle hdata with hwas | ⟨chunk, hc, hindex, _⟩
    · exact mem_savedAt_answer i cl out (Or.inl (h.stored sid index data hwas))
    · subst hc
      exact mem_savedAt_answer i _ out (Or.inr (by simp [Call.savedIn, hindex]))
  scanned := by
    intro j op' hj
    by_cases hij : j = i
    · subst hij
      have hop' : op = op' := Option.some.inj (hop.symm.trans hj)
      subst hop'
      exact h.scan hop hallow
    · rw [callsOf_answer_other s i cl out hij, answered_answer_other s i cl out hij]
      exact (h.scanned j op' hj).mono (Nat.le_refl _)
        fun sid k hk => mem_savedAt_answer i cl out (Or.inl hk)
  assembled := by
    intro j op' hj
    by_cases hij : j = i
    · subst hij
      have hop' : op = op' := Option.some.inj (hop.symm.trans hj)
      subst hop'
      exact h.assemble hop hallow
    · rw [callsOf_answer_other s i cl out hij, answered_answer_other s i cl out hij]
      exact (h.assembled j op' hj).mono (Nat.le_refl _)
        fun sid k hk => mem_savedAt_answer i cl out (Or.inl hk)

end Step

theorem searched_inductive (env : Env) (G : Run env → Label (service env) → Prop) :
    Inductive commitDiscipline CommitLocal.start G Searched where
  spawn := by
    intro c op _ hwf h
    have hnone := hwf.callsOf_eq_nil
    refine ⟨h.stored, ?_, ?_⟩
    · refine answered_forall_spawn (P := fun i op l =>
        Visited op c.scene.log (scannedAt (callsOf i c.scene.log)) l.pulls.length) hwf ?_ h.scanned
      rw [hnone]
      exact visited_nil op _
    · refine answered_forall_spawn (P := fun i op l =>
        Visited op c.scene.log (assembledAt (callsOf i c.scene.log)) l.fetched.length) hwf ?_
        h.assembled
      rw [hnone]
      exact visited_nil op _
  move := by
    intro c d _ h
    refine ⟨?_, h.scanned, h.assembled⟩
    intro sid index data hdata
    exact h.stored sid index data (c.world.chunks.get_of_get_later (Nat.le_add_right _ d) hdata)
  call := by
    intro c i op cl out _ hop _ h hallow
    exact ⟨trivial, h.answer hop hallow⟩

theorem searched_empty (env : Env) (now : Nat) :
    Searched (⟨World.empty now, [], []⟩ : Scene (service env)) := by
  constructor
  · intro sid index data hdata
    cases hdata
  · intro i op hop
    cases hop
  · intro i op hop
    cases hop

/-! ## The bound -/

/-- The most calls that a request makes when chunks are stored at these indices only. -/
def Op.mostCalls (stored : UUID → List Int) : Op → Nat
  | .finalize sid => 11 + 3 * (stored sid).dedup.length
  | op => op.work

/-- The credit of a request bounds its calls, and the indices it comes to bound its credit. -/
theorem calls_le_mostCalls {now : Nat} {c : Run env}
    (h : Reach (fun _ _ => True) (Config.start (World.empty now)) c) {i : Nat} {op : Op}
    (hop : c.ops[i]? = some op) {stored : UUID → List Int}
    (hstored : ∀ sid, savedAt sid c.log ⊆ stored sid) :
    (callsOf i c.log).length ≤ op.mostCalls stored := by
  have hcredit := h.calls_le (prog_credit env) hop
  have hinv := (h.invariant commitPost (fun _ op _ => Commit.prog_obeys env op)
    (searched_inductive env _) (searched_empty env now)).2.1
  have hscanned := hinv.scanned i op hop
  have hassembled := hinv.assembled i op hop
  rw [paid_goesOn] at hcredit
  -- only a finalize is paid for what it finds
  have hother : (∀ sid, op ≠ .finalize sid) → (callsOf i c.log).length ≤ op.work := by
    intro hne
    have hscans : scannedAt (callsOf i c.log) = [] := hscanned.eq_nil hne
    have hassembles : assembledAt (callsOf i c.log) = [] := hassembled.eq_nil hne
    rw [hscans, hassembles] at hcredit
    simpa using hcredit
  cases op with
  | initiate newId t f size cs => exact hother fun _ => by simp
  | uploadChunk sid index cs data => exact hother fun _ => by simp
  | finalize sid =>
      have hscans : (scannedAt (callsOf i c.log)).length ≤ _ := hscanned.length_le (hstored sid)
      have hassembles : (assembledAt (callsOf i c.log)).length ≤ _ :=
        hassembled.length_le (hstored sid)
      have hwork : (Op.finalize sid).work = 11 := rfl
      rw [Op.mostCalls]
      omega
  | abort sid => exact hother fun _ => by simp
  | query sid => exact hother fun _ => by simp

/-- In every run, with any interleaving, delays and failures, no request has made more calls
than this at any time: a finalize three for every index at which a save of a chunk of its
session has been called, and eleven besides. -/
theorem bounded_work {now : Nat} {c : Run env}
    (h : Reach (fun _ _ => True) (Config.start (World.empty now)) c) {i : Nat} {op : Op}
    (hop : c.ops[i]? = some op) :
    (callsOf i c.log).length ≤ op.mostCalls fun sid => savedAt sid c.log :=
  calls_le_mostCalls h hop fun _ => List.Subset.refl _

/-- A finalize of one chunk makes fourteen calls, and that is the bound. -/
theorem bounded_work_demo : ∃ c : Run Demo.env,
    Reach (fun _ _ => True) (Config.start (World.empty 0)) c ∧
      (callsOf 3 c.log).length ≤
        (Op.finalize Demo.sid).mostCalls (fun sid => savedAt sid c.log) ∧
      (callsOf 3 c.log).length = 14 ∧
      (Op.finalize Demo.sid).mostCalls (fun sid => savedAt sid c.log) = 14 := by
  have h : ((Config.start (World.empty 0)).play (fun _ _ => true)
      (Demo.storedOnce ++ Demo.scanning 3 1 ++ Demo.committing 3 1)).any (fun c =>
        c.ops[3]? = some (.finalize Demo.sid) ∧ (callsOf 3 c.log).length = 14 ∧
          (Op.finalize Demo.sid).mostCalls (fun sid => savedAt sid c.log) = 14) = true := by
    decide +kernel
  rcases exists_of_play (fun _ _ _ => trivial) _ h with ⟨c, hc, hcheck⟩
  simp only [decide_eq_true_eq] at hcheck
  rcases hcheck with ⟨hop, hcalls⟩
  exact ⟨c, hc, bounded_work hc hop, hcalls⟩

/-! ## The service comes to rest -/

/-- The index at which an upload asks for a chunk of `sid` to be stored. -/
def Op.storesIn (sid : UUID) : Op → Option Int
  | .uploadChunk sid' index _ _ => if sid' = sid then some index else none
  | _ => none

/-- The indices at which these requests ask for chunks of `sid` to be stored. -/
def requestedAt (sid : UUID) (ops : List Op) : List Int := ops.filterMap fun op => op.storesIn sid

/-- A request stores chunks only where it has been asked to. -/
def Op.StoresAsAsked (op : Op) (c : Call) : Prop :=
  ∀ sid index, c.savedIn sid = some index → op.storesIn sid = some index

/-- Only an upload stores chunks, one at the index that it names. -/
theorem prog_storesAsAsked (env : Env) (op : Op) : Makes op.StoresAsAsked (Op.prog env op) := by
  have hother : ∀ c : Call, (∀ sid, c.savedIn sid = none) → op.StoresAsAsked c := by
    intro c hnone sid index hsaved
    rw [hnone] at hsaved
    cases hsaved
  cases op with
  | initiate newId t f size cs =>
      exact initiate_makes (hother _ fun _ => rfl) (hother _ fun _ => rfl)
  | uploadChunk sid index cs data =>
      refine makes_bind (makes_bind (requireSession_makes (hother _ fun _ => rfl)) fun v => ?_)
        fun _ => makes_pure _
      refine makes_bind (makes_raiseIf _ _) fun _ => ?_
      refine locking_makes (hother _ fun _ => rfl) (hother _ fun _ => rfl) ?_
      refine makes_bind (makes_raiseIf _ _) fun _ => makes_bind (makes_raiseIf _ _) fun _ => ?_
      refine makes_bind (makes_raiseIf _ _) fun _ => ?_
      refine makes_bind ((makes_ask _).2 fun _ _ hsaved => hsaved) fun _ => ?_
      refine makes_bind (makes_ofExcept (S := Collab) _) fun updated => ?_
      exact makes_bind ((makes_ask _).2 (hother _ fun _ => rfl)) fun _ => makes_pure (S := Collab) _
  | finalize sid =>
      exact finalize_makes (hother _ fun _ => rfl) (hother _ fun _ => rfl) (hother _ fun _ => rfl)
        (fun _ => hother _ fun _ => rfl) (fun _ => hother _ fun _ => rfl) (hother _ fun _ => rfl)
        (hother _ fun _ => rfl) (fun _ => hother _ fun _ => rfl) (fun _ _ => hother _ fun _ => rfl)
        (fun _ _ _ _ _ => hother _ fun _ => rfl) (fun _ _ _ _ => hother _ fun _ => rfl)
        (fun _ _ _ => hother _ fun _ => rfl) (fun _ _ _ _ _ => hother _ fun _ => rfl)
        fun _ => hother _ fun _ => rfl
  | abort sid =>
      exact abort_makes (hother _ fun _ => rfl) (hother _ fun _ => rfl) (hother _ fun _ => rfl)
        (hother _ fun _ => rfl) (hother _ fun _ => rfl)
  | query sid => exact query_makes (hother _ fun _ => rfl)

/-- What has been stored, has been asked for. -/
theorem savedAt_subset {w : World} {c : Run env} (h : Reach (fun _ _ => True) (Config.start w) c)
    (sid : UUID) : savedAt sid c.log ⊆ requestedAt sid c.ops := by
  intro index hsaved
  rcases List.mem_filterMap.1 hsaved with ⟨e, he, hindex⟩
  rcases h.logged (prog_storesAsAsked env) e he with ⟨op, hop, hasked⟩
  exact List.mem_filterMap.2 ⟨op, List.mem_of_getElem? hop, hasked sid index hindex⟩

/-- In every run, with any interleaving, delays and failures, the calls of all requests
together are bounded by what has been requested: once no new requests come in, there is only
so much left to do. -/
theorem work_ends {now : Nat} {c : Run env}
    (h : Reach (fun _ _ => True) (Config.start (World.empty now)) c) :
    c.log.length ≤ (c.ops.map (Op.mostCalls fun sid => requestedAt sid c.ops)).sum := by
  refine length_le_sum c.ops c.log (fun e he => ?_) fun i op hop => ?_
  · rcases h.logged (prog_storesAsAsked env) e he with ⟨op, hop, _⟩
    exact (List.getElem?_eq_some_iff.1 hop).1
  · exact calls_le_mostCalls h hop (savedAt_subset h)

/-- An initiate, two uploads of one chunk and a finalize: at most twenty-six calls, of which
twenty-two have been made. -/
theorem work_ends_demo : ∃ c : Run Demo.env,
    Reach (fun _ _ => True) (Config.start (World.empty 0)) c ∧
      c.log.length ≤ (c.ops.map (Op.mostCalls fun sid => requestedAt sid c.ops)).sum ∧
      c.log.length = 22 ∧
      (c.ops.map (Op.mostCalls fun sid => requestedAt sid c.ops)).sum = 26 := by
  have h : ((Config.start (World.empty 0)).play (fun _ _ => true)
      (Demo.storedOnce ++ Demo.scanning 3 1 ++ Demo.committing 3 1)).any (fun c =>
        c.log.length = 22 ∧
          (c.ops.map (Op.mostCalls fun sid => requestedAt sid c.ops)).sum = 26) = true := by
    decide +kernel
  rcases exists_of_play (fun _ _ _ => trivial) _ h with ⟨c, hc, hcheck⟩
  simp only [decide_eq_true_eq] at hcheck
  exact ⟨c, hc, work_ends hc, hcheck⟩

end FileUploader
