import FileUploader.CommitDiscipline

/-! # Scan before commit

A finalize reads the chunks of its session twice: the scanner pulls them as a
stream, and the assembly fetches them one by one. What is uploaded has been
scanned, over all interleavings, delays and failures, as long as nobody stores
other bytes at an index that a finalize has pulled and not yet fetched.
-/

namespace FileUploader

open Await

variable {env : Env}

/-- What a logged call pulled through the scanner: session, index and answer. -/
def pulled (e : Entry (service env)) : Option (UUID × Int × Option Bytes) := e.call.pulled e.resp

/-- The scan among these calls of one request has returned clean: it came to the
end of the stream, and no chunk it was given had a signature in it. -/
def ScannedClean (sid : UUID) (calls : Log env) : Prop :=
  (∀ e ∈ calls, ∀ index data, pulled e = some (sid, index, some data) →
    ¬ LocalVirusScanner.eicarSignature <:+: data) ∧
  ∃ e ∈ calls, ∃ index r, pulled e = some (sid, index, r) ∧ (r = none ∨ r = some [])

/-- Whatever a finalize uploads as part `n`, its scan was given at index `n - 1`
before, and that scan had returned clean. -/
def ScannedBefore (ops : List Op) (before : Log env) (e : Entry (service env)) : Prop :=
  ∀ t f u n data, e.call = .uploadPart t f u n data →
    ∃ sid, ops[e.rid]? = some (.finalize sid) ∧ data ≠ [] ∧
      (∃ e' ∈ callsOf e.rid before, pulled e' = some (sid, (n : Int) - 1, some data)) ∧
      ScannedClean sid (callsOf e.rid before)

/-- Request `i` is a finalize of `sid` that has pulled `index`, and neither fetched
it yet nor released its lock; if so, its scan was given `data` there. -/
def pulledIs (s : Scene (service env)) (sid : UUID) (i : Nat) (index : Int) (data : Bytes) : Bool :=
  match s.ops[i]? with
  | some (.finalize sid') =>
      let l := answered s i (.finalize sid')
      sid' = sid ∧ l.ended = false ∧ 0 ≤ index ∧ l.fetched.length ≤ index.toNat →
        l.pulls[index.toNat]?.all fun r => r = some data
  | _ => true

/-- A chunk is stored at an index that a running finalize has yet to fetch only with
the bytes that its scan was given there. -/
def savesScanned (c : Run env) : Label (service env) → Bool
  | .call i _ =>
      match c.pending i with
      | some (.chunkSave sid chunk) =>
          (List.range c.ops.length).all fun j =>
            pulledIs c.scene sid j chunk.index chunk.rawBytes
      | _ => true
  | _ => true

/-! ## The invariant -/

/-- The calls that gave the answers are in the log, what is stored where a finalize
has yet to fetch is what it has pulled, and so is what it has fetched. -/
structure Screened (s : Scene (service env)) : Prop where
  logged : ∀ (i : Nat) (op : Op), s.ops[i]? = some op → ∀ (k : Nat) r,
    (answered s i op).pulls[k]? = some r →
      ∃ sid, op = .finalize sid ∧ ∃ e ∈ callsOf i s.log, pulled e = some (sid, (k : Int), r)
  complete : ∀ (i : Nat) (op : Op), s.ops[i]? = some op → ∀ e ∈ callsOf i s.log,
    ∀ sid index r, pulled e = some (sid, index, r) → r ∈ (answered s i op).pulls
  stored : ∀ (i : Nat) (op : Op), s.ops[i]? = some op → (answered s i op).ended = false →
    ∀ sid, op = .finalize sid → ∀ (k : Nat) r, (answered s i op).pulls[k]? = some r →
      (answered s i op).fetched.length ≤ k → ∀ data, s.world.chunk? sid k = some data →
        r = some data
  matched : ∀ (i : Nat) (op : Op), s.ops[i]? = some op → ∀ (k : Nat) data,
    (answered s i op).fetched[k]? = some data →
      data ≠ [] ∧ (answered s i op).pulls[k]? = some (some data)
  history : Chronicle (ScannedBefore s.ops) s.log

section Step

variable {s : Scene (service env)} {i : Nat} {op : Op} {cl : Call} {out : Outcome}

/-- What is stored at an index after a call was stored before, or is what the call
has just stored. -/
theorem chunk?_handle {w : World} {sid : UUID} {index : Int} {data : Bytes}
    (h : (handle env out cl w).2.chunk? sid index = some data) :
    w.chunk? sid index = some data ∨
      ∃ chunk, cl = .chunkSave sid chunk ∧ chunk.index = index ∧ chunk.rawBytes = data := by
  rcases handle_chunk? env out cl w sid index with ⟨hsame, _⟩ | ⟨chunk, hc, hindex, hset, _⟩ |
    ⟨_, hnone, _⟩
  · exact Or.inl (hsame.symm.trans h)
  · exact Or.inr ⟨chunk, hc, hindex, Option.some.inj (hset.symm.trans h)⟩
  · cases hnone.symm.trans h

/-- An index that is fetched with bytes has been pulled: the scan did not end
before it. -/
theorem Screened.lt_pulls (h : Screened s) (hop : s.ops[i]? = some op)
    (hclean : CommitLocal.Clean (answered s i op).pulls) :
    (answered s i op).fetched.length < (answered s i op).pulls.length := by
  rcases hclean with ⟨passed, last, hpulls, _, hlast⟩
  by_contra hlong
  have hlen : (answered s i op).pulls.length = passed.length + 1 := by simp [hpulls]
  have hk : passed.length < (answered s i op).fetched.length := by omega
  rcases h.matched i op hop passed.length _ (List.getElem?_eq_getElem hk) with ⟨hne, hpull⟩
  have hend : (answered s i op).pulls[passed.length]? = some last := by simp [hpulls]
  have heq := Option.some.inj (hend.symm.trans hpull)
  rcases hlast with rfl | rfl
  · cases heq
  · exact hne (Option.some.inj heq).symm

/-- After a call, every finalize still finds stored what it has pulled. -/
theorem Screened.stored_answer (h : Screened s) (hop : s.ops[i]? = some op)
    (hallow : (answered s i op).allows cl)
    (hguard : ∀ sid chunk, cl = .chunkSave sid chunk → ∀ j,
      pulledIs s sid j chunk.index chunk.rawBytes) :
    ∀ (j : Nat) (op' : Op), s.ops[j]? = some op' →
      (answered (s.answer i cl out) j op').ended = false →
      ∀ sid, op' = .finalize sid → ∀ (k : Nat) r,
        (answered (s.answer i cl out) j op').pulls[k]? = some r →
          (answered (s.answer i cl out) j op').fetched.length ≤ k →
            ∀ data, (handle env out cl s.world).2.chunk? sid k = some data → r = some data := by
  -- what was pulled before the call
  have hold : ∀ (j : Nat) (op' : Op), s.ops[j]? = some op' → (answered s j op').ended = false →
      ∀ sid, op' = .finalize sid → ∀ (k : Nat) r, (answered s j op').pulls[k]? = some r →
        (answered s j op').fetched.length ≤ k →
          ∀ data, (handle env out cl s.world).2.chunk? sid k = some data → r = some data := by
    intro j op' hj hended sid hfin k r hr hlen data hdata
    rcases chunk?_handle hdata with hwas | ⟨chunk, hc, hindex, hbytes⟩
    · exact h.stored j op' hj hended sid hfin k r hr hlen data hwas
    · subst hfin
      have hsaved := hguard sid chunk hc j
      simp only [pulledIs, hj, hindex, hbytes, decide_eq_true_eq, hended, Int.toNat_natCast]
        at hsaved
      have hall := hsaved ⟨trivial, trivial, Int.natCast_nonneg k, hlen⟩
      rw [hr] at hall
      simpa using hall
  refine answered_forall_answer (P := fun _ op' l => l.ended = false → ∀ sid, op' = .finalize sid →
    ∀ (k : Nat) r, l.pulls[k]? = some r → l.fetched.length ≤ k →
      ∀ data, (handle env out cl s.world).2.chunk? sid k = some data → r = some data) hop ?_
    (fun j op' _ hj => hold j op' hj)
  -- the caller itself: the pull may be this call
  intro hended sid hfin k r hr hlen data hdata
  have hended' := CommitLocal.next_ended hended
  rw [CommitLocal.next_fetched, List.length_append] at hlen
  rw [CommitLocal.next_pulls] at hr
  cases hp : cl.pulled (handle env out cl s.world).1 with
  | none =>
      rw [hp] at hr
      exact hold i op hop hended' sid hfin k r (by simpa using hr) (by omega) data hdata
  | some answer =>
      rcases answer with ⟨sid', index, r'⟩
      rcases handle_pulled env out cl s.world hp with ⟨hc, hchunk⟩
      rw [hp] at hr
      rcases getElem?_concat hr with hr | ⟨hk, hrr⟩
      · exact hold i op hop hended' sid hfin k r hr (by omega) data hdata
      · -- the index pulled by this call
        simp only at hrr
        subst hc hrr hfin
        rcases hallow with ⟨hsid, _, hindex, _⟩
        have hops := answered_op s i (.finalize sid)
        rw [hops] at hsid
        cases hsid
        rcases chunk?_handle hdata with hwas | ⟨chunk, hc, _⟩
        · rw [hindex, ← hk] at hchunk
          exact hchunk.symm.trans hwas
        · cases hc

/-- What has been fetched is still what has been pulled. -/
theorem Screened.matched_answer (h : Screened s) (hop : s.ops[i]? = some op)
    (hallow : (answered s i op).allows cl) :
    ∀ (j : Nat) (op' : Op), s.ops[j]? = some op' → ∀ (k : Nat) data,
      (answered (s.answer i cl out) j op').fetched[k]? = some data →
        data ≠ [] ∧ (answered (s.answer i cl out) j op').pulls[k]? = some (some data) := by
  refine answered_forall_answer (P := fun _ _ l => ∀ (k : Nat) data, l.fetched[k]? = some data →
    data ≠ [] ∧ l.pulls[k]? = some (some data)) hop ?_ (fun j op' _ hj => h.matched j op' hj)
  intro k data hk
  rw [CommitLocal.next_pulls]
  -- an index that has been pulled before stays pulled
  have hkeep : ∀ rest, data ≠ [] ∧ (answered s i op).pulls[k]? = some (some data) →
      data ≠ [] ∧ ((answered s i op).pulls ++ rest)[k]? = some (some data) := by
    intro rest hpulled
    rcases List.getElem?_eq_some_iff.1 hpulled.2 with ⟨hlt, _⟩
    exact ⟨hpulled.1, by rw [List.getElem?_append_left hlt]; exact hpulled.2⟩
  rw [CommitLocal.next_fetched] at hk
  cases hf : cl.fetched (handle env out cl s.world).1 with
  | none =>
      rw [hf] at hk
      exact hkeep _ (h.matched i op hop k data (by simpa using hk))
  | some chunk =>
      rcases handle_fetched env out cl s.world hf with ⟨sid, hc, hchunk, hne⟩
      rw [hf] at hk
      rcases getElem?_concat hk with hk | ⟨hlen, hdata⟩
      · exact hkeep _ (h.matched i op hop k data hk)
      · -- the index fetched by this call
        subst hc hdata
        rcases hallow with ⟨hfin, hended, hclean, hindex, _⟩
        rw [answered_op] at hfin
        have hlt := h.lt_pulls hop hclean
        rw [← hlen] at hlt
        have hr := List.getElem?_eq_getElem hlt
        rw [hindex, ← hlen] at hchunk
        have heq := h.stored i op hop hended sid hfin k _ hr (by omega) _ hchunk
        exact hkeep _ ⟨hne, by rw [hr, heq]⟩

/-- What is uploaded has been scanned. -/
theorem Screened.scanned (h : Screened s) (hop : s.ops[i]? = some op)
    (hallow : (answered s i op).allows cl) :
    ScannedBefore s.ops s.log
      ⟨i, cl, (handle env out cl s.world).1, (handle env out cl s.world).2⟩ := by
  intro t f u n data hc
  simp only at hc
  subst hc
  rcases hallow with ⟨hclean, _, _, hn, hlast, _⟩
  have hpos : 0 < (answered s i op).fetched.length := by
    cases hf : (answered s i op).fetched with
    | nil => simp [hf] at hlast
    | cons => simp
  have hget : (answered s i op).fetched[n - 1]? = some data := by
    rw [← hlast, List.getLast?_eq_getElem?, hn]
  rcases h.matched i op hop (n - 1) data hget with ⟨hne, hpull⟩
  rcases h.logged i op hop (n - 1) _ hpull with ⟨sid, hfin, e, he, hpulled⟩
  subst hfin
  -- part `n` is the chunk at `n - 1`
  have hindex : ((n - 1 : Nat) : Int) = (n : Int) - 1 := by omega
  rw [hindex] at hpulled
  refine ⟨sid, hop, hne, ⟨e, he, hpulled⟩, ?_, ?_⟩
  · -- every pull is in the list of which the scanner has let pass all but the end
    intro e' he' index data' hpulled' hbad
    have hmem := h.complete i _ hop e' he' sid index _ hpulled'
    rcases hclean with ⟨passed, last, hpulls, hpass, hend⟩
    rw [hpulls, List.mem_append, List.mem_singleton] at hmem
    rcases hmem with hmem | hmem
    · rcases hpass _ hmem with ⟨d, hd, _, hnot⟩
      cases hd
      exact hnot hbad
    · rw [← hmem] at hend
      rcases hend with hend | hend
      · cases hend
      · cases hend
        rw [List.infix_nil] at hbad
        cases hbad
  · -- the last pull has found the end
    rcases hclean with ⟨passed, last, hpulls, _, hend⟩
    have hlast' : (answered s i (.finalize sid)).pulls[passed.length]? = some last := by
      simp [hpulls]
    rcases h.logged i _ hop _ _ hlast' with ⟨sid', hfin, e', he', hpulled'⟩
    cases hfin
    exact ⟨e', he', _, last, hpulled', hend⟩

theorem Screened.answer (h : Screened s) (hop : s.ops[i]? = some op)
    (hallow : (answered s i op).allows cl)
    (hguard : ∀ sid chunk, cl = .chunkSave sid chunk → ∀ j,
      pulledIs s sid j chunk.index chunk.rawBytes) : Screened (s.answer i cl out) := by
  have hself : callsOf i (s.answer i cl out).log = callsOf i s.log ++
      [⟨i, cl, (handle env out cl s.world).1, (handle env out cl s.world).2⟩] :=
    callsOf_answer_self s i cl out
  refine ⟨?_, ?_, h.stored_answer hop hallow hguard, h.matched_answer hop hallow, ?_⟩
  · refine answered_forall_answer (P := fun j op' l => ∀ (k : Nat) r, l.pulls[k]? = some r →
      ∃ sid, op' = .finalize sid ∧ ∃ e ∈ callsOf j (s.answer i cl out).log,
        pulled e = some (sid, (k : Int), r)) hop ?_ ?_
    · -- the caller: a pull of this call is in its log from now on
      intro k r hr
      rw [CommitLocal.next_pulls] at hr
      rw [hself]
      have hold : (answered s i op).pulls[k]? = some r → ∃ sid, op = .finalize sid ∧
          ∃ e ∈ callsOf i s.log ++ [⟨i, cl, (handle env out cl s.world).1,
            (handle env out cl s.world).2⟩], pulled e = some (sid, (k : Int), r) := by
        intro hr
        rcases h.logged i op hop k r hr with ⟨sid, hfin, e, he, hp⟩
        exact ⟨sid, hfin, e, List.mem_append_left _ he, hp⟩
      cases hp : cl.pulled (handle env out cl s.world).1 with
      | none =>
          rw [hp] at hr
          exact hold (by simpa using hr)
      | some answer =>
          rcases answer with ⟨sid', index, r'⟩
          rw [hp] at hr
          rcases getElem?_concat hr with hr | ⟨hk, hrr⟩
          · exact hold hr
          · have hc := (handle_pulled env out cl s.world hp).1
            simp only at hrr
            subst hrr
            rw [hc] at hallow
            rcases hallow with ⟨hfin, _, hindex, _⟩
            rw [answered_op] at hfin
            refine ⟨sid', hfin, _, List.mem_append_right _ (List.mem_singleton.2 rfl), ?_⟩
            rw [hk, ← hindex]
            exact hp
    · intro j op' hj hop'
      rw [callsOf_answer_other s i cl out hj]
      exact h.logged j op' hop'
  · refine answered_forall_answer (P := fun j _ l => ∀ e ∈ callsOf j (s.answer i cl out).log,
      ∀ sid index r, pulled e = some (sid, index, r) → r ∈ l.pulls) hop ?_ ?_
    · intro e he sid index r hp
      rw [hself, List.mem_append, List.mem_singleton] at he
      rw [CommitLocal.next_pulls, List.mem_append]
      rcases he with he | rfl
      · exact Or.inl (h.complete i op hop e he sid index r hp)
      · have hp' : cl.pulled (handle env out cl s.world).1 = some (sid, index, r) := hp
        exact Or.inr (by simp [hp'])
    · intro j op' hj hop'
      rw [callsOf_answer_other s i cl out hj]
      exact h.complete j op' hop'
  · exact h.history.append (h.scanned hop hallow)

end Step

theorem screened_inductive : Inductive commitDiscipline CommitLocal.start
    (fun (c : Run env) l => savesScanned c l) (fun s => Screened s) where
  spawn := by
    intro c op _ hwf h
    have hnil := hwf.callsOf_eq_nil
    refine ⟨?_, ?_, ?_, ?_, ?_⟩
    · exact answered_forall_spawn (P := fun j op' l => ∀ (k : Nat) r, l.pulls[k]? = some r →
        ∃ sid, op' = .finalize sid ∧ ∃ e ∈ callsOf j c.log, pulled e = some (sid, (k : Int), r))
        hwf (by simp [CommitLocal.start]) h.logged
    · refine answered_forall_spawn (P := fun j _ l => ∀ e ∈ callsOf j c.log, ∀ sid index r,
        pulled e = some (sid, index, r) → r ∈ l.pulls) hwf ?_ h.complete
      intro e he
      rw [show callsOf c.scene.ops.length c.log = [] from hnil] at he
      cases he
    · exact answered_forall_spawn (P := fun _ op' l => l.ended = false → ∀ sid,
        op' = .finalize sid → ∀ (k : Nat) r, l.pulls[k]? = some r → l.fetched.length ≤ k →
          ∀ data, c.world.chunk? sid k = some data → r = some data) hwf
        (by simp [CommitLocal.start]) h.stored
    · exact answered_forall_spawn (P := fun _ _ l => ∀ (k : Nat) data, l.fetched[k]? = some data →
        data ≠ [] ∧ l.pulls[k]? = some (some data)) hwf (by simp [CommitLocal.start]) h.matched
    · refine h.history.mono ?_
      intro before e hscan t f u n data hc
      rcases hscan t f u n data hc with ⟨sid, hop, hrest⟩
      have hlt := (List.getElem?_eq_some_iff.1 hop).1
      exact ⟨sid, (List.getElem?_append_left hlt).trans hop, hrest⟩
  move := by
    intro c d _ h
    refine ⟨h.logged, h.complete, ?_, h.matched, h.history⟩
    intro i op hop hended sid hfin k r hr hlen data hdata
    refine h.stored i op hop hended sid hfin k r hr hlen data ?_
    exact c.world.chunks.get_of_get_later (Nat.le_add_right _ d) hdata
  call := by
    intro c i op cl out hg hop hpending h hallow
    refine ⟨trivial, h.answer hop hallow ?_⟩
    intro sid chunk hc j
    subst hc
    simp only [savesScanned, hpending, List.all_eq_true, List.mem_range] at hg
    -- the guard is about requests that exist; of others nothing is known
    by_cases hj : j < c.ops.length
    · exact hg j hj
    · have hnone : c.scene.ops[j]? = none := List.getElem?_eq_none (Nat.le_of_not_lt hj)
      simp only [pulledIs, hnone]

/-- Scan before commit: in every run, with any delays, expiring locks and failures,
what a finalize uploads as part `n` has been given at index `n - 1` to its own scan,
which had returned clean, if chunks are stored over indices that a finalize has yet
to fetch only with the bytes that its scan was given there. -/
theorem scan_before_commit {now : Nat} {c : Run env}
    (h : Reach (fun c l => savesScanned c l) (Config.start (World.empty now)) c) :
    Chronicle (ScannedBefore c.ops) c.log := by
  have hinit : Screened (⟨World.empty now, [], []⟩ : Scene (service env)) :=
    ⟨by simp, by simp, by simp, by simp, chronicle_nil _⟩
  exact (h.invariant commitPost (fun _ op _ => Commit.prog_obeys env op) screened_inductive
    hinit).2.1.history

/-! ## Concrete runs -/

/-- Entry `k` uploads a part that its request has not pulled. -/
def unscanned (log : Log env) (k : Nat) : Bool :=
  log[k]?.any fun e =>
    match e.call with
    | .uploadPart _ _ _ _ data =>
        (callsOf e.rid (log.take k)).all fun e' => (pulled e').all fun p => p.2.2 ≠ some data
    | _ => false

theorem not_scannedBefore_of_unscanned {ops : List Op} {log : Log env} {k : Nat}
    (h : unscanned log k = true) : ¬ Chronicle (ScannedBefore ops) log := by
  intro hscan
  simp only [unscanned, Option.any_eq_true] at h
  rcases h with ⟨e, he, hpart⟩
  split at hpart
  · rename_i t f u n data hc
    rcases hscan k e he t f u n data hc with ⟨sid, _, _, ⟨e', he', hp⟩, _⟩
    simp only [List.all_eq_true] at hpart
    have hne := hpart e' he'
    simp [hp] at hne
  · cases hpart

namespace Demo

/-- A session of one byte, and two uploads of it that have both read the session;
the first one is then stored. -/
def storedOnce : List (Label (service Demo.env)) :=
  [.spawn (.initiate sid tenant file 1 (sha256 a))] ++ calls 0 2 ++
    [.spawn (.uploadChunk sid 0 (sha256 a) a), .spawn (.uploadChunk sid 0 (sha256 b) b)] ++
    calls 1 1 ++ calls 2 1 ++ calls 1 4 ++ [.spawn (.finalize sid)]

end Demo

/-- The finalize scans and commits the one chunk. -/
theorem scan_before_commit_demo :
    ∃ c : Run Demo.env, Reach (fun c l => savesScanned c l) (Config.start (World.empty 0)) c ∧
      Chronicle (ScannedBefore c.ops) c.log ∧ ∃ uri, c.result 3 = some (.ok (.finalized uri)) := by
  have h : ((Config.start (World.empty 0)).play savesScanned
      (Demo.storedOnce ++ Demo.scanning 3 1 ++ Demo.committing 3 1)).any
      (fun c => c.result 3 =
        some (.ok (.finalized (S3ObjectStorage.uri Demo.env
          (S3ObjectStorage.objectKey Demo.tenant Demo.file))))) = true := by
    decide +kernel
  rcases exists_of_play (fun _ _ hl => hl) _ h with ⟨c, hc, hresult⟩
  exact ⟨c, hc, scan_before_commit hc, _, by simpa using hresult⟩

/-- Without the condition it fails: when the lock of the finalize has run out after
its scan, the second upload takes it and stores its chunk over the scanned one,
which the finalize then fetches and uploads. -/
theorem scan_before_commit_fails :
    ∃ c : Run Demo.env, Reach (fun _ _ => True) (Config.start (World.empty 0)) c ∧
      ¬ Chronicle (ScannedBefore c.ops) c.log := by
  have h : ((Config.start (World.empty 0)).play (fun _ _ => true)
      (Demo.storedOnce ++ Demo.scanning 3 1 ++ .move 10000 :: Demo.calls 2 2 ++
        Demo.calls 3 1 ++ Demo.round 3 2)).any (fun c => unscanned c.log 16) = true := by
    decide +kernel
  rcases exists_of_play (fun _ _ _ => trivial) _ h with ⟨c, hc, hun⟩
  exact ⟨c, hc, not_scannedBefore_of_unscanned hun⟩
end FileUploader
