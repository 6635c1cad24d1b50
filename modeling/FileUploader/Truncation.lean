import FileUploader.CachedRun

/-! # No silent truncation

A finalize compares the offset with the size of the file, and then assembles whatever
run of chunks is cached. The offset counts the uploads that have been accepted; whether
the run consists of them depends on the indices the client has chosen, and on what
refused uploads have left in the chunk store.
-/

namespace FileUploader

open Await S3ObjectStorage

variable {env : Env}

/-- The uploads to `sid` that have been accepted, with index and data. -/
def accepted (sid : UUID) (served : List Served) : List (Int × Bytes) :=
  served.filterMap fun
    | (.uploadChunk sid' index _ data, .ok _) => if sid' = sid then some (index, data) else none
    | _ => none

/-- The chunks that a finalize finds are the accepted uploads: they have the indices
0, …, n - 1, each once, none of them has been replaced, and nothing is cached behind. -/
structure Intact (w : World) (sid : UUID) (uploads : List (Int × Bytes)) : Prop where
  gapless : (uploads.map (·.1)).Perm (indices uploads.length)
  kept : ∀ p ∈ uploads, w.chunk? sid p.1 = some p.2
  ended : w.chunk? sid uploads.length = none ∨ w.chunk? sid uploads.length = some []

/-- An object made of `datas` has the declared size and is the concatenation of the
uploads in ascending order of their indices. -/
structure Whole (v : UploadSession) (uploads : List (Int × Bytes)) (datas : List Bytes) : Prop where
  size : datas.flatten.length = v.totalSize
  content : datas.flatten = ((inOrder uploads).map (·.2)).flatten

/-! ## What the offset counts -/

section Accepted

variable {sid : UUID} {op : Op} {r : Except Exn Response}

theorem accepted_append (served : List Served) (d : Served) :
    accepted sid (served ++ [d]) = accepted sid served ++ accepted sid [d] := by
  simp [accepted]

theorem accepted_upload (index : Int) (cs : String) (data : Bytes) (x : Response) :
    accepted sid [(.uploadChunk sid index cs data, .ok x)] = [(index, data)] := by
  simp [accepted]

theorem accepted_other (h : ∀ index cs data, op = .uploadChunk sid index cs data →
    ∃ x, r = .error x) : accepted sid [(op, r)] = [] := by
  cases op with
  | uploadChunk sid' index cs data =>
      cases r with
      | error x => rfl
      | ok x =>
          have hne : ¬ sid' = sid := by
            intro hsid
            rcases h index cs data (by rw [hsid]) with ⟨x, hx⟩
            cases hx
          simp [accepted, hne]
  | _ => rfl

end Accepted

/-- The offset of a session is the size of the uploads to it that have been accepted,
all of which have come after its initiate. -/
structure Ledger (served : List Served) (w : World) : Prop where
  counted : ∀ sid v, w.session? sid = some v →
    v.currentOffset = ((accepted sid served).map (·.2)).flatten.length
  nonempty : ∀ sid, ∀ p ∈ accepted sid served, p.2 ≠ []
  born : ∀ sid, accepted sid served ≠ [] → ∃ d ∈ served, d.1.newId? = some sid

section Step

variable {w w' : World} {served : List Served} {op : Op} {r : Except Exn Response}

theorem Ledger.serve (h : Ledger served w) (hord : Orderly served w) (hfresh : FreshId served op)
    (halone : Alone env op w r w') : Ledger (served ++ [(op, r)]) w' := by
  -- what a request adds for one session
  have hadds : ∀ sid, (∀ v, w'.session? sid = some v → v.currentOffset =
        ((accepted sid (served ++ [(op, r)])).map (·.2)).flatten.length) ∧
      (accepted sid [(op, r)] = [] ∨ ∃ index data v, accepted sid [(op, r)] = [(index, data)] ∧
        data ≠ [] ∧ w.session? sid = some v) := by
    intro sid
    rw [accepted_append]
    cases alone_effect hord.keyed halone sid with
    | untouched hsame hupload =>
        rw [accepted_other hupload, List.append_nil]
        exact ⟨fun v hv => h.counted sid v (hsame.session.symm.trans hv), Or.inl rfl⟩
    | created hsession =>
        rw [accepted_other (fun _ _ _ hop => by cases hop), List.append_nil]
        refine ⟨fun v hv => ?_, Or.inl rfl⟩
        cases hsession.symm.trans hv
        have hnone : accepted sid served = [] := by
          by_contra hne
          rcases h.born sid hne with ⟨d, hd, hid⟩
          exact hfresh sid rfl d hd hid
        rw [hnone]
        rfl
    | stored hstores _ hsession =>
        rw [accepted_other (fun _ _ _ _ => ⟨_, rfl⟩), List.append_nil]
        refine ⟨fun v hv => ?_, Or.inl rfl⟩
        cases hsession.symm.trans hv
        exact h.counted sid _ hstores.live
    | @moved index cs data v v' _ hstores haccepted hsession =>
        rw [accepted_upload]
        rcases UploadSession.updateOffset_ok haccepted with ⟨hpos, _, hnext, _⟩
        refine ⟨fun u hu => ?_, Or.inr ⟨index, data, v, rfl, ?_, hstores.live⟩⟩
        · cases hsession.symm.trans hu
          rw [hnext, h.counted sid v hstores.live]
          simp
        · exact List.ne_nil_of_length_pos (by omega)
    | failed hfin hsession =>
        rw [accepted_other (fun _ _ _ hop => by cases hop), List.append_nil]
        refine ⟨fun v hv => ?_, Or.inl rfl⟩
        cases hsession.symm.trans hv
        have hsum := h.counted sid _ hfin.live
        exact hsum
    | gone hop hgone =>
        have hother : accepted sid [(op, r)] = [] :=
          accepted_other (fun _ _ _ hup => by rcases hop with rfl | rfl <;> cases hup)
        rw [hother, List.append_nil]
        refine ⟨fun v hv => ?_, Or.inl rfl⟩
        cases hgone.session.symm.trans hv
  -- then the three parts of the ledger
  refine ⟨fun sid => (hadds sid).1, fun sid p hp => ?_, fun sid hne => ?_⟩
  · rw [accepted_append] at hp
    rcases List.mem_append.1 hp with hp | hp
    · exact h.nonempty sid p hp
    · rcases (hadds sid).2 with hnone | ⟨index, data, v, hone, hdata, _⟩
      · rw [hnone] at hp
        cases hp
      · rw [hone, List.mem_singleton] at hp
        rw [hp]
        exact hdata
  · have hborn : ∃ d ∈ served, d.1.newId? = some sid := by
      rcases (hadds sid).2 with hnone | ⟨_, _, v, _, _, hlive⟩
      · rw [accepted_append, hnone, List.append_nil] at hne
        exact h.born sid hne
      · exact hord.born sid v hlive
    rcases hborn with ⟨d, hd, hid⟩
    exact ⟨d, List.mem_append_left _ hd, hid⟩

theorem Ledger.wait {d : Nat} (h : Ledger served w) (hlasts : Lasts w d) :
    Ledger served (w.advance d) :=
  ⟨fun sid v hv => h.counted sid v ((hlasts sid).1.symm.trans hv), h.nonempty, h.born⟩

end Step

theorem serial_ledger {G : World → Op → Prop} {now : Nat} {served : List Served} {w : World}
    (h : Serial env G (World.empty now) served w) : Ledger served w := by
  induction h with
  | start => exact ⟨by simp [World.session?, World.empty], by simp [accepted], by simp [accepted]⟩
  | serve hrun _ hfresh halone ih => exact ih.serve (serial_orderly hrun) hfresh halone
  | wait _ hlasts ih => exact ih.wait hlasts

/-! ## What a finalize commits -/

section Commit

variable {w w' : World} {sid : UUID} {s3Uri : String} {datas : List Bytes}
  {uploads : List (Int × Bytes)} {v : UploadSession}

/-- What else a finalize does after the commit leaves the object alone. -/
theorem objects_committed (w : World) (sid : UUID) (v : UploadSession) (key s3Uri : String)
    (datas : List Bytes) : ((RedisSessionRepository.delete (RedisChunkRepository.deleteAll
      ((w.committed key datas).published v s3Uri) sid) sid).unlocked sid).objects key =
        some datas.flatten := by
  have hobject : (w.committed key datas).objects key = some datas.flatten :=
    Function.update_self key _ w.closed.objects
  exact hobject

/-- A finalize that returns a URI has committed the run of cached chunks there. -/
theorem finalize_commits (h : Alone env (.finalize sid) w (.ok (.finalized s3Uri)) w') :
    ∃ v datas, Finalizable w sid v ∧ FetchedFrom w sid 0 datas ∧
      s3Uri = uri env (objectKey v.tenantId v.fileId) ∧
      w'.objects (objectKey v.tenantId v.fileId) = some datas.flatten := by
  by_cases hfin : ∃ v, Finalizable w sid v
  · rcases hfin with ⟨v, hfin⟩
    rcases (alone_finalize hfin _).1 h with ⟨o, w₁, hend, ho, rfl⟩
    cases hend with
    | infected => cases ho
    | refused => cases ho
    | @committed streamed datas hstream hclean hfetch hs3 =>
        cases ho
        have hsame : ∀ k : Nat, RedisChunkRepository.get (w.locking sid) sid k =
            RedisChunkRepository.get w sid k := fun _ => rfl
        exact ⟨v, datas, hfin, hfetch.congr hsame, rfl, objects_committed ..⟩
  · rcases finalize_refused h (fun v hv => hfin ⟨v, hv⟩) with ⟨_, x, hx⟩
    cases hx

/-- Malware is not found among chunks that are clean. -/
theorem StreamedFrom.not_infected {w : World} {sid : UUID} {k : Nat} {datas datas' : List Bytes}
    {bad : Bytes} (hs : StreamedFrom w sid k datas) (hclean : ∀ data ∈ datas, CleanChunk data) :
    ¬ InfectedFrom w sid bad k datas' := by
  induction datas generalizing k datas' with
  | nil =>
      intro hinf
      cases datas' with
      | nil =>
          rcases hs with hnone | hempty
          · cases hnone.symm.trans hinf.1
          · cases hempty.symm.trans hinf.1
            apply hinf.2
            intro hfound
            simp [List.infix_nil, LocalVirusScanner.eicarSignature] at hfound
      | cons data' datas' =>
          rcases hs with hnone | hempty
          · cases hnone.symm.trans hinf.1
          · cases hempty.symm.trans hinf.1
            exact hinf.2.1 rfl
  | cons data datas ih =>
      intro hinf
      cases datas' with
      | nil =>
          cases hs.1.symm.trans hinf.1
          exact hinf.2 (hclean _ List.mem_cons_self)
      | cons data' datas' =>
          exact ih hs.2.2 (fun d hd => hclean d (List.mem_cons_of_mem _ hd)) hinf.2.2.2

/-- A finalize that finds a clean run of chunks commits it, if S3 accepts it; otherwise
the session has failed. -/
theorem alone_finalize_run (hready : Finalizable w sid v)
    (hpaired : ∀ i, (w.chunkMeta? sid i).isSome = (w.chunk? sid i).isSome)
    (hrun : RunFrom (w.payload? sid) 0 datas) (hclean : ∀ data ∈ datas, CleanChunk data)
    (r : Except Exn Response) : Alone env (.finalize sid) w r w' ↔
      (S3Accepts env datas ∧ r = .ok (.finalized (uri env (objectKey v.tenantId v.fileId))) ∧
        w' = (RedisSessionRepository.delete (RedisChunkRepository.deleteAll
          (((w.locking sid).committed (objectKey v.tenantId v.fileId) datas).published v
            (uri env (objectKey v.tenantId v.fileId))) sid) sid).unlocked sid) ∨
      ¬ S3Accepts env datas ∧ r = .error assemblyError ∧
        w' = (RedisSessionRepository.save (w.locking sid).closed v.fail).unlocked sid := by
  have hstream : StreamedFrom (w.locking sid) sid 0 datas := streamedFrom_iff.2 hrun
  have hfetch : FetchedFrom (w.locking sid) sid 0 datas :=
    ((fetchedFrom_iff hpaired).2 hrun).congr fun _ => rfl
  -- the assembly finds no other chunks
  have hsame : ∀ datas', FetchedFrom (w.locking sid) sid 0 datas' → datas' = datas := by
    intro datas' hf
    have hrun' := (fetchedFrom_iff hpaired).1 (hf.congr fun _ => rfl)
    exact hrun'.unique hrun
  rw [alone_finalize hready]
  constructor
  · intro h
    rcases h with ⟨o, w₁, hend, rfl, rfl⟩
    -- no malware is found in clean chunks
    cases hend with
    | infected hinf => exact absurd hinf (hstream.not_infected hclean)
    | refused _ _ hf hno =>
        rw [hsame _ hf] at hno
        exact Or.inr ⟨hno, rfl, rfl⟩
    | committed _ _ hf hacc =>
        rw [hsame _ hf] at hacc ⊢
        exact Or.inl ⟨hacc, rfl, rfl⟩
  · intro h
    rcases h with ⟨hacc, rfl, rfl⟩ | ⟨hno, rfl, rfl⟩
    · exact ⟨_, _, .committed hstream hclean hfetch hacc, rfl, rfl⟩
    · exact ⟨_, _, .refused hstream hclean hfetch hno, rfl, rfl⟩

/-- A finalize of a clean run that S3 accepts returns a URI. -/
theorem finalize_returns (hready : Finalizable w sid v)
    (hpaired : ∀ i, (w.chunkMeta? sid i).isSome = (w.chunk? sid i).isSome)
    (hrun : RunFrom (w.payload? sid) 0 datas) (hclean : ∀ data ∈ datas, CleanChunk data)
    (hs3 : S3Accepts env datas) : ∃ w', Alone env (.finalize sid) w
      (.ok (.finalized (uri env (objectKey v.tenantId v.fileId)))) w' ∧
      w'.objects (objectKey v.tenantId v.fileId) = some datas.flatten :=
  ⟨_, (alone_finalize_run hready hpaired hrun hclean _).2 (Or.inl ⟨hs3, rfl, rfl⟩),
    objects_committed ..⟩

/-- The assembly has one part for each of the uploads, in ascending order of their indices,
exactly if it finds them as they were accepted. -/
theorem intact_iff (hnonempty : ∀ p ∈ uploads, p.2 ≠ [])
    (hrun : RunFrom (w.payload? sid) 0 datas) :
    numbered datas = inOrder uploads ↔ Intact w sid uploads := by
  rw [hrun.numbered_eq_inOrder]
  have hkept : (uploads.map (·.1)).Perm (indices uploads.length) → ∀ p ∈ uploads,
      (w.payload? sid p.1.toNat = some p.2 ↔ w.chunk? sid p.1 = some p.2) := by
    intro hindices p hp
    have hmem : p.1 ∈ indices uploads.length := hindices.mem_iff.1 (List.mem_map_of_mem hp)
    rcases List.mem_map.1 hmem with ⟨n, _, hn⟩
    rw [payload?_eq_some, ← hn, Int.toNat_natCast]
    exact and_iff_left (hnonempty p hp)
  constructor
  · intro h
    rcases h with ⟨hindices, hfound, hgap⟩
    exact ⟨hindices, fun p hp => (hkept hindices p hp).1 (hfound p hp), payload?_eq_none.1 hgap⟩
  · intro h
    exact ⟨h.gapless, fun p hp => (hkept h.gapless p hp).2 (h.kept p hp),
      payload?_eq_none.2 h.ended⟩

/-- What has one part for each of the uploads is their concatenation, and as long as they are. -/
theorem whole_of_parts (hcounted : v.currentOffset = ((uploads.map (·.2)).flatten.length : Nat))
    (hfull : v.currentOffset = v.totalSize) (hparts : numbered datas = inOrder uploads) :
    Whole v uploads datas := by
  have hdatas : datas = (inOrder uploads).map (·.2) := by
    rw [← hparts, map_snd_numbered]
  have hperm : datas.flatten.Perm (uploads.map (·.2)).flatten := by
    rw [hdatas]
    exact ((inOrder_perm uploads).map _).flatten
  constructor
  · rw [hperm.length_eq, ← hcounted, hfull]
  · rw [← hdatas]

end Commit

/-- No silent truncation: over all runs of requests one after the other, an object that
a finalize has committed has the declared size and is the concatenation of the accepted
uploads in the order of their indices, if these are the indices from 0 on without gap or
repetition and the chunks are cached as they were accepted. Exactly then the object has one
part for each accepted upload. (The content may come out right otherwise as well, when a
refused upload has left the missing bytes behind.) -/
theorem no_truncation {now : Nat} {served : List Served} {w w' : World} {sid : UUID}
    {s3Uri : String} (h : Serial env (fun _ _ => True) (World.empty now) served w)
    (hfin : Alone env (.finalize sid) w (.ok (.finalized s3Uri)) w') :
    ∃ v datas, w.session? sid = some v ∧ FetchedFrom w sid 0 datas ∧
      s3Uri = uri env (objectKey v.tenantId v.fileId) ∧
      w'.objects (objectKey v.tenantId v.fileId) = some datas.flatten ∧
      (Intact w sid (accepted sid served) → Whole v (accepted sid served) datas) ∧
      (numbered datas = inOrder (accepted sid served) ↔ Intact w sid (accepted sid served)) := by
  rcases finalize_commits hfin with ⟨v, datas, hready, hfetch, huri, hobject⟩
  have hledger := serial_ledger h
  have hrun := (fetchedFrom_iff ((serial_orderly h).paired sid)).1 hfetch
  have hparts := intact_iff (hledger.nonempty sid) hrun
  exact ⟨v, datas, hready.live, hfetch, huri, hobject, fun hintact =>
    whole_of_parts (hledger.counted sid v hready.live) hready.full (hparts.2 hintact), hparts⟩

/-! ## Concrete runs -/

theorem clean_of_not_mem {data : Bytes} (h : 69 ∉ data) : CleanChunk data := by
  intro hfound
  have hmem : 69 ∈ LocalVirusScanner.eicarSignature := by decide
  exact h (hfound.mem hmem)

theorem clean_big : CleanChunk Demo.big := by
  refine clean_of_not_mem fun hmem => ?_
  unfold Demo.big at hmem
  have heq := List.eq_of_mem_replicate hmem
  exact absurd heq (by decide)

/-- The finalize of a file of two chunks, wherever they have been uploaded. -/
theorem returns_bothAt {i j : Int} {datas : List Bytes}
    (hrun : RunFrom ((Demo.bothAt i j).payload? Demo.sid) 0 datas) (hne : datas ≠ [])
    (hdatas : ∀ data ∈ datas, data = Demo.big ∨ data = Demo.b) :
    ∃ w', Alone Demo.bigEnv (.finalize Demo.sid) (Demo.bothAt i j)
      (.ok (.finalized (uri Demo.bigEnv (objectKey Demo.tenant Demo.file)))) w' ∧
      w'.objects (objectKey Demo.tenant Demo.file) = some datas.flatten := by
  have hserved : Serial Demo.bigEnv (fun _ _ => True) (World.empty 0) _ (Demo.bothAt i j) :=
    serial_bothAt trivial trivial trivial
  have hready : Finalizable (Demo.bothAt i j) Demo.sid (Demo.oddSession Demo.odd) :=
    ⟨session?_bothAt i j, by decide, rfl, rfl⟩
  have hclean : ∀ data ∈ datas, CleanChunk data := by
    intro data hdata
    rcases hdatas data hdata with rfl | rfl
    · exact clean_big
    · exact clean_of_not_mem (by decide)
  have hs3 : S3Accepts Demo.bigEnv datas := by
    simpa [S3Accepts, Demo.bigEnv, Demo.env] using hne
  have hpaired := (serial_orderly hserved).paired Demo.sid
  rcases finalize_returns hready hpaired hrun hclean hs3 with ⟨w', hfin, hobject⟩
  exact ⟨w', hfin, hobject⟩

/-- Two chunks at the indices 0 and 1. -/
theorem payloads_bothAt :
    RunFrom ((Demo.bothAt 0 1).payload? Demo.sid) 0 [Demo.big, Demo.b] :=
  ⟨payload?_eq_some.2 ⟨chunk?_bothAt 0 1 0, big_ne_nil⟩,
    payload?_eq_some.2 ⟨chunk?_bothAt 0 1 1, by decide⟩,
    payload?_eq_none.2 (Or.inl (chunk?_bothAt 0 1 2))⟩

/-- A file of two chunks. -/
theorem no_truncation_demo :
    ∃ (v : UploadSession) (w' : World) (datas : List Bytes),
      (Demo.bothAt 0 1).session? Demo.sid = some v ∧
      w'.objects (objectKey v.tenantId v.fileId) = some datas.flatten ∧
      Whole v [(0, Demo.big), (1, Demo.b)] datas ∧
      numbered datas = [(0, Demo.big), (1, Demo.b)] := by
  have hrun : Serial Demo.bigEnv (fun _ _ => True) (World.empty 0) _ (Demo.bothAt 0 1) :=
    serial_bothAt trivial trivial trivial
  rcases returns_bothAt payloads_bothAt (by simp) (by simp) with ⟨w', hfin, _⟩
  rcases no_truncation hrun hfin with ⟨v, datas, hlive, _, _, hobject, hwhole, hparts⟩
  have hintact : Intact (Demo.bothAt 0 1) Demo.sid [(0, Demo.big), (1, Demo.b)] := by
    refine ⟨List.Perm.refl _, fun p hp => ?_, Or.inl (chunk?_bothAt 0 1 2)⟩
    rcases List.mem_pair.1 hp with rfl | rfl
    · exact chunk?_bothAt 0 1 0
    · exact chunk?_bothAt 0 1 1
  exact ⟨v, w', datas, hlive, hobject, hwhole hintact, hparts.2 hintact⟩

/-- It fails for a gap: with the second chunk of two at index 2, the finalize returns
the URI of an object that is the first one alone. -/
theorem no_truncation_fails :
    ∃ (served : List Served) (w' : World),
      Serial Demo.bigEnv (fun _ _ => True) (World.empty 0) served (Demo.bothAt 0 2) ∧
      accepted Demo.sid served = [(0, Demo.big), (2, Demo.b)] ∧
      (Demo.bothAt 0 2).session? Demo.sid = some (Demo.oddSession Demo.odd) ∧
      Alone Demo.bigEnv (.finalize Demo.sid) (Demo.bothAt 0 2)
        (.ok (.finalized (uri Demo.bigEnv (objectKey Demo.tenant Demo.file)))) w' ∧
      w'.objects (objectKey Demo.tenant Demo.file) = some Demo.big ∧
      (Demo.big.length : Int) ≠ (Demo.oddSession Demo.odd).totalSize ∧
      Demo.big ≠ ((inOrder (accepted Demo.sid served)).map (·.2)).flatten := by
  have hrun : Serial Demo.bigEnv (fun _ _ => True) (World.empty 0) _ (Demo.bothAt 0 2) :=
    serial_bothAt trivial trivial trivial
  have haccepted : accepted Demo.sid (Demo.servedBoth 0 2) = [(0, Demo.big), (2, Demo.b)] := rfl
  have hlength := Demo.big_length
  -- the gap at index 1 ends what a finalize reads
  have hpayloads : RunFrom ((Demo.bothAt 0 2).payload? Demo.sid) 0 [Demo.big] :=
    ⟨payload?_eq_some.2 ⟨chunk?_bothAt 0 2 0, big_ne_nil⟩,
      payload?_eq_none.2 (Or.inl (chunk?_bothAt 0 2 1))⟩
  rcases returns_bothAt hpayloads (by simp) (by simp) with ⟨w', hfin, hobject⟩
  rw [List.flatten_singleton] at hobject
  refine ⟨_, w', hrun, haccepted, session?_bothAt 0 2, hfin, hobject, ?_, ?_⟩
  · rw [hlength]
    decide
  · intro heq
    have hsorted : inOrder [((0 : Int), Demo.big), (2, Demo.b)] =
        [(0, Demo.big), (2, Demo.b)] := rfl
    rw [haccepted, hsorted] at heq
    have hlonger := congrArg List.length heq
    simp [Demo.b] at hlonger

end FileUploader
