import FileUploader.CachedRun

/-! # The resume offset

What a query reports as the offset, against what is cached: a client that resumes at
the offset relies on the cached chunks being the file up to there. The offset counts
bytes and the chunks are kept by index, and only uploads move either.
-/

namespace FileUploader

open Await

variable {env : Env}

/-- The offset check lets an upload of `data` through. -/
def UploadSession.Fits (v : UploadSession) (data : Bytes) : Prop :=
  0 < data.length ∧ v.currentOffset + data.length ≤ v.totalSize

/-- An upload that gets as far as the chunk store adds the next chunk of the run; if
the offset check then refuses it, it has replaced a chunk of the same length. -/
def KeepsRun (env : Env) (w : World) (op : Op) : Prop :=
  ∀ sid index cs data v, op = .uploadChunk sid index cs data → Stores env w sid cs data v →
    (v.Fits data → ∃ datas, StreamedFrom w sid 0 datas ∧ index = datas.length) ∧
    (¬ v.Fits data → ∃ old, w.chunk? sid index = some old ∧ old.length = data.length)

/-- What a query of a session reports as its offset is the length of the run of its
cached chunks, which a finalize would assemble, and nothing is cached outside it. -/
def Truthful (env : Env) (w : World) : Prop := ∀ sid v, w.session? sid = some v →
  ∃ datas, StreamedFrom w sid 0 datas ∧ FetchedFrom w sid 0 datas ∧
    (∀ r w', Alone env (.query sid) w r w' ↔ w' = w ∧
      r = .ok (.report ⟨v.sessionId, datas.flatten.length, v.totalSize, statusStr v⟩)) ∧
    ∀ i data, w.chunk? sid i = some data → 0 ≤ i ∧ i < datas.length

/-- The offset of every session is the length of what is cached for it. -/
def Counted (w : World) : Prop := ∀ sid v, w.session? sid = some v →
  ∃ datas, Caches w sid datas ∧ v.currentOffset = datas.flatten.length

theorem truthful_iff {w : World}
    (hpaired : ∀ sid i, (w.chunkMeta? sid i).isSome = (w.chunk? sid i).isSome) :
    Truthful env w ↔ Counted w := by
  constructor
  · intro h sid v hv
    rcases h sid v hv with ⟨datas, hstream, _, hquery, hbounds⟩
    refine ⟨datas, Caches.of_run (streamedFrom_iff.1 hstream) hbounds, ?_⟩
    have hreport := (hquery _ _).1 (alone_query.2 ⟨rfl, Or.inr ⟨v, hv, rfl⟩⟩)
    have hoffset := hreport.2
    simp only [Except.ok.injEq, Response.report.injEq, SessionReport.mk.injEq] at hoffset
    exact hoffset.2.1
  · intro h sid v hv
    rcases h sid v hv with ⟨datas, hcaches, hoffset⟩
    refine ⟨datas, streamedFrom_iff.2 hcaches.run, (fetchedFrom_iff (hpaired sid)).2 hcaches.run,
      fun r w' => ?_, fun i data hi => ?_⟩
    · rw [alone_query, hv, ← hoffset]
      simp
    · rcases hcaches.bounds hi with ⟨hneg, hlt, _⟩
      exact ⟨hneg, hlt⟩

section Step

variable {w w' : World} {served : List Served} {op : Op} {r : Except Exn Response}

/-- A request that keeps to the runs keeps the offsets. -/
theorem Counted.serve (h : Counted w) (hord : Orderly served w) (hkeeps : KeepsRun env w op)
    (hfresh : FreshId served op) (halone : Alone env op w r w') : Counted w' := by
  intro sid u hu
  -- what the request has done to this session
  cases alone_effect hord.keyed halone sid with
  | untouched hsame =>
      rcases h sid u (hsame.session.symm.trans hu) with ⟨datas, hcaches, hoffset⟩
      exact ⟨datas, hcaches.same hsame.chunk, hoffset⟩
  | created hsession hchunk =>
      cases hsession.symm.trans hu
      rcases hord.fresh (hfresh sid rfl) with ⟨_, hnone⟩
      exact ⟨[], ⟨fun i => by simp [hchunk, hnone], by simp⟩, rfl⟩
  | @stored index cs data v x _ hstores hrefused hsession hstored =>
      -- the chunk is stored although the offset check refuses it
      cases hsession.symm.trans hu
      have hfits : ¬ u.Fits data := by
        intro hfits
        have hpos : (0 : Int) < data.length := Int.natCast_pos.2 hfits.1
        rcases UploadSession.updateOffset_fits hpos hfits.2 with ⟨_, hok⟩
        cases hrefused.symm.trans hok
      rcases h sid u hstores.live with ⟨datas, hcaches, hoffset⟩
      rcases (hkeeps sid index cs data u rfl hstores).2 hfits with ⟨old, hold, hlength⟩
      rcases hcaches.replace hold hlength hstored with ⟨datas', hcaches', hsum⟩
      exact ⟨datas', hcaches', by rw [hsum, hoffset]⟩
  | @moved index cs data v v' _ hstores haccepted hsession hstored =>
      cases hsession.symm.trans hu
      rcases UploadSession.updateOffset_ok haccepted with ⟨hpos, hfits, hnext, _⟩
      have hlength : 0 < data.length := by omega
      rcases h sid v hstores.live with ⟨datas, hcaches, hoffset⟩
      rcases (hkeeps sid index cs data v rfl hstores).1 ⟨hlength, hfits⟩ with
        ⟨streamed, hstream, hindex⟩
      have hrun := (streamedFrom_iff.1 hstream).unique hcaches.run
      subst hrun hindex
      refine ⟨streamed ++ [data], hcaches.append (List.ne_nil_of_length_pos hlength) hstored, ?_⟩
      rw [hnext, hoffset]
      simp
  | failed hfin hsession hchunk =>
      cases hsession.symm.trans hu
      rcases h sid _ hfin.live with ⟨datas, hcaches, hoffset⟩
      exact ⟨datas, hcaches.same hchunk, hoffset⟩
  | gone _ hgone => cases hgone.session.symm.trans hu

theorem Counted.wait {d : Nat} (h : Counted w) (hlasts : Lasts w d) :
    Counted (w.advance d) := by
  intro sid v hv
  rcases h sid v ((hlasts sid).1.symm.trans hv) with ⟨datas, hcaches, hoffset⟩
  exact ⟨datas, hcaches.same fun i => ((hlasts sid).2.2 i).1, hoffset⟩

/-- A request that keeps the offsets has kept to the runs. -/
theorem Counted.keepsRun (h : Counted w) (h' : Counted w') (hkeyed : Keyed w)
    (halone : Alone env op w r w') : KeepsRun env w op := by
  intro sid index cs data v hop hstores
  subst hop
  rcases upload_stored (hkeyed _ _ hstores.live) hstores halone with ⟨_, hstored, hsession⟩
  rcases h sid v hstores.live with ⟨datas, hcaches, hoffset⟩
  have hnext : ∀ u, w'.session? sid = some u → ∃ datas', Caches w' sid datas' ∧
      u.currentOffset = datas'.flatten.length := h' sid
  rcases hsession with ⟨v', hmove, hlive⟩ | ⟨⟨x, hmove⟩, hlive⟩
  · rcases hnext v' hlive with ⟨datas', hcaches', hoffset'⟩
    rcases UploadSession.updateOffset_ok hmove with ⟨hpos, hfits, hmoved, _⟩
    have hlength : v.Fits data := ⟨by omega, hfits⟩
    refine ⟨fun _ => ⟨datas, streamedFrom_iff.2 hcaches.run, ?_⟩, fun hno => absurd hlength hno⟩
    rcases hcaches.stored_cases hcaches' hstored with ⟨_, ⟨hindex, _⟩ | ⟨old, _, hne, hsum⟩⟩
    · exact hindex
    · have hold := List.length_pos_iff.2 hne
      omega
  · rcases hnext v hlive with ⟨datas', hcaches', hoffset'⟩
    rcases hcaches.stored_cases hcaches' hstored with ⟨hne, hcase⟩
    have hlength := List.length_pos_iff.2 hne
    have hno : ¬ v.Fits data := by
      intro hfits
      have hpos : (0 : Int) < data.length := Int.natCast_pos.2 hlength
      rcases UploadSession.updateOffset_fits hpos hfits.2 with ⟨_, hok⟩
      cases hmove.symm.trans hok
    refine ⟨fun hfits => absurd hfits hno, fun _ => ?_⟩
    rcases hcase with ⟨_, hsum⟩ | ⟨old, hold, _, hsum⟩
    · omega
    · exact ⟨old, hold, by omega⟩

end Step

theorem serial_counted {now : Nat} {served : List Served} {w : World}
    (h : Serial env (KeepsRun env) (World.empty now) served w) : Counted w := by
  induction h with
  | start => simp [Counted, World.session?, World.empty]
  | serve hrun hkeeps hfresh halone ih =>
      exact ih.serve (serial_orderly hrun) hkeeps hfresh halone
  | wait _ hlasts ih => exact ih.wait hlasts

/-- The resume offset is truthful in every state that is reached by requests one after
the other, each of which keeps to the runs of cached chunks; and the next request leaves
it truthful exactly if it does so too. -/
theorem resume_offset {now : Nat} {served : List Served} {w : World}
    (h : Serial env (KeepsRun env) (World.empty now) served w) :
    Truthful env w ∧ ∀ op r w', FreshId served op → Alone env op w r w' →
      (Truthful env w' ↔ KeepsRun env w op) := by
  have hord := serial_orderly h
  have hcounted := serial_counted h
  refine ⟨(truthful_iff hord.paired).2 hcounted, ?_⟩
  intro op r w' hfresh halone
  rw [truthful_iff (hord.serve halone).paired]
  constructor
  · intro hcounted'
    exact hcounted.keepsRun hcounted' hord.keyed halone
  · intro hkeeps
    exact hcounted.serve hord hkeeps hfresh halone

/-! ## Concrete runs -/

/-- The large chunk of two is the first of the run. -/
theorem keepsRun_large : KeepsRun Demo.bigEnv (Demo.sized Demo.odd)
    (.uploadChunk Demo.sid 0 (Demo.bigEnv.sha256 Demo.big) Demo.big) := by
  intro sid index cs data v hop hstores
  cases hop
  have hv := hstores.live.symm.trans session?_initiated
  cases hv
  have hfits : (newSession Demo.sid Demo.tenant Demo.file Demo.odd
      (Demo.sha256 Demo.a)).Fits Demo.big := by
    have hlength := Demo.big_length
    constructor
    · omega
    · rw [hlength]
      decide
  exact ⟨fun _ => ⟨[], Or.inl rfl, rfl⟩, fun hno => absurd hfits hno⟩

/-- And the last byte is the second. -/
theorem keepsRun_last : KeepsRun Demo.bigEnv (Demo.largeAt 0)
    (.uploadChunk Demo.sid 1 (Demo.bigEnv.sha256 Demo.b) Demo.b) := by
  intro sid index cs data v hop hstores
  cases hop
  have hv := hstores.live.symm.trans (stores_bothAt 0).live
  cases hv
  have hfits : (Demo.oddSession (5 * 1024 * 1024)).Fits Demo.b := ⟨by decide, by decide⟩
  have hstream : StreamedFrom (Demo.largeAt 0) Demo.sid 0 [Demo.big] :=
    streamedFrom_iff.2 ⟨payload?_eq_some.2 ⟨chunk?_largeAt 0 0, big_ne_nil⟩,
      payload?_eq_none.2 (Or.inl (chunk?_largeAt 0 1))⟩
  exact ⟨fun _ => ⟨[Demo.big], hstream, rfl⟩, fun hno => absurd hfits hno⟩

/-- A file of two chunks, uploaded in their order. -/
theorem resume_offset_demo :
    ∃ served, Serial Demo.bigEnv (KeepsRun Demo.bigEnv) (World.empty 0) served (Demo.bothAt 0 1) ∧
      Truthful Demo.bigEnv (Demo.bothAt 0 1) ∧
      (Demo.bothAt 0 1).session? Demo.sid = some (Demo.oddSession Demo.odd) := by
  have hinit : KeepsRun Demo.bigEnv (World.empty 0)
      (.initiate Demo.sid Demo.tenant Demo.file Demo.odd (Demo.sha256 Demo.a)) :=
    fun _ _ _ _ _ hop => by cases hop
  have hrun := serial_bothAt hinit keepsRun_large keepsRun_last
  exact ⟨_, hrun, (resume_offset hrun).1, session?_bothAt 0 1⟩

/-- It fails for the byte uploaded as the second chunk: the offset is reported as 1, and
nothing is there from index 0 on. -/
theorem resume_offset_fails :
    ∃ served, Serial Demo.env (fun _ _ => True) (World.empty 0) served (Demo.uploadedAt 1) ∧
      Alone Demo.env (.query Demo.sid) (Demo.uploadedAt 1)
        (.ok (.report ⟨Demo.sid, 1, 1, "completed"⟩)) (Demo.uploadedAt 1) ∧
      StreamedFrom (Demo.uploadedAt 1) Demo.sid 0 [] ∧
      (Demo.uploadedAt 1).chunk? Demo.sid 1 = some Demo.a ∧
      ¬ Truthful Demo.env (Demo.uploadedAt 1) := by
  have hrun : Serial Demo.env (fun _ _ => True) (World.empty 0) _ (Demo.uploadedAt 1) :=
    serial_uploadedAt trivial trivial
  have hlive := session?_uploadedAt 1
  have hstream : StreamedFrom (Demo.uploadedAt 1) Demo.sid 0 [] := Or.inl (chunk?_uploadedAt 1 0)
  have hchunk := chunk?_uploadedAt 1 1
  refine ⟨_, hrun, alone_query.2 ⟨rfl, Or.inr ⟨_, hlive, rfl⟩⟩, hstream, hchunk,
    fun htruthful => ?_⟩
  rcases htruthful Demo.sid Demo.complete hlive with ⟨datas, hdatas, _, _, hbounds⟩
  have hempty := (streamedFrom_iff.1 hdatas).unique (streamedFrom_iff.1 hstream)
  have hinside := hbounds 1 Demo.a hchunk
  rw [hempty, List.length_nil] at hinside
  omega

end FileUploader
