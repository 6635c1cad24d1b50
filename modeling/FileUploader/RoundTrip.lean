import FileUploader.Truncation

/-! # The round trip of an upload

One client initiates an upload, uploads the pieces of a file in order and finalizes,
with nothing else going on. Whatever the file is and however it is cut into pieces that
the size rules admit, what is committed is the file.
-/

namespace FileUploader

open Await S3ObjectStorage

/-- What S3 documents of its multipart uploads: 1 to 10000 parts of at most 5 GiB each,
and of at least 5 MiB except for the last one. -/
def S3Limits (env : Env) : Prop := ∀ datas : List Bytes, datas ≠ [] → datas.length ≤ 10000 →
  (∀ data ∈ datas, data.length ≤ 5 * 1024 ^ 3) →
  (∀ data ∈ datas.dropLast, 5 * 1024 ^ 2 ≤ data.length) → S3Accepts env datas

/-- A file to be uploaded in pieces, with the id that its session is given. -/
structure Upload where
  newId : UUID
  tenantId : UUID
  fileId : UUID
  pieces : List Bytes

namespace Upload

variable (env : Env) (u : Upload)

def content : Bytes := u.pieces.flatten
def checksum : String := env.sha256 u.content
def s3Uri : String := uri env (objectKey u.tenantId u.fileId)

/-- The session after the pieces `done`. -/
def session (done : List Bytes) : UploadSession :=
  { newSession u.newId u.tenantId u.fileId u.content.length (u.checksum env) with
    currentOffset := done.flatten.length
    status := if done = [] then .initiated else .uploading }

def initiate : Op :=
  .initiate u.newId u.tenantId u.fileId u.content.length (u.checksum env)

/-- The uploads of the pieces `done`, with the indices 0, 1, 2, …. -/
def uploads (done : List Bytes) : List Op :=
  done.mapIdx fun n data => .uploadChunk u.newId n (env.sha256 data) data

/-- All requests, in order. -/
def script : List Op := u.initiate env :: u.uploads env u.pieces ++ [.finalize u.newId]

/-- The pieces of a file of at most 1 GiB that the size rules admit: 5 MiB to 50 MiB,
the last one from 1 byte on; the scanner finds nothing in any of them. -/
structure WellCut : Prop where
  nonempty : u.content ≠ []
  bounded : u.content.length ≤ 1024 ^ 3
  sized : ∀ data ∈ u.pieces, 1 ≤ data.length ∧ data.length ≤ 50 * 1024 ^ 2
  large : ∀ data ∈ u.pieces.dropLast, 5 * 1024 ^ 2 ≤ data.length
  clean : ∀ data ∈ u.pieces, CleanChunk data

/-- Nothing is known of the file, and no key has the new id in it. -/
structure Fresh (w : World) : Prop where
  unknown : RedisMetadataRegistry.getByChecksum w u.tenantId (u.checksum env) = none
  free : w.lock? u.newId = none
  chunk : ∀ i, w.chunk? u.newId i = none
  chunkMeta : ∀ i, w.chunkMeta? u.newId i = none

/-- The pieces `done` have been uploaded, and nothing is committed yet. -/
structure Uploaded (w₀ : World) (done : List Bytes) (w : World) : Prop where
  live : w.session? u.newId = some (u.session env done)
  free : w.lock? u.newId = none
  cached : Caches w u.newId done
  paired : ∀ i, (w.chunkMeta? u.newId i).isSome = (w.chunk? u.newId i).isSome
  objects : w.objects = w₀.objects
  events : w.events = w₀.events

/-- The file has been committed, registered and announced, and the session is gone. -/
structure Archived (w₀ w : World) : Prop where
  object : w.objects = Function.update w₀.objects (objectKey u.tenantId u.fileId) (some u.content)
  event : w.events = w₀.events ++
    [⟨u.tenantId, u.fileId, u.s3Uri env, u.content.length, u.checksum env⟩]
  entry : w.dedup (u.tenantId, u.checksum env) = some (u.s3Uri env, none)
  gone : Gone u.newId w
  free : w.lock? u.newId = none

end Upload

/-! ## The pieces -/

section Pieces

variable {pieces done : List Bytes} {data : Bytes}

/-- A piece is the last one, or one of those before it. -/
theorem last_or_mem_dropLast (h : done ++ [data] <+: pieces) :
    done ++ [data] = pieces ∨ data ∈ pieces.dropLast := by
  rcases h with ⟨rest, rfl⟩
  by_cases hrest : rest = []
  · left
    rw [hrest, List.append_nil]
  · right
    rw [List.dropLast_append_of_ne_nil hrest]
    simp

theorem length_flatten_le (h : done <+: pieces) : done.flatten.length ≤ pieces.flatten.length := by
  rcases h with ⟨rest, rfl⟩
  rw [List.flatten_append, List.length_append]
  exact Nat.le_add_right _ _

theorem mul_length_le {k : Nat} (h : ∀ data ∈ pieces, k ≤ data.length) :
    k * pieces.length ≤ pieces.flatten.length := by
  induction pieces with
  | nil => simp
  | cons piece pieces ih =>
      have hhead := h piece List.mem_cons_self
      have htail := ih fun data hdata => h data (List.mem_cons_of_mem _ hdata)
      rw [List.length_cons, List.flatten_cons, List.length_append, Nat.mul_add, Nat.mul_one]
      omega

/-- A file of at most 1 GiB has few pieces, and S3 accepts them. -/
theorem Upload.WellCut.accepted {env : Env} {u : Upload} (h : u.WellCut) (hs3 : S3Limits env) :
    S3Accepts env u.pieces := by
  have hne : u.pieces ≠ [] := by
    intro hnil
    apply h.nonempty
    simp [Upload.content, hnil]
  apply hs3 u.pieces hne
  · have hfew := mul_length_le h.large
    have hle := length_flatten_le (List.dropLast_prefix u.pieces)
    have hsize := h.bounded
    rw [List.length_dropLast] at hfew
    rw [Upload.content] at hsize
    omega
  · intro data hdata
    have hmax := (h.sized data hdata).2
    omega
  · exact h.large

end Pieces

/-! ## Step by step -/

section Steps

variable {env : Env} {u : Upload} {w₀ w w' : World} {done : List Bytes} {data : Bytes}

/-- The initiate finds no entry and stores the session. -/
theorem Upload.Fresh.initiated (h : u.Fresh env w) (r : Except Exn Response) :
    Alone env (u.initiate env) w r w' ↔
      r = .ok (.initiated (some (u.session env []), none)) ∧
        w' = RedisSessionRepository.save w (u.session env []) := by
  rw [Upload.initiate, alone_initiate, h.unknown]
  simp [Upload.session, newSession]

theorem Upload.Fresh.uploaded (h : u.Fresh env w) :
    u.Uploaded env w [] (RedisSessionRepository.save w (u.session env [])) where
  live := session?_save_self rfl
  free := h.free
  cached := by
    constructor
    · intro i
      have hnone := h.chunk i
      by_cases hi : 0 ≤ i
      · rw [if_pos hi]
        exact hnone
      · rw [if_neg hi]
        exact hnone
    · intro data hdata
      cases hdata
  paired := by
    intro i
    have hchunk : (RedisSessionRepository.save w (u.session env [])).chunk? u.newId i = none :=
      h.chunk i
    have hmeta : (RedisSessionRepository.save w (u.session env [])).chunkMeta? u.newId i = none :=
      h.chunkMeta i
    rw [hchunk, hmeta]
    rfl
  objects := rfl
  events := rfl

/-- The next piece passes all checks. -/
theorem Upload.Uploaded.stores (h : u.Uploaded env w₀ done w) (hcut : u.WellCut)
    (hnext : done ++ [data] <+: u.pieces) :
    Stores env w u.newId (env.sha256 data) data (u.session env done) := by
  have hmem : data ∈ u.pieces := hnext.subset (by simp)
  have hmax := (hcut.sized data hmem).2
  refine ⟨h.live, ?_, h.free, ?_, ?_, rfl⟩
  · by_cases hnil : done = []
    · simp [UploadSession.Open, Upload.session, hnil]
    · simp [UploadSession.Open, Upload.session, hnil]
  · show data.length ≤ 50 * 1024 * 1024
    omega
  · rcases last_or_mem_dropLast hnext with hlast | hinner
    · -- the last piece fills the file
      right
      show (done.flatten.length : Int) + data.length = u.content.length
      rw [Upload.content, ← hlast]
      simp
    · left
      have hmin := hcut.large data hinner
      show 5 * 1024 * 1024 ≤ data.length
      omega

/-- The offset is the number of bytes uploaded so far. -/
theorem Upload.WellCut.updateOffset (hcut : u.WellCut) (hnext : done ++ [data] <+: u.pieces) :
    (u.session env done).updateOffset data.length = .ok (u.session env (done ++ [data])) := by
  have hmem : data ∈ u.pieces := hnext.subset (by simp)
  have hpos := (hcut.sized data hmem).1
  have hlength : (done ++ [data]).flatten.length = done.flatten.length + data.length := by simp
  have hle := length_flatten_le hnext
  rw [hlength] at hle
  have hfits : ¬ (done.flatten.length : Int) + data.length > u.content.length := by
    rw [Upload.content]
    omega
  have hsome : ¬ (data.length : Int) ≤ 0 := by omega
  have hmoved : ((done.flatten.length : Int) + data.length > 0) := by omega
  simp only [UploadSession.updateOffset, Upload.session, newSession, hsome, hfits, if_false,
    hlength, hmoved, true_and]
  by_cases hnil : done = []
  · simp [hnil]
  · simp [hnil]

/-- The upload of the next piece is accepted. -/
theorem Upload.Uploaded.next (h : u.Uploaded env w₀ done w) (hcut : u.WellCut)
    (hnext : done ++ [data] <+: u.pieces) :
    ∃ w₁, u.Uploaded env w₀ (done ++ [data]) w₁ ∧ ∀ r w',
      Alone env (.uploadChunk u.newId done.length (env.sha256 data) data) w r w' ↔
        r = .ok (.uploaded (u.session env (done ++ [data]))) ∧ w' = w₁ := by
  have hmem : data ∈ u.pieces := hnext.subset (by simp)
  have hne : data ≠ [] := List.ne_nil_of_length_pos (hcut.sized data hmem).1
  have hmove : (u.session env done).updateOffset data.length =
      .ok (u.session env (done ++ [data])) := hcut.updateOffset hnext
  have hchunk : ChunkStored env u.newId done.length data w
      ((storing env w u.newId done.length data
        (.ok (u.session env (done ++ [data])))).unlocked u.newId) := by
    have hsave : ChunkStored env u.newId done.length data w
        (RedisChunkRepository.save w u.newId (chunkOf env done.length data)) := chunkSave_self
    exact ⟨hsave.chunk, hsave.chunkMeta⟩
  refine ⟨(storing env w u.newId done.length data
    (.ok (u.session env (done ++ [data])))).unlocked u.newId,
    ⟨session?_save_self rfl, ExpiringMap.get_erase_self .., h.cached.append hne hchunk, ?_,
      h.objects, h.events⟩, ?_⟩
  · intro i
    rw [hchunk.chunk, hchunk.chunkMeta]
    by_cases hi : i = done.length
    · rw [if_pos hi, if_pos hi]
      rfl
    · rw [if_neg hi, if_neg hi]
      exact h.paired i
  · intro r w'
    rw [alone_upload (h.stores hcut hnext) r, hmove]
    rfl

/-- The finalize commits the file. -/
theorem Upload.Uploaded.finalized (h : u.Uploaded env w₀ u.pieces w) (hcut : u.WellCut)
    (hs3 : S3Limits env) : ∃ w₁, u.Archived env w₀ w₁ ∧ ∀ r w',
      Alone env (.finalize u.newId) w r w' ↔
        r = .ok (.finalized (u.s3Uri env)) ∧ w' = w₁ := by
  have hready : Finalizable w u.newId (u.session env u.pieces) := by
    refine ⟨h.live, ?_, rfl, h.free⟩
    by_cases hnil : u.pieces = []
    · simp [UploadSession.Open, Upload.session, hnil]
    · simp [UploadSession.Open, Upload.session, hnil]
  have hfinalize := fun r w' =>
    @alone_finalize_run env w w' u.newId _ _ hready h.paired h.cached.run hcut.clean r
  simp only [hcut.accepted hs3, true_and, not_true_eq_false, false_and, or_false] at hfinalize
  refine ⟨_, ?_, hfinalize⟩
  have hgone := gone_purge u.newId (((w.locking u.newId).committed
    (objectKey u.tenantId u.fileId) u.pieces).published (u.session env u.pieces) (u.s3Uri env))
  constructor
  · show Function.update w.objects _ _ = _
    rw [h.objects]
    rfl
  · show w.events ++ _ = _
    rw [h.events]
    rfl
  · exact if_pos rfl
  · exact ⟨hgone.session, hgone.chunk, hgone.chunkMeta⟩
  · exact ExpiringMap.get_erase_self ..

end Steps

/-! ## Waiting -/

section Waits

variable {env : Env} {u : Upload} {w₀ w : World} {done : List Bytes} {d : Nat}

theorem Upload.Fresh.wait (h : u.Fresh env w) (hlasts : Lasts w d) : u.Fresh env (w.advance d) := by
  refine ⟨?_, (hlasts u.newId).2.1.trans h.free, fun i => ?_, fun i => ?_⟩
  · -- an entry may run out, but none comes up
    have hunknown := h.unknown
    unfold RedisMetadataRegistry.getByChecksum at hunknown ⊢
    cases hlater : (w.advance d).dedup? u.tenantId (u.checksum env) with
    | none => rfl
    | some s3Uri =>
        have hnow : w.dedup? u.tenantId (u.checksum env) = some s3Uri :=
          w.dedup.get_of_get_later (Nat.le_add_right _ d) hlater
        rw [hnow] at hunknown
        exact hunknown
  · exact ((hlasts u.newId).2.2 i).1.trans (h.chunk i)
  · exact ((hlasts u.newId).2.2 i).2.trans (h.chunkMeta i)

theorem Upload.Uploaded.wait (h : u.Uploaded env w₀ done w) (hlasts : Lasts w d) :
    u.Uploaded env w₀ done (w.advance d) := by
  rcases hlasts u.newId with ⟨hsession, hlock, hchunks⟩
  refine ⟨hsession.trans h.live, hlock.trans h.free, h.cached.same fun i => (hchunks i).1,
    fun i => ?_, h.objects, h.events⟩
  rw [(hchunks i).1, (hchunks i).2]
  exact h.paired i

theorem Upload.Archived.wait (h : u.Archived env w₀ w) (hlasts : Lasts w d) :
    u.Archived env w₀ (w.advance d) := by
  rcases hlasts u.newId with ⟨hsession, hlock, hchunks⟩
  exact ⟨h.object, h.event, h.entry, ⟨hsession.trans h.gone.session,
    fun i => (hchunks i).1.trans (h.gone.chunk i),
    fun i => (hchunks i).2.trans (h.gone.chunkMeta i)⟩, hlock.trans h.free⟩

end Waits

/-! ## The run -/

section Run

variable {env : Env} {u : Upload} {G : World → Op → Prop} {w₀ w : World} {served : List Served}
  {done : List Bytes}

/-- Every request returns. -/
def Succeeds (served : List Served) : Prop := ∀ d ∈ served, ∃ a, d.2 = .ok a

theorem Succeeds.append (h : Succeeds served) (op : Op) (a : Response) :
    Succeeds (served ++ [(op, .ok a)]) := by
  intro d hd
  rcases List.mem_append.1 hd with hd | hd
  · exact h d hd
  · rw [List.mem_singleton.1 hd]
    exact ⟨a, rfl⟩

theorem Upload.uploads_append (done : List Bytes) (data : Bytes) :
    u.uploads env (done ++ [data]) = u.uploads env done ++
      [.uploadChunk u.newId done.length (env.sha256 data) data] := by
  simp [Upload.uploads, List.mapIdx_append]

/-- Before the first request, the file is still unknown. -/
theorem serial_waiting (h₀ : u.Fresh env w₀) (h : Serial env G w₀ served w)
    (hops : served.map (·.1) = []) : u.Fresh env w ∧ w.objects = w₀.objects ∧
      w.events = w₀.events := by
  induction h with
  | start => exact ⟨h₀, rfl, rfl⟩
  | serve => simp at hops
  | wait _ hlasts ih =>
      rcases ih hops with ⟨hfresh, hobjects, hevents⟩
      exact ⟨hfresh.wait hlasts, hobjects, hevents⟩

/-- After the initiate and the uploads of the pieces `done`. -/
theorem serial_uploaded (hcut : u.WellCut) (h₀ : u.Fresh env w₀) (h : Serial env G w₀ served w)
    (hdone : done <+: u.pieces)
    (hops : served.map (·.1) = u.initiate env :: u.uploads env done) :
    Succeeds served ∧ u.Uploaded env w₀ done w := by
  induction h generalizing done with
  | start => cases hops
  | @serve served w w' op r hrun _ _ halone ih =>
      rw [List.map_append, List.map_singleton] at hops
      rcases List.eq_nil_or_concat done with rfl | ⟨prior, data, rfl⟩
      · -- the initiate
        rcases List.append_eq_singleton_iff.1 hops with ⟨hnil, hop⟩ | ⟨_, hop⟩
        · rcases serial_waiting h₀ hrun hnil with ⟨hfresh, hobjects, hevents⟩
          cases hop
          rcases (hfresh.initiated r).1 halone with ⟨rfl, rfl⟩
          have hnew := hfresh.uploaded
          rw [List.map_eq_nil_iff.1 hnil]
          exact ⟨Succeeds.append (by simp [Succeeds]) _ _, hnew.live, hnew.free, hnew.cached,
            hnew.paired, hobjects, hevents⟩
        · cases hop
      · -- the upload of the next piece
        rw [List.concat_eq_append] at hdone hops ⊢
        rw [Upload.uploads_append, ← List.cons_append] at hops
        rcases List.append_inj' hops rfl with ⟨hprior, hop⟩
        cases hop
        rcases ih ((List.prefix_append _ _).trans hdone) hprior with ⟨hsucc, hup⟩
        rcases hup.next hcut hdone with ⟨w₁, hnext, halone'⟩
        rcases (halone' r w').1 halone with ⟨rfl, rfl⟩
        exact ⟨hsucc.append _ _, hnext⟩
  | wait _ hlasts ih =>
      rcases ih hdone hops with ⟨hsucc, hup⟩
      exact ⟨hsucc, hup.wait hlasts⟩

theorem serial_archived (hcut : u.WellCut) (hs3 : S3Limits env) (h₀ : u.Fresh env w₀)
    (h : Serial env G w₀ served w) (hops : served.map (·.1) = u.script env) :
    Succeeds served ∧ (served.map (·.2)).getLast? = some (.ok (.finalized (u.s3Uri env))) ∧
      u.Archived env w₀ w := by
  induction h with
  | start => simp [Upload.script] at hops
  | @serve served w w' op r hrun _ _ halone ih =>
      rw [List.map_append, List.map_singleton, Upload.script] at hops
      rcases List.append_inj' hops rfl with ⟨hprior, hop⟩
      cases hop
      rcases serial_uploaded hcut h₀ hrun List.prefix_rfl hprior with ⟨hsucc, hup⟩
      rcases hup.finalized hcut hs3 with ⟨w₁, harchived, halone'⟩
      rcases (halone' r w').1 halone with ⟨rfl, rfl⟩
      exact ⟨hsucc.append _ _, by simp, harchived⟩
  | wait _ hlasts ih =>
      rcases ih hops with ⟨hsucc, hlast, harchived⟩
      exact ⟨hsucc, hlast, harchived.wait hlasts⟩

/-- The requests can be made. -/
theorem exists_uploaded (hcut : u.WellCut) (h₀ : u.Fresh env w₀) (hdone : done <+: u.pieces) :
    ∃ served w, Serial env (fun _ _ => True) w₀ served w ∧
      served.map (·.1) = u.initiate env :: u.uploads env done := by
  induction done using List.reverseRecOn with
  | nil =>
      exact ⟨_, _, .serve .start trivial (fun _ _ d hd => by cases hd)
        ((h₀.initiated _).2 ⟨rfl, rfl⟩), rfl⟩
  | append_singleton prior data ih =>
      rcases ih ((List.prefix_append _ _).trans hdone) with ⟨served, w, hrun, hops⟩
      rcases serial_uploaded hcut h₀ hrun ((List.prefix_append _ _).trans hdone) hops with
        ⟨_, hup⟩
      rcases hup.next hcut hdone with ⟨w₁, _, halone⟩
      refine ⟨_, w₁, .serve hrun trivial (fun _ hid => by cases hid)
        ((halone _ _).2 ⟨rfl, rfl⟩), ?_⟩
      rw [List.map_append, hops, Upload.uploads_append]
      rfl

theorem exists_archived (hcut : u.WellCut) (hs3 : S3Limits env) (h₀ : u.Fresh env w₀) :
    ∃ served w, Serial env (fun _ _ => True) w₀ served w ∧
      served.map (·.1) = u.script env := by
  rcases exists_uploaded hcut h₀ List.prefix_rfl with ⟨served, w, hrun, hops⟩
  rcases serial_uploaded hcut h₀ hrun List.prefix_rfl hops with ⟨_, hup⟩
  rcases hup.finalized hcut hs3 with ⟨w₁, _, halone⟩
  refine ⟨_, w₁, .serve hrun trivial (fun _ hid => by cases hid)
    ((halone _ _).2 ⟨rfl, rfl⟩), ?_⟩
  rw [List.map_append, hops]
  rfl

theorem s3Uri_ne_empty : u.s3Uri env ≠ "" := by
  intro hempty
  simp only [Upload.s3Uri, uri, String.append_eq_empty_iff] at hempty
  exact absurd hempty.1.1.1 (by decide)

/-- From then on the file is known. -/
theorem Upload.Archived.known (h : u.Archived env w₀ w) (newId f : UUID) (size : Int)
    (r : Except Exn Response) (w' : World) :
    Alone env (.initiate newId u.tenantId f size (u.checksum env)) w r w' ↔
      r = .ok (.initiated (none, some (u.s3Uri env))) ∧ w' = w := by
  have hfound : RedisMetadataRegistry.getByChecksum w u.tenantId (u.checksum env) =
      some (u.s3Uri env) := by
    have hentry : w.dedup? u.tenantId (u.checksum env) = some (u.s3Uri env) := by
      unfold World.dedup? ExpiringMap.get
      rw [h.entry]
    simp [RedisMetadataRegistry.getByChecksum, hentry, s3Uri_ne_empty]
  rw [alone_initiate, hfound]
  simp

end Run

/-- The round trip: from any state in which nothing is known of the file, its upload in
pieces that the size rules admit can be made, and whenever it is made, with nothing else
going on and nothing expiring, every request returns, the object at the URI that the
finalize returns is the file, one event is published, no key of the session is left, and
a later initiate returns the URI and changes nothing. -/
theorem round_trip {env : Env} {u : Upload} {w₀ : World} (hcut : u.WellCut) (hs3 : S3Limits env)
    (h₀ : u.Fresh env w₀) :
    (∃ served w, Serial env (fun _ _ => True) w₀ served w ∧ served.map (·.1) = u.script env) ∧
    ∀ served w, Serial env (fun _ _ => True) w₀ served w → served.map (·.1) = u.script env →
      (∀ d ∈ served, ∃ a, d.2 = .ok a) ∧
      (served.map (·.2)).getLast? = some (.ok (.finalized (u.s3Uri env))) ∧
      w.objects = Function.update w₀.objects (objectKey u.tenantId u.fileId) (some u.content) ∧
      w.events = w₀.events ++
        [⟨u.tenantId, u.fileId, u.s3Uri env, u.content.length, u.checksum env⟩] ∧
      (w.session? u.newId = none ∧ w.lock? u.newId = none ∧
        ∀ i, w.chunk? u.newId i = none ∧ w.chunkMeta? u.newId i = none) ∧
      ∀ newId f size r w', Alone env (.initiate newId u.tenantId f size (u.checksum env)) w r w' ↔
        r = .ok (.initiated (none, some (u.s3Uri env))) ∧ w' = w := by
  refine ⟨exists_archived hcut hs3 h₀, ?_⟩
  intro served w hrun hops
  rcases serial_archived hcut hs3 h₀ hrun hops with ⟨hsucc, hlast, harchived⟩
  exact ⟨hsucc, hlast, harchived.object, harchived.event, ⟨harchived.gone.session, harchived.free,
    fun i => ⟨harchived.gone.chunk i, harchived.gone.chunkMeta i⟩⟩, harchived.known⟩

namespace Demo

/-- A file in two pieces. -/
def twoPieces : Upload := ⟨sid, tenant, file, [big, b]⟩

theorem wellCut_twoPieces : twoPieces.WellCut := by
  have hlength := big_length
  have hsum : twoPieces.content.length = 5 * 1024 * 1024 + 1 := by
    simp [twoPieces, Upload.content, hlength, b]
  constructor
  · exact List.ne_nil_of_length_pos (by omega)
  · omega
  · intro data hdata
    rcases List.mem_pair.1 hdata with rfl | rfl
    · omega
    · simp [b]
  · intro data hdata
    rw [List.mem_singleton.1 hdata]
    omega
  · intro data hdata
    rcases List.mem_pair.1 hdata with rfl | rfl
    · exact clean_big
    · exact clean_of_not_mem (by decide)

end Demo

theorem round_trip_demo : ∃ served w,
    Serial Demo.bigEnv (fun _ _ => True) (World.empty 0) served w ∧
      (served.map (·.2)).getLast? = some (.ok (.finalized (Demo.twoPieces.s3Uri Demo.bigEnv))) ∧
      w.objects (objectKey Demo.tenant Demo.file) = some (Demo.big ++ Demo.b) := by
  have hs3 : S3Limits Demo.bigEnv := by
    intro datas hne _ _ _
    simpa [S3Accepts, Demo.bigEnv, Demo.env] using hne
  have h₀ : Demo.twoPieces.Fresh Demo.bigEnv (World.empty 0) :=
    ⟨rfl, rfl, fun _ => rfl, fun _ => rfl⟩
  rcases round_trip Demo.wellCut_twoPieces hs3 h₀ with ⟨⟨served, w, hrun, hops⟩, hall⟩
  rcases hall served w hrun hops with ⟨_, hlast, hobjects, _⟩
  refine ⟨served, w, hrun, hlast, ?_⟩
  rw [hobjects]
  exact (Function.update_self ..).trans (by simp [Demo.twoPieces, Upload.content])

end FileUploader
