import FileUploader.Locking

/-! # The representation invariant of sessions

Every save stores what follows from a copy that was read before the lock was taken, so
a copy may be arbitrarily old by the time it is written back. What holds of every
stored session therefore has to hold of every copy in flight, and must not depend on a
copy being the latest. It then holds in all runs: interleaved, with calls that fail and
with locks that expire.
-/

namespace FileUploader

open Await

variable {env : Env}

/-- What size, offset and status of a session say of each other. -/
structure UploadSession.WellFormed (v : UploadSession) : Prop where
  sized : 0 < v.totalSize
  nonneg : 0 ≤ v.currentOffset
  bounded : v.currentOffset ≤ v.totalSize
  initiated : v.status = .initiated ↔ v.currentOffset = 0
  uploading : v.status = .uploading → 0 < v.currentOffset
  failed : v.status = .failed → v.currentOffset = v.totalSize
  ended : v.status ≠ .completed ∧ v.status ≠ .aborted

namespace UploadSession.WellFormed

variable {v v' : UploadSession}

/-- A new session. -/
theorem of_initiated (hsize : 0 < v.totalSize) (hoff : v.currentOffset = 0)
    (hst : v.status = .initiated) : v.WellFormed := by
  constructor
  · exact hsize
  · omega
  · omega
  · exact iff_of_true hst hoff
  · simp [hst]
  · simp [hst]
  · simp [hst]

/-- Moving the offset keeps the invariant: there is no room in a failed session. -/
theorem updateOffset (h : v.WellFormed) {n : Int} (hmove : v.updateOffset n = .ok v') :
    v'.WellFormed := by
  rcases UploadSession.updateOffset_ok hmove with ⟨hpos, hfits, hoff, _, _, _, hsize, _, hst⟩
  have hnonneg := h.nonneg
  -- the status is read off case by case
  have hstatus : v'.status = .uploading := by
    rw [hst]
    by_cases hinit : v.status = .initiated
    · rw [if_pos ⟨by omega, hinit⟩]
    · rw [if_neg (fun hs => hinit hs.2)]
      cases hv : v.status with
      | uploading => rfl
      | initiated => exact absurd hv hinit
      | completed => exact absurd hv h.ended.1
      | aborted => exact absurd hv h.ended.2
      | failed =>
          have hfull := h.failed hv
          omega
  constructor
  · rw [hsize]
    exact h.sized
  · omega
  · omega
  · rw [hstatus, hoff]
    constructor
    · intro hs
      cases hs
    · intro hs
      omega
  · intro _
    omega
  · simp [hstatus]
  · simp [hstatus]

/-- A session may fail once all its bytes are there. -/
theorem fail (h : v.WellFormed) (hfull : v.currentOffset = v.totalSize) :
    v.fail.WellFormed := by
  have hsized := h.sized
  constructor
  · exact hsized
  · exact h.nonneg
  · exact h.bounded
  · show UploadStatus.failed = .initiated ↔ v.currentOffset = 0
    constructor
    · intro hs
      cases hs
    · intro hs
      omega
  · intro hs
    cases hs
  · intro _
    exact hfull
  · simp [UploadSession.fail]

end UploadSession.WellFormed

/-- `v` is well formed, and one of these requests has initiated it as it is. -/
structure Represents (ops : List Op) (v : UploadSession) : Prop where
  wellFormed : v.WellFormed
  initiator : .initiate v.sessionId v.tenantId v.fileId v.totalSize v.checksum ∈ ops

/-- The request schema admits positive sizes only. -/
def sizesPositive : Label (service env) → Bool
  | .spawn (.initiate _ _ _ size _) => 0 < size
  | _ => true

theorem Represents.mono {ops ops' : List Op} {v : UploadSession} (h : Represents ops v)
    (hops : ∀ op ∈ ops, op ∈ ops') : Represents ops' v :=
  ⟨h.wellFormed, hops _ h.initiator⟩

/-! ## What a request may save -/

theorem Represents.updateOffset {ops : List Op} {v v' : UploadSession} {n : Int}
    (h : Represents ops v) (hmove : v.updateOffset n = .ok v') : Represents ops v' := by
  refine ⟨h.wellFormed.updateOffset hmove, ?_⟩
  rcases UploadSession.updateOffset_ok hmove with ⟨_, _, _, hid, ht, hf, hsize, hcs, _⟩
  rw [hid, ht, hf, hsize, hcs]
  exact h.initiator

/-- What follows from a represented copy is represented, however old the copy is. -/
theorem Represents.saves {ops : List Op} {v s : UploadSession} {op : Op} (h : Represents ops v)
    (hsaves : SessionLocal.Saves v s op) : Represents ops s := by
  cases op with
  | uploadChunk sid index cs data => exact h.updateOffset hsaves.2
  | finalize sid =>
      rcases hsaves with ⟨_, hfull, rfl⟩
      exact ⟨h.wellFormed.fail hfull, h.initiator⟩
  | _ => exact hsaves.elim

theorem represents_creates {ops : List Op} {s : UploadSession} {op : Op}
    (hnew : SessionLocal.Creates s op) (hop : op ∈ ops)
    (hsized : ∀ newId t f size cs, .initiate newId t f size cs ∈ ops → 0 < size) :
    Represents ops s := by
  cases op with
  | initiate newId t f size cs =>
      simp only [SessionLocal.Creates] at hnew
      subst hnew
      exact ⟨.of_initiated (hsized _ _ _ _ _ hop) rfl rfl, hop⟩
  | _ => exact hnew.elim

/-! ## The invariant -/

/-- Whatever is stored, has been read or is taken for stored is represented. -/
structure Represented (s : Scene (service env)) : Prop where
  sized : ∀ newId t f size cs, .initiate newId t f size cs ∈ s.ops → 0 < size
  stored : ∀ sid v, s.world.session? sid = some v → Represents s.ops v
  copied : ∀ (i : Nat) (op : Op), s.ops[i]? = some op → ∀ v, (knows s i op).copy = some v →
    Represents s.ops v
  viewed : ∀ (i : Nat) (op : Op), s.ops[i]? = some op → ∀ v, (knows s i op).view = some v →
    Represents s.ops v

section Step

variable {s : Scene (service env)} {i : Nat} {op : Op} {cl : Call} {out : Outcome}

/-- Whatever a request saves is represented. -/
theorem Represented.saved (h : Represented s) (hop : s.ops[i]? = some op) {v : UploadSession}
    (hallow : (knows s i op).allows env (.sessionSave v)) : Represents s.ops v := by
  have hknows := knows_op s i op
  rcases hallow with ⟨hnew, _⟩ | ⟨_, _, v', hview, hsaves⟩
  · rw [hknows] at hnew
    exact represents_creates hnew (List.mem_of_getElem? hop) h.sized
  · exact (h.viewed i op hop v' hview).saves hsaves

theorem Represented.answer (h : Represented s) (hop : s.ops[i]? = some op)
    (hallow : (knows s i op).allows env cl) : Represented (s.answer i cl out) := by
  refine ⟨h.sized, ?_, ?_, ?_⟩
  · intro sid v hv
    rcases handle_session? env out cl s.world sid with hsame | ⟨v', hc, _, hs⟩ | ⟨_, hnone⟩
    · exact h.stored sid v (hsame.symm.trans hv)
    · subst hc
      cases hs.symm.trans hv
      exact h.saved hop hallow
    · cases hnone.symm.trans hv
  · refine knows_forall_answer (P := fun _ _ l => ∀ v, l.copy = some v → Represents s.ops v) hop
      ?_ (fun j op' _ hj => h.copied j op' hj)
    intro v hv
    rcases SessionLocal.next_copy hv with hv | hread
    · exact h.copied i op hop v hv
    · rcases handle_sessionRead env out cl s.world hread with ⟨sid, _, hstored⟩
      exact h.stored sid v hstored
  · refine knows_forall_answer (P := fun _ _ l => ∀ v, l.view = some v → Represents s.ops v) hop
      ?_ (fun j op' _ hj => h.viewed j op' hj)
    intro v hv
    rcases SessionLocal.next_view hv with hv | hc | ⟨_, hcopy⟩
    · exact h.viewed i op hop v hv
    · subst hc
      exact h.saved hop hallow
    · exact h.copied i op hop v hcopy

end Step

theorem represented_keeps :
    Keeps (fun (_ : Run env) l => sizesPositive l) (fun s => Represented s) where
  spawn := by
    intro c op hg hknown h
    have hops : ∀ op' ∈ c.ops, op' ∈ c.ops ++ [op] := fun op' hop' => List.mem_append_left _ hop'
    refine ⟨?_, fun sid v hv => (h.stored sid v hv).mono hops, ?_, ?_⟩
    · intro newId t f size cs hmem
      rcases List.mem_append.1 hmem with hmem | hmem
      · exact h.sized newId t f size cs hmem
      · rw [List.mem_singleton] at hmem
        subst hmem
        simpa [sizesPositive] using hg
    · exact knows_forall_spawn (P := fun _ _ l => ∀ v, l.copy = some v →
        Represents (c.ops ++ [op]) v) hknown.wf (by simp [SessionLocal.start])
        (fun i op' hi v hv => (h.copied i op' hi v hv).mono hops)
    · exact knows_forall_spawn (P := fun _ _ l => ∀ v, l.view = some v →
        Represents (c.ops ++ [op]) v) hknown.wf (by simp [SessionLocal.start])
        (fun i op' hi v hv => (h.viewed i op' hi v hv).mono hops)
  move := by
    intro c d _ h
    refine ⟨h.sized, ?_, h.copied, h.viewed⟩
    intro sid v hv
    exact h.stored sid v (c.world.sessions.get_of_get_later (Nat.le_add_right _ d) hv)
  call := fun _ _ _ _ _ _ _ hop _ h hallow => h.answer hop hallow

/-- In every run of requests that initiate sessions of positive size, over all
interleavings, stale reads, expired locks and failing calls, every stored session is
well formed, and names what it was initiated with. -/
theorem session_invariant {now : Nat} {c : Run env} {sid : UUID} {v : UploadSession}
    (h : Reach (fun _ l => sizesPositive l) (Config.start (World.empty now)) c)
    (hv : c.world.session? sid = some v) :
    v.WellFormed ∧ v.sessionId = sid ∧
      .initiate sid v.tenantId v.fileId v.totalSize v.checksum ∈ c.ops := by
  have hinit : Represented (⟨World.empty now, [], []⟩ : Scene (service env)) :=
    ⟨by simp, by simp [World.session?, World.empty], by simp, by simp⟩
  have hrep := (represented_keeps.reach hinit h).stored sid v hv
  have hid := (reach_known h).sound.keyed sid v hv
  refine ⟨hrep.wellFormed, hid, ?_⟩
  rw [← hid]
  exact hrep.initiator

namespace Demo

/-- A session of one byte is initiated, and two uploads of the byte have read it before
the first of them saves. -/
def staleUpload : List (Label (service Demo.env)) :=
  [.spawn (.initiate sid tenant file 1 (sha256 a))] ++ calls 0 2 ++
    [.spawn (.uploadChunk sid 0 (sha256 a) a), .spawn (.uploadChunk sid 0 (sha256 a) a)] ++
    calls 1 1 ++ calls 2 1 ++ calls 1 4 ++ calls 2 4

end Demo

/-- The second upload saves what follows from its old copy. -/
theorem session_invariant_demo :
    ∃ (c : Run Demo.env) (v : UploadSession), c.world.session? Demo.sid = some v ∧
      v.WellFormed ∧ v.sessionId = Demo.sid ∧
      .initiate Demo.sid v.tenantId v.fileId v.totalSize v.checksum ∈ c.ops := by
  have h : ((Config.start (World.empty 0)).play (fun _ l => sizesPositive l)
      Demo.staleUpload).any (fun c => (c.world.session? Demo.sid).isSome) = true := by
    decide +kernel
  rcases exists_of_play (fun _ _ hl => hl) _ h with ⟨c, hc, hcheck⟩
  rcases Option.isSome_iff_exists.1 hcheck with ⟨v, hv⟩
  exact ⟨c, v, hv, session_invariant hc hv⟩

end FileUploader
