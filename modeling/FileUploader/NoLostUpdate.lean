import Mathlib.Algebra.BigOperators.Group.Finset.Basic
import Mathlib.Algebra.Order.BigOperators.Group.Finset
import FileUploader.Locking

/-! # No upload is lost

Several uploads to one session each read it, take its lock, and store it with the
offset they have read moved on. Under the lock nobody else stores the session, so
the stored offset counts every upload, as long as an upload that stores the session
took the lock with the offset that was stored then.
-/

namespace FileUploader

open Await

variable {env : Env}

/-- What an upload request to `sid` has added, if it has returned a session. -/
def returnedBytes (sid : UUID) (c : Run env) (i : Nat) : Nat :=
  match c.ops[i]?, c.result i with
  | some (.uploadChunk sid' _ _ data), some (.ok _) => if sid' = sid then data.length else 0
  | _, _ => 0

/-- The sizes of all uploads to `sid` that have returned successfully. -/
def uploadedBytes (sid : UUID) (c : Run env) : Nat :=
  ∑ i ∈ Finset.range c.ops.length, returnedBytes sid c i

/-- Session `sid` is only uploaded to and queried. -/
def onlyUploads (sid : UUID) : Label (service env) → Bool
  | .spawn (.finalize sid') | .spawn (.abort sid') => sid' ≠ sid
  | _ => true

/-- A request that saves session `sid` took the lock while the stored offset was
still the one it had read. -/
def savesFresh (sid : UUID) (c : Run env) : Label (service env) → Bool
  | .call i _ =>
      match c.ops[i]?, c.pending i with
      | some op, some (.sessionSave v) =>
          op.target? = some sid ∧ v.sessionId = sid →
            (storedAtLock sid i c.log).map (·.currentOffset) =
              (knows c.scene i op).copy.map (·.currentOffset)
      | _, _ => true
  | _ => true

/-! ## What the uploads have written -/

/-- What a request has added to the offset of `sid`, judging by its save. -/
def credit (sid : UUID) (op : Op) (l : SessionLocal) : Nat :=
  match op with
  | .uploadChunk sid' _ _ data => if sid' = sid ∧ l.wrote = true then data.length else 0
  | _ => 0

def creditOf (sid : UUID) (s : Scene (service env)) (i : Nat) : Nat :=
  match s.ops[i]? with
  | some op => credit sid op (knows s i op)
  | none => 0

/-- The sizes of all uploads to `sid` that have saved the session. -/
def written (sid : UUID) (s : Scene (service env)) : Nat :=
  ∑ i ∈ Finset.range s.ops.length, creditOf sid s i

section Credit

variable {sid : UUID} {s : Scene (service env)} {i : Nat} {op : Op} {cl : Call} {out : Outcome}

theorem creditOf_answer_other {j : Nat} (hj : j ≠ i) :
    creditOf sid (s.answer i cl out) j = creditOf sid s j := by
  unfold creditOf
  have hops : (s.answer i cl out).ops = s.ops := rfl
  rw [hops]
  cases s.ops[j]? with
  | none => rfl
  | some op => simp only [knows_answer_other s i cl out hj]

/-- A call changes what is written by what it changes for the caller. -/
theorem written_answer (sid : UUID) (cl : Call) (out : Outcome) (hop : s.ops[i]? = some op) :
    written sid (s.answer i cl out) + credit sid op (knows s i op) =
      written sid s + credit sid op ((knows s i op).next cl (handle env out cl s.world).1) := by
  have hi : i ∈ Finset.range s.ops.length :=
    Finset.mem_range.2 (List.getElem?_eq_some_iff.1 hop).1
  have hold : creditOf sid s i = credit sid op (knows s i op) := by
    simp [creditOf, hop]
  have hnew : creditOf sid (s.answer i cl out) i =
      credit sid op ((knows s i op).next cl (handle env out cl s.world).1) := by
    rw [← knows_answer_self]
    simp [creditOf, Scene.answer, hop]
  have hrest : ∑ j ∈ (Finset.range s.ops.length).erase i, creditOf sid (s.answer i cl out) j =
      ∑ j ∈ (Finset.range s.ops.length).erase i, creditOf sid s j :=
    Finset.sum_congr rfl (fun j hj => creditOf_answer_other (Finset.ne_of_mem_erase hj))
  have hwas := Finset.add_sum_erase _ (creditOf sid s) hi
  have his := Finset.add_sum_erase _ (creditOf sid (s.answer i cl out)) hi
  unfold written
  have hops : (s.answer i cl out).ops = s.ops := rfl
  rw [hops]
  omega

theorem credit_mono (sid : UUID) (op : Op) (l : SessionLocal) (c : Call) (r : Except Exn c.Resp) :
    credit sid op l ≤ credit sid op (l.next c r) := by
  unfold credit
  cases op with
  | uploadChunk sid' index cs data =>
      by_cases h : sid' = sid ∧ l.wrote = true
      · simp [h, SessionLocal.next_wrote_of_wrote h.2 c r]
      · simp [h]
  | _ => rfl

theorem written_answer_mono (hop : s.ops[i]? = some op) :
    written sid s ≤ written sid (s.answer i cl out) := by
  have hw := written_answer sid cl out hop
  have hc := credit_mono sid op (knows s i op) cl (handle env out cl s.world).1
  omega

theorem written_spawn (hwf : s.Wf) (op : Op) :
    written sid (⟨s.world, s.ops ++ [op], s.log⟩ : Scene (service env)) = written sid s := by
  unfold written
  have hlen : (s.ops ++ [op]).length = s.ops.length + 1 := by simp
  rw [hlen, Finset.sum_range_succ]
  have hnew : creditOf sid (⟨s.world, s.ops ++ [op], s.log⟩ : Scene (service env))
      s.ops.length = 0 := by
    simp only [creditOf, List.getElem?_concat_length, knows, Scene.localOf, hwf.callsOf_eq_nil,
      replay_nil]
    cases op <;> simp [credit, SessionLocal.start]
  rw [hnew, Nat.add_zero]
  refine Finset.sum_congr rfl (fun j hj => ?_)
  have hlt := Finset.mem_range.1 hj
  simp only [creditOf, List.getElem?_append_left hlt]
  rfl

end Credit

namespace SessionLocal

theorem next_freed {l : SessionLocal} (h : l.freed = true) (c : Call) (r : Except Exn c.Resp) :
    (l.next c r).freed = true := by
  unfold next
  split <;> simp [h]

/-- A request leaves the critical section by a call to `release_lock`. -/
theorem next_released {l : SessionLocal} {c : Call} {r : Except Exn c.Resp}
    (h : (l.next c r).held = false) : (∃ sid, c = .releaseLock sid) ∨ l.held = false := by
  unfold next at h
  split at h
  all_goals first
    | exact Or.inr h
    | exact Or.inl ⟨_, rfl⟩
    | cases h

end SessionLocal

/-! ## The invariant -/

/-- The stored offset counts what has been written, and so does what was stored
when the request now inside the critical section took the lock. -/
structure Accounted (sid : UUID) (s : Scene (service env)) : Prop where
  only : ∀ op ∈ s.ops, op ≠ Op.finalize sid ∧ op ≠ Op.abort sid
  stored : ∀ v, s.world.session? sid = some v → v.currentOffset = written sid s
  locked : ∀ (i : Nat) (op : Op), s.ops[i]? = some op → (knows s i op).Owns sid →
    (knows s i op).wrote = false → ∀ v, storedAtLock sid i s.log = some v →
      v.currentOffset = written sid s
  settled : ∀ (i : Nat) (op : Op), s.ops[i]? = some op → op.target? = some sid →
    (knows s i op).wrote = true → (knows s i op).held = false →
      (knows s i op).closed = true ∧ (knows s i op).freed = true

/-- Before a session is saved for the first time nothing is written to it. -/
theorem written_eq_zero {sid : UUID} {s : Scene (service env)} (htraced : Traced sid s)
    (hcoherent : ∀ (i : Nat) (op : Op), s.ops[i]? = some op → (knows s i op).Coherent)
    (hbegun : ¬ Begun sid s) : written sid s = 0 := by
  unfold written
  refine Finset.sum_eq_zero (fun i _ => ?_)
  unfold creditOf
  split
  · rename_i op hop
    unfold credit
    split
    · rename_i sid' index cs data
      split
      · rename_i hw
        rcases hw with ⟨rfl, hw⟩
        rcases (hcoherent i _ hop).wrote hw (by rw [knows_op]; rfl) with ⟨v, hv⟩
        exact absurd (htraced.copied i _ hop rfl (by simp [hv])) hbegun
      · rfl
    · rfl
  · rfl

/-- A request that only takes part in other sessions, or does not save, writes
nothing to `sid`. -/
theorem credit_next_eq {sid : UUID} {op : Op} {l : SessionLocal} {c : Call} {r : Except Exn c.Resp}
    (h : ∀ v, c = .sessionSave v → op.target? ≠ some sid ∨ l.wrote = true) :
    credit sid op (l.next c r) = credit sid op l := by
  unfold credit
  cases op with
  | uploadChunk sid' index cs data =>
      by_cases hsid : sid' = sid
      · subst hsid
        by_cases hw : l.wrote = true
        · simp [hw, SessionLocal.next_wrote_of_wrote hw c r]
        · have hnext : ¬ (l.next c r).wrote = true := by
            intro hw'
            rcases SessionLocal.next_wrote hw' with hold | ⟨v, hc⟩
            · exact hw hold
            · rcases h v hc with htarget | hold
              · exact htarget rfl
              · exact hw hold
          simp [hw, hnext]
      · simp [hsid]
  | _ => rfl

/-- A call that does not save session `sid` keeps the accounts. -/
theorem Accounted.answer_quiet {sid : UUID} {s : Scene (service env)} (h : Accounted sid s)
    {i : Nat} {op : Op} (hop : s.ops[i]? = some op) {cl : Call}
    (hallow : (knows s i op).allows env cl)
    (hquiet : ∀ v, cl = .sessionSave v → v.sessionId ≠ sid) :
    Accounted sid (s.answer i cl .works) := by
  have hknows := knows_op s i op
  have hforeign : ∀ v, cl = .sessionSave v → op.target? ≠ some sid := by
    intro v hc htarget
    subst hc
    rcases SessionLocal.allows_save hallow with ⟨hnew, _⟩ | ⟨hown, _⟩
    · rw [hknows, Op.newId?_eq_none htarget] at hnew
      cases hnew
    · refine hquiet v rfl (Option.some.inj ?_)
      rw [← hown.2, hknows, htarget]
  -- nothing is credited for it
  have hsame : written sid (s.answer i cl .works) = written sid s := by
    have hwritten := written_answer sid cl .works hop
    rw [credit_next_eq (fun v hc => Or.inl (hforeign v hc))] at hwritten
    omega
  -- what is stored after the call was stored before it
  have hstored : ∀ v, (handle env .works cl s.world).2.session? sid = some v →
      v.currentOffset = written sid s := by
    intro v hv
    rcases handle_session? env .works cl s.world sid with hkeep | ⟨v', hc, hid, _⟩ | ⟨_, hnone⟩
    · exact h.stored v (hkeep.symm.trans hv)
    · exact absurd hid (hquiet v' hc)
    · rw [hnone] at hv
      cases hv
  refine ⟨h.only, fun v hv => hsame ▸ hstored v hv, ?_, ?_⟩
  · rw [hsame]
    refine knows_forall_answer (P := fun j _ l => l.Owns sid → l.wrote = false →
      ∀ v, storedAtLock sid j (s.answer i cl .works).log = some v →
        v.currentOffset = written sid s) hop ?_ ?_
    · -- the caller: it may have taken the lock with this call
      intro hown hw v hv
      rw [storedAtLock_answer_self] at hv
      split at hv
      · exact hstored v hv
      · rename_i hnot
        rcases SessionLocal.next_owns hallow hown with ⟨hold, _⟩ | htaken
        · have hw' : (knows s i op).wrote = false := by
            cases hb : (knows s i op).wrote with
            | false => rfl
            | true => rw [SessionLocal.next_wrote_of_wrote hb] at hw; cases hw
          exact h.locked i op hop hold hw' v hv
        · exact absurd (by rw [htaken]; rfl) hnot
    · intro j op' hji hj hown hw v hv
      rw [storedAtLock_answer_other s sid i cl .works hji] at hv
      exact h.locked j op' hj hown hw v hv
  · refine knows_forall_answer (P := fun _ op' l => op'.target? = some sid → l.wrote = true →
      l.held = false → l.closed = true ∧ l.freed = true) hop ?_
      (fun j op' _ hj => h.settled j op' hj)
    -- a write without the lock: it was released in this call or earlier
    intro htarget hw hheld
    rcases SessionLocal.next_wrote hw with hold | ⟨v, hc⟩
    · rcases SessionLocal.next_released hheld with ⟨sid', hc⟩ | hnot
      · subst hc
        exact ⟨rfl, rfl⟩
      · have hs := h.settled i op hop htarget hold hnot
        exact ⟨SessionLocal.next_closed hs.1 _ _, SessionLocal.next_freed hs.2 _ _⟩
    · exact absurd htarget (hforeign v hc)

/-- The request that initiates session `sid` opens its account. -/
theorem Accounted.answer_create {sid : UUID} {s : Scene (service env)} (h : Accounted sid s)
    (htraced : Traced sid s)
    (hcoherent : ∀ (i : Nat) (op : Op), s.ops[i]? = some op → (knows s i op).Coherent)
    {i : Nat} {op : Op} (hop : s.ops[i]? = some op) {v : UploadSession} (hid : v.sessionId = sid)
    (hnew : op.newId? = some sid) (hclosed : (knows s i op).closed = false)
    (hoffset : v.currentOffset = 0) : Accounted sid (s.answer i (.sessionSave v) .works) := by
  have hbegun := htraced.not_begun hop hnew hclosed
  have htarget : op.target? ≠ some sid := by
    intro htarget
    rw [Op.newId?_eq_none htarget] at hnew
    cases hnew
  -- nobody can have written to it before
  have hsame : written sid (s.answer i (.sessionSave v) .works) = 0 := by
    have hwritten := written_answer sid (.sessionSave v) .works hop
    rw [credit_next_eq (fun _ _ => Or.inl htarget), written_eq_zero htraced hcoherent hbegun]
      at hwritten
    omega
  refine ⟨h.only, ?_, ?_, ?_⟩
  · -- what is stored is the new session, at offset 0
    intro v' hv'
    have hset : (handle env .works (.sessionSave v) s.world).2.session? sid = some v := by
      subst hid
      exact s.world.sessions.get_set_self s.world.now _ v (by simp [RedisSessionRepository.ttl])
    cases hset.symm.trans hv'
    rw [hsame, hoffset]
    rfl
  · -- whoever is inside has read the session, which nobody has saved yet
    have hnobody : ∀ (j : Nat) (op' : Op), s.ops[j]? = some op' → ¬ (knows s j op').Owns sid := by
      intro j op' hj hown
      rcases ((hcoherent j op' hj).held hown.1).2 with ⟨u, hu, _⟩
      have ht := hown.2
      rw [knows_op] at ht
      exact hbegun (htraced.copied j op' hj ht (by simp [hu]))
    refine knows_forall_answer (P := fun j _ l => l.Owns sid → l.wrote = false →
      ∀ u, storedAtLock sid j (s.answer i (.sessionSave v) .works).log = some u →
        u.currentOffset = written sid (s.answer i (.sessionSave v) .works)) hop ?_
      (fun j op' _ hj hown => absurd hown (hnobody j op' hj))
    intro hown
    have ht := hown.2
    rw [SessionLocal.next_op, knows_op] at ht
    exact absurd ht htarget
  · exact knows_forall_answer (P := fun _ op' l => op'.target? = some sid → l.wrote = true →
      l.held = false → l.closed = true ∧ l.freed = true) hop (fun ht => absurd ht htarget)
      (fun j op' _ hj => h.settled j op' hj)

/-- An upload that saves the session it found when it took the lock is counted. -/
theorem Accounted.answer_save {sid : UUID} {s : Scene (service env)} (h : Accounted sid s)
    (hexcl : Exclusive sid s) {i : Nat} {op : Op} (hop : s.ops[i]? = some op)
    (hcoherent : (knows s i op).Coherent) {v v₀ : UploadSession} (hid : v.sessionId = sid)
    (hown : (knows s i op).Owns sid) (hwrote : (knows s i op).wrote = false)
    (hview : (knows s i op).view = some v₀) (hsaves : SessionLocal.Saves v₀ v op)
    (hfresh : (storedAtLock sid i s.log).map (·.currentOffset) =
      (knows s i op).copy.map (·.currentOffset)) :
    Accounted sid (s.answer i (.sessionSave v) .works) := by
  have htarget : op.target? = some sid := by
    have ht := hown.2
    rwa [knows_op] at ht
  -- only an upload saves
  obtain ⟨index, cs, data, rfl⟩ : ∃ index cs data, op = .uploadChunk sid index cs data := by
    cases op with
    | uploadChunk sid' index cs data =>
        cases htarget
        exact ⟨index, cs, data, rfl⟩
    | finalize sid' =>
        cases htarget
        exact absurd rfl (h.only _ (List.mem_of_getElem? hop)).1
    | _ => exact hsaves.elim
  have hupdate := UploadSession.updateOffset_ok hsaves.2
  have hcopy := hcoherent.viewed hown.1 hwrote v₀ hview
  -- the copy is as old as the lock, so its offset is what is written
  have hoffset : v.currentOffset = written sid s + data.length := by
    rw [hcopy, Option.map_some, Option.map_eq_some_iff] at hfresh
    rcases hfresh with ⟨u, hu, huv⟩
    rw [hupdate.2.2.1, ← huv, h.locked i _ hop hown hwrote u hu]
  have hsame : written sid (s.answer i (.sessionSave v) .works) = written sid s + data.length := by
    have hwritten := written_answer sid (.sessionSave v) .works hop
    simp only [handle, respond, credit, SessionLocal.next, hwrote, true_and, Bool.false_eq_true,
      if_false, if_true] at hwritten
    omega
  refine ⟨h.only, ?_, ?_, ?_⟩
  · intro v' hv'
    have hset : (handle env .works (.sessionSave v) s.world).2.session? sid = some v := by
      subst hid
      exact s.world.sessions.get_set_self s.world.now _ v (by simp [RedisSessionRepository.ttl])
    cases hset.symm.trans hv'
    rw [hsame, hoffset]
    push_cast
    rfl
  · refine knows_forall_answer (P := fun j _ l => l.Owns sid → l.wrote = false →
      ∀ u, storedAtLock sid j (s.answer i (.sessionSave v) .works).log = some u →
        u.currentOffset = written sid (s.answer i (.sessionSave v) .works)) hop ?_ ?_
    · intro _ hw
      cases hw
    · -- nobody else is inside
      intro j op' hji hj hown'
      exact absurd (hexcl.unique j op' hj i _ hop hown' hown) hji
  · refine knows_forall_answer (P := fun _ op' l => op'.target? = some sid → l.wrote = true →
      l.held = false → l.closed = true ∧ l.freed = true) hop ?_
      (fun j op' _ hj => h.settled j op' hj)
    intro _ _ hheld
    have hheld' : (knows s i (.uploadChunk sid index cs data)).held = false := hheld
    rw [hown.1] at hheld'
    cases hheld'

/-- The accounts after a call. `hfresh` is what `savesFresh` says of a save. -/
theorem Accounted.answer {sid : UUID} {s : Scene (service env)} (h : Accounted sid s)
    (htraced : Traced sid s) (hexcl : Exclusive sid s)
    (hcoherent : ∀ (i : Nat) (op : Op), s.ops[i]? = some op → (knows s i op).Coherent)
    {i : Nat} {op : Op} (hop : s.ops[i]? = some op) {cl : Call}
    (hallow : (knows s i op).allows env cl)
    (hfresh : ∀ v, cl = .sessionSave v → op.target? = some sid → v.sessionId = sid →
      (storedAtLock sid i s.log).map (·.currentOffset) =
        (knows s i op).copy.map (·.currentOffset)) :
    Accounted sid (s.answer i cl .works) := by
  by_cases hsave : ∃ v, cl = .sessionSave v ∧ v.sessionId = sid
  · rcases hsave with ⟨v, rfl, hid⟩
    rcases SessionLocal.allows_save hallow with ⟨hnew, hclosed, _, hoffset⟩ |
      ⟨hown, hwrote, v₀, hview, hsaves⟩
    · rw [knows_op, hid] at hnew
      exact h.answer_create htraced hcoherent hop hid hnew hclosed hoffset
    · rw [hid] at hown
      rw [knows_op] at hsaves
      have htarget : op.target? = some sid := by
        have ht := hown.2
        rwa [knows_op] at ht
      exact h.answer_save hexcl hop (hcoherent i op hop) hid hown hwrote hview hsaves
        (hfresh v rfl htarget hid)
  · exact h.answer_quiet hop hallow (fun v hc hid => hsave ⟨v, hc, hid⟩)

/-- The conditions of the runs in question: fresh ids, no failing call, no expiring
lock, nothing but uploads and queries on `sid`, each saving what was fresh. -/
def uploadRun (sid : UUID) (c : Run env) (l : Label (service env)) : Prop :=
  (freshIds c l ∧ noFaults l ∧ lockLasts sid c l ∧ onlyUploads sid l) ∧ savesFresh sid c l

theorem accounted_keeps (sid : UUID) :
    Keeps (@uploadRun env sid)
      (fun s => (Traced sid s ∧ Exclusive sid s) ∧ Accounted sid s) where
  spawn := by
    intro c op hg hknown hinv
    rcases hg with ⟨⟨hfresh, _, hlock, honly⟩, _⟩
    rcases hinv with ⟨⟨htraced, hexcl⟩, h⟩
    refine ⟨⟨(traced_keeps sid).spawn c op hfresh hknown htraced,
      (exclusive_keeps sid).spawn c op hlock hknown hexcl⟩, ?_⟩
    -- a new request has written nothing
    have hsame : written sid (⟨c.world, c.ops ++ [op], c.log⟩ : Scene (service env)) =
        written sid c.scene := written_spawn hknown.wf op
    refine ⟨?_, ?_, ?_, ?_⟩
    · intro op' hop'
      rcases List.mem_append.1 hop' with hold | hnew
      · exact h.only op' hold
      · rw [List.mem_singleton.1 hnew]
        cases op <;> simp_all [onlyUploads]
    · intro v hv
      rw [hsame]
      exact h.stored v hv
    · rw [hsame]
      refine knows_forall_spawn (P := fun j _ l => l.Owns sid → l.wrote = false →
        ∀ v, storedAtLock sid j c.log = some v → v.currentOffset = written sid c.scene) hknown.wf
        ?_ h.locked
      intro hown
      simp [SessionLocal.Owns, SessionLocal.start] at hown
    · refine knows_forall_spawn (P := fun _ op' l => op'.target? = some sid → l.wrote = true →
        l.held = false → l.closed = true ∧ l.freed = true) hknown.wf ?_ h.settled
      intro _ hw
      cases hw
  move := by
    intro c d hg hinv
    rcases hg with ⟨⟨hfresh, _, hlock, _⟩, _⟩
    rcases hinv with ⟨⟨htraced, hexcl⟩, h⟩
    refine ⟨⟨(traced_keeps sid).move c d hfresh htraced,
      (exclusive_keeps sid).move c d hlock hexcl⟩, h.only, ?_, h.locked, h.settled⟩
    intro v hv
    -- a session found later was there before
    exact h.stored v (c.world.sessions.get_of_get_later (Nat.le_add_right _ d) hv)
  call := by
    intro c i op cl out hg hknown hop hpending hinv hallow
    rcases hg with ⟨⟨_, hworks, _, _⟩, hsave⟩
    rcases hinv with ⟨⟨htraced, hexcl⟩, h⟩
    have hout : out = .works := by simpa [noFaults] using hworks
    subst hout
    refine ⟨⟨htraced.answer hop (hknown.sound.coherent i op hop) hallow,
      hexcl.answer hop hallow⟩, ?_⟩
    refine h.answer htraced hexcl hknown.sound.coherent hop hallow ?_
    intro v hc htarget hid
    subst hc
    simp only [savesFresh, hop, hpending, decide_eq_true_eq] at hsave
    exact hsave ⟨htarget, hid⟩

/-! ## Results -/

/-- An upload outside the critical section has returned a session exactly if it
has saved it. -/
theorem returnedBytes_eq {sid : UUID} {c : Run env} (hknown : Known c)
    (h : Accounted sid c.scene) (hidle : ∀ i, ¬ Holds c.scene sid i) (i : Nat) :
    returnedBytes sid c i = creditOf sid c.scene i := by
  unfold returnedBytes creditOf
  cases hreq : c.requests[i]? with
  | none =>
      have hops : c.ops[i]? = none := by simp [Config.ops, hreq]
      have hsops : c.scene.ops[i]? = none := hops
      simp only [hops, hsops]
  | some req =>
      rcases req with ⟨op, p⟩
      have hop : c.ops[i]? = some op := ops_getElem? hreq
      have hsop : c.scene.ops[i]? = some op := hop
      have hobeys := hknown.obeys i op p hreq
      have hknows := knows_op c.scene i op
      simp only [hop, hsop]
      -- only an upload to `sid` returns bytes of it
      cases op with
      | uploadChunk sid' index cs data =>
          by_cases hsid : sid' = sid
          · subst hsid
            -- outside the critical section for good once it has saved
            have hdone : (knows c.scene i (.uploadChunk sid' index cs data)).wrote = true →
                ∃ a, c.result i = some (.ok a) := by
              intro hw
              have hheld : (knows c.scene i (.uploadChunk sid' index cs data)).held = false := by
                cases hb : (knows c.scene i (.uploadChunk sid' index cs data)).held with
                | false => rfl
                | true => exact absurd ⟨_, hop, hb, by rw [hknows]; rfl⟩ (hidle i)
              have hset := h.settled i _ hop rfl hw hheld
              have hend := hobeys.ended (fun cl => SessionLocal.not_allows hheld hset.1)
                (SessionLocal.not_loops hheld)
              rcases hend with ⟨r, hp, hpost⟩
              rcases hpost.2 ⟨hw, hset.2⟩ with ⟨a, ha⟩
              exact ⟨a, by simp [Config.result, hreq, hp, ha]⟩
            -- it returns a session only after saving it
            have hwrote : ∀ a, c.result i = some (.ok a) →
                (knows c.scene i (.uploadChunk sid' index cs data)).wrote = true := by
              intro a hres
              simp only [Config.result, hreq] at hres
              cases p with
              | done r =>
                  cases hres
                  exact (hobeys.1 ⟨a, rfl⟩).1
              | _ => cases hres
            cases hw : (knows c.scene i (.uploadChunk sid' index cs data)).wrote with
            | true =>
                rcases hdone hw with ⟨a, ha⟩
                simp [ha, credit, hw]
            | false =>
                have hnot : ∀ a, c.result i ≠ some (.ok a) := by
                  intro a ha
                  rw [hwrote a ha] at hw
                  cases hw
                simp only [credit, hw]
                split
                · rename_i hres
                  exact absurd hres (hnot _)
                · simp
          · simp only [credit, hsid, false_and, if_false]
            split <;> simp_all
      | _ => simp [credit]

theorem written_mono (sid : UUID) {G : Run env → Label (service env) → Prop} {now : Nat}
    {c c' : Run env} (h : Reach G (Config.start (World.empty now)) c) (h' : Reach G c c') :
    written sid c.scene ≤ written sid c'.scene := by
  induction h' with
  | start => exact Nat.le_refl _
  | @step c₁ c₂ l hreach _ hs ih =>
      have hknown := reach_known (h.trans hreach)
      refine Nat.le_trans ih ?_
      rcases step_cases hs with ⟨op, -, rfl⟩ | ⟨d, -, rfl⟩ | ⟨i, op, _, _, _, _, _, -, hreq, rfl⟩ |
        ⟨i, out, op, cl, k, rfl, hreq, rfl⟩
      · have hsame : written sid (c₁.spawn op).scene = written sid c₁.scene := by
          rw [scene_spawn]
          exact written_spawn hknown.wf op
        rw [hsame]
      · exact Nat.le_refl _
      · rw [scene_resume hreq]
      · rw [scene_answer hreq]
        exact written_answer_mono (ops_getElem? hreq)

/-- No lost update: over all interleavings of any number of uploads to a session,
its stored offset is the sum of the sizes of the uploads that have returned
successfully whenever nobody is inside the critical section, and it never
decreases, if an upload saves the session only when the offset it has read was
still stored as it took the lock. -/
theorem no_lost_update {sid : UUID} {now : Nat} {c : Run env}
    (h : Reach (uploadRun sid) (Config.start (World.empty now)) c) :
    ((∀ i, ¬ Holds c.scene sid i) → ∀ v, c.world.session? sid = some v →
      v.currentOffset = uploadedBytes sid c) ∧
    ∀ c' v v', Reach (uploadRun sid) c c' → c.world.session? sid = some v →
      c'.world.session? sid = some v' → v.currentOffset ≤ v'.currentOffset := by
  have haccounts : ∀ {c : Run env}, Reach (uploadRun sid) (Config.start (World.empty now)) c →
      Accounted sid c.scene := by
    intro c hc
    refine ((accounted_keeps sid).reach ⟨⟨⟨by simp, by simp [World.session?, World.empty],
      by simp⟩, ⟨by simp, by simp⟩⟩, ?_⟩ hc).2
    exact ⟨by simp, by simp [World.session?, World.empty], by simp, by simp⟩
  refine ⟨?_, ?_⟩
  · intro hidle v hv
    have hsum : uploadedBytes sid c = written sid c.scene :=
      Finset.sum_congr rfl (fun i _ => returnedBytes_eq (reach_known h) (haccounts h) hidle i)
    rw [hsum]
    exact (haccounts h).stored v hv
  · intro c' v v' h' hv hv'
    have hmono := written_mono sid h h'
    have hwas := (haccounts h).stored v hv
    have his := (haccounts (h.trans h')).stored v' hv'
    omega

/-! ## Concrete runs -/

/-- Nobody is inside the critical section of `sid`. -/
def idle (sid : UUID) (c : Run env) : Bool :=
  (List.range c.ops.length).all fun i =>
    c.ops[i]?.all fun op => ¬ (knows c.scene i op).Owns sid

theorem not_holds_of_idle {sid : UUID} {c : Run env} (h : idle sid c = true) (i : Nat) :
    ¬ Holds c.scene sid i := by
  intro hholds
  rcases hholds with ⟨op, hop, hown⟩
  simp only [idle, List.all_eq_true, List.mem_range] at h
  have hi := h i (List.getElem?_eq_some_iff.1 hop).1
  rw [show c.ops[i]? = some op from hop] at hi
  simp [hown] at hi

/-- The stored offset of `sid`, as far as there is one, is `n`. -/
def offsetIs (sid : UUID) (n : Int) (c : Run env) : Bool :=
  (c.world.session? sid).any fun v => v.currentOffset = n

namespace Demo

/-- A session with one byte to upload, and two uploads of it that have both read
the session. -/
def twoUploads : List (Label (service Demo.env)) :=
  [.spawn (.initiate sid tenant file 1 (sha256 a))] ++ calls 0 2 ++
    [.spawn (.uploadChunk sid 0 (sha256 a) a), .spawn (.uploadChunk sid 0 (sha256 b) b)] ++
    calls 1 1 ++ calls 2 1

end Demo

/-- The second upload finds the lock taken; the first one is counted. -/
theorem no_lost_update_demo :
    ∃ c : Run Demo.env, Reach (uploadRun Demo.sid) (Config.start (World.empty 0)) c ∧
      (((∀ i, ¬ Holds c.scene Demo.sid i) → ∀ v, c.world.session? Demo.sid = some v →
        v.currentOffset = uploadedBytes Demo.sid c) ∧
      ∀ c' v v', Reach (uploadRun Demo.sid) c c' → c.world.session? Demo.sid = some v →
        c'.world.session? Demo.sid = some v' → v.currentOffset ≤ v'.currentOffset) ∧
      (∀ i, ¬ Holds c.scene Demo.sid i) ∧ uploadedBytes Demo.sid c = 1 := by
  have h : ((Config.start (World.empty 0)).play
      (fun c l =>
        (freshIds c l && noFaults l && lockLasts Demo.sid c l && onlyUploads Demo.sid l) &&
        savesFresh Demo.sid c l)
      (Demo.twoUploads ++ Demo.calls 1 1 ++ Demo.calls 2 1 ++ Demo.calls 1 3)).any
      (fun c => idle Demo.sid c && uploadedBytes Demo.sid c = 1) = true := by
    decide +kernel
  rcases exists_of_play (G := uploadRun Demo.sid)
    (fun c l hl => by simpa [uploadRun, and_assoc] using hl) _ h with ⟨c, hc, hcheck⟩
  simp only [Bool.and_eq_true, decide_eq_true_eq] at hcheck
  exact ⟨c, hc, no_lost_update hc, not_holds_of_idle hcheck.1, hcheck.2⟩

/-- Without the condition it fails: the second upload takes the lock after the
first one has returned, saves the offset that it read before, and returns too. -/
theorem no_lost_update_fails :
    ∃ c : Run Demo.env,
      Reach (fun c l => freshIds c l ∧ noFaults l ∧ lockLasts Demo.sid c l ∧ onlyUploads Demo.sid l)
        (Config.start (World.empty 0)) c ∧
      (∀ i, ¬ Holds c.scene Demo.sid i) ∧
      ¬ ∀ v, c.world.session? Demo.sid = some v → v.currentOffset = uploadedBytes Demo.sid c := by
  have h : ((Config.start (World.empty 0)).play
      (fun c l => freshIds c l && noFaults l && lockLasts Demo.sid c l && onlyUploads Demo.sid l)
      (Demo.twoUploads ++ Demo.calls 1 4 ++ Demo.calls 2 4)).any
      (fun c => idle Demo.sid c && offsetIs Demo.sid 1 c && uploadedBytes Demo.sid c = 2) =
        true := by
    decide +kernel
  rcases exists_of_play (fun c l hl => by simpa [and_assoc] using hl) _ h with ⟨c, hc, hcheck⟩
  simp only [Bool.and_eq_true, decide_eq_true_eq, offsetIs, Option.any_eq_true] at hcheck
  rcases hcheck with ⟨⟨hidle, v, hv, hoffset⟩, hsum⟩
  refine ⟨c, hc, not_holds_of_idle hidle, fun hall => ?_⟩
  have hone := hall v hv
  rw [hsum, hoffset] at hone
  cases hone

end FileUploader
