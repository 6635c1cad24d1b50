import FileUploader.RedisWorld
import FileUploader.Locking
import FileUploader.Serial

/-! # Calls are atomic while locks last

The results about concurrent requests are about runs in which a repository call is one step.
On Redis it may take several commands, between which other requests run, and the values are
bytes with deadlines. As long as no lock expires, this makes no difference: every run in
commands is a run in calls, with the same requests, which end alike, and a world that reads
the same, now and at any later time.
-/

namespace FileUploader

open Await Prog Command

/-! ## Inside a call -/

/-- The session whose chunk keys a call reads or writes. -/
def Call.chunksOf : Call → Option UUID
  | .chunkSave sid _ | .chunkGet sid _ | .chunkPull sid _ | .deleteAll sid => some sid
  | _ => none

/-- Two calls are about the chunks of different sessions. -/
def Call.Compatible (c c' : Call) : Prop := ∀ sid, c.chunksOf = some sid → c'.chunksOf ≠ some sid

open Command.RedisChunkRepository in
/-- What is left of a call, and what it has found out before. -/
inductive During (host : Host) : (c : Call) → Command.Program c.Resp → Deployment → Prop where
  | begins (c : Call) (w : Deployment) : During host c (ofCall c) w
  | payloadRead {sid : UUID} {index : Int} {rawBytes : Option Bytes} {w : Deployment}
      (h : StillRead sid index rawBytes w) :
      During host (.chunkGet sid index) (getMeta sid index rawBytes) w
  | scanning {sid : UUID} {cursor : Nat} {keys : List String} {w : Deployment}
      (h : Scanned host sid cursor keys w) :
      During host (.deleteAll sid)
        (.iter (Command.RedisChunkRepository.scanRound (chunkPattern sid)) (cursor, keys)
          (onOk deleteKeys)) w
  | inRound {sid : UUID} {cursor : Nat} {keys : List String} {w : Deployment}
      (h : Scanned host sid cursor keys w) :
      During host (.deleteAll sid)
        (Prog.unroll (Command.RedisChunkRepository.scanRound (chunkPattern sid)) (cursor, keys)
          (onOk deleteKeys)) w
  | found {sid : UUID} {keys : List String} {w : Deployment} (hkeys : keys ≠ [])
      (h : Scanned host sid host.slots keys w) :
      During host (.deleteAll sid) (send (.delete keys)) w

section During

variable {host : Host} {w w' : Deployment} {v : World}

theorem During.not_done {c : Call} {r : Except Exn c.Resp} : ¬ During host c (.done r) w := by
  intro h
  generalize hq : (Prog.done r : Command.Program c.Resp) = q at h
  cases h with
  | begins => cases c <;> cases hq
  | payloadRead => cases hq
  | scanning => cases hq
  | inRound => cases hq
  | found => cases hq

/-- The only loop inside a call is that of `scan_iter`. -/
theorem During.unrolls {c : Call} {A B : Type} {body : A → Command.Program (A ⊕ B)} {a : A}
    {k : Except Exn B → Command.Program c.Resp} (h : During host c (.iter body a k) w) :
    During host c (Prog.unroll body a k) w := by
  generalize hq : (Prog.iter body a k : Command.Program c.Resp) = q at h
  cases h with
  | begins =>
      cases c with
      | deleteAll sid =>
          cases hq
          exact .inRound ⟨.start _ _ _, fun k hk => by cases hk⟩
      | _ => cases hq
  | payloadRead => cases hq
  | scanning hscan =>
      cases hq
      exact .inRound hscan
  | inRound => cases hq
  | found => cases hq

/-- What has been found out stays true as long as the chunk keys of the session stay. -/
theorem During.frame {c : Call} {q : Command.Program c.Resp} (h : During host c q w)
    (hkeep : ∀ sid, c.chunksOf = some sid → ∀ k : Key, k.ofChunks sid →
      w'.redis.get k.str = w.redis.get k.str) : During host c q w' := by
  have hscan : ∀ {sid cursor keys}, c.chunksOf = some sid → Scanned host sid cursor keys w →
      Scanned host sid cursor keys w' := by
    intro sid cursor keys hc hscan
    refine ⟨hscan.visited.mono ?_, hscan.own⟩
    intro key hkey hsome
    rcases hkey with ⟨k, hk, rfl⟩
    rw [← hkeep sid hc k hk]
    exact hsome
  cases h with
  | begins => exact .begins _ _
  | @payloadRead sid index rawBytes _ hread =>
      refine .payloadRead ?_
      have hchunk : w'.redis.get (chunkKey sid index) = w.redis.get (chunkKey sid index) :=
        hkeep sid rfl (.chunk sid index) (by simp [Key.ofChunks])
      have hmeta : w'.redis.get (chunkMetaKey sid index) = w.redis.get (chunkMetaKey sid index) :=
        hkeep sid rfl (.chunkMeta sid index) (by simp [Key.ofChunks])
      rw [StillRead, hchunk, hmeta]
      exact hread
  | scanning h => exact .scanning (hscan rfl h)
  | inRound h => exact .inRound (hscan rfl h)
  | found hkeys h => exact .found hkeys (hscan rfl h)

/-- Keys that expire have not to be found, and expire together with their metadata. -/
theorem During.advance {c : Call} {q : Command.Program c.Resp} (h : During host c q w)
    (hrep : ReadsAs w v) (d : Nat) : During host c q (w.advance d) := by
  have hscan : ∀ {sid cursor keys}, Scanned host sid cursor keys w →
      Scanned host sid cursor keys (w.advance d) := by
    intro sid cursor keys hscan
    refine ⟨hscan.visited.mono ?_, hscan.own⟩
    intro key _ hsome
    rcases Option.isSome_iff_exists.1 hsome with ⟨data, hdata⟩
    rw [KeyServer.get_of_later hdata]
    rfl
  cases h with
  | begins => exact .begins _ _
  | @payloadRead sid index rawBytes _ hread =>
      refine .payloadRead ?_
      have hchunk : (w.redis.advance d).get (chunkKey sid index) = (v.advance d).chunk? sid index :=
        hrep.read d (.chunk sid index)
      have hmeta : (w.redis.advance d).get (chunkMetaKey sid index) =
          ((v.advance d).chunkMeta? sid index).map pythonJson.dumpsMeta :=
        hrep.read d (.chunkMeta sid index)
      cases hlater : (w.redis.advance d).get (chunkKey sid index) with
      | some data =>
          -- the payload has not expired
          left
          rcases hread with hread | ⟨hnone, _⟩
          · rw [← hread, KeyServer.get_of_later hlater]
            exact hlater
          · rw [KeyServer.get_none_later hnone] at hlater
            cases hlater
      | none =>
          right
          refine ⟨hlater, ?_⟩
          have hpaired := hrep.paired d sid index
          rw [hchunk] at hlater
          rw [hlater] at hpaired
          show (w.redis.advance d).get (chunkMetaKey sid index) = none
          rw [hmeta, Option.map_eq_none_iff, ← Option.not_isSome_iff_eq_none, ← hpaired]
          simp
  | scanning h => exact .scanning (hscan h)
  | inRound h => exact .inRound (hscan h)
  | found hkeys h => exact .found hkeys (hscan h)

end During

/-! ## The commands of a call -/

/-- The keys that a command may change. -/
def Command.writes : Command → List String
  | .set key _ _ | .setNx key _ _ => [key]
  | .execute sets => sets.map Prod.fst
  | .delete keys => keys
  | .get _ | .scan .. | .remote .. => []

section Commands

variable {host : Host} {w : Deployment} {v : World}

theorem get_set_of_ne (r : KeyServer String Bytes) {key key' : String} (h : key' ≠ key)
    (data : Bytes) (life : Option Nat) : (r.set key data life).get key' = r.get key' := by
  have hset := r.get_set key key' data life 0
  rw [KeyServer.advance_zero, KeyServer.advance_zero, if_neg h] at hset
  exact hset

/-- A command changes no other key. -/
theorem respond_get (d : Command) {key : String} (h : key ∉ d.writes) :
    (Command.respond host d w).2.redis.get key = w.redis.get key := by
  cases d with
  | set key' data ex => exact get_set_of_ne _ (by simpa [Command.writes] using h) _ _
  | setNx key' data ex =>
      simp only [Command.respond]
      rcases w.redis.setNx_cases key' data (some (ex * 1000)) with ⟨_, _, hset⟩ | ⟨_, hset⟩
      · rw [hset]
      · rw [hset]
        exact get_set_of_ne _ (by simpa [Command.writes] using h) _ _
  | execute sets =>
      simp only [Command.respond, Command.writes] at h ⊢
      generalize w.redis = r
      induction sets generalizing r with
      | nil => rfl
      | cons e sets ih =>
          rw [List.map_cons, List.mem_cons, not_or] at h
          rw [List.foldl_cons, ih h.2, get_set_of_ne _ h.1]
  | delete keys =>
      have hdelete := w.redis.get_delete key 0 keys
      rw [KeyServer.advance_zero, KeyServer.advance_zero, if_neg (show key ∉ keys from h)]
        at hdelete
      exact hdelete
  | _ => rfl

theorem handle_get (out : Outcome) (d : Command) {key : String} (h : key ∉ d.writes) :
    (Command.handle host out d w).2.redis.get key = w.redis.get key := by
  cases out with
  | works => exact respond_get d h
  | raises msg => rfl
  | raisesAfter msg => exact respond_get d h

theorem Key.ofChunks_unique {k : Key} {sid sid' : UUID} (h : k.ofChunks sid)
    (h' : k.ofChunks sid') : sid = sid' := by
  cases k with
  | chunk sid'' i => simp_all [Key.ofChunks]
  | chunkMeta sid'' i => simp_all [Key.ofChunks]
  | _ => cases h

/-- Only the calls about the chunks of a session write its chunk keys. -/
theorem During.writes {c : Call} {d : Command} {g : Except Exn d.Resp → Command.Program c.Resp}
    (h : During host c (.call d g) w) {k : Key} {sid : UUID} (hmem : k.str ∈ d.writes)
    (hk : k.ofChunks sid) : c.chunksOf = some sid := by
  have hkey : ∀ k' : Key, k.str = k'.str → k'.ofChunks sid := fun k' heq => by
    rw [← Key.str_injective heq]
    exact hk
  generalize hq : (Prog.call d g : Command.Program c.Resp) = q at h
  cases h with
  | begins =>
      cases c with
      | sessionSave s =>
          cases hq
          cases hkey (.session s.sessionId) (List.mem_singleton.1 hmem)
      | sessionDelete sid' =>
          cases hq
          cases hkey (.session sid') (List.mem_singleton.1 hmem)
      | acquireLock sid' ttl =>
          cases hq
          cases hkey (.lock sid') (List.mem_singleton.1 hmem)
      | releaseLock sid' =>
          cases hq
          cases hkey (.lock sid') (List.mem_singleton.1 hmem)
      | registerFile t f uri size cs =>
          cases hq
          cases hkey (.dedup t cs) (List.mem_singleton.1 hmem)
      | chunkSave sid' chunk =>
          cases hq
          simp only [Command.writes, List.map_cons, List.map_nil, List.mem_cons, List.not_mem_nil,
            or_false] at hmem
          rcases hmem with hmem | hmem
          · exact congrArg some (of_decide_eq_true (hkey (.chunk sid' chunk.index) hmem))
          · exact congrArg some (of_decide_eq_true (hkey (.chunkMeta sid' chunk.index) hmem))
      | deleteAll sid' => cases hq
      | _ =>
          cases hq
          cases hmem
  | payloadRead =>
      cases hq
      cases hmem
  | scanning => cases hq
  | inRound =>
      cases hq
      cases hmem
  | found hkeys hscan =>
      cases hq
      exact congrArg some (Key.ofChunks_unique (hscan.own k hmem) hk)

/-- A command of another call does not get in the way. -/
theorem During.stable {c c' : Call} {q : Command.Program c.Resp} {d : Command}
    {g : Except Exn d.Resp → Command.Program c'.Resp} (h : During host c q w)
    (h' : During host c' (.call d g) w) (hcomp : c.Compatible c') (out : Outcome) :
    During host c q (Command.handle host out d w).2 :=
  h.frame fun sid hc _ hk =>
    handle_get out d fun hmem => hcomp sid hc (h'.writes hmem hk)

/-- The deletion after a full scan. -/
theorem ReadsAs.lastDelete (hrep : ReadsAs w v) {sid : UUID} {keys : List String}
    (hscan : Scanned host sid host.slots keys w) {d : Command}
    {g : Except Exn d.Resp → Command.Program Unit} (h : Command.send (.delete keys) = .call d g) :
    Last host (.deleteAll sid) d g w v := by
  cases h
  exact ⟨fun _ => rfl, rfl,
    hrep.deleteAll (fun k hk hsome => hscan.visited.all ⟨k, hk, rfl⟩ hsome) hscan.own⟩

/-- A scan that has found nothing at all is all of `delete_all`. -/
theorem ReadsAs.nothingFound (hrep : ReadsAs w v) {sid : UUID}
    (hscan : Scanned host sid host.slots [] w) :
    ReadsAs w (RedisChunkRepository.deleteAll v sid) := by
  have hdelete : ReadsAs ⟨w.redis.delete [], w.outside⟩ (RedisChunkRepository.deleteAll v sid) :=
    hrep.deleteAll (fun k hk hsome => hscan.visited.all ⟨k, hk, rfl⟩ hsome) hscan.own
  rw [KeyServer.delete_nil] at hdelete
  exact hdelete

/-- How a call turns out whose last command turns out this way: a command before it that
raises has had no effect of the call. -/
def Outcome.OfLast (out out' : Outcome) : Prop :=
  out' = out ∨ ∃ msg, out = .raisesAfter msg ∧ out' = .raises msg

open Command.RedisChunkRepository in
/-- A command of a scan: the next round follows, or the deletion, or nothing. -/
theorem ReadsAs.afterScan (hrep : ReadsAs w v) {sid : UUID} {cursor : Nat}
    {keys : List String} (hscan : Scanned host sid cursor keys w) {d : Command}
    {g : Except Exn d.Resp → Command.Program Unit}
    (h : Prog.unroll (Command.RedisChunkRepository.scanRound (chunkPattern sid)) (cursor, keys)
      (onOk deleteKeys) = .call d g) :
    (∃ out', Outcome.works.OfLast out' ∧
      g (Command.respond host d w).1 = .done (handle host.env out' (.deleteAll sid) v).1 ∧
      ReadsAs (Command.respond host d w).2 (handle host.env out' (.deleteAll sid) v).2) ∨
    (ReadsAs (Command.respond host d w).2 v ∧
      During host (.deleteAll sid) (g (Command.respond host d w).1)
        (Command.respond host d w).2) := by
  cases h
  have hnext := hscan.next
  simp only [Command.respond]
  generalize w.redis.scan host.slot cursor (matchesPattern (chunkPattern sid)) = answer at *
  rcases answer with ⟨cursor', found⟩
  show (∃ out', _ ∧ (if cursor' = 0 then _ else _ : Command.Program _).andThen _ = _ ∧ _) ∨
    (_ ∧ During host _ ((if cursor' = 0 then _ else _ : Command.Program _).andThen _) w)
  by_cases hlast : cursor' = 0
  · rw [if_pos hlast] at hnext
    rw [if_pos hlast]
    show (∃ out', _ ∧ deleteKeys (keys ++ found) = _ ∧ _) ∨
      (_ ∧ During host (.deleteAll sid) (deleteKeys (keys ++ found)) w)
    by_cases hnil : keys ++ found = []
    · left
      rw [hnil] at hnext ⊢
      exact ⟨.works, Or.inl rfl, rfl, hrep.nothingFound hnext⟩
    · right
      rw [deleteKeys, if_neg hnil]
      exact ⟨hrep, .found hnil hnext⟩
  · rw [if_neg hlast] at hnext
    rw [if_neg hlast]
    exact Or.inr ⟨hrep, .scanning hnext⟩

/-- The next command of a call: it is the last one, and the call takes effect with it, or it
finds something out. -/
theorem During.command {c : Call} {d : Command} {g : Except Exn d.Resp → Command.Program c.Resp}
    (h : During host c (.call d g) w) (hrep : ReadsAs w v) (out : Outcome) :
    (∃ out', out.OfLast out' ∧
      g (Command.handle host out d w).1 = .done (handle host.env out' c v).1 ∧
      ReadsAs (Command.handle host out d w).2 (handle host.env out' c v).2) ∨
    (ReadsAs (Command.handle host out d w).2 v ∧
      During host c (g (Command.handle host out d w).1) (Command.handle host out d w).2) := by
  generalize hq : (Prog.call d g : Command.Program c.Resp) = q at h
  cases h with
  | begins =>
      by_cases hget : ∃ sid index, c = .chunkGet sid index
      · rcases hget with ⟨sid, index, rfl⟩
        cases hq
        cases out with
        | works => exact Or.inr ⟨hrep, .payloadRead (Or.inl rfl)⟩
        | raises msg => exact Or.inl ⟨.raises msg, Or.inl rfl, rfl, hrep⟩
        | raisesAfter msg => exact Or.inl ⟨.raises msg, Or.inr ⟨msg, rfl, rfl⟩, rfl, hrep⟩
      · have hlast : Last host c d g w v :=
          hrep.last (fun sid index hc => hget ⟨sid, index, hc⟩) hq.symm
        exact Or.inl ⟨out, Or.inl rfl, hlast.handle hrep out⟩
  | payloadRead hread =>
      exact Or.inl ⟨out, Or.inl rfl, (hrep.lastMeta hread hq.symm).handle hrep out⟩
  | scanning => cases hq
  | @inRound sid cursor keys _ hscan =>
      cases out with
      | works => exact hrep.afterScan hscan hq.symm
      | raises msg =>
          cases hq
          exact Or.inl ⟨.raises msg, Or.inl rfl, rfl, hrep⟩
      | raisesAfter msg =>
          cases hq
          exact Or.inl ⟨.raises msg, Or.inr ⟨msg, rfl, rfl⟩, rfl, hrep⟩
  | found _ hscan =>
      exact Or.inl ⟨out, Or.inl rfl, (hrep.lastDelete hscan hq.symm).handle hrep out⟩

end Commands

/-! ## Exclusion -/

section Exclusion

variable {env : Env} {c : Run env}

/-- Chunk keys are read and written inside the critical section of their session. -/
theorem Known.owns (h : Known c) {i : Nat} {cl : Call} (hpending : c.pending i = some cl)
    {sid : UUID} (hcl : cl.chunksOf = some sid) :
    ∃ op, c.ops[i]? = some op ∧ (knows c.scene i op).Owns sid := by
  unfold Config.pending at hpending
  split at hpending
  · rename_i op cl' k hreq
    cases hpending
    refine ⟨op, by simp [Config.ops, hreq], ?_⟩
    have hallow := (h.obeys i op _ hreq).1
    cases cl with
    | chunkSave sid' chunk =>
        cases hcl
        exact hallow.1
    | chunkGet sid' index =>
        cases hcl
        exact hallow.1
    | chunkPull sid' index =>
        cases hcl
        exact hallow.1
    | deleteAll sid' =>
        cases hcl
        exact hallow.1
    | _ => cases hcl
  · cases hpending

/-- No two requests are about the chunks of one session at the same time. -/
theorem compatible_of_exclusive (hknown : Known c) (hexcl : ∀ sid, Exclusive sid c.scene)
    {i j : Nat} {cl cl' : Call} (hij : i ≠ j) (hi : c.pending i = some cl)
    (hj : c.pending j = some cl') : cl.Compatible cl' := by
  intro sid hcl hcl'
  rcases hknown.owns hi hcl with ⟨op, hop, hown⟩
  rcases hknown.owns hj hcl' with ⟨op', hop', hown'⟩
  exact hij ((hexcl sid).unique i op hop j op' hop' hown hown')

end Exclusion

/-! ## Refinement -/

section Refinement

variable (host : Host) (admits : List Op → Op → Prop) (allowed : Outcome → Prop)

/-- In calls: the requests that come in are admitted, the outcomes are allowed, and no lock
expires. -/
def Steady : Run host.env → Label (service host.env) → Prop
  | c, .spawn op => admits c.ops op
  | _, .unroll _ => True
  | _, .call _ out => allowed out
  | c, .move d => ∀ sid, lockLasts sid c (.move d)

/-- The same in commands. -/
def SteadyCommands :
    Config (commandLevel host).system → Label (commandLevel host).system → Prop
  | f, .spawn op => admits f.ops op
  | _, .unroll _ => True
  | _, .call _ out => allowed out
  | f, .move d => ∀ sid,
      (f.world.redis.advance d).get (lockKey sid) = f.world.redis.get (lockKey sid)

variable {host admits allowed}

theorem encode_injective : Function.Injective encode := by
  intro s s' h
  have hread := decode_encode s
  rw [h, decode_encode] at hread
  exact (Option.some.inj hread).symm

/-- Locks last on both levels. -/
theorem ReadsAs.lock_advance {w : Deployment} {v : World} (h : ReadsAs w v) {d : Nat}
    {sid : UUID} (hlast : (w.redis.advance d).get (lockKey sid) = w.redis.get (lockKey sid)) :
    (v.advance d).lock? sid = v.lock? sid := by
  have hlater : (w.redis.advance d).get (lockKey sid) = ((v.advance d).lock? sid).map encode :=
    h.read d (.lock sid)
  have hnow : w.redis.get (lockKey sid) = (v.lock? sid).map encode := h.get (.lock sid)
  rw [hlater, hnow] at hlast
  exact Option.map_injective encode_injective hlast

theorem Steady.lockLasts {c : Run host.env} {l : Label (service host.env)}
    (h : Steady host admits allowed c l) (sid : UUID) : lockLasts sid c l := by
  cases l with
  | move d => exact h sid
  | _ => rfl

/-- What holds of every configuration reached in calls. -/
theorem reach_steady {now : Nat} {c : Run host.env}
    (h : Reach (Steady host admits allowed) (Config.start (World.empty now)) c) :
    Known c ∧ ∀ sid, Exclusive sid c.scene :=
  ⟨reach_known h, fun sid => reach_exclusive (fun _ _ hsteady => hsteady.lockLasts sid) h⟩

/-- The calls of the service are atomic. An answer that is lost may have to count as a call
that did not go through. -/
def callsAtomic (hallowed : ∀ msg, allowed (.raisesAfter msg) → allowed (.raises msg)) :
    Atomic (commandLevel host) (SteadyCommands host admits allowed) (Steady host admits allowed)
      (fun c => Known c ∧ ∀ sid, Exclusive sid c.scene) where
  represents := ReadsAs
  during := During host
  compatible := Call.Compatible
  begins := fun c w => .begins c w
  not_done := fun _ _ _ => During.not_done
  unrolls := fun h => h.unrolls
  command := by
    intro f v i c d g out hlow hrep h
    rcases h.command hrep out with ⟨out', hout, hdone, heffect⟩ | hgoes
    · left
      refine ⟨out', hdone, heffect, ?_⟩
      intro h
      rcases hout with rfl | ⟨msg, rfl, rfl⟩
      · exact hlow
      · exact hallowed msg hlow
    · exact Or.inr hgoes
  stable := fun out hcomp _ h h' => h.stable h' hcomp out
  stable_move := fun d hrep h => h.advance hrep d
  spawns := by
    intro f h op hops hlow
    show admits h.ops op
    rw [← hops]
    exact hlow
  moves := by
    intro f h d hrep hlow
    refine ⟨?_, hrep.advance d⟩
    intro sid
    simpa [FileUploader.lockLasts] using hrep.lock_advance (hlow sid)
  unrolled := fun _ _ => trivial
  exclusive := fun hK hij hi hj => compatible_of_exclusive hK.1 hK.2 hij hi hj

section Part

variable {f₀ f : Config (commandLevel host).system} {op : Op}

/-- A part of request `i`, with nothing else in between. -/
theorem reach_part (i : Nat) (hworks : allowed .works)
    (hf : Reach (SteadyCommands host admits allowed) f₀ f)
    {α : Type} {p : Command.Program α} {k : Except Exn α → Command.Program Response}
    (hreq : f.requests[i]? = some ⟨op, p.andThen k⟩) {o : Except Exn α} {w' : Deployment}
    (h : Exec (commandWorks host) p f.world o w') :
    ∃ f', Reach (SteadyCommands host admits allowed) f₀ f' ∧
      f'.requests = f.requests.set i ⟨op, k o⟩ ∧ f'.world = w' := by
  have hany : ∀ (d : Command) w r w', commandWorks host d w r w' →
      (commandLevel host).system.answers (fun out _ => out = .works) d w r w' :=
    fun d w r w' hd => ⟨.works, rfl, hd.1, hd.2⟩
  refine exec_reach (fun _ => trivial) (fun _ out _ _ hout => ?_) p k (h.mono hany) hf rfl hreq
  subst hout
  exact hworks

/-- The next call of request `i`. -/
theorem reach_call (i : Nat) (c : Call) (hworks : allowed .works)
    (hf : Reach (SteadyCommands host admits allowed) f₀ f)
    {k : Except Exn c.Resp → FileUploader.Program Response} {v : World}
    (hreq : f.requests[i]? = some ⟨op, (Prog.call c k).implement Command.ofCall⟩)
    (hrep : ReadsAs f.world v) :
    ∃ f', Reach (SteadyCommands host admits allowed) f₀ f' ∧
      f'.requests = f.requests.set i
        ⟨op, (k (respond host.env c v).1).implement Command.ofCall⟩ ∧
      ReadsAs f'.world (respond host.env c v).2 := by
  have hanswer : works host.env c v _ _ := ⟨rfl, rfl⟩
  rcases exec_ofCall hrep hanswer with ⟨w', hexec, hrep'⟩
  rcases reach_part i hworks hf hreq hexec with ⟨f', hf', hreq', rfl⟩
  exact ⟨f', hf', hreq', hrep'⟩

/-- All of a request, as it runs in calls. -/
theorem reach_request (hworks : allowed .works)
    (hf : Reach (SteadyCommands host admits allowed) f₀ f) (hadmits : admits f.ops op)
    {v v' : World} {r : Except Exn Response} (hrep : ReadsAs f.world v)
    (h : Alone host.env op v r v') :
    ∃ f', Reach (SteadyCommands host admits allowed) f₀ f' ∧
      f'.requests = f.requests ++ [⟨op, .done r⟩] ∧ ReadsAs f'.world v' := by
  rcases exec_implement exec_ofCall hrep h with ⟨w', hexec, hrep'⟩
  have hspawn : Reach (SteadyCommands host admits allowed) f₀ (f.spawn op) :=
    .step (l := .spawn op) hf hadmits rfl
  have hreq : (f.spawn op).requests[f.requests.length]? =
      some ⟨op, ((Op.prog host.env op).implement Command.ofCall).andThen .done⟩ := by
    rw [andThen_done_right]
    simp [Config.spawn]
  rcases reach_part _ hworks hspawn hreq hexec with ⟨f', hf', hreq', rfl⟩
  refine ⟨f', hf', ?_, hrep'⟩
  rw [hreq', Config.spawn]
  simp

end Part

/-- Every run in Redis commands in which no lock expires, whatever fails in it, is a run in
calls: of the same requests, with the same results, in a world that every key reads as, now
and later. -/
theorem commands_refine_calls
    (hallowed : ∀ msg, allowed (.raisesAfter msg) → allowed (.raises msg)) {now : Nat}
    {f : Config (commandLevel host).system}
    (hf : Reach (SteadyCommands host admits allowed) (Config.start (Deployment.empty now)) f) :
    ∃ c : Run host.env,
      Reach (Steady host admits allowed) (Config.start (World.empty now)) c ∧
      f.ops = c.ops ∧ (∀ i, f.result i = c.result i) ∧ f.world.outside = c.world.outside ∧
      ∀ (d : Nat) (k : Key), (f.world.redis.advance d).get k.str = (c.world.advance d).value k := by
  rcases (callsAtomic hallowed).refines (readsAs_empty now) (fun _ h => reach_steady h) hf with
    ⟨c, hc, hcorr⟩
  exact ⟨c, hc, hcorr.ops, hcorr.result, hcorr.world.outside, hcorr.world.read⟩

end Refinement

/-! ## A concrete run -/

namespace Demo

/-- The session of another tenant, and the request that initiates it. -/
def otherSession : UploadSession := newSession ⟨9⟩ ⟨5⟩ ⟨8⟩ 1 (sha256 b)
def otherInitiate : Op := .initiate ⟨9⟩ ⟨5⟩ ⟨8⟩ 1 (sha256 b)

end Demo

/-- A session with one chunk is aborted; when the keys of its chunks have been looked up, and
before they are deleted, another session is initiated. -/
theorem commands_refine_calls_demo :
    ∃ (f : Config (commandLevel Demo.host).system) (c : Run Demo.env),
      Reach (Steady Demo.host (fun _ _ => True) (fun _ => True)) (Config.start (World.empty 0)) c ∧
      c.result 2 = some (.ok .aborted) ∧
      c.result 3 = some (.ok (.initiated (some Demo.otherSession, none))) ∧
      f.world.redis.get (chunkKey Demo.sid 0) = c.world.value (.chunk Demo.sid 0) := by
  have hworks : (fun _ : Outcome => True) .works := trivial
  have h₀ : Reach (SteadyCommands Demo.host (fun _ _ => True) (fun _ => True))
      (Config.start (Deployment.empty 0)) (Config.start (Deployment.empty 0)) := .start
  -- the session and its chunk
  have hinit : Alone Demo.host.env (.initiate Demo.sid Demo.tenant Demo.file 1 (Demo.sha256 Demo.a))
      (World.empty 0) _ (Demo.sized 1) :=
    (alone_initiate _ _ _ _ _).2 (Or.inr ⟨rfl, rfl, rfl⟩)
  have hupload : Alone Demo.host.env (.uploadChunk Demo.sid 0 (Demo.sha256 Demo.a) Demo.a)
      (Demo.sized 1) _ (Demo.uploadedAt 0) := alone_uploadedAt 0
  rcases reach_request hworks h₀ trivial (readsAs_empty 0) hinit with ⟨f₁, hf₁, hreq₁, hrep₁⟩
  rcases reach_request hworks hf₁ trivial hrep₁ hupload with ⟨f₂, hf₂, hreq₂, hrep₂⟩
  rw [hreq₁] at hreq₂
  -- the abort reads the session, and takes its lock
  have hspawn : Reach _ _ (f₂.spawn (.abort Demo.sid)) := .step (l := .spawn _) hf₂ trivial rfl
  have hread : respond Demo.host.env (.sessionGet Demo.sid) (Demo.uploadedAt 0) =
      (.ok (some Demo.complete), Demo.uploadedAt 0) :=
    congrArg (fun s => (Except.ok s, Demo.uploadedAt 0)) (session?_uploadedAt 0)
  rcases reach_call 2 (.sessionGet Demo.sid) hworks hspawn
    (by rw [Config.spawn, hreq₂]; rfl) hrep₂ with ⟨f₃, hf₃, hreq₃, hrep₃⟩
  rw [hread, Config.spawn, hreq₂] at hreq₃
  rw [hread] at hrep₃
  have hlock : respond Demo.host.env (.acquireLock Demo.sid RedisSessionRepository.lockTtl)
      (Demo.uploadedAt 0) = (.ok true, (Demo.uploadedAt 0).locking Demo.sid) := rfl
  rcases reach_call 2 (.acquireLock Demo.sid RedisSessionRepository.lockTtl) hworks hf₃
    (by rw [hreq₃]; rfl) hrep₃ with ⟨f₄, hf₄, hreq₄, hrep₄⟩
  rw [hlock, hreq₃] at hreq₄
  rw [hlock] at hrep₄
  -- it looks up the keys of the chunks
  have hstart : Scanned Demo.host Demo.sid 0 [] f₄.world :=
    ⟨.start _ _ _, fun k hk => by cases hk⟩
  rcases rounds_scan hstart with ⟨keys, hrounds, _⟩
  rcases reach_part 2 hworks hf₄ (by rw [hreq₄]; rfl)
    ((exec_loop _ _ _).2 hrounds) with ⟨f₅, hf₅, hreq₅, hw₅⟩
  rw [hreq₄] at hreq₅
  rw [← hw₅] at hrep₄
  -- the other session comes in between
  have hother : Alone Demo.host.env Demo.otherInitiate ((Demo.uploadedAt 0).locking Demo.sid)
      (.ok (.initiated (some Demo.otherSession, none))) _ :=
    (alone_initiate _ _ _ _ _).2 (Or.inr ⟨rfl, rfl, rfl⟩)
  rcases reach_request hworks hf₅ trivial hrep₄ hother with ⟨f₆, hf₆, hreq₆, _⟩
  rw [hreq₅] at hreq₆
  -- the abort deletes the keys that it has found, and ends
  rcases reach_part 2 hworks hf₆ (by rw [hreq₆]; rfl)
    (exec_deleteKeys f₆.world keys) with ⟨f₇, hf₇, hreq₇, _⟩
  rw [hreq₆] at hreq₇
  rcases reach_part 2 hworks hf₇ (by rw [hreq₇]; rfl) (exec_delete f₇.world [sessionKey Demo.sid])
    with ⟨f₈, hf₈, hreq₈, _⟩
  rw [hreq₇] at hreq₈
  rcases reach_part 2 hworks hf₈ (by rw [hreq₈]; rfl) (exec_delete f₈.world [lockKey Demo.sid])
    with ⟨f₉, hf₉, hreq₉, _⟩
  rw [hreq₈] at hreq₉
  rcases commands_refine_calls (fun _ _ => trivial) hf₉ with ⟨c, hc, _, hres, _, hvalues⟩
  refine ⟨f₉, c, hc, (hres 2).symm.trans ?_, (hres 3).symm.trans ?_,
    hvalues 0 (.chunk Demo.sid 0)⟩
  · rw [Config.result, hreq₉]
    rfl
  · rw [Config.result, hreq₉]
    rfl

end FileUploader
