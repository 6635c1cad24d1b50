import FileUploader.Store.TimedKeyValue
import FileUploader.Keyspace
import FileUploader.Multipart

/-! # The two readers of the chunk cache

A finalize reads the cached chunks twice: `get_stream` looks at the payloads only, the
assembly asks `get`, which also needs the metadata. Both keys of a chunk are written and
deleted together and expire together; so both loops find the same chunks. They end, as
only finitely many keys are there. On the way the chunk maps of `World` are shown to answer
as the keys do.
-/

namespace FileUploader

open Await Prog

/-! ## The chunk cache with its clock -/

/-- The keyspace of a Redis instance and its clock, in milliseconds. -/
abbrev TimedRedis := TimedKeyValue String Bytes

namespace TimedRedis.RedisChunkRepository

variable (redis : TimedRedis)

/-- Both keys are set in one pipeline, with `ex=self.ttl`. -/
def save (json : Json) (ttl : Nat) (sessionId : UUID) (chunk : Chunk) : TimedRedis :=
  (redis.setEx (chunkKey sessionId chunk.index) chunk.rawBytes (ttl * 1000)).setEx
    (chunkMetaKey sessionId chunk.index) (json.dumpsMeta ⟨chunk.checksum, chunk.size⟩)
    (ttl * 1000)

/-- A key that has expired is not found. -/
def deleteAll (sessionId : UUID) : TimedRedis :=
  let keys := redis.live.scan (matchesPattern (chunkPattern sessionId))
  if keys = [] then redis else redis.delete keys

end TimedRedis.RedisChunkRepository

/-- What happens to the cache: a call of `save` or `delete_all`, or time passes. -/
inductive CacheOp where
  | save (sessionId : UUID) (chunk : Chunk)
  | deleteAll (sessionId : UUID)
  | wait (milliseconds : Nat)

namespace CacheOp

def apply (json : Json) (ttl : Nat) (redis : TimedRedis) : CacheOp → TimedRedis
  | .save sid chunk => TimedRedis.RedisChunkRepository.save redis json ttl sid chunk
  | .deleteAll sid => TimedRedis.RedisChunkRepository.deleteAll redis sid
  | .wait d => redis.advance d

/-- The cache after a sequence of operations. -/
def history (json : Json) (ttl now : Nat) (ops : List CacheOp) : TimedRedis :=
  ops.foldl (apply json ttl) (.empty now)

/-- Decoding undoes encoding on what this operation writes. -/
def Decodes (json : Json) : CacheOp → Prop
  | .save sid chunk => json.Undoes (.chunkSave sid chunk)
  | .deleteAll _ | .wait _ => True

instance (json : Json) : DecidablePred (Decodes json)
  | .save sid chunk => inferInstanceAs (Decidable (json.Undoes (.chunkSave sid chunk)))
  | .deleteAll _ | .wait _ => inferInstanceAs (Decidable True)

end CacheOp

/-! ## Both keys of a chunk -/

section Pairs

variable {json : Json} {ttl : Nat} {redis : TimedRedis} {sid : UUID} {i : Int}

/-- Under the two keys of a chunk is nothing, or a chunk and its metadata, with one
deadline. -/
def Pair (json : Json) (redis : TimedRedis) (sid : UUID) (i : Int) : Prop :=
  (redis.keys.get (chunkKey sid i) = none ∧ redis.keys.get (chunkMetaKey sid i) = none) ∨
    ∃ chunk deadline, json.Undoes (.chunkSave sid chunk) ∧
      redis.keys.get (chunkKey sid i) = some (chunk.rawBytes, deadline) ∧
      redis.keys.get (chunkMetaKey sid i) =
        some (json.dumpsMeta ⟨chunk.checksum, chunk.size⟩, deadline)

/-- All chunks are so. -/
def KeysPaired (json : Json) (redis : TimedRedis) : Prop := ∀ sid i, Pair json redis sid i

theorem Pair.congr {redis' : TimedRedis} (h : Pair json redis sid i)
    (hchunk : redis'.keys.get (chunkKey sid i) = redis.keys.get (chunkKey sid i))
    (hmeta : redis'.keys.get (chunkMetaKey sid i) = redis.keys.get (chunkMetaKey sid i)) :
    Pair json redis' sid i := by
  unfold Pair
  rw [hchunk, hmeta]
  exact h

/-- What the two commands of `save` leave under a key. -/
theorem get_save (json : Json) (ttl : Nat) (redis : TimedRedis) (sid : UUID) (chunk : Chunk)
    (k : Key) :
    (TimedRedis.RedisChunkRepository.save redis json ttl sid chunk).keys.get k.str =
      if k = .chunkMeta sid chunk.index then
        some (json.dumpsMeta ⟨chunk.checksum, chunk.size⟩, redis.now + ttl * 1000)
      else if k = .chunk sid chunk.index then some (chunk.rawBytes, redis.now + ttl * 1000)
      else redis.keys.get k.str := by
  show ((redis.keys.set (Key.chunk sid chunk.index).str _).set
    (Key.chunkMeta sid chunk.index).str _).get k.str = _
  rw [KeyValue.get_set, KeyValue.get_set]
  simp only [Key.str_inj]
  rfl

theorem KeysPaired.save {chunk : Chunk} (h : KeysPaired json redis)
    (hchunk : json.Undoes (.chunkSave sid chunk)) :
    KeysPaired json (TimedRedis.RedisChunkRepository.save redis json ttl sid chunk) := by
  intro sid' i
  have hraw := get_save json ttl redis sid chunk (.chunk sid' i)
  have hmeta := get_save json ttl redis sid chunk (.chunkMeta sid' i)
  by_cases hsame : sid' = sid ∧ i = chunk.index
  · rcases hsame with ⟨rfl, rfl⟩
    rw [if_neg (by simp), if_pos rfl] at hraw
    rw [if_pos rfl] at hmeta
    exact Or.inr ⟨chunk, _, hchunk, hraw, hmeta⟩
  · rw [if_neg (by simp), if_neg (by simpa using hsame)] at hraw
    rw [if_neg (by simpa using hsame), if_neg (by simp)] at hmeta
    exact (h sid' i).congr hraw hmeta

/-- Both keys are readable or none is. -/
theorem Pair.live_isSome (h : Pair json redis sid i) :
    (redis.live.get (chunkKey sid i)).isSome = (redis.live.get (chunkMetaKey sid i)).isSome := by
  rcases h with ⟨hraw, hmeta⟩ | ⟨chunk, deadline, _, hraw, hmeta⟩
  · rw [TimedKeyValue.get_live_of_none hraw, TimedKeyValue.get_live_of_none hmeta]
  · rw [TimedKeyValue.get_live_of_some hraw, TimedKeyValue.get_live_of_some hmeta]
    split
    · rfl
    · rfl

/-- `delete_all` leaves the keys that it has not found. -/
theorem get_deleteAll (redis : TimedRedis) (sid : UUID) (k : String) :
    (TimedRedis.RedisChunkRepository.deleteAll redis sid).keys.get k =
      if k ∈ redis.live.scan (matchesPattern (chunkPattern sid)) then none
      else redis.keys.get k := by
  unfold TimedRedis.RedisChunkRepository.deleteAll
  by_cases hnil : redis.live.scan (matchesPattern (chunkPattern sid)) = []
  · simp [hnil]
  · simp only [hnil, if_false]
    exact redis.keys.get_delete k _

theorem KeysPaired.deleteAll (h : KeysPaired json redis) (sid : UUID) :
    KeysPaired json (TimedRedis.RedisChunkRepository.deleteAll redis sid) := by
  intro sid' i
  -- the scan finds both keys of the chunk or none
  have hboth : chunkMetaKey sid' i ∈ redis.live.scan (matchesPattern (chunkPattern sid)) ↔
      chunkKey sid' i ∈ redis.live.scan (matchesPattern (chunkPattern sid)) := by
    have hchunk := Key.matches_iff sid (.chunk sid' i)
    have hmeta := Key.matches_iff sid (.chunkMeta sid' i)
    rw [KeyValue.mem_scan, KeyValue.mem_scan, (h sid' i).live_isSome]
    show _ ∧ matchesPattern (chunkPattern sid) (Key.chunkMeta sid' i).str = true ↔
      _ ∧ matchesPattern (chunkPattern sid) (Key.chunk sid' i).str = true
    rw [hchunk, hmeta]
    exact Iff.rfl
  by_cases hfound : chunkKey sid' i ∈ redis.live.scan (matchesPattern (chunkPattern sid))
  · exact Or.inl ⟨by rw [get_deleteAll, if_pos hfound],
      by rw [get_deleteAll, if_pos (hboth.2 hfound)]⟩
  · exact (h sid' i).congr (by rw [get_deleteAll, if_neg hfound])
      (by rw [get_deleteAll, if_neg fun hmem => hfound (hboth.1 hmem)])

theorem KeysPaired.apply (h : KeysPaired json redis) {op : CacheOp} (hop : op.Decodes json) :
    KeysPaired json (op.apply json ttl redis) := by
  cases op with
  | save sid chunk => exact h.save hop
  | deleteAll sid => exact h.deleteAll sid
  | wait d => exact h

/-- Whatever has happened to the cache, the keys of its chunks are paired. -/
theorem paired_history {ops : List CacheOp} (hops : ∀ op ∈ ops, op.Decodes json)
    (ttl now : Nat) : KeysPaired json (CacheOp.history json ttl now ops) := by
  have hrun : ∀ redis, KeysPaired json redis →
      KeysPaired json (ops.foldl (CacheOp.apply json ttl) redis) := by
    induction ops with
    | nil => exact fun redis h => h
    | cons op ops ih =>
        intro redis h
        exact ih (fun op' hop' => hops op' (List.mem_cons_of_mem op hop')) _
          (h.apply (hops op List.mem_cons_self))
  exact hrun _ fun sid i => Or.inl ⟨rfl, rfl⟩

/-- The chunk at `i`, if it is there and not empty. -/
def TimedRedis.payload? (redis : TimedRedis) (sid : UUID) (i : Int) : Option Bytes :=
  (redis.live.get (chunkKey sid i)).filter (· ≠ [])

/-- `get` finds the payload that the stream finds. -/
theorem Pair.get (h : Pair json redis sid i) :
    (Keyspace.RedisChunkRepository.get json redis.live sid i).map (·.rawBytes) =
      redis.payload? sid i := by
  unfold Keyspace.RedisChunkRepository.get TimedRedis.payload?
  rcases h with ⟨hraw, _⟩ | ⟨chunk, deadline, ⟨hloads, hne⟩, hraw, hmeta⟩
  · rw [TimedKeyValue.get_live_of_none hraw]
    rfl
  · rw [TimedKeyValue.get_live_of_some hraw, TimedKeyValue.get_live_of_some hmeta]
    by_cases hlt : redis.now < deadline
    · by_cases hempty : chunk.rawBytes = []
      · simp [hlt, hempty, Option.filter]
      · simp [hlt, hempty, hne, hloads, Option.filter]
    · simp [hlt]

end Pairs

/-! ## The chunk maps of the world

The maps of `World` keep decoded chunks with the same deadlines. What they answer, now and at
any later time, is what the keys answer.
-/

/-- The operation on the maps. -/
def CacheOp.onWorld (w : World) : CacheOp → World
  | .save sid chunk => RedisChunkRepository.save w sid chunk
  | .deleteAll sid => RedisChunkRepository.deleteAll w sid
  | .wait d => w.advance d

/-- The maps answer as the keys do, however long one waits. -/
structure Mirrors (json : Json) (redis : TimedRedis) (w : World) : Prop where
  now : w.now = redis.now
  chunk : ∀ d sid i, (redis.advance d).live.get (chunkKey sid i) = (w.advance d).chunk? sid i
  chunkMeta : ∀ d sid i, ((redis.advance d).live.get (chunkMetaKey sid i)).bind json.loadsMeta =
    (w.advance d).chunkMeta? sid i

section Maps

variable {json : Json} {redis : TimedRedis} {w : World}

/-- A key that has been set reads as its value until the deadline. -/
theorem live_save (json : Json) (redis : TimedRedis) (ttl : Nat) (sid : UUID) (chunk : Chunk)
    (k : Key) (d : Nat) :
    ((TimedRedis.RedisChunkRepository.save redis json ttl sid chunk).advance d).live.get k.str =
      if k = .chunkMeta sid chunk.index ∨ k = .chunk sid chunk.index then
        if redis.now + d < redis.now + ttl * 1000 then
          some (if k = .chunkMeta sid chunk.index then json.dumpsMeta ⟨chunk.checksum, chunk.size⟩
            else chunk.rawBytes)
        else none
      else (redis.advance d).live.get k.str := by
  have hget := get_save json ttl redis sid chunk k
  by_cases hmeta : k = .chunkMeta sid chunk.index
  · rw [if_pos hmeta] at hget
    simp only [hmeta, true_or, if_true]
    rw [← hmeta]
    exact TimedKeyValue.get_live_of_some hget
  · by_cases hchunk : k = .chunk sid chunk.index
    · rw [if_neg hmeta, if_pos hchunk] at hget
      rw [if_pos (Or.inr hchunk), if_neg hmeta]
      exact TimedKeyValue.get_live_of_some hget
    · rw [if_neg hmeta, if_neg hchunk] at hget
      rw [if_neg (not_or.2 ⟨hmeta, hchunk⟩)]
      exact TimedKeyValue.get_live_congr hget rfl

theorem Mirrors.save {sid : UUID} {chunk : Chunk} (h : Mirrors json redis w)
    (hchunk : json.Undoes (.chunkSave sid chunk)) :
    Mirrors json
      (TimedRedis.RedisChunkRepository.save redis json RedisChunkRepository.ttl sid chunk)
      (RedisChunkRepository.save w sid chunk) where
  now := h.now
  chunk d sid' i := by
    have hmap : ((RedisChunkRepository.save w sid chunk).advance d).chunk? sid' i = _ :=
      w.chunks.get_set_until (w.now + d) (sid, chunk.index) chunk.rawBytes
        (w.now + RedisChunkRepository.ttl * 1000) (sid', i)
    refine (live_save json redis RedisChunkRepository.ttl sid chunk (.chunk sid' i) d).trans ?_
    rw [hmap, ← h.now]
    simp only [reduceCtorEq, false_or, if_false, Key.chunk.injEq, Prod.mk.injEq]
    exact if_congr Iff.rfl rfl (h.chunk d sid' i)
  chunkMeta d sid' i := by
    have hmap : ((RedisChunkRepository.save w sid chunk).advance d).chunkMeta? sid' i = _ :=
      w.chunkMetas.get_set_until (w.now + d) (sid, chunk.index) ⟨chunk.checksum, chunk.size⟩
        (w.now + RedisChunkRepository.ttl * 1000) (sid', i)
    have hkeys := live_save json redis RedisChunkRepository.ttl sid chunk (.chunkMeta sid' i) d
    have hread := congrArg (Option.bind · json.loadsMeta) hkeys
    refine hread.trans ?_
    rw [hmap, ← h.now]
    simp only [reduceCtorEq, or_false, Key.chunkMeta.injEq, Prod.mk.injEq]
    by_cases hsame : sid' = sid ∧ i = chunk.index
    · simp only [hsame, and_self, if_true]
      split
      · exact hchunk.1
      · rfl
    · simp only [hsame, if_false]
      exact h.chunkMeta d sid' i

/-- The keys of the session are gone, whether the scan has found them or they had expired. -/
theorem live_deleteAll (redis : TimedRedis) (sid : UUID) (k : Key) (d : Nat) :
    ((TimedRedis.RedisChunkRepository.deleteAll redis sid).advance d).live.get k.str =
      if k.ofChunks sid then none else (redis.advance d).live.get k.str := by
  have hget := get_deleteAll redis sid k.str
  have hnow : (TimedRedis.RedisChunkRepository.deleteAll redis sid).now = redis.now := by
    simp only [TimedRedis.RedisChunkRepository.deleteAll]
    split
    · rfl
    · rfl
  have hkept : k.str ∉ redis.live.scan (matchesPattern (chunkPattern sid)) →
      ((TimedRedis.RedisChunkRepository.deleteAll redis sid).advance d).live.get k.str =
        (redis.advance d).live.get k.str := by
    intro hmem
    rw [if_neg hmem] at hget
    exact TimedKeyValue.get_live_congr hget (congrArg (· + d) hnow)
  rw [KeyValue.mem_scan, Key.matches_iff] at hkept
  by_cases hchunk : k.ofChunks sid = true
  · rw [if_pos hchunk]
    cases hlive : redis.live.get k.str with
    | none =>
        refine (hkept ?_).trans (TimedKeyValue.live_advance_of_none hlive d)
        simp [hlive]
    | some v =>
        have hmem : k.str ∈ redis.live.scan (matchesPattern (chunkPattern sid)) := by
          rw [KeyValue.mem_scan, Key.matches_iff, hlive]
          exact ⟨rfl, hchunk⟩
        rw [if_pos hmem] at hget
        exact TimedKeyValue.get_live_of_none hget
  · rw [if_neg hchunk]
    exact hkept fun hmem => hchunk hmem.2

theorem Mirrors.deleteAll (h : Mirrors json redis w) (sid : UUID) :
    Mirrors json (TimedRedis.RedisChunkRepository.deleteAll redis sid)
      (RedisChunkRepository.deleteAll w sid) where
  now := by
    refine h.now.trans ?_
    simp only [TimedRedis.RedisChunkRepository.deleteAll]
    split
    · rfl
    · rfl
  chunk d sid' i := by
    have hmap : ((RedisChunkRepository.deleteAll w sid).advance d).chunk? sid' i = _ :=
      w.chunks.get_eraseAll (w.now + d) (sid', i) fun k => k.1 = sid
    refine (live_deleteAll redis sid (.chunk sid' i) d).trans ?_
    rw [hmap]
    exact if_congr Iff.rfl rfl (h.chunk d sid' i)
  chunkMeta d sid' i := by
    have hmap : ((RedisChunkRepository.deleteAll w sid).advance d).chunkMeta? sid' i = _ :=
      w.chunkMetas.get_eraseAll (w.now + d) (sid', i) fun k => k.1 = sid
    have hread := congrArg (Option.bind · json.loadsMeta)
      (live_deleteAll redis sid (.chunkMeta sid' i) d)
    refine hread.trans ?_
    rw [hmap]
    by_cases hsame : sid' = sid
    · simp [Key.ofChunks, hsame]
    · simp only [Key.ofChunks, hsame, decide_false, Bool.false_eq_true, if_false]
      exact h.chunkMeta d sid' i

theorem Mirrors.advance (h : Mirrors json redis w) (d : Nat) :
    Mirrors json (redis.advance d) (w.advance d) where
  now := congrArg (· + d) h.now
  chunk d' sid i := by
    have hlater := h.chunk (d + d') sid i
    simp only [TimedKeyValue.advance, World.advance, ← Nat.add_assoc] at hlater
    exact hlater
  chunkMeta d' sid i := by
    have hlater := h.chunkMeta (d + d') sid i
    simp only [TimedKeyValue.advance, World.advance, ← Nat.add_assoc] at hlater
    exact hlater

/-- After any operations on both, with the TTL that `save` gives. -/
theorem mirrors_history {ops : List CacheOp} (hops : ∀ op ∈ ops, op.Decodes json) (now : Nat) :
    Mirrors json (CacheOp.history json RedisChunkRepository.ttl now ops)
      (ops.foldl CacheOp.onWorld (World.empty now)) := by
  have hrun : ∀ redis w, Mirrors json redis w →
      Mirrors json (ops.foldl (CacheOp.apply json RedisChunkRepository.ttl) redis)
        (ops.foldl CacheOp.onWorld w) := by
    induction ops with
    | nil => exact fun redis w h => h
    | cons op ops ih =>
        intro redis w h
        have hop := hops op List.mem_cons_self
        refine ih (fun op' hop' => hops op' (List.mem_cons_of_mem op hop')) _ _ ?_
        cases op with
        | save sid chunk => exact h.save hop
        | deleteAll sid => exact h.deleteAll sid
        | wait d => exact h.advance d
  exact hrun _ _ ⟨rfl, fun _ _ _ => rfl, fun _ _ _ => rfl⟩

/-- `get` answers from the maps as from the keys. -/
theorem Mirrors.get (h : Mirrors json redis w) (hpaired : KeysPaired json redis) (sid : UUID)
    (i : Int) : RedisChunkRepository.get w sid i =
      Keyspace.RedisChunkRepository.get json redis.live sid i := by
  have hchunk : redis.live.get (chunkKey sid i) = w.chunk? sid i := h.chunk 0 sid i
  have hmeta : (redis.live.get (chunkMetaKey sid i)).bind json.loadsMeta = w.chunkMeta? sid i :=
    h.chunkMeta 0 sid i
  unfold RedisChunkRepository.get Keyspace.RedisChunkRepository.get
  rw [← hchunk, ← hmeta]
  rcases hpaired sid i with ⟨hraw, _⟩ | ⟨chunk, deadline, ⟨hloads, hne⟩, hraw, hdumps⟩
  · rw [TimedKeyValue.get_live_of_none hraw]
  · rw [TimedKeyValue.get_live_of_some hraw, TimedKeyValue.get_live_of_some hdumps]
    by_cases hlt : redis.now < deadline
    · by_cases hempty : chunk.rawBytes = []
      · simp [hlt, hempty, hloads]
      · simp [hlt, hempty, hne, hloads]
    · simp [hlt]

/-- With deadlines, too, the adapters of the world answer as the code does on the keys. -/
theorem cache_of_world {ops : List CacheOp} (hops : ∀ op ∈ ops, op.Decodes json) (now : Nat)
    (sid : UUID) (i : Int) :
    (ops.foldl CacheOp.onWorld (World.empty now)).chunk? sid i =
        (CacheOp.history json RedisChunkRepository.ttl now ops).live.get (chunkKey sid i) ∧
      RedisChunkRepository.get (ops.foldl CacheOp.onWorld (World.empty now)) sid i =
        Keyspace.RedisChunkRepository.get json
          (CacheOp.history json RedisChunkRepository.ttl now ops).live sid i := by
  have h := mirrors_history hops now
  exact ⟨(h.chunk 0 sid i).symm, h.get (paired_history hops _ now) sid i⟩

end Maps

/-! ## Reading -/

def collectRound {σ α : Type} (stream : AsyncIterator σ α) :
    σ × List α → Program ((σ × List α) ⊕ List α) :=
  fun (s, items) => do
    match ← stream s with
    | none => pure (.inr items)
    | some (item, rest) => pure (.inl (rest, items ++ [item]))

/-- `[item async for item in stream]` -/
def collect {σ α : Type} (stream : AsyncIterator σ α) (start : σ) : Program (List α) :=
  loop (collectRound stream) (start, [])

/-- The loop over a stream from `index` on, that yields the run of `f`. -/
theorem rounds_collect {W α : Type} {R : Answers Collab W} {stream : AsyncIterator Nat α}
    {f : Nat → Option α} {I : W → Prop} (hstep : ∀ (index : Nat) w, I w → ∃ w',
      Exec R (stream index) w (.ok ((f index).map fun item => (item, index + 1))) w' ∧ I w')
    {rest : List α} {index : Nat} (hrun : RunFrom f index rest) (items : List α) {w : W}
    (hw : I w) : ∃ w', Rounds (fun s => Exec R (collectRound stream s)) (index, items) w
      (.ok (items ++ rest)) w' ∧ I w' := by
  induction rest generalizing index items w with
  | nil =>
      rcases hstep index w hw with ⟨w₁, hexec, hw₁⟩
      rw [show f index = none from hrun] at hexec
      rw [List.append_nil]
      exact ⟨w₁, .stop ((exec_bind _ _ _).2 (Or.inr ⟨_, _, hexec, ⟨rfl, rfl⟩⟩)), hw₁⟩
  | cons item rest ih =>
      rcases hrun with ⟨hitem, hrest⟩
      rcases hstep index w hw with ⟨w₁, hexec, hw₁⟩
      rw [hitem] at hexec
      rcases ih hrest (items ++ [item]) hw₁ with ⟨w₂, hrounds, hw₂⟩
      rw [List.append_assoc, List.singleton_append] at hrounds
      exact ⟨w₂, .again ((exec_bind _ _ _).2 (Or.inr ⟨_, _, hexec, ⟨rfl, rfl⟩⟩)) hrounds, hw₂⟩

/-- The answers of everything but the chunk cache: any, after any calls. -/
abbrev Others := Trace Collab → (c : Call) → Except Exn c.Resp

/-- The reads of the chunk cache are answered from `redis`. -/
def answerFrom (json : Json) (others : Others) (redis : TimedRedis) (t : Trace Collab) :
    (c : Call) → Except Exn c.Resp
  | .chunkPull sid index => .ok (redis.live.get (chunkKey sid index))
  | .chunkGet sid index => .ok (Keyspace.RedisChunkRepository.get json redis.live sid index)
  | c => others t c

/-- Calls that leave the cache as it is, all of them recorded. -/
def serveFrom (json : Json) (others : Others) (c : Call) (s : TimedRedis × Trace Collab) :
    Except Exn c.Resp × (TimedRedis × Trace Collab) :=
  (answerFrom json others s.1 s.2 c, (s.1, s.2 ++ [⟨c, answerFrom json others s.1 s.2 c⟩]))

/-- The part that a call passes to S3: number and payload. -/
def Call.part : Call → Option (Nat × Bytes)
  | .uploadPart _ _ _ n data => some (n, data)
  | _ => none

/-- The parts passed to S3, in order. -/
def passedParts (t : Trace Collab) : List (Nat × Bytes) := t.filterMap fun e => e.call.part

/-- What an assembly that ends with `o` has passed to S3 of `datas`: all of them, in order
and numbered from 1, or those up to the part that S3 has refused. -/
structure PassesOn (datas : List Bytes) (o : Except Exn (List Part)) (t : Trace Collab) :
    Prop where
  upTo : passedParts t <+: asParts datas
  all : ∀ parts, o = .ok parts → passedParts t = asParts datas
  refused : ∀ x, o = .error x → ∃ before c, c.part.isSome ∧ t = before ++ [⟨c, .error x⟩]

section Loops

variable {json : Json} {others : Others} {redis : TimedRedis} {sid : UUID} {datas : List Bytes}
  {t : Trace Collab}

/-- One step of the stream. -/
theorem exec_getStream_serve {index : Nat} {found : Option Bytes}
    (hfound : redis.payload? sid index = found) (t : Trace Collab) :
    Exec (answersOf (serveFrom json others)) (ChunkRepository.getStream sid index) (redis, t)
      (.ok (found.map fun data => (data, index + 1)))
      (redis, t ++ [⟨.chunkPull sid index, .ok (redis.live.get (chunkKey sid index))⟩]) := by
  subst hfound
  rw [ChunkRepository.getStream, exec_await_bind, TimedRedis.payload?]
  simp only [serveFrom, answerFrom, onOk_ok]
  cases redis.live.get (chunkKey sid index) with
  | none => exact ⟨rfl, rfl⟩
  | some data =>
      by_cases hempty : data = []
      · simp [hempty]
      · simp [hempty, Option.filter]

variable {v : UploadSession} {u n : Nat} {parts : List Part}

/-- `get` is asked for the chunk that becomes part `n + 1`. -/
theorem exec_partRound_serve {found : Option Chunk}
    (hfound : Keyspace.RedisChunkRepository.get json redis.live sid n = found)
    {o : Except Exn ((Nat × List Part) ⊕ List Part)} {w' : TimedRedis × Trace Collab}
    (hrest : Exec (answersOf (serveFrom json others)) (match found with
      | none => pure (.inr parts)
      | some chunk => do
          let part ← ObjectStorage.uploadPart v.tenantId v.fileId u (n + 1) chunk.rawBytes
          pure (.inl (n + 1 + 1, parts ++ [part])))
      (redis, t ++ [⟨.chunkGet sid n, .ok found⟩]) o w') :
    Exec (answersOf (serveFrom json others)) (partRound v sid u (n + 1, parts)) (redis, t) o
      w' := by
  unfold partRound ChunkRepository.get
  dsimp only
  generalize hindex : ((n + 1 : Nat) : Int) - 1 = index
  obtain rfl : index = n := by omega
  rw [exec_await_bind]
  simp only [serveFrom, answerFrom, onOk_ok, hfound]
  cases found with
  | none => exact hrest
  | some chunk => exact hrest

theorem asParts_prefix (sent rest : List Bytes) : asParts sent <+: asParts (sent ++ rest) := by
  rw [asParts, asParts, List.mapIdx_append]
  exact List.prefix_append _ _

/-- The assembly from chunk `sent.length` on. -/
theorem rounds_assembly (hpaired : ∀ i, Pair json redis sid i) {sent rest : List Bytes}
    (hrun : RunFrom (fun k : Nat => redis.payload? sid k) sent.length rest)
    (hsent : passedParts t = asParts sent) (parts : List Part) :
    ∃ o t', Rounds (fun s => Exec (answersOf (serveFrom json others)) (partRound v sid u s))
      (sent.length + 1, parts) (redis, t) o (redis, t') ∧ PassesOn (sent ++ rest) o t' := by
  have hfound := (hpaired sent.length).get
  -- over the chunks left; those before them are the parts sent so far
  induction rest generalizing sent parts t with
  | nil =>
      have hgap : redis.payload? sid sent.length = none := hrun
      rw [hgap, Option.map_eq_none_iff] at hfound
      have hpassed : passedParts (t ++ [⟨.chunkGet sid sent.length, .ok none⟩]) =
          asParts (sent ++ []) := by
        rw [List.append_nil, ← hsent]
        simp [passedParts, Call.part]
      refine ⟨_, _, .stop (exec_partRound_serve hfound ⟨rfl, rfl⟩), ?_, ?_, ?_⟩
      · rw [hpassed]
      · exact fun _ _ => hpassed
      · exact fun _ hx => by cases hx
  | cons data rest ih =>
      have hdata : redis.payload? sid sent.length = some data := hrun.1
      rw [hdata, Option.map_eq_some_iff] at hfound
      rcases hfound with ⟨chunk, hget, rfl⟩
      -- what S3 answers to the next part
      let up : Call := .uploadPart v.tenantId v.fileId u (sent.length + 1) chunk.rawBytes
      let t₁ : Trace Collab := t ++ [⟨.chunkGet sid sent.length, .ok (some chunk)⟩]
      have hpassed : passedParts (t₁ ++ [⟨up, others t₁ up⟩]) =
          asParts (sent ++ [chunk.rawBytes]) := by
        rw [asParts_append, ← hsent]
        simp [passedParts, Call.part, t₁, up]
      have hround : ∀ o, Exec (answersOf (serveFrom json others)) (onOk (fun part : Part =>
          pure (.inl (sent.length + 1 + 1, parts ++ [part]))) (others t₁ up))
          (redis, t₁ ++ [⟨up, others t₁ up⟩]) o (redis, t₁ ++ [⟨up, others t₁ up⟩]) →
          Exec (answersOf (serveFrom json others)) (partRound v sid u (sent.length + 1, parts))
            (redis, t) o (redis, t₁ ++ [⟨up, others t₁ up⟩]) := fun o ho =>
        exec_partRound_serve hget ((exec_await_bind up _ o).2 ho)
      have hjoin : sent ++ chunk.rawBytes :: rest = (sent ++ [chunk.rawBytes]) ++ rest := by simp
      rw [hjoin]
      -- a refusal ends the loop with a prefix passed on
      cases hr : others t₁ up with
      | error x =>
          rw [hr] at hround hpassed
          refine ⟨.error x, _, .fail (hround _ ⟨rfl, rfl⟩), ?_, ?_, ?_⟩
          · rw [hpassed]
            exact asParts_prefix _ rest
          · exact fun _ hx => by cases hx
          · intro y hy
            cases hy
            exact ⟨t₁, up, rfl, rfl⟩
      | ok part =>
          rw [hr] at hround hpassed
          have hlength : (sent ++ [chunk.rawBytes]).length = sent.length + 1 := by simp
          have hrest : RunFrom (fun k : Nat => redis.payload? sid k)
              (sent ++ [chunk.rawBytes]).length rest := hlength ▸ hrun.2
          rcases ih hrest hpassed (parts ++ [part]) (hpaired _).get with ⟨o, t', hrounds, hpasses⟩
          rw [hlength] at hrounds
          exact ⟨o, t', .again (hround _ ⟨rfl, rfl⟩) hrounds, hpasses⟩

end Loops

/-! ## Agreement -/

/-- The two readers agree: after any sequence of saves and deletions, with time passing in
between, the stream ends and has yielded the run of non-empty chunks at 0, 1, 2, …, and
the assembly ends and has passed them on as parts 1, 2, …, whatever S3 answers. -/
theorem readers_agree (json : Json) (ttl now : Nat) {ops : List CacheOp}
    (hops : ∀ op ∈ ops, op.Decodes json) (others : Others) (sid : UUID)
    (session : UploadSession) (uploadId : Nat) :
    ∃ datas, RunFrom (fun k : Nat => (CacheOp.history json ttl now ops).payload? sid k) 0 datas ∧
      (∃ t, Halts (serveFrom json others) (collect (ChunkRepository.getStream sid) 0)
        (CacheOp.history json ttl now ops, []) (.ok datas) (CacheOp.history json ttl now ops, t)) ∧
      ∃ o t, Halts (serveFrom json others)
        (FinalizeUploadUseCase.uploadParts session sid uploadId)
        (CacheOp.history json ttl now ops, []) o (CacheOp.history json ttl now ops, t) ∧
          PassesOn datas o t := by
  have hpaired := paired_history hops ttl now
  generalize CacheOp.history json ttl now ops = redis at hpaired ⊢
  -- the store is finite: the run ends
  have hrun : RunFrom (fun k : Nat => redis.payload? sid k) 0
      (Keyspace.RedisChunkRepository.getStream redis.live sid) :=
    streamFrom_run (length_getStream_lt redis.live sid)
  refine ⟨_, hrun, ?_, ?_⟩
  · -- reading leaves the store as it is
    have hstep : ∀ (index : Nat) (s : TimedRedis × Trace Collab), s.1 = redis → ∃ s',
        Exec (answersOf (serveFrom json others)) (ChunkRepository.getStream sid index) s
          (.ok ((redis.payload? sid index).map fun data => (data, index + 1))) s' ∧
            s'.1 = redis := by
      rintro index ⟨_, t⟩ rfl
      exact ⟨_, exec_getStream_serve rfl t, rfl⟩
    rcases rounds_collect hstep hrun [] (w := (redis, [])) rfl with ⟨⟨_, t⟩, hrounds, rfl⟩
    exact ⟨t, halts_of_exec ((exec_loop _ _ _).2 hrounds)⟩
  · have hempty : passedParts [] = asParts [] := rfl
    have hstart : RunFrom (fun k : Nat => redis.payload? sid k) ([] : List Bytes).length
        (Keyspace.RedisChunkRepository.getStream redis.live sid) := hrun
    rcases rounds_assembly (hpaired sid) hstart hempty [] with ⟨o, t, hrounds, hpasses⟩
    rw [uploadParts_eq]
    exact ⟨o, t, halts_of_exec ((exec_loop _ _ _).2 hrounds), hpasses⟩

namespace Demo

/-- A byte, an empty chunk and a chunk below zero, those of another session deleted again,
and an hour has passed. -/
def cacheOps : List CacheOp :=
  [.save sid ⟨0, 1, sha256 a, a⟩, .save sid ⟨1, 0, sha256 [], []⟩, .save tenant (chunkBelow a),
    .save sid (chunkBelow a), .deleteAll tenant, .wait 3600000]

/-- S3 takes every part. -/
def takesParts : Others
  | _, .uploadPart _ _ _ n data => .ok ⟨env.etag data, n⟩
  | _, c => failed "unreachable" c

end Demo

/-- Both readers find the one byte. -/
theorem readers_agree_demo :
    ∃ datas, datas = [Demo.a] ∧
      (∃ t, Halts (serveFrom Demo.json Demo.takesParts)
        (collect (ChunkRepository.getStream Demo.sid) 0)
        (CacheOp.history Demo.json RedisChunkRepository.ttl 0 Demo.cacheOps, []) (.ok datas)
        (CacheOp.history Demo.json RedisChunkRepository.ttl 0 Demo.cacheOps, t)) ∧
      ∃ o t, Halts (serveFrom Demo.json Demo.takesParts)
        (FinalizeUploadUseCase.uploadParts Demo.session Demo.sid 0)
        (CacheOp.history Demo.json RedisChunkRepository.ttl 0 Demo.cacheOps, []) o
        (CacheOp.history Demo.json RedisChunkRepository.ttl 0 Demo.cacheOps, t) ∧
          PassesOn datas o t := by
  have hops : ∀ op ∈ Demo.cacheOps, op.Decodes Demo.json := by decide +kernel
  have hzero : (CacheOp.history Demo.json RedisChunkRepository.ttl 0 Demo.cacheOps).payload?
      Demo.sid (0 : Nat) = some Demo.a := by decide +kernel
  have hone : (CacheOp.history Demo.json RedisChunkRepository.ttl 0 Demo.cacheOps).payload?
      Demo.sid (1 : Nat) = none := by decide +kernel
  rcases readers_agree Demo.json RedisChunkRepository.ttl 0 hops Demo.takesParts Demo.sid
    Demo.session 0 with ⟨datas, hrun, hread⟩
  have hdatas : datas = [Demo.a] := hrun.unique ⟨hzero, hone⟩
  exact ⟨datas, hdatas, hread⟩

end FileUploader
