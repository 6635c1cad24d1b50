import FileUploader.Store.Runs
import FileUploader.Serial

/-! # The run of cached chunks

The chunks of a session at 0, 1, 2, … up to the first one that is absent or empty:
what a finalize scans and assembles.
-/

namespace FileUploader

open Await

variable {env : Env}

/-! ## What both passes find -/

/-- The payload that both passes of a finalize find at index `k`. -/
def World.payload? (w : World) (sid : UUID) (k : Nat) : Option Bytes :=
  (w.chunk? sid k).filter (· ≠ [])

/-- The payload that the assembly finds there. -/
def World.fetched? (w : World) (sid : UUID) (k : Nat) : Option Bytes :=
  (RedisChunkRepository.get w sid k).map (·.rawBytes)

section Payloads

variable {w : World} {sid : UUID} {k : Nat} {data : Bytes} {datas : List Bytes}

/-- The stream goes on where a chunk is cached that is not empty. -/
theorem payload?_eq_some :
    w.payload? sid k = some data ↔ w.chunk? sid k = some data ∧ data ≠ [] := by
  simp [World.payload?, Option.filter_eq_some_iff]

/-- It stops where there is none, and at an empty one. -/
theorem payload?_eq_none :
    w.payload? sid k = none ↔ w.chunk? sid k = none ∨ w.chunk? sid k = some [] := by
  cases h : w.chunk? sid k with
  | none => simp [World.payload?, h]
  | some data => simp [World.payload?, h]

/-- The stream of the scanner is a run of payloads. -/
theorem streamedFrom_iff : StreamedFrom w sid k datas ↔ RunFrom (w.payload? sid) k datas := by
  induction datas generalizing k with
  | nil => exact payload?_eq_none.symm
  | cons data datas ih =>
      rw [StreamedFrom, RunFrom, ih, payload?_eq_some, and_assoc]

/-- What the assembly fetches is a run of chunks that have their metadata. -/
theorem fetchedFrom_iff_run : FetchedFrom w sid k datas ↔ RunFrom (w.fetched? sid) k datas := by
  induction datas generalizing k with
  | nil => rw [FetchedFrom, RunFrom, World.fetched?, Option.map_eq_none_iff]
  | cons data datas ih =>
      refine and_congr ?_ ih
      rw [World.fetched?, Option.map_eq_some_iff]

theorem chunk?_of_fetched? (h : w.fetched? sid k = some data) : w.chunk? sid k = some data := by
  rcases Option.map_eq_some_iff.1 h with ⟨chunk, hget, hdata⟩
  unfold RedisChunkRepository.get at hget
  split at hget
  · rename_i rawBytes chunkMeta hchunk _
    split at hget
    · cases hget
    · cases hget
      rw [hchunk, ← hdata]
  · cases hget

/-- With its metadata, a chunk is fetched as it is streamed. -/
theorem fetched?_eq_payload?
    (hpaired : ∀ i, (w.chunkMeta? sid i).isSome = (w.chunk? sid i).isSome) :
    w.fetched? sid = w.payload? sid := by
  funext k
  have hmeta := hpaired k
  unfold World.fetched? RedisChunkRepository.get World.payload?
  cases hchunk : w.chunk? sid k with
  | none => rfl
  | some data =>
      rw [hchunk] at hmeta
      rcases Option.isSome_iff_exists.1 hmeta with ⟨chunkMeta, hm⟩
      rw [hm]
      by_cases hempty : data = []
      · simp [hempty, Option.filter]
      · simp [hempty, Option.filter]

/-- Where chunks and metadata come in pairs, both loops see the same run. -/
theorem fetchedFrom_iff (hpaired : ∀ i, (w.chunkMeta? sid i).isSome = (w.chunk? sid i).isSome) :
    FetchedFrom w sid k datas ↔ RunFrom (w.payload? sid) k datas := by
  rw [fetchedFrom_iff_run, fetched?_eq_payload? hpaired]

end Payloads

/-! ## Exactly these chunks -/

/-- What is cached for `sid` are these payloads, at 0, 1, 2, …, and nothing else. -/
structure Caches (w : World) (sid : UUID) (datas : List Bytes) : Prop where
  chunk : ∀ i, w.chunk? sid i = if 0 ≤ i then datas[i.toNat]? else none
  nonempty : ∀ data ∈ datas, data ≠ []

section Caches

variable {w w' : World} {sid : UUID} {data : Bytes} {datas : List Bytes}

/-- The run of a list that is cached as it is. -/
theorem Caches.run (h : Caches w sid datas) : RunFrom (w.payload? sid) 0 datas := by
  refine runFrom_iff.2 fun n _ => ?_
  have hchunk : w.chunk? sid (n : Int) = datas[n]? := by
    rw [h.chunk, if_pos (Int.natCast_nonneg n), Int.toNat_natCast]
  rw [Nat.zero_add]
  cases hn : datas[n]? with
  | none => exact payload?_eq_none.2 (Or.inl (hchunk.trans hn))
  | some data =>
      exact payload?_eq_some.2 ⟨hchunk.trans hn, h.nonempty data (List.mem_of_getElem? hn)⟩

/-- Nothing is cached outside the run. -/
theorem Caches.bounds (h : Caches w sid datas) {i : Int} (hi : w.chunk? sid i = some data) :
    0 ≤ i ∧ i < datas.length ∧ datas[i.toNat]? = some data := by
  rw [h.chunk] at hi
  by_cases hneg : 0 ≤ i
  · rw [if_pos hneg] at hi
    have hlt := (List.getElem?_eq_some_iff.1 hi).1
    exact ⟨hneg, by omega, hi⟩
  · rw [if_neg hneg] at hi
    cases hi

/-- A run with nothing cached outside it is all that is cached. -/
theorem Caches.of_run (hrun : RunFrom (w.payload? sid) 0 datas)
    (hbounds : ∀ i data, w.chunk? sid i = some data → 0 ≤ i ∧ i < datas.length) :
    Caches w sid datas := by
  have hchunk : ∀ n < datas.length, ∃ data, datas[n]? = some data ∧
      w.chunk? sid n = some data ∧ data ≠ [] := by
    intro n hn
    have hpayload := runFrom_iff.1 hrun n (Nat.le_of_lt hn)
    rw [Nat.zero_add, List.getElem?_eq_getElem hn] at hpayload
    exact ⟨_, List.getElem?_eq_getElem hn, payload?_eq_some.1 hpayload⟩
  refine ⟨fun i => ?_, fun data hdata => ?_⟩
  · cases hi : w.chunk? sid i with
    | none =>
        by_cases hneg : 0 ≤ i
        · rw [if_pos hneg]
          rcases Nat.lt_or_ge i.toNat datas.length with hlt | hge
          · rcases hchunk i.toNat hlt with ⟨data, _, hdata, _⟩
            rw [Int.toNat_of_nonneg hneg, hi] at hdata
            cases hdata
          · rw [List.getElem?_eq_none hge]
        · rw [if_neg hneg]
    | some data =>
        rcases hbounds i data hi with ⟨hneg, hlt⟩
        rcases hchunk i.toNat (by omega) with ⟨data', hget, hdata', _⟩
        rw [Int.toNat_of_nonneg hneg, hi] at hdata'
        rw [if_pos hneg, hget, hdata']
  · rcases List.getElem?_of_mem hdata with ⟨n, hn⟩
    rcases hchunk n (List.getElem?_eq_some_iff.1 hn).1 with ⟨data', hget, _, hne⟩
    cases hget.symm.trans hn
    exact hne

theorem Caches.same (h : Caches w sid datas) (hsame : ∀ i, w'.chunk? sid i = w.chunk? sid i) :
    Caches w' sid datas :=
  ⟨fun i => (hsame i).trans (h.chunk i), h.nonempty⟩

/-- The next chunk of the run. -/
theorem Caches.append (h : Caches w sid datas) (hne : data ≠ [])
    (hstored : ChunkStored env sid datas.length data w w') : Caches w' sid (datas ++ [data]) := by
  refine ⟨fun i => ?_, fun d hd => ?_⟩
  · rw [hstored.chunk, h.chunk]
    by_cases hi : i = datas.length
    · subst hi
      rw [if_pos rfl, if_pos (Int.natCast_nonneg _), Int.toNat_natCast,
        List.getElem?_concat_length]
    · rw [if_neg hi]
      by_cases hneg : 0 ≤ i
      · rw [if_pos hneg, if_pos hneg]
        rcases Nat.lt_or_ge i.toNat datas.length with hlt | hge
        · rw [List.getElem?_append_left hlt]
        · rw [List.getElem?_eq_none hge, List.getElem?_eq_none (by simp; omega)]
      · rw [if_neg hneg, if_neg hneg]
  · rcases List.mem_append.1 hd with hd | hd
    · exact h.nonempty d hd
    · rw [List.mem_singleton.1 hd]
      exact hne

/-- A chunk of the run is replaced by one of the same length. -/
theorem Caches.replace (h : Caches w sid datas) {i : Int} {old : Bytes}
    (hold : w.chunk? sid i = some old) (hlength : old.length = data.length)
    (hstored : ChunkStored env sid i data w w') :
    ∃ datas', Caches w' sid datas' ∧ datas'.flatten.length = datas.flatten.length := by
  rcases h.bounds hold with ⟨hneg, hlt, hget⟩
  have hsame := length_flatten_set (a := data) (List.getElem?_eq_some_iff.1 hget).1
  rw [(List.getElem?_eq_some_iff.1 hget).2, hlength] at hsame
  refine ⟨datas.set i.toNat data, ⟨fun j => ?_, fun d hd => ?_⟩, ?_⟩
  · rw [hstored.chunk, h.chunk]
    by_cases hj : j = i
    · subst hj
      rw [if_pos rfl, if_pos hneg, List.getElem?_set_self (by omega)]
    · rw [if_neg hj]
      by_cases hneg' : 0 ≤ j
      · rw [if_pos hneg', if_pos hneg', List.getElem?_set_ne (by omega)]
      · rw [if_neg hneg', if_neg hneg']
  · rcases List.mem_or_eq_of_mem_set hd with hd | rfl
    · exact h.nonempty d hd
    · have hne := h.nonempty old (List.mem_of_getElem? hget)
      intro hempty
      rw [hempty, List.length_nil] at hlength
      exact hne (List.eq_nil_of_length_eq_zero hlength)
  · omega

/-- If what is cached after storing a chunk is again a run, the chunk is the next one
or in the place of another. -/
theorem Caches.stored_cases {datas' : List Bytes} {i : Int} (h : Caches w sid datas)
    (h' : Caches w' sid datas') (hstored : ChunkStored env sid i data w w') : data ≠ [] ∧
      ((i = datas.length ∧ datas'.flatten.length = datas.flatten.length + data.length) ∨
        ∃ old, w.chunk? sid i = some old ∧ old ≠ [] ∧
          datas'.flatten.length + old.length = datas.flatten.length + data.length) := by
  have hdata : w'.chunk? sid i = some data := by rw [hstored.chunk, if_pos rfl]
  rcases h'.bounds hdata with ⟨hneg, hlt, hget⟩
  refine ⟨h'.nonempty data (List.mem_of_getElem? hget), ?_⟩
  -- index by index
  have hplaces : ∀ n : Nat, datas'[n]? = if n = i.toNat then some data else datas[n]? := by
    intro n
    have hn := hstored.chunk n
    rw [h'.chunk, h.chunk, if_pos (Int.natCast_nonneg n), if_pos (Int.natCast_nonneg n),
      Int.toNat_natCast] at hn
    rw [hn]
    by_cases hi : n = i.toNat
    · rw [if_pos hi, if_pos (by omega)]
    · rw [if_neg hi, if_neg (by omega)]
  -- where the chunk is stored: in the run, at its end, or beyond
  rcases Nat.lt_trichotomy i.toNat datas.length with hin | hnext | hout
  · refine Or.inr ⟨datas[i.toNat], ?_, h.nonempty _ (List.getElem_mem hin), ?_⟩
    · rw [h.chunk, if_pos hneg, List.getElem?_eq_getElem hin]
    · have hset : datas' = datas.set i.toNat data := by
        apply List.ext_getElem?
        intro n
        rw [hplaces, List.getElem?_set]
        by_cases hi : n = i.toNat
        · subst hi
          rw [if_pos rfl, if_pos rfl, if_pos hin]
        · rw [if_neg hi, if_neg (fun hs => hi hs.symm)]
      rw [hset]
      exact length_flatten_set hin
  · have happend : datas' = datas ++ [data] := by
      apply List.ext_getElem?
      intro n
      rw [hplaces, hnext]
      by_cases hi : n = datas.length
      · subst hi
        rw [if_pos rfl, List.getElem?_concat_length]
      · rw [if_neg hi]
        rcases Nat.lt_or_ge n datas.length with hlt | hge
        · rw [List.getElem?_append_left hlt]
        · rw [List.getElem?_eq_none hge, List.getElem?_eq_none (by simp; omega)]
    refine Or.inl ⟨by omega, ?_⟩
    rw [happend]
    simp
  · -- there is a gap before it
    have hgap := hplaces datas.length
    rw [if_neg (by omega), List.getElem?_eq_none (Nat.le_refl _),
      List.getElem?_eq_none_iff] at hgap
    omega

end Caches

end FileUploader
