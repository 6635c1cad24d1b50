import Mathlib
import FileUploader.Domain

/-! # The keys in Redis

Sessions, locks, chunks, chunk metadata and dedup entries share one keyspace, under keys
of five formats. No two of them collide, whatever the ids, indices and checksums are.
-/

namespace FileUploader

/-! ## Printed UUIDs -/

/-- The value of a hexadecimal digit. -/
def hexDigit? (c : Char) : Option Nat :=
  if '0' ≤ c ∧ c ≤ '9' then some (c.toNat - '0'.toNat)
  else if 'a' ≤ c ∧ c ≤ 'f' then some (c.toNat - 'a'.toNat + 10)
  else if 'A' ≤ c ∧ c ≤ 'F' then some (c.toNat - 'A'.toNat + 10)
  else none

/-- `int(digits, 16)`, for a string of digits. -/
def ofHex (digits : List Char) : Option Nat :=
  digits.foldlM (fun n c => (hexDigit? c).map fun d => 16 * n + d) 0

/-- `UUID(s)`, for an `s` of hexadecimal digits and dashes; `none` where it raises. -/
def UUID.ofStr (s : String) : Option UUID :=
  let hex := s.toList.filter (· ≠ '-')
  if hex.length = 32 then (ofHex hex).map fun n => ⟨BitVec.ofNat 128 n⟩ else none

section Printed

variable (u v : UUID)

theorem hexDigit?_digitChar : ∀ d < 16, hexDigit? (Nat.digitChar d) = some d := by decide

theorem digitChar_ne_dash : ∀ d < 16, Nat.digitChar d ≠ '-' := by decide

@[simp] theorem length_hex : u.hex.length = 32 := by simp [UUID.hex]

theorem ne_dash_of_mem_hex {c : Char} (h : c ∈ u.hex) : c ≠ '-' := by
  rcases List.mem_map.1 h with ⟨i, _, rfl⟩
  exact digitChar_ne_dash _ (Nat.mod_lt _ (by decide))

/-- The first `k` digits are the `k` highest. -/
theorem ofHex_take {n : Nat} (hn : n < 16 ^ 32) {k : Nat} (hk : k ≤ 32) :
    ofHex ((List.range k).map fun i => Nat.digitChar (n / 16 ^ (31 - i) % 16)) =
      some (n / 16 ^ (32 - k)) := by
  induction k with
  | zero =>
      rw [Nat.div_eq_of_lt hn]
      rfl
  | succ k ih =>
      have hprev := ih (Nat.le_of_succ_le hk)
      simp only [ofHex] at hprev ⊢
      rw [List.range_succ, List.map_append, List.foldlM_append, hprev]
      have hdigit := hexDigit?_digitChar (n / 16 ^ (31 - k) % 16) (Nat.mod_lt _ (by decide))
      have hpow : 32 - k = (31 - k) + 1 := by omega
      have hstep : 16 * (n / 16 ^ (32 - k)) + n / 16 ^ (31 - k) % 16 = n / 16 ^ (31 - k) := by
        rw [hpow, Nat.pow_succ, ← Nat.div_div_eq_div_mul]
        exact Nat.div_add_mod _ 16
      simp [hdigit, hstep]

theorem ofHex_hex : ofHex u.hex = some u.int.toNat := by
  have hdigits : u.hex =
      (List.range 32).map fun i => Nat.digitChar (u.int.toNat / 16 ^ (31 - i) % 16) := by
    refine List.map_congr_left fun i _ => ?_
    rw [BitVec.toNat_ushiftRight, Nat.shiftRight_eq_div_pow, Nat.pow_mul]
  rw [hdigits, ofHex_take (by simpa using u.int.isLt) (Nat.le_refl 32)]
  simp

theorem str_toList : u.str.toList = u.hex.take 8 ++ '-' :: (u.hex.drop 8).take 4 ++
    '-' :: (u.hex.drop 12).take 4 ++ '-' :: (u.hex.drop 16).take 4 ++ '-' :: u.hex.drop 20 := by
  simp [UUID.str]

@[simp] theorem length_str : u.str.toList.length = 36 := by
  simp [str_toList]

/-- The digits are what is left without the dashes. -/
theorem filter_str : u.str.toList.filter (· ≠ '-') = u.hex := by
  have hkeep : ∀ cs : List Char, (∀ c ∈ cs, c ∈ u.hex) → cs.filter (· ≠ '-') = cs :=
    fun cs hcs => List.filter_eq_self.2 fun c hc => by
      simpa using ne_dash_of_mem_hex u (hcs c hc)
  have hdrop : ∀ k, ∀ c ∈ (u.hex.drop k).take 4, c ∈ u.hex :=
    fun k c hc => List.mem_of_mem_drop (List.mem_of_mem_take hc)
  simp only [str_toList, List.filter_append, List.filter_cons, ne_eq, not_true_eq_false,
    decide_false, Bool.false_eq_true, if_false]
  simp only [ne_eq] at hkeep
  rw [hkeep _ fun c hc => List.mem_of_mem_take hc, hkeep _ (hdrop 8), hkeep _ (hdrop 12),
    hkeep _ (hdrop 16), hkeep _ fun c hc => List.mem_of_mem_drop hc]
  have hjoin : ∀ k, (u.hex.drop k).take 4 ++ u.hex.drop (k + 4) = u.hex.drop k := by
    intro k
    rw [← List.drop_drop]
    exact List.take_append_drop 4 _
  rw [List.append_assoc, hjoin 16, List.append_assoc, hjoin 12, List.append_assoc, hjoin 8]
  exact List.take_append_drop 8 _

/-- A UUID is read back from how it is printed. -/
theorem ofStr_str : UUID.ofStr u.str = some u := by
  simp only [UUID.ofStr, filter_str, length_hex, if_true, ofHex_hex, Option.map_some]
  rw [BitVec.ofNat_toNat, BitVec.setWidth_eq]

variable {u v}

theorem UUID.str_injective (h : u.str = v.str) : u = v := by
  have hread := ofStr_str u
  rw [h, ofStr_str] at hread
  exact (Option.some.inj hread).symm

end Printed

/-! ## The five formats -/

/-- `_session_key` -/
def sessionKey (sessionId : UUID) : String := s!"session:upload:{sessionId.str}"

/-- `_lock_key` -/
def lockKey (sessionId : UUID) : String := s!"lock:upload:{sessionId.str}"

/-- `_chunk_key` -/
def chunkKey (sessionId : UUID) (index : Int) : String :=
  s!"upload:{sessionId.str}:chunk:{index}"

/-- `_chunk_meta_key` -/
def chunkMetaKey (sessionId : UUID) (index : Int) : String :=
  s!"upload:{sessionId.str}:chunk_meta:{index}"

/-- `_dedup_key` -/
def dedupKey (tenantId : UUID) (checksum : String) : String :=
  s!"dedup:{tenantId.str}:{checksum}"

/-- The pattern of `delete_all`, up to its `*`. -/
def chunkPattern (sessionId : UUID) : String := s!"upload:{sessionId.str}:"

/-- The key starts with the literal part of the pattern. -/
def matchesPattern (pattern key : String) : Bool := pattern.toList.isPrefixOf key.toList

/-- What a key is for. -/
inductive Key where
  | session (sessionId : UUID)
  | lock (sessionId : UUID)
  | chunk (sessionId : UUID) (index : Int)
  | chunkMeta (sessionId : UUID) (index : Int)
  | dedup (tenantId : UUID) (checksum : String)
deriving DecidableEq

namespace Key

def str : Key → String
  | .session sid => sessionKey sid
  | .lock sid => lockKey sid
  | .chunk sid i => chunkKey sid i
  | .chunkMeta sid i => chunkMetaKey sid i
  | .dedup t cs => dedupKey t cs

/-- The key is one of the chunk keys of the session. -/
def ofChunks (sid : UUID) : Key → Bool
  | .chunk sid' _ | .chunkMeta sid' _ => sid' = sid
  | _ => false

variable (sid : UUID) (i : Int)

theorem session_toList : (session sid).str.toList =
    ['s', 'e', 's', 's', 'i', 'o', 'n', ':', 'u', 'p', 'l', 'o', 'a', 'd', ':'] ++
      sid.str.toList := by
  simp [str, sessionKey, toString]

theorem lock_toList : (lock sid).str.toList =
    ['l', 'o', 'c', 'k', ':', 'u', 'p', 'l', 'o', 'a', 'd', ':'] ++ sid.str.toList := by
  simp [str, lockKey, toString]

theorem chunk_toList : (chunk sid i).str.toList =
    ['u', 'p', 'l', 'o', 'a', 'd', ':'] ++ (sid.str.toList ++
      ([':', 'c', 'h', 'u', 'n', 'k', ':'] ++ i.repr.toList)) := by
  simp [str, chunkKey, toString]

theorem chunkMeta_toList : (chunkMeta sid i).str.toList =
    ['u', 'p', 'l', 'o', 'a', 'd', ':'] ++ (sid.str.toList ++
      ([':', 'c', 'h', 'u', 'n', 'k', '_', 'm', 'e', 't', 'a', ':'] ++ i.repr.toList)) := by
  simp [str, chunkMetaKey, toString]

theorem dedup_toList (t : UUID) (cs : String) : (dedup t cs).str.toList =
    ['d', 'e', 'd', 'u', 'p', ':'] ++ (t.str.toList ++ (':' :: cs.toList)) := by
  simp [str, dedupKey, toString]

/-- The kind of a key shows in its first letter. -/
def initial : Key → Char
  | .session _ => 's'
  | .lock _ => 'l'
  | .chunk .. | .chunkMeta .. => 'u'
  | .dedup .. => 'd'

theorem head_str (k : Key) : k.str.toList.head? = some k.initial := by
  cases k with
  | session sid => simp [session_toList, initial]
  | lock sid => simp [lock_toList, initial]
  | chunk sid i => simp [chunk_toList, initial]
  | chunkMeta sid i => simp [chunkMeta_toList, initial]
  | dedup t cs => simp [dedup_toList, initial]

/-- Printed ids have one length: an id in front of equal texts is the same id. -/
theorem id_inj {u v : UUID} {xs ys : List Char} (h : u.str.toList ++ xs = v.str.toList ++ ys) :
    u = v ∧ xs = ys := by
  rcases List.append_inj h (by simp) with ⟨hid, hrest⟩
  exact ⟨UUID.str_injective (String.toList_inj.1 hid), hrest⟩

/-- No two keys collide. -/
theorem str_injective {k k' : Key} (h : k.str = k'.str) : k = k' := by
  have hl : k.str.toList = k'.str.toList := congrArg String.toList h
  have hinitial : k.initial = k'.initial := by
    rw [← Option.some.injEq, ← head_str, ← head_str, hl]
  cases k with
  | session sid =>
      cases k' with
      | session sid' =>
          rw [session_toList, session_toList] at hl
          have hid := List.append_cancel_left hl
          rw [UUID.str_injective (String.toList_inj.1 hid)]
      | _ => cases hinitial
  | lock sid =>
      cases k' with
      | lock sid' =>
          rw [lock_toList, lock_toList] at hl
          have hid := List.append_cancel_left hl
          rw [UUID.str_injective (String.toList_inj.1 hid)]
      | _ => cases hinitial
  | chunk sid i =>
      cases k' with
      | chunk sid' j =>
          rw [chunk_toList, chunk_toList] at hl
          rcases id_inj (List.append_cancel_left hl) with ⟨rfl, hrest⟩
          have hindex := List.append_cancel_left hrest
          rw [Int.repr_injective (String.toList_inj.1 hindex)]
      | chunkMeta sid' j =>
          -- after the id, `:chunk:` against `:chunk_`
          rw [chunk_toList, chunkMeta_toList] at hl
          rcases id_inj (List.append_cancel_left hl) with ⟨_, hrest⟩
          simp at hrest
      | _ => cases hinitial
  | chunkMeta sid i =>
      cases k' with
      | chunkMeta sid' j =>
          rw [chunkMeta_toList, chunkMeta_toList] at hl
          rcases id_inj (List.append_cancel_left hl) with ⟨rfl, hrest⟩
          have hindex := List.append_cancel_left hrest
          rw [Int.repr_injective (String.toList_inj.1 hindex)]
      | chunk sid' j =>
          rw [chunkMeta_toList, chunk_toList] at hl
          rcases id_inj (List.append_cancel_left hl) with ⟨_, hrest⟩
          simp at hrest
      | _ => cases hinitial
  | dedup t cs =>
      cases k' with
      | dedup t' cs' =>
          rw [dedup_toList, dedup_toList] at hl
          rcases id_inj (List.append_cancel_left hl) with ⟨rfl, hrest⟩
          rw [String.toList_inj.1 (List.cons.inj hrest).2]
      | _ => cases hinitial

theorem str_inj {k k' : Key} : k.str = k'.str ↔ k = k' :=
  ⟨str_injective, congrArg str⟩

/-- The pattern of a session matches its chunk keys and no other key. -/
theorem matches_iff (k : Key) : matchesPattern (chunkPattern sid) k.str = k.ofChunks sid := by
  have hpattern : (chunkPattern sid).toList =
      ['u', 'p', 'l', 'o', 'a', 'd', ':'] ++ (sid.str.toList ++ [':']) := by
    simp [chunkPattern, toString]
  rw [Bool.eq_iff_iff, matchesPattern, List.isPrefixOf_iff_prefix, hpattern]
  -- for a chunk key what is left to compare are the ids
  have hid : ∀ (sid' : UUID) (rest : List Char),
      ['u', 'p', 'l', 'o', 'a', 'd', ':'] ++ (sid.str.toList ++ [':']) <+:
        ['u', 'p', 'l', 'o', 'a', 'd', ':'] ++ (sid'.str.toList ++ (':' :: rest)) ↔
      sid' = sid := by
    intro sid' rest
    rw [List.prefix_append_right_inj]
    constructor
    · intro h
      rcases h with ⟨more, h⟩
      rw [List.append_assoc] at h
      exact (id_inj h).1.symm
    · intro h
      subst h
      exact (List.prefix_append_right_inj _).2 ⟨rest, rfl⟩
  -- other keys differ from the pattern in their first letters
  cases k with
  | session sid' => simp [session_toList, ofChunks]
  | lock sid' => simp [lock_toList, ofChunks]
  | chunk sid' i =>
      rw [chunk_toList]
      exact (hid sid' _).trans (by simp [ofChunks])
  | chunkMeta sid' i =>
      rw [chunkMeta_toList]
      exact (hid sid' _).trans (by simp [ofChunks])
  | dedup t cs => simp [dedup_toList, ofChunks]

end Key

end FileUploader
