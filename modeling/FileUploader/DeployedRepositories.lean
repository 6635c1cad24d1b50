import FileUploader.ChunkReaders
import FileUploader.DeployedServer

/-! # The deployed repositories

The two repositories and the registry, used one call after the other by whoever needs them, in
the commands that they send to one keyspace of texts. Whatever time passes in between, they
answer exactly as five expiring maps do: of sessions, locks, chunks, chunk metadata and URIs.
-/

namespace FileUploader

open Await Prog

variable {env : Env} {host : Host} {w : Deployment} {v : World}

/-- Redis holds finitely many keys, so a stream of chunks has an end. -/
theorem ReadsAs.stream_ends (hrep : ReadsAs w v) (sid : UUID) :
    ∃ datas, RunFrom (fun k : Nat => v.payload? sid k) 0 datas := by
  have hnodup : ((List.range (w.redis.keys.entries.length + 1)).map
      fun j : Nat => chunkKey sid j).Nodup := by
    refine List.Nodup.map ?_ List.nodup_range
    intro i j hij
    have hkey : Key.chunk sid i = .chunk sid j := Key.str_injective hij
    exact Int.natCast_inj.1 (Key.chunk.inj hkey).2
  rcases w.redis.keys.exists_absent hnodup (by simp) with ⟨k, hk, habsent⟩
  rcases List.mem_map.1 hk with ⟨n, _, rfl⟩
  have hnone : v.chunk? sid n = none := by
    have hread : w.redis.get (chunkKey sid n) = v.chunk? sid n := hrep.get (.chunk sid n)
    rw [← hread, KeyServer.get, habsent]
    rfl
  have hend : ∃ k < n + 1, v.payload? sid (0 + k) = none := by
    refine ⟨n, Nat.lt_succ_self n, ?_⟩
    rw [Nat.zero_add]
    exact payload?_eq_none.2 (Or.inl hnone)
  exact ⟨_, runFrom_takeRun hend⟩

/-- Every operation is answered. -/
theorem ReadsAs.answers (hrep : ReadsAs w v) (op : RepoOp) :
    ∃ answer v', World.Answers v op answer v' := by
  cases op with
  | sessionGet sid => exact ⟨_, _, .sessionGet⟩
  | sessionSave session => exact ⟨_, _, .sessionSave⟩
  | sessionDelete sid => exact ⟨_, _, .sessionDelete⟩
  | acquireLock sid ttl => exact ⟨_, _, .acquireLock⟩
  | releaseLock sid => exact ⟨_, _, .releaseLock⟩
  | chunkSave sid chunk => exact ⟨_, _, .chunkSave⟩
  | chunkGet sid index => exact ⟨_, _, .chunkGet⟩
  | getStream sid =>
      rcases hrep.stream_ends sid with ⟨datas, hrun⟩
      exact ⟨_, _, .getStream hrun⟩
  | deleteAll sid => exact ⟨_, _, .deleteAll⟩
  | registerFile t f uri size cs => exact ⟨_, _, .registerFile⟩
  | getByChecksum t cs => exact ⟨_, _, .getByChecksum⟩

/-! ## Whole runs -/

end FileUploader
