import FileUploader.RedisWorld
import FileUploader.ServerRefinement

/-! # The deployed service

From the upload server down to the bytes in Redis. A request that runs alone does in commands
what it does in calls. With the refinement of the calls by the server, the whole service, on one
keyspace of texts and in the commands that the repositories send, answers as the server does.
-/

namespace FileUploader

open Await Prog S3ObjectStorage

variable {host : Host} {w : Deployment} {v : World}

/-! ## Whole runs -/

/-- The service in commands, one HTTP request after the other, each with the time since the one
before. -/
def deployedService (gateway : Gateway) (host : Host) :
    Machine (Nat × HttpRequest) HttpResponse where
  State := Deployment
  step := fun w op response w' => Exec (commandWorks host)
    ((op.2.handler gateway host.env).implement Command.ofCall) (w.advance op.1) (.ok response) w'

/-- A command is answered in one way. -/
theorem commandWorks_unique (d : Command) (w : Deployment) (r₁ : Except Exn d.Resp)
    (w₁ : Deployment) (r₂ : Except Exn d.Resp) (w₂ : Deployment) (h₁ : commandWorks host d w r₁ w₁)
    (h₂ : commandWorks host d w r₂ w₂) : r₁ = r₂ ∧ w₁ = w₂ :=
  ⟨h₁.1.trans h₂.1.symm, h₁.2.trans h₂.2.symm⟩

theorem deployedService_deterministic (gateway : Gateway) (host : Host) :
    (deployedService gateway host).Deterministic := by
  intro w op response response' w₁ w₂ h₁ h₂
  rcases Exec.unique commandWorks_unique h₁ h₂ with ⟨hsame, hworld⟩
  exact ⟨Except.ok.inj hsame, hworld⟩

/-- A request in calls is one in commands. -/
theorem commands_simulate (gateway : Gateway) (host : Host) :
    Machine.Simulates (httpService gateway host.env) (deployedService gateway host)
      (fun _ => True) fun v w => ReadsAs w v := by
  intro v w op response v' _ hrep hstep
  exact exec_implement exec_ofCall (hrep.advance op.1) hstep

/-- What the server has, as it lies in Redis and in S3. -/
structure Deploys (env : Env) (w : Deployment) (a : Server) : Prop where
  session : ∀ sid, w.redis.get (sessionKey sid) =
    (a.transfer? sid).map fun t => pythonJson.dumpsSession (payload (t.session sid))
  chunk : ∀ sid t, a.transfer? sid = some t → ∀ i,
    w.redis.get (chunkKey sid i) = t.piece? a.now i
  dedup : ∀ tenantId checksum, w.redis.get (dedupKey tenantId checksum) =
    (a.catalogue (tenantId, checksum)).map fun fileId =>
      encode (uri env (objectKey tenantId fileId))
  object : ∀ tenantId fileId,
    w.outside.objects (objectKey tenantId fileId) = a.files (tenantId, fileId)
  events : w.outside.events = a.announced
  idle : ∀ uploadId, w.outside.uploads uploadId = none

theorem Models.deploys {a : Server} (h : Models host.env v a) (hrep : ReadsAs w v) :
    Deploys host.env w a where
  session sid := by
    refine (hrep.get (.session sid)).trans ?_
    rw [World.value, h.session? sid, Option.map_map]
    rfl
  chunk sid t ht i := (hrep.get (.chunk sid i)).trans (h.chunk? ht i)
  dedup tenantId checksum := by
    refine (hrep.get (.dedup tenantId checksum)).trans ?_
    rw [World.value, World.dedup?, ExpiringMap.get, h.dedup]
    cases a.catalogue (tenantId, checksum) with
    | none => rfl
    | some fileId => rfl
  object tenantId fileId := by
    rw [hrep.outside]
    exact h.object tenantId fileId
  events := by
    rw [hrep.outside]
    exact h.events
  idle uploadId := by
    rw [hrep.outside]
    exact h.idle uploadId

/-- There is a run of the deployment for whatever comes, in which it serves as the server. -/
theorem deployed_run (gateway : Gateway) (host : Host) (now : Nat)
    {requests : List (Nat × HttpRequest)}
    (hids : (requests.filterMap fun op => op.2.newId?).Nodup) :
    ∃ w, (deployedService gateway host).Run (Deployment.empty now) requests
        ((Server.empty now).serveAll (policy gateway host.env) requests).1 w ∧
      Deploys host.env w ((Server.empty now).serveAll (policy gateway host.env) requests).2 := by
  rcases (models_empty host.env now).run (fun _ => rfl) gateway requests
    (fun _ _ _ _ => rfl) hids with ⟨v', hcalls, hmodels⟩
  rcases (commands_simulate gateway host).run (fun _ _ => trivial) (readsAs_empty now) hcalls with
    ⟨w', hrun, hrep⟩
  exact ⟨w', hrun, hmodels.deploys hrep⟩

/-- It has no other run. -/
theorem deployed_unique {gateway : Gateway} {host : Host} {now : Nat}
    {requests : List (Nat × HttpRequest)} {responses : List HttpResponse} {w : Deployment}
    (hids : (requests.filterMap fun op => op.2.newId?).Nodup)
    (hrun : (deployedService gateway host).Run (Deployment.empty now) requests responses w) :
    responses = ((Server.empty now).serveAll (policy gateway host.env) requests).1 ∧
      Deploys host.env w ((Server.empty now).serveAll (policy gateway host.env) requests).2 := by
  rcases deployed_run gateway host now hids with ⟨w', hserves, hdeploys⟩
  rcases (deployedService_deterministic gateway host).run hrun hserves with ⟨hsame, rfl⟩
  exact ⟨hsame, hdeploys⟩

/-- The deployed service, with every command going through and each request ending before the
next one comes, gives exactly the answers of the server, whatever time passes in between; and
in the end the keys of Redis and the objects in S3 hold what the server has then. -/
theorem deployment_is_server (gateway : Gateway) (host : Host) (now : Nat)
    {requests : List (Nat × HttpRequest)}
    (hids : (requests.filterMap fun op => op.2.newId?).Nodup) (responses : List HttpResponse) :
    ((∃ w, (deployedService gateway host).Run (Deployment.empty now) requests responses w) ↔
      responses = ((Server.empty now).serveAll (policy gateway host.env) requests).1) ∧
    ∀ w, (deployedService gateway host).Run (Deployment.empty now) requests responses w →
      Deploys host.env w ((Server.empty now).serveAll (policy gateway host.env) requests).2 := by
  constructor
  · constructor
    · intro h
      rcases h with ⟨w, hrun⟩
      exact (deployed_unique hids hrun).1
    · intro h
      rcases deployed_run gateway host now hids with ⟨w, hrun, _⟩
      rw [h]
      exact ⟨w, hrun⟩
  · intro w hrun
    exact (deployed_unique hids hrun).2

/-- A file is uploaded, and asked for again. -/
theorem deployment_is_server_demo : ∃ w,
    (deployedService Demo.gateway Demo.host).Run (Deployment.empty 0) Demo.visit Demo.replies w ∧
      w.outside.objects Demo.key = some Demo.a := by
  have hreplies : Demo.replies =
      ((Server.empty 0).serveAll (policy Demo.gateway Demo.env) Demo.visit).1 := by
    decide +kernel
  have hids : (Demo.visit.filterMap fun op => op.2.newId?).Nodup := by decide
  have hserver := deployment_is_server Demo.gateway Demo.host 0 hids Demo.replies
  rcases hserver.1.2 hreplies with ⟨w, hrun⟩
  refine ⟨w, hrun, ((hserver.2 w hrun).object Demo.tenant Demo.file).trans ?_⟩
  decide +kernel

end FileUploader
