import FileUploader.Await.Deletion
import FileUploader.UploadIds

/-! # One tenant does not interfere with another

All requests on sessions of one tenant are deleted from a run, whenever they were made and
however they were interleaved with others. The rest is a run, and no other tenant can
tell: every request of theirs ends as before, and their objects and dedup entries are the
same ones.

A request makes calls in one scope. What is called in the scope of the deleted requests
changes nothing in that of the others, and there both runs answer alike, up to the ids of
uploads.
-/

namespace FileUploader

open Await Prog S3ObjectStorage

variable {env : Env}

/-! ## Runs that are split into scopes -/

section Split

/-- What request `i` has heard, under both disciplines. -/
@[reducible] def heard (s : Scene (service env)) (i : Nat) (op : Op) : SessionLocal × CommitLocal :=
  s.localOf ((sessionDiscipline env).prod commitDiscipline)
    (fun op => (SessionLocal.start op, CommitLocal.start op)) i op

theorem heard_snd (s : Scene (service env)) (i : Nat) (op : Op) :
    (heard s i op).2 = answered s i op := by
  rw [heard, Scene.localOf, replay_prod]
  rfl

variable {ι : Type} {P : ι → Scope} {side : Op → ι}

/-- Every request keeps to the scope on its side, and all scopes are in order. -/
structure Split (P : ι → Scope) (side : Op → ι) (s : Scene (service env)) : Prop where
  tenanted : ∀ b, Tenanted (P b) s.world
  confined : ∀ i op, s.ops[i]? = some op →
    InScope (P (side op)) op (heard s i op).1 (heard s i op).2

/-- The requests that are started are on their side. -/
def keepsSides (P : ι → Scope) (side : Op → ι) : Label (service env) → Prop
  | .spawn op => op.Within (P (side op))
  | _ => True

theorem split_inductive (hdisj : ∀ a b, a ≠ b → (P a).Disjoint (P b)) :
    Inductive ((sessionDiscipline env).prod commitDiscipline)
      (fun op => (SessionLocal.start op, CommitLocal.start op))
      (fun (_ : Run env) l => keepsSides P side l) (Split P side) where
  spawn := by
    intro c op hwithin hwf h
    constructor
    · exact h.tenanted
    · exact Scene.forall_spawn (D := (sessionDiscipline env).prod commitDiscipline)
        (P := fun _ op l => InScope (P (side op)) op l.1 l.2) hwf (inScope_start hwithin) h.confined
  move := fun _ d _ h => ⟨fun b => (h.tenanted b).advance d, h.confined⟩
  call := by
    intro c i op cl out _ hop _ h hallow
    have hscope := h.confined i op hop
    have habout := hscope.about hallow.1 hallow.2
    refine ⟨⟨(h.tenanted _).expects _ habout out, trivial⟩, ?_, ?_⟩
    · intro b
      by_cases hb : side op = b
      · subst hb
        exact hscope.tenanted (h.tenanted _) hallow.1 out
      · exact tenanted_agree (h.tenanted b) (handle_outside env (hdisj _ _ hb) habout out c.world)
    · intro j op' hj
      by_cases hij : j = i
      · subst hij
        cases hop.symm.trans hj
        rw [heard, localOf_answer_self]
        exact hscope.next (h.tenanted _) hallow.1 hallow.2 out
      · rw [heard, localOf_answer_other _ _ c.scene i cl out hij]
        exact h.confined j op' hj

end Split

/-! ## The sessions of a tenant -/

/-- The request initiates session `sid` for tenant `t`. -/
def Op.initiates (t sid : UUID) : Op → Bool
  | .initiate newId t' _ _ _ => newId = sid ∧ t' = t
  | _ => false

/-- The request is about a session that one of `ops` initiates for tenant `t`, or is such
a request itself. -/
def Op.onSessionOf (ops : List Op) (t : UUID) : Op → Bool
  | .initiate _ t' _ _ _ => t' = t
  | .uploadChunk sid _ _ _ | .finalize sid | .abort sid | .query sid =>
      ops.any fun op => op.initiates t sid

/-- The requests on sessions of all others. -/
def others (ops : List Op) (t : UUID) (op : Op) : Bool := !op.onSessionOf ops t

/-- The scope of the sessions that `ops` initiate for tenant `t`. -/
def Scope.owned (ops : List Op) (t : UUID) : Scope where
  sessions := {sid | ∃ op ∈ ops, op.initiates t sid = true}
  tenants := {t}

/-- All other sessions and tenants. -/
def Scope.compl (P : Scope) : Scope := ⟨P.sessionsᶜ, P.tenantsᶜ⟩

/-- The scope of the tenant, and the scope of the others. -/
def sides (ops : List Op) (t : UUID) (other : Bool) : Scope :=
  if other then (Scope.owned ops t).compl else Scope.owned ops t

theorem sides_disjoint (ops : List Op) (t : UUID) (a b : Bool) (h : a ≠ b) :
    (sides ops t a).Disjoint (sides ops t b) := by
  cases a with
  | true =>
      cases b with
      | true => exact absurd rfl h
      | false => exact ⟨fun _ hsid hin => hsid hin, fun _ ht hin => ht hin⟩
  | false =>
      cases b with
      | true => exact ⟨fun _ hsid hin => hin hsid, fun _ ht hin => hin ht⟩
      | false => exact absurd rfl h

/-- No two of the requests initiate the same session. -/
def FreshOps (ops : List Op) : Prop :=
  ∀ op ∈ ops, ∀ op' ∈ ops, ∀ sid, op.newId? = some sid → op'.newId? = some sid → op = op'

section Sessions

variable {ops : List Op} {t t' : UUID} {op : Op}

theorem initiates_iff {sid : UUID} : op.initiates t sid = true ↔
    ∃ f size cs, op = .initiate sid t f size cs := by
  cases op with
  | initiate newId t' f size cs =>
      simp only [Op.initiates, decide_eq_true_eq, Op.initiate.injEq]
      constructor
      · rintro ⟨rfl, rfl⟩
        exact ⟨f, size, cs, rfl, rfl, rfl, rfl, rfl⟩
      · rintro ⟨_, _, _, rfl, rfl, _⟩
        exact ⟨rfl, rfl⟩
  | _ => simp [Op.initiates]

/-- A session is initiated for one tenant. -/
theorem FreshOps.tenant_eq (h : FreshOps ops) {sid : UUID} {op' : Op} (hop : op ∈ ops)
    (hop' : op' ∈ ops) (hin : op.initiates t sid = true) (hin' : op'.initiates t' sid = true) :
    t = t' := by
  rcases initiates_iff.1 hin with ⟨f, size, cs, rfl⟩
  rcases initiates_iff.1 hin' with ⟨f', size', cs', rfl⟩
  cases h _ hop _ hop' sid rfl rfl
  rfl

/-- Each request is in the scope of its side. -/
theorem within_side (h : FreshOps ops) (hop : op ∈ ops) :
    op.Within (sides ops t (others ops t op)) := by
  have htarget : ∀ sid, (∃ op ∈ ops, op.initiates t sid = true) ↔
      (ops.any fun op => op.initiates t sid) = true := fun _ => List.any_eq_true.symm
  cases op with
  | initiate newId t' f size cs =>
      simp only [others, Op.onSessionOf]
      by_cases ht : t' = t
      · -- a session of the tenant
        subst ht
        simp only [decide_true, Bool.not_true]
        exact ⟨⟨_, hop, initiates_iff.2 ⟨f, size, cs, rfl⟩⟩, rfl⟩
      · simp only [ht, decide_false, Bool.not_false]
        refine ⟨?_, ht⟩
        rintro ⟨op', hop', hin⟩
        exact ht (h.tenant_eq hop hop' (initiates_iff.2 ⟨f, size, cs, rfl⟩) hin)
  | _ sid =>
      simp only [others, Op.onSessionOf]
      cases hany : ops.any fun op => op.initiates t sid with
      | true => exact (htarget sid).2 hany
      | false =>
          intro hin
          rw [(htarget sid).1 hin] at hany
          cases hany

/-- What is on a session of one tenant is not on a session of another. -/
theorem others_of_onSessionOf (h : FreshOps ops) (hne : t ≠ t')
    (hon : op.onSessionOf ops t' = true) : others ops t op = true := by
  have hnone : ∀ sid, (ops.any fun op => op.initiates t' sid) = true →
      (ops.any fun op => op.initiates t sid) = false := by
    intro sid hany
    rw [← Bool.not_eq_true]
    intro hany'
    rcases List.any_eq_true.1 hany with ⟨op, hop, hin⟩
    rcases List.any_eq_true.1 hany' with ⟨op', hop', hin'⟩
    exact hne (h.tenant_eq hop' hop hin' hin)
  cases op with
  | initiate newId t₁ f size cs =>
      simp only [Op.onSessionOf, decide_eq_true_eq] at hon
      subst hon
      simp [others, Op.onSessionOf, Ne.symm hne]
  | _ sid => simp [others, Op.onSessionOf, hnone sid hon]

end Sessions

/-! ## Both runs -/

/-- The requests that are started are among `ops`, with fresh ids. -/
def startsAmong (ops : List Op) (c : Run env) (l : Label (service env)) : Bool :=
  freshIds c l && l.spawned.all fun op => op ∈ ops

section Runs

variable {ops : List Op} {t : UUID} {now : Nat}

/-- The configurations reached by starting only these requests. -/
abbrev Among (ops : List Op) (now : Nat) (c : Run env) : Prop :=
  Reach (fun c l => startsAmong ops c l) (Config.start (World.empty now)) c

theorem reach_split (hops : FreshOps ops) {c : Run env} (h : Among ops now c) :
    Split (sides ops t) (others ops t) c.scene ∧ ∀ i op p, c.requests[i]? = some ⟨op, p⟩ →
      Obeys ((sessionDiscipline env).prod commitDiscipline) p (heard c.scene i op)
        (fun r l => sessionPost op r l.1 ∧ commitPost op r l.2) := by
  have hreach : Reach (fun _ l => keepsSides (sides ops t) (others ops t) l)
      (Config.start (World.empty now)) c := by
    refine h.mono ?_
    intro c l hg
    cases l with
    | spawn op =>
        simp only [startsAmong, Label.spawned, Bool.and_eq_true, List.all_cons, decide_eq_true_eq]
          at hg
        exact within_side hops hg.2.1
    | _ => trivial
  have hinit : Split (sides ops t) (others ops t)
      (⟨World.empty now, [], []⟩ : Scene (service env)) := by
    constructor
    · exact fun b => ⟨(fun _ _ _ hv => by cases hv), (fun _ _ _ hv => by cases hv)⟩
    · exact fun _ _ hop => by cases hop
  have hinv := hreach.invariant (fun op r l => sessionPost op r l.1 ∧ commitPost op r l.2)
    (fun _ op _ => (prog_obeys env op).prod (Commit.prog_obeys env op))
    (split_inductive (sides_disjoint ops t)) hinit
  exact ⟨hinv.2.1, hinv.2.2⟩

/-- The call that a request is about to make is in its scope, and allowed. -/
theorem Among.pending (hops : FreshOps ops) {c : Run env} (h : Among ops now c) {i : Nat}
    {op : Op} {cl : Call} {k : Except Exn cl.Resp → Program Response}
    (hreq : c.requests[i]? = some ⟨op, .call cl k⟩) :
    cl.About (sides ops t (others ops t op)) ∧ (answered c.scene i op).allows cl := by
  rcases reach_split (t := t) hops h with ⟨hsplit, hobeys⟩
  have hallow := (hobeys i op _ hreq).1
  refine ⟨(hsplit.confined i op (ops_getElem? hreq)).about hallow.1 hallow.2, ?_⟩
  rw [← heard_snd]
  exact hallow.2

/-- The second run shadows the first: what is in the scope of the others is the same, and
their requests are left with twins. -/
structure Shadow (ops : List Op) (t : UUID) (now : Nat) (c c' : Run env) : Prop where
  reach : Among ops now c
  reach' : Among ops now c'
  agree : AgreeOn (sides ops t true) c.world c'.world
  paired : Paired (others ops t) (fun i j op p p' => Twin c.world c'.world p p'
    (answered c.scene i op).uploadId (answered c'.scene j op).uploadId) c.requests c'.requests

section Steps

variable {c c' : Run env} {i : Nat} {op : Op} {cl : Call} {out : Outcome}
  {k : Except Exn cl.Resp → Program Response}

theorem Shadow.ops_eq (h : Shadow ops t now c c') : c'.ops = c.ops.filter (others ops t) :=
  h.paired.ops

theorem Shadow.twin (h : Shadow ops t now c c') {p : Program Response}
    (hreq : c.requests[i]? = some ⟨op, p⟩) (hkeep : others ops t op = true) :
    ∃ p', c'.requests[place (others ops t) c.ops i]? = some ⟨op, p'⟩ ∧
      Twin c.world c'.world p p' (answered c.scene i op).uploadId
        (answered c'.scene (place (others ops t) c.ops i) op).uploadId :=
  h.paired.twin i op p hreq hkeep

/-- Fresh ids are fresh in the second run. -/
theorem Shadow.fresh (h : Shadow ops t now c c')
    (hok : startsAmong ops c (.spawn op) = true) : startsAmong ops c' (.spawn op) = true := by
  simp only [startsAmong, freshIds, Bool.and_eq_true] at hok ⊢
  refine ⟨?_, hok.2⟩
  rw [h.ops_eq]
  cases hid : op.newId? with
  | none => rfl
  | some newId =>
      have hfresh := hok.1
      rw [hid] at hfresh
      simp only [Option.all_some, List.all_eq_true] at hfresh ⊢
      exact fun op' hop' => hfresh op' (List.mem_filter.1 hop').1

/-- Time passes in both runs. -/
theorem Shadow.move (h : Shadow ops t now c c') (d : Nat) :
    Shadow ops t now { c with world := c.world.advance d }
      { c' with world := c'.world.advance d } where
  reach := h.reach.step (l := .move d) rfl rfl
  reach' := h.reach'.step (l := .move d) rfl rfl
  agree := { h.agree with now := congrArg (· + d) h.agree.now }
  paired := h.paired.mono fun _ _ _ _ _ htwin => htwin

/-- A request of the tenant is started. -/
theorem Shadow.spawn_skip (h : Shadow ops t now c c')
    (hok : startsAmong ops c (.spawn op) = true) (hskip : others ops t op = false) :
    Shadow ops t now (c.spawn op) c' where
  reach := h.reach.step hok rfl
  reach' := h.reach'
  agree := h.agree
  paired := h.paired.append_skip hskip _

/-- Another request is started in both runs. -/
theorem Shadow.spawn (h : Shadow ops t now c c')
    (hok : startsAmong ops c (.spawn op) = true) (hkeep : others ops t op = true) :
    Shadow ops t now (c.spawn op) (c'.spawn op) where
  reach := h.reach.step hok rfl
  reach' := h.reach'.step (h.fresh hok) rfl
  agree := h.agree
  paired := by
    refine h.paired.append hkeep ?_
    have hnew : ∀ {c : Run env}, Among ops now c →
        (answered c.scene c.requests.length op).uploadId = none := by
      intro c hc
      have hnil := (reach_known hc).wf.callsOf_eq_nil
      have hlen : c.ops.length = c.requests.length := by simp [Config.ops]
      simp only [Config.scene, hlen] at hnil
      simp only [answered, Scene.localOf, Config.scene, hnil, replay_nil]
      rfl
    rw [hnew h.reach, hnew h.reach']
    exact ⟨prog_noId env op, rfl⟩

/-- A request of the tenant unrolls a loop. -/
theorem Shadow.unroll_skip (h : Shadow ops t now c c') {A B : Type} {body : A → Program (A ⊕ B)}
    {a : A} {k : Except Exn B → Program Response}
    (hreq : c.requests[i]? = some ⟨op, .iter body a k⟩)
    (hskip : others ops t op = false) :
    Shadow ops t now (c.resume i op (Prog.unroll body a k)) c' where
  reach := h.reach.step (l := .unroll i) rfl (by simp [Config.step, hreq])
  reach' := h.reach'
  agree := h.agree
  paired := h.paired.set_skip hreq hskip _ fun _ _ _ _ _ _ _ htwin => htwin

/-- Another request unrolls a loop in both runs. -/
theorem Shadow.unroll (h : Shadow ops t now c c') {A B : Type} {body : A → Program (A ⊕ B)}
    {a : A} {k : Except Exn B → Program Response}
    (hreq : c.requests[i]? = some ⟨op, .iter body a k⟩)
    (hkeep : others ops t op = true) :
    ∃ c₁', c'.step (.unroll (place (others ops t) c.ops i)) = some c₁' ∧
      Shadow ops t now (c.resume i op (Prog.unroll body a k)) c₁' := by
  rcases h.twin hreq hkeep with ⟨p', hreq', htwin⟩
  rcases htwin.unroll with ⟨body', k', rfl, htwin'⟩
  have hstep : c'.step (.unroll (place (others ops t) c.ops i)) =
      some (c'.resume (place (others ops t) c.ops i) op (Prog.unroll body' a k')) := by
    simp only [Config.step, hreq']
  refine ⟨_, hstep, ?_⟩
  constructor
  · exact h.reach.step (l := .unroll i) rfl (by simp [Config.step, hreq])
  · exact h.reach'.step rfl hstep
  · exact h.agree
  · exact h.paired.set hreq hkeep htwin' fun _ _ _ _ _ _ _ _ _ ht => ht

/-- A request of the tenant makes a call. -/
theorem Shadow.call_skip (hops : FreshOps ops) (h : Shadow ops t now c c')
    (hreq : c.requests[i]? = some ⟨op, .call cl k⟩) (hskip : others ops t op = false) :
    Shadow ops t now (c.answer i op cl k out) c' := by
  rcases h.reach.pending (t := t) hops hreq with ⟨habout, hallow⟩
  have hassembled := (reach_assembled h.reach).1
  have hop := ops_getElem? hreq
  rw [hskip] at habout
  constructor
  · exact h.reach.step (l := .call i out) rfl (by simp [Config.step, hreq])
  · exact h.reach'
  · -- nothing changes for the others
    have hout := handle_outside env (sides_disjoint ops t false true (by decide)) habout out
      c.world
    exact hout.symm.trans h.agree
  · refine h.paired.set_skip hreq hskip _ ?_
    intro j j' op' p p' hj hreqj htwin
    have hopj := ops_getElem? hreqj
    rw [scene_answer hreq, answered_answer_other _ _ _ _ hj]
    refine htwin.mono ?_ fun _ _ => rfl
    intro u hu
    exact hassembled.uploads_kept hop hallow hj hopj hu

/-- Another request makes a call in both runs. -/
theorem Shadow.call (hops : FreshOps ops) (h : Shadow ops t now c c')
    (hreq : c.requests[i]? = some ⟨op, .call cl k⟩) (hkeep : others ops t op = true) :
    ∃ c₁', c'.step (.call (place (others ops t) c.ops i) out) = some c₁' ∧
      Shadow ops t now (c.answer i op cl k out) c₁' := by
  rcases h.reach.pending (t := t) hops hreq with ⟨habout, hallow⟩
  have hassembled := (reach_assembled h.reach).1
  have hassembled' := (reach_assembled h.reach').1
  have hop := ops_getElem? hreq
  rw [hkeep] at habout
  rcases h.twin hreq hkeep with ⟨p', hreq', htwin⟩
  -- the twin makes the same call, up to the upload id
  rcases htwin.call env habout hallow h.agree out with ⟨cl', k', rfl, hagree, hself⟩
  have hallow' := (h.reach'.pending (t := t) hops hreq').2
  have hop' := ops_getElem? hreq'
  have hstep : c'.step (.call (place (others ops t) c.ops i) out) =
      some (c'.answer (place (others ops t) c.ops i) op cl' k' out) := by
    simp only [Config.step, hreq']
  refine ⟨_, hstep, ?_⟩
  -- both runs have made a step, and the worlds agree as before
  constructor
  · exact h.reach.step (l := .call i out) rfl (by simp [Config.step, hreq])
  · exact h.reach'.step rfl hstep
  · exact hagree
  · have hnext : answered (c.answer i op cl k out).scene i op =
        (answered c.scene i op).next cl (handle env out cl c.world).1 := by
      rw [scene_answer hreq, answered_answer_self]
      rfl
    have hnext' : answered (c'.answer (place (others ops t) c.ops i) op cl' k' out).scene
          (place (others ops t) c.ops i) op =
        (answered c'.scene (place (others ops t) c.ops i) op).next cl'
          (handle env out cl' c'.world).1 := by
      rw [scene_answer hreq', answered_answer_self]
      rfl
    rw [← hnext, ← hnext'] at hself
    -- the other pairs of twins are as they were
    have hother : ∀ j op', j ≠ place (others ops t) c.ops i →
        answered (c'.answer (place (others ops t) c.ops i) op cl' k' out).scene j op' =
          answered c'.scene j op' := by
      intro j op' hj
      rw [scene_answer hreq', answered_answer_other _ _ _ _ hj]
    refine h.paired.set hreq hkeep hself ?_
    intro j j' op' p p' hj hj' hreqj hreqj' htwinj
    rw [scene_answer hreq, answered_answer_other _ _ _ _ hj, hother j' op' hj']
    apply htwinj.mono
    · intro u hu
      exact hassembled.uploads_kept hop hallow hj (ops_getElem? hreqj) hu
    · intro u hu
      exact hassembled'.uploads_kept hop' hallow' hj' (ops_getElem? hreqj') hu

end Steps

/-- The requests on sessions of the tenant can be deleted, step by step. -/
theorem unwinding (hops : FreshOps ops) :
    Unwinding (others ops t) (fun (c : Run env) l => startsAmong ops c l) (Shadow ops t now) where
  respects := by
    -- a deleted step is a request of the tenant's: the second run waits
    intro c c' l c₁ h hok hstep hl
    rcases step_cases hstep with ⟨op, rfl, rfl⟩ | ⟨d, rfl, rfl⟩ |
      ⟨i, op, A, B, body, a, k, rfl, hreq, rfl⟩ | ⟨i, out, op, cl, k, rfl, hreq, rfl⟩
    · simp only [Label.keep?] at hl
      split at hl
      · cases hl
      · rename_i hskip
        exact h.spawn_skip hok (Bool.eq_false_of_not_eq_true hskip)
    · cases hl
    · simp only [Label.keep?, ops_getElem? hreq, Option.any_some] at hl
      split at hl
      · cases hl
      · rename_i hskip
        exact h.unroll_skip hreq (Bool.eq_false_of_not_eq_true hskip)
    · simp only [Label.keep?, ops_getElem? hreq, Option.any_some] at hl
      split at hl
      · cases hl
      · rename_i hskip
        exact h.call_skip hops hreq (Bool.eq_false_of_not_eq_true hskip)
  consistent := by
    -- a step that is kept is made in both runs
    intro c c' l l' c₁ h hok hstep hl
    rcases step_cases hstep with ⟨op, rfl, rfl⟩ | ⟨d, rfl, rfl⟩ |
      ⟨i, op, A, B, body, a, k, rfl, hreq, rfl⟩ | ⟨i, out, op, cl, k, rfl, hreq, rfl⟩
    · simp only [Label.keep?] at hl
      split at hl
      · rename_i hkeep
        cases hl
        exact ⟨h.fresh hok, _, rfl, h.spawn hok hkeep⟩
      · cases hl
    · cases hl
      exact ⟨rfl, _, rfl, h.move d⟩
    · simp only [Label.keep?, ops_getElem? hreq, Option.any_some] at hl
      split at hl
      · rename_i hkeep
        cases hl
        exact ⟨rfl, h.unroll hreq hkeep⟩
      · cases hl
    · simp only [Label.keep?, ops_getElem? hreq, Option.any_some] at hl
      split at hl
      · rename_i hkeep
        cases hl
        exact ⟨rfl, h.call hops hreq hkeep⟩
      · cases hl

/-- What is left of two twins has ended with the same result. -/
theorem Shadow.result_eq {c c' : Run env} (h : Shadow ops t now c c') {i : Nat} {op : Op}
    (hop : c.ops[i]? = some op) (hkeep : others ops t op = true) :
    c'.result (place (others ops t) c.ops i) = c.result i := by
  have hreq : ∃ p, c.requests[i]? = some ⟨op, p⟩ := by
    rw [Config.ops, List.getElem?_map] at hop
    rcases Option.map_eq_some_iff.1 hop with ⟨⟨op', p⟩, hreq, rfl⟩
    exact ⟨p, hreq⟩
  rcases hreq with ⟨p, hreq⟩
  rcases h.twin hreq hkeep with ⟨p', hreq', htwin⟩
  apply Option.ext
  intro r
  rw [result_eq_some hreq', result_eq_some hreq]
  exact (htwin.done_iff r).symm

theorem shadow_start : Shadow ops t now (Config.start (World.empty now) : Run env)
    (Config.start (World.empty now)) where
  reach := .start
  reach' := .start
  agree := .refl _ _
  paired := by
    constructor
    · rfl
    · exact fun i op p hreq _ => by cases hreq

end Runs

/-! ## Noninterference -/

theorem freshOps_of_reach {now : Nat} {c : Run env}
    (h : Reach (fun c l => freshIds c l) (Config.start (World.empty now)) c) : FreshOps c.ops := by
  intro op hop op' hop' sid hnew hnew'
  rcases List.mem_iff_getElem?.1 hop with ⟨i, hi⟩
  rcases List.mem_iff_getElem?.1 hop' with ⟨j, hj⟩
  have hij := (reach_traced sid (fun _ _ hg => hg) h).unique i op hi j op' hj hnew hnew'
  subst hij
  exact Option.some.inj (hi.symm.trans hj)

/-- Data-level noninterference: from a run all requests on sessions of tenant `A` are
deleted. What is left is a run, and for every other tenant `B` it is the same, at every
point: the requests on sessions of `B` have ended with the same results, and the objects
under `uploads/{B}/` and the dedup entries of `B` are those of the run with `A`. -/
theorem tenant_noninterference {A B : UUID} (hne : A ≠ B) {now : Nat}
    {ls rest : List (Label (service env))} {c final : Run env}
    (h : (Config.start (World.empty now)).play freshIds ls = some c)
    (hrest : c.play freshIds rest = some final) :
    ∃ c' final' : Run env,
      (Config.start (World.empty now)).play freshIds
        (without (others final.ops A) [] ls) = some c' ∧
      c'.play freshIds (without (others final.ops A) c.ops rest) = some final' ∧
      c'.ops = c.ops.filter (others final.ops A) ∧
      (∀ i op, c.ops[i]? = some op → op.onSessionOf final.ops B = true →
        c'.ops[place (others final.ops A) c.ops i]? = some op ∧
          c'.result (place (others final.ops A) c.ops i) = c.result i) ∧
      (∀ key, UnderTenant B key → c'.world.objects key = c.world.objects key) ∧
      ∀ cs, c'.world.dedup (B, cs) = c.world.dedup (B, cs) := by
  have hreach := reach_of_play (fun _ _ hok => hok) .start ls h
  have hfresh := freshOps_of_reach (reach_of_play (fun _ _ hok => hok) hreach rest hrest)
  -- all requests of the run are among those of its end
  have hops : final.ops = (ls ++ rest).flatMap Label.spawned := by
    rw [ops_play rest hrest, ops_play ls h, List.flatMap_append]
    rfl
  have hstarts : ∀ (c : Run env) l, l ∈ ls ++ rest → freshIds c l = true →
      startsAmong final.ops c l = true := by
    intro c l hl hok
    simp only [startsAmong, hok, Bool.true_and, List.all_eq_true, decide_eq_true_eq]
    intro op hop
    rw [hops]
    exact List.mem_flatMap.2 ⟨l, hl, hop⟩
  have hplay := play_of_play ls h fun c l hl => hstarts c l (List.mem_append_left _ hl)
  have hplay' := play_of_play rest hrest fun c l hl => hstarts c l (List.mem_append_right _ hl)
  rcases (unwinding (t := A) hfresh).play shadow_start ls hplay with ⟨c', hrun, hshadow⟩
  rcases (unwinding hfresh).play hshadow rest hplay' with ⟨final', hrun', _⟩
  have hfreshIds : ∀ (c : Run env) l, startsAmong final.ops c l = true → freshIds c l = true :=
    fun _ _ hok => (Bool.and_eq_true_iff.1 hok).1
  -- what the two worlds agree on includes all of `B`
  have hB : B ∈ (sides final.ops A true).tenants := Ne.symm hne
  refine ⟨c', final', ?_, ?_, hshadow.ops_eq, ?_, ?_, ?_⟩
  · exact play_of_play _ hrun fun c l _ => hfreshIds c l
  · exact play_of_play _ hrun' fun c l _ => hfreshIds c l
  · intro i op hop hon
    have hkeep := others_of_onSessionOf hfresh hne hon
    constructor
    · rw [hshadow.ops_eq]
      exact getElem?_place hop hkeep
    · exact hshadow.result_eq hop hkeep
  · exact fun key hkey => hshadow.agree.objects B hB key hkey
  · exact fun cs => hshadow.agree.dedup B hB cs

namespace Demo

/-- Another tenant, with a session of its own. -/
def theirTenant : UUID := ⟨5⟩
def theirSid : UUID := ⟨6⟩

/-- Two tenants upload one byte each, and finalize at the same time: the first one has its
upload initiated, then the other one commits, then the first one does. -/
def sideBySide : List (Label (service Demo.env)) :=
  [.spawn (.initiate sid tenant file 1 (sha256 a))] ++ calls 0 2 ++
    [.spawn (.initiate theirSid theirTenant file 1 (sha256 a))] ++ calls 1 2 ++
    [.spawn (.uploadChunk sid 0 (sha256 a) a), .spawn (.uploadChunk theirSid 0 (sha256 a) a)] ++
    calls 2 3 ++ calls 3 5 ++ calls 2 2 ++ [.spawn (.finalize sid)] ++ scanning 4 1 ++ calls 4 1 ++
    [.spawn (.finalize theirSid)] ++ scanning 5 1 ++ committing 5 1 ++
    round 4 2 ++ round 4 1 ++ calls 4 6

/-- The object of the other tenant. -/
def theirKey : String := objectKey theirTenant file

end Demo

theorem tenant_noninterference_demo : ∃ c c' : Run Demo.env,
    (Config.start (World.empty 0)).play freshIds Demo.sideBySide = some c ∧
    (Config.start (World.empty 0)).play freshIds
      (without (others c.ops Demo.tenant) [] Demo.sideBySide) = some c' ∧
    c'.ops.length = 3 ∧
    c'.result 2 = some (.ok (.finalized (uri Demo.env Demo.theirKey))) ∧
    c'.world.objects Demo.theirKey = some Demo.a := by
  -- the run itself is computed; that of the others follows from the theorem
  have h : ((Config.start (World.empty 0)).play freshIds Demo.sideBySide).any (fun c =>
      c.result 5 = some (.ok (.finalized (uri Demo.env Demo.theirKey))) ∧
        c.ops[5]? = some (.finalize Demo.theirSid) ∧
        Op.onSessionOf c.ops Demo.theirTenant (.finalize Demo.theirSid) = true ∧
        place (others c.ops Demo.tenant) c.ops 5 = 2 ∧
        (c.ops.filter (others c.ops Demo.tenant)).length = 3 ∧
        c.world.objects Demo.theirKey = some Demo.a) = true := by
    decide +kernel
  cases hplay : (Config.start (World.empty 0)).play freshIds Demo.sideBySide with
  | none =>
      rw [hplay] at h
      cases h
  | some c =>
      rw [hplay] at h
      simp only [Option.any_some, decide_eq_true_eq] at h
      rcases h with ⟨hres, hop, hon, hplace, hlen, hobject⟩
      have hne : Demo.tenant ≠ Demo.theirTenant := by decide
      have hend : c.play freshIds [] = some c := rfl
      rcases tenant_noninterference hne hplay hend with
        ⟨c', _, hrun, _, hops, hresults, hobjects, _⟩
      rcases hresults 5 _ hop hon with ⟨_, hsame⟩
      rw [hplace] at hsame
      refine ⟨c, c', rfl, hrun, ?_, ?_, ?_⟩
      · rw [hops]
        exact hlen
      · rw [hsame]
        exact hres
      · rw [hobjects Demo.theirKey ((underTenant_objectKey _ _ _).2 rfl)]
        exact hobject

end FileUploader
