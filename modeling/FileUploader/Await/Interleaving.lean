import Mathlib.Data.List.Basic
import FileUploader.Await.Sequential

/-! # Interleaving awaiting programs

A system runs any number of requests against one world. A step starts a
request, lets one request make its next call, unrolls a loop of a request, or
is a move of the world of its own (time passing). Between two calls of one
request any number of steps of others may happen, and a request may never be
scheduled again.

Every call is logged with its answer and with the world it left, so a property
of a run is a property of the log.
-/

namespace Await

variable {S : Sig}

/-- Requests over one world. `handle` says how the world answers a call, given
an outcome chosen from outside (the call works, it fails, ...), and `move` what
the world does on its own. -/
structure System (S : Sig) where
  World : Type
  Outcome : Type
  handle : Outcome → (c : S.Call) → World → Except S.Exn (S.Resp c) × World
  Move : Type
  move : Move → World → World
  Op : Type
  Result : Type
  prog : Op → Prog S Result

variable (sys : System S)

/-- A request: what was asked for, and what is left to run of it. -/
structure Request where
  op : sys.Op
  prog : Prog S sys.Result

/-- A logged call: by which request, the answer, and the world right after. -/
structure Entry where
  rid : Nat
  call : S.Call
  resp : Except S.Exn (S.Resp call)
  world : sys.World

/-- A request is named by its position in `requests`. -/
structure Config where
  world : sys.World
  requests : List (Request sys)
  log : List (Entry sys)

inductive Label where
  | spawn (op : sys.Op)
  | unroll (i : Nat)
  | call (i : Nat) (out : sys.Outcome)
  | move (m : sys.Move)

variable {sys}

namespace Config

/-- No request yet. -/
def start (w : sys.World) : Config sys := ⟨w, [], []⟩

def spawn (c : Config sys) (op : sys.Op) : Config sys :=
  { c with requests := c.requests ++ [⟨op, sys.prog op⟩] }

/-- Request `i` is left with program `p`. -/
def resume (c : Config sys) (i : Nat) (op : sys.Op) (p : Prog S sys.Result) : Config sys :=
  { c with requests := c.requests.set i ⟨op, p⟩ }

/-- Request `i` makes call `cl` and goes on with `k`. -/
def answer (c : Config sys) (i : Nat) (op : sys.Op) (cl : S.Call)
    (k : Except S.Exn (S.Resp cl) → Prog S sys.Result) (out : sys.Outcome) : Config sys where
  world := (sys.handle out cl c.world).2
  requests := c.requests.set i ⟨op, k (sys.handle out cl c.world).1⟩
  log := c.log ++ [⟨i, cl, (sys.handle out cl c.world).1, (sys.handle out cl c.world).2⟩]

/-- One step, when the label is enabled. -/
def step (c : Config sys) : Label sys → Option (Config sys)
  | .spawn op => some (c.spawn op)
  | .move m => some { c with world := sys.move m c.world }
  | .unroll i =>
      match c.requests[i]? with
      | some ⟨op, .iter body a k⟩ => some (c.resume i op (Prog.unroll body a k))
      | _ => none
  | .call i out =>
      match c.requests[i]? with
      | some ⟨op, .call cl k⟩ => some (c.answer i op cl k out)
      | _ => none

/-- The call request `i` is about to make. -/
def pending (c : Config sys) (i : Nat) : Option S.Call :=
  match c.requests[i]? with
  | some ⟨_, .call cl _⟩ => some cl
  | _ => none

/-- What request `i` ended with, if it has ended. -/
def result (c : Config sys) (i : Nat) : Option (Except S.Exn sys.Result) :=
  match c.requests[i]? with
  | some ⟨_, .done r⟩ => some r
  | _ => none

/-- What the requests were for. -/
def ops (c : Config sys) : List sys.Op := c.requests.map (·.op)

end Config

theorem request_of_result {c : Config sys} {i : Nat} {op : sys.Op} {r : Except S.Exn sys.Result}
    (hop : c.ops[i]? = some op) (hres : c.result i = some r) :
    c.requests[i]? = some ⟨op, .done r⟩ := by
  unfold Config.result at hres
  split at hres
  · rename_i op' r' hreq
    cases hres
    rw [Config.ops, List.getElem?_map, hreq] at hop
    cases hop
    exact hreq
  · cases hres

theorem result_eq_some {c : Config sys} {i : Nat} {op : sys.Op} {p : Prog S sys.Result}
    (hreq : c.requests[i]? = some ⟨op, p⟩) (r : Except S.Exn sys.Result) :
    c.result i = some r ↔ p = .done r := by
  rw [Config.result, hreq]
  cases p with
  | done r' => simp
  | call cl k => exact ⟨(fun h => by cases h), (fun h => by cases h)⟩
  | iter body a k => exact ⟨(fun h => by cases h), (fun h => by cases h)⟩

theorem request_of_pending {c : Config sys} {i : Nat} {op : sys.Op} {cl : S.Call}
    (hop : c.ops[i]? = some op) (hpending : c.pending i = some cl) :
    ∃ k, c.requests[i]? = some ⟨op, .call cl k⟩ := by
  unfold Config.pending at hpending
  split at hpending
  · rename_i op' cl' k hreq
    cases hpending
    rw [Config.ops, List.getElem?_map, hreq] at hop
    cases hop
    exact ⟨k, hreq⟩
  · cases hpending

/-- The calls of request `i`, in order. -/
def callsOf (i : Nat) (log : List (Entry sys)) : List (Entry sys) :=
  log.filter (fun e => e.rid = i)

@[simp] theorem callsOf_nil (i : Nat) : callsOf i ([] : List (Entry sys)) = [] := rfl

theorem callsOf_append_self (log : List (Entry sys)) (e : Entry sys) :
    callsOf e.rid (log ++ [e]) = callsOf e.rid log ++ [e] := by
  simp [callsOf]

theorem callsOf_append_other {i : Nat} (log : List (Entry sys)) (e : Entry sys)
    (h : e.rid ≠ i) : callsOf i (log ++ [e]) = callsOf i log := by
  simp [callsOf, h]

theorem mem_callsOf {i : Nat} {log : List (Entry sys)} {e : Entry sys} :
    e ∈ callsOf i log ↔ e ∈ log ∧ e.rid = i := by
  simp [callsOf]

/-- Every entry of a log stands in relation `P` to the log before it. -/
def Chronicle (P : List (Entry sys) → Entry sys → Prop) (log : List (Entry sys)) : Prop :=
  ∀ k e, log[k]? = some e → P (log.take k) e

@[simp] theorem chronicle_nil (P : List (Entry sys) → Entry sys → Prop) : Chronicle P [] := by
  intro k e he
  simp at he

theorem Chronicle.append {P : List (Entry sys) → Entry sys → Prop} {log : List (Entry sys)}
    {e : Entry sys} (h : Chronicle P log) (he : P log e) : Chronicle P (log ++ [e]) := by
  intro k e' hk
  rcases Nat.lt_trichotomy k log.length with hlt | heq | hgt
  · rw [List.getElem?_append_left hlt] at hk
    rw [List.take_append_of_le_length (Nat.le_of_lt hlt)]
    exact h k e' hk
  · subst heq
    simp only [List.getElem?_concat_length, Option.some.injEq] at hk
    subst hk
    rw [List.take_left' rfl]
    exact he
  · rw [List.getElem?_eq_none (by simp; omega)] at hk
    cases hk

theorem Chronicle.mono {P Q : List (Entry sys) → Entry sys → Prop} {log : List (Entry sys)}
    (h : Chronicle P log) (hPQ : ∀ log e, P log e → Q log e) : Chronicle Q log :=
  fun k e hk => hPQ _ _ (h k e hk)

/-! ## What a step can do -/

/-- The four kinds of steps. -/
theorem step_cases {c c' : Config sys} {l : Label sys} (h : c.step l = some c') :
    (∃ op, l = .spawn op ∧ c' = c.spawn op) ∨
    (∃ m, l = .move m ∧ c' = { c with world := sys.move m c.world }) ∨
    (∃ i op A B, ∃ (body : A → Prog S (A ⊕ B)) (a : A) (k : Except S.Exn B → Prog S sys.Result),
      l = .unroll i ∧ c.requests[i]? = some ⟨op, .iter body a k⟩ ∧
        c' = c.resume i op (Prog.unroll body a k)) ∨
    (∃ i out op cl k, l = .call i out ∧ c.requests[i]? = some ⟨op, .call cl k⟩ ∧
      c' = c.answer i op cl k out) := by
  cases l with
  | spawn op => exact Or.inl ⟨op, rfl, by simpa [Config.step] using h.symm⟩
  | move m => exact Or.inr (Or.inl ⟨m, rfl, by simpa [Config.step] using h.symm⟩)
  | unroll i =>
      simp only [Config.step] at h
      split at h
      · rename_i op A B body a k hreq
        exact Or.inr (Or.inr (Or.inl ⟨i, op, A, B, body, a, k, rfl, hreq, by simpa using h.symm⟩))
      · cases h
  | call i out =>
      simp only [Config.step] at h
      split at h
      · rename_i op cl k hreq
        exact Or.inr (Or.inr (Or.inr ⟨i, out, op, cl, k, rfl, hreq, by simpa using h.symm⟩))
      · cases h

/-! ## Runs -/

/-- The configurations reached from `c₀` by steps that all satisfy `G`, a
condition on the configuration before the step and on its label. -/
inductive Reach (G : Config sys → Label sys → Prop) (c₀ : Config sys) : Config sys → Prop where
  | start : Reach G c₀ c₀
  | step {c c' : Config sys} {l : Label sys} :
      Reach G c₀ c → G c l → c.step l = some c' → Reach G c₀ c'

/-- Fewer conditions, more runs. -/
theorem Reach.mono {G G' : Config sys → Label sys → Prop} (hG : ∀ c l, G c l → G' c l)
    {c₀ c : Config sys} (h : Reach G c₀ c) : Reach G' c₀ c := by
  induction h with
  | start => exact .start
  | step _ hg hs ih => exact .step ih (hG _ _ hg) hs

theorem Reach.trans {G : Config sys → Label sys → Prop} {c₀ c₁ c : Config sys}
    (h₁ : Reach G c₀ c₁) (h : Reach G c₁ c) : Reach G c₀ c := by
  induction h with
  | start => exact h₁
  | step _ hg hs ih => exact .step ih hg hs

/-- Logs only grow. -/
theorem Reach.log_prefix {G : Config sys → Label sys → Prop} {c₀ c : Config sys}
    (h : Reach G c₀ c) : c₀.log <+: c.log := by
  induction h with
  | start => exact List.prefix_refl _
  | @step c c' l _ _ hs ih =>
      apply ih.trans
      rcases step_cases hs with ⟨op, rfl, rfl⟩ | ⟨m, rfl, rfl⟩ |
        ⟨i, op, A, B, body, a, k, rfl, _, rfl⟩ | ⟨i, out, op, cl, k, rfl, _, rfl⟩
      · exact List.prefix_refl _
      · exact List.prefix_refl _
      · exact List.prefix_refl _
      · exact List.prefix_append _ _

/-- What is known to hold in every configuration reached may be used in every
step. -/
theorem Reach.with_invariant {G : Config sys → Label sys → Prop} {K : Config sys → Prop}
    {c₀ c : Config sys} (hK : ∀ c, Reach G c₀ c → K c) (h : Reach G c₀ c) :
    Reach (fun c l => G c l ∧ K c) c₀ c := by
  induction h with
  | start => exact .start
  | step hc hg hs ih => exact .step ih ⟨hg, hK _ hc⟩ hs

/-- Play a list of labels, each of which has to pass the check `ok`. -/
def Config.play (ok : Config sys → Label sys → Bool) (c : Config sys) :
    List (Label sys) → Option (Config sys)
  | [] => some c
  | l :: ls => if ok c l then (c.step l).bind (fun c' => c'.play ok ls) else none

/-- A list of labels that can be played is a run. -/
theorem reach_of_play {G : Config sys → Label sys → Prop} {ok : Config sys → Label sys → Bool}
    (hok : ∀ c l, ok c l = true → G c l) {c₀ c c' : Config sys} (h₀ : Reach G c₀ c)
    (ls : List (Label sys)) (h : c.play ok ls = some c') : Reach G c₀ c' := by
  induction ls generalizing c with
  | nil =>
      simp only [Config.play, Option.some.injEq] at h
      exact h ▸ h₀
  | cons l ls ih =>
      simp only [Config.play] at h
      split at h
      · rename_i hl
        rcases Option.bind_eq_some_iff.1 h with ⟨c₁, hs, hp⟩
        exact ih (.step h₀ (hok c l hl) hs) hp
      · cases h

/-- A played list of labels shows that there is a run that passes a check. -/
theorem exists_of_play {G : Config sys → Label sys → Prop} {ok : Config sys → Label sys → Bool}
    (hok : ∀ c l, ok c l = true → G c l) {c₀ : Config sys} {check : Config sys → Bool}
    (ls : List (Label sys)) (h : (c₀.play ok ls).any check = true) :
    ∃ c, Reach G c₀ c ∧ check c = true := by
  cases hp : c₀.play ok ls with
  | none => simp [hp] at h
  | some c =>
      rw [hp] at h
      exact ⟨c, reach_of_play hok .start ls hp, h⟩

/-! ## A request that runs alone -/

/-- The answers `handle` gives under the outcomes that `ok` admits. -/
def System.answers (sys : System S) (ok : sys.Outcome → S.Call → Prop) : Answers S sys.World :=
  fun c w r w' => ∃ out, ok out c ∧ r = (sys.handle out c w).1 ∧ w' = (sys.handle out c w).2

theorem set_of_getElem? {α : Type*} {l : List α} {i : Nat} {a : α} (h : l[i]? = some a) :
    l.set i a = l := by
  rcases List.getElem?_eq_some_iff.1 h with ⟨hi, rfl⟩
  exact List.set_getElem_self hi

/-- A request that goes on is still for the same operation. -/
theorem map_op_set {rs : List (Request sys)} {i : Nat} {op : sys.Op} {p : Prog S sys.Result}
    (h : rs[i]? = some ⟨op, p⟩) (q : Prog S sys.Result) :
    (rs.set i ⟨op, q⟩).map (·.op) = rs.map (·.op) := by
  rw [List.map_set]
  exact set_of_getElem? (by simp [h])

/-- A loop that runs alone is a run of the system, one round after the other. -/
theorem rounds_reach {G : Config sys → Label sys → Prop} {c₀ : Config sys} {i : Nat}
    {A B : Type} {body : A → Prog S (A ⊕ B)} {k : Except S.Exn B → Prog S sys.Result} {op : sys.Op}
    {round : A → sys.World → Except S.Exn (A ⊕ B) → sys.World → Prop}
    (hunroll : ∀ c, G c (.unroll i))
    (hround : ∀ (a : A) (c : Config sys) (r : Except S.Exn (A ⊕ B)) (w' : sys.World),
      Reach G c₀ c → c.requests[i]? = some ⟨op, (body a).andThen (Prog.again body k)⟩ →
      round a c.world r w' →
      ∃ c', Reach G c₀ c' ∧ c'.requests = c.requests.set i ⟨op, Prog.again body k r⟩ ∧
        c'.world = w')
    {a : A} {w w' : sys.World} {o : Except S.Exn B} (h : Rounds round a w o w')
    {c : Config sys} (hc : Reach G c₀ c) (hw : c.world = w)
    (hreq : c.requests[i]? = some ⟨op, .iter body a k⟩) :
    ∃ c', Reach G c₀ c' ∧ c'.requests = c.requests.set i ⟨op, k o⟩ ∧ c'.world = w' := by
  -- unroll the loop, run one round
  have hopen : ∀ (a : A) (c : Config sys) (r : Except S.Exn (A ⊕ B)) (w' : sys.World),
      Reach G c₀ c → c.requests[i]? = some ⟨op, .iter body a k⟩ → round a c.world r w' →
      ∃ c', Reach G c₀ c' ∧ c'.requests = c.requests.set i ⟨op, Prog.again body k r⟩ ∧
        c'.world = w' := by
    intro a c r w' hc hreq hr
    have hi := (List.getElem?_eq_some_iff.1 hreq).1
    have hstep : Reach G c₀ (c.resume i op (Prog.unroll body a k)) :=
      .step hc (hunroll c) (by simp [Config.step, hreq])
    rcases hround a _ r w' hstep (by simp [Config.resume, Prog.unroll, hi]) hr with
      ⟨c', hc', hreq', hw'⟩
    refine ⟨c', hc', ?_, hw'⟩
    rw [hreq', Config.resume, List.set_set]
  -- over the rounds, the configuration carried along
  induction h generalizing c with
  | again hr _ ih =>
      rcases hopen _ c _ _ hc hreq (by rw [hw]; exact hr) with ⟨c₁, hc₁, hreq₁, hw₁⟩
      have hi := (List.getElem?_eq_some_iff.1 hreq).1
      rcases ih hc₁ hw₁ (by rw [hreq₁, List.getElem?_set_self hi]; rfl) with ⟨c', hc', hreq', hw'⟩
      exact ⟨c', hc', by rw [hreq', hreq₁, List.set_set], hw'⟩
  | stop hr => exact hopen _ c _ _ hc hreq (by rw [hw]; exact hr)
  | fail hr => exact hopen _ c _ _ hc hreq (by rw [hw]; exact hr)

/-- A big-step execution is a run of the system in which only this request is
scheduled. -/
theorem exec_reach {G : Config sys → Label sys → Prop} {c₀ : Config sys} {i : Nat} {op : sys.Op}
    {ok : sys.Outcome → S.Call → Prop} (hunroll : ∀ c, G c (.unroll i))
    (hcall : ∀ c out cl, c.pending i = some cl → ok out cl → G c (.call i out))
    {α : Type} (p : Prog S α) (k : Except S.Exn α → Prog S sys.Result)
    {w w' : sys.World} {o : Except S.Exn α} (h : Exec (sys.answers ok) p w o w')
    {c : Config sys} (hc : Reach G c₀ c) (hw : c.world = w)
    (hreq : c.requests[i]? = some ⟨op, p.andThen k⟩) :
    ∃ c', Reach G c₀ c' ∧ c'.requests = c.requests.set i ⟨op, k o⟩ ∧ c'.world = w' := by
  induction p generalizing w w' c with
  | done r =>
      rcases h with ⟨rfl, rfl⟩
      exact ⟨c, hc, (set_of_getElem? hreq).symm, hw⟩
  | call cl f ih =>
      rcases h with ⟨r, w₁, ⟨out, hok, rfl, rfl⟩, hk⟩
      have hi := (List.getElem?_eq_some_iff.1 hreq).1
      have hstep : Reach G c₀ (c.answer i op cl (fun r => (f r).andThen k) out) :=
        .step hc (hcall c out cl (by simp [Config.pending, hreq]) hok) (by simp [Config.step, hreq])
      subst hw
      rcases ih _ k hk hstep rfl (by simp [Config.answer, hi]) with ⟨c', hc', hreq', hw'⟩
      exact ⟨c', hc', by rw [hreq', Config.answer, List.set_set], hw'⟩
  | iter body a f ihb ihk =>
      rcases h with ⟨r, w₁, hr, hk⟩
      have hi := (List.getElem?_eq_some_iff.1 hreq).1
      rcases rounds_reach hunroll (fun a c r w' hc hreq hrd => ihb a _ hrd hc rfl hreq) hr hc hw
        hreq with ⟨c₁, hc₁, hreq₁, hw₁⟩
      rcases ihk r k hk hc₁ hw₁ (by rw [hreq₁, List.getElem?_set_self hi]) with
        ⟨c', hc', hreq', hw'⟩
      exact ⟨c', hc', by rw [hreq', hreq₁, List.set_set], hw'⟩

end Await
