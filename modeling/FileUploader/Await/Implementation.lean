import FileUploader.Await.Trace

/-! # Calls that are programs

A call of one level may be a program of the next level down: several commands, between which
other requests run. `implement` puts these programs in the place of the calls. A run of the
low level is a run of the high level if each call can be given one moment at which it takes
effect, that of its last command: what it has found out before must still hold then. The
obligations are collected in `Atomic`; `Atomic.refines` is the simulation.
-/

namespace Await

variable {S : Sig} {C : Type} {R : C → Type} {α β A B : Type}

/-- The commands `C`, with the exceptions of `S`. -/
@[reducible] def Sig.over (S : Sig) (C : Type) (R : C → Type) : Sig := ⟨C, R, S.Exn⟩

/-! ## Programs in place of calls -/

namespace Prog

section Implement

variable (impl : (c : S.Call) → Prog (S.over C R) (S.Resp c))

/-- Every call is replaced by its program. -/
def implement : {α : Type} → Prog S α → Prog (S.over C R) α
  | _, .done r => .done r
  | _, .call c k => (impl c).andThen fun r => implement (k r)
  | _, .iter body a k => .iter (fun a => implement (body a)) a fun r => implement (k r)

@[simp] theorem implement_done (r : Except S.Exn α) :
    implement impl (.done r) = .done r := rfl

theorem implement_call (c : S.Call) (k : Except S.Exn (S.Resp c) → Prog S α) :
    implement impl (.call c k) = (impl c).andThen fun r => implement impl (k r) := rfl

theorem implement_iter (body : A → Prog S (A ⊕ B)) (a : A) (k : Except S.Exn B → Prog S α) :
    implement impl (.iter body a k) =
      .iter (fun a => implement impl (body a)) a fun r => implement impl (k r) := rfl

theorem implement_andThen (p : Prog S α) (f : Except S.Exn α → Prog S β) :
    implement impl (p.andThen f) = (implement impl p).andThen fun r => implement impl (f r) := by
  induction p with
  | done r => rfl
  | call c k ih => simp [implement_call, andThen_assoc, ih]
  | iter body a k _ ih => simp [implement_iter, ih]

/-- A loop is unrolled in the same way on both levels. -/
theorem implement_unroll (body : A → Prog S (A ⊕ B)) (a : A) (k : Except S.Exn B → Prog S α) :
    implement impl (unroll body a k) =
      unroll (fun a => implement impl (body a)) a fun r => implement impl (k r) := by
  rw [unroll, implement_andThen, unroll]
  congr 1
  funext r
  rcases r with x | a' | b <;> rfl

end Implement

theorem unroll_andThen (body : A → Prog S (A ⊕ B)) (a : A) (k : Except S.Exn B → Prog S α)
    (f : Except S.Exn α → Prog S β) :
    (unroll body a k).andThen f = unroll body a fun r => (k r).andThen f := by
  rw [unroll, andThen_assoc, unroll]
  congr 1
  funext r
  rcases r with x | a' | b <;> rfl

end Prog

/-- The programs in the place of calls make commands of the kind that each of them makes. -/
theorem makes_implement {P : S.Call → Prop} {Q : C → Prop}
    {impl : (c : S.Call) → Prog (S.over C R) (S.Resp c)} {p : Prog S α} (h : Makes P p)
    (himpl : ∀ c, P c → Makes (S := S.over C R) Q (impl c)) :
    Makes (S := S.over C R) Q (p.implement impl) := by
  -- for whatever the program guarantees at its end
  have hobeys : ∀ {α : Type} {p : Prog S α} {post : Except S.Exn α → Unit → Prop},
      Obeys (only P) p () post → Obeys (S := S.over C R) (only Q) (p.implement impl) () post := by
    intro α p post hp
    induction p with
    | done r => exact hp
    | call c k ih =>
        rw [Prog.implement_call, obeys_andThen]
        exact (himpl c hp.1).mono fun r _ _ => ih r (hp.2 r trivial)
    | iter body a k ihb ihk =>
        rcases hp with ⟨I, hI, hround⟩
        refine ⟨I, hI, fun a l hal => ⟨trivial, (ihb a (hround a l hal).2).mono ?_⟩⟩
        rintro (x | a' | b) _ hr
        · exact ihk _ hr
        · exact hr
        · exact ihk _ hr
  exact hobeys h

/-! ## Programs that run alone -/

section Alone

variable {WL WH : Type} {RL : Answers (S.over C R) WL} {RH : Answers S WH} {rel : WL → WH → Prop}
  {impl : (c : S.Call) → Prog (S.over C R) (S.Resp c)}

/-- If the programs of the calls answer as the calls do, then so do programs of them. -/
theorem exec_implement
    (hcall : ∀ {c : S.Call} {w : WL} {v v' : WH} {r : Except S.Exn (S.Resp c)}, rel w v →
      RH c v r v' → ∃ w', Exec RL (impl c) w r w' ∧ rel w' v')
    {p : Prog S α} {w : WL} {v v' : WH} {o : Except S.Exn α} (hrel : rel w v)
    (h : Exec RH p v o v') : ∃ w', Exec RL (p.implement impl) w o w' ∧ rel w' v' := by
  induction p generalizing w v v' with
  | done r =>
      rcases h with ⟨rfl, rfl⟩
      exact ⟨w, ⟨rfl, rfl⟩, hrel⟩
  | call c k ih =>
      rcases h with ⟨r, v₁, hc, hk⟩
      rcases hcall hrel hc with ⟨w₁, hexec, hrel₁⟩
      rcases ih r hrel₁ hk with ⟨w', hrest, hrel'⟩
      exact ⟨w', (exec_andThen _ _ _).2 ⟨r, w₁, hexec, hrest⟩, hrel'⟩
  | iter body a k ihb ihk =>
      rcases h with ⟨r, v₁, hr, hk⟩
      -- one round after the other
      have hrounds : ∃ w₁, Rounds (fun a => Exec RL ((body a).implement impl)) a w r w₁ ∧
          rel w₁ v₁ := by
        clear hk
        induction hr generalizing w with
        | again hb _ ih =>
            rcases ihb _ hrel hb with ⟨w₁, hround, hrel₁⟩
            rcases ih hrel₁ with ⟨w₂, hrest, hrel₂⟩
            exact ⟨w₂, .again hround hrest, hrel₂⟩
        | stop hb =>
            rcases ihb _ hrel hb with ⟨w₁, hround, hrel₁⟩
            exact ⟨w₁, .stop hround, hrel₁⟩
        | fail hb =>
            rcases ihb _ hrel hb with ⟨w₁, hround, hrel₁⟩
            exact ⟨w₁, .fail hround, hrel₁⟩
      rcases hrounds with ⟨w₁, hrounds, hrel₁⟩
      rcases ihk r hrel₁ hk with ⟨w', hrest, hrel'⟩
      exact ⟨w', ⟨r, w₁, hrounds, hrest⟩, hrel'⟩

/-! ### One part after the other -/

section Parts

variable {w w₁ w₂ : WL}

theorem exec_implement_await {c : S.Call} {r : Except S.Exn (S.Resp c)}
    (h : Exec RL (impl c) w r w₁) : Exec RL ((Prog.await c).implement impl) w r w₁ := by
  have himpl : (Prog.await c).implement impl = impl c := Prog.andThen_done_right (impl c)
  rw [himpl]
  exact h

theorem exec_implement_bind {p : Prog S α} {f : α → Prog S β} {a : α} {o : Except S.Exn β}
    (hp : Exec RL (p.implement impl) w (.ok a) w₁)
    (hf : Exec RL ((f a).implement impl) w₁ o w₂) :
    Exec RL ((p >>= f).implement impl) w o w₂ := by
  rw [Prog.bind_eq, Prog.implement_andThen]
  exact (exec_andThen _ _ _).2 ⟨.ok a, w₁, hp, hf⟩

/-- An exception ends a program. -/
theorem exec_implement_bind_error {p : Prog S α} {f : α → Prog S β} {x : S.Exn}
    (hp : Exec RL (p.implement impl) w (.error x) w₁) :
    Exec RL ((p >>= f).implement impl) w (.error x) w₁ := by
  rw [Prog.bind_eq, Prog.implement_andThen]
  exact (exec_andThen _ _ _).2 ⟨.error x, w₁, hp, rfl, rfl⟩

theorem exec_implement_tryFinally {p : Prog S α} {f : Prog S Unit} {o : Except S.Exn α}
    (hp : Exec RL (p.implement impl) w o w₁) (hf : Exec RL (f.implement impl) w₁ (.ok ()) w₂) :
    Exec RL ((p.tryFinally f).implement impl) w o w₂ := by
  rw [Prog.tryFinally, Prog.implement_andThen]
  refine (exec_andThen _ _ _).2 ⟨o, w₁, hp, ?_⟩
  rw [Prog.implement_andThen]
  exact (exec_andThen _ _ _).2 ⟨.ok (), w₂, hf, rfl, rfl⟩

end Parts

end Alone

/-! ## Two levels of one system -/

/-- What is below a system: a world that answers commands, and a program for every call. -/
structure LowLevel (sys : System S) (C : Type) (R : C → Type) where
  World : Type
  Outcome : Type
  handle : Outcome → (d : C) → World → Except S.Exn (R d) × World
  move : sys.Move → World → World
  impl : (c : S.Call) → Prog (S.over C R) (S.Resp c)

variable {sys : System S}

/-- The same requests, in commands. -/
@[reducible] def LowLevel.system (low : LowLevel sys C R) : System (S.over C R) where
  World := low.World
  Outcome := low.Outcome
  handle := low.handle
  Move := sys.Move
  move := low.move
  Op := sys.Op
  Result := sys.Result
  prog := fun op => (sys.prog op).implement low.impl

/-- The obligations under which calls are atomic: in low-level runs under `Low` they take
effect at their last commands, in high-level runs under `High`, all of whose configurations
satisfy `K`. -/
structure Atomic (low : LowLevel sys C R) (Low : Config low.system → Label low.system → Prop)
    (High : Config sys → Label sys → Prop) (K : Config sys → Prop) where
  /-- What the low-level world stands for. -/
  represents : low.World → sys.World → Prop
  /-- What is left of a call, and what it has found out holds in this world. -/
  during : (c : S.Call) → Prog (S.over C R) (S.Resp c) → low.World → Prop
  /-- The calls that may be under way together. -/
  compatible : S.Call → S.Call → Prop
  begins : ∀ c w, during c (low.impl c) w
  not_done : ∀ c r w, ¬ during c (.done r) w
  unrolls : ∀ {c : S.Call} {A B : Type} {body : A → Prog (S.over C R) (A ⊕ B)} {a : A}
    {k : Except S.Exn B → Prog (S.over C R) (S.Resp c)} {w : low.World},
    during c (.iter body a k) w → during c (Prog.unroll body a k) w
  /-- A command is the last one of its call, or it changes nothing that is represented. -/
  command : ∀ {f : Config low.system} {v : sys.World} {i : Nat} {c : S.Call} {d : C}
    {g : Except S.Exn (R d) → Prog (S.over C R) (S.Resp c)} {out : low.Outcome},
    Low f (.call i out) → represents f.world v → during c (.call d g) f.world →
    (∃ out', g (low.handle out d f.world).1 = .done (sys.handle out' c v).1 ∧
      represents (low.handle out d f.world).2 (sys.handle out' c v).2 ∧
      ∀ h : Config sys, High h (.call i out')) ∨
    (represents (low.handle out d f.world).2 v ∧
      during c (g (low.handle out d f.world).1) (low.handle out d f.world).2)
  /-- A command of another call leaves what has been found out. -/
  stable : ∀ {w : low.World} {v : sys.World} {c c' : S.Call}
    {q : Prog (S.over C R) (S.Resp c)} {d : C}
    {g : Except S.Exn (R d) → Prog (S.over C R) (S.Resp c')} (out : low.Outcome),
    compatible c c' → represents w v → during c q w → during c' (.call d g) w →
    during c q (low.handle out d w).2
  stable_move : ∀ {w : low.World} {v : sys.World} {c : S.Call}
    {q : Prog (S.over C R) (S.Resp c)} (m : sys.Move),
    represents w v → during c q w → during c q (low.move m w)
  spawns : ∀ {f : Config low.system} {h : Config sys} {op : sys.Op},
    f.ops = h.ops → Low f (.spawn op) → High h (.spawn op)
  moves : ∀ {f : Config low.system} {h : Config sys} {m : sys.Move},
    represents f.world h.world → Low f (.move m) →
    High h (.move m) ∧ represents (low.move m f.world) (sys.move m h.world)
  unrolled : ∀ (h : Config sys) (i : Nat), High h (.unroll i)
  exclusive : ∀ {h : Config sys} {i j : Nat} {c c' : S.Call}, K h → i ≠ j →
    h.pending i = some c → h.pending j = some c' → compatible c c'

namespace Atomic

variable {low : LowLevel sys C R} {Low : Config low.system → Label low.system → Prop}
  {High : Config sys → Label sys → Prop} {K : Config sys → Prop}
  (ob : Atomic low Low High K)

/-- What is left of a request on the two levels: it is between calls, or inside one. -/
inductive Matches (w : low.World) :
    Prog (S.over C R) sys.Result → Prog S sys.Result → Prop where
  | between {p : Prog S sys.Result} (h : ∀ c k, p ≠ .call c k) :
      Matches w (p.implement low.impl) p
  | within {c : S.Call} {k : Except S.Exn (S.Resp c) → Prog S sys.Result}
      {q : Prog (S.over C R) (S.Resp c)} (h : ob.during c q w) :
      Matches w (q.andThen fun r => (k r).implement low.impl) (.call c k)

/-- The configurations of the two levels that correspond to each other. -/
structure Corresponds (f : Config low.system) (h : Config sys) : Prop where
  world : ob.represents f.world h.world
  length : f.requests.length = h.requests.length
  requests : ∀ {i : Nat} {rf : Request low.system} {rh : Request sys},
    f.requests[i]? = some rf → h.requests[i]? = some rh →
    rf.op = rh.op ∧ ob.Matches f.world rf.prog rh.prog

variable {ob} {w : low.World} {f : Config low.system} {h : Config sys}

/-- A request that begins something has found out nothing yet. -/
theorem matches_implement (w : low.World) (p : Prog S sys.Result) :
    ob.Matches w (p.implement low.impl) p := by
  cases p with
  | call c k => exact .within (ob.begins c w)
  | done r => exact .between (fun _ _ hcall => by cases hcall)
  | iter body a k => exact .between (fun _ _ hcall => by cases hcall)

/-- A request has ended on one level when it has on the other. -/
theorem Matches.result {p : Prog (S.over C R) sys.Result} {p' : Prog S sys.Result}
    (hm : ob.Matches w p p') (r : Except S.Exn sys.Result) : p = .done r ↔ p' = .done r := by
  cases hm with
  | between hno =>
      cases p' with
      | done r' => simp
      | call c k => exact absurd rfl (hno c k)
      | iter body a k =>
          constructor
          · intro heq
            cases heq
          · intro heq
            cases heq
  | @within c k q hduring =>
      constructor
      · intro heq
        cases q with
        | done r' => exact absurd hduring (ob.not_done c r' w)
        | call d g => cases heq
        | iter body a g => cases heq
      · intro heq
        cases heq

namespace Corresponds

/-- Both levels have the same requests. -/
theorem request (hc : ob.Corresponds f h) {i : Nat} {rf : Request low.system}
    (hf : f.requests[i]? = some rf) :
    ∃ rh, h.requests[i]? = some rh ∧ rf.op = rh.op ∧ ob.Matches f.world rf.prog rh.prog := by
  have hlt := (List.getElem?_eq_some_iff.1 hf).1
  rw [hc.length] at hlt
  have hsome := List.getElem?_eq_getElem hlt
  exact ⟨_, hsome, hc.requests hf hsome⟩

theorem request_none (hc : ob.Corresponds f h) {i : Nat} (hf : f.requests[i]? = none) :
    h.requests[i]? = none := by
  rw [List.getElem?_eq_none_iff] at hf ⊢
  rw [← hc.length]
  exact hf

theorem ops (hc : ob.Corresponds f h) : f.ops = h.ops := by
  apply List.ext_getElem?
  intro i
  rw [Config.ops, Config.ops, List.getElem?_map, List.getElem?_map]
  cases hf : f.requests[i]? with
  | none => rw [hc.request_none hf]; rfl
  | some rf =>
      rcases hc.request hf with ⟨rh, hh, hop, _⟩
      rw [hh]
      exact congrArg some hop

/-- The requests end alike. -/
theorem result (hc : ob.Corresponds f h) (i : Nat) : f.result i = h.result i := by
  cases hf : f.requests[i]? with
  | none => simp [Config.result, hf, hc.request_none hf]
  | some rf =>
      rcases rf with ⟨op, p⟩
      rcases hc.request hf with ⟨⟨op', p'⟩, hh, _, hm⟩
      apply Option.ext
      intro r
      rw [result_eq_some hf r, result_eq_some hh r]
      exact hm.result r

/-- After request `i` has gone on, on both levels. -/
theorem set (hc : ob.Corresponds f h) {i : Nat} {op : sys.Op}
    {p : Prog (S.over C R) sys.Result} {p' : Prog S sys.Result} {w' : low.World} {v' : sys.World}
    {log : List (Entry low.system)} {log' : List (Entry sys)}
    (hworld : ob.represents w' v') (hself : ob.Matches w' p p')
    (hother : ∀ {j : Nat} {rf : Request low.system} {rh : Request sys}, j ≠ i →
      f.requests[j]? = some rf → h.requests[j]? = some rh → ob.Matches w' rf.prog rh.prog) :
    ob.Corresponds ⟨w', f.requests.set i ⟨op, p⟩, log⟩
      ⟨v', h.requests.set i ⟨op, p'⟩, log'⟩ where
  world := hworld
  length := by simp [hc.length]
  requests := by
    intro j rf rh hf hh
    by_cases hij : j = i
    · subst hij
      have hlt : j < f.requests.length := by
        simpa using (List.getElem?_eq_some_iff.1 hf).1
      rw [List.getElem?_set_self hlt] at hf
      rw [List.getElem?_set_self (hc.length ▸ hlt)] at hh
      cases hf
      cases hh
      exact ⟨rfl, hself⟩
    · rw [List.getElem?_set_ne fun hji => hij hji.symm] at hf hh
      exact ⟨(hc.requests hf hh).1, hother hij hf hh⟩

/-- After request `i` has gone on inside a call. -/
theorem stay (hc : ob.Corresponds f h) {i : Nat} {op : sys.Op}
    {p : Prog (S.over C R) sys.Result} {p' : Prog S sys.Result} {w' : low.World}
    {log : List (Entry low.system)} (hh : h.requests[i]? = some ⟨op, p'⟩)
    (hworld : ob.represents w' h.world) (hself : ob.Matches w' p p')
    (hother : ∀ {j : Nat} {rf : Request low.system} {rh : Request sys}, j ≠ i →
      f.requests[j]? = some rf → h.requests[j]? = some rh → ob.Matches w' rf.prog rh.prog) :
    ob.Corresponds ⟨w', f.requests.set i ⟨op, p⟩, log⟩ h := by
  have hset : ob.Corresponds ⟨w', f.requests.set i ⟨op, p⟩, log⟩
      ⟨h.world, h.requests.set i ⟨op, p'⟩, h.log⟩ := hc.set hworld hself hother
  rw [set_of_getElem? hh] at hset
  exact hset

end Corresponds

/-! ## The simulation -/

/-- Time passes for what is under way. -/
theorem Matches.move {v : sys.World} {p : Prog (S.over C R) sys.Result}
    {p' : Prog S sys.Result} (hm : ob.Matches w p p') (hw : ob.represents w v)
    (m : sys.Move) : ob.Matches (low.move m w) p p' := by
  cases hm with
  | between hno => exact .between hno
  | within hduring => exact .within (ob.stable_move m hw hduring)

theorem Corresponds.move (hc : ob.Corresponds f h) {m : sys.Move}
    (hworld : ob.represents (low.move m f.world) (sys.move m h.world)) :
    ob.Corresponds { f with world := low.move m f.world }
      { h with world := sys.move m h.world } where
  world := hworld
  length := hc.length
  requests := fun hf hh =>
    ⟨(hc.requests hf hh).1, (hc.requests hf hh).2.move hc.world m⟩

/-- A new request comes in on both levels. -/
theorem Corresponds.spawn (hc : ob.Corresponds f h) (op : sys.Op) :
    ob.Corresponds (f.spawn op) (h.spawn op) where
  world := hc.world
  length := by simp [Config.spawn, hc.length]
  requests := by
    intro i rf rh hf hh
    simp only [Config.spawn] at hf hh
    by_cases hi : i < f.requests.length
    · rw [List.getElem?_append_left hi] at hf
      rw [List.getElem?_append_left (hc.length ▸ hi)] at hh
      exact hc.requests hf hh
    · rw [List.getElem?_append_right (by omega)] at hf
      rw [List.getElem?_append_right (by rw [← hc.length]; omega), ← hc.length] at hh
      rw [List.getElem?_singleton] at hf hh
      split at hf
      · cases hf
        rename_i hzero
        rw [if_pos hzero] at hh
        cases hh
        exact ⟨rfl, matches_implement _ _⟩
      · cases hf

/-- A command of request `i` leaves what the other requests have found out. -/
theorem Corresponds.others (hc : ob.Corresponds f h) (hK : K h) {i : Nat} {c : S.Call}
    (hpending : h.pending i = some c) {d : C}
    {g : Except S.Exn (R d) → Prog (S.over C R) (S.Resp c)}
    (hduring : ob.during c (.call d g) f.world) (out : low.Outcome) {j : Nat}
    {rf : Request low.system} {rh : Request sys} (hij : j ≠ i) (hf : f.requests[j]? = some rf)
    (hh : h.requests[j]? = some rh) :
    ob.Matches (low.handle out d f.world).2 rf.prog rh.prog := by
  have hm := (hc.requests hf hh).2
  rcases rf with ⟨op, p⟩
  rcases rh with ⟨op', p'⟩
  cases hm with
  | between hno => exact .between hno
  | @within c' k q hq =>
      have hpending' : h.pending j = some c' := by simp [Config.pending, hh]
      exact .within (ob.stable out (ob.exclusive hK hij hpending' hpending) hc.world hq hduring)

/-- A loop that a request is in: it is one of the call it is inside, or one of its own. -/
theorem Corresponds.unroll (hc : ob.Corresponds f h) {i : Nat} {op : sys.Op}
    {body : A → Prog (S.over C R) (A ⊕ B)} {a : A}
    {k : Except S.Exn B → Prog (S.over C R) sys.Result}
    (hf : f.requests[i]? = some ⟨op, .iter body a k⟩) :
    ∃ h', (h' = h ∨ h.step (.unroll i) = some h') ∧
      ob.Corresponds (f.resume i op (Prog.unroll body a k)) h' := by
  rcases hc.request hf with ⟨⟨op', p'⟩, hh, hop, hm⟩
  have hop : op = op' := hop
  subst hop
  generalize hp : Prog.iter body a k = p at hm
  have hm : ob.Matches f.world p p' := hm
  have hsame : ∀ {j : Nat} {rf : Request low.system} {rh : Request sys}, j ≠ i →
      f.requests[j]? = some rf → h.requests[j]? = some rh →
      ob.Matches f.world rf.prog rh.prog := fun _ hf hh => (hc.requests hf hh).2
  cases hm with
  | between hno =>
      cases p' with
      | done r => cases hp
      | call c k' => exact absurd rfl (hno c k')
      | iter body' a' k' =>
          -- a loop of the request itself
          cases hp
          refine ⟨_, Or.inr (by simp only [Config.step, hh]; rfl), ?_⟩
          refine hc.set hc.world ?_ hsame
          rw [← Prog.implement_unroll]
          exact matches_implement _ _
  | @within c k' q hduring =>
      cases q with
      | done r => exact absurd hduring (ob.not_done c r _)
      | call d g => cases hp
      | iter body' a' k'' =>
          -- a loop inside the call
          cases hp
          refine ⟨h, Or.inl rfl, hc.stay hh hc.world ?_ hsame⟩
          rw [← Prog.unroll_andThen]
          exact .within (ob.unrolls hduring)

/-- A command of a request: its call takes effect, or is still under way. -/
theorem Corresponds.command (hc : ob.Corresponds f h) (hK : K h) {i : Nat} {op : sys.Op} {d : C}
    {g : Except S.Exn (R d) → Prog (S.over C R) sys.Result} {out : low.Outcome}
    (hlow : Low f (.call i out))
    (hf : f.requests[i]? = some ⟨op, Prog.call (S := S.over C R) d g⟩) :
    ∃ h', (h' = h ∨ ∃ out', High h (.call i out') ∧ h.step (.call i out') = some h') ∧
      ob.Corresponds (f.answer i op d g out) h' := by
  rcases hc.request hf with ⟨⟨op', p'⟩, hh, hop, hm⟩
  have hop : op = op' := hop
  subst hop
  generalize hp : Prog.call (S := S.over C R) d g = p at hm
  have hm : ob.Matches f.world p p' := hm
  cases hm with
  | between hno =>
      cases p' with
      | done r => cases hp
      | call c k' => exact absurd rfl (hno c k')
      | iter body' a' k' => cases hp
  | @within c k q hduring =>
      cases q with
      | done r => exact absurd hduring (ob.not_done c r _)
      | iter body a k' => cases hp
      | call d' g' =>
          cases hp
          have hpending : h.pending i = some c := by simp [Config.pending, hh]
          rcases ob.command hlow hc.world hduring with ⟨out', hlast, hworld, hhigh⟩ |
            ⟨hworld, hgoes⟩
          · refine ⟨h.answer i op c k out', Or.inr ⟨out', hhigh h, by simp [Config.step, hh]⟩, ?_⟩
            refine hc.set hworld ?_ fun hij hf hh => hc.others hK hpending hduring out hij hf hh
            show ob.Matches _ ((g' _).andThen _) _
            rw [hlast]
            exact matches_implement _ _
          · exact ⟨h, Or.inl rfl, hc.stay hh hworld (.within hgoes) fun hij hf hh =>
              hc.others hK hpending hduring out hij hf hh⟩

/-- Every run of the low level is one of the high level: with the same requests, which end
alike, in the world that the low-level one stands for. -/
theorem refines {w₀ : low.World} {v₀ : sys.World} (hw₀ : ob.represents w₀ v₀)
    (hK : ∀ h, Reach High (Config.start v₀) h → K h) (hf : Reach Low (Config.start w₀) f) :
    ∃ h, Reach High (Config.start v₀) h ∧ ob.Corresponds f h := by
  induction hf with
  | start => exact ⟨_, .start, ⟨hw₀, rfl, fun hf _ => by cases hf⟩⟩
  | @step f f' l _ hlow hs ih =>
      rcases ih with ⟨h, hh, hc⟩
      rcases step_cases hs with ⟨op, rfl, rfl⟩ | ⟨m, rfl, rfl⟩ |
        ⟨i, op, A, B, body, a, k, rfl, hreq, rfl⟩ | ⟨i, out, op, d, g, rfl, hreq, rfl⟩
      · exact ⟨_, .step hh (ob.spawns hc.ops hlow) rfl, hc.spawn op⟩
      · rcases ob.moves hc.world hlow with ⟨hhigh, hworld⟩
        exact ⟨_, .step hh hhigh rfl, hc.move hworld⟩
      · rcases hc.unroll hreq with ⟨h', rfl | hs', hc'⟩
        · exact ⟨_, hh, hc'⟩
        · exact ⟨_, .step hh (ob.unrolled h i) hs', hc'⟩
      · rcases hc.command (hK h hh) hlow hreq with ⟨h', rfl | ⟨out', hhigh, hs'⟩, hc'⟩
        · exact ⟨_, hh, hc'⟩
        · exact ⟨_, .step hh hhigh hs', hc'⟩

end Atomic

end Await
