import FileUploader.Await.Program

/-! # Running a program alone

`Exec R p w o w'`: started in world `w`, with nothing else running, `p` can end
with outcome `o` in world `w'`, where `R` says how each call may be answered.
A deterministic world, a world where calls may fail and a world where time
passes between the calls differ in `R` only.

`Exec` is defined by recursion on the tree, so each constructor has an equation;
a loop is given by the relation `Rounds` of its rounds.
-/

namespace Await

variable {S : Sig} {W α β A B : Type}

/-- How a world may answer calls. -/
abbrev Answers (S : Sig) (W : Type) :=
  (c : S.Call) → W → Except S.Exn (S.Resp c) → W → Prop

/-- The rounds of a loop, from the relation of one round: go on with a new loop
state, leave with a value, or leave with an exception. -/
inductive Rounds {X : Type} (round : A → W → Except X (A ⊕ B) → W → Prop) :
    A → W → Except X B → W → Prop where
  | again {a a' : A} {w w₁ w₂ : W} {o : Except X B} :
      round a w (.ok (.inl a')) w₁ → Rounds round a' w₁ o w₂ → Rounds round a w o w₂
  | stop {a : A} {b : B} {w w₁ : W} :
      round a w (.ok (.inr b)) w₁ → Rounds round a w (.ok b) w₁
  | fail {a : A} {x : X} {w w₁ : W} :
      round a w (.error x) w₁ → Rounds round a w (.error x) w₁

/-- Big-step execution of a program that runs alone. -/
def Exec (R : Answers S W) : {α : Type} → Prog S α → W → Except S.Exn α → W → Prop
  | _, .done r, w, o, w' => o = r ∧ w' = w
  | _, .call c k, w, o, w' => ∃ r w₁, R c w r w₁ ∧ Exec R (k r) w₁ o w'
  | _, .iter body a k, w, o, w' =>
      ∃ r w₁, Rounds (fun a => Exec R (body a)) a w r w₁ ∧ Exec R (k r) w₁ o w'

variable {R : Answers S W} {w w' : W}

/-! ## One rule per program construct -/

@[simp] theorem exec_done (r o : Except S.Exn α) :
    Exec R (.done r : Prog S α) w o w' ↔ o = r ∧ w' = w := Iff.rfl

@[simp] theorem exec_pure (a : α) (o : Except S.Exn α) :
    Exec R (pure a : Prog S α) w o w' ↔ o = .ok a ∧ w' = w := Iff.rfl

@[simp] theorem exec_raise (x : S.Exn) (o : Except S.Exn α) :
    Exec R (Prog.raise x : Prog S α) w o w' ↔ o = .error x ∧ w' = w := Iff.rfl

@[simp] theorem exec_ofExcept (r o : Except S.Exn α) :
    Exec R (Prog.ofExcept r) w o w' ↔ o = r ∧ w' = w := Iff.rfl

theorem exec_await (c : S.Call) (o : Except S.Exn (S.Resp c)) :
    Exec R (Prog.await c) w o w' ↔ R c w o w' := by
  constructor
  · rintro ⟨r, w₁, hR, rfl, rfl⟩
    exact hR
  · intro hR
    exact ⟨o, w', hR, rfl, rfl⟩

/-- Executing `andThen`: the two parts share the world in between. -/
theorem exec_andThen (p : Prog S α) (f : Except S.Exn α → Prog S β) (o : Except S.Exn β) :
    Exec R (p.andThen f) w o w' ↔ ∃ r w₁, Exec R p w r w₁ ∧ Exec R (f r) w₁ o w' := by
  induction p generalizing w with
  | done r =>
      constructor
      · intro h
        exact ⟨r, w, ⟨rfl, rfl⟩, h⟩
      · rintro ⟨r', w₁, ⟨rfl, rfl⟩, h⟩
        exact h
  | call c k ih =>
      simp only [Prog.andThen_call, Exec, ih]
      constructor
      · rintro ⟨r, w₁, hR, r', w₂, hk, hf⟩
        exact ⟨r', w₂, ⟨r, w₁, hR, hk⟩, hf⟩
      · rintro ⟨r', w₂, ⟨r, w₁, hR, hk⟩, hf⟩
        exact ⟨r, w₁, hR, r', w₂, hk, hf⟩
  | iter body a k _ ih =>
      simp only [Prog.andThen_iter, Exec, ih]
      constructor
      · rintro ⟨r, w₁, hR, r', w₂, hk, hf⟩
        exact ⟨r', w₂, ⟨r, w₁, hR, hk⟩, hf⟩
      · rintro ⟨r', w₂, ⟨r, w₁, hR, hk⟩, hf⟩
        exact ⟨r, w₁, hR, r', w₂, hk, hf⟩

/-- Executing a sequence: the first part raised, or it returned and the second
part ran from where it left the world. -/
theorem exec_bind (p : Prog S α) (f : α → Prog S β) (o : Except S.Exn β) :
    Exec R (p >>= f) w o w' ↔
      (∃ x, Exec R p w (.error x) w' ∧ o = .error x) ∨
      ∃ a w₁, Exec R p w (.ok a) w₁ ∧ Exec R (f a) w₁ o w' := by
  rw [Prog.bind_eq, exec_andThen]
  constructor
  · rintro ⟨x | a, w₁, hp, hf⟩
    · obtain ⟨rfl, rfl⟩ := hf
      exact Or.inl ⟨x, hp, rfl⟩
    · exact Or.inr ⟨a, w₁, hp, hf⟩
  · rintro (⟨x, hp, rfl⟩ | ⟨a, w₁, hp, hf⟩)
    · exact ⟨.error x, w', hp, rfl, rfl⟩
    · exact ⟨.ok a, w₁, hp, hf⟩

/-- Executing `try`/`except`. -/
theorem exec_tryExcept (p : Prog S α) (h : S.Exn → Prog S α) (o : Except S.Exn α) :
    Exec R (p.tryExcept h) w o w' ↔
      (∃ a, Exec R p w (.ok a) w' ∧ o = .ok a) ∨
      ∃ x w₁, Exec R p w (.error x) w₁ ∧ Exec R (h x) w₁ o w' := by
  rw [Prog.tryExcept, exec_andThen]
  constructor
  · rintro ⟨x | a, w₁, hp, hf⟩
    · exact Or.inr ⟨x, w₁, hp, hf⟩
    · obtain ⟨rfl, rfl⟩ := hf
      exact Or.inl ⟨a, hp, rfl⟩
  · rintro (⟨a, hp, rfl⟩ | ⟨x, w₁, hp, hf⟩)
    · exact ⟨.ok a, w', hp, rfl, rfl⟩
    · exact ⟨.error x, w₁, hp, hf⟩

/-- Executing `try`/`finally`: the cleanup runs on every way out of `p`. -/
theorem exec_tryFinally (p : Prog S α) (f : Prog S Unit) (o : Except S.Exn α) :
    Exec R (p.tryFinally f) w o w' ↔
      ∃ r w₁, Exec R p w r w₁ ∧
        (Exec R f w₁ (.ok ()) w' ∧ o = r ∨ ∃ x, Exec R f w₁ (.error x) w' ∧ o = .error x) := by
  simp only [Prog.tryFinally, exec_andThen]
  constructor
  · rintro ⟨r, w₁, hp, x | a, w₂, hf, ho⟩
    · obtain ⟨rfl, rfl⟩ := ho
      exact ⟨r, w₁, hp, Or.inr ⟨x, hf, rfl⟩⟩
    · obtain ⟨rfl, rfl⟩ := ho
      exact ⟨_, w₁, hp, Or.inl ⟨hf, rfl⟩⟩
  · rintro ⟨r, w₁, hp, ⟨hf, rfl⟩ | ⟨x, hf, rfl⟩⟩
    · exact ⟨_, w₁, hp, .ok (), w', hf, rfl, rfl⟩
    · exact ⟨r, w₁, hp, .error x, w', hf, rfl, rfl⟩

theorem exec_raiseIf (bad : Prop) [Decidable bad] (x : S.Exn) (o : Except S.Exn Unit) :
    Exec R (Prog.raiseIf bad x) w o w' ↔
      w' = w ∧ (bad ∧ o = .error x ∨ ¬ bad ∧ o = .ok ()) := by
  unfold Prog.raiseIf
  by_cases hb : bad <;> simp [hb, and_comm]

theorem exec_loop (body : A → Prog S (A ⊕ B)) (a : A) (o : Except S.Exn B) :
    Exec R (Prog.loop body a) w o w' ↔ Rounds (fun a => Exec R (body a)) a w o w' := by
  constructor
  · rintro ⟨r, w₁, hr, rfl, rfl⟩
    exact hr
  · intro hr
    exact ⟨o, w', hr, rfl, rfl⟩

/-! ## Big steps and unrolling -/

/-- Unrolling a loop once does not change what it can do. -/
theorem exec_unroll (body : A → Prog S (A ⊕ B)) (a : A) (k : Except S.Exn B → Prog S α)
    (o : Except S.Exn α) :
    Exec R (Prog.unroll body a k) w o w' ↔ Exec R (.iter body a k) w o w' := by
  rw [Prog.unroll, exec_andThen]
  constructor
  · rintro ⟨x | (a' | b), w₁, hb, hk⟩
    · exact ⟨.error x, w₁, .fail hb, hk⟩
    · obtain ⟨r, w₂, hr, hk⟩ := hk
      exact ⟨r, w₂, .again hb hr, hk⟩
    · exact ⟨.ok b, w₁, .stop hb, hk⟩
  · rintro ⟨r, w₁, hr, hk⟩
    cases hr with
    | again hb hr' => exact ⟨_, _, hb, r, w₁, hr', hk⟩
    | stop hb => exact ⟨_, _, hb, hk⟩
    | fail hb => exact ⟨_, _, hb, hk⟩

/-- A smaller answer relation has fewer executions. -/
theorem Exec.mono {R' : Answers S W} (hR : ∀ c w r w', R c w r w' → R' c w r w')
    {p : Prog S α} {o : Except S.Exn α} (h : Exec R p w o w') : Exec R' p w o w' := by
  induction p generalizing w w' with
  | done r => exact h
  | call c k ih =>
      obtain ⟨r, w₁, hc, hk⟩ := h
      exact ⟨r, w₁, hR _ _ _ _ hc, ih r hk⟩
  | iter body a k ihb ihk =>
      obtain ⟨r, w₁, hr, hk⟩ := h
      refine ⟨r, w₁, ?_, ihk r hk⟩
      clear hk
      induction hr with
      | again hb _ ih => exact .again (ihb _ hb) ih
      | stop hb => exact .stop (ihb _ hb)
      | fail hb => exact .fail (ihb _ hb)

/-- Where every call has one answer, a program has one execution. -/
theorem Exec.unique (hR : ∀ c w r₁ w₁ r₂ w₂, R c w r₁ w₁ → R c w r₂ w₂ → r₁ = r₂ ∧ w₁ = w₂)
    {p : Prog S α} {o₁ o₂ : Except S.Exn α} {w₁ w₂ : W} (h₁ : Exec R p w o₁ w₁)
    (h₂ : Exec R p w o₂ w₂) : o₁ = o₂ ∧ w₁ = w₂ := by
  induction p generalizing w w₁ w₂ with
  | done r => exact ⟨h₁.1.trans h₂.1.symm, h₁.2.trans h₂.2.symm⟩
  | call c k ih =>
      obtain ⟨r, u, hc, hk⟩ := h₁
      obtain ⟨r', u', hc', hk'⟩ := h₂
      obtain ⟨rfl, rfl⟩ := hR c w r u r' u' hc hc'
      exact ih r hk hk'
  | iter body a k ihb ihk =>
      obtain ⟨r, u, hr, hk⟩ := h₁
      obtain ⟨r', u', hr', hk'⟩ := h₂
      -- one round after the other is the same
      have hrounds : r = r' ∧ u = u' := by
        clear hk hk'
        induction hr with
        | again hb _ ih =>
            -- the second run must have ended this round in the same way
            cases hr' with
            | again hb' hr' =>
                obtain ⟨hsame, rfl⟩ := ihb _ hb hb'
                cases hsame
                exact ih hr'
            | stop hb' => cases (ihb _ hb hb').1
            | fail hb' => cases (ihb _ hb hb').1
        | stop hb =>
            cases hr' with
            | again hb' _ => cases (ihb _ hb hb').1
            | stop hb' =>
                obtain ⟨hsame, rfl⟩ := ihb _ hb hb'
                cases hsame
                exact ⟨rfl, rfl⟩
            | fail hb' => cases (ihb _ hb hb').1
        | fail hb =>
            cases hr' with
            | again hb' _ => cases (ihb _ hb hb').1
            | stop hb' => cases (ihb _ hb hb').1
            | fail hb' =>
                obtain ⟨hsame, rfl⟩ := ihb _ hb hb'
                cases hsame
                exact ⟨rfl, rfl⟩
      obtain ⟨rfl, rfl⟩ := hrounds
      exact ihk r hk hk'

/-- A loop in which every round goes on does not end. -/
theorem not_rounds {X : Type} {round : A → W → Except X (A ⊕ B) → W → Prop}
    (hround : ∀ a w r w₁, round a w r w₁ → ∃ a', r = .ok (.inl a')) {a : A} {o : Except X B} :
    ¬ Rounds round a w o w' := by
  intro h
  induction h with
  | again _ _ ih => exact ih
  | stop hb =>
      rcases hround _ _ _ _ hb with ⟨_, hx⟩
      cases hx
  | fail hb =>
      rcases hround _ _ _ _ hb with ⟨_, hx⟩
      cases hx

/-! ## Programs that end -/

/-- The answers let `p` run to an end. -/
def Ends (R : Answers S W) (p : Prog S α) (w : W) : Prop := ∃ o w', Exec R p w o w'

section Ends

theorem ends_done (r : Except S.Exn α) : Ends R (.done r : Prog S α) w := ⟨r, w, rfl, rfl⟩

theorem ends_await {c : S.Call} (h : ∃ r w₁, R c w r w₁) : Ends R (Prog.await c) w := by
  rcases h with ⟨r, w₁, hr⟩
  exact ⟨r, w₁, (exec_await c r).2 hr⟩

/-- The second part has to end wherever the first part may leave the world. -/
theorem Ends.andThen {p : Prog S α} {f : Except S.Exn α → Prog S β} (hp : Ends R p w)
    (hf : ∀ r w₁, Exec R p w r w₁ → Ends R (f r) w₁) : Ends R (p.andThen f) w := by
  rcases hp with ⟨r, w₁, hp⟩
  rcases hf r w₁ hp with ⟨o, w₂, hf⟩
  exact ⟨o, w₂, (exec_andThen p f o).2 ⟨r, w₁, hp, hf⟩⟩

theorem Ends.bind {p : Prog S α} {f : α → Prog S β} (hp : Ends R p w)
    (hf : ∀ a w₁, Exec R p w (.ok a) w₁ → Ends R (f a) w₁) : Ends R (p >>= f) w := by
  refine hp.andThen fun r w₁ h => ?_
  cases r with
  | error x => exact ends_done _
  | ok a => exact hf a w₁ h

/-- A check ends the program, or changes nothing. -/
theorem ends_raiseIf_bind {bad : Prop} [Decidable bad] {x : S.Exn} {f : Unit → Prog S β}
    (hf : ¬ bad → Ends R (f ()) w) : Ends R (Prog.raiseIf bad x >>= f) w := by
  unfold Prog.raiseIf
  by_cases hb : bad
  · rw [if_pos hb]
    exact ends_done _
  · rw [if_neg hb]
    exact hf hb

theorem Ends.tryExcept {p : Prog S α} {h : S.Exn → Prog S α} (hp : Ends R p w)
    (hh : ∀ x w₁, Exec R p w (.error x) w₁ → Ends R (h x) w₁) : Ends R (p.tryExcept h) w := by
  refine hp.andThen fun r w₁ hr => ?_
  cases r with
  | error x => exact hh x w₁ hr
  | ok a => exact ends_done _

theorem Ends.tryFinally {p : Prog S α} {f : Prog S Unit} (hp : Ends R p w)
    (hf : ∀ w₁, Ends R f w₁) : Ends R (p.tryFinally f) w := by
  refine hp.andThen fun r w₁ _ => (hf w₁).andThen fun r' w₂ _ => ?_
  cases r' with
  | error x => exact ends_done _
  | ok a => exact ends_done _

/-- A loop ends if its first round does, and the loop that is left after it. -/
theorem Ends.loop {body : A → Prog S (A ⊕ B)} {a : A} (hbody : Ends R (body a) w)
    (hrest : ∀ a' w₁, Exec R (body a) w (.ok (.inl a')) w₁ → Ends R (Prog.loop body a') w₁) :
    Ends R (Prog.loop body a) w := by
  rcases hbody with ⟨x | a' | b, w₁, hbody⟩
  · exact ⟨.error x, w₁, (exec_loop body a _).2 (.fail hbody)⟩
  · rcases hrest a' w₁ hbody with ⟨o, w₂, hrest⟩
    exact ⟨o, w₂, (exec_loop body a o).2 (.again hbody ((exec_loop body a' o).1 hrest))⟩
  · exact ⟨.ok b, w₁, (exec_loop body a _).2 (.stop hbody)⟩

end Ends

/-! ## The interpreter

For a world that answers deterministically the executions can be computed. The
fuel bounds the number of calls and loop rounds. -/

/-- Run a program alone in a deterministic world. -/
def Prog.run (h : (c : S.Call) → W → Except S.Exn (S.Resp c) × W) :
    Nat → {α : Type} → Prog S α → W → Option (Except S.Exn α × W)
  | 0, _, _, _ => none
  | _ + 1, _, .done r, w => some (r, w)
  | n + 1, _, .call c k, w => Prog.run h n (k (h c w).1) (h c w).2
  | n + 1, _, .iter body a k, w => Prog.run h n (Prog.unroll body a k) w

/-- What the interpreter computes is an execution. -/
theorem exec_of_run {h : (c : S.Call) → W → Except S.Exn (S.Resp c) × W}
    (hR : ∀ c w, R c w (h c w).1 (h c w).2) (n : Nat) (p : Prog S α) (o : Except S.Exn α)
    (hrun : p.run h n w = some (o, w')) : Exec R p w o w' := by
  induction n generalizing p w with
  | zero => simp [Prog.run] at hrun
  | succ n ih =>
      cases p with
      | done r =>
          simp only [Prog.run, Option.some.injEq, Prod.mk.injEq] at hrun
          exact ⟨hrun.1.symm, hrun.2.symm⟩
      | call c k => exact ⟨_, _, hR c w, ih (k _) hrun⟩
      | iter body a k => exact (exec_unroll body a k o).1 (ih _ hrun)

/-- A computed execution shows that there is one with what it ends in. -/
theorem exists_exec_of_run {h : (c : S.Call) → W → Except S.Exn (S.Resp c) × W}
    (hR : ∀ c w, R c w (h c w).1 (h c w).2) (n : Nat) {p : Prog S α}
    {check : Except S.Exn α × W → Bool} (hrun : (p.run h n w).any check = true) :
    ∃ o w', Exec R p w o w' ∧ check (o, w') = true := by
  cases hp : p.run h n w with
  | none => simp [hp] at hrun
  | some s =>
      rw [hp] at hrun
      exact ⟨s.1, s.2, exec_of_run hR n p s.1 hp, hrun⟩

/-! ## Termination -/

section Termination

variable {h : (c : S.Call) → W → Except S.Exn (S.Resp c) × W} {w₁ w₂ : W}

/-- Run alone in a deterministic world, the program ends, with `o` in world `w'`. -/
def Halts (h : (c : S.Call) → W → Except S.Exn (S.Resp c) × W) (p : Prog S α) (w : W)
    (o : Except S.Exn α) (w' : W) : Prop :=
  ∃ n, p.run h n w = some (o, w')

/-- The answers of a deterministic world. -/
def answersOf (h : (c : S.Call) → W → Except S.Exn (S.Resp c) × W) : Answers S W :=
  fun c w r w' => h c w = (r, w')

/-- A call is answered in one way. -/
theorem exec_await_bind (c : S.Call) (f : S.Resp c → Prog S α) (o : Except S.Exn α) :
    Exec (answersOf h) (Prog.await c >>= f) w o w' ↔
      Exec (answersOf h) (Prog.onOk f (h c w).1) (h c w).2 o w' := by
  constructor
  · intro hexec
    rcases hexec with ⟨r, w₁, hc, hk⟩
    have hr : (h c w).1 = r := by rw [hc]
    have hw : (h c w).2 = w₁ := by rw [hc]
    subst hr hw
    exact hk
  · intro hexec
    exact ⟨_, _, rfl, hexec⟩

theorem run_succ {n : Nat} {p : Prog S α} {s : Except S.Exn α × W}
    (hrun : p.run h n w = some s) : p.run h (n + 1) w = some s := by
  induction n generalizing p w with
  | zero => cases hrun
  | succ n ih =>
      cases p with
      | done r => exact hrun
      | call c k => exact ih hrun
      | iter body a k => exact ih hrun

/-- More fuel changes nothing. -/
theorem run_add {n : Nat} {p : Prog S α} {s : Except S.Exn α × W}
    (hrun : p.run h n w = some s) (m : Nat) : p.run h (n + m) w = some s := by
  induction m with
  | zero => exact hrun
  | succ m ih => exact run_succ ih

/-- The two parts of a composition one after the other. -/
theorem run_andThen {n m : Nat} {p : Prog S α} {f : Except S.Exn α → Prog S β}
    {r : Except S.Exn α} {s : Except S.Exn β × W} (hp : p.run h n w = some (r, w₁))
    (hf : (f r).run h m w₁ = some s) : (p.andThen f).run h (n + m) w = some s := by
  induction n generalizing α p w with
  | zero => cases hp
  | succ n ih =>
      have hfuel : n + 1 + m = (n + m) + 1 := by omega
      rw [hfuel]
      cases p with
      | done r' =>
          cases hp
          rw [Nat.add_comm n m]
          exact run_add hf (n + 1)
      | call c k => exact ih hp hf
      | iter body a k =>
          -- what follows the loop also follows its next round
          have hagain : (fun r => (Prog.again body k r).andThen f) =
              Prog.again body fun r => (k r).andThen f := by
            funext r
            rcases r with x | a' | b <;> rfl
          have hround := ih (p := Prog.unroll body a k) hp hf
          rw [Prog.unroll, Prog.andThen_assoc, hagain] at hround
          exact hround

/-- Every execution is computed, with enough fuel. -/
theorem halts_of_exec {p : Prog S α} {o : Except S.Exn α}
    (hexec : Exec (answersOf h) p w o w') : Halts h p w o w' := by
  induction p generalizing w w' with
  | done r =>
      rcases hexec with ⟨rfl, rfl⟩
      exact ⟨1, rfl⟩
  | call c k ih =>
      rcases hexec with ⟨r, w₁, hc, hk⟩
      rcases ih r hk with ⟨n, hn⟩
      refine ⟨n + 1, ?_⟩
      rw [Prog.run, hc]
      exact hn
  | iter body a k ihb ihk =>
      rcases hexec with ⟨r, w₁, hr, hk⟩
      rcases ihk r hk with ⟨m, hm⟩
      clear hk
      induction hr with
      | again hb _ ih =>
          rcases ihb _ hb with ⟨n, hn⟩
          rcases ih hm with ⟨m', hm'⟩
          exact ⟨n + m' + 1, run_andThen hn hm'⟩
      | stop hb =>
          rcases ihb _ hb with ⟨n, hn⟩
          exact ⟨n + m + 1, run_andThen hn hm⟩
      | fail hb =>
          rcases ihb _ hb with ⟨n, hn⟩
          exact ⟨n + m + 1, run_andThen hn hm⟩

/-- In a deterministic world the one execution of a program is the way it ends. -/
theorem halts_iff {p : Prog S α} {o : Except S.Exn α} :
    Halts h p w o w' ↔ Exec (answersOf h) p w o w' := by
  constructor
  · intro hhalts
    rcases hhalts with ⟨n, hn⟩
    exact exec_of_run (fun _ _ => rfl) n p o hn
  · exact halts_of_exec

/-- A program ends in one way. -/
theorem Halts.unique {p : Prog S α} {o₁ o₂ : Except S.Exn α} (h₁ : Halts h p w o₁ w₁)
    (h₂ : Halts h p w o₂ w₂) : o₁ = o₂ ∧ w₁ = w₂ := by
  refine Exec.unique (fun c w r₁ w₁ r₂ w₂ hr₁ hr₂ => ?_) (halts_iff.1 h₁) (halts_iff.1 h₂)
  cases hr₁.symm.trans hr₂
  exact ⟨rfl, rfl⟩

end Termination

end Await
