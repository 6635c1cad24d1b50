import FileUploader.Await.Program

/-! # Renaming

Some calls of a program name a resource by what an earlier call was answered. Where the
names are different ones, the program makes the calls with the other names, and cannot
tell: that program is the renamed one.

`rename` commutes with every way of putting programs together. A program that is `Closed`
has no name of its own: it is the same renamed.
-/

namespace Await

variable {S : Sig}

/-- Other names in calls. In the answers the names are changed back. -/
structure Renaming (S : Sig) where
  call : S.Call → S.Call
  back : (c : S.Call) → Except S.Exn (S.Resp (call c)) → Except S.Exn (S.Resp c)

namespace Prog

variable {α β A B : Type} (ρ : Renaming S)

/-- The program with other names. -/
def rename : {α : Type} → Prog S α → Prog S α
  | _, .done r => .done r
  | _, .call c k => .call (ρ.call c) (fun r => rename (k (ρ.back c r)))
  | _, .iter body a k => .iter (fun a => rename (body a)) a (fun r => rename (k r))

@[simp] theorem rename_done (r : Except S.Exn α) : rename ρ (.done r) = .done r := rfl

@[simp] theorem rename_call (c : S.Call) (k : Except S.Exn (S.Resp c) → Prog S α) :
    rename ρ (.call c k) = .call (ρ.call c) (fun r => rename ρ (k (ρ.back c r))) := rfl

@[simp] theorem rename_iter (body : A → Prog S (A ⊕ B)) (a : A)
    (k : Except S.Exn B → Prog S α) : rename ρ (.iter body a k) =
      .iter (fun a => rename ρ (body a)) a (fun r => rename ρ (k r)) := rfl

/-- Renaming ends no program. -/
theorem rename_eq_done {p : Prog S α} {r : Except S.Exn α} :
    rename ρ p = .done r ↔ p = .done r := by
  cases p with
  | done r' => exact Iff.rfl
  | call c k => exact ⟨(fun h => by cases h), (fun h => by cases h)⟩
  | iter body a k => exact ⟨(fun h => by cases h), (fun h => by cases h)⟩

/-! ## Composition -/

theorem rename_andThen (p : Prog S α) (f : Except S.Exn α → Prog S β) :
    rename ρ (andThen p f) = andThen (rename ρ p) (fun r => rename ρ (f r)) := by
  induction p with
  | done r => rfl
  | call c k ih => simp [ih]
  | iter body a k _ ih => simp [ih]

@[simp] theorem rename_raise (x : S.Exn) : rename ρ (raise x : Prog S α) = raise x := rfl

@[simp] theorem rename_pure (a : α) : rename ρ (pure a : Prog S α) = pure a := rfl

@[simp] theorem rename_bind (p : Prog S α) (f : α → Prog S β) :
    rename ρ (p >>= f) = rename ρ p >>= fun a => rename ρ (f a) := by
  rw [bind_eq, bind_eq, rename_andThen]
  congr 1
  funext r
  cases r with
  | error x => rfl
  | ok a => rfl

@[simp] theorem rename_tryExcept (p : Prog S α) (h : S.Exn → Prog S α) :
    rename ρ (p.tryExcept h) = (rename ρ p).tryExcept (fun x => rename ρ (h x)) := by
  rw [tryExcept, tryExcept, rename_andThen]
  congr 1
  funext r
  cases r with
  | error x => rfl
  | ok a => rfl

@[simp] theorem rename_tryFinally (p : Prog S α) (f : Prog S Unit) :
    rename ρ (p.tryFinally f) = (rename ρ p).tryFinally (rename ρ f) := by
  rw [tryFinally, tryFinally, rename_andThen]
  congr 1
  funext r
  rw [rename_andThen]
  congr 1
  funext r'
  cases r' with
  | error x => rfl
  | ok a => rfl

@[simp] theorem rename_raiseIf (bad : Prop) [Decidable bad] (x : S.Exn) :
    rename ρ (raiseIf bad x : Prog S Unit) = raiseIf bad x := by
  unfold raiseIf
  split <;> rfl

@[simp] theorem rename_ofExcept (r : Except S.Exn α) :
    rename ρ (ofExcept r : Prog S α) = ofExcept r := rfl

@[simp] theorem rename_loop (body : A → Prog S (A ⊕ B)) (a : A) :
    rename ρ (loop body a) = loop (fun a => rename ρ (body a)) a := rfl

/-- A renamed loop is unrolled to the renamed unrolling. -/
theorem rename_unroll (body : A → Prog S (A ⊕ B)) (a : A) (k : Except S.Exn B → Prog S α) :
    rename ρ (unroll body a k) =
      unroll (fun a => rename ρ (body a)) a (fun r => rename ρ (k r)) := by
  rw [unroll, unroll, rename_andThen]
  congr 1
  funext r
  rcases r with x | a' | b
  · rfl
  · rfl
  · rfl

/-! ## Closed programs -/

variable {ι : Type} {ρs : ι → Renaming S}

/-- No renaming of the family changes the program. -/
def Closed (ρs : ι → Renaming S) (p : Prog S α) : Prop := ∀ i, rename (ρs i) p = p

theorem Closed.unroll {body : A → Prog S (A ⊕ B)} {a : A} {k : Except S.Exn B → Prog S α}
    (h : Closed ρs (.iter body a k)) : Closed ρs (unroll body a k) := by
  intro i
  have heq := h i
  simp only [rename_iter, iter.injEq, heq_eq_eq, true_and] at heq
  rw [rename_unroll, heq.1, heq.2]

theorem closed_raise (x : S.Exn) : Closed ρs (raise x : Prog S α) :=
  fun i => rename_raise (ρs i) x

theorem closed_pure (a : α) : Closed ρs (pure a : Prog S α) := fun i => rename_pure (ρs i) a

theorem closed_raiseIf (bad : Prop) [Decidable bad] (x : S.Exn) :
    Closed ρs (raiseIf bad x : Prog S Unit) := fun i => rename_raiseIf (ρs i) bad x

theorem closed_ofExcept (r : Except S.Exn α) : Closed ρs (ofExcept r : Prog S α) :=
  fun i => rename_ofExcept (ρs i) r

section Parts

variable {p : Prog S α} (hp : Closed ρs p)
include hp

theorem Closed.bind {f : α → Prog S β} (hf : ∀ a, Closed ρs (f a)) : Closed ρs (p >>= f) := by
  intro i
  rw [rename_bind, hp i]
  congr 1
  funext a
  exact hf a i

theorem Closed.tryExcept {h : S.Exn → Prog S α} (hh : ∀ x, Closed ρs (h x)) :
    Closed ρs (p.tryExcept h) := by
  intro i
  rw [rename_tryExcept, hp i]
  congr 1
  funext x
  exact hh x i

theorem Closed.tryFinally {f : Prog S Unit} (hf : Closed ρs f) : Closed ρs (p.tryFinally f) := by
  intro i
  rw [rename_tryFinally, hp i, hf i]

end Parts

theorem closed_loop {body : A → Prog S (A ⊕ B)} (a : A) (h : ∀ a, Closed ρs (body a)) :
    Closed ρs (loop body a) := by
  intro i
  rw [rename_loop]
  congr 1
  funext a
  exact h a i

end Prog

end Await
