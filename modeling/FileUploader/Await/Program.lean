import Mathlib.Logic.Basic

/-! # Awaiting programs

Asynchronous code is modelled by what it awaits: a program is a tree of calls
to collaborators, each with a continuation for the answer, where an answer is
a value or an exception. Nothing else of the code is visible from outside, so
the same tree can be run alone (`Sequential`) or interleaved with others, one
call at a time (`Interleaving`).

`while True` loops stay in the tree as `iter` nodes: the tree is finite, its
unrolling need not be.
-/

namespace Await

/-- A signature: the calls a program may await, the type of the answer to each
of them, and the exceptions that may come instead. -/
structure Sig where
  Call : Type
  Resp : Call → Type
  Exn : Type

/-- Programs over `S` that end with a value of type `α` or an exception. -/
inductive Prog (S : Sig) : Type → Type 1 where
  | done {α : Type} (r : Except S.Exn α) : Prog S α
  | call {α : Type} (c : S.Call) (k : Except S.Exn (S.Resp c) → Prog S α) : Prog S α
  | iter {α A B : Type} (body : A → Prog S (A ⊕ B)) (a : A)
      (k : Except S.Exn B → Prog S α) : Prog S α

namespace Prog

variable {S : Sig} {α β γ A B : Type}

/-! ## Composition -/

/-- Run `p`, then continue with whatever it ended with, exception or value. -/
def andThen : {α : Type} → Prog S α → (Except S.Exn α → Prog S β) → Prog S β
  | _, .done r, f => f r
  | _, .call c k, f => .call c (fun r => andThen (k r) f)
  | _, .iter body a k, f => .iter body a (fun r => andThen (k r) f)

@[simp] theorem andThen_done (r : Except S.Exn α) (f : Except S.Exn α → Prog S β) :
    andThen (.done r) f = f r := rfl

@[simp] theorem andThen_call (c : S.Call) (k : Except S.Exn (S.Resp c) → Prog S α)
    (f : Except S.Exn α → Prog S β) :
    andThen (.call c k) f = .call c (fun r => andThen (k r) f) := rfl

@[simp] theorem andThen_iter (body : A → Prog S (A ⊕ B)) (a : A)
    (k : Except S.Exn B → Prog S α) (f : Except S.Exn α → Prog S β) :
    andThen (.iter body a k) f = .iter body a (fun r => andThen (k r) f) := rfl

theorem andThen_assoc (p : Prog S α) (f : Except S.Exn α → Prog S β)
    (g : Except S.Exn β → Prog S γ) :
    andThen (andThen p f) g = andThen p (fun r => andThen (f r) g) := by
  induction p with
  | done r => rfl
  | call c k ih => simp [ih]
  | iter body a k _ ih => simp [ih]

@[simp] theorem andThen_done_right (p : Prog S α) : andThen p .done = p := by
  induction p with
  | done r => rfl
  | call c k ih => simp [ih]
  | iter body a k _ ih => simp [ih]

/-- Raise an exception. -/
def raise (x : S.Exn) : Prog S α := .done (.error x)

/-- Await one call; an exception it raises propagates. -/
def await (c : S.Call) : Prog S (S.Resp c) := .call c .done

/-- Continue after a value, let an exception through. -/
def onOk (f : α → Prog S β) : Except S.Exn α → Prog S β
  | .ok a => f a
  | .error x => raise x

-- `no_index`: at a concrete signature `S.Exn` is a type of that signature.
@[simp] theorem onOk_ok (f : α → Prog S β) (a : α) : onOk f (no_index (.ok a)) = f a := rfl
@[simp] theorem onOk_error (f : α → Prog S β) (x : S.Exn) :
    onOk f (no_index (.error x)) = raise x := rfl

instance : Monad (Prog S) where
  pure a := .done (.ok a)
  bind p f := andThen p (onOk f)

theorem bind_eq (p : Prog S α) (f : α → Prog S β) : p >>= f = andThen p (onOk f) := rfl

/-- Continue with the handler after an exception, let a value through. -/
def onError (h : S.Exn → Prog S α) : Except S.Exn α → Prog S α
  | .ok a => .done (.ok a)
  | .error x => h x

@[simp] theorem onError_ok (h : S.Exn → Prog S α) (a : α) :
    onError h (no_index (.ok a)) = .done (.ok a) := rfl
@[simp] theorem onError_error (h : S.Exn → Prog S α) (x : S.Exn) :
    onError h (no_index (.error x)) = h x := rfl

/-- `try: p` / `except: h`. A handler that does not want an exception raises
it again. -/
def tryExcept (p : Prog S α) (h : S.Exn → Prog S α) : Prog S α := andThen p (onError h)

/-- `try: p` / `finally: f`. The result of `p` stands unless `f` raises. -/
def tryFinally (p : Prog S α) (f : Prog S Unit) : Prog S α :=
  andThen p (fun r => andThen f (onOk (fun _ => .done r)))

/-- `if bad: raise x`. -/
def raiseIf (bad : Prop) [Decidable bad] (x : S.Exn) : Prog S Unit :=
  if bad then raise x else pure ()

/-- A pure function that may raise, called from a program. -/
def ofExcept (r : Except S.Exn α) : Prog S α := .done r

/-- `while True`: run `body` on the loop state until it answers `inr`, the
value that `break` leaves the loop with. -/
def loop (body : A → Prog S (A ⊕ B)) (a : A) : Prog S B := .iter body a .done

/-! ## Unrolling a loop -/

/-- What follows one round of the loop. -/
def again (body : A → Prog S (A ⊕ B)) (k : Except S.Exn B → Prog S α) :
    Except S.Exn (A ⊕ B) → Prog S α
  | .ok (.inl a) => .iter body a k
  | .ok (.inr b) => k (.ok b)
  | .error x => k (.error x)

@[simp] theorem again_inl (body : A → Prog S (A ⊕ B)) (k : Except S.Exn B → Prog S α) (a : A) :
    again body k (.ok (.inl a)) = .iter body a k := rfl
@[simp] theorem again_inr (body : A → Prog S (A ⊕ B)) (k : Except S.Exn B → Prog S α) (b : B) :
    again body k (.ok (.inr b)) = k (.ok b) := rfl
@[simp] theorem again_error (body : A → Prog S (A ⊕ B)) (k : Except S.Exn B → Prog S α)
    (x : S.Exn) : again body k (.error x) = k (.error x) := rfl

/-- One round of the loop written out, the rest still a loop. -/
def unroll (body : A → Prog S (A ⊕ B)) (a : A) (k : Except S.Exn B → Prog S α) : Prog S α :=
  andThen (body a) (again body k)

end Prog

end Await
