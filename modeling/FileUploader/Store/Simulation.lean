import Mathlib.Logic.Basic

/-! # Machines and simulation

A machine answers operations one after the other. One machine simulates another along a
relation of their states if every step of the first is a step of the second with the same
answer, to related states; the answers to whole sequences of operations are then the same.
-/

/-- A machine over operations and answers: in a state an operation may be answered, and
leads to a state. -/
structure Machine (Op Answer : Type) where
  State : Type
  step : State → Op → Answer → State → Prop

namespace Machine

variable {Op Answer : Type}

/-- The answers to a sequence of operations. -/
inductive Run (m : Machine Op Answer) : m.State → List Op → List Answer → m.State → Prop where
  | nil {s : m.State} : Run m s [] [] s
  | cons {s s₁ s₂ : m.State} {op : Op} {a : Answer} {ops : List Op} {as : List Answer} :
      m.step s op a s₁ → Run m s₁ ops as s₂ → Run m s (op :: ops) (a :: as) s₂

/-- Every operation is answered. -/
def Total (m : Machine Op Answer) : Prop := ∀ s op, ∃ a s', m.step s op a s'

/-- It is answered in one way only. -/
def Deterministic (m : Machine Op Answer) : Prop :=
  ∀ s op a a' s₁ s₂, m.step s op a s₁ → m.step s op a' s₂ → a = a' ∧ s₁ = s₂

/-- Along `R`, every step of `m` for an operation that is `ok` is a step of `n`. -/
def Simulates (m n : Machine Op Answer) (ok : Op → Prop) (R : m.State → n.State → Prop) : Prop :=
  ∀ s t op a s', ok op → R s t → m.step s op a s' → ∃ t', n.step t op a t' ∧ R s' t'

variable {m n : Machine Op Answer} {ok : Op → Prop} {R : m.State → n.State → Prop}
  {ops : List Op} {as as' : List Answer}

theorem Deterministic.run (h : m.Deterministic) {s s₁ s₂ : m.State} (h₁ : m.Run s ops as s₁)
    (h₂ : m.Run s ops as' s₂) : as = as' ∧ s₁ = s₂ := by
  induction h₁ generalizing as' with
  | nil =>
      cases h₂
      exact ⟨rfl, rfl⟩
  | cons hstep _ ih =>
      cases h₂ with
      | cons hstep' hrun' =>
          rcases h _ _ _ _ _ _ hstep hstep' with ⟨rfl, rfl⟩
          rcases ih hrun' with ⟨rfl, rfl⟩
          exact ⟨rfl, rfl⟩

/-- Simulation of whole sequences. -/
theorem Simulates.run (h : Simulates m n ok R) (hok : ∀ op ∈ ops, ok op) {s s' : m.State}
    {t : n.State} (hR : R s t) (hrun : m.Run s ops as s') :
    ∃ t', n.Run t ops as t' ∧ R s' t' := by
  induction hrun generalizing t with
  | nil => exact ⟨t, .nil, hR⟩
  | cons hstep _ ih =>
      rcases h _ _ _ _ _ (hok _ List.mem_cons_self) hR hstep with ⟨t₁, hstep', hR₁⟩
      rcases ih (fun op hop => hok op (List.mem_cons_of_mem _ hop)) hR₁ with ⟨t', hrun', hR'⟩
      exact ⟨t', .cons hstep' hrun', hR'⟩

/-- Simulation backwards: if `m` answers in every state that is related, what a deterministic `n`
does is a run of `m`. -/
theorem Simulates.run_back (h : Simulates m n ok R)
    (hanswers : ∀ s t op, ok op → R s t → ∃ a s', m.step s op a s') (hdet : n.Deterministic)
    (hok : ∀ op ∈ ops, ok op) {s : m.State} {t t' : n.State} (hR : R s t)
    (hrun : n.Run t ops as t') : ∃ s', m.Run s ops as s' ∧ R s' t' := by
  induction hrun generalizing s with
  | nil => exact ⟨s, .nil, hR⟩
  | cons hstep _ ih =>
      have hop := hok _ List.mem_cons_self
      -- the step that there is has this answer
      rcases hanswers _ _ _ hop hR with ⟨a, s₁, hstep'⟩
      rcases h _ _ _ _ _ hop hR hstep' with ⟨t₁, hstep'', hR₁⟩
      rcases hdet _ _ _ _ _ _ hstep hstep'' with ⟨rfl, rfl⟩
      rcases ih (fun op hop => hok op (List.mem_cons_of_mem _ hop)) hR₁ with ⟨s', hrun', hR'⟩
      exact ⟨s', .cons hstep' hrun', hR'⟩

/-- Such a machine has exactly the answers of the one that simulates it. -/
theorem Simulates.run_iff (h : Simulates m n ok R)
    (hanswers : ∀ s t op, ok op → R s t → ∃ a s', m.step s op a s') (hdet : n.Deterministic)
    (hok : ∀ op ∈ ops, ok op) {s : m.State} {t : n.State} (hR : R s t) (as : List Answer) :
    (∃ s', m.Run s ops as s') ↔ ∃ t', n.Run t ops as t' := by
  constructor
  · intro hrun
    rcases hrun with ⟨s', hrun⟩
    rcases h.run hok hR hrun with ⟨t', hrun', _⟩
    exact ⟨t', hrun'⟩
  · intro hrun
    rcases hrun with ⟨t', hrun⟩
    rcases h.run_back hanswers hdet hok hR hrun with ⟨s', hrun', _⟩
    exact ⟨s', hrun'⟩

end Machine
