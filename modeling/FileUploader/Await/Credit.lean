import Mathlib.Algebra.Ring.Nat
import Mathlib.Data.List.Basic
import Mathlib.Data.List.Induction
import FileUploader.Await.Trace

/-! # Credit

How many calls a request can make, however requests are scheduled and whatever they are
answered. A request comes with some credit; every call takes one of it, and some answers give
some back. A request that always has some left when it calls has made no more calls than it
had credit at first and has been given since.
-/

namespace Await

variable {S : Sig} {sys : System S} (pays : (c : S.Call) → Except S.Exn (S.Resp c) → Nat)

/-- The local state is the credit that is left. -/
def credit : Discipline S Nat where
  next := fun n c r => n - 1 + pays c r
  allows := fun n _ => 0 < n
  expects := fun _ _ _ => True
  loops := fun _ => True

@[simp] theorem credit_next (n : Nat) (c : S.Call) (r : Except S.Exn (S.Resp c)) :
    (credit pays).next n c r = n - 1 + pays c r := rfl

@[simp] theorem credit_allows (n : Nat) (c : S.Call) : (credit pays).allows n c ↔ 0 < n := Iff.rfl

@[simp] theorem credit_expects (n : Nat) (c : S.Call) (r : Except S.Exn (S.Resp c)) :
    (credit pays).expects n c r ↔ True := Iff.rfl

@[simp] theorem credit_loops (n : Nat) : (credit pays).loops n ↔ True := Iff.rfl

theorem Obeys.upward {pays : (c : S.Call) → Except S.Exn (S.Resp c) → Nat} {α : Type}
    {p : Prog S α} {n : Nat} {Q : Except S.Exn α → Nat → Prop} (h : Obeys (credit pays) p n Q) :
    Obeys (credit pays) p n fun r l => ∃ l₀, l₀ ≤ l ∧ Q r l₀ :=
  h.mono fun _ l hl => ⟨l, Nat.le_refl l, hl⟩

/-- More credit does no harm. -/
theorem Obeys.richer {pays : (c : S.Call) → Except S.Exn (S.Resp c) → Nat} {α : Type}
    {p : Prog S α} {n n' : Nat} {Q : Except S.Exn α → Nat → Prop} (h : Obeys (credit pays) p n Q)
    (hQ : ∀ r l l', l ≤ l' → Q r l → Q r l') (hn : n ≤ n') : Obeys (credit pays) p n' Q := by
  induction p generalizing n n' with
  | done r => exact hQ r n n' hn h
  | call c k ih =>
      rcases h with ⟨hpos, hrest⟩
      rw [credit_allows] at hpos
      refine ⟨Nat.lt_of_lt_of_le hpos hn, fun r hr => ih r (hrest r hr) hQ ?_⟩
      rw [credit_next, credit_next]
      omega
  | iter body a k ihb ihk =>
      rcases h with ⟨I, hI, hround⟩
      -- in a loop there is at least as much as its invariant says
      refine ⟨fun a l' => ∃ l, l ≤ l' ∧ I a l, ⟨n, hn, hI⟩, fun a l' hal => ?_⟩
      rcases hal with ⟨l, hle, hI⟩
      refine ⟨trivial, (ihb a (hround a l hI).2.upward ?_ hle).mono ?_⟩
      · intro r m m' hmm' hr
        rcases hr with ⟨m₀, hm, hr⟩
        exact ⟨m₀, Nat.le_trans hm hmm', hr⟩
      · rintro (x | a' | b) m ⟨m₀, hm, hr⟩
        · exact ihk _ hr hQ hm
        · exact ⟨m₀, hm, hr⟩
        · exact ihk _ hr hQ hm

/-- What the answers to these calls have given back. -/
def paid (calls : List (Entry sys)) : Nat := calls.foldl (fun n e => n + pays e.call e.resp) 0

@[simp] theorem paid_nil : paid pays ([] : List (Entry sys)) = 0 := rfl

@[simp] theorem paid_append (calls : List (Entry sys)) (e : Entry sys) :
    paid pays (calls ++ [e]) = paid pays calls + pays e.call e.resp := by
  simp [paid]

variable {pays}

/-- The books of a request: its calls and what it has left are what it came with and what it
has been given. -/
def Balanced (pays : (c : S.Call) → Except S.Exn (S.Resp c) → Nat) (cost : sys.Op → Nat)
    (s : Scene sys) : Prop :=
  ∀ (i : Nat) (op : sys.Op), s.ops[i]? = some op →
    (callsOf i s.log).length + s.localOf (credit pays) cost i op =
      cost op + paid pays (callsOf i s.log)

theorem balanced_inductive (cost : sys.Op → Nat) (G : Config sys → Label sys → Prop) :
    Inductive (credit pays) cost G (Balanced pays cost) where
  spawn := by
    intro c op _ hwf hinv
    have hnew : (callsOf c.scene.ops.length c.scene.log).length + cost op =
        cost op + paid pays (callsOf c.scene.ops.length c.scene.log) := by
      rw [hwf.callsOf_eq_nil]
      simp
    exact Scene.forall_spawn (D := credit pays) (P := fun i op l =>
      (callsOf i c.scene.log).length + l = cost op + paid pays (callsOf i c.scene.log)) hwf hnew
      hinv
  move := fun _ _ _ hinv => hinv
  call := by
    intro c i op cl out _ hop _ hinv hallow
    refine ⟨trivial, ?_⟩
    intro j op' hj
    by_cases hij : j = i
    · subst hij
      have hbefore := hinv j op' hj
      have hop' : op = op' := Option.some.inj (hop.symm.trans hj)
      subst hop'
      rw [credit_allows] at hallow
      rw [callsOf_answer_self, localOf_answer_self, List.length_append, paid_append, credit_next]
      simp only [List.length_singleton]
      omega
    · rw [callsOf_answer_other _ _ _ _ hij, localOf_answer_other _ _ _ _ _ _ hij]
      exact hinv j op' hj

/-- If the programs get by on their credit, then this bounds the calls of every request, at
any time of any run. -/
theorem Reach.calls_le {cost : sys.Op → Nat} {G : Config sys → Label sys → Prop}
    (hprog : ∀ op, Obeys (credit pays) (sys.prog op) (cost op) fun _ _ => True) {w : sys.World}
    {c : Config sys} (h : Reach G (Config.start w) c) {i : Nat} {op : sys.Op}
    (hop : c.ops[i]? = some op) :
    (callsOf i c.log).length ≤ cost op + paid pays (callsOf i c.log) := by
  have hinv := h.invariant (fun _ _ _ => True) (fun _ op _ => hprog op)
    (balanced_inductive cost G) (fun _ _ hnone => by cases hnone)
  have hbooks := hinv.2.1 i op hop
  have hlog : c.scene.log = c.log := rfl
  rw [hlog] at hbooks
  omega

/-! ## All requests together -/

/-- A log that no request fills beyond its bound. -/
theorem length_le_sum {bound : sys.Op → Nat} (ops : List sys.Op) (log : List (Entry sys))
    (hlog : ∀ e ∈ log, e.rid < ops.length)
    (hbound : ∀ (i : Nat) (op : sys.Op), ops[i]? = some op →
      (callsOf i log).length ≤ bound op) : log.length ≤ (ops.map bound).sum := by
  induction ops using List.reverseRecOn generalizing log with
  | nil =>
      cases log with
      | nil => exact Nat.le_refl 0
      | cons e log => exact absurd (hlog e List.mem_cons_self) (Nat.not_lt_zero _)
  | append_singleton ops op ih =>
      -- the calls of the last request, and those of the others
      have hsplit := List.length_eq_length_filter_add (l := log)
        fun e => decide (e.rid = ops.length)
      have hlast := hbound ops.length op List.getElem?_concat_length
      have hothers := ih (log.filter fun e => !decide (e.rid = ops.length)) ?_ ?_
      · rw [callsOf] at hlast
        rw [List.map_append, List.sum_append, List.map_singleton, List.sum_singleton]
        omega
      · intro e he
        rcases List.mem_filter.1 he with ⟨he, hne⟩
        have hlt := hlog e he
        simp only [List.length_append, List.length_singleton] at hlt
        simp only [Bool.not_eq_true', decide_eq_false_iff_not] at hne
        omega
      · intro i op' hop
        have hi := (List.getElem?_eq_some_iff.1 hop).1
        refine Nat.le_trans (Nat.le_of_eq ?_) (hbound i op' ?_)
        · rw [callsOf, callsOf, List.filter_filter]
          congr 1
          refine List.filter_congr fun e _ => ?_
          by_cases he : e.rid = i
          · simp [he, Nat.ne_of_lt hi]
          · simp [he]
        · rw [List.getElem?_append_left hi]
          exact hop

end Await
