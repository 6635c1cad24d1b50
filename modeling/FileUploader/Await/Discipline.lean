import FileUploader.Await.Interleaving

/-! # Disciplines: invariants of interleaved runs

A discipline is a local state that is updated with every call of a request, and
says which calls are allowed in it and which answers may be relied on.
`Obeys` checks a program against a discipline on its own, by recursion on the
tree, with an invariant for each loop. `Reach.invariant` then proves an
invariant of the whole system from one obligation for each kind of call: the
programs are not looked at again.
-/

namespace Await

variable {S : Sig} {L α β A B : Type}

/-- Local states, allowed calls, answers relied on, and the local states in
which a request may be in a loop. -/
structure Discipline (S : Sig) (L : Type) where
  next : L → (c : S.Call) → Except S.Exn (S.Resp c) → L
  allows : L → S.Call → Prop
  expects : L → (c : S.Call) → Except S.Exn (S.Resp c) → Prop
  loops : L → Prop

variable (D : Discipline S L)

/-- `p`, started in local state `l`, makes allowed calls only, as long as the
answers are as expected; whatever it ends with satisfies `Q`. -/
def Obeys : {α : Type} → Prog S α → L → (Except S.Exn α → L → Prop) → Prop
  | _, .done r, l, Q => Q r l
  | _, .call c k, l, Q =>
      D.allows l c ∧ ∀ r, D.expects l c r → Obeys (k r) (D.next l c r) Q
  | _, .iter (A := A) body a k, l, Q =>
      ∃ I : A → L → Prop, I a l ∧ ∀ a l, I a l → D.loops l ∧
        Obeys (body a) l (fun r l' =>
          match r with
          | .ok (.inl a') => I a' l'
          | .ok (.inr b) => Obeys (k (.ok b)) l' Q
          | .error x => Obeys (k (.error x)) l' Q)

variable {D}

/-! ## One rule per program construct -/

@[simp] theorem obeys_done (r : Except S.Exn α) (l : L)
    (Q : Except S.Exn α → L → Prop) : Obeys D (.done r : Prog S α) l Q ↔ Q r l := Iff.rfl

@[simp] theorem obeys_pure (a : α) (l : L) (Q : Except S.Exn α → L → Prop) :
    Obeys D (pure a : Prog S α) l Q ↔ Q (.ok a) l := Iff.rfl

@[simp] theorem obeys_raise (x : S.Exn) (l : L) (Q : Except S.Exn α → L → Prop) :
    Obeys D (Prog.raise x : Prog S α) l Q ↔ Q (.error x) l := Iff.rfl

@[simp] theorem obeys_ofExcept (r : Except S.Exn α) (l : L)
    (Q : Except S.Exn α → L → Prop) : Obeys D (Prog.ofExcept r) l Q ↔ Q r l := Iff.rfl

@[simp] theorem obeys_await (c : S.Call) (l : L)
    (Q : Except S.Exn (S.Resp c) → L → Prop) :
    @Obeys S L D (no_index (S.Resp c)) (Prog.await c) l Q ↔
      D.allows l c ∧
        (∀ x, D.expects l c (.error x) → Q (.error x) (D.next l c (.error x))) ∧
        ∀ a, D.expects l c (.ok a) → Q (.ok a) (D.next l c (.ok a)) := by
  refine and_congr Iff.rfl ⟨fun h => ⟨fun x => h (.error x), fun a => h (.ok a)⟩, ?_⟩
  rintro ⟨hx, ha⟩ (x | a)
  · exact hx x
  · exact ha a

/-- The rule of consequence. -/
theorem Obeys.mono {p : Prog S α} {l : L} {Q Q' : Except S.Exn α → L → Prop}
    (h : Obeys D p l Q) (hQ : ∀ r l, Q r l → Q' r l) : Obeys D p l Q' := by
  induction p generalizing l with
  | done r => exact hQ _ _ h
  | call c k ih => exact ⟨h.1, fun r hr => ih r (h.2 r hr) hQ⟩
  | iter body a k ihb ihk =>
      obtain ⟨I, hI, hround⟩ := h
      refine ⟨I, hI, fun a l hal => ⟨(hround a l hal).1, ihb a (hround a l hal).2 ?_⟩⟩
      rintro (x | a' | b) l' hr
      · exact ihk _ hr hQ
      · exact hr
      · exact ihk _ hr hQ

/-- Where every call is allowed, any program obeys. -/
theorem obeys_of_allowed (I : L → Prop) (hnext : ∀ l c r, I l → I (D.next l c r))
    (hallow : ∀ l c, I l → D.allows l c) (hloops : ∀ l, I l → D.loops l) (p : Prog S α) {l : L}
    (hl : I l) : Obeys D p l (fun _ l' => I l') := by
  induction p generalizing l with
  | done r => exact hl
  | call c k ih => exact ⟨hallow l c hl, fun r _ => ih r (hnext l c r hl)⟩
  | iter body a k ihb ihk =>
      refine ⟨fun _ l' => I l', hl, fun a l hI => ⟨hloops l hI, (ihb a hI).mono ?_⟩⟩
      rintro (x | a' | b) l' hI'
      · exact ihk _ hI'
      · exact hI'
      · exact ihk _ hI'

/-- The rule of composition. -/
theorem obeys_andThen (p : Prog S α) (f : Except S.Exn α → Prog S β) (l : L)
    (Q : Except S.Exn β → L → Prop) :
    Obeys D (p.andThen f) l Q ↔ Obeys D p l (fun r l' => Obeys D (f r) l' Q) := by
  induction p generalizing l with
  | done r => exact Iff.rfl
  | call c k ih => simp [Obeys, ih]
  | iter body a k _ ihk => simp only [Prog.andThen_iter, Obeys, ihk]

@[simp] theorem obeys_bind (p : Prog S α) (f : α → Prog S β) (l : L)
    (Q : Except S.Exn β → L → Prop) :
    Obeys D (p >>= f) l Q ↔ Obeys D p l (fun r l' => Obeys D (Prog.onOk f r) l' Q) := by
  rw [Prog.bind_eq, obeys_andThen]

@[simp] theorem obeys_tryExcept (p : Prog S α) (h : S.Exn → Prog S α) (l : L)
    (Q : Except S.Exn α → L → Prop) :
    Obeys D (p.tryExcept h) l Q ↔
      Obeys D p l (fun r l' => Obeys D (Prog.onError h r) l' Q) := by
  rw [Prog.tryExcept, obeys_andThen]

@[simp] theorem obeys_tryFinally (p : Prog S α) (f : Prog S Unit) (l : L)
    (Q : Except S.Exn α → L → Prop) :
    Obeys D (p.tryFinally f) l Q ↔
      Obeys D p l (fun r l' => Obeys D f l' (fun r' l'' =>
        Obeys D (Prog.onOk (fun _ => .done r) r') l'' Q)) := by
  simp only [Prog.tryFinally, obeys_andThen]

@[simp] theorem obeys_raiseIf (bad : Prop) [Decidable bad] (x : S.Exn) (l : L)
    (Q : Except S.Exn Unit → L → Prop) :
    Obeys D (Prog.raiseIf bad x) l Q ↔ (bad → Q (.error x) l) ∧ (¬ bad → Q (.ok ()) l) := by
  unfold Prog.raiseIf
  by_cases hb : bad <;> simp [hb]

/-- The loop rule. -/
theorem obeys_loop {body : A → Prog S (A ⊕ B)} {a : A} {l : L}
    {Q : Except S.Exn B → L → Prop} (I : A → L → Prop) (hI : I a l)
    (hloops : ∀ a l, I a l → D.loops l)
    (hround : ∀ a l, I a l → Obeys D (body a) l (fun r l' =>
      match r with
      | .ok (.inl a') => I a' l'
      | .ok (.inr b) => Q (.ok b) l'
      | .error x => Q (.error x) l')) :
    Obeys D (Prog.loop body a) l Q :=
  ⟨I, hI, fun a l hal => ⟨hloops a l hal, hround a l hal⟩⟩

/-- A program still obeys after one of its loops is unrolled. -/
theorem Obeys.unroll {body : A → Prog S (A ⊕ B)} {a : A} {k : Except S.Exn B → Prog S α}
    {l : L} {Q : Except S.Exn α → L → Prop} (h : Obeys D (.iter body a k) l Q) :
    Obeys D (Prog.unroll body a k) l Q := by
  obtain ⟨I, hI, hround⟩ := h
  rw [Prog.unroll, obeys_andThen]
  refine (hround a l hI).2.mono ?_
  rintro (x | a' | b) l' hr
  · exact hr
  · exact ⟨I, hr, hround⟩
  · exact hr

/-- A program that obeys and runs alone in one world runs alone in another one as well,
with the same outcome, if each call it may make can be answered there as it is here: `I`
relates the local state and the two worlds. -/
theorem Obeys.simulate {W W' : Type} {R : Answers S W} {T : Answers S W'}
    {I : L → W → W' → Prop} {p : Prog S α} {l : L} {Q : Except S.Exn α → L → Prop} {w w₂ : W}
    {w' : W'} {o : Except S.Exn α} (h : Obeys D p l Q)
    (hstep : ∀ l c w w' r w₁, I l w w' → D.allows l c → R c w r w₁ →
      D.expects l c r ∧ ∃ w₁', T c w' r w₁' ∧ I (D.next l c r) w₁ w₁')
    (hI : I l w w') (hexec : Exec R p w o w₂) :
    ∃ w₂' l', Exec T p w' o w₂' ∧ Q o l' ∧ I l' w₂ w₂' := by
  -- over the program: each call is answered in both worlds
  induction p generalizing l w w₂ w' with
  | done r =>
      rcases hexec with ⟨rfl, rfl⟩
      exact ⟨w', l, ⟨rfl, rfl⟩, h, hI⟩
  | call c k ih =>
      rcases hexec with ⟨r, w₁, hr, hk⟩
      rcases hstep l c w w' r w₁ hI h.1 hr with ⟨hexp, w₁', hr', hI'⟩
      rcases ih r (h.2 r hexp) hI' hk with ⟨w₂', l', hk', hend⟩
      exact ⟨w₂', l', ⟨r, w₁', hr', hk'⟩, hend⟩
  | iter body a k ihb ihk =>
      rcases h with ⟨J, hJ, hround⟩
      rcases hexec with ⟨r, w₁, hr, hk⟩
      -- the rounds of the loop, from local states that satisfy its invariant
      have hrounds : ∃ w₁' l', Rounds (fun a => Exec T (body a)) a w' r w₁' ∧
          Obeys D (k r) l' Q ∧ I l' w₁ w₁' := by
        clear hk
        induction hr generalizing l w' with
        | again hb _ ih =>
            rcases ihb _ (hround _ l hJ).2 hI hb with ⟨v, l', hb', hl', hI'⟩
            rcases ih hI' hl' with ⟨v', l'', hr', hend⟩
            exact ⟨v', l'', .again hb' hr', hend⟩
        | stop hb =>
            rcases ihb _ (hround _ l hJ).2 hI hb with ⟨v, l', hb', hend⟩
            exact ⟨v, l', .stop hb', hend⟩
        | fail hb =>
            rcases ihb _ (hround _ l hJ).2 hI hb with ⟨v, l', hb', hend⟩
            exact ⟨v, l', .fail hb', hend⟩
      rcases hrounds with ⟨w₁', l', hr', hobeys, hI'⟩
      rcases ihk r hobeys hI' hk with ⟨w₂', l'', hk', hend⟩
      exact ⟨w₂', l'', ⟨r, w₁', hr', hk'⟩, hend⟩

/-- The same for a world that is determined by the first one. -/
theorem Obeys.exec {W W' : Type} {R : Answers S W} {T : Answers S W'} {f : W → W'}
    {I : L → W → Prop} {p : Prog S α} {l : L} {Q : Except S.Exn α → L → Prop} {w w' : W}
    {o : Except S.Exn α} (h : Obeys D p l Q)
    (hstep : ∀ l c w r w', I l w → D.allows l c → R c w r w' →
      D.expects l c r ∧ T c (f w) r (f w') ∧ I (D.next l c r) w')
    (hI : I l w) (hexec : Exec R p w o w') :
    Exec T p (f w) o (f w') ∧ ∃ l', Q o l' ∧ I l' w' := by
  have hsim := h.simulate (T := T) (I := fun l w v => v = f w ∧ I l w) (by
    rintro l c w _ r w₁ ⟨rfl, hI⟩ hallow hr
    rcases hstep l c w r w₁ hI hallow hr with ⟨hexp, hr', hI'⟩
    exact ⟨hexp, f w₁, hr', rfl, hI'⟩) ⟨rfl, hI⟩ hexec
  rcases hsim with ⟨_, l', hexec', hQ, rfl, hI'⟩
  exact ⟨hexec', l', hQ, hI'⟩

/-! ## Two disciplines at once -/

/-- Both local states are kept, and both disciplines are relied on. -/
def Discipline.prod {L' : Type} (D : Discipline S L) (D' : Discipline S L') :
    Discipline S (L × L') where
  next := fun l c r => (D.next l.1 c r, D'.next l.2 c r)
  allows := fun l c => D.allows l.1 c ∧ D'.allows l.2 c
  expects := fun l c r => D.expects l.1 c r ∧ D'.expects l.2 c r
  loops := fun l => D.loops l.1 ∧ D'.loops l.2

/-- Two disciplines are obeyed at once. -/
theorem Obeys.prod {L' : Type} {D' : Discipline S L'} {p : Prog S α} {l : L} {l' : L'}
    {Q : Except S.Exn α → L → Prop} {Q' : Except S.Exn α → L' → Prop} (h : Obeys D p l Q)
    (h' : Obeys D' p l' Q') :
    Obeys (D.prod D') p (l, l') (fun r l => Q r l.1 ∧ Q' r l.2) := by
  induction p generalizing l l' with
  | done r => exact ⟨h, h'⟩
  | call c k ih => exact ⟨⟨h.1, h'.1⟩, fun r hr => ih r (h.2 r hr.1) (h'.2 r hr.2)⟩
  | iter body a k ihb ihk =>
      rcases h with ⟨J, hJ, hround⟩
      rcases h' with ⟨J', hJ', hround'⟩
      refine ⟨fun a l => J a l.1 ∧ J' a l.2, ⟨hJ, hJ'⟩, fun a l hal =>
        ⟨⟨(hround a _ hal.1).1, (hround' a _ hal.2).1⟩, ?_⟩⟩
      refine (ihb a (hround a _ hal.1).2 (hround' a _ hal.2).2).mono ?_
      rintro (x | a' | b) l'' ⟨hr, hr'⟩
      · exact ihk _ hr hr'
      · exact ⟨hr, hr'⟩
      · exact ihk _ hr hr'

/-! ## The local states of a run -/

variable {sys : System S}

/-- The local state after a list of calls. -/
def Discipline.replay (D : Discipline S L) (l : L) (calls : List (Entry sys)) : L :=
  calls.foldl (fun l e => D.next l e.call e.resp) l

@[simp] theorem replay_nil (l : L) : D.replay l ([] : List (Entry sys)) = l := rfl

@[simp] theorem replay_append (l : L) (calls : List (Entry sys)) (e : Entry sys) :
    D.replay l (calls ++ [e]) = D.next (D.replay l calls) e.call e.resp := by
  simp [Discipline.replay]

theorem replay_prod {L' : Type} {D' : Discipline S L'} (l : L) (l' : L')
    (calls : List (Entry sys)) :
    (D.prod D').replay (l, l') calls = (D.replay l calls, D'.replay l' calls) := by
  induction calls generalizing l l' with
  | nil => rfl
  | cons e calls ih => exact ih (D.next l e.call e.resp) (D'.next l' e.call e.resp)

/-- A component of the local state that no call changes. -/
theorem replay_fixed {X : Type} (g : L → X) (h : ∀ l c r, g (D.next l c r) = g l) (l : L)
    (calls : List (Entry sys)) : g (D.replay l calls) = g l := by
  induction calls generalizing l with
  | nil => rfl
  | cons e calls ih => exact (ih _).trans (h l e.call e.resp)

/-- A component of the local state to which every call adds. -/
theorem replay_flatMap {X : Type} (g : L → List X)
    (f : (c : S.Call) → Except S.Exn (S.Resp c) → List X)
    (h : ∀ l c r, g (D.next l c r) = g l ++ f c r) (l : L) (calls : List (Entry sys)) :
    g (D.replay l calls) = g l ++ calls.flatMap fun e => f e.call e.resp := by
  induction calls generalizing l with
  | nil => simp
  | cons e calls ih =>
      show g (D.replay (D.next l e.call e.resp) calls) = _
      rw [ih, h, List.flatMap_cons, List.append_assoc]

/-- A flag of the local state that some calls raise. -/
theorem replay_any (g : L → Bool) (f : (c : S.Call) → Except S.Exn (S.Resp c) → Bool)
    (h : ∀ l c r, g (D.next l c r) = (g l || f c r)) (l : L) (calls : List (Entry sys)) :
    g (D.replay l calls) = (g l || calls.any fun e => f e.call e.resp) := by
  induction calls generalizing l with
  | nil => simp
  | cons e calls ih =>
      show g (D.replay (D.next l e.call e.resp) calls) = _
      rw [ih, h, List.any_cons, Bool.or_assoc]

/-- What a run has done so far, without the programs that are left. -/
structure Scene (sys : System S) where
  world : sys.World
  ops : List sys.Op
  log : List (Entry sys)

def Config.scene (c : Config sys) : Scene sys := ⟨c.world, c.ops, c.log⟩

/-- The scene after call `cl` of request `i`. -/
def Scene.answer (s : Scene sys) (i : Nat) (cl : S.Call) (out : sys.Outcome) : Scene sys where
  world := (sys.handle out cl s.world).2
  ops := s.ops
  log := s.log ++ [⟨i, cl, (sys.handle out cl s.world).1, (sys.handle out cl s.world).2⟩]

/-- The local state of request `i`, which asked for `op`. -/
def Scene.localOf (D : Discipline S L) (start : sys.Op → L) (s : Scene sys) (i : Nat)
    (op : sys.Op) : L :=
  D.replay (start op) (callsOf i s.log)

section Local

variable (D) (start : sys.Op → L) (s : Scene sys) (i : Nat) (cl : S.Call)
  (out : sys.Outcome)

theorem callsOf_answer_self : callsOf i (s.answer i cl out).log = callsOf i s.log ++
    [⟨i, cl, (sys.handle out cl s.world).1, (sys.handle out cl s.world).2⟩] :=
  callsOf_append_self s.log ⟨i, cl, _, _⟩

theorem callsOf_answer_other {j : Nat} (hj : j ≠ i) :
    callsOf j (s.answer i cl out).log = callsOf j s.log :=
  callsOf_append_other s.log _ fun hij => hj hij.symm

theorem localOf_answer_self (op : sys.Op) :
    (s.answer i cl out).localOf D start i op =
      D.next (s.localOf D start i op) cl (sys.handle out cl s.world).1 := by
  unfold Scene.localOf
  rw [callsOf_answer_self, replay_append]

theorem localOf_answer_other {j : Nat} (hj : j ≠ i) (op : sys.Op) :
    (s.answer i cl out).localOf D start j op = s.localOf D start j op := by
  unfold Scene.localOf
  rw [callsOf_answer_other s i cl out hj]

end Local

/-! ## The invariant rule -/

/-- Every logged call is by a request that exists. -/
def Scene.Wf (s : Scene sys) : Prop := ∀ e ∈ s.log, e.rid < s.ops.length

theorem Scene.Wf.callsOf_eq_nil {s : Scene sys} (h : s.Wf) : callsOf s.ops.length s.log = [] := by
  simp only [callsOf, List.filter_eq_nil_iff, decide_eq_true_eq]
  intro e he
  exact Nat.ne_of_lt (h e he)

/-- An element of a list with one more is an old one, or the new one. -/
theorem getElem?_concat {α : Type} {l : List α} {x y : α} {i : Nat}
    (h : (l ++ [x])[i]? = some y) : l[i]? = some y ∨ i = l.length ∧ x = y := by
  rcases Nat.lt_trichotomy i l.length with hi | hi | hi
  · exact Or.inl (by rw [← h, List.getElem?_append_left hi])
  · subst hi
    simp only [List.getElem?_concat_length, Option.some.injEq] at h
    exact Or.inr ⟨rfl, h⟩
  · rw [List.getElem?_eq_none (by simp; omega)] at h
    cases h

/-- What holds of the local states of all requests, and of the start state of a
new one, holds of all requests then. -/
theorem Scene.forall_spawn {start : sys.Op → L} {P : Nat → sys.Op → L → Prop} {s : Scene sys}
    (hwf : s.Wf) {op : sys.Op} (hnew : P s.ops.length op (start op))
    (hold : ∀ i op', s.ops[i]? = some op' → P i op' (s.localOf D start i op')) :
    ∀ i op', (s.ops ++ [op])[i]? = some op' →
      P i op' (Scene.localOf D start ⟨s.world, s.ops ++ [op], s.log⟩ i op') := by
  intro i op' hi
  rcases getElem?_concat hi with hlt | ⟨rfl, rfl⟩
  · exact hold i op' hlt
  · simp only [Scene.localOf, hwf.callsOf_eq_nil, replay_nil]
    exact hnew

/-- After a call by request `i`, only `i` has a new local state. -/
theorem Scene.forall_answer {start : sys.Op → L} {P : Nat → sys.Op → L → Prop} {s : Scene sys}
    {i : Nat} {op : sys.Op} {cl : S.Call} {out : sys.Outcome} (hi : s.ops[i]? = some op)
    (hself : P i op (D.next (s.localOf D start i op) cl (sys.handle out cl s.world).1))
    (hother : ∀ j op', j ≠ i → s.ops[j]? = some op' → P j op' (s.localOf D start j op')) :
    ∀ j op', s.ops[j]? = some op' → P j op' ((s.answer i cl out).localOf D start j op') := by
  intro j op' hj
  by_cases hij : j = i
  · subst hij
    rw [hi] at hj
    cases hj
    rw [localOf_answer_self]
    exact hself
  · rw [localOf_answer_other D start s i cl out hij]
    exact hother j op' hij hj

/-- The obligations for an invariant `Inv` of the runs under `G`, when every
request obeys `D`: it holds at the start, and is kept by each kind of step. The
obligation for a call also justifies the answers relied on. -/
structure Inductive (D : Discipline S L) (start : sys.Op → L)
    (G : Config sys → Label sys → Prop) (Inv : Scene sys → Prop) : Prop where
  spawn : ∀ (c : Config sys) (op : sys.Op), G c (.spawn op) → c.scene.Wf → Inv c.scene →
    Inv ⟨c.world, c.ops ++ [op], c.log⟩
  move : ∀ (c : Config sys) (m : sys.Move), G c (.move m) → Inv c.scene →
    Inv ⟨sys.move m c.world, c.ops, c.log⟩
  call : ∀ (c : Config sys) (i : Nat) (op : sys.Op) (cl : S.Call) (out : sys.Outcome),
    G c (.call i out) → c.ops[i]? = some op → c.pending i = some cl →
    Inv c.scene → D.allows (c.scene.localOf D start i op) cl →
    D.expects (c.scene.localOf D start i op) cl (sys.handle out cl c.world).1 ∧
      Inv (c.scene.answer i cl out)

/-- The operation of a request that is there. -/
theorem ops_getElem? {c : Config sys} {i : Nat} {op : sys.Op} {p : Prog S sys.Result}
    (h : c.requests[i]? = some ⟨op, p⟩) : c.ops[i]? = some op := by
  simp [Config.ops, h]

theorem ops_set {c : Config sys} {i : Nat} {op : sys.Op} {p q : Prog S sys.Result}
    (h : c.requests[i]? = some ⟨op, p⟩) :
    (c.requests.set i ⟨op, q⟩).map (·.op) = c.ops := map_op_set h q

theorem scene_spawn (c : Config sys) (op : sys.Op) :
    (c.spawn op).scene = ⟨c.world, c.ops ++ [op], c.log⟩ := by
  simp [Config.scene, Config.spawn, Config.ops]

/-- Nothing visible changes when a request goes on without a call. -/
theorem scene_resume {c : Config sys} {i : Nat} {op : sys.Op} {p q : Prog S sys.Result}
    (h : c.requests[i]? = some ⟨op, p⟩) : (c.resume i op q).scene = c.scene := by
  simp only [Config.scene, Config.resume, Config.ops]
  rw [ops_set h]
  rfl

theorem scene_answer {c : Config sys} {i : Nat} {op : sys.Op} {p : Prog S sys.Result}
    (h : c.requests[i]? = some ⟨op, p⟩) {cl : S.Call}
    {k : Except S.Exn (S.Resp cl) → Prog S sys.Result} {out : sys.Outcome} :
    (c.answer i op cl k out).scene = c.scene.answer i cl out := by
  simp only [Config.scene, Config.answer, Scene.answer, Config.ops]
  rw [ops_set h]
  rfl

/-- What a request was for stays. -/
theorem Reach.ops_kept {G : Config sys → Label sys → Prop} {c₀ c : Config sys}
    (h : Reach G c₀ c) {i : Nat} {op : sys.Op} (hop : c₀.ops[i]? = some op) :
    c.ops[i]? = some op := by
  induction h with
  | start => exact hop
  | @step c c' l _ _ hs ih =>
      rcases step_cases hs with ⟨op', rfl, rfl⟩ | ⟨m, rfl, rfl⟩ |
        ⟨j, op', A, B, body, a, k, rfl, hreq, rfl⟩ | ⟨j, out, op', cl, k, rfl, hreq, rfl⟩
      · have hi := (List.getElem?_eq_some_iff.1 ih).1
        rw [Config.ops, Config.spawn, List.map_append]
        exact (List.getElem?_append_left hi).trans ih
      · exact ih
      · rw [Config.ops, Config.resume, ops_set hreq]
        exact ih
      · rw [Config.ops, Config.answer, ops_set hreq]
        exact ih

/-- A request in a local state in which no call and no loop is allowed has ended. -/
theorem Obeys.ended {p : Prog S α} {l : L} {Q : Except S.Exn α → L → Prop}
    (h : Obeys D p l Q) (hcall : ∀ c, ¬ D.allows l c) (hloop : ¬ D.loops l) :
    ∃ r, p = .done r ∧ Q r l := by
  cases p with
  | done r => exact ⟨r, rfl, h⟩
  | call c k => exact absurd h.1 (hcall c)
  | iter body a k =>
      obtain ⟨I, hI, hround⟩ := h
      exact absurd (hround a l hI).1 hloop

/-- The invariant rule: in every configuration reached under `G`, the invariant
holds and every request obeys the discipline from its local state on. -/
theorem Reach.invariant {start : sys.Op → L} {G : Config sys → Label sys → Prop}
    {Inv : Scene sys → Prop} (post : sys.Op → Except S.Exn sys.Result → L → Prop)
    (hprog : ∀ c op, G c (.spawn op) → Obeys D (sys.prog op) (start op) (post op))
    (hind : Inductive D start G Inv) {w : sys.World} (hinit : Inv ⟨w, [], []⟩)
    {c : Config sys} (h : Reach G (Config.start w) c) :
    c.scene.Wf ∧ Inv c.scene ∧ ∀ i op p, c.requests[i]? = some ⟨op, p⟩ →
      Obeys D p (c.scene.localOf D start i op) (post op) := by
  -- over the run; each step is one of the four kinds of `step_cases`
  induction h with
  | start =>
      refine ⟨by simp [Scene.Wf, Config.scene, Config.start], hinit, ?_⟩
      simp [Config.start]
  | @step c c' l _ hg hs ih =>
      obtain ⟨hwf, hinv, hobeys⟩ := ih
      rcases step_cases hs with ⟨op, rfl, rfl⟩ | ⟨m, rfl, rfl⟩ |
        ⟨i, op, A, B, body, a, k, rfl, hreq, rfl⟩ | ⟨i, out, op, cl, k, rfl, hreq, rfl⟩
      · -- a new request: its local state is the start state
        have hlen : c.ops.length = c.requests.length := by simp [Config.ops]
        have hscene := scene_spawn c op
        refine ⟨?_, hscene ▸ hind.spawn c op hg hwf hinv, ?_⟩
        · intro e he
          have := hwf e he
          simp only [hscene, List.length_append, List.length_singleton]
          exact Nat.lt_succ_of_lt this
        · intro i op' p hreq
          simp only [Config.spawn] at hreq
          rcases Nat.lt_trichotomy i c.requests.length with hi | hi | hi
          · rw [List.getElem?_append_left hi] at hreq
            exact hobeys i op' p hreq
          · subst hi
            simp only [List.getElem?_concat_length, Option.some.injEq, Request.mk.injEq] at hreq
            obtain ⟨rfl, rfl⟩ := hreq
            have hnil := hwf.callsOf_eq_nil
            simp only [Config.scene, hlen] at hnil
            simp only [Scene.localOf, Config.scene, Config.spawn, hnil, replay_nil]
            exact hprog c op hg
          · rw [List.getElem?_eq_none (by simp; omega)] at hreq
            cases hreq
      · exact ⟨hwf, hind.move c m hg hinv, hobeys⟩
      · -- a loop is unrolled: nothing visible changes
        have hscene := scene_resume (q := Prog.unroll body a k) hreq
        refine ⟨hscene ▸ hwf, hscene ▸ hinv, ?_⟩
        intro j op' p hj
        rw [hscene]
        simp only [Config.resume, List.getElem?_set] at hj
        split at hj
        · rename_i hij
          subst hij
          split at hj
          · simp only [Option.some.injEq, Request.mk.injEq] at hj
            obtain ⟨rfl, rfl⟩ := hj
            exact (hobeys i op _ hreq).unroll
          · cases hj
        · exact hobeys j op' p hj
      · -- a call: the caller moves on in the discipline, nobody else does
        have hscene : (c.answer i op cl k out).scene = c.scene.answer i cl out :=
          scene_answer hreq
        obtain ⟨hallow, hcont⟩ := hobeys i op _ hreq
        obtain ⟨hexp, hinv'⟩ := hind.call c i op cl out hg (ops_getElem? hreq)
          (by simp [Config.pending, hreq]) hinv hallow
        refine ⟨?_, hscene ▸ hinv', ?_⟩
        · intro e he
          rw [hscene] at he ⊢
          simp only [Scene.answer, List.mem_append, List.mem_singleton] at he
          rcases he with he | rfl
          · exact hwf e he
          · have hi := (List.getElem?_eq_some_iff.1 (ops_getElem? hreq)).1
            exact hi
        · intro j op' p hj
          rw [hscene]
          simp only [Config.answer, List.getElem?_set] at hj
          split at hj
          · rename_i hij
            subst hij
            split at hj
            · simp only [Option.some.injEq, Request.mk.injEq] at hj
              obtain ⟨rfl, rfl⟩ := hj
              rw [localOf_answer_self]
              exact hcont _ hexp
            · cases hj
          · rename_i hne
            rw [localOf_answer_other D start c.scene _ cl out (fun h => hne h.symm)]
            exact hobeys j op' p hj

end Await
