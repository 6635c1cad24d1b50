import FileUploader.Await.Discipline

/-! # Executions with the calls they make

`recording R` answers as `R` does and records every call with its answer, so that an
execution ends with the list of its calls. `Makes P p` bounds the calls that a program can
make at all: whatever they are answered, each of them satisfies `P`. `tracing E` is for what a
program ends with after which calls, in any run.
-/

namespace Await

variable {S : Sig} {V W α β A B : Type}

/-- A call with its answer. -/
structure Answered (S : Sig) where
  call : S.Call
  resp : Except S.Exn (S.Resp call)

/-- A call that has raised. -/
def Answered.raised (e : Answered S) : Prop := ∃ x, e.resp = .error x

/-- The calls of an execution, in order. -/
abbrev Trace (S : Sig) := List (Answered S)

/-- The answers of `R`, with every call recorded. -/
def recording (R : Answers S W) : Answers S (W × Trace S) := fun c s r s' =>
  R c s.1 r s'.1 ∧ s'.2 = s.2 ++ [⟨c, r⟩]

/-! ## Programs that make certain calls only -/

/-- All calls satisfy `P`. -/
def only (P : S.Call → Prop) : Discipline S Unit where
  next := fun _ _ _ => ()
  allows := fun _ c => P c
  expects := fun _ _ _ => True
  loops := fun _ => True

/-- Every call that `p` makes satisfies `P`. -/
def Makes (P : S.Call → Prop) (p : Prog S α) : Prop := Obeys (only P) p () (fun _ _ => True)

section Makes

variable {P : S.Call → Prop}

@[simp] theorem makes_done (r : Except S.Exn α) : Makes P (.done r : Prog S α) := trivial

@[simp] theorem makes_pure (a : α) : Makes P (pure a : Prog S α) := trivial

@[simp] theorem makes_raise (x : S.Exn) : Makes P (Prog.raise x : Prog S α) := trivial

@[simp] theorem makes_ofExcept (r : Except S.Exn α) : Makes P (Prog.ofExcept r) := trivial

@[simp] theorem makes_await (c : S.Call) :
    @Makes S (no_index (S.Resp c)) P (Prog.await c) ↔ P c :=
  and_iff_left fun _ _ => trivial

theorem makes_andThen {p : Prog S α} {f : Except S.Exn α → Prog S β} (hp : Makes P p)
    (hf : ∀ r, Makes P (f r)) : Makes P (p.andThen f) :=
  (obeys_andThen p f () _).2 (hp.mono fun r _ _ => hf r)

theorem makes_bind {p : Prog S α} {f : α → Prog S β} (hp : Makes P p)
    (hf : ∀ a, Makes P (f a)) : Makes P (p >>= f) := by
  refine makes_andThen hp fun r => ?_
  cases r with
  | ok a => exact hf a
  | error x => trivial

theorem makes_tryExcept {p : Prog S α} {h : S.Exn → Prog S α} (hp : Makes P p)
    (hh : ∀ x, Makes P (h x)) : Makes P (p.tryExcept h) := by
  refine makes_andThen hp fun r => ?_
  cases r with
  | ok a => trivial
  | error x => exact hh x

theorem makes_tryFinally {p : Prog S α} {f : Prog S Unit} (hp : Makes P p) (hf : Makes P f) :
    Makes P (p.tryFinally f) := by
  refine makes_andThen hp fun r => makes_andThen hf fun r' => ?_
  cases r' with
  | ok a => trivial
  | error x => trivial

@[simp] theorem makes_raiseIf (bad : Prop) [Decidable bad] (x : S.Exn) :
    Makes P (Prog.raiseIf bad x) :=
  (obeys_raiseIf bad x () _).2 ⟨fun _ => trivial, fun _ => trivial⟩

theorem makes_loop {body : A → Prog S (A ⊕ B)} (h : ∀ a, Makes P (body a)) (a : A) :
    Makes P (Prog.loop body a) := by
  refine obeys_loop (fun _ _ => True) trivial (fun _ _ _ => trivial) (fun a _ _ => ?_)
  refine (h a).mono fun r _ _ => ?_
  split <;> trivial

theorem makes_any (p : Prog S α) : Makes (fun _ => True) p :=
  obeys_of_allowed (fun _ => True) (fun _ _ _ _ => trivial) (fun _ _ _ => trivial)
    (fun _ _ => trivial) p trivial

/-- A condition on the local state that allows the calls of a program, and that they keep,
holds where it ends. -/
theorem obeys_of_only {L : Type} {D : Discipline S L} {I : L → Prop} {p : Prog S α} {l : L}
    {Q : Except S.Exn α → Unit → Prop} (h : Obeys (only P) p () Q)
    (hallow : ∀ l c, I l → P c → D.allows l c) (hnext : ∀ l c r, I l → P c → I (D.next l c r))
    (hloops : ∀ l, I l → D.loops l) (hl : I l) : Obeys D p l (fun r l' => I l' ∧ Q r ()) := by
  induction p generalizing l with
  | done r => exact ⟨hl, h⟩
  | call c k ih => exact ⟨hallow l c hl h.1, fun r _ => ih r (h.2 r trivial) (hnext l c r hl h.1)⟩
  | iter body a k ihb ihk =>
      rcases h with ⟨J, hJ, hround⟩
      refine ⟨fun a l' => I l' ∧ J a (), ⟨hl, hJ⟩, fun a l' hal => ?_⟩
      rcases hal with ⟨hl', hJ⟩
      refine ⟨hloops l' hl', (ihb a (hround a () hJ).2 hl').mono fun r l'' hr => ?_⟩
      rcases hr with ⟨hl'', hr⟩
      rcases r with x | a' | b
      · exact ihk (.error x) hr hl''
      · exact ⟨hl'', hr⟩
      · exact ihk (.ok b) hr hl''

/-- The same for all that the calls of a program keep. -/
theorem Makes.obeys_keeping {L : Type} {D : Discipline S L} {I : L → Prop} {p : Prog S α} {l : L}
    (h : Makes P p) (hallow : ∀ l c, I l → P c → D.allows l c)
    (hnext : ∀ l c r, I l → P c → I (D.next l c r)) (hloops : ∀ l, I l → D.loops l) (hl : I l) :
    Obeys D p l (fun _ l' => I l') :=
  (obeys_of_only h hallow hnext hloops hl).mono fun _ _ hr => hr.1

/-- Calls that leave the local state alone leave it as it was at the start. -/
theorem Makes.obeys {L : Type} {D : Discipline S L} {p : Prog S α} {l : L} (h : Makes P p)
    (hallow : ∀ c, P c → D.allows l c) (hnext : ∀ c r, P c → D.next l c r = l)
    (hloops : D.loops l) : Obeys D p l (fun _ l' => l' = l) := by
  refine h.obeys_keeping ?_ ?_ ?_ rfl
  · rintro l' c rfl hc
    exact hallow c hc
  · rintro l' c r rfl hc
    exact hnext c r hc
  · rintro l' rfl
    exact hloops

end Makes

/-! ## Traces of executions -/

section Traces

variable {R : Answers S W} {p : Prog S α} {w w' : W} {o : Except S.Exn α} {t t' : Trace S}

/-- A program that ends by raising, whatever it is answered, does not return. -/
theorem not_returned {T : Answers S V} {v v' : V} {a : α}
    (h : Obeys (only fun _ => True) p () (fun r _ => ∃ y, r = .error y)) :
    ¬ Exec T p v (.ok a) v' := by
  intro hexec
  have hstep : ∀ (l : Unit) c (u : V) r u', True → (only fun _ : S.Call => True).allows l c →
      T c u r u' → (only fun _ : S.Call => True).expects l c r ∧ T c u r u' ∧ True :=
    fun _ _ _ _ _ _ _ hr => ⟨trivial, hr, trivial⟩
  rcases Obeys.exec (f := id) (I := fun _ _ => True) h hstep trivial hexec with ⟨_, _, hend, _⟩
  rcases hend with ⟨y, hy⟩
  cases hy

/-- Recording changes nothing. -/
theorem exec_of_recording (h : Exec (recording R) p (w, t) o (w', t')) : Exec R p w o w' := by
  have hstep : ∀ (l : Unit) c (s : W × Trace S) r s', True → (only fun _ => True).allows l c →
      recording R c s r s' → (only fun _ => True).expects l c r ∧ R c s.1 r s'.1 ∧ True :=
    fun l c s r s' _ _ hr => ⟨trivial, hr.1, trivial⟩
  exact (Obeys.exec (f := Prod.fst) (I := fun _ _ => True) (makes_any p) hstep trivial h).1

/-- Where calls are recorded, the trace grows by calls that the program makes. -/
theorem Makes.trace {P : S.Call → Prop} {T : Answers S (W × Trace S)} (hp : Makes P p)
    (hT : ∀ c s r s', T c s r s' → s'.2 = s.2 ++ [⟨c, r⟩])
    (h : Exec T p (w, t) o (w', t')) : ∃ made, t' = t ++ made ∧ ∀ e ∈ made, P e.call := by
  have hstep : ∀ (l : Unit) c (s : W × Trace S) r s',
      (∃ made, s.2 = t ++ made ∧ ∀ e ∈ made, P e.call) → (only P).allows l c →
      T c s r s' → (only P).expects l c r ∧ T c s r s' ∧
        ∃ made, s'.2 = t ++ made ∧ ∀ e ∈ made, P e.call := by
    intro l c s r s' hmade hc hr
    rcases hmade with ⟨made, ht, hall⟩
    refine ⟨trivial, hr, made ++ [⟨c, r⟩], ?_, fun e he => ?_⟩
    · rw [hT c s r s' hr, ht, List.append_assoc]
    · rcases List.mem_append.1 he with he | he
      · exact hall e he
      · rw [List.mem_singleton.1 he]
        exact hc
  exact (Obeys.exec (f := id) (I := fun _ s => ∃ made, s.2 = t ++ made ∧
    ∀ e ∈ made, P e.call) hp hstep ⟨[], by simp, by simp⟩ h).2.choose_spec.2

end Traces

/-! ## The calls of a request in a run -/

/-- The local state is the trace so far, and only answers that satisfy `E` are expected. -/
def tracing (E : (c : S.Call) → Except S.Exn (S.Resp c) → Prop) : Discipline S (Trace S) where
  next := fun t c r => t ++ [⟨c, r⟩]
  allows := fun _ _ => True
  expects := fun _ c r => E c r
  loops := fun _ => True

section Runs

variable {E : (c : S.Call) → Except S.Exn (S.Resp c) → Prop}

@[simp] theorem tracing_next (t : Trace S) (c : S.Call) (r : Except S.Exn (S.Resp c)) :
    (tracing E).next t c r = t ++ [⟨c, r⟩] := rfl

@[simp] theorem tracing_allows (t : Trace S) (c : S.Call) : (tracing E).allows t c ↔ True := Iff.rfl

@[simp] theorem tracing_expects (t : Trace S) (c : S.Call) (r : Except S.Exn (S.Resp c)) :
    (tracing E).expects t c r ↔ E c r := Iff.rfl

@[simp] theorem tracing_loops (t : Trace S) : (tracing E).loops t ↔ True := Iff.rfl

/-- What has been called before does not matter. -/
theorem Obeys.prepend {p : Prog S α} {t₀ : Trace S} {P : Except S.Exn α → Trace S → Prop}
    (h : Obeys (tracing E) p t₀ P) (t : Trace S) :
    Obeys (tracing E) p (t ++ t₀) fun r t' => ∃ made, t' = t ++ made ∧ P r made := by
  induction p generalizing t₀ with
  | done r => exact ⟨t₀, rfl, h⟩
  | call c k ih =>
      refine ⟨trivial, fun r hr => ?_⟩
      rw [tracing_next, List.append_assoc]
      exact ih r (h.2 r hr)
  | iter body a k ihb ihk =>
      rcases h with ⟨I, hI, hround⟩
      refine ⟨fun a t' => ∃ made, t' = t ++ made ∧ I a made, ⟨t₀, rfl, hI⟩, fun a t' hat => ?_⟩
      rcases hat with ⟨made, rfl, hI⟩
      refine ⟨trivial, (ihb a (hround a made hI).2).mono ?_⟩
      rintro (x | a' | b) t' ⟨made, rfl, hr⟩
      · exact ihk _ hr
      · exact ⟨made, rfl, hr⟩
      · exact ihk _ hr

/-- A part of a program is looked at on its own. -/
theorem Obeys.part {p : Prog S α} {P : Except S.Exn α → Trace S → Prop}
    (h : Obeys (tracing E) p [] P) (t : Trace S) :
    Obeys (tracing E) p t fun r t' => ∃ made, t' = t ++ made ∧ P r made := by
  have hparts := h.prepend t
  rwa [List.append_nil] at hparts

variable {sys : System S}

/-- The calls of request `i`, with their answers. -/
def traceOf (i : Nat) (log : List (Entry sys)) : Trace S :=
  (callsOf i log).map fun e => ⟨e.call, e.resp⟩

theorem replay_tracing (t : Trace S) (calls : List (Entry sys)) :
    (tracing E).replay t calls = t ++ calls.map fun e => ⟨e.call, e.resp⟩ := by
  induction calls generalizing t with
  | nil => exact (List.append_nil t).symm
  | cons e calls ih =>
      show (tracing E).replay (t ++ [⟨e.call, e.resp⟩]) calls = _
      rw [ih, List.append_assoc]
      rfl

/-- The local state is what the request asked for, which says what calls it can make. -/
def onlyFor {O : Type} (P : O → S.Call → Prop) : Discipline S O where
  next := fun op _ _ => op
  allows := P
  expects := fun _ _ _ => True
  loops := fun _ => True

/-- The calls that a program can make are the ones on the log. -/
theorem Reach.logged {P : sys.Op → S.Call → Prop} (hprog : ∀ op, Makes (P op) (sys.prog op))
    {G : Config sys → Label sys → Prop} {w : sys.World} {c : Config sys}
    (h : Reach G (Config.start w) c) :
    ∀ e ∈ c.log, ∃ op, c.ops[e.rid]? = some op ∧ P op e.call := by
  have hobeys : ∀ op, Obeys (onlyFor P) (sys.prog op) op fun _ op' => op' = op := fun op =>
    (hprog op).obeys (fun _ hc => hc) (fun _ _ _ => rfl) trivial
  have hlocal : ∀ (s : Scene sys) (i : Nat) (op : sys.Op), s.localOf (onlyFor P) id i op = op :=
    fun s i op => replay_fixed id (fun _ _ _ => rfl) op (callsOf i s.log)
  have hind : Inductive (onlyFor P) id G fun s =>
      ∀ e ∈ s.log, ∃ op, s.ops[e.rid]? = some op ∧ P op e.call := by
    refine ⟨?_, fun _ _ _ hlog => hlog, ?_⟩
    · intro c op _ _ hlog e he
      rcases hlog e he with ⟨op', hop, hp⟩
      exact ⟨op', (List.getElem?_append_left (List.getElem?_eq_some_iff.1 hop).1).trans hop, hp⟩
    · intro c i op cl out _ hop _ hlog hallow
      refine ⟨trivial, fun e he => ?_⟩
      rcases List.mem_append.1 he with he | he
      · exact hlog e he
      · rw [List.mem_singleton.1 he]
        rw [hlocal] at hallow
        exact ⟨op, hop, hallow⟩
  exact (h.invariant (fun op _ op' => op' = op) (fun _ op _ => hobeys op) hind
    (fun _ he => by cases he)).2.1

/-- What a program ends with after its calls, it ends with in every run. -/
theorem Reach.traced {G : Config sys → Label sys → Prop} {w : sys.World} {c : Config sys}
    (h : Reach G (Config.start w) c) (hans : ∀ out c w, E c (sys.handle out c w).1) {i : Nat}
    {op : sys.Op} {r : Except S.Exn sys.Result} {P : Except S.Exn sys.Result → Trace S → Prop}
    (hprog : Obeys (tracing E) (sys.prog op) [] P) (hop : c.ops[i]? = some op)
    (hresult : c.result i = some r) : P r (traceOf i c.log) := by
  -- nothing is asked of the other requests
  have hall : ∀ op', Obeys (tracing E) (sys.prog op') [] fun r t => op' = op → P r t := by
    intro op'
    by_cases heq : op' = op
    · subst heq
      exact hprog.mono fun _ _ hr _ => hr
    · refine (obeys_of_allowed (fun _ => True) (fun _ _ _ _ => trivial) (fun _ _ _ => trivial)
        (fun _ _ => trivial) (sys.prog op') trivial).mono fun _ _ _ heq' => absurd heq' heq
  have hind : Inductive (tracing E) (fun _ => []) G fun _ => True :=
    ⟨fun _ _ _ _ _ => trivial, fun _ _ _ _ => trivial,
      fun _ _ _ cl out _ _ _ _ _ => ⟨hans out cl _, trivial⟩⟩
  have hobeys := (h.invariant (fun op' r t => op' = op → P r t) (fun _ op' _ => hall op') hind
    trivial).2.2 i op _ (request_of_result hop hresult)
  have hend : P r ((tracing E).replay [] (callsOf i c.log)) := hobeys rfl
  rw [replay_tracing, List.nil_append] at hend
  exact hend

end Runs

end Await
