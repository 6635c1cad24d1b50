import FileUploader.Await.Interleaving

/-! # Runs without some of the requests

From a run some requests are deleted, with all the steps they take. The others take
theirs, in the same order and with the same outcomes; as a request is named by its
position, they have new names. `Unwinding` says when this is a run again: a step of a
deleted request keeps the relation with the other run, and any other step can be taken
there as well.
-/

namespace Await

variable {S : Sig} {sys : System S}

/-! ## Positions -/

section Place

variable {α : Type} (keep : α → Bool) (l : List α)

/-- The position of element `i` among those that are kept. -/
def place (i : Nat) : Nat := ((l.take i).filter keep).length

theorem place_length : place keep l l.length = (l.filter keep).length := by
  rw [place, List.take_length]

variable {keep l}

theorem place_append {i : Nat} (h : i ≤ l.length) (a : α) :
    place keep (l ++ [a]) i = place keep l i := by
  rw [place, place, List.take_append_of_le_length h]

/-- A kept element is found at its place. -/
theorem getElem?_place {i : Nat} {a : α} (h : l[i]? = some a) (hkeep : keep a = true) :
    (l.filter keep)[place keep l i]? = some a := by
  rcases List.getElem?_eq_some_iff.1 h with ⟨hi, rfl⟩
  have hsplit : l.filter keep =
      (l.take i).filter keep ++ l[i] :: (l.drop (i + 1)).filter keep := by
    rw [← List.filter_cons_of_pos hkeep, ← List.filter_append, List.getElem_cons_drop,
      List.take_append_drop]
  rw [hsplit, place, List.getElem?_append_right (Nat.le_refl _), Nat.sub_self]
  rfl

theorem place_lt {i j : Nat} {a : α} (h : l[i]? = some a) (hkeep : keep a = true) (hij : i < j) :
    place keep l i < place keep l j := by
  have htake : (l.take j)[i]? = some a := by
    rw [List.getElem?_take_of_lt hij]
    exact h
  have hplace : place keep (l.take j) i = place keep l i := by
    rw [place, place, List.take_take, Nat.min_eq_left (Nat.le_of_lt hij)]
  have hi := (List.getElem?_eq_some_iff.1 (getElem?_place htake hkeep)).1
  rw [hplace] at hi
  exact hi

/-- Different elements that are kept have different places. -/
theorem place_inj {i j : Nat} {a b : α} (hi : l[i]? = some a) (ha : keep a = true)
    (hj : l[j]? = some b) (hb : keep b = true) (h : place keep l i = place keep l j) : i = j := by
  rcases Nat.lt_trichotomy i j with hij | hij | hij
  · have hlt := place_lt hi ha hij
    omega
  · exact hij
  · have hlt := place_lt hj hb hij
    omega

end Place

/-! ## Deleting labels -/

section Delete

variable (keep : sys.Op → Bool)

/-- What the label becomes when `ops` have been asked for before it. -/
def Label.keep? (ops : List sys.Op) : Label sys → Option (Label sys)
  | .spawn op => if keep op then some (.spawn op) else none
  | .unroll i => if (ops[i]?).any keep then some (.unroll (place keep ops i)) else none
  | .call i out => if (ops[i]?).any keep then some (.call (place keep ops i) out) else none
  | .move m => some (.move m)

/-- The requests that the label starts. -/
def Label.spawned : Label sys → List sys.Op
  | .spawn op => [op]
  | _ => []

/-- The labels of requests that are kept, when `ops` have been asked for before. -/
def without : List sys.Op → List (Label sys) → List (Label sys)
  | _, [] => []
  | ops, l :: ls => (l.keep? keep ops).toList ++ without (ops ++ l.spawned) ls

end Delete

theorem ops_step {c c' : Config sys} {l : Label sys} (h : c.step l = some c') :
    c'.ops = c.ops ++ l.spawned := by
  rcases step_cases h with ⟨op, rfl, rfl⟩ | ⟨m, rfl, rfl⟩ |
    ⟨i, op, A, B, body, a, k, rfl, hreq, rfl⟩ | ⟨i, out, op, cl, k, rfl, hreq, rfl⟩
  · simp [Config.spawn, Config.ops, Label.spawned]
  · simp [Config.ops, Label.spawned]
  · rw [Label.spawned, List.append_nil, Config.ops, Config.resume, map_op_set hreq, Config.ops]
    simp
  · rw [Label.spawned, List.append_nil, Config.ops, Config.answer, map_op_set hreq, Config.ops]
    simp

section Play

variable {ok ok' : Config sys → Label sys → Bool} {c c' : Config sys}

theorem ops_play (ls : List (Label sys)) (h : c.play ok ls = some c') :
    c'.ops = c.ops ++ ls.flatMap Label.spawned := by
  induction ls generalizing c with
  | nil =>
      cases h
      simp
  | cons l ls ih =>
      simp only [Config.play] at h
      split at h
      · rcases Option.bind_eq_some_iff.1 h with ⟨c₁, hstep, hrest⟩
        rw [ih hrest, ops_step hstep, List.flatMap_cons, List.append_assoc]
      · cases h

/-- A run passes every check that its steps pass. -/
theorem play_of_play (ls : List (Label sys)) (h : c.play ok ls = some c')
    (hok : ∀ c l, l ∈ ls → ok c l = true → ok' c l = true) : c.play ok' ls = some c' := by
  induction ls generalizing c with
  | nil => exact h
  | cons l ls ih =>
      simp only [Config.play] at h ⊢
      split at h
      · rename_i hl
        rcases Option.bind_eq_some_iff.1 h with ⟨c₁, hstep, hrest⟩
        rw [if_pos (hok c l List.mem_cons_self hl), hstep]
        exact ih hrest fun c l' hl' => hok c l' (List.mem_cons_of_mem _ hl')
      · cases h

end Play

/-- Along `R`, the run goes on without the requests that are not kept. -/
structure Unwinding (keep : sys.Op → Bool) (ok : Config sys → Label sys → Bool)
    (R : Config sys → Config sys → Prop) : Prop where
  /-- A step of a deleted request does not show. -/
  respects : ∀ c c' l c₁, R c c' → ok c l = true → c.step l = some c₁ →
    l.keep? keep c.ops = none → R c₁ c'
  /-- Every other step can be taken. -/
  consistent : ∀ c c' l l' c₁, R c c' → ok c l = true → c.step l = some c₁ →
    l.keep? keep c.ops = some l' → ok c' l' = true ∧ ∃ c₁', c'.step l' = some c₁' ∧ R c₁ c₁'

/-- Unwinding a run. -/
theorem Unwinding.play {keep : sys.Op → Bool} {ok : Config sys → Label sys → Bool}
    {R : Config sys → Config sys → Prop} (h : Unwinding keep ok R) {c c' c₁ : Config sys}
    (hR : R c c') (ls : List (Label sys)) (hplay : c.play ok ls = some c₁) :
    ∃ c₁', c'.play ok (without keep c.ops ls) = some c₁' ∧ R c₁ c₁' := by
  induction ls generalizing c c' with
  | nil =>
      cases hplay
      exact ⟨c', rfl, hR⟩
  | cons l ls ih =>
      simp only [Config.play] at hplay
      split at hplay
      · rename_i hok
        rcases Option.bind_eq_some_iff.1 hplay with ⟨c₂, hstep, hrest⟩
        rw [without, ← ops_step hstep]
        cases hl : l.keep? keep c.ops with
        | none => exact ih (h.respects c c' l c₂ hR hok hstep hl) hrest
        | some l' =>
            rcases h.consistent c c' l l' c₂ hR hok hstep hl with ⟨hok', c₂', hstep', hR₂⟩
            rcases ih hR₂ hrest with ⟨c₁', hplay', hR₁⟩
            refine ⟨c₁', ?_, hR₁⟩
            simp [Config.play, hok', hstep', hplay']
      · cases hplay

/-! ## Requests in pairs -/

/-- The requests of the other run are those that are kept, in their order, and `T` holds
of what is left of each request here and there: `T i j op p p'`, for request `i` here and
`j` there. -/
structure Paired (keep : sys.Op → Bool)
    (T : Nat → Nat → sys.Op → Prog S sys.Result → Prog S sys.Result → Prop)
    (rs rs' : List (Request sys)) : Prop where
  ops : rs'.map (·.op) = (rs.map (·.op)).filter keep
  twin : ∀ i op p, rs[i]? = some ⟨op, p⟩ → keep op = true →
    ∃ p', rs'[place keep (rs.map (·.op)) i]? = some ⟨op, p'⟩ ∧
      T i (place keep (rs.map (·.op)) i) op p p'

namespace Paired

variable {keep : sys.Op → Bool}
  {T T' : Nat → Nat → sys.Op → Prog S sys.Result → Prog S sys.Result → Prop}
  {rs rs' : List (Request sys)} {i : Nat} {op : sys.Op} {p q q' : Prog S sys.Result}

theorem mono (h : Paired keep T rs rs')
    (hT : ∀ i j op p p', T i j op p p' → T' i j op p p') : Paired keep T' rs rs' := by
  refine ⟨h.ops, ?_⟩
  intro i op p hi hkeep
  rcases h.twin i op p hi hkeep with ⟨p', hi', hp⟩
  exact ⟨p', hi', hT i _ op p p' hp⟩

/-- A request that is not kept is started. -/
theorem append_skip (h : Paired keep T rs rs') (hskip : keep op = false)
    (q : Prog S sys.Result) : Paired keep T (rs ++ [⟨op, q⟩]) rs' := by
  have hlen : ∀ {j : Nat}, j < rs.length → j ≤ (rs.map (·.op)).length := by
    intro j hj
    rw [List.length_map]
    exact Nat.le_of_lt hj
  constructor
  · rw [h.ops]
    simp [hskip]
  · intro j op' p' hj hkeep
    rcases Nat.lt_or_ge j rs.length with hlt | hge
    · rw [List.getElem?_append_left hlt] at hj
      rw [List.map_append]
      simp only [List.map_cons, List.map_nil]
      rw [place_append (hlen hlt)]
      exact h.twin j op' p' hj hkeep
    · -- the new request
      have heq : j = rs.length := by
        have hj' := (List.getElem?_eq_some_iff.1 hj).1
        simp only [List.length_append, List.length_singleton] at hj'
        omega
      subst heq
      simp only [List.getElem?_concat_length, Option.some.injEq, Request.mk.injEq] at hj
      rw [← hj.1, hskip] at hkeep
      cases hkeep

/-- A request that is kept is started in both runs. -/
theorem append (h : Paired keep T rs rs') (hkeep : keep op = true)
    (hT : T rs.length rs'.length op q q') :
    Paired keep T (rs ++ [⟨op, q⟩]) (rs' ++ [⟨op, q'⟩]) := by
  have hlast : place keep (rs.map (·.op)) rs.length = rs'.length := by
    have hend := place_length keep (rs.map (·.op))
    rw [List.length_map, ← h.ops, List.length_map] at hend
    exact hend
  constructor
  · simp [h.ops, hkeep]
  · intro j op' p hj hkeep'
    rw [List.map_append]
    simp only [List.map_cons, List.map_nil]
    rcases Nat.lt_or_ge j rs.length with hlt | hge
    · rw [List.getElem?_append_left hlt] at hj
      rw [place_append (by rw [List.length_map]; exact Nat.le_of_lt hlt)]
      rcases h.twin j op' p hj hkeep' with ⟨p', hj', hp⟩
      refine ⟨p', ?_, hp⟩
      rw [List.getElem?_append_left (List.getElem?_eq_some_iff.1 hj').1]
      exact hj'
    · -- the new request
      have heq : j = rs.length := by
        have hj' := (List.getElem?_eq_some_iff.1 hj).1
        simp only [List.length_append, List.length_singleton] at hj'
        omega
      subst heq
      simp only [List.getElem?_concat_length, Option.some.injEq, Request.mk.injEq] at hj
      rcases hj with ⟨rfl, rfl⟩
      rw [place_append (Nat.le_of_eq (List.length_map _).symm), hlast]
      exact ⟨q', by simp, hT⟩

/-- A request that is not kept goes on. -/
theorem set_skip (h : Paired keep T rs rs') (hi : rs[i]? = some ⟨op, p⟩)
    (hskip : keep op = false) (q : Prog S sys.Result)
    (hT : ∀ j j' op' p p', j ≠ i → rs[j]? = some ⟨op', p⟩ → T j j' op' p p' →
      T' j j' op' p p') :
    Paired keep T' (rs.set i ⟨op, q⟩) rs' := by
  constructor
  · rw [map_op_set hi, h.ops]
  · intro j op' p' hj hkeep
    rw [map_op_set hi]
    have hji : j ≠ i := by
      intro heq
      subst heq
      rw [List.getElem?_set_self (List.getElem?_eq_some_iff.1 hi).1] at hj
      cases hj
      rw [hskip] at hkeep
      cases hkeep
    rw [List.getElem?_set_ne (Ne.symm hji)] at hj
    rcases h.twin j op' p' hj hkeep with ⟨p'', hj', hp⟩
    exact ⟨p'', hj', hT j _ op' p' p'' hji hj hp⟩

/-- A request that is kept goes on in both runs. -/
theorem set (h : Paired keep T rs rs') (hi : rs[i]? = some ⟨op, p⟩) (hkeep : keep op = true)
    (hself : T' i (place keep (rs.map (·.op)) i) op q q')
    (hT : ∀ j j' op' p p', j ≠ i → j' ≠ place keep (rs.map (·.op)) i →
      rs[j]? = some ⟨op', p⟩ → rs'[j']? = some ⟨op', p'⟩ → T j j' op' p p' → T' j j' op' p p') :
    Paired keep T' (rs.set i ⟨op, q⟩)
      (rs'.set (place keep (rs.map (·.op)) i) ⟨op, q'⟩) := by
  rcases h.twin i op p hi hkeep with ⟨p₀, hi', _⟩
  constructor
  · rw [map_op_set hi, map_op_set hi', h.ops]
  · intro j op' p' hj hkeep'
    rw [map_op_set hi]
    by_cases hji : j = i
    · subst hji
      rw [List.getElem?_set_self (List.getElem?_eq_some_iff.1 hi).1] at hj
      cases hj
      exact ⟨q', List.getElem?_set_self (List.getElem?_eq_some_iff.1 hi').1, hself⟩
    · rw [List.getElem?_set_ne (Ne.symm hji)] at hj
      have hne : place keep (rs.map (·.op)) j ≠ place keep (rs.map (·.op)) i := by
        intro heq
        exact hji (place_inj (by simp [hj]) hkeep' (by simp [hi]) hkeep heq)
      rcases h.twin j op' p' hj hkeep' with ⟨p'', hj', hp⟩
      refine ⟨p'', ?_, hT j _ op' p' p'' hji hne hj hj' hp⟩
      rw [List.getElem?_set_ne (Ne.symm hne)]
      exact hj'

end Paired

end Await
