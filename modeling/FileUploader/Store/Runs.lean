import Mathlib.Data.List.Sort

/-! # Runs of a partial sequence

The values of a partial sequence at k, k + 1, … up to its first gap, and when they are
a given collection of numbered values.
-/

namespace FileUploader

variable {α : Type*} {f : Nat → Option α} {k : Nat} {as bs : List α}

/-- The values from `k` on are `as`, and then there is a gap. -/
def RunFrom (f : Nat → Option α) : Nat → List α → Prop
  | k, [] => f k = none
  | k, a :: as => f k = some a ∧ RunFrom f (k + 1) as

/-- A run is read off place by place, up to and including the gap. -/
theorem runFrom_iff : RunFrom f k as ↔ ∀ n ≤ as.length, f (k + n) = as[n]? := by
  induction as generalizing k with
  | nil =>
      constructor
      · intro h n hn
        have hzero : n = 0 := Nat.le_zero.1 hn
        subst hzero
        exact h
      · intro h
        exact h 0 (Nat.le_refl 0)
  | cons a as ih =>
      constructor
      · intro h n hn
        cases n with
        | zero => exact h.1
        | succ n =>
            have hrest := ih.1 h.2 n (Nat.le_of_succ_le_succ hn)
            rw [Nat.add_assoc, Nat.add_comm 1 n] at hrest
            exact hrest
      · intro h
        refine ⟨h 0 (Nat.zero_le _), ih.2 fun n hn => ?_⟩
        have hnext := h (n + 1) (Nat.succ_le_succ hn)
        rw [Nat.add_assoc, Nat.add_comm 1 n]
        exact hnext

/-- There is only one run from each place. -/
theorem RunFrom.unique (h : RunFrom f k as) (h' : RunFrom f k bs) : as = bs := by
  induction as generalizing k bs with
  | nil =>
      cases bs with
      | nil => rfl
      | cons b bs => cases h.symm.trans h'.1
  | cons a as ih =>
      cases bs with
      | nil => cases h'.symm.trans h.1
      | cons b bs =>
          cases h.1.symm.trans h'.1
          rw [ih h.2 h'.2]

/-- Values that were found at their places whenever the run was `as`, with a gap found behind
them, are the run. -/
theorem eq_of_found (hfound : ∀ (n : Nat) b, bs[n]? = some b → ∃ f, RunFrom f 0 as ∧ f n = some b)
    (hgap : ∃ f, RunFrom f 0 as ∧ f bs.length = none) : bs = as := by
  -- while the run is `as`, a place in it is no gap, and the gap is behind it
  have hplace : ∀ {f : Nat → Option α}, RunFrom f 0 as → ∀ n ≤ as.length, f n = as[n]? := by
    intro f hf n hn
    have hrun := runFrom_iff.1 hf n hn
    rwa [Nat.zero_add] at hrun
  rcases hgap with ⟨f, hf, hnone⟩
  have hge : as.length ≤ bs.length := by
    by_contra hlt
    have hsome := hplace hf bs.length (by omega)
    rw [hnone, eq_comm, List.getElem?_eq_none_iff] at hsome
    exact hlt hsome
  have hle : bs.length ≤ as.length := by
    by_contra hlt
    rcases hfound as.length _ (List.getElem?_eq_getElem (Nat.lt_of_not_le hlt)) with ⟨g, hg, hsome⟩
    rw [hplace hg _ (Nat.le_refl _), List.getElem?_eq_none (Nat.le_refl _)] at hsome
    cases hsome
  apply List.ext_getElem?
  intro n
  cases hn : bs[n]? with
  | none =>
      rw [List.getElem?_eq_none_iff] at hn
      rw [List.getElem?_eq_none (by omega)]
  | some b =>
      rcases hfound n b hn with ⟨g, hg, hsome⟩
      have hlt := (List.getElem?_eq_some_iff.1 hn).1
      rw [← hplace hg n (by omega), hsome]

/-- The values from `k` on up to the first gap, of at most `fuel` places. -/
def takeRun (f : Nat → Option α) : Nat → Nat → List α
  | 0, _ => []
  | fuel + 1, k =>
      match f k with
      | none => []
      | some a => a :: takeRun f fuel (k + 1)

/-- It is the run if there is a gap in these places. -/
theorem runFrom_takeRun {fuel : Nat} (h : ∃ n < fuel, f (k + n) = none) :
    RunFrom f k (takeRun f fuel k) := by
  induction fuel generalizing k with
  | zero =>
      rcases h with ⟨n, hn, _⟩
      exact absurd hn (Nat.not_lt_zero n)
  | succ fuel ih =>
      rw [takeRun]
      cases hk : f k with
      | none => exact hk
      | some a =>
          refine ⟨hk, ih ?_⟩
          -- the gap is not at `k`
          rcases h with ⟨n, hn, hgap⟩
          cases n with
          | zero => cases hk.symm.trans hgap
          | succ n =>
              refine ⟨n, Nat.lt_of_succ_lt_succ hn, ?_⟩
              rw [Nat.add_right_comm]
              exact hgap

/-! ## Numbered values -/

/-- The numbers 0, 1, …, n - 1. -/
def indices (n : Nat) : List Int := (List.range n).map Nat.cast

/-- The values with their places. -/
def numbered (as : List α) : List (Int × α) := as.mapIdx fun n a => ((n : Int), a)

/-- In ascending order of the numbers. -/
def inOrder (ps : List (Int × α)) : List (Int × α) :=
  ps.insertionSort fun p q => p.1 ≤ q.1

variable {ps : List (Int × α)}

theorem inOrder_perm (ps : List (Int × α)) : (inOrder ps).Perm ps := List.perm_insertionSort _ ps

theorem numbered_getElem? (n : Nat) : (numbered as)[n]? = as[n]?.map fun a => ((n : Int), a) :=
  List.getElem?_mapIdx

theorem map_fst_numbered (as : List α) : (numbered as).map (·.1) = indices as.length := by
  apply List.ext_getElem?
  intro n
  rw [List.getElem?_map, numbered_getElem?, indices, List.getElem?_map]
  by_cases hn : n < as.length
  · simp [hn]
  · simp [hn]

theorem map_snd_numbered (as : List α) : (numbered as).map (·.2) = as := by
  apply List.ext_getElem?
  intro n
  rw [List.getElem?_map, numbered_getElem?, Option.map_map]
  exact Option.map_id'

/-- Sorting puts the numbers 0, …, n - 1 into their places. -/
theorem map_fst_inOrder (h : (ps.map (·.1)).Perm (indices ps.length)) :
    (inOrder ps).map (·.1) = indices ps.length := by
  have hmap : (inOrder ps).map (·.1) = (ps.map (·.1)).insertionSort (· ≤ ·) :=
    List.map_insertionSort _ _ _ _ fun _ _ _ _ => Iff.rfl
  have hsorted : (indices ps.length).SortedLE := by
    refine (List.pairwise_map.2 ?_).sortedLE
    exact List.pairwise_lt_range.imp fun hlt => by omega
  rw [hmap]
  exact List.Perm.eq_of_sortedLE List.sortedLE_insertionSort hsorted
    ((List.perm_insertionSort _ _).trans h)

/-- Sorted by number, the value at `n` has number `n`. -/
theorem fst_of_inOrder (h : (ps.map (·.1)).Perm (indices ps.length)) {n : Nat} {p : Int × α}
    (hp : (inOrder ps)[n]? = some p) : p.1 = n := by
  have hn : ((inOrder ps).map (·.1))[n]? = some p.1 := by rw [List.getElem?_map, hp]; rfl
  rw [map_fst_inOrder h, indices, List.getElem?_map, Option.map_eq_some_iff] at hn
  rcases hn with ⟨m, hm, hcast⟩
  have hlt := (List.getElem?_eq_some_iff.1 hm).1
  rw [List.length_range] at hlt
  rw [List.getElem?_range hlt] at hm
  cases hm
  exact hcast.symm

/-- So their numbers are their places. -/
theorem numbered_map_inOrder (h : (ps.map (·.1)).Perm (indices ps.length)) :
    numbered ((inOrder ps).map (·.2)) = inOrder ps := by
  apply List.ext_getElem?
  intro n
  rw [numbered_getElem?, List.getElem?_map, Option.map_map]
  cases hp : (inOrder ps)[n]? with
  | none => rfl
  | some p => rw [Option.map_some, Function.comp_apply, ← fst_of_inOrder h hp]

/-- Values with the numbers 0, …, n - 1 that are found there, with a gap behind them, are a run
when they are sorted. -/
theorem runFrom_inOrder (hindices : (ps.map (·.1)).Perm (indices ps.length))
    (hfound : ∀ p ∈ ps, f p.1.toNat = some p.2) (hgap : f ps.length = none) :
    RunFrom f 0 ((inOrder ps).map (·.2)) := by
  refine runFrom_iff.2 fun n hn => ?_
  rw [Nat.zero_add, List.getElem?_map]
  cases hp : (inOrder ps)[n]? with
  | none =>
      have hge := List.getElem?_eq_none_iff.1 hp
      rw [List.length_map] at hn
      have hlength := (inOrder_perm ps).length_eq
      have hend : n = ps.length := by omega
      rw [hend, hgap]
      rfl
  | some p =>
      have hmem := (inOrder_perm ps).mem_iff.1 (List.mem_of_getElem? hp)
      have hf := hfound p hmem
      rw [fst_of_inOrder hindices hp, Int.toNat_natCast] at hf
      exact hf

/-- A run from 0 has exactly these numbered values in order if and only if they have
the numbers 0, …, n - 1, once each, are found there, and have a gap behind them. -/
theorem RunFrom.numbered_eq_inOrder (h : RunFrom f 0 as) : numbered as = inOrder ps ↔
    (ps.map (·.1)).Perm (indices ps.length) ∧ (∀ p ∈ ps, f p.1.toNat = some p.2) ∧
      f ps.length = none := by
  -- up to the gap the values found are those of the run
  have hplaces : ∀ n ≤ as.length, f n = as[n]? := by
    intro n hn
    have hf := runFrom_iff.1 h n hn
    rwa [Nat.zero_add] at hf
  constructor
  · intro heq
    have hperm : (numbered as).Perm ps := heq ▸ inOrder_perm ps
    have hlength : ps.length = as.length := by
      rw [← hperm.length_eq, numbered, List.length_mapIdx]
    refine ⟨?_, fun p hp => ?_, ?_⟩
    · rw [hlength, ← map_fst_numbered]
      exact (hperm.map _).symm
    · rcases List.getElem?_of_mem (hperm.mem_iff.2 hp) with ⟨n, hn⟩
      rw [numbered_getElem?, Option.map_eq_some_iff] at hn
      rcases hn with ⟨a, ha, rfl⟩
      have hlt := (List.getElem?_eq_some_iff.1 ha).1
      rw [Int.toNat_natCast, hplaces n (Nat.le_of_lt hlt), ha]
    · rw [hlength, hplaces _ (Nat.le_refl _), List.getElem?_eq_none (Nat.le_refl _)]
  · intro hps
    rcases hps with ⟨hindices, hfound, hgap⟩
    -- the sorted values are a run too, and there is one only
    rw [h.unique (runFrom_inOrder hindices hfound hgap)]
    exact numbered_map_inOrder hindices

/-! ## Lists of lists -/

/-- Replacing one of several lists changes their total length by theirs. -/
theorem length_flatten_set {as : List (List α)} {n : Nat} {a : List α}
    (h : n < as.length) :
    (as.set n a).flatten.length + as[n].length = as.flatten.length + a.length := by
  induction as generalizing n with
  | nil => cases h
  | cons b as ih =>
      cases n with
      | zero =>
          simp only [List.set_cons_zero, List.flatten_cons, List.length_append,
            List.getElem_cons_zero]
          omega
      | succ n =>
          have hrest := ih (Nat.lt_of_succ_lt_succ h)
          simp only [List.set_cons_succ, List.flatten_cons, List.length_append,
            List.getElem_cons_succ]
          omega

end FileUploader
