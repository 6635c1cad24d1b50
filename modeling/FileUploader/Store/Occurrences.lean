import Mathlib.Data.List.Infix

/-! # Occurrences in a concatenation

Where a pattern occurs in a list, and which of its occurrences in a concatenation lie
within one of the pieces.
-/

namespace FileUploader

variable {α : Type*} {pat l : List α} {pieces : List (List α)} {p n : Nat}

/-- `pat` stands in `l` from place `p` on. -/
def OccursAt (pat l : List α) (p : Nat) : Prop :=
  ∃ before after, l = before ++ (pat ++ after) ∧ before.length = p

/-- The `n` places from `p` on belong to one of the pieces. -/
def WithinOne (pieces : List (List α)) (p n : Nat) : Prop :=
  ∃ before piece after, pieces = before ++ piece :: after ∧
    before.flatten.length ≤ p ∧ p + n ≤ before.flatten.length + piece.length

theorem infix_iff_occursAt : pat <:+: l ↔ ∃ p, OccursAt pat l p := by
  constructor
  · rintro ⟨before, after, rfl⟩
    exact ⟨before.length, before, after, List.append_assoc .., rfl⟩
  · rintro ⟨_, before, after, rfl, _⟩
    exact ⟨before, after, List.append_assoc ..⟩

/-- An occurrence in a piece is one in the concatenation, that lies within the piece. -/
theorem OccursAt.of_piece {before after : List (List α)} {piece : List α}
    (h : OccursAt pat piece p) :
    OccursAt pat (before ++ piece :: after).flatten (before.flatten.length + p) ∧
      WithinOne (before ++ piece :: after) (before.flatten.length + p) pat.length := by
  rcases h with ⟨front, back, rfl, rfl⟩
  constructor
  · refine ⟨before.flatten ++ front, back ++ after.flatten, ?_, by simp⟩
    simp only [List.flatten_append, List.flatten_cons, List.append_assoc]
  · refine ⟨before, _, after, rfl, by omega, ?_⟩
    simp only [List.length_append]
    omega

/-- An occurrence in the concatenation that lies within a piece is one in that piece. -/
theorem OccursAt.piece (h : OccursAt pat pieces.flatten p)
    (hwithin : WithinOne pieces p pat.length) : ∃ piece ∈ pieces, pat <:+: piece := by
  rcases h with ⟨front, back, hflat, rfl⟩
  rcases hwithin with ⟨before, piece, after, rfl, hstart, hend⟩
  rw [List.flatten_append, List.flatten_cons] at hflat
  refine ⟨piece, by simp, ?_⟩
  -- the part in front of the occurrence reaches into the piece
  have hfront : before.flatten <+: front :=
    List.prefix_of_prefix_length_le ⟨_, hflat⟩ ⟨_, rfl⟩ hstart
  rcases hfront with ⟨skipped, rfl⟩
  rw [List.append_assoc, List.append_cancel_left_eq, ← List.append_assoc skipped] at hflat
  -- and the occurrence ends in it
  have hpat : skipped ++ pat <+: piece := by
    apply List.prefix_of_prefix_length_le ⟨_, hflat.symm⟩ ⟨_, rfl⟩
    simp only [List.length_append] at hend ⊢
    omega
  exact (List.suffix_append skipped pat).isInfix.trans hpat.isInfix

/-- A pattern occurs in a piece exactly if it has an occurrence in the concatenation
that lies within one piece. -/
theorem exists_piece_iff : (∃ piece ∈ pieces, pat <:+: piece) ↔
    ∃ p, OccursAt pat pieces.flatten p ∧ WithinOne pieces p pat.length := by
  constructor
  · rintro ⟨piece, hpiece, hfound⟩
    rcases infix_iff_occursAt.1 hfound with ⟨p, hp⟩
    rcases List.append_of_mem hpiece with ⟨before, after, rfl⟩
    exact ⟨_, hp.of_piece⟩
  · rintro ⟨p, hp, hwithin⟩
    exact hp.piece hwithin

end FileUploader
