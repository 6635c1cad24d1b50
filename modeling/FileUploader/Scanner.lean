import FileUploader.Store.Occurrences
import FileUploader.CachedRun

/-! # The scanner over a stream

`scan_stream` looks for the signature in each chunk on its own and keeps nothing from
one chunk to the next. What it says of a stream is said here of every finite list of
chunks, and of the stream of the cached chunks of a session.
-/

namespace FileUploader

open Await Prog

namespace LocalVirusScanner

/-- The stream that yields these chunks and ends. -/
def streamOf : AsyncIterator (List Bytes) Bytes
  | [] => pure none
  | chunk :: chunks => pure (some (chunk, chunks))

/-- Raise on the first chunk that has the signature in it. -/
def verdict (chunks : List Bytes) : Except Exn Bool :=
  if ∃ chunk ∈ chunks, eicarSignature <:+: chunk then .error threat else .ok true

theorem verdict_eq_ok {chunks : List Bytes} (h : ∀ chunk ∈ chunks, CleanChunk chunk) :
    verdict chunks = .ok true := by
  apply if_neg
  rintro ⟨chunk, hchunk, hfound⟩
  exact h chunk hchunk hfound

theorem verdict_eq_error {chunks : List Bytes} {bad : Bytes} (hmem : bad ∈ chunks)
    (hbad : ¬ CleanChunk bad) : verdict chunks = .error threat :=
  if_pos ⟨bad, hmem, not_not.1 hbad⟩

/-- A clean chunk in front does not matter. -/
theorem verdict_cons {chunk : Bytes} (chunks : List Bytes) (h : CleanChunk chunk) :
    verdict (chunk :: chunks) = verdict chunks := by
  have hsame : (∃ c ∈ chunk :: chunks, eicarSignature <:+: c) ↔
      ∃ c ∈ chunks, eicarSignature <:+: c := by
    constructor
    · rintro ⟨c, hc, hfound⟩
      rcases List.mem_cons.1 hc with rfl | hc
      · exact absurd hfound h
      · exact ⟨c, hc, hfound⟩
    · rintro ⟨c, hc, hfound⟩
      exact ⟨c, List.mem_cons_of_mem _ hc, hfound⟩
  simp only [verdict, hsame]

/-! ## A finite list of chunks -/

section Listed

variable {W : Type} {R : Answers Collab W} {w w' : W} {chunks : List Bytes}

/-- The body of the scanner's loop over a list. -/
def listRound : List Bytes → Program (List Bytes ⊕ Bool)
  | [] => pure (.inr true)
  | chunk :: rest => do
      raiseIf (eicarSignature <:+: chunk) threat
      pure (.inl rest)

theorem scanStream_streamOf (chunks : List Bytes) :
    scanStream streamOf chunks = loop listRound chunks := by
  unfold scanStream
  congr 1
  funext s
  cases s with
  | nil => rfl
  | cons chunk rest => rfl

/-- One round of the scan of a list: it is over, finds malware, or goes on. -/
theorem exec_listRound (s : List Bytes) (o : Except Exn (List Bytes ⊕ Bool)) :
    Exec R (listRound s) w o w' ↔ w' = w ∧
      (s = [] ∧ o = .ok (.inr true) ∨ ∃ chunk rest, s = chunk :: rest ∧
        (¬ CleanChunk chunk ∧ o = .error threat ∨ CleanChunk chunk ∧ o = .ok (.inl rest))) := by
  cases s with
  | nil => exact (exec_pure (S := Collab) _ o).trans (by simp [and_comm])
  | cons chunk rest =>
      by_cases hfound : eicarSignature <:+: chunk
      · rw [listRound, raiseIf, if_pos hfound]
        exact (exec_raise (S := Collab) threat o).trans (by simp [CleanChunk, hfound, and_comm])
      · rw [listRound, raiseIf, if_neg hfound]
        exact (exec_pure (S := Collab) _ o).trans (by simp [CleanChunk, hfound, and_comm])

/-- Scanning a list of chunks ends, with the verdict on it. -/
theorem exec_scanStream_streamOf (o : Except Exn Bool) :
    Exec R (scanStream streamOf chunks) w o w' ↔ w' = w ∧ o = verdict chunks := by
  rw [scanStream_streamOf, exec_loop]
  constructor
  · intro h
    induction h with
    | again hround _ ih =>
        rcases (exec_listRound _ _).1 hround with ⟨rfl, ⟨_, ho⟩ | ⟨chunk, rest, rfl, h⟩⟩
        · cases ho
        rcases h with ⟨_, ho⟩ | ⟨hclean, ho⟩
        · cases ho
        · cases ho
          rw [verdict_cons _ hclean]
          exact ih
    | stop hround =>
        rcases (exec_listRound _ _).1 hround with ⟨rfl, ⟨rfl, ho⟩ | ⟨_, _, _, h⟩⟩
        · cases ho
          exact ⟨rfl, (verdict_eq_ok (by simp)).symm⟩
        · rcases h with ⟨_, ho⟩ | ⟨_, ho⟩ <;> cases ho
    | fail hround =>
        rcases (exec_listRound _ _).1 hround with ⟨rfl, ⟨_, ho⟩ | ⟨chunk, rest, rfl, h⟩⟩
        · cases ho
        rcases h with ⟨hbad, ho⟩ | ⟨_, ho⟩
        · cases ho
          exact ⟨rfl, (verdict_eq_error List.mem_cons_self hbad).symm⟩
        · cases ho
  · rintro ⟨rfl, rfl⟩
    induction chunks with
    | nil =>
        rw [verdict_eq_ok (by simp)]
        exact .stop ((exec_listRound _ _).2 ⟨rfl, Or.inl ⟨rfl, rfl⟩⟩)
    | cons chunk rest ih =>
        by_cases hclean : CleanChunk chunk
        · rw [verdict_cons _ hclean]
          exact .again ((exec_listRound _ _).2 ⟨rfl, Or.inr ⟨chunk, rest, rfl,
            Or.inr ⟨hclean, rfl⟩⟩⟩) ih
        · rw [verdict_eq_error List.mem_cons_self hclean]
          exact .fail ((exec_listRound _ _).2 ⟨rfl, Or.inr ⟨chunk, rest, rfl,
            Or.inl ⟨hclean, rfl⟩⟩⟩)

end Listed

/-! ## The cached chunks of a session -/

section Cached

variable {env : Env} {w w' : World} {sid : UUID} {k : Nat} {datas : List Bytes}

theorem ne_nil_of_not_clean {data : Bytes} (h : ¬ CleanChunk data) : data ≠ [] := by
  rintro rfl
  apply h
  intro hfound
  rw [List.infix_nil] at hfound
  cases hfound

/-- The chunk on which the scan stops is one that the stream yields. -/
theorem infected_mem {bad : Bytes} {passed : List Bytes} (h : InfectedFrom w sid bad k passed)
    (hstream : StreamedFrom w sid k datas) : bad ∈ datas := by
  induction passed generalizing k datas with
  | nil =>
      cases datas with
      | nil =>
          rcases hstream with hend | hend <;> cases h.1.symm.trans hend
          exact absurd rfl (ne_nil_of_not_clean h.2)
      | cons data datas =>
          cases h.1.symm.trans hstream.1
          exact List.mem_cons_self
  | cons first passed ih =>
      cases datas with
      | nil =>
          rcases hstream with hend | hend <;> cases h.1.symm.trans hend
          exact absurd rfl h.2.1
      | cons data datas => exact List.mem_cons_of_mem _ (ih h.2.2.2 hstream.2.2)

/-- With malware among the chunks that the stream yields, the scan stops on one. -/
theorem exists_infected {bad : Bytes} (hstream : StreamedFrom w sid k datas) (hmem : bad ∈ datas)
    (hbad : ¬ CleanChunk bad) : ∃ passed first, InfectedFrom w sid first k passed := by
  induction datas generalizing k with
  | nil => cases hmem
  | cons data datas ih =>
      rcases hstream with ⟨hdata, hne, hrest⟩
      by_cases hclean : CleanChunk data
      · rcases List.mem_cons.1 hmem with rfl | hmem
        · exact absurd hclean hbad
        · rcases ih hrest hmem with ⟨passed, first, hinf⟩
          exact ⟨data :: passed, first, hdata, hne, hclean, hinf⟩
      · exact ⟨[], data, hdata, hclean⟩

/-- Scanning the stream of the cached chunks is scanning the list of them. -/
theorem exec_scanStream_cached (hstream : StreamedFrom w sid k datas) (o : Except Exn Bool) :
    Exec (works env) (scanStream (ChunkRepository.getStream sid) k) w o w' ↔
      Exec (works env) (scanStream streamOf datas) w o w' := by
  rw [exec_scanStream, exec_scanStream_streamOf]
  apply and_congr_right
  intro _
  constructor
  · rintro (⟨datas', hstream', hclean, rfl⟩ | ⟨passed, bad, hinf, rfl⟩)
    · have hsame := (streamedFrom_iff.1 hstream').unique (streamedFrom_iff.1 hstream)
      subst hsame
      exact (verdict_eq_ok hclean).symm
    · have hbad : ¬ CleanChunk bad := by
        clear hstream
        induction passed generalizing k with
        | nil => exact hinf.2
        | cons data passed ih => exact ih hinf.2.2.2
      exact (verdict_eq_error (infected_mem hinf hstream) hbad).symm
  · rintro rfl
    by_cases hclean : ∀ data ∈ datas, CleanChunk data
    · exact Or.inl ⟨datas, hstream, hclean, verdict_eq_ok hclean⟩
    · simp only [not_forall] at hclean
      rcases hclean with ⟨bad, hmem, hbad⟩
      rcases exists_infected hstream hmem hbad with ⟨passed, first, hinf⟩
      exact Or.inr ⟨passed, first, hinf, verdict_eq_error hmem hbad⟩

end Cached

end LocalVirusScanner

/-! ## The content and its cutting -/

open LocalVirusScanner

section Content

variable {W : Type}

/-- `scan_stream` raises `MalwareDetectedError` on this list of chunks. -/
def Detects (R : Answers Collab W) (w : W) (chunks : List Bytes) : Prop :=
  ∃ msg w', Exec R (scanStream streamOf chunks) w (.error (.malwareDetectedError msg)) w'

/-- If the signature occurs in the content, then also within one of the chunks. -/
def Unsplit (chunks : List Bytes) : Prop :=
  (∃ p, OccursAt eicarSignature chunks.flatten p) →
    ∃ p, OccursAt eicarSignature chunks.flatten p ∧ WithinOne chunks p eicarSignature.length

variable (R : Answers Collab W) (w : W) (chunks : List Bytes)

theorem detects_iff : Detects R w chunks ↔ ∃ chunk ∈ chunks, eicarSignature <:+: chunk := by
  simp only [Detects, exec_scanStream_streamOf]
  constructor
  · rintro ⟨msg, _, _, ho⟩
    by_contra hnone
    rw [verdict, if_neg hnone] at ho
    cases ho
  · intro hfound
    exact ⟨_, w, rfl, (if_pos hfound).symm⟩

/-- What is found in a chunk is in the content. -/
theorem infix_flatten {pat : Bytes} (h : ∃ chunk ∈ chunks, pat <:+: chunk) :
    pat <:+: chunks.flatten := by
  rcases exists_piece_iff.1 h with ⟨p, hp, _⟩
  exact infix_iff_occursAt.2 ⟨p, hp⟩

theorem detects_content_iff : (Detects R w chunks ↔ eicarSignature <:+: chunks.flatten) ↔
    Unsplit chunks := by
  rw [detects_iff, Unsplit, ← infix_iff_occursAt, ← exists_piece_iff]
  constructor
  · intro h
    exact h.2
  · intro h
    exact ⟨infix_flatten chunks, h⟩

/-- The scanner is complete on a list of chunks, and its verdict that on the content as
a whole, exactly if no occurrence of the signature is lost to the cutting: when it
occurs in the content, it also does within one of the chunks. -/
theorem scanner_completeness :
    ((Detects R w chunks ↔ eicarSignature <:+: chunks.flatten) ↔ Unsplit chunks) ∧
    ((∀ o w', Exec R (scanStream streamOf chunks) w o w' ↔
        Exec R (scanStream streamOf [chunks.flatten]) w o w') ↔ Unsplit chunks) := by
  refine ⟨detects_content_iff R w chunks, ?_⟩
  rw [← detects_content_iff R w]
  have hwhole : Detects R w [chunks.flatten] ↔ eicarSignature <:+: chunks.flatten := by
    rw [detects_iff]
    simp
  constructor
  · intro hsame
    rw [← hwhole]
    simp only [Detects, hsame]
  · intro hiff o w'
    rw [detects_iff] at hiff
    rw [exec_scanStream_streamOf, exec_scanStream_streamOf]
    have hverdict : verdict chunks = verdict [chunks.flatten] := by
      simp only [verdict, hiff, List.mem_singleton, exists_eq_left]
    rw [hverdict]

end Content

/-- It fails for a signature that is cut in two: both halves pass. -/
theorem scanner_completeness_fails :
    ¬ (Detects (works Demo.env) (World.empty 0)
        [eicarSignature.take 17, eicarSignature.drop 17] ↔
      eicarSignature <:+: [eicarSignature.take 17, eicarSignature.drop 17].flatten) := by
  rw [detects_iff]
  decide

end FileUploader
