import HashedImports.Proofs.Source.Changing

/-! How often a literal is found. A line in a block may be read as an import by itself too; then its
literal is asked for twice, and both answers are written. -/

namespace HashedImports.Source

lemma within_row {o : Nat} {r : Row} {s : Span} (h : s ∈ r.spans o) :
    s.start < s.stop ∧ s.stop ≤ o + r.text.length := by
  cases r with
  | plain x => cases h
  | importing n b q p t =>
    obtain rfl := List.eq_of_mem_replicate h
    simp only [spanAt, Row.text, List.length_append, List.length_cons]
    omega

lemma within_rows {o : Nat} {r : Row} {rs : List Row} {s : Span} (h : s ∈ rowSpans o (r :: rs)) :
    s.start < s.stop ∧ s.stop ≤ o + (unlines (texts (r :: rs))).length := by
  induction rs generalizing o r with
  | nil =>
    rw [rowSpans, rowSpans, List.append_nil] at h
    exact within_row h
  | cons r' rs ih =>
    have htexts : unlines (texts (r :: r' :: rs)) = r.text ++ '\n' :: unlines (texts (r' :: rs)) :=
      unlines_cons _ (by simp)
    rw [htexts, List.length_append, List.length_cons]
    rw [rowSpans, List.mem_append] at h
    rcases h with h | h
    · obtain ⟨hlt, hle⟩ := within_row h
      omega
    · obtain ⟨hlt, hle⟩ := ih h
      omega

lemma within_source {source : List Char} {s : Span} (h : s ∈ importSpans (mask source)) :
    s.start < s.stop ∧ s.stop ≤ source.length := by
  obtain ⟨rows, hr⟩ := exists_scanned source
  rw [hr.importSpans_eq] at h
  rw [hr.text, ← Nat.zero_add (unlines _).length]
  cases rows with
  | nil => cases h
  | cons r rs => exact within_rows h

lemma eq_of_mem_spans {o : Nat} {r : Row} {a b : Span} (ha : a ∈ r.spans o)
    (hb : b ∈ r.spans o) : a = b := by
  cases r with
  | plain x => cases ha
  | importing n _ q p t =>
    exact (List.eq_of_mem_replicate ha).trans (List.eq_of_mem_replicate hb).symm

lemma pairwise_rowSpans (o : Nat) (rows : List Row) :
    (rowSpans o rows).Pairwise fun a b => a = b ∨ a.stop ≤ b.start := by
  induction rows generalizing o with
  | nil => exact .nil
  | cons r rs ih =>
    rw [rowSpans, List.pairwise_append]
    refine ⟨?_, ih _, fun a ha b hb => ?_⟩
    · exact List.pairwise_of_forall_mem_list fun a ha b hb => Or.inl (eq_of_mem_spans ha hb)
    · have hstop := (within_row ha).2
      have hstart := le_start_of_mem_rowSpans hb
      exact Or.inr (by omega)

lemma Row.nodup_spans_iff (o : Nat) (r : Row) : (r.spans o).Nodup ↔ r.IsSingle := by
  cases r with
  | plain x => exact iff_of_true .nil trivial
  | importing n b q p t =>
    rw [spans, List.nodup_replicate, IsSingle]
    omega

lemma nodup_rowSpans_iff (o : Nat) (rows : List Row) :
    (rowSpans o rows).Nodup ↔ ∀ r ∈ rows, r.IsSingle := by
  induction rows generalizing o with
  | nil => exact iff_of_true .nil (by simp)
  | cons r rs ih =>
    have hapart : ∀ a ∈ r.spans o, ∀ b ∈ rowSpans (o + r.text.length + 1) rs, a ≠ b := by
      rintro a ha _ hb rfl
      obtain ⟨hlt, hle⟩ := within_row ha
      have hstart := le_start_of_mem_rowSpans hb
      omega
    rw [rowSpans, List.nodup_append, r.nodup_spans_iff, ih, List.forall_mem_cons]
    exact ⟨fun h => ⟨h.1, h.2.1⟩, fun h => ⟨h.1, h.2, hapart⟩⟩

lemma nodup_importSpans_iff {source : List Char} {rows : List Row} (h : Scanned source rows) :
    (importSpans (mask source)).Nodup ↔ ∀ s ∈ blockSpans .outside (linesOf (header (mask source))),
      s ∉ (linesOf (header (mask source))).filterMap singleSpan? := by
  constructor
  · intro hn
    rw [importSpans, (List.mergeSort_perm _ _).nodup_iff, List.nodup_append] at hn
    exact fun s hs hs' => hn.2.2 s hs s hs' rfl
  · intro honce
    rw [h.importSpans_eq, nodup_rowSpans_iff]
    exact h.isSingle honce

lemma Scanned.redirectM_eq {source : List Char} {rows : List Row} (h : Scanned source rows)
    {m : Type → Type} [Monad m] (lookup : String → m String) :
    redirectM lookup source = (do
      let answers ← (rows.flatMap Row.paths).mapM lookup
      return ⟨unlines (written rows answers),
        ((rows.flatMap Row.paths).zip answers).countP fun (old, new) => new ≠ old⟩) := by
  have hpaths : (imports source).map Import.path = rows.flatMap Row.paths := by
    rw [h.imports_eq, map_path_rowImports]
  rw [redirectM]
  dsimp only
  rw [mapM_path, hpaths]
  congr 1
  funext answers
  have hcount : (replace source (imports source) answers).count =
      ((rows.flatMap Row.paths).zip answers).countP fun (old, new) => new ≠ old := by
    rw [replace_eq, length_editsFor, hpaths]
  rw [← h.replace_text answers, ← hcount]

/-- A text is rows with at most one literal each. A literal is found once, or twice if it is one of
a block and of an import by itself, and literals that are not the same do not overlap. Each find is
asked for, and every answer that is another path is written and counted, so there may stand two
literals in the place of one that is found twice. -/
theorem redirectM_writes_every_find (source : List Char) :
    let spans := importSpans (mask source)
    let lines := linesOf (header (mask source))
    (spans.Pairwise fun a b => a = b ∨ a.stop ≤ b.start) ∧
      (spans.Nodup ↔ ∀ s ∈ blockSpans .outside lines, s ∉ lines.filterMap singleSpan?) ∧
      ∃ rows, Scanned source rows ∧ spans = rowSpans 0 rows ∧ (∀ r ∈ rows, r.IsSound) ∧
        (spans.Nodup ↔ ∀ r ∈ rows, r.IsSingle) ∧
        ∀ (m : Type → Type) [Monad m] (lookup : String → m String),
          redirectM lookup source = (do
            let answers ← (rows.flatMap Row.paths).mapM lookup
            return ⟨unlines (written rows answers),
              ((rows.flatMap Row.paths).zip answers).countP fun (old, new) => new ≠ old⟩) := by
  intro spans lines
  obtain ⟨rows, h⟩ := exists_scanned source
  have hspans : spans = rowSpans 0 rows := h.importSpans_eq
  refine ⟨hspans ▸ pairwise_rowSpans 0 rows, nodup_importSpans_iff h, rows, h, hspans,
    h.scans.isSound h.unbroken, hspans ▸ nodup_rowSpans_iff 0 rows, ?_⟩
  intro m _ lookup
  exact h.redirectM_eq lookup

def bracketedSource : List Char :=
  "package p\nimport ()\nimport \"a\"\nimport (\n\t\"b\"\n)\n".toList

lemma importSpans_bracketed :
    importSpans (mask bracketedSource) = [⟨27, 30⟩, ⟨27, 30⟩, ⟨41, 44⟩] := by
  rw [mask_eq_maskFrom]
  exact mergeSort_spans (by decide +kernel) (by decide)

theorem import_between_blocks_doubled :
    ¬ (importSpans (mask bracketedSource)).Nodup ∧
      (imports bracketedSource).map (·.path) = ["a", "a", "b"] ∧
      redirect (fun path => if path = "a" then "x" else path) bracketedSource =
        ⟨"package p\nimport ()\nimport \"x\"\"x\"\nimport (\n\t\"b\"\n)\n".toList, 2⟩ := by
  refine ⟨?_, ?_, ?_⟩
  · rw [importSpans_bracketed]
    decide
  · rw [imports, importSpans_bracketed]
    decide +kernel
  · rw [redirect, imports, importSpans_bracketed]
    decide +kernel

end HashedImports.Source
