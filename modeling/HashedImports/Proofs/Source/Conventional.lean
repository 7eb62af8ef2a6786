import HashedImports.Proofs.Source.Items
import HashedImports.Proofs.Source.Splice

namespace HashedImports.Source

open Text (isWord)

/-! ## The lines of the whole text -/

lemma unlines_append (xs : List (List Char)) {ys : List (List Char)} (h : ys ≠ []) :
    unlines (xs ++ ys) = ended xs ++ unlines ys := by
  induction xs with
  | nil => rfl
  | cons x xs ih =>
    rw [List.cons_append, unlines_cons x (List.append_ne_nil_of_right_ne_nil xs h), ih, ended_cons,
      List.append_assoc, List.cons_append]

lemma ended_eq_unlines {xs : List (List Char)} (h : xs ≠ []) : ended xs = unlines xs ++ ['\n'] := by
  induction xs with
  | nil => exact (h rfl).elim
  | cons x xs ih =>
    cases xs with
    | nil => simp [unlines_singleton]
    | cons y ys => rw [ended_cons, ih (by simp), unlines_cons x (by simp), List.append_assoc]; rfl

lemma headerLines_append {xs : List (List Char)} (h : ∀ x ∈ xs, startsDeclaration x = false)
    (ys : List (List Char)) : headerLines (xs ++ ys) = xs ++ headerLines ys := by
  induction xs with
  | nil => rfl
  | cons x xs ih =>
    obtain ⟨hx, hxs⟩ := List.forall_mem_cons.mp h
    rw [List.cons_append, headerLines, hx, if_neg (by simp), ih hxs, List.cons_append]

lemma startsDeclaration_masked (d : Declaration) :
    startsDeclaration (maskFrom .code (d.word ++ d.rest)) = true := by
  have hlead : (declarationWords.all fun w => w.all isLead) = true := by decide
  have hword := Masks.of_lead (List.all_eq_true.mp (List.all_eq_true.mp hlead d.word d.mem))
  rw [maskFrom_append_of_code hword.after, hword.masked, startsDeclaration, List.any_eq_true]
  have hcut : Text.afterPrefix? d.word (d.word ++ maskFrom .code d.rest) =
      some (maskFrom .code d.rest) := Text.afterPrefix?_eq_some.mpr rfl
  refine ⟨d.word, d.mem, ?_⟩
  have hboundary := d.boundary
  rw [hcut]
  cases hrest : d.rest with
  | nil => rfl
  | cons c rest =>
    have hc : isWord c = false := hboundary c (by simp [hrest])
    rw [maskFrom]
    rcases shown_cases .code c rest with hs | ⟨hs, -⟩
    · simp [hs, hc]
    · rw [hs]
      rfl

lemma le_start_of_mem_spansOf {o : Nat} {ps : List Piece} {s : Span} (h : s ∈ spansOf o ps) :
    o ≤ s.start := by
  induction ps generalizing o with
  | nil => simp [spansOf] at h
  | cons p ps ih =>
    cases p with
    | kept cs =>
      have := ih h
      omega
    | literal q path =>
      rcases List.mem_cons.mp h with rfl | h
      · exact Nat.le_refl _
      · have := ih h
        omega

lemma spansOf_sorted (o : Nat) (ps : List Piece) :
    (spansOf o ps).Pairwise fun a b => spanBefore a b = true := by
  induction ps generalizing o with
  | nil => exact .nil
  | cons p ps ih =>
    cases p with
    | kept cs => exact ih _
    | literal q path =>
      refine List.pairwise_cons.mpr ⟨fun s hs => ?_, ih _⟩
      have hle := le_start_of_mem_spansOf hs
      rw [spanBefore_iff]
      simp only [spanAt, List.length_nil]
      omega

lemma importSpans_of_laid {ps qs : List Piece} {flags : List Bool} {xs : List (List Char)}
    (h : Laid .start (ps ++ qs) flags xs .start) (hqs : ∀ o, spansOf o qs = [])
    (ys : List (List Char)) (hys : ∀ y ∈ headerLines ys, IsBlankLine y) (hne : xs ++ ys ≠ [])
    (hu : Unbroken ys) : importSpans (unlines (xs ++ ys)) = spansOf 0 ps := by
  refine importSpans_unlines hne (List.forall_mem_append.mpr ⟨h.unbroken, hu⟩) ?_
    (spansOf_sorted 0 ps)
  have hclosed : Place.start.ClosedBy (headerLines ys) := by rintro ⟨⟩
  have hblocks : inBlocks none (xs ++ headerLines ys) = flags ++ inBlocks none (headerLines ys) :=
    h.inBlocks hclosed
  have hfound := h.found 0
  rw [headerLines_append h.undeclared, hblocks, spansFrom_append _ _ h.length, hfound,
    spansFrom_blank hys, spansOf_append, hqs]
  simp [Place.start]

lemma importSpans_item (items : List Item) (i : Item) :
    importSpans (maskFrom .code (GoText.mk items (.inl i)).text) =
      spansOf 0 (GoText.mk items (.inl i)).pieces := by
  let ps := (GoText.mk items (.inl i)).pieces
  have hlays : Lays .start (ps ++ [.kept ['\n']]) .start := by
    have hh := (lays_items items).trans (lays_item i)
    rwa [← List.append_assoc] at hh
  obtain ⟨flags, xs, h⟩ := hlays
  have hmask : maskFrom .code (textOf ps) ++ ['\n'] = ended xs := by
    have hh := h.masked
    rw [textOf_append] at hh
    simpa [Place.start, maskFrom_newline, maskFrom] using hh
  have hne : xs ≠ [] := by
    rintro rfl
    simp at hmask
  rw [ended_eq_unlines hne] at hmask
  have hspans := importSpans_of_laid h (fun _ => rfl) [] (by simp [headerLines])
    (by simpa using hne) (by simp [Unbroken])
  rw [List.append_nil, ← List.append_cancel_right hmask] at hspans
  exact hspans

lemma importSpans_declaration (items : List Item) (d : Declaration) :
    importSpans (maskFrom .code (GoText.mk items (.inr d)).text) =
      spansOf 0 (GoText.mk items (.inr d)).pieces := by
  obtain ⟨flags, xs, h⟩ := lays_items items
  obtain ⟨y, ys, hys, hu⟩ := exists_unlines (maskFrom .code (d.word ++ d.rest))
  have hdecl : startsDeclaration y = true := by
    rw [← startsDeclaration_unlines y ys, ← hys, startsDeclaration_masked]
  -- the header ends where the declaration's line begins
  have hheader : headerLines (y :: ys) = [[]] := if_pos hdecl
  have hmask : maskFrom .code (GoText.mk items (.inr d)).text = unlines (xs ++ y :: ys) := by
    have hh := h.masked
    have htext : (GoText.mk items (.inr d)).text =
        textOf (items.flatMap fun i => i.pieces ++ [.kept ['\n']]) ++ (d.word ++ d.rest) := by
      simp [GoText.text, GoText.pieces, Declaration.pieces, textOf_append]
    rw [htext, maskFrom_append_of_code h.after, unlines_append xs (by simp), ← hys]
    simpa [Place.start] using hh
  have hspans : spansOf 0 (GoText.mk items (.inr d)).pieces =
      spansOf 0 (items.flatMap fun i => i.pieces ++ [.kept ['\n']]) := by
    simp [GoText.pieces, Declaration.pieces, spansOf_append, spansOf]
  rw [hmask, hspans]
  rw [← List.append_nil (items.flatMap _)] at h
  exact importSpans_of_laid h (fun _ => rfl) (y :: ys) (by simp [hheader, IsBlankLine]) (by simp) hu

theorem importSpans_text (t : GoText) : importSpans (mask t.text) = spansOf 0 t.pieces := by
  rw [mask_eq_maskFrom]
  obtain ⟨items, last⟩ := t
  cases last with
  | inl i => exact importSpans_item items i
  | inr d => exact importSpans_declaration items d

/-! ## The imports -/

def importsOf : Nat → List Piece → List Import
  | _, [] => []
  | o, .kept cs :: ps => importsOf (o + cs.length) ps
  | o, .literal q path :: ps =>
    ⟨spanAt o [] path, q, String.ofList path⟩ :: importsOf (o + (path.length + 2)) ps

lemma map_importAt_spansOf {source : List Char} {o : Nat} {ps : List Piece}
    (h : source.drop o = textOf ps) : (spansOf o ps).map (importAt source) = importsOf o ps := by
  induction ps generalizing o with
  | nil => rfl
  | cons p ps ih =>
    cases p with
    | kept cs => exact ih (drop_of_append h)
    | literal q path =>
      rw [textOf_literal] at h
      have hnext := drop_of_append h
      rw [length_literal] at hnext
      rw [spansOf, importsOf, List.map_cons, ih hnext]
      congr 1
      exact importAt_spanAt (b := []) (t := textOf ps) (by simpa [literal] using h)

theorem imports_text (t : GoText) : imports t.text = importsOf 0 t.pieces := by
  rw [imports, importSpans_text]
  exact map_importAt_spansOf rfl

lemma map_path_importsOf (o : Nat) (ps : List Piece) :
    (importsOf o ps).map Import.path = pathsOf ps := by
  induction ps generalizing o with
  | nil => rfl
  | cons p ps ih =>
    cases p with
    | kept cs => exact ih _
    | literal q path => exact congrArg _ (ih _)

/-! ## Redirecting -/

lemma splices_pieces (source : List Char) (o : Nat) (ps : List Piece) (paths : List String) :
    Splices source (editsFor (importsOf o ps) paths) o (textOf ps) (textWith ps paths) := by
  induction ps generalizing o paths with
  | nil => exact splices_nil source o []
  | cons p ps ih =>
    cases p with
    | kept cs => exact (ih _ paths).keep
    | literal q path =>
      have hlen : ∀ paths, Splices source (editsFor (importsOf (o + (path.length + 2)) ps) paths)
          (o + (literal q path).length) (textOf ps) (textWith ps paths) := by
        intro paths
        rw [length_literal]
        exact ih _ paths
      cases paths with
      | nil =>
        have hh := (hlen []).keep (u := literal q path)
        rw [editsFor_no_answer] at hh ⊢
        exact hh
      | cons new paths =>
        rw [importsOf, editsFor_cons, textOf_literal, textWith]
        by_cases hnew : new = String.ofList path
        · subst hnew
          simp only [editFor?, if_true, String.toList_ofList, Option.toList_none, List.nil_append]
          exact (hlen paths).keep
        · simp only [editFor?, if_neg hnew, Option.toList_some]
          have hh := (hlen paths).replace (List.cons_ne_nil (literal q new.toList) [])
          rw [length_literal] at hh
          simpa [spanAt, literal] using hh

lemma replace_text (t : GoText) (paths : List String) :
    replace t.text (imports t.text) paths = ⟨textWith t.pieces paths,
      ((pathsOf t.pieces).zip paths).countP fun (old, new) => new ≠ old⟩ := by
  have hsplice := splices_pieces t.text 0 t.pieces paths 0 [] rfl rfl
  rw [replace_eq, length_editsFor, imports_text, map_path_importsOf, hsplice, List.nil_append]

lemma textWith_pathsOf (ps : List Piece) : textWith ps (pathsOf ps) = textOf ps := by
  induction ps with
  | nil => rfl
  | cons p ps ih =>
    cases p with
    | kept cs => rw [pathsOf, textWith, ih, textOf_kept]
    | literal q path => rw [pathsOf, textWith, ih, textOf_literal, String.toList_ofList]

theorem redirectM_text {m : Type → Type} [Monad m] (lookup : String → m String) (t : GoText) :
    redirectM lookup t.text = (do
      let paths ← (pathsOf t.pieces).mapM lookup
      return ⟨textWith t.pieces paths,
        ((pathsOf t.pieces).zip paths).countP fun (old, new) => new ≠ old⟩) ∧
      textWith t.pieces (pathsOf t.pieces) = t.text := by
  refine ⟨?_, textWith_pathsOf t.pieces⟩
  have hpaths : (imports t.text).map Import.path = pathsOf t.pieces := by
    rw [imports_text, map_path_importsOf]
  rw [redirectM]
  dsimp only
  rw [mapM_path, hpaths]
  congr 1
  funext paths
  rw [replace_text]

example : ∃ t : GoText, t.text = "import (\n\t_ \"a\" // \"b\"\n)".toList ∧
    pathsOf t.pieces = ["a"] := by
  let blank : Trail := ⟨[], .blank [] (by simp)⟩
  let gap : Separator := ⟨⟨[.gap ' ' rfl], by decide⟩, by decide⟩
  let name : Word := ⟨['_'], by decide, List.all_eq_true.mp (by decide)⟩
  let spec : Spec := ⟨some (.name name (by decide), gap), '"', ['a'], Or.inl rfl, by decide,
    by decide, by decide⟩
  let comment : Trail := ⟨[.gap ' ' rfl], .comment " \"b\"".toList (by decide)⟩
  refine ⟨⟨[], .inl (.block gap.toSpacing ⟨[blank], [.gap '\t' rfl], by decide⟩
    [(spec, ⟨[comment], [], by decide⟩)] blank)⟩, ?_⟩
  decide

end HashedImports.Source
