import HashedImports.Proofs.Source.Regular

namespace HashedImports.Source

def IsQuotable (path : String) : Prop :=
  ∀ c ∈ path.toList, c ≠ '"' ∧ c ≠ '\x60' ∧ c ≠ '\\' ∧ c ≠ '\n'

instance (path : String) : Decidable (IsQuotable path) :=
  List.decidableBAll _ path.toList

lemma IsQuotable.fits {path : String} (h : IsQuotable path) {q : Char} (hq : IsQuote q) :
    Fits q path.toList := by
  refine ⟨fun hm => ?_, fun hm => (h _ hm).2.2.2 rfl, fun hm => (h _ hm).2.2.1 rfl⟩
  rcases hq with rfl | rfl
  · exact (h _ hm).1 rfl
  · exact (h _ hm).2.1 rfl

lemma fits_of_quotable {source : List Char} (h : Orderly source) {f : String → String}
    (hf : ∀ path, f path = path ∨ IsQuotable (f path)) :
    ∀ i ∈ imports source, Fits i.quote (f i.path).toList := by
  intro i hi
  obtain ⟨hq, hfits⟩ := h.fits hi
  rcases hf i.path with hkept | hnew
  · rwa [hkept]
  · exact hnew.fits hq

lemma Row.paths_edit (f : String → String) (r : Row) : (r.edit f).paths = r.paths.map f := by
  cases r with
  | plain x => rfl
  | importing n b q p t =>
    rw [edit, paths, paths, List.map_replicate, String.ofList_toList]

theorem Orderly.paths_redirect {source : List Char} (h : Orderly source) {f : String → String}
    (hf : ∀ path, f path = path ∨ IsQuotable (f path)) :
    (imports (redirect f source).text).map Import.path =
      ((imports source).map Import.path).map f := by
  obtain ⟨rows, hr⟩ := h.exists_reading
  have hfits := fits_of_quotable h hf
  rw [hr.scanned.imports_eq] at hfits
  have hnew := hr.edit (takes_of_imports hfits)
  rw [hr.scanned.redirect_text, hnew.scanned.imports_eq, hr.scanned.imports_eq,
    map_path_rowImports, map_path_rowImports, List.flatMap_map, List.map_flatMap]
  simp only [Row.paths_edit]

theorem redirecting_composes {source : List Char} (h : Regular source) {f : String → String}
    (hf : ∀ path, f path = path ∨ IsQuotable (f path)) (g : String → String) :
    (redirect g (redirect f source).text).text =
      (redirect (fun path => g (f path)) source).text := by
  exact h.redirect_comp (fits_of_quotable h.orderly hf) g

def mixedSource : List Char :=
  "import `x` /* \"x\" */\nimport (\n\tq \"y\" // \"x\"\n\t. \"x\"\n)\n".toList

lemma importSpans_mixed :
    importSpans (mask mixedSource) = [⟨7, 10⟩, ⟨33, 36⟩, ⟨47, 50⟩] := by
  rw [mask_eq_maskFrom]
  exact mergeSort_spans (by decide +kernel) (by decide)

def intoHash (path : String) : String :=
  if path = "x" then "gx/ipfs/A/x" else path

def outOfHash (path : String) : String :=
  if path = "gx/ipfs/A/x" then "it's" else path

theorem mixed_imports_redirected_twice :
    (redirect outOfHash (redirect intoHash mixedSource).text).text =
      "import `it's` /* \"x\" */\nimport (\n\tq \"y\" // \"x\"\n\t. \"it's\"\n)\n".toList := by
  have hinto : ∀ path, intoHash path = path ∨ IsQuotable (intoHash path) := by
    intro path
    by_cases hx : path = "x"
    · subst hx
      exact Or.inr (by decide)
    · exact Or.inl (if_neg hx)
  have hregular : Regular mixedSource := by decide +kernel
  rw [redirecting_composes hregular hinto outOfHash, redirect, imports, importSpans_mixed]
  decide +kernel

end HashedImports.Source
