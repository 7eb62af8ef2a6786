import HashedImports.Proofs.Source.Edit
import HashedImports.Proofs.Source.Scanning

namespace HashedImports.Source

/-- No line of the header begins in a literal, no literal there holds a backslash, and no import is
found both in a block and by itself. -/
structure Regular (source : List Char) : Prop where
  lines : ∀ before after, source = before ++ '\n' :: after →
    before.length + 1 < (header (mask source)).length →
    ¬ (State.code.after (before ++ ['\n'])).InLiteral
  backslashes : ∀ before after, source = before ++ '\\' :: after →
    before.length < (header (mask source)).length → ¬ (State.code.after before).InLiteral
  once : ∀ s ∈ blockSpans .outside (linesOf (header (mask source))),
    s ∉ (linesOf (header (mask source))).filterMap singleSpan?

lemma forall_append_cons_iff {P : List Char → Prop} {source : List Char} {c : Char} :
    (∀ before after, source = before ++ c :: after → P before) ↔
      ∀ n < source.length, source[n]? = some c → P (source.take n) := by
  constructor
  · intro h n hn hc
    apply h _ (source.drop (n + 1))
    rw [List.getElem?_eq_getElem hn] at hc
    rw [← Option.some.inj hc, List.getElem_cons_drop, List.take_append_drop]
  · rintro h before after rfl
    have hh := h before.length (by simp) (by simp)
    rwa [List.take_left] at hh

lemma regular_iff {source : List Char} : Regular source ↔
    (∀ n < source.length, source[n]? = some '\n' →
      (source.take n).length + 1 < (header (maskFrom .code source)).length →
        ¬ (State.code.after (source.take n ++ ['\n'])).InLiteral) ∧
    (∀ n < source.length, source[n]? = some '\\' →
      (source.take n).length < (header (maskFrom .code source)).length →
        ¬ (State.code.after (source.take n)).InLiteral) ∧
    ∀ s ∈ blockSpans .outside (linesOf (header (maskFrom .code source))),
      s ∉ (linesOf (header (maskFrom .code source))).filterMap singleSpan? := by
  rw [← forall_append_cons_iff (P := fun before =>
      before.length + 1 < (header (maskFrom .code source)).length →
        ¬ (State.code.after (before ++ ['\n'])).InLiteral),
    ← forall_append_cons_iff (P := fun before =>
      before.length < (header (maskFrom .code source)).length →
        ¬ (State.code.after before).InLiteral), ← mask_eq_maskFrom]
  exact ⟨fun h => ⟨h.lines, h.backslashes, h.once⟩, fun ⟨hl, hb, ho⟩ => ⟨hl, hb, ho⟩⟩

instance (source : List Char) : Decidable (Regular source) :=
  decidable_of_iff' _ regular_iff

/-- No line of the header begins in a literal, and no literal there holds a backslash. -/
structure Orderly (source : List Char) : Prop where
  lines : ∀ before after, source = before ++ '\n' :: after →
    before.length + 1 < (header (mask source)).length →
    ¬ (State.code.after (before ++ ['\n'])).InLiteral
  backslashes : ∀ before after, source = before ++ '\\' :: after →
    before.length < (header (mask source)).length → ¬ (State.code.after before).InLiteral

lemma Regular.orderly {source : List Char} (h : Regular source) : Orderly source :=
  ⟨h.lines, h.backslashes⟩

structure OrderlyFrom (s : State) (xs : List (List Char)) : Prop where
  start : 0 < (unlines (headerFrom s xs)).length → ¬ s.InLiteral
  lines : ∀ before after, unlines xs = before ++ '\n' :: after →
    before.length + 1 < (unlines (headerFrom s xs)).length →
    ¬ (s.after (before ++ ['\n'])).InLiteral
  backslashes : ∀ before after, unlines xs = before ++ '\\' :: after →
    before.length < (unlines (headerFrom s xs)).length → ¬ (s.after before).InLiteral

lemma header_mask_unlines {xs : List (List Char)} (hne : xs ≠ []) (hu : Unbroken xs) :
    header (mask (unlines xs)) = unlines (headerFrom .code xs) := by
  rw [mask_eq_maskFrom, maskFrom_unlines,
    header_unlines (maskLines_ne_nil .code hne) (unbroken_maskLines hu)]
  rfl

lemma Orderly.from {xs : List (List Char)} (hne : xs ≠ []) (hu : Unbroken xs)
    (h : Orderly (unlines xs)) : OrderlyFrom .code xs := by
  obtain ⟨hl, hb⟩ := h
  rw [header_mask_unlines hne hu] at hl hb
  exact ⟨fun _ => id, hl, hb⟩

lemma length_header_cons {s : State} {x : List Char} {xs : List (List Char)} (hne : xs ≠ [])
    (hd : startsDeclaration (maskFrom s x) = false) :
    (unlines (headerFrom s (x :: xs))).length =
      x.length + 1 + (unlines (headerFrom (s.next x) xs)).length := by
  have hn : headerFrom (s.next x) xs ≠ [] := headerLines_ne_nil (maskLines_ne_nil _ hne)
  rw [headerFrom_cons xs hd, unlines_cons _ hn, List.length_append, List.length_cons,
    length_maskFrom]
  omega

lemma length_le_header {s : State} {x : List Char} (xs : List (List Char))
    (hd : startsDeclaration (maskFrom s x) = false) :
    x.length ≤ (unlines (headerFrom s (x :: xs))).length := by
  cases xs with
  | nil =>
    rw [headerFrom_cons [] hd]
    exact Nat.le_of_eq (length_maskFrom s x).symm
  | cons y ys =>
    rw [length_header_cons (by simp) hd]
    omega

lemma after_line (s : State) (x before : List Char) :
    s.after (x ++ '\n' :: before) = (s.next x).after before :=
  State.after_append s x _

lemma OrderlyFrom.tail {s : State} {x : List Char} {xs : List (List Char)}
    (h : OrderlyFrom s (x :: xs)) (hd : startsDeclaration (maskFrom s x) = false) :
    OrderlyFrom (s.next x) xs := by
  by_cases hne : xs = []
  · subst hne
    refine ⟨fun hl => ?_, fun before after he => ?_, fun before after he => ?_⟩
    · simp [headerFrom, maskLines, headerLines, unlines, Text.joinWith] at hl
    · simp [unlines, Text.joinWith] at he
    · simp [unlines, Text.joinWith] at he
  · have hlen := length_header_cons hne hd
    have htext := unlines_cons x hne
    refine ⟨fun hl => ?_, fun before after he hl => ?_, fun before after he hl => ?_⟩
    · have hh := h.lines x (unlines xs) htext (by omega)
      rwa [after_line] at hh
    · have hh := h.lines (x ++ '\n' :: before) after (by rw [htext, he]; simp) (by
        rw [List.length_append, List.length_cons]
        omega)
      rwa [List.append_assoc, List.cons_append, after_line] at hh
    · have hh := h.backslashes (x ++ '\n' :: before) after (by rw [htext, he]; simp) (by
        rw [List.length_append, List.length_cons]
        omega)
      rwa [after_line] at hh

/-! ## Rows of an orderly source -/

lemma calm_of_not_inLiteral {s : State} (h : ¬ s.InLiteral) (hs : s ≠ .slash) (cs : List Char) :
    Calm cs s := by
  cases s <;> first | exact h | exact (hs rfl).elim

lemma next_ne_slash (s : State) (x : List Char) : s.next x ≠ .slash := by
  rw [State.next]
  cases s.after x with
  | code => decide
  | slash => decide
  | line => decide
  | block => decide
  | star => decide
  | raw => decide
  | quoted q => simp [State.step]
  | escaped q => simp [State.step]

lemma Row.stands_of_spans {s : State} {flag : Bool} {r : Row} (hs : s ≠ .slash)
    (hstart : r.text ≠ [] → ¬ s.InLiteral)
    (hb : ∀ u v, r.text = u ++ '\\' :: v → ¬ (s.after u).InLiteral)
    (hspans : ∀ o, lineSpans flag o (maskFrom s r.text) = r.spans o) : r.Stands s := by
  cases r with
  | plain x => exact trivial
  | importing n b q p t =>
    obtain ⟨b₁, q₁, p₁, t₁, hl, hlb, hlp⟩ := exists_literalAt hspans
    have hcalm : Calm (b ++ q :: (p ++ q :: t)) s :=
      calm_of_not_inLiteral (hstart (by simp [text])) hs _
    obtain ⟨b', x', htext, hmask, hcode, hrest⟩ := code_of_masked_quote hcalm hl.isQuote
      (fun c hc => isQuiet_of_isLead (hl.lead c hc)) hl.text
    have hb' : ∀ u v, x' = u ++ '\\' :: v → ¬ ((State.code.step q₁).after u).InLiteral := by
      intro u v he
      have hh := hb (b' ++ q₁ :: u) v (by rw [text, htext, he]; simp)
      rwa [State.after_append, hcode] at hh
    obtain ⟨rest, rfl, -, hf⟩ := literal_of_masked hl.isQuote hl.quote hl.newline hb' hrest
    -- the literal that stands in code is the row's, since their places are the same
    have hlen : b.length = b'.length := by
      rw [← length_maskFrom s b', hmask, hlb]
    obtain ⟨rfl, hlit⟩ := List.append_inj htext hlen
    obtain ⟨rfl, hpath⟩ := List.cons.inj hlit
    obtain ⟨rfl, -⟩ := List.append_inj hpath hlp.symm
    refine ⟨hcode, hl.isQuote, hf, ?_⟩
    rw [hmask]
    exact hl.lead

lemma Scans.reads {s : State} {flags : List Bool} {rows : List Row} (h : Scans s flags rows)
    (hs : s ≠ .slash) (ho : OrderlyFrom s (texts rows)) : Reads s flags rows := by
  induction h with
  | done => exact .done
  | @line s flag flags r rs hd hspans _ ih =>
    refine .line hd ?_ hspans (ih (next_ne_slash s r.text) (ho.tail hd))
    have hle := length_le_header (texts rs) hd
    obtain ⟨more, hmore⟩ : ∃ more, unlines (texts (r :: rs)) = r.text ++ more :=
      ⟨_, unlines_eq_restText _ _⟩
    have hheader : headerFrom s (texts (r :: rs)) = headerFrom s (r.text :: texts rs) := rfl
    refine Row.stands_of_spans hs (fun hx => ?_) (fun u v he => ?_) hspans
    · have := List.length_pos_iff.mpr hx
      exact ho.start (by rw [hheader]; omega)
    · have hlen := congrArg List.length he
      rw [List.length_append, List.length_cons] at hlen
      exact ho.backslashes u (v ++ more) (by rw [hmore, he]; simp) (by rw [hheader]; omega)
  | declaration hd hp => exact .declaration hd hp

theorem Orderly.exists_reading {source : List Char} (h : Orderly source) :
    ∃ rows, Reading source rows := by
  obtain ⟨rows, hr⟩ := exists_scanned source
  obtain ⟨hne, hu, rfl, hscans⟩ := hr
  refine ⟨rows, hne, hu, rfl, hscans.reads (by decide) (h.from ?_ hu)⟩
  simpa [texts] using hne

/-! ## What is found once -/

lemma Row.isSingle_of_once {flag : Bool} {o : Nat} {x : List Char} {r : Row}
    (hs : lineSpans flag o x = r.spans o)
    (honce : ∀ span ∈ specIn flag o x, span ∉ singleIn flag o x) : r.IsSingle := by
  cases r with
  | plain x => exact trivial
  | importing n b q p t =>
    have hspec : (specIn flag o x).length ≤ 1 := by
      rw [specIn]
      split
      · cases specSpan? o x <;> simp
      · simp
    have hsingle : (singleIn flag o x).length ≤ 1 := by
      rw [singleIn]
      cases singleSpan? ⟨o, x⟩ <;> simp
    have hall : ∀ span ∈ lineSpans flag o x, span = spanAt o b p := by
      intro span hm
      rw [hs] at hm
      exact List.eq_of_mem_replicate hm
    have hlen := congrArg List.length hs
    rw [lineSpans, spans, List.length_append, List.length_replicate] at hlen
    by_contra hn
    have hn' : n ≠ 0 := hn
    obtain ⟨a, ha⟩ := List.exists_mem_of_length_pos (l := specIn flag o x) (by omega)
    obtain ⟨b, hb⟩ := List.exists_mem_of_length_pos (l := singleIn flag o x) (by omega)
    obtain rfl := hall a (List.mem_append_left _ ha)
    obtain rfl := hall b (List.mem_append_right _ hb)
    exact honce _ ha hb

lemma Scans.isSingle {s : State} {flags : List Bool} {rows : List Row} (h : Scans s flags rows)
    (o : Nat) (honce : ∀ span ∈ spansFrom specIn o flags (headerFrom s (texts rows)),
      span ∉ spansFrom singleIn o flags (headerFrom s (texts rows))) :
    ∀ r ∈ rows, r.IsSingle := by
  induction h generalizing o with
  | done => simp
  | @line s flag flags r rs hd hspans _ ih =>
    have hcons : headerFrom s (texts (r :: rs)) =
        maskFrom s r.text :: headerFrom (s.next r.text) (texts rs) := headerFrom_cons _ hd
    rw [hcons] at honce
    intro r' hr
    rcases List.mem_cons.mp hr with rfl | hr
    · exact Row.isSingle_of_once (hspans o) fun span hm hm' =>
        honce span (List.mem_append_left _ hm) (List.mem_append_left _ hm')
    · exact ih _ (fun span hm hm' => honce span (List.mem_append_right _ hm)
        (List.mem_append_right _ hm')) r' hr
  | declaration _ hp =>
    intro r hr
    obtain ⟨x, rfl⟩ := hp r hr
    exact trivial

theorem Scanned.isSingle {source : List Char} {rows : List Row} (h : Scanned source rows)
    (honce : ∀ s ∈ blockSpans .outside (linesOf (header (mask source))),
      s ∉ (linesOf (header (mask source))).filterMap singleSpan?) : ∀ r ∈ rows, r.IsSingle := by
  refine h.scans.isSingle 0 ?_
  have hlines : linesOf (header (mask source)) = linesUp 0 (headerFrom .code (texts rows)) := by
    rw [h.text, header_mask_unlines h.texts_ne_nil h.unbroken]
    exact linesOf_unlines (headerLines_ne_nil (maskLines_ne_nil .code h.texts_ne_nil))
      (unbroken_headerLines (unbroken_maskLines h.unbroken))
  rw [hlines, (blockSpans_linesUp _ 0).1, singles_linesUp 0 (length_inBlocks none _)] at honce
  exact honce

theorem Regular.exists_reading {source : List Char} (h : Regular source) :
    ∃ rows, Reading source rows ∧ ∀ r ∈ rows, r.IsSingle := by
  obtain ⟨rows, hr⟩ := h.orderly.exists_reading
  exact ⟨rows, hr, hr.scanned.isSingle h.once⟩

/-! ## Redirecting twice -/

lemma exists_import_of_row {rows : List Row} {n : Nat} {b p t : List Char} {q : Char}
    (h : Row.importing n b q p t ∈ rows) (o : Nat) :
    ∃ i ∈ rowImports o rows, i.quote = q ∧ i.path = String.ofList p := by
  induction rows generalizing o with
  | nil => cases h
  | cons r rs ih =>
    rw [rowImports]
    rcases List.mem_cons.mp h with rfl | h
    · exact ⟨⟨spanAt o b p, q, String.ofList p⟩, by simp [Row.imports], rfl, rfl⟩
    · obtain ⟨i, hi, hh⟩ := ih h _
      exact ⟨i, List.mem_append_right _ hi, hh⟩

lemma takes_of_imports {rows : List Row} {f : String → String}
    (hf : ∀ i ∈ rowImports 0 rows, Fits i.quote (f i.path).toList) : ∀ r ∈ rows, r.Takes f := by
  intro r hm
  cases r with
  | plain x => exact trivial
  | importing n b q p t =>
    obtain ⟨i, hi, rfl, hp⟩ := exists_import_of_row hm 0
    have hh := hf i hi
    rwa [hp] at hh

lemma Row.edit_edit {r : Row} (h : r.IsSingle) (f g : String → String) :
    (r.edit f).edit g = r.edit (g ∘ f) := by
  cases r with
  | plain x => rfl
  | importing n b q p t =>
    obtain rfl : n = 0 := h
    have hnone : ∀ old new : List Char, repeated 0 q old new = [] := by
      intro old new
      rw [repeated, List.replicate_zero, List.flatten_nil, ite_self]
    simp only [Row.edit, String.ofList_toList, hnone, List.nil_append, Function.comp]

lemma map_edit_of_kept {rows : List Row} {f : String → String}
    (h : ∀ i ∈ rowImports 0 rows, f i.path = i.path) : rows.map (Row.edit f) = rows := by
  refine (List.map_congr_left fun r hm => ?_).trans (List.map_id' rows)
  cases r with
  | plain x => rfl
  | importing n b q p t =>
    obtain ⟨i, hi, -, hp⟩ := exists_import_of_row hm 0
    have hh := h i hi
    rw [hp] at hh
    simp only [Row.edit, hh, String.toList_ofList, repeated, if_true, List.nil_append]

theorem Regular.redirect_comp {source : List Char} (h : Regular source) {f : String → String}
    (hf : ∀ i ∈ imports source, Fits i.quote (f i.path).toList) (g : String → String) :
    (redirect g (redirect f source).text).text = (redirect (g ∘ f) source).text := by
  obtain ⟨rows, hr, hsingle⟩ := h.exists_reading
  rw [hr.scanned.imports_eq] at hf
  have ht := takes_of_imports hf
  rw [hr.scanned.redirect_text, (hr.edit ht).scanned.redirect_text, List.map_map,
    hr.scanned.redirect_text]
  congr 2
  exact List.map_congr_left fun r hm => Row.edit_edit (hsingle r hm) f g

theorem Regular.redirect_redirect {source : List Char} (h : Regular source)
    {f g : String → String} (hf : ∀ i ∈ imports source, Fits i.quote (f i.path).toList)
    (hg : ∀ i ∈ imports source, g (f i.path) = i.path) :
    (redirect g (redirect f source).text).text = source := by
  obtain ⟨rows, hr⟩ := exists_scanned source
  have hkept : rows.map (Row.edit (g ∘ f)) = rows := by
    apply map_edit_of_kept
    rwa [← hr.imports_eq]
  rw [h.redirect_comp hf, hr.redirect_text, hkept, ← hr.text]

/-! ## What imports are made of -/

lemma exists_row_of_import {rows : List Row} {o : Nat} {i : Import} (h : i ∈ rowImports o rows) :
    ∃ n b p t, Row.importing n b i.quote p t ∈ rows ∧ i.path = String.ofList p := by
  induction rows generalizing o with
  | nil => cases h
  | cons r rs ih =>
    rw [rowImports, List.mem_append] at h
    rcases h with h | h
    · cases r with
      | plain x => cases h
      | importing n b q p t =>
        obtain rfl := List.eq_of_mem_replicate h
        exact ⟨n, b, p, t, List.mem_cons_self, rfl⟩
    · obtain ⟨n, b, p, t, hm, hp⟩ := ih h
      exact ⟨n, b, p, t, List.mem_cons_of_mem _ hm, hp⟩

lemma Reads.fits {s : State} {flags : List Bool} {rows : List Row} (h : Reads s flags rows)
    {n : Nat} {b p t : List Char} {q : Char} (hm : Row.importing n b q p t ∈ rows) :
    IsQuote q ∧ Fits q p := by
  obtain ⟨_, hs⟩ := h.exists_stands hm
  exact ⟨hs.2.1, hs.2.2.1⟩

theorem Orderly.fits {source : List Char} (h : Orderly source) {i : Import}
    (hi : i ∈ imports source) : IsQuote i.quote ∧ Fits i.quote i.path.toList := by
  obtain ⟨rows, hr⟩ := h.exists_reading
  rw [hr.scanned.imports_eq] at hi
  obtain ⟨n, b, p, t, hm, hp⟩ := exists_row_of_import hi
  rw [hp, String.toList_ofList]
  exact hr.reads.fits hm

theorem Orderly.exists_of_mem_imports_redirect {source : List Char} (h : Orderly source)
    {f : String → String} (hf : ∀ i ∈ imports source, Fits i.quote (f i.path).toList) {j : Import}
    (hj : j ∈ imports (redirect f source).text) : ∃ i ∈ imports source, j.path = f i.path := by
  obtain ⟨rows, hr⟩ := h.exists_reading
  rw [hr.scanned.imports_eq] at hf ⊢
  rw [hr.scanned.redirect_text, (hr.edit (takes_of_imports hf)).scanned.imports_eq] at hj
  obtain ⟨n, b, p, t, hm, hp⟩ := exists_row_of_import hj
  obtain ⟨r, hm, he⟩ := List.mem_map.mp hm
  cases r with
  | plain x => cases he
  | importing n' b' q' p' t' =>
    obtain ⟨i, hi, -, hpath⟩ := exists_import_of_row hm 0
    simp only [Row.edit, Row.importing.injEq] at he
    exact ⟨i, hi, by rw [hp, hpath, ← he.2.2.2.1, String.ofList_toList]⟩

lemma mem_unlines {xs : List (List Char)} {c : Char} (h : c ∈ unlines xs) :
    c = '\n' ∨ ∃ x ∈ xs, c ∈ x := by
  induction xs with
  | nil => cases h
  | cons x xs ih =>
    by_cases hne : xs = []
    · subst hne
      exact Or.inr ⟨x, List.mem_cons_self, h⟩
    · rw [unlines_cons x hne, List.mem_append, List.mem_cons] at h
      rcases h with h | h | h
      · exact Or.inr ⟨x, List.mem_cons_self, h⟩
      · exact Or.inl h
      · exact (ih h).imp_right fun ⟨y, hy, hc⟩ => ⟨y, List.mem_cons_of_mem _ hy, hc⟩

lemma mem_unlines_of_mem {xs : List (List Char)} {x : List Char} (hx : x ∈ xs) {c : Char}
    (h : c ∈ x) : c ∈ unlines xs := by
  induction xs with
  | nil => cases hx
  | cons y ys ih =>
    rw [unlines_eq_restText]
    rcases List.mem_cons.mp hx with rfl | hx
    · exact List.mem_append_left _ h
    · have hne : ys ≠ [] := List.ne_nil_of_mem hx
      rw [← unlines_eq_restText, unlines_cons y hne]
      exact List.mem_append_right _ (List.mem_cons_of_mem _ (ih hx))

lemma mem_repeated {n : Nat} {q c : Char} {old new : List Char} (h : c ∈ repeated n q old new) :
    c = q ∨ c ∈ new := by
  rw [repeated] at h
  split at h
  · cases h
  · obtain ⟨x, hx, hc⟩ := List.mem_flatten.mp h
    obtain rfl := List.eq_of_mem_replicate hx
    simp only [literal, List.cons_append, List.mem_cons, List.mem_append, List.not_mem_nil,
      or_false] at hc
    tauto

theorem mem_redirect {source : List Char} {f : String → String} {c : Char}
    (hc : c ∈ (redirect f source).text) :
    c = '\n' ∨ c ∈ source ∨ ∃ i ∈ imports source, c ∈ (f i.path).toList := by
  obtain ⟨rows, hr⟩ := exists_scanned source
  rw [hr.redirect_text] at hc
  refine (mem_unlines hc).imp_right fun ⟨x, hx, hcx⟩ => ?_
  simp only [texts, List.map_map, List.mem_map, Function.comp] at hx
  obtain ⟨r, hm, rfl⟩ := hx
  have hold : c ∈ r.text → c ∈ source := by
    intro hc
    rw [hr.text]
    exact mem_unlines_of_mem (List.mem_map_of_mem hm) hc
  cases r with
  | plain x => exact Or.inl (hold hcx)
  | importing n b q p t =>
    simp only [Row.edit, Row.text, List.mem_append, List.mem_cons] at hcx hold
    obtain ⟨i, hi, -, hp⟩ := exists_import_of_row hm 0
    rw [← hp] at hcx
    rw [hr.imports_eq]
    rcases hcx with hc | hc | hc | hc | hc | hc
    · exact Or.inl (hold (by simp [hc]))
    · exact Or.inl (hold (by simp [hc]))
    · exact Or.inr ⟨i, hi, hc⟩
    · exact Or.inl (hold (by simp [hc]))
    · rcases mem_repeated hc with hc | hc
      · exact Or.inl (hold (by simp [hc]))
      · exact Or.inr ⟨i, hi, hc⟩
    · exact Or.inl (hold (by simp [hc]))

theorem mem_of_mem_literal {source : List Char} {i : Import} (hi : i ∈ imports source) {c : Char}
    (hc : c ∈ literal i.quote i.path.toList) : c ∈ source := by
  obtain ⟨rows, hr⟩ := exists_scanned source
  rw [hr.imports_eq] at hi
  obtain ⟨n, b, p, t, hm, hp⟩ := exists_row_of_import hi
  rw [hp, String.toList_ofList] at hc
  rw [hr.text]
  refine mem_unlines_of_mem (List.mem_map_of_mem hm) ?_
  simp only [literal, List.cons_append, List.mem_cons, List.mem_append, List.not_mem_nil,
    or_false] at hc
  simp only [Row.text, List.mem_append, List.mem_cons]
  tauto

lemma mem_path {source : List Char} {i : Import} (hi : i ∈ imports source) {c : Char}
    (hc : c ∈ i.path.toList) : c ∈ source :=
  mem_of_mem_literal hi (by simp [literal, hc])

end HashedImports.Source
