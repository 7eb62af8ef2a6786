import HashedImports.Proofs.Source.Rows

/-! Every text has rows: a quotation mark that is left in the masked text stands in the text itself,
so what is found in a masked line is found in the line. -/

namespace HashedImports.Source

lemma exists_of_masked_quote {s : State} {x before rest : List Char} {q : Char} (hq : IsQuote q)
    (h : maskFrom s x = before ++ q :: rest) :
    ∃ b x', x = b ++ q :: x' ∧ b.length = before.length ∧
      maskFrom ((s.after b).step q) x' = rest := by
  induction before generalizing s x with
  | nil =>
    cases x with
    | nil => simp [maskFrom] at h
    | cons c x =>
      rw [maskFrom, List.nil_append] at h
      obtain ⟨hc, hrest⟩ := List.cons.inj h
      rcases shown_cases s c x with hs | ⟨hs, -⟩
      · obtain rfl : c = q := hs.symm.trans hc
        exact ⟨[], x, rfl, rfl, hrest⟩
      · have hspace : q = ' ' := hc.symm.trans hs
        subst hspace
        exact absurd hq (by decide : ¬ (' ' = '"' ∨ ' ' = '\x60'))
  | cons e before ih =>
    cases x with
    | nil => simp [maskFrom] at h
    | cons c x =>
      rw [maskFrom, List.cons_append] at h
      obtain ⟨b, x', rfl, hl, hrest⟩ := ih (List.cons.inj h).2
      exact ⟨c :: b, x', rfl, by rw [List.length_cons, hl, List.length_cons], hrest⟩

lemma lineSpans_cases (flag : Bool) (x : List Char) :
    (∀ o, lineSpans flag o x = []) ∨ ∃ n b q p t, LiteralAt x b q p t ∧
      ∀ o, lineSpans flag o x = List.replicate (n + 1) (spanAt o b p) := by
  by_cases hx : ∃ b q p t, LiteralAt x b q p t
  · obtain ⟨b, q, p, t, h⟩ := hx
    obtain ⟨n, m, -, -, hcount⟩ := exists_counts flag b
    have hspans : ∀ o, lineSpans flag o x = List.replicate (n + m) (spanAt o b p) := by
      intro o
      rw [lineSpans, (hcount h).1, (hcount h).2, List.replicate_add]
    cases hk : n + m with
    | zero => exact Or.inl fun o => by rw [hspans, hk, List.replicate_zero]
    | succ k => exact Or.inr ⟨k, b, q, p, t, h, fun o => by rw [hspans, hk]⟩
  · exact Or.inl (lineSpans_of_no_literal (fun b q p t h => hx ⟨b, q, p, t, h⟩) flag)

lemma Row.exists_literalAt {flag : Bool} {x : List Char} {n : Nat} {b p t : List Char} {q : Char}
    (h : ∀ o, lineSpans flag o x = (importing n b q p t).spans o) :
    ∃ b' q' p' t', LiteralAt x b' q' p' t' ∧ b'.length = b.length ∧ p'.length = p.length := by
  have h0 := h 0
  rcases lineSpans_cases flag x with hno | ⟨m, b', q', p', t', hl, hfound⟩
  · rw [hno, spans, List.replicate_succ] at h0
    cases h0
  · rw [hfound, spans, List.replicate_succ, List.replicate_succ] at h0
    simp only [List.cons.injEq, spanAt, Span.mk.injEq] at h0
    exact ⟨b', q', p', t', hl, by omega, by omega⟩

lemma exists_row (s : State) (flag : Bool) (x : List Char) :
    ∃ r : Row, r.text = x ∧ ∀ o, lineSpans flag o (maskFrom s r.text) = r.spans o := by
  rcases lineSpans_cases flag (maskFrom s x) with hno | ⟨n, b, q, p, t, hl, hspans⟩
  · exact ⟨.plain x, rfl, hno⟩
  · obtain ⟨b', x', rfl, hb, hrest⟩ := exists_of_masked_quote hl.isQuote hl.text
    obtain ⟨p', t', rfl, hp, -⟩ := exists_of_masked_quote hl.isQuote hrest
    refine ⟨.importing n b' q p' t', rfl, fun o => (hspans o).trans ?_⟩
    rw [Row.spans, spanAt, spanAt, hb, hp]

lemma exists_scans {s : State} {flags : List Bool} {xs : List (List Char)}
    (hl : flags.length = (headerFrom s xs).length) :
    ∃ rows, texts rows = xs ∧ Scans s flags rows := by
  induction xs generalizing s flags with
  | nil => exact ⟨[], rfl, .done⟩
  | cons x xs ih =>
    cases hd : startsDeclaration (maskFrom s x) with
    | true =>
      have htexts : texts ((x :: xs).map Row.plain) = x :: xs := by
        simp [texts, Function.comp_def, Row.text]
      refine ⟨(x :: xs).map Row.plain, htexts, .declaration hd ?_⟩
      intro r hr
      rw [← List.map_cons] at hr
      obtain ⟨y, -, rfl⟩ := List.mem_map.mp hr
      exact ⟨y, rfl⟩
    | false =>
      rw [headerFrom_cons xs hd] at hl
      cases flags with
      | nil => simp at hl
      | cons flag flags =>
        obtain ⟨rows, rfl, hrows⟩ := ih (s := s.next x) (Nat.succ.inj hl)
        obtain ⟨r, rfl, hspans⟩ := exists_row s flag x
        exact ⟨r :: rows, rfl, .line hd hspans hrows⟩

theorem exists_scanned (source : List Char) : ∃ rows, Scanned source rows := by
  obtain ⟨x, xs, rfl, hu⟩ := exists_unlines source
  obtain ⟨rows, htexts, hscans⟩ := exists_scans
    (length_inBlocks none (headerFrom .code (x :: xs)))
  rw [← htexts] at hu hscans ⊢
  refine ⟨rows, ?_, hu, rfl, hscans⟩
  rintro rfl
  cases htexts

end HashedImports.Source
