import HashedImports.Proofs.Source.Splice

/-! Rows with other paths are rows of their own text. Up to its literal a line stays as it is, and
nothing else decides where blocks open and close and where the header ends. -/

namespace HashedImports.Source

inductive Alike : List Char → List Char → Prop
  | same (x) : Alike x x
  | quote {q} (b v v') : IsQuote q → Alike (b ++ q :: v) (b ++ q :: v')

namespace Alike

variable {x x' : List Char}

lemma head?_dropWhile {p : Char → Bool} (hp : ∀ q, IsQuote q → p q = false) (h : Alike x x') :
    (x.dropWhile p).head? = (x'.dropWhile p).head? := by
  cases h with
  | same => rfl
  | @quote q b v v' hq =>
    induction b with
    | nil => simp [hp q hq]
    | cons c b ih =>
      rw [List.cons_append, List.cons_append, List.dropWhile_cons, List.dropWhile_cons]
      split
      · exact ih
      · rfl

lemma startsDeclaration_eq (h : Alike x x') : startsDeclaration x = startsDeclaration x' := by
  cases h with
  | same => rfl
  | quote b v v' hq =>
    rcases hq with rfl | rfl
    · rw [startsDeclaration_append (by decide) (by decide),
        startsDeclaration_append (by decide) (by decide)]
    · rw [startsDeclaration_append (by decide) (by decide),
        startsDeclaration_append (by decide) (by decide)]

lemma closes_eq (h : Alike x x') : closes ⟨0, x⟩ = closes ⟨0, x'⟩ := by
  have hp : ∀ q, IsQuote q → isGap q = false := by
    rintro q (rfl | rfl) <;> decide
  simp only [closes]
  rw [h.head?_dropWhile hp]

lemma parenthesis?_eq {xs xs' : List (List Char)} (h : Alike x x')
    (hs : List.Forall₂ Alike xs xs') : parenthesis? (x :: xs) = parenthesis? (x' :: xs') := by
  have hp : ∀ q, IsQuote q → Text.isBlank q = false := by
    rintro q (rfl | rfl) <;> decide
  induction hs generalizing x x' with
  | nil => rw [parenthesis?_cons, parenthesis?_cons, h.head?_dropWhile hp]
  | cons hy _ ih => rw [parenthesis?_cons x, parenthesis?_cons x', h.head?_dropWhile hp, ih hy]

lemma afterPrefix?_cases {w : List Char} (hw : ∀ q, IsQuote q → q ∉ w) (h : Alike x x') :
    Text.afterPrefix? w x = none ∧ Text.afterPrefix? w x' = none ∨
      ∃ rest rest', Text.afterPrefix? w x = some rest ∧ Text.afterPrefix? w x' = some rest' ∧
        Alike rest rest' := by
  cases h with
  | same =>
    cases hx : Text.afterPrefix? w x with
    | none => exact Or.inl ⟨rfl, rfl⟩
    | some rest => exact Or.inr ⟨rest, rest, rfl, rfl, .same rest⟩
  | quote b v v' hq =>
    rw [Text.afterPrefix?_append (hw _ hq), Text.afterPrefix?_append (hw _ hq)]
    cases hx : Text.afterPrefix? w b with
    | none => exact Or.inl ⟨rfl, rfl⟩
    | some rest => exact Or.inr ⟨_, _, rfl, rfl, .quote rest v v' hq⟩

lemma opens?_eq {xs xs' : List (List Char)} (h : Alike x x') (hs : List.Forall₂ Alike xs xs') :
    opens? (x :: xs) = opens? (x' :: xs') := by
  have hw : ∀ q, IsQuote q → q ∉ "import".toList := by
    rintro q (rfl | rfl) <;> decide
  unfold opens?
  dsimp only
  rcases h.afterPrefix?_cases hw with ⟨hx, hx'⟩ | ⟨rest, rest', hx, hx', hr⟩
  · rw [hx, hx']
    rfl
  · rw [hx, hx']
    exact hr.parenthesis?_eq hs

end Alike

lemma forall₂_alike_refl (xs : List (List Char)) : List.Forall₂ Alike xs xs :=
  List.forall₂_same.mpr fun x _ => .same x

lemma headerLines_alike {xs xs' : List (List Char)} (h : List.Forall₂ Alike xs xs') :
    List.Forall₂ Alike (headerLines xs) (headerLines xs') := by
  induction h with
  | nil => exact .nil
  | cons hx _ ih =>
    rw [headerLines, headerLines, hx.startsDeclaration_eq]
    split
    · exact forall₂_alike_refl _
    · exact .cons hx ih

lemma any_closes_alike {xs xs' : List (List Char)} (h : List.Forall₂ Alike xs xs') :
    (xs.any fun y => closes ⟨0, y⟩) = xs'.any fun y => closes ⟨0, y⟩ := by
  induction h with
  | nil => rfl
  | cons hx _ ih => rw [List.any_cons, List.any_cons, hx.closes_eq, ih]

lemma inBlocks_alike {xs xs' : List (List Char)} (h : List.Forall₂ Alike xs xs')
    (k : Option Nat) : inBlocks k xs = inBlocks k xs' := by
  induction h generalizing k with
  | nil => cases k <;> rfl
  | cons hx hxs ih =>
    match k with
    | none => rw [inBlocks, inBlocks, hx.opens?_eq hxs, ih]
    | some (k + 1) => rw [inBlocks, inBlocks, ih]
    | some 0 => rw [inBlocks, inBlocks, hx.closes_eq, any_closes_alike hxs, ih, ih]

/-! ## Literals with other paths -/

lemma lineSpans_of_literal {flag : Bool} {o n : Nat} {x x' b p p' t t' : List Char} {q : Char}
    (h : LiteralAt x b q p t) (h' : LiteralAt x' b q p' t')
    (hs : lineSpans flag o x = List.replicate n (spanAt o b p)) :
    lineSpans flag o x' = List.replicate n (spanAt o b p') := by
  obtain ⟨k, m, -, -, hcount⟩ := exists_counts flag b
  have hlen := congrArg List.length hs
  rw [lineSpans, (hcount h).1, (hcount h).2, ← List.replicate_add, List.length_replicate,
    List.length_replicate] at hlen
  rw [lineSpans, (hcount h').1, (hcount h').2, ← List.replicate_add, hlen]

lemma after_repeated {q : Char} (h : IsQuote q) (n : Nat) {old new : List Char} (hf : Fits q new)
    (rest : List Char) :
    State.code.after (repeated n q old new ++ rest) = State.code.after rest := by
  rw [repeated]
  split
  · rfl
  · induction n with
    | zero => rfl
    | succ n ih =>
      have hh := after_literal h hf ((List.replicate n (literal q new)).flatten ++ rest)
      rw [ih] at hh
      rw [← hh, List.replicate_succ, List.flatten_cons, literal]
      simp

lemma newline_not_mem_repeated {q : Char} (h : IsQuote q) (n : Nat) {old new : List Char}
    (hf : Fits q new) : '\n' ∉ repeated n q old new := by
  have hq : '\n' ≠ q := by rcases h with rfl | rfl <;> decide
  rw [repeated]
  split
  · simp
  · simp only [List.mem_flatten, not_exists, not_and]
    intro x hx
    obtain rfl := List.eq_of_mem_replicate hx
    simp [literal, hq, hf.newline]

namespace Row

variable {s : State} {n : Nat} {b p t : List Char} {q : Char}

lemma Stands.after_eq (h : (importing n b q p t).Stands s) :
    s.after (importing n b q p t).text = State.code.after t := by
  obtain ⟨hb, hq, hf, -⟩ := h
  rw [text, State.after_append, hb, after_literal hq hf]

lemma Stands.mask_eq (h : (importing n b q p t).Stands s) :
    maskFrom s (importing n b q p t).text = maskFrom s b ++ q :: (p ++ q :: maskFrom .code t) := by
  obtain ⟨hb, hq, hf, -⟩ := h
  rw [text, maskFrom_append s b (hq.not_opensComment _), hb, maskFrom_literal hq hf]

lemma Stands.literalAt (h : (importing n b q p t).Stands s) :
    LiteralAt (maskFrom s (importing n b q p t).text) (maskFrom s b) q p (maskFrom .code t) :=
  ⟨h.mask_eq, h.2.2.2, h.2.1, h.2.2.1.quote, h.2.2.1.newline⟩

lemma Stands.edit {f : String → String} {r : Row} (h : r.Stands s) (ht : r.Takes f) :
    (r.edit f).Stands s := by
  cases r with
  | plain x => exact trivial
  | importing n b q p t => exact ⟨h.1, h.2.1, ht, h.2.2.2⟩

lemma Stands.alike {f : String → String} {r : Row} (h : r.Stands s) (ht : r.Takes f) :
    Alike (maskFrom s r.text) (maskFrom s (r.edit f).text) := by
  cases r with
  | plain x => exact .same _
  | importing n b q p t =>
    have h' := h.edit ht
    rw [Row.edit] at h' ⊢
    rw [h.mask_eq, h'.mask_eq]
    exact .quote _ _ _ h.2.1

lemma Stands.next_edit {f : String → String} {r : Row} (h : r.Stands s) (ht : r.Takes f) :
    s.next (r.edit f).text = s.next r.text := by
  cases r with
  | plain x => rfl
  | importing n b q p t =>
    have h' := h.edit ht
    rw [Row.edit] at h' ⊢
    rw [State.next, State.next, h.after_eq, h'.after_eq, after_repeated h.2.1 n ht]

lemma Stands.spans_edit {f : String → String} {r : Row} {flag : Bool} (h : r.Stands s)
    (ht : r.Takes f) (hs : ∀ o, lineSpans flag o (maskFrom s r.text) = r.spans o) (o : Nat) :
    lineSpans flag o (maskFrom s (r.edit f).text) = (r.edit f).spans o := by
  cases r with
  | plain x => exact hs o
  | importing n b q p t =>
    have hspan : ∀ path : List Char, spanAt o (maskFrom s b) path = spanAt o b path := by
      intro path
      simp only [spanAt, length_maskFrom]
    have hh := hs o
    rw [spans, ← hspan] at hh
    have h' := h.edit ht
    rw [Row.edit] at h' ⊢
    rw [lineSpans_of_literal h.literalAt h'.literalAt hh, spans, hspan]

lemma edit_of_isPlain {r : Row} (h : r.IsPlain) (f : String → String) : r.edit f = r := by
  obtain ⟨x, rfl⟩ := h
  rfl

end Row

lemma map_edit_of_plain {rows : List Row} (h : ∀ r ∈ rows, r.IsPlain) (f : String → String) :
    rows.map (Row.edit f) = rows :=
  (List.map_congr_left fun r hr => Row.edit_of_isPlain (h r hr) f).trans (List.map_id' rows)

variable {f : String → String}

lemma Reads.alike {s : State} {flags : List Bool} {rows : List Row} (h : Reads s flags rows)
    (ht : ∀ r ∈ rows, r.Takes f) :
    List.Forall₂ Alike (maskLines s (texts rows))
      (maskLines s (texts (rows.map (Row.edit f)))) := by
  induction h with
  | done => exact .nil
  | @line s flag flags r rs hd hr hs _ ih =>
    have hr' := ht r List.mem_cons_self
    refine .cons (hr.alike hr') ?_
    rw [hr.next_edit hr']
    exact ih fun r' hm => ht r' (List.mem_cons_of_mem _ hm)
  | declaration _ hp =>
    rw [map_edit_of_plain hp]
    exact forall₂_alike_refl _

lemma Reads.edit {s : State} {flags : List Bool} {rows : List Row} (h : Reads s flags rows)
    (ht : ∀ r ∈ rows, r.Takes f) : Reads s flags (rows.map (Row.edit f)) := by
  induction h with
  | done => exact .done
  | @line s flag flags r rs hd hr hs _ ih =>
    have hr' := ht r List.mem_cons_self
    have hh := ih fun r' hm => ht r' (List.mem_cons_of_mem _ hm)
    rw [← hr.next_edit hr'] at hh
    refine .line ?_ (hr.edit hr') (hr.spans_edit hr' hs) hh
    rw [← (hr.alike hr').startsDeclaration_eq, hd]
  | declaration hd hp =>
    rw [map_edit_of_plain hp]
    exact .declaration hd hp

lemma newline_not_mem_edit {s : State} {r : Row} (hs : r.Stands s) (h : '\n' ∉ r.text)
    (ht : r.Takes f) : '\n' ∉ (r.edit f).text := by
  cases r with
  | plain x => exact h
  | importing n b q p t =>
    simp only [Row.edit, Row.text, List.mem_append, List.mem_cons, not_or] at h ⊢
    exact ⟨h.1, h.2.1, ht.newline, h.2.1, newline_not_mem_repeated hs.2.1 n ht, h.2.2.2.2⟩

lemma Reads.exists_stands {s : State} {flags : List Bool} {rows : List Row}
    (h : Reads s flags rows) {r : Row} (hr : r ∈ rows) : ∃ s, r.Stands s := by
  induction h with
  | done => cases hr
  | @line s _ _ _ _ _ hs _ _ ih =>
    rcases List.mem_cons.mp hr with rfl | hr
    · exact ⟨s, hs⟩
    · exact ih hr
  | declaration _ hp =>
    obtain ⟨x, rfl⟩ := hp r hr
    exact ⟨.code, trivial⟩

theorem Reading.edit {source : List Char} {rows : List Row} (h : Reading source rows)
    (ht : ∀ r ∈ rows, r.Takes f) :
    Reading (unlines (texts (rows.map (Row.edit f)))) (rows.map (Row.edit f)) := by
  refine ⟨by simpa using h.ne_nil, ?_, rfl, ?_⟩
  · intro x hx
    simp only [texts, List.map_map, List.mem_map, Function.comp] at hx
    obtain ⟨r, hr, rfl⟩ := hx
    obtain ⟨s, hs⟩ := h.reads.exists_stands hr
    exact newline_not_mem_edit hs (h.unbroken _ (List.mem_map_of_mem hr)) (ht r hr)
  · have ha := headerLines_alike (h.reads.alike ht)
    rw [maskedHeader, ← inBlocks_alike ha]
    exact h.reads.edit ht

end HashedImports.Source
