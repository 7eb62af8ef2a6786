import HashedImports.Proofs.Source.Layout

namespace HashedImports.Source

open Text (isBlank isWord)

/-! ## Lines with a literal -/

lemma isLead_of_isGap {c : Char} (h : isGap c = true) : isLead c = true := by
  simp [isLead, h]

lemma isLead_of_isWord {c : Char} (h : isWord c = true) : isLead c = true := by
  simp [isLead, isAliasChar_of_isWord h]

lemma isWord_of_isGap {c : Char} (h : isGap c = true) : isWord c = false := by
  rcases isGap_iff.mp h with rfl | rfl <;> decide

lemma boundary {c : Char} (h : isGap c = true ∨ IsQuote c) :
    isWord c = false ∧ ∀ w ∈ declarationWords, c ∉ w := by
  rw [isGap_iff, IsQuote] at h
  rcases h with (rfl | rfl) | rfl | rfl <;> decide

lemma newline_not_mem_of_lead {cs : List Char} (h : ∀ c ∈ cs, isLead c = true) : '\n' ∉ cs :=
  fun hm => isLead_ne (h _ hm) isLead_newline rfl

lemma exists_head?_dropWhile {p : Char → Bool} {b : List Char} {c : Char}
    (hb : ∀ d ∈ b, isLead d = true) (hc : p c = false) (t : List Char) :
    ∃ d, ((b ++ c :: t).dropWhile p).head? = some d ∧ (isLead d = true ∨ d = c) := by
  induction b with
  | nil => exact ⟨c, by simp [hc], Or.inr rfl⟩
  | cons d b ih =>
    obtain ⟨hd, hb'⟩ := List.forall_mem_cons.mp hb
    cases hp : p d with
    | true =>
      rw [List.cons_append, List.dropWhile_cons_of_pos hp]
      exact ih hb'
    | false => exact ⟨d, by simp [hp], Or.inl hd⟩

lemma no_literal {b t : List Char} {c : Char} (hb : ∀ d ∈ b, isLead d = true)
    (hc : isLead c = false) (hq : ¬ IsQuote c) (b' : List Char) (q : Char) (p t' : List Char) :
    ¬ LiteralAt (b ++ c :: t) b' q p t' := by
  intro h
  obtain ⟨-, rfl, -⟩ := append_cons_inj hb h.lead hc (isLead_quote h.isQuote) h.text
  exact hq h.isQuote

lemma literalAt {b path : List Char} {q : Char} (hb : ∀ c ∈ b, isLead c = true) (hq : IsQuote q)
    (hf : Fits q path) (t : List Char) : LiteralAt (b ++ literal q path ++ t) b q path t :=
  ⟨by simp [literal], hb, hq, hf.quote, hf.newline⟩

lemma newline_not_mem_literal {q : Char} {path : List Char} (hq : IsQuote q) (hf : Fits q path) :
    '\n' ∉ literal q path := by
  have hne : '\n' ≠ q := by rcases hq with rfl | rfl <;> decide
  simp [literal, hne, hf.newline]

lemma lineSpans_single {x b p t : List Char} {q : Char} (h : LiteralAt x b q p t)
    (hb : SingleStart b) (o : Nat) : lineSpans false o x = [spanAt o b p] := by
  obtain ⟨-, hs⟩ := (singleSpan?_literal o h).resolve_right fun hn => hn.1 hb
  simp [lineSpans, specIn, singleIn, hs]

lemma lineSpans_spec {x b p t : List Char} {q : Char} (h : LiteralAt x b q p t)
    (hb : SpecStart b) (hn : ¬ SingleStart b) (o : Nat) :
    lineSpans true o x = [spanAt o b p] := by
  obtain ⟨-, hs⟩ := (specSpan?_literal o h).resolve_right fun hn => hn.1 hb
  obtain ⟨-, hs'⟩ := (singleSpan?_literal o h).resolve_left fun hb => hn hb.1
  simp [lineSpans, specIn, singleIn, hs, hs']

lemma opens?_literal {b : List Char} {q : Char} (hb : ∀ c ∈ b, isLead c = true) (hq : IsQuote q)
    (t : List Char) (ys : List (List Char)) :
    opens? (("import".toList ++ (b ++ q :: t)) :: ys) = none := by
  have hblank : isBlank q = false := by rcases hq with rfl | rfl <;> decide
  obtain ⟨d, hd, hlead⟩ := exists_head?_dropWhile hb hblank t
  have hne : d ≠ '(' := by
    rintro rfl
    rcases hlead with h | rfl
    · exact absurd h (by decide)
    · exact absurd hq (by decide : ¬ ('(' = '"' ∨ '(' = '\x60'))
  have hcut : Text.afterPrefix? "import".toList ("import".toList ++ (b ++ q :: t)) =
      some (b ++ q :: t) := Text.afterPrefix?_eq_some.mpr rfl
  rw [opens?, hcut, Option.bind_some, parenthesis?_cons, hd]
  exact if_neg hne

lemma closes_literal {b : List Char} {q : Char} (hb : ∀ c ∈ b, isLead c = true) (hq : IsQuote q)
    (t : List Char) : closes ⟨0, b ++ q :: t⟩ = false := by
  have hgap : isGap q = false := by rcases hq with rfl | rfl <;> decide
  obtain ⟨d, hd, hlead⟩ := exists_head?_dropWhile hb hgap t
  refine decide_eq_false fun hparen => ?_
  obtain rfl := Option.some.inj (hd.symm.trans hparen)
  rcases hlead with h | rfl
  · exact absurd h (by decide)
  · exact absurd hq (by decide : ¬ (')' = '"' ∨ ')' = '\x60'))

namespace IsStart

variable {l name gap : List Char} (hl : ∀ c ∈ l, isGap c = true) (h : IsStart name gap)

include hl h

lemma specStart : SpecStart (l ++ (name ++ gap)) :=
  ⟨l, name, gap, rfl, hl, h.chars, h.gaps, h.both⟩

lemma lead : ∀ c ∈ l ++ (name ++ gap), isLead c = true :=
  (h.specStart hl).lead

lemma not_singleStart : ¬ SingleStart (l ++ (name ++ gap)) := by
  rintro ⟨c, b, hb, hc, -⟩
  cases l with
  | cons d l =>
    obtain ⟨rfl, -⟩ := List.cons.inj hb
    exact absurd (hl _ List.mem_cons_self) (by decide)
  | nil =>
    rw [List.nil_append] at hb
    rcases h.plain with rfl | ⟨hw, hkey⟩
    · exact absurd (List.cons.inj hb).1 (by decide)
    · cases gap with
      | nil =>
        rw [h.both.mpr rfl] at hb
        cases hb
      | cons d gap =>
        have himport : ∀ e ∈ "import".toList, isWord e = true :=
          List.all_eq_true.mp (by decide)
        obtain ⟨rfl, -⟩ := append_cons_inj hw himport
          (isWord_of_isGap (h.gaps d List.mem_cons_self)) (isWord_of_isGap hc) hb
        exact hkey (by decide)

lemma undeclared {q : Char} (hq : IsQuote q) (t : List Char) :
    startsDeclaration (l ++ (name ++ gap) ++ q :: t) = false := by
  cases l with
  | cons d l => exact startsDeclaration_of_head (hl d List.mem_cons_self) (by decide) _
  | nil =>
    rcases h.plain with rfl | ⟨hw, hkey⟩
    · exact startsDeclaration_of_head (p := (· == '.')) rfl (by decide) _
    · -- what comes after the name is no part of a word
      obtain ⟨c, v, hv, hc⟩ : ∃ c v, gap ++ q :: t = c :: v ∧ (isGap c = true ∨ IsQuote c) := by
        cases gap with
        | nil => exact ⟨q, t, rfl, Or.inr hq⟩
        | cons d gap => exact ⟨d, gap ++ q :: t, rfl, Or.inl (h.gaps d List.mem_cons_self)⟩
      obtain ⟨hword, hwords⟩ := boundary hc
      rw [List.nil_append, List.append_assoc, hv, startsDeclaration_append hwords hword]
      exact startsDeclaration_of_words hw hkey

end IsStart

/-! ## Items -/

lemma word_lead (w : Word) : ∀ c ∈ w.chars, isLead c = true :=
  fun c hc => isLead_of_isWord (w.isWord c hc)

lemma package_lead : ∀ c ∈ "package".toList, isLead c = true :=
  List.all_eq_true.mp (by decide)

lemma import_lead : ∀ c ∈ "import".toList, isLead c = true :=
  List.all_eq_true.mp (by decide)

lemma Lays.header {ps : List Piece} (x : List Char) {bs : List (List Char)}
    (hm : Masks (textOf ps) (ended (x :: bs))) (hx : '\n' ∉ x)
    (hdecl : startsDeclaration x = false) (hbs : ∀ b ∈ bs, IsBlankLine b)
    (hfound : ∀ o, lineSpans false o x = spansOf o ps) (hopens : ∀ ys, opens? (x :: ys) = none) :
    Lays .start ps .start :=
  .line false x hm (by simp [Place.start]) hx hdecl hbs hfound (fun _ _ h => by cases h)
    fun ys _ => by simp [Place.start, Place.position, inBlocks, hopens]

lemma lays_filler (t : Trail) : Lays .start [.kept t.text, .kept ['\n']] .start := by
  obtain ⟨b, bs, hm, hblank⟩ := trail_masks t
  obtain ⟨hb, hbs⟩ := List.forall_mem_cons.mp hblank
  exact .header b (by simpa using hm) hb.1 hb.undeclared hbs (hb.lineSpans_eq false) hb.opens?_eq

lemma lays_package (g : Separator) (name : Word) (t : Trail) :
    Lays .start ((Item.package g name t).pieces ++ [.kept ['\n']]) .start := by
  obtain ⟨c, cs, hgap, hgaps⟩ := separator_masks g
  obtain ⟨b, bs, ht, hblank⟩ := trail_masks t
  obtain ⟨hb, hbs⟩ := List.forall_mem_cons.mp hblank
  have hm := (Masks.of_lead package_lead).append
    (hgap.append ((Masks.of_lead (word_lead name)).append ht))
  have hnewline : '\n' ∉ "package".toList ++ (c :: cs ++ (name.chars ++ b)) := by
    refine List.not_mem_append (by decide) (List.not_mem_append ?_ (List.not_mem_append ?_ hb.1))
    · exact newline_not_mem_of_lead fun d hd => isLead_of_isGap (hgaps d hd)
    · exact newline_not_mem_of_lead (word_lead name)
  refine .header ("package".toList ++ (c :: cs ++ (name.chars ++ b))) ?_ hnewline ?_ hbs
    (fun o => ?_) fun ys => ?_
  · simpa [Item.pieces] using hm
  · exact startsDeclaration_of_head (p := (· == 'p')) rfl (by decide) _
  · rfl
  · rfl

lemma textOf_specPieces (before : List Char) (s : Spec) (after : List Char) :
    textOf (specPieces before s after) =
      before ++ s.start ++ (literal s.quote s.path ++ after) := by
  simp [specPieces]

lemma spansOf_specPieces {before ds : List Char} {s : Spec} (h : Masks (before ++ s.start) ds)
    (after : List Char) (o : Nat) :
    spansOf o (specPieces before s after) = [spanAt (o + ds.length) [] s.path] := by
  simp [specPieces, spansOf, h.length]

lemma lays_single (g : Separator) (s : Spec) (t : Trail) :
    Lays .start ((Item.single g s t).pieces ++ [.kept ['\n']]) .start := by
  obtain ⟨c, cs, hgap, hgaps⟩ := separator_masks g
  obtain ⟨name, gap, hs, hstart⟩ := start_masks s
  obtain ⟨b, bs, ht, hblank⟩ := trail_masks t
  obtain ⟨hb, hbs⟩ := List.forall_mem_cons.mp hblank
  have hbefore := ((Masks.of_lead import_lead).append hgap).append hs
  have hsingle : SingleStart ("import".toList ++ (c :: cs) ++ (name ++ gap)) :=
    ⟨c, cs ++ (name ++ gap), by simp, hgaps c List.mem_cons_self, hstart.specStart hgaps⟩
  have hlit := literalAt hsingle.lead s.isQuote s.fits b
  refine .header ("import".toList ++ (c :: cs) ++ (name ++ gap) ++ literal s.quote s.path ++ b)
    ?_ ?_ ?_ hbs (fun o => ?_) fun ys => ?_
  · have hm := hbefore.append ((Masks.literal s.isQuote s.fits).append ht)
    simpa [Item.pieces, textOf_append, textOf_specPieces] using hm
  · refine List.not_mem_append (List.not_mem_append ?_ ?_) hb.1
    · exact newline_not_mem_of_lead hsingle.lead
    · exact newline_not_mem_literal s.isQuote s.fits
  · exact startsDeclaration_of_head (p := (· == 'i')) rfl (by decide) _
  · rw [Item.pieces, spansOf_append, spansOf_specPieces hbefore, lineSpans_single hlit hsingle]
    rfl
  · have hopens := opens?_literal (hstart.lead hgaps) s.isQuote (s.path ++ s.quote :: b) ys
    simpa [literal] using hopens

/-! ## Blocks -/

lemma lays_opening (g : Spacing) (i : Interlude) : ∃ l, (∀ c ∈ l, isGap c = true) ∧
    Lays .start [.kept ("import".toList ++ (fill g.fillings ++ '(' :: i.text))] ⟨true, l⟩ := by
  obtain ⟨cs, hgap, hgaps⟩ := spacing_masks g
  obtain ⟨b, bs, l, hi, hblank, hl⟩ := interlude_masks i
  obtain ⟨hb, hbs⟩ := List.forall_mem_cons.mp hblank
  have hparen : Masks ['('] ['('] := ⟨rfl, rfl⟩
  have hm := (Masks.of_lead import_lead).append (hgap.append (hparen.append hi))
  have hlead : ∀ c ∈ "import".toList ++ cs, isLead c = true :=
    List.forall_mem_append.mpr ⟨import_lead, fun c hc => isLead_of_isGap (hgaps c hc)⟩
  refine ⟨l, hl, .line false ("import".toList ++ cs ++ '(' :: b)
    (by simpa using hm) (by simp [Place.start]) ?_ ?_ hbs (fun o => ?_)
    (fun _ _ h => by cases h) fun ys _ => ?_⟩
  · refine List.not_mem_append (newline_not_mem_of_lead hlead) ?_
    simp [hb.1]
  · exact startsDeclaration_of_head (p := (· == 'i')) rfl (by decide) _
  · refine lineSpans_of_no_literal (no_literal hlead (by decide) ?_) false o
    exact (by decide : ¬ ('(' = '"' ∨ '(' = '\x60'))
  · -- the lines of the block begin right after this one
    have hcut : Text.afterPrefix? "import".toList ("import".toList ++ cs ++ '(' :: b) =
        some (cs ++ '(' :: b) := Text.afterPrefix?_eq_some.mpr (by simp)
    have hhead : ((cs ++ '(' :: b).dropWhile isBlank).head? = some '(' := by
      refine head?_dropWhile (fun c hc => isBlank_of_isGap (hgaps c hc)) ?_
      rintro d z ⟨⟩
      decide
    have hopens : opens? (("import".toList ++ cs ++ '(' :: b) :: ys) = some 0 := by
      rw [opens?, hcut, Option.bind_some, parenthesis?_cons, hhead]
      rfl
    exact congrArg (fun k => false :: inBlocks k ys) hopens

lemma lays_spec {l : List Char} (hl : ∀ c ∈ l, isGap c = true) (s : Spec) (i : Interlude) :
    ∃ l', (∀ c ∈ l', isGap c = true) ∧ Lays ⟨true, l⟩ (specPieces [] s i.text) ⟨true, l'⟩ := by
  obtain ⟨name, gap, hs, hstart⟩ := start_masks s
  obtain ⟨b, bs, l', hi, hblank, hl'⟩ := interlude_masks i
  obtain ⟨hb, hbs⟩ := List.forall_mem_cons.mp hblank
  have hm := hs.append ((Masks.literal s.isQuote s.fits).append hi)
  have hlit := literalAt (hstart.lead hl) s.isQuote s.fits b
  have hcloses : closes ⟨0, l ++ (name ++ gap) ++ literal s.quote s.path ++ b⟩ = false := by
    have hh := closes_literal (hstart.lead hl) s.isQuote (s.path ++ s.quote :: b)
    simpa [literal] using hh
  refine ⟨l', hl', .line true (l ++ (name ++ gap) ++ literal s.quote s.path ++ b)
    (by simpa [textOf_specPieces] using hm) (by simp) ?_ ?_ hbs (fun o => ?_)
    (fun ys h => h.append [_]) fun ys h => ?_⟩
  · refine List.not_mem_append (List.not_mem_append ?_ ?_) hb.1
    · exact newline_not_mem_of_lead (hstart.lead hl)
    · exact newline_not_mem_literal s.isQuote s.fits
  · have hh := hstart.undeclared hl s.isQuote (s.path ++ s.quote :: b)
    simpa [literal] using hh
  · have hstart' : Masks ([] ++ s.start) (name ++ gap) := hs
    rw [spansOf_specPieces hstart',
      lineSpans_spec hlit (hstart.specStart hl) (hstart.not_singleStart hl)]
    simp [spanAt, Nat.add_assoc]
  · have hany : (ys.any fun y => closes ⟨0, y⟩) = true := List.any_eq_true.mpr (h rfl)
    simp only [Place.position, inBlocks, if_true, hcloses, hany]
    rfl

lemma lays_specs (specs : List (Spec × Interlude)) {l : List Char}
    (hl : ∀ c ∈ l, isGap c = true) : ∃ l', (∀ c ∈ l', isGap c = true) ∧
      Lays ⟨true, l⟩ (specs.flatMap fun (s, after) => specPieces [] s after.text) ⟨true, l'⟩ := by
  induction specs generalizing l with
  | nil => exact ⟨l, hl, .refl _⟩
  | cons spec specs ih =>
    obtain ⟨l', hl', hspec⟩ := lays_spec hl spec.1 spec.2
    obtain ⟨l'', hl'', hspecs⟩ := ih hl'
    exact ⟨l'', hl'', hspec.trans hspecs⟩

lemma lays_closing {l : List Char} (hl : ∀ c ∈ l, isGap c = true) (t : Trail) :
    Lays ⟨true, l⟩ [.kept (')' :: t.text), .kept ['\n']] .start := by
  obtain ⟨b, bs, ht, hblank⟩ := trail_masks t
  obtain ⟨hb, hbs⟩ := List.forall_mem_cons.mp hblank
  have hparen : Masks [')'] [')'] := ⟨rfl, rfl⟩
  have hlead : ∀ c ∈ l, isLead c = true := fun c hc => isLead_of_isGap (hl c hc)
  have hcloses : closes ⟨0, l ++ ')' :: b⟩ = true := by
    refine decide_eq_true (head?_dropWhile hl ?_)
    rintro d z ⟨⟩
    decide
  refine .line false (l ++ ')' :: b)
    (by simpa using hparen.append ht) (by simp [Place.start]) ?_ ?_ hbs (fun o => ?_)
    (fun ys _ _ => ⟨_, List.mem_cons_self, hcloses⟩) fun ys _ => ?_
  · refine List.not_mem_append (newline_not_mem_of_lead hlead) ?_
    simp [hb.1]
  · cases l with
    | nil => exact startsDeclaration_of_head (p := (· == ')')) rfl (by decide) _
    | cons c l => exact startsDeclaration_of_head (hl c List.mem_cons_self) (by decide) _
  · refine lineSpans_of_no_literal (no_literal hlead (by decide) ?_) false o
    exact (by decide : ¬ (')' = '"' ∨ ')' = '\x60'))
  · simp [Place.position, Place.start, inBlocks, hcloses]

lemma lays_block (g : Spacing) (i : Interlude) (specs : List (Spec × Interlude)) (t : Trail) :
    Lays .start ((Item.block g i specs t).pieces ++ [.kept ['\n']]) .start := by
  obtain ⟨l, hl, hopening⟩ := lays_opening g i
  obtain ⟨l', hl', hspecs⟩ := lays_specs specs hl
  have hh := hopening.trans (hspecs.trans (lays_closing hl' t))
  simpa [Item.pieces] using hh

/-! ## Headers -/

lemma lays_item (i : Item) : Lays .start (i.pieces ++ [.kept ['\n']]) .start := by
  cases i with
  | filler t => exact lays_filler t
  | package g name t => exact lays_package g name t
  | single g s t => exact lays_single g s t
  | block g i specs t => exact lays_block g i specs t

lemma lays_items (items : List Item) :
    Lays .start (items.flatMap fun i => i.pieces ++ [.kept ['\n']]) .start := by
  induction items with
  | nil => exact .refl _
  | cons i items ih => exact (lays_item i).trans ih

end HashedImports.Source
