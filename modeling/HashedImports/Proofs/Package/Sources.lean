import HashedImports.Package.Content
import HashedImports.Proofs.Json.Blocked
import HashedImports.Proofs.SourceTree.Rewriting
import HashedImports.Proofs.Source.Regular
import HashedImports.Proofs.Text.Utf8

/-! A file is a descriptor, or what is wrong with it as one, whether its imports are redirected or
not: what can be redirected stands below a line that begins with the word `import`. -/

namespace HashedImports.Source

lemma import_of_opens? {x : List Char} {xs : List (List Char)} {k : Nat}
    (h : opens? (x :: xs) = some k) : "import".toList <+: x := by
  obtain ⟨rest, hrest, -⟩ := Option.bind_eq_some_iff.mp h
  exact ⟨rest, (Text.afterPrefix?_eq_some.mp hrest).symm⟩

lemma import_of_lineSpans {o : Nat} {x : List Char} {span : Span}
    (h : span ∈ lineSpans false o x) : "import".toList <+: x := by
  have hs : singleSpan? ⟨o, x⟩ = some span := by
    simpa [lineSpans, specIn, singleIn] using h
  obtain ⟨b, q, p, t, hl, ⟨c, b', rfl, -⟩, -⟩ := singleSpan?_eq_some.mp hs
  refine ⟨c :: (b' ++ q :: (p ++ q :: t)), ?_⟩
  rw [← List.cons_append, ← List.append_assoc, ← hl.text]

lemma exists_cons_of_import {s : State} {x : List Char} (h : "import".toList <+: maskFrom s x) :
    ∃ v, x = 'i' :: v := by
  obtain ⟨rest, hr⟩ := h
  cases x with
  | nil => cases hr
  | cons c v =>
    have hc : 'i' = shown s c v := (List.cons.inj hr).1
    rcases shown_cases s c v with hs | ⟨hs, -⟩
    · exact ⟨v, by rw [hc, hs]⟩
    · exact absurd (hc.trans hs) (by decide)

lemma Row.exists_cons {s : State} {flag : Bool} {r : Row}
    (hs : ∀ o, lineSpans flag o (maskFrom s r.text) = r.spans o)
    (hi : "import".toList <+: maskFrom s r.text) (f : String → String) :
    ∃ v v', r.text = 'i' :: v ∧ (r.edit f).text = 'i' :: v' := by
  obtain ⟨v, hv⟩ := exists_cons_of_import hi
  cases r with
  | plain x => exact ⟨v, v, hv, hv⟩
  | importing n b q p t =>
    cases b with
    | nil =>
      obtain ⟨b', q', p', t', hl, hb, -⟩ := exists_literalAt hs
      obtain rfl := List.eq_nil_of_length_eq_zero hb
      obtain ⟨rest, hr⟩ := hi
      have hq : 'i' = q' := (List.cons.inj (hr.trans hl.text)).1
      exact absurd (hq ▸ hl.isQuote) (by decide : ¬ ('i' = '"' ∨ 'i' = '\x60'))
    | cons c b =>
      obtain rfl : c = 'i' := (List.cons.inj hv).1
      exact ⟨_, _, rfl, rfl⟩

def AlikeToBlock (x y : List Char) : Prop :=
  ∃ u v v', Json.Blocked u ∧ x = u ++ v ∧ y = u ++ v'

lemma AlikeToBlock.line {x y : List Char} (h : AlikeToBlock x y) (l : List Char) :
    AlikeToBlock (l ++ '\n' :: x) (l ++ '\n' :: y) := by
  obtain ⟨u, v, v', hu, rfl, rfl⟩ := h
  refine ⟨l ++ '\n' :: u, v, v', ?_, by simp, by simp⟩
  exact hu.trans ((List.suffix_append _ _).trans (List.suffix_cons _ _))

lemma Row.alikeToBlock {s : State} {flag : Bool} {r : Row}
    (hs : ∀ o, lineSpans flag o (maskFrom s r.text) = r.spans o)
    (hi : "import".toList <+: maskFrom s r.text) (f : String → String) (rs : List Row) :
    AlikeToBlock (unlines (texts (r :: rs))) (unlines (texts ((r :: rs).map (Row.edit f)))) := by
  obtain ⟨v, v', hv, hv'⟩ := Row.exists_cons hs hi f
  refine ⟨['i'], v ++ restText (texts rs), v' ++ restText (texts (rs.map (Row.edit f))),
    ⟨[], rfl⟩, ?_, ?_⟩
  · rw [texts, List.map_cons, unlines_eq_restText, hv]
    rfl
  · rw [List.map_cons, texts, List.map_cons, unlines_eq_restText, hv']
    rfl

lemma AlikeToBlock.plain_cons {rs : List Row} {f : String → String}
    (h : AlikeToBlock (unlines (texts rs)) (unlines (texts (rs.map (Row.edit f)))))
    (x : List Char) : AlikeToBlock (unlines (texts (.plain x :: rs)))
      (unlines (texts ((Row.plain x :: rs).map (Row.edit f)))) := by
  have hne : rs ≠ [] := by
    rintro rfl
    obtain ⟨u, v, v', hu, hv, -⟩ := h
    obtain ⟨c, w, rfl⟩ := hu.exists_cons
    cases hv
  rw [List.map_cons, texts, texts, List.map_cons, List.map_cons,
    unlines_cons _ (by simpa using hne), unlines_cons _ (by simpa using hne)]
  exact h.line x

lemma Scans.plain_or_alikeToBlock {s : State} {rows : List Row}
    (h : Scans s (inBlocks none (headerFrom s (texts rows))) rows) (f : String → String) :
    (∀ r ∈ rows, r.IsPlain) ∨
      AlikeToBlock (unlines (texts rows)) (unlines (texts (rows.map (Row.edit f)))) := by
  induction rows generalizing s with
  | nil => exact Or.inl (by simp)
  | cons r rs ih =>
    generalize hflags : inBlocks none (headerFrom s (texts (r :: rs))) = flags at h
    cases h with
    | declaration _ hp => exact Or.inl hp
    | line hd hspans hrest =>
      have htexts : texts (r :: rs) = r.text :: texts rs := rfl
      rw [htexts, headerFrom_cons _ hd, inBlocks] at hflags
      obtain ⟨rfl, rfl⟩ := List.cons.inj hflags
      cases ho : opens? (maskFrom s r.text :: headerFrom (s.next r.text) (texts rs)) with
      | some k => exact Or.inr (Row.alikeToBlock hspans (import_of_opens? ho) f rs)
      | none =>
        rw [ho] at hrest
        cases r with
        | importing n b q p t =>
          have hm : spanAt 0 b p ∈
              lineSpans false 0 (maskFrom s (Row.importing n b q p t).text) := by
            rw [hspans, Row.spans]
            exact List.mem_replicate.mpr ⟨n.succ_ne_zero, rfl⟩
          exact Or.inr (Row.alikeToBlock hspans (import_of_lineSpans hm) f rs)
        | plain x =>
          refine (ih hrest).imp (fun hp r hr => ?_) fun ha => ha.plain_cons x
          rcases List.mem_cons.mp hr with rfl | hr
          · exact ⟨x, rfl⟩
          · exact hp r hr

theorem redirect_blocked (f : String → String) (source : List Char) :
    (redirect f source).text = source ∨ AlikeToBlock source (redirect f source).text := by
  obtain ⟨rows, hr⟩ := exists_scanned source
  rw [hr.redirect_text]
  rcases hr.scans.plain_or_alikeToBlock f with hp | ha
  · exact Or.inl (by rw [map_edit_of_plain hp, hr.text])
  · exact Or.inr (by rwa [← hr.text] at ha)

end HashedImports.Source

namespace HashedImports

lemma Json.Place.of_append (u more : List Char) (n : Nat) :
    Place.of (u ++ more) (n + more.length) = Place.of u n := by
  have ht : (u ++ more).take ((u ++ more).length - (n + more.length)) =
      u.take (u.length - n) := by
    rw [List.length_append, Nat.add_sub_add_right, List.take_append_of_le_length (Nat.sub_le _ _)]
  simp only [Place.of, ht]

namespace Package

variable (levels : Json.Levels)

lemma ofText_append {u : List Char} (h : Json.Blocked u) (more more' : List Char) :
    ofText levels (u ++ more) = ofText levels (u ++ more') := by
  rcases Json.exists_parse_append levels h with ⟨p, rest, hp⟩ | ⟨s, hs, hp⟩
  · simp only [ofText]
    rw [hp, hp, Json.stopAt, Json.stopAt, List.length_append, List.length_append]
    simp only [Json.Place.of_append]
  · simp only [ofText]
    rw [hp, hp]
    cases s with
    | problem p left => exact hs.elim
    | _ => rfl

lemma ofContent_encode {cs : List Char} (hr : '\r' ∉ cs) :
    ofContent levels (Text.Utf8.encode cs) = ofText levels cs := by
  rw [ofContent, Text.Utf8.decode_encode]
  dsimp only
  rw [Text.unifyLines_of_not_mem hr]

theorem ofContent_redirectedContent (f : String → String) (content : List UInt8) :
    ofContent levels (SourceTree.redirectedContent f content) = ofContent levels content := by
  rw [SourceTree.redirectedContent]
  cases hd : Text.Utf8.decode content with
  | error fault => rfl
  | ok cs =>
    dsimp only
    split
    · rfl
    · next hne =>
      obtain hsame | ⟨u, v, v', hu, hv, hv'⟩ := Source.redirect_blocked f (Text.unifyLines cs)
      · exact (hne hsame).elim
      have hr : '\r' ∉ u := fun hm =>
        Text.return_not_mem_unifyLines cs (hv ▸ List.mem_append_left v hm)
      simp only [ofContent]
      rw [hd, Text.Utf8.decode_encode, hv']
      dsimp only
      rw [hv, Text.unifyLines_append hr]
      exact ofText_append levels hu _ _

end Package

end HashedImports
