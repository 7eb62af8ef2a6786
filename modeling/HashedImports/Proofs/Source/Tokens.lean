import HashedImports.Proofs.Source.Comments

/-! The comments and literals of a source text one after another, with the characters between them.
A masked text has the same literals in the same places and no comments. -/

namespace HashedImports.Source

structure Token where
  region : Region
  text : List Char
  deriving DecidableEq, Repr

def tokens : List Char → List Token
  | [] => []
  | '/' :: '/' :: cs => ⟨.line, '/' :: '/' :: (lineRest cs).1⟩ :: tokens (lineRest cs).2
  | '/' :: '*' :: cs => ⟨.block, '/' :: '*' :: (blockRest cs).1⟩ :: tokens (blockRest cs).2
  | c :: cs =>
    if c = '\x60' then ⟨.raw, c :: (rawRest cs).1⟩ :: tokens (rawRest cs).2
    else if c = '"' ∨ c = '\'' then
      ⟨.literal c, c :: (literalRest c cs).1⟩ :: tokens (literalRest c cs).2
    else ⟨.code, [c]⟩ :: tokens cs
termination_by cs => cs.length
decreasing_by
  · have := length_snd_le (lineRest_append cs)
    simp; omega
  · have := length_snd_le (blockRest_append cs)
    simp; omega
  · have := length_snd_le (rawRest_append cs)
    simp; omega
  · have := length_snd_le (literalRest_append c cs)
    simp; omega
  · simp

lemma tokens_code {c : Char} (hraw : c ≠ '\x60') (hquote : ¬ (c = '"' ∨ c = '\''))
    {cs : List Char} (h : c = '/' → ¬ opensComment cs) :
    tokens (c :: cs) = ⟨.code, [c]⟩ :: tokens cs := by
  rw [tokens, if_neg hraw, if_neg hquote]
  · rintro ds rfl rfl
    exact h rfl (Or.inl rfl)
  · rintro ds rfl rfl
    exact h rfl (Or.inr rfl)

/-! ## Where the tokens stand -/

lemma regions_line (cs : List Char) : regions .line cs =
    List.replicate (lineRest cs).1.length .line ++ regions .code (lineRest cs).2 := by
  induction cs with
  | nil => rfl
  | cons c cs ih =>
    by_cases hc : c = '\n'
    · subst hc
      simp [lineRest, regions]
    · have hrest : lineRest (c :: cs) = (c :: (lineRest cs).1, (lineRest cs).2) := by
        simp [lineRest, hc]
      rw [hrest, regions, if_neg hc, ih]
      rfl

lemma regions_block (cs : List Char) : regions .block cs =
    List.replicate (blockRest cs).1.length .block ++ regions .code (blockRest cs).2 := by
  fun_induction blockRest cs with
  | case1 => rfl
  | case2 cs => rfl
  | case3 c cs hend ih =>
    rw [regions, ih]
    · rfl
    · exact hend

lemma regions_raw (cs : List Char) : regions .raw cs =
    List.replicate (rawRest cs).1.length .raw ++ regions .code (rawRest cs).2 := by
  fun_induction rawRest cs with
  | case1 => rfl
  | case2 cs => rfl
  | case3 c cs hc ih =>
    rw [regions, if_neg hc, ih]
    rfl

lemma regions_literal (q : Char) (cs : List Char) : regions (.literal q) cs =
    List.replicate (literalRest q cs).1.length (.literal q) ++
      regions .code (literalRest q cs).2 := by
  fun_induction literalRest q cs with
  | case1 => rfl
  | case2 => simp [regions]
  | case3 c cs ih =>
    rw [regions, ih]
    rfl
  | case4 c cs hlast hescape hc =>
    rw [regions, if_pos hc]
    · rfl
    · exact hescape
  | case5 c cs hlast hescape hc ih =>
    rw [regions, if_neg hc, ih]
    · rfl
    · exact hescape

theorem regions_eq_flatMap (cs : List Char) : regions .code cs =
    (tokens cs).flatMap fun t => List.replicate t.text.length t.region := by
  fun_induction tokens cs with
  | case1 => rfl
  | case2 cs ih =>
    rw [List.flatMap_cons, ← ih, regions, regions_line]
    rfl
  | case3 cs ih =>
    rw [List.flatMap_cons, ← ih, regions, regions_block]
    rfl
  | case4 cs hline hblock ih =>
    rw [List.flatMap_cons, ← ih, regions, if_pos rfl, regions_raw]
    · rfl
    · exact hline
    · exact hblock
  | case5 c cs hline hblock hraw hquote ih =>
    rw [List.flatMap_cons, ← ih, regions, if_neg hraw, if_pos hquote, regions_literal]
    · rfl
    · exact hline
    · exact hblock
  | case6 c cs hline hblock hraw hquote ih =>
    rw [List.flatMap_cons, ← ih, regions, if_neg hraw, if_neg hquote]
    · rfl
    · exact hline
    · exact hblock

theorem flatMap_text (cs : List Char) : (tokens cs).flatMap Token.text = cs := by
  fun_induction tokens cs with
  | case1 => rfl
  | case2 cs ih => simp [ih, lineRest_append]
  | case3 cs ih => simp [ih, blockRest_append]
  | case4 cs hline hblock ih => simp [ih, rawRest_append]
  | case5 c cs hline hblock hraw hquote ih => simp [ih, literalRest_append]
  | case6 c cs hline hblock hraw hquote ih => simp [ih]

/-! ## Tokens of masked texts -/

namespace Token

def shown (t : Token) : List Char :=
  t.text.map t.region.shown

def masked (t : Token) : List Token :=
  if t.region.isComment then t.text.map fun c => ⟨.code, [blanked c]⟩ else [t]

lemma shown_of_not_comment {t : Token} (h : t.region.isComment = false) : t.shown = t.text := by
  have hid : t.region.shown = id := funext fun c => if_neg (by simp [h])
  rw [shown, hid, List.map_id]

end Token

lemma zipWith_shown (ts : List Token) : List.zipWith Region.shown
    (ts.flatMap fun t => List.replicate t.text.length t.region) (ts.flatMap Token.text) =
      ts.flatMap Token.shown := by
  induction ts with
  | nil => rfl
  | cons t ts ih =>
    have hsame : List.zipWith Region.shown (List.replicate t.text.length t.region) t.text =
        t.shown := by
      apply List.ext_getElem
      · simp [Token.shown]
      · intro n h h'
        simp [Token.shown]
    rw [List.flatMap_cons, List.flatMap_cons, List.zipWith_append List.length_replicate, hsame, ih,
      List.flatMap_cons]

theorem mask_eq_flatMap (cs : List Char) : mask cs = (tokens cs).flatMap Token.shown := by
  rw [mask_eq_zipWith, ← zipWith_shown, ← regions_eq_flatMap, flatMap_text]

lemma tokens_blanked (xs ys : List Char) : tokens (xs.map blanked ++ ys) =
    (xs.map fun c => ⟨.code, [blanked c]⟩) ++ tokens ys := by
  induction xs with
  | nil => rfl
  | cons c xs ih =>
    have hblank : blanked c = '\n' ∨ blanked c = ' ' := by
      rw [blanked]
      split
      · exact Or.inl rfl
      · exact Or.inr rfl
    rw [List.map_cons, List.cons_append, tokens_code, ih, List.map_cons, List.cons_append]
    · rcases hblank with h | h <;> simp [h]
    · rcases hblank with h | h <;> simp [h]
    · rcases hblank with h | h <;> simp [h]

lemma rawRest_again (cs ds : List Char) (h : (rawRest cs).2 = [] → ds = []) :
    rawRest ((rawRest cs).1 ++ ds) = ((rawRest cs).1, ds) := by
  fun_induction rawRest cs with
  | case1 =>
    obtain rfl := h rfl
    rfl
  | case2 cs => simp [rawRest]
  | case3 c cs hc ih =>
    rw [List.cons_append, rawRest, if_neg hc, ih h]

lemma ne_backslash {c : Char} {cs : List Char} (hlast : c = '\\' → cs = [] → False)
    (hescape : ∀ d ds, c = '\\' → cs = d :: ds → False) : c ≠ '\\' := by
  intro hc
  cases cs with
  | nil => exact hlast hc rfl
  | cons d ds => exact hescape d ds hc rfl

lemma literalRest_again (q : Char) (cs ds : List Char) (h : (literalRest q cs).2 = [] → ds = []) :
    literalRest q ((literalRest q cs).1 ++ ds) = ((literalRest q cs).1, ds) := by
  fun_induction literalRest q cs with
  | case1 =>
    obtain rfl := h rfl
    rfl
  | case2 =>
    obtain rfl := h rfl
    rfl
  | case3 c cs ih =>
    rw [List.cons_append, List.cons_append, literalRest, ih h]
  | case4 c cs hlast hescape hc =>
    have hplain := ne_backslash hlast hescape
    rw [List.singleton_append, literalRest, if_pos hc]
    · exact fun he => (hplain he).elim
    · exact fun _ _ he => (hplain he).elim
  | case5 c cs hlast hescape hc ih =>
    have hplain := ne_backslash hlast hescape
    rw [List.cons_append, literalRest, if_neg hc, ih h]
    · exact fun he => (hplain he).elim
    · exact fun _ _ he => (hplain he).elim

lemma opensComment_of_mask {cs : List Char} (h : opensComment (mask cs)) : opensComment cs := by
  rw [mask_eq_maskFrom] at h
  cases cs with
  | nil => exact h
  | cons c cs =>
    rcases shown_cases .code c cs with hc | ⟨hc, -⟩
    · simpa [maskFrom, opensComment, hc] using h
    · simp [maskFrom, opensComment, hc] at h

lemma mask_eq_nil {cs : List Char} (h : cs = []) : mask cs = [] := by
  rw [h, mask]

theorem tokens_mask (cs : List Char) : tokens (mask cs) = (tokens cs).flatMap Token.masked := by
  fun_induction tokens cs with
  | case1 => rw [mask, tokens, List.flatMap_nil]
  | case2 cs ih =>
    rw [mask, List.flatMap_cons, ← ih]
    exact tokens_blanked ('/' :: '/' :: (lineRest cs).1) (mask (lineRest cs).2)
  | case3 cs ih =>
    rw [mask, List.flatMap_cons, ← ih]
    exact tokens_blanked ('/' :: '*' :: (blockRest cs).1) (mask (blockRest cs).2)
  | case4 cs hline hblock ih =>
    have hagain := rawRest_again cs (mask (rawRest cs).2) mask_eq_nil
    rw [mask, if_pos rfl, tokens, if_pos rfl, hagain, List.flatMap_cons, ih]
    · rfl
    · simp
    · simp
    · exact hline
    · exact hblock
  | case5 c cs hline hblock hraw hquote ih =>
    have hagain := literalRest_again c cs (mask (literalRest c cs).2) mask_eq_nil
    have hslash : c ≠ '/' := by
      rintro rfl
      simp at hquote
    rw [mask, if_neg hraw, if_pos hquote, tokens, if_neg hraw, if_pos hquote, hagain,
      List.flatMap_cons, ih]
    · rfl
    · exact fun _ he => (hslash he).elim
    · exact fun _ he => (hslash he).elim
    · exact hline
    · exact hblock
  | case6 c cs hline hblock hraw hquote ih =>
    rw [mask, if_neg hraw, if_neg hquote, tokens_code hraw hquote, List.flatMap_cons, ih]
    · rfl
    · -- Blanks bring no mark together: what is shown after a slash stood there or is a blank.
      intro hslash hopens
      exact not_opensComment hslash hline hblock (opensComment_of_mask hopens)
    · exact hline
    · exact hblock

/-! ## Literals and where they begin -/

def Region.isLiteral : Region → Bool
  | raw => true
  | literal _ => true
  | _ => false

lemma Region.isLiteral_of_isComment {r : Region} (h : r.isComment = true) :
    r.isLiteral = false := by
  cases r with
  | line => rfl
  | block => rfl
  | code => cases h
  | raw => cases h
  | literal q => cases h

def placed : Nat → List Token → List (Nat × Token)
  | _, [] => []
  | n, t :: ts => (n, t) :: placed (n + t.text.length) ts

def literalsFrom (n : Nat) (ts : List Token) : List (Nat × Token) :=
  (placed n ts).filter fun e => e.2.region.isLiteral

def literals (source : List Char) : List (Nat × Token) :=
  literalsFrom 0 (tokens source)

def StandsIn (cs : List Char) (e : Nat × Token) : Prop :=
  ∃ before after, cs = before ++ e.2.text ++ after ∧ before.length = e.1

lemma exists_of_mem_placed {n : Nat} {ts : List Token} {e : Nat × Token} (h : e ∈ placed n ts) :
    ∃ before after, ts.flatMap Token.text = before ++ e.2.text ++ after ∧
      n + before.length = e.1 := by
  induction ts generalizing n with
  | nil => cases h
  | cons t ts ih =>
    rcases List.mem_cons.mp h with rfl | h
    · exact ⟨[], ts.flatMap Token.text, rfl, rfl⟩
    · obtain ⟨before, after, htext, hplace⟩ := ih h
      refine ⟨t.text ++ before, after, ?_, ?_⟩
      · rw [List.flatMap_cons, htext]
        simp
      · rw [List.length_append, ← hplace, Nat.add_assoc]

lemma standsIn_of_mem_literals {source : List Char} {e : Nat × Token} (h : e ∈ literals source) :
    StandsIn source e := by
  obtain ⟨before, after, htext, hplace⟩ := exists_of_mem_placed (List.mem_of_mem_filter h)
  rw [flatMap_text] at htext
  exact ⟨before, after, htext, by simpa using hplace⟩

lemma placed_append (n : Nat) (ts ts' : List Token) : placed n (ts ++ ts') =
    placed n ts ++ placed (n + (ts.flatMap Token.text).length) ts' := by
  induction ts generalizing n with
  | nil => simp [placed]
  | cons t ts ih =>
    rw [List.cons_append, placed, ih, placed, List.flatMap_cons, List.length_append,
      Nat.add_assoc, List.cons_append]

lemma literalsFrom_append (n : Nat) (ts ts' : List Token) : literalsFrom n (ts ++ ts') =
    literalsFrom n ts ++ literalsFrom (n + (ts.flatMap Token.text).length) ts' := by
  rw [literalsFrom, placed_append, List.filter_append, literalsFrom, literalsFrom]

lemma literalsFrom_code (n : Nat) (cs : List Char) :
    literalsFrom n (cs.map fun c => ⟨.code, [c]⟩) = [] := by
  induction cs generalizing n with
  | nil => rfl
  | cons c cs ih => exact ih (n + 1)

namespace Token

lemma masked_of_comment {t : Token} (h : t.region.isComment = true) :
    t.masked = (t.text.map blanked).map fun c => ⟨.code, [c]⟩ := by
  rw [masked, if_pos h, List.map_map]
  rfl

lemma masked_of_not_comment {t : Token} (h : t.region.isComment = false) : t.masked = [t] :=
  if_neg (by simp [h])

lemma isComment_of_masked {t t' : Token} (h : t' ∈ t.masked) : t'.region.isComment = false := by
  cases ht : t.region.isComment with
  | true =>
    rw [masked_of_comment ht] at h
    obtain ⟨c, -, rfl⟩ := List.mem_map.mp h
    rfl
  | false =>
    rw [masked_of_not_comment ht] at h
    exact List.mem_singleton.mp h ▸ ht

lemma length_masked (t : Token) : (t.masked.flatMap text).length = t.text.length := by
  cases ht : t.region.isComment with
  | true => simp [masked_of_comment ht, List.flatMap_map]
  | false => simp [masked_of_not_comment ht]

lemma literalsFrom_masked (n : Nat) (t : Token) : literalsFrom n t.masked = literalsFrom n [t] := by
  cases ht : t.region.isComment with
  | true =>
    rw [masked_of_comment ht, literalsFrom_code, literalsFrom, placed, placed,
      List.filter_singleton, Region.isLiteral_of_isComment ht]
    rfl
  | false => rw [masked_of_not_comment ht]

end Token

lemma literalsFrom_flatMap (n : Nat) (ts : List Token) :
    literalsFrom n (ts.flatMap Token.masked) = literalsFrom n ts := by
  induction ts generalizing n with
  | nil => rfl
  | cons t ts ih =>
    have hcons : literalsFrom n (t :: ts) =
        literalsFrom n [t] ++ literalsFrom (n + t.text.length) ts := by
      simpa using literalsFrom_append n [t] ts
    rw [List.flatMap_cons, literalsFrom_append, ih, Token.literalsFrom_masked, Token.length_masked,
      hcons]

theorem masking_settles (source : List Char) :
    mask (mask source) = mask source ∧
      tokens (mask source) = (tokens source).flatMap Token.masked ∧
      (∀ t ∈ tokens (mask source), t.region.isComment = false) ∧
      literals (mask source) = literals source ∧
      ∀ e ∈ literals source, StandsIn source e ∧ StandsIn (mask source) e := by
  have htokens := tokens_mask source
  have hcode : ∀ t ∈ tokens (mask source), t.region.isComment = false := by
    intro t ht
    rw [htokens] at ht
    obtain ⟨t', -, hm⟩ := List.mem_flatMap.mp ht
    exact Token.isComment_of_masked hm
  have hshown : (tokens (mask source)).flatMap Token.shown =
      (tokens (mask source)).flatMap Token.text :=
    List.flatMap_congr fun t ht => Token.shown_of_not_comment (hcode t ht)
  have hliterals : literals (mask source) = literals source := by
    rw [literals, literals, htokens, literalsFrom_flatMap]
  refine ⟨?_, htokens, hcode, hliterals, fun e he => ⟨?_, ?_⟩⟩
  · rw [mask_eq_flatMap (mask source), hshown, flatMap_text]
  · exact standsIn_of_mem_literals he
  · apply standsIn_of_mem_literals
    rwa [hliterals]

example : literals (mask "a/*\"*/\"//\"'/* ".toList) =
    [(6, ⟨.literal '"', "\"//\"".toList⟩), (10, ⟨.literal '\'', "'/* ".toList⟩)] := by
  decide +kernel

end HashedImports.Source
