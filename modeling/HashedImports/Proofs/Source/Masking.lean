import HashedImports.Proofs.Source.Grammar

namespace HashedImports.Source

open Text (isBlank isWord)

/-! ## Texts that end in code -/

structure Masks (cs ds : List Char) : Prop where
  after : State.code.after cs = .code
  masked : maskFrom .code cs = ds

lemma maskFrom_append_of_code {s : State} {cs : List Char} (h : s.after cs = .code)
    (ds : List Char) : maskFrom s (cs ++ ds) = maskFrom s cs ++ maskFrom .code ds := by
  induction cs generalizing s with
  | nil =>
    obtain rfl : s = .code := h
    rfl
  | cons c cs ih =>
    have hshown : shown s c (cs ++ ds) = shown s c cs := by
      cases cs with
      | nil =>
        have hstep : s.step c = .code := h
        cases s with
        | code =>
          have hc : c ≠ '/' := by
            rintro rfl
            exact absurd hstep (by decide)
          simp [shown, hc]
        | _ => rfl
      | cons d cs => cases s <;> rfl
    rw [List.cons_append, maskFrom, maskFrom, hshown, ih h]
    rfl

namespace Masks

lemma nil : Masks [] [] :=
  ⟨rfl, rfl⟩

lemma newline : Masks ['\n'] ['\n'] :=
  ⟨rfl, rfl⟩

lemma length {cs ds : List Char} (h : Masks cs ds) : ds.length = cs.length :=
  h.masked ▸ length_maskFrom .code cs

lemma append {cs cs' ds ds' : List Char} (h : Masks cs ds) (h' : Masks cs' ds') :
    Masks (cs ++ cs') (ds ++ ds') :=
  ⟨by rw [State.after_append, h.after, h'.after],
    by rw [maskFrom_append_of_code h.after, h.masked, h'.masked]⟩

lemma of_quiet {cs : List Char} (h : ∀ c ∈ cs, IsQuiet c) : Masks cs cs := by
  induction cs with
  | nil => exact nil
  | cons c cs ih =>
    obtain ⟨hs, hr, hd, hq⟩ := h c List.mem_cons_self
    have hstep : State.code.step c = .code := by simp [State.step, State.ofCode, hs, hr, hd, hq]
    have hshown : shown .code c [] = c := by simp [shown, hs]
    have hc : Masks [c] [c] := ⟨hstep, by rw [maskFrom, hshown, maskFrom]⟩
    exact hc.append (ih fun d hd => h d (List.mem_cons_of_mem _ hd))

lemma of_lead {cs : List Char} (h : ∀ c ∈ cs, isLead c = true) : Masks cs cs :=
  of_quiet fun c hc => isQuiet_of_isLead (h c hc)

lemma literal {q : Char} {path : List Char} (h : IsQuote q) (hf : Fits q path) :
    Masks (Source.literal q path) (Source.literal q path) :=
  ⟨after_literal h hf [], maskFrom_literal h hf []⟩

end Masks

/-! ## Comments -/

lemma comment_body {s : State} {body : List Char} (hs : s = .block ∨ s = .star)
    (h : ¬ ['*', '/'] <:+: body) (hstar : s = .star → body.head? ≠ some '/') :
    s.after (body ++ ['*', '/']) = .code ∧
      maskFrom s (body ++ ['*', '/']) = (body ++ ['*', '/']).map blanked := by
  induction body generalizing s with
  | nil => rcases hs with rfl | rfl <;> exact ⟨rfl, rfl⟩
  | cons c body ih =>
    have hbody : ¬ ['*', '/'] <:+: body := fun hi => h (hi.trans (List.suffix_cons c body).isInfix)
    have hnext : c = '*' → body.head? ≠ some '/' := by
      rintro rfl hhead
      obtain ⟨rest, rfl⟩ := List.head?_eq_some_iff.mp hhead
      exact h (List.prefix_append ['*', '/'] rest).isInfix
    have hshown : ∀ rest, shown s c rest = blanked c := by
      rcases hs with rfl | rfl <;> exact fun _ => rfl
    have hstep : s.step c = if c = '*' then .star else .block := by
      rcases hs with rfl | rfl
      · rfl
      · have hc : c ≠ '/' := fun hc => hstar rfl (by rw [hc]; rfl)
        rw [State.step, if_neg hc]
    have hh := ih (s := s.step c) (by rw [hstep]; split <;> simp) hbody (by
      rw [hstep]
      split
      · next hc => exact fun _ => hnext hc
      · simp)
    rw [List.cons_append, State.after_cons, maskFrom, hshown, hh.2]
    exact ⟨hh.1, rfl⟩

lemma line_body {body : List Char} (h : '\n' ∉ body) :
    State.line.after body = .line ∧ maskFrom .line body = body.map blanked := by
  induction body with
  | nil => exact ⟨rfl, rfl⟩
  | cons c body ih =>
    rw [List.mem_cons, not_or] at h
    have hstep : State.line.step c = .line := if_neg (Ne.symm h.1)
    rw [State.after_cons, maskFrom, hstep, (ih h.2).1, (ih h.2).2]
    exact ⟨rfl, rfl⟩

lemma blanked_cases (c : Char) : isGap (blanked c) = true ∨ blanked c = '\n' := by
  by_cases h : c = '\n'
  · exact Or.inr (if_pos h)
  · exact Or.inl (by rw [blanked, if_neg h]; decide)

lemma isBlank_of_isGap {c : Char} (h : isGap c = true) : isBlank c = true := by
  rcases isGap_iff.mp h with rfl | rfl <;> decide

lemma isBlank_of_gap_or_newline {c : Char} (h : isGap c = true ∨ c = '\n') : isBlank c = true := by
  rcases h with h | rfl
  · exact isBlank_of_isGap h
  · decide

/-! ## Between words -/

lemma filling_masks (f : Filling) :
    ∃ ds, Masks f.text ds ∧ ∀ c ∈ ds, isGap c = true ∨ c = '\n' := by
  cases f with
  | gap c h =>
    have hc : ∀ d ∈ [c], isGap d = true := by simpa using h
    exact ⟨[c], .of_lead (fun d hd => by simp [isLead, hc d hd]), fun d hd => Or.inl (hc d hd)⟩
  | comment body h =>
    obtain ⟨ha, hm⟩ := comment_body (Or.inl rfl) h (by simp)
    have hmask : maskFrom .code ('/' :: '*' :: (body ++ ['*', '/'])) =
        ' ' :: ' ' :: maskFrom .block (body ++ ['*', '/']) := rfl
    refine ⟨_, ⟨ha, hmask.trans (by rw [hm])⟩, fun c hc => ?_⟩
    simp only [List.mem_cons, List.mem_map] at hc
    rcases hc with rfl | rfl | ⟨d, -, rfl⟩
    · exact Or.inl (by decide)
    · exact Or.inl (by decide)
    · exact blanked_cases d

lemma fill_masks (fs : List Filling) :
    ∃ ds, Masks (fill fs) ds ∧ ∀ c ∈ ds, isGap c = true ∨ c = '\n' := by
  induction fs with
  | nil => exact ⟨[], .nil, by simp⟩
  | cons f fs ih =>
    obtain ⟨ds, hm, hds⟩ := filling_masks f
    obtain ⟨es, hm', hes⟩ := ih
    exact ⟨ds ++ es, hm.append hm', List.forall_mem_append.mpr ⟨hds, hes⟩⟩

lemma spacing_masks (g : Spacing) :
    ∃ ds, Masks (fill g.fillings) ds ∧ ∀ c ∈ ds, isGap c = true := by
  obtain ⟨ds, hm, hds⟩ := fill_masks g.fillings
  refine ⟨ds, hm, fun c hc => (hds c hc).resolve_right ?_⟩
  rintro rfl
  exact newline_not_mem_maskFrom g.line (hm.masked ▸ hc)

lemma separator_masks (g : Separator) :
    ∃ c cs, Masks (fill g.fillings) (c :: cs) ∧ ∀ d ∈ c :: cs, isGap d = true := by
  obtain ⟨ds, hm, hds⟩ := spacing_masks g.toSpacing
  cases ds with
  | nil =>
    have hlen := congrArg List.length hm.masked
    rw [length_maskFrom, List.length_nil, List.length_eq_zero_iff] at hlen
    obtain ⟨f, fs, hfs⟩ := List.exists_cons_of_ne_nil g.ne_nil
    rw [hfs, fill, List.flatMap_cons] at hlen
    cases f <;> simp [Filling.text] at hlen
  | cons c cs => exact ⟨c, cs, hm, hds⟩

/-! ## Lines that are ended -/

def ended (xs : List (List Char)) : List Char :=
  xs.flatMap fun x => x ++ ['\n']

@[simp] lemma ended_nil : ended [] = [] := rfl

@[simp] lemma ended_cons (x : List Char) (xs : List (List Char)) :
    ended (x :: xs) = x ++ '\n' :: ended xs := by
  simp [ended]

@[simp] lemma ended_append (xs ys : List (List Char)) :
    ended (xs ++ ys) = ended xs ++ ended ys :=
  List.flatMap_append

lemma exists_ended (cs : List Char) : ∃ xs l, cs = ended xs ++ l ∧ '\n' ∉ l ∧ Unbroken xs := by
  induction cs with
  | nil => exact ⟨[], [], rfl, by simp, by simp [Unbroken]⟩
  | cons c cs ih =>
    obtain ⟨xs, l, rfl, hl, hxs⟩ := ih
    by_cases hc : c = '\n'
    · refine ⟨[] :: xs, l, by simp [hc], hl, ?_⟩
      exact List.forall_mem_cons.mpr ⟨by simp, hxs⟩
    · cases xs with
      | nil => exact ⟨[], c :: l, rfl, by simp [Ne.symm hc, hl], hxs⟩
      | cons x xs =>
        refine ⟨(c :: x) :: xs, l, by simp, hl, List.forall_mem_cons.mpr ⟨?_, hxs.tail⟩⟩
        simp [Ne.symm hc, hxs x List.mem_cons_self]

def IsBlankLine (x : List Char) : Prop :=
  '\n' ∉ x ∧ ∀ c ∈ x, isBlank c = true

lemma isBlankLine_of_ended {l : List Char} {xs : List (List Char)}
    (h : ∀ c ∈ ended xs ++ l, isBlank c = true) (hu : Unbroken xs) :
    ∀ x ∈ xs, IsBlankLine x := by
  intro x hx
  refine ⟨hu x hx, fun c hc => h c (List.mem_append_left _ ?_)⟩
  exact List.mem_flatMap.mpr ⟨x, hx, List.mem_append_left _ hc⟩

lemma exists_blank_lines {cs : List Char} (h : ∀ c ∈ cs, isBlank c = true) :
    ∃ b bs, cs ++ ['\n'] = ended (b :: bs) ∧ ∀ x ∈ b :: bs, IsBlankLine x := by
  obtain ⟨xs, l, rfl, hl, hu⟩ := exists_ended cs
  have hlines : ∀ x ∈ xs ++ [l], IsBlankLine x := by
    refine List.forall_mem_append.mpr ⟨isBlankLine_of_ended h hu, ?_⟩
    intro x hx
    rw [List.mem_singleton.mp hx]
    exact ⟨hl, fun c hc => h c (List.mem_append_right _ hc)⟩
  have hend : ended xs ++ l ++ ['\n'] = ended (xs ++ [l]) := by simp
  obtain ⟨b, bs, hcons⟩ := List.exists_cons_of_ne_nil (List.append_ne_nil_of_right_ne_nil xs
    (List.cons_ne_nil l []))
  rw [hcons] at hlines hend
  exact ⟨b, bs, hend, hlines⟩

/-! ## Ends of lines -/

lemma lineEnd_masks (e : LineEnd) :
    ∃ ds, Masks (e.text ++ ['\n']) (ds ++ ['\n']) ∧ ∀ c ∈ ds, isBlank c = true := by
  cases e with
  | blank cs h =>
    have hq : ∀ c ∈ cs, IsQuiet c := by
      intro c hc
      have hne : ∀ d, isBlank d = false → c ≠ d := by
        rintro d hd rfl
        simp [(h c hc).1] at hd
      exact ⟨hne _ (by decide), hne _ (by decide), hne _ (by decide), hne _ (by decide)⟩
    exact ⟨cs, (Masks.of_quiet hq).append .newline, fun c hc => (h c hc).1⟩
  | comment body h =>
    obtain ⟨ha, hm⟩ := line_body h
    have hafter : State.code.after ('/' :: '/' :: (body ++ ['\n'])) =
      State.line.after (body ++ ['\n']) := rfl
    have hmask : maskFrom .code ('/' :: '/' :: (body ++ ['\n'])) =
        ' ' :: ' ' :: maskFrom .line (body ++ ['\n']) := rfl
    refine ⟨' ' :: ' ' :: body.map blanked, ⟨?_, ?_⟩, fun c hc => ?_⟩
    · exact hafter.trans (by rw [State.after_append, ha]; rfl)
    · exact hmask.trans (by rw [maskFrom_newline, hm]; rfl)
    · simp only [List.mem_cons, List.mem_map] at hc
      rcases hc with rfl | rfl | ⟨d, -, rfl⟩
      · decide
      · decide
      · exact isBlank_of_gap_or_newline (blanked_cases d)

lemma trail_masks (t : Trail) :
    ∃ b bs, Masks (t.text ++ ['\n']) (ended (b :: bs)) ∧ ∀ x ∈ b :: bs, IsBlankLine x := by
  obtain ⟨ds, hm, hds⟩ := fill_masks t.fillings
  obtain ⟨es, hm', hes⟩ := lineEnd_masks t.lineEnd
  obtain ⟨b, bs, hend, hblank⟩ := exists_blank_lines (List.forall_mem_append.mpr
    ⟨fun c hc => isBlank_of_gap_or_newline (hds c hc), hes⟩)
  refine ⟨b, bs, ?_, hblank⟩
  rw [← hend, Trail.text, List.append_assoc, List.append_assoc]
  exact hm.append hm'

lemma trails_masks (ts : List Trail) :
    ∃ xs, Masks (ts.flatMap fun t => t.text ++ ['\n']) (ended xs) ∧ ∀ x ∈ xs, IsBlankLine x := by
  induction ts with
  | nil => exact ⟨[], .nil, by simp⟩
  | cons t ts ih =>
    obtain ⟨b, bs, hm, hb⟩ := trail_masks t
    obtain ⟨xs, hm', hxs⟩ := ih
    refine ⟨b :: bs ++ xs, ?_, List.forall_mem_append.mpr ⟨hb, hxs⟩⟩
    rw [ended_append, List.flatMap_cons]
    exact hm.append hm'

lemma interlude_masks (i : Interlude) :
    ∃ b bs l, Masks i.text (ended (b :: bs) ++ l) ∧ (∀ x ∈ b :: bs, IsBlankLine x) ∧
      ∀ c ∈ l, isGap c = true := by
  obtain ⟨xs, hm, hxs⟩ := trails_masks i.lines
  obtain ⟨ds, hm', hds⟩ := fill_masks i.rest
  obtain ⟨ys, l, rfl, hl, hu⟩ := exists_ended ds
  have hmask : Masks i.text (ended (xs ++ ys) ++ l) := by
    rw [ended_append, List.append_assoc]
    exact hm.append hm'
  have hys : ∀ y ∈ ys, IsBlankLine y :=
    isBlankLine_of_ended (fun c hc => isBlank_of_gap_or_newline (hds c hc)) hu
  have hlast : ∀ c ∈ l, isGap c = true := by
    intro c hc
    refine (hds c (List.mem_append_right _ hc)).resolve_right ?_
    rintro rfl
    exact hl hc
  have hne : xs ++ ys ≠ [] := by
    intro hnil
    obtain ⟨u, v, huv⟩ := List.append_of_mem i.breaks
    have hmem : '\n' ∈ maskFrom .code i.text := by
      rw [Interlude.text, huv, maskFrom_newline]
      simp
    rw [hmask.masked, hnil] at hmem
    exact hl hmem
  obtain ⟨b, bs, hcons⟩ := List.exists_cons_of_ne_nil hne
  refine ⟨b, bs, l, hcons ▸ hmask, ?_, hlast⟩
  rw [← hcons]
  exact List.forall_mem_append.mpr ⟨hxs, hys⟩

/-! ## What stands before a literal -/

lemma isAliasChar_of_isWord {c : Char} (h : isWord c = true) : isAliasChar c = true := by
  simp [isAliasChar, h]

structure IsStart (name gap : List Char) : Prop where
  chars : ∀ c ∈ name, isAliasChar c = true
  gaps : ∀ c ∈ gap, isGap c = true
  both : name = [] ↔ gap = []
  plain : name = ['.'] ∨ (∀ c ∈ name, isWord c = true) ∧ name ∉ keywords

lemma start_masks (s : Spec) : ∃ name gap, Masks s.start (name ++ gap) ∧ IsStart name gap := by
  obtain ⟨alias?, q, path, hq, hf⟩ := s
  cases alias? with
  | none => exact ⟨[], [], .nil, by simp, by simp, by simp, Or.inr ⟨by simp, by decide⟩⟩
  | some p =>
    obtain ⟨a, g⟩ := p
    obtain ⟨c, cs, hm, hgap⟩ := separator_masks g
    have hname : (∀ c ∈ a.text, isAliasChar c = true) ∧ a.text ≠ [] ∧
        (a.text = ['.'] ∨ (∀ c ∈ a.text, isWord c = true) ∧ a.text ∉ keywords) := by
      cases a with
      | dot => exact ⟨List.all_eq_true.mp (by decide), by simp [Alias.text], Or.inl rfl⟩
      | name w h =>
        exact ⟨fun c hc => isAliasChar_of_isWord (w.isWord c hc), w.ne_nil, Or.inr ⟨w.isWord, h⟩⟩
    obtain ⟨hchars, hne, hplain⟩ := hname
    have hlead : ∀ c ∈ a.text, isLead c = true := fun c hc => by simp [isLead, hchars c hc]
    exact ⟨a.text, c :: cs, (Masks.of_lead hlead).append hm, hchars, hgap, by simp [hne], hplain⟩

end HashedImports.Source
