import HashedImports.Proofs.Source.Automaton
import HashedImports.Proofs.Text.Split
import HashedImports.Source.Import

/-! The literal of a line: what stands before it, between its quotation marks and after it. A line
has at most one, since nothing before it is a quotation mark. -/

namespace HashedImports.Source

def isLead (c : Char) : Bool :=
  isGap c || isAliasChar c

structure LiteralAt (x before : List Char) (q : Char) (path rest : List Char) : Prop where
  text : x = before ++ q :: (path ++ q :: rest)
  lead : ∀ c ∈ before, isLead c = true
  isQuote : IsQuote q
  quote : q ∉ path
  newline : '\n' ∉ path

lemma isLead_ne {c d : Char} (h : isLead c = true) (hd : isLead d = false) : c ≠ d := by
  rintro rfl
  simp [h] at hd

lemma isLead_quote {q : Char} (h : IsQuote q) : isLead q = false := by
  rcases h with rfl | rfl <;> decide

lemma isLead_newline : isLead '\n' = false := by decide

lemma isQuiet_of_isLead {c : Char} (h : isLead c = true) : IsQuiet c :=
  ⟨isLead_ne h (by decide), isLead_ne h (by decide), isLead_ne h (by decide),
    isLead_ne h (by decide)⟩

lemma append_cons_inj {p : Char → Bool} {a b : List Char} {c d : Char} {u v : List Char}
    (ha : ∀ e ∈ a, p e = true) (hb : ∀ e ∈ b, p e = true) (hc : p c = false) (hd : p d = false)
    (h : a ++ c :: u = b ++ d :: v) : a = b ∧ c = d ∧ u = v := by
  induction a generalizing b with
  | nil =>
    cases b with
    | nil => exact ⟨rfl, List.cons.inj h⟩
    | cons e b =>
      obtain ⟨rfl, -⟩ := List.cons.inj h
      simp [hb c List.mem_cons_self] at hc
  | cons e a ih =>
    cases b with
    | nil =>
      obtain ⟨rfl, -⟩ := List.cons.inj h
      simp [ha e List.mem_cons_self] at hd
    | cons f b =>
      obtain ⟨rfl, ht⟩ := List.cons.inj h
      obtain ⟨rfl, hh⟩ := ih (fun x hx => ha x (List.mem_cons_of_mem _ hx))
        (fun x hx => hb x (List.mem_cons_of_mem _ hx)) ht
      exact ⟨rfl, hh⟩

lemma append_cons_inj_of_not_mem {a b : List Char} {c : Char} {u v : List Char} (ha : c ∉ a)
    (hb : c ∉ b) (h : a ++ c :: u = b ++ c :: v) : a = b ∧ u = v := by
  have hne : ∀ {x : List Char}, c ∉ x → ∀ e ∈ x, (decide (e ≠ c)) = true := by
    intro x hx e he
    exact decide_eq_true fun hh => hx (hh ▸ he)
  obtain ⟨hab, -, huv⟩ := append_cons_inj (hne ha) (hne hb) (by simp) (by simp) h
  exact ⟨hab, huv⟩

lemma LiteralAt.unique {x b b' p p' t t' : List Char} {q q' : Char} (h : LiteralAt x b q p t)
    (h' : LiteralAt x b' q' p' t') : b = b' ∧ q = q' ∧ p = p' ∧ t = t' := by
  obtain ⟨hb, rfl, hr⟩ := append_cons_inj h.lead h'.lead (isLead_quote h.isQuote)
    (isLead_quote h'.isQuote) (h.text.symm.trans h'.text)
  obtain ⟨hp, ht⟩ := append_cons_inj_of_not_mem h.quote h'.quote hr
  exact ⟨hb, rfl, hp, ht⟩

lemma LiteralAt.append {x b p t : List Char} {q : Char} (h : LiteralAt x b q p t)
    (v : List Char) : LiteralAt (x ++ v) b q p (t ++ v) :=
  ⟨by rw [h.text]; simp, h.lead, h.isQuote, h.quote, h.newline⟩

lemma LiteralAt.exists_cons {x b p t : List Char} {q c : Char}
    (h : LiteralAt (c :: x) b q p t) (hc : isLead c = true) : ∃ b', b = c :: b' := by
  cases b with
  | nil =>
    obtain ⟨rfl, -⟩ := List.cons.inj h.text
    simp [isLead_quote h.isQuote] at hc
  | cons d b' =>
    obtain ⟨rfl, -⟩ := List.cons.inj h.text
    exact ⟨b', rfl⟩

lemma LiteralAt.exists_of_append {x v b p t : List Char} {q : Char}
    (h : LiteralAt (x ++ '\n' :: v) b q p t) : ∃ t', LiteralAt x b q p t' := by
  have hq := isLead_quote h.isQuote
  have hqn : q ≠ '\n' := by rcases h.isQuote with rfl | rfl <;> decide
  have hfree : '\n' ∉ b ++ q :: (p ++ [q]) := by
    simp only [List.mem_append, List.mem_cons, List.not_mem_nil, or_false, not_or]
    exact ⟨fun hm => isLead_ne (h.lead _ hm) isLead_newline rfl, hqn.symm, h.newline, hqn.symm⟩
  have hp : b ++ q :: (p ++ [q]) <+: x ++ '\n' :: v := ⟨t, by rw [h.text]; simp⟩
  rcases Text.prefix_append_cases hp with ⟨t', ht⟩ | ⟨z, hz, hz'⟩
  · exact ⟨t', by rw [← ht]; simp, h.lead, h.isQuote, h.quote, h.newline⟩
  · cases z with
    | nil =>
      refine ⟨[], ?_, h.lead, h.isQuote, h.quote, h.newline⟩
      rw [List.append_nil] at hz
      exact hz.symm
    | cons d z =>
      obtain ⟨s, hs⟩ := hz'
      obtain ⟨rfl, -⟩ := List.cons.inj hs
      exact (hfree (hz ▸ by simp)).elim

/-! ## What is found before a literal -/

def SpecStart (b : List Char) : Prop :=
  ∃ indent name gap, b = indent ++ (name ++ gap) ∧ (∀ c ∈ indent, isGap c = true) ∧
    (∀ c ∈ name, isAliasChar c = true) ∧ (∀ c ∈ gap, isGap c = true) ∧ (name = [] ↔ gap = [])

def SingleStart (b : List Char) : Prop :=
  ∃ c b', b = "import".toList ++ c :: b' ∧ isGap c = true ∧ SpecStart (c :: b')

lemma isGap_iff {c : Char} : isGap c = true ↔ c = ' ' ∨ c = '\t' := by
  simp [isGap]

lemma isGap_of_isAliasChar {c : Char} (h : isAliasChar c = true) : isGap c = false := by
  rw [Bool.eq_false_iff]
  intro hg
  rcases isGap_iff.mp hg with rfl | rfl <;> revert h <;> decide

lemma SpecStart.lead {b : List Char} (h : SpecStart b) : ∀ c ∈ b, isLead c = true := by
  obtain ⟨indent, name, gap, rfl, hi, hn, hg, -⟩ := h
  intro c hc
  rw [isLead]
  rcases List.mem_append.mp hc with hc | hc
  · simp [hi c hc]
  · rcases List.mem_append.mp hc with hc | hc
    · simp [hn c hc]
    · simp [hg c hc]

lemma SingleStart.lead {b : List Char} (h : SingleStart b) : ∀ c ∈ b, isLead c = true := by
  obtain ⟨c, b', rfl, -, hs⟩ := h
  have hw : ∀ d ∈ "import".toList, isLead d = true := List.all_eq_true.mp (by decide)
  intro d hd
  exact (List.mem_append.mp hd).elim (hw d) (hs.lead d)

lemma exists_run (p : Char → Bool) (x : List Char) :
    ∃ y z, x = y ++ z ∧ y.length = run p x ∧ (∀ c ∈ y, p c = true) ∧
      ∀ d z', z = d :: z' → p d = false := by
  refine ⟨x.takeWhile p, x.dropWhile p, List.takeWhile_append_dropWhile.symm, rfl,
    fun c hc => List.all_eq_true.mp List.all_takeWhile c hc, ?_⟩
  intro d z' hz
  have := List.head?_dropWhile_not p x
  simpa [hz] using this

lemma run_append {p : Char → Bool} {y z : List Char} (hy : ∀ c ∈ y, p c = true)
    (hz : ∀ d z', z = d :: z' → p d = false) : run p (y ++ z) = y.length := by
  rw [run, List.takeWhile_append_of_pos hy]
  cases z with
  | nil => simp
  | cons d z => simp [hz d z rfl]

lemma literalLength?_eq_some {cs : List Char} {n : Nat} :
    literalLength? cs = some n ↔
      ∃ q p t, LiteralAt cs [] q p t ∧ n = p.length + 2 := by
  constructor
  · intro h
    cases cs with
    | nil => cases h
    | cons q cs =>
      rw [literalLength?] at h
      split at h
      · next hq =>
        dsimp only at h
        split at h
        · next hc =>
          obtain rfl := Option.some.inj h
          obtain ⟨p, z, rfl, hl, hp, -⟩ := exists_run (fun c => c ≠ q ∧ c ≠ '\n') cs
          rw [← hl, List.getElem?_append_right (Nat.le_refl _), Nat.sub_self] at hc
          cases z with
          | nil => simp at hc
          | cons d t =>
            obtain rfl : d = q := by simpa using hc
            refine ⟨d, p, t, ⟨rfl, by simp, hq, fun hm => ?_, fun hm => ?_⟩, by rw [← hl]⟩
            · simpa using hp d hm
            · simpa using hp '\n' hm
        · cases h
      · cases h
  · rintro ⟨q, p, t, ⟨rfl, -, hq, hqp, hn⟩, rfl⟩
    have hr : run (fun c => c ≠ q ∧ c ≠ '\n') (p ++ q :: t) = p.length := by
      refine run_append (fun c hc => ?_) ?_
      · exact decide_eq_true ⟨fun he => hqp (he ▸ hc), fun he => hn (he ▸ hc)⟩
      · rintro d z' ⟨⟩
        simp
    rw [List.nil_append, literalLength?, if_pos (show q = '"' ∨ q = '\x60' from hq), hr]
    simp

lemma drop_of_run {p : Char → Bool} {x y z : List Char} (hx : x = y ++ z)
    (hl : y.length = run p x) : x.drop (run p x) = z := by
  rw [← hl, hx, List.drop_left]

def spanAt (o : Nat) (b p : List Char) : Span :=
  ⟨o + b.length, o + b.length + (p.length + 2)⟩

lemma SpecStart.of_runs {indent name gap w : List Char} (hi : ∀ c ∈ indent, isGap c = true)
    (hi' : ∀ d z, name ++ (gap ++ w) = d :: z → isGap d = false)
    (hn : ∀ c ∈ name, isAliasChar c = true) (hg : ∀ c ∈ gap, isGap c = true)
    (hng : gap = [] → name = []) : SpecStart (indent ++ (name ++ gap)) := by
  refine ⟨indent, name, gap, rfl, hi, hn, hg, fun hname => ?_, hng⟩
  -- without a name nothing of a gap is left after the indent
  rw [hname, List.nil_append] at hi'
  cases gap with
  | nil => rfl
  | cons c gap =>
    have hc := hi' c (gap ++ w) rfl
    simp [hg c List.mem_cons_self] at hc

lemma SpecStart.exists_runs {b w : List Char} (h : SpecStart b)
    (hw : ∀ d z, w = d :: z → isGap d = false ∧ isAliasChar d = false) :
    ∃ indent name gap, b = indent ++ (name ++ gap) ∧ (name = [] ↔ gap = []) ∧
      run isGap (indent ++ (name ++ (gap ++ w))) = indent.length ∧
      run isAliasChar (name ++ (gap ++ w)) = name.length ∧ run isGap (gap ++ w) = gap.length := by
  obtain ⟨indent, name, gap, rfl, hi, hn, hg, hng⟩ := h
  refine ⟨indent, name, gap, rfl, hng, run_append hi ?_, run_append hn ?_, run_append hg ?_⟩
  · intro d z hz
    cases name with
    | nil =>
      rw [hng.mp rfl] at hz
      exact (hw d z hz).1
    | cons c name =>
      obtain ⟨rfl, -⟩ := List.cons.inj hz
      exact isGap_of_isAliasChar (hn _ List.mem_cons_self)
  · intro d z hz
    cases gap with
    | nil => exact (hw d z hz).2
    | cons c gap =>
      obtain ⟨rfl, -⟩ := List.cons.inj hz
      rw [Bool.eq_false_iff]
      intro ha
      simp [isGap_of_isAliasChar ha] at hg
  · exact fun d z hz => (hw d z hz).1

lemma exists_literalAt_of_specSpan? {o : Nat} {x : List Char} {s : Span}
    (h : specSpan? o x = some s) :
    ∃ b q p t, LiteralAt x b q p t ∧ SpecStart b ∧ s = spanAt o b p := by
  rw [specSpan?] at h
  dsimp only at h
  obtain ⟨indent, y, hy, hil, hi, hi'⟩ := exists_run isGap x
  rw [drop_of_run hy hil] at h
  obtain ⟨name, z, hz, hnl, hn, -⟩ := exists_run isAliasChar y
  rw [drop_of_run hz hnl] at h
  obtain ⟨gap, w, hw, hgl, hg, -⟩ := exists_run isGap z
  split at h
  · cases h
  next hne =>
  obtain ⟨n, hlit, rfl⟩ := Option.map_eq_some_iff.mp h
  have hdrop : y.drop (run isAliasChar y + run isGap z) = w := by
    rw [← hnl, ← hgl, hz, hw, ← List.append_assoc, ← List.length_append, List.drop_left]
  rw [hdrop] at hlit
  obtain ⟨q, p, t, hl, rfl⟩ := literalLength?_eq_some.mp hlit
  have hstart : SpecStart (indent ++ (name ++ gap)) := by
    rw [hz, hw] at hi'
    refine .of_runs hi hi' hn hg fun hgap => ?_
    by_contra hname
    rw [← hnl, ← hgl, hgap] at hne
    exact hne ⟨fun h0 => hname (List.length_eq_zero_iff.mp h0), rfl⟩
  refine ⟨_, q, p, t, ⟨?_, hstart.lead, hl.isQuote, hl.quote, hl.newline⟩, hstart, ?_⟩
  · rw [hy, hz, hw, hl.text]
    simp
  · simp only [spanAt, ← hil, ← hnl, ← hgl, List.length_append, Span.mk.injEq]
    omega

lemma LiteralAt.specSpan?_eq {o : Nat} {x b p t : List Char} {q : Char}
    (h : LiteralAt x b q p t) (hs : SpecStart b) : specSpan? o x = some (spanAt o b p) := by
  obtain ⟨rfl, -, hq, hqp, hnp⟩ := h
  let w := q :: (p ++ q :: t)
  have hw : ∀ d z, w = d :: z → isGap d = false ∧ isAliasChar d = false := by
    rintro d z hz
    obtain ⟨rfl, -⟩ := List.cons.inj hz
    rcases hq with rfl | rfl <;> decide
  have hlit : literalLength? w = some (p.length + 2) :=
    literalLength?_eq_some.mpr ⟨q, p, t, ⟨rfl, by simp, hq, hqp, hnp⟩, rfl⟩
  obtain ⟨indent, name, gap, rfl, hng, h₁, h₂, h₃⟩ := hs.exists_runs hw
  have htext : indent ++ (name ++ gap) ++ q :: (p ++ q :: t) =
      indent ++ (name ++ (gap ++ w)) := by simp [w]
  rw [specSpan?]
  dsimp only
  rw [htext, h₁, List.drop_left, h₂, List.drop_left, h₃, if_neg, ← List.append_assoc,
    ← List.length_append, List.drop_left, hlit]
  · simp only [Option.map_some, spanAt, List.length_append, Option.some.injEq, Span.mk.injEq]
    omega
  · rintro ⟨hname, hgap⟩
    exact hname (List.length_eq_zero_iff.mpr (hng.mpr (List.length_eq_zero_iff.mp hgap)))

theorem specSpan?_eq_some {o : Nat} {x : List Char} {s : Span} :
    specSpan? o x = some s ↔
      ∃ b q p t, LiteralAt x b q p t ∧ SpecStart b ∧ s = spanAt o b p := by
  refine ⟨exists_literalAt_of_specSpan?, ?_⟩
  rintro ⟨b, q, p, t, hl, hs, rfl⟩
  exact hl.specSpan?_eq hs

theorem singleSpan?_eq_some {l : Line} {s : Span} :
    singleSpan? l = some s ↔
      ∃ b q p t, LiteralAt l.rest b q p t ∧ SingleStart b ∧ s = spanAt l.offset b p := by
  rw [singleSpan?]
  have hlen : "import".toList.length = 6 := by decide
  constructor
  · intro h
    split at h
    · next c cs hp =>
      rw [Text.afterPrefix?_eq_some] at hp
      split at h
      · next hc =>
        obtain ⟨b, q, p, t, hl, hs, rfl⟩ := specSpan?_eq_some.mp h
        obtain ⟨b', rfl⟩ := hl.exists_cons (by simp [isLead, hc])
        have hstart : SingleStart ("import".toList ++ c :: b') := ⟨c, b', rfl, hc, hs⟩
        refine ⟨_, q, p, t, ⟨?_, hstart.lead, hl.isQuote, hl.quote, hl.newline⟩, hstart, ?_⟩
        · rw [hp, hl.text, List.append_assoc]
        · simp only [spanAt, List.length_append, hlen, Span.mk.injEq]
          omega
      · cases h
    · cases h
  · rintro ⟨b, q, p, t, hl, ⟨c, b', rfl, hc, hs⟩, rfl⟩
    have hp : Text.afterPrefix? "import".toList l.rest =
        some (c :: (b' ++ q :: (p ++ q :: t))) := by
      rw [Text.afterPrefix?_eq_some, hl.text, List.append_assoc]
      rfl
    rw [hp]
    dsimp only
    rw [if_pos hc]
    refine specSpan?_eq_some.mpr
      ⟨c :: b', q, p, t, ⟨rfl, hs.lead, hl.isQuote, hl.quote, hl.newline⟩, hs, ?_⟩
    simp only [spanAt, List.length_append, hlen, Span.mk.injEq]
    omega

end HashedImports.Source
