import HashedImports.Source.Mask
import Mathlib.Data.List.Basic

/-! Masking one character at a time. The state after a text is all that the rest of a text depends
on, so masked texts can be taken apart. -/

namespace HashedImports.Source

/-- `slash` comes after a slash that may begin a comment, `star` after a star that may end one, and
`escaped` after a backslash in a literal. -/
inductive State
  | code
  | slash
  | line
  | block
  | star
  | raw
  | quoted (quote : Char)
  | escaped (quote : Char)
  deriving DecidableEq

namespace State

def ofCode (c : Char) : State :=
  if c = '/' then slash
  else if c = '\x60' then raw
  else if c = '"' ∨ c = '\'' then quoted c
  else code

def step : State → Char → State
  | code, c => ofCode c
  | slash, c => if c = '/' then line else if c = '*' then block else ofCode c
  | line, c => if c = '\n' then code else line
  | block, c => if c = '*' then star else block
  | star, c => if c = '/' then code else if c = '*' then star else block
  | raw, c => if c = '\x60' then code else raw
  | quoted q, c => if c = '\\' then escaped q else if c = q ∨ c = '\n' then code else quoted q
  | escaped q, _ => quoted q

def after (s : State) (cs : List Char) : State :=
  cs.foldl step s

def InLiteral : State → Prop
  | raw => True
  | quoted _ => True
  | escaped _ => True
  | _ => False

instance (s : State) : Decidable s.InLiteral := by
  cases s <;> unfold InLiteral <;> infer_instance

@[simp] lemma after_nil (s : State) : s.after [] = s := rfl

@[simp] lemma after_cons (s : State) (c : Char) (cs : List Char) :
    s.after (c :: cs) = (s.step c).after cs := rfl

lemma after_append (s : State) (cs ds : List Char) : s.after (cs ++ ds) = (s.after cs).after ds :=
  List.foldl_append

end State

open State

def opensComment (cs : List Char) : Prop :=
  cs.head? = some '/' ∨ cs.head? = some '*'

instance (cs : List Char) : Decidable (opensComment cs) := by
  rw [opensComment]
  infer_instance

/-- What is shown of a character, in a state and before the rest of the text. -/
def shown : State → Char → List Char → Char
  | .code, c, rest => if c = '/' ∧ opensComment rest then ' ' else c
  | .slash, c, _ => if c = '/' ∨ c = '*' then ' ' else c
  | .line, c, _ => blanked c
  | .block, c, _ => blanked c
  | .star, c, _ => blanked c
  | _, c, _ => c

def maskFrom : State → List Char → List Char
  | _, [] => []
  | s, c :: cs => shown s c cs :: maskFrom (s.step c) cs

lemma maskFrom_line (cs : List Char) :
    maskFrom .line cs = (lineRest cs).1.map blanked ++ maskFrom .code (lineRest cs).2 := by
  induction cs with
  | nil => rfl
  | cons c cs ih =>
    by_cases hc : c = '\n'
    · subst hc
      rfl
    · have hl : lineRest (c :: cs) = (c :: (lineRest cs).1, (lineRest cs).2) := by
        simp [lineRest, hc]
      rw [hl, maskFrom, step, if_neg hc, ih]
      rfl

lemma maskFrom_star {cs : List Char} (h : cs.head? ≠ some '/') :
    maskFrom .star cs = maskFrom .block cs := by
  cases cs with
  | nil => rfl
  | cons c cs =>
    have hc : c ≠ '/' := by simpa using h
    simp only [maskFrom, shown, step, if_neg hc]

lemma maskFrom_block (cs : List Char) :
    maskFrom .block cs = (blockRest cs).1.map blanked ++ maskFrom .code (blockRest cs).2 := by
  fun_induction blockRest cs with
  | case1 => rfl
  | case2 cs => rfl
  | case3 c cs hno ih =>
    rw [maskFrom, step, List.map_cons, List.cons_append, ← ih]
    split
    · next hc =>
      have hh : cs.head? ≠ some '/' := by
        intro hh
        cases cs with
        | nil => simp at hh
        | cons d cs => exact hno cs hc (by rw [Option.some.inj hh])
      rw [maskFrom_star hh]
      rfl
    · rfl

lemma maskFrom_raw (cs : List Char) :
    maskFrom .raw cs = (rawRest cs).1 ++ maskFrom .code (rawRest cs).2 := by
  fun_induction rawRest cs with
  | case1 => rfl
  | case2 cs => rfl
  | case3 c cs hc ih =>
    rw [maskFrom, step, if_neg hc, ih]
    rfl

lemma maskFrom_quoted (q : Char) (cs : List Char) :
    maskFrom (.quoted q) cs = (literalRest q cs).1 ++ maskFrom .code (literalRest q cs).2 := by
  fun_induction literalRest q cs with
  | case1 => rfl
  | case2 => rfl
  | case3 c cs ih => simp [maskFrom, shown, step, ih]
  | case4 c cs hno hne hc =>
    have hb : c ≠ '\\' := by
      rintro rfl
      cases cs with
      | nil => exact hno rfl rfl
      | cons d cs => exact hne d cs rfl rfl
    rw [maskFrom, step, if_neg hb, if_pos hc]
    rfl
  | case5 c cs hno hne hc ih =>
    have hb : c ≠ '\\' := by
      rintro rfl
      cases cs with
      | nil => exact hno rfl rfl
      | cons d cs => exact hne d cs rfl rfl
    rw [maskFrom, step, if_neg hb, if_neg hc, ih]
    rfl

lemma maskFrom_slash {cs : List Char} (h : ¬ opensComment cs) :
    maskFrom .slash cs = maskFrom .code cs := by
  cases cs with
  | nil => rfl
  | cons c cs =>
    simp only [opensComment, List.head?_cons, Option.some.injEq, not_or] at h
    simp [maskFrom, shown, step, h.1, h.2]

theorem mask_eq_maskFrom (cs : List Char) : mask cs = maskFrom .code cs := by
  fun_induction mask cs with
  | case1 => rfl
  | case2 cs ih => simp [maskFrom, shown, step, ofCode, opensComment, maskFrom_line, ih]
  | case3 cs ih => simp [maskFrom, shown, step, ofCode, opensComment, maskFrom_block, ih]
  | case4 cs hl hb ih => simp [maskFrom, shown, step, ofCode, maskFrom_raw, ih]
  | case5 c cs hl hb hr hc ih =>
    have hs : c ≠ '/' := by rintro rfl; simp at hc
    simp [maskFrom, shown, step, ofCode, hs, hr, hc, maskFrom_quoted, ih]
  | case6 c cs hl hb hr hc ih =>
    by_cases hs : c = '/'
    · subst hs
      have ho : ¬ opensComment cs := by
        rintro (ho | ho)
        · obtain ⟨ds, rfl⟩ := List.head?_eq_some_iff.mp ho
          exact hl ds rfl rfl
        · obtain ⟨ds, rfl⟩ := List.head?_eq_some_iff.mp ho
          exact hb ds rfl rfl
      simp [maskFrom, shown, step, ofCode, ho, maskFrom_slash ho, ih]
    · simp [maskFrom, shown, step, ofCode, hs, hr, hc, ih]

/-! ## Taking masked texts apart -/

lemma length_maskFrom (s : State) (cs : List Char) : (maskFrom s cs).length = cs.length := by
  induction cs generalizing s with
  | nil => rfl
  | cons c cs ih => simp [maskFrom, ih]

lemma shown_append (s : State) (c : Char) (cs : List Char) {ds : List Char}
    (h : ¬ opensComment ds) : shown s c (cs ++ ds) = shown s c cs := by
  have ho : opensComment (cs ++ ds) ↔ opensComment cs := by
    cases cs with
    | nil => exact iff_of_false h (by simp [opensComment])
    | cons d cs => simp [opensComment]
  cases s <;> simp [shown, ho]

lemma maskFrom_append (s : State) (cs : List Char) {ds : List Char} (h : ¬ opensComment ds) :
    maskFrom s (cs ++ ds) = maskFrom s cs ++ maskFrom (s.after cs) ds := by
  induction cs generalizing s with
  | nil => rfl
  | cons c cs ih =>
    rw [List.cons_append, maskFrom, maskFrom, shown_append s c cs h, ih]
    rfl

lemma shown_cases (s : State) (c : Char) (rest : List Char) :
    shown s c rest = c ∨ shown s c rest = ' ' ∧ c ≠ '\n' := by
  have hb : blanked c = c ∨ blanked c = ' ' ∧ c ≠ '\n' := by
    by_cases h : c = '\n'
    · exact Or.inl ((if_pos h).trans h.symm)
    · exact Or.inr ⟨if_neg h, h⟩
  cases s with
  | code =>
    by_cases h : c = '/' ∧ opensComment rest
    · exact Or.inr ⟨if_pos h, by rw [h.1]; decide⟩
    · exact Or.inl (if_neg h)
  | slash =>
    by_cases h : c = '/' ∨ c = '*'
    · exact Or.inr ⟨if_pos h, by rcases h with rfl | rfl <;> decide⟩
    · exact Or.inl (if_neg h)
  | line => exact hb
  | block => exact hb
  | star => exact hb
  | raw => exact Or.inl rfl
  | quoted q => exact Or.inl rfl
  | escaped q => exact Or.inl rfl

lemma shown_newline (s : State) (rest : List Char) : shown s '\n' rest = '\n' :=
  (shown_cases s '\n' rest).resolve_right fun h => h.2 rfl

lemma maskFrom_newline (s : State) (cs ds : List Char) :
    maskFrom s (cs ++ '\n' :: ds) =
      maskFrom s cs ++ '\n' :: maskFrom ((s.after cs).step '\n') ds := by
  rw [maskFrom_append s cs (by simp [opensComment]), maskFrom, shown_newline]

lemma newline_not_mem_maskFrom {s : State} {cs : List Char} (h : '\n' ∉ cs) :
    '\n' ∉ maskFrom s cs := by
  induction cs generalizing s with
  | nil => simp [maskFrom]
  | cons c cs ih =>
    rw [List.mem_cons, not_or] at h
    rw [maskFrom, List.mem_cons, not_or]
    refine ⟨?_, ih h.2⟩
    rcases shown_cases s c cs with hs | ⟨hs, -⟩
    · rw [hs]
      exact h.1
    · rw [hs]
      decide

/-! ## Literals -/

def IsQuote (q : Char) : Prop :=
  q = '"' ∨ q = '\x60'

structure Fits (q : Char) (path : List Char) : Prop where
  quote : q ∉ path
  newline : '\n' ∉ path
  backslash : '\\' ∉ path

lemma IsQuote.not_opensComment {q : Char} (h : IsQuote q) (cs : List Char) :
    ¬ opensComment (q :: cs) := by
  rcases h with rfl | rfl <;> simp [opensComment]

lemma IsQuote.step_code {q : Char} (h : IsQuote q) :
    State.code.step q = .raw ∧ q = '\x60' ∨ State.code.step q = .quoted q := by
  rcases h with rfl | rfl
  · exact Or.inr rfl
  · exact Or.inl ⟨rfl, rfl⟩

lemma IsQuote.inLiteral {q : Char} (h : IsQuote q) : (State.code.step q).InLiteral := by
  rcases h with rfl | rfl <;> trivial

lemma IsQuote.shown_code {q : Char} (h : IsQuote q) (rest : List Char) :
    shown .code q rest = q := by
  rcases h with rfl | rfl <;> rfl

lemma IsQuote.shown_inside {q : Char} (h : IsQuote q) (c : Char) (rest : List Char) :
    shown (State.code.step q) c rest = c := by
  rcases h with rfl | rfl <;> rfl

lemma IsQuote.step_close {q : Char} (h : IsQuote q) : (State.code.step q).step q = .code := by
  rcases h with rfl | rfl <;> rfl

lemma IsQuote.step_inside {q c : Char} (h : IsQuote q) (hq : c ≠ q) (hn : c ≠ '\n')
    (hb : c ≠ '\\') : (State.code.step q).step c = State.code.step q := by
  rcases h.step_code with ⟨hs, rfl⟩ | hs
  · rw [hs, step, if_neg hq]
  · rw [hs, step, if_neg hb, if_neg (by simp [hq, hn])]

lemma literal_inside {q : Char} (h : IsQuote q) {path : List Char} (hf : Fits q path)
    (rest : List Char) :
    (State.code.step q).after (path ++ q :: rest) = State.code.after rest ∧
      maskFrom (State.code.step q) (path ++ q :: rest) = path ++ q :: maskFrom .code rest := by
  induction path with
  | nil => simp [maskFrom, h.shown_inside, h.step_close]
  | cons c path ih =>
    obtain ⟨hq, hn, hb⟩ := hf
    rw [List.mem_cons, not_or] at hq hn hb
    have hs := h.step_inside (Ne.symm hq.1) (Ne.symm hn.1) (Ne.symm hb.1)
    obtain ⟨ha, hm⟩ := ih ⟨hq.2, hn.2, hb.2⟩
    simp [maskFrom, h.shown_inside, hs, ha, hm]

lemma after_literal {q : Char} (h : IsQuote q) {path : List Char} (hf : Fits q path)
    (rest : List Char) :
    State.code.after (q :: (path ++ q :: rest)) = State.code.after rest :=
  (literal_inside h hf rest).1

lemma maskFrom_literal {q : Char} (h : IsQuote q) {path : List Char} (hf : Fits q path)
    (rest : List Char) :
    maskFrom .code (q :: (path ++ q :: rest)) = q :: (path ++ q :: maskFrom .code rest) := by
  rw [maskFrom, h.shown_code, (literal_inside h hf rest).2]

lemma literal_of_masked {q : Char} (h : IsQuote q) {path source masked : List Char}
    (hq : q ∉ path) (hn : '\n' ∉ path)
    (hb : ∀ u v, source = u ++ '\\' :: v → ¬ ((State.code.step q).after u).InLiteral)
    (hm : maskFrom (State.code.step q) source = path ++ q :: masked) :
    ∃ rest, source = path ++ q :: rest ∧ masked = maskFrom .code rest ∧ Fits q path := by
  induction path generalizing source with
  | nil =>
    cases source with
    | nil => simp [maskFrom] at hm
    | cons c source =>
      rw [maskFrom, h.shown_inside, List.nil_append] at hm
      obtain ⟨rfl, htail⟩ := List.cons.inj hm
      rw [h.step_close] at htail
      exact ⟨source, rfl, htail.symm, by simp, by simp, by simp⟩
  | cons d path ih =>
    cases source with
    | nil => simp [maskFrom] at hm
    | cons c source =>
      rw [List.mem_cons, not_or] at hq hn
      rw [maskFrom, h.shown_inside, List.cons_append] at hm
      obtain ⟨rfl, htail⟩ := List.cons.inj hm
      have hc : c ≠ '\\' := by
        rintro rfl
        exact hb [] source rfl h.inLiteral
      rw [h.step_inside (Ne.symm hq.1) (Ne.symm hn.1) hc] at htail
      have hb' : ∀ u v, source = u ++ '\\' :: v → ¬ ((State.code.step q).after u).InLiteral := by
        intro u v he
        have hh := hb (c :: u) v (by rw [he]; rfl)
        rwa [State.after_cons, h.step_inside (Ne.symm hq.1) (Ne.symm hn.1) hc] at hh
      obtain ⟨rest, rfl, hmask, hf⟩ := ih hq.2 hn.2 hb' htail
      refine ⟨rest, rfl, hmask, ?_, ?_, ?_⟩
      · exact fun hh => (List.mem_cons.mp hh).elim hq.1 hf.quote
      · exact fun hh => (List.mem_cons.mp hh).elim hn.1 hf.newline
      · exact fun hh => (List.mem_cons.mp hh).elim (Ne.symm hc) hf.backslash

/-! ## Before a literal -/

def Calm (cs : List Char) : State → Prop
  | .slash => opensComment cs
  | s => ¬ s.InLiteral

def IsQuiet (c : Char) : Prop :=
  c ≠ '/' ∧ c ≠ '\x60' ∧ c ≠ '"' ∧ c ≠ '\''

lemma Calm.step {s : State} {c : Char} {cs : List Char} (h : Calm (c :: cs) s)
    (hc : IsQuiet (shown s c cs)) : Calm cs (s.step c) := by
  obtain ⟨hs, hr, hd, hq⟩ := hc
  cases s with
  | code =>
    by_cases hslash : c = '/'
    · subst hslash
      by_contra hno
      have ho : ¬ opensComment cs := hno
      simp [shown, ho] at hs
    · have hshown : shown .code c cs = c := by simp [shown, hslash]
      rw [hshown] at hr hd hq
      have hstep : State.code.step c = .code := by simp [State.step, ofCode, hslash, hr, hd, hq]
      rw [hstep]
      exact id
  | slash =>
    have ho : c = '/' ∨ c = '*' := by simpa [Calm, opensComment] using h
    rcases ho with rfl | rfl <;> exact id
  | line =>
    by_cases hn : c = '\n'
    · rw [State.step, if_pos hn]
      exact id
    · rw [State.step, if_neg hn]
      exact id
  | block =>
    rw [State.step]
    split <;> exact id
  | star =>
    rw [State.step]
    split
    · exact id
    · split <;> exact id
  | raw => exact (h trivial).elim
  | quoted q => exact (h trivial).elim
  | escaped q => exact (h trivial).elim

lemma Calm.of_shown {s : State} {c q : Char} {cs : List Char} (h : Calm (c :: cs) s)
    (hq : IsQuote q) (hs : shown s c cs = q) : c = q ∧ s = .code := by
  have hspace : q ≠ ' ' := by rcases hq with rfl | rfl <;> decide
  have hblank : ∀ d, blanked d ≠ q := by
    intro d hd
    rw [blanked] at hd
    split at hd
    · rcases hq with rfl | rfl <;> simp at hd
    · exact hspace hd.symm
  cases s with
  | code =>
    rcases shown_cases .code c cs with hh | ⟨hh, -⟩
    · exact ⟨hh.symm.trans hs, rfl⟩
    · exact (hspace (hs.symm.trans hh)).elim
  | slash =>
    have ho : c = '/' ∨ c = '*' := by simpa [Calm, opensComment] using h
    rw [shown, if_pos ho] at hs
    exact (hspace hs.symm).elim
  | line => exact (hblank c hs).elim
  | block => exact (hblank c hs).elim
  | star => exact (hblank c hs).elim
  | raw => exact (h trivial).elim
  | quoted q => exact (h trivial).elim
  | escaped q => exact (h trivial).elim

lemma code_of_masked_quote {s : State} {source before rest : List Char} {q : Char}
    (h : Calm source s) (hq : IsQuote q) (hb : ∀ c ∈ before, IsQuiet c)
    (hm : maskFrom s source = before ++ q :: rest) :
    ∃ b source', source = b ++ q :: source' ∧ maskFrom s b = before ∧ s.after b = .code ∧
      maskFrom (State.code.step q) source' = rest := by
  induction before generalizing s source with
  | nil =>
    cases source with
    | nil => simp [maskFrom] at hm
    | cons c source =>
      rw [maskFrom, List.nil_append] at hm
      obtain ⟨hs, hrest⟩ := List.cons.inj hm
      obtain ⟨rfl, rfl⟩ := h.of_shown hq hs
      exact ⟨[], source, rfl, rfl, rfl, hrest⟩
  | cons e before ih =>
    cases source with
    | nil => simp [maskFrom] at hm
    | cons c source =>
      rw [maskFrom, List.cons_append] at hm
      obtain ⟨he, hrest⟩ := List.cons.inj hm
      have hquiet : IsQuiet (shown s c source) := he ▸ hb e List.mem_cons_self
      obtain ⟨b, source', rfl, hmask, hafter, htail⟩ :=
        ih (h.step hquiet) (fun d hd => hb d (List.mem_cons_of_mem _ hd)) hrest
      refine ⟨c :: b, source', rfl, ?_, hafter, htail⟩
      rw [maskFrom, hmask, ← he, List.cons.injEq]
      refine ⟨?_, rfl⟩
      rw [shown_append s c b (hq.not_opensComment source')]

end HashedImports.Source
