import HashedImports.Proofs.Source.Automaton

namespace HashedImports.Source

inductive Region
  | code
  | line
  | block
  | raw
  | literal (quote : Char)
  deriving DecidableEq, Repr

/-- Where each character of a text stands that begins in a region. Comments do not nest, a line
comment ends before the line feed, and a literal ends with its quotation mark or the line, unless
that is escaped. Whatever is not closed goes on to the end. -/
def regions : Region → List Char → List Region
  | _, [] => []
  | .code, '/' :: '/' :: cs => .line :: .line :: regions .line cs
  | .code, '/' :: '*' :: cs => .block :: .block :: regions .block cs
  | .code, c :: cs =>
    if c = '\x60' then .raw :: regions .raw cs
    else if c = '"' ∨ c = '\'' then .literal c :: regions (.literal c) cs
    else .code :: regions .code cs
  | .line, c :: cs => if c = '\n' then .code :: regions .code cs else .line :: regions .line cs
  | .block, '*' :: '/' :: cs => .block :: .block :: regions .code cs
  | .block, _ :: cs => .block :: regions .block cs
  | .raw, c :: cs => .raw :: regions (if c = '\x60' then .code else .raw) cs
  | .literal q, '\\' :: _ :: cs => .literal q :: .literal q :: regions (.literal q) cs
  | .literal q, c :: cs =>
    .literal q :: regions (if c = q ∨ c = '\n' then .code else .literal q) cs

namespace Region

def isComment : Region → Bool
  | line => true
  | block => true
  | _ => false

def shown (r : Region) (c : Char) : Char :=
  if r.isComment then blanked c else c

def state : Region → State
  | code => .code
  | line => .line
  | block => .block
  | raw => .raw
  | literal q => .quoted q

end Region

def State.inComment : State → Char → List Char → Bool
  | code, c, rest => c = '/' ∧ opensComment rest
  | slash, c, _ => c = '/' ∨ c = '*'
  | line, c, _ => c ≠ '\n'
  | block, _, _ => true
  | star, _, _ => true
  | _, _, _ => false

def inComments : State → List Char → List Bool
  | _, [] => []
  | s, c :: cs => s.inComment c cs :: inComments (s.step c) cs

lemma length_inComments (s : State) (cs : List Char) : (inComments s cs).length = cs.length := by
  induction cs generalizing s with
  | nil => rfl
  | cons c cs ih => simp [inComments, ih]

lemma shown_eq_ite (s : State) (c : Char) (rest : List Char) :
    shown s c rest = if s.inComment c rest then blanked c else c := by
  cases s with
  | code =>
    by_cases h : c = '/' ∧ opensComment rest
    · simp [shown, State.inComment, h, blanked]
    · rw [shown, if_neg h, State.inComment, if_neg (by simpa using h)]
  | slash =>
    by_cases h : c = '/' ∨ c = '*'
    · rw [shown, if_pos h, State.inComment, if_pos (by simpa using h)]
      rcases h with rfl | rfl <;> rfl
    · rw [shown, if_neg h, State.inComment, if_neg (by simpa using h)]
  | line => by_cases h : c = '\n' <;> simp [shown, State.inComment, h, blanked]
  | block => rfl
  | star => rfl
  | raw => rfl
  | quoted q => rfl
  | escaped q => rfl

lemma maskFrom_eq_zipWith (s : State) (cs : List Char) :
    maskFrom s cs =
      List.zipWith (fun b c => if b then blanked c else c) (inComments s cs) cs := by
  induction cs generalizing s with
  | nil => rfl
  | cons c cs ih => rw [maskFrom, inComments, List.zipWith_cons_cons, shown_eq_ite, ih]

lemma inComments_slash {cs : List Char} (h : ¬ opensComment cs) :
    inComments .slash cs = inComments .code cs := by
  cases cs with
  | nil => rfl
  | cons c cs =>
    simp only [opensComment, List.head?_cons, Option.some.injEq, not_or] at h
    simp [inComments, State.inComment, State.step, h.1, h.2]

lemma inComments_star {cs : List Char} (h : cs.head? ≠ some '/') :
    inComments .star cs = inComments .block cs := by
  cases cs with
  | nil => rfl
  | cons c cs =>
    have hc : c ≠ '/' := by simpa using h
    simp only [inComments, State.inComment, State.step, if_neg hc]

lemma inComments_block_step {c : Char} {cs : List Char}
    (h : ∀ ds, c = '*' → cs = '/' :: ds → False) :
    inComments (State.block.step c) cs = inComments .block cs := by
  rw [State.step]
  split
  · next hc =>
    refine inComments_star fun hhead => ?_
    obtain ⟨ds, rfl⟩ := List.head?_eq_some_iff.mp hhead
    exact h ds hc rfl
  · rfl

lemma not_opensComment {c : Char} {cs : List Char} (hc : c = '/')
    (hline : ∀ ds, c = '/' → cs = '/' :: ds → False)
    (hblock : ∀ ds, c = '/' → cs = '*' :: ds → False) : ¬ opensComment cs := by
  rintro (h | h)
  · obtain ⟨ds, rfl⟩ := List.head?_eq_some_iff.mp h
    exact hline ds hc rfl
  · obtain ⟨ds, rfl⟩ := List.head?_eq_some_iff.mp h
    exact hblock ds hc rfl

theorem inComments_state (r : Region) (cs : List Char) :
    inComments r.state cs = (regions r cs).map Region.isComment := by
  fun_induction regions r cs with
  | case1 => rfl
  | case2 cs ih => exact congrArg (true :: true :: ·) ih
  | case3 cs ih => exact congrArg (true :: true :: ·) ih
  | case4 cs hline hblock ih => exact congrArg (false :: ·) ih
  | case5 c cs hline hblock hraw hquote ih =>
    have hslash : c ≠ '/' := by
      rintro rfl
      simp at hquote
    have hstep : State.code.step c = .quoted c := by
      simp [State.step, State.ofCode, hslash, hraw, hquote]
    rw [List.map_cons, ← ih, Region.state, inComments, hstep]
    simp [State.inComment, hslash, Region.isComment, Region.state]
  | case6 c cs hline hblock hraw hquote ih =>
    by_cases hc : c = '/'
    · have ho := not_opensComment hc hline hblock
      have hstep : State.code.step c = .slash := by simp [State.step, State.ofCode, hc]
      rw [List.map_cons, ← ih, Region.state, inComments, hstep, inComments_slash ho]
      simp [State.inComment, ho, Region.isComment]
    · have hstep : State.code.step c = .code := by
        simp [State.step, State.ofCode, hc, hraw, hquote]
      rw [List.map_cons, ← ih, Region.state, inComments, hstep]
      simp [State.inComment, hc, Region.isComment]
  | case7 cs ih => exact congrArg (false :: ·) ih
  | case8 c cs hc ih =>
    rw [List.map_cons, ← ih, Region.state, inComments, State.step, if_neg hc]
    simp [State.inComment, hc, Region.isComment]
  | case9 cs ih => exact congrArg (true :: true :: ·) ih
  | case10 c cs hend ih =>
    rw [List.map_cons, ← ih, Region.state, inComments, inComments_block_step hend]
    rfl
  | case11 c cs ih =>
    rw [List.map_cons, ← ih, Region.state, inComments, State.step]
    split <;> rfl
  | case12 q c cs ih => exact congrArg (false :: false :: ·) ih
  | case13 q c cs hlast ih =>
    by_cases hc : c = '\\'
    · obtain rfl : cs = [] := by
        cases cs with
        | nil => rfl
        | cons d cs => exact (hlast d cs hc rfl).elim
      simp [inComments, Region.state, State.inComment, regions, Region.isComment]
    · rw [List.map_cons, ← ih, Region.state, inComments, State.step, if_neg hc]
      split <;> rfl

lemma length_regions (r : Region) (cs : List Char) : (regions r cs).length = cs.length := by
  rw [← List.length_map Region.isComment, ← inComments_state, length_inComments]

theorem mask_eq_zipWith (source : List Char) :
    mask source = List.zipWith Region.shown (regions .code source) source := by
  rw [mask_eq_maskFrom, maskFrom_eq_zipWith]
  exact (congrArg (List.zipWith _ · source) (inComments_state .code source)).trans
    List.zipWith_map_left

lemma getElem?_mask {source : List Char} {n : Nat} {r : Region}
    (hr : (regions .code source)[n]? = some r) :
    (mask source)[n]? = source[n]?.map r.shown := by
  rw [mask_eq_zipWith, List.getElem?_zipWith, hr]
  cases source[n]? <;> rfl

lemma Region.shown_eq_newline_iff {r : Region} {c : Char} : r.shown c = '\n' ↔ c = '\n' := by
  rw [Region.shown, blanked]
  split
  · split <;> simp_all
  · rfl

lemma getElem?_mask_eq_newline_iff {source : List Char} {n : Nat} :
    (mask source)[n]? = some '\n' ↔ source[n]? = some '\n' := by
  cases hr : (regions .code source)[n]? with
  | none =>
    have hn := List.getElem?_eq_none_iff.mp hr
    rw [length_regions] at hn
    have hm : (mask source).length ≤ n := by rwa [mask_eq_maskFrom, length_maskFrom]
    rw [List.getElem?_eq_none hn, List.getElem?_eq_none hm]
  | some r =>
    rw [getElem?_mask hr]
    cases source[n]? with
    | none => simp
    | some c => simp [Region.shown_eq_newline_iff]

theorem mask_follows_grammar (source : List Char) :
    mask source = maskFrom .code source ∧
      mask source = List.zipWith Region.shown (regions .code source) source ∧
      (regions .code source).length = source.length ∧ (mask source).length = source.length ∧
      (∀ n : Nat, (mask source)[n]? = some '\n' ↔ source[n]? = some '\n') ∧
      ∀ (n : Nat) (r : Region), (regions .code source)[n]? = some r →
        (r.isComment = false → (mask source)[n]? = source[n]?) ∧
          (r.isComment = true → ∀ c, source[n]? = some c → c ≠ '\n' →
            (mask source)[n]? = some ' ') := by
  refine ⟨mask_eq_maskFrom source, mask_eq_zipWith source, length_regions .code source,
    by rw [mask_eq_maskFrom, length_maskFrom], fun n => getElem?_mask_eq_newline_iff,
    fun n r hr => ⟨fun hcode => ?_, fun hcomment c hc hne => ?_⟩⟩
  · have hshown : r.shown = id := funext fun c => by rw [Region.shown, hcode]; rfl
    rw [getElem?_mask hr, hshown, Option.map_id_fun, id]
  · rw [getElem?_mask hr, hc, Option.map_some, Region.shown, if_pos hcomment, blanked,
      if_neg hne]

def tangledText : List Char :=
  "a/*/\x60\n*/'\\'/*'//\"\n\"//\\\n/*\x60".toList

theorem tangled_text_masked :
    mask tangledText = "a    \n  '\\'/*'   \n\"//\\\n/*\x60".toList ∧
      (mask tangledText)[3]? = some ' ' ∧ (mask tangledText)[24]? = tangledText[24]? := by
  obtain ⟨-, hmask, -, -, -, hplaces⟩ := mask_follows_grammar tangledText
  exact ⟨hmask.trans (by decide), (hplaces 3 .block (by decide)).2 rfl '/' rfl (by decide),
    (hplaces 24 (.literal '"') (by decide)).1 rfl⟩

end HashedImports.Source
