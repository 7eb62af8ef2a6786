import HashedImports.Proofs.Source.Conventional
import HashedImports.Proofs.Source.Occurrences

/-! The text from the first declaration on. If the declaration begins a line, nothing in it is read.
After anything else on its line a literal in it may be read as imports. -/

namespace HashedImports.Source

open Text (isWord)

def Declaration.text (d : Declaration) : List Char :=
  d.word ++ d.rest

def EndsLine (cs : List Char) : Prop :=
  ∀ c ∈ cs.getLast?, c = '\n'

/-! ## The last line of a masked text -/

lemma exists_maskFrom_concat (s : State) (u : List Char) (c : Char) :
    ∃ v d, maskFrom s (u ++ [c]) = v ++ [d] ∧ (d = c ∨ d = ' ' ∧ c ≠ '\n') := by
  induction u generalizing s with
  | nil => exact ⟨[], shown s c [], rfl, shown_cases s c []⟩
  | cons e u ih =>
    obtain ⟨v, d, hv, hd⟩ := ih (s.step e)
    exact ⟨shown s e (u ++ [c]) :: v, d, by rw [List.cons_append, maskFrom, hv]; rfl, hd⟩

lemma endsLine_maskFrom_iff (s : State) (cs : List Char) :
    EndsLine (maskFrom s cs) ↔ EndsLine cs := by
  rcases List.eq_nil_or_concat' cs with rfl | ⟨u, c, rfl⟩
  · exact Iff.rfl
  · obtain ⟨v, d, hv, hd⟩ := exists_maskFrom_concat s u c
    have hlast : ∀ (w : List Char) (e : Char), EndsLine (w ++ [e]) ↔ e = '\n' := by
      simp [EndsLine]
    rw [hv, hlast, hlast]
    rcases hd with rfl | ⟨rfl, hc⟩
    · exact Iff.rfl
    · exact iff_of_false (by decide) hc

lemma isWord_last_maskFrom {cs : List Char} (h : ∀ c ∈ cs.getLast?, isWord c = false) (s : State) :
    ∀ c ∈ (maskFrom s cs).getLast?, isWord c = false := by
  rcases List.eq_nil_or_concat' cs with rfl | ⟨u, c, rfl⟩
  · exact h
  · obtain ⟨v, d, hv, hd⟩ := exists_maskFrom_concat s u c
    have hc : isWord c = false := h c (by simp)
    intro e he
    obtain rfl : d = e := by simpa [hv] using he
    rcases hd with rfl | ⟨rfl, -⟩
    · exact hc
    · decide

lemma endsLine_ended_append_iff (xs : List (List Char)) {l : List Char} (hl : '\n' ∉ l) :
    EndsLine (ended xs ++ l) ↔ l = [] := by
  constructor
  · intro h
    rcases List.eq_nil_or_concat' l with rfl | ⟨u, c, rfl⟩
    · rfl
    · rw [← List.append_assoc] at h
      obtain rfl := h c (by simp)
      simp at hl
  · rintro rfl
    rcases List.eq_nil_or_concat' xs with rfl | ⟨ys, y, rfl⟩
    · simp [EndsLine]
    · simp [EndsLine]

lemma ended_append_eq_unlines (xs : List (List Char)) (l : List Char) :
    ended xs ++ l = unlines (xs ++ [l]) := by
  rw [unlines_append xs (by simp)]
  rfl

/-! ## What lies in the first part of a text -/

lemma importAt_append {front : List Char} {s : Span} (hs : s.stop ≤ front.length)
    (rest : List Char) : importAt (front ++ rest) s = importAt front s := by
  by_cases hle : s.start ≤ front.length
  · have htake : ((front ++ rest).drop s.start).take (s.stop - s.start) =
        (front.drop s.start).take (s.stop - s.start) := by
      rw [List.drop_append_of_le_length hle,
        List.take_append_of_le_length (by rw [List.length_drop]; omega)]
    rw [importAt, importAt, htake]
  · rw [importAt, importAt, show s.stop - s.start = 0 by omega, List.take_zero, List.take_zero]

lemma splice_append {front : List Char} {es : List Edit}
    (h : ∀ e ∈ es, e.span.start ≤ e.span.stop ∧ e.span.stop ≤ front.length) {last : Nat}
    (hlast : last ≤ front.length) (rest : List Char) :
    splice (front ++ rest) last es = splice front last es ++ rest := by
  induction es generalizing last with
  | nil => exact List.drop_append_of_le_length hlast
  | cons e es ih =>
    obtain ⟨⟨hstart, hstop⟩, hes⟩ := List.forall_mem_cons.mp h
    rw [splice, splice, ih hes hstop, List.drop_append_of_le_length hlast,
      List.take_append_of_le_length (by rw [List.length_drop]; omega), List.append_assoc _ _ rest]

lemma exists_import_of_edit {is : List Import} {answers : List String} {e : Edit}
    (h : e ∈ editsFor is answers) : ∃ i ∈ is, e.span = i.span := by
  obtain ⟨⟨i, answer⟩, hm, he⟩ := List.mem_filterMap.mp h
  refine ⟨i, (List.of_mem_zip hm).1, ?_⟩
  simp only [editFor?] at he
  split at he
  · cases he
  · rw [← Option.some.inj he]

lemma replace_append (front rest : List Char) (answers : List String) :
    replace (front ++ rest) (imports front) answers =
      ⟨(replace front (imports front) answers).text ++ rest,
        (replace front (imports front) answers).count⟩ := by
  have hedits : ∀ e ∈ editsFor (imports front) answers,
      e.span.start ≤ e.span.stop ∧ e.span.stop ≤ front.length := by
    intro e he
    obtain ⟨i, hi, hspan⟩ := exists_import_of_edit he
    obtain ⟨s, hs, rfl⟩ := List.mem_map.mp hi
    obtain ⟨hlt, hle⟩ := within_source hs
    rw [hspan]
    exact ⟨Nat.le_of_lt hlt, hle⟩
  rw [replace_eq, replace_eq, splice_append hedits (Nat.zero_le _)]

/-! ## Declarations that begin a line -/

lemma headerLines_append_declaration (xs : List (List Char)) {y : List Char}
    (hy : startsDeclaration y = true) (ys : List (List Char)) :
    headerLines (xs ++ y :: ys) = headerLines (xs ++ [[]]) := by
  induction xs with
  | nil =>
    rw [List.nil_append, List.nil_append, headerLines, if_pos hy]
    rfl
  | cons x xs ih =>
    rw [List.cons_append, List.cons_append, headerLines, headerLines, ih]

section

variable {front : List Char} (hcode : State.code.after front = .code)

include hcode

lemma mask_append (rest : List Char) :
    mask (front ++ rest) = mask front ++ maskFrom .code rest := by
  rw [mask_eq_maskFrom, mask_eq_maskFrom, maskFrom_append_of_code hcode]

lemma header_append (hline : EndsLine front) (d : Declaration) :
    header (mask (front ++ d.text)) = header (mask front) := by
  obtain ⟨xs, l, hxs, hl, hu⟩ := exists_ended (mask front)
  obtain ⟨y, ys, hys, hu'⟩ := exists_unlines (maskFrom .code d.text)
  have hnil : l = [] := by
    rw [← endsLine_ended_append_iff xs hl, ← hxs, mask_eq_maskFrom, endsLine_maskFrom_iff]
    exact hline
  have hdecl : startsDeclaration y = true := by
    rw [← startsDeclaration_unlines y ys, ← hys, Declaration.text, startsDeclaration_masked]
  rw [hnil] at hxs
  have hfront : mask front = unlines (xs ++ [[]]) := hxs.trans (ended_append_eq_unlines xs [])
  have hwhole : mask (front ++ d.text) = unlines (xs ++ y :: ys) := by
    rw [mask_append hcode, hxs, hys, List.append_nil, unlines_append xs (by simp)]
  rw [hwhole, hfront, header_unlines (by simp) (List.forall_mem_append.mpr ⟨hu, hu'⟩),
    header_unlines (by simp) (List.forall_mem_append.mpr ⟨hu, by simp⟩),
    headerLines_append_declaration xs hdecl]

lemma imports_append (hline : EndsLine front) (d : Declaration) :
    imports (front ++ d.text) = imports front := by
  have hspans : importSpans (mask (front ++ d.text)) = importSpans (mask front) := by
    rw [importSpans, header_append hcode hline, importSpans]
  rw [imports, imports, hspans]
  exact List.map_congr_left fun s hs => importAt_append (within_source hs).2 d.text

lemma redirectM_append (hline : EndsLine front) (d : Declaration) {m : Type → Type} [Monad m]
    (lookup : String → m String) : redirectM lookup (front ++ d.text) = (do
      let paths ← (imports front).mapM fun i => lookup i.path
      let r := replace front (imports front) paths
      return ⟨r.text ++ d.text, r.count⟩) := by
  rw [redirectM]
  dsimp only
  rw [imports_append hcode hline]
  congr 1
  funext paths
  rw [replace_append]

end

/-! ## Declarations that come after something -/

lemma startsDeclaration_append_of_not_word {x : List Char} (hx : x ≠ [])
    (hword : ∀ c ∈ x.getLast?, isWord c = false) (v : List Char) :
    startsDeclaration (x ++ v) = startsDeclaration x := by
  obtain ⟨u, c, rfl⟩ := (List.eq_nil_or_concat' x).resolve_left hx
  have hc : isWord c = false := hword c (by simp)
  have hwords : (declarationWords.all fun w => w.all isWord) = true := by decide
  have hw : ∀ w ∈ declarationWords, c ∉ w := by
    intro w hw hm
    have hh := List.all_eq_true.mp (List.all_eq_true.mp hwords w hw) c hm
    simp [hc] at hh
  rw [List.append_assoc, List.singleton_append, startsDeclaration_append hw hc,
    startsDeclaration_append hw hc]

lemma forall_linesOf_iff {xs : List (List Char)} (hne : xs ≠ []) (hu : Unbroken xs) :
    (∀ l ∈ linesOf (unlines xs), startsDeclaration l.rest = false) ↔
      ∀ x ∈ xs, startsDeclaration x = false := by
  have hlines : ∀ o, (∀ l ∈ linesUp o xs, startsDeclaration l.rest = false) ↔
      ∀ x ∈ xs, startsDeclaration x = false := by
    clear hne hu
    induction xs with
    | nil => simp [linesUp]
    | cons x xs ih =>
      intro o
      rw [linesUp, List.forall_mem_cons, List.forall_mem_cons, ih, startsDeclaration_unlines]
  rw [linesOf_unlines hne hu, hlines]

lemma header_of_undeclared {cs : List Char}
    (h : ∀ l ∈ linesOf cs, startsDeclaration l.rest = false) : header cs = cs := by
  have hnone : (linesOf cs).find? (fun l => startsDeclaration l.rest) = none := by
    rw [List.find?_eq_none]
    intro l hl
    simp [h l hl]
  rw [header, hnone]

lemma mem_linesOf (a b : List Char) : ⟨a.length + 1, b⟩ ∈ linesOf (a ++ '\n' :: b) := by
  have hafter : ∀ o, ⟨o + a.length + 1, b⟩ ∈ linesAfter o (a ++ '\n' :: b) := by
    induction a with
    | nil => simp [linesAfter]
    | cons c a ih =>
      intro o
      have hh := ih (o + 1)
      rw [Nat.add_assoc o 1, Nat.add_comm 1] at hh
      rw [List.cons_append, linesAfter]
      split
      · exact List.mem_cons_of_mem _ hh
      · exact hh
  have hh := hafter 0
  rw [Nat.zero_add] at hh
  exact List.mem_cons_of_mem _ hh

lemma undeclared_append {cs : List Char} (hline : ¬ EndsLine cs)
    (hword : ∀ c ∈ cs.getLast?, isWord c = false)
    (hcs : ∀ l ∈ linesOf cs, startsDeclaration l.rest = false) {y : List Char}
    {ys : List (List Char)} (hu : Unbroken (y :: ys))
    (hys : ∀ x ∈ ys, startsDeclaration x = false) :
    ∀ l ∈ linesOf (cs ++ unlines (y :: ys)), startsDeclaration l.rest = false := by
  obtain ⟨xs, l, rfl, hl, hxs⟩ := exists_ended cs
  rw [endsLine_ended_append_iff xs hl] at hline
  rw [List.getLast?_append_of_ne_nil _ hline] at hword
  rw [ended_append_eq_unlines, forall_linesOf_iff (by simp)
    (List.forall_mem_append.mpr ⟨hxs, by simpa⟩), List.forall_mem_append] at hcs
  have hlong : ended xs ++ l ++ unlines (y :: ys) = unlines (xs ++ (l ++ y) :: ys) := by
    rw [unlines_append xs (by simp), unlines_eq_restText, unlines_eq_restText, List.append_assoc,
      List.append_assoc]
  have hly : '\n' ∉ l ++ y := by
    rw [List.mem_append, not_or]
    exact ⟨hl, hu y List.mem_cons_self⟩
  rw [hlong, forall_linesOf_iff (by simp)
    (List.forall_mem_append.mpr ⟨hxs, List.forall_mem_cons.mpr ⟨hly, hu.tail⟩⟩)]
  refine List.forall_mem_append.mpr ⟨hcs.1, List.forall_mem_cons.mpr ⟨?_, hys⟩⟩
  rw [startsDeclaration_append_of_not_word hline hword]
  exact hcs.2 l (by simp)

def deceptive : Declaration :=
  ⟨"var".toList, " s = `\nimport \"b\"\n`\n".toList, by decide, by simp; decide⟩

lemma exists_import_of_deceptive {front : List Char} (hcode : State.code.after front = .code)
    (hheader : ∀ l ∈ linesOf (mask front), startsDeclaration l.rest = false)
    (hword : ∀ c ∈ front.getLast?, isWord c = false) (hline : ¬ EndsLine front) :
    ∃ i ∈ imports (front ++ deceptive.text), front.length ≤ i.span.start := by
  let opening := "var s = `".toList
  let more := "import \"b\"\n`\n".toList
  let o := (mask front ++ opening).length + 1
  have hmask : mask (front ++ deceptive.text) = mask front ++ deceptive.text := by
    rw [mask_append hcode]
    rfl
  have hlines : deceptive.text = unlines [opening, "import \"b\"".toList, ['\x60'], []] := rfl
  have hwhole : header (mask (front ++ deceptive.text)) = mask (front ++ deceptive.text) := by
    rw [hmask, hlines]
    refine header_of_undeclared (undeclared_append ?_ ?_ hheader ?_ ?_)
    · rwa [mask_eq_maskFrom, endsLine_maskFrom_iff]
    · rw [mask_eq_maskFrom]
      exact isWord_last_maskFrom hword .code
    · simp only [Unbroken]
      decide
    · decide
  have hread : ⟨o, more⟩ ∈ linesOf (mask (front ++ deceptive.text)) := by
    have hsplit : mask front ++ deceptive.text = mask front ++ opening ++ '\n' :: more := by
      rw [List.append_assoc]
      rfl
    rw [hmask, hsplit]
    exact mem_linesOf _ more
  have hspan : ⟨o + 7, o + 7 + 3⟩ ∈ importSpans (mask (front ++ deceptive.text)) := by
    rw [importSpans, hwhole]
    exact List.mem_mergeSort.mpr (List.mem_append_right _ (List.mem_filterMap.mpr
      ⟨_, hread, rfl⟩))
  refine ⟨_, List.mem_map_of_mem hspan, ?_⟩
  have hlen : (mask front).length = front.length := by rw [mask_eq_maskFrom, length_maskFrom]
  have ho : o = (mask front).length + opening.length + 1 := by rw [← List.length_append]
  show front.length ≤ o + 7
  omega

theorem declarations_kept_at_line_start {front : List Char}
    (hcode : State.code.after front = .code) :
    (EndsLine front → ∀ d : Declaration, imports (front ++ d.text) = imports front ∧
      ∀ (m : Type → Type) [Monad m] (lookup : String → m String),
        redirectM lookup (front ++ d.text) = (do
          let paths ← (imports front).mapM fun i => lookup i.path
          let r := replace front (imports front) paths
          return ⟨r.text ++ d.text, r.count⟩)) ∧
    ((∀ l ∈ linesOf (mask front), startsDeclaration l.rest = false) →
      (∀ c ∈ front.getLast?, isWord c = false) →
      (∀ d : Declaration, ∀ i ∈ imports (front ++ d.text), i.span.stop ≤ front.length) →
      EndsLine front) := by
  refine ⟨fun hline d => ⟨imports_append hcode hline d, fun m _ lookup => ?_⟩, ?_⟩
  · exact redirectM_append hcode hline d lookup
  · intro hheader hword hkept
    by_contra hline
    obtain ⟨i, hi, hstart⟩ := exists_import_of_deceptive hcode hheader hword hline
    obtain ⟨s, hs, rfl⟩ := List.mem_map.mp hi
    have hstop : s.stop ≤ front.length := hkept deceptive _ hi
    have hlt := (within_source hs).1
    have hle : front.length ≤ s.start := hstart
    omega

theorem deceptive_declaration_kept :
    (imports ("import \"a\"\n".toList ++ deceptive.text)).map (·.path) = ["a"] ∧
      ¬ ∀ d : Declaration, ∀ i ∈ imports ("package p; ".toList ++ d.text), i.span.stop ≤ 11 := by
  have hbegins : EndsLine "import \"a\"\n".toList := by simp [EndsLine]
  have hfollows : ¬ EndsLine "package p; ".toList := by simp [EndsLine]
  have himport : State.code.after "import \"a\"\n".toList = .code := by decide
  have hpackage : State.code.after "package p; ".toList = .code := by decide
  have hkept := (declarations_kept_at_line_start himport).1 hbegins deceptive
  have hread := (declarations_kept_at_line_start hpackage).2
  have hword : ∀ c ∈ "package p; ".toList.getLast?, isWord c = false := by
    simp
    decide
  refine ⟨?_, fun hd => hfollows (hread ?_ hword hd)⟩
  · rw [hkept.1, imports, mask_eq_maskFrom]
    decide +kernel
  · rw [mask_eq_maskFrom]
    decide

lemma importSpans_indented :
    importSpans (mask ("package p\n ".toList ++ deceptive.text)) = [⟨28, 31⟩] := by
  rw [mask_eq_maskFrom]
  decide +kernel

theorem indented_declaration_redirected :
    let front := "package p\n ".toList
    State.code.after front = .code ∧ (∀ c ∈ front.getLast?, isWord c = false) ∧
      (imports (front ++ deceptive.text)).map (·.path) = ["b"] ∧
      (redirect (fun path => if path = "b" then "c" else path) (front ++ deceptive.text)).text =
        "package p\n var s = `\nimport \"c\"\n`\n".toList := by
  refine ⟨by decide, ?_, ?_, ?_⟩
  · simp
    decide
  · rw [imports, importSpans_indented]
    decide +kernel
  · rw [redirect, imports, importSpans_indented]
    decide +kernel

end HashedImports.Source
