import HashedImports.Proofs.Source.Blocks
import HashedImports.Source.Redirect
import Mathlib.Data.List.Forall2

/-! A source text as rows: its lines, with the literals of its imports taken apart. Every text has
rows, and they tell where the imports stand. -/

namespace HashedImports.Source

def State.next (s : State) (x : List Char) : State :=
  (s.after x).step '\n'

def maskLines : State → List (List Char) → List (List Char)
  | _, [] => []
  | s, x :: xs => maskFrom s x :: maskLines (s.next x) xs

lemma maskLines_ne_nil (s : State) {xs : List (List Char)} (h : xs ≠ []) :
    maskLines s xs ≠ [] := by
  cases xs with
  | nil => exact (h rfl).elim
  | cons x xs => simp [maskLines]

lemma maskFrom_unlines (s : State) (xs : List (List Char)) :
    maskFrom s (unlines xs) = unlines (maskLines s xs) := by
  induction xs generalizing s with
  | nil => rfl
  | cons x xs ih =>
    cases xs with
    | nil => rfl
    | cons y ys =>
      rw [unlines_cons x (by simp), maskLines, unlines_cons _ (maskLines_ne_nil _ (by simp)),
        maskFrom_newline, ih]
      rfl

lemma unbroken_maskLines {s : State} {xs : List (List Char)} (h : Unbroken xs) :
    Unbroken (maskLines s xs) := by
  induction xs generalizing s with
  | nil => exact h
  | cons x xs ih =>
    intro y hy
    rcases List.mem_cons.mp hy with rfl | hy
    · exact newline_not_mem_maskFrom (h x List.mem_cons_self)
    · exact ih h.tail y hy

/-- A line with the literal of its import, if it has one, and how many times that is found again. -/
inductive Row
  | plain (text : List Char)
  | importing (again : Nat) (before : List Char) (quote : Char) (path rest : List Char)

def literal (q : Char) (path : List Char) : List Char :=
  q :: path ++ [q]

def repeated (again : Nat) (q : Char) (old new : List Char) : List Char :=
  if new = old then [] else (List.replicate again (literal q new)).flatten

namespace Row

def text : Row → List Char
  | plain x => x
  | importing _ b q p t => b ++ q :: (p ++ q :: t)

def spans (o : Nat) : Row → List Span
  | plain _ => []
  | importing n b _ p _ => List.replicate (n + 1) (spanAt o b p)

def imports (o : Nat) : Row → List Import
  | plain _ => []
  | importing n b q p _ => List.replicate (n + 1) ⟨spanAt o b p, q, String.ofList p⟩

def edit (f : String → String) : Row → Row
  | plain x => plain x
  | importing n b q p t =>
    let new := (f (String.ofList p)).toList
    importing n b q new (repeated n q p new ++ t)

def IsPlain (r : Row) : Prop :=
  ∃ x, r = plain x

def Stands (s : State) : Row → Prop
  | plain _ => True
  | importing _ b q p _ => s.after b = .code ∧ IsQuote q ∧ Fits q p ∧
      ∀ c ∈ maskFrom s b, isLead c = true

def Takes (f : String → String) : Row → Prop
  | plain _ => True
  | importing _ _ q p _ => Fits q (f (String.ofList p)).toList

def IsSingle : Row → Prop
  | plain _ => True
  | importing n _ _ _ _ => n = 0

end Row

/-- What is found in each line of a masked text is the import of its row, up to the line that ends
the header. -/
inductive Scans : State → List Bool → List Row → Prop
  | done {s flags} : Scans s flags []
  | line {s flag flags r rs} : startsDeclaration (maskFrom s r.text) = false →
      (∀ o, lineSpans flag o (maskFrom s r.text) = r.spans o) → Scans (s.next r.text) flags rs →
      Scans s (flag :: flags) (r :: rs)
  | declaration {s flags r rs} : startsDeclaration (maskFrom s r.text) = true →
      (∀ r' ∈ r :: rs, r'.IsPlain) → Scans s flags (r :: rs)

inductive Reads : State → List Bool → List Row → Prop
  | done {s flags} : Reads s flags []
  | line {s flag flags r rs} : startsDeclaration (maskFrom s r.text) = false → r.Stands s →
      (∀ o, lineSpans flag o (maskFrom s r.text) = r.spans o) → Reads (s.next r.text) flags rs →
      Reads s (flag :: flags) (r :: rs)
  | declaration {s flags r rs} : startsDeclaration (maskFrom s r.text) = true →
      (∀ r' ∈ r :: rs, r'.IsPlain) → Reads s flags (r :: rs)

def texts (rows : List Row) : List (List Char) :=
  rows.map Row.text

def maskedHeader (xs : List (List Char)) : List (List Char) :=
  headerLines (maskLines .code xs)

def headerFrom (s : State) (xs : List (List Char)) : List (List Char) :=
  headerLines (maskLines s xs)

lemma headerFrom_cons {s : State} {x : List Char} (xs : List (List Char))
    (hd : startsDeclaration (maskFrom s x) = false) :
    headerFrom s (x :: xs) = maskFrom s x :: headerFrom (s.next x) xs := by
  rw [headerFrom, maskLines, headerLines, if_neg (by simp [hd])]
  rfl

structure Scanned (source : List Char) (rows : List Row) : Prop where
  ne_nil : rows ≠ []
  unbroken : Unbroken (texts rows)
  text : source = unlines (texts rows)
  scans : Scans .code (inBlocks none (maskedHeader (texts rows))) rows

structure Reading (source : List Char) (rows : List Row) : Prop where
  ne_nil : rows ≠ []
  unbroken : Unbroken (texts rows)
  text : source = unlines (texts rows)
  reads : Reads .code (inBlocks none (maskedHeader (texts rows))) rows

lemma Reads.scans {s : State} {flags : List Bool} {rows : List Row} (h : Reads s flags rows) :
    Scans s flags rows := by
  induction h with
  | done => exact .done
  | line hd _ hs _ ih => exact .line hd hs ih
  | declaration hd hp => exact .declaration hd hp

lemma Reading.scanned {source : List Char} {rows : List Row} (h : Reading source rows) :
    Scanned source rows :=
  ⟨h.ne_nil, h.unbroken, h.text, h.reads.scans⟩

/-! ## The imports of rows -/

def rowSpans : Nat → List Row → List Span
  | _, [] => []
  | o, r :: rs => r.spans o ++ rowSpans (o + r.text.length + 1) rs

def rowImports : Nat → List Row → List Import
  | _, [] => []
  | o, r :: rs => r.imports o ++ rowImports (o + r.text.length + 1) rs

lemma rowSpans_of_plain {rows : List Row} (h : ∀ r ∈ rows, r.IsPlain) (o : Nat) :
    rowSpans o rows = [] := by
  induction rows generalizing o with
  | nil => rfl
  | cons r rs ih =>
    obtain ⟨x, rfl⟩ := h r List.mem_cons_self
    exact ih (fun r' hr => h r' (List.mem_cons_of_mem _ hr)) _

lemma lineSpans_of_no_literal {x : List Char} (h : ∀ b q p t, ¬ LiteralAt x b q p t)
    (flag : Bool) (o : Nat) : lineSpans flag o x = [] := by
  have hspec : specSpan? o x = none := by
    refine Option.eq_none_iff_forall_ne_some.mpr fun s hs => ?_
    obtain ⟨b, q, p, t, hl, -⟩ := specSpan?_eq_some.mp hs
    exact h b q p t hl
  have hsingle : singleSpan? ⟨o, x⟩ = none := by
    refine Option.eq_none_iff_forall_ne_some.mpr fun s hs => ?_
    obtain ⟨b, q, p, t, hl, -⟩ := singleSpan?_eq_some.mp hs
    exact h b q p t hl
  simp [lineSpans, specIn, singleIn, hspec, hsingle]

lemma lineSpans_nil (flag : Bool) (o : Nat) : lineSpans flag o [] = [] :=
  lineSpans_of_no_literal (fun _ _ _ _ h => by simpa using h.text) flag o

lemma Scans.spans {s : State} {flags : List Bool} {rows : List Row} (h : Scans s flags rows)
    (o : Nat) : spansFrom lineSpans o flags (headerLines (maskLines s (texts rows))) =
      rowSpans o rows := by
  induction h generalizing o with
  | done => cases ‹List Bool› <;> rfl
  | line hd hs _ ih =>
    simp only [texts, List.map_cons, maskLines, headerLines, hd]
    rw [if_neg (by simp), spansFrom, hs, length_maskFrom, rowSpans]
    exact congrArg _ (ih _)
  | @declaration s flags r rs hd hp =>
    simp only [texts, List.map_cons, maskLines, headerLines, hd, if_true]
    rw [rowSpans_of_plain hp]
    cases flags with
    | nil => rfl
    | cons flag flags =>
      rw [spansFrom, lineSpans_nil]
      cases flags <;> rfl

lemma le_start_of_mem_rowSpans {o : Nat} {rows : List Row} {s : Span} (h : s ∈ rowSpans o rows) :
    o ≤ s.start := by
  induction rows generalizing o with
  | nil => simp [rowSpans] at h
  | cons r rs ih =>
    rw [rowSpans, List.mem_append] at h
    rcases h with h | h
    · cases r with
      | plain x => simp [Row.spans] at h
      | importing n b q p t =>
        obtain rfl := List.eq_of_mem_replicate h
        exact Nat.le_add_right _ _
    · have := ih h
      omega

lemma rowSpans_sorted (o : Nat) (rows : List Row) :
    (rowSpans o rows).Pairwise fun a b => spanBefore a b = true := by
  induction rows generalizing o with
  | nil => exact .nil
  | cons r rs ih =>
    cases r with
    | plain x => exact ih _
    | importing n b q p t =>
      rw [rowSpans, Row.spans, List.pairwise_append]
      refine ⟨?_, ih _, fun s hs s' hs' => ?_⟩
      · exact List.pairwise_replicate.mpr (Or.inr (spanBefore_iff.mpr (by omega)))
      · obtain rfl := List.eq_of_mem_replicate hs
        have hle := le_start_of_mem_rowSpans hs'
        rw [spanBefore_iff]
        simp only [Row.text, List.length_append, List.length_cons] at hle
        simp only [spanAt]
        omega

namespace Scanned

variable {source : List Char} {rows : List Row}

lemma texts_ne_nil (h : Scanned source rows) : texts rows ≠ [] := by
  simpa [texts] using h.ne_nil

theorem importSpans_eq (h : Scanned source rows) : importSpans (mask source) = rowSpans 0 rows := by
  rw [h.text, mask_eq_maskFrom, maskFrom_unlines]
  exact importSpans_unlines (maskLines_ne_nil _ h.texts_ne_nil) (unbroken_maskLines h.unbroken)
    (h.scans.spans 0) (rowSpans_sorted 0 rows)

end Scanned

def restText : List (List Char) → List Char
  | [] => []
  | x :: xs => '\n' :: (x ++ restText xs)

lemma unlines_eq_restText (x : List Char) (xs : List (List Char)) :
    unlines (x :: xs) = x ++ restText xs := by
  induction xs generalizing x with
  | nil => simp [unlines_singleton, restText]
  | cons y ys ih => rw [unlines_cons x (by simp), ih, restText]

lemma drop_of_append {source u more : List Char} {o : Nat} (h : source.drop o = u ++ more) :
    source.drop (o + u.length) = more := by
  rw [← List.drop_drop, h, List.drop_left]

lemma importAt_spanAt {source b p t : List Char} {q : Char} {o : Nat}
    (h : source.drop o = b ++ q :: (p ++ q :: t)) :
    importAt source (spanAt o b p) = ⟨spanAt o b p, q, String.ofList p⟩ := by
  have hs : source.drop (o + b.length) = (q :: (p ++ [q])) ++ t := by
    rw [drop_of_append h]
    simp
  have hl : o + b.length + (p.length + 2) - (o + b.length) = (q :: (p ++ [q])).length := by
    simp only [List.length_cons, List.length_append, List.length_nil]
    omega
  rw [importAt]
  simp only [spanAt, hs, hl, List.take_left]
  simp

lemma map_importAt_row {source more : List Char} {o : Nat} {r : Row}
    (h : source.drop o = r.text ++ more) : (r.spans o).map (importAt source) = r.imports o := by
  cases r with
  | plain x => rfl
  | importing n b q p t =>
    rw [Row.text, List.append_assoc, List.cons_append, List.append_assoc, List.cons_append] at h
    rw [Row.spans, List.map_replicate, importAt_spanAt h, Row.imports]

lemma map_importAt_rowSpans {source : List Char} {o : Nat} {r : Row} {rs : List Row}
    (h : source.drop o = r.text ++ restText (texts rs)) :
    (rowSpans o (r :: rs)).map (importAt source) = rowImports o (r :: rs) := by
  induction rs generalizing o r with
  | nil =>
    rw [rowSpans, rowImports, List.map_append, map_importAt_row h]
    rfl
  | cons r' rs ih =>
    rw [rowSpans, rowImports, List.map_append, map_importAt_row h, ih]
    rw [Nat.add_assoc, ← List.drop_drop, h]
    simp [texts, restText]

theorem Scanned.imports_eq {source : List Char} {rows : List Row} (h : Scanned source rows) :
    imports source = rowImports 0 rows := by
  rw [imports, h.importSpans_eq]
  cases rows with
  | nil => exact (h.ne_nil rfl).elim
  | cons r rs => exact map_importAt_rowSpans (h.text.trans (unlines_eq_restText _ _))

end HashedImports.Source
