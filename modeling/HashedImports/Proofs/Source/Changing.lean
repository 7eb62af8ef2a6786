import HashedImports.Proofs.Source.Regular
import Mathlib.Data.List.Count

/-! When redirecting changes a text. The first literal that gets another path shows in what comes
of the text, unless it was found twice and its two successors together are spelled as it was. -/

namespace HashedImports.Source

variable {source : List Char} {f : String → String}

/-! ## How often an import is found -/

lemma le_start_of_mem_rowImports {o : Nat} {rows : List Row} {i : Import}
    (h : i ∈ rowImports o rows) : o ≤ i.span.start := by
  induction rows generalizing o with
  | nil => cases h
  | cons r rs ih =>
    rw [rowImports, List.mem_append] at h
    rcases h with h | h
    · cases r with
      | plain x => cases h
      | importing n b q p t =>
        obtain rfl := List.eq_of_mem_replicate h
        exact Nat.le_add_right _ _
    · have := ih h
      omega

lemma not_mem_rowImports_of_mem {o : Nat} {r : Row} {rs : List Row} {i : Import}
    (h : i ∈ r.imports o) : i ∉ rowImports (o + r.text.length + 1) rs := by
  intro hm
  have hle := le_start_of_mem_rowImports hm
  cases r with
  | plain x => cases h
  | importing n b q p t =>
    obtain rfl := List.eq_of_mem_replicate h
    simp only [Row.text, List.length_append, List.length_cons, spanAt] at hle
    omega

lemma forall_count_append_iff {α : Type} [DecidableEq α] {as bs : List α} {P : Nat → α → Prop}
    (h : ∀ a ∈ as, a ∉ bs) : (∀ a ∈ as ++ bs, P ((as ++ bs).count a) a) ↔
      (∀ a ∈ as, P (as.count a) a) ∧ ∀ b ∈ bs, P (bs.count b) b := by
  rw [List.forall_mem_append]
  refine and_congr (forall₂_congr fun a ha => ?_) (forall₂_congr fun b hb => ?_)
  · rw [List.count_append, List.count_eq_zero.mpr (h a ha), Nat.add_zero]
  · have hno : b ∉ as := fun ha => h b ha hb
    rw [List.count_append, List.count_eq_zero.mpr hno, Nat.zero_add]

lemma Row.forall_imports_iff {P : Nat → Char → String → Prop} (o : Nat) (r : Row) :
    (∀ i ∈ r.imports o, P ((r.imports o).count i) i.quote i.path) ↔
      ∀ n b q p t, importing n b q p t = r → P (n + 1) q (String.ofList p) := by
  cases r with
  | plain x => simp [imports]
  | importing n b q p t =>
    constructor
    · rintro h _ _ _ _ _ ⟨⟩
      have hh := h _ (List.mem_replicate.mpr ⟨Nat.succ_ne_zero n, rfl⟩)
      rwa [imports, List.count_replicate_self] at hh
    · intro h i hi
      obtain rfl := List.eq_of_mem_replicate hi
      rw [imports, List.count_replicate_self]
      exact h n b q p t rfl

lemma forall_rowImports_iff {P : Nat → Char → String → Prop} (o : Nat) (rows : List Row) :
    (∀ i ∈ rowImports o rows, P ((rowImports o rows).count i) i.quote i.path) ↔
      ∀ n b q p t, Row.importing n b q p t ∈ rows → P (n + 1) q (String.ofList p) := by
  induction rows generalizing o with
  | nil => simp [rowImports]
  | cons r rs ih =>
    rw [rowImports, forall_count_append_iff (P := fun n i => P n i.quote i.path)
      fun i hi => not_mem_rowImports_of_mem hi, Row.forall_imports_iff, ih]
    simp only [List.mem_cons, or_imp, forall_and]

/-! ## Rows that are spelled as before -/

def Row.Keeps (f : String → String) : Row → Prop
  | plain _ => True
  | importing n _ q p _ =>
    f (String.ofList p) = String.ofList p ∨
      2 ≤ n + 1 ∧ p = (f (String.ofList p)).toList ++ q :: q :: (f (String.ofList p)).toList

def Row.IsSound (r : Row) : Prop :=
  '\n' ∉ r.text ∧ match r with
    | plain _ => True
    | importing n _ _ _ _ => n ≤ 1

lemma exists_restText (xs : List (List Char)) :
    restText xs = [] ∨ ∃ more, restText xs = '\n' :: more := by
  cases xs with
  | nil => exact Or.inl rfl
  | cons x xs => exact Or.inr ⟨_, rfl⟩

lemma line_append_inj {x y u v : List Char} (hx : '\n' ∉ x) (hy : '\n' ∉ y)
    (hu : u = [] ∨ ∃ more, u = '\n' :: more) (hv : v = [] ∨ ∃ more, v = '\n' :: more)
    (h : x ++ u = y ++ v) : x = y := by
  have hfirst : ∀ {x u : List Char}, '\n' ∉ x → (u = [] ∨ ∃ more, u = '\n' :: more) →
      (x ++ u).takeWhile (· ≠ '\n') = x := by
    intro x u hx hu
    have hline : ∀ c ∈ x, decide (c ≠ '\n') = true := by
      intro c hc
      exact decide_eq_true (ne_of_mem_of_not_mem hc hx)
    rw [List.takeWhile_append_of_pos hline]
    rcases hu with rfl | ⟨more, rfl⟩ <;> simp
  rw [← hfirst hx hu, h, hfirst hy hv]

lemma Row.text_edit_of_keeps {r : Row} (hs : r.IsSound) (h : r.Keeps f) :
    (r.edit f).text = r.text := by
  cases r with
  | plain x => rfl
  | importing n b q p t =>
    rcases h with h | ⟨hn, hp⟩
    · simp [edit, text, h, repeated]
    · have hn' : n ≤ 1 := hs.2
      obtain rfl : n = 1 := by omega
      rw [edit]
      generalize (f (String.ofList p)).toList = new at hp ⊢
      simp [text, repeated, literal, hp]

lemma again_of_repeated {n : Nat} {q : Char} {new rest t : List Char} (hn : n ≤ 1)
    (h : (List.replicate n (literal q new)).flatten ++ t = rest ++ q :: t) :
    n = 1 ∧ rest = q :: new := by
  have hn' : n = 0 ∨ n = 1 := by omega
  rcases hn' with rfl | rfl
  · have hlen := congrArg List.length h
    simp only [List.replicate_zero, List.flatten_nil, List.nil_append, List.length_append,
      List.length_cons] at hlen
    omega
  · have hrest : q :: new ++ q :: t = rest ++ q :: t := by simpa [literal] using h
    exact ⟨rfl, (List.append_cancel_right hrest).symm⟩

lemma Row.keeps_of_append {r : Row} {u v : List Char} (hs : r.IsSound)
    (hq : ∀ n b q p t, r = importing n b q p t → q ∉ (f (String.ofList p)).toList)
    (hu : u = [] ∨ ∃ more, u = '\n' :: more) (hv : v = [] ∨ ∃ more, v = '\n' :: more)
    (h : (r.edit f).text ++ u = r.text ++ v) : r.Keeps f := by
  cases r with
  | plain x => exact trivial
  | importing n b q p t =>
    obtain ⟨hline, hn⟩ := hs
    dsimp only at hn
    have hnew := hq n b q p t rfl
    by_cases hf : (f (String.ofList p)).toList = p
    · exact Or.inl (String.toList_inj.mp (hf.trans String.toList_ofList.symm))
    refine Or.inr ?_
    rw [edit] at h
    generalize (f (String.ofList p)).toList = new at *
    simp only [text, List.append_assoc, List.cons_append, List.append_cancel_left_eq,
      List.cons.injEq, true_and] at h
    -- the old path goes on where the new one ends, at a quotation mark of its own
    have hmem : q ∈ p := by
      by_contra hno
      exact hf (append_cons_inj_of_not_mem hnew hno h).1
    obtain ⟨a, rest, rfl, ha⟩ := List.eq_append_cons_of_mem hmem
    simp only [text, List.mem_append, List.mem_cons, not_or] at hline
    obtain ⟨-, hqn, ⟨hnewline, -, hrestline⟩, -, ht⟩ := hline
    rw [List.append_assoc, List.cons_append] at h
    obtain ⟨rfl, htail⟩ := append_cons_inj_of_not_mem hnew ha h
    have hsame : repeated n q (new ++ q :: rest) new ++ t = rest ++ q :: t := by
      refine line_append_inj ?_ ?_ hu hv ?_
      · rw [repeated, if_neg hf]
        simp only [List.mem_append, List.mem_flatten, not_or, not_exists, not_and]
        refine ⟨fun x hx => ?_, ht⟩
        obtain rfl := List.eq_of_mem_replicate hx
        simp [literal, hqn, hnewline]
      · simp [hrestline, hqn, ht]
      · rw [List.append_assoc, htail]
        simp
    rw [repeated, if_neg hf] at hsame
    obtain ⟨rfl, rfl⟩ := again_of_repeated hn hsame
    exact ⟨Nat.le_refl 2, rfl⟩

lemma text_edits_eq_iff {rows : List Row} (hs : ∀ r ∈ rows, r.IsSound)
    (hq : ∀ n b q p t, Row.importing n b q p t ∈ rows → q ∉ (f (String.ofList p)).toList) :
    restText (texts (rows.map (Row.edit f))) = restText (texts rows) ↔ ∀ r ∈ rows, r.Keeps f := by
  induction rows with
  | nil => simp
  | cons r rs ih =>
    have hr := hs r List.mem_cons_self
    have hrest := ih (fun r' hm => hs r' (List.mem_cons_of_mem _ hm))
      fun n b q p t hm => hq n b q p t (List.mem_cons_of_mem _ hm)
    have hcons : ∀ r rs, restText (texts (r :: rs)) = '\n' :: (r.text ++ restText (texts rs)) :=
      fun _ _ => rfl
    rw [List.map_cons, hcons, hcons, List.forall_mem_cons, ← hrest, List.cons.injEq]
    simp only [true_and]
    constructor
    · intro h
      have hkeeps := r.keeps_of_append hr
        (fun n b q p t he => hq n b q p t (he ▸ List.mem_cons_self)) (exists_restText _)
        (exists_restText _) h
      rw [Row.text_edit_of_keeps hr hkeeps] at h
      exact ⟨hkeeps, List.append_cancel_left h⟩
    · rintro ⟨hkeeps, h⟩
      rw [Row.text_edit_of_keeps hr hkeeps, h]

/-! ## Texts that are spelled as before -/

lemma again_le_one {flag : Bool} {x : List Char} {n : Nat} {b p t : List Char} {q : Char}
    (h : lineSpans flag 0 x = (Row.importing n b q p t).spans 0) : n ≤ 1 := by
  have hlen := congrArg List.length h
  have hspec : (specIn flag 0 x).length ≤ 1 := by
    rw [specIn]
    split
    · cases specSpan? 0 x <;> simp
    · simp
  have hsingle : (singleIn flag 0 x).length ≤ 1 := by
    rw [singleIn]
    cases singleSpan? ⟨0, x⟩ <;> simp
  rw [lineSpans, Row.spans, List.length_append, List.length_replicate] at hlen
  omega

lemma Scans.isSound {s : State} {flags : List Bool} {rows : List Row} (h : Scans s flags rows)
    (hu : Unbroken (texts rows)) : ∀ r ∈ rows, r.IsSound := by
  induction h with
  | done => simp
  | @line s flag flags r rs _ hspans _ ih =>
    refine List.forall_mem_cons.mpr ⟨⟨hu _ List.mem_cons_self, ?_⟩, ih hu.tail⟩
    cases r with
    | plain x => exact trivial
    | importing n b q p t => exact again_le_one (hspans 0)
  | declaration _ hp =>
    intro r hr
    refine ⟨hu _ (List.mem_map_of_mem hr), ?_⟩
    obtain ⟨x, rfl⟩ := hp r hr
    exact trivial

/-- The import was found twice, and the new path stands in the old one twice, with two quotation
marks between: written twice, the new literal is the old one. -/
def Cancels (f : String → String) (is : List Import) (i : Import) : Prop :=
  2 ≤ is.count i ∧
    i.path.toList = (f i.path).toList ++ i.quote :: i.quote :: (f i.path).toList

theorem redirect_text_eq_iff (hf : ∀ i ∈ imports source, i.quote ∉ (f i.path).toList) :
    (redirect f source).text = source ↔
      ∀ i ∈ imports source, f i.path = i.path ∨ Cancels f (imports source) i := by
  obtain ⟨rows, hr⟩ := exists_scanned source
  have hkeeps := forall_rowImports_iff (P := fun n q path => f path = path ∨
    2 ≤ n ∧ path.toList = (f path).toList ++ q :: q :: (f path).toList) 0 rows
  have hquotes := forall_rowImports_iff (P := fun _ q path => q ∉ (f path).toList) 0 rows
  rw [hr.imports_eq] at hf ⊢
  have hrest := text_edits_eq_iff (hr.scans.isSound hr.unbroken) (hquotes.mp hf)
  have hjoin : ∀ rs : List Row, rs ≠ [] → '\n' :: unlines (texts rs) = restText (texts rs) := by
    intro rs hne
    cases rs with
    | nil => exact (hne rfl).elim
    | cons r rs => exact congrArg _ (unlines_eq_restText _ _)
  have htext : (redirect f source).text = source ↔
      restText (texts (rows.map (Row.edit f))) = restText (texts rows) := by
    rw [hr.redirect_text, ← hjoin _ (by simpa using hr.ne_nil), ← hjoin _ hr.ne_nil,
      List.cons.injEq, ← hr.text]
    simp only [true_and]
  rw [htext, hrest]
  unfold Cancels
  rw [hkeeps]
  constructor
  · intro h n b q p t hm
    simpa [Row.Keeps] using h _ hm
  · intro h r hm
    cases r with
    | plain x => exact trivial
    | importing n b q p t => simpa [Row.Keeps] using h n b q p t hm

theorem redirect_count (f : String → String) (source : List Char) :
    (redirect f source).count = (imports source).countP fun i => f i.path ≠ i.path := by
  rw [redirect, replace_eq, length_editsFor, List.zip_map', List.countP_map]
  rfl

end HashedImports.Source
