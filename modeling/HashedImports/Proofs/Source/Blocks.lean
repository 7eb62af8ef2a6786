import HashedImports.Proofs.Source.Lines
import HashedImports.Proofs.Source.Literals
import Mathlib.Data.List.Perm.Basic

/-! The literals of a header, line by line. Which lines lie in a block is told by the lines alone,
without the places where they begin. -/

namespace HashedImports.Source

/-! ## Where blocks open -/

def parenthesis? : List (List Char) → Option Nat
  | [] => none
  | x :: xs =>
    match (x.dropWhile Text.isBlank).head? with
    | none => (parenthesis? xs).map (· + 1)
    | some c => if c = '(' then some 0 else none

lemma parenthesis?_cons (x : List Char) (xs : List (List Char)) :
    parenthesis? (x :: xs) =
      match (x.dropWhile Text.isBlank).head? with
      | none => (parenthesis? xs).map (· + 1)
      | some c => if c = '(' then some 0 else none := rfl

def opens? : List (List Char) → Option Nat
  | [] => none
  | x :: xs => (Text.afterPrefix? "import".toList x).bind fun rest => parenthesis? (rest :: xs)

def Skips (start : Nat) : Nat → Nat → List (List Char) → Prop
  | o, 0, _ => start ≤ o
  | o, k + 1, x :: xs => o < start ∧ Skips start (o + x.length + 1) k xs
  | _, _ + 1, [] => True

lemma head?_dropWhile {p : Char → Bool} {y z : List Char} (hy : ∀ c ∈ y, p c = true)
    (hz : ∀ d z', z = d :: z' → p d = false) : ((y ++ z).dropWhile p).head? = z.head? := by
  rw [List.dropWhile_append_of_pos hy]
  cases z with
  | nil => rfl
  | cons d z => simp [hz d z rfl]

lemma run_append_of_pos {p : Char → Bool} {y : List Char} (hy : ∀ c ∈ y, p c = true)
    (cs : List Char) : run p (y ++ cs) = y.length + run p cs := by
  simp only [run]
  rw [List.takeWhile_append_of_pos hy, List.length_append]

section BlankLine

variable {b : List Char}

lemma run_blankLine (hb : ∀ c ∈ b, Text.isBlank c = true) (cs : List Char) :
    run Text.isBlank (b ++ '\n' :: cs) = b.length + 1 + run Text.isBlank cs := by
  have hn : run Text.isBlank ('\n' :: cs) = run Text.isBlank cs + 1 := rfl
  rw [run_append_of_pos hb, hn]
  omega

lemma getElem?_blankLine (b cs : List Char) (n : Nat) :
    (b ++ '\n' :: cs)[b.length + 1 + n]? = cs[n]? := by
  rw [Nat.add_assoc, List.getElem?_append_right (by omega), Nat.add_sub_cancel_left, Nat.add_comm,
    List.getElem?_cons_succ]

end BlankLine

lemma opened_unlines (o : Nat) (y : List Char) (xs : List (List Char)) :
    match parenthesis? (y :: xs) with
    | none => (unlines (y :: xs))[run Text.isBlank (unlines (y :: xs))]? ≠ some '('
    | some k => (unlines (y :: xs))[run Text.isBlank (unlines (y :: xs))]? = some '(' ∧
        Skips (o + run Text.isBlank (unlines (y :: xs)) + 1) (o + y.length + 1) k xs := by
  induction xs generalizing o y with
  | nil =>
    obtain ⟨b, z, rfl, hl, hb, hz⟩ := exists_run Text.isBlank y
    rw [unlines_singleton, ← hl, parenthesis?, head?_dropWhile hb hz]
    cases z with
    | nil => simp [parenthesis?]
    | cons c z =>
      by_cases hc : c = '('
      · simp only [List.head?_cons, hc, if_true]
        exact ⟨by simp, show _ ≤ _ by simp⟩
      · simp [hc]
  | cons x xs ih =>
    obtain ⟨b, z, rfl, hl, hb, hz⟩ := exists_run Text.isBlank y
    rw [unlines_cons _ (by simp), parenthesis?, head?_dropWhile hb hz]
    cases z with
    | nil =>
      -- a line of white space: the parenthesis opens further down or not at all
      have hh := ih (o + b.length + 1) x
      rw [List.append_nil, run_blankLine hb, getElem?_blankLine]
      cases hp : parenthesis? (x :: xs) with
      | none =>
        rw [hp] at hh
        exact hh
      | some k =>
        rw [hp] at hh
        refine ⟨hh.1, by omega, ?_⟩
        rw [← Nat.add_assoc o, ← Nat.add_assoc o]
        exact hh.2
    | cons c z =>
      have hr : run Text.isBlank (c :: z ++ '\n' :: unlines (x :: xs)) = 0 := by
        simp [run, hz c z rfl]
      have hget : (b ++ (c :: z ++ '\n' :: unlines (x :: xs)))[b.length + 0]? = some c := by
        simp
      rw [List.append_assoc, run_append_of_pos hb, hr, hget]
      by_cases hc : c = '('
      · simp only [List.head?_cons, hc, if_true]
        exact ⟨trivial, show _ ≤ _ by simp⟩
      · simp [hc]

lemma afterPrefix?_unlines {w : List Char} (hw : '\n' ∉ w) (x : List Char)
    (xs : List (List Char)) : Text.afterPrefix? w (unlines (x :: xs)) =
      (Text.afterPrefix? w x).map fun rest => unlines (rest :: xs) := by
  cases xs with
  | nil => simp [unlines_singleton]
  | cons y ys =>
    rw [unlines_cons x (by simp), Text.afterPrefix?_append hw]
    congr 1
    funext rest
    rw [unlines_cons rest (by simp)]

lemma opening?_unlines (o : Nat) (x : List Char) (xs : List (List Char)) :
    match opens? (x :: xs) with
    | none => opening? ⟨o, unlines (x :: xs)⟩ = none
    | some k => ∃ start, opening? ⟨o, unlines (x :: xs)⟩ = some start ∧
        Skips start (o + x.length + 1) k xs := by
  have ho : opens? (x :: xs) = (Text.afterPrefix? "import".toList x).bind fun rest =>
      parenthesis? (rest :: xs) := rfl
  rw [opening?, ho, afterPrefix?_unlines (by decide)]
  cases hx : Text.afterPrefix? "import".toList x with
  | none => rfl
  | some rest =>
    have hlen : x.length = 6 + rest.length := by
      rw [Text.afterPrefix?_eq_some] at hx
      rw [hx, List.length_append]
      rfl
    have hh := opened_unlines (o + 6) rest xs
    simp only [Option.bind_some, Option.map_some]
    cases hp : parenthesis? (rest :: xs) with
    | none =>
      rw [hp] at hh
      exact if_neg hh
    | some k =>
      rw [hp] at hh
      refine ⟨_, if_pos hh.1, ?_⟩
      have he : o + x.length + 1 = o + 6 + rest.length + 1 := by omega
      rw [he]
      exact hh.2

/-! ## Lines by themselves -/

lemma closes_unlines (o : Nat) (x : List Char) (xs : List (List Char)) :
    closes ⟨o, unlines (x :: xs)⟩ = closes ⟨0, x⟩ := by
  cases xs with
  | nil => rfl
  | cons y ys =>
    obtain ⟨b, z, rfl, -, hb, hz⟩ := exists_run isGap x
    unfold closes
    dsimp only
    rw [unlines_cons _ (by simp), List.append_assoc, head?_dropWhile hb hz]
    cases z with
    | nil =>
      rw [List.nil_append, head?_dropWhile hb (by intro d z' h; cases h; decide)]
      rfl
    | cons c z =>
      rw [List.cons_append, head?_dropWhile hb (by
        intro d z' h
        obtain ⟨rfl, -⟩ := List.cons.inj h
        exact hz _ z rfl)]
      rfl

lemma literalAt_unlines_iff {x b p : List Char} {q : Char} {xs : List (List Char)} :
    (∃ t, LiteralAt (unlines (x :: xs)) b q p t) ↔ ∃ t, LiteralAt x b q p t := by
  cases xs with
  | nil => exact Iff.rfl
  | cons y ys =>
    rw [unlines_cons x (by simp)]
    exact ⟨fun ⟨_, h⟩ => h.exists_of_append, fun ⟨_, h⟩ => ⟨_, h.append _⟩⟩

lemma specSpan?_unlines (o : Nat) (x : List Char) (xs : List (List Char)) :
    specSpan? o (unlines (x :: xs)) = specSpan? o x := by
  refine Option.ext fun s => ?_
  rw [specSpan?_eq_some, specSpan?_eq_some]
  simp only [exists_and_right, literalAt_unlines_iff]

lemma singleSpan?_unlines (o : Nat) (x : List Char) (xs : List (List Char)) :
    singleSpan? ⟨o, unlines (x :: xs)⟩ = singleSpan? ⟨o, x⟩ := by
  refine Option.ext fun s => ?_
  rw [singleSpan?_eq_some, singleSpan?_eq_some]
  simp only [exists_and_right, literalAt_unlines_iff]

/-! ## Blocks, line by line -/

/-- Which lines lie in a block that closes further down. A number is that of the lines that are left
before those of an open block. -/
def inBlocks : Option Nat → List (List Char) → List Bool
  | _, [] => []
  | none, x :: xs => false :: inBlocks (opens? (x :: xs)) xs
  | some (k + 1), _ :: xs => false :: inBlocks (some k) xs
  | some 0, x :: xs =>
    if closes ⟨0, x⟩ then false :: inBlocks none xs
    else (xs.any fun y => closes ⟨0, y⟩) :: inBlocks (some 0) xs

def spansFrom (spans : Bool → Nat → List Char → List Span) :
    Nat → List Bool → List (List Char) → List Span
  | o, flag :: flags, x :: xs =>
    spans flag o x ++ spansFrom spans (o + x.length + 1) flags xs
  | _, _, _ => []

def specIn (flag : Bool) (o : Nat) (x : List Char) : List Span :=
  if flag then (specSpan? o x).toList else []

def singleIn (_ : Bool) (o : Nat) (x : List Char) : List Span :=
  (singleSpan? ⟨o, x⟩).toList

def lineSpans (flag : Bool) (o : Nat) (x : List Char) : List Span :=
  specIn flag o x ++ singleIn flag o x

lemma length_inBlocks (k : Option Nat) (xs : List (List Char)) :
    (inBlocks k xs).length = xs.length := by
  fun_induction inBlocks k xs <;> simp_all

lemma blockSpans_linesUp (xs : List (List Char)) : ∀ o,
    blockSpans .outside (linesUp o xs) = spansFrom specIn o (inBlocks none xs) xs ∧
      ∀ start found k, Skips start o k xs →
        blockSpans (.inside start found) (linesUp o xs) =
          (if (xs.drop k).any fun y => closes ⟨0, y⟩ then found else []) ++
            spansFrom specIn o (inBlocks (some k) xs) xs := by
  induction xs with
  | nil => exact fun o => ⟨rfl, by simp [linesUp, blockSpans, spansFrom, inBlocks]⟩
  | cons x xs ih =>
    intro o
    obtain ⟨houtside, hinside⟩ := ih (o + x.length + 1)
    constructor
    · rw [linesUp, blockSpans, inBlocks]
      have hopen := opening?_unlines o x xs
      cases hk : opens? (x :: xs) with
      | none =>
        rw [hk] at hopen
        rw [hopen]
        exact houtside
      | some k =>
        rw [hk] at hopen
        obtain ⟨start, hs, hskips⟩ := hopen
        rw [hs]
        apply (hinside start [] k hskips).trans
        rw [ite_self]
        rfl
    · intro start found k hskips
      rw [linesUp, blockSpans, closes_unlines, specSpan?_unlines]
      cases k with
      | succ k =>
        rw [if_pos hskips.1, inBlocks, List.drop_succ_cons]
        exact hinside start found k hskips.2
      | zero =>
        have hle : start ≤ o := hskips
        rw [if_neg (Nat.not_lt.mpr hle), inBlocks, List.drop_zero, List.any_cons]
        by_cases hc : closes ⟨0, x⟩ = true
        · rw [if_pos hc, if_pos hc, hc, Bool.true_or, if_pos rfl]
          exact congrArg (found ++ ·) houtside
        · rw [if_neg hc, if_neg hc, Bool.eq_false_iff.mpr hc, Bool.false_or]
          have hskips' : Skips start (o + x.length + 1) 0 xs := by
            show start ≤ _
            omega
          apply (hinside start _ 0 hskips').trans
          rw [List.drop_zero, spansFrom, ← List.append_assoc]
          congr 1
          rw [specIn]
          split <;> simp

lemma singles_linesUp (o : Nat) {flags : List Bool} {xs : List (List Char)}
    (h : flags.length = xs.length) :
    (linesUp o xs).filterMap singleSpan? = spansFrom singleIn o flags xs := by
  induction xs generalizing o flags with
  | nil => cases flags <;> rfl
  | cons x xs ih =>
    cases flags with
    | nil => simp at h
    | cons flag flags =>
      rw [linesUp, List.filterMap_cons, singleSpan?_unlines, ih _ (Nat.succ.inj h), spansFrom,
        singleIn]
      cases singleSpan? ⟨o, x⟩ <;> rfl

lemma spansFrom_perm (o : Nat) (flags : List Bool) (xs : List (List Char)) :
    (spansFrom specIn o flags xs ++ spansFrom singleIn o flags xs).Perm
      (spansFrom lineSpans o flags xs) := by
  induction xs generalizing o flags with
  | nil => cases flags <;> exact .refl _
  | cons x xs ih =>
    cases flags with
    | nil => exact .refl _
    | cons flag flags =>
      simp only [spansFrom, lineSpans]
      generalize specIn flag o x = a
      generalize singleIn flag o x = b
      have hh := ih (o + x.length + 1) flags
      generalize spansFrom specIn (o + x.length + 1) flags xs = c at hh ⊢
      generalize spansFrom singleIn (o + x.length + 1) flags xs = d at hh ⊢
      have hswap : (a ++ c ++ (b ++ d)).Perm (a ++ b ++ (c ++ d)) := by
        rw [List.append_assoc, List.append_assoc, ← List.append_assoc c, ← List.append_assoc b]
        exact (List.perm_append_comm.append_right d).append_left a
      exact hswap.trans (hh.append_left _)

/-! ## Literals of a line -/

lemma specSpan?_literal (o : Nat) {x b p t : List Char} {q : Char} (h : LiteralAt x b q p t) :
    SpecStart b ∧ specSpan? o x = some (spanAt o b p) ∨
      ¬ SpecStart b ∧ specSpan? o x = none := by
  by_cases hb : SpecStart b
  · exact Or.inl ⟨hb, specSpan?_eq_some.mpr ⟨b, q, p, t, h, hb, rfl⟩⟩
  · refine Or.inr ⟨hb, Option.eq_none_iff_forall_ne_some.mpr fun s hs => ?_⟩
    obtain ⟨b', q', p', t', h', hb', -⟩ := specSpan?_eq_some.mp hs
    exact hb ((h.unique h').1 ▸ hb')

lemma singleSpan?_literal (o : Nat) {x b p t : List Char} {q : Char} (h : LiteralAt x b q p t) :
    SingleStart b ∧ singleSpan? ⟨o, x⟩ = some (spanAt o b p) ∨
      ¬ SingleStart b ∧ singleSpan? ⟨o, x⟩ = none := by
  by_cases hb : SingleStart b
  · exact Or.inl ⟨hb, singleSpan?_eq_some.mpr ⟨b, q, p, t, h, hb, rfl⟩⟩
  · refine Or.inr ⟨hb, Option.eq_none_iff_forall_ne_some.mpr fun s hs => ?_⟩
    obtain ⟨b', q', p', t', h', hb', -⟩ := singleSpan?_eq_some.mp hs
    exact hb ((h.unique h').1 ▸ hb')

lemma exists_counts (flag : Bool) (b : List Char) :
    ∃ n m, n ≤ 1 ∧ m ≤ 1 ∧ ∀ {o x q p t}, LiteralAt x b q p t →
      specIn flag o x = List.replicate n (spanAt o b p) ∧
        singleIn flag o x = List.replicate m (spanAt o b p) := by
  classical
  refine ⟨if flag = true ∧ SpecStart b then 1 else 0, if SingleStart b then 1 else 0,
    by split <;> omega, by split <;> omega, fun {o x q p t} h => ⟨?_, ?_⟩⟩
  · rw [specIn]
    rcases specSpan?_literal o h with ⟨hb, hs⟩ | ⟨hb, hs⟩
    · cases flag <;> simp [hs, hb]
    · cases flag <;> simp [hs, hb]
  · rw [singleIn]
    rcases singleSpan?_literal o h with ⟨hb, hs⟩ | ⟨hb, hs⟩ <;> simp [hs, hb]

/-! ## All literals of a text -/

lemma spanBefore_iff {a b : Span} :
    spanBefore a b = true ↔ a.start < b.start ∨ a.start = b.start ∧ a.stop ≤ b.stop := by
  simp [spanBefore]

lemma mergeSort_spans {ss ts : List Span} (hp : ss.Perm ts)
    (hs : ts.Pairwise fun a b => spanBefore a b = true) : ss.mergeSort spanBefore = ts := by
  have hsorted : (ss.mergeSort spanBefore).Pairwise fun a b => spanBefore a b = true := by
    refine List.pairwise_mergeSort ?_ ?_ ss
    · intro a b c hab hbc
      rw [spanBefore_iff] at hab hbc ⊢
      omega
    · intro a b
      rw [Bool.or_eq_true, spanBefore_iff, spanBefore_iff]
      omega
  refine List.Perm.eq_of_pairwise ?_ hsorted hs ((List.mergeSort_perm ss spanBefore).trans hp)
  · intro a b _ _ hab hba
    rw [spanBefore_iff] at hab hba
    obtain ⟨s, e⟩ := a
    obtain ⟨s', e'⟩ := b
    simp only [Span.mk.injEq] at hab hba ⊢
    omega

theorem importSpans_unlines {xs : List (List Char)} (hne : xs ≠ []) (hu : Unbroken xs)
    {ss : List Span} (hs : spansFrom lineSpans 0 (inBlocks none (headerLines xs))
      (headerLines xs) = ss) (hsorted : ss.Pairwise fun a b => spanBefore a b = true) :
    importSpans (unlines xs) = ss := by
  unfold importSpans
  dsimp only
  rw [header_unlines hne hu, linesOf_unlines (headerLines_ne_nil hne) (unbroken_headerLines hu),
    (blockSpans_linesUp _ 0).1, singles_linesUp 0 (length_inBlocks none _)]
  exact mergeSort_spans (hs ▸ spansFrom_perm 0 _ _) hsorted

end HashedImports.Source
