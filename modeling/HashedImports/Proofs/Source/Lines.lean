import HashedImports.Proofs.Text.Split
import HashedImports.Source.Import

namespace HashedImports.Source

def unlines : List (List Char) → List Char :=
  Text.joinWith ['\n']

def Unbroken (xs : List (List Char)) : Prop :=
  ∀ x ∈ xs, '\n' ∉ x

lemma Unbroken.tail {x : List Char} {xs : List (List Char)} (h : Unbroken (x :: xs)) :
    Unbroken xs :=
  fun y hy => h y (List.mem_cons_of_mem _ hy)

lemma unlines_cons (x : List Char) {xs : List (List Char)} (h : xs ≠ []) :
    unlines (x :: xs) = x ++ '\n' :: unlines xs :=
  Text.joinWith_cons '\n' x h

lemma unlines_singleton (x : List Char) : unlines [x] = x := rfl

lemma exists_unlines (cs : List Char) : ∃ x xs, cs = unlines (x :: xs) ∧ Unbroken (x :: xs) := by
  obtain ⟨x, xs, hxs⟩ := List.exists_cons_of_ne_nil (Text.splitOn_ne_nil '\n' cs)
  have hjoin : unlines (Text.splitOn '\n' cs) = cs := Text.joinWith_splitOn '\n' cs
  have hu : Unbroken (Text.splitOn '\n' cs) := fun _ => Text.not_mem_of_mem_splitOn
  exact ⟨x, xs, hxs ▸ hjoin.symm, hxs ▸ hu⟩

def linesUp : Nat → List (List Char) → List Line
  | _, [] => []
  | o, x :: xs => ⟨o, unlines (x :: xs)⟩ :: linesUp (o + x.length + 1) xs

lemma linesAfter_append {x : List Char} (h : '\n' ∉ x) (o : Nat) (cs : List Char) :
    linesAfter o (x ++ cs) = linesAfter (o + x.length) cs := by
  induction x generalizing o with
  | nil => rfl
  | cons c x ih =>
    rw [List.mem_cons, not_or] at h
    rw [List.cons_append, linesAfter, if_neg (Ne.symm h.1), ih h.2, List.length_cons,
      Nat.add_right_comm, Nat.add_assoc]

lemma cons_linesAfter {x : List Char} {xs : List (List Char)} (h : Unbroken (x :: xs)) (o : Nat) :
    ⟨o, unlines (x :: xs)⟩ :: linesAfter o (unlines (x :: xs)) = linesUp o (x :: xs) := by
  induction xs generalizing o x with
  | nil =>
    have hx := linesAfter_append (h x List.mem_cons_self) o []
    rw [List.append_nil] at hx
    rw [unlines_singleton, hx]
    rfl
  | cons y ys ih =>
    rw [linesUp, ← ih h.tail, unlines_cons x (by simp),
      linesAfter_append (h x List.mem_cons_self), linesAfter, if_pos rfl]

lemma linesOf_unlines {xs : List (List Char)} (hne : xs ≠ []) (h : Unbroken xs) :
    linesOf (unlines xs) = linesUp 0 xs := by
  cases xs with
  | nil => exact (hne rfl).elim
  | cons x xs => exact cons_linesAfter h 0

lemma le_offset_of_mem_linesUp {o : Nat} {xs : List (List Char)} {l : Line}
    (h : l ∈ linesUp o xs) : o ≤ l.offset := by
  induction xs generalizing o with
  | nil => simp [linesUp] at h
  | cons x xs ih =>
    rw [linesUp, List.mem_cons] at h
    rcases h with rfl | h
    · exact Nat.le_refl _
    · have := ih h
      omega

lemma startsDeclaration_append {c : Char} (hw : ∀ w ∈ declarationWords, c ∉ w)
    (hc : Text.isWord c = false) (x v : List Char) :
    startsDeclaration (x ++ c :: v) = startsDeclaration x := by
  simp only [startsDeclaration]
  rw [Bool.eq_iff_iff, List.any_eq_true, List.any_eq_true]
  refine exists_congr fun w => and_congr_right fun hm => ?_
  rw [Text.afterPrefix?_append (hw w hm)]
  cases Text.afterPrefix? w x with
  | none => exact Iff.rfl
  | some rest =>
    cases rest with
    | nil => simp [hc]
    | cons d rest => exact Iff.rfl

lemma startsDeclaration_unlines (x : List Char) (xs : List (List Char)) :
    startsDeclaration (unlines (x :: xs)) = startsDeclaration x := by
  cases xs with
  | nil => rfl
  | cons y ys =>
    rw [unlines_cons x (by simp)]
    exact startsDeclaration_append (by decide) (by decide) x _

def headerLines : List (List Char) → List (List Char)
  | [] => []
  | x :: xs => if startsDeclaration x then [[]] else x :: headerLines xs

lemma headerLines_ne_nil {xs : List (List Char)} (h : xs ≠ []) : headerLines xs ≠ [] := by
  cases xs with
  | nil => exact (h rfl).elim
  | cons x xs =>
    rw [headerLines]
    split <;> simp

lemma unbroken_headerLines {xs : List (List Char)} (h : Unbroken xs) :
    Unbroken (headerLines xs) := by
  induction xs with
  | nil => exact h
  | cons x xs ih =>
    rw [headerLines]
    split
    · simp [Unbroken]
    · intro y hy
      rcases List.mem_cons.mp hy with rfl | hy
      · exact h y List.mem_cons_self
      · exact ih h.tail y hy

lemma header_unlines_from {xs : List (List Char)} (hne : xs ≠ []) (o : Nat) :
    (match (linesUp o xs).find? fun l => startsDeclaration l.rest with
      | some l => (unlines xs).take (l.offset - o)
      | none => unlines xs) = unlines (headerLines xs) := by
  induction xs generalizing o with
  | nil => exact (hne rfl).elim
  | cons x xs ih =>
    rw [linesUp, List.find?_cons, startsDeclaration_unlines, headerLines]
    cases hd : startsDeclaration x with
    | true => simp [unlines, Text.joinWith]
    | false =>
      rw [if_neg (by simp)]
      cases xs with
      | nil => rfl
      | cons y ys =>
        have hh := ih (by simp) (o + x.length + 1)
        rw [unlines_cons x (by simp), unlines_cons x (headerLines_ne_nil (by simp)), ← hh]
        cases hf : (linesUp (o + x.length + 1) (y :: ys)).find? fun l =>
            startsDeclaration l.rest with
        | none => rfl
        | some l =>
          have hl := le_offset_of_mem_linesUp (List.mem_of_find?_eq_some hf)
          have he : l.offset - o = x.length + (l.offset - (o + x.length + 1) + 1) := by omega
          simp only [he, List.take_length_add_append, List.take_succ_cons]

lemma header_unlines {xs : List (List Char)} (hne : xs ≠ []) (h : Unbroken xs) :
    header (unlines xs) = unlines (headerLines xs) := by
  rw [header, linesOf_unlines hne h]
  exact header_unlines_from hne 0

end HashedImports.Source
