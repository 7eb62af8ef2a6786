import HashedImports.Proofs.Source.Comments
import HashedImports.Proofs.Source.Regular

namespace HashedImports.Source

namespace State

def masked : State → List Char → State
  | slash, rest => if opensComment rest then code else slash
  | line, _ => code
  | block, _ => code
  | star, _ => code
  | s, _ => s

lemma inLiteral_masked_iff (s : State) (rest : List Char) :
    (s.masked rest).InLiteral ↔ s.InLiteral := by
  cases s with
  | slash =>
    rw [masked]
    split <;> exact Iff.rfl
  | _ => exact Iff.rfl

lemma step_blanked (c : Char) : code.step (blanked c) = code := by
  rw [blanked]
  split <;> rfl

lemma masked_ofCode {c : Char} (hc : c ≠ '/') (rest : List Char) :
    (ofCode c).masked rest = ofCode c := by
  rw [ofCode, if_neg hc]
  split_ifs <;> rfl

lemma step_shown (s : State) (c : Char) (rest : List Char) :
    (s.masked (c :: rest)).step (shown s c rest) = (s.step c).masked rest := by
  cases s with
  | code =>
    by_cases hc : c = '/'
    · subst hc
      by_cases ho : opensComment rest <;> simp [masked, shown, step, ofCode, ho]
    · have hshown : shown code c rest = c := if_neg fun h => hc h.1
      rw [hshown]
      exact (masked_ofCode hc rest).symm
  | slash =>
    by_cases ho : c = '/' ∨ c = '*'
    · rcases ho with rfl | rfl <;> rfl
    · obtain ⟨hslash, hstar⟩ := not_or.mp ho
      have hmasked : slash.masked (c :: rest) = slash :=
        if_neg (by simpa [opensComment] using ⟨hslash, hstar⟩)
      have hstep : slash.step c = ofCode c := by rw [step, if_neg hslash, if_neg hstar]
      rw [hmasked, shown, if_neg ho, hstep, masked_ofCode hslash]
  | line =>
    rw [masked, shown, step_blanked, step]
    split <;> rfl
  | block =>
    rw [masked, shown, step_blanked, step]
    split <;> rfl
  | star =>
    rw [masked, shown, step_blanked, step]
    split_ifs <;> rfl
  | raw =>
    simp only [masked, shown, step]
    split <;> rfl
  | quoted q =>
    simp only [masked, shown, step]
    split_ifs <;> rfl
  | escaped q => rfl

theorem after_mask (s : State) (cs ds : List Char) :
    (s.masked (cs ++ ds)).after ((maskFrom s (cs ++ ds)).take cs.length) =
      (s.after cs).masked ds := by
  induction cs generalizing s with
  | nil => rfl
  | cons c cs ih =>
    rw [List.cons_append, maskFrom, List.length_cons, List.take_succ_cons, after_cons, step_shown,
      ih, after_cons]

lemma inLiteral_after_mask_iff (cs ds : List Char) :
    (code.after ((mask (cs ++ ds)).take cs.length)).InLiteral ↔ (code.after cs).InLiteral := by
  rw [mask_eq_maskFrom, ← inLiteral_masked_iff (code.after cs) ds, ← after_mask]
  rfl

end State

lemma getElem?_maskFrom (s : State) (u : List Char) (c : Char) (v : List Char) :
    (maskFrom s (u ++ c :: v))[u.length]? = some (shown (s.after u) c v) := by
  induction u generalizing s with
  | nil => rfl
  | cons d u ih => exact ih (s.step d)

lemma exists_split {cs : List Char} {n : Nat} (h : n < cs.length) :
    ∃ u c v, cs = u ++ c :: v ∧ u.length = n :=
  ⟨cs.take n, cs[n], cs.drop (n + 1), by rw [List.getElem_cons_drop, List.take_append_drop],
    List.length_take_of_le (Nat.le_of_lt h)⟩

lemma shown_of_inLiteral {s : State} (h : s.InLiteral) (c : Char) (rest : List Char) :
    shown s c rest = c := by
  cases s <;> first | rfl | exact h.elim

lemma eq_newline_of_shown {s : State} {c : Char} {rest : List Char}
    (h : shown s c rest = '\n') : c = '\n' := by
  rcases shown_cases s c rest with hc | ⟨hc, -⟩
  · exact hc.symm.trans h
  · exact absurd (hc.symm.trans h) (by decide)

variable {a b : List Char}

lemma exists_alike (h : mask a = mask b) {u v : List Char} {c : Char} (hb : b = u ++ c :: v) :
    ∃ u' c' v', a = u' ++ c' :: v' ∧ u'.length = u.length ∧
      shown (State.code.after u') c' v' = shown (State.code.after u) c v := by
  have hlen : a.length = b.length := by
    rw [← length_maskFrom .code, ← mask_eq_maskFrom, h, mask_eq_maskFrom, length_maskFrom]
  obtain ⟨u', c', v', rfl, hu⟩ := exists_split (show u.length < a.length by simp [hlen, hb])
  refine ⟨u', c', v', rfl, hu, Option.some.inj ?_⟩
  rw [← getElem?_maskFrom, ← getElem?_maskFrom, ← mask_eq_maskFrom, ← mask_eq_maskFrom, ← hb, h,
    hu]

lemma inLiteral_iff_of_mask_eq {u u' v v' : List Char} (h : mask (u ++ v) = mask (u' ++ v'))
    (hu : u.length = u'.length) :
    (State.code.after u).InLiteral ↔ (State.code.after u').InLiteral := by
  rw [← State.inLiteral_after_mask_iff u v, ← State.inLiteral_after_mask_iff u' v', h, hu]

theorem Orderly.of_mask_eq (ha : Orderly a) (h : mask a = mask b) : Orderly b := by
  refine ⟨fun before after hb hlen => ?_, fun before after hb hlen hin => ?_⟩
  · obtain ⟨u, c, v, rfl, hu, hshown⟩ := exists_alike h hb
    rw [shown_newline] at hshown
    obtain rfl := eq_newline_of_shown hshown
    subst hb
    have hno := ha.lines u v rfl (by rw [h, hu]; exact hlen)
    have hmask : mask (u ++ ['\n'] ++ v) = mask (before ++ ['\n'] ++ after) := by simpa using h
    rwa [inLiteral_iff_of_mask_eq hmask (by simp [hu])] at hno
  · obtain ⟨u, c, v, rfl, hu, hshown⟩ := exists_alike h hb
    subst hb
    have hin' : (State.code.after u).InLiteral := (inLiteral_iff_of_mask_eq h hu).mpr hin
    rw [shown_of_inLiteral hin', shown_of_inLiteral hin] at hshown
    subst hshown
    exact ha.backslashes u v rfl (by rw [h, hu]; exact hlen) hin'

end HashedImports.Source
