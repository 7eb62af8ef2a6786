/-!
Line ends: every line of a text ends in a line feed once `unifyLines` has read it.
-/

namespace HashedImports.Text

def unifyLines : List Char → List Char
  | [] => []
  | '\r' :: '\n' :: cs => '\n' :: unifyLines cs
  | c :: cs => (if c = '\r' then '\n' else c) :: unifyLines cs

theorem unifyLines_of_not_mem {cs : List Char} (h : '\r' ∉ cs) : unifyLines cs = cs := by
  fun_induction unifyLines cs with
  | case1 => rfl
  | case2 cs ih => simp at h
  | case3 c cs _ ih =>
    simp only [List.mem_cons, not_or] at h
    rw [if_neg (Ne.symm h.1), ih h.2]

theorem return_not_mem_unifyLines (cs : List Char) : '\r' ∉ unifyLines cs := by
  fun_induction unifyLines cs with
  | case1 => simp
  | case2 cs ih => simp [ih]
  | case3 c cs _ ih =>
    simp only [List.mem_cons, not_or]
    refine ⟨?_, ih⟩
    split
    · decide
    · next h => exact Ne.symm h

theorem unifyLines_append {cs : List Char} (h : '\r' ∉ cs) (ds : List Char) :
    unifyLines (cs ++ ds) = cs ++ unifyLines ds := by
  induction cs with
  | nil => rfl
  | cons c cs ih =>
    rw [List.mem_cons, not_or] at h
    rw [List.cons_append, unifyLines, if_neg (Ne.symm h.1), ih h.2]
    · rfl
    · rintro cs' hc
      exact (h.1 hc.symm).elim

end HashedImports.Text
