import HashedImports.Text.Split
import Mathlib.Data.List.Basic

namespace HashedImports.Text

lemma joinWith_cons_cons (sep x y : List Char) (ys : List (List Char)) :
    joinWith sep (x :: y :: ys) = x ++ sep ++ joinWith sep (y :: ys) := rfl

lemma joinWith_cons (sep : Char) (x : List Char) {ys : List (List Char)} (h : ys ≠ []) :
    joinWith [sep] (x :: ys) = x ++ sep :: joinWith [sep] ys := by
  cases ys with
  | nil => exact (h rfl).elim
  | cons y ys => simp [joinWith_cons_cons]

lemma joinWith_append (sep : Char) (xs : List (List Char)) (x w : List Char)
    (ys : List (List Char)) : joinWith [sep] (xs ++ (x ++ w) :: ys) =
      joinWith [sep] (xs ++ [x]) ++ joinWith [sep] (w :: ys) := by
  induction xs with
  | nil =>
    cases ys with
    | nil => rfl
    | cons y ys => simp [joinWith]
  | cons z xs ih =>
    have hlong : xs ++ (x ++ w) :: ys ≠ [] := by simp
    have hshort : xs ++ [x] ≠ [] := by simp
    rw [List.cons_append, List.cons_append, joinWith_cons _ _ hlong, joinWith_cons _ _ hshort, ih,
      List.append_assoc, List.cons_append]

lemma joinWith_append_of_ne_nil (sep : Char) {xs ys : List (List Char)} (hx : xs ≠ [])
    (hy : ys ≠ []) :
    joinWith [sep] (xs ++ ys) = joinWith [sep] xs ++ sep :: joinWith [sep] ys := by
  induction xs with
  | nil => exact (hx rfl).elim
  | cons x xs ih =>
    by_cases hnil : xs = []
    · subst hnil
      exact joinWith_cons sep x hy
    · rw [List.cons_append, joinWith_cons sep x (by simp [hnil]), ih hnil, joinWith_cons sep x hnil,
        List.append_assoc, List.cons_append]

lemma exists_joinWith_cons (sep x : List Char) (xs : List (List Char)) :
    ∃ rest, joinWith sep (x :: xs) = x ++ rest := by
  cases xs with
  | nil => exact ⟨[], (List.append_nil x).symm⟩
  | cons y ys => exact ⟨_, List.append_assoc _ _ _⟩

lemma splitOn_of_not_mem {sep : Char} {x : List Char} (h : sep ∉ x) : splitOn sep x = [x] := by
  induction x with
  | nil => rfl
  | cons c x ih =>
    rw [List.mem_cons, not_or] at h
    rw [splitOn, if_neg (Ne.symm h.1), ih h.2]

lemma splitOn_append {sep : Char} {x : List Char} (h : sep ∉ x) (cs : List Char) :
    splitOn sep (x ++ sep :: cs) = x :: splitOn sep cs := by
  induction x with
  | nil => simp [splitOn]
  | cons c x ih =>
    rw [List.mem_cons, not_or] at h
    rw [List.cons_append, splitOn, if_neg (Ne.symm h.1), ih h.2]

lemma splitOn_joinWith {sep : Char} {xs : List (List Char)} (hne : xs ≠ [])
    (h : ∀ x ∈ xs, sep ∉ x) : splitOn sep (joinWith [sep] xs) = xs := by
  induction xs with
  | nil => exact (hne rfl).elim
  | cons x xs ih =>
    have hx := h x List.mem_cons_self
    cases xs with
    | nil => exact splitOn_of_not_mem hx
    | cons y ys =>
      rw [joinWith_cons _ _ (by simp), splitOn_append hx,
        ih (by simp) fun z hz => h z (List.mem_cons_of_mem _ hz)]

lemma not_mem_of_mem_splitOn {sep : Char} {cs x : List Char} (h : x ∈ splitOn sep cs) :
    sep ∉ x := by
  induction cs generalizing x with
  | nil =>
    rw [splitOn, List.mem_singleton] at h
    simp [h]
  | cons c cs ih =>
    rw [splitOn] at h
    split at h
    · rcases List.mem_cons.mp h with rfl | h
      · simp
      · exact ih h
    · next hc =>
      split at h
      · next hs => exact (splitOn_ne_nil sep cs hs).elim
      · next y ys hs =>
        rcases List.mem_cons.mp h with rfl | h
        · rw [List.mem_cons, not_or]
          exact ⟨Ne.symm hc, ih (hs ▸ List.mem_cons_self)⟩
        · exact ih (hs ▸ List.mem_cons_of_mem _ h)

lemma exists_splitOn_append (sep : Char) (x : List Char) : ∃ pieces last,
    splitOn sep x = pieces ++ [last] ∧
      ∀ y, splitOn sep (x ++ y) = pieces ++ splitOn sep (last ++ y) := by
  induction x with
  | nil => exact ⟨[], [], rfl, fun _ => rfl⟩
  | cons c x ih =>
    obtain ⟨pieces, last, hx, hxy⟩ := ih
    by_cases hc : c = sep
    · refine ⟨[] :: pieces, last, ?_, fun y => ?_⟩
      · rw [splitOn, if_pos hc, hx, List.cons_append]
      · rw [List.cons_append, splitOn, if_pos hc, hxy, List.cons_append]
    · cases pieces with
      | nil =>
        refine ⟨[], c :: last, ?_, fun y => ?_⟩
        · rw [splitOn, if_neg hc, hx]
          rfl
        · rw [List.cons_append, splitOn, if_neg hc, hxy, List.nil_append, List.cons_append,
            List.nil_append, splitOn, if_neg hc]
      | cons piece pieces =>
        refine ⟨(c :: piece) :: pieces, last, ?_, fun y => ?_⟩
        · rw [splitOn, if_neg hc, hx]
          rfl
        · rw [List.cons_append, splitOn, if_neg hc, hxy]
          rfl

lemma exists_splitOn_of_not_mem {sep : Char} {w : List Char} (h : sep ∉ w) (x : List Char) :
    ∃ rest pieces, splitOn sep (w ++ x) = (w ++ rest) :: pieces := by
  induction w with
  | nil => exact List.exists_cons_of_ne_nil (splitOn_ne_nil sep x)
  | cons c w ih =>
    rw [List.mem_cons, not_or] at h
    obtain ⟨rest, pieces, hw⟩ := ih h.2
    refine ⟨rest, pieces, ?_⟩
    rw [List.cons_append, splitOn, if_neg (Ne.symm h.1), hw]
    rfl

lemma afterPrefix?_append {w : List Char} {c : Char} (h : c ∉ w) (x v : List Char) :
    afterPrefix? w (x ++ c :: v) = (afterPrefix? w x).map (· ++ c :: v) := by
  cases hx : afterPrefix? w x with
  | some rest =>
    rw [afterPrefix?_eq_some] at hx
    rw [Option.map_some, afterPrefix?_eq_some, hx, List.append_assoc]
  | none =>
    rw [Option.map_none, Option.eq_none_iff_forall_ne_some]
    intro rest hr
    rw [afterPrefix?_eq_some] at hr
    rcases List.append_eq_append_iff.mp hr with ⟨y, rfl, hy⟩ | ⟨y, rfl, -⟩
    · cases y with
      | nil => simp [afterPrefix?] at hx
      | cons d y =>
        obtain ⟨rfl, -⟩ := List.cons.inj hy
        exact h (by simp)
    · simp [afterPrefix?] at hx

lemma prefix_append_cases {w x y : List Char} (h : w <+: x ++ y) :
    w <+: x ∨ ∃ z, w = x ++ z ∧ z <+: y := by
  obtain ⟨t, ht⟩ := h
  rcases List.append_eq_append_iff.mp ht with ⟨z, hx, -⟩ | ⟨z, hw, hy⟩
  · exact Or.inl ⟨z, hx.symm⟩
  · exact Or.inr ⟨z, hw, t, hy.symm⟩

lemma suffix_append_cons_iff {sep : Char} {w : List Char} (h : sep ∉ w) (x z : List Char) :
    w <:+ x ++ sep :: z ↔ w <:+ z := by
  constructor
  · intro hw
    rcases List.suffix_or_suffix_of_suffix hw (List.suffix_append x (sep :: z)) with hs | hs
    · rcases List.suffix_cons_iff.mp hs with rfl | hs
      · exact (h List.mem_cons_self).elim
      · exact hs
    · exact (h (hs.subset List.mem_cons_self)).elim
  · intro hw
    exact (hw.trans (List.suffix_cons sep z)).trans (List.suffix_append x (sep :: z))

lemma suffix_joinWith_iff {sep : Char} {w : List Char} (h : sep ∉ w) (xs : List (List Char))
    (x : List Char) : w <:+ joinWith [sep] (xs ++ [x]) ↔ w <:+ x := by
  induction xs with
  | nil => exact Iff.rfl
  | cons y ys ih =>
    rw [List.cons_append, joinWith_cons _ _ (by simp), suffix_append_cons_iff h, ih]

lemma cutAt?_cons (needle : List Char) (c : Char) (cs : List Char) :
    cutAt? needle (c :: cs) =
      if needle <+: c :: cs then some ([], (c :: cs).drop needle.length)
      else (cutAt? needle cs).map fun cut => (c :: cut.1, cut.2) := by
  simp only [cutAt?, List.isPrefixOf_iff_prefix]

lemma cutAt?_eq_none_iff {needle cs : List Char} :
    cutAt? needle cs = none ↔ ∀ u v, cs ≠ u ++ needle ++ v := by
  induction cs with
  | nil => cases needle <;> simp [cutAt?]
  | cons c cs ih =>
    rw [cutAt?_cons]
    split
    · next hp =>
      obtain ⟨v, hv⟩ := hp
      refine iff_of_false (by simp) fun h => h [] v ?_
      simpa using hv.symm
    · next hp =>
      rw [Option.map_eq_none_iff, ih]
      constructor
      · intro h u v he
        cases u with
        | nil => exact hp ⟨v, by simpa using he.symm⟩
        | cons d u => exact h u v (List.cons.inj he).2
      · intro h u v he
        exact h (c :: u) v (by simp [he])

lemma cutAt?_eq_some {needle cs u v : List Char} (h : cutAt? needle cs = some (u, v)) :
    cs = u ++ needle ++ v ∧ ∀ u' v', cs = u' ++ needle ++ v' → u <+: u' := by
  induction cs generalizing u with
  | nil =>
    cases needle with
    | nil =>
      cases h
      exact ⟨rfl, fun _ _ _ => List.nil_prefix⟩
    | cons => cases h
  | cons c cs ih =>
    rw [cutAt?_cons] at h
    split at h
    · next hp =>
      cases h
      obtain ⟨v, hv⟩ := hp
      exact ⟨by simp [← hv], fun _ _ _ => List.nil_prefix⟩
    · next hp =>
      obtain ⟨⟨u, v⟩, hcut, he⟩ := Option.map_eq_some_iff.mp h
      cases he
      obtain ⟨hcs, hfirst⟩ := ih hcut
      refine ⟨by simp [hcs], fun u' v' he => ?_⟩
      cases u' with
      | nil => exact (hp ⟨v', by simpa using he.symm⟩).elim
      | cons d u' =>
        obtain ⟨rfl, htail⟩ := List.cons.inj he
        exact (List.prefix_cons_inj c).mpr (hfirst u' v' htail)

lemma cutAt?_eq_none {needle cs : List Char} {c : Char} (hn : c ∈ needle) (h : c ∉ cs) :
    cutAt? needle cs = none := by
  rw [cutAt?_eq_none_iff]
  rintro u v rfl
  exact h (by simp [hn])

end HashedImports.Text
