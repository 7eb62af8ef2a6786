import HashedImports.Proofs.Disk.Plain

/-! The order in which files are listed: in every directory its files by name, and after them, by
name, the directories with all that lies below each. -/

namespace HashedImports

/-- From a directory down, the one file is visited before the other. -/
inductive Precedes : List String → List String → Prop
  | file {a b} : a < b → Precedes [a] [b]
  | deeper {a b c bs} : Precedes [a] (b :: c :: bs)
  | directory {a b c d as bs} : a < b → Precedes (a :: c :: as) (b :: d :: bs)
  | inside {a as bs} : Precedes as bs → Precedes (a :: as) (a :: bs)

namespace Precedes

variable {as bs cs : List String}

lemma left_ne_nil (h : Precedes as bs) : as ≠ [] := by
  cases h <;> simp

lemma right_ne_nil (h : Precedes as bs) : bs ≠ [] := by
  cases h <;> simp

lemma trans (h : Precedes as bs) (h' : Precedes bs cs) : Precedes as cs := by
  induction h generalizing cs with
  | file h =>
    cases h' with
    | file h' => exact .file (String.lt_trans h h')
    | deeper => exact .deeper
    | inside h' => exact (h'.left_ne_nil rfl).elim
  | deeper =>
    cases h' with
    | directory h' => exact .deeper
    | inside h' =>
      obtain ⟨c, cs, rfl⟩ := List.exists_cons_of_ne_nil h'.right_ne_nil
      exact .deeper
  | directory h =>
    cases h' with
    | directory h' => exact .directory (String.lt_trans h h')
    | inside h' =>
      obtain ⟨c, cs, rfl⟩ := List.exists_cons_of_ne_nil h'.right_ne_nil
      exact .directory h
  | inside h ih =>
    cases h' with
    | file => exact (h.right_ne_nil rfl).elim
    | deeper => exact (h.right_ne_nil rfl).elim
    | directory h' =>
      obtain ⟨c, cs, rfl⟩ := List.exists_cons_of_ne_nil h.left_ne_nil
      exact .directory h'
    | inside h' => exact .inside (ih h')

end Precedes

lemma precedes_files_iff {a b : String} : Precedes [a] [b] ↔ a < b := by
  constructor
  · intro h
    cases h with
    | file h => exact h
    | inside h => exact (h.left_ne_nil rfl).elim
  · exact .file

lemma not_precedes_file {a b c : String} {as : List String} : ¬ Precedes (a :: b :: as) [c] := by
  intro h
  cases h with
  | inside h => exact h.right_ne_nil rfl

lemma precedes_deep_iff {a b c d : String} {as bs : List String} :
    Precedes (a :: c :: as) (b :: d :: bs) ↔ a < b ∨ a = b ∧ Precedes (c :: as) (d :: bs) := by
  constructor
  · intro h
    cases h with
    | directory h => exact Or.inl h
    | inside h => exact Or.inr ⟨rfl, h⟩
  · rintro (h | ⟨rfl, h⟩)
    · exact .directory h
    · exact .inside h

lemma le_iff_eq_or_lt {a b : String} : a ≤ b ↔ a = b ∨ a < b := by
  constructor
  · intro h
    by_cases hb : b ≤ a
    · exact Or.inl (String.le_antisymm h hb)
    · exact Or.inr (String.not_le.mp hb)
  · rintro (rfl | h)
    · exact String.le_refl a
    · exact String.not_lt.mp fun hb => String.lt_irrefl a (String.lt_trans h hb)

lemma visitedBefore_iff (as bs : List String) :
    visitedBefore as bs = true ↔ as = [] ∨ as = bs ∨ Precedes as bs := by
  match as, bs with
  | [], bs => simp [visitedBefore]
  | a :: as, [] =>
    have hno : ¬ Precedes (a :: as) [] := fun h => h.right_ne_nil rfl
    simp [visitedBefore, hno]
  | [a], [b] => simp [visitedBefore, precedes_files_iff, le_iff_eq_or_lt]
  | [a], b :: c :: bs => simp [visitedBefore, Precedes.deeper]
  | a :: b :: as, [c] => simp [visitedBefore, not_precedes_file]
  | a :: c :: as, b :: d :: bs =>
    rw [visitedBefore, precedes_deep_iff]
    · by_cases hab : a = b
      · have ih := visitedBefore_iff (c :: as) (d :: bs)
        simp only [reduceCtorEq, false_or] at ih
        simp [hab, ih]
      · simp [hab]
    · simp
    · simp
    · simp

lemma visitedBefore_trans (as bs cs : List String) (h : visitedBefore as bs = true)
    (h' : visitedBefore bs cs = true) : visitedBefore as cs = true := by
  rw [visitedBefore_iff] at h h' ⊢
  rcases h with rfl | rfl | h
  · exact Or.inl rfl
  · exact h'
  · rcases h' with rfl | rfl | h'
    · exact (h.right_ne_nil rfl).elim
    · exact Or.inr (Or.inr h)
    · exact Or.inr (Or.inr (h.trans h'))

lemma visitedBefore_total (as bs : List String) :
    visitedBefore as bs = true ∨ visitedBefore bs as = true := by
  match as, bs with
  | [], bs => exact Or.inl rfl
  | a :: as, [] => exact Or.inr rfl
  | [a], [b] => simpa [visitedBefore] using String.le_total a b
  | [a], b :: c :: bs => exact Or.inl rfl
  | a :: b :: as, [c] => exact Or.inr rfl
  | a :: c :: as, b :: d :: bs =>
    simp only [visitedBefore_iff, precedes_deep_iff, reduceCtorEq, false_or]
    have ih := visitedBefore_total (c :: as) (d :: bs)
    simp only [visitedBefore_iff, reduceCtorEq, false_or] at ih
    by_cases hab : a = b
    · subst hab
      simp only [List.cons.injEq, true_and, String.lt_irrefl, false_or]
      simpa using ih
    · rcases String.le_total a b with h | h
      · exact Or.inl (Or.inr (Or.inl ((le_iff_eq_or_lt.mp h).resolve_left hab)))
      · exact Or.inr (Or.inr (Or.inl ((le_iff_eq_or_lt.mp h).resolve_left (Ne.symm hab))))

namespace Disk

variable {d : Disk} {root : Path} {location : Location}

lemma nodup_filesBelow (d : Disk) (root : Path) : (d.filesBelow root).Nodup := by
  rw [filesBelow]
  split
  · next location _ =>
    refine (List.mergeSort_perm _ _).nodup_iff.mpr (List.pairwise_filterMap.mpr ?_)
    have hkeys := List.pairwise_map.mp d.tree.nodes.distinct
    refine hkeys.imp fun {e e'} hne names hnames names' hnames' he => hne ?_
    simp only [Option.ite_none_right_eq_some, Bool.and_eq_true, List.isPrefixOf_iff_prefix,
      Option.some.injEq] at hnames hnames'
    obtain ⟨⟨⟨rest, hrest⟩, -⟩, hdrop⟩ := hnames
    obtain ⟨⟨⟨rest', hrest'⟩, -⟩, hdrop'⟩ := hnames'
    rw [← hrest, List.drop_left] at hdrop
    rw [← hrest', List.drop_left] at hdrop'
    rw [← hrest, ← hrest', hdrop, hdrop', he]
  · exact List.nodup_nil

theorem pairwise_filesBelow (hp : d.tree.IsPlain)
    (h : d.locate root = .ok (.node location .directory)) :
    (d.filesBelow root).Pairwise Precedes := by
  have hsorted : (d.filesBelow root).Pairwise fun as bs => visitedBefore as bs = true := by
    rw [filesBelow, h]
    exact List.pairwise_mergeSort visitedBefore_trans
      (fun as bs => Bool.or_eq_true _ _ ▸ visitedBefore_total as bs) _
  have hnil : [] ∉ d.filesBelow root := by
    rw [mem_filesBelow_iff hp h, List.append_nil, locateFor_node h]
    simp
  refine (hsorted.and (nodup_filesBelow d root)).imp_of_mem fun hm _ hh => ?_
  obtain ⟨hbefore, hne⟩ := hh
  rcases (visitedBefore_iff _ _).mp hbefore with rfl | rfl | hprecedes
  · exact (hnil hm).elim
  · exact (hne rfl).elim
  · exact hprecedes

end Disk

end HashedImports
