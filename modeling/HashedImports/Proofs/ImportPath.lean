import HashedImports.ImportPath
import HashedImports.Proofs.Source.Literals
import HashedImports.Proofs.Table.Lookup

namespace HashedImports.ImportPath

open Table (StandsAbove)

def isSegmentChar (c : Char) : Bool :=
  c.isAlphanum || "._-~+".toList.contains c

def isPathChar (c : Char) : Bool :=
  c == '/' || isSegmentChar c

structure IsSegment (s : String) : Prop where
  ne_empty : s ≠ ""
  chars : ∀ c ∈ s.toList, isSegmentChar c = true

instance (s : String) : Decidable (IsSegment s) :=
  decidable_of_iff (s ≠ "" ∧ s.toList.all isSegmentChar = true)
    ⟨fun h => ⟨h.1, List.all_eq_true.mp h.2⟩, fun h => ⟨h.ne_empty, List.all_eq_true.mpr h.chars⟩⟩

def IsWithin (outer path : String) : Prop :=
  path = outer ∨ StandsAbove outer path

instance (outer path : String) : Decidable (IsWithin outer path) := by
  rw [IsWithin, StandsAbove]
  infer_instance

def Continues (rest : String) : Prop :=
  rest = "" ∨ ∃ cs, rest.toList = '/' :: cs

lemma IsSegment.slash {s : String} (h : IsSegment s) : '/' ∉ s.toList :=
  fun hm => absurd (h.chars '/' hm) (by decide)

lemma standsAbove_append_iff {outer rest : String} :
    StandsAbove outer (outer ++ rest) ↔ ∃ cs, rest.toList = '/' :: cs := by
  rw [StandsAbove, String.toList_append, List.prefix_append_right_inj]
  constructor
  · rintro ⟨cs, h⟩
    exact ⟨cs, h.symm⟩
  · rintro ⟨cs, h⟩
    exact ⟨cs, h.symm⟩

lemma isWithin_iff {outer path : String} :
    IsWithin outer path ↔ ∃ rest, path = outer ++ rest ∧ Continues rest := by
  constructor
  · rintro (rfl | h)
    · exact ⟨"", String.append_empty.symm, Or.inl rfl⟩
    · obtain ⟨rest, rfl⟩ := h.exists_rest
      exact ⟨rest, rfl, Or.inr (standsAbove_append_iff.mp h)⟩
  · rintro ⟨rest, rfl, rfl | h⟩
    · exact Or.inl String.append_empty
    · exact Or.inr (standsAbove_append_iff.mpr h)

lemma toList_hashed (hash name : String) : (hashed hash name).toList =
    "gx/ipfs/".toList ++ (hash.toList ++ '/' :: name.toList) := by
  simp [hashed, hashRoot]

lemma isPathChar_of_mem_hashed {hash name : String} (hh : IsSegment hash) (hn : IsSegment name)
    {c : Char} (h : c ∈ (hashed hash name).toList) : isPathChar c = true := by
  have hroot : ∀ c ∈ "gx/ipfs/".toList, isPathChar c = true := List.all_eq_true.mp (by decide)
  rw [toList_hashed] at h
  simp only [List.mem_append, List.mem_cons] at h
  rcases h with h | h | rfl | h
  · exact hroot c h
  · simp [isPathChar, hh.chars c h]
  · decide
  · simp [isPathChar, hn.chars c h]

lemma segment_append_inj {a b rest rest' : String} (ha : IsSegment a) (hb : IsSegment b)
    (hr : Continues rest) (hr' : Continues rest') (h : a ++ rest = b ++ rest') : a = b := by
  have hl := congrArg String.toList h
  rw [String.toList_append, String.toList_append] at hl
  rcases hr with rfl | ⟨cs, hr⟩ <;> rcases hr' with rfl | ⟨cs', hr'⟩
  · exact String.toList_inj.mp (by simpa using hl)
  · rw [hr', String.toList_empty, List.append_nil] at hl
    exact (ha.slash (hl ▸ by simp)).elim
  · rw [hr, String.toList_empty, List.append_nil] at hl
    exact (hb.slash (hl ▸ by simp)).elim
  · rw [hr, hr'] at hl
    exact String.toList_inj.mp (Source.append_cons_inj_of_not_mem ha.slash hb.slash hl).1

lemma hashed_of_isWithin {hash hash' name name' rest : String} (hh : IsSegment hash)
    (hh' : IsSegment hash') (hn : IsSegment name) (hn' : IsSegment name') (hr : Continues rest)
    (h : IsWithin (hashed hash' name') (hashed hash name ++ rest)) :
    hash' = hash ∧ name' = name := by
  obtain ⟨rest', he, hr'⟩ := isWithin_iff.mp h
  have hl := congrArg String.toList he
  rw [String.toList_append, String.toList_append, toList_hashed, toList_hashed] at hl
  simp only [List.append_assoc, List.cons_append] at hl
  obtain ⟨hash_eq, htail⟩ := Source.append_cons_inj_of_not_mem hh.slash hh'.slash
    (List.append_cancel_left hl)
  have hnames : name ++ rest = name' ++ rest' := by
    rw [← String.toList_inj, String.toList_append, String.toList_append, htail]
  exact ⟨(String.toList_inj.mp hash_eq).symm, (segment_append_inj hn hn' hr hr' hnames).symm⟩

lemma isWithin_gx_of_isWithin_hashed {hash name key rest : String} (hne : key ≠ "")
    (h : IsWithin key (hashed hash name ++ rest)) : IsWithin "gx" key := by
  obtain ⟨more, he, hc⟩ := isWithin_iff.mp h
  have hl := congrArg String.toList he
  rw [String.toList_append, String.toList_append, toList_hashed] at hl
  rcases hk : key.toList with _ | ⟨c, _ | ⟨c', tail⟩⟩
  · exact (hne (String.toList_inj.mp hk)).elim
  · rw [hk] at hl
    rcases hc with rfl | ⟨cs, hcs⟩
    · simp at hl
    · rw [hcs] at hl
      simp at hl
  · rw [hk] at hl
    simp only [String.reduceToList, List.cons_append, List.cons.injEq] at hl
    obtain ⟨rfl, rfl, hl⟩ := hl
    cases tail with
    | nil => exact Or.inl (String.toList_inj.mp hk)
    | cons c tail =>
      obtain ⟨rfl, -⟩ := List.cons.inj hl
      exact Or.inr ⟨tail, hk.symm⟩

end HashedImports.ImportPath
