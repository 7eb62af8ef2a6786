import HashedImports.Path
import HashedImports.Proofs.Text.Split

namespace HashedImports.Path

def IsNormal (names : List String) : Prop :=
  ∀ name ∈ names, name ≠ "" ∧ name ≠ "." ∧ '/' ∉ name.toList

def kept (pieces : List (List Char)) : List String :=
  (pieces.filter fun piece => piece ≠ [] ∧ piece ≠ ['.']).map String.ofList

variable {p : Path} {names : List String} {piece : List Char} {pieces : List (List Char)}

lemma namesOf_eq_kept (cs : List Char) : namesOf cs = kept (Text.splitOn '/' cs) := rfl

lemma kept_append (xs ys : List (List Char)) : kept (xs ++ ys) = kept xs ++ kept ys := by
  rw [kept, List.filter_append, List.map_append, kept, kept]

lemma kept_cons_of_ne (hne : piece ≠ []) (hdot : piece ≠ ['.']) (pieces : List (List Char)) :
    kept (piece :: pieces) = String.ofList piece :: kept pieces := by
  rw [kept, List.filter_cons_of_pos (by simp [hne, hdot]), List.map_cons, kept]

lemma kept_cons_of_lt (h : 1 < piece.length) (pieces : List (List Char)) :
    kept (piece :: pieces) = String.ofList piece :: kept pieces := by
  apply kept_cons_of_ne <;> rintro rfl <;> simp at h

lemma kept_toList (h : IsNormal names) : kept (names.map String.toList) = names := by
  induction names with
  | nil => rfl
  | cons name names ih =>
    obtain ⟨hne, hdot, -⟩ := h name List.mem_cons_self
    have hrest : IsNormal names := fun n hn => h n (List.mem_cons_of_mem name hn)
    rw [List.map_cons, kept_cons_of_ne, ih hrest, String.ofList_toList]
    · rwa [Ne, String.toList_eq_nil_iff]
    · intro he
      exact hdot (String.toList_inj.mp he)

lemma isNormal_kept (h : ∀ piece ∈ pieces, '/' ∉ piece) : IsNormal (kept pieces) := by
  intro name hn
  obtain ⟨piece, hp, rfl⟩ := List.mem_map.mp hn
  obtain ⟨hm, hk⟩ := List.mem_filter.mp hp
  obtain ⟨hne, hdot⟩ := of_decide_eq_true hk
  refine ⟨fun he => hne ?_, fun he => hdot ?_, ?_⟩
  · simpa using congrArg String.toList he
  · simpa using congrArg String.toList he
  · simpa using h piece hm

lemma isNormal_ofString (s : String) : IsNormal (ofString s).names :=
  isNormal_kept fun _ => Text.not_mem_of_mem_splitOn

lemma splitOn_text_append (a : Anchor) : ∃ pieces, kept pieces = [] ∧
    ∀ cs, Text.splitOn '/' (Anchor.text a ++ cs) = pieces ++ Text.splitOn '/' cs := by
  cases a with
  | relative => exact ⟨[], rfl, fun _ => rfl⟩
  | root => exact ⟨[[]], rfl, fun _ => rfl⟩
  | doubleRoot => exact ⟨[[], []], rfl, fun _ => rfl⟩

lemma text_of_ne_nil (h : p.names ≠ []) :
    p.text = Anchor.text p.anchor ++ Text.joinWith ['/'] (p.names.map String.toList) :=
  if_neg fun hr => h hr.2

lemma IsNormal.map_toList (h : IsNormal names) :
    ∀ piece ∈ names.map String.toList, piece ≠ [] ∧ '/' ∉ piece := by
  intro piece hm
  obtain ⟨name, hn, rfl⟩ := List.mem_map.mp hm
  obtain ⟨hne, -, hslash⟩ := h name hn
  exact ⟨fun he => hne (String.toList_eq_nil_iff.mp he), hslash⟩

lemma splitOn_names (h : IsNormal names) (hne : names ≠ []) :
    Text.splitOn '/' (Text.joinWith ['/'] (names.map String.toList)) = names.map String.toList := by
  apply Text.splitOn_joinWith
  · rwa [Ne, List.map_eq_nil_iff]
  · intro piece hm
    exact (h.map_toList piece hm).2

lemma namesOf_text (h : IsNormal p.names) : namesOf p.text = p.names := by
  obtain ⟨anchor, names⟩ := p
  by_cases hne : names = []
  · subst hne
    cases anchor <;> rfl
  · obtain ⟨pieces, hnone, hsplit⟩ := splitOn_text_append anchor
    rw [text_of_ne_nil hne, namesOf_eq_kept, hsplit, splitOn_names h hne, kept_append, hnone,
      kept_toList h, List.nil_append]

lemma anchorOf_append (u : List Char) {cs : List Char} (h : cs.head? ≠ some '/') :
    anchorOf (u ++ cs) = anchorOf u := by
  cases cs with
  | nil => rw [List.append_nil]
  | cons c cs =>
    have hc : c ≠ '/' := fun he => h (congrArg some he)
    rcases u with _ | ⟨d, _ | ⟨e, _ | ⟨f, u⟩⟩⟩
    · simp [anchorOf, hc]
    · by_cases hd : d = '/' <;> simp [anchorOf, hc, hd]
    · by_cases hd : d = '/' <;> by_cases he : e = '/' <;> simp [anchorOf, hc, hd, he]
    · by_cases hd : d = '/' <;> by_cases he : e = '/' <;> by_cases hf : f = '/' <;>
        simp [anchorOf, hd, he, hf]

lemma anchorOf_text (h : IsNormal p.names) : anchorOf p.text = p.anchor := by
  obtain ⟨anchor, names⟩ := p
  cases names with
  | nil => cases anchor <;> rfl
  | cons name names =>
    have hanchor : anchorOf (Anchor.text anchor) = anchor := by
      cases anchor <;> rfl
    rw [text_of_ne_nil (List.cons_ne_nil _ _)]
    refine (anchorOf_append _ ?_).trans hanchor
    obtain ⟨hne, -, hslash⟩ := h name List.mem_cons_self
    obtain ⟨rest, hjoin⟩ := Text.exists_joinWith_cons ['/'] name.toList (names.map String.toList)
    rw [List.map_cons, hjoin]
    cases hname : name.toList with
    | nil => exact (hne (String.toList_eq_nil_iff.mp hname)).elim
    | cons c cs =>
      rintro hc
      obtain rfl : c = '/' := Option.some.inj hc
      exact hslash (hname ▸ List.mem_cons_self)

theorem ofString_render (s : String) : ofString (ofString s).render = ofString s := by
  have h := isNormal_ofString s
  rw [ofString, render, String.toList_ofList, anchorOf_text h, namesOf_text h]

end HashedImports.Path
