import HashedImports.Proofs.Text.Words
import HashedImports.Table

namespace HashedImports.Table

open Text (IsUnbroken IsWord readLines words)

variable {rows : List (String × String)} {r : String × String} {n width : Nat}

lemma foldl_max_le_iff {ns : List Nat} {least : Nat} :
    ns.foldl max least ≤ n ↔ least ≤ n ∧ ∀ k ∈ ns, k ≤ n := by
  induction ns generalizing least with
  | nil => simp
  | cons k ns ih => rw [List.foldl_cons, ih, Nat.max_le, List.forall_mem_cons, and_assoc]

lemma columnWidth_le_iff :
    columnWidth rows ≤ n ↔ leastWidth ≤ n ∧ ∀ r ∈ rows, r.1.length < n := by
  rw [columnWidth, Nat.max_le]
  cases n with
  | zero => simp [leastWidth]
  | succ n =>
    rw [Nat.add_le_add_iff_right, foldl_max_le_iff, List.forall_mem_map]
    simp only [Nat.lt_succ_iff, Nat.zero_le, true_and]

lemma perm_sortedRows (m : OrderedMap String String) : (sortedRows m).Perm m.entries :=
  List.mergeSort_perm _ _

theorem pairwise_sortedRows (m : OrderedMap String String) :
    (sortedRows m).Pairwise fun a b => a.1 < b.1 := by
  have hsorted : (sortedRows m).Pairwise fun a b => decide (a.1 ≤ b.1) = true := by
    apply List.pairwise_mergeSort
    · intro a b c hab hbc
      exact decide_eq_true (String.le_trans (of_decide_eq_true hab) (of_decide_eq_true hbc))
    · intro a b
      simpa using String.le_total a.1 b.1
  have hkeys : (sortedRows m).Pairwise fun a b => a.1 ≠ b.1 :=
    List.pairwise_map.mp (((perm_sortedRows m).map Prod.fst).nodup_iff.mpr m.distinct)
  apply (hsorted.and hkeys).imp
  rintro a b ⟨hle, hne⟩
  exact String.not_le.mp fun hge => hne (String.le_antisymm (of_decide_eq_true hle) hge)

lemma words_row (hkey : IsWord r.1) (hvalue : IsWord r.2) (h : r.1.length < width) :
    words (row width r) = [r.1.toList, r.2.toList] := by
  obtain ⟨k, hk⟩ := Nat.exists_eq_add_of_lt h
  have hspaces : row width r = r.1.toList ++ ' ' :: (List.replicate k ' ' ++ r.2.toList) := by
    have hgap : width - r.1.length = k + 1 := by omega
    rw [row, hgap, List.replicate_succ]
    simp
  rw [hspaces, Text.words_append rfl, Text.words_blanks, Text.words_word hkey,
    Text.words_word hvalue]
  rfl

lemma drop_row (h : r.1.length < width) : (row width r).drop width = r.2.toList := by
  apply List.drop_left'
  rw [List.length_append, List.length_replicate, String.length_toList]
  omega

lemma row_ne_nil (h : r.1.length < width) : row width r ≠ [] := by
  have hgap : width - r.1.length ≠ 0 := by omega
  simp [row, hgap]

lemma not_isLineEnd_of_mem_row (hkey : IsUnbroken r.1) (hvalue : IsUnbroken r.2) :
    ∀ c ∈ row width r, Text.isLineEnd c = false := by
  intro c hc
  rw [row, List.mem_append, List.mem_append] at hc
  rcases hc with (hc | hc) | hc
  · exact Text.not_isLineEnd (hkey c hc)
  · rw [List.eq_of_mem_replicate hc]
    rfl
  · exact Text.not_isLineEnd (hvalue c hc)

lemma readLines_columns (headers : Option (String × String)) (m : OrderedMap String String)
    (h : ∀ r ∈ headers.toList ++ sortedRows m, IsUnbroken r.1 ∧ IsUnbroken r.2) :
    readLines (columns headers m).toList =
      (headers.toList ++ sortedRows m).map
        (row (columnWidth (headers.toList ++ sortedRows m))) := by
  rw [columns, String.toList_ofList]
  apply Text.readLines_intercalate
  intro line hline
  obtain ⟨r, hr, rfl⟩ := List.mem_map.mp hline
  obtain ⟨hkey, hvalue⟩ := h r hr
  have hlen := (columnWidth_le_iff.mp (Nat.le_refl _)).2 r hr
  exact ⟨row_ne_nil hlen, not_isLineEnd_of_mem_row hkey hvalue⟩

theorem columns_read_back (headers : Option (String × String)) (m : OrderedMap String String)
    (hheaders : ∀ r ∈ headers, IsUnbroken r.1 ∧ IsUnbroken r.2)
    (hm : ∀ r ∈ m.entries, IsWord r.1 ∧ IsWord r.2) :
    ∃ (rows : List (String × String)) (column : Nat),
      rows.Perm m.entries ∧ rows.Pairwise (fun a b => a.1 < b.1) ∧
        ((readLines (columns headers m).toList).drop headers.toList.length).map words =
          rows.map (fun r => [r.1.toList, r.2.toList]) ∧
        readLines (columns headers m).toList = (headers.toList ++ rows).map (fun r =>
          r.1.toList ++ List.replicate (column - r.1.length) ' ' ++ r.2.toList) ∧
        (readLines (columns headers m).toList).map (·.drop column) =
          (headers.toList ++ rows).map (fun r => r.2.toList) ∧
        12 ≤ column ∧ ∀ r ∈ headers.toList ++ rows, r.1.length + 1 ≤ column := by
  have hrows : ∀ r ∈ sortedRows m, IsWord r.1 ∧ IsWord r.2 := by
    intro r hr
    exact hm r ((perm_sortedRows m).mem_iff.mp hr)
  have hunbroken : ∀ r ∈ headers.toList ++ sortedRows m, IsUnbroken r.1 ∧ IsUnbroken r.2 := by
    intro r hr
    rcases List.mem_append.mp hr with hr | hr
    · exact hheaders r (Option.mem_toList.mp hr)
    · exact ⟨(hrows r hr).1.unbroken, (hrows r hr).2.unbroken⟩
  obtain ⟨hleast, hlen⟩ := columnWidth_le_iff.mp
    (Nat.le_refl (columnWidth (headers.toList ++ sortedRows m)))
  have hlines := readLines_columns headers m hunbroken
  refine ⟨sortedRows m, _, perm_sortedRows m, pairwise_sortedRows m, ?_, hlines, ?_, hleast, hlen⟩
  · rw [hlines, ← List.map_drop, List.drop_left, List.map_map]
    apply List.map_congr_left
    intro r hr
    obtain ⟨hkey, hvalue⟩ := hrows r hr
    exact words_row hkey hvalue (hlen r (List.mem_append_right _ hr))
  · rw [hlines, List.map_map]
    apply List.map_congr_left
    intro r hr
    exact drop_row (hlen r hr)

def pathTable : OrderedMap String String :=
  .ofList [("github.com/b/long-name", "gx/ipfs/QmB/long-name"), ("a", "x")]

theorem headed_table_read_back :
    (∀ r ∈ some ("from", "to"), IsUnbroken r.1 ∧ IsUnbroken r.2) ∧
      (∀ r ∈ pathTable.entries, IsWord r.1 ∧ IsWord r.2) ∧
      ∃ line ∈ (readLines (columns (some ("from", "to")) pathTable).toList).drop 1,
        words line = ["a".toList, "x".toList] := by
  have hheaders : ∀ r ∈ some ("from", "to"), IsUnbroken r.1 ∧ IsUnbroken r.2 := by
    rintro r ⟨⟩
    exact ⟨by decide, by decide⟩
  have hm : ∀ r ∈ pathTable.entries, IsWord r.1 ∧ IsWord r.2 := by
    decide
  obtain ⟨rows, column, hperm, -, hwords, -⟩ := columns_read_back _ pathTable hheaders hm
  have hrow : ("a", "x") ∈ rows := hperm.mem_iff.mpr (by decide)
  refine ⟨hheaders, hm, List.mem_map.mp ?_⟩
  exact hwords ▸ List.mem_map_of_mem hrow

end HashedImports.Table
