import HashedImports.Text.Range
import Mathlib.Data.List.Basic

namespace HashedImports.Text

def lineEndRanges : List Range :=
  [(0xA, 0xD), (0x1C, 0x1E), (0x85, 0x85), (0x2028, 0x2029)]

def isLineEnd (c : Char) : Bool :=
  inRanges lineEndRanges c

/-- The lines of a text, without their ends. A line feed right after a carriage return ends no line
of its own, and nothing is read after the last end. -/
def readLines : List Char → List (List Char)
  | [] => []
  | '\r' :: '\n' :: cs => [] :: readLines cs
  | c :: cs =>
    if isLineEnd c then [] :: readLines cs
    else
      match readLines cs with
      | [] => [[c]]
      | line :: lines => (c :: line) :: lines

def words (cs : List Char) : List (List Char) :=
  (cs.splitOnP isBlank).filter (· ≠ [])

def IsUnbroken (s : String) : Prop :=
  ∀ c ∈ s.toList, isBlank c = false

instance (s : String) : Decidable (IsUnbroken s) :=
  decidable_of_iff (s.toList.any isBlank = false) (by simp [IsUnbroken])

structure IsWord (s : String) : Prop where
  ne_empty : s ≠ ""
  unbroken : IsUnbroken s

instance (s : String) : Decidable (IsWord s) :=
  decidable_of_iff (s ≠ "" ∧ IsUnbroken s) ⟨fun ⟨hne, hs⟩ => ⟨hne, hs⟩, fun h => ⟨h.1, h.2⟩⟩

variable {c : Char} {cs line : List Char} {s : String}

lemma isBlank_of_isLineEnd (h : isLineEnd c = true) : isBlank c = true := by
  obtain ⟨r, hr, hle, hge⟩ := inRanges_iff.mp h
  apply inRanges_iff.mpr
  simp only [lineEndRanges, List.mem_cons, List.not_mem_nil, or_false] at hr
  rcases hr with rfl | rfl | rfl | rfl
  · exact ⟨(0x9, 0xD), by simp [blankRanges], by omega, hge⟩
  · exact ⟨(0x1C, 0x20), by simp [blankRanges], hle, by omega⟩
  · exact ⟨(0x85, 0x85), by simp [blankRanges], hle, hge⟩
  · exact ⟨(0x2028, 0x2029), by simp [blankRanges], hle, hge⟩

lemma not_isLineEnd (h : isBlank c = false) : isLineEnd c = false := by
  apply Bool.eq_false_iff.mpr
  intro hend
  rw [isBlank_of_isLineEnd hend] at h
  cases h

lemma readLines_cons (h : isLineEnd c = false) (cs : List Char) :
    readLines (c :: cs) =
      match readLines cs with
      | [] => [[c]]
      | line :: lines => (c :: line) :: lines := by
  rw [readLines, if_neg (by simp [h])]
  rintro ds rfl
  cases h

lemma readLines_line (hne : line ≠ []) (h : ∀ c ∈ line, isLineEnd c = false) :
    readLines line = [line] := by
  induction line with
  | nil => exact (hne rfl).elim
  | cons c line ih =>
    obtain ⟨hc, hline⟩ := List.forall_mem_cons.mp h
    rw [readLines_cons hc]
    cases line with
    | nil => rfl
    | cons d line => rw [ih (List.cons_ne_nil d line) hline]

lemma readLines_append (h : ∀ c ∈ line, isLineEnd c = false) (cs : List Char) :
    readLines (line ++ '\n' :: cs) = line :: readLines cs := by
  induction line with
  | nil => rfl
  | cons c line ih =>
    obtain ⟨hc, hline⟩ := List.forall_mem_cons.mp h
    rw [List.cons_append, readLines_cons hc, ih hline]

theorem readLines_intercalate {lines : List (List Char)}
    (h : ∀ line ∈ lines, line ≠ [] ∧ ∀ c ∈ line, isLineEnd c = false) :
    readLines (['\n'].intercalate lines) = lines := by
  induction lines with
  | nil => rfl
  | cons line lines ih =>
    obtain ⟨⟨hne, hline⟩, hlines⟩ := List.forall_mem_cons.mp h
    cases lines with
    | nil =>
      rw [List.intercalate_singleton]
      exact readLines_line hne hline
    | cons next lines =>
      rw [List.intercalate_cons_cons, List.append_assoc, List.singleton_append,
        readLines_append hline, ih hlines]

lemma words_append (h : isBlank c = true) (cs ds : List Char) :
    words (cs ++ c :: ds) = words cs ++ words ds := by
  rw [words, List.splitOnP_append_cons cs ds h, List.filter_append, words, words]

lemma words_blanks (n : Nat) (cs : List Char) : words (List.replicate n ' ' ++ cs) = words cs := by
  induction n with
  | zero => rfl
  | succ n ih => exact (words_append rfl [] _).trans ih

lemma words_word (h : IsWord s) : words s.toList = [s.toList] := by
  have hne : s.toList ≠ [] := fun he => h.ne_empty (String.toList_eq_nil_iff.mp he)
  rw [words, List.splitOnP_eq_singleton h.unbroken]
  simp [hne]

end HashedImports.Text
