/-!
Sets of characters given by ranges of code points. White space is one of them.
-/

namespace HashedImports.Text

abbrev Range := Nat × Nat

def Range.contains (r : Range) (n : Nat) : Bool :=
  r.1 ≤ n && n ≤ r.2

def inRanges (rs : List Range) (c : Char) : Bool :=
  rs.any (·.contains c.toNat)

theorem inRanges_iff {rs : List Range} {c : Char} :
    inRanges rs c = true ↔ ∃ r ∈ rs, r.1 ≤ c.toNat ∧ c.toNat ≤ r.2 := by
  simp [inRanges, Range.contains]

def blankRanges : List Range :=
  [(0x9, 0xD), (0x1C, 0x20), (0x85, 0x85), (0xA0, 0xA0), (0x1680, 0x1680), (0x2000, 0x200A),
    (0x2028, 0x2029), (0x202F, 0x202F), (0x205F, 0x205F), (0x3000, 0x3000)]

def isBlank (c : Char) : Bool :=
  inRanges blankRanges c

theorem isBlank_of_isWhitespace {c : Char} (h : c.isWhitespace = true) : isBlank c = true := by
  simp [Char.isWhitespace] at h
  rcases h with ((rfl | rfl) | rfl) | rfl <;> decide

def strip (cs : List Char) : List Char :=
  ((cs.dropWhile isBlank).reverse.dropWhile isBlank).reverse

end HashedImports.Text
