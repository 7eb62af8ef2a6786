/-!
Terminal escape sequences: an escape character, a left bracket, parameters, intermediate characters
and a final one.
-/

namespace HashedImports.Text

def isParameter (c : Char) : Bool :=
  '0' ≤ c && c ≤ '?'

def isIntermediate (c : Char) : Bool :=
  ' ' ≤ c && c ≤ '/'

def isFinal (c : Char) : Bool :=
  '@' ≤ c && c ≤ '~'

def afterEscape? (cs : List Char) : Option (List Char) :=
  match (cs.dropWhile isParameter).dropWhile isIntermediate with
  | [] => none
  | c :: rest => if isFinal c then some rest else none

theorem length_afterEscape? {cs rest : List Char} (h : afterEscape? cs = some rest) :
    rest.length < cs.length := by
  have h₁ : (cs.dropWhile isParameter).length ≤ cs.length :=
    (List.dropWhile_sublist isParameter).length_le
  have h₂ : ((cs.dropWhile isParameter).dropWhile isIntermediate).length ≤
      (cs.dropWhile isParameter).length :=
    (List.dropWhile_sublist isIntermediate).length_le
  unfold afterEscape? at h
  split at h
  · simp at h
  · next he =>
    rw [he, List.length_cons] at h₂
    split at h
    · have := Option.some.inj h
      subst this
      omega
    · simp at h

def plain (cs : List Char) : List Char :=
  match cs with
  | [] => []
  | c :: cs =>
    if c = '\x1b' then
      match cs with
      | '[' :: more =>
        match h : afterEscape? more with
        | some rest =>
          have := length_afterEscape? h
          plain rest
        | none => c :: plain ('[' :: more)
      | cs => c :: plain cs
    else c :: plain cs
termination_by cs.length
decreasing_by all_goals simp_all; try omega

end HashedImports.Text
