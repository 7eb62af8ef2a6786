/-!
Comments and literals of a source text. `mask` blanks the comments and keeps every other character,
and every line break, in its place.
-/

namespace HashedImports.Source

def blanked (c : Char) : Char :=
  if c = '\n' then '\n' else ' '

def lineRest (cs : List Char) : List Char × List Char :=
  (cs.takeWhile (· ≠ '\n'), cs.dropWhile (· ≠ '\n'))

def blockRest : List Char → List Char × List Char
  | [] => ([], [])
  | '*' :: '/' :: cs => (['*', '/'], cs)
  | c :: cs => (c :: (blockRest cs).1, (blockRest cs).2)

def rawRest : List Char → List Char × List Char
  | [] => ([], [])
  | c :: cs => if c = '\x60' then ([c], cs) else (c :: (rawRest cs).1, (rawRest cs).2)

/-- What comes up to the closing quotation mark or the end of the line, included, and the rest. A
backslash keeps the next character from closing the literal. -/
def literalRest (quote : Char) : List Char → List Char × List Char
  | [] => ([], [])
  | ['\\'] => (['\\'], [])
  | '\\' :: c :: cs =>
    ('\\' :: c :: (literalRest quote cs).1, (literalRest quote cs).2)
  | c :: cs =>
    if c = quote ∨ c = '\n' then ([c], cs)
    else (c :: (literalRest quote cs).1, (literalRest quote cs).2)

theorem lineRest_append (cs : List Char) : (lineRest cs).1 ++ (lineRest cs).2 = cs :=
  List.takeWhile_append_dropWhile

theorem blockRest_append (cs : List Char) : (blockRest cs).1 ++ (blockRest cs).2 = cs := by
  fun_induction blockRest cs with
  | case1 => rfl
  | case2 cs => rfl
  | case3 c cs _ ih => simpa using ih

theorem rawRest_append (cs : List Char) : (rawRest cs).1 ++ (rawRest cs).2 = cs := by
  fun_induction rawRest cs with
  | case1 => rfl
  | case2 cs => rfl
  | case3 c cs _ ih => simpa using ih

theorem literalRest_append (quote : Char) (cs : List Char) :
    (literalRest quote cs).1 ++ (literalRest quote cs).2 = cs := by
  fun_induction literalRest quote cs with
  | case1 => rfl
  | case2 => rfl
  | case3 c cs ih => simpa using ih
  | case4 c cs _ _ => rfl
  | case5 c cs _ _ _ ih => simpa using ih

theorem length_snd_le {a b cs : List Char} (h : a ++ b = cs) : b.length ≤ cs.length := by
  simp [← h]

def mask : List Char → List Char
  | [] => []
  | '/' :: '/' :: cs =>
    ' ' :: ' ' :: ((lineRest cs).1.map blanked ++ mask (lineRest cs).2)
  | '/' :: '*' :: cs =>
    ' ' :: ' ' :: ((blockRest cs).1.map blanked ++ mask (blockRest cs).2)
  | c :: cs =>
    if c = '\x60' then c :: ((rawRest cs).1 ++ mask (rawRest cs).2)
    else if c = '"' ∨ c = '\'' then c :: ((literalRest c cs).1 ++ mask (literalRest c cs).2)
    else c :: mask cs
termination_by cs => cs.length
decreasing_by
  · have := length_snd_le (lineRest_append cs)
    simp; omega
  · have := length_snd_le (blockRest_append cs)
    simp; omega
  · have := length_snd_le (rawRest_append cs)
    simp; omega
  · have := length_snd_le (literalRest_append c cs)
    simp; omega
  · simp

end HashedImports.Source
