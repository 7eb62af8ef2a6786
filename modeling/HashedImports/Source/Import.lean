import HashedImports.Source.Mask
import HashedImports.Text.Range
import HashedImports.Text.Split
import HashedImports.Text.Word

/-!
The imports of a source text: where the literals of its import declarations stand. They are looked
for line by line in the masked text, before the first line that starts another declaration.
-/

namespace HashedImports.Source

structure Line where
  offset : Nat
  rest : List Char

/-- The lines that start after a line break; the text itself starts at the offset. -/
def linesAfter : Nat → List Char → List Line
  | _, [] => []
  | offset, c :: cs =>
    if c = '\n' then ⟨offset + 1, cs⟩ :: linesAfter (offset + 1) cs else linesAfter (offset + 1) cs

def linesOf (cs : List Char) : List Line :=
  ⟨0, cs⟩ :: linesAfter 0 cs

def declarationWords : List (List Char) :=
  ["func".toList, "type".toList, "var".toList, "const".toList]

def startsDeclaration (cs : List Char) : Bool :=
  declarationWords.any fun word =>
    match Text.afterPrefix? word cs with
    | none => false
    | some [] => true
    | some (c :: _) => !Text.isWord c

def header (masked : List Char) : List Char :=
  match (linesOf masked).find? fun l => startsDeclaration l.rest with
  | some l => masked.take l.offset
  | none => masked

structure Span where
  start : Nat
  stop : Nat
  deriving DecidableEq, Repr

def isGap (c : Char) : Bool :=
  c == ' ' || c == '\t'

def isAliasChar (c : Char) : Bool :=
  Text.isWord c || c == '.'

def run (p : Char → Bool) (cs : List Char) : Nat :=
  (cs.takeWhile p).length

def literalLength? : List Char → Option Nat
  | [] => none
  | quote :: cs =>
    if quote = '"' ∨ quote = '\x60' then
      let n := run (fun c => c ≠ quote ∧ c ≠ '\n') cs
      if cs[n]? = some quote then some (n + 2) else none
    else none

/-- The literal after a gap and, optionally, a name with a gap after it. -/
def specSpan? (offset : Nat) (cs : List Char) : Option Span :=
  let indent := run isGap cs
  let cs := cs.drop indent
  let name := run isAliasChar cs
  let gap := run isGap (cs.drop name)
  if name ≠ 0 ∧ gap = 0 then none
  else
    let start := offset + indent + name + gap
    (literalLength? (cs.drop (name + gap))).map fun n => ⟨start, start + n⟩

def singleSpan? (l : Line) : Option Span :=
  match Text.afterPrefix? "import".toList l.rest with
  | some (c :: cs) => if isGap c then specSpan? (l.offset + 6) (c :: cs) else none
  | _ => none

def opening? (l : Line) : Option Nat :=
  match Text.afterPrefix? "import".toList l.rest with
  | none => none
  | some cs =>
    let gap := run Text.isBlank cs
    if cs[gap]? = some '(' then some (l.offset + 6 + gap + 1) else none

def closes (l : Line) : Bool :=
  (l.rest.dropWhile isGap).head? = some ')'

inductive Position
  | outside
  | inside (start : Nat) (found : List Span)

/-- The literals in blocks. A block without an end is none. -/
def blockSpans : Position → List Line → List Span
  | _, [] => []
  | .outside, l :: ls =>
    match opening? l with
    | some start => blockSpans (.inside start []) ls
    | none => blockSpans .outside ls
  | .inside start found, l :: ls =>
    if l.offset < start then blockSpans (.inside start found) ls
    else if closes l then found ++ blockSpans .outside ls
    else blockSpans (.inside start (found ++ (specSpan? l.offset l.rest).toList)) ls

def spanBefore (a b : Span) : Bool :=
  a.start < b.start || (a.start == b.start && a.stop ≤ b.stop)

def importSpans (masked : List Char) : List Span :=
  let lines := linesOf (header masked)
  (blockSpans .outside lines ++ lines.filterMap singleSpan?).mergeSort spanBefore

structure Import where
  span : Span
  quote : Char
  path : String
  deriving DecidableEq, Repr

def importAt (source : List Char) (s : Span) : Import :=
  let literal := (source.drop s.start).take (s.stop - s.start)
  ⟨s, literal.head?.getD '"', String.ofList (literal.drop 1).dropLast⟩

def imports (source : List Char) : List Import :=
  (importSpans (mask source)).map (importAt source)

end HashedImports.Source
