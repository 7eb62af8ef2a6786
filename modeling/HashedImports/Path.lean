import HashedImports.Text.Split

/-!
Paths as texts: an anchor and the names after it. Empty names and single dots are dropped, double
dots stay.
-/

namespace HashedImports

/-- Where a path starts. Two leading slashes are kept apart from one; three or more count as one. -/
inductive Anchor
  | relative
  | root
  | doubleRoot
  deriving DecidableEq, Repr

structure Path where
  anchor : Anchor
  names : List String
  deriving DecidableEq, Repr

namespace Path

def namesOf (cs : List Char) : List String :=
  ((Text.splitOn '/' cs).filter fun name => name ≠ [] ∧ name ≠ ['.']).map String.ofList

def anchorOf : List Char → Anchor
  | '/' :: '/' :: '/' :: _ => .root
  | '/' :: '/' :: _ => .doubleRoot
  | '/' :: _ => .root
  | _ => .relative

def ofString (s : String) : Path :=
  ⟨anchorOf s.toList, namesOf s.toList⟩

def Anchor.text : Anchor → List Char
  | .relative => []
  | .root => ['/']
  | .doubleRoot => ['/', '/']

def text (p : Path) : List Char :=
  if p.anchor = .relative ∧ p.names = [] then ['.']
  else Anchor.text p.anchor ++ Text.joinWith ['/'] (p.names.map String.toList)

def render (p : Path) : String :=
  String.ofList p.text

def join (p q : Path) : Path :=
  if q.anchor = .relative then ⟨p.anchor, p.names ++ q.names⟩ else q

def below (p : Path) (names : List String) : Path :=
  ⟨p.anchor, p.names ++ names⟩

instance : HDiv Path String Path := ⟨fun p s => p.join (ofString s)⟩

def name (p : Path) : String :=
  p.names.getLast?.getD ""

def holdsNull (p : Path) : Bool :=
  p.names.any fun name => '\x00' ∈ name.toList

/-- Double dots take the name before them away; at a root there is none, and in front of a relative
path they stay. -/
def collapse (rooted : Bool) (names : List String) : List String :=
  (names.foldl (fun (above : List String) name =>
    if name = ".." then
      match above with
      | [] => if rooted then [] else [name]
      | last :: rest => if last = ".." then name :: above else rest
    else name :: above) []).reverse

def normalized (p : Path) : Path :=
  ⟨p.anchor, collapse (p.anchor ≠ .relative) p.names⟩

end Path

end HashedImports
