import HashedImports.Source.Import

namespace HashedImports.Source

structure Edit where
  span : Span
  text : List Char
  deriving DecidableEq, Repr

def splice (source : List Char) : Nat → List Edit → List Char
  | last, [] => source.drop last
  | last, e :: es =>
    (source.drop last).take (e.span.start - last) ++ e.text ++ splice source e.span.stop es

def editFor? (i : Import) (path : String) : Option Edit :=
  if path = i.path then none else some ⟨i.span, i.quote :: path.toList ++ [i.quote]⟩

structure Redirected where
  text : List Char
  count : Nat
  deriving DecidableEq, Repr

def replace (source : List Char) (is : List Import) (paths : List String) : Redirected :=
  let edits := ((is.zip paths).filterMap fun (i, path) => editFor? i path)
  ⟨splice source 0 edits, edits.length⟩

def redirectM {m : Type → Type} [Monad m] (lookup : String → m String) (source : List Char) :
    m Redirected := do
  let is := imports source
  let paths ← is.mapM fun i => lookup i.path
  return replace source is paths

def redirect (lookup : String → String) (source : List Char) : Redirected :=
  let is := imports source
  replace source is (is.map fun i => lookup i.path)

end HashedImports.Source
