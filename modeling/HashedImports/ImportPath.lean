import HashedImports.Path

namespace HashedImports.ImportPath

def hashRoot : String := "gx/ipfs"

def hashed (hash name : String) : String :=
  hashRoot ++ "/" ++ hash ++ "/" ++ name

structure OutsideRoot where
  path : String
  root : String
  deriving DecidableEq, Repr

def OutsideRoot.message (f : OutsideRoot) : String :=
  f.path ++ " is not within " ++ f.root ++ "/src"

def sourcesText (root : String) : List Char :=
  let root := (Path.ofString root).normalized.text
  root ++ (if root.getLast? = some '/' then [] else ['/']) ++ "src/".toList

def identity (path root : String) : Except OutsideRoot String :=
  match Text.afterPrefix? (sourcesText root) path.toList with
  | some rest => .ok (String.ofList rest)
  | none => .error ⟨path, root⟩

def below? (outer path : String) : Option (List Char) :=
  if path = outer then some []
  else if (outer.toList ++ ['/']).isPrefixOf path.toList then some (path.toList.drop outer.length)
  else none

end HashedImports.ImportPath
