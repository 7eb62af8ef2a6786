import HashedImports.Disk.Listing
import HashedImports.Fault
import HashedImports.Source.Redirect

/-!
Redirecting a tree of sources, first half: every file is read and redirected, and nothing is written
yet.
-/

namespace HashedImports.SourceTree

structure Result where
  path : Path
  count : Nat
  modified : Bool
  deriving DecidableEq, Repr

structure Staged where
  result : Result
  text : List Char
  deriving DecidableEq, Repr

def isIgnoredDirectory (name : List Char) : Bool :=
  name = "vendor".toList || name = "testdata".toList || name.head? = some '.' ||
    name.head? = some '_'

def isGoFile (path : String) : Bool :=
  let cs := path.toList
  ".go".toList.isSuffixOf cs && !(Text.splitOn '/' cs).dropLast.any isIgnoredDirectory

def visited (d : Disk) (root : Path) (accepts : String → Bool) : List Path :=
  ((d.filesBelow root).filter fun names => accepts (Disk.relativePath names)).map root.below

def stage (p : Path) (text : List Char) (r : Source.Redirected) : Staged :=
  ⟨⟨p, r.count, r.text ≠ text⟩, r.text⟩

variable {m : Type → Type} [Monad m]

/-- The files in turn, each read from the disk as it is by then. -/
def stageAll (current : m Disk) (lookup : String → m String) :
    List Path → m (Except Fault (List Staged))
  | [] => return .ok []
  | p :: ps => do
    match (← current).readText p with
    | .error f => return .error (.redirect (.unreadable p.render f))
    | .ok text =>
      let r ← Source.redirectM lookup text
      match ← stageAll current lookup ps with
      | .error f => return .error f
      | .ok staged => return .ok (stage p text r :: staged)

/-- What a redirecting would write. The files are listed before the first of them is read. -/
def plan (current : m Disk) (lookup : String → m String) (root : Path) (accepts : String → Bool) :
    m (Except Fault (List Staged)) := do
  let d ← current
  match d.isDirectory root with
  | .ok true => stageAll current lookup (visited d root accepts)
  | .ok false => return .error (.redirect (.noDirectory root.render))
  | .error f => return .error (.disk f)

end HashedImports.SourceTree
