import HashedImports.FileTree
import HashedImports.Json
import HashedImports.Path
import HashedImports.Text.Lines
import HashedImports.Text.Quoted
import HashedImports.Text.Utf8

/-!
A disk is a file tree as a process finds it: with the working directory from which relative paths
start, and with the number of levels to which nested values can be read from its files. Paths are
followed through symbolic links, at most forty of them. The working directory may have been removed.
-/

namespace HashedImports

inductive Obstacle
  | missing
  | notDirectory
  | isDirectory
  | nameTooLong
  | linkLoop
  | nullByte
  deriving DecidableEq, Repr

def Obstacle.message : Obstacle → String
  | .missing => "[Errno 2] No such file or directory"
  | .notDirectory => "[Errno 20] Not a directory"
  | .isDirectory => "[Errno 21] Is a directory"
  | .nameTooLong => "[Errno 36] File name too long"
  | .linkLoop => "[Errno 40] Too many levels of symbolic links"
  | .nullByte => "embedded null byte"

structure DiskFault where
  obstacle : Obstacle
  path : Option String
  deriving DecidableEq, Repr

def DiskFault.message (f : DiskFault) : String :=
  match f.obstacle, f.path with
  | .nullByte, _ => f.obstacle.message
  | _, none => f.obstacle.message
  | _, some path => f.obstacle.message ++ ": " ++ Text.quoted path

/-- A working directory stays where it was when it is removed. Of its location's names the last
`lost` then stand for directories that are gone. -/
structure WorkingDirectory where
  location : Location
  lost : Nat
  deriving DecidableEq, Repr

structure Disk where
  tree : FileTree
  workingDirectory : WorkingDirectory
  levels : Json.Levels

inductive Place
  | node (location : Location) (node : Node)
  | free (location : Location)
  | removed

namespace FileTree

def targetNames (target : List Char) : List String :=
  ((Text.splitOn '/' target).filter (· ≠ [])).map String.ofList ++
    if target.getLast? = some '/' then [""] else []

def nameLimit : Nat := 255

/-- The names followed from a directory; `follow` goes on where a link stands. A name with a slash
after it has to be a directory's, and nothing can be made there. -/
def walkWith (t : FileTree) (making : Bool)
    (follow : Location → List String → Except Obstacle Place) :
    Location → List String → Except Obstacle Place
  | loc, [] => .ok (match t.node? loc with
    | some node => .node loc node
    | none => .free loc)
  | loc, name :: rest =>
    if name = "" ∨ name = "." then t.walkWith making follow loc rest
    else if name = ".." then t.walkWith making follow loc.dropLast rest
    else if making ∧ rest = [""] then .error .isDirectory
    else if nameLimit < name.utf8ByteSize then .error .nameTooLong
    else
      let next := loc ++ [name]
      match t.node? next with
      | none => if rest = [] then .ok (.free next) else .error .missing
      | some .directory => t.walkWith making follow next rest
      | some (.file content) =>
        if rest = [] then .ok (.node next (.file content)) else .error .notDirectory
      | some (.link target) =>
        let start := if target.toList.head? = some '/' then [] else loc
        follow start (targetNames target.toList ++ rest)

def walk (t : FileTree) (making : Bool) : Nat → Location → List String → Except Obstacle Place
  | 0 => t.walkWith making fun _ _ => .error .linkLoop
  | links + 1 => t.walkWith making (t.walk making links)

end FileTree

namespace Disk

def linkLimit : Nat := 40

def pathLimit : Nat := 4095

/-- The names followed from a directory whose last `lost` names are gone. Only double dots lead out
of what is gone. -/
def walkFrom (d : Disk) (making : Bool) :
    Nat → Location → List String → Except Obstacle Place
  | 0, loc, names => d.tree.walk making linkLimit loc names
  | _ + 1, _, [] => .ok .removed
  | lost + 1, loc, name :: rest =>
    if name = ".." then d.walkFrom making lost loc.dropLast rest else .error .missing

def locateFor (making : Bool) (d : Disk) (p : Path) : Except Obstacle Place :=
  if p.holdsNull then .error .nullByte
  else if pathLimit < p.render.utf8ByteSize then .error .nameTooLong
  else if p.anchor = .relative then
    d.walkFrom making d.workingDirectory.lost d.workingDirectory.location p.names
  else d.walkFrom making 0 [] p.names

def locate (d : Disk) (p : Path) : Except Obstacle Place :=
  d.locateFor false p

def node (d : Disk) (p : Path) : Except Obstacle Node :=
  match d.locate p with
  | .error o => .error o
  | .ok (.node _ node) => .ok node
  | .ok (.free _) => .error .missing
  | .ok .removed => .ok .directory

def faultAt (p : Path) (o : Obstacle) : DiskFault :=
  ⟨o, some p.render⟩

/-- A path that leads nowhere leads to no node of the kind that is asked for, but one that is too
long is not even tried. -/
def leadsTo (kind : Node → Bool) (d : Disk) (p : Path) : Except DiskFault Bool :=
  match d.node p with
  | .ok node => .ok (kind node)
  | .error .nameTooLong => .error (faultAt p .nameTooLong)
  | .error _ => .ok false

def isFile (d : Disk) (p : Path) : Except DiskFault Bool :=
  d.leadsTo Node.isFile p

def isDirectory (d : Disk) (p : Path) : Except DiskFault Bool :=
  d.leadsTo Node.isDirectory p

def read (d : Disk) (p : Path) : Except DiskFault (List UInt8) :=
  match d.node p with
  | .ok (.file content) => .ok content
  | .ok .directory => .error (faultAt p .isDirectory)
  | .ok (.link _) => .error (faultAt p .linkLoop)
  | .error o => .error (faultAt p o)

def write (d : Disk) (p : Path) (content : List UInt8) : Except DiskFault Disk :=
  match d.locateFor true p with
  | .error o => .error (faultAt p o)
  | .ok (.node loc node) =>
    if node = .directory then .error (faultAt p .isDirectory)
    else .ok { d with tree := d.tree.put loc (.file content) }
  | .ok (.free loc) => .ok { d with tree := d.tree.put loc (.file content) }
  | .ok .removed => .error (faultAt p .isDirectory)

inductive ReadFault
  | disk (f : DiskFault)
  | undecodable (f : Text.Utf8.Fault)
  deriving DecidableEq, Repr

def readText (d : Disk) (p : Path) : Except ReadFault (List Char) :=
  match d.read p with
  | .error f => .error (.disk f)
  | .ok content =>
    match Text.Utf8.decode content with
    | .error f => .error (.undecodable f)
    | .ok cs => .ok (Text.unifyLines cs)

def writeText (d : Disk) (p : Path) (cs : List Char) : Except DiskFault Disk :=
  d.write p (Text.Utf8.encode cs)

end Disk

end HashedImports
