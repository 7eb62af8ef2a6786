import HashedImports.Disk

/-!
The files below a directory, each directory's files before its subdirectories, both by name. Links
to directories are not entered; all other links count as files.
-/

namespace HashedImports

/-- Names below a directory come in this order: at the first difference a file before what lies
deeper, otherwise the lesser name first. -/
def visitedBefore : List String → List String → Bool
  | [], _ => true
  | _ :: _, [] => false
  | [a], [b] => a ≤ b
  | [_], _ :: _ :: _ => true
  | _ :: _ :: _, [_] => false
  | a :: as, b :: bs => if a = b then visitedBefore as bs else a < b

namespace Disk

/-- A directory is entered if the way to it is not too long. In it a file is visited, and a link
unless it leads to a directory. -/
def isVisited (d : Disk) (root : Path) (names : List String) (node : Node) : Bool :=
  (root.below names.dropLast).render.utf8ByteSize ≤ pathLimit &&
    match node with
    | .file _ => true
    | .directory => false
    | .link _ => !(d.node (root.below names) matches .ok .directory)

def filesBelow (d : Disk) (root : Path) : List (List String) :=
  match d.locate root with
  | .ok (.node location .directory) =>
    let below := d.tree.nodes.entries.filterMap fun (loc, node) =>
      let names := loc.drop location.length
      if location.isPrefixOf loc && d.isVisited root names node then some names else none
    below.mergeSort visitedBefore
  | _ => []

def relativePath (names : List String) : String :=
  String.ofList (Text.joinWith ['/'] (names.map String.toList))

end Disk

end HashedImports
