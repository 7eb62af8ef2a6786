import HashedImports.Disk

namespace HashedImports

namespace Path

def up (p : Path) : Path :=
  if p.anchor = .relative ∧ (p.names = [] ∨ p.names.getLast? = some "..") then p.below [".."]
  else ⟨p.anchor, p.names.dropLast⟩

end Path

namespace Disk

inductive Followed
  | reached (p : Path)
  | looped (p : Path)

abbrev Known := List (Path × Path)

def pathOfPieces (pieces : List String) : Path :=
  .ofString (String.ofList (Text.joinWith ['/'] (pieces.map String.toList)))

/-- The pieces between slashes followed from a path without links; `follow` takes a link, where its
target starts and the target's pieces. Where a chain closes on itself, what is left to follow is put
after the link as it is written. -/
def followWith (node? : Path → Option Node)
    (follow : Known → Path → Path → List String → Followed × Known) :
    Known → Path → List String → Followed × Known
  | known, p, [] => (.reached p, known)
  | known, p, name :: rest =>
    if name = "" ∨ name = "." then followWith node? follow known p rest
    else if name = ".." then followWith node? follow known p.up rest
    else
      let next := p.below [name]
      match node? next, known.lookup next with
      | some (.link _), some q => followWith node? follow known q rest
      | some (.link target), none =>
        let start := if target.toList.head? = some '/' then ⟨.root, []⟩ else p
        let pieces := (Text.splitOn '/' target.toList).map String.ofList
        match follow known next start pieces with
        | (.looped q, known) => (.looped (q.join (pathOfPieces rest)), known)
        | (.reached q, known) => followWith node? follow ((next, q) :: known) q rest
      | _, _ => followWith node? follow known next rest

def followTo (node? : Path → Option Node) :
    Nat → List Path → Known → Path → List String → Followed × Known
  | 0, _ => followWith node? fun known link _ _ => (.looped link, known)
  | depth + 1, entered => followWith node? fun known link start pieces =>
    if link ∈ entered then (.looped link, known)
    else followTo node? depth (link :: entered) known start pieces

def nodeAt? (d : Disk) (p : Path) : Option Node :=
  if pathLimit < p.render.utf8ByteSize then none
  else if p.anchor = .relative then
    let ups := p.names.takeWhile (· = "..")
    if ups.length < d.workingDirectory.lost then none
    else d.tree.node? (Path.collapse true (d.workingDirectory.location ++ p.names))
  else d.tree.node? (Path.collapse true p.names)

def absolute? (d : Disk) (p : Path) : Option Path :=
  if p.anchor = .relative then
    if d.workingDirectory.lost = 0 then
      some ⟨.root, Path.collapse true (d.workingDirectory.location ++ p.names)⟩
    else none
  else some ⟨p.anchor, Path.collapse true p.names⟩

inductive CanonicalFault
  | disk (f : DiskFault)
  | loop (path : String)
  deriving DecidableEq, Repr

/-- One link is reached by at most as many paths as there are directories to start from. -/
def canonical (d : Disk) (p : Path) : Except CanonicalFault Path :=
  if p.holdsNull then .error (.disk ⟨.nullByte, none⟩)
  else
    let start : Path := if p.anchor = .relative then ⟨.relative, []⟩ else ⟨.root, []⟩
    let depth := d.tree.nodes.size * (d.workingDirectory.location.length + 2)
    let followed :=
      match (followTo d.nodeAt? depth [] [] start p.names).1 with
      | .reached q => q
      | .looped q => q
    match d.absolute? followed with
    | none => .error (.disk ⟨.missing, none⟩)
    | some q =>
      match d.node q with
      | .error .linkLoop => .error (.loop q.render)
      | _ => .ok q

end Disk

end HashedImports
