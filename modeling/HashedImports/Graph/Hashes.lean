import HashedImports.Graph.Walk

namespace HashedImports

structure Gathering where
  map : OrderedMap String String
  journal : List Event
  fault : Option Fault

def Gathering.after (events : List Event) (g : Gathering) : Gathering :=
  { g with journal := events ++ g.journal }

def hashConflict (path existing hash : String) : Option Conflict :=
  if existing = hash then none else some ⟨path, existing, hash, existing, hash⟩

def gatherWith (load : Loader)
    (descend : OrderedMap String String → List Dependency → Gathering) :
    OrderedMap String String → List Dependency → Gathering
  | map, [] => ⟨map, [], none⟩
  | map, dep :: deps =>
    let search := load dep
    match search.found with
    | .error f => ⟨map, search.journal, some f⟩
    | .ok package =>
      let path := package.go.importPath
      match if path = "" then none else map.find? path with
      | some existing =>
        let conflict := hashConflict path existing dep.hash
        (gatherWith load descend map deps).after
          (search.journal ++ (conflict.map .conflict).toList)
      | none =>
        let below := descend (if path = "" then map else map.insert path dep.hash)
          package.dependencies
        let journal := search.journal ++ below.journal
        match below.fault with
        | some f => ⟨below.map, journal, some f⟩
        | none => (gatherWith load descend below.map deps).after journal

def gatherTo (load : Loader) :
    Nat → OrderedMap String String → List Dependency → Gathering
  | 0 => gatherWith load fun map _ => ⟨map, [], some .endless⟩
  | depth + 1 => gatherWith load (gatherTo load depth)

/-- A chain that repeats a hash passes a mapped package in between, so it is at most as long as the
square of the number of hashes, unless there are cycles of packages without import paths. -/
def Disk.gather (d : Disk) (places : Places) (package : Package)
    (start : OrderedMap String String) : Gathering :=
  let n := (d.hashes package).length + 1
  gatherTo (d.search places) (n * n) start package.dependencies

end HashedImports
