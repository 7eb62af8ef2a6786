import HashedImports.Graph.Walk
import HashedImports.Action

/-!
Redirection tables out of walks: every package with an import path of its own gives an entry from
that path to its hash-qualified one, or the other way round.
-/

namespace HashedImports

inductive Direction
  | toHashed
  | toRepository
  deriving DecidableEq, Repr

structure Pair where
  key : String
  value : String
  origin : String
  deriving DecidableEq, Repr

def pairOf? (dir : Direction) (dep : Dependency) (package : Package) : Option Pair :=
  let path := package.go.importPath
  let hashed := ImportPath.hashed dep.hash package.name
  if path = "" then none
  else
    match dir with
    | .toHashed => some ⟨path, hashed, dep.hash⟩
    | .toRepository => some ⟨hashed, path, dep.hash⟩

namespace Visit

def pair? (dir : Direction) : Visit → Option Pair
  | .skipped _ _ => none
  | .searched dep search =>
    match search.found with
    | .ok package => pairOf? dir dep package
    | .error _ => none

def journal : Visit → List Event
  | .skipped dep chain => [.cycle dep.name dep.hash chain]
  | .searched _ search => search.journal

end Visit

namespace Table

def offer (t : Table) (p : Pair) : Table :=
  (t.add p.key p.value p.origin).2

def after (dir : Direction) (t : Table) (visits : List Visit) : Table :=
  visits.foldl (fun t v => (v.pair? dir).elim t t.offer) t

end Table

def visitJournal (dir : Direction) (t : Table) : List Visit → List Event
  | [] => []
  | v :: vs =>
    let conflict := (v.pair? dir).bind fun p => t.conflictWith? p.key p.value p.origin
    v.journal ++ (conflict.map .conflict).toList ++
      visitJournal dir ((v.pair? dir).elim t t.offer) vs

structure Filling where
  table : Table
  journal : List Event
  fault : Option Fault

def Walk.fill (dir : Direction) (w : Walk) (t : Table) : Filling :=
  ⟨t.after dir w.visits, visitJournal dir t w.visits, w.fault⟩

def Disk.fillTable (d : Disk) (dir : Direction) (places : Places) (package : Package) (t : Table) :
    Filling :=
  (d.walk places package).fill dir t

def Disk.selectTable (d : Disk) (dir : Direction) (places : Places) (package : Package)
    (refs : List String) : Filling :=
  (d.select places package refs).fill dir .empty

def Action.table (filling : Disk → Filling) : Action Table := fun d =>
  let f := filling d
  ⟨d, f.journal, f.fault.elim (.ok f.table) .error⟩

end HashedImports
