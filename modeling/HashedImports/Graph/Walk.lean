import HashedImports.Store

/-!
The walk through a package's dependencies, depth first and in the order in which they are declared.
A dependency is skipped where it is its own ancestor; one that several packages share is met again
each time.
-/

namespace HashedImports

abbrev Loader := Dependency → Search

inductive Visit
  | skipped (dep : Dependency) (chain : List String)
  | searched (dep : Dependency) (search : Search)

structure Walk where
  visits : List Visit
  fault : Option Fault

namespace Walk

def done : Walk :=
  ⟨[], none⟩

def after (visits : List Visit) (w : Walk) : Walk :=
  ⟨visits ++ w.visits, w.fault⟩

end Walk

def Fault.inChain (package : String) (chain : List String) : Fault → Fault
  | .dependencyMissing name hash searched =>
    .dependencyChain package chain (.dependencyMissing name hash searched)
  | .descriptor path problem => .dependencyChain package chain (.descriptor path problem)
  | f => f

def walkWith (load : Loader)
    (descend : List String → List String → List Dependency → Walk)
    (chain ancestors : List String) : List Dependency → Walk
  | [] => .done
  | dep :: deps =>
    if dep.hash ∈ ancestors then
      (walkWith load descend chain ancestors deps).after [.skipped dep chain]
    else
      let search := load dep
      let chain' := chain ++ [dep.name]
      match search.found with
      | .error f => ⟨[.searched dep search], some (f.inChain dep.name chain')⟩
      | .ok package =>
        let below := descend chain' (dep.hash :: ancestors) package.dependencies
        let visits := .searched dep search :: below.visits
        match below.fault with
        | some f => ⟨visits, some f⟩
        | none => (walkWith load descend chain ancestors deps).after visits

def walkTo (load : Loader) : Nat → List String → List String → List Dependency → Walk
  | 0 => walkWith load fun _ _ _ => ⟨[], some .endless⟩
  | depth + 1 => walkWith load (walkTo load depth)

/-- The hashes named in a package or in any descriptor on the disk. No chain of dependencies without
repetition is longer than their number. -/
def Disk.hashes (d : Disk) (package : Package) : List String :=
  let packages := d.tree.nodes.entries.filterMap fun (_, node) =>
    match node with
    | .file content => (Package.ofContent d.levels content).toOption
    | _ => none
  ((package :: packages).flatMap fun p => p.dependencies.map Dependency.hash).eraseDups

def Disk.walk (d : Disk) (places : Places) (package : Package) : Walk :=
  walkTo (d.search places) (d.hashes package).length [package.name] [] package.dependencies

def selectWith (load : Loader) (package : Package) : List String → Walk
  | [] => .done
  | ref :: refs =>
    match package.findDependency? ref with
    | none => ⟨[], some (.dependencyMissing ref "" [])⟩
    | some dep =>
      let search := load dep
      match search.found with
      | .error f => ⟨[.searched dep search], some f⟩
      | .ok _ => (selectWith load package refs).after [.searched dep search]

def Disk.select (d : Disk) (places : Places) (package : Package) (refs : List String) : Walk :=
  selectWith (d.search places) package refs

end HashedImports
