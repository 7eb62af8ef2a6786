import HashedImports.Journal

namespace HashedImports

namespace Disk

def loadPackage (d : Disk) (p : Path) : Except Fault Package :=
  match d.read p with
  | .error f =>
    if f.obstacle = .missing ∨ f.obstacle = .nullByte then .error (.disk f)
    else .error (.descriptor p.render (.disk f))
  | .ok content =>
    match Package.ofContent d.levels content with
    | .ok package => .ok package
    | .error (.undecodable f) => .error (.undecodable f)
    | .error (.oversizeInteger digits) => .error (.oversizeInteger digits)
    | .error (.tooNested c) => .error (.tooNested c)
    | .error (.malformed problem place) => .error (.descriptor p.render (.malformed problem place))
    | .error .notObject => .error (.descriptor p.render .notObject)
    | .error (.schema violations) => .error (.descriptor p.render (.schema violations))

def savePackage (d : Disk) (package : Package) (p : Path) : Except Fault Disk :=
  match package.flaw? with
  | some flaw => .error (.unsavable flaw)
  | none =>
    match d.write p package.content with
    | .ok d => .ok d
    | .error f => .error (.disk f)

def namesIn (d : Disk) (p : Path) : List String :=
  match d.locate p with
  | .ok (.node location _) =>
    d.tree.nodes.keys.filterMap fun loc =>
      match loc.drop location.length with
      | [name] => if location.isPrefixOf loc then some name else none
      | _ => none
  | _ => []

/-- Those of the names that are directories'. Hidden ones are tried too, but left out. -/
def directoriesOf (d : Disk) (p : Path) : List String → Except DiskFault (List String)
  | [] => .ok []
  | name :: names =>
    match d.isDirectory (p.below [name]) with
    | .error f => .error f
    | .ok isDirectory =>
      (d.directoriesOf p names).map fun found =>
        if isDirectory && name.toList.head? != some '.' then name :: found else found

def packageAt (d : Disk) (p : Path) (otherwise : Except Fault Package) : Except Fault Package :=
  let descriptor := p.below [Package.fileName]
  match d.isFile descriptor with
  | .ok true => d.loadPackage descriptor
  | .ok false => otherwise
  | .error f => .error (.disk f)

def onlyPackageIn (d : Disk) (p : Path) : Except Fault Package :=
  match d.directoriesOf p (d.namesIn p) with
  | .error f => .error (.disk f)
  | .ok [name] =>
    let inner := p.below [name]
    d.packageAt inner (.error (.absence (.noDescriptor inner.render)))
  | .ok names => .error (.absence (.notOne p.render names.length))

def packageIn (d : Disk) (p : Path) : Except Fault Package :=
  d.packageAt p <|
    match d.isDirectory p with
    | .ok true => d.onlyPackageIn p
    | .ok false => .error (.absence (.noPackage p.render))
    | .error f => .error (.disk f)

end Disk

structure Places where
  directory : Path
  cache : Option Path

def Places.candidates (places : Places) (hash : String) : List Path :=
  (places.directory / hash) :: (places.cache.map (· / hash)).toList

structure Search where
  journal : List Event
  found : Except Fault Package

def Fault.isPassedOver : Fault → Bool
  | .descriptor _ _ => true
  | .absence _ => true
  | .disk f => f.obstacle = .missing
  | _ => false

namespace Disk

def searchAt (d : Disk) (exhausted : Fault) (before : Path → List Event) : List Path → Search
  | [] => ⟨[], .error exhausted⟩
  | p :: ps =>
    match d.packageIn p with
    | .ok package => ⟨before p, .ok package⟩
    | .error f =>
      if f.isPassedOver then
        let rest := d.searchAt exhausted (fun p => [.tryingCache p.render]) ps
        ⟨before p ++ .notThere f :: rest.journal, rest.found⟩
      else ⟨before p, .error f⟩

def search (d : Disk) (places : Places) (dep : Dependency) : Search :=
  let candidates := places.candidates dep.hash
  let exhausted := Fault.dependencyMissing dep.name dep.hash (candidates.map Path.render)
  d.searchAt exhausted (fun _ => [.fetching dep.name dep.hash]) candidates

end Disk

end HashedImports
