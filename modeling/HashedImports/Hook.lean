import HashedImports.Context
import HashedImports.Graph.Mapping
import HashedImports.SourceTree.Redirect

namespace HashedImports

def Action.save (package : Package) (p : Path) : Action Unit := fun d =>
  match d.savePackage package p with
  | .ok d => ⟨d, [], .ok ()⟩
  | .error f => ⟨d, [], .error f⟩

def Action.search (places : Places) (dep : Dependency) : Action Package := fun d =>
  let search := d.search places dep
  ⟨d, search.journal, search.found⟩

namespace Hook

open SourceTree (isGoFile)

structure Offer where
  repository : String
  hashed : String

def Offer.question (o : Offer) : String :=
  "update imports of " ++ o.repository ++ " to the newly imported package?"

def offer (c : Context) (hash : String) : Action (Option Offer) := do
  let package ← Action.search ⟨c.vendorDirectory, c.cache?⟩ ⟨hash, hash, none, none, []⟩
  let path := package.go.importPath
  return if path = "" then none else some ⟨path, ImportPath.hashed hash package.name⟩

def Offer.accept (c : Context) (o : Offer) : Action (List SourceTree.Result) :=
  SourceTree.update o.repository o.hashed c.directory isGoFile

def compilerVersion (output : Option String) : Except Fault String :=
  match output with
  | none => .error (.requirement .noCompiler)
  | some output =>
    match Version.ofCompilerOutput output with
    | .ok version => .ok version
    | .error (.unrecognized output) => .error (.requirement (.unrecognizedCompiler output))
    | .error f => .error (.version f)

/-- Checks that the compiler is not older than a package asks for. Only then is the compiler itself
asked, unless its version is given. -/
def requirement (output version : Option String) (directory : Path) : Action Unit := do
  let package ← Action.read (·.loadPackage (directory.below [Package.fileName]))
  let required := package.go.goVersion
  if required = "" then return ()
  else
    let installed ← Action.ofExcept ((version.map .ok).getD (compilerVersion output))
    match Version.isOlder installed required with
    | .error f => Action.fail (.version f)
    | .ok true => Action.fail (.requirement (.olderCompiler package.name required installed))
    | .ok false => return ()

def identity (c : Context) (directory : Path) : Except Fault String :=
  match c.sourceRoot with
  | .error f => .error f
  | .ok root =>
    match ImportPath.identity directory.render root.render with
    | .ok path => .ok path
    | .error f => .error (.outsideRoot f)

def recordPath (c : Context) (directory : Option Path) : Action Package := do
  let directory := directory.getD c.directory
  let descriptor := directory.below [Package.fileName]
  let package ← Action.read (·.loadPackage descriptor)
  let resolved ← Action.read (Context.at? · directory c.environment)
  let package ←
    match identity c resolved.directory with
    | .ok path => pure (if path = "" then package else package.withImportPath path)
    | .error f => do
      Action.report [.noImportPath f]
      pure package
  Action.save package descriptor
  return package

/-- Redirects a package that was installed in a directory named after its hash. Imports of its own
repository are redirected too. -/
def install (c : Context) (directory : Path) : Action (List SourceTree.Result) := do
  let package ← Action.read (·.packageIn directory)
  let root := directory / package.name
  let places : Places := ⟨(Layout.enclosingVendor? directory).getD root, c.cache?⟩
  let table ← Action.table fun d => d.fillTable .toHashed places package .empty
  let path := package.go.importPath
  let table :=
    if path = "" then table else table.set path (ImportPath.hashed directory.name package.name)
  SourceTree.redirectByTable table root isGoFile

def replaceHash (c : Context) (old new : String) : Action (List SourceTree.Result) :=
  SourceTree.update (ImportPath.hashRoot ++ "/" ++ old) (ImportPath.hashRoot ++ "/" ++ new)
    c.directory isGoFile

def installPath (c : Context) (everywhere : Bool) : Except Fault Path :=
  if everywhere then c.sourceRoot.map (·.below ["src"]) else .ok (c.directory.below ["vendor"])

end Hook

end HashedImports
