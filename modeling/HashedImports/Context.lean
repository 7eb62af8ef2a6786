import HashedImports.Journal

/-!
Where work is done: a directory, and an environment that may name a source root. Installed packages
stand in a project's vendor directory, or in the cache below the source root; in either, a package
stands in a directory named after its hash.
-/

namespace HashedImports

namespace Layout

def vendorNames : List String := ["vendor", "gx", "ipfs"]

def vendorDirectory (project : Path) : Path :=
  project.below vendorNames

def cacheDirectory (sourceRoot : Path) : Path :=
  sourceRoot.below ["src", "gx", "ipfs"]

/-- The vendor directory whose text the path's text starts with, up to its first occurrence. -/
def enclosingVendor? (p : Path) : Option Path :=
  (Text.cutAt? "vendor/gx/ipfs".toList p.text).map fun (before, _) =>
    vendorDirectory (Path.ofString (String.ofList before))

end Layout

structure Context where
  directory : Path
  environment : OrderedMap String String

namespace Context

def at? (d : Disk) (p : Path) (environment : OrderedMap String String) : Except Fault Context :=
  match d.canonical p with
  | .ok directory => .ok ⟨directory, environment⟩
  | .error (.disk f) => .error (.disk f)
  | .error (.loop path) => .error (.linkLoop path)

def sourceRoot (c : Context) : Except Fault Path :=
  let roots := Text.splitOn ':' ((c.environment.find? "GOPATH").getD "").toList
  match roots.filter (· ≠ []) with
  | [] => .error .sourceRootUnset
  | root :: _ => .ok (Path.ofString (String.ofList root))

def vendorDirectory (c : Context) : Path :=
  Layout.vendorDirectory c.directory

def cacheDirectory (c : Context) : Except Fault Path :=
  c.sourceRoot.map Layout.cacheDirectory

def cache? (c : Context) : Option Path :=
  c.cacheDirectory.toOption

end Context

end HashedImports
