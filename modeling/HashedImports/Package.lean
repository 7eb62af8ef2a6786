import HashedImports.Json

namespace HashedImports

abbrev Extra := List (Codes × Json)

/-- What a descriptor says about Go: the import path of the repository, empty for a package that is
known by its hash only, and the oldest compiler that will do. -/
structure GoInfo where
  importPathCodes : Codes
  goVersionCodes : Codes
  extra : Extra

structure Dependency where
  nameCodes : Codes
  hashCodes : Codes
  versionCodes : Option Codes
  authorCodes : Option Codes
  extra : Extra

structure Package where
  nameCodes : Codes
  versionCodes : Option Codes
  languageCodes : Option Codes
  dependencies : List Dependency
  go : GoInfo
  extra : Extra

/-! The strings as the texts by which packages are looked for and imports are redirected. -/

def GoInfo.importPath (g : GoInfo) : String :=
  g.importPathCodes.text

def GoInfo.goVersion (g : GoInfo) : String :=
  g.goVersionCodes.text

def Dependency.name (d : Dependency) : String :=
  d.nameCodes.text

def Dependency.hash (d : Dependency) : String :=
  d.hashCodes.text

@[simp]
theorem Dependency.hash_ofString (name : Codes) (hash : String) (version author : Option Codes)
    (extra : Extra) : (Dependency.mk name hash version author extra).hash = hash :=
  Codes.text_ofString hash

namespace Package

def name (p : Package) : String :=
  p.nameCodes.text

def fileName : String := "package.json"

def findDependency? (p : Package) (ref : String) : Option Dependency :=
  p.dependencies.find? fun d => d.name = ref || d.hash = ref

/-- The values without a meaning here, wherever they stand in the descriptor, in the order in which
they are looked at before anything is written. -/
def extraValues (p : Package) : List Json :=
  (p.dependencies.flatMap (·.extra) ++ p.go.extra ++ p.extra).map (·.2)

def heightLimit : Nat := 255

def flaw? (p : Package) : Option Json.Flaw :=
  Json.flawOfItems? heightLimit p.extraValues

def withImportPath (p : Package) (importPath : Codes) : Package :=
  { p with go := { p.go with importPathCodes := importPath } }

end Package

end HashedImports
