import HashedImports.Package
import HashedImports.Text.Digit

namespace HashedImports

inductive Mismatch
  | missing
  | notString
  | brokenString
  | notList
  | notObject
  deriving DecidableEq, Repr

structure Violation where
  place : List String
  mismatch : Mismatch
  deriving DecidableEq, Repr

abbrev Checked (α : Type) := Except (List Violation) α

namespace Checked

variable {α β : Type}

def both (f : Checked (α → β)) (a : Checked α) : Checked β :=
  match f, a with
  | .ok f, .ok a => .ok (f a)
  | .error e, .ok _ => .error e
  | .ok _, .error e => .error e
  | .error e, .error e' => .error (e ++ e')

def violated (place : List String) (m : Mismatch) : Checked α :=
  .error [⟨place, m⟩]

end Checked

namespace Package

open Checked

def requiredString (place : List String) (members : List (Codes × Json)) (key : String) :
    Checked Codes :=
  match Json.get? members key with
  | some (.string s) => .ok s
  | some _ => violated (place ++ [key]) .notString
  | none => violated (place ++ [key]) .missing

def optionalString (place : List String) (members : List (Codes × Json)) (key : String) :
    Checked (Option Codes) :=
  match Json.get? members key with
  | some (.string s) => .ok (some s)
  | some .null => .ok none
  | some _ => violated (place ++ [key]) .notString
  | none => .ok none

def stringOrEmpty (place : List String) (members : List (Codes × Json)) (key : String) :
    Checked Codes :=
  match Json.get? members key with
  | some (.string s) => .ok s
  | some _ => violated (place ++ [key]) .notString
  | none => .ok ""

def extraOf (fields : List Codes) (members : List (Codes × Json)) : Extra :=
  members.filter fun m => m.1 ∉ fields

/-- A key that holds half a character ends the check of its object, whatever else is wrong there. -/
def wholeKeys {α : Type} (place : List String) (members : List (Codes × Json))
    (checked : Checked α) : Checked α :=
  if members.all fun m => m.1.isWhole then checked else violated place .brokenString

def goFields : List Codes := ["dvcsimport", "goversion"]

def goInfoOf (place : List String) : Json → Checked GoInfo
  | .object ms =>
    wholeKeys place ms <|
      both (both (.ok fun importPath goVersion => ⟨importPath, goVersion, extraOf goFields ms⟩)
        (stringOrEmpty place ms "dvcsimport")) (stringOrEmpty place ms "goversion")
  | _ => violated place .notObject

def dependencyFields : List Codes := ["name", "hash", "version", "author"]

def dependencyOf (place : List String) : Json → Checked Dependency
  | .object ms =>
    wholeKeys place ms <|
      both (both (both (both
        (.ok fun name hash version author =>
          ⟨name, hash, version, author, extraOf dependencyFields ms⟩)
        (stringOrEmpty place ms "name")) (requiredString place ms "hash"))
        (optionalString place ms "version")) (optionalString place ms "author")
  | _ => violated place .notObject

def dependenciesOf (place : List String) (i : Nat) : List Json → Checked (List Dependency)
  | [] => .ok []
  | item :: items =>
    both (both (.ok (· :: ·)) (dependencyOf (place ++ [Text.decimal i]) item))
      (dependenciesOf place (i + 1) items)

def dependencyList (members : List (Codes × Json)) : Checked (List Dependency) :=
  match Json.get? members "dependencies" with
  | some (.array items) => dependenciesOf ["dependencies"] 0 items
  | some _ => violated ["dependencies"] .notList
  | none => .ok []

def goInfo (members : List (Codes × Json)) : Checked GoInfo :=
  match Json.get? members "gx" with
  | some v => goInfoOf ["gx"] v
  | none => .ok ⟨"", "", []⟩

def fields : List Codes := ["name", "version", "language", "dependencies", "gx"]

def ofMembers (ms : List (Codes × Json)) : Checked Package :=
  wholeKeys [] ms <|
    both (both (both (both (both
      (.ok fun name version language dependencies go =>
        ⟨name, version, language, dependencies, go, extraOf fields ms⟩)
      (requiredString [] ms "name")) (optionalString [] ms "version"))
      (optionalString [] ms "language")) (dependencyList ms)) (goInfo ms)

def stringMember (key : String) (value : Option Codes) : List (Codes × Json) :=
  match value with
  | none => []
  | some s => [(key, .string s)]

def keptExtra (extra : Extra) : Extra :=
  extra.filter fun m => !m.2.isNull

def filledMember (key : String) (value : Codes) : List (Codes × Json) :=
  if value = "" then [] else [(key, .string value)]

def isEmptyString : Json → Bool
  | .string s => s = ""
  | _ => false

def goMembers (g : GoInfo) : List (Codes × Json) :=
  filledMember "dvcsimport" g.importPathCodes ++ filledMember "goversion" g.goVersionCodes ++
    (keptExtra g.extra).filter fun m => !isEmptyString m.2

def dependencyJson (d : Dependency) : Json :=
  .object (filledMember "name" d.nameCodes ++ [(("hash" : Codes), Json.string d.hashCodes)] ++
    stringMember "version" d.versionCodes ++ stringMember "author" d.authorCodes ++
    keptExtra d.extra)

def toJson (p : Package) : Json :=
  let go := goMembers p.go
  .object ([(("name" : Codes), Json.string p.nameCodes)] ++ stringMember "version" p.versionCodes ++
    stringMember "language" p.languageCodes ++
    [(("dependencies" : Codes), Json.array (p.dependencies.map dependencyJson))] ++
    keptExtra p.extra ++ if go.isEmpty then [] else [(("gx" : Codes), Json.object go)])

end Package

end HashedImports
