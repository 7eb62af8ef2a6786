import HashedImports.Disk.Canonical
import HashedImports.ImportPath
import HashedImports.Package.Content
import HashedImports.Version

namespace HashedImports

inductive DescriptorProblem
  | disk (f : DiskFault)
  | malformed (p : Json.Problem) (place : Json.Place)
  | notObject
  | schema (violations : List Violation)
  deriving DecidableEq, Repr

inductive Absence
  | noPackage (directory : String)
  | notOne (directory : String) (count : Nat)
  | noDescriptor (directory : String)
  deriving DecidableEq, Repr

inductive RedirectFault
  | noDirectory (root : String)
  | unreadable (path : String) (cause : Disk.ReadFault)
  | unwritable (path : String) (cause : DiskFault)
  deriving DecidableEq, Repr

inductive Requirement
  | noCompiler
  | unrecognizedCompiler (output : String)
  | olderCompiler (package required installed : String)
  deriving DecidableEq, Repr

inductive Fault
  | sourceRootUnset
  | version (f : Version.Fault)
  | outsideRoot (f : ImportPath.OutsideRoot)
  | descriptor (path : String) (problem : DescriptorProblem)
  | absence (a : Absence)
  | disk (f : DiskFault)
  | undecodable (f : Text.Utf8.Fault)
  | oversizeInteger (digits : Nat)
  | tooNested (c : Json.Container)
  | unsavable (flaw : Json.Flaw)
  | linkLoop (path : String)
  | dependencyMissing (name hash : String) (searched : List String)
  | dependencyChain (package : String) (chain : List String) (cause : Fault)
  | redirect (f : RedirectFault)
  | requirement (r : Requirement)
  | endless
  deriving DecidableEq, Repr

def Disk.ReadFault.message : Disk.ReadFault → String
  | .disk f => f.message
  | .undecodable f => f.message

def Json.Container.message : Json.Container → String
  | .array => "maximum recursion depth exceeded while decoding a JSON array from a unicode string"
  | .object => "maximum recursion depth exceeded while decoding a JSON object from a unicode string"

def Json.Flaw.message : Json.Flaw → String
  | .tooDeep => "Maximum serialization depth exceeded"
  | .brokenKey key => key.unencodableMessage

def placeText (p : Json.Place) : String :=
  "line " ++ Text.decimal p.line ++ " column " ++ Text.decimal p.column ++
    " (char " ++ Text.decimal p.index ++ ")"

def DescriptorProblem.message : DescriptorProblem → String
  | .disk f => f.message
  | .malformed p place => "invalid JSON: " ++ p.message ++ ": " ++ placeText place
  | .notObject => "expected a JSON object"
  | .schema violations =>
    Text.decimal violations.length ++
      (if violations.length = 1 then " validation error" else " validation errors") ++
      " for Package"

def Absence.message : Absence → String
  | .noPackage directory => "no package found at " ++ directory
  | .notOne directory count =>
    "expected exactly one package directory in " ++ directory ++ ", found " ++ Text.decimal count
  | .noDescriptor directory => "no " ++ Package.fileName ++ " in " ++ directory

def RedirectFault.message : RedirectFault → String
  | .noDirectory root => "Source directory does not exist: " ++ root
  | .unreadable path cause => "Failed to read " ++ path ++ ": " ++ cause.message
  | .unwritable path cause => "Failed to write " ++ path ++ ": " ++ cause.message

def Requirement.message : Requirement → String
  | .noCompiler => "no go compiler installed"
  | .unrecognizedCompiler output => Version.unrecognizedMessage output
  | .olderCompiler package required installed =>
    "package '" ++ package ++ "' requires at least go version " ++ required ++ ", you have " ++
      installed ++ " installed."

namespace Fault

def descriptorMessage (path reason : String) : String :=
  "Failed to load package file " ++ path ++ ": " ++ reason

def missingMessage (name hash : String) (searched : List String) : String :=
  "failed to find package " ++ Text.quoted name ++
    (if hash = "" then "" else " (" ++ hash ++ ")") ++
    if searched.isEmpty then "" else
      "\nsearched:\n" ++ String.intercalate "\n" (searched.map ("  - " ++ ·))

def chainMessage (package : String) (chain : List String) (cause : String) : String :=
  "Failed to load dependency " ++ Text.quoted package ++ ":\n  Dependency chain: " ++
    (if chain.isEmpty then package else String.intercalate " -> " chain) ++ "\n  Error: " ++ cause

def message : Fault → String
  | .sourceRootUnset => "GOPATH not set"
  | .version f => f.message
  | .outsideRoot f => f.message
  | .descriptor path problem => descriptorMessage path problem.message
  | .absence a => a.message
  | .disk f => f.message
  | .undecodable f => f.message
  | .oversizeInteger digits => Version.oversizeMessage digits
  | .tooNested c => c.message
  | .unsavable flaw => flaw.message
  | .linkLoop path => "Symlink loop from " ++ Text.quoted path
  | .dependencyMissing name hash searched => missingMessage name hash searched
  | .dependencyChain package chain cause => chainMessage package chain cause.message
  | .redirect f => f.message
  | .requirement r => r.message
  | .endless => "the dependencies do not end"

/-- What users are told as it is; other faults are announced as unexpected. -/
def isForeseen : Fault → Bool
  | .version (.notNumber _ _) => true
  | .version _ => false
  | .disk f => f.obstacle = .missing
  | .undecodable _ => false
  | .oversizeInteger _ => false
  | .tooNested _ => false
  | .unsavable _ => false
  | .linkLoop _ => false
  | .endless => false
  | _ => true

end Fault

end HashedImports
