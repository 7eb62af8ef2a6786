import HashedImports.Json.Parser
import HashedImports.Json.Printer
import HashedImports.Package.Schema
import HashedImports.Text.Lines
import HashedImports.Text.Utf8

namespace HashedImports.Package

inductive ContentFault
  | undecodable (f : Text.Utf8.Fault)
  | malformed (p : Json.Problem) (place : Json.Place)
  | oversizeInteger (digits : Nat)
  | tooNested (c : Json.Container)
  | notObject
  | schema (violations : List Violation)
  deriving DecidableEq, Repr

def ofText (levels : Json.Levels) (cs : List Char) : Except ContentFault Package :=
  match Json.parse levels cs with
  | .error (.problem p left) => .error (.malformed p (.of cs left))
  | .error (.oversize digits) => .error (.oversizeInteger digits)
  | .error (.tooNested c) => .error (.tooNested c)
  | .ok (.object ms) =>
    match ofMembers ms with
    | .error violations => .error (.schema violations)
    | .ok p => .ok p
  | .ok _ => .error .notObject

def ofContent (levels : Json.Levels) (content : List UInt8) : Except ContentFault Package :=
  match Text.Utf8.decode content with
  | .error f => .error (.undecodable f)
  | .ok cs => ofText levels (Text.unifyLines cs)

def text (p : Package) : List Char :=
  p.toJson.render 0 ++ ['\n']

def content (p : Package) : List UInt8 :=
  Text.Utf8.encode p.text

end HashedImports.Package
