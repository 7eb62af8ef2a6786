import HashedImports.Text.Range
import HashedImports.Text.Digit
import HashedImports.Text.Quoted
import HashedImports.Text.Split

/-!
Dotted versions of the compiler. Two versions are compared over the components that both have, so
"1.4.2" is neither older nor newer than "1.4".
-/

namespace HashedImports.Version

inductive Fault
  | notNumber (version component : String)
  | oversize (digits : Nat)
  | unrecognized (output : String)
  deriving DecidableEq, Repr

def oversizeMessage (digits : Nat) : String :=
  "Exceeds the limit (4300 digits) for integer string conversion: value has " ++
    Text.decimal digits ++
    " digits; use sys.set_int_max_str_digits() to increase the limit"

def unrecognizedMessage (output : String) : String :=
  "unrecognized output from go compiler: " ++ Text.quoted output

def Fault.message : Fault → String
  | .notNumber version component =>
    "Invalid version: " ++ Text.quoted version ++
      if component = "" then "" else " (component " ++ Text.quoted component ++ " is not a number)"
  | .oversize digits => oversizeMessage digits
  | .unrecognized output => unrecognizedMessage output

def digitLimit : Nat := 4300

def component (version : String) (part : List Char) : Except Fault Nat :=
  match Text.decimal? part with
  | none => .error (.notNumber version (String.ofList part))
  | some n => if digitLimit < part.length then .error (.oversize part.length) else .ok n

def olderParts (installed required : String) :
    List (List Char) → List (List Char) → Except Fault Bool
  | i :: is, r :: rs =>
    match component installed i with
    | .error f => .error f
    | .ok x =>
      match component required r with
      | .error f => .error f
      | .ok y =>
        if x < y then .ok true else if y < x then .ok false else olderParts installed required is rs
  | _, _ => .ok false

def isOlder (installed required : String) : Except Fault Bool :=
  olderParts installed required (Text.splitOn '.' installed.toList)
    (Text.splitOn '.' required.toList)

/-- The version in what the compiler prints about itself: the third of at least four words, after
"go". -/
def ofCompilerOutput (output : String) : Except Fault String :=
  let words := Text.splitOn ' ' (Text.strip output.toList)
  match words with
  | _ :: _ :: ('g' :: 'o' :: version) :: _ :: _ => .ok (String.ofList version)
  | _ => .error (.unrecognized (String.ofList (Text.strip output.toList)))

end HashedImports.Version
