import HashedImports.Text.Quoted

namespace HashedImports.CommandLine

inductive UsageProblem
  | missingArgument (name : String)
  | extraArguments (values : List String)
  | noCommand
  | unknownCommand (name : String)
  | unknownOption (name : String)
  | optionWithoutValue (name : String)
  | flagWithValue (name : String)
  | fileForDirectory (option value : String)
  | nullCharacter
  deriving DecidableEq, Repr

def UsageProblem.message : UsageProblem → String
  | .missingArgument name => "Missing argument '" ++ name ++ "'."
  | .extraArguments values =>
    (if values.length = 1 then "Got unexpected extra argument ("
      else "Got unexpected extra arguments (") ++ String.intercalate " " values ++ ")"
  | .noCommand => "Missing command."
  | .unknownCommand name => "No such command " ++ Text.quoted name ++ "."
  | .unknownOption name => "No such option " ++ Text.quoted name ++ "."
  | .optionWithoutValue name => "Option " ++ Text.quoted name ++ " requires an argument."
  | .flagWithValue name => "Option " ++ Text.quoted name ++ " does not take a value."
  | .fileForDirectory option value =>
    "Invalid value for '" ++ option ++ "': Directory " ++ Text.quoted value ++ " is a file."
  | .nullCharacter => "Unexpected error: embedded null byte"

def UsageProblem.showsUsage : UsageProblem → Bool
  | .optionWithoutValue _ => false
  | .flagWithValue _ => false
  | .nullCharacter => false
  | _ => true

def UsageProblem.exitCode : UsageProblem → Nat
  | .nullCharacter => 1
  | _ => 2

structure Options where
  shortFlags : List Char
  flags : List String
  valued : List String

structure Given where
  options : List (String × Option String)
  values : List String

def Given.withOption (name : String) (value : Option String) (g : Given) : Given :=
  { g with options := (name, value) :: g.options }

def Given.withValue (value : String) (g : Given) : Given :=
  { g with values := value :: g.values }

def Given.has (g : Given) (name : String) : Bool :=
  g.options.any fun o => o.1 = name

def Given.value? (g : Given) (name : String) : Option String :=
  g.options.reverse.findSome? fun o => if o.1 = name then o.2 else none

def readCluster (opts : Options) (g : Given) : List Char → Except UsageProblem Given
  | [] => .ok g
  | c :: cs =>
    if c ∈ opts.shortFlags then
      (readCluster opts g cs).map (·.withOption (String.ofList ['-', c]) none)
    else .error (.unknownOption (String.ofList ['-', c]))

def splitValue (arg : String) : String × Option String :=
  match arg.toList.span (· ≠ '=') with
  | (name, '=' :: value) => (String.ofList name, some (String.ofList value))
  | _ => (arg, none)

def isOption (arg : String) : Bool :=
  match arg.toList with
  | '-' :: _ :: _ => true
  | _ => false

/-- Two dashes end the options. Where options are not `mixed` with values, so does the first
value. -/
def read (opts : Options) (mixed : Bool) : List String → Except UsageProblem Given
  | [] => .ok ⟨[], []⟩
  | arg :: args =>
    if arg = "--" then .ok ⟨[], args⟩
    else if isOption arg then
      let (name, value) := splitValue arg
      if name ∈ opts.flags then
        match value with
        | none => (read opts mixed args).map (·.withOption name none)
        | some _ => .error (.flagWithValue name)
      else if name ∈ opts.valued then
        match value, args with
        | some value, args => (read opts mixed args).map (·.withOption name (some value))
        | none, [] => .error (.optionWithoutValue name)
        | none, value :: args => (read opts mixed args).map (·.withOption name (some value))
      else if "--".toList.isPrefixOf arg.toList then .error (.unknownOption name)
      else
        match readCluster opts ⟨[], []⟩ (arg.toList.drop 1) with
        | .error p => .error p
        | .ok cluster =>
          (read opts mixed args).map fun g => { g with options := cluster.options ++ g.options }
    else if mixed then (read opts mixed args).map (·.withValue arg)
    else .ok ⟨[], arg :: args⟩

end HashedImports.CommandLine
