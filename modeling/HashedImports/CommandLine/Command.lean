import HashedImports.CommandLine.Arguments
import HashedImports.Disk

namespace HashedImports.CommandLine

def programName : String := "gx-go"

def programVersion : String := "1.1.0"

inductive CommandName
  | redirect
  | update
  | depMap
  | path
  | postImport
  | reqCheck
  | installPath
  | postInit
  | postInstall
  | postUpdate
  deriving DecidableEq, Repr

inductive Command
  | redirect (undo dryRun : Bool) (packages : Option Path) (refs : List String)
  | update (old new : String)
  | depMap
  | path
  | postImport (hash : String)
  | reqCheck (directory : Path)
  | installPath (everywhere : Bool)
  | postInit (directory : Option Path)
  | postInstall (directory : Path)
  | postUpdate (old new : String)
  deriving DecidableEq, Repr

inductive Tail
  | nothing
  | optional (name : String)
  | any (name : String)
  deriving DecidableEq, Repr

namespace CommandName

def words : CommandName → List String
  | .redirect => ["rewrite"]
  | .update => ["update"]
  | .depMap => ["dep-map"]
  | .path => ["path"]
  | .postImport => ["hook", "post-import"]
  | .reqCheck => ["hook", "req-check"]
  | .installPath => ["hook", "install-path"]
  | .postInit => ["hook", "post-init"]
  | .postInstall => ["hook", "post-install"]
  | .postUpdate => ["hook", "post-update"]

def options : CommandName → Options
  | .redirect => ⟨[], ["--undo", "--dry-run", "--help"], ["--pkgdir"]⟩
  | .installPath => ⟨[], ["--global", "--help"], []⟩
  | .postInstall => ⟨[], ["--global", "--help"], []⟩
  | _ => ⟨[], ["--help"], []⟩

def required : CommandName → List String
  | .update => ["OLD_IMPORT", "NEW_IMPORT"]
  | .postImport => ["DEP_HASH"]
  | .reqCheck => ["PKGPATH"]
  | .postInstall => ["INSTALL_DIR"]
  | .postUpdate => ["OLD_HASH", "NEW_HASH"]
  | _ => []

def tail : CommandName → Tail
  | .redirect => .any "DEPS"
  | .postInit => .optional "DIRECTORY"
  | _ => .nothing

def synopsis (n : CommandName) : String :=
  String.intercalate " " (["[OPTIONS]"] ++ n.required ++
    match n.tail with
    | .nothing => []
    | .optional name => ["[" ++ name ++ "]"]
    | .any name => ["[" ++ name ++ "]..."])

def all : List CommandName :=
  [.redirect, .update, .depMap, .path, .postImport, .reqCheck, .installPath, .postInit,
    .postInstall, .postUpdate]

def ofWord? (group : List String) (word : String) : Option CommandName :=
  all.find? fun n => n.words = group ++ [word]

def checkCount (n : CommandName) (values : List String) : Except UsageProblem Unit :=
  match n.required.drop values.length with
  | name :: _ => .error (.missingArgument name)
  | [] =>
    let extra := values.drop n.required.length
    match n.tail, extra with
    | .nothing, [] => .ok ()
    | .nothing, _ => .error (.extraArguments extra)
    | .optional _, [] => .ok ()
    | .optional _, [_] => .ok ()
    | .optional _, _ :: more => .error (.extraArguments more)
    | .any _, _ => .ok ()

/-- The text leads to a file. One that is too long cannot, nor can one that ends in a slash or in a
single dot. -/
def namesFile (d : Disk) (s : String) : Bool :=
  match (Text.splitOn '/' s.toList).getLast? with
  | none | some [] | some ['.'] => false
  | some _ => s.utf8ByteSize ≤ Disk.pathLimit && (d.isFile (.ofString s) matches .ok true)

def pathText? (n : CommandName) (g : Given) : Option String :=
  match n with
  | .redirect => g.value? "--pkgdir"
  | .reqCheck | .postInit | .postInstall => g.values[0]?
  | _ => none

/-- The command for what was given. A path is looked at before the values are counted, and the
directory of packages must not be a file. -/
def command (n : CommandName) (d : Disk) (g : Given) : Except UsageProblem Command := do
  let value (i : Nat) : String := (g.values[i]?).getD ""
  let packages := g.value? "--pkgdir"
  if (n.pathText? g).any (fun s => '\x00' ∈ s.toList) then throw .nullCharacter
  if packages.any (namesFile d) then
    throw (.fileForDirectory "--pkgdir" (packages.getD ""))
  n.checkCount g.values
  return match n with
    | .redirect =>
      .redirect (g.has "--undo") (g.has "--dry-run") (packages.map Path.ofString) g.values
    | .update => .update (value 0) (value 1)
    | .depMap => .depMap
    | .path => .path
    | .postImport => .postImport (value 0)
    | .reqCheck => .reqCheck (.ofString (value 0))
    | .installPath => .installPath (g.has "--global")
    | .postInit => .postInit ((g.values[0]?).map Path.ofString)
    | .postInstall => .postInstall (.ofString (value 0))
    | .postUpdate => .postUpdate (value 0) (value 1)

end CommandName

structure UsageFault where
  words : List String
  synopsis : String
  problem : UsageProblem
  deriving DecidableEq, Repr

def usageLine (words : List String) (synopsis : String) : String :=
  "Usage: " ++ String.intercalate " " (programName :: words ++ [synopsis]) ++ "\n"

def UsageFault.message (f : UsageFault) : String :=
  (if f.problem.showsUsage then
    usageLine f.words f.synopsis ++ "Try '" ++
      String.intercalate " " (programName :: f.words ++ ["--help"]) ++ "' for help.\n\n"
  else "") ++ "Error: " ++ f.problem.message ++ "\n"

inductive Call
  | help (words : List String) (synopsis : String)
  | version
  | command (verbose : Bool) (c : Command)
  deriving DecidableEq, Repr

def groupSynopsis : String := "[OPTIONS] COMMAND [ARGS]..."

def callCommand (d : Disk) (verbose : Bool) (n : CommandName) (args : List String) :
    Except UsageFault Call :=
  let fault := UsageFault.mk n.words n.synopsis
  match read n.options true args with
  | .error p => .error (fault p)
  | .ok g =>
    if g.has "--help" then .ok (.help n.words n.synopsis)
    else
      match n.command d g with
      | .error p => .error (fault p)
      | .ok c => .ok (.command verbose c)

def callOfOptions? (words : List String) (g : Given) : Option Call :=
  (g.options.find? fun o => o.1 = "--version" || o.1 = "--help").map fun o =>
    if o.1 = "--version" then .version else .help words groupSynopsis

/-- A word that is no command may still be an option, where two dashes kept it from being read as
one. -/
def callUnknown (opts : Options) (words : List String) (word : String) (args : List String) :
    Except UsageFault Call :=
  let fault := UsageFault.mk words groupSynopsis
  match read opts false (word :: args) with
  | .error p => .error (fault p)
  | .ok g =>
    match callOfOptions? words g with
    | some c => .ok c
    | none => .error (fault (.unknownCommand word))

def hookOptions : Options :=
  ⟨[], ["--help"], []⟩

def callHook (d : Disk) (verbose : Bool) (args : List String) : Except UsageFault Call :=
  let fault := UsageFault.mk ["hook"] groupSynopsis
  match read hookOptions false args with
  | .error p => .error (fault p)
  | .ok g =>
    match callOfOptions? ["hook"] g, g.values with
    | some c, _ => .ok c
    | none, [] => .error (fault .noCommand)
    | none, word :: args =>
      match CommandName.ofWord? ["hook"] word with
      | none => callUnknown hookOptions ["hook"] word args
      | some n => callCommand d verbose n args

def programOptions : Options :=
  ⟨['v'], ["--verbose", "--version", "--help"], []⟩

def call (d : Disk) (args : List String) : Except UsageFault Call :=
  let fault := UsageFault.mk [] groupSynopsis
  match read programOptions false args with
  | .error p => .error (fault p)
  | .ok g =>
    let verbose := g.has "-v" || g.has "--verbose"
    match callOfOptions? [] g, g.values with
    | some c, _ => .ok c
    | none, [] => .error (fault .noCommand)
    | none, word :: args =>
      if word = "hook" then callHook d verbose args
      else
        match CommandName.ofWord? [] word with
        | none => callUnknown programOptions [] word args
        | some n => callCommand d verbose n args

end HashedImports.CommandLine
