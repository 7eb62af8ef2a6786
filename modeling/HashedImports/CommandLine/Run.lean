import HashedImports.CommandLine.Command
import HashedImports.CommandLine.Dialog
import HashedImports.Graph.Hashes
import HashedImports.Hook
import HashedImports.Table

namespace HashedImports.CommandLine

structure Setting where
  disk : Disk
  environment : OrderedMap String String
  compilerOutput : Option String
  input : String

structure Exit where
  code : Nat
  output : String
  errors : String
  disk : Disk
  waiting : Bool

/-- How a command ends after it has printed something: a question may be left unanswered, and what
was agreed to may fail. -/
inductive Ending
  | finished
  | unanswered
  | failed (f : Fault)
  deriving DecidableEq, Repr

structure Printed where
  output : String
  ending : Ending

def silent : Printed :=
  ⟨"", .finished⟩

def printing (s : String) : Printed :=
  ⟨s, .finished⟩

def sortedObject (m : OrderedMap String String) : String :=
  let sorted := Table.sortedRows m
  String.ofList ((Json.object (sorted.map fun (k, v) => (k, .string v))).render 0)

def countModified (results : List SourceTree.Result) : Nat :=
  results.countP (·.modified)

open SourceTree (isGoFile)

def runRedirect (c : Context) (verbose undo dryRun : Bool) (packages : Option Path)
    (refs : List String) : Action Printed := do
  let package ← Action.read (·.loadPackage (c.directory.below [Package.fileName]))
  let places : Places := ⟨packages.getD c.vendorDirectory, c.cache?⟩
  let dir := if undo then Direction.toRepository else .toHashed
  Action.report [.buildingTable]
  let table ← Action.table fun d =>
    if refs.isEmpty then d.fillTable dir places package .empty
    else d.selectTable dir places package refs
  Action.report [.tableBuilt]
  if dryRun then
    let columns := Table.columns none table.entries
    return if columns = "" then silent else printing (echo columns)
  else
    let results ← SourceTree.redirectByTable table c.directory isGoFile
    return if verbose then
      printing (echo ("Rewrote imports in " ++ Text.decimal (countModified results) ++ " of " ++
        Text.decimal results.length ++ " files"))
    else silent

def runUpdate (c : Context) (verbose : Bool) (old new : String) : Action Printed := do
  let results ← SourceTree.update old new c.directory isGoFile
  return if verbose then
    printing (echo ("Updated imports in " ++ Text.decimal (countModified results) ++ " files"))
  else silent

def runDepMap (c : Context) : Action Printed := do
  let package ← Action.read (·.loadPackage (c.directory.below [Package.fileName]))
  let map ← fun d =>
    let g := d.gather ⟨c.vendorDirectory, c.cache?⟩ package .empty
    ⟨d, g.journal, g.fault.elim (.ok g.map) .error⟩
  return printing (echo (sortedObject map))

def runPostImport (c : Context) (input hash : String) : Action Printed := do
  match ← Hook.offer c hash with
  | none => return silent
  | some offer =>
    let (output, answer) := confirm offer.question input.toList
    match answer with
    | none => return ⟨output, .unanswered⟩
    | some false => return printing output
    | some true =>
      match ← (offer.accept c).attempt with
      | .ok _ => return printing output
      | .error f => return ⟨output, .failed f⟩

def inContext (s : Setting) (action : Context → Action Printed) : Action Printed := do
  let c ← Action.read (Context.at? · ⟨.relative, []⟩ s.environment)
  action c

def runCommand (s : Setting) (verbose : Bool) : Command → Action Printed
  | .redirect undo dryRun packages refs =>
    inContext s fun c => runRedirect c verbose undo dryRun packages refs
  | .update old new => inContext s fun c => runUpdate c verbose old new
  | .depMap => inContext s runDepMap
  | .path => inContext s fun c => do
    let path ← Action.ofExcept (Hook.identity c c.directory)
    return printing (echo path)
  | .postImport hash => inContext s fun c => runPostImport c s.input hash
  | .reqCheck directory => do
    Hook.requirement s.compilerOutput none directory
    return silent
  | .installPath everywhere => inContext s fun c => do
    let path ← Action.ofExcept (Hook.installPath c everywhere)
    return printing (echo path.render)
  | .postInit directory => inContext s fun c => do
    let _ ← Hook.recordPath c directory
    return silent
  | .postInstall directory => inContext s fun c => do
    let _ ← Hook.install c directory
    return silent
  | .postUpdate old new => inContext s fun c => do
    let _ ← Hook.replaceHash c old new
    return silent

def reported (verbose : Bool) (journal : List Event) : String :=
  String.join ((journal.filter fun e => verbose || e.isWarning).map fun e => e.message ++ "\n")

def faultLine (f : Fault) : String :=
  echo ("Error: " ++ (if f.isForeseen then "" else "Unexpected error: ") ++ f.message)

def runCall (s : Setting) : Call → Exit
  | .help words synopsis => ⟨0, usageLine words synopsis, "", s.disk, false⟩
  | .version => ⟨0, echo (programName ++ ", version " ++ programVersion), "", s.disk, false⟩
  | .command verbose c =>
    let o := runCommand s verbose c s.disk
    let lines := reported verbose o.journal
    match o.result with
    | .error f => ⟨1, "", lines ++ faultLine f, o.disk, false⟩
    | .ok ⟨output, .finished⟩ => ⟨0, output, lines, o.disk, false⟩
    | .ok ⟨output, .failed f⟩ => ⟨1, output, lines ++ faultLine f, o.disk, false⟩
    | .ok ⟨output, .unanswered⟩ => ⟨1, output, lines ++ echo "Aborted!", o.disk, true⟩

def run (s : Setting) (args : List String) : Exit :=
  match call s.disk args with
  | .error f =>
    ⟨f.problem.exitCode, "", String.ofList (Text.plain f.message.toList), s.disk, false⟩
  | .ok c => runCall s c

end HashedImports.CommandLine
