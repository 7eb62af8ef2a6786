import HashedImports.CommandLine.Run

/-!
The program. It reads the directories that a command may touch into a file tree, runs the command
line on it and writes back the files that changed.
-/

namespace HashedImports.Main

def nowhere : String := "/nowhere/at/all"

def locationOf (path : String) : Location :=
  Path.collapse true (Path.ofString path).names

partial def readInto (t : FileTree) (path : String) : IO FileTree := do
  let loc := locationOf path
  if (t.node? loc).isSome && (t.node? loc) != some .directory then return t
  let resolved ← (some <$> IO.FS.realPath path).catchExceptions fun _ => pure none
  match resolved with
  | none => return t.put loc (.link nowhere)
  | some real =>
    if locationOf real.toString != loc then return t.put loc (.link real.toString)
    else if ← real.isDir then
      let mut t := t.makeDirectories loc
      for entry in ← real.readDir do
        t ← readInto t (path ++ "/" ++ entry.fileName)
      return t
    else return t.put loc (.file (← IO.FS.readBinFile path).toList)

def readIfPresent (t : FileTree) (path : String) : IO FileTree := do
  let real ← (some <$> IO.FS.realPath path).catchExceptions fun _ => pure none
  match real with
  | none => return t
  | some real =>
    let loc := locationOf real.toString
    readInto (t.makeDirectories loc.dropLast) real.toString

def compilerOutput : IO (Option String) := do
  match ← IO.getEnv "GOROOT" with
  | none => return none
  | some root =>
    let text ← (some <$> IO.FS.readFile (root ++ "/VERSION")).catchExceptions fun _ => pure none
    return text.map fun text =>
      "go version " ++ String.ofList (text.toList.takeWhile (· ≠ '\n')) ++ " " ++ root

partial def answering (args : List String) (s : CommandLine.Setting) (printed : Nat) :
    IO CommandLine.Exit := do
  let e := CommandLine.run s args
  let output ← IO.getStdout
  output.putStr (String.ofList (e.output.toList.drop printed))
  output.flush
  if e.waiting then
    let line ← (← IO.getStdin).getLine
    if line.isEmpty then return e
    else answering args { s with input := s.input ++ line } e.output.length
  else return e

def writeChanges (before after : FileTree) : IO Unit := do
  for (loc, node) in after.nodes.entries do
    match node with
    | .file content =>
      if before.node? loc != some node then
        IO.FS.writeBinFile (Path.render ⟨.root, loc⟩) (ByteArray.mk content.toArray)
    | _ => pure ()

end HashedImports.Main

open HashedImports in
def main (args : List String) : IO UInt32 := do
  let cwd := (← IO.currentDir).toString
  let gopath ← IO.getEnv "GOPATH"
  let environment := .ofList ((gopath.map fun g => ("GOPATH", g)).toList)
  let mut tree ← Main.readIfPresent .empty cwd
  for root in (Context.cache? ⟨.ofString cwd, environment⟩).toList do
    tree ← Main.readIfPresent tree root.render
  for arg in args do
    tree ← Main.readIfPresent tree arg
  let disk : Disk := ⟨tree, ⟨Main.locationOf cwd, 0⟩, default⟩
  let e ← Main.answering args ⟨disk, environment, ← Main.compilerOutput, ""⟩ 0
  (← IO.getStderr).putStr e.errors
  Main.writeChanges tree e.disk.tree
  return e.code.toUInt32
