import HashedImports.SourceTree.Plan
import HashedImports.Action

namespace HashedImports.SourceTree

def writeAll : List Staged → Action Unit
  | [] => pure ()
  | s :: ss => do
    if s.result.modified then
      Action.report [.redirected s.result.count s.result.path.render]
      fun d =>
        match d.writeText s.result.path s.text with
        | .ok d => ⟨d, [], .ok ()⟩
        | .error f => ⟨d, [], .error (.redirect (.unwritable s.result.path.render f))⟩
    writeAll ss

def carryOut (planned : Except Fault (List Staged)) : Action (List Result) := do
  match planned with
  | .error f => Action.fail f
  | .ok staged =>
    writeAll staged
    return staged.map (·.result)

def redirect (lookup : String → String) (root : Path) (accepts : String → Bool) :
    Action (List Result) := fun d =>
  carryOut (Id.run (plan (pure d) (fun path => pure (lookup path)) root accepts)) d

def applyTable (t : Table) (root : Path) (accepts : String → Bool) (d : Disk) :
    Outcome (List Result) × Table :=
  let (planned, t) := (plan (pure d) Table.lookup root accepts).run t
  let action : Action (List Result) := do
    Action.report [.redirecting]
    let results ← carryOut planned
    Action.report [.finished]
    return results
  (action d, t)

def redirectByTable (t : Table) (root : Path) (accepts : String → Bool) : Action (List Result) :=
  fun d => (applyTable t root accepts d).1

def moved (old new path : String) : String :=
  match ImportPath.below? old path with
  | some rest => new ++ String.ofList rest
  | none => path

def update (old new : String) (root : Path) (accepts : String → Bool) : Action (List Result) := do
  Action.report [.updating old new]
  redirect (moved old new) root accepts

end HashedImports.SourceTree
