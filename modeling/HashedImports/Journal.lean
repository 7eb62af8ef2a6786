import HashedImports.Fault
import HashedImports.Table

namespace HashedImports

inductive Event
  | fetching (name hash : String)
  | tryingCache (location : String)
  | notThere (cause : Fault)
  | buildingTable
  | tableBuilt
  | cycle (name hash : String) (chain : List String)
  | conflict (c : Conflict)
  | redirecting
  | updating (old new : String)
  | redirected (count : Nat) (path : String)
  | finished
  | noImportPath (cause : Fault)
  deriving DecidableEq, Repr

namespace Event

def isWarning : Event → Bool
  | .conflict _ => true
  | _ => false

def message : Event → String
  | .fetching name hash => "  - fetching dep: " ++ name ++ " (" ++ hash ++ ")"
  | .tryingCache location => "  - checking in global namespace (" ++ location ++ ")"
  | .notThere cause => "    " ++ cause.message
  | .buildingTable => "  - building rewrite mapping"
  | .tableBuilt => "  - rewrite mapping complete"
  | .cycle name hash chain =>
    "  - skipping " ++ name ++ " (" ++ hash ++ "): cycle through " ++
      String.intercalate " -> " chain
  | .conflict c => c.message
  | .redirecting => "  - rewriting imports"
  | .updating old new => "  - updating imports " ++ old ++ " -> " ++ new
  | .redirected count path => "    rewrote " ++ Text.decimal count ++ " imports in " ++ path
  | .finished => "  - finished!"
  | .noImportPath cause => "not recording import path: " ++ cause.message

end Event

end HashedImports
