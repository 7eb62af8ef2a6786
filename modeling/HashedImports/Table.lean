import HashedImports.ImportPath
import HashedImports.OrderedMap

/-!
Redirection tables: import paths with the paths they become. The first entry for a path stays;
offers of another target are recorded as conflicts. A path without an entry follows the longest
entry above it, and every answer becomes an entry. Mappings are shown in two columns, sorted by key;
where the first column has its headers, the second column starts at the same place.
-/

namespace HashedImports

/-- A path for which two targets were offered. Each target comes with the hash of the dependency it
is owed to, if there is one. -/
structure Conflict where
  key : String
  kept : String
  rejected : String
  keptHash : String
  rejectedHash : String
  deriving DecidableEq, Repr

def Conflict.message (c : Conflict) : String :=
  "have two dep packages with same import path: " ++ c.key ++
    "\n  - " ++ (if c.keptHash = "" then c.kept else c.keptHash) ++
    "\n  - " ++ (if c.rejectedHash = "" then c.rejected else c.rejectedHash)

structure Table where
  entries : OrderedMap String String
  origins : OrderedMap String String
  conflicts : List Conflict

namespace Table

def ofEntries (entries : OrderedMap String String) : Table :=
  ⟨entries, .empty, []⟩

def empty : Table :=
  ofEntries .empty

instance : Inhabited Table := ⟨empty⟩

def conflictWith? (t : Table) (key value origin : String) : Option Conflict :=
  match t.entries.find? key with
  | some kept =>
    if kept = value then none
    else some ⟨key, kept, value, (t.origins.find? key).getD "", origin⟩
  | none => none

def add (t : Table) (key value origin : String) : Bool × Table :=
  match t.entries.find? key with
  | none =>
    (true, { t with
      entries := t.entries.insert key value
      origins := t.origins.insert key origin })
  | some _ =>
    (false, { t with conflicts := t.conflicts ++ (t.conflictWith? key value origin).toList })

def set (t : Table) (key value : String) : Table :=
  { t with entries := t.entries.insert key value }

def longer (path best key : String) : String :=
  if best.length < key.length ∧ (key.toList ++ ['/']).isPrefixOf path.toList then key else best

def longestAbove (entries : OrderedMap String String) (path : String) : String :=
  entries.keys.foldl (longer path) ""

def target (entries : OrderedMap String String) (path : String) : String :=
  match entries.find? path with
  | some target => target
  | none =>
    let above := longestAbove entries path
    if above = "" then path
    else (entries.find? above).getD "" ++ String.ofList (path.toList.drop above.length)

def lookup (path : String) : StateM Table String := fun t =>
  let target := target t.entries path
  (target, if t.entries.contains path then t else t.set path target)

def leastWidth : Nat := 12

def sortedRows (m : OrderedMap String String) : List (String × String) :=
  m.entries.mergeSort fun a b => a.1 ≤ b.1

def columnWidth (rows : List (String × String)) : Nat :=
  max leastWidth (((rows.map fun r => r.1.length).foldl max 0) + 1)

def row (width : Nat) (r : String × String) : List Char :=
  r.1.toList ++ List.replicate (width - r.1.length) ' ' ++ r.2.toList

def columns (headers : Option (String × String)) (m : OrderedMap String String) : String :=
  let rows := headers.toList ++ sortedRows m
  String.ofList (['\n'].intercalate (rows.map (row (columnWidth rows))))

end Table

end HashedImports
