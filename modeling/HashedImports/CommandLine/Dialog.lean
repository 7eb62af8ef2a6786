import HashedImports.Text.Ansi
import HashedImports.Text.Range
import HashedImports.Text.Split

namespace HashedImports.CommandLine

def echo (s : String) : String :=
  String.ofList (Text.plain s.toList) ++ "\n"

def answer? (line : List Char) : Option Bool :=
  let word := Text.strip (line.map Char.toLower)
  if word = ['y'] ∨ word = "yes".toList then some true
  else if word = ['n'] ∨ word = "no".toList ∨ word = [] then some false
  else none

/-- The lines that can be read from an input. A line feed alone ends a line, and the last line may
lack it. -/
def inputLines (input : List Char) : List (List Char) :=
  let lines := Text.splitOn '\n' input
  if lines.getLast? = some [] then lines.dropLast else lines

def ask (prompt : String) : List (List Char) → String × Option Bool
  | [] => (prompt, none)
  | line :: lines =>
    match answer? line with
    | some answer => (prompt, some answer)
    | none =>
      let (printed, answer) := ask prompt lines
      (prompt ++ echo "Error: invalid input" ++ printed, answer)

def confirm (question : String) (input : List Char) : String × Option Bool :=
  ask (String.ofList (Text.plain (question ++ " [y/N]:").toList) ++ " ") (inputLines input)

end HashedImports.CommandLine
