import HashedImports.Json
import HashedImports.Text.Quoted
import HashedImports.Decimal.Shortest

/-!
JSON texts: one item a line, indented by two columns a level, ASCII only.
-/

namespace HashedImports.Json

def escapedUnit (n : Nat) : List Char :=
  '\\' :: 'u' :: Text.hex 4 n

def escapedChar (c : Char) : List Char :=
  if c = '"' ∨ c = '\\' then ['\\', c]
  else if c = '\n' then ['\\', 'n']
  else if c = '\r' then ['\\', 'r']
  else if c = '\t' then ['\\', 't']
  else if c = '\x08' then ['\\', 'b']
  else if c = '\x0c' then ['\\', 'f']
  else if 32 ≤ c.toNat ∧ c.toNat < 127 then [c]
  else (Code.char c).units.flatMap escapedUnit

def escapedCode : Code → List Char
  | .char c => escapedChar c
  | .half n => escapedUnit (0xD800 + n.val)

def renderString (s : Codes) : List Char :=
  '"' :: s.toList.flatMap escapedCode ++ ['"']

def renderInteger (n : Int) : List Char :=
  (if n < 0 then ['-'] else []) ++ Nat.toDigits 10 n.natAbs

/-- Sixteen digits stand before the point, and three zeros after it, until an exponent is used. -/
def realLayout : Decimal.Layout :=
  ⟨-3, 16, 'e', 2⟩

/-- Numbers that are not finite have no JSON form; null stands for them. -/
def renderReal : Decimal.Binary64 → List Char
  | .finite negative m e =>
    (if negative then ['-'] else []) ++ realLayout.render (Decimal.shortest m e)
  | _ => "null".toList

def newline (indent : Nat) : List Char :=
  '\n' :: List.replicate indent ' '

mutual

def render (indent : Nat) : Json → List Char
  | .null => "null".toList
  | .bool true => "true".toList
  | .bool false => "false".toList
  | .integer n => renderInteger n
  | .real x => renderReal x
  | .string s => renderString s
  | .array [] => ['[', ']']
  | .array (item :: items) =>
    '[' :: (newline (indent + 2) ++ render (indent + 2) item ++ renderItems (indent + 2) items ++
      newline indent ++ [']'])
  | .object [] => ['\x7b', '\x7d']
  | .object ((k, v) :: members) =>
    '\x7b' :: (newline (indent + 2) ++ renderString k ++ [':', ' '] ++ render (indent + 2) v ++
      renderMembers (indent + 2) members ++ newline indent ++ ['\x7d'])

def renderItems (indent : Nat) : List Json → List Char
  | [] => []
  | item :: items => ',' :: (newline indent ++ render indent item ++ renderItems indent items)

def renderMembers (indent : Nat) : List (Codes × Json) → List Char
  | [] => []
  | (k, v) :: members =>
    ',' :: (newline indent ++ renderString k ++ [':', ' '] ++ render indent v ++
      renderMembers indent members)

end

end HashedImports.Json
