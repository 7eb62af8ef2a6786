import HashedImports.Json
import HashedImports.Text.Digit

/-!
Reading JSON. Every reader takes what is left of the text and returns its value with what is left
after it; a fault is placed by the number of characters left.
-/

namespace HashedImports.Json

inductive Problem
  | value
  | comma
  | colon
  | name
  | extra
  | unterminated
  | control
  | escape
  | unicodeEscape
  | byteOrderMark
  deriving DecidableEq, Repr

def Problem.message : Problem → String
  | .value => "Expecting value"
  | .comma => "Expecting ',' delimiter"
  | .colon => "Expecting ':' delimiter"
  | .name => "Expecting property name enclosed in double quotes"
  | .extra => "Extra data"
  | .unterminated => "Unterminated string starting at"
  | .control => "Invalid control character at"
  | .escape => "Invalid \\escape"
  | .unicodeEscape => "Invalid \\uXXXX escape"
  | .byteOrderMark => "Unexpected UTF-8 BOM (decode using utf-8-sig)"

inductive Container
  | array
  | object
  deriving DecidableEq, Repr

/-- Why reading stops: a problem, `left` characters before the end, an integer with more digits than
are read, or an array or object inside more others than are read. -/
inductive Stop
  | problem (p : Problem) (left : Nat)
  | oversize (digits : Nat)
  | tooNested (c : Container)
  deriving DecidableEq, Repr

abbrev Reading (α : Type) := Except Stop (α × List Char)

def stopAt {α : Type} (p : Problem) (cs : List Char) : Except Stop α :=
  .error (.problem p cs.length)

def isSpace (c : Char) : Bool :=
  c == ' ' || c == '\t' || c == '\n' || c == '\r'

def skip (cs : List Char) : List Char :=
  cs.dropWhile isSpace

/-! ## Strings -/

def hexValue? (c : Char) : Option Nat :=
  if c.isDigit then some (c.toNat - '0'.toNat)
  else if 'a' ≤ c ∧ c ≤ 'f' then some (c.toNat - 'a'.toNat + 10)
  else if 'A' ≤ c ∧ c ≤ 'F' then some (c.toNat - 'A'.toNat + 10)
  else none

def hexUnit? (a b c d : Char) : Option Nat := do
  let a ← hexValue? a
  let b ← hexValue? b
  let c ← hexValue? c
  let d ← hexValue? d
  return 4096 * a + 256 * b + 16 * c + d

def shortEscape? : Char → Option Char
  | '"' => some '"'
  | '\\' => some '\\'
  | '/' => some '/'
  | 'b' => some '\x08'
  | 'f' => some '\x0c'
  | 'n' => some '\n'
  | 'r' => some '\r'
  | 't' => some '\t'
  | _ => none

/-- The code units up to the closing quotation mark; `left` is counted at the opening one. -/
def readUnits (left : Nat) : List Char → Reading (List Nat)
  | [] => .error (.problem .unterminated left)
  | '"' :: rest => .ok ([], rest)
  | ['\\'] => .error (.problem .unterminated left)
  | '\\' :: 'u' :: a :: b :: c :: d :: next :: rest =>
    match hexUnit? a b c d with
    | none => .error (.problem .unicodeEscape (rest.length + 6))
    | some unit => (readUnits left (next :: rest)).map fun (us, rest) => (unit :: us, rest)
  | '\\' :: 'u' :: rest => .error (.problem .unicodeEscape (rest.length + 1))
  | '\\' :: c :: rest =>
    match shortEscape? c with
    | none => .error (.problem .escape (rest.length + 2))
    | some c => (readUnits left rest).map fun (us, rest) => (c.toNat :: us, rest)
  | c :: rest =>
    if c.toNat < 32 then stopAt .control (c :: rest)
    else (readUnits left rest).map fun (us, rest) => (c.toNat :: us, rest)

def readString (cs : List Char) : Reading Codes :=
  (readUnits (cs.length + 1) cs).map fun (us, rest) => (.ofUnits us, rest)

/-! ## Numbers -/

def digitRun (cs : List Char) : List Char × List Char :=
  cs.span Char.isDigit

def natOf (ds : List Char) : Nat :=
  Text.numberOf (ds.map fun c => c.toNat - '0'.toNat)

def integerPart? : List Char → Option (List Char × List Char)
  | '0' :: rest => some (['0'], rest)
  | cs =>
    let (ds, rest) := digitRun cs
    if ds.isEmpty then none else some (ds, rest)

def fraction? : List Char → Option (List Char × List Char)
  | '.' :: cs =>
    let (ds, rest) := digitRun cs
    if ds.isEmpty then none else some (ds, rest)
  | _ => none

def exponent? : List Char → Option (Int × List Char)
  | c :: cs =>
    if c = 'e' ∨ c = 'E' then
      let (negative, cs) :=
        match cs with
        | '-' :: more => (true, more)
        | '+' :: more => (false, more)
        | more => (false, more)
      let (ds, rest) := digitRun cs
      if ds.isEmpty then none
      else some (if negative then -Int.ofNat (natOf ds) else Int.ofNat (natOf ds), rest)
    else none
  | [] => none

def digitLimit : Nat := 4300

def readNumber (start : List Char) : Reading Json :=
  let (negative, cs) :=
    match start with
    | '-' :: rest => (true, rest)
    | cs => (false, cs)
  match integerPart? cs with
  | none => stopAt .value start
  | some (whole, cs) =>
    let fraction := fraction? cs
    let cs := (fraction.map Prod.snd).getD cs
    let exponent := exponent? cs
    let cs := (exponent.map Prod.snd).getD cs
    match fraction, exponent with
    | none, none =>
      if digitLimit < whole.length then .error (.oversize whole.length)
      else
        let n := Int.ofNat (natOf whole)
        .ok (.integer (if negative then -n else n), cs)
    | _, _ =>
      let decimals := (fraction.map Prod.fst).getD []
      let e := (exponent.map Prod.fst).getD 0
      .ok (.real (Decimal.ofDecimal negative (natOf (whole ++ decimals)) (e - decimals.length)), cs)

/-! ## Values -/

def words : List (List Char × Json) :=
  [("null".toList, .null), ("true".toList, .bool true), ("false".toList, .bool false),
    ("NaN".toList, .real .nan), ("Infinity".toList, .real (.infinite false)),
    ("-Infinity".toList, .real (.infinite true))]

def readWord? (cs : List Char) : Option (Json × List Char) :=
  words.findSome? fun (word, value) =>
    if word.isPrefixOf cs then some (value, cs.drop word.length) else none

mutual

/-- Every level of nesting uses up a unit of `fuel`, and an array or an object one of `levels`. -/
def readValue : Nat → Nat → List Char → Except Stop (Json × List Char)
  | 0, _, cs => stopAt .value cs
  | fuel + 1, levels, cs =>
    match cs with
    | [] => stopAt .value cs
    | '"' :: rest => (readString rest).map fun (s, rest) => (.string s, rest)
    | '\x7b' :: rest =>
      match levels with
      | 0 => .error (.tooNested .object)
      | levels + 1 =>
        match skip rest with
        | '\x7d' :: rest => .ok (.object [], rest)
        | rest =>
          (readMembers fuel levels rest).map fun (ms, rest) => (.object (unrepeated ms), rest)
    | '[' :: rest =>
      match levels with
      | 0 => .error (.tooNested .array)
      | levels + 1 =>
        match skip rest with
        | ']' :: rest => .ok (.array [], rest)
        | rest => (readItems fuel levels rest).map fun (vs, rest) => (.array vs, rest)
    | _ =>
      match readWord? cs with
      | some found => .ok found
      | none => readNumber cs

def readItems : Nat → Nat → List Char → Except Stop (List Json × List Char)
  | 0, _, cs => stopAt .value cs
  | fuel + 1, levels, cs => do
    let (v, rest) ← readValue fuel levels cs
    match skip rest with
    | ']' :: rest => return ([v], rest)
    | ',' :: rest =>
      let (vs, rest) ← readItems fuel levels (skip rest)
      return (v :: vs, rest)
    | rest => stopAt .comma rest

def readMembers : Nat → Nat → List Char → Except Stop (List (Codes × Json) × List Char)
  | 0, _, cs => stopAt .name cs
  | fuel + 1, levels, cs =>
    match cs with
    | '"' :: rest => do
      let (k, rest) ← readString rest
      match skip rest with
      | ':' :: rest =>
        let (v, rest) ← readValue fuel levels (skip rest)
        match skip rest with
        | '\x7d' :: rest => return ([(k, v)], rest)
        | ',' :: rest =>
          let (ms, rest) ← readMembers fuel levels (skip rest)
          return ((k, v) :: ms, rest)
        | rest => stopAt .comma rest
      | rest => stopAt .colon rest
    | _ => stopAt .name cs

end

def parse (levels : Levels) (cs : List Char) : Except Stop Json :=
  if cs.head? = some '\ufeff' then stopAt .byteOrderMark cs
  else do
    let (v, rest) ← readValue (2 * cs.length + 2) levels.count (skip cs)
    match skip rest with
    | [] => return v
    | rest => stopAt .extra rest

/-! ## Places -/

/-- A place in a text, counted in characters from its start, and in lines and columns from one. -/
structure Place where
  index : Nat
  line : Nat
  column : Nat
  deriving DecidableEq, Repr

def Place.of (cs : List Char) (left : Nat) : Place :=
  let before := cs.take (cs.length - left)
  ⟨before.length, before.count '\n' + 1, (before.reverse.takeWhile (· ≠ '\n')).length + 1⟩

end HashedImports.Json
