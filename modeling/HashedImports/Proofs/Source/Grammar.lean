import HashedImports.Proofs.Source.Rows

namespace HashedImports.Source

inductive Piece
  | kept (cs : List Char)
  | literal (q : Char) (path : List Char)

def Piece.text : Piece → List Char
  | kept cs => cs
  | literal q path => Source.literal q path

def textOf (ps : List Piece) : List Char :=
  ps.flatMap Piece.text

def pathsOf : List Piece → List String
  | [] => []
  | .kept _ :: ps => pathsOf ps
  | .literal _ path :: ps => String.ofList path :: pathsOf ps

def textWith : List Piece → List String → List Char
  | [], _ => []
  | .kept cs :: ps, paths => cs ++ textWith ps paths
  | .literal q path :: ps, [] => literal q path ++ textWith ps []
  | .literal q _ :: ps, path :: paths => literal q path.toList ++ textWith ps paths

inductive Filling
  | gap (c : Char) (h : isGap c = true)
  | comment (body : List Char) (h : ¬ ['*', '/'] <:+: body)

def Filling.text : Filling → List Char
  | gap c _ => [c]
  | comment body _ => '/' :: '*' :: (body ++ ['*', '/'])

def fill (fs : List Filling) : List Char :=
  fs.flatMap Filling.text

structure Spacing where
  fillings : List Filling
  line : '\n' ∉ fill fillings

structure Separator extends Spacing where
  ne_nil : fillings ≠ []

inductive LineEnd
  | blank (cs : List Char) (h : ∀ c ∈ cs, Text.isBlank c = true ∧ c ≠ '\n')
  | comment (body : List Char) (h : '\n' ∉ body)

def LineEnd.text : LineEnd → List Char
  | blank cs _ => cs
  | comment body _ => '/' :: '/' :: body

structure Trail where
  fillings : List Filling
  lineEnd : LineEnd

def Trail.text (t : Trail) : List Char :=
  fill t.fillings ++ t.lineEnd.text

def interlude (lines : List Trail) (rest : List Filling) : List Char :=
  lines.flatMap (fun t => t.text ++ ['\n']) ++ fill rest

structure Interlude where
  lines : List Trail
  rest : List Filling
  breaks : '\n' ∈ interlude lines rest

def Interlude.text (i : Interlude) : List Char :=
  interlude i.lines i.rest

structure Word where
  chars : List Char
  ne_nil : chars ≠ []
  isWord : ∀ c ∈ chars, Text.isWord c = true

def keywords : List (List Char) :=
  ["break", "case", "chan", "const", "continue", "default", "defer", "else", "fallthrough", "for",
    "func", "go", "goto", "if", "import", "interface", "map", "package", "range", "return",
    "select", "struct", "switch", "type", "var"].map String.toList

inductive Alias
  | dot
  | name (w : Word) (h : w.chars ∉ keywords)

def Alias.text : Alias → List Char
  | dot => ['.']
  | name w _ => w.chars

structure Spec where
  alias? : Option (Alias × Separator)
  quote : Char
  path : List Char
  isQuote : IsQuote quote
  fits : Fits quote path

def Spec.start (s : Spec) : List Char :=
  match s.alias? with
  | none => []
  | some (a, gap) => a.text ++ fill gap.fillings

inductive Item
  | filler (rest : Trail)
  | package (gap : Separator) (name : Word) (rest : Trail)
  | single (gap : Separator) (spec : Spec) (rest : Trail)
  | block (gap : Spacing) (opening : Interlude) (specs : List (Spec × Interlude)) (closing : Trail)

structure Declaration where
  word : List Char
  rest : List Char
  mem : word ∈ declarationWords
  boundary : ∀ c ∈ rest.head?, Text.isWord c = false

/-- A header of which every line but maybe the last one is ended. -/
structure GoText where
  items : List Item
  last : Item ⊕ Declaration

def specPieces (before : List Char) (s : Spec) (after : List Char) : List Piece :=
  [.kept (before ++ s.start), .literal s.quote s.path, .kept after]

def Item.pieces : Item → List Piece
  | filler rest => [.kept rest.text]
  | package gap name rest =>
    [.kept ("package".toList ++ (fill gap.fillings ++ (name.chars ++ rest.text)))]
  | single gap s rest => specPieces ("import".toList ++ fill gap.fillings) s rest.text
  | block gap opening specs closing =>
    .kept ("import".toList ++ (fill gap.fillings ++ '(' :: opening.text)) ::
      (specs.flatMap (fun (s, after) => specPieces [] s after.text) ++
        [.kept (')' :: closing.text)])

def Declaration.pieces (d : Declaration) : List Piece :=
  [.kept (d.word ++ d.rest)]

def GoText.pieces (t : GoText) : List Piece :=
  t.items.flatMap (fun i => i.pieces ++ [.kept ['\n']]) ++
    t.last.elim Item.pieces Declaration.pieces

def GoText.text (t : GoText) : List Char :=
  textOf t.pieces

end HashedImports.Source
