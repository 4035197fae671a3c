import Recordkeeper.Yaml.Reader

set_option autoImplicit false

namespace Recordkeeper.Yaml

def isMarker (c : Char) (line : List Char) : Bool :=
  line.take 3 == [c, c, c] && (line.drop 3).head?.all isBlank

/-- Outside of documents, blank lines and comments count for nothing. -/
def hasContent (line : List Char) : Bool :=
  match line.dropWhile (· = ' ') with
  | [] => false
  | c :: _ => c ≠ '#'

structure Directives where
  versioned : Bool := false
  handles : Handles := []

def versionPart? (digits : List Char) : Option Nat :=
  if digits.isEmpty || 9 < digits.length then none
  else some (Text.digitsValue digits)

def readsVersion (cs : List Cell) : Bool :=
  let (major, rest) := spanChars Char.isDigit (skipBlanks cs)
  let (minor, after) := spanChars Char.isDigit (rest.drop 1)
  rest.head?.any (fun c => c.char = '.') && versionPart? major = some 1 &&
    (versionPart? minor = some 1 || versionPart? minor = some 2) && lineEnds (skipBlanks after)

def handle? (cs : List Cell) : Option (List Char × List Char) :=
  match skipBlanks cs with
  | [] => none
  | c :: r =>
    let (word, rest) := spanChars isWordPart r
    let named := rest.head?.any fun c => c.char = '!'
    let rest := if named then rest.drop 1 else rest
    let (short, after) := spanChars isVerbatimPart (skipBlanks rest)
    if c.char = '!' && (named || word.isEmpty) && blankNext rest && !short.isEmpty &&
        blankNext after && lineEnds (skipBlanks after) then
      some (if named then '!' :: word ++ ['!'] else ['!'], short)
    else none

/-- Takes in a directive, whose first mark was read. Each version and handle is given once. -/
def Directives.add? (d : Directives) (line : List Char) : Option Directives :=
  let (name, rest) := spanChars isWordPart (cellsFrom 0 line)
  if !blankNext rest then none
  else if name = "YAML".toList then
    if !d.versioned && readsVersion rest then some { d with versioned := true } else none
  else if name = "TAG".toList then do
    let (h, s) ← handle? rest
    if (d.handles.lookup h).isSome then none
    else return { d with handles := d.handles ++ [(h, s)] }
  else none

structure Source where
  handles : Handles
  marked : Bool
  lines : List (List Char)

def endsStream (lines : List (List Char)) : Bool :=
  lines.all fun l => !hasContent l || (isMarker '.' l && !hasContent (l.drop 3))

/-- The lines up to the mark that ends the document, or to the end. A second document is refused. -/
def documentLines? (lines : List (List Char)) : Option (List (List Char)) :=
  let inside := lines.takeWhile fun l => !isMarker '-' l && !isMarker '.' l
  match lines.drop inside.length with
  | [] => some inside
  | rest => if endsStream rest then some (inside ++ [[]]) else none

/-- Finds the document behind its directives. -/
def source? (d : Directives) (expected : Bool) : List (List Char) → Option Source
  | [] => if expected then none else some ⟨[], false, []⟩
  | l :: ls =>
    if isMarker '-' l then
      (documentLines? ls).map fun ls =>
        ⟨d.handles ++ .standard, true, (' ' :: ' ' :: ' ' :: l.drop 3) :: ls⟩
    else if l.head? = some '%' then
      match d.add? l.tail with
      | some d => source? d true ls
      | none => none
    else if hasContent l then
      if expected || isMarker '.' l then none
      else (documentLines? ls).map fun ls => ⟨d.handles ++ .standard, false, l :: ls⟩
    else source? d expected ls

/-- The node of a document. On the line of the mark that starts it no block collection may start. -/
def Source.read? (s : Source) : Option Node := do
  let cs := cellsFrom 0 (List.intercalate ['\n'] s.lines)
  let fuel := 4 * cs.length + 8
  let (n, rest) ←
    if s.marked then blockValue fuel (-1) false false cs
    else blockNode fuel (-1) true false (blockGap cs)
  if (blockGap rest).isEmpty then (n.resolve? s.handles []).map (·.1) else none

def textLines (s : List Char) : List (List Char) :=
  match s with
  | [] => [[]]
  | c :: r =>
    if c = '\n' then [] :: textLines r
    else match textLines r with
      | [] => [[c]]
      | l :: ls => (c :: l) :: ls

/-- The node of a text with one document, or with none. -/
def read? (s : String) : Option Node :=
  let cs := match s.toList with
    | '\ufeff' :: r => r
    | cs => cs
  if cs.all isPrintable then (source? {} false (textLines (unifyBreaks cs))).bind Source.read?
  else none

end Recordkeeper.Yaml
