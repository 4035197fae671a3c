import Recordkeeper.Yaml
import Recordkeeper.Yaml.Scalar

set_option autoImplicit false

namespace Recordkeeper.Yaml

inductive Chomp where
  | strip
  | clip
  | keep

/-- How many of `breaks` line ends stay behind a text. -/
def Chomp.count (hasText : Bool) (breaks : Nat) : Chomp → Nat
  | strip => 0
  | clip => if hasText then min 1 breaks else 0
  | keep => breaks

structure Header where
  chomp : Chomp
  deeper : Option Nat

namespace Header

def chomp? (c : Char) : Option Chomp := [('-', .strip), ('+', .keep)].lookup c

def deeper? (c : Char) : Option Nat :=
  if '1' ≤ c ∧ c ≤ '9' then some (c.toNat - 48) else none

def one {α : Type} (read : Char → Option α) : List Cell → Option α × List Cell
  | [] => (none, [])
  | c :: r =>
    match read c.char with
    | some a => (some a, r)
    | none => (none, c :: r)

/-- The two indicators stand in either order, and each may be left out. -/
def read (cs : List Cell) : Header × List Cell :=
  let (k, r) := one chomp? cs
  let (n, r) := one deeper? r
  match k with
  | some k => (⟨k, n⟩, r)
  | none =>
    let (k, r) := one chomp? r
    (⟨k.getD .clip, n⟩, r)

end Header

def isBlankLine (l : List Cell) : Bool := l.all fun c => c.char = ' '

def indentOf (l : List Cell) : Nat := (l.takeWhile fun c => c.char = ' ').length

def startsBlank (s : List Char) : Bool := s.head?.any isBlank

/-- Puts lines together behind the line `before` and `empty` empty ones. The line end between two
lines that start with text is folded. -/
def foldLines (before : Option (List Char)) (empty : Nat) : List (List Char) → List Char
  | [] => []
  | l :: ls =>
    if l.isEmpty then foldLines before (empty + 1) ls
    else
      let joint := match before with
        | none => List.replicate empty '\n'
        | some b =>
          if startsBlank b || startsBlank l then List.replicate (empty + 1) '\n'
          else folded (empty + 1)
      joint ++ l ++ foldLines (some l) 0 ls

/-- The indentation of lines whose header does not say it: that of the first line with text, or of
a longer line of blanks before it. A tab may not end it. -/
def foundIndent? (parent : Int) (lines : List (List Cell)) : Option Nat :=
  let blank := lines.takeWhile isBlankLine
  let first := (lines.drop blank.length).headD []
  if (first.drop (indentOf first)).head?.any fun c => c.char = '\t' then none
  else
    let deepest := (first :: blank).foldl (fun n l => max n (indentOf l)) 1
    some (max deepest (parent + 1).toNat)

/-- The scalar whose header stands at the head of `cs`, with what follows its lines. Its lines are
indented deeper than `parent`. -/
def lineScalar? (style : Style) (parent : Int) (cs : List Cell) : Option (Node × List Cell) := do
  let (h, rest) := Header.read cs
  if !lineEnds (skipBlanks rest) then none
  else
    let below := (rest.dropWhile fun c => c.char ≠ '\n').drop 1
    let lines := linesOf below
    let indent ← match h.deeper with
      | some n => some (parent.toNat + n)
      | none => foundIndent? parent lines
    let body := lines.takeWhile fun l => isBlankLine l || indent ≤ indentOf l
    let texts := body.map fun l => (l.drop indent).map Cell.char
    let content := (texts.reverse.dropWhile List.isEmpty).reverse
    let text := if style = .literal then List.intercalate ['\n'] content else foldLines none 0 content
    let ended := if body.length = lines.length then body.length - 1 else body.length
    let breaks := ended - (content.length - 1)
    let ending := List.replicate (h.chomp.count (!content.isEmpty) breaks) '\n'
    let taken := body.foldl (fun n l => n + l.length + 1) 0
    return (.scalar style (text ++ ending), below.drop taken)

end Recordkeeper.Yaml
