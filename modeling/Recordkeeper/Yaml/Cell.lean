set_option autoImplicit false

namespace Recordkeeper.Yaml

/-- A character and its place in its line. -/
structure Cell where
  char : Char
  column : Nat

def unifyBreaks : List Char → List Char
  | [] => []
  | '\r' :: '\n' :: r => '\n' :: unifyBreaks r
  | c :: r => (if c = '\r' ∨ c = '\u0085' then '\n' else c) :: unifyBreaks r

def isPrintable (c : Char) : Bool :=
  let n := c.toNat
  n == 9 || n == 10 || n == 13 || (0x20 ≤ n && n ≤ 0x7E) || n == 0x85 ||
    (0xA0 ≤ n && n ≤ 0xFFFD && n != 0xFEFF) || 0x10000 ≤ n

def cellsFrom (column : Nat) : List Char → List Cell
  | [] => []
  | '\n' :: r => ⟨'\n', column⟩ :: cellsFrom 0 r
  | c :: r => ⟨c, column⟩ :: cellsFrom (column + 1) r

def isBlank (c : Char) : Bool := c = ' ' || c = '\t'

/-- Letters, digits and two marks: what names of anchors, handles and directives are made of. -/
def isWordPart (c : Char) : Bool := c.isAlphanum || c = '_' || c = '-'

def blankNext : List Cell → Bool
  | [] => true
  | c :: _ => isBlank c.char || c.char = '\n'

def skipBlanks (cs : List Cell) : List Cell := cs.dropWhile fun c => isBlank c.char

def spanChars (p : Char → Bool) (cs : List Cell) : List Char × List Cell :=
  ((cs.takeWhile fun c => p c.char).map Cell.char, cs.dropWhile fun c => p c.char)

/-- The end of a line, a comment before it not counted. -/
def lineEnds : List Cell → Bool
  | [] => true
  | c :: _ => c.char = '\n' || c.char = '#'

/-- Drops blanks, comments and line ends. A tab may not indent a line, except between the brackets
of a collection. -/
def gap (bracketed comment tabs : Bool) : List Cell → List Cell
  | [] => []
  | c :: r =>
    if c.char = '\n' then gap bracketed false bracketed r
    else if comment then gap bracketed true tabs r
    else if c.char = ' ' then gap bracketed false tabs r
    else if c.char = '\t' && tabs then gap bracketed false true r
    else if c.char = '#' then gap bracketed true tabs r
    else c :: r

def bracketedGap (cs : List Cell) : List Cell := gap true false true cs

def blockGap (cs : List Cell) : List Cell := gap false false false cs

def isBracket (c : Char) : Bool := c = ',' || c = '[' || c = ']' || c = '{' || c = '}'

def linesOf : List Cell → List (List Cell)
  | [] => [[]]
  | c :: r =>
    if c.char = '\n' then [] :: linesOf r
    else match linesOf r with
      | [] => [[c]]
      | l :: ls => (c :: l) :: ls

/-- A key that is not marked as one stands on one line with its colon, at most 1024 characters
before it. `taken` is what was read up to the colon and with it. -/
def fitsKey (taken : List Cell) : Bool :=
  taken.all (fun c => c.char ≠ '\n') && taken.length ≤ 1025

end Recordkeeper.Yaml
