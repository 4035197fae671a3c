import Recordkeeper.Text.Numeral
import Recordkeeper.Yaml.Cell

set_option autoImplicit false

namespace Recordkeeper.Yaml

/-- A colon that parts a key from its value, when `r` follows it. -/
def partsKey (bracketed : Bool) (r : List Cell) : Bool :=
  blankNext r || (bracketed && r.head?.any fun c => isBracket c.char || c.char = '?')

def dropBlankEnd (s : List Char) : List Char := (s.reverse.dropWhile isBlank).reverse

def plainLine (bracketed : Bool) (after : Char) : List Cell → List Char × List Cell
  | [] => ([], [])
  | c :: r =>
    if c.char = '\n' || (c.char = '#' && isBlank after) || (c.char = ':' && partsKey bracketed r) ||
        (bracketed && isBracket c.char) then ([], c :: r)
    else
      let (s, rest) := plainLine bracketed c.char r
      (c.char :: s, rest)

/-- Line ends inside a scalar: one is a blank, and of more all but the first stay. -/
def folded (breaks : Nat) : List Char :=
  if breaks = 1 then [' '] else List.replicate (breaks - 1) '\n'

def countBreaks : List Cell → Nat × List Cell
  | [] => (0, [])
  | c :: r =>
    if c.char = '\n' then
      let (n, rest) := countBreaks r
      (n + 1, rest)
    else if isBlank c.char then countBreaks r
    else (0, c :: r)

/-- A tab that indents one of the lines in front of the next character, no deeper than `parent`. -/
def tabIndents (parent : Int) (cs : List Cell) : Bool :=
  (cs.takeWhile fun c => isBlank c.char || c.char = '\n').any fun c =>
    c.char = '\t' && (c.column : Int) ≤ parent

/-- Goes on with a plain scalar on the lines that follow, as far as they are indented deeper than
`parent`. -/
def plainRest (fuel : Nat) (bracketed : Bool) (parent : Int) (text : List Char) (rest : List Cell) :
    List Char × List Cell :=
  match fuel with
  | 0 => (text, rest)
  | fuel + 1 =>
    match skipBlanks rest with
    | [] => (text, [])
    | c :: r =>
      if c.char ≠ '\n' then (text, c :: r)
      else
        match countBreaks (c :: r) with
        | (_, []) => (text, c :: r)
        | (n, d :: next) =>
          if d.char = '#' || (!bracketed && (d.column : Int) ≤ parent) ||
              (bracketed && isBracket d.char) || (d.char = ':' && partsKey bracketed next) ||
              (!bracketed && tabIndents parent (c :: r)) then
            (text, c :: r)
          else
            let (more, rest) := plainLine bracketed ' ' (d :: next)
            plainRest fuel bracketed parent (text ++ folded n ++ dropBlankEnd more) rest

def plainScalar (bracketed : Bool) (parent : Int) (c : Char) (r : List Cell) :
    List Char × List Cell :=
  let (s, rest) := plainLine bracketed c r
  plainRest (rest.length + 1) bracketed parent (dropBlankEnd (c :: s)) rest

def startsPlain (bracketed : Bool) : List Cell → Bool
  | [] => false
  | c :: r =>
    if c.char = '-' then !blankNext r
    else if c.char = '?' ∨ c.char = ':' then !bracketed && !blankNext r
    else !("#&*!|>'\"%@\x60\t\n,[]\x7b\x7d".toList.contains c.char)

/-- What has been read of a quoted scalar: its text and the blanks after it, both in reverse, and
the line ends after those. -/
structure Quoting where
  done : List Char := []
  blanks : List Char := []
  breaks : Nat := 0
  joined : Bool := false

namespace Quoting

def flush (q : Quoting) : List Char :=
  if q.joined then List.replicate q.breaks '\n' ++ q.done
  else if q.breaks = 0 then q.blanks ++ q.done
  else folded q.breaks ++ q.done

def push (q : Quoting) (c : Char) : Quoting := { done := c :: q.flush }

def blank (q : Quoting) (c : Char) : Quoting :=
  if q.joined || 0 < q.breaks then q else { q with blanks := c :: q.blanks }

def lineBreak (q : Quoting) : Quoting := { q with blanks := [], breaks := q.breaks + 1 }

end Quoting

/-- A scalar in single quotes whose opening quote was read. A doubled quote stands for one. -/
def singleQuoted (q : Quoting) : List Cell → Option (List Char × List Cell)
  | [] => none
  | c :: r =>
    if c.char = '\'' then
      match r with
      | d :: r' => if d.char = '\'' then singleQuoted (q.push '\'') r' else some (q.flush.reverse, r)
      | [] => some (q.flush.reverse, [])
    else if c.char = '\n' then singleQuoted q.lineBreak r
    else if isBlank c.char then singleQuoted (q.blank c.char) r
    else singleQuoted (q.push c.char) r

def escaped? (c : Char) : Option Char :=
  [('0', '\x00'), ('a', '\x07'), ('b', '\x08'), ('t', '\t'), ('\t', '\t'), ('n', '\n'),
    ('v', '\x0b'), ('f', '\x0c'), ('r', '\r'), ('e', '\x1b'), (' ', ' '), ('"', '"'), ('/', '/'),
    ('\\', '\\'), ('N', '\u0085'), ('_', '\u00a0'), ('L', '\u2028'), ('P', '\u2029')].lookup c

def hexDigits? (c : Char) : Option Nat := [('x', 2), ('u', 4), ('U', 8)].lookup c

def hexChar? (ds : List Cell) : Option Char := do
  let n ← Text.inBase? 16 (ds.map Cell.char)
  if h : n.isValidChar then some (Char.ofNatAux n h) else none

def doubleQuoted (fuel : Nat) (q : Quoting) (cs : List Cell) : Option (List Char × List Cell) :=
  match fuel, cs with
  | 0, _ => none
  | _, [] => none
  | fuel + 1, c :: r =>
    if c.char = '"' then some (q.flush.reverse, r)
    else if c.char = '\\' then
      match r with
      | [] => none
      | e :: r =>
        if e.char = '\n' then doubleQuoted fuel { done := q.flush, joined := true } r
        else match escaped? e.char, hexDigits? e.char with
          | some d, _ => doubleQuoted fuel (q.push d) r
          | none, some n =>
            if r.length < n then none
            else match hexChar? (r.take n) with
              | some d => doubleQuoted fuel (q.push d) (r.drop n)
              | none => none
          | none, none => none
    else if c.char = '\n' then doubleQuoted fuel q.lineBreak r
    else if isBlank c.char then doubleQuoted fuel (q.blank c.char) r
    else doubleQuoted fuel (q.push c.char) r

def quoted? (c : Char) (r : List Cell) : Option (List Char × List Cell) :=
  if c = '\'' then singleQuoted {} r else doubleQuoted (r.length + 1) {} r

end Recordkeeper.Yaml
