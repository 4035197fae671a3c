import Recordkeeper.Json

set_option autoImplicit false

namespace Recordkeeper.Json

def isSpace (c : Char) : Bool := c = ' ' || c = '\n' || c = '\r' || c = '\t'

def skipSpace (s : List Char) : List Char := s.dropWhile isSpace

/-- What a string literal is made of: characters, and 16-bit units written as `\u` escapes. -/
inductive Piece where
  | char (c : Char)
  | unit (n : Nat)

def escaped? : Char → Option Char
  | '"' => some '"'
  | '\\' => some '\\'
  | '/' => some '/'
  | 'b' => some '\x08'
  | 'f' => some '\x0c'
  | 'n' => some '\n'
  | 'r' => some '\r'
  | 't' => some '\t'
  | _ => none

def pieces : List Char → Option (List Piece × List Char)
  | [] => none
  | '"' :: r => some ([], r)
  | '\\' :: 'u' :: a :: b :: c :: d :: r => do
    let n ← Text.inBase? 16 [a, b, c, d]
    let (ps, rest) ← pieces r
    return (.unit n :: ps, rest)
  | '\\' :: e :: r => do
    let c ← escaped? e
    let (ps, rest) ← pieces r
    return (.char c :: ps, rest)
  | c :: r =>
    if c.toNat < 0x20 then none
    else do
      let (ps, rest) ← pieces r
      return (.char c :: ps, rest)

def isHigh (n : Nat) : Bool := 0xD800 ≤ n && n < 0xDC00

def isLow (n : Nat) : Bool := 0xDC00 ≤ n && n < 0xE000

/-- The characters the pieces stand for. A high unit needs a low one behind it, and a low unit a
high one before it. -/
def assemble : List Piece → Option (List Char)
  | [] => some []
  | .char c :: r => (assemble r).map (c :: ·)
  | .unit n :: r =>
    if isHigh n then
      match r with
      | .unit m :: r =>
        if isLow m then
          (assemble r).map (Char.ofNat (0x10000 + (n - 0xD800) * 0x400 + (m - 0xDC00)) :: ·)
        else none
      | _ => none
    else if isLow n then none
    else (assemble r).map (Char.ofNat n :: ·)

def stringRest (s : List Char) : Option (String × List Char) := do
  let (ps, rest) ← pieces s
  let cs ← assemble ps
  return (String.ofList cs, rest)

/-- A numeral without leading zeros, and what follows it. -/
def wholePart (s : List Char) : Option (List Char × List Char) :=
  match Text.spanDigits s with
  | ([], _) => none
  | ('0' :: _ :: _, _) => none
  | p => some p

def fraction : List Char → Option (Option (List Char) × List Char)
  | '.' :: r =>
    match Text.spanDigits r with
    | ([], _) => none
    | (ds, rest) => some (some ds, rest)
  | s => some (none, s)

def exponent : List Char → Option (Option Int × List Char)
  | c :: r =>
    if c = 'e' ∨ c = 'E' then
      let (negative, r) := match r with
        | '+' :: r => (false, r)
        | '-' :: r => (true, r)
        | r => (false, r)
      match Text.spanDigits r with
      | ([], _) => none
      | (ds, rest) =>
        let n : Int := Text.digitsValue ds
        some (some (if negative then -n else n), rest)
    else some (none, c :: r)
  | [] => some (none, [])

/-- A numeral with neither point nor exponent is a whole number if it fits and is not a negative
zero; every other one is the nearest binary64 number, which must be finite. Faster readers may be one
place off. -/
def number (s : List Char) : Option (Number × List Char) := do
  let (negative, s) := match s with
    | '-' :: r => (true, r)
    | r => (false, r)
  let (whole, s) ← wholePart s
  let (places, s) ← fraction s
  let (power, s) ← exponent s
  let digits := Text.digitsValue (whole ++ places.getD [])
  let value : Int := if negative then -(digits : Int) else digits
  if places.isNone && power.isNone && Number.fits value && !(negative && digits == 0) then
    return (.int value, s)
  else
    let x ← Double.ofDecimal? negative digits (power.getD 0 - (places.getD []).length)
    return (.real x, s)

def keyword (word : List Char) (s : List Char) : Option (List Char) :=
  if word.isPrefixOf s then some (s.drop word.length) else none

mutual

/-- A value and what follows it. `depth` bounds the containers around a value, `fuel` the steps. -/
def value (fuel depth : Nat) (s : List Char) : Option (Json × List Char) :=
  match fuel with
  | 0 => none
  | fuel + 1 =>
    match skipSpace s with
    | [] => none
    | 'n' :: r => (keyword "ull".toList r).map (.null, ·)
    | 't' :: r => (keyword "rue".toList r).map (.bool true, ·)
    | 'f' :: r => (keyword "alse".toList r).map (.bool false, ·)
    | '"' :: r => (stringRest r).map fun (s, rest) => (.str s, rest)
    | '[' :: r =>
      match depth with
      | 0 => none
      | depth + 1 =>
        match skipSpace r with
        | ']' :: rest => some (.arr [], rest)
        | r => (items fuel depth r).map fun (xs, rest) => (.arr xs, rest)
    | '{' :: r =>
      match depth with
      | 0 => none
      | depth + 1 =>
        match skipSpace r with
        | '}' :: rest => some (.obj [], rest)
        | r => (members fuel depth r).map fun (ms, rest) => (.obj ms, rest)
    | r => (number r).map fun (n, rest) => (.num n, rest)

def items (fuel depth : Nat) (s : List Char) : Option (List Json × List Char) :=
  match fuel with
  | 0 => none
  | fuel + 1 => do
    let (x, rest) ← value fuel depth s
    match skipSpace rest with
    | ',' :: r =>
      let (xs, rest) ← items fuel depth r
      return (x :: xs, rest)
    | ']' :: r => return ([x], r)
    | _ => none

def members (fuel depth : Nat) (s : List Char) : Option (List (String × Json) × List Char) :=
  match fuel with
  | 0 => none
  | fuel + 1 =>
    match skipSpace s with
    | '"' :: r => do
      let (k, rest) ← stringRest r
      match skipSpace rest with
      | ':' :: r =>
        let (v, rest) ← value fuel depth r
        match skipSpace rest with
        | ',' :: r =>
          let (ms, rest) ← members fuel depth r
          return ((k, v) :: ms, rest)
        | '}' :: r => return ([(k, v)], r)
        | _ => none
      | _ => none
    | _ => none

end

/-- At most this many containers stand around a value. -/
def maxDepth : Nat := 127

def source? (s : String) : Option Json := do
  let cs := s.toList
  let (j, rest) ← value (2 * cs.length + 2) maxDepth cs
  if (skipSpace rest).isEmpty then return j else none

def parse? (s : String) : Option Json := (source? s).map canonical

end Recordkeeper.Json
