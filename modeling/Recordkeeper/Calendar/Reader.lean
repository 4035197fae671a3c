import Recordkeeper.Calendar
import Recordkeeper.Text.Blank

set_option autoImplicit false

namespace Recordkeeper.Timestamp

open Text (trimStart)

def digitsUpTo (width : Nat) (s : List Char) : Option (Nat × List Char) :=
  let s := trimStart s
  let ds := (s.take width).takeWhile Char.isDigit
  if ds.isEmpty then none else some (Text.digitsValue ds, s.drop ds.length)

def digitRun (s : List Char) : Option (Nat × List Char) :=
  let (ds, rest) := Text.spanDigits s
  if ds.isEmpty then none else some (Text.digitsValue ds, rest)

/-- Up to four digits, or any number of them after a sign. -/
def readYear (s : List Char) : Option (Int × List Char) :=
  match trimStart s with
  | '-' :: r => (digitRun r).map fun (n, rest) => (-(n : Int), rest)
  | '+' :: r => (digitRun r).map fun (n, rest) => ((n : Int), rest)
  | s => (digitsUpTo 4 s).map fun (n, rest) => ((n : Int), rest)

/-- The mark that stands between two parts, blanks before it passed over. -/
def mark (c : Char) (s : List Char) : Option (List Char) :=
  match trimStart s with
  | d :: r => if d = c then some r else none
  | [] => none

/-- The fraction of a second in billionths; digits past the ninth are dropped. -/
def readFraction : List Char → Option (Nat × List Char)
  | '.' :: r =>
    let (ds, rest) := Text.spanDigits r
    let kept := ds.take 9
    if ds.isEmpty then none
    else some (Text.digitsValue kept * Nat.pow 10 (9 - kept.length), rest)
  | s => some (0, s)

def twoDigits : List Char → Option (Nat × List Char)
  | a :: b :: r =>
    if a.isDigit && b.isDigit then some (Text.digitsValue [a, b], r) else none
  | _ => none

/-- An offset in minutes: `UTC`, `Z`, or a sign with hours and minutes, which colons and blanks may
separate. -/
def readOffset (s : List Char) : Option (Int × List Char) :=
  if (s.take 3).map Char.toLower == ['u', 't', 'c'] then some (0, s.drop 3)
  else match s with
    | [] => none
    | c :: r =>
      if c = 'Z' ∨ c = 'z' then some (0, r)
      else if c = '+' ∨ c = '-' ∨ c = '−' then do
        let (hours, r) ← twoDigits r
        let (minutes, r) ← twoDigits (r.dropWhile fun c => c = ':' || Text.isBlank c)
        if 23 < hours ∨ 59 < minutes then none
        else
          let offset : Int := (hours * 60 + minutes : Nat)
          return (if c = '+' then offset else -offset, r)
      else none

def read? (s : List Char) : Option Timestamp := do
  let (year, s) ← readYear s
  let s ← mark '-' s
  let (month, s) ← digitsUpTo 2 s
  let s ← mark '-' s
  let (day, s) ← digitsUpTo 2 s
  let s ← match s with
    | c :: r => if c = 'T' ∨ c = 't' ∨ c = ' ' then some r else none
    | [] => none
  let (hour, s) ← digitsUpTo 2 s
  let s ← mark ':' s
  let (minute, s) ← digitsUpTo 2 s
  let s ← mark ':' s
  let (second, s) ← digitsUpTo 2 s
  let (nano, s) ← readFraction s
  let (offset, s) ← readOffset (trimStart s)
  if !(trimStart s).isEmpty then none
  else if 24 ≤ hour ∨ 60 ≤ minute ∨ 60 < second then none
  else
    let date ← Date.of? year month day
    ofLocal? date hour minute second nano offset

end Recordkeeper.Timestamp
