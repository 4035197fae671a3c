import Recordkeeper.Yaml.Lines
import Recordkeeper.Yaml.Property

set_option autoImplicit false

namespace Recordkeeper.Yaml

/-- No node stands here, so that what was announced is empty. -/
def endsNode (cs : List Cell) : Bool :=
  cs.head?.any fun c => c.char = ',' || c.char = ']' || c.char = '}' || c.char = ':'

mutual

def bracketedNode (fuel : Nat) (cs : List Cell) : Option (Node × List Cell) :=
  match fuel, cs with
  | 0, _ => none
  | _, [] => none
  | fuel + 1, c :: r =>
    if c.char = '[' then bracketedItems fuel [] (bracketedGap r)
    else if c.char = '{' then bracketedEntries fuel [] (bracketedGap r)
    else if c.char = '\'' ∨ c.char = '"' then
      (quoted? c.char r).map fun (s, rest) => (.scalar .quoted s, rest)
    else if c.char = '*' then (anchorName? r).map fun (a, rest) => (.ref a, rest)
    else match property? true (c :: r) with
      | some (p, rest) => do
        let here := bracketedGap rest
        let (n, rest) ← if endsNode here then some (.empty, rest) else bracketedNode fuel here
        return (← n.attach? p, rest)
      | none =>
        if startsPlain true (c :: r) then
          let (s, rest) := plainScalar true (-1) c.char r
          match (countBreaks rest).2 with
          | d :: next =>
            if d.char = ':' && !blankNext next then none else some (.scalar .plain s, rest)
          | [] => some (.scalar .plain s, rest)
        else none

/-- A node and, where a colon follows it, the value behind that. A node marked as a key always has
a value. -/
def bracketedPair (fuel : Nat) (cs : List Cell) : Option (Node × Option Node × List Cell) :=
  match fuel, cs with
  | 0, _ => none
  | _, [] => none
  | fuel + 1, c :: r =>
    if c.char = '?' && blankNext r then do
      let here := bracketedGap r
      let (key, rest) ← if endsNode here then some (.empty, here) else bracketedNode fuel here
      let (value, rest) ← bracketedValue fuel (bracketedGap rest)
      return (key, some (value.getD .empty), rest)
    else do
      let (key, rest) ← bracketedNode fuel (c :: r)
      let after := skipBlanks rest
      if fitsKey (cs.take (cs.length - after.length + 1)) then
        let (value, rest) ← bracketedValue fuel after
        return (key, value, rest)
      else return (key, none, bracketedGap after)

def bracketedValue (fuel : Nat) (cs : List Cell) : Option (Option Node × List Cell) :=
  match fuel, cs with
  | 0, _ => none
  | _, [] => none
  | fuel + 1, c :: r =>
    if c.char = ':' then do
      let here := bracketedGap r
      let (v, rest) ← if endsNode here then some (.empty, here) else bracketedNode fuel here
      return (some v, bracketedGap rest)
    else some (none, bracketedGap (c :: r))

/-- The items of a sequence in brackets; one with a colon behind it is a mapping of its own. -/
def bracketedItems (fuel : Nat) (done : List Node) (cs : List Cell) : Option (Node × List Cell) :=
  match fuel, cs with
  | 0, _ => none
  | _, [] => none
  | fuel + 1, c :: r =>
    if c.char = ']' then some (.seq done.reverse, r)
    else do
      let (item, value, rest) ← bracketedPair fuel (c :: r)
      let item := match value with
        | some v => .map [(item, v)]
        | none => item
      match rest with
      | d :: r =>
        if d.char = ',' then bracketedItems fuel (item :: done) (bracketedGap r)
        else if d.char = ']' then some (.seq (item :: done).reverse, r)
        else none
      | [] => none

def bracketedEntries (fuel : Nat) (done : List (Node × Node)) (cs : List Cell) :
    Option (Node × List Cell) :=
  match fuel, cs with
  | 0, _ => none
  | _, [] => none
  | fuel + 1, c :: r =>
    if c.char = '}' then some (.map done.reverse, r)
    else do
      let (key, value, rest) ← bracketedPair fuel (c :: r)
      let entry := (key, value.getD .empty)
      match rest with
      | d :: r =>
        if d.char = ',' then bracketedEntries fuel (entry :: done) (bracketedGap r)
        else if d.char = '}' then some (.map (entry :: done).reverse, r)
        else none
      | [] => none

end

def bracketed? (c : Cell) (r : List Cell) : Option (Node × List Cell) :=
  bracketedNode (4 * r.length + 8) (c :: r)

def announces (mark : Char) : List Cell → Bool
  | c :: r => c.char = mark && blankNext r
  | [] => false

def keyColon? (cs : List Cell) : Option (List Cell) :=
  match skipBlanks cs with
  | c :: r => if c.char = ':' && blankNext r then some r else none
  | [] => none

/-- A node that may be a key: a scalar on one line, an alias or a collection in brackets, with at
most `properties` properties in front of it. -/
def keyNode? (properties : Nat) : List Cell → Option (Node × List Cell)
  | [] => none
  | c :: r =>
    if c.char = '\'' ∨ c.char = '"' then
      (quoted? c.char r).map fun (s, rest) => (.scalar .quoted s, rest)
    else if c.char = '*' then (anchorName? r).map fun (a, rest) => (.ref a, rest)
    else if c.char = '[' ∨ c.char = '{' then bracketed? c r
    else match properties, property? false (c :: r) with
      | n + 1, some (p, rest) => do
        let here := skipBlanks rest
        let (k, rest) ← if (keyColon? here).isSome then some (.empty, here) else keyNode? n here
        return (← k.attach? p, rest)
      | _, _ =>
        if startsPlain false (c :: r) then
          let (s, rest) := plainLine false c.char r
          some (.scalar .plain (dropBlankEnd (c.char :: s)), rest)
        else none

def blockKey? (cs : List Cell) : Option (Node × List Cell) := do
  let (key, rest) ← keyNode? 2 cs
  let after ← keyColon? rest
  if fitsKey (cs.take (cs.length - after.length)) then return (key, after) else none

mutual

/-- A node at the head of `cs`. Its lines are indented deeper than `parent`. Where `fresh` is
false a block collection may start only on a line below, where `level` is true its dashes may
stand as deep as `parent`. -/
def blockNode (fuel : Nat) (parent : Int) (fresh level : Bool) (cs : List Cell) :
    Option (Node × List Cell) :=
  match fuel, cs with
  | 0, _ => none
  | _, [] => some (.empty, [])
  | fuel + 1, c :: r =>
    if announces '-' (c :: r) then
      if fresh then blockItems fuel c.column [] (c :: r) else none
    else if announces '?' (c :: r) || (blockKey? (c :: r)).isSome then
      if fresh then blockEntries fuel c.column [] (c :: r) else none
    else match property? false (c :: r) with
      | some (p, rest) => do
        let (n, rest) ← blockValue fuel parent false level rest
        return (← n.attach? p, rest)
      | none => do
        if c.char = '|' then lineScalar? .literal parent r
        else if c.char = '>' then lineScalar? .folded parent r
        else
          let (n, rest) ←
            if c.char = '[' ∨ c.char = '{' then bracketed? c r
            else if c.char = '*' then (anchorName? r).map fun (a, rest) => (.ref a, rest)
            else if c.char = '\'' ∨ c.char = '"' then
              (quoted? c.char r).map fun (s, rest) => (.scalar .quoted s, rest)
            else if startsPlain false (c :: r) then
              let (s, rest) := plainScalar false parent c.char r
              some (.scalar .plain s, rest)
            else none
          if lineEnds (skipBlanks rest) then return (n, rest) else none

def blockValue (fuel : Nat) (parent : Int) (fresh level : Bool) (cs : List Cell) :
    Option (Node × List Cell) :=
  match fuel with
  | 0 => none
  | fuel + 1 =>
    let here := if fresh then cs.dropWhile fun c => c.char = ' ' else skipBlanks cs
    if lineEnds here then
      match blockGap here with
      | [] => some (.empty, [])
      | c :: r =>
        if parent < c.column then blockNode fuel parent true level (c :: r)
        else if level && (c.column : Int) = parent && announces '-' (c :: r) then
          blockItems fuel c.column [] (c :: r)
        else some (.empty, here)
    else blockNode fuel parent fresh level here

def blockItems (fuel : Nat) (column : Nat) (done : List Node) (cs : List Cell) :
    Option (Node × List Cell) :=
  match fuel, cs with
  | 0, _ => none
  | _, [] => some (.seq done.reverse, [])
  | fuel + 1, c :: r =>
    if c.column = column && announces '-' (c :: r) then do
      let (item, rest) ← blockValue fuel column true false r
      blockItems fuel column (item :: done) (blockGap rest)
    else if column < c.column then none
    else some (.seq done.reverse, c :: r)

def blockEntries (fuel : Nat) (column : Nat) (done : List (Node × Node)) (cs : List Cell) :
    Option (Node × List Cell) :=
  match fuel, cs with
  | 0, _ => none
  | _, [] => some (.map done.reverse, [])
  | fuel + 1, c :: r =>
    if c.column = column then do
      let (entry, rest) ← blockEntry fuel column (c :: r)
      blockEntries fuel column (entry :: done) (blockGap rest)
    else if column < c.column then none
    else some (.map done.reverse, c :: r)

/-- A key and its value. A key behind a question mark may be any node; the colon of its value
stands under the mark, and may be missing. -/
def blockEntry (fuel : Nat) (column : Nat) (cs : List Cell) :
    Option ((Node × Node) × List Cell) :=
  match fuel, cs with
  | 0, _ => none
  | _, [] => none
  | fuel + 1, c :: r =>
    if announces '?' (c :: r) then do
      let (key, rest) ← blockValue fuel column true true r
      match blockGap rest with
      | d :: next =>
        if d.column = column && announces ':' (d :: next) then
          let (value, rest) ← blockValue fuel column true true next
          return ((key, value), rest)
        else return ((key, .empty), d :: next)
      | [] => return ((key, .empty), [])
    else do
      let (key, rest) ← blockKey? (c :: r)
      let (value, rest) ← blockValue fuel column false true rest
      return ((key, value), rest)

end

end Recordkeeper.Yaml
