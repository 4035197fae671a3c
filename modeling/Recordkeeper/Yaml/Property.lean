import Recordkeeper.Yaml
import Recordkeeper.Yaml.Cell

set_option autoImplicit false

namespace Recordkeeper.Yaml

inductive Property where
  | anchor (name : List Char)
  | tag (tag : Tag)

/-- The name of an anchor. It ends at a blank, or at a mark that cannot start a node. -/
def anchorName? (cs : List Cell) : Option (List Char × List Cell) :=
  let (name, rest) := spanChars isWordPart cs
  if name.isEmpty then none
  else if blankNext rest || rest.head?.any fun c => "?:,]\x7d%@\x60".toList.contains c.char then
    some (name, rest)
  else none

def isUriPart (c : Char) : Bool := isWordPart c || ";/?:@&=+$.%!~*'()".toList.contains c

def isVerbatimPart (c : Char) : Bool := isUriPart c || c = ',' || c = '[' || c = ']'

/-- The name of a tag behind its first mark: between angles, behind a handle, or by itself. -/
def tagName? (cs : List Cell) : Option (Tag × List Cell) :=
  let (word, rest) := spanChars isWordPart cs
  match word, rest with
  | [], ⟨'<', _⟩ :: r =>
    let (name, rest) := spanChars isVerbatimPart r
    if name.isEmpty || !(rest.head?.any fun c => c.char = '>') then none
    else some (⟨[], name⟩, rest.drop 1)
  | word, ⟨'!', _⟩ :: r =>
    let (suffix, rest) := spanChars isUriPart r
    if suffix.isEmpty then none else some (⟨'!' :: word ++ ['!'], suffix⟩, rest)
  | word, rest =>
    let (more, rest) := spanChars isUriPart rest
    if (word ++ more).isEmpty then some (⟨[], ['!']⟩, rest) else some (⟨['!'], word ++ more⟩, rest)

def property? (bracketed : Bool) : List Cell → Option (Property × List Cell)
  | [] => none
  | c :: r =>
    if c.char = '&' then (anchorName? r).map fun (a, rest) => (.anchor a, rest)
    else if c.char = '!' then do
      let (t, rest) ← tagName? r
      if blankNext rest || (bracketed && rest.head?.any fun c => c.char = ',') then
        return (.tag t, rest)
      else none
    else none

/-- A node has one anchor and one tag at most, and an alias has neither. -/
def Node.attach? (n : Node) : Property → Option Node
  | .anchor a => if n.hasAnchor || n.isRef then none else some (.anchored a n)
  | .tag t => if n.hasTag || n.isRef then none else some (.tagged t n)

end Recordkeeper.Yaml
