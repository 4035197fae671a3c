import Recordkeeper.Text.Lowercase

/-!
Patterns in which `%` stands for any run of characters and `_` for any one character. Case is
ignored by lowering both sides in full before they are laid over each other. The text is read once,
with a row of which prefixes of the pattern, the shortest first, cover what was read.
-/

set_option autoImplicit false

namespace Recordkeeper.Text

/-- The row of the pattern before any text, from a prefix on that covers nothing or does not. -/
def rowOfNothing (here : Bool) : List Char → List Bool
  | [] => [here]
  | p :: ps => here :: rowOfNothing (here && p = '%') ps

/-- The row after one more character, from a prefix on that covers all of it or does not. -/
def nextRow (c : Char) (here : Bool) : List Char → List Bool → List Bool
  | p :: ps, before :: passed :: row =>
    let next :=
      if p = '%' then here || passed
      else if p = '_' then before
      else before && p == c
    here :: nextRow c next ps (passed :: row)
  | _, _ => [here]

/-- Whether the pattern covers the whole text. -/
def covers (pattern text : List Char) : Bool :=
  let row := text.foldl (fun row c => nextRow c false pattern row) (rowOfNothing true pattern)
  row.getLastD false

def like (text pattern : List Char) : Bool := covers (lower pattern) (lower text)

end Recordkeeper.Text
