import Recordkeeper.Text.Blank

set_option autoImplicit false

namespace Recordkeeper.Identifier

def isStart (c : Char) : Bool := c.isAlpha || c = '_'

def isPart (c : Char) : Bool := c.isAlphanum || c = '_'

def isName : List Char → Bool
  | [] => false
  | c :: r => isStart c && r.all isPart

def isRelationPath (s : String) : Bool := (List.splitOn '.' s.toList).all isName

/-- `column` or `table.column`. -/
def isColumn (s : String) : Bool :=
  (List.splitOn '.' s.toList).length ≤ 2 && isRelationPath s

def unqualified (s : String) : String :=
  String.ofList (((List.splitOn '.' s.toList).getLast?).getD [])

end Recordkeeper.Identifier
