import Recordkeeper.Query
import Recordkeeper.Identifier

set_option autoImplicit false

namespace Recordkeeper

namespace Direction

def keyword : Direction → String
  | ascending => "asc"
  | descending => "desc"

def ofKeyword? (s : String) : Option Direction :=
  if s.toLower = "asc" then some ascending
  else if s.toLower = "desc" then some descending
  else none

end Direction

namespace SortKey

/-- One key from the words between two commas. -/
def ofWords : List String → Except String SortKey
  | [] => .error "empty sort key"
  | field :: r =>
    if !Identifier.isColumn field then
      .error ("'" ++ field ++ "' is not a column identifier")
    else match r with
      | [] => .ok ⟨field, .ascending⟩
      | word :: r =>
        match Direction.ofKeyword? word with
        | none => .error ("unknown sort direction '" ++ word ++ "'")
        | some d =>
          match r with
          | [] => .ok ⟨field, d⟩
          | extra :: _ => .error ("unexpected token '" ++ extra ++ "'")

def ofClause (clause : String) : Except String (List SortKey) :=
  (List.splitOn ',' clause.toList).mapM fun part => ofWords ((Text.words part).map String.ofList)

end SortKey

end Recordkeeper
