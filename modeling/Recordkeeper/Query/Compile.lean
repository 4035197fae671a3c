import Recordkeeper.Error
import Recordkeeper.Query.SortClause
import Recordkeeper.Request

/-!
From requests to queries. Each filter gives a query one constraint at most, or sets its visibility;
the first offender in the order preloads, filters, sort clause refuses the whole request.
-/

set_option autoImplicit false

namespace Recordkeeper

inductive OrderPolicy where
  | strict
  | passthrough
  deriving DecidableEq, Repr

namespace Filter

inductive Clause where
  | constraint (c : Constraint)
  | visibility (v : Visibility)
  | nothing
  deriving DecidableEq

inductive Operator where
  | compare (op : Comparison)
  | among
  | between
  | like
  deriving DecidableEq, Repr

namespace Operator

def word : Operator → String
  | compare op => op.symbol
  | among => "in"
  | between => "between"
  | like => "like"

/-- Symbols are read as they are, words in any ASCII case. -/
def ofWord? (s : String) : Option Operator :=
  match Comparison.ofSymbol? s with
  | some op => some (compare op)
  | none => [among, between, like].find? (·.word == s.toLower)

end Operator

/-- Separates the columns and the needles of a `like` filter. -/
def separator : Char := '|'

def requireColumn (field : String) : Except RequestError Unit :=
  if Identifier.isColumn field then .ok ()
  else .error (.invalidFilter field "field is not a column identifier")

def mistyped (f : Filter) (expected : String) : RequestError :=
  .invalidValueType f.field f.operator expected

def compileCompare (f : Filter) (op : Comparison) : Except RequestError Clause := do
  requireColumn f.field
  if f.value.isScalar then return .constraint (.compare f.field op f.value)
  else throw (f.mistyped "a scalar")

def compileAmong (f : Filter) : Except RequestError Clause := do
  requireColumn f.field
  match f.value with
  | .arr values =>
    if values.all Json.isScalar then return .constraint (.among f.field values)
    else throw (f.mistyped "a list of scalars")
  | _ => throw (f.mistyped "a list")

/-- A null bound leaves its side open. -/
def compileBetween (f : Filter) : Except RequestError Clause := do
  requireColumn f.field
  match f.value with
  | .arr [low, high] =>
    if !low.isScalar || !high.isScalar then throw (f.mistyped "a [low, high] list of scalars")
    else match low.isNull, high.isNull with
      | false, false => return .constraint (.range f.field low high)
      | false, true => return .constraint (.compare f.field .atLeast low)
      | true, false => return .constraint (.compare f.field .atMost high)
      | true, true => return .nothing
  | .arr values => throw (.invalidValueSize f.field f.operator 2 values.length)
  | _ => throw (f.mistyped "a [low, high] list")

def likeFields (f : Filter) : List String :=
  ((List.splitOn separator f.field.toList).map Text.trim).filter (! ·.isEmpty) |>.map String.ofList

def likeNeedles (value : String) : List String :=
  (List.splitOn separator value.toList).filter (! ·.isEmpty) |>.map String.ofList

/-- Every column is paired with every needle. -/
def likeTerms (fields needles : List String) : List LikeTerm :=
  fields.flatMap fun field => needles.map fun needle => ⟨field, "%" ++ needle ++ "%"⟩

def compileLike (f : Filter) : Except RequestError Clause :=
  match f.value with
  | .str value => do
    let fields := f.likeFields
    let needles := likeNeedles value
    if fields.isEmpty || needles.isEmpty then
      throw (.invalidFilter f.field "like needs at least one field and one value")
    fields.forM requireColumn
    return .constraint (.anyLike (likeTerms fields needles))
  | _ => throw (f.mistyped "a string")

/-- What a filter on the reserved field says; values it does not know say nothing. -/
def compileVisibility (f : Filter) : Clause :=
  if f.value = .str "all" then .visibility .all
  else if f.value = .str "deleted" then .visibility .onlyDeleted
  else .nothing

def compile (f : Filter) : Except RequestError Clause :=
  if !f.isComplete then
    .error (.invalidFilter f.field "field, operator and a non-null value are required")
  else if f.isVisibility then .ok f.compileVisibility
  else match Operator.ofWord? f.operator with
    | none => .error (.unsupportedOperator f.operator)
    | some (.compare op) => f.compileCompare op
    | some .among => f.compileAmong
    | some .between => f.compileBetween
    | some .like => f.compileLike

end Filter

namespace Query

def add (q : Query) : Filter.Clause → Query
  | .constraint c => { q with constraints := q.constraints ++ [c] }
  | .visibility v => { q with visibility := v }
  | .nothing => q

def addFilter (q : Query) (f : Filter) : Except RequestError Query := q.add <$> f.compile

end Query

structure CompileOptions where
  policy : OrderPolicy := .strict
  sortable : List String := []

namespace FilterRequest

def requireRelation (relation : String) : Except RequestError Unit :=
  if Identifier.isRelationPath relation then .ok ()
  else .error (.invalidFilter relation "preload is not a relation path")

/-- A blank clause is no order. -/
def compileOrder (options : CompileOptions) (order : Option String) :
    Except RequestError (Option Order) :=
  let clause := Text.trimmed (order.getD "")
  if clause = "" then .ok none
  else match options.policy with
    | .passthrough => .ok (some (.raw clause))
    | .strict =>
      match SortKey.ofClause clause with
      | .error m => .error (.invalidOrder clause m)
      | .ok keys =>
        match keys.find? fun k => !options.sortable.isEmpty && !options.sortable.contains k.field with
        | some k => .error (.invalidOrder clause ("'" ++ k.field ++ "' is not sortable"))
        | none => .ok (some (.keys keys))

def compile (options : CompileOptions) (r : FilterRequest) : Except RequestError Query := do
  r.preloads.forM requireRelation
  let q ← r.filters.foldlM Query.addFilter { preloads := r.preloads }
  let order ← compileOrder options r.order
  return { q with order := order }

end FilterRequest

end Recordkeeper
