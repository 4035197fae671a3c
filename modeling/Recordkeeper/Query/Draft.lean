import Recordkeeper.Query.Compile

set_option autoImplicit false

namespace Recordkeeper

/-- Writing into a query. What was written stays there even if the writing fails. -/
abbrev Drafting := ExceptT RequestError (StateM Query)

namespace Drafting

/-- The outcome of writing into a query, and the query that it leaves. -/
def on (d : Drafting Unit) (q : Query) : Except RequestError Unit × Query := (ExceptT.run d).run q

def demand (check : Except RequestError Unit) : Drafting Unit := ExceptT.mk (pure check)

def load (relation : String) : Drafting Unit :=
  modify fun q => { q with preloads := q.preloads ++ [relation] }

def push (c : Constraint) : Drafting Unit :=
  modify fun q => { q with constraints := q.constraints ++ [c] }

def see (v : Visibility) : Drafting Unit := modify fun q => { q with visibility := v }

end Drafting

namespace Filter

open Drafting (demand push see)

def draftCompare (f : Filter) (op : Comparison) : Drafting Unit := do
  demand (requireColumn f.field)
  if f.value.isScalar then push (.compare f.field op f.value)
  else throw (f.mistyped "a scalar")

def draftAmong (f : Filter) : Drafting Unit := do
  demand (requireColumn f.field)
  match f.value with
  | .arr values =>
    if values.all Json.isScalar then push (.among f.field values)
    else throw (f.mistyped "a list of scalars")
  | _ => throw (f.mistyped "a list")

def draftBetween (f : Filter) : Drafting Unit := do
  demand (requireColumn f.field)
  match f.value with
  | .arr [low, high] =>
    if !low.isScalar || !high.isScalar then throw (f.mistyped "a [low, high] list of scalars")
    else match low.isNull, high.isNull with
      | false, false => push (.range f.field low high)
      | false, true => push (.compare f.field .atLeast low)
      | true, false => push (.compare f.field .atMost high)
      | true, true => pure ()
  | .arr values => throw (.invalidValueSize f.field f.operator 2 values.length)
  | _ => throw (f.mistyped "a [low, high] list")

def draftLike (f : Filter) : Drafting Unit :=
  match f.value with
  | .str value =>
    if f.likeFields.isEmpty || (likeNeedles value).isEmpty then
      throw (.invalidFilter f.field "like needs at least one field and one value")
    else do
      f.likeFields.forM fun field => demand (requireColumn field)
      push (.anyLike (likeTerms f.likeFields (likeNeedles value)))
  | _ => throw (f.mistyped "a string")

/-- The reserved field is seen to before the operator is read. -/
def draft (f : Filter) : Drafting Unit :=
  if !f.isComplete then
    throw (.invalidFilter f.field "field, operator and a non-null value are required")
  else if f.isVisibility then
    if f.value = .str "all" then see .all
    else if f.value = .str "deleted" then see .onlyDeleted
    else pure ()
  else match Operator.ofWord? f.operator with
    | none => throw (.unsupportedOperator f.operator)
    | some (.compare op) => f.draftCompare op
    | some .among => f.draftAmong
    | some .between => f.draftBetween
    | some .like => f.draftLike

end Filter

namespace FilterRequest

open Drafting (demand load)

def draft (options : CompileOptions) (r : FilterRequest) : Drafting Unit := do
  r.preloads.forM fun relation => do
    demand (requireRelation relation)
    load relation
  r.filters.forM Filter.draft
  let order ← ExceptT.mk (pure (compileOrder options r.order))
  modify fun q => { q with order := order }

end FilterRequest

end Recordkeeper
