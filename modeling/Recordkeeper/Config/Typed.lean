import Recordkeeper.Config
import Recordkeeper.Number
import Recordkeeper.Yaml.Stream

/-!
Reading a configuration from YAML. The type of a setting decides how its scalar is read: a quoted
scalar is text only, and an empty section means its defaults.
-/

set_option autoImplicit false

namespace Recordkeeper

namespace Yaml

def isNullWord (s : List Char) : Bool :=
  ["~", "null", "Null", "NULL"].contains (String.ofList s)

def Tag.core (name : String) : Tag := ⟨[], ("tag:yaml.org,2002:" ++ name).toList⟩

namespace Node

def string? : Node → Option String
  | scalar _ s => some (String.ofList s)
  | tagged _ n => n.string?
  | _ => none

/-- The text of a scalar that may stand for a value of the core type `kind`: a plain one, or a
literal one with the tag of that type. -/
def word? (kind : String) : Node → Option (List Char)
  | scalar .plain s => some s
  | tagged _ (scalar .plain s) => some s
  | tagged t (scalar .literal s) => if t = Tag.core kind then some s else none
  | _ => none

def bool? (n : Node) : Option Bool := do
  let s ← n.word? "bool"
  if ["true", "True", "TRUE"].contains (String.ofList s) then return true
  else if ["false", "False", "FALSE"].contains (String.ofList s) then return false
  else none

/-- A whole number: in hexadecimal, octal or binary digits behind their mark, or in decimal digits
without leading zeros. A plus sign may stand in front. -/
def natural? (s : List Char) : Option Nat :=
  let s := match s with
    | '+' :: r => r
    | r => r
  match s with
  | '0' :: 'x' :: r => Text.inBase? 16 r
  | '0' :: 'o' :: r => Text.inBase? 8 r
  | '0' :: 'b' :: r => Text.inBase? 2 r
  | '0' :: _ :: _ => none
  | r => Text.inBase? 10 r

def uint64? (n : Node) : Option UInt64 := do
  let v ← natural? (← n.word? "int")
  if v < UInt64.size then return UInt64.ofNat v else none

/-- An empty scalar or a word for null reads as absence. A tag says that there is a value, except
that of null, under which only the word for it may stand. -/
def option? {α : Type} (read : Node → Option α) : Node → Option (Option α)
  | scalar .plain s =>
    if s.isEmpty || isNullWord s then some none else (read (scalar .plain s)).map some
  | tagged t (scalar .plain s) =>
    if t = Tag.core "null" then if isNullWord s then some none else none
    else (read (tagged t (scalar .plain s))).map some
  | n => (read n).map some

/-- The name of a variant: the scalar itself, or a tag of one's own over nothing. -/
def variant? : Node → Option String
  | tagged t n =>
    match t.suffix with
    | '!' :: c :: r =>
      match n with
      | scalar .plain s =>
        if s.isEmpty || isNullWord s then some (String.ofList (c :: r)) else none
      | _ => none
    | _ => n.string?
  | n => n.string?

def section? : Node → Option (String → List Node)
  | map es => do
    let es ← es.mapM fun (k, v) => (k.string?).map (·, v)
    return fun key => (es.filter (·.1 == key)).map (·.2)
  | scalar .plain [] => some fun _ => []
  | tagged _ n => n.section?
  | _ => none

/-- The setting under a key, or its default. A key may not be given twice. -/
def setting {α : Type} (found : List Node) (default : α) (read : Node → Option α) : Option α :=
  match found with
  | [] => some default
  | [n] => read n
  | _ => none

end Node

end Yaml

open Yaml (Node)

def CacheConfig.ofYaml? (n : Node) : Option CacheConfig := do
  let key ← n.section?
  let d : CacheConfig := {}
  return {
    enabled := ← Node.setting (key "enabled") d.enabled Node.bool?
    ttlSecs := ← Node.setting (key "ttl_secs") d.ttlSecs Node.uint64?
    keyPrefix := ← Node.setting (key "key_prefix") d.keyPrefix Node.string? }

def PaginationConfig.ofYaml? (n : Node) : Option PaginationConfig := do
  let key ← n.section?
  let d : PaginationConfig := {}
  return {
    defaultPageSize := ← Node.setting (key "default_page_size") d.defaultPageSize Node.uint64?
    maxPageSize := ←
      Node.setting (key "max_page_size") d.maxPageSize (Node.option? Node.uint64?) }

def EngineConfig.ofYaml? (n : Node) : Option EngineConfig := do
  let key ← n.section?
  return {
    cache := ← Node.setting (key "cache") {} CacheConfig.ofYaml?
    pagination := ← Node.setting (key "pagination") {} PaginationConfig.ofYaml?
    orderPolicy := ← Node.setting (key "order_policy") .strict fun n =>
      n.variant?.bind OrderPolicy.ofName? }

def EngineConfig.parseYaml? (s : String) : Option EngineConfig :=
  (Yaml.read? s).bind EngineConfig.ofYaml?

end Recordkeeper
