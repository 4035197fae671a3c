/-!
YAML documents as trees of nodes. A plain scalar may stand for a number, a truth value or nothing,
as its reader asks; a quoted one is always text. A node may carry a tag, and an anchor under which
aliases repeat it further down.
-/

set_option autoImplicit false

namespace Recordkeeper.Yaml

inductive Style where
  | plain
  | quoted
  | literal
  | folded
  deriving DecidableEq, Repr

/-- A tag: its suffix stands behind what the handle is short for. An empty handle is short for
nothing, so that the suffix is the whole name. -/
structure Tag where
  handle : List Char
  suffix : List Char
  deriving DecidableEq, Repr

inductive Node where
  | scalar (style : Style) (text : List Char)
  | seq (items : List Node)
  | map (entries : List (Node × Node))
  | tagged (tag : Tag) (node : Node)
  | anchored (name : List Char) (node : Node)
  | ref (name : List Char)
  deriving Repr

abbrev Handles := List (List Char × List Char)

def Handles.standard : Handles :=
  [(['!'], ['!']), (['!', '!'], "tag:yaml.org,2002:".toList)]

/-- The tag with its whole name as suffix. A handle of which nothing is known is refused. -/
def Tag.expand? (handles : Handles) (t : Tag) : Option Tag :=
  if t.handle.isEmpty then some t
  else (handles.lookup t.handle).map fun s => ⟨[], s ++ t.suffix⟩

namespace Node

def empty : Node := .scalar .plain []

def hasTag : Node → Bool
  | tagged _ _ => true
  | anchored _ n => n.hasTag
  | _ => false

def hasAnchor : Node → Bool
  | anchored _ _ => true
  | tagged _ n => n.hasAnchor
  | _ => false

def isRef : Node → Bool
  | ref _ => true
  | _ => false

/-- The nodes that anchors stand for, the latest first. -/
abbrev Anchors := List (List Char × Node)

mutual

/-- The node with each alias replaced by the node it repeats, and each tag by its whole name. An
alias stands for the latest node with that anchor before it. -/
def resolve? (handles : Handles) (known : Anchors) : Node → Option (Node × Anchors)
  | scalar s t => some (scalar s t, known)
  | seq xs => (resolveItems? handles known xs).map fun (xs, known) => (seq xs, known)
  | map es => (resolveEntries? handles known es).map fun (es, known) => (map es, known)
  | tagged t n => do
    let t ← t.expand? handles
    let (n, known) ← resolve? handles known n
    return (tagged t n, known)
  | anchored a n => do
    let (n, known) ← resolve? handles known n
    return (n, (a, n) :: known)
  | ref a => (known.lookup a).map (·, known)

def resolveItems? (handles : Handles) (known : Anchors) :
    List Node → Option (List Node × Anchors)
  | [] => some ([], known)
  | x :: r => do
    let (x, known) ← resolve? handles known x
    let (r, known) ← resolveItems? handles known r
    return (x :: r, known)

def resolveEntries? (handles : Handles) (known : Anchors) :
    List (Node × Node) → Option (List (Node × Node) × Anchors)
  | [] => some ([], known)
  | (k, v) :: r => do
    let (k, known) ← resolve? handles known k
    let (v, known) ← resolve? handles known v
    let (r, known) ← resolveEntries? handles known r
    return ((k, v) :: r, known)

end

end Node

end Recordkeeper.Yaml
