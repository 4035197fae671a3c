set_option autoImplicit false

namespace Recordkeeper.Text

def isGlobMark (c : Char) : Bool := c = '*' || c = '?' || c = '[' || c = ']' || c = '\\'

/-- The pattern that a text alone matches. -/
def globEscape : List Char → List Char
  | [] => []
  | c :: r => if isGlobMark c then '\\' :: c :: globEscape r else c :: globEscape r

structure GlobClass where
  negated : Bool
  member : Char → Bool := fun _ => false

def GlobClass.with (k : GlobClass) (p : Char → Bool) : GlobClass :=
  { k with member := fun c => k.member c || p c }

inductive GlobPart where
  | run
  | one (admits : Char → Bool)

def GlobPart.literal (c : Char) : GlobPart := .one (· == c)

def GlobPart.ofClass (k : GlobClass) : GlobPart := .one fun c => k.member c != k.negated

/-- The parts of a pattern. A class, which is under way once its bracket was read, lists characters
and ranges, and is closed by the end of the pattern if by nothing before. -/
def globParts : (underway : Option GlobClass) → List Char → List GlobPart
  | none, [] => []
  | none, '*' :: r => .run :: globParts none r
  | none, '?' :: r => .one (fun _ => true) :: globParts none r
  | none, '[' :: '^' :: r => globParts (some { negated := true }) r
  | none, '[' :: r => globParts (some { negated := false }) r
  | none, '\\' :: c :: r => .literal c :: globParts none r
  | none, c :: r => .literal c :: globParts none r
  | some k, [] => [.ofClass k]
  | some k, '\\' :: c :: r => globParts (some (k.with (· == c))) r
  | some k, ']' :: r => .ofClass k :: globParts none r
  | some k, a :: '-' :: b :: r =>
    globParts (some (k.with fun c => (a ≤ c && c ≤ b) || (b ≤ c && c ≤ a))) r
  | some k, c :: r => globParts (some (k.with (· == c))) r

/-- A text is cut so that each part covers its piece, and nothing is left over. -/
def GlobPart.Covers : List GlobPart → List Char → Prop
  | [], s => s = []
  | .run :: ps, s => ∃ passed rest, s = passed ++ rest ∧ Covers ps rest
  | .one admits :: ps, s => ∃ c rest, s = c :: rest ∧ admits c = true ∧ Covers ps rest

def GlobMatches (pattern s : List Char) : Prop := GlobPart.Covers (globParts none pattern) s

end Recordkeeper.Text
