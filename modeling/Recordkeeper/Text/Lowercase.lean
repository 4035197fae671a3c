import Recordkeeper.Text.CaseTable

/-!
Full lowercase of a text. Two rules go beyond a table of pairs: the dotted capital I becomes two
characters, and a capital sigma that ends a word becomes the final form.
-/

set_option autoImplicit false

namespace Recordkeeper.Text

def isCased (c : Char) : Bool := inRanges casedRanges c.toNat

def isCaseIgnorable (c : Char) : Bool := inRanges caseIgnorableRanges c.toNat

def lowerChar (c : Char) : List Char :=
  if c.toNat < 0x80 then [c.toLower]
  else if c.toNat = 0x130 then ['i', Char.ofNat 0x307]
  else match lowercaseRuns.find? (·.holds c.toNat) with
    | some r => [Char.ofNat (r.partner c.toNat)]
    | none => [c]

/-- The first character that is not case-ignorable is cased. -/
def startsCased (s : List Char) : Bool := (s.dropWhile isCaseIgnorable).head?.any isCased

/-- A capital sigma is final when letters stand before it in its word and none after it. -/
def sigmaFor (before after : List Char) : Char :=
  if startsCased before && !startsCased after then 'ς' else 'σ'

/-- Lowercase of what follows `before`, which is held in reverse. -/
def lowerAfter (before : List Char) : List Char → List Char
  | [] => []
  | c :: r =>
    (if c = 'Σ' then [sigmaFor before r] else lowerChar c) ++ lowerAfter (c :: before) r

def lower (s : List Char) : List Char := lowerAfter [] s

end Recordkeeper.Text
