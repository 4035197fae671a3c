import Recordkeeper.Json

set_option autoImplicit false

namespace Recordkeeper.Json

def hexDigit (n : Nat) : Char := Nat.digitChar (n % 16)

/-- A quote, a backslash and the controls are escaped, the common controls by a letter. -/
def escape (c : Char) : List Char :=
  if c = '"' then ['\\', '"']
  else if c = '\\' then ['\\', '\\']
  else if c = '\n' then ['\\', 'n']
  else if c = '\r' then ['\\', 'r']
  else if c = '\t' then ['\\', 't']
  else if c = '\x08' then ['\\', 'b']
  else if c = '\x0c' then ['\\', 'f']
  else if c.toNat < 0x20 then ['\\', 'u', '0', '0', hexDigit (c.toNat / 16), hexDigit c.toNat]
  else [c]

def quoted (s : String) : List Char := '"' :: (s.toList.flatMap escape ++ ['"'])

mutual

def write : Json → List Char
  | .null => ['n', 'u', 'l', 'l']
  | .bool true => ['t', 'r', 'u', 'e']
  | .bool false => ['f', 'a', 'l', 's', 'e']
  | .num n => n.text
  | .str s => quoted s
  | .arr [] => ['[', ']']
  | .arr (x :: r) => '[' :: (write x ++ writeItems r)
  | .obj [] => ['{', '}']
  | .obj ((k, v) :: r) => '{' :: (quoted k ++ ':' :: (write v ++ writeMembers r))

def writeItems : List Json → List Char
  | [] => [']']
  | x :: r => ',' :: (write x ++ writeItems r)

def writeMembers : List (String × Json) → List Char
  | [] => ['}']
  | (k, v) :: r => ',' :: (quoted k ++ ':' :: (write v ++ writeMembers r))

end

def text (j : Json) : String := String.ofList (write j)

end Recordkeeper.Json
