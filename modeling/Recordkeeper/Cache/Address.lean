import Recordkeeper.Text.Numeral

set_option autoImplicit false

namespace Recordkeeper.Redis

inductive Address where
  | server (host : String) (service : Nat) (database : Int)
  | socket (path : String)
  deriving DecidableEq, Repr

namespace Address

def defaultService : Nat := 6379

/-- Control characters and spaces around an address, and tabs and line ends within, do not count. -/
def stripped (cs : List Char) : List Char :=
  let outer (c : Char) : Bool := c.toNat ≤ 0x20
  (((cs.dropWhile outer).reverse.dropWhile outer).reverse).filter fun c =>
    c ≠ '\t' && c ≠ '\n' && c ≠ '\r'

def cutAt? (mark : Char) : List Char → Option (List Char × List Char)
  | [] => none
  | c :: r => if c = mark then some ([], r) else (cutAt? mark r).map fun (a, b) => (c :: a, b)

def behindUser (cs : List Char) : List Char := (cs.reverse.takeWhile (· ≠ '@')).reverse

def isHostChar (c : Char) : Bool := !" <>^|\\[]#/:?@".toList.contains c && c.toNat ≠ 0

/-- A host in brackets may hold colons. -/
def hostAndRest? : List Char → Option (List Char × List Char)
  | '[' :: r => do
    let (host, rest) ← cutAt? ']' r
    if host.all fun c => c.isAlphanum || c = ':' || c = '.' then return (host, rest) else none
  | r =>
    let host := r.takeWhile (· ≠ ':')
    if host.all isHostChar then some (host, r.dropWhile (· ≠ ':')) else none

def service? : List Char → Option Nat
  | [] => some defaultService
  | [':'] => some defaultService
  | ':' :: ds => do
    let n ← Text.natural? ds
    if n < 65536 then return n else none
  | _ => none

def database? (path : List Char) : Option Int :=
  let inner := ((path.dropWhile (· = '/')).reverse.dropWhile (· = '/')).reverse
  if inner.isEmpty then some 0
  else do
    let n ← Text.integer? inner
    if -9223372036854775808 ≤ n ∧ n < 9223372036854775808 then return n else none

def isPathEnd (c : Char) : Bool := c = '?' || c = '#'

def server? : List Char → Option Address
  | '/' :: '/' :: r => do
    let ends (c : Char) : Bool := c = '/' || isPathEnd c
    let (host, rest) ← hostAndRest? (behindUser (r.takeWhile (! ends ·)))
    if host.isEmpty then none
    else
      let database ← database? ((r.dropWhile (! ends ·)).takeWhile (! isPathEnd ·))
      return server (String.ofList host) (← service? rest) database
  | _ => none

def socket? (rest : List Char) : Option Address :=
  let path := match rest with
    | '/' :: '/' :: r => r
    | r => r
  if path.head? = some '/' then some (socket (String.ofList (path.takeWhile (! isPathEnd ·))))
  else none

/-- Reads an address by its scheme. Encrypted connections are not among the schemes. -/
def read? (url : String) : Option Address := do
  let (scheme, rest) ← cutAt? ':' (stripped url.toList)
  let scheme := (String.ofList scheme).toLower
  if ["redis", "valkey"].contains scheme then server? rest
  else if ["unix", "redis+unix", "valkey+unix"].contains scheme then socket? rest
  else none

end Address

end Recordkeeper.Redis
