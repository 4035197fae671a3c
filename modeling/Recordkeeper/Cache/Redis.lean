import Recordkeeper.Cache
import Recordkeeper.Text.Glob
import Recordkeeper.Text.Numeral

/-!
A cache behind a Redis connection: the commands it sends, and what it makes of the replies. Purging
walks the variants of a key by cursor to the end, then deletes the key and all of them at once.
-/

set_option autoImplicit false

namespace Recordkeeper.Redis

inductive Reply where
  | nil
  | text (s : String)
  | int (n : Int)
  | list (items : List Reply)
  | error (message : String)
  | broken

abbrev Command := List String

/-- A connection whose replies are known beforehand, with the commands it was sent. -/
structure Connection where
  replies : List Reply := []
  sent : List Command := []
  closed : Bool := false

/-- A number, as such or in decimal digits; negative ones wrap around. -/
def Reply.number? : Reply → Option UInt64
  | .int n => some (UInt64.ofInt n)
  | .text s =>
    let digits := match s.toList with
      | '+' :: r => r
      | r => r
    match Text.natural? digits with
    | some n => if n < UInt64.size then some (UInt64.ofNat n) else none
    | none => none
  | _ => none

def Reply.string? : Reply → Option String
  | .text s => some s
  | .int n => some (toString n)
  | _ => none

def Reply.strings? : Reply → Option (List String)
  | .list items => items.mapM Reply.string?
  | .text s => some [s]
  | .nil => some []
  | _ => none

/-- A byte, as a number that wraps around or in decimal digits. -/
def Reply.byte? : Reply → Option UInt8
  | .int n => some (UInt8.ofNat (n % 256).toNat)
  | r => do
    let n ← r.number?
    if n < 256 then some n.toUInt8 else none

def Reply.value? : Reply → Option (Option String)
  | .nil => some none
  | .text s => some (some s)
  | .list items => do
    let bytes ← items.mapM Reply.byte?
    let s ← String.fromUTF8? ⟨bytes.toArray⟩
    return some s
  | _ => none

def Reply.batch? : Reply → Option (UInt64 × List String)
  | .list [cursor, keys] => do
    let n ← cursor.number?
    let ks ← keys.strings?
    return (n, ks)
  | _ => none

def failed (command reason : String) : CacheError := ⟨"Redis " ++ command ++ " failed: " ++ reason⟩

def readReply {β : Type} (command : String) (read : Reply → Option β) (r : Reply) :
    Except CacheError β :=
  match r with
  | .error m => .error (failed command m)
  | .broken => .error (failed command "the connection was lost")
  | r =>
    match read r with
    | some b => .ok b
    | none => .error (failed command "the reply has another type")

def getCommand (key : String) : Command := ["GET", key]

/-- Whole seconds are sent, and a time of none would be refused. -/
def setCommand (key text : String) (life : Duration) : Command :=
  ["SET", key, text, "EX", toString (max life.seconds 1)]

/-- The pattern that the variants of a key match, and nothing else. -/
def variantsPattern (base : String) : String :=
  String.ofList (Text.globEscape base.toList ++ [':', '*'])

def scanCommand (base : String) (cursor : UInt64) : Command :=
  ["SCAN", toString cursor, "MATCH", variantsPattern base, "COUNT", "100"]

def deleteCommand (keys : List String) : Command := "DEL" :: keys

/-- One walk over the variants of a key: its commands, the replies left over, and the keys found or
why the walk broke off. A cursor of zero ends it, and so does the end of the replies, which stands
for an empty last batch. -/
def scan (base : String) (cursor : UInt64) (found : List String) (sent : List Command) :
    List Reply → Except CacheError (List String) × List Command × List Reply
  | [] => (.ok found, sent ++ [scanCommand base cursor], [])
  | r :: rest =>
    let sent := sent ++ [scanCommand base cursor]
    match readReply "SCAN" Reply.batch? r with
    | .error e => (.error e, sent, rest)
    | .ok (next, keys) =>
      if next = 0 then (.ok (found ++ keys), sent, rest)
      else scan base next (found ++ keys) sent rest

def Connection.exchange (c : Connection) (command : Command) (default : Reply) :
    Reply × Connection :=
  match c.replies with
  | [] => (default, { c with sent := c.sent ++ [command] })
  | r :: rest => (r, { c with replies := rest, sent := c.sent ++ [command] })

def get (c : Connection) (key : String) : Except CacheError (Option String) × Connection :=
  let (reply, c) := c.exchange (getCommand key) .nil
  (readReply "GET" Reply.value? reply, c)

/-- Any reply but an error means that the value was kept. -/
def set (c : Connection) (key text : String) (life : Duration) :
    Except CacheError Unit × Connection :=
  let (reply, c) := c.exchange (setCommand key text life) (.text "OK")
  (readReply "SET" (fun _ => some ()) reply, c)

def purge (c : Connection) (base : String) : Except CacheError UInt64 × Connection :=
  let (outcome, sent, rest) := scan base 0 [] c.sent c.replies
  let c := { c with replies := rest, sent := sent }
  match outcome with
  | .error e => (.error e, c)
  | .ok keys =>
    let (reply, c) := c.exchange (deleteCommand (base :: keys)) (.int 0)
    (readReply "DEL" Reply.number? reply, c)

def unreachable : CacheError := ⟨"Redis connection failed: the pool is closed"⟩

def answer (c : Connection) : (q : CacheCall) → q.Answer × Connection
  | .get key => if c.closed then (.error unreachable, c) else get c key
  | .set key text life => if c.closed then (.error unreachable, c) else set c key text life
  | .purge base => if c.closed then (.error unreachable, c) else purge c base

end Recordkeeper.Redis
