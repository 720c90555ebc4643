import MemcachedClient.Expiry
import MemcachedClient.Item
import MemcachedClient.Text.Decimal

/-!
# Commands

One command per request of the protocol, and the request that it writes (`Command.request`): a line
of tokens with single spaces between them, and after it, for a command that stores a value, the
value and a line end. A command does not check its keys.
-/

namespace MemcachedClient

/-- Whether a retrieval asks for the token of a conditional store. -/
inductive Retrieval where
  /-- Without tokens. -/
  | get
  /-- With tokens. -/
  | gets
  deriving DecidableEq, Repr

/-- When a plain store takes effect, and what it does with a value that is there. -/
inductive StoreMode where
  /-- Always. -/
  | set
  /-- Only if there is no value. -/
  | add
  /-- Only if there is a value. -/
  | replace
  /-- Puts the bytes after those of the value. -/
  | append
  /-- Puts the bytes before those of the value. -/
  | prepend
  deriving DecidableEq, Repr

/-- The direction of a counter's change. -/
inductive Adjustment where
  /-- Up. -/
  | incr
  /-- Down. -/
  | decr
  deriving DecidableEq, Repr

/-- What is stored beside a value. -/
structure StoreOptions where
  /-- A number that retrievals give back. -/
  flags : UInt32 := 0
  /-- When the value expires. -/
  expiry : Expiry := .never
  deriving DecidableEq, Repr

/-- Options with flags and no expiry. -/
def StoreOptions.ofFlags (flags : UInt32) : StoreOptions := ⟨flags, .never⟩

/-- Options that expire after a duration. -/
def StoreOptions.expiringAfter (d : Duration) : StoreOptions := ⟨0, .after d⟩

/-- A request to the server. -/
inductive Command where
  /-- Retrieves the value of one key. -/
  | retrieve (verb : Retrieval) (key : String)
  /-- Retrieves the values of several keys. -/
  | retrieveMany (verb : Retrieval) (keys : List String)
  /-- Stores a value. -/
  | store (mode : StoreMode) (key : String) (data : Bytes) (options : StoreOptions)
  /-- Stores a value if the present one still has the token. -/
  | compareAndStore (key : String) (data : Bytes) (options : StoreOptions) (token : UInt64)
  /-- Changes a counter. -/
  | adjust (direction : Adjustment) (key : String) (delta : UInt64)
  /-- Removes a value. -/
  | delete (key : String)
  /-- Changes the expiry of a value. -/
  | touch (key : String) (expiry : Expiry)
  deriving DecidableEq, Repr

/-- The verb of a retrieval. -/
def Retrieval.verb : Retrieval → String
  | get => "get"
  | gets => "gets"

/-- The verb of a plain store. -/
def StoreMode.verb : StoreMode → String
  | set => "set"
  | add => "add"
  | replace => "replace"
  | append => "append"
  | prepend => "prepend"

/-- The verb of a counter's change. -/
def Adjustment.verb : Adjustment → String
  | incr => "incr"
  | decr => "decr"

namespace Command

/-- The verb on the request line. -/
def verb : Command → String
  | retrieve v _ => v.verb
  | retrieveMany v _ => v.verb
  | store mode .. => mode.verb
  | compareAndStore .. => "cas"
  | adjust direction .. => direction.verb
  | delete _ => "delete"
  | touch .. => "touch"

/-- The tokens of the request line at the moment `now`. -/
def tokens (now : Instant) : Command → List String
  | retrieve v key => [v.verb, key]
  | retrieveMany v keys => v.verb :: keys
  | store mode key data options =>
    [mode.verb, key, Nat.repr options.flags.toNat, Nat.repr (options.expiry.wireSeconds now),
      Nat.repr data.length]
  | compareAndStore key data options token =>
    ["cas", key, Nat.repr options.flags.toNat, Nat.repr (options.expiry.wireSeconds now),
      Nat.repr data.length, Nat.repr token.toNat]
  | adjust direction key delta => [direction.verb, key, Nat.repr delta.toNat]
  | delete key => ["delete", key]
  | touch key expiry => ["touch", key, Nat.repr (expiry.wireSeconds now)]

/-- The value that follows the request line. -/
def payload? : Command → Option Bytes
  | store _ _ data _ => some data
  | compareAndStore _ data _ _ => some data
  | _ => none

/-- The bytes of a request at the moment `now`. -/
def request (now : Instant) (command : Command) : Bytes :=
  Bytes.ofText (" ".intercalate (command.tokens now)) ++ Bytes.crlf
    ++ match command.payload? with
      | none => []
      | some data => data ++ Bytes.crlf

/-- The keys that a command names. -/
def keys : Command → List String
  | retrieve _ key => [key]
  | retrieveMany _ keys => keys
  | store _ key .. => [key]
  | compareAndStore key .. => [key]
  | adjust _ key _ => [key]
  | delete key => [key]
  | touch key _ => [key]

end Command

end MemcachedClient
