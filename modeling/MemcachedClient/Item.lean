import MemcachedClient.Text.Quoted
import MemcachedClient.Text.Utf8

/-!
# Items

A value as the server returns it: the key, the flags stored beside it, its bytes, and, where it was
asked for, the token that a later conditional store presents.
-/

namespace MemcachedClient

/-- A value retrieved from the server. -/
structure Item where
  /-- The key, as the server names it. -/
  key : String
  /-- The number that the writer stored beside the value. -/
  flags : UInt32
  /-- The token for a conditional store, where the response carries one. -/
  cas : Option UInt64
  /-- The bytes of the value. -/
  data : Bytes
  deriving DecidableEq, Repr

namespace Item

/-- The number of bytes in the value. -/
def length (item : Item) : Nat := item.data.length

/-- Whether the value has no bytes. -/
def isEmpty (item : Item) : Bool := item.data.isEmpty

/-- The description of a token. -/
def describeCas : Option UInt64 → String
  | none => "None"
  | some token => "Some(" ++ Nat.repr token.toNat ++ ")"

/-- The description of an item, which shows the length of its value and not the value. -/
def describe (item : Item) : String :=
  "Item \x7b key: " ++ Text.quoted item.key ++ ", flags: " ++ Nat.repr item.flags.toNat
    ++ ", cas: " ++ describeCas item.cas ++ ", len: " ++ Nat.repr item.length ++ " \x7d"

end Item

/-- The outcome of a conditional store. -/
inductive CasOutcome where
  /-- The value was unchanged and is replaced. -/
  | stored
  /-- The value was changed by somebody else. -/
  | modified
  /-- There is no value under the key. -/
  | notFound
  deriving DecidableEq, Repr

end MemcachedClient
