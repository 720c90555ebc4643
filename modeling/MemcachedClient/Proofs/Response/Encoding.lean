import MemcachedClient.Command.Outcome
import MemcachedClient.Proofs.Key

/-!
# What a server says

The replies of the protocol, from the server's side: `Reply.Encodes` lists for each command the replies that the
server may give and what each of them says. It knows nothing of how a reply is read. A value stands in a
reply as it is, whatever bytes it has; only the length in the header of its block tells where it ends.
-/

namespace MemcachedClient.Response

/-- A line of tokens, with its end. -/
def lineOf (tokens : List String) : Bytes := Bytes.ofText (" ".intercalate tokens) ++ Bytes.crlf

/-- The tokens of the header line of an item. -/
def headerOf (item : Item) : List String :=
  ["VALUE", item.key, Nat.repr item.flags.toNat, Nat.repr item.data.length] ++
    (item.cas.map fun token => Nat.repr token.toNat).toList

/-- The block of an item: its header line, and its value with a line end behind it. -/
def blockOf (item : Item) : Bytes := lineOf (headerOf item) ++ (item.data ++ Bytes.crlf)

/-- Blocks of items, and the end line. -/
def blocksOf (items : List Item) : Bytes := items.flatMap blockOf ++ lineOf ["END"]

/-- An item that its block spells out: its key is one token of the header line, and the length of its value is
one that a machine word can give. -/
def Legible (item : Item) : Prop := Text.IsToken item.key ∧ item.data.length < UInt64.size

instance : DecidablePred Legible := fun _ => inferInstanceAs (Decidable (_ ∧ _))

/-- An item that a server can send: its key is one that a command can name, and the length of its value is
one that a machine word can give. -/
def Sendable (item : Item) : Prop := Key.Valid item.key ∧ item.data.length < UInt64.size

instance : DecidablePred Sendable := fun _ => inferInstanceAs (Decidable (_ ∧ _))

theorem Sendable.legible {item : Item} (h : Sendable item) : Legible item :=
  ⟨h.1.isWord.isToken, h.2⟩

namespace Reply

/-- The status of a command, and what it says. -/
inductive Status : Command → String → Outcome → Prop where
  /-- The value is stored. -/
  | set {key : String} {data : Bytes} {options : StoreOptions} :
    Status (.store .set key data options) "STORED" .stored
  /-- The condition of the store held. -/
  | stored {mode : StoreMode} {key : String} {data : Bytes} {options : StoreOptions}
    (conditional : mode ≠ .set) : Status (.store mode key data options) "STORED" (.changed true)
  /-- The condition of the store did not hold. -/
  | notStored {mode : StoreMode} {key : String} {data : Bytes} {options : StoreOptions}
    (conditional : mode ≠ .set) : Status (.store mode key data options) "NOT_STORED" (.changed false)
  /-- The value still had its token. -/
  | swapped {key : String} {data : Bytes} {options : StoreOptions} {token : UInt64} :
    Status (.compareAndStore key data options token) "STORED" (.compared .stored)
  /-- The value had another token. -/
  | modified {key : String} {data : Bytes} {options : StoreOptions} {token : UInt64} :
    Status (.compareAndStore key data options token) "EXISTS" (.compared .modified)
  /-- There was no value to compare with. -/
  | missing {key : String} {data : Bytes} {options : StoreOptions} {token : UInt64} :
    Status (.compareAndStore key data options token) "NOT_FOUND" (.compared .notFound)
  /-- The counter has this value now. -/
  | counter {direction : Adjustment} {key : String} {delta : UInt64} (value : UInt64) :
    Status (.adjust direction key delta) (Nat.repr value.toNat) (.counter (some value))
  /-- There was no counter. -/
  | noCounter {direction : Adjustment} {key : String} {delta : UInt64} :
    Status (.adjust direction key delta) "NOT_FOUND" (.counter none)
  /-- The value is gone. -/
  | deleted {key : String} : Status (.delete key) "DELETED" (.changed true)
  /-- There was no value to remove. -/
  | notDeleted {key : String} : Status (.delete key) "NOT_FOUND" (.changed false)
  /-- The value has its new expiry. -/
  | touched {key : String} {expiry : Expiry} : Status (.touch key expiry) "TOUCHED" (.changed true)
  /-- There was no value to touch. -/
  | notTouched {key : String} {expiry : Expiry} : Status (.touch key expiry) "NOT_FOUND" (.changed false)

/-- The bytes are a reply to the command that says this outcome, and streams these items. -/
inductive Encodes : Command → Bytes → Outcome → List Item → Prop where
  /-- A status line. -/
  | status {command : Command} {token : String} {outcome : Outcome}
    (status : Status command token outcome) : Encodes command (lineOf [token]) outcome []
  /-- A retrieval of one key finds nothing. -/
  | none {verb : Retrieval} {key : String} :
    Encodes (.retrieve verb key) (blocksOf []) (.item none) []
  /-- A retrieval of one key finds an item. -/
  | one {verb : Retrieval} {key : String} {item : Item} (sendable : Sendable item) :
    Encodes (.retrieve verb key) (blocksOf [item]) (.item (some item)) []
  /-- A retrieval of several keys finds any number of items. -/
  | many {verb : Retrieval} {keys : List String} {items : List Item}
    (sendable : ∀ item ∈ items, Sendable item) :
    Encodes (.retrieveMany verb keys) (blocksOf items) (.delivered items.length) items

end Reply

end MemcachedClient.Response
