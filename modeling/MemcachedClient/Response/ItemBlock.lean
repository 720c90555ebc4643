import MemcachedClient.Item
import MemcachedClient.Response.Line
import MemcachedClient.Text.Decimal

/-!
# Item blocks

A retrieval is answered by item blocks and an end line. A block is a header line, which gives the
key, the flags, the number of bytes and perhaps a token, then exactly that many bytes, which are
never searched for a line end, then a carriage return and a line feed.

`Header.ofLine?` is the grammar of the header: four or five tokens, the first the word VALUE in any
case, the numbers below `2 ^ 32`, `2 ^ 64` and `2 ^ 64`.
-/

namespace MemcachedClient.Response

/-- The header of an item block. -/
structure Header where
  /-- The key. -/
  key : String
  /-- The flags. -/
  flags : UInt32
  /-- The number of bytes in the value. -/
  length : Nat
  /-- The token, if the header has one. -/
  cas : Option UInt64
  deriving DecidableEq, Repr

namespace Header

/-- The header that four or five tokens denote. -/
def ofTokens? : List String → Option Header
  | [word, key, flags, length] => do
    guard (sameWord word "VALUE")
    return ⟨key, ← Text.word32? flags.toList, ← Text.numeral? UInt64.size length.toList, none⟩
  | [word, key, flags, length, cas] => do
    guard (sameWord word "VALUE")
    return ⟨key, ← Text.word32? flags.toList, ← Text.numeral? UInt64.size length.toList,
      some (← Text.word64? cas.toList)⟩
  | _ => none

end Header

/-- How far an item block is read. -/
inductive ItemState where
  /-- In the header line, of which these bytes count. -/
  | header (raw : Array UInt8)
  /-- In the value, of which these bytes are read. -/
  | data (header : Header) (read : Array UInt8)
  /-- After the value, before its line end. -/
  | terminator (header : Header) (data : Array UInt8)
  /-- After the first byte of the line end. -/
  | terminatorEnd (header : Header) (data : Array UInt8) (first : UInt8)

namespace ItemState

/-- Nothing is read yet. -/
def start : ItemState := header #[]

/-- The state after a header; an empty value is complete at once. -/
def afterHeader (h : Header) : ItemState :=
  if h.length = 0 then terminator h #[] else data h #[]

/-- The item of a complete block. -/
def item (h : Header) (read : Array UInt8) : Item :=
  ⟨h.key, h.flags, h.cas, read.toList⟩

/-- What a header line leads to: the end of the items, a value, or an error. -/
def ofLine (line : Line) : Step ItemState (Except ClientError (Option Item)) :=
  if sameWord line.first "END" then .done (.ok none)
  else
    match Header.ofTokens? line.tokens with
    | none => .done (.error (.protocol (.malformedItem line.text)))
    | some h => .more (afterHeader h)

/-- Takes the next byte of an item block; the answer is `none` at the end line. -/
def step (state : ItemState) (byte : UInt8) : Step ItemState (Except ClientError (Option Item)) :=
  match state with
  | header raw =>
    match Line.step true raw byte with
    | .more raw => .more (header raw)
    | .held raw => .held (header raw)
    | .done (.error cause) => .done (.error cause)
    | .done (.ok line) => ofLine line
  | data h read =>
    let read := read.push byte
    if read.size < h.length then .more (data h read) else .more (terminator h read)
  | terminator h read => .more (terminatorEnd h read byte)
  | terminatorEnd h read first =>
    if [first, byte] = Bytes.crlf then .done (.ok (some (item h read)))
    else .done (.error (.protocol (.missingTerminator h.key)))

end ItemState

end MemcachedClient.Response
