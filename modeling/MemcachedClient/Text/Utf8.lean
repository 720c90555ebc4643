/-!
# Text as bytes

Text travels as UTF-8. `ofText` writes it and `toText?` reads it back, refusing bytes that are not
the encoding of a sequence of Unicode scalar values; `toText?_ofText` ties the two together.
-/

namespace MemcachedClient

/-- Raw bytes, as they are sent, received and stored. -/
abbrev Bytes := List UInt8

namespace Bytes

/-- Line feed, the byte that ends a line. -/
def lineFeed : UInt8 := 10

/-- Carriage return, the byte that a line reader passes over. -/
def carriageReturn : UInt8 := 13

/-- The two bytes that end a request line and a value block. -/
def crlf : Bytes := [carriageReturn, lineFeed]

/-- The UTF-8 encoding of a text. -/
def ofText (s : String) : Bytes :=
  s.toByteArray.data.toList

/-- The text that the bytes encode, if they are valid UTF-8. -/
def toText? (bytes : Bytes) : Option String :=
  String.fromUTF8? ⟨bytes.toArray⟩

/-- Reading an encoded text gives the text back. -/
@[simp] theorem toText?_ofText (s : String) : toText? (ofText s) = some s := by
  have h : (⟨(ofText s).toArray⟩ : ByteArray) = s.toByteArray := by
    simp [ofText]
  rw [toText?, h, String.fromUTF8?, dif_pos s.isValidUTF8]
  rfl

end Bytes

end MemcachedClient
