import MemcachedClient.Error
import MemcachedClient.Text.Blank

/-!
# Keys

Which keys can stand on a request line: one to `Key.maxLength` bytes of UTF-8, no blank and no
control character. `Key.check` names the first fault, with its byte position.
-/

namespace MemcachedClient.Key

/-- The largest number of bytes in a key. -/
def maxLength : Nat := 250

/-- The first character that a key may not hold, `position` being the byte position of the first
of these characters. A character that is both blank and a control counts as blank. -/
def checkChars (key : String) (position : Nat) : List Char → Except ValidationError Unit
  | [] => .ok ()
  | c :: cs =>
    if Text.isBlank c then .error (.keyWhitespace position key)
    else if Text.isControl c then .error (.keyControl position key)
    else checkChars key (position + c.utf8Size) cs

/-- Accepts a key that the protocol can carry. -/
def check (key : String) : Except ValidationError Unit :=
  if key.isEmpty then .error .emptyKey
  else if maxLength < key.utf8ByteSize then .error (.keyTooLong key.utf8ByteSize maxLength)
  else checkChars key 0 key.toList

/-- Accepts each key of a list. -/
def checkEach : List String → Except ValidationError Unit
  | [] => .ok ()
  | key :: keys => do
    check key
    checkEach keys

/-- Accepts a list of at least one key that the protocol can carry. A key that is refused wins over
an empty list, which has none. -/
def checkAll (keys : List String) : Except ValidationError Unit := do
  checkEach keys
  if keys.isEmpty then .error .noKeys else .ok ()

/-- Whether a text is an accepted key. -/
def Valid (key : String) : Prop := check key = .ok ()

instance (key : String) : Decidable (Valid key) :=
  match h : check key with
  | .ok () => .isTrue h
  | .error _ => .isFalse (by simp [Valid, h])

end MemcachedClient.Key
