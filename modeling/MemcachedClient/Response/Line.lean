import MemcachedClient.Error
import MemcachedClient.Response.Scan
import MemcachedClient.Text.Blank

/-!
# Response lines

A line of a response: its text and the tokens that blanks separate. A line ends at the first line
feed, and carriage returns anywhere in it do not count; its bytes have to be UTF-8. A line is
refused (`Line.check`) if it has no token, or if its first token is one of the words with which the
server rejects a request, in any case of its ASCII letters.
-/

namespace MemcachedClient.Response

/-- A line without its end, and its tokens. -/
structure Line where
  /-- The text of the line. -/
  text : String
  /-- The tokens between blanks. -/
  tokens : List String
  deriving DecidableEq, Repr

/-- Whether two texts are equal but for the case of ASCII letters. -/
def sameWord (s t : String) : Bool :=
  s.toList.map Char.toLower == t.toList.map Char.toLower

namespace Line

/-- Splits a text into tokens. -/
def ofText (text : String) : Line :=
  ⟨text, (Text.words text.toList).map String.ofList⟩

/-- The first token, empty for a blank line. -/
def first (line : Line) : String := line.tokens.headD ""

/-- The words with which the server rejects a request. -/
def errorVerbs : List String := ["ERROR", "CLIENT_ERROR", "SERVER_ERROR"]

/-- Refuses a blank line and the server's errors. -/
def check (line : Line) : Except ProtocolError Unit :=
  match line.tokens with
  | [] => .error .emptyLine
  | token :: _ =>
    if errorVerbs.any (sameWord token) then .error (.errorResponse line.text) else .ok ()

/-- The line of some bytes without a line feed; `checked` says that it is to be accepted. -/
def ofBytes (checked : Bool) (raw : Bytes) : Except ClientError Line :=
  match Bytes.toText? raw with
  | none => .error (.protocol .invalidUtf8)
  | some text =>
    let line := ofText text
    if checked then
      match line.check with
      | .ok () => .ok line
      | .error cause => .error (.protocol cause)
    else .ok line

/-- Takes the next byte of a line; the state holds the bytes before it that count. -/
def step (checked : Bool) (raw : Array UInt8) (byte : UInt8) :
    Step (Array UInt8) (Except ClientError Line) :=
  if byte = Bytes.lineFeed then .done (ofBytes checked raw.toList)
  else if byte = Bytes.carriageReturn then .more raw
  else .more (raw.push byte)

end Line

end MemcachedClient.Response
