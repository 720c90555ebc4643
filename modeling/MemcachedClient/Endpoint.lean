import MemcachedClient.Error
import MemcachedClient.IpAddress
import MemcachedClient.Text.Blank
import MemcachedClient.Text.Decimal
import MemcachedClient.Text.Quoted

/-!
# Endpoints

Where the server is: a host and a port. `Endpoint.parse` reads `host`, `host:port`, an address
literal with or without a port, and a literal in brackets; blanks around the text do not count, and
a literal is kept in its canonical text. `Endpoint.display` writes an endpoint, in brackets where
the host holds a colon.
-/

namespace MemcachedClient

/-- The host and the port of a server. -/
structure Endpoint where
  /-- A host name or the text of an address. -/
  host : String
  /-- The port. -/
  port : UInt16
  deriving DecidableEq, Repr

namespace Endpoint

/-- The port of a text that names none. -/
def defaultPort : UInt16 := 11211

/-- The texts before and after the first occurrence of a character. -/
def splitAtFirst? (mark : Char) : List Char → Option (List Char × List Char)
  | [] => none
  | c :: cs =>
    if c = mark then some ([], cs)
    else (splitAtFirst? mark cs).map fun (before, after) => (c :: before, after)

/-- The host of a text that is no bare literal, and the text of its port if it has one. -/
def splitPort? : List Char → Option (List Char × Option (List Char))
  | '[' :: inner =>
    match splitAtFirst? ']' inner with
    | some (host, []) => some (host, none)
    | some (host, ':' :: port) => some (host, some port)
    | _ => none
  | text =>
    match splitAtFirst? ':' text with
    | some (host, port) => some (host, some port)
    | none => some (text, none)

/-- The port that a text denotes. -/
def port? (text : Option (List Char)) : Option UInt16 :=
  match text with
  | none => some defaultPort
  | some digits => (Text.numeral? UInt16.size digits).map UInt16.ofNat

/-- The endpoint that a text without blanks at its ends denotes. -/
def ofTrimmed? (text : List Char) : Option Endpoint :=
  if text.isEmpty then none
  else
    match IpAddress.parse? (String.ofList text) with
    | some address => some ⟨address.text, defaultPort⟩
    | none => do
      let (host, port) ← splitPort? text
      if host.isEmpty || host.any Text.isBlank then none
      else
        let port ← port? port
        return ⟨String.ofList host, port⟩

/-- The endpoint that a text denotes. -/
def parse (text : String) : Except ValidationError Endpoint :=
  match ofTrimmed? (Text.trim text.toList) with
  | some endpoint => .ok endpoint
  | none => .error (.invalidEndpoint text)

/-- The text of an endpoint. -/
def display (e : Endpoint) : String :=
  if ':' ∈ e.host.toList then "[" ++ e.host ++ "]:" ++ Nat.repr e.port.toNat
  else e.host ++ ":" ++ Nat.repr e.port.toNat

/-- The socket address of an endpoint whose host is an address literal. -/
def address? (e : Endpoint) : Option String :=
  (IpAddress.parse? e.host).map (·.withPort e.port)

/-- The description of an endpoint. -/
def describe (e : Endpoint) : String :=
  "Endpoint \x7b host: " ++ Text.quoted e.host ++ ", port: " ++ Nat.repr e.port.toNat ++ " \x7d"

end Endpoint

end MemcachedClient
