import MemcachedClient.Duration
import MemcachedClient.Lifecycle

/-!
# Errors

The causes for which a call can fail, their wording, and the four classes by which a caller tells
them apart: bad arguments (`isValidation`), answers outside the protocol (`isProtocol`), limits of
time (`isTimeout`) and failures of the network or the connection (`isConnectivity`). A failed
creation in a shared pool wraps its cause; of the classes only connectivity looks through the
wrapping.

An error of the operating system carries no wording of its own here: its text is the system's.
-/

namespace MemcachedClient

/-- An argument or a configuration that is refused before anything is sent. -/
inductive ValidationError where
  /-- A key needs at least one byte. -/
  | emptyKey
  /-- A key has more bytes than the protocol carries. -/
  | keyTooLong (length max : Nat)
  /-- A key has a blank at a byte position. -/
  | keyWhitespace (position : Nat) (key : String)
  /-- A key has a control character at a byte position. -/
  | keyControl (position : Nat) (key : String)
  /-- A retrieval of several keys needs at least one. -/
  | noKeys
  /-- A text is no endpoint. -/
  | invalidEndpoint (text : String)
  /-- A setting is out of range. -/
  | invalidConfig (text : String)
  deriving DecidableEq, Repr

namespace ValidationError

/-- The wording of an error. -/
def message : ValidationError → String
  | emptyKey => "key must not be empty"
  | keyTooLong length max =>
    "key must be no more than " ++ Nat.repr max ++ " bytes in length, got " ++ Nat.repr length
  | keyWhitespace position key =>
    "key may not contain whitespace at position=" ++ Nat.repr position ++ " key=" ++ key
  | keyControl position key =>
    "key may not contain control characters at position=" ++ Nat.repr position ++ " key=" ++ key
  | noKeys => "at least one key is required"
  | invalidEndpoint text => "invalid endpoint: " ++ text
  | invalidConfig text => "invalid configuration: " ++ text

end ValidationError

/-- A response that does not follow the protocol. -/
inductive ProtocolError where
  /-- The server answered with one of its error verbs. -/
  | errorResponse (line : String)
  /-- A blank line stands where a response was expected. -/
  | emptyLine
  /-- The status is not one that the request may receive. -/
  | unexpectedResponse (verb line : String)
  /-- The header of an item has missing or non-numeric fields. -/
  | malformedItem (line : String)
  /-- A retrieval of one key received a second item. -/
  | tooManyItems (verb : String)
  /-- The response line is not valid UTF-8. -/
  | invalidUtf8
  /-- A value block is not followed by its line end. -/
  | missingTerminator (key : String)
  deriving DecidableEq, Repr

namespace ProtocolError

/-- The wording of an error. -/
def message : ProtocolError → String
  | errorResponse line => "server error response: " ++ line
  | emptyLine => "empty response line"
  | unexpectedResponse verb line => "unexpected response to " ++ verb ++ ": " ++ line
  | malformedItem line => "invalid item header: " ++ line
  | tooManyItems verb => "server returned more items than expected for " ++ verb
  | invalidUtf8 => "response line is not valid utf-8"
  | missingTerminator key => "value block for " ++ key ++ " is not terminated by CRLF"

end ProtocolError

/-- The kind of a failed input or output operation. -/
inductive IoFailure where
  /-- The name or resource does not exist. -/
  | notFound
  /-- The operation is not allowed. -/
  | permissionDenied
  /-- Nothing listens at the address. -/
  | connectionRefused
  /-- The peer reset the connection. -/
  | connectionReset
  /-- The host cannot be reached. -/
  | hostUnreachable
  /-- The network cannot be reached. -/
  | networkUnreachable
  /-- The connection was aborted. -/
  | connectionAborted
  /-- The stream is not connected. -/
  | notConnected
  /-- The local address is in use. -/
  | addressInUse
  /-- The local address does not exist. -/
  | addressNotAvailable
  /-- The network is down. -/
  | networkDown
  /-- The peer no longer reads. -/
  | brokenPipe
  /-- The operation would have to wait. -/
  | wouldBlock
  /-- An argument is not valid. -/
  | invalidInput
  /-- The data are not valid. -/
  | invalidData
  /-- The system gave the operation up after a time. -/
  | timedOut
  /-- A write took no bytes. -/
  | writeZero
  /-- The operation was interrupted. -/
  | interrupted
  /-- The operation is not supported. -/
  | unsupported
  /-- The stream ended too early. -/
  | unexpectedEof
  /-- Memory is exhausted. -/
  | outOfMemory
  /-- Any other failure. -/
  | other
  deriving DecidableEq, Repr

/-- A failed input or output operation. -/
structure IoError where
  /-- What kind of failure it is. -/
  failure : IoFailure
  /-- Its wording, unless that is the operating system's. -/
  detail : Option String
  deriving DecidableEq, Repr

/-- A failure that the operating system reports. -/
def IoError.ofSystem (failure : IoFailure) : IoError := ⟨failure, none⟩

/-- The causes for which a call fails. -/
inductive ClientError where
  /-- An argument was refused. -/
  | validation (cause : ValidationError)
  /-- The response is malformed or not one that was expected. -/
  | protocol (cause : ProtocolError)
  /-- The network failed during a connect, a send or a receive. -/
  | io (cause : IoError)
  /-- The server ended the stream before a whole response. -/
  | endOfStream
  /-- The connection cannot be used in its present state. -/
  | invalidState (state : Lifecycle)
  /-- An operation took longer than its limit. -/
  | timeout (operation : String) (limit : Duration)
  /-- A pool could not create an item. -/
  | poolCreation (kind : String) (source : ClientError)
  /-- The pool was disposed before or while borrowing. -/
  | disposed
  deriving DecidableEq, Repr

namespace ClientError

/-- Whether an argument was refused. -/
def isValidation : ClientError → Bool
  | validation _ => true
  | _ => false

/-- Whether the server's answer is outside the protocol, or one of its error verbs. -/
def isProtocol : ClientError → Bool
  | protocol _ => true
  | _ => false

/-- Whether a limit of time was exceeded. -/
def isTimeout : ClientError → Bool
  | timeout _ _ => true
  | _ => false

/-- Whether the network or the connection failed, also inside a failed creation. -/
def isConnectivity : ClientError → Bool
  | io _ => true
  | endOfStream => true
  | invalidState _ => true
  | poolCreation _ source => source.isConnectivity
  | _ => false

/-- The wording of an error; `none` where the operating system's text is part of it. -/
def message? : ClientError → Option String
  | validation cause => some ("invalid argument: " ++ cause.message)
  | protocol cause => some ("protocol error: " ++ cause.message)
  | io cause => cause.detail.map ("io error: " ++ ·)
  | endOfStream => some "unexpected end of stream"
  | invalidState state => some ("connection is " ++ state.name)
  | timeout operation limit => some (operation ++ " timed out after " ++ limit.text)
  | poolCreation kind source =>
    source.message?.map (("failed to create pooled " ++ kind ++ ": ") ++ ·)
  | disposed => some "pool has been disposed"

/-- The wordings of the causes behind an error, the nearest first. -/
def sources : ClientError → List String
  | validation cause => [cause.message]
  | protocol cause => [cause.message]
  | io cause => cause.detail.toList
  | poolCreation _ source => source.message?.toList ++ source.sources
  | _ => []

end ClientError

end MemcachedClient
