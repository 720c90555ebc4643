import MemcachedClient.Document
import MemcachedClient.Duration
import MemcachedClient.Endpoint

/-!
# Client configuration

The settings of a client, their defaults, how a settings document gives them, and which of them are
in range (`Config.check`). A time limit of 0 ms in the configuration is no limit.
-/

namespace MemcachedClient

/-- The settings of a client. -/
structure Config where
  /-- The text of the server's endpoint. -/
  endpoint : String := "127.0.0.1:11211"
  /-- The limit of a connect in milliseconds; 0 is none. -/
  connectTimeoutMs : Nat := 2000
  /-- The limit of each read in milliseconds; 0 is none. -/
  receiveTimeoutMs : Nat := 2000
  /-- The most connections that are open at one time. -/
  maxConnections : Nat := 2
  /-- The most requests that are pipelined on one connection. -/
  maxConcurrentRequests : Nat := 15
  /-- Whether calls share connections. -/
  enablePipelining : Bool := true
  deriving DecidableEq, Repr

namespace Config

/-- The limit that a number of milliseconds stands for. -/
def limit? (ms : Nat) : Option Duration := if ms = 0 then none else some (.ofMillis ms)

/-- The limit of a connect. -/
def connectLimit (config : Config) : Option Duration := limit? config.connectTimeoutMs

/-- The limit of each read. -/
def receiveLimit (config : Config) : Option Duration := limit? config.receiveTimeoutMs

/-- The names of the settings, in the order of their declaration. -/
def names : List String :=
  ["endpoint", "connect_timeout_ms", "receive_timeout_ms", "max_connections",
    "max_concurrent_requests_per_connection", "enable_pipelining"]

/-- The configuration that the text of a document gives. -/
def parse? (source : String) : Option Config := do
  let settings ← (← Document.parse? source).settings? names
  let default : Config := {}
  let count := fun name value => Document.setting? settings name Document.asCount? value
  return {
    endpoint := ← Document.setting? settings "endpoint" Document.asText? default.endpoint
    connectTimeoutMs := ← count "connect_timeout_ms" default.connectTimeoutMs
    receiveTimeoutMs := ← count "receive_timeout_ms" default.receiveTimeoutMs
    maxConnections := ← count "max_connections" default.maxConnections
    maxConcurrentRequests :=
      ← count "max_concurrent_requests_per_connection" default.maxConcurrentRequests
    enablePipelining :=
      ← Document.setting? settings "enable_pipelining" Document.asTruth? default.enablePipelining }

/-- Checks the endpoint and the ranges, and answers the endpoint. The number of pipelined requests
counts only with pipelining. -/
def check (config : Config) : Except ValidationError Endpoint := do
  let endpoint ← Endpoint.parse config.endpoint
  if config.maxConnections < 1 then
    throw (.invalidConfig "max_connections must be at least 1")
  if config.enablePipelining && config.maxConcurrentRequests < 1 then
    throw (.invalidConfig "max_concurrent_requests_per_connection must be at least 1")
  return endpoint

end Config

end MemcachedClient
