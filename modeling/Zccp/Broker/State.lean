import Mathlib.Algebra.GroupWithZero.Nat
import Mathlib.Logic.Function.Basic
import Zccp.Lib.CursorList
import Zccp.Msg.Types

/-!
# `Zccp/Broker/State.lean` — the server's data

`server_t`, `s_server_t`, `client_t`, `s_client_t` and `pattern_t`, with the pointers between
them left as pointers. A client is known by its address (`Ref`), and dereferencing goes through
`Server.heap`, so that a pointer to a destroyed client is an address at which there is nothing,
not a copy of what used to be there. Addresses are never reused here; the C allocator may reuse
them, which would only hide a dangling pointer. The same goes for a request: the message a
client holds carries the address it was received at, and the three pointers that
`forward_to_subscribers` leaves in the server name their owner and that address.

A pattern is never removed from the pattern list while the server runs, so it is known by its
position there.

`SClient` is split in two. `Session` is what a client holds between two callbacks of the
reactor; the registers that `s_client_execute` overwrites before it reads them come on top.

Left out: the log prefix and `unique_id`, which only logging reads; the configuration tree; the
wakeup alarm, except for the check that cancels it, since no action ever sets one.
-/

set_option autoImplicit false

namespace Zccp.Broker

open Lib

/-- `state_t` -/
inductive State
  | start
  | connected
  | external
deriving DecidableEq, Repr

/-- `event_t`; `null` is `NULL_event`. -/
inductive Event
  | terminate
  | null
  | hello
  | subscribe
  | publish
  | direct
  | forward
  | goodbye
  | expired
deriving DecidableEq, Repr

/-- The number of a state, by which `s_state_name` is indexed. -/
def State.code : State → Int
  | start => 1
  | connected => 2
  | external => 3

/-- The number of an event, by which `s_event_name` is indexed. -/
def Event.code : Event → Int
  | terminate => -1
  | null => 0
  | hello => 1
  | subscribe => 2
  | publish => 3
  | direct => 4
  | forward => 5
  | goodbye => 6
  | expired => 7

/-- An address. -/
abbrev Ref : Type := Nat

/-- A received message and the address it was received at. -/
structure Request where
  addr : Ref
  msg : ZccpMsg
deriving DecidableEq

/-- `pattern_t` -/
structure Pattern where
  expression : CStr
  rex : Zrex
  clients : CursorList Ref
deriving DecidableEq

/-- An armed one-shot timer of the reactor. -/
structure Timer where
  id : Nat
  argument : Ref
deriving DecidableEq, Repr

/-- What a client holds from one callback to the next. A timer id of 0 is no timer. -/
structure Session where
  hashkey : CStr
  routingId : Frame
  mailbox : CursorList Request
  state : State
  expiryTimer : Nat
  wakeupTimer : Nat
  request : Option Request
  reply : ZccpMsg
  identifier : Option CStr
deriving DecidableEq

/-- `client_t` and `s_client_t`. -/
structure SClient extends Session where
  event : Event
  nextEvent : Event
  exception : Event
deriving DecidableEq

/-- What an observer of the server sees, in order: what it sends, and the calls that matter for
re-entrancy. `stateName` and `eventName` are the lookups of verbose logging, with their index.
Nothing in the server reads this back. -/
inductive Obs
  /-- `zccp_msg_send` of `msg`, encoded as `frames`, to the peer `routingId`. -/
  | send (routingId : Frame) (msg : ZccpMsg) (frames : List Frame)
  /-- Entry into `s_client_execute`, with the pattern list as it is then. -/
  | enter (client : Ref) (event : Event) (patterns : CursorList Pattern)
  /-- Return from `s_client_execute`. -/
  | leave (client : Ref) (patterns : CursorList Pattern)
  /-- One iteration of its loop. -/
  | iterate (client : Ref) (state : State) (event : Event)
  /-- A message taken off a mailbox. -/
  | take (client : Ref) (msg : ZccpMsg)
  /-- A client destroyed. -/
  | destroy (client : Ref)
  /-- What `get_content_to_publish` of `client` read through the server's pointers. -/
  | relay (client : Ref) (sender address : CStr) (content : Option (List Frame))
  | stateName (index : Int)
  | eventName (index : Int)
deriving DecidableEq

/-- `server_t` and `s_server_t`, with the allocator and the reactor's timers. -/
structure Server where
  /-- Patterns subscribed to. -/
  patterns : CursorList Pattern
  /-- The client whose `identifier` the pointer `sender` is. -/
  sender : Option Ref
  /-- The client and the request whose `address` the pointer `address` is. -/
  address : Option (Ref × Ref)
  headers : Option Zhash
  /-- The client and the request whose `content` the pointer `content` is. -/
  content : Option (Ref × Ref)
  /-- The hash of clients, by hash key. -/
  clients : CStr → Option Ref
  verbose : Bool
  heap : Ref → Option SClient
  /-- The next free address. -/
  brk : Ref
  timers : List Timer
  lastTimerId : Nat
  trace : List Obs

namespace Server

/-- A server on which nothing has happened: `s_server_new`. -/
def new (verbose : Bool) : Server where
  patterns := .empty
  sender := none
  address := none
  headers := none
  content := none
  clients := fun _ => none
  verbose := verbose
  heap := fun _ => none
  brk := 1
  timers := []
  lastTimerId := 0
  trace := []

/-- Record an observation. -/
def note (o : Obs) (s : Server) : Server := { s with trace := s.trace ++ [o] }

/-- Record the lookups of a `zsys_debug`, which is called when logging is verbose. -/
def debug (os : List Obs) (s : Server) : Server :=
  { s with trace := s.trace ++ if s.verbose then os else [] }

/-- Write a client back to its address. -/
def setClient (r : Ref) (c : SClient) (s : Server) : Server :=
  { s with heap := Function.update s.heap r (some c) }

/-- Replace the pattern list, of which only the cursor or one pattern has changed. -/
def setPatterns (patterns : CursorList Pattern) (s : Server) : Server :=
  { s with patterns := patterns }

/-- Write the client list of the pattern at a position. -/
def setPatternClients (i : Nat) (clients : CursorList Ref) (s : Server) : Server :=
  { s with patterns := { s.patterns with
      items := s.patterns.items.modify i fun p => { p with clients := clients } } }

/-- The client list of the pattern at a position. -/
def patternClients (i : Nat) (s : Server) : CursorList Ref :=
  match s.patterns.items[i]? with
  | none => .empty
  | some p => p.clients

/-- A client, without the registers of a state machine pass. -/
def session (s : Server) (r : Ref) : Option Session := (s.heap r).map SClient.toSession

/-- More than any loop over the server's lists takes. -/
def fuel (s : Server) : Nat :=
  s.patterns.items.length + (s.patterns.items.map fun p => p.clients.items.length).sum + 2

end Server

end Zccp.Broker
