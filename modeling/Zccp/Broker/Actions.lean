import Zccp.Msg.Encode
import Zccp.Broker.State

/-!
# `Zccp/Broker/Actions.lean` — `zccp_server.c`

The application half of the server: the pattern class, what happens when a client goes, and the
four actions of the state machine. Each function is a function of the whole server, and `none`
is a step the C program has no defined result for: a dereferenced `NULL` or dangling pointer, a
failed assertion, or a loop that is still going when the fuel is used up.

`forward_to_subscribers` re-enters the state machine of other clients, which is defined later
(`Zccp/Broker/Execute.lean`); it takes `engine_send_event` as an argument.
-/

set_option autoImplicit false

namespace Zccp.Broker

open Lib CursorList

/-! ## The reactor's timers -/

/-- `zloop_timer`, armed once. -/
def zloopTimer (argument : Ref) (s : Server) : Nat × Server :=
  let id := s.lastTimerId + 1
  (id, { s with timers := s.timers ++ [{ id, argument }], lastTimerId := id })

def zloopTimerEnd (id : Nat) (s : Server) : Server :=
  { s with timers := s.timers.filter (·.id ≠ id) }

/-- `if (timer) zloop_timer_end (timer)` -/
def endTimer (id : Nat) (s : Server) : Server := if id = 0 then s else zloopTimerEnd id s

/-! ## The pattern class -/

/-- `s_pattern_new`: no pattern when the expression cannot be compiled at all. -/
def sPatternNew (z : Czmq) (expression : CStr) (client : Ref) : Option Pattern :=
  (z.zrexNew expression).map fun rex => { expression, rex, clients := CursorList.empty.append client }

/-- `zlist_append`, which ignores a `NULL` item. -/
def zlistAppend {α : Type} (l : CursorList α) : Option α → CursorList α
  | none => l
  | some x => l.append x

/-! ## When a client goes -/

/-- `client_terminate`: the loop over the patterns, which takes the client off each one's list. -/
def clientTerminate (fuel : Nat) (self : Ref) (s : Server) : Option Server :=
  forEach Server.patterns Server.setPatterns
    (fun i s => some (s.setPatternClients i ((s.patternClients i).remove (· = self)))) fuel s

/-! ## The actions -/

def registerNewClient (self : Ref) (s : Server) : Option Server := do
  let c ← s.heap self
  let request ← c.request
  let identifier ← request.msg.identifier
  some (s.setClient self { c with identifier := some identifier })

/-- `store_new_subscription`. The outer loop stops at the pattern with this expression, the inner
one at this client on that pattern's list. -/
def storeNewSubscription (z : Czmq) (fuel : Nat) (self : Ref) (s : Server) : Option Server := do
  let c ← s.heap self
  let request ← c.request
  let expression ← request.msg.expression
  let (pattern, patterns) ← seek (fun p : Pattern => p.expression = expression) fuel s.patterns
  let s := s.setPatterns patterns
  match pattern with
  | some i => do
    let (client, clients) ← seek (fun r => r = self) fuel (s.patternClients i)
    let clients := if client.isNone then clients.append self else clients
    some (s.setPatternClients i clients)
  | none => some (s.setPatterns (zlistAppend s.patterns (sPatternNew z expression self)))

/-- The body of the inner loop of `forward_to_subscribers`, at the client at position `j` of the
pattern at position `i`. -/
def forwardToClient (sendEvent : Ref → Event → Server → Option Server) (self : Ref) (i j : Nat)
    (s : Server) : Option Server := do
  let client ← (s.patternClients i).items[j]?
  if client ≠ self then sendEvent client .forward s else some s

/-- The body of its outer loop, at the pattern at position `i`. -/
def forwardPattern (z : Czmq) (sendEvent : Ref → Event → Server → Option Server) (fuel : Nat)
    (self : Ref) (i : Nat) (s : Server) : Option Server := do
  let pattern ← s.patterns.items[i]?
  let c ← s.heap self
  let request ← c.request
  let address ← request.msg.address
  if z.zrexMatches pattern.rex address then
    forEach (Server.patternClients i) (Server.setPatternClients i)
      (forwardToClient sendEvent self i) fuel s
  else some s

/-- `forward_to_subscribers`. The server's `headers` is the one field of the four that it does
not set. -/
def forwardToSubscribers (z : Czmq) (sendEvent : Ref → Event → Server → Option Server)
    (fuel : Nat) (self : Ref) (s : Server) : Option Server := do
  let c ← s.heap self
  let request ← c.request
  let s := { s with
    sender := some self
    address := some (self, request.addr)
    content := some (self, request.addr) }
  forEach Server.patterns Server.setPatterns (forwardPattern z sendEvent fuel self) fuel s

/-- What `server->sender` points to. -/
def derefSender (s : Server) : Option CStr := do
  let r ← s.sender
  let c ← s.heap r
  c.identifier

/-- The request at the end of a pointer into one. -/
def derefRequest (s : Server) (p : Option (Ref × Ref)) : Option ZccpMsg := do
  let (r, addr) ← p
  let c ← s.heap r
  let request ← c.request
  if request.addr = addr then some request.msg else none

/-- `get_content_to_publish`. `zhash_dup` and `zmsg_dup` of `NULL` are `NULL`; the two setters
dereference their argument as a format. -/
def getContentToPublish (z : Czmq) (self : Ref) (s : Server) : Option Server := do
  let headers := s.headers
  let content := (← derefRequest s s.content).content
  let c ← s.heap self
  let sender ← derefSender s
  let address ← (← derefRequest s s.address).address
  let reply := (((c.reply.setSender z sender).setAddress z address).setHeaders headers).setContent content
  some ((s.setClient self { c with reply := reply }).note (.relay self sender address content))

end Zccp.Broker
