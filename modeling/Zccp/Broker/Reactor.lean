import Zccp.Msg.Decode
import Zccp.Broker.Execute

/-!
# `Zccp/Broker/Reactor.lean` — the callbacks of the reactor, and runs

What the reactor calls: `s_server_client_message` when something can be read from the router
socket, `s_client_handle_timeout` when a client's timer fires. A run of the broker is a list of
`Input`s handled one after the other from a new server.

Both callbacks are given `Server.fuel` for their loops and two levels of `s_client_execute`;
`handle_spec` (`Zccp/Broker/Step.lean`) says that this is always enough.
-/

set_option autoImplicit false

namespace Zccp.Broker

open Lib CursorList

/-- `zccp_msg_recv` on a `ROUTER` socket: the first frame is the routing id of the peer, and a
message without a further frame is dropped there, before it is decoded. -/
def zccpMsgRecv : List Frame → Option ZccpMsg
  | [] => none
  | routingId :: frames =>
    if frames.isEmpty then none
    else
      match zccpMsgDecode frames with
      | .error _ => none
      | .ok msg => some { msg with routingId := some routingId }

/-- `s_client_new`. `client_initialize` does nothing. -/
def sClientNew (routingId : Frame) (s : Server) : Ref × Server :=
  let self : SClient :=
    { hashkey := zframeStrhex routingId
      routingId := routingId
      mailbox := .empty
      state := .start
      expiryTimer := 0
      wakeupTimer := 0
      request := none
      reply := freshReply routingId
      identifier := none
      event := .null
      nextEvent := .null
      exception := .null }
  (s.brk, { s.setClient s.brk self with brk := s.brk + 1 })

/-- `zhash_lookup`, and `s_client_new` and `zhash_insert` if there is no such client yet. -/
def lookupOrNew (routingId : Frame) (s : Server) : Ref × Server :=
  let hashkey := zframeStrhex routingId
  match s.clients hashkey with
  | some r => (r, s)
  | none =>
    let (r, s) := sClientNew routingId s
    (r, { s with clients := Function.update s.clients hashkey (some r) })

/-- Any input from a client counts as activity: its expiry timer starts again. -/
def resetExpiryTimer (client : Ref) (s : Server) : Option Server := do
  let c ← s.heap client
  let s := endTimer c.expiryTimer s
  let (id, s) := zloopTimer client s
  some (s.setClient client { c with expiryTimer := id })

/-- Queue a request. The message was allocated when it was received. -/
def queueRequest (client : Ref) (msg : ZccpMsg) (s : Server) : Option Server := do
  let c ← s.heap client
  some { s.setClient client { c with mailbox := c.mailbox.append { addr := s.brk, msg } } with
    brk := s.brk + 1 }

/-- `s_server_client_message`, with its return code. -/
def sServerClientMessage (z : Czmq) (fuel depth : Nat) (message : List Frame) (s : Server) :
    Option (Server × Int) :=
  match zccpMsgRecv message with
  | none => some (s, -1)
  | some msg => do
    let routingId ← msg.routingId
    let (client, s) := lookupOrNew routingId s
    let s ← resetExpiryTimer client s
    let s ← queueRequest client msg s
    let (event, s) ← sClientFilterMailbox fuel client s
    if event = .null then some (s, 0)
    else do
      let s ← sClientExecute z fuel depth client event s
      some (s, 0)

def sClientHandleTimeout (z : Czmq) (fuel depth : Nat) (argument : Ref) (s : Server) :
    Option (Server × Int) := do
  let s ← sClientExecute z fuel depth argument .expired s
  some (s, 0)

/-- The reactor fires a timer: it is armed once, so it goes; its callback gets its argument. -/
def zloopFire (z : Czmq) (fuel depth : Nat) (id : Nat) (s : Server) : Option (Server × Int) :=
  match s.timers.find? (·.id = id) with
  | none => some (s, 0)
  | some timer => sClientHandleTimeout z fuel depth timer.argument (zloopTimerEnd id s)

/-! ## Runs -/

/-- Something the reactor reacts to: a message from a peer, less the routing id that the socket
puts in front, or the expiry timer of the session with a routing id. -/
inductive Input
  | message (routingId : Frame) (frames : List Frame)
  | expiry (routingId : Frame)
deriving DecidableEq, Repr

/-- The peer an input is about. -/
def Input.peer : Input → Frame
  | message routingId _ => routingId
  | expiry routingId => routingId

/-- A message that `zccp_msg_decode` accepts, or an expiry. -/
def Input.Decodable : Input → Prop
  | message _ frames => ∃ m, zccpMsgDecode frames = .ok m
  | expiry _ => True

/-- One input, with the return code of the callback. An expiry of a peer without a session is
nothing that can happen, and does nothing. -/
def handle (z : Czmq) (input : Input) (s : Server) : Option (Server × Int) :=
  match input with
  | .message routingId frames => sServerClientMessage z s.fuel 2 (routingId :: frames) s
  | .expiry routingId =>
    match s.clients (zframeStrhex routingId) with
    | none => some (s, 0)
    | some r => do
      let c ← s.heap r
      zloopFire z s.fuel 2 c.expiryTimer s

/-- One step of the reactor, which goes on as long as its callbacks return 0. -/
def step (z : Czmq) (s : Server) (input : Input) : Option Server := do
  let (s, rc) ← handle z input s
  if rc = 0 then some s else none

/-- A run of the broker. -/
def run (z : Czmq) (verbose : Bool) (inputs : List Input) : Option Server :=
  inputs.foldlM (step z) (.new verbose)

end Zccp.Broker
