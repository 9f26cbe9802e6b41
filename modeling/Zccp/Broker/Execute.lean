import Zccp.Broker.Actions

/-!
# `Zccp/Broker/Execute.lean` — the state machine

`s_client_execute` of `zccp_server_engine.inc`. The generated `switch` is a table: what each
state does on each event is a list of actions, and every action is wrapped in the same
`if (!self->exception)`. `sClientActions` is that table, `runAction` the wrapper, and one pass
of the `while` loop is `sClientIterate`.

There are two bounds, for two different things. `depth` is how often `s_client_execute` may
still be entered from within itself; `fuel` bounds every loop. Either running out is `none`.
-/

set_option autoImplicit false

namespace Zccp.Broker

open Lib CursorList

/-! ## The table -/

/-- One step of an action list, the `next` state of a transition being the last of them. -/
inductive Action
  | registerNewClient
  | storeNewSubscription
  | forwardToSubscribers
  | getContentToPublish
  | send (id : MsgId)
  | terminate
  | become (state : State)
deriving DecidableEq, Repr

/-- The external state's events, which the other two states inherit. -/
def externalActions : Event → List Action
  | .goodbye => [.send .goodbyeOk, .terminate]
  | .expired => [.terminate]
  -- all other protocol messages are invalid
  | _ => [.send .invalid, .terminate]

/-- The `switch (self->state)` of `s_client_execute`. -/
def sClientActions : State → Event → List Action
  | .start, .hello => [.registerNewClient, .send .helloOk, .become .connected]
  | .start, e => externalActions e
  | .connected, .subscribe => [.storeNewSubscription, .send .subscribeOk]
  | .connected, .publish => [.forwardToSubscribers]
  | .connected, .direct => []
  | .connected, .forward => [.getContentToPublish, .send .deliver]
  | .connected, e => externalActions e
  | .external, e => externalActions e

def sProtocolEvent (request : ZccpMsg) : Event :=
  match request.id with
  | .hello => .hello
  | .subscribe => .subscribe
  | .publish => .publish
  | .direct => .direct
  | .goodbye => .goodbye
  | _ => .terminate

/-! ## The actions of the engine -/

/-- The reply a client starts with and gets back after each send. -/
def freshReply (routingId : Frame) : ZccpMsg := (zccpMsgNew .unset).setRoutingId routingId

/-- `send <id>`: `zccp_msg_set_id`, `zccp_msg_send`, and a fresh reply. The socket is a `ROUTER`,
so `zccp_msg_send` asserts that the reply has a routing id. -/
def sendReply (id : MsgId) (self : Ref) (s : Server) : Option Server := do
  let c ← s.heap self
  let msg := c.reply.setId id
  let routingId ← msg.routingId
  let frames ← zccpMsgEncode msg
  some ((s.note (.send routingId msg frames)).setClient self
    { c with reply := freshReply c.routingId })

/-- `self->next_event = terminate_event` -/
def terminateAction (self : Ref) (s : Server) : Option Server := do
  let c ← s.heap self
  some (s.setClient self { c with nextEvent := .terminate })

/-- `self->state = state` -/
def becomeAction (state : State) (self : Ref) (s : Server) : Option Server := do
  let c ← s.heap self
  some (s.setClient self { c with state := state })

def perform (z : Czmq) (sendEvent : Ref → Event → Server → Option Server) (fuel : Nat)
    (self : Ref) : Action → Server → Option Server
  | .registerNewClient => Broker.registerNewClient self
  | .storeNewSubscription => Broker.storeNewSubscription z fuel self
  | .forwardToSubscribers => Broker.forwardToSubscribers z sendEvent fuel self
  | .getContentToPublish => Broker.getContentToPublish z self
  | .send id => sendReply id self
  | .terminate => terminateAction self
  | .become state => becomeAction state self

/-- An action is skipped once an exception is set. -/
def runAction (z : Czmq) (sendEvent : Ref → Event → Server → Option Server) (fuel : Nat)
    (self : Ref) (s : Server) (a : Action) : Option Server := do
  let c ← s.heap self
  if c.exception = .null then perform z sendEvent fuel self a s else some s

/-! ## The end of a client -/

/-- `s_client_destroy`. The mailbox and the messages go with the client. -/
def sClientDestroy (fuel : Nat) (self : Ref) (s : Server) : Option Server := do
  let c ← s.heap self
  let s := endTimer c.wakeupTimer s
  let s := endTimer c.expiryTimer s
  let s ← clientTerminate fuel self s
  some ({ s with heap := Function.update s.heap self none }.note (.destroy self))

/-- `zhash_delete` on the hash of clients, whose free function is `s_client_free`. -/
def zhashDelete (fuel : Nat) (hashkey : CStr) (s : Server) : Option Server :=
  match s.clients hashkey with
  | none => some s
  | some r => sClientDestroy fuel r { s with clients := Function.update s.clients hashkey none }

/-! ## The mailbox -/

/-- Whether a state processes events off the mailbox; all three do. -/
def eventIsValid : State → Bool
  | .start | .connected | .external => true

/-- `s_client_filter_mailbox`: the first message the state accepts becomes the current request
and its event is returned; `null` when there is none. -/
def sClientFilterMailbox (fuel : Nat) (self : Ref) (s : Server) : Option (Event × Server) := do
  let c ← s.heap self
  let (found, mailbox) ← seek (fun _ => eventIsValid c.state) fuel c.mailbox
  match found with
  | none => some (.null, s.setClient self { c with mailbox := mailbox })
  | some i => do
    let request ← mailbox.items[i]?
    let mailbox := mailbox.remove fun q => q.addr = request.addr
    some (sProtocolEvent request.msg,
      (s.setClient self { c with mailbox := mailbox, request := some request }).note
        (.take self request.msg))

/-! ## The loop -/

/-- One pass of the loop body. The result tells whether the loop is left by the `break` behind
`zhash_delete`, where `self` no longer exists. -/
def sClientIterate (z : Czmq) (sendEvent : Ref → Event → Server → Option Server) (fuel : Nat)
    (self : Ref) (s : Server) : Option (Server × Bool) := do
  let c ← s.heap self
  let s := s.setClient self
    { c with event := c.nextEvent, nextEvent := .null, exception := .null }
  let s := s.note (.iterate self c.state c.nextEvent)
  let s := s.debug [.stateName c.state.code, .eventName c.nextEvent.code]
  let s ← (sClientActions c.state c.nextEvent).foldlM (runAction z sendEvent fuel self) s
  -- If we had an exception event, interrupt normal programming
  let c ← s.heap self
  let s :=
    if c.exception = .null then s
    else (s.debug [.eventName c.exception.code]).setClient self { c with nextEvent := c.exception }
  let c ← s.heap self
  if c.nextEvent = .terminate then do
    let s ← zhashDelete fuel c.hashkey s
    some (s, true)
  else do
    let s := s.debug [.stateName c.state.code]
    if c.nextEvent = .null then do
      -- Get next valid message from mailbox, if any
      let (event, s) ← sClientFilterMailbox fuel self s
      let c ← s.heap self
      some (s.setClient self { c with nextEvent := event }, false)
    else some (s, false)

/-- `while (self->next_event != NULL_event)` -/
def executeLoop (iterate : Server → Option (Server × Bool)) (self : Ref) :
    Nat → Server → Option Server
  | 0, s => do
    let c ← s.heap self
    if c.nextEvent = .null then some s else none
  | fuel + 1, s => do
    let c ← s.heap self
    if c.nextEvent = .null then some s
    else do
      let (s, left) ← iterate s
      if left then some s else executeLoop iterate self fuel s

/-- `s_client_execute`. `engine_send_event` is the same function one level further down. -/
def sClientExecute (z : Czmq) (fuel : Nat) : Nat → Ref → Event → Server → Option Server
  | 0, _, _, _ => none
  | depth + 1, self, event, s => do
    let s := s.note (.enter self event s.patterns)
    let c ← s.heap self
    let s := s.setClient self { c with nextEvent := event }
    -- Cancel wakeup timer, if any was pending
    let s := (endTimer c.wakeupTimer s).setClient self
      { c with nextEvent := event, wakeupTimer := 0 }
    let s ← executeLoop (sClientIterate z (sClientExecute z fuel depth) fuel self) self fuel s
    some (s.note (.leave self s.patterns))

end Zccp.Broker
