import Zccp.Msg.Decode
import Zccp.Client.State

/-!
# `Zccp/Client/Execute.lean` — the client actor

The callbacks of the actor, for its two sockets and for its timers, and the state machine behind
them. As in the broker's (`Zccp/Broker/Execute.lean`), the generated `switch` is a table of action
lists and every action is wrapped in `if (!self->exception)`.

`engine_set_wakeup_event`, which would arm a timer, is not here: no action of this client calls it.

The table is written out state by state and event by event, defaults included, so that it can be laid
beside the `switch`. Two of its rows are for events that nothing raises (`expired`, `close connection`)
and are here because they are there; what follows from that is for `Zccp/Client/Survival.lean` to say.
-/

set_option autoImplicit false

namespace Zccp.Client

/-! ## The application half: `zccp_client.c` -/

/-- `client_method`: the arguments are put where the state machine will find them. -/
def clientMethod (z : Czmq) (self : SClient) : Method → Event × SClient
  | .connect endpoint timeout =>
    (.connect, { self with endpoint := some endpoint, connectTimeout := timeout })
  | .subscribe expression =>
    (.subscribe, { self with msgout := self.msgout.setExpression z expression })
  | .publish address content =>
    (.publish, { self with
      msgout := (self.msgout.setAddress z address).setContent (some [content.bytes]) })
  | _ => (.null, self)

def connectToServerEndpoint (z : Czmq) (self : SClient) : Except Fault SClient :=
  match self.endpoint with
  | none => .error .wild
  | some endpoint =>
    if z.zsockConnect endpoint then .ok self else .ok { self with exception := .error }

def engineSetTimeout (timeout : Int) (self : SClient) : SClient := { self with timeout := timeout }

def useConnectTimeout (self : SClient) : SClient := engineSetTimeout self.connectTimeout self

def usePresenceTimeout (self : SClient) : SClient := engineSetTimeout self.presenceTimeout self

def signalSuccess (self : SClient) : SClient := self.note (.reply (.success 0))

def signalServerNotPresent (self : SClient) : SClient :=
  self.note (.reply (.failure (-1) (.ofBytes "Server is not reachable".toUTF8.toList)))

/-- `deliver_message_to_application`: the first frame of the content as a string, if there is one;
`zmsg_popstr` takes it off. -/
def deliverMessageToApplication (self : SClient) : Except Fault SClient :=
  match self.msgin with
  | none => .error .wild
  | some msgin =>
    match msgin.content with
    | none => .error .wild
    | some frames =>
      let content := frames.head?.map CStr.ofBytes
      .ok (({ self with msgin := some { msgin with content := some frames.tail } }).note
        (.reply (.message msgin.sender msgin.address content)))

/-! ## The table -/

/-- One step of an action list, the `next` state of a transition being the last of them. -/
inductive Action
  | connectToServerEndpoint
  | useConnectTimeout
  | usePresenceTimeout
  | signalSuccess
  | signalServerNotPresent
  | deliverMessageToApplication
  | send (id : MsgId)
  | terminate
  | become (state : State)
  /-- `assert (false)` in a state that handles no other event. -/
  | unhandled
deriving DecidableEq, Repr

/-- What `expired` and `INVALID` do in a state that inherits `defaults`. The generator copies it into each
of these states, so it is one list here. -/
def reconnect : List Action := [.useConnectTimeout, .send .hello, .become .reconnecting]

/-- The `switch (self->state)` of `s_client_execute`. An empty list is an event that is silently
discarded. -/
def clientActions : State → Event → List Action
  | .start, .connect =>
    [.connectToServerEndpoint, .useConnectTimeout, .send .hello, .become .connecting]
  | .start, _ => [.unhandled]
  | .connecting, .helloOk => [.signalSuccess, .usePresenceTimeout, .become .connected]
  | .connecting, .expired => [.signalServerNotPresent, .terminate]
  | .connected, .subscribe => [.send .subscribe, .become .subscribing]
  | .connected, .publish => [.send .publish]
  | .connected, .direct => [.send .direct]
  | .connected, .deliver => [.deliverMessageToApplication]
  | .connected, .ping => [.send .pingOk]
  | .connected, .closeConnection => [.send .goodbye, .become .disconnecting]
  | .connected, .error => [.terminate]
  | .connected, .expired => reconnect
  | .subscribing, .subscribeOk => [.signalSuccess, .become .connected]
  | .subscribing, .expired => reconnect
  | .disconnecting, .goodbyeOk => [.terminate]
  | .disconnecting, .expired => [.terminate]
  | .defaults, .expired => reconnect
  | .reconnecting, .helloOk => [.become .connected]
  | .reconnecting, .expired => reconnect
  | _, .invalid => reconnect
  | _, _ => []

/-! ## The engine -/

/-- `send <id>`: `zccp_msg_set_id`, `zccp_msg_send`, and a fresh message. Whatever commands have put into
`msgout` before goes with it, as far as the type of the message has a field for it. -/
def sendMsgout (id : MsgId) (self : SClient) : Except Fault SClient :=
  let msg := self.msgout.setId id
  match zccpMsgEncode msg with
  | none => .error .wild
  | some frames => .ok { (self.note (.send msg frames)) with msgout := zccpMsgNew .unset }

def perform (z : Czmq) (self : SClient) : Action → Except Fault SClient
  | .connectToServerEndpoint => Client.connectToServerEndpoint z self
  | .useConnectTimeout => .ok (Client.useConnectTimeout self)
  | .usePresenceTimeout => .ok (Client.usePresenceTimeout self)
  | .signalSuccess => .ok (Client.signalSuccess self)
  | .signalServerNotPresent => .ok (Client.signalServerNotPresent self)
  | .deliverMessageToApplication => Client.deliverMessageToApplication self
  | .send id => sendMsgout id self
  | .terminate => .ok { self with terminated := true }
  | .become state => .ok { self with state := state }
  | .unhandled => .error (.unhandled self.event self.state)

/-- An action is skipped once an exception is set. Only `connect_to_server_endpoint` sets one, so it is
always the whole rest of a list that is skipped. -/
def runAction (z : Czmq) (self : SClient) (a : Action) : Except Fault SClient :=
  if self.exception = .null then perform z self a else .ok self

/-- One pass of the loop body. -/
def sClientIterate (z : Czmq) (self : SClient) : Except Fault SClient := do
  let self := { self with event := self.nextEvent, nextEvent := .null, exception := .null }
  let self ← (clientActions self.state self.event).foldlM (runAction z) self
  -- If we had an exception event, interrupt normal programming
  if self.exception = .null then pure self
  else pure { self with nextEvent := self.exception }

/-- `while (!self->terminated && self->next_event != NULL_event)` -/
def executeLoop (z : Czmq) : Nat → SClient → Except Fault SClient
  | 0, self => if self.terminated ∨ self.nextEvent = .null then .ok self else .error .endless
  | bound + 1, self =>
    if self.terminated ∨ self.nextEvent = .null then .ok self
    else do
      let self ← sClientIterate z self
      executeLoop z bound self

/-- Cancel wakeup timer, if any was pending: `zloop_timer_end`. -/
def cancelWakeup (self : SClient) : SClient := { self with
  timers :=
    if self.wakeupTimer = 0 then self.timers
    else self.timers.filter fun timer => timer.timerId ≠ self.wakeupTimer
  wakeupTimer := 0 }

/-- `s_client_execute`. An event makes for one pass, and an exception for one more; an exception in that
would make for a third, but no list for `error` has an action that sets one. So two is no bound that
the source does not have. -/
def sClientExecute (z : Czmq) (event : Event) (self : SClient) : Except Fault SClient :=
  executeLoop z 2 (cancelWakeup { self with nextEvent := event })

/-- `s_protocol_event`; `none` is its `default`, which halts the client. It has a case for every name that
is both a message and an event of the model, also where the event is meant for commands: a SUBSCRIBE, a
PUBLISH or a DIRECT from the server raises what the application's would. -/
def sProtocolEvent (msgin : ZccpMsg) : Option Event :=
  match msgin.id with
  | .helloOk => some .helloOk
  | .subscribe => some .subscribe
  | .subscribeOk => some .subscribeOk
  | .publish => some .publish
  | .direct => some .direct
  | .deliver => some .deliver
  | .goodbyeOk => some .goodbyeOk
  | .ping => some .ping
  | .invalid => some .invalid
  | _ => none

/-! ## The callbacks -/

/-- The return code of the callbacks. -/
def returnCode (self : SClient) : SClient × Int := (self, if self.terminated then -1 else 0)

/-- `s_client_handle_pipe`, less the check for an interrupted read. -/
def sClientHandlePipe (z : Czmq) (method : Method) (self : SClient) :
    Except Fault (SClient × Int) :=
  let self := self.note (.command method)
  match method with
  | .verbose => .ok (returnCode { self with verbose := true })
  | .term => .ok (returnCode { self with terminated := true })
  | _ => do
    let (event, self) := clientMethod z self method
    let self ← sClientExecute z event self
    .ok (returnCode self)

/-- `s_client_handle_protocol`. The socket is a `DEALER`: the frames are the message. -/
def sClientHandleProtocol (z : Czmq) (frames : List Frame) (self : SClient) :
    Except Fault (SClient × Int) :=
  match zccpMsgDecode frames with
  | .error _ => .ok (self, -1)
  | .ok msgin => do
    let self := { self with msgin := some msgin }
    let self ←
      match sProtocolEvent msgin with
      | none => sClientExecute z .null { self with terminated := true }
      | some event => sClientExecute z event self
    .ok (returnCode self)

def sClientHandleTimeout (z : Czmq) (self : SClient) : Except Fault (SClient × Int) := do
  let self ← sClientExecute z .expired self
  .ok (returnCode self)

def sClientHandleWakeup (z : Czmq) (self : SClient) : Except Fault (SClient × Int) := do
  let self ← sClientExecute z self.wakeupEvent self
  .ok (self, 0)

end Zccp.Client
