import Zccp.Msg.Encode

/-!
# `Zccp/Client/State.lean` — the client actor's data

`client_t` and `s_client_t` of `zccp_client.c` and `zccp_client_engine.inc`, the state machine's
states and events, and what goes over the actor's pipe: the commands it takes and the replies it
gives.

Left out: the sockets and the reactor themselves, but for the timers that are armed in it; verbose
logging, of which only the switch is kept; `expiry_timer`, which nothing sets or reads. `timeout` is
kept although nothing reads it: `engine_set_timeout` only stores it.

A field that no code reads, or a timer that no code arms, is a finding as soon as something else counts
on it. So the timers of the reactor are in the model with the callbacks they are armed with, and that
none is ever armed is proved of the actor and not built into it (`Zccp/Client/Survival.lean`).
-/

set_option autoImplicit false

namespace Zccp.Client

/-- `state_t` -/
inductive State
  | start
  | connecting
  | connected
  | subscribing
  | disconnecting
  | defaults
  | reconnecting
deriving DecidableEq, Repr

/-- `event_t`; `null` is `NULL_event`. -/
inductive Event
  | null
  | connect
  | helloOk
  | expired
  | subscribe
  | publish
  | direct
  | deliver
  | ping
  | closeConnection
  | error
  | subscribeOk
  | goodbyeOk
  | invalid
deriving DecidableEq, Repr

/-- What can be taken from the pipe: a command with its arguments, `other` being any name the actor
does not know. The arguments are what `zsock_recv` with the command's picture delivers, so a command of
the wrong shape is not among them. -/
inductive Method
  | connect (endpoint : CStr) (timeout : Int)
  | subscribe (expression : CStr)
  | publish (address content : CStr)
  | verbose
  | term
  | other
deriving DecidableEq

/-- What is sent back on it. A `NULL` string is `none`. -/
inductive Reply
  | success (status : Int)
  | failure (status : Int) (reason : CStr)
  | message (sender address content : Option CStr)
deriving DecidableEq

/-- What an observer of the actor sees, in order: the commands it takes, what it sends and what it replies.
Nothing in the actor reads this back; it is there for statements about what an actor has done. -/
inductive Obs
  /-- A command taken from the pipe. -/
  | command (method : Method)
  /-- A reply sent on the pipe. -/
  | reply (reply : Reply)
  /-- `zccp_msg_send` of `msg` to the server, encoded as `frames`. -/
  | send (msg : ZccpMsg) (frames : List Frame)
deriving DecidableEq

/-- The callbacks of the engine that are made for a timer. -/
inductive TimerFn
  /-- `s_client_handle_timeout` -/
  | handleTimeout
  /-- `s_client_handle_wakeup` -/
  | handleWakeup
deriving DecidableEq, Repr

/-- A timer that is armed in the reactor, to fire once. -/
structure Timer where
  timerId : Nat
  delay : Int
  handler : TimerFn
deriving DecidableEq, Repr

/-- `client_t` and `s_client_t`. -/
structure SClient where
  /-- Last server endpoint we connected to. -/
  endpoint : Option CStr
  connectTimeout : Int
  presenceTimeout : Int
  /-- Message to send to server. -/
  msgout : ZccpMsg
  /-- Message received from server. -/
  msgin : Option ZccpMsg
  terminated : Bool
  /-- Inactivity timeout. -/
  timeout : Int
  state : State
  event : Event
  nextEvent : Event
  exception : Event
  /-- The timers of `loop`. -/
  timers : List Timer
  /-- The timer for alarms, 0 if there is none. -/
  wakeupTimer : Nat
  /-- Wake up with this event. -/
  wakeupEvent : Event
  verbose : Bool
  trace : List Obs
deriving DecidableEq

/-- How a step of the actor can go wrong. Each is the end of the process and not of the reactor alone, and
none is a value that the C program could go on with. -/
inductive Fault
  /-- `assert (false)` behind `unhandled event`. -/
  | unhandled (event : Event) (state : State)
  /-- A dereferenced `NULL`, or another assertion. -/
  | wild
  /-- The loop of the state machine is still going when the bound is used up. -/
  | endless
deriving DecidableEq, Repr

/-- What goes to the server, of some observations. -/
def framesIn (t : List Obs) : List (List Frame) := t.filterMap fun
  | .send _ frames => some frames
  | _ => none

namespace SClient

/-- `s_client_new`, with `client_initialize`. -/
def new : SClient where
  endpoint := none
  connectTimeout := 0
  presenceTimeout := 3000
  msgout := zccpMsgNew .unset
  msgin := none
  terminated := false
  timeout := 0
  state := .start
  event := .null
  nextEvent := .null
  exception := .null
  timers := []
  wakeupTimer := 0
  wakeupEvent := .null
  verbose := false
  trace := []

/-- Record an observation. -/
def note (o : Obs) (self : SClient) : SClient := { self with trace := self.trace ++ [o] }

end SClient

end Zccp.Client
