import Zccp.Client.Execute
import Zccp.Msg.Format

/-!
# `Zccp/Client/Spec.lean` — what one callback does

The specifications of the callbacks for the actor's two sockets. `reaction` is what an event comes
to, `event_turn` that the state machine does just that; a command (`command_turn`) and a message
(`message_turn`) are each an event of a client that has taken something in, or they abort the
process (`Aborts`, `message_start`).

That is every detail. Seen from the broker, a command moves the client as `accepted` says and sends
what `commanded` says (`command_spec`), a message moves it as `received` says, and `answered` is
sent in return (`protocol_spec`). Whatever is said about the actor in a larger system is said with
these and does not look into the state machine again. `Running` is the invariant that goes with them.
-/

set_option autoImplicit false

namespace Zccp.Client

variable {z : Czmq} {self : SClient}

/-! ## The loop -/

/-- The client as the first action of a pass finds it. -/
def SClient.entered (self : SClient) (event : Event) : SClient :=
  { cancelWakeup self with event := event, nextEvent := .null, exception := .null }

/-- **One pass is all**, unless an action raises an exception. What the actions of the pass do is a
hypothesis, so that each event is verified by running its own list. -/
theorem sClientExecute_pass {self₁ : SClient} {event : Event} (ht : self.terminated = false)
    (hev : event ≠ .null)
    (hacts : (clientActions self.state event).foldlM (runAction z) (self.entered event) =
      .ok self₁)
    (hex : self₁.exception = .null) (hnx : self₁.nextEvent = .null) :
    sClientExecute z event self = .ok self₁ := by
  have hpass : sClientIterate z (cancelWakeup { self with nextEvent := event }) = .ok self₁ := by
    show (clientActions self.state event).foldlM (runAction z) (self.entered event) >>= _ = _
    rw [hacts]
    show (if self₁.exception = .null then _ else _) = _
    rw [if_pos hex]
    rfl
  have hloop : executeLoop z 1 self₁ = .ok self₁ := by
    rw [executeLoop, if_pos (.inr hnx)]
  rw [sClientExecute, executeLoop, if_neg (by simp [cancelWakeup, ht, hev]), hpass]
  exact hloop

/-- An event that comes before there is a connection. -/
theorem sClientExecute_unhandled {event : Event} (ht : self.terminated = false)
    (hev : event ≠ .null) (hs : self.state = .start)
    (hacts : clientActions .start event = [.unhandled]) :
    sClientExecute z event self = .error (.unhandled event .start) := by
  have hpass : sClientIterate z (cancelWakeup { self with nextEvent := event }) =
      .error (.unhandled event .start) := by
    simp only [sClientIterate, cancelWakeup, hs, hacts]
    rfl
  rw [sClientExecute, executeLoop, if_neg (by simp [cancelWakeup, ht, hev]), hpass]
  rfl

/-- There is no connection to be had: the exception comes before there is one, too. -/
theorem sClientExecute_refused {endpoint : CStr} (ht : self.terminated = false)
    (hs : self.state = .start) (hendpoint : self.endpoint = some endpoint)
    (hconnect : z.zsockConnect endpoint = false) :
    sClientExecute z .connect self = .error (.unhandled .error .start) := by
  have hpass : sClientIterate z (cancelWakeup { self with nextEvent := .connect }) =
      .ok { cancelWakeup self with event := .connect, nextEvent := .error, exception := .error } := by
    simp [sClientIterate, cancelWakeup, hs, clientActions, runAction, perform,
      connectToServerEndpoint, hendpoint, hconnect]
    rfl
  have hloop : executeLoop z 1
      { cancelWakeup self with event := .connect, nextEvent := .error, exception := .error } =
      .error (.unhandled .error .start) := by
    rw [executeLoop, if_neg (by simp [cancelWakeup, ht])]
    simp only [sClientIterate, cancelWakeup, hs]
    rfl
  rw [sClientExecute, executeLoop, if_neg (by simp [cancelWakeup, ht]), hpass]
  exact hloop

/-- No event, no pass. -/
theorem sClientExecute_null :
    sClientExecute z .null self = .ok (cancelWakeup { self with nextEvent := .null }) := by
  rw [sClientExecute, executeLoop, if_pos (.inr rfl)]

/-- What `send` puts on the wire. -/
def SClient.sent (id : MsgId) (self : SClient) : Obs :=
  .send (self.msgout.setId id) (wire (self.msgout.setId id))

/-- The client when a message has been sent. -/
def SClient.sends (id : MsgId) (self : SClient) : SClient :=
  { self.note (self.sent id) with msgout := zccpMsgNew .unset }

/-- What can be sent has an id, so sending never fails. -/
theorem perform_send {id : MsgId} (hid : id ≠ .unset) :
    perform z self (.send id) = .ok (self.sends id) := by
  show sendMsgout id self = _
  simp only [sendMsgout, zccpMsgEncode_eq (show (self.msgout.setId id).id ≠ .unset from hid)]
  rfl

theorem foldlM_runAction_cons {c₁ c₂ : SClient} {a : Action} {acts : List Action}
    (hex : c₁.exception = .null) (ha : perform z c₁ a = .ok c₂) :
    (a :: acts).foldlM (runAction z) c₁ = acts.foldlM (runAction z) c₂ := by
  rw [List.foldlM_cons, runAction, if_pos hex, ha]
  rfl

/-! ## One event -/

/-- What is handed to the application for a DELIVER. -/
def delivery (m : ZccpMsg) : Reply :=
  .message m.sender m.address ((m.content.getD []).head?.map CStr.ofBytes)

/-- What an event comes to: the state it leads to, what is noted, and what it leaves in `msgout`. The rest
of a client does not depend on the event, or is of no account for what it does later. -/
structure Reaction where
  state : State
  notes : List Obs
  msgout : ZccpMsg

/-- A message is sent. -/
def SClient.sending (self : SClient) (id : MsgId) (state : State) : Reaction where
  state := state
  notes := [self.sent id]
  msgout := zccpMsgNew .unset

/-- No message is sent. -/
def SClient.keeping (self : SClient) (state : State) (notes : List Obs) : Reaction where
  state := state
  notes := notes
  msgout := self.msgout

/-- **What the state machine does** once there is a connection, for every event that a command or a
message raises. It is the table without its dead rows, in terms of what can be seen of it. -/
def reaction (self : SClient) (event : Event) : Reaction :=
  match self.state, event with
  | .connecting, .helloOk => self.keeping .connected [.reply (.success 0)]
  | .reconnecting, .helloOk => self.keeping .connected []
  | .subscribing, .subscribeOk => self.keeping .connected [.reply (.success 0)]
  | .connected, .subscribe => self.sending .subscribe .subscribing
  | .connected, .publish => self.sending .publish .connected
  | .connected, .direct => self.sending .direct .connected
  | .connected, .ping => self.sending .pingOk .connected
  | .connected, .deliver =>
    self.keeping .connected (self.msgin.map fun m => .reply (delivery m)).toList
  | _, .invalid => self.sending .hello .reconnecting
  | state, _ => self.keeping state []

/-- What a callback has made of the client `c`, which goes on: it has gone through the reaction `r`. -/
structure Turn (c c' : SClient) (r : Reaction) : Prop where
  running : c'.terminated = false
  state : c'.state = r.state
  trace : c'.trace = c.trace ++ r.notes
  msgout : c'.msgout = r.msgout

/-- The events of commands and messages, but for the CONNECT that is taken at the start. Nothing
raises `expired`, `close connection` or `error` in a client that has a connection. -/
def Raised (event : Event) : Prop :=
  event ≠ .null ∧ event ≠ .expired ∧ event ≠ .closeConnection ∧ event ≠ .error

/-- The states of a client that has been told to connect. Two of the seven states are never
entered: `disconnecting` takes an event that nothing raises, and `defaults` is only inherited
from. -/
def Started (state : State) : Prop :=
  state ≠ .start ∧ state ≠ .disconnecting ∧ state ≠ .defaults

section Turn

variable {event : Event} {state : State}

/-- An event that is discarded. -/
theorem discard_turn (ht : self.terminated = false) (hev : event ≠ .null)
    (hacts : clientActions self.state event = []) :
    ∃ c', sClientExecute z event self = .ok c' ∧ Turn self c' (self.keeping self.state []) := by
  refine ⟨self.entered event, ?_, ht, rfl, (List.append_nil _).symm, rfl⟩
  apply sClientExecute_pass ht hev _ rfl rfl
  rw [hacts]
  rfl

/-- An event for which a message is sent, whereupon the state machine may move on. -/
theorem send_turn {id : MsgId} (ht : self.terminated = false) (hev : event ≠ .null)
    (hid : id ≠ .unset)
    (hacts : clientActions self.state event = [.send id] ∧ state = self.state ∨
      clientActions self.state event = [.send id, .become state]) :
    ∃ c', sClientExecute z event self = .ok c' ∧ Turn self c' (self.sending id state) := by
  refine ⟨{ (self.entered event).sends id with state := state }, ?_, ht, rfl, rfl, rfl⟩
  apply sClientExecute_pass ht hev _ rfl rfl
  rcases hacts with ⟨hacts, rfl⟩ | hacts
  · rw [hacts, foldlM_runAction_cons rfl (perform_send hid)]
    rfl
  · rw [hacts, foldlM_runAction_cons rfl (perform_send hid), foldlM_runAction_cons rfl rfl]
    rfl

/-- An event at which the client asks for a session. -/
theorem hello_turn (ht : self.terminated = false) (hev : event ≠ .null)
    (hacts : (clientActions self.state event).foldlM (runAction z) (self.entered event) =
      [.useConnectTimeout, .send .hello, .become state].foldlM (runAction z) (self.entered event)) :
    ∃ c', sClientExecute z event self = .ok c' ∧ Turn self c' (self.sending .hello state) := by
  refine ⟨{ (useConnectTimeout (self.entered event)).sends .hello with state := state },
    ?_, ht, rfl, rfl, rfl⟩
  apply sClientExecute_pass ht hev _ rfl rfl
  rw [hacts, foldlM_runAction_cons rfl rfl, foldlM_runAction_cons rfl (perform_send (by decide)),
    foldlM_runAction_cons rfl rfl]
  rfl

/-- An event at which the client learns that it has what it asked for. -/
theorem connected_turn (ht : self.terminated = false) (hev : event ≠ .null) :
    (clientActions self.state event = [.signalSuccess, .usePresenceTimeout, .become .connected] ∨
      clientActions self.state event = [.signalSuccess, .become .connected] →
      ∃ c', sClientExecute z event self = .ok c' ∧
        Turn self c' (self.keeping .connected [.reply (.success 0)])) ∧
    (clientActions self.state event = [.become .connected] →
      ∃ c', sClientExecute z event self = .ok c' ∧ Turn self c' (self.keeping .connected [])) := by
  refine ⟨?_, fun hacts => ?_⟩
  · rintro (hacts | hacts)
    · refine ⟨{ usePresenceTimeout (signalSuccess (self.entered event)) with state := .connected },
        ?_, ht, rfl, rfl, rfl⟩
      apply sClientExecute_pass ht hev _ rfl rfl
      rw [hacts, foldlM_runAction_cons rfl rfl, foldlM_runAction_cons rfl rfl,
        foldlM_runAction_cons rfl rfl]
      rfl
    · refine ⟨{ signalSuccess (self.entered event) with state := .connected }, ?_, ht, rfl, rfl, rfl⟩
      apply sClientExecute_pass ht hev _ rfl rfl
      rw [hacts, foldlM_runAction_cons rfl rfl, foldlM_runAction_cons rfl rfl]
      rfl
  · refine ⟨{ self.entered event with state := .connected },
      ?_, ht, rfl, (List.append_nil _).symm, rfl⟩
    apply sClientExecute_pass ht hev _ rfl rfl
    rw [hacts, foldlM_runAction_cons rfl rfl]
    rfl

/-- A publication for the application. -/
theorem deliver_turn {msg : ZccpMsg} {frames : List Frame} (ht : self.terminated = false)
    (hev : event ≠ .null) (hmsg : self.msgin = some msg) (hframes : msg.content = some frames)
    (hacts : clientActions self.state event = [.deliverMessageToApplication]) :
    ∃ c', sClientExecute z event self = .ok c' ∧
      Turn self c' (self.keeping self.state [.reply (delivery msg)]) := by
  let c₂ := { (self.entered event).note (.reply (delivery msg)) with
    msgin := some { msg with content := some frames.tail } }
  have hmsg' : (self.entered event).msgin = some msg := hmsg
  have hperform : perform z (self.entered event) .deliverMessageToApplication = .ok c₂ := by
    simp only [perform, deliverMessageToApplication, hmsg', hframes, c₂, delivery]
    rfl
  refine ⟨c₂, ?_, ht, rfl, rfl, rfl⟩
  apply sClientExecute_pass ht hev _ rfl rfl
  rw [hacts, foldlM_runAction_cons rfl hperform]
  rfl

/-- **One event** of a client that has a connection. -/
theorem event_turn (ht : self.terminated = false) (hs : Started self.state) (hev : Raised event)
    (hdeliver : event = .deliver → ∃ m frames, self.msgin = some m ∧ m.content = some frames) :
    ∃ c', sClientExecute z event self = .ok c' ∧ Turn self c' (reaction self event) := by
  obtain ⟨hnull, hexpired, hclose, herror⟩ := hev
  obtain ⟨hstart, hdisconnecting, hdefaults⟩ := hs
  unfold reaction
  split
  case h_1 hst => exact (connected_turn ht hnull).1 (.inl (by rw [hst]; rfl))
  case h_2 hst => exact (connected_turn ht hnull).2 (by rw [hst]; rfl)
  case h_3 hst => exact (connected_turn ht hnull).1 (.inr (by rw [hst]; rfl))
  case h_4 hst => exact send_turn ht hnull (by decide) (.inr (by rw [hst]; rfl))
  case h_5 hst => exact send_turn ht hnull (by decide) (.inl (by rw [hst]; exact ⟨rfl, rfl⟩))
  case h_6 hst => exact send_turn ht hnull (by decide) (.inl (by rw [hst]; exact ⟨rfl, rfl⟩))
  case h_7 hst => exact send_turn ht hnull (by decide) (.inl (by rw [hst]; exact ⟨rfl, rfl⟩))
  case h_8 hst =>
    obtain ⟨m, frames, hm, hframes⟩ := hdeliver rfl
    rw [hm]
    have hturn := deliver_turn (z := z) ht hnull hm hframes (by rw [hst]; rfl)
    rwa [hst] at hturn
  case h_9 =>
    refine hello_turn ht hnull ?_
    have hacts : clientActions self.state .invalid = reconnect := by
      cases hst : self.state <;> first | rfl | exact absurd hst hstart
    rw [hacts]
    rfl
  case h_10 ev _ _ h₁ h₂ h₃ h₄ h₅ h₆ h₇ h₈ h₉ =>
    -- nothing in the table for it
    refine discard_turn ht hnull ?_
    cases hst : self.state <;> cases ev <;> first | rfl | grind

/-- The message that an event draws from a client that has a connection. -/
def drawn : State → Event → Option MsgId
  | .connected, .subscribe => some .subscribe
  | .connected, .publish => some .publish
  | .connected, .direct => some .direct
  | .connected, .ping => some .pingOk
  | _, .invalid => some .hello
  | _, _ => none

theorem framesIn_reaction : framesIn (reaction self event).notes =
    ((drawn self.state event).map fun id => wire (self.msgout.setId id)).toList := by
  unfold reaction drawn
  cases self.state <;> cases event <;> try rfl
  -- a DELIVER draws a reply to the application only
  cases self.msgin <;> rfl

/-- The state machine goes from one such state to another. -/
theorem started_reaction (hs : Started self.state) : Started (reaction self event).state := by
  unfold reaction
  split <;> first | exact hs | exact ⟨nofun, nofun, nofun⟩

/-- A reaction either sends `msgout` and starts a fresh one or leaves it alone; there is no third way,
so what a command has put into it waits there until something is sent. -/
theorem reaction_msgout :
    (reaction self event).msgout = zccpMsgNew .unset ∨
      (reaction self event).msgout = self.msgout := by
  unfold reaction
  split <;> first | exact .inl rfl | exact .inr rfl

end Turn

/-! ## The invariant -/

/-- A client that is running, and whose next message has nothing in it but what commands put
there: no command sets an identifier or headers. The two states that are never entered are excluded
here, so that later cases are on the five that are. -/
structure Running (c : SClient) : Prop where
  running : c.terminated = false
  identifier : c.msgout.identifier = none
  headers : c.msgout.headers = none
  disconnecting : c.state ≠ .disconnecting
  defaults : c.state ≠ .defaults

theorem running_new : Running .new := by
  constructor <;> first | rfl | decide

theorem Running.started {c : SClient} (h : Running c) (hs : c.state ≠ .start) : Started c.state :=
  ⟨hs, h.disconnecting, h.defaults⟩

/-- What a callback has made of the client `c`, which goes on, as far as the other end can tell: the state
it is in and the messages it has sent. -/
structure After (c c' : SClient) (state : State) (msgs : List ZccpMsg) : Prop where
  running : Running c'
  state : c'.state = state
  trace : ∃ t, c'.trace = c.trace ++ t ∧ framesIn t = msgs.map wire

/-- A turn of the client `c₁`, which is `c` with the arguments of a command or with a message. -/
theorem Turn.keeps_running {c c₁ c' : SClient} {r : Reaction} (h : Turn c₁ c' r) (hc : Running c)
    (hidentifier : c₁.msgout.identifier = c.msgout.identifier)
    (hheaders : c₁.msgout.headers = c.msgout.headers)
    (hmsgout : r.msgout = zccpMsgNew .unset ∨ r.msgout = c₁.msgout)
    (hstate : r.state ≠ .disconnecting ∧ r.state ≠ .defaults) : Running c' := by
  refine ⟨h.running, ?_, ?_, h.state ▸ hstate.1, h.state ▸ hstate.2⟩ <;> rw [h.msgout] <;>
    rcases hmsgout with hm | hm <;> rw [hm]
  · rfl
  · rw [hidentifier, hc.identifier]
  · rfl
  · rw [hheaders, hc.headers]

theorem Turn.after {c c₁ c' : SClient} {r : Reaction} {t : List Obs} {msgs : List ZccpMsg}
    (h : Turn c₁ c' r) (hrunning : Running c') (htrace : c₁.trace = c.trace ++ t) (ht : framesIn t = [])
    (hnotes : framesIn r.notes = msgs.map wire) : After c c' r.state msgs where
  running := hrunning
  state := h.state
  trace := by
    refine ⟨t ++ r.notes, by rw [h.trace, htrace, List.append_assoc], ?_⟩
    rw [framesIn, List.filterMap_append, ← framesIn, ← framesIn, ht, hnotes, List.nil_append]

/-! ## Commands -/

/-- The commands at which the process is aborted: before it is connected, a client takes nothing
but a CONNECT, and that only to an endpoint it can connect to. -/
def Aborts (z : Czmq) : State → Method → Prop
  | .start, .connect endpoint _ => z.zsockConnect endpoint = false
  | .start, .subscribe _ => True
  | .start, .publish _ _ => True
  | _, _ => False

/-- The state a command leads to, where that is not the one it was in. -/
def accepted : State → Method → State
  | .start, .connect _ _ => .connecting
  | .connected, .subscribe _ => .subscribing
  | state, _ => state

/-- The messages sent for a command. -/
def commanded (z : Czmq) (self : SClient) (method : Method) : List ZccpMsg :=
  match self.state, method with
  | .start, .connect _ _ => [self.msgout.setId .hello]
  | .connected, .subscribe expression => [(self.msgout.setExpression z expression).setId .subscribe]
  | .connected, .publish address content =>
    [((self.msgout.setAddress z address).setContent (some [content.bytes])).setId .publish]
  | _, _ => []

/-- The client that a command has been taken by, with the arguments where the state machine finds
them. -/
def SClient.taking (z : Czmq) (self : SClient) (method : Method) : SClient :=
  (clientMethod z (self.note (.command method)) method).2

/-- The event a command raises. -/
def Method.event : Method → Event
  | .connect _ _ => .connect
  | .subscribe _ => .subscribe
  | .publish _ _ => .publish
  | _ => .null

@[simp] theorem SClient.taking_state (c : SClient) (m : Method) : (c.taking z m).state = c.state := by
  cases m <;> rfl

@[simp] theorem SClient.taking_terminated (c : SClient) (m : Method) :
    (c.taking z m).terminated = c.terminated := by
  cases m <;> rfl

@[simp] theorem SClient.taking_trace (c : SClient) (m : Method) :
    (c.taking z m).trace = c.trace ++ [.command m] := by
  cases m <;> rfl

/-- **What a command comes to**, if the process survives it. -/
def commanding (z : Czmq) (self : SClient) (method : Method) : Reaction :=
  match self.state, method with
  | .start, .connect _ _ => (self.taking z method).sending .hello .connecting
  | .start, _ => (self.taking z method).keeping .start []
  | _, _ => reaction (self.taking z method) method.event

theorem commanding_of_started {c : SClient} {m : Method} (hs : c.state ≠ .start) :
    commanding z c m = reaction (c.taking z m) m.event := by
  unfold commanding
  cases hst : c.state <;> first | exact absurd hst hs | rfl

theorem commanding_quiet {c : SClient} {m : Method} (hm : m.event = .null) :
    commanding z c m = (c.taking z m).keeping c.state [] := by
  unfold commanding reaction
  rw [SClient.taking_state]
  cases c.state <;> cases m <;> first | rfl | cases hm

theorem sClientHandlePipe_ok {c c' : SClient} {m : Method} (hv : m ≠ .verbose) (hm : m ≠ .term)
    (h : sClientExecute z m.event (c.taking z m) = .ok c') (hc' : c'.terminated = false) :
    sClientHandlePipe z m c = .ok (c', 0) := by
  have hpipe : sClientHandlePipe z m c =
      (sClientExecute z m.event (c.taking z m)).bind fun self => .ok (returnCode self) := by
    cases m <;> first | rfl | exact absurd rfl hv | exact absurd rfl hm
  rw [hpipe, h]
  simp [Except.bind, returnCode, hc']

/-- A CONNECT that is taken up. -/
theorem start_turn {c : SClient} {endpoint : CStr} {timeout : Int} (ht : c.terminated = false)
    (hs : c.state = .start) (hconnect : z.zsockConnect endpoint = true) :
    ∃ c', sClientExecute z .connect (c.taking z (.connect endpoint timeout)) = .ok c' ∧
      Turn (c.taking z (.connect endpoint timeout)) c'
        ((c.taking z (.connect endpoint timeout)).sending .hello .connecting) := by
  refine hello_turn (by simpa using ht) nofun ?_
  have hok : connectToServerEndpoint z ((c.taking z (.connect endpoint timeout)).entered .connect) =
      .ok _ := if_pos hconnect
  rw [SClient.taking_state, hs]
  exact foldlM_runAction_cons rfl hok

/-- **What a command does**, in every detail. -/
theorem command_turn {c : SClient} {m : Method} (h : Running c) (hm : m ≠ .term)
    (habort : ¬ Aborts z c.state m) :
    ∃ c', sClientHandlePipe z m c = .ok (c', 0) ∧ Turn (c.taking z m) c' (commanding z c m) := by
  have hrunning : (c.taking z m).terminated = false := by
    rw [SClient.taking_terminated]
    exact h.running
  by_cases hv : m = .verbose
  · subst hv
    refine ⟨{ c.note (.command .verbose) with verbose := true }, ?_, ?_⟩
    · simp [sClientHandlePipe, returnCode, SClient.note, h.running]
    · rw [commanding_quiet rfl]
      exact ⟨h.running, rfl, (List.append_nil _).symm, rfl⟩
  -- everything else goes through the state machine
  suffices hexec : ∃ c', sClientExecute z m.event (c.taking z m) = .ok c' ∧
      Turn (c.taking z m) c' (commanding z c m) by
    obtain ⟨c', hc', hturn⟩ := hexec
    exact ⟨c', sClientHandlePipe_ok hv hm hc' hturn.running, hturn⟩
  by_cases hother : m = .other
  · subst hother
    rw [commanding_quiet rfl]
    exact ⟨_, sClientExecute_null, hrunning, rfl, (List.append_nil _).symm, rfl⟩
  by_cases hs : c.state = .start
  · unfold Aborts at habort
    unfold commanding
    rw [hs] at habort ⊢
    cases m with
    | connect endpoint timeout => exact start_turn h.running hs (by simpa using habort)
    | subscribe expression => exact absurd trivial habort
    | publish address content => exact absurd trivial habort
    | _ => contradiction
  · rw [commanding_of_started hs]
    refine event_turn hrunning (by rw [SClient.taking_state]; exact h.started hs) ?_ ?_
    · cases m <;> first | contradiction | exact ⟨nofun, nofun, nofun, nofun⟩
    · intro hevent
      cases m <;> cases hevent

/-- What that comes to in the broker's eyes. -/
theorem commanding_eq (z : Czmq) (c : SClient) (m : Method) :
    (commanding z c m).state = accepted c.state m ∧
    framesIn (commanding z c m).notes = (commanded z c m).map wire ∧
    ((commanding z c m).msgout = zccpMsgNew .unset ∨
      (commanding z c m).msgout = (c.taking z m).msgout) := by
  unfold commanding reaction accepted commanded
  cases hs : c.state <;> cases m <;>
    simp [SClient.taking, clientMethod, SClient.note, SClient.keeping, SClient.sending,
      SClient.sent, Method.event, framesIn, hs]

theorem command_running {c c' : SClient} {m : Method} (h : Running c)
    (hturn : Turn (c.taking z m) c' (commanding z c m)) : Running c' := by
  obtain ⟨hstate, -, hmsgout⟩ := commanding_eq z c m
  refine hturn.keeps_running h ?_ ?_ hmsgout ?_
  · cases m <;> rfl
  · cases m <;> rfl
  · rw [hstate]
    have hd := h.disconnecting
    have hf := h.defaults
    unfold accepted
    split <;> first | exact ⟨hd, hf⟩ | exact ⟨nofun, nofun⟩

/-- **What a command does.** -/
theorem command_spec {c : SClient} {m : Method} (h : Running c) (hm : m ≠ .term)
    (habort : ¬ Aborts z c.state m) :
    ∃ c', sClientHandlePipe z m c = .ok (c', 0) ∧
      After c c' (accepted c.state m) (commanded z c m) := by
  obtain ⟨c', hpipe, hturn⟩ := command_turn h hm habort
  obtain ⟨hstate, hnotes, -⟩ := commanding_eq z c m
  refine ⟨c', hpipe, ?_⟩
  rw [← hstate]
  exact hturn.after (command_running h hturn) (c.taking_trace m) rfl hnotes

/-- The commands that abort do so in `start` only: a CONNECT to an endpoint that the socket refuses, and a
SUBSCRIBE or PUBLISH before any CONNECT, which no case of the switch takes. -/
theorem abort_spec {c : SClient} {m : Method} (h : Running c) (habort : Aborts z c.state m) :
    ∃ event, sClientHandlePipe z m c = .error (.unhandled event .start) := by
  have hs : c.state = .start := by
    unfold Aborts at habort
    split at habort <;> first | assumption | exact habort.elim
  have hpipe : ∀ fault, sClientExecute z m.event (c.taking z m) = .error fault →
      m ≠ .verbose → m ≠ .term → sClientHandlePipe z m c = .error fault := by
    intro fault hexec hv hm
    cases m with
    | verbose => exact absurd rfl hv
    | term => exact absurd rfl hm
    | _ => exact congrArg (Except.bind · fun self => .ok (returnCode self)) hexec
  have hs' : (c.taking z m).state = .start := by rw [SClient.taking_state, hs]
  have hrunning : (c.taking z m).terminated = false := by
    rw [SClient.taking_terminated]
    exact h.running
  rw [hs] at habort
  cases m with
  | connect endpoint timeout =>
    exact ⟨_, hpipe _ (sClientExecute_refused hrunning hs' rfl habort) nofun nofun⟩
  | subscribe expression =>
    exact ⟨_, hpipe _ (sClientExecute_unhandled hrunning nofun hs' rfl) nofun nofun⟩
  | publish address content =>
    exact ⟨_, hpipe _ (sClientExecute_unhandled hrunning nofun hs' rfl) nofun nofun⟩
  | _ => exact habort.elim

theorem term_spec {c : SClient} : ∃ c', sClientHandlePipe z .term c = .ok (c', -1) :=
  ⟨_, rfl⟩

/-! ## Messages from the broker -/

/-- What the broker has to say to a client. It never sends any of the other types. -/
def Downward (id : MsgId) : Prop :=
  id = .helloOk ∨ id = .subscribeOk ∨ id = .deliver ∨ id = .invalid

/-- The state a message leads to. -/
def received : State → MsgId → State
  | .connecting, .helloOk => .connected
  | .reconnecting, .helloOk => .connected
  | .subscribing, .subscribeOk => .connected
  | _, .invalid => .reconnecting
  | state, _ => state

/-- The messages sent in answer to one. -/
def answered (self : SClient) (id : MsgId) : List ZccpMsg :=
  if id = .invalid then [self.msgout.setId .hello] else []

/-- A message raises no other event than a command could, for which the start state is not
ready. -/
theorem sProtocolEvent_raised {m : ZccpMsg} {event : Event} (h : sProtocolEvent m = some event) :
    Raised event ∧ clientActions .start event = [.unhandled] := by
  unfold sProtocolEvent at h
  split at h <;> cases h <;> exact ⟨⟨nofun, nofun, nofun, nofun⟩, rfl⟩

theorem sProtocolEvent_deliver {frames : List Frame} {m : ZccpMsg}
    (hdec : zccpMsgDecode frames = .ok m) (h : sProtocolEvent m = some .deliver) :
    ∃ content, m.content = some content := by
  have hid : m.id = .deliver := by
    unfold sProtocolEvent at h
    split at h <;> cases h
    assumption
  have hshape := (zccpMsgDecode_shape hdec).2
  rw [hid] at hshape
  obtain ⟨s, a, d, content, rfl⟩ := hshape
  exact ⟨content, rfl⟩

/-- **What a message does**, in every detail, to a client that has been told to connect. -/
theorem message_turn {c : SClient} {frames : List Frame} {m : ZccpMsg} {event : Event} (h : Running c)
    (hs : c.state ≠ .start) (hdec : zccpMsgDecode frames = .ok m)
    (hevent : sProtocolEvent m = some event) :
    ∃ c', sClientHandleProtocol z frames c = .ok (c', 0) ∧
      Turn { c with msgin := some m } c' (reaction { c with msgin := some m } event) := by
  obtain ⟨c', hc', hturn⟩ : ∃ c', sClientExecute z event { c with msgin := some m } = .ok c' ∧
      Turn { c with msgin := some m } c' (reaction { c with msgin := some m } event) := by
    refine event_turn h.running (h.started hs) (sProtocolEvent_raised hevent).1 ?_
    intro hdeliver
    rw [hdeliver] at hevent
    obtain ⟨content, hcontent⟩ := sProtocolEvent_deliver hdec hevent
    exact ⟨m, content, rfl, hcontent⟩
  refine ⟨c', ?_, hturn⟩
  simp only [sClientHandleProtocol, hdec, hevent, hc']
  simp [bind, Except.bind, returnCode, hturn.running]

theorem message_running {c c' : SClient} {m : ZccpMsg} {event : Event} (h : Running c)
    (hs : c.state ≠ .start)
    (hturn : Turn { c with msgin := some m } c' (reaction { c with msgin := some m } event)) :
    Running c' := by
  have hstarted : Started ({ c with msgin := some m } : SClient).state := h.started hs
  exact hturn.keeps_running h rfl rfl reaction_msgout (started_reaction hstarted).2

/-- **What a message does**, to a client that has been told to connect. -/
theorem protocol_spec {c : SClient} {frames : List Frame} {m : ZccpMsg} (h : Running c)
    (hs : c.state ≠ .start) (hdec : zccpMsgDecode frames = .ok m) (hid : Downward m.id) :
    ∃ c', sClientHandleProtocol z frames c = .ok (c', 0) ∧
      After c c' (received c.state m.id) (answered c m.id) := by
  obtain ⟨event, hevent, heq⟩ : ∃ event, sProtocolEvent m = some event ∧
      (reaction { c with msgin := some m } event).state = received c.state m.id ∧
      framesIn (reaction { c with msgin := some m } event).notes = (answered c m.id).map wire := by
    unfold sProtocolEvent reaction received answered
    rcases hid with hid | hid | hid | hid <;> rw [hid] <;> refine ⟨_, rfl, ?_⟩ <;>
      cases c.state <;> exact ⟨rfl, rfl⟩
  obtain ⟨c', hc', hturn⟩ := message_turn (z := z) h hs hdec hevent
  refine ⟨c', hc', ?_⟩
  rw [← heq.1]
  exact hturn.after (message_running h hs hturn) (List.append_nil _).symm rfl heq.2

/-- A message that comes before there is a connection aborts the process. -/
theorem message_start {c : SClient} {frames : List Frame} {m : ZccpMsg} {event : Event} (h : Running c)
    (hs : c.state = .start) (hdec : zccpMsgDecode frames = .ok m)
    (hevent : sProtocolEvent m = some event) :
    sClientHandleProtocol z frames c = .error (.unhandled event .start) := by
  obtain ⟨⟨hnull, -⟩, hacts⟩ := sProtocolEvent_raised hevent
  have hexec : sClientExecute z event { c with msgin := some m } =
      .error (.unhandled event .start) := sClientExecute_unhandled h.running hnull hs hacts
  simp only [sClientHandleProtocol, hdec, hevent, hexec]
  rfl

theorem protocol_start {c : SClient} {frames : List Frame} {m : ZccpMsg} (h : Running c)
    (hs : c.state = .start) (hdec : zccpMsgDecode frames = .ok m) (hid : Downward m.id) :
    ∃ fault, sClientHandleProtocol z frames c = .error fault := by
  obtain ⟨event, hevent⟩ : ∃ event, sProtocolEvent m = some event := by
    unfold sProtocolEvent
    rcases hid with hid | hid | hid | hid <;> rw [hid] <;> exact ⟨_, rfl⟩
  exact ⟨_, message_start h hs hdec hevent⟩

theorem protocol_halts {c : SClient} {frames : List Frame} {m : ZccpMsg}
    (hdec : zccpMsgDecode frames = .ok m) (hevent : sProtocolEvent m = none) :
    ∃ c', sClientHandleProtocol z frames c = .ok (c', -1) ∧ c'.trace = c.trace := by
  refine ⟨cancelWakeup { c with msgin := some m, terminated := true, nextEvent := .null }, ?_, rfl⟩
  simp only [sClientHandleProtocol, hdec, hevent, sClientExecute_null]
  rfl

theorem protocol_malformed {c : SClient} {frames : List Frame}
    (hdec : ∀ m, zccpMsgDecode frames ≠ .ok m) : sClientHandleProtocol z frames c = .ok (c, -1) := by
  cases h : zccpMsgDecode frames with
  | error e => simp only [sClientHandleProtocol, h]
  | ok m => exact absurd h (hdec m)

end Zccp.Client
