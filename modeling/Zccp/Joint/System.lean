import Zccp.Broker.Runs
import Zccp.Client.Spec
import Zccp.Msg.RoundTrip

/-!
# `Zccp/Joint/System.lean` — one client and the broker

The two actors in one system. What the client sends waits in one queue until the broker reads it,
what the broker sends to that client in another, first in, first out; commands, deliveries,
expiries of the client's session and whatever other peers do to the broker come in any order. The
queues hold frames: nothing is decoded before it is delivered.

A callback that returns -1 ends the reactor it was called from, and one with no defined result the
process; that party is gone then, for good, and nothing is delivered to it any more.

`Shows` is what a state comes down to as long as both parties are there, and `Move` is everything
that can happen to that. `step_spec` connects them, from the specifications of the two actors
(`Zccp/Client/Spec.lean`, `Zccp/Broker/Step.lean`) and the broker's refinement.

A `View` is small on purpose. It has the client's state and none of its registers, and of the broker
what the broker knows about this one client and nothing about any other. That it is enough is the
point: what a client is answered depends on its own entry in the directory alone, so whatever the
others do shows up here as DELIVERs that come out of nowhere. The invariants in `Joint/Agreement.lean`,
`Joint/Answers.lean` and `Joint/Converge.lean` are all about views, and are proved by one case for each
constructor of `Move`.
-/

set_option autoImplicit false

namespace Zccp.Joint

open Lib Broker

/-! ## The system -/

/-- What can happen next. -/
inductive Label
  /-- The application puts a command into the client's pipe. -/
  | command (method : Client.Method)
  /-- The broker reads what the client has sent. -/
  | toBroker
  /-- The client reads what the broker has sent. -/
  | toClient
  /-- The broker's session of the client expires. -/
  | expire
  /-- Something that another peer does. -/
  | others (input : Input)
deriving DecidableEq

/-- The two parties, and what is in flight. A party that is gone is `none`; how it has gone makes no
difference to the other. -/
structure System where
  client : Option Client.SClient
  toBroker : List (List Frame)
  toClient : List (List Frame)
  broker : Option Server

namespace System

/-- Nothing has happened. -/
def new (verbose : Bool) : System where
  client := some .new
  toBroker := []
  toClient := []
  broker := some (.new verbose)

/-- A callback of the client, which was `self` before it. -/
def clientDid (self : Client.SClient) (j : System) :
    Except Client.Fault (Client.SClient × Int) → System
  | .error _ => { j with client := none }
  | .ok (self', rc) => { j with
      client := if rc = 0 then some self' else none
      toBroker := j.toBroker ++ Client.framesIn (self'.trace.drop self.trace.length) }

/-- A callback of the broker, which was `s` before it. `c` is the routing id of the client. -/
def brokerDid (c : Frame) (s : Server) (j : System) : Option (Server × Int) → System
  | none => { j with broker := none }
  | some (s', rc) => { j with
      broker := if rc = 0 then some s' else none
      toClient := j.toClient ++ (framesIn c (s'.trace.drop s.trace.length)).map Prod.snd }

end System

/-- One step; `none` if it cannot be taken. -/
def step (z : Czmq) (c : Frame) (j : System) : Label → Option System
  | .command method => do
    let self ← j.client
    some (j.clientDid self (Client.sClientHandlePipe z method self))
  | .toBroker => do
    let s ← j.broker
    match j.toBroker with
    | [] => none
    | frames :: rest =>
      some ({ j with toBroker := rest }.brokerDid c s (handle z (.message c frames) s))
  | .toClient => do
    let self ← j.client
    match j.toClient with
    | [] => none
    | frames :: rest =>
      some ({ j with toClient := rest }.clientDid self (Client.sClientHandleProtocol z frames self))
  | .expire => do
    let s ← j.broker
    some (j.brokerDid c s (handle z (.expiry c) s))
  | .others input =>
    if input.peer = c then none
    else do
      let s ← j.broker
      some (j.brokerDid c s (handle z input s))

/-- **What a step can do**, label by label, with the guards of each as hypotheses. -/
inductive Stepped (z : Czmq) (c : Frame) (j : System) : Label → System → Prop
  | command (method : Client.Method) {self : Client.SClient} (hself : j.client = some self) :
      Stepped z c j (.command method)
        (j.clientDid self (Client.sClientHandlePipe z method self))
  | toBroker {s : Server} {frames : List Frame} {rest : List (List Frame)}
      (hs : j.broker = some s) (hqueue : j.toBroker = frames :: rest) :
      Stepped z c j .toBroker
        ({ j with toBroker := rest }.brokerDid c s (handle z (.message c frames) s))
  | toClient {self : Client.SClient} {frames : List Frame} {rest : List (List Frame)}
      (hself : j.client = some self) (hqueue : j.toClient = frames :: rest) :
      Stepped z c j .toClient
        ({ j with toClient := rest }.clientDid self (Client.sClientHandleProtocol z frames self))
  | expire {s : Server} (hs : j.broker = some s) :
      Stepped z c j .expire (j.brokerDid c s (handle z (.expiry c) s))
  | others {s : Server} (input : Input) (hs : j.broker = some s) (hpeer : input.peer ≠ c) :
      Stepped z c j (.others input) (j.brokerDid c s (handle z input s))

/-- Everything that a step can do. An invariant goes by these cases and does not unfold `step`. -/
theorem stepped {z : Czmq} {c : Frame} {j j' : System} {l : Label}
    (hstep : step z c j l = some j') : Stepped z c j l j' := by
  cases l with
  | command method =>
    obtain ⟨self, hself, hj'⟩ := Option.bind_eq_some_iff.mp hstep
    obtain rfl := Option.some.inj hj'
    exact .command method hself
  | toBroker =>
    obtain ⟨s, hs, hj'⟩ := Option.bind_eq_some_iff.mp hstep
    cases hqueue : j.toBroker with
    | nil =>
      rw [hqueue] at hj'
      cases hj'
    | cons frames rest =>
      rw [hqueue] at hj'
      obtain rfl := Option.some.inj hj'
      exact .toBroker hs hqueue
  | toClient =>
    obtain ⟨self, hself, hj'⟩ := Option.bind_eq_some_iff.mp hstep
    cases hqueue : j.toClient with
    | nil =>
      rw [hqueue] at hj'
      cases hj'
    | cons frames rest =>
      rw [hqueue] at hj'
      obtain rfl := Option.some.inj hj'
      exact .toClient hself hqueue
  | expire =>
    obtain ⟨s, hs, hj'⟩ := Option.bind_eq_some_iff.mp hstep
    obtain rfl := Option.some.inj hj'
    exact .expire hs
  | others input =>
    by_cases hpeer : input.peer = c
    · simp only [step, if_pos hpeer] at hstep
      cases hstep
    · simp only [step, if_neg hpeer] at hstep
      obtain ⟨s, hs, hj'⟩ := Option.bind_eq_some_iff.mp hstep
      obtain rfl := Option.some.inj hj'
      exact .others input hs hpeer

/-- A run of the system. -/
def run (z : Czmq) (c : Frame) (verbose : Bool) (labels : List Label) : Option System :=
  runFrom (step z c) (.new verbose) labels

/-- The client is connected, the broker `s` has a session of it, at `r`, that is connected too, and
nothing is in flight. -/
structure AtRest (c : Frame) (j : System) (s : Server) (r : Ref) : Prop where
  client : ∃ self, j.client = some self ∧ self.state = .connected
  broker : j.broker = some s
  session : s.clients (zframeStrhex c) = some r
  connected : ∃ b, s.heap r = some b ∧ b.state = .connected
  toBroker : j.toBroker = []
  toClient : j.toClient = []

/-- Whether a state is one of these, and what there is to say of it then, can be found out. -/
instance (c : Frame) (j : System) (P : Server → Ref → Prop) [∀ s r, Decidable (P s r)] :
    Decidable (∃ s r, AtRest c j s r ∧ P s r) :=
  match hs : j.broker with
  | none => isFalse fun ⟨_, _, h, _⟩ => nomatch hs.symm.trans h.broker
  | some s =>
    match hr : s.clients (zframeStrhex c) with
    | none => isFalse fun ⟨s', r, h, _⟩ => by
      obtain rfl := Option.some.inj (hs.symm.trans h.broker)
      exact nomatch hr.symm.trans h.session
    | some r =>
      decidable_of_iff (j.client.map (·.state) = some .connected ∧
          (s.heap r).map (·.state) = some .connected ∧ j.toBroker = [] ∧ j.toClient = [] ∧ P s r) (by
        simp only [Option.map_eq_some_iff]
        constructor
        · rintro ⟨hclient, hconnected, hup, hdown, hP⟩
          exact ⟨s, r, ⟨hclient, hs, hr, hconnected, hup, hdown⟩, hP⟩
        · rintro ⟨s', r', h, hP⟩
          obtain rfl := Option.some.inj (hs.symm.trans h.broker)
          obtain rfl := Option.some.inj (hr.symm.trans h.session)
          exact ⟨h.client, h.connected, h.toBroker, h.toClient, hP⟩)

/-! ## What it comes down to -/

/-- What matters of a state in which both parties are there: the state of the client, the two
queues, and what the broker knows about the client. -/
structure View where
  state : Client.State
  toBroker : List (List Frame)
  toClient : List (List Frame)
  entry : Option (PubSub.Member CStr CStr)

/-- What a client has to say to the broker. Its state machine could also send a DIRECT, a GOODBYE or a
PING_OK, but neither its application nor this broker ever raises the events for them. -/
def Upward (id : MsgId) : Prop := id = .hello ∨ id = .subscribe ∨ id = .publish

/-- Whatever can be decoded in a queue has one of these ids. What cannot be is left open, because a text
of the application that does not fit makes a message that no one can decode. -/
def Holds (ids : MsgId → Prop) (queue : List (List Frame)) : Prop :=
  ∀ frames ∈ queue, ∀ m, zccpMsgDecode frames = .ok m → ids m.id

/-- A state in which both parties are there, both with their own invariants, and what there is to it. The
last two fields are the invariant of the system itself: neither party ever finds something in its queue
that it has no event for. -/
structure Shows (z : Czmq) (c : Frame) (j : System) (v : View) : Prop where
  client : ∃ self, j.client = some self ∧ Client.Running self ∧ self.state = v.state
  broker : ∃ s, j.broker = some s ∧ Inv z s.core ∧ s.core.entry c = v.entry
  toBroker : j.toBroker = v.toBroker
  toClient : j.toClient = v.toClient
  upward : Holds Upward v.toBroker
  downward : Holds Client.Downward v.toClient

/-- Nothing has happened. -/
def View.new : View where
  state := .start
  toBroker := []
  toClient := []
  entry := none

theorem shows_new (z : Czmq) (c : Frame) (verbose : Bool) : Shows z c (.new verbose) .new where
  client := ⟨_, rfl, Client.running_new, rfl⟩
  broker := ⟨_, rfl, .new z verbose, rfl⟩
  toBroker := rfl
  toClient := rfl
  upward := by simp [View.new, Holds]
  downward := by simp [View.new, Holds]

/-- The commands a client does something about. Its state machine discards all others without a word. -/
def ActsOn : Client.State → Client.Method → Prop
  | .start, .connect _ _ => True
  | .connected, .subscribe _ => True
  | .connected, .publish _ _ => True
  | _, _ => False

/-- A reply on the wire. -/
def replyWire (z : Czmq) (c : Frame) (r : PubSub.Reply CStr CStr (Option (List Frame))) :
    List Frame := wire (replyMsg z c r)

/-- **What can happen** as long as both parties are there. Of a message that a command puts in flight a
move says its id, and what else the invariants need: that a HELLO can be decoded, and which expression
is in a SUBSCRIBE. -/
inductive Move (z : Czmq) (c : Frame) (v : View) : Label → View → Prop
  /-- CONNECT of a client that has not been told before. It asks the broker for a session. -/
  | connect (endpoint : CStr) (timeout : Int) (msg : ZccpMsg) (id : msg.id = .hello)
      (fits : msg.Fits) (state : v.state = .start) :
      Move z c v (.command (.connect endpoint timeout))
        { v with state := .connecting, toBroker := v.toBroker ++ [wire msg] }
  /-- SUBSCRIBE of a connected client. -/
  | subscribe (expression : CStr) (msg : ZccpMsg) (id : msg.id = .subscribe)
      (hexpression : msg.expression = some (z.zsysVprintf expression)) (headers : msg.headers = none)
      (state : v.state = .connected) :
      Move z c v (.command (.subscribe expression))
        { v with state := .subscribing, toBroker := v.toBroker ++ [wire msg] }
  /-- PUBLISH of a connected client. -/
  | publish (address content : CStr) (msg : ZccpMsg) (id : msg.id = .publish)
      (state : v.state = .connected) :
      Move z c v (.command (.publish address content))
        { v with state := .connected, toBroker := v.toBroker ++ [wire msg] }
  /-- Any other command. -/
  | ignore (method : Client.Method) (acts : ¬ ActsOn v.state method) : Move z c v (.command method) v
  /-- The broker reads a message and answers it. -/
  | toBroker (frames : List Frame) (rest : List (List Frame)) (m : ZccpMsg)
      (queue : v.toBroker = frames :: rest) (decoded : zccpMsgDecode frames = .ok m)
      (id : Upward m.id) :
      Move z c v .toBroker { v with
        toBroker := rest
        toClient := v.toClient ++ (PubSub.answer v.entry m.request).map (replyWire z c)
        entry := PubSub.settle (policy z) v.entry m.request }
  /-- The client reads a message, and asks for a new session if it is an INVALID. -/
  | toClient (frames : List Frame) (rest : List (List Frame)) (m hello : ZccpMsg)
      (queue : v.toClient = frames :: rest) (decoded : zccpMsgDecode frames = .ok m)
      (id : Client.Downward m.id) (hid : hello.id = .hello) (fits : hello.Fits)
      (state : v.state ≠ .start) :
      Move z c v .toClient { v with
        state := Client.received v.state m.id
        toClient := rest
        toBroker := v.toBroker ++ if m.id = .invalid then [wire hello] else [] }
  /-- The session expires, if there is one. -/
  | expire : Move z c v .expire { v with entry := none }
  /-- Another peer does something, of which the client gets what it is subscribed to. -/
  | others (input : Input) (replies : List (PubSub.Reply CStr CStr (Option (List Frame))))
      (peer : input.peer ≠ c) (deliver : ∀ r ∈ replies, r.IsDeliver) :
      Move z c v (.others input)
        { v with toClient := v.toClient ++ replies.map (replyWire z c) }

/-- The steps at which a party is lost: the client is told to end or aborts, or someone reads a message
that it cannot decode. -/
def Loses (z : Czmq) (v : View) : Label → Prop
  | .command method => method = .term ∨ Client.Aborts z v.state method
  | .toBroker => ∃ frames rest, v.toBroker = frames :: rest ∧ ∀ m, zccpMsgDecode frames ≠ .ok m
  | .toClient => v.state = .start ∨
      ∃ frames rest, v.toClient = frames :: rest ∧ ∀ m, zccpMsgDecode frames ≠ .ok m
  | .expire => False
  | .others input => ¬ input.Decodable

/-! ## The queues -/

section Holds

variable {ids : MsgId → Prop} {queue queue' : List (List Frame)}

theorem Holds.append (h : Holds ids queue) (h' : Holds ids queue') : Holds ids (queue ++ queue') := by
  intro frames hmem
  rcases List.mem_append.mp hmem with hmem | hmem
  · exact h frames hmem
  · exact h' frames hmem

theorem Holds.tail {frames : List Frame} (h : Holds ids (frames :: queue)) : Holds ids queue :=
  fun frames' hmem => h frames' (List.mem_cons_of_mem _ hmem)

theorem holds_map_wire {msgs : List ZccpMsg} (h : ∀ m ∈ msgs, ids m.id) :
    Holds ids (msgs.map wire) := by
  intro frames hmem m' hm'
  obtain ⟨m, hm, rfl⟩ := List.mem_map.mp hmem
  rw [zccpMsgDecode_wire_id hm']
  exact h m hm

theorem holds_wire {m : ZccpMsg} (h : ids m.id) : Holds ids [wire m] := by
  have hmsgs : ∀ m' ∈ [m], ids m'.id := by
    intro m' hm'
    rw [List.mem_singleton.mp hm']
    exact h
  exact holds_map_wire hmsgs

end Holds

theorem Downward.ne_unset {id : MsgId} (h : Client.Downward id) : id ≠ .unset := by
  rcases h with rfl | rfl | rfl | rfl <;> decide

/-! ## One step -/

variable {z : Czmq} {c : Frame} {j j' : System} {v : View}

/-- What a callback of the client does to the system, if the client goes on. -/
theorem clientDid_eq {self self' : Client.SClient} {state : Client.State} {msgs : List ZccpMsg}
    (h : Client.After self self' state msgs) :
    j.clientDid self (.ok (self', 0)) =
      { j with client := some self', toBroker := j.toBroker ++ msgs.map wire } := by
  obtain ⟨t, htrace, hframes⟩ := h.trace
  simp only [System.clientDid, if_true, htrace, List.drop_left, hframes]

theorem Shows.clientDid {self self' : Client.SClient} {state : Client.State} {msgs : List ZccpMsg}
    (rest : List (List Frame)) (h : Shows z c j v) (hafter : Client.After self self' state msgs)
    (hmsgs : ∀ m ∈ msgs, Upward m.id) (hrest : rest <:+ v.toClient) :
    Shows z c ({ j with toClient := rest }.clientDid self (.ok (self', 0)))
      { v with state := state, toClient := rest, toBroker := v.toBroker ++ msgs.map wire } := by
  rw [clientDid_eq hafter]
  constructor
  · exact ⟨self', rfl, hafter.running, hafter.state⟩
  · exact h.broker
  · simp only [h.toBroker]
  · rfl
  · exact h.upward.append (holds_map_wire hmsgs)
  · exact fun frames hmem => h.downward frames (hrest.subset hmem)

/-- What a callback of the broker does to what the system shows, for an input that decodes: what the
abstract broker does to the entry of this client, and what it says to it. This is the one place where
the refinement of the broker is used. -/
theorem Shows.brokerDid {s : Server} (input : Input) (rest : List (List Frame)) (h : Shows z c j v)
    (hs : j.broker = some s) (hinput : input.Decodable) (hrest : rest <:+ v.toBroker)
    (hreplies : ∀ r ∈ PubSub.out (policy z) c s.core.entry input.event,
      Client.Downward (replyId r)) :
    Shows z c ({ j with toBroker := rest }.brokerDid c s (handle z input s))
      { v with
        toBroker := rest
        toClient := v.toClient ++
          (PubSub.out (policy z) c s.core.entry input.event).map (replyWire z c)
        entry := PubSub.step (policy z) s.core.entry input.event c } := by
  obtain ⟨s₁, hs₁, hinv, hentry⟩ := h.broker
  obtain rfl := Option.some.inj (hs.symm.trans hs₁)
  obtain ⟨s', t, hhandle, htrans, htrace⟩ := handle_spec hinv hinput
  obtain ⟨hentry', hsent⟩ := htrans.refines hinv
  have hframes : (framesIn c (s'.trace.drop s.trace.length)).map Prod.snd =
      (PubSub.out (policy z) c s.core.entry input.event).map (replyWire z c) := by
    rw [htrace, List.drop_left, framesIn_eq htrans.encoded, hsent, List.map_map, List.map_map]
    rfl
  rw [hhandle]
  simp only [System.brokerDid, if_true, hframes]
  constructor
  · exact h.client
  · exact ⟨s', rfl, htrans.inv hinv, by rw [hentry']⟩
  · rfl
  · simp only [h.toClient]
  · exact fun frames hmem => h.upward frames (hrest.subset hmem)
  · refine h.downward.append ?_
    have hwire : replyWire z c = wire ∘ replyMsg z c := rfl
    rw [hwire, ← List.map_map]
    apply holds_map_wire
    intro m hm
    obtain ⟨r, hr, rfl⟩ := List.mem_map.mp hm
    rw [replyMsg_id]
    exact hreplies r hr

/-- What the broker answers is meant for a client. -/
theorem downward_answer {m : ZccpMsg} (hid : Upward m.id) (d : Option (PubSub.Member CStr CStr)) :
    ∀ r ∈ PubSub.answer d m.request, Client.Downward (replyId r) := by
  intro r hr
  unfold ZccpMsg.request at hr
  rcases hid with hid | hid | hid <;> rw [hid] at hr <;> cases d <;>
    simp only [PubSub.answer, List.mem_singleton, List.not_mem_nil] at hr <;> subst hr <;>
    simp [replyId, Client.Downward]

theorem downward_deliver {r : PubSub.Reply CStr CStr (Option (List Frame))} (h : r.IsDeliver) :
    Client.Downward (replyId r) := by
  cases r with
  | deliver => exact .inr (.inr (.inl rfl))
  | _ => exact h.elim

/-- What a step comes to: a move, after which both are still there, or a party is lost. -/
def Follows (z : Czmq) (c : Frame) (v : View) (l : Label) (j' : System) : Prop :=
  (∃ v', Move z c v l v' ∧ Shows z c j' v') ∨
    (Loses z v l ∧ (j'.client = none ∨ j'.broker = none))

/-- A HELLO of a client fits: it has no identifier in it. -/
theorem fits_setId_hello {self : Client.SClient} (h : Client.Running self) :
    (self.msgout.setId .hello).Fits := by
  refine ⟨?_, ?_⟩
  · intro s hs
    exact absurd (h.identifier.symm.trans hs) nofun
  · intro d hd
    exact absurd (h.headers.symm.trans hd) nofun

/-- A command that the client does not act on changes its state in no way, and sends nothing; what it has
left in `msgout` is not in the view, since it cannot be seen from outside. -/
theorem not_actsOn {self : Client.SClient} {method : Client.Method}
    (h : ¬ ActsOn self.state method) :
    Client.accepted self.state method = self.state ∧ Client.commanded z self method = [] := by
  unfold Client.accepted Client.commanded
  unfold ActsOn at h
  cases hs : self.state <;> rw [hs] at h <;> cases method <;>
    first | exact ⟨rfl, rfl⟩ | exact absurd trivial h

/-- A command: the client is gone (`$TERM`, or one that aborts), or it acts on the command, or it does not and
the view stays as it is. -/
theorem command_follows {self : Client.SClient} (h : Shows z c j v) (hself : j.client = some self)
    (method : Client.Method) :
    Follows z c v (.command method)
      (j.clientDid self (Client.sClientHandlePipe z method self)) := by
  obtain ⟨self₁, hself₁, hrunning, hstate⟩ := h.client
  obtain rfl := Option.some.inj (hself.symm.trans hself₁)
  by_cases hterm : method = .term
  · subst hterm
    obtain ⟨self', hself'⟩ := Client.term_spec (z := z) (c := self)
    exact .inr ⟨.inl rfl, .inl (by rw [hself']; rfl)⟩
  by_cases habort : Client.Aborts z self.state method
  · obtain ⟨fault, hfault⟩ := Client.abort_spec hrunning habort
    exact .inr ⟨.inr (hstate ▸ habort), .inl (by rw [hfault]; rfl)⟩
  obtain ⟨self', hself', hafter⟩ := Client.command_spec hrunning hterm habort
  have hshows := h.clientDid v.toClient hafter
  have hj : ({ j with toClient := v.toClient } : System) = j := by rw [← h.toClient]
  rw [hj] at hshows
  rw [hself']
  refine .inl ?_
  by_cases hacts : ActsOn self.state method
  · unfold Client.accepted Client.commanded at hshows
    unfold ActsOn at hacts
    split at hacts
    case h_1 endpoint timeout hs =>
      rw [hs] at hshows hstate
      exact ⟨_, .connect endpoint timeout _ rfl (fits_setId_hello hrunning) hstate.symm,
        hshows (by simp [Upward, ZccpMsg.setId]) List.suffix_rfl⟩
    case h_2 expression hs =>
      rw [hs] at hshows hstate
      exact ⟨_, .subscribe expression ((self.msgout.setExpression z expression).setId .subscribe)
        rfl rfl hrunning.headers hstate.symm, hshows (by simp [Upward, ZccpMsg.setId]) List.suffix_rfl⟩
    case h_3 address content hs =>
      rw [hs] at hshows hstate
      exact ⟨_, .publish address content _ rfl hstate.symm,
        hshows (by simp [Upward, ZccpMsg.setId]) List.suffix_rfl⟩
    case h_4 => exact hacts.elim
  · obtain ⟨hsame, hnone⟩ := not_actsOn (z := z) hacts
    rw [hsame, hnone] at hshows
    have := hshows (by simp) List.suffix_rfl
    rw [hstate] at this hacts
    exact ⟨v, .ignore method hacts, by simpa using this⟩

/-- A message for the client: one that it cannot read, or that comes before it has connected, is the end of
it; any other is a move. -/
theorem toClient_follows {self : Client.SClient} {frames : List Frame} {rest : List (List Frame)}
    (h : Shows z c j v) (hself : j.client = some self) (hqueue : v.toClient = frames :: rest) :
    Follows z c v .toClient ({ j with toClient := rest }.clientDid self
      (Client.sClientHandleProtocol z frames self)) := by
  obtain ⟨self₁, hself₁, hrunning, hstate⟩ := h.client
  obtain rfl := Option.some.inj (hself.symm.trans hself₁)
  by_cases hdec : ∃ m, zccpMsgDecode frames = .ok m
  · obtain ⟨m, hdec⟩ := hdec
    have hid : Client.Downward m.id := h.downward frames (by simp [hqueue]) m hdec
    by_cases hstart : self.state = .start
    · obtain ⟨fault, hfault⟩ := Client.protocol_start (z := z) hrunning hstart hdec hid
      exact .inr ⟨.inl (hstate ▸ hstart), .inl (by rw [hfault]; rfl)⟩
    obtain ⟨self', hself', hafter⟩ := Client.protocol_spec (z := z) hrunning hstart hdec hid
    have hshows := h.clientDid rest hafter (by
      unfold Client.answered
      split <;> simp [Upward, ZccpMsg.setId]) (by rw [hqueue]; exact List.suffix_cons _ _)
    have hmap : (Client.answered self m.id).map wire =
        if m.id = .invalid then [wire (self.msgout.setId .hello)] else [] := by
      unfold Client.answered
      split <;> rfl
    rw [hmap, hstate] at hshows
    rw [hself']
    exact .inl ⟨_, .toClient frames rest m _ hqueue hdec hid rfl (fits_setId_hello hrunning)
      (hstate ▸ hstart), hshows⟩
  · have hdec' : ∀ m, zccpMsgDecode frames ≠ .ok m := fun m hm => hdec ⟨m, hm⟩
    rw [Client.protocol_malformed hdec']
    exact .inr ⟨.inr ⟨frames, rest, hqueue, hdec'⟩, .inl rfl⟩

/-- A message for the broker: one that it cannot read is the end of it; for any other the reply and the
new entry are those of the abstract broker. -/
theorem toBroker_follows {s : Server} {frames : List Frame} {rest : List (List Frame)}
    (h : Shows z c j v) (hs : j.broker = some s) (hqueue : v.toBroker = frames :: rest) :
    Follows z c v .toBroker ({ j with toBroker := rest }.brokerDid c s
      (handle z (.message c frames) s)) := by
  by_cases hdec : ∃ m, zccpMsgDecode frames = .ok m
  · obtain ⟨m, hdec⟩ := hdec
    obtain ⟨s₁, hs₁, -, hentry⟩ := h.broker
    obtain rfl := Option.some.inj (hs.symm.trans hs₁)
    have hid : Upward m.id := h.upward frames (by simp [hqueue]) m hdec
    have hevent : (Input.message c frames).event = .request c m.request := by
      simp only [Input.event, hdec]
    have hout : PubSub.out (policy z) c s.core.entry (Input.message c frames).event =
        PubSub.answer v.entry m.request := by
      simp only [hevent, PubSub.out, if_true, hentry]
    have hstep : PubSub.step (policy z) s.core.entry (Input.message c frames).event c =
        PubSub.settle (policy z) v.entry m.request := by
      simp only [hevent, PubSub.step, Function.update_self, hentry]
    have hshows := h.brokerDid (.message c frames) rest hs ⟨m, hdec⟩
      (by rw [hqueue]; exact List.suffix_cons _ _)
      (by rw [hout]; exact downward_answer hid _)
    rw [hout, hstep] at hshows
    exact .inl ⟨_, .toBroker frames rest m hqueue hdec hid, hshows⟩
  · have hdec' : ∀ m, zccpMsgDecode frames ≠ .ok m := fun m hm => hdec ⟨m, hm⟩
    rw [handle_malformed z s c frames hdec']
    exact .inr ⟨⟨frames, rest, hqueue, hdec'⟩, .inr rfl⟩

theorem expire_follows {s : Server} (h : Shows z c j v) (hs : j.broker = some s) :
    Follows z c v .expire (j.brokerDid c s (handle z (.expiry c) s)) := by
  have hj : ({ j with toBroker := v.toBroker } : System) = j := by rw [← h.toBroker]
  have hshows := h.brokerDid (.expiry c) v.toBroker hs trivial List.suffix_rfl
    (by simp [Input.event, PubSub.out])
  rw [hj] at hshows
  refine .inl ⟨_, .expire, ?_⟩
  simpa [Input.event, PubSub.out, PubSub.step] using hshows

/-- Another peer's input: it cannot change this peer's entry, and sends it nothing but DELIVERs. -/
theorem others_follows {s : Server} {input : Input} (h : Shows z c j v) (hs : j.broker = some s)
    (hpeer : input.peer ≠ c) :
    Follows z c v (.others input) (j.brokerDid c s (handle z input s)) := by
  by_cases hdec : input.Decodable
  · obtain ⟨s₁, hs₁, -, hentry⟩ := h.broker
    obtain rfl := Option.some.inj (hs.symm.trans hs₁)
    have hne : c ≠ input.event.peer := by rw [Input.event_peer]; exact Ne.symm hpeer
    have hdeliver := PubSub.isDeliver_of_mem_out (policy z) (d := s.core.entry) hne
    have hj : ({ j with toBroker := v.toBroker } : System) = j := by rw [← h.toBroker]
    have hshows := h.brokerDid input v.toBroker hs hdec List.suffix_rfl
      fun r hr => downward_deliver (hdeliver r hr)
    rw [hj, PubSub.step_of_ne (policy z) hne, hentry] at hshows
    exact .inl ⟨_, .others input _ hpeer hdeliver, hshows⟩
  · cases input with
    | expiry routingId => exact absurd trivial hdec
    | message routingId frames =>
      rw [handle_malformed z s routingId frames fun m hm => hdec ⟨m, hm⟩]
      exact .inr ⟨hdec, .inr rfl⟩

/-- **One step of the system** is a move, or a party is lost. -/
theorem step_spec {l : Label} (h : Shows z c j v) (hstep : step z c j l = some j') :
    Follows z c v l j' := by
  cases stepped hstep with
  | command method hself => exact command_follows h hself method
  | toBroker hs hqueue => exact toBroker_follows h hs (h.toBroker ▸ hqueue)
  | toClient hself hqueue => exact toClient_follows h hself (h.toClient ▸ hqueue)
  | expire hs => exact expire_follows h hs
  | others input hs hpeer => exact others_follows h hs hpeer

/-! ## Runs -/

/-- A party is not there any more. -/
def System.Lost (j : System) : Prop := j.client = none ∨ j.broker = none

theorem clientDid_broker (self : Client.SClient) (j : System)
    (r : Except Client.Fault (Client.SClient × Int)) : (j.clientDid self r).broker = j.broker := by
  cases r <;> rfl

theorem brokerDid_client (c : Frame) (s : Server) (j : System) (r : Option (Server × Int)) :
    (j.brokerDid c s r).client = j.client := by
  cases r <;> rfl

/-- Nobody comes back: a reactor that has ended is not started again. -/
theorem System.Lost.step {l : Label} (h : j.Lost) (hstep : Joint.step z c j l = some j') :
    j'.Lost := by
  have hclient : ∀ {self j₁ r}, j.client = some self → j₁.broker = j.broker →
      (System.clientDid self j₁ r).Lost := by
    intro self j₁ r hself hsame
    rw [System.Lost, clientDid_broker, hsame]
    exact .inr (h.resolve_left (by rw [hself]; exact nofun))
  have hbroker : ∀ {s j₁ r}, j.broker = some s → j₁.client = j.client →
      (System.brokerDid c s j₁ r).Lost := by
    intro s j₁ r hs hsame
    rw [System.Lost, brokerDid_client, hsame]
    exact .inl (h.resolve_right (by rw [hs]; exact nofun))
  cases stepped hstep with
  | command _ hself => exact hclient hself rfl
  | toClient hself _ => exact hclient hself rfl
  | toBroker hs _ => exact hbroker hs rfl
  | expire hs => exact hbroker hs rfl
  | others _ hs _ => exact hbroker hs rfl

/-- Both parties are there to the end of a run only if they were all along. -/
theorem lost_after {labels : List Label} (h : j.Lost)
    (hrun : runFrom (step z c) j labels = some j') : j'.Lost :=
  runFrom_preserves (fun _ _ _ h hstep => h.step hstep) h hrun

theorem step_moves {l : Label} (h : Shows z c j v) (hstep : step z c j l = some j')
    (hj' : ¬ j'.Lost) : ∃ v', Move z c v l v' ∧ Shows z c j' v' := by
  rcases step_spec h hstep with hmove | ⟨-, hlost⟩
  · exact hmove
  · exact absurd hlost hj'

/-- **Invariants of the system.** What holds at the start and is preserved by every move holds in
every state in which both parties are there. -/
theorem run_moves {P : View → Prop} (hnew : P .new)
    (hmove : ∀ v l v', P v → Move z c v l v' → P v') {verbose : Bool} {labels : List Label}
    (hrun : run z c verbose labels = some j) (hj : ¬ j.Lost) : ∃ v, Shows z c j v ∧ P v := by
  have hinv : j.Lost ∨ ∃ v, Shows z c j v ∧ P v := by
    refine runFrom_preserves (I := fun j => j.Lost ∨ ∃ v, Shows z c j v ∧ P v) ?_
      (.inr ⟨.new, shows_new z c verbose, hnew⟩) hrun
    rintro j₁ l j₂ (hlost | ⟨v, hshows, hv⟩) hstep
    · exact .inl (hlost.step hstep)
    · rcases step_spec hshows hstep with ⟨v', hm, hshows'⟩ | ⟨-, hlost⟩
      · exact .inr ⟨v', hshows', hmove v l v' hv hm⟩
      · exact .inl hlost
  exact hinv.resolve_left hj

/-! ## With or without the broker

A broker that is gone does nothing more, but its client may: it still takes commands and reads what
is left in its queue. Nothing in that depends on the broker, so it is what the client would do next
to one that has just been started, and `step_spec` says what that is. A broker that is gone counts
as one that knows nobody. -/

/-- A state in which the client is there, and what there is to it. -/
structure Appears (z : Czmq) (c : Frame) (j : System) (v : View) : Prop where
  client : ∃ self, j.client = some self ∧ Client.Running self ∧ self.state = v.state
  broker : ∀ s, j.broker = some s → Inv z s.core ∧ s.core.entry c = v.entry
  gone : j.broker = none → v.entry = none
  toBroker : j.toBroker = v.toBroker
  toClient : j.toClient = v.toClient
  upward : Holds Upward v.toBroker
  downward : Holds Client.Downward v.toClient

theorem Shows.appears (h : Shows z c j v) : Appears z c j v where
  client := h.client
  broker s hs := by
    obtain ⟨s', hs', hinv, hentry⟩ := h.broker
    obtain rfl := Option.some.inj (hs.symm.trans hs')
    exact ⟨hinv, hentry⟩
  gone hnone := by
    obtain ⟨s, hs, -⟩ := h.broker
    cases hnone.symm.trans hs
  toBroker := h.toBroker
  toClient := h.toClient
  upward := h.upward
  downward := h.downward

theorem Appears.shows {s : Server} (h : Appears z c j v) (hs : j.broker = some s) :
    Shows z c j v where
  client := h.client
  broker := ⟨s, hs, h.broker s hs⟩
  toBroker := h.toBroker
  toClient := h.toClient
  upward := h.upward
  downward := h.downward

/-- What a state without a broker would be with one. No step of the real system does this; it is a way to
use `step_spec` for the client's steps where there is no broker. -/
def System.restarted (j : System) : System := { j with broker := some (.new false) }

theorem Appears.restarted (h : Appears z c j v) (hnone : j.broker = none) :
    Shows z c j.restarted v where
  client := h.client
  broker := ⟨_, rfl, .new z false, (h.gone hnone).symm⟩
  toBroker := h.toBroker
  toClient := h.toClient
  upward := h.upward
  downward := h.downward

theorem Shows.of_restarted (h : Shows z c j.restarted v) (hnone : j.broker = none) :
    Appears z c j v where
  client := h.client
  broker s hs := by
    rw [hnone] at hs
    cases hs
  gone _ := by
    obtain ⟨s, hs, -, hentry⟩ := h.broker
    obtain rfl := Option.some.inj hs
    exact hentry.symm
  toBroker := h.toBroker
  toClient := h.toClient
  upward := h.upward
  downward := h.downward

/-- Without a broker, a step is the client's, and the same next to another one. -/
theorem step_restarted {l : Label} (hnone : j.broker = none) (hstep : step z c j l = some j') :
    step z c j.restarted l = some j'.restarted ∧ j'.broker = none := by
  cases stepped hstep with
  | command method hself =>
    refine ⟨?_, by rw [clientDid_broker, hnone]⟩
    simp only [step, System.restarted, hself, Option.bind_eq_bind, Option.bind_some]
    cases Client.sClientHandlePipe z method _ <;> rfl
  | toClient hself hqueue =>
    refine ⟨?_, by rw [clientDid_broker, hnone]⟩
    simp only [step, System.restarted, hself, hqueue, Option.bind_eq_bind, Option.bind_some]
    cases Client.sClientHandleProtocol z _ _ <;> rfl
  | toBroker hs _ => cases hnone.symm.trans hs
  | expire hs => cases hnone.symm.trans hs
  | others _ hs _ => cases hnone.symm.trans hs

/-- What can happen as long as the client is there: the moves, and the two ways to lose the broker. -/
inductive Happens (z : Czmq) (c : Frame) (v : View) : Label → View → Prop
  | move {l : Label} {v' : View} (move : Move z c v l v') : Happens z c v l v'
  /-- The broker reads a message of the client that it cannot decode. -/
  | malformed (frames : List Frame) (rest : List (List Frame)) (queue : v.toBroker = frames :: rest)
      (decoded : ∀ m, zccpMsgDecode frames ≠ .ok m) :
      Happens z c v .toBroker { v with toBroker := rest, entry := none }
  /-- It reads one of another peer. -/
  | others (input : Input) (decodable : ¬ input.Decodable) :
      Happens z c v (.others input) { v with entry := none }

/-- A message that the broker cannot decode is the last it reads, and it says nothing to it. -/
theorem brokerDid_malformed (s : Server) (routingId : Frame) (frames : List Frame)
    (h : ∀ m, zccpMsgDecode frames ≠ .ok m) :
    j.brokerDid c s (handle z (.message routingId frames) s) = { j with broker := none } := by
  rw [handle_malformed z s routingId frames h]
  simp [System.brokerDid, framesIn]

/-- The step at which the broker is lost. -/
theorem lost_spec {l : Label} {s : Server} (h : Shows z c j v) (hs : j.broker = some s)
    (hstep : step z c j l = some j') (hloses : Loses z v l) (hnone : j'.broker = none) :
    ∃ v', Happens z c v l v' ∧ Appears z c j' v' := by
  cases stepped hstep with
  | command method _ =>
    rw [clientDid_broker, hs] at hnone
    cases hnone
  | toClient _ _ =>
    rw [clientDid_broker] at hnone
    cases hs.symm.trans hnone
  | expire _ => exact hloses.elim
  | @toBroker s' frames rest _ hqueue =>
    obtain ⟨frames', rest', hqueue', hdec⟩ := hloses
    rw [h.toBroker, hqueue'] at hqueue
    obtain ⟨rfl, rfl⟩ := List.cons.inj hqueue
    refine ⟨_, .malformed _ _ hqueue' hdec, ?_⟩
    rw [brokerDid_malformed s' c frames' hdec]
    have hupward := h.upward
    rw [hqueue'] at hupward
    exact ⟨h.client, nofun, fun _ => rfl, rfl, h.toClient, hupward.tail, h.downward⟩
  | @others s' input _ hpeer =>
    refine ⟨_, .others input hloses, ?_⟩
    cases input with
    | expiry routingId => exact absurd trivial hloses
    | message routingId frames =>
      rw [brokerDid_malformed s' routingId frames fun m hm => hloses ⟨m, hm⟩]
      exact ⟨h.client, nofun, fun _ => rfl, h.toBroker, h.toClient, h.upward, h.downward⟩

/-- **One step**, with or without the broker. -/
theorem Appears.step {l : Label} (h : Appears z c j v) (hstep : Joint.step z c j l = some j')
    (hj' : j'.client ≠ none) : ∃ v', Happens z c v l v' ∧ Appears z c j' v' := by
  cases hs : j.broker with
  | some s =>
    have hshows := h.shows hs
    rcases step_spec hshows hstep with ⟨v', hmove, hshows'⟩ | ⟨hloses, hlost⟩
    · exact ⟨v', .move hmove, hshows'.appears⟩
    · exact lost_spec hshows hs hstep hloses (hlost.resolve_left hj')
  | none =>
    obtain ⟨hstep', hnone⟩ := step_restarted hs hstep
    rcases step_spec (h.restarted hs) hstep' with ⟨v', hmove, hshows'⟩ | ⟨-, hlost⟩
    · exact ⟨v', .move hmove, hshows'.of_restarted hnone⟩
    · rcases hlost with hlost | hlost
      · exact absurd hlost hj'
      · cases hlost

theorem appears_new (z : Czmq) (c : Frame) (verbose : Bool) : Appears z c (.new verbose) .new :=
  (shows_new z c verbose).appears

end Zccp.Joint
