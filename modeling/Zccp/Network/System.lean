import Zccp.Client.Api
import Zccp.Joint.System

/-!
# `Zccp/Network/System.lean` — any number of clients and the broker

The whole of it: a client actor for each of a set of routing ids, the broker, and between each
client and the broker two queues, first in, first out. Other programs speak to the broker too, under
routing ids of their own, and may send it whatever they like. Commands, deliveries, expiries and
strangers come in any order.

A client sees the network as the system of two in `Zccp/Joint/System.lean`, in which everybody else
is one of the `others`: `step_projects` says so, step by step, and with it what is true of every run of
that system is true of every client of every network (`run_at`). That is why so much is proved there,
where there are two queues to think of and not two for each client.

The actors' notes are what the queues are filled from. An actor appends to its trace what it sends, and
a step puts into the queues what the trace has got longer by. So the broker's one callback fills the
queues of all clients at once, which is what a `ROUTER` socket does with messages for many peers, and no
second account of what is sent has to be kept in step with the first.
-/

set_option autoImplicit false

namespace Zccp.Network

open Lib Broker
open Api (observed)
open Client (Actor actorStep)

/-! ## The system -/

/-- What can happen next. There is no label for a message that is lost or overtaken on its way: the
sockets are taken to keep order and to drop nothing, with high-water marks and broken connections left
out. -/
inductive Label
  /-- The application of the client `c` puts a command into its pipe. -/
  | command (c : Frame) (method : Client.Method)
  /-- The broker reads what `c` has sent. -/
  | toBroker (c : Frame)
  /-- The client `c` reads what the broker has sent. -/
  | toClient (c : Frame)
  /-- The broker's session of `c` expires. -/
  | expire (c : Frame)
  /-- Another program, with a routing id of its own, sends something to the broker. -/
  | stranger (c : Frame) (frames : List Frame)
deriving DecidableEq

/-- The broker, and how it has ended. One that has ended is kept: what it had sent by then is still on
its way. -/
inductive Host
  | up (s : Server)
  /-- The reactor has ended. -/
  | ended (s : Server)
  /-- A callback had no defined result. -/
  | aborted

/-- What is left of the broker. -/
def Host.server : Host → Option Server
  | up s => some s
  | ended s => some s
  | aborted => none

/-- What a callback leaves: `zloop` goes on as long as callbacks return 0. -/
def Host.ofCallback : Option (Server × Int) → Host
  | none => aborted
  | some (s, rc) => if rc = 0 then up s else ended s

/-- What a host has noted. -/
def Host.trace (host : Host) : List Obs := host.server.elim [] (·.trace)

/-- The actors, and what is in flight: for each client what it has sent and the broker has not read, and
the other way round. Both hold frames and not messages, since nothing is decoded before it is read. -/
structure System where
  client : Frame → Actor
  toBroker : Frame → List (List Frame)
  toClient : Frame → List (List Frame)
  broker : Host

namespace System

/-- Nothing has happened. -/
def new (verbose : Bool) : System where
  client := fun _ => .up .new
  toBroker := fun _ => []
  toClient := fun _ => []
  broker := .up (.new verbose)

/-- What a callback of the client `c` does, which leaves it as `actor`. -/
def clientDid (c : Frame) (actor : Actor) (n : System) : System := { n with
  client := Function.update n.client c actor
  toBroker := Function.update n.toBroker c
    (n.toBroker c ++ Client.framesIn ((observed actor).drop (observed (n.client c)).length)) }

/-- What a callback of the broker does, which leaves it as `host`. -/
def brokerDid (host : Host) (n : System) : System := { n with
  broker := host
  toClient := fun c =>
    n.toClient c ++ (framesIn c (host.trace.drop n.broker.trace.length)).map Prod.snd }

end System

/-- One step; `none` if it cannot be taken. `peers` are the routing ids of the clients. -/
def step (z : Czmq) (peers : Finset Frame) (n : System) : Label → Option System
  | .command c method =>
    match n.client c with
    | .up self =>
      if c ∈ peers then some (n.clientDid c (actorStep z (.up self) (.command method))) else none
    | _ => none
  | .toBroker c =>
    match n.broker, n.toBroker c with
    | .up s, frames :: rest =>
      some ({ n with toBroker := Function.update n.toBroker c rest }.brokerDid
        (.ofCallback (handle z (.message c frames) s)))
    | _, _ => none
  | .toClient c =>
    match n.client c, n.toClient c with
    | .up self, frames :: rest =>
      if c ∈ peers then
        some ({ n with toClient := Function.update n.toClient c rest }.clientDid c
          (actorStep z (.up self) (.message frames)))
      else none
    | _, _ => none
  | .expire c =>
    match n.broker with
    | .up s => some (n.brokerDid (.ofCallback (handle z (.expiry c) s)))
    | _ => none
  | .stranger c frames =>
    match n.broker with
    | .up s =>
      if c ∈ peers then none
      else some (n.brokerDid (.ofCallback (handle z (.message c frames) s)))
    | _ => none

/-- **What a step can do**, label by label. It is `step` read backwards, with the guards of each label as
hypotheses, so that the proofs below are by cases on what has happened and never unfold `step`. -/
inductive Stepped (z : Czmq) (peers : Finset Frame) (n : System) : Label → System → Prop
  | command (c : Frame) (method : Client.Method) {self : Client.SClient} (hc : c ∈ peers)
      (hself : n.client c = .up self) :
      Stepped z peers n (.command c method)
        (n.clientDid c (actorStep z (.up self) (.command method)))
  | toBroker (c : Frame) {s : Server} {frames : List Frame} {rest : List (List Frame)}
      (hs : n.broker = .up s) (hqueue : n.toBroker c = frames :: rest) :
      Stepped z peers n (.toBroker c)
        ({ n with toBroker := Function.update n.toBroker c rest }.brokerDid
          (.ofCallback (handle z (.message c frames) s)))
  | toClient (c : Frame) {self : Client.SClient} {frames : List Frame} {rest : List (List Frame)}
      (hc : c ∈ peers) (hself : n.client c = .up self) (hqueue : n.toClient c = frames :: rest) :
      Stepped z peers n (.toClient c)
        ({ n with toClient := Function.update n.toClient c rest }.clientDid c
          (actorStep z (.up self) (.message frames)))
  | expire (c : Frame) {s : Server} (hs : n.broker = .up s) :
      Stepped z peers n (.expire c) (n.brokerDid (.ofCallback (handle z (.expiry c) s)))
  | stranger (c : Frame) (frames : List Frame) {s : Server} (hc : c ∉ peers)
      (hs : n.broker = .up s) :
      Stepped z peers n (.stranger c frames)
        (n.brokerDid (.ofCallback (handle z (.message c frames) s)))

/-- Everything that a step can do, as for one client (`Joint.stepped`). -/
theorem stepped {z : Czmq} {peers : Finset Frame} {n n' : System} {l : Label}
    (hstep : step z peers n l = some n') : Stepped z peers n l n' := by
  cases l with
  | command c method =>
    simp only [step] at hstep
    split at hstep
    case h_1 self hself =>
      obtain ⟨hc, hn'⟩ := Option.ite_none_right_eq_some.mp hstep
      obtain rfl := Option.some.inj hn'
      exact .command c method hc hself
    case h_2 => cases hstep
  | toBroker c =>
    simp only [step] at hstep
    split at hstep
    case h_1 s frames rest hs hqueue =>
      obtain rfl := Option.some.inj hstep
      exact .toBroker c hs hqueue
    case h_2 => cases hstep
  | toClient c =>
    simp only [step] at hstep
    split at hstep
    case h_1 self frames rest hself hqueue =>
      obtain ⟨hc, hn'⟩ := Option.ite_none_right_eq_some.mp hstep
      obtain rfl := Option.some.inj hn'
      exact .toClient c hc hself hqueue
    case h_2 => cases hstep
  | expire c =>
    simp only [step] at hstep
    split at hstep
    case h_1 s hs =>
      obtain rfl := Option.some.inj hstep
      exact .expire c hs
    case h_2 => cases hstep
  | stranger c frames =>
    simp only [step] at hstep
    split at hstep
    case h_1 s hs =>
      obtain ⟨hc, hn'⟩ := Option.ite_none_left_eq_some.mp hstep
      obtain rfl := Option.some.inj hn'
      exact .stranger c frames hc hs
    case h_2 => cases hstep

/-- A run of the network. -/
def run (z : Czmq) (peers : Finset Frame) (verbose : Bool) (labels : List Label) : Option System :=
  runFrom (step z peers) (.new verbose) labels

/-! ## One client's view -/

/-- The client, if it is there. -/
def clientOf : Actor → Option Client.SClient
  | .up self => some self
  | _ => none

/-- The broker, if it is there. -/
def brokerOf : Host → Option Server
  | .up s => some s
  | _ => none

/-- The system of two that the client `c` sees: itself, its two queues and the broker. -/
def System.at (c : Frame) (n : System) : Joint.System where
  client := clientOf (n.client c)
  toBroker := n.toBroker c
  toClient := n.toClient c
  broker := brokerOf n.broker

/-- The step that the client `c` sees when a step of the network is taken; it does not see what
passes between another client and its application or its queue. -/
def seenBy (c : Frame) (n : System) : Label → List Joint.Label
  | .command d method => if d = c then [.command method] else []
  | .toBroker d =>
    if d = c then [.toBroker] else (n.toBroker d).head?.toList.map fun frames => .others (.message d frames)
  | .toClient d => if d = c then [.toClient] else []
  | .expire d => if d = c then [.expire] else [.others (.expiry d)]
  | .stranger d frames => [.others (.message d frames)]

variable {z : Czmq} {peers : Finset Frame} {c d : Frame} {n n' : System}

@[simp] theorem at_new (verbose : Bool) : (System.new verbose).at c = .new verbose := rfl

/-- What a callback of the client comes to in its own view: a step of the client in the system of two. -/
theorem at_clientDid {self : Client.SClient} {r : Except Client.Fault (Client.SClient × Int)}
    (hself : n.client c = .up self) :
    (n.clientDid c (.ofCallback r)).at c = (n.at c).clientDid self r := by
  cases r with
  | error fault =>
    simp [System.at, System.clientDid, Joint.System.clientDid, Client.Actor.ofCallback, clientOf,
      observed, Client.framesIn]
  | ok p =>
    obtain ⟨self', rc⟩ := p
    by_cases hrc : rc = 0 <;>
      simp [System.at, System.clientDid, Joint.System.clientDid, Client.Actor.ofCallback, clientOf,
        observed, hself, hrc]

/-- A client's own view shows nothing of what another client does. -/
theorem at_clientDid_of_ne (hne : d ≠ c) (actor : Actor) :
    (n.clientDid d actor).at c = n.at c := by
  simp [System.at, System.clientDid, Function.update_of_ne hne.symm]

/-- What a callback of the broker comes to in a client's view. -/
theorem at_brokerDid {s : Server} (hs : n.broker = .up s) (r : Option (Server × Int)) :
    (n.brokerDid (.ofCallback r)).at c = (n.at c).brokerDid c s r := by
  cases r with
  | none =>
    simp [System.at, System.brokerDid, Joint.System.brokerDid, Host.ofCallback, brokerOf, Host.trace,
      Host.server, framesIn]
  | some p =>
    obtain ⟨s', rc⟩ := p
    by_cases hrc : rc = 0 <;>
      simp [System.at, System.brokerDid, Joint.System.brokerDid, Host.ofCallback, brokerOf,
        Host.trace, Host.server, hs, hrc]

theorem at_of_up {self : Client.SClient} (hself : n.client c = .up self) :
    (n.at c).client = some self := by
  simp only [System.at, hself, clientOf]

theorem at_broker_of_up {s : Server} (hs : n.broker = .up s) : (n.at c).broker = some s := by
  simp only [System.at, hs, brokerOf]

section Pop

variable (rest : List (List Frame))

/-- What is taken from a queue of the client is taken from it in its own view. -/
theorem at_pop_toBroker : ({ n with toBroker := Function.update n.toBroker c rest } : System).at c =
    { n.at c with toBroker := rest } := by
  simp only [System.at, Function.update_self]

theorem at_pop_toClient : ({ n with toClient := Function.update n.toClient c rest } : System).at c =
    { n.at c with toClient := rest } := by
  simp only [System.at, Function.update_self]

/-- What is taken from a queue of another client is not seen there. -/
theorem at_pop_toBroker_of_ne (hne : d ≠ c) :
    ({ n with toBroker := Function.update n.toBroker d rest } : System).at c = n.at c := by
  simp only [System.at, Function.update_of_ne hne.symm]

theorem at_pop_toClient_of_ne (hne : d ≠ c) :
    ({ n with toClient := Function.update n.toClient d rest } : System).at c = n.at c := by
  simp only [System.at, Function.update_of_ne hne.symm]

end Pop

/-- What another peer does is to a client one of the `others`. The input has to be another's: what the
client itself says to the broker has to go through its queue. -/
theorem step_others {s : Server} (hs : n.broker = .up s) (input : Input) (hne : input.peer ≠ c) :
    Joint.step z c (n.at c) (.others input) = some ((n.at c).brokerDid c s (handle z input s)) := by
  simp only [Joint.step, if_neg hne, at_broker_of_up hs, Option.bind_eq_bind, Option.bind_some]

/-- **A step of the network** is to each client a step of the system of two, or none. -/
theorem step_projects {l : Label} (hc : c ∈ peers) (hstep : step z peers n l = some n') :
    runFrom (Joint.step z c) (n.at c) (seenBy c n l) = some (n'.at c) := by
  cases stepped hstep with
  | command d method hd hself =>
    by_cases hdc : d = c
    · subst hdc
      rw [seenBy, if_pos rfl, runFrom_singleton, actorStep, at_clientDid hself]
      simp only [Joint.step, at_of_up hself, Option.bind_eq_bind, Option.bind_some]
    · rw [seenBy, if_neg hdc, runFrom_nil, at_clientDid_of_ne hdc]
  | @toBroker d s frames rest hs hqueue =>
    rw [at_brokerDid (n := { n with toBroker := Function.update n.toBroker d rest }) hs]
    by_cases hdc : d = c
    · subst hdc
      have hup : (n.at d).toBroker = frames :: rest := hqueue
      rw [seenBy, if_pos rfl, runFrom_singleton, at_pop_toBroker]
      simp only [Joint.step, at_broker_of_up hs, hup, Option.bind_eq_bind, Option.bind_some]
    · rw [seenBy, if_neg hdc, hqueue, List.head?_cons, Option.toList_some, List.map_cons,
        List.map_nil, runFrom_singleton, step_others hs (.message d frames) hdc,
        at_pop_toBroker_of_ne rest hdc]
  | @toClient d self frames rest hd hself hqueue =>
    by_cases hdc : d = c
    · subst hdc
      have hdown : (n.at d).toClient = frames :: rest := hqueue
      rw [seenBy, if_pos rfl, runFrom_singleton, actorStep,
        at_clientDid (n := { n with toClient := Function.update n.toClient d rest }) hself,
        at_pop_toClient]
      simp only [Joint.step, at_of_up hself, hdown, Option.bind_eq_bind, Option.bind_some]
    · rw [seenBy, if_neg hdc, runFrom_nil, at_clientDid_of_ne hdc, at_pop_toClient_of_ne rest hdc]
  | @expire d s hs =>
    rw [at_brokerDid hs]
    by_cases hdc : d = c
    · subst hdc
      rw [seenBy, if_pos rfl, runFrom_singleton]
      simp only [Joint.step, at_broker_of_up hs, Option.bind_eq_bind, Option.bind_some]
    · rw [seenBy, if_neg hdc, runFrom_singleton, step_others hs (.expiry d) hdc]
  | @stranger d frames s hd hs =>
    have hdc : d ≠ c := fun h => hd (h ▸ hc)
    rw [at_brokerDid hs, seenBy, runFrom_singleton, step_others hs (.message d frames) hdc]

/-- **Every client sees a system of two.** Whatever happens in a network, each of its clients goes
through a run of the system of two and ends where it ends there; the others of that system are the
other clients and the strangers. -/
theorem run_at {labels : List Label} {verbose : Bool} (hc : c ∈ peers)
    (hrun : run z peers verbose labels = some n) :
    Joint.run z c verbose (seenFrom (step z peers) (seenBy c) (.new verbose) labels) =
      some (n.at c) :=
  runFrom_projects (f := System.at c) (fun _ _ _ => step_projects hc) hrun

end Zccp.Network
