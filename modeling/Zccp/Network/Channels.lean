import Zccp.Broker.Delivery
import Zccp.Client.Wire
import Zccp.Network.System

/-!
# `Zccp/Network/Channels.lean` — nothing is lost between the actors

What each actor of a network has been through, and what the queues have to do with it. The history
of a run is the list of what the broker and the clients have been given, each in its turn
(`Happening`). `IsHistory` is what holds between a history and the state it leads to: each client is
where its own part of the history leads a client on its own, the broker is where its part leads a
broker on its own, and what an actor has read of a queue together with what is still in it is what
the other end has sent, in that order.

It is here that the network falls into its parts. Each actor's own theory (`Zccp/Client/Runs.lean`,
`Zccp/Broker/Runs.lean`) is about what an actor does that is given a list of inputs, by nobody in
particular; with `isHistory_of_run` all of it applies to each of the actors of a network, and what is
left to argue about is lists that are parts of each other.

A client that is aborted takes its notes with it, and has sent nothing (`framesIn_of_start`): the one
state in which an event ends the process is the one in which it has not spoken yet.
-/

set_option autoImplicit false

namespace Zccp.Network

open Lib Broker
open Api (observed)
open Client (Actor actorStep actorRun)

variable {z : Czmq} {peers : Finset Frame} {verbose : Bool} {c d : Frame} {n n' : System}

/-! ## What a client has sent -/

section Client

variable {self self' : Client.SClient}

/-- A client that is still in start state has not sent anything: the one way out of it is by a CONNECT,
whose HELLO is the first thing that goes out, and no way leads back. -/
theorem framesIn_of_start {inputs : List Client.Input} (h : actorRun z inputs = .up self)
    (hs : self.state = .start) : Client.framesIn self.trace = [] := by
  induction inputs using List.reverseRecOn generalizing self with
  | nil =>
    cases h
    rfl
  | append_singleton inputs input ih =>
    obtain ⟨self₀, hrun, hstep⟩ := Client.actorRun_up_init h
    obtain ⟨hrunning, hnone⟩ := Client.actorRun_running hrun
    have hdoes := Client.actorStep_does (z := z) hrunning hnone input
    rw [hstep] at hdoes
    cases hdoes with
    | @command m _ hm survives turn =>
      obtain ⟨hstate, hnotes, -⟩ := Client.commanding_eq z self₀ m
      rw [turn.state, hstate] at hs
      have hsame : self₀.state = .start ∧ Client.commanded z self₀ m = [] := by
        unfold Client.accepted at hs
        unfold Client.commanded
        cases hs₀ : self₀.state <;> rw [hs₀] at hs <;> cases m <;>
          first | cases hs; done | exact ⟨rfl, rfl⟩
      rw [turn.trace, Client.SClient.taking_trace, Client.framesIn_append, Client.framesIn_append,
        ih hrun hsame.1, hnotes, hsame.2]
      rfl
    | message state decoded raises turn =>
      have hstarted : Client.Started self.state := by
        rw [turn.state]
        exact Client.started_reaction (hrunning.started state)
      exact absurd hs hstarted.1
    | timer => exact ih hrun hs

/-- What an actor has sent is what it had sent before, and what it sends in this step. An actor that
is aborted has not sent anything. -/
theorem framesIn_actorStep {inputs : List Client.Input} (h : actorRun z inputs = .up self)
    (input : Client.Input) : Client.framesIn (observed (actorStep z (.up self) input)) =
      Client.framesIn self.trace ++
        Client.framesIn ((observed (actorStep z (.up self) input)).drop self.trace.length) := by
  obtain ⟨hrunning, hnone⟩ := Client.actorRun_running h
  have happend : ∀ t t' : List Client.Obs, t' = self.trace ++ t →
      Client.framesIn t' = Client.framesIn self.trace ++
        Client.framesIn (t'.drop self.trace.length) := by
    rintro t _ rfl
    rw [List.drop_left, Client.framesIn_append]
  have hdoes := Client.actorStep_does (z := z) hrunning hnone input
  generalize actorStep z (.up self) input = actor at hdoes ⊢
  cases hdoes with
  | @command m _ hm survives turn =>
    refine happend (.command m :: (Client.commanding z self m).notes) _ ?_
    rw [observed, turn.trace, Client.SClient.taking_trace, List.append_assoc, List.singleton_append]
  | term quiet => exact happend _ _ quiet
  | @abort m event aborts =>
    have hs : self.state = .start := by
      unfold Client.Aborts at aborts
      split at aborts <;> first | assumption | exact aborts.elim
    rw [framesIn_of_start h hs]
    simp [observed, Client.framesIn]
  | message state decoded raises turn => exact happend _ _ turn.trace
  | malformed => exact happend [] _ (List.append_nil _).symm
  | halts decoded raises quiet => exact happend [] _ (quiet.trans (List.append_nil _).symm)
  | early state =>
    rw [framesIn_of_start h state]
    simp [observed, Client.framesIn]
  | timer => exact happend [] _ (List.append_nil _).symm

end Client

/-! ## Histories -/

/-- An actor is given something. A history is in the order in which things are given to the actors, which
is the one order that all of them could agree on. -/
inductive Happening
  | host (input : Input)
  | client (c : Frame) (input : Client.Input)
deriving DecidableEq

/-- What a step gives an actor. -/
def happening (n : System) : Label → List Happening
  | .command c method => [.client c (.command method)]
  | .toBroker c => (n.toBroker c).head?.toList.map fun frames => .host (.message c frames)
  | .toClient c => (n.toClient c).head?.toList.map fun frames => .client c (.message frames)
  | .expire c => [.host (.expiry c)]
  | .stranger c frames => [.host (.message c frames)]

/-- The history of a run. -/
def history (z : Czmq) (peers : Finset Frame) (verbose : Bool) (labels : List Label) :
    List Happening :=
  seenFrom (step z peers) happening (.new verbose) labels

/-- What the broker has been given. -/
def heard (h : List Happening) : List Input := h.filterMap fun
  | .host input => some input
  | .client _ _ => none

/-- What the client `c` has been given. -/
def takenBy (c : Frame) (h : List Happening) : List Client.Input := h.filterMap fun
  | .host _ => none
  | .client d input => if d = c then some input else none

/-- The messages of a peer among what the broker has been given. -/
def framesFrom (c : Frame) (inputs : List Input) : List (List Frame) := inputs.filterMap fun
  | .message d frames => if d = c then some frames else none
  | .expiry _ => none

/-- The messages among what a client has been given. -/
def framesRead (inputs : List Client.Input) : List (List Frame) := inputs.filterMap fun
  | .message frames => some frames
  | _ => none

section Append

variable (h h' : List Happening)

@[simp] theorem heard_append : heard (h ++ h') = heard h ++ heard h' := List.filterMap_append

@[simp] theorem takenBy_append : takenBy c (h ++ h') = takenBy c h ++ takenBy c h' :=
  List.filterMap_append

@[simp] theorem framesFrom_append (inputs inputs' : List Input) :
    framesFrom c (inputs ++ inputs') = framesFrom c inputs ++ framesFrom c inputs' :=
  List.filterMap_append

@[simp] theorem framesRead_append (inputs inputs' : List Client.Input) :
    framesRead (inputs ++ inputs') = framesRead inputs ++ framesRead inputs' :=
  List.filterMap_append

end Append

/-- The broker is where a broker is that has been given `inputs` on its own, up to the one that it
could not decode and that has ended it, if there has been one. -/
def Follows (z : Czmq) (verbose : Bool) (host : Host) (inputs : List Input) : Prop :=
  match host with
  | .up s => Broker.run z verbose inputs = some s
  | .ended s => ∃ before last, inputs = before ++ [last] ∧ ¬ last.Decodable ∧
      Broker.run z verbose before = some s
  | .aborted => False

/-- **What a history says** about the state it has led to. `up` and `down` are the two queues of each
client as conservation laws: read and in flight are together what has been sent. `idle` is for the
routing ids that no client has, whose queues `step` would otherwise be free to fill. -/
structure IsHistory (z : Czmq) (peers : Finset Frame) (verbose : Bool) (n : System)
    (h : List Happening) : Prop where
  client : ∀ c, n.client c = actorRun z (takenBy c h)
  idle : ∀ c, c ∉ peers → n.toBroker c = []
  broker : Follows z verbose n.broker (heard h)
  up : ∀ c ∈ peers,
    framesFrom c (heard h) ++ n.toBroker c = Client.framesIn (observed (n.client c))
  down : ∀ c ∈ peers,
    framesRead (takenBy c h) ++ n.toClient c = (framesIn c n.broker.trace).map Prod.snd

theorem isHistory_new : IsHistory z peers verbose (.new verbose) [] where
  client := fun _ => rfl
  idle := fun _ _ => rfl
  broker := rfl
  up := fun _ _ => rfl
  down := fun _ _ => rfl

/-! ## One step -/

/-- The broker is given one more input. -/
theorem Follows.handle {s : Server} {inputs : List Input} (h : Follows z verbose (.up s) inputs)
    (input : Input) : Follows z verbose (.ofCallback (handle z input s)) (inputs ++ [input]) ∧
      ∃ t, (Host.ofCallback (handle z input s)).trace = s.trace ++ t := by
  have hinv : Inv z s.core := (implements_of_run h).inv
  by_cases hdec : input.Decodable
  · obtain ⟨s', t, hs', -, htrace⟩ := handle_spec hinv hdec
    rw [hs']
    refine ⟨?_, t, htrace⟩
    show Broker.run z verbose (inputs ++ [input]) = some s'
    rw [run_append_singleton, show Broker.run z verbose inputs = some s from h, Option.bind_some,
      step_of_handle hs']
  · cases input with
    | expiry routingId => exact absurd trivial hdec
    | message routingId frames =>
      rw [handle_malformed z s routingId frames fun m hm => hdec ⟨m, hm⟩]
      exact ⟨⟨inputs, _, rfl, hdec, h⟩, [], (List.append_nil _).symm⟩

/-- The trace of the broker only gets longer. -/
theorem framesIn_handle {s : Server} {host : Host} (h : ∃ t, host.trace = s.trace ++ t) (c : Frame) :
    framesIn c host.trace = framesIn c s.trace ++ framesIn c (host.trace.drop s.trace.length) := by
  obtain ⟨t, ht⟩ := h
  rw [ht, List.drop_left, framesIn, List.filterMap_append]
  rfl

/-- A callback of the broker. `queue` is what the callback leaves in the queues it reads from, less by
what it has taken or the same, so that all labels that come down to a callback of the broker share
this lemma. -/
theorem IsHistory.brokerDid {s : Server} {h : List Happening} {input : Input}
    (hhistory : IsHistory z peers verbose n h) (hs : n.broker = .up s) {queue : Frame → List (List Frame)}
    (hqueue : ∀ c ∈ peers, framesFrom c [input] ++ queue c = n.toBroker c)
    (hidle : ∀ c, c ∉ peers → queue c = []) :
    IsHistory z peers verbose
      ({ n with toBroker := queue }.brokerDid (.ofCallback (handle z input s)))
      (h ++ [.host input]) := by
  have hfollows := hhistory.broker
  rw [hs] at hfollows
  obtain ⟨hnext, htrace⟩ := hfollows.handle input
  have hnobody : ∀ c, takenBy c [.host input] = [] := fun _ => rfl
  constructor
  · intro c
    rw [takenBy_append, hnobody, List.append_nil]
    exact hhistory.client c
  · exact hidle
  · rw [heard_append]
    exact hnext
  · intro c hc
    rw [heard_append, framesFrom_append, List.append_assoc]
    show _ ++ (framesFrom c [input] ++ queue c) = _
    rw [hqueue c hc]
    exact hhistory.up c hc
  · intro c hc
    rw [takenBy_append, hnobody, List.append_nil]
    show framesRead _ ++ (n.toClient c ++ _) = (framesIn c _).map _
    rw [← List.append_assoc, hhistory.down c hc, hs]
    show _ = (framesIn c (Host.ofCallback _).trace).map _
    rw [framesIn_handle htrace c, List.map_append]
    rfl

/-- A callback of a client, on a command or on a message; `queue` is as above. -/
theorem IsHistory.clientDid {self : Client.SClient} {h : List Happening} {input : Client.Input}
    (hhistory : IsHistory z peers verbose n h) (hc : c ∈ peers) (hself : n.client c = .up self)
    {queue : Frame → List (List Frame)}
    (hqueue : ∀ d ∈ peers, framesRead (takenBy d [.client c input]) ++ queue d = n.toClient d) :
    IsHistory z peers verbose
      ({ n with toClient := queue }.clientDid c (actorStep z (.up self) input))
      (h ++ [.client c input]) := by
  have hrun : actorRun z (takenBy c h) = .up self := (hhistory.client c).symm.trans hself
  have hunheard : heard [.client c input] = [] := rfl
  have hnobody : ∀ {d}, d ≠ c → takenBy d [.client c input] = [] := by
    intro d hdc
    simp [takenBy, Ne.symm hdc]
  constructor
  · intro d
    by_cases hdc : d = c
    · subst hdc
      have htaken : takenBy d [.client d input] = [input] := by simp [takenBy]
      rw [takenBy_append, htaken, Client.actorRun_snoc, hrun]
      exact Function.update_self ..
    · rw [takenBy_append, hnobody hdc, List.append_nil, ← hhistory.client d]
      exact Function.update_of_ne hdc ..
  · intro d hd
    have hdc : d ≠ c := fun h => hd (h ▸ hc)
    exact (Function.update_of_ne hdc ..).trans (hhistory.idle d hd)
  · rw [heard_append, hunheard, List.append_nil]
    exact hhistory.broker
  · intro d hd
    rw [heard_append, hunheard, List.append_nil]
    simp only [System.clientDid]
    by_cases hdc : d = c
    · subst hdc
      rw [Function.update_self, Function.update_self, ← List.append_assoc, hhistory.up d hd, hself]
      exact (framesIn_actorStep hrun input).symm
    · rw [Function.update_of_ne hdc, Function.update_of_ne hdc]
      exact hhistory.up d hd
  · intro d hd
    rw [takenBy_append, framesRead_append, List.append_assoc]
    show _ ++ (_ ++ queue d) = _
    rw [hqueue d hd]
    exact hhistory.down d hd

/-- **One step.** -/
theorem IsHistory.step {h : List Happening} {l : Label} (hhistory : IsHistory z peers verbose n h)
    (hstep : step z peers n l = some n') : IsHistory z peers verbose n' (h ++ happening n l) := by
  cases stepped hstep with
  | command c method hc hself =>
    refine hhistory.clientDid hc hself fun d _ => ?_
    have hread : framesRead (takenBy d [.client c (.command method)]) = [] := by
      by_cases hdc : c = d
      · simp [takenBy, framesRead, hdc]
      · simp [takenBy, framesRead, hdc]
    rw [hread, List.nil_append]
  | @toBroker c s frames rest hs hqueue =>
    have hgiven : happening n (.toBroker c) = [.host (.message c frames)] := by
      rw [happening, hqueue]
      rfl
    rw [hgiven]
    refine hhistory.brokerDid hs (fun d _ => ?_) fun d hd => ?_
    · by_cases hdc : d = c
      · subst hdc
        simp [framesFrom, hqueue]
      · simp [framesFrom, Ne.symm hdc, Function.update_of_ne hdc]
    · have hdc : d ≠ c := by
        rintro rfl
        have := hhistory.idle d hd
        rw [hqueue] at this
        cases this
      rw [Function.update_of_ne hdc]
      exact hhistory.idle d hd
  | @toClient c self frames rest hc hself hqueue =>
    have hgiven : happening n (.toClient c) = [.client c (.message frames)] := by
      rw [happening, hqueue]
      rfl
    rw [hgiven]
    refine hhistory.clientDid hc hself fun d _ => ?_
    by_cases hdc : d = c
    · subst hdc
      simp [takenBy, framesRead, hqueue]
    · simp [takenBy, framesRead, Ne.symm hdc, Function.update_of_ne hdc]
  | expire c hs => exact hhistory.brokerDid hs (fun d _ => rfl) hhistory.idle
  | stranger c frames hc hs =>
    refine hhistory.brokerDid hs (fun d hd => ?_) hhistory.idle
    have hdc : c ≠ d := fun h => hc (h ▸ hd)
    simp [framesFrom, hdc]

/-- **Nothing is lost, doubled or reordered** between the actors of a network. -/
theorem isHistory_of_run {labels : List Label} (hrun : run z peers verbose labels = some n) :
    IsHistory z peers verbose n (history z peers verbose labels) :=
  runFrom_seen (I := IsHistory z peers verbose) (l := []) (fun _ _ _ _ h hstep => h.step hstep)
    isHistory_new hrun

end Zccp.Network
