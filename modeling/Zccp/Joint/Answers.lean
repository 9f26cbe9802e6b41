import Zccp.Joint.Agreement

/-!
# `Zccp/Joint/Answers.lean` — is every call answered?

CONNECT and SUBSCRIBE are commands of blocking calls: the application waits until the actor has sent
a SUCCESS or a FAILURE for them. `asked` and `told` count both in the actor's trace, and the
difference is `pending`, 1 in the two states that wait for the broker, and one more for every lapse:
a command that the state machine discards, or an INVALID that takes it out of a waiting state.

A waiting client has its request or the answer to it in flight (`Attended`), so with nothing in
flight nothing is pending. There is one exception, and it needs no lapse. An expression of 256 bytes
goes out with a length byte of 0, the broker cannot decode that and ends, and the client waits for an
answer of nobody: a stranding. `answered_iff` says that with nothing in flight, whoever is still
there, every call has been answered if and only if no step of the run was a lapse or a stranding.

The hard half is that a stranding cannot be made good. Without lapses there is never more than one
SUBSCRIBE or SUBSCRIBE_OK about, and none but in `subscribing` (`inFlight`), so when the one there is
has been stranded, nothing can take the client out of that state any more.
-/

set_option autoImplicit false

namespace Zccp.Joint

open Lib Broker

variable {z : Czmq} {c : Frame} {j j' : System} {v v' : View}

/-! ## Counting -/

/-- A command that the application waits for the answer to: `zccp_client_connect` and
`zccp_client_subscribe` block in `s_accept_reply`, `zccp_client_publish` does not. -/
def isCall : Client.Method → Bool
  | .connect _ _ => true
  | .subscribe _ => true
  | _ => false

/-- Such a command, when it is taken. -/
def isAsked : Client.Obs → Bool
  | .command method => isCall method
  | _ => false

/-- An answer to one. -/
def isTold : Client.Obs → Bool
  | .reply (.success _) => true
  | .reply (.failure _ _) => true
  | _ => false

/-- How many calls an actor has taken that its caller waits on. -/
def asked (self : Client.SClient) : Nat := self.trace.countP isAsked

/-- How many answers it has given to its caller. -/
def told (self : Client.SClient) : Nat := self.trace.countP isTold

/-- The calls that a client in this state is about to answer. In `reconnecting` there is none, whatever it
had taken before: HELLO_OK signals nothing there. -/
def pending : Client.State → Nat
  | .connecting => 1
  | .subscribing => 1
  | _ => 0

/-- Whether the first message of a queue is an INVALID. -/
def invalidNext : List (List Frame) → Bool
  | [] => false
  | frames :: _ =>
    match zccpMsgDecode frames with
    | .ok m => m.id = .invalid
    | .error _ => false

/-- **A step that leaves a call unanswered**: a CONNECT that is not the first, a SUBSCRIBE of a client
that is not connected, or an INVALID for a client that waits for another answer. -/
def lapse (j : System) : Label → Bool
  | .command (.connect _ _) => j.client.any (·.state ≠ .start)
  | .command (.subscribe _) => j.client.any (·.state ≠ .connected)
  | .toClient => j.client.any (pending ·.state = 1) && invalidNext j.toClient
  | _ => false

/-- How many of the steps of a run do. -/
def lapses (z : Czmq) (c : Frame) (j : System) (labels : List Label) : Nat :=
  costFrom (step z c) (fun j l => (lapse j l).toNat) j labels

/-- **A step that strands a call**: the broker reads a SUBSCRIBE of the client that it cannot decode,
which is the end of the broker. -/
def strands (j : System) : Label → Bool
  | .toBroker => j.toBroker.head?.any fun frames =>
      hasCode .subscribe frames && !(zccpMsgDecode frames).isOk
  | _ => false

/-- How many of the steps of a run do. -/
def strandings (z : Czmq) (c : Frame) (j : System) (labels : List Label) : Nat :=
  costFrom (step z c) (fun j l => (strands j l).toNat) j labels

/-- What goes wrong at a step: a lapse, a stranding, or mostly neither. The two are kept in one account,
since what a stranding costs depends on there having been no lapse before. -/
def mishap (j : System) (l : Label) : Nat × Nat := ((lapse j l).toNat, (strands j l).toNat)

/-! ## The calls of a client -/

/-- What a turn adds to the two counts. -/
theorem turn_counts (self : Client.SClient) {self₁ self' : Client.SClient} {t : List Client.Obs}
    {r : Client.Reaction}
    (hturn : Client.Turn self₁ self' r) (htrace : self₁.trace = self.trace ++ t) :
    asked self' = asked self + (t ++ r.notes).countP isAsked ∧
      told self' = told self + (t ++ r.notes).countP isTold := by
  simp only [asked, told, hturn.trace, htrace, List.append_assoc, List.countP_append, and_self]

theorem command_balance {self self' : Client.SClient} {m : Client.Method} {n : Nat}
    (hself : j.client = some self)
    (hturn : Client.Turn (self.taking z m) self' (Client.commanding z self m))
    (h : asked self = told self + pending self.state + n) :
    asked self' = told self' + pending self'.state + (n + (lapse j (.command m)).toNat) := by
  obtain ⟨hasked, htold⟩ := turn_counts self hturn (self.taking_trace m)
  rw [hasked, htold, hturn.state]
  cases hs : self.state <;> rw [hs] at h <;> cases m <;>
    simp [lapse, hself, Client.commanding, Client.reaction, hs, Client.Method.event,
      Client.SClient.keeping, Client.SClient.sending, Client.SClient.sent, List.countP_cons, isAsked,
      isTold, isCall, pending] at h ⊢ <;>
    omega

theorem message_balance {self self' : Client.SClient} {m : ZccpMsg} {event : Client.Event} {n : Nat}
    (hid : Client.Downward m.id) (hevent : Client.sProtocolEvent m = some event)
    (hturn : Client.Turn { self with msgin := some m } self'
      (Client.reaction { self with msgin := some m } event))
    (h : asked self = told self + pending self.state + n) :
    asked self' = told self' + pending self'.state +
      (n + (decide (pending self.state = 1) && decide (m.id = .invalid)).toNat) := by
  obtain ⟨hasked, htold⟩ := turn_counts self hturn (List.append_nil _).symm
  rw [hasked, htold, hturn.state]
  unfold Client.sProtocolEvent at hevent
  unfold Client.reaction
  rcases hid with hid | hid | hid | hid <;> rw [hid] at hevent ⊢ <;> cases hevent <;>
    cases hs : self.state <;> rw [hs] at h <;>
    simp [Client.SClient.keeping, Client.SClient.sending, Client.SClient.sent, isAsked, isTold,
      Client.delivery, pending] at h ⊢ <;>
    omega

/-- A client that is there has been there before the step. -/
theorem client_before {l : Label} {self' : Client.SClient} (hstep : step z c j l = some j')
    (hself' : j'.client = some self') : ∃ self, j.client = some self := by
  cases stepped hstep with
  | command _ hself => exact ⟨_, hself⟩
  | toClient hself _ => exact ⟨_, hself⟩
  | toBroker _ _ => exact ⟨self', by rwa [brokerDid_client] at hself'⟩
  | expire _ => exact ⟨self', by rwa [brokerDid_client] at hself'⟩
  | others _ _ _ => exact ⟨self', by rwa [brokerDid_client] at hself'⟩

theorem Appears.running {self : Client.SClient} (h : Appears z c j v) (hself : j.client = some self) :
    Client.Running self ∧ self.state = v.state := by
  obtain ⟨self', hself', hrunning, hstate⟩ := h.client
  obtain rfl := Option.some.inj (hself.symm.trans hself')
  exact ⟨hrunning, hstate⟩

theorem lapse_toClient {self : Client.SClient} {frames : List Frame} {rest : List (List Frame)}
    {m : ZccpMsg} (hself : j.client = some self) (hqueue : j.toClient = frames :: rest)
    (hdec : zccpMsgDecode frames = .ok m) :
    lapse j .toClient = (decide (pending self.state = 1) && decide (m.id = .invalid)) := by
  simp only [lapse, hself, hqueue, invalidNext, hdec, Option.any_some]

/-- A command that leaves the client there is not $TERM and does not abort, so its turn is known. -/
theorem command_step_balance {self self' : Client.SClient} {m : Client.Method} {n : Nat}
    (hrunning : Client.Running self) (hself : j.client = some self)
    (hself' : (j.clientDid self (Client.sClientHandlePipe z m self)).client = some self')
    (h : asked self = told self + pending self.state + n) :
    asked self' = told self' + pending self'.state + (n + (lapse j (.command m)).toNat) := by
  by_cases hm : m = .term
  · subst hm
    obtain ⟨self₁, hpipe⟩ := Client.term_spec (z := z) (c := self)
    rw [hpipe] at hself'
    cases hself'
  by_cases habort : Client.Aborts z self.state m
  · obtain ⟨event, hpipe⟩ := Client.abort_spec hrunning habort
    rw [hpipe] at hself'
    cases hself'
  obtain ⟨self₁, hpipe, hturn⟩ := Client.command_turn hrunning hm habort
  rw [hpipe] at hself'
  obtain rfl := Option.some.inj hself'
  exact command_balance hself hturn h

/-- A message that leaves the client there can be read, is of the broker's kinds and finds the client
connected or on the way, so its turn is known too. -/
theorem message_step_balance {self self' : Client.SClient} {frames : List Frame}
    {rest : List (List Frame)} {n : Nat} (hrunning : Client.Running self)
    (hdown : Holds Client.Downward j.toClient) (hself : j.client = some self)
    (hqueue : j.toClient = frames :: rest)
    (hself' : ({ j with toClient := rest }.clientDid self
      (Client.sClientHandleProtocol z frames self)).client = some self')
    (h : asked self = told self + pending self.state + n) :
    asked self' = told self' + pending self'.state + (n + (lapse j .toClient).toNat) := by
  rw [hqueue] at hdown
  cases hdec : zccpMsgDecode frames with
  | error e =>
    rw [Client.protocol_malformed (by simp [hdec])] at hself'
    cases hself'
  | ok m =>
    have hid := hdown frames List.mem_cons_self m hdec
    obtain ⟨event, hevent⟩ : ∃ event, Client.sProtocolEvent m = some event := by
      unfold Client.sProtocolEvent
      rcases hid with hid | hid | hid | hid <;> rw [hid] <;> exact ⟨_, rfl⟩
    by_cases hs : self.state = .start
    · rw [Client.message_start hrunning hs hdec hevent] at hself'
      cases hself'
    obtain ⟨self₁, hprotocol, hturn⟩ := Client.message_turn (z := z) hrunning hs hdec hevent
    rw [hprotocol] at hself'
    obtain rfl := Option.some.inj hself'
    rw [lapse_toClient hself hqueue hdec]
    exact message_balance hid hevent hturn h

/-- **One step.** The calls that a client has not answered are the one that is pending and one for
each lapse. The broker does not come into it: a client counts its own commands and replies. -/
theorem Appears.balance {self self' : Client.SClient} {l : Label} {n : Nat} (h : Appears z c j v)
    (hstep : Joint.step z c j l = some j') (hself : j.client = some self)
    (hself' : j'.client = some self') (hbal : asked self = told self + pending self.state + n) :
    asked self' = told self' + pending self'.state + (n + (lapse j l).toNat) := by
  have hrunning := (h.running hself).1
  -- what the broker does is nothing to these counts
  have hbroker : j'.client = j.client → lapse j l = false →
      asked self' = told self' + pending self'.state + (n + (lapse j l).toNat) := by
    intro hsame hlapse
    rw [hsame, hself] at hself'
    obtain rfl := Option.some.inj hself'
    rw [hlapse]
    exact hbal
  have hinv := stepped hstep
  cases hinv with
  | command m hself₁ =>
    obtain rfl := Option.some.inj (hself.symm.trans hself₁)
    exact command_step_balance hrunning hself hself' hbal
  | toClient hself₁ hqueue =>
    obtain rfl := Option.some.inj (hself.symm.trans hself₁)
    exact message_step_balance hrunning (h.toClient ▸ h.downward) hself hqueue hself' hbal
  | toBroker _ _ => exact hbroker (brokerDid_client ..) rfl
  | expire _ => exact hbroker (brokerDid_client ..) rfl
  | others _ _ _ => exact hbroker (brokerDid_client ..) rfl

/-! ## What is pending is in flight -/

/-- The request is on its way to the broker, or the answer to it is on its way back. -/
def Underway (request : List Frame → Prop) (reply : MsgId) (v : View) : Prop :=
  (∃ frames ∈ v.toBroker, request frames) ∨
  ∃ frames ∈ v.toClient, ∀ m, zccpMsgDecode frames = .ok m → m.id = reply ∨ m.id = .invalid

/-- A HELLO. It has no text of the application in it and can always be decoded, so a CONNECT is never
stranded. -/
def IsGreeting (frames : List Frame) : Prop := ∃ m, zccpMsgDecode frames = .ok m ∧ m.id = .hello

/-- How many SUBSCRIBEs are on their way to the broker, and answers to one on their way back. -/
def inFlight (v : View) : Nat :=
  v.toBroker.countP (hasCode .subscribe) + v.toClient.countP (hasCode .subscribeOk)

/-- As many as a client in this state waits for: one in `subscribing`. With a lapse there may be more
about, of calls that nobody waits for any more; without one there are just as many. -/
def awaited : Client.State → Nat
  | .subscribing => 1
  | _ => 0

/-- A client that waits for an answer will get one, if nothing has been stranded. And as long as there
has been no lapse, there is nothing about but what it waits for, where a call that was stranded counts
as well. `n` is how many lapses and strandings there have been. -/
structure Attended (v : View) (n : Nat × Nat) : Prop where
  connecting : v.state = .connecting → Underway IsGreeting .helloOk v
  subscribing : v.state = .subscribing → n.2 = 0 →
    Underway (hasCode .subscribe · = true) .subscribeOk v
  single : n.1 = 0 → inFlight v + n.2 ≤ awaited v.state

section Underway

variable {request : List Frame → Prop} {reply : MsgId}

/-- More messages do no harm: what is underway stays so when something joins a queue. -/
theorem Underway.mono (h : Underway request reply v) (hup : v.toBroker ⊆ v'.toBroker)
    (hdown : v.toClient ⊆ v'.toClient) : Underway request reply v' := by
  rcases h with ⟨frames, hmem, hreq⟩ | ⟨frames, hmem, hid⟩
  · exact .inl ⟨frames, hup hmem, hreq⟩
  · exact .inr ⟨frames, hdown hmem, hid⟩

/-- The broker reads a message: if it is the request, it answers it. -/
theorem Underway.toBroker {frames : List Frame} {rest : List (List Frame)} {m : ZccpMsg}
    (h : Underway request reply v) (hqueue : v.toBroker = frames :: rest)
    (hanswer : request frames → ∃ r ∈ PubSub.answer v.entry m.request,
      replyId r = reply ∨ replyId r = .invalid) :
    Underway request reply { v with
      toBroker := rest
      toClient := v.toClient ++ (PubSub.answer v.entry m.request).map (replyWire z c)
      entry := PubSub.settle (policy z) v.entry m.request } := by
  rcases h with ⟨frames', hmem, hreq⟩ | ⟨frames', hmem, hid⟩
  · rw [hqueue] at hmem
    rcases List.mem_cons.mp hmem with rfl | hmem
    · obtain ⟨r, hr, hreply⟩ := hanswer hreq
      refine .inr ⟨replyWire z c r, ?_, fun m' hm' => ?_⟩
      · exact List.mem_append_right _ (List.mem_map_of_mem hr)
      · rw [zccpMsgDecode_wire_id hm', replyMsg_id]
        exact hreply
    · exact .inl ⟨frames', hmem, hreq⟩
  · exact .inr ⟨frames', List.mem_append_left _ hmem, hid⟩

/-- It reads one that it cannot decode: if that is not the request, nothing is lost but the broker. -/
theorem Underway.malformed {frames : List Frame} {rest : List (List Frame)}
    (h : Underway request reply v) (hqueue : v.toBroker = frames :: rest) (hnot : ¬ request frames) :
    Underway request reply { v with toBroker := rest, entry := none } := by
  rcases h with ⟨frames', hmem, hreq⟩ | ⟨frames', hmem, hid⟩
  · rw [hqueue] at hmem
    rcases List.mem_cons.mp hmem with rfl | hmem
    · exact absurd hreq hnot
    · exact .inl ⟨frames', hmem, hreq⟩
  · exact .inr ⟨frames', hmem, hid⟩

theorem Underway.toClient {frames : List Frame} {rest : List (List Frame)} {m : ZccpMsg}
    {state : Client.State} {more : List (List Frame)} (h : Underway request reply v)
    (hqueue : v.toClient = frames :: rest) (hdec : zccpMsgDecode frames = .ok m)
    (hnot : m.id ≠ reply ∧ m.id ≠ .invalid) :
    Underway request reply { v with
      state := state, toClient := rest, toBroker := v.toBroker ++ more } := by
  rcases h with ⟨frames', hmem, hreq⟩ | ⟨frames', hmem, hid⟩
  · exact .inl ⟨frames', List.mem_append_left _ hmem, hreq⟩
  · rw [hqueue] at hmem
    rcases List.mem_cons.mp hmem with rfl | hmem
    · rcases hid m hdec with hid | hid
      · exact absurd hid hnot.1
      · exact absurd hid hnot.2
    · exact .inr ⟨frames', hmem, hid⟩

end Underway

/-- A client that waits after a message has waited before it, and the message was not for it. -/
theorem waiting_of_received (state : Client.State) {id : MsgId} (hid : Client.Downward id) :
    (Client.received state id = .connecting →
      state = .connecting ∧ id ≠ .helloOk ∧ id ≠ .invalid) ∧
    (Client.received state id = .subscribing →
      state = .subscribing ∧ id ≠ .subscribeOk ∧ id ≠ .invalid) := by
  rcases hid with rfl | rfl | rfl | rfl <;> cases state <;> simp [Client.received]

/-- What a client waits for, it goes on waiting for, unless the message is the answer; an INVALID for
one that waits would be a lapse. -/
theorem awaited_received (state : Client.State) {id : MsgId} (hid : Client.Downward id)
    (h : (decide (pending state = 1) && decide (id = .invalid)) = false) :
    awaited state ≤ awaited (Client.received state id) + if id = .subscribeOk then 1 else 0 := by
  rcases hid with rfl | rfl | rfl | rfl <;> cases state <;> revert h <;> decide

/-- A SUBSCRIBE is answered with one SUBSCRIBE_OK at most, and nothing else with any. -/
theorem countP_answer {m : ZccpMsg} (hid : Upward m.id) (d : Option (PubSub.Member CStr CStr)) :
    ((PubSub.answer d m.request).map (replyWire z c)).countP (hasCode .subscribeOk) ≤
      if m.id = .subscribe then 1 else 0 := by
  unfold ZccpMsg.request
  rcases hid with hid | hid | hid <;> rw [hid] <;> cases d <;>
    simp [PubSub.answer, replyWire, hasCode_wire, replyMsg_id, replyId]

theorem countP_deliver {replies : List (PubSub.Reply CStr CStr (Option (List Frame)))}
    (h : ∀ r ∈ replies, r.IsDeliver) :
    (replies.map (replyWire z c)).countP (hasCode .subscribeOk) = 0 := by
  rw [List.countP_eq_zero]
  intro frames hmem
  obtain ⟨r, hr, rfl⟩ := List.mem_map.mp hmem
  have hdeliver := h r hr
  cases r with
  | deliver => simp [replyWire, hasCode_wire, replyMsg_id, replyId]
  | _ => exact hdeliver.elim

theorem inFlight_send (state : Client.State) (msg : ZccpMsg) :
    inFlight { v with state := state, toBroker := v.toBroker ++ [wire msg] } =
      inFlight v + if msg.id = .subscribe then 1 else 0 := by
  simp only [inFlight, List.countP_append, List.countP_singleton, hasCode_wire, decide_eq_true_eq]
  omega

theorem strands_toBroker {frames : List Frame} {rest : List (List Frame)} (h : Appears z c j v)
    (hqueue : v.toBroker = frames :: rest) :
    strands j .toBroker = (hasCode .subscribe frames && !(zccpMsgDecode frames).isOk) := by
  simp only [strands, h.toBroker, hqueue, List.head?_cons, Option.any_some]

/-! ## One step -/

section Attended

variable {n : Nat × Nat}

/-- The broker takes a message that it can read. It answers a HELLO and a SUBSCRIBE with or without a session,
so what was waited for in the one queue is now in the other. -/
theorem Attended.toBroker {frames : List Frame} {rest : List (List Frame)} {m : ZccpMsg}
    (h : Attended v n) (hqueue : v.toBroker = frames :: rest)
    (hdec : zccpMsgDecode frames = .ok m) (hid : Upward m.id) :
    Attended { v with
      toBroker := rest
      toClient := v.toClient ++ (PubSub.answer v.entry m.request).map (replyWire z c)
      entry := PubSub.settle (policy z) v.entry m.request } n where
  connecting hs := by
    refine (h.connecting hs).toBroker hqueue ?_
    rintro ⟨m', hm', hid'⟩
    obtain rfl := Except.ok.inj (hdec.symm.trans hm')
    simp only [ZccpMsg.request, hid']
    cases v.entry with
    | none => exact ⟨.helloOk, List.mem_cons_self, .inl rfl⟩
    | some mem => exact ⟨.invalid, List.mem_cons_self, .inr rfl⟩
  subscribing hs hn := by
    refine (h.subscribing hs hn).toBroker hqueue fun hsub => ?_
    rw [hasCode_of_decode _ hdec, decide_eq_true_iff] at hsub
    simp only [ZccpMsg.request, hsub]
    cases v.entry with
    | none => exact ⟨.invalid, List.mem_cons_self, .inr rfl⟩
    | some mem => exact ⟨.subscribeOk, List.mem_cons_self, .inl rfl⟩
  single hn := by
    have hsingle := h.single hn
    have hanswer := countP_answer (z := z) (c := c) hid v.entry
    simp only [inFlight, hqueue, List.countP_cons, hasCode_of_decode _ hdec, List.countP_append,
      decide_eq_true_eq] at hsingle ⊢
    omega

/-- The broker takes a message that it cannot read, and is gone. A SUBSCRIBE among those is stranded, which is
counted; any other was no message that an answer could have come to. -/
theorem Attended.malformed {frames : List Frame} {rest : List (List Frame)} (h : Attended v n)
    (happears : Appears z c j v) (hqueue : v.toBroker = frames :: rest)
    (hdec : ∀ m, zccpMsgDecode frames ≠ .ok m) :
    Attended { v with toBroker := rest, entry := none } (n + mishap j .toBroker) := by
  have hmishap : mishap j .toBroker = (0, (hasCode .subscribe frames).toNat) := by
    cases hd : zccpMsgDecode frames with
    | ok m => exact absurd hd (hdec m)
    | error e => simp [mishap, lapse, strands_toBroker happears hqueue, hd, Except.isOk, Except.toBool]
  rw [hmishap]
  constructor
  · intro hs
    refine (h.connecting hs).malformed hqueue ?_
    rintro ⟨m, hm, -⟩
    exact hdec m hm
  · intro hs hn
    -- nothing has been stranded, so it was not the SUBSCRIBE
    have hnot : ¬ hasCode .subscribe frames = true := by
      intro hsub
      simp [hsub] at hn
    exact (h.subscribing hs (Nat.add_eq_zero_iff.mp hn).1).malformed hqueue hnot
  · intro hn
    have hsingle := h.single hn
    simp only [inFlight, hqueue, List.countP_cons, Prod.snd_add] at hsingle ⊢
    cases hsub : hasCode .subscribe frames
    · rw [hsub] at hsingle
      simpa using hsingle
    · rw [hsub] at hsingle
      simp only [if_true, Bool.toNat_true] at hsingle ⊢
      omega

/-- The client takes a message. It goes on waiting only if the message was not the answer, and the one that
ends the wait without a reply to the caller is the INVALID, which is counted as a lapse. -/
theorem Attended.toClient {frames : List Frame} {rest : List (List Frame)} {m hello : ZccpMsg}
    (h : Attended v n) (happears : Appears z c j v) (hqueue : v.toClient = frames :: rest)
    (hdec : zccpMsgDecode frames = .ok m) (hid : Client.Downward m.id) (hhello : hello.id = .hello) :
    Attended { v with
      state := Client.received v.state m.id
      toClient := rest
      toBroker := v.toBroker ++ if m.id = .invalid then [wire hello] else [] }
      (n + mishap j .toClient) := by
  obtain ⟨hconnecting, hsubscribing⟩ := waiting_of_received v.state hid
  obtain ⟨self, hself, -, hstate⟩ := happears.client
  have hmishap : mishap j .toClient =
      ((decide (pending v.state = 1) && decide (m.id = .invalid)).toNat, 0) := by
    simp only [mishap, lapse_toClient hself (happears.toClient.trans hqueue) hdec, hstate, strands]
    rfl
  rw [hmishap]
  constructor
  · intro hs
    obtain ⟨hwas, hnot⟩ := hconnecting hs
    exact (h.connecting hwas).toClient hqueue hdec hnot
  · intro hs hn
    obtain ⟨hwas, hnot⟩ := hsubscribing hs
    exact (h.subscribing hwas hn).toClient hqueue hdec hnot
  · intro hn
    simp only [Prod.fst_add, Nat.add_eq_zero_iff] at hn
    have hsingle := h.single hn.1
    have hnone : (if m.id = .invalid then [wire hello] else []).countP (hasCode .subscribe) = 0 := by
      split <;> simp [hasCode_wire, hhello]
    simp only [inFlight, hqueue, List.countP_cons, List.countP_append, hnone,
      hasCode_of_decode _ hdec, Prod.snd_add] at hsingle ⊢
    have hawaited := awaited_received v.state hid (Bool.toNat_eq_zero.mp hn.2)
    simp only [decide_eq_true_eq] at hsingle ⊢
    omega

/-- **One step**: the answer that is waited for stays on its way, until a mishap is counted. -/
theorem Attended.happens {l : Label} (h : Attended v n) (happears : Appears z c j v)
    (hhappens : Happens z c v l v') : Attended v' (n + mishap j l) := by
  cases hhappens with
  | malformed frames rest queue decoded => exact h.malformed happears queue decoded
  | others input decodable =>
    exact ⟨h.connecting, h.subscribing, h.single⟩
  | move hmove =>
    cases hmove with
    | connect endpoint timeout msg id fits state =>
      refine ⟨fun _ => .inl ⟨wire msg, List.mem_append_right _ List.mem_cons_self, ?_⟩, nofun, ?_⟩
      · have hdec := zccpMsgDecode_wire (by rw [id]; decide) fits
        exact ⟨_, hdec, (zccpMsgDecode_wire_id hdec).trans id⟩
      · intro hn
        have hsingle := h.single (Nat.add_eq_zero_iff.mp hn).1
        rw [state] at hsingle
        rw [inFlight_send, id]
        exact hsingle
    | subscribe expression msg id hexpression headers state =>
      refine ⟨nofun, fun _ _ => .inl ⟨wire msg, List.mem_append_right _ List.mem_cons_self, ?_⟩, ?_⟩
      · exact (hasCode_wire .subscribe msg).trans (decide_eq_true id)
      · intro hn
        have hsingle := h.single (Nat.add_eq_zero_iff.mp hn).1
        rw [state] at hsingle
        rw [inFlight_send, if_pos id, Nat.add_right_comm]
        exact Nat.succ_le_succ hsingle
    | publish address content msg id state =>
      refine ⟨nofun, nofun, fun hn => ?_⟩
      have hsingle := h.single (Nat.add_eq_zero_iff.mp hn).1
      rw [state] at hsingle
      rw [inFlight_send, id]
      exact hsingle
    | ignore method acts =>
      refine ⟨h.connecting, h.subscribing, fun hn => ?_⟩
      exact h.single (Nat.add_eq_zero_iff.mp hn).1
    | toBroker frames rest m queue decoded id =>
      -- what the broker can read is no mishap
      have hmishap : mishap j .toBroker = 0 := by
        simp [mishap, lapse, strands_toBroker happears queue, decoded, Except.isOk, Except.toBool]
      rw [hmishap, add_zero]
      exact h.toBroker queue decoded id
    | toClient frames rest m hello queue decoded id hid fits state =>
      exact h.toClient happears queue decoded id hid
    | expire => exact ⟨h.connecting, h.subscribing, h.single⟩
    | others input replies peer deliver =>
      -- other peers can cause DELIVERs only, and nobody waits for those
      have hnone := countP_deliver (z := z) (c := c) deliver
      refine ⟨fun hs => (h.connecting hs).mono (List.Subset.refl _) (List.subset_append_left _ _),
        fun hs hn => (h.subscribing hs hn).mono (List.Subset.refl _) (List.subset_append_left _ _), ?_⟩
      intro hn
      have hsingle := h.single hn
      simp only [inFlight, List.countP_append, hnone] at hsingle ⊢
      exact hsingle

end Attended

/-! ## Runs -/

/-- The account of a run, kept with the client. -/
def Kept (z : Czmq) (c : Frame) (j : System) (n : Nat × Nat) : Prop :=
  ∀ self, j.client = some self →
    asked self = told self + pending self.state + n.1 ∧ ∃ v, Appears z c j v ∧ Attended v n

/-- **One step.** -/
theorem Kept.step {l : Label} {n : Nat × Nat} (h : Kept z c j n)
    (hstep : Joint.step z c j l = some j') : Kept z c j' (n + mishap j l) := by
  intro self' hself'
  obtain ⟨self, hself⟩ := client_before hstep hself'
  obtain ⟨hbal, v, happears, hattended⟩ := h self hself
  obtain ⟨v', hhappens, happears'⟩ := happears.step hstep (by simp [hself'])
  exact ⟨happears.balance hstep hself hself' hbal, v', happears', hattended.happens happears hhappens⟩

theorem kept_new (z : Czmq) (c : Frame) (verbose : Bool) : Kept z c (.new verbose) 0 := by
  intro self hself
  obtain rfl := Option.some.inj hself
  refine ⟨rfl, .new, appears_new z c verbose, nofun, nofun, fun _ => ?_⟩
  exact Nat.le_refl 0

/-- **A run.** -/
theorem kept_run {verbose : Bool} {labels : List Label} (hrun : run z c verbose labels = some j) :
    Kept z c j (lapses z c (.new verbose) labels, strandings z c (.new verbose) labels) := by
  have hkept := runFrom_costs (I := Kept z c) (fun _ _ _ _ h hstep => h.step hstep)
    (kept_new z c verbose) hrun
  rw [zero_add] at hkept
  rwa [show mishap = fun j l => ((lapse j l).toNat, (strands j l).toNat) from rfl, costFrom_mk]
    at hkept

/-- With nothing in flight, nothing is pending but what was stranded. -/
theorem pending_eq_zero {n : Nat × Nat} (h : Attended v n) (hup : v.toBroker = [])
    (hdown : v.toClient = []) (hn : n.2 = 0) : pending v.state = 0 := by
  have hnot : ∀ request reply, ¬ Underway request reply v := by
    rintro request reply (⟨frames, hmem, -⟩ | ⟨frames, hmem, -⟩)
    · rw [hup] at hmem
      cases hmem
    · rw [hdown] at hmem
      cases hmem
  unfold pending
  split
  · case h_1 hs => exact absurd (h.connecting hs) (hnot _ _)
  · case h_2 hs => exact absurd (h.subscribing hs hn) (hnot _ _)
  · rfl

/-- What is stranded stays pending, if there has been no lapse: the SUBSCRIBE that was stranded is the one
that the client waits for, no answer to it is about, and none can come. -/
theorem Attended.stranded_le {n : Nat × Nat} (h : Attended v n) (hn : n.1 = 0) :
    n.2 ≤ pending v.state := by
  have hsingle := h.single hn
  have hle : awaited v.state ≤ pending v.state := by
    cases v.state <;> decide
  omega

/-- **When every call is answered.** In every state that a run can reach, the client has answered no
more calls than it has taken. And when nothing is in flight any more, whether the broker is still
there or not, it has answered as many if and only if no step of the run was a lapse or a stranding.
Where nothing was stranded, the application waits for as many answers as there were lapses. -/
theorem answered_iff (z : Czmq) (c : Frame) (verbose : Bool) (labels : List Label) (j : System)
    (self : Client.SClient) (hrun : run z c verbose labels = some j) (hself : j.client = some self) :
    told self ≤ asked self ∧
      (j.toBroker = [] → j.toClient = [] →
        (asked self = told self ↔
          lapses z c (.new verbose) labels = 0 ∧ strandings z c (.new verbose) labels = 0) ∧
        (strandings z c (.new verbose) labels = 0 →
          asked self = told self + lapses z c (.new verbose) labels)) := by
  obtain ⟨hbal, v, happears, hattended⟩ := kept_run hrun self hself
  refine ⟨by omega, fun hup hdown => ?_⟩
  rw [happears.toBroker] at hup
  rw [happears.toClient] at hdown
  have hnone := pending_eq_zero hattended hup hdown
  have hstranded := hattended.stranded_le
  rw [(happears.running hself).2] at hbal
  dsimp only at hbal hnone hstranded
  constructor
  · constructor
    · intro heq
      have hlapses : lapses z c (.new verbose) labels = 0 := by omega
      have := hstranded hlapses
      omega
    · rintro ⟨hlapses, hstrandings⟩
      have := hnone hstrandings
      omega
  · intro hstrandings
    have := hnone hstrandings
    omega

/-- A client that has connected has been told so. -/
theorem answered_iff_connecting :
    let z := Czmq.printing .literal strictPrintf
    let e := CStr.ofBytes [65]
    ∃ j self, run z [1] false (connecting e) = some j ∧ j.client = some self ∧
      asked self = 1 ∧ told self = 1 := by
  intro z e
  obtain ⟨j, hrun, hj⟩ := (Option.any_eq_true ..).mp (show
    (run z [1] false (connecting e)).any (fun j => j.client.any (fun self => asked self = 1) &&
      decide (j.toBroker = [] ∧ j.toClient = [])) = true by decide +kernel)
  obtain ⟨hclient, hrests⟩ := Bool.and_eq_true_iff.mp hj
  obtain ⟨hup, hdown⟩ := of_decide_eq_true hrests
  obtain ⟨self, hself, hasked⟩ := (Option.any_eq_true ..).mp hclient
  have hasked := of_decide_eq_true hasked
  obtain ⟨-, hiff⟩ := answered_iff z [1] false (connecting e) j self hrun hself
  have hnone : lapses z [1] (.new false) (connecting e) = 0 ∧
      strandings z [1] (.new false) (connecting e) = 0 := by decide +kernel
  refine ⟨j, self, hrun, hself, hasked, ?_⟩
  rw [← (hiff hup hdown).1.mpr hnone, hasked]

/-- A call that is stranded: a connected client subscribes to an expression of 256 bytes. The broker
is gone, nothing is in flight and no step was a lapse, but the client goes on waiting. -/
example :
    (run (.printing .literal strictPrintf) [1] false (connecting (.ofBytes [65]) ++
        [.command (.subscribe (.ofBytes (List.replicate 256 65))), .toBroker])).any (fun j =>
      decide (j.broker.isNone ∧ j.toBroker = [] ∧ j.toClient = []) &&
        j.client.any fun self => self.state = .subscribing ∧ asked self = 2 ∧ told self = 1) = true := by
  decide +kernel

/-- **A call that is not answered.** The session expires and the client subscribes. The broker answers
INVALID, which takes the client through `reconnecting` back to `connected`, and the SUBSCRIBE has
neither a SUCCESS nor a FAILURE. -/
theorem not_answered_invalid :
    let z := Czmq.printing .literal strictPrintf
    let e := CStr.ofBytes [65]
    ∃ j self, run z [1] false (connecting e ++ [.expire, .command (.subscribe e), .toBroker,
        .toClient, .toBroker, .toClient]) = some j ∧
      j.client = some self ∧ j.broker ≠ none ∧ j.toBroker = [] ∧ j.toClient = [] ∧
      self.state = .connected ∧ asked self = 2 ∧ told self = 1 := by
  intro z e
  obtain ⟨j, hrun, hj⟩ := (Option.any_eq_true ..).mp (show
    (run z [1] false (connecting e ++ [.expire, .command (.subscribe e), .toBroker,
        .toClient, .toBroker, .toClient])).any
      (fun j => j.client.any (fun self => self.state = .connected ∧ asked self = 2 ∧ told self = 1) &&
        decide (j.broker ≠ none ∧ j.toBroker = [] ∧ j.toClient = [])) = true by decide +kernel)
  obtain ⟨hclient, hrests⟩ := Bool.and_eq_true_iff.mp hj
  obtain ⟨hbroker, hup, hdown⟩ := of_decide_eq_true hrests
  obtain ⟨self, hself, hcounts⟩ := (Option.any_eq_true ..).mp hclient
  exact ⟨j, self, hrun, hself, hbroker, hup, hdown, of_decide_eq_true hcounts⟩

end Zccp.Joint
