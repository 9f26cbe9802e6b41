import Zccp.Lib.Attribution
import Zccp.Network.Channels

/-!
# `Zccp/Network/Delivery.lean` — from one application to another

What the applications of a network get of each other. A PUBLISH command goes through a client, a
queue, the broker, another queue and another client before it is a MESSAGE on an application's pipe,
and each of the six may be ahead of the others or behind. `end_to_end` is what is left of all that:
whatever an application has been given has been published by another, under that address and with
that content, and the publications of any one client come in the order in which it has published
them, none more often than the recipient has subscribed to different expressions that match.

Other programs publish, too. What comes from one of them has to be tied to a PUBLISH that it has sent,
or the statement would be empty as soon as a network has one: everything could be put down to it. It is
not tied to it as closely as a client's. A stranger may give itself a name in a HELLO, and more than one
in the course of time, and its address may have a percent sign in it; what the recipient is given is the
address and the content as they come through the broker's setters under one of these names (`heardAs`).

The proof takes the five hand-overs one by one, each as a list that is a part of another: what has been
given of what has been read (`given_sublist`), what has been read of what the broker has told
(`IsHistory.read`), what it has told of what it has heard published (`PubSub.traced_outputs_sublist`),
what it has heard of what has gone out (`IsHistory.publications`), and that of what the application has
asked for. No hand-over needs to know how far the others have come.
-/

set_option autoImplicit false

namespace Zccp.Network

open Lib Broker
open scoped List
open Api (observed)
open Client (Actor actorStep actorRun taken goesOut requested volunteered)

variable {z : Czmq} {peers : Finset Frame} {verbose : Bool} {c p : Frame} {n : System}

/-! ## What an application is given -/

/-- The MESSAGE replies among what an actor has noted. -/
def messagesIn (t : List Client.Obs) : List Client.Reply := t.filterMap fun
  | .reply (.message sender address content) => some (.message sender address content)
  | _ => none

/-- What the application of a client has been given. -/
def given (actor : Actor) : List Client.Reply := messagesIn (observed actor)

/-- What a connected client makes of a message. In any other state it makes nothing of it for the
application, which is why states stand beside inputs below. -/
def deliverOf (frames : List Frame) : Option Client.Reply :=
  match zccpMsgDecode frames with
  | .ok m => if m.id = .deliver then some (Client.delivery m) else none
  | .error _ => none

/-- What the application is given when an input is taken. -/
def gives : Client.State × Client.Input → Option Client.Reply
  | (.connected, .message frames) => deliverOf frames
  | _ => none

section Given

variable {self : Client.SClient}

theorem messagesIn_append (t t' : List Client.Obs) :
    messagesIn (t ++ t') = messagesIn t ++ messagesIn t' := List.filterMap_append

/-- Nothing but a DELIVER is for the application: `deliver_message_to_application` is the one action that
sends a MESSAGE, and the table of the state machine has it in one place. -/
theorem messagesIn_reaction (event : Client.Event) :
    messagesIn (Client.reaction self event).notes =
      if self.state = .connected ∧ event = .deliver then
        (self.msgin.map Client.delivery).toList else [] := by
  unfold Client.reaction
  split
  case h_8 hs =>
    rw [if_pos ⟨hs, rfl⟩]
    cases self.msgin <;> rfl
  all_goals
    rw [if_neg (by grind)]
    rfl

theorem messagesIn_commanding (m : Client.Method) :
    messagesIn (Client.commanding z self m).notes = [] := by
  have hevent : m.event ≠ .deliver := by
    intro h
    cases m <;> cases h
  unfold Client.commanding
  split
  · rfl
  · rfl
  · rw [messagesIn_reaction, if_neg fun h => hevent h.2]

/-- A message of the broker's. -/
theorem gives_message {frames : List Frame} {m : ZccpMsg} {event : Client.Event}
    (hdec : zccpMsgDecode frames = .ok m) (hevent : Client.sProtocolEvent m = some event) :
    (if self.state = .connected ∧ event = .deliver then [Client.delivery m] else []) =
      (gives (self.state, .message frames)).toList := by
  have hiff : event = .deliver ↔ m.id = .deliver := by
    unfold Client.sProtocolEvent at hevent
    cases hid : m.id <;> rw [hid] at hevent <;> cases hevent <;> simp
  cases hs : self.state with
  | connected =>
    simp only [gives, deliverOf, hdec, true_and, hiff]
    split <;> rfl
  | _ => rfl

/-- An input that the actor survives gives the application what `gives` says. -/
theorem given_up {self' : Client.SClient} {input : Client.Input}
    (h : messagesIn self'.trace = messagesIn self.trace ++ (gives (self.state, input)).toList) :
    given (.up self') <+ messagesIn self.trace ++ (gives (self.state, input)).toList ∧
      ∀ self₁, Actor.up self' = .up self₁ →
        messagesIn self₁.trace = messagesIn self.trace ++ (gives (self.state, input)).toList := by
  refine ⟨h ▸ List.Sublist.refl _, fun self₁ h₁ => ?_⟩
  cases h₁
  exact h

/-- An input that ends the actor gives the application nothing: the reactor ends before the state machine
has seen the message, or with no action done. -/
theorem given_over {actor : Actor} {input : Client.Input} (hover : actor.isUp = false)
    (h : given actor <+ messagesIn self.trace) :
    given actor <+ messagesIn self.trace ++ (gives (self.state, input)).toList ∧
      ∀ self₁, actor = .up self₁ →
        messagesIn self₁.trace = messagesIn self.trace ++ (gives (self.state, input)).toList := by
  refine ⟨h.trans (List.sublist_append_left _ _), fun self₁ h₁ => ?_⟩
  rw [h₁] at hover
  cases hover

/-- **One input.** -/
theorem given_step (h : Client.Running self) (hnone : self.timers = []) (input : Client.Input) :
    given (actorStep z (.up self) input) <+
      messagesIn self.trace ++ (gives (self.state, input)).toList ∧
    ∀ self', actorStep z (.up self) input = .up self' →
      messagesIn self'.trace = messagesIn self.trace ++ (gives (self.state, input)).toList := by
  have hdoes := Client.actorStep_does (z := z) h hnone input
  generalize actorStep z (.up self) input = actor at hdoes ⊢
  cases hdoes with
  | @command m _ hm survives turn =>
    have hquiet : gives (self.state, .command m) = none := by
      cases self.state <;> rfl
    apply given_up
    rw [turn.trace, Client.SClient.taking_trace, messagesIn_append, messagesIn_append,
      messagesIn_commanding, hquiet, List.append_nil]
    rfl
  | message state decoded raises turn =>
    apply given_up
    rw [turn.trace, messagesIn_append, messagesIn_reaction, ← gives_message decoded raises]
    rfl
  | @timer timer =>
    have hquiet : gives (self.state, .timer timer) = none := by
      cases self.state <;> rfl
    apply given_up
    rw [hquiet]
    exact (List.append_nil _).symm
  | term quiet =>
    apply given_over rfl
    rw [given, observed, quiet, messagesIn_append]
    exact (List.append_nil (messagesIn self.trace)).symm ▸ List.Sublist.refl _
  | malformed => exact given_over rfl (List.Sublist.refl _)
  | halts decoded raises quiet =>
    apply given_over rfl
    rw [given, observed, quiet]
  | abort => exact given_over rfl (List.nil_sublist _)
  | early => exact given_over rfl (List.nil_sublist _)

/-- **What an application has been given** is what its client has been sent while it was connected. -/
theorem given_foldl (inputs : List Client.Input) (h : Client.Running self) (hnone : self.timers = []) :
    given (inputs.foldl (actorStep z) (.up self)) <+
      messagesIn self.trace ++ (taken z (.up self) inputs).filterMap gives := by
  induction inputs generalizing self with
  | nil => exact List.sublist_append_left _ _
  | cons input inputs ih =>
    obtain ⟨hsub, hup⟩ := given_step (z := z) h hnone input
    rw [List.foldl_cons, taken, List.filterMap_cons]
    cases hstep : actorStep z (.up self) input with
    | up self₁ =>
      obtain ⟨hrunning₁, hnone₁⟩ := Client.actorStep_up h hnone hstep
      have hrest := ih hrunning₁ hnone₁
      rw [hup self₁ hstep, List.append_assoc] at hrest
      cases hgives : gives (self.state, input) <;> rw [hgives] at hrest <;> exact hrest
    | _ =>
      rw [hstep] at hsub
      rw [Client.foldl_actorStep_over rfl, Client.taken_over rfl]
      cases hgives : gives (self.state, input) <;> rw [hgives] at hsub <;> exact hsub

theorem taken_initial (actor : Actor) (inputs : List Client.Input) :
    (taken z actor inputs).map Prod.snd <+: inputs := by
  induction inputs generalizing actor with
  | nil => cases actor <;> exact List.nil_prefix
  | cons input inputs ih =>
    cases actor with
    | up self => exact List.cons_prefix_cons.mpr ⟨rfl, ih _⟩
    | _ => exact List.nil_prefix

/-- What has been given is a part of what has been read, in the order in which it has. Only a part: what
is read in another state than `connected` is not passed on. -/
theorem given_sublist (inputs : List Client.Input) :
    given (actorRun z inputs) <+ (framesRead inputs).filterMap deliverOf := by
  have hgiven := given_foldl (z := z) inputs Client.running_new rfl
  refine hgiven.trans ?_
  have hread : ∀ xs : List (Client.State × Client.Input),
      xs.filterMap gives <+ (framesRead (xs.map Prod.snd)).filterMap deliverOf := by
    intro xs
    induction xs with
    | nil => exact List.nil_sublist _
    | cons x xs ih =>
      obtain ⟨state, input⟩ := x
      cases input with
      | message frames =>
        have hone : (gives (state, .message frames)).toList <+ (deliverOf frames).toList := by
          cases state <;> first | exact List.Sublist.refl _ | exact List.nil_sublist _
        rw [List.filterMap_cons, List.map_cons, framesRead, List.filterMap_cons, List.filterMap_cons]
        have := hone.append ih
        cases hg : gives (state, .message frames) <;> cases hd : deliverOf frames <;>
          rw [hg, hd] at this <;> exact this
      | _ =>
        rw [List.filterMap_cons, List.map_cons, framesRead, List.filterMap_cons]
        cases state <;> exact ih
  refine (hread _).trans (List.Sublist.filterMap _ (List.Sublist.filterMap _ ?_))
  exact (taken_initial _ inputs).sublist

end Given

/-! ## What a client says -/

/-- The address and the content of a PUBLISH command, if it is taken in connected state. -/
def posted : Client.State × Client.Input → Option (CStr × CStr)
  | (.connected, .command (.publish address content)) => some (address, content)
  | _ => none

theorem posted_eq {x : Client.State × Client.Input} {y : CStr × CStr} (h : posted x = some y) :
    x = (.connected, .command (.publish y.1 y.2)) := by
  unfold posted at h
  split at h <;> cases h
  rfl

/-- The expression of a SUBSCRIBE command, if it is. -/
def subscribed : Client.State × Client.Input → Option CStr
  | (.connected, .command (.subscribe expression)) => some expression
  | _ => none

/-- What the broker makes of a message from a peer. -/
def requestIn (frames : List Frame) : PubSub.Request CStr CStr CStr (Option (List Frame)) :=
  match zccpMsgDecode frames with
  | .ok m => m.request
  | .error _ => .other

/-- The address and the body of a PUBLISH. -/
def published : PubSub.Request CStr CStr CStr (Option (List Frame)) →
    Option (CStr × Option (List Frame))
  | .publish address body => some (address, body)
  | _ => none

/-- A text that goes out as it is: the setters take it for a format, so there is no percent sign (37) in
it, and it fits its one-byte length. -/
def Verbatim (s : CStr) : Prop := 37 ∉ s.bytes ∧ s.Short

instance (s : CStr) : Decidable (Verbatim s) := inferInstanceAs (Decidable (_ ∧ _))

/-- A command whose address or expression goes out as it is. -/
def VerbatimCommand : Client.Method → Prop
  | .subscribe expression => Verbatim expression
  | .publish address _ => Verbatim address
  | _ => True

instance : DecidablePred VerbatimCommand
  | .subscribe _ => inferInstanceAs (Decidable (Verbatim _))
  | .publish _ _ => inferInstanceAs (Decidable (Verbatim _))
  | .connect _ _ | .verbose | .term | .other => .isTrue trivial

/-- What goes out with an input asks for what the input has asked for: a HELLO has no name, an expression
or an address is that of the command. -/
theorem request_goesOut {x : Client.State × Client.Input} {m : ZccpMsg} (h : goesOut x = some m) :
    (∀ name, m.request = .hello name → name = .empty) ∧
    (∀ expression, m.request = .subscribe expression → subscribed x = some expression) ∧
    published m.request = (posted x).map fun y => (y.1, some [y.2.bytes]) := by
  rcases Option.or_eq_some_iff.mp h with hr | ⟨hr, hv⟩
  · unfold requested at hr
    split at hr <;> cases hr
    · refine ⟨nofun, fun e he => ?_, rfl⟩
      cases he
      rfl
    · exact ⟨nofun, nofun, rfl⟩
  · have hposted : posted x = none := by
      unfold posted
      split
      · cases hr
      · rfl
    rcases Client.eq_of_volunteered hv with rfl | rfl
    · refine ⟨fun name hname => ?_, nofun, by rw [hposted]; rfl⟩
      cases hname
      rfl
    · exact ⟨nofun, nofun, by rw [hposted]; rfl⟩

/-- What a message asks for that has gone out. -/
theorem published_goesOut (xs : List (Client.State × Client.Input)) :
    (xs.filterMap goesOut).filterMap (fun m => published m.request) =
      (xs.filterMap posted).map fun y => (y.1, some [y.2.bytes]) := by
  induction xs with
  | nil => rfl
  | cons x xs ih =>
    rw [List.filterMap_cons, List.filterMap_cons]
    cases hgo : goesOut x with
    | none =>
      have hposted : posted x = none := by
        unfold posted
        split
        · cases hgo
        · rfl
      rw [hposted]
      exact ih
    | some m =>
      have hpub := (request_goesOut hgo).2.2
      cases hposted : posted x with
      | none =>
        rw [hposted] at hpub
        simp only [List.filterMap_cons, hpub, Option.map_none, ih]
      | some y =>
        rw [hposted] at hpub
        simp only [List.filterMap_cons, hpub, Option.map_some, List.map_cons, ih]

/-! ## What the broker hears and says -/

/-- The broker has been through some of what it has been given, on its own. -/
theorem Follows.run {host : Host} {inputs : List Input} (h : Follows z verbose host inputs) :
    ∃ before s, before <+: inputs ∧ Broker.run z verbose before = some s ∧ host.trace = s.trace := by
  cases host with
  | up s => exact ⟨inputs, s, List.prefix_rfl, h, rfl⟩
  | ended s =>
    obtain ⟨before, last, rfl, -, hrun⟩ := h
    exact ⟨before, s, List.prefix_append _ _, hrun, rfl⟩
  | aborted => exact h.elim

/-- What it has sent to a peer is what the abstract broker tells it. -/
theorem framesIn_told {inputs : List Input} {s : Server} (h : Broker.run z verbose inputs = some s)
    (c : Frame) :
    (framesIn c s.trace).map Prod.snd = (told z c inputs).map (Joint.replyWire z c) := by
  obtain ⟨s', hs', -, hsent⟩ := run_refines z verbose (decodable_of_run h)
  obtain rfl := Option.some.inj (h.symm.trans hs')
  have hsent' : sentIn c s.trace = (told z c inputs).map (replyMsg z c) := hsent c
  rw [framesIn_eq (encoded_of_run h), hsent', List.map_map, List.map_map]
  rfl

theorem event_message (c : Frame) (frames : List Frame) :
    Input.event (.message c frames) = .request c (requestIn frames) := by
  simp only [Input.event, requestIn]
  cases zccpMsgDecode frames <;> rfl

/-- The publications of a peer among what the broker hears are those in its messages. -/
theorem publicationBy_event (p : Frame) (inputs : List Input) :
    (inputs.map Input.event).filterMap (PubSub.Event.publicationBy p) =
      ((framesFrom p inputs).map requestIn).filterMap published := by
  induction inputs with
  | nil => rfl
  | cons input inputs ih =>
    have hsplit : framesFrom p (input :: inputs) = framesFrom p [input] ++ framesFrom p inputs := by
      rw [← framesFrom_append, List.singleton_append]
    rw [hsplit, List.map_cons, List.map_append, List.filterMap_append, ← ih]
    have hone : ((framesFrom p [input]).map requestIn).filterMap published =
        (input.event.publicationBy p).toList := by
      cases input with
      | expiry routingId => rfl
      | message routingId frames =>
        rw [event_message]
        by_cases hp : routingId = p
        · cases hreq : requestIn frames <;>
            simp [framesFrom, hp, hreq, published, PubSub.Event.publicationBy]
        · cases requestIn frames <;> simp [framesFrom, hp, PubSub.Event.publicationBy]
    rw [hone, List.filterMap_cons]
    cases input.event.publicationBy p <;> rfl

/-- And so are all its requests. -/
theorem mem_requestIn {inputs : List Input} {r : PubSub.Request CStr CStr CStr (Option (List Frame))}
    (h : .request p r ∈ inputs.map Input.event) :
    r ∈ (framesFrom p inputs).map requestIn := by
  obtain ⟨input, hmem, hevent⟩ := List.mem_map.mp h
  cases input with
  | expiry routingId => cases hevent
  | message routingId frames =>
    rw [event_message] at hevent
    obtain ⟨rfl, rfl⟩ := PubSub.Event.request.inj hevent
    refine List.mem_map.mpr ⟨frames, List.mem_filterMap.mpr ⟨_, hmem, ?_⟩, rfl⟩
    simp only [if_true]

/-! ## From end to end -/

/-- What a client has taken while it was up, with the states it has taken it in. -/
def takenIn (z : Czmq) (c : Frame) (h : List Happening) : List (Client.State × Client.Input) :=
  taken z (.up .new) (takenBy c h)

/-- What the application of a client has published. -/
def posts (z : Czmq) (p : Frame) (h : List Happening) : List (CStr × CStr) :=
  (takenIn z p h).filterMap posted

/-- What it has ever subscribed to. -/
def subscriptions (z : Czmq) (c : Frame) (h : List Happening) : Finset CStr :=
  ((takenIn z c h).filterMap subscribed).toFinset

section IsHistory

variable {h : List Happening}

theorem framesFrom_mono (c : Frame) {inputs inputs' : List Input} (h : inputs <+: inputs') :
    framesFrom c inputs <+: framesFrom c inputs' := h.filterMap _

theorem mem_takenBy {input : Client.Input} (hinput : input ∈ takenBy c h) : .client c input ∈ h := by
  obtain ⟨x, hx, hof⟩ := List.mem_filterMap.mp hinput
  cases x with
  | host input => cases hof
  | client d input =>
    obtain ⟨rfl, hsame⟩ := Option.ite_none_right_eq_some.mp hof
    exact Option.some.inj hsame ▸ hx

/-- What a client reads is told by the broker. -/
theorem IsHistory.read (hhistory : IsHistory z peers verbose n h) (hc : c ∈ peers) :
    ∃ before, before <+: heard h ∧
      framesRead (takenBy c h) <+: (told z c before).map (Joint.replyWire z c) := by
  obtain ⟨before, s, hpre, hrun, htrace⟩ := hhistory.broker.run
  refine ⟨before, hpre, ?_⟩
  rw [← framesIn_told hrun, ← htrace, ← hhistory.down c hc]
  exact List.prefix_append _ _

/-- Whatever a client takes, it sends what it has been asked to send, if its commands go out as they are.
That the broker sends it none of the messages that would make it send something else is known because
the broker is this one. -/
theorem IsHistory.sendable (hhistory : IsHistory z peers verbose n h) (hc : c ∈ peers)
    (hverbatim : ∀ m, .client c (.command m) ∈ h → VerbatimCommand m) :
    ∀ x ∈ takenIn z c h, Client.Sendable x := by
  rintro ⟨state, input⟩ hx
  have hinput : input ∈ takenBy c h :=
    (taken_initial _ _).subset (List.mem_map.mpr ⟨_, hx, rfl⟩)
  cases state <;> try trivial
  cases input with
  | timer timer => trivial
  | command m =>
    have := hverbatim m (mem_takenBy hinput)
    cases m <;> exact this
  | message frames =>
    intro m hm
    obtain ⟨before, -, hread⟩ := hhistory.read hc
    have hframes : frames ∈ framesRead (takenBy c h) := List.mem_filterMap.mpr ⟨_, hinput, rfl⟩
    obtain ⟨r, -, rfl⟩ := List.mem_map.mp (hread.subset hframes)
    have hid : m.id = replyId r := (zccpMsgDecode_wire_id hm).trans (replyMsg_id z c r)
    rw [hid]
    cases r <;> simp [replyId]

/-- What a client has put in its queue is what has gone out; the broker can read all of it. -/
theorem IsHistory.sent (hprintf : Printf z.zsysVprintf) (hhistory : IsHistory z peers verbose n h)
    (hc : c ∈ peers) (hverbatim : ∀ m, .client c (.command m) ∈ h → VerbatimCommand m) :
    ∃ sent, sent <+: (takenIn z c h).filterMap goesOut ∧
      (framesFrom c (heard h) ++ n.toBroker c).map zccpMsgDecode = sent.map .ok := by
  have hsent : ∀ {self}, actorRun z (takenBy c h) = .up self ∨ actorRun z (takenBy c h) = .ended self →
      (Client.framesIn self.trace).map zccpMsgDecode =
        ((takenIn z c h).filterMap goesOut).map .ok := by
    intro self hself
    exact Client.sent_run hprintf _ Client.running_new rfl (hhistory.sendable hc hverbatim) hself
  rw [hhistory.up c hc, hhistory.client c]
  cases hactor : actorRun z (takenBy c h) with
  | up self => exact ⟨_, List.prefix_rfl, hsent (.inl hactor)⟩
  | ended self => exact ⟨_, List.prefix_rfl, hsent (.inr hactor)⟩
  | aborted fault => exact ⟨[], List.nil_prefix, rfl⟩

/-- What the broker has heard of it is the beginning of that. -/
theorem IsHistory.requests (hprintf : Printf z.zsysVprintf) (hhistory : IsHistory z peers verbose n h)
    (hc : c ∈ peers) (hverbatim : ∀ m, .client c (.command m) ∈ h → VerbatimCommand m) :
    (framesFrom c (heard h)).map requestIn <+:
      ((takenIn z c h).filterMap goesOut).map ZccpMsg.request := by
  obtain ⟨sent, hpre, hsent⟩ := hhistory.sent hprintf hc hverbatim
  have hread := congrArg (List.map fun r : Except DecodeError ZccpMsg => match r with
    | .ok m => m.request
    | .error _ => .other) hsent
  rw [List.map_map, List.map_map] at hread
  have hall : (framesFrom c (heard h) ++ n.toBroker c).map requestIn = sent.map ZccpMsg.request :=
    hread
  refine List.IsPrefix.trans ?_ (hpre.map ZccpMsg.request)
  rw [← hall, List.map_append]
  exact List.prefix_append _ _

/-- A client gives itself no name: its HELLO has an empty identifier, because no command sets one. -/
theorem IsHistory.name (hprintf : Printf z.zsysVprintf) (hhistory : IsHistory z peers verbose n h)
    (hp : p ∈ peers) (hverbatim : ∀ m, .client p (.command m) ∈ h → VerbatimCommand m) {name : CStr}
    {inputs : List Input} (hpre : inputs <+: heard h)
    (hhello : .hello name ∈ (framesFrom p inputs).map requestIn) : name = .empty := by
  have hmem := (List.map_subset _ (framesFrom_mono p hpre).subset) hhello
  obtain ⟨m, hm, hreq⟩ := List.mem_map.mp ((hhistory.requests hprintf hp hverbatim).subset hmem)
  obtain ⟨x, -, hx⟩ := List.mem_filterMap.mp hm
  exact (request_goesOut hx).1 name hreq

/-- What a client subscribes to its application has asked for. -/
theorem IsHistory.subscriptions (hprintf : Printf z.zsysVprintf) (hhistory : IsHistory z peers verbose n h)
    (hc : c ∈ peers) (hverbatim : ∀ m, .client c (.command m) ∈ h → VerbatimCommand m) {e : CStr}
    {inputs : List Input} (hpre : inputs <+: heard h)
    (hsubscribe : .request c (.subscribe e) ∈ inputs.map Input.event) :
    e ∈ subscriptions z c h := by
  have hmem := (List.map_subset _ (framesFrom_mono c hpre).subset) (mem_requestIn hsubscribe)
  obtain ⟨m, hm, hreq⟩ := List.mem_map.mp ((hhistory.requests hprintf hc hverbatim).subset hmem)
  obtain ⟨x, hx, hgo⟩ := List.mem_filterMap.mp hm
  exact List.mem_toFinset.mpr
    (List.mem_filterMap.mpr ⟨x, hx, (request_goesOut hgo).2.1 e hreq⟩)

/-- What the broker hears published by a client is what its application has published. -/
theorem IsHistory.publications (hprintf : Printf z.zsysVprintf) (hhistory : IsHistory z peers verbose n h)
    (hp : p ∈ peers) (hverbatim : ∀ m, .client p (.command m) ∈ h → VerbatimCommand m)
    {inputs : List Input} (hpre : inputs <+: heard h) :
    (inputs.map Input.event).filterMap (PubSub.Event.publicationBy p) <+:
      (posts z p h).map fun y => (y.1, some [y.2.bytes]) := by
  rw [publicationBy_event, posts, ← published_goesOut]
  have hrequests := ((framesFrom_mono p hpre).map requestIn).trans
    (hhistory.requests hprintf hp hverbatim)
  have hpublished := hrequests.filterMap published
  rw [List.filterMap_map (f := ZccpMsg.request)] at hpublished
  exact hpublished

/-- All that the broker hears published by a client has an address that its application has given. -/
theorem IsHistory.verbatim_of_publish (hprintf : Printf z.zsysVprintf)
    (hhistory : IsHistory z peers verbose n h) (hp : p ∈ peers)
    (hverbatim : ∀ m, .client p (.command m) ∈ h → VerbatimCommand m) {frames : List Frame}
    (hframes : frames ∈ framesFrom p (heard h)) {address : CStr} {body : Option (List Frame)}
    (hpublish : requestIn frames = .publish address body) : Verbatim address := by
  have hmem := (hhistory.requests hprintf hp hverbatim).subset (List.mem_map.mpr ⟨frames, hframes, rfl⟩)
  obtain ⟨m, hm, hreq⟩ := List.mem_map.mp hmem
  obtain ⟨x, hx, hgo⟩ := List.mem_filterMap.mp hm
  have hposted := (request_goesOut hgo).2.2
  rw [hreq, hpublish] at hposted
  obtain ⟨y, hy, hsame⟩ := Option.map_eq_some_iff.mp hposted.symm
  cases hsame
  rw [posted_eq hy] at hx
  have hinput := (taken_initial _ _).subset (List.mem_map.mpr ⟨_, hx, rfl⟩)
  exact hverbatim (.publish y.1 y.2) (mem_takenBy hinput)

end IsHistory

/-- What the broker tells a peer, with the peers it has it from: the abstract broker's outputs, which carry
that tag (`PubSub.traced`) and are otherwise what the real one sends. -/
def tracedTo (z : Czmq) (c : Frame) (inputs : List Input) :
    List (Frame × PubSub.Reply CStr CStr (Option (List Frame))) :=
  outputs (PubSub.step (policy z)) (PubSub.traced (policy z)) c PubSub.Directory.empty
    (inputs.map Input.event)

theorem tracedTo_snd (z : Czmq) (c : Frame) (inputs : List Input) :
    (tracedTo z c inputs).map Prod.snd = told z c inputs := PubSub.outputs_traced ..

/-- What a connected client makes of what the broker tells it. -/
def heardAs (z : Czmq) (c : Frame) (r : PubSub.Reply CStr CStr (Option (List Frame))) :
    Option Client.Reply := deliverOf (Joint.replyWire z c r)

theorem heardAs_eq (z : Czmq) (c : Frame) : heardAs z c = deliverOf ∘ Joint.replyWire z c := by
  funext r
  rw [heardAs, Function.comp_apply]

/-- A publication that the broker hands on, if its texts come through its setters as they are. -/
theorem heardAs_deliver (hprintf : Printf z.zsysVprintf) {name address : CStr} (hname : Verbatim name)
    (haddress : Verbatim address) (c : Frame) (frames : List Frame) :
    heardAs z c (.deliver name address (some frames)) =
      some (.message (some name) (some address) (frames.head?.map CStr.ofBytes)) := by
  have hprintName : z.zsysVprintf name = name := Client.print_eq hprintf hname.1
  have hprint : z.zsysVprintf address = address := Client.print_eq hprintf haddress.1
  have hfits : (replyMsg z c (.deliver name address (some frames))).Fits := by
    refine ⟨?_, ?_, fitsHeaders_none⟩
    · simpa [replyMsg, Relay.deliver, hprintName] using shortField_some hname.2
    · simpa [replyMsg, Relay.deliver, hprint] using shortField_some haddress.2
  have hdec := zccpMsgDecode_wire (m := replyMsg z c (.deliver name address (some frames)))
    (show MsgId.deliver ≠ .unset by decide) hfits
  rw [heardAs, deliverOf, Joint.replyWire, hdec]
  simp [ZccpMsg.received, replyMsg, Relay.deliver, zccpMsgNew, contentFrames, Client.delivery,
    hprintName, hprint]

/-- Nothing else that it says is for the application. -/
theorem isDeliver_of_heardAs {r : PubSub.Reply CStr CStr (Option (List Frame))}
    (h : (heardAs z c r).isSome) : r.IsDeliver := by
  unfold heardAs deliverOf at h
  split at h
  case h_1 m hm =>
    have hid : m.id = replyId r := (zccpMsgDecode_wire_id hm).trans (replyMsg_id z c r)
    rw [hid] at h
    cases r <;> trivial
  case h_2 => cases h

/-- The texts of a command, if the label is one, go out as they are. -/
def Label.CommandsVerbatim : Label → Prop
  | .command _ method => VerbatimCommand method
  | _ => True

instance : DecidablePred Label.CommandsVerbatim
  | .command _ method => inferInstanceAs (Decidable (VerbatimCommand method))
  | .toBroker _ | .toClient _ | .expire _ | .stranger _ _ => .isTrue trivial

/-- A command that a client is given comes from its application. -/
theorem command_of_history {labels : List Label} {m : Client.Method}
    (h : .client c (.command m) ∈ history z peers verbose labels) : .command c m ∈ labels := by
  obtain ⟨pre, l, n', hpre, -, hmem⟩ := mem_seenFrom h
  have hl : l ∈ labels := hpre.subset (by simp)
  cases l with
  | command d method =>
    obtain ⟨rfl, hinput⟩ := Happening.client.inj (List.mem_singleton.mp hmem)
    cases hinput
    exact hl
  | toClient d =>
    obtain ⟨frames, -, hsame⟩ := List.mem_map.mp hmem
    cases hsame
  | toBroker d =>
    obtain ⟨frames, -, hsame⟩ := List.mem_map.mp hmem
    cases hsame
  | expire d => cases List.mem_singleton.mp hmem
  | stranger d frames => cases List.mem_singleton.mp hmem

/-! ## What a stranger says -/

/-- What another program sends to the broker. There is no queue for it: nothing is assumed of how it
speaks, and what it has sent is what the broker has read. -/
def sentBy (p : Frame) (labels : List Label) : List (List Frame) := labels.filterMap fun
  | .stranger d frames => if d = p then some frames else none
  | _ => none

/-- What it publishes. -/
def publishedBy (p : Frame) (labels : List Label) : List (CStr × Option (List Frame)) :=
  ((sentBy p labels).map requestIn).filterMap published

/-- A message of a peer that the broker is given. -/
def messageOf (p : Frame) : Happening → Option (List Frame)
  | .host (.message d frames) => if d = p then some frames else none
  | _ => none

theorem framesFrom_heard (p : Frame) (h : List Happening) :
    framesFrom p (heard h) = h.filterMap (messageOf p) := by
  rw [framesFrom, heard, List.filterMap_filterMap]
  refine List.filterMap_congr fun x _ => ?_
  rcases x with (⟨d, frames⟩ | d) | ⟨d, input⟩ <;> rfl

/-- What the broker has been given from a peer that is no client. -/
theorem framesFrom_stranger {labels : List Label} (hp : p ∉ peers)
    (hrun : run z peers verbose labels = some n) :
    framesFrom p (heard (history z peers verbose labels)) = sentBy p labels := by
  rw [framesFrom_heard]
  refine seenFrom_filterMap (I := fun n => ∃ h, IsHistory z peers verbose n h) ?_ ⟨_, isHistory_new⟩ hrun
  rintro n l n' ⟨h, hhistory⟩ hstep
  refine ⟨⟨_, hhistory.step hstep⟩, ?_⟩
  cases stepped hstep with
  | command d method hd hself => rfl
  | expire d hs => rfl
  | toClient d hd hself hqueue =>
    rw [happening, hqueue]
    rfl
  | stranger d frames hd hs =>
    by_cases hdp : d = p <;> simp [happening, messageOf, hdp]
  | toBroker d hs hqueue =>
    -- only a client has anything in its queue
    have hdp : d ≠ p := by
      rintro rfl
      rw [hhistory.idle d hp] at hqueue
      cases hqueue
    simp [happening, hqueue, messageOf, hdp]

/-! ## The two ends -/

/-- **From the broker to an application.** Each MESSAGE that an application has been given has a
publisher, and those of one publisher are, in order, what the recipient makes of publications that the
broker has heard from it. `before` is how much of it the broker had worked off when it sent the last
thing that the client has read; a broker that has ended since makes no difference. -/
theorem given_of_isHistory {h : List Happening} (hprintf : Printf z.zsysVprintf)
    (hhistory : IsHistory z peers verbose n h) (hc : c ∈ peers)
    (hverbatim : ∀ m, .client c (.command m) ∈ h → VerbatimCommand m) :
    ∃ before, before <+: heard h ∧ ∃ got : List (Frame × Client.Reply),
      got.map Prod.snd = given (n.client c) ∧ (∀ x ∈ got, x.1 ≠ c) ∧
      ∀ p, p ≠ c → List.SublistForall₂ (fun reply post =>
          ∃ name, .hello name ∈ (framesFrom p before).map requestIn ∧
            heardAs z c (.deliver name post.1 post.2) = some reply)
        ((got.filter (·.1 = p)).map Prod.snd)
        ((((framesFrom p before).map requestIn).filterMap published).flatMap fun post =>
          List.replicate ((subscriptions z c h).filter (z.matches · post.1)).card post) := by
  obtain ⟨before, hpre, hread⟩ := hhistory.read hc
  -- what the application has been given is some of what it has been told, which has publishers
  obtain ⟨got, hgot, hsame⟩ : ∃ got, got <+ ((tracedTo z c before).filterMap fun x =>
      (heardAs z c x.2).map (x.1, ·)) ∧ given (n.client c) = got.map Prod.snd := by
    apply List.sublist_map_iff.mp
    rw [map_snd_filterMap, tracedTo_snd, hhistory.client c]
    refine (given_sublist _).trans ?_
    have hsub := hread.sublist.filterMap deliverOf
    rwa [List.filterMap_map, ← heardAs_eq] at hsub
  have hdelivered : ∀ x ∈ tracedTo z c before, ∀ reply, heardAs z c x.2 = some reply →
      x.1 ≠ c ∧ ∃ name a b, x.2 = .deliver name a b ∧
        .hello name ∈ (framesFrom x.1 before).map requestIn := by
    intro x hx reply hreply
    obtain ⟨hne, name, a, b, hdeliver, hhello⟩ := PubSub.eq_deliver_of_mem_outputs (policy z) hx
      (isDeliver_of_heardAs (Option.isSome_iff_exists.mpr ⟨reply, hreply⟩))
    exact ⟨hne, name, a, b, hdeliver, mem_requestIn hhello⟩
  refine ⟨before, hpre, got, hsame.symm, fun x hx => ?_, fun p hp => ?_⟩
  · obtain ⟨y, hy, hyx⟩ := List.mem_filterMap.mp (hgot.subset hx)
    obtain ⟨reply, hreply, rfl⟩ := Option.map_eq_some_iff.mp hyx
    exact (hdelivered y hy reply hreply).1
  · have hfilter := (hgot.filter (·.1 = p)).map Prod.snd
    rw [filter_filterMap_tag, map_snd_filterMap, List.filterMap_map] at hfilter
    have htraced := PubSub.traced_outputs_sublist (policy z) hp
      (fun x hx => hhistory.subscriptions hprintf hc hverbatim hpre hx)
    rw [publicationBy_event] at htraced
    have hboth := sublistForall₂_filterMap (l := (tracedTo z c before).filter (·.1 = p))
      (R := fun reply post => ∃ name, .hello name ∈ (framesFrom p before).map requestIn ∧
            heardAs z c (.deliver name post.1 post.2) = some reply)
      (f := heardAs z c ∘ Prod.snd) (g := fun x => x.2.publication) ?_
    · exact sublistForall₂_of_sublist hboth hfilter htraced
    intro x hx reply hreply
    rw [Function.comp_apply] at hreply
    obtain ⟨hmem, hxp⟩ := List.mem_filter.mp hx
    obtain ⟨-, name, a, b, hdeliver, hhello⟩ := hdelivered x hmem reply hreply
    rw [of_decide_eq_true hxp] at hhello
    have hpublication : x.2.publication = some (a, b) := congrArg PubSub.Reply.publication hdeliver
    exact ⟨(a, b), hpublication, name, hhello, hdeliver ▸ hreply⟩

/-- **From end to end.** Whatever has happened in a network, each MESSAGE that an application has been
given has a publisher other than its own client, and is one of that publisher's publications: those
of a client are, in order, among what its application has published while it was connected, each
under that address and with that content; those of a stranger are, in order, among the PUBLISHes that
it has sent, as they come through the broker under a name that it has given itself. None comes more
often than the recipient has subscribed to different expressions that match. -/
theorem end_to_end (z : Czmq) (peers : Finset Frame) (verbose : Bool) (labels : List Label)
    (n : System) (hprintf : Printf z.zsysVprintf) (hverbatim : ∀ l ∈ labels, l.CommandsVerbatim)
    (hrun : run z peers verbose labels = some n) (c : Frame) (hc : c ∈ peers) :
    let h := history z peers verbose labels
    let copies (address : CStr) : Nat := ((subscriptions z c h).filter (z.matches · address)).card
    ∃ got : List (Frame × Client.Reply), got.map Prod.snd = given (n.client c) ∧
      (∀ x ∈ got, x.1 ≠ c) ∧
      (∀ p ∈ peers, (got.filter (·.1 = p)).map Prod.snd <+ (posts z p h).flatMap fun post =>
        List.replicate (copies post.1) (.message (some .empty) (some post.1) (some post.2))) ∧
      ∀ p ∉ peers, List.SublistForall₂ (fun reply post =>
          ∃ name, .hello name ∈ (sentBy p labels).map requestIn ∧
            heardAs z c (.deliver name post.1 post.2) = some reply)
        ((got.filter (·.1 = p)).map Prod.snd)
        ((publishedBy p labels).flatMap fun post => List.replicate (copies post.1) post) := by
  intro h copies
  have hhistory : IsHistory z peers verbose n h := isHistory_of_run hrun
  have hcommands : ∀ d m, .client d (.command m) ∈ h → VerbatimCommand m := fun d m hm =>
    hverbatim _ (command_of_history hm)
  obtain ⟨before, hpre, got, hsame, hothers, hgot⟩ := given_of_isHistory hprintf hhistory hc (hcommands c)
  refine ⟨got, hsame, hothers, fun p hp => ?_, fun p hp => ?_⟩
  · by_cases hpc : p = c
    · have hnone : got.filter (·.1 = p) = [] := by
        rw [List.filter_eq_nil_iff]
        intro x hx
        simpa [hpc] using hothers x hx
      rw [hnone]
      exact List.nil_sublist _
    have hposts : ∀ y ∈ posts z p h, Verbatim y.1 := by
      intro y hy
      obtain ⟨x, hx, hposted⟩ := List.mem_filterMap.mp hy
      rw [posted_eq hposted] at hx
      have hinput := (taken_initial _ _).subset (List.mem_map.mpr ⟨_, hx, rfl⟩)
      exact hcommands p (.publish y.1 y.2) (mem_takenBy hinput)
    -- what the broker has heard from it is what its application has published
    have hpublications := hhistory.publications hprintf hp (hcommands p) hpre
    rw [publicationBy_event] at hpublications
    have hlater := sublistForall₂_of_sublist (hgot p hpc) (List.Sublist.refl _)
      (hpublications.flatMap fun post => List.replicate (copies post.1) post).sublist
    have hmap : ((posts z p h).map fun y => (y.1, some [y.2.bytes])).flatMap
          (fun post => List.replicate (copies post.1) post) =
        ((posts z p h).flatMap fun y => List.replicate (copies y.1) y).map
          fun y => (y.1, some [y.2.bytes]) := by
      simp only [List.flatMap_map, List.map_flatMap, List.map_replicate]
    rw [hmap] at hlater
    have hlast := sublist_map_of_sublistForall₂
      (f := fun y => .message (some .empty) (some y.1) (some y.2)) hlater ?_
    · simpa only [List.map_flatMap, List.map_replicate] using hlast
    · rintro y hy reply ⟨name, hhello, hreply⟩
      -- a client has no name, and its address goes out as it is
      obtain ⟨post, hpost, hy⟩ := List.mem_flatMap.mp hy
      obtain rfl := List.eq_of_mem_replicate hy
      have hname : name = .empty := hhistory.name hprintf hp (hcommands p) hpre hhello
      rw [hname, heardAs_deliver hprintf (by decide) (hposts y hpost)] at hreply
      simpa using hreply.symm
  · have hsent := framesFrom_stranger hp hrun
    have hheard : framesFrom p before <+: sentBy p labels := hsent ▸ framesFrom_mono p hpre
    obtain ⟨l, hl, hsub⟩ := List.sublistForall₂_iff.mp (hgot p fun hpc => hp (hpc ▸ hc))
    refine List.sublistForall₂_iff.mpr ⟨l, hl.imp ?_, hsub.trans ?_⟩
    · rintro reply post ⟨name, hhello, hreply⟩
      exact ⟨name, (hheard.map _).subset hhello, hreply⟩
    · exact (((hheard.map _).filterMap _).flatMap _).sublist

/-- Two clients: one has subscribed to what the other then publishes. -/
def meeting : List Label :=
  let e := CStr.ofBytes [65]
  let connects (c : Frame) : List Label := [.command c (.connect e 100), .toBroker c, .toClient c]
  connects [1] ++ connects [2] ++ [.command [2] (.subscribe e), .toBroker [2], .toClient [2],
    .command [1] (.publish e e), .toBroker [1], .toClient [2]]

theorem end_to_end_meeting :
    let z := Czmq.printing .literal strictPrintf
    let e := CStr.ofBytes [65]
    let h := history z {[1], [2]} false meeting
    ∃ n, run z {[1], [2]} false meeting = some n ∧
      given (n.client [2]) = [.message (some .empty) (some e) (some e)] ∧
      ∃ got : List (Frame × Client.Reply), got.map Prod.snd = given (n.client [2]) ∧
        (got.filter (·.1 = [1])).map Prod.snd <+ (posts z [1] h).flatMap fun post =>
          List.replicate ((subscriptions z [2] h).filter (z.matches · post.1)).card
            (.message (some .empty) (some post.1) (some post.2)) := by
  intro z e h
  obtain ⟨n, hrun, hgiven⟩ := (Option.any_eq_true ..).mp (show
    (run z {[1], [2]} false meeting).any (fun n => decide (given (n.client [2]) =
      [.message (some .empty) (some e) (some e)])) = true by decide +kernel)
  obtain ⟨got, hgot, -, hpublished, -⟩ := end_to_end z {[1], [2]} false meeting n strictPrintf_printf
    (by decide) hrun [2] (by decide)
  exact ⟨n, hrun, of_decide_eq_true hgiven, got, hgot, hpublished [1] (by decide)⟩

end Zccp.Network
