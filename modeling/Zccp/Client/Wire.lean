import Zccp.Client.Runs
import Zccp.Msg.RoundTrip

/-!
# `Zccp/Client/Wire.lean` — what the client puts on the wire

The arguments of a command are stored in `msgout` before the state machine has looked at the
command, and stay there if it discards it. What keeps them out of later messages is that each type
is encoded with its own fields only, and that a command overwrites the fields of its type.

`wire_exact` says what a run sends, message by message, as the other end decodes it. It is what the
application has asked for as long as the setters print a text as it is, it fits its one-byte length,
and the server does not send the client messages whose names are those of API events (`Sendable`).

Each of the three conditions is one that the code could check and does not. A percent sign is taken for
a conversion (`wire_not_percent`); a text of 256 bytes goes out under a length of 0, and the message
cannot be decoded any more; and a message of the server's that is named like a command is taken for
one, with the arguments of a command that was discarded still in `msgout` (`wire_not_direct`).
-/

set_option autoImplicit false

namespace Zccp.Client

variable {z : Czmq} {self self' : SClient}

/-- The inputs that an actor takes while it is up, with the states it takes them in. -/
def taken (z : Czmq) : Actor → List Input → List (State × Input)
  | .up self, input :: inputs =>
    (self.state, input) :: taken z (actorStep z (.up self) input) inputs
  | _, _ => []

theorem taken_over {actor : Actor} (h : actor.isUp = false) (inputs : List Input) :
    taken z actor inputs = [] := by
  cases actor with
  | up self => cases h
  | _ => cases inputs <;> rfl

/-- The message that the application has asked for with a command, as the other end decodes it. -/
def requested : State × Input → Option ZccpMsg
  | (.connected, .command (.subscribe expression)) => some
    { zccpMsgNew .subscribe with expression := some expression, headers := some .empty }
  | (.connected, .command (.publish address content)) => some
    { zccpMsgNew .publish with
      address := some address, headers := some .empty, content := some [content.bytes] }
  | _ => none

/-- A HELLO with nothing in it. -/
def bareHello : ZccpMsg :=
  { zccpMsgNew .hello with identifier := some .empty, headers := some .empty }

/-- The messages that a client sends of its own accord, as the other end decodes them. -/
def volunteered : State × Input → Option ZccpMsg
  | (.start, .command (.connect _ _)) => some bareHello
  | (state, .message frames) =>
    match zccpMsgDecode frames with
    | .error _ => none
    | .ok m =>
      if m.id = .invalid then some bareHello
      else if state = .connected ∧ m.id = .ping then some (zccpMsgNew .pingOk)
      else none
  | _ => none

/-- What is sent is what has been asked for. For a command that is taken in connected state: its text
has no percent sign in it, and fits its one-byte length. For a message that is: it is not one of
the three whose names the state machine takes for commands of the application. A DIRECT is among
them, which the application never asks for: what it draws carries the fields of commands that have
been discarded (`wire_not_direct`). -/
def Sendable : State × Input → Prop
  | (.connected, .command (.subscribe expression)) => 37 ∉ expression.bytes ∧ expression.Short
  | (.connected, .command (.publish address _)) => 37 ∉ address.bytes ∧ address.Short
  | (.connected, .message frames) => ∀ m, zccpMsgDecode frames = .ok m →
      m.id ≠ .subscribe ∧ m.id ≠ .publish ∧ m.id ≠ .direct
  | _ => True

/-! ## One message -/

theorem print_eq (hprintf : Printf z.zsysVprintf) {text : CStr} (h : 37 ∉ text.bytes) :
    z.zsysVprintf text = text := hprintf text text (unpercent_of_not_mem h)

theorem decode_hello (h : Running self) :
    zccpMsgDecode (wire (self.msgout.setId .hello)) = .ok bareHello := by
  have hfits : (self.msgout.setId .hello).Fits := by
    refine ⟨?_, ?_⟩
    · intro s hs
      exact absurd (h.identifier.symm.trans hs) nofun
    · intro d hd
      exact absurd (h.headers.symm.trans hd) nofun
  rw [zccpMsgDecode_wire (m := self.msgout.setId .hello) nofun hfits]
  simp [ZccpMsg.received, ZccpMsg.setId, h.identifier, h.headers, bareHello]

/-- What a command sends, whatever earlier commands have left behind: the fields of its type are the ones
it has just set, and the others are not encoded. -/
theorem decode_commanded (hprintf : Printf z.zsysVprintf) (h : Running self) {m : Method}
    (hsend : Sendable (self.state, .command m)) :
    (commanded z self m).map (zccpMsgDecode ∘ wire) =
      ((requested (self.state, .command m)).or
        (volunteered (self.state, .command m))).toList.map .ok := by
  unfold Sendable at hsend
  unfold commanded
  cases hs : self.state <;> rw [hs] at hsend <;> cases m
  case start.connect =>
    simp only [List.map_cons, List.map_nil, Function.comp, decode_hello h]
    rfl
  case connected.subscribe expression =>
    have hid : ((self.msgout.setExpression z expression).setId .subscribe).id ≠ .unset := by
      intro h
      cases h
    have hfits : ((self.msgout.setExpression z expression).setId .subscribe).Fits := by
      refine ⟨?_, ?_⟩
      · simpa [ZccpMsg.setExpression, ZccpMsg.setId, print_eq hprintf hsend.1] using
          shortField_some hsend.2
      · simpa [ZccpMsg.setExpression, ZccpMsg.setId, h.headers] using fitsHeaders_none
    have hdec := zccpMsgDecode_wire hid hfits
    simp only [List.map_cons, List.map_nil, Function.comp, hdec]
    simp [ZccpMsg.received, ZccpMsg.setExpression, ZccpMsg.setId, h.headers,
      print_eq hprintf hsend.1, requested]
  case connected.publish address content =>
    have hid : (((self.msgout.setAddress z address).setContent
        (some [content.bytes])).setId .publish).id ≠ .unset := by
      intro h
      cases h
    have hfits : (((self.msgout.setAddress z address).setContent
        (some [content.bytes])).setId .publish).Fits := by
      refine ⟨?_, ?_⟩
      · simpa [ZccpMsg.setAddress, ZccpMsg.setContent, ZccpMsg.setId, print_eq hprintf hsend.1]
          using shortField_some hsend.2
      · simpa [ZccpMsg.setAddress, ZccpMsg.setContent, ZccpMsg.setId, h.headers] using
          fitsHeaders_none
    have hdec := zccpMsgDecode_wire hid hfits
    simp only [List.map_cons, List.map_nil, Function.comp, hdec]
    simp [ZccpMsg.received, ZccpMsg.setAddress, ZccpMsg.setContent, ZccpMsg.setId, h.headers,
      print_eq hprintf hsend.1, requested, contentFrames]
  all_goals
    rw [List.map_nil]
    rfl

/-- A message that is not to be taken for a command. -/
theorem drawn_eq {frames : List Frame} {m : ZccpMsg} {event : Event}
    (hdec : zccpMsgDecode frames = .ok m) (hevent : sProtocolEvent m = some event)
    (hsend : Sendable (self.state, .message frames)) :
    drawn self.state event =
      if m.id = .invalid then some .hello
      else if self.state = .connected ∧ m.id = .ping then some .pingOk
      else none := by
  have hid : self.state = .connected → m.id ≠ .subscribe ∧ m.id ≠ .publish ∧ m.id ≠ .direct := by
    intro hs
    rw [hs] at hsend
    exact hsend m hdec
  unfold sProtocolEvent at hevent
  unfold drawn
  split at hevent <;> cases hevent <;> rename_i hm <;> rw [hm] at hid ⊢ <;>
    cases hs : self.state <;> simp [hs] at hid ⊢

theorem requested_message (state : State) (frames : List Frame) :
    requested (state, .message frames) = none := by
  cases state <;> rfl

/-- A message draws at most one in return, a HELLO for an INVALID or a PING_OK for a PING, and what is sent
reads as that. -/
theorem decode_reaction (h : Running self) {frames : List Frame} {m : ZccpMsg} {event : Event}
    (hdec : zccpMsgDecode frames = .ok m) (hevent : sProtocolEvent m = some event)
    (hsend : Sendable (self.state, .message frames)) :
    (framesIn (reaction { self with msgin := some m } event).notes).map zccpMsgDecode =
      ((requested (self.state, .message frames)).or
        (volunteered (self.state, .message frames))).toList.map .ok := by
  have hdrawn := drawn_eq hdec hevent hsend
  rw [requested_message, Option.none_or, framesIn_reaction]
  simp only [hdrawn, volunteered, hdec]
  split
  · simp [decode_hello h]
  · split
    · have hpong := zccpMsgDecode_wire (m := self.msgout.setId .pingOk) nofun trivial
      simp only [Option.map_some, Option.toList_some, List.map_cons, List.map_nil]
      rw [hpong]
      rfl
    · rfl

/-! ## Runs -/

/-- The message that goes out when an input is taken. -/
def goesOut (x : State × Input) : Option ZccpMsg := (requested x).or (volunteered x)

theorem framesIn_append (t t' : List Obs) : framesIn (t ++ t') = framesIn t ++ framesIn t' := by
  simp only [framesIn, List.filterMap_append]

/-- **One input.** -/
theorem sent_step (hprintf : Printf z.zsysVprintf) (h : Running self) (hnone : self.timers = [])
    {input : Input} {self' : SClient} (hsend : Sendable (self.state, input))
    (hstep : actorStep z (.up self) input = .up self' ∨ actorStep z (.up self) input = .ended self') :
    (framesIn self'.trace).map zccpMsgDecode =
      (framesIn self.trace).map zccpMsgDecode ++ (goesOut (self.state, input)).toList.map .ok := by
  have hdoes := actorStep_does (z := z) h hnone input
  rcases hstep with hstep | hstep <;> rw [hstep] at hdoes
  · cases hdoes with
    | @command m _ hm survives turn =>
      have hnotes := (commanding_eq z self m).2.1
      rw [turn.trace, self.taking_trace, framesIn_append, framesIn_append, hnotes]
      simp only [framesIn, List.filterMap_cons, List.filterMap_nil, List.append_nil, List.map_append,
        List.map_map]
      rw [decode_commanded hprintf h hsend]
      rfl
    | message state decoded raises turn =>
      rw [turn.trace, framesIn_append, List.map_append, decode_reaction h decoded raises hsend]
      rfl
    | @timer timer =>
      have hquiet : goesOut (self.state, .timer timer) = none := by
        cases self.state <;> rfl
      rw [hquiet]
      exact (List.append_nil _).symm
  · cases hdoes with
    | term quiet =>
      have hquiet : goesOut (self.state, .command .term) = none := by
        cases self.state <;> rfl
      rw [hquiet, quiet, framesIn_append]
      simp [framesIn]
    | @malformed frames undecodable =>
      have hquiet : goesOut (self.state, .message frames) = none := by
        rw [goesOut, requested_message, Option.none_or, volunteered]
        cases hdec : zccpMsgDecode frames with
        | error e => rfl
        | ok m => exact absurd hdec (undecodable m)
      rw [hquiet]
      exact (List.append_nil _).symm
    | @halts frames m _ decoded raises quiet =>
      -- a message that raises no event is none of the two that are answered
      have hid : m.id ≠ .invalid ∧ m.id ≠ .ping := by
        constructor <;> intro hid <;> rw [sProtocolEvent, hid] at raises <;> cases raises
      have hquiet : goesOut (self.state, .message frames) = none := by
        rw [goesOut, requested_message, Option.none_or, volunteered]
        simp only [decoded, if_neg hid.1, hid.2, and_false, if_false]
      rw [hquiet, quiet]
      exact (List.append_nil _).symm

/-- **A run**, from any state on. -/
theorem sent_run (hprintf : Printf z.zsysVprintf) (inputs : List Input) {self' : SClient}
    (h : Running self) (hnone : self.timers = [])
    (hsend : ∀ x ∈ taken z (.up self) inputs, Sendable x)
    (hrun : inputs.foldl (actorStep z) (.up self) = .up self' ∨
      inputs.foldl (actorStep z) (.up self) = .ended self') :
    (framesIn self'.trace).map zccpMsgDecode = (framesIn self.trace).map zccpMsgDecode ++
      ((taken z (.up self) inputs).filterMap goesOut).map .ok := by
  induction inputs generalizing self with
  | nil =>
    rcases hrun with hrun | hrun <;> cases hrun
    exact (List.append_nil _).symm
  | cons input inputs ih =>
    simp only [List.foldl_cons, taken, List.forall_mem_cons] at hrun hsend ⊢
    have hcons : (List.filterMap goesOut ((self.state, input) ::
        taken z (actorStep z (.up self) input) inputs)) = (goesOut (self.state, input)).toList ++
          (taken z (actorStep z (.up self) input) inputs).filterMap goesOut := by
      rw [List.filterMap_cons]
      cases goesOut (self.state, input) <;> rfl
    rw [hcons, List.map_append, ← List.append_assoc]
    cases hstep : actorStep z (.up self) input with
    | up self₁ =>
      obtain ⟨hrunning₁, hnone₁⟩ := actorStep_up h hnone hstep
      rw [hstep] at hrun hsend
      rw [ih hrunning₁ hnone₁ hsend.2 hrun, sent_step hprintf h hnone hsend.1 (.inl hstep)]
    | ended self₁ =>
      rw [hstep, foldl_actorStep_over rfl] at hrun
      obtain rfl : self' = self₁ := by
        rcases hrun with hrun | hrun <;> cases hrun
        rfl
      rw [sent_step hprintf h hnone hsend.1 (.inr hstep), taken_over rfl]
      exact (List.append_nil _).symm
    | aborted fault =>
      rw [hstep, foldl_actorStep_over rfl] at hrun
      rcases hrun with hrun | hrun <;> cases hrun

/-- Whether a message is one of the two that the application asks for. -/
def IsRequest (m : ZccpMsg) : Prop := m.id = .publish ∨ m.id = .subscribe

instance (m : ZccpMsg) : Decidable (IsRequest m) := inferInstanceAs (Decidable (_ ∨ _))

/-- What a client sends of its own accord, a HELLO or a PING_OK, carries nothing. -/
theorem eq_of_volunteered {x : State × Input} {m : ZccpMsg} (h : volunteered x = some m) :
    m = bareHello ∨ m = zccpMsgNew .pingOk := by
  unfold volunteered at h
  split at h
  · exact .inl (Option.some.inj h).symm
  · split at h
    · cases h
    · split at h
      · exact .inl (Option.some.inj h).symm
      · split at h
        · exact .inr (Option.some.inj h).symm
        · cases h
  · cases h

theorem isRequest_of_requested {x : State × Input} {m : ZccpMsg} (h : requested x = some m) :
    IsRequest m := by
  unfold requested at h
  split at h <;> cases h
  · exact .inr rfl
  · exact .inl rfl

/-- So the requests among the messages that go out are those of the application. -/
theorem filter_goesOut (x : State × Input) :
    (goesOut x).filter (fun m => IsRequest m) = requested x := by
  unfold goesOut
  cases hr : requested x with
  | some m =>
    have := isRequest_of_requested hr
    simp [Option.filter, this]
  | none =>
    rw [Option.none_or]
    cases hv : volunteered x with
    | none => rfl
    | some m => rcases eq_of_volunteered hv with rfl | rfl <;> rfl

/-- **The client puts exactly on the wire what the application has asked for.** The PUBLISH and
SUBSCRIBE messages among those sent, as they are decoded, are those of the commands that were taken
in connected state, in that order; and all others carry nothing. -/
theorem wire_exact (z : Czmq) (hprintf : Printf z.zsysVprintf) (inputs : List Input)
    (self : SClient) (hrun : actorRun z inputs = .up self ∨ actorRun z inputs = .ended self)
    (hsend : ∀ x ∈ taken z (.up .new) inputs, Sendable x) :
    ∃ msgs : List ZccpMsg, (framesIn self.trace).map zccpMsgDecode = msgs.map .ok ∧
      msgs.filter (fun m => IsRequest m) = (taken z (.up .new) inputs).filterMap requested ∧
      ∀ m ∈ msgs, ¬ IsRequest m → m = bareHello ∨ m = zccpMsgNew .pingOk := by
  refine ⟨(taken z (.up .new) inputs).filterMap goesOut,
    sent_run hprintf inputs running_new rfl hsend hrun, ?_, ?_⟩
  · rw [List.filter_filterMap]
    exact congrArg (List.filterMap · _) (funext filter_goesOut)
  · intro m hm hnot
    obtain ⟨x, -, hx⟩ := List.mem_filterMap.mp hm
    rcases Option.or_eq_some_iff.mp hx with hr | ⟨-, hv⟩
    · exact absurd (isRequest_of_requested hr) hnot
    · exact eq_of_volunteered hv

/-- A client connects and publishes. -/
def publishing (address : CStr) : List Input :=
  [.command (.connect (.ofBytes [65]) 100), .message (wire (zccpMsgNew .helloOk)),
    .command (.publish address (.ofBytes [66]))]

theorem wire_exact_publishing :
    let z := Czmq.printing .literal strictPrintf
    ∃ self, actorRun z (publishing (.ofBytes [65])) = .up self ∧
      ∃ msgs : List ZccpMsg, (framesIn self.trace).map zccpMsgDecode = msgs.map .ok ∧
        msgs.filter (fun m => IsRequest m) =
          (taken z (.up .new) (publishing (.ofBytes [65]))).filterMap requested ∧
        ∀ m ∈ msgs, ¬ IsRequest m → m = bareHello ∨ m = zccpMsgNew .pingOk := by
  intro z
  obtain ⟨self, hrun⟩ : ∃ self, actorRun z (publishing (.ofBytes [65])) = .up self := ⟨_, rfl⟩
  have htaken : taken z (.up .new) (publishing (.ofBytes [65])) =
      [.start, .connecting, .connected].zip (publishing (.ofBytes [65])) := by
    decide +kernel
  refine ⟨self, hrun, wire_exact z strictPrintf_printf _ self (.inl hrun) ?_⟩
  rw [htaken]
  intro x hx
  simp only [publishing, List.zip_cons_cons, List.zip_nil_right, List.mem_cons, List.not_mem_nil,
    or_false] at hx
  rcases hx with rfl | rfl | rfl
  · trivial
  · trivial
  · exact ⟨by decide, by decide⟩

/-- The addresses of the PUBLISH messages that an actor has sent. -/
def addressesSent : Actor → List CStr
  | .up self => (framesIn self.trace).filterMap fun frames =>
    match zccpMsgDecode frames with
    | .ok m => if m.id = .publish then m.address else none
    | .error _ => none
  | _ => []

/-- **A percent sign.** The application publishes under the address `%%`, and what goes out is a
PUBLISH under `%`. -/
theorem wire_not_percent :
    let z := Czmq.printing .literal strictPrintf
    Printf z.zsysVprintf ∧
      addressesSent (actorRun z (publishing (.ofBytes [37, 37]))) = [.ofBytes [37]] ∧
      CStr.ofBytes [37] ≠ CStr.ofBytes [37, 37] :=
  ⟨strictPrintf_printf, by decide +kernel, by decide⟩

/-- **Why not a DIRECT.** It is not one of the two messages that the application asks for, but the
client answers it with one of its own, and that carries an address and a content. Here they are
those of a PUBLISH that came while the client was subscribing and was discarded. -/
theorem wire_not_direct :
    let e := CStr.ofBytes [65]
    let inputs : List Input := [.command (.connect e 100), .message (wire (zccpMsgNew .helloOk)),
      .command (.subscribe e), .command (.publish (.ofBytes [88]) (.ofBytes [66])),
      .message (wire (zccpMsgNew .subscribeOk)), .message (wire (zccpMsgNew .direct))]
    ∃ self, actorRun .literal inputs = .up self ∧
      ((framesIn self.trace).map zccpMsgDecode).getLast? = some (.ok { zccpMsgNew .direct with
        address := some (.ofBytes [88]), headers := some .empty, content := some [[66]] }) := by
  intro e inputs
  have hlast : (match actorRun .literal inputs with
      | .up self => (framesIn self.trace).getLast?.bind fun frames => (zccpMsgDecode frames).toOption
      | _ => none) = some { zccpMsgNew .direct with
        address := some (.ofBytes [88]), headers := some .empty, content := some [[66]] } := by
    decide +kernel
  cases hrun : actorRun .literal inputs with
  | up self =>
    rw [hrun] at hlast
    obtain ⟨frames, hframes, hdec⟩ := Option.bind_eq_some_iff.mp hlast
    refine ⟨self, rfl, ?_⟩
    rw [List.getLast?_map, hframes, Option.map_some]
    cases hd : zccpMsgDecode frames with
    | ok m =>
      rw [hd] at hdec
      rw [Option.some.inj hdec]
    | error err =>
      rw [hd] at hdec
      cases hdec
  | _ =>
    rw [hrun] at hlast
    cases hlast

end Zccp.Client
