import Zccp.Broker.Refines

/-!
# `Zccp/Broker/Runs.lean` — what a run has been

The refinement speaks of directories; what is promised about the broker speaks of runs: who has
sent what, in which session, and what came back. This file translates. `HasSession` and
`AskedFor` say of a run what an entry and a subscription are in a directory, without mentioning
either, and `subscriptions_iff` connects the two.

A run that gets through has only decodable inputs (`decodable_of_run`), since the first message
that does not decode ends the reactor. So "reachable" is "reached by decodable inputs".
-/

set_option autoImplicit false

namespace Zccp.Broker

open Lib CursorList

variable {z : Czmq} {verbose : Bool}

/-! ## Which runs get through -/

/-- A message that does not decode is dropped on receipt. -/
theorem zccpMsgRecv_error {routingId : Frame} {frames : List Frame}
    (h : ∀ m, zccpMsgDecode frames ≠ .ok m) : zccpMsgRecv (routingId :: frames) = none := by
  simp only [zccpMsgRecv]
  cases hf : zccpMsgDecode frames with
  | error e => simp
  | ok m => exact absurd hf (h m)

/-- A message that does not decode is dropped before anything is looked up, and -1 comes back. -/
theorem handle_malformed (z : Czmq) (s : Server) (routingId : Frame) (frames : List Frame)
    (h : ∀ m, zccpMsgDecode frames ≠ .ok m) :
    handle z (.message routingId frames) s = some (s, -1) := by
  simp only [handle, sServerClientMessage, zccpMsgRecv_error h]

theorem decodable_of_step {s s' : Server} {input : Input} (h : step z s input = some s') :
    input.Decodable := by
  cases input with
  | expiry routingId => trivial
  | message routingId frames =>
    by_contra hd
    have hrecv : zccpMsgRecv (routingId :: frames) = none :=
      zccpMsgRecv_error fun m hm => hd ⟨m, hm⟩
    simp [step, handle, sServerClientMessage, hrecv] at h

theorem decodable_of_run {s : Server} {inputs : List Input} (h : run z verbose inputs = some s) :
    ∀ i ∈ inputs, i.Decodable := by
  intro i hi
  obtain ⟨pre, post, rfl⟩ := List.append_of_mem hi
  obtain ⟨s₁, -, h₂⟩ := runFrom_of_append (show runFrom (step z) _ (pre ++ _) = some s from h)
  rw [runFrom_cons] at h₂
  obtain ⟨s₂, h₃, -⟩ := Option.bind_eq_some_iff.mp h₂
  exact decodable_of_step h₃

/-- A step that the reactor takes and survives is a transition: its message could be decoded. -/
theorem transition_of_step {s s' : Server} {input : Input} (hi : Inv z s.core)
    (h : step z s input = some s') : ∃ t, Transition z s.core input s'.core t := by
  obtain ⟨s₁, t, hs₁, htrans, -⟩ := handle_spec (z := z) hi (decodable_of_step h)
  obtain rfl := Option.some.inj ((step_of_handle hs₁).symm.trans h)
  exact ⟨t, htrans⟩

/-- The invariant is kept by every step that the reactor survives. -/
theorem inv_step (s : Server) (input : Input) (s' : Server) (hi : Inv z s.core)
    (h : step z s input = some s') : Inv z s'.core := by
  obtain ⟨t, htrans⟩ := transition_of_step hi h
  exact htrans.inv hi

/-- A reachable server implements the directory of its run. -/
theorem implements_of_run {s : Server} {inputs : List Input} (h : run z verbose inputs = some s) :
    Implements z s (directory z inputs) := by
  obtain ⟨s', hs', himpl, -⟩ := run_refines z verbose (decodable_of_run h)
  rw [h, Option.some.injEq] at hs'
  exact hs' ▸ himpl

theorem run_append_singleton (z : Czmq) (verbose : Bool) (inputs : List Input) (i : Input) :
    run z verbose (inputs ++ [i]) = (run z verbose inputs).bind fun s => step z s i :=
  runFrom_append_singleton _ inputs i

theorem directory_append (z : Czmq) (inputs inputs' : List Input) :
    directory z (inputs ++ inputs') =
      (inputs'.map Input.event).foldl (PubSub.step (policy z)) (directory z inputs) := by
  rw [directory, List.map_append, List.foldl_append]
  rfl

/-- One more input, with everything that is known about it. -/
theorem run_step (z : Czmq) (verbose : Bool) {inputs : List Input} {input : Input}
    (hd : ∀ i ∈ inputs, i.Decodable) (hi : input.Decodable) :
    ∃ s s' t, run z verbose inputs = some s ∧ run z verbose (inputs ++ [input]) = some s' ∧
      Implements z s (directory z inputs) ∧ Transition z s.core input s'.core t ∧
      s'.trace = s.trace ++ t ∧
      ∀ c, sentIn c t = (PubSub.out (policy z) c (directory z inputs) input.event).map
        (replyMsg z c) := by
  obtain ⟨s, hs, himpl, -⟩ := run_refines z verbose hd
  obtain ⟨s', t, hs', htrans, htrace⟩ := handle_spec himpl.inv hi
  refine ⟨s, s', t, hs, ?_, himpl, htrans, htrace, ?_⟩
  · rw [run_append_singleton, hs, Option.bind_some, step_of_handle hs']
  · rw [← himpl.entry]
    exact (htrans.refines himpl.inv).2

/-! ## Sessions and subscriptions of a run -/

/-- The peer has a session after these inputs. -/
def HasSession (z : Czmq) (verbose : Bool) (inputs : List Input) (c : Frame) : Prop :=
  ∃ s, run z verbose inputs = some s ∧ ∃ r, s.clients (zframeStrhex c) = some r

/-- A message is a SUBSCRIBE for an expression. -/
def IsSubscribe (frames : List Frame) (e : CStr) : Prop :=
  ∃ m, zccpMsgDecode frames = .ok m ∧ m.id = .subscribe ∧ m.expression = some e

/-- The peer has sent SUBSCRIBE for an expression in the session it has after these inputs: it has
had a session from just before that message until now. -/
def AskedFor (z : Czmq) (verbose : Bool) (inputs : List Input) (c : Frame) (e : CStr) : Prop :=
  ∃ pre frames post, inputs = pre ++ .message c frames :: post ∧ IsSubscribe frames e ∧
    ∀ mid, mid <+: .message c frames :: post → HasSession z verbose (pre ++ mid) c

/-- A message is a HELLO with an identifier. -/
def IsHello (frames : List Frame) (name : CStr) : Prop :=
  ∃ m, zccpMsgDecode frames = .ok m ∧ m.id = .hello ∧ m.identifier = some name

/-- The session the peer has after these inputs was opened by a HELLO with this identifier: it had
none before that message, and has had one ever since. -/
def OpenedBy (z : Czmq) (verbose : Bool) (inputs : List Input) (c : Frame) (name : CStr) : Prop :=
  ∃ pre frames post, inputs = pre ++ .message c frames :: post ∧ IsHello frames name ∧
    ¬ HasSession z verbose pre c ∧
    ∀ mid, mid <+: post → HasSession z verbose (pre ++ .message c frames :: mid) c

/-- A peer has a session just when it is in the directory of the abstract broker. -/
theorem hasSession_iff {inputs : List Input} (hd : ∀ i ∈ inputs, i.Decodable) (c : Frame) :
    HasSession z verbose inputs c ↔ (directory z inputs c).isSome := by
  obtain ⟨s, hs, himpl, -⟩ := run_refines z verbose hd
  have hentry := himpl.inv.entry_none_iff (c := c)
  rw [himpl.entry] at hentry
  have hsome : (directory z inputs c).isSome ↔ ∃ r, s.clients (zframeStrhex c) = some r := by
    rw [← not_iff_not, Option.not_isSome_iff_eq_none, hentry, ← Option.isSome_iff_exists,
      Option.not_isSome_iff_eq_none]
    rfl
  rw [hsome]
  constructor
  · rintro ⟨s', hs', hr⟩
    rw [hs, Option.some.injEq] at hs'
    exact hs' ▸ hr
  · intro hr
    exact ⟨s, hs, hr⟩

/-- The requests among the events are the messages that make them. -/
theorem event_eq_request_iff {input : Input} (hd : input.Decodable) {c : Frame}
    {request : PubSub.Request CStr CStr CStr (Option (List Frame))} :
    input.event = .request c request ↔
      ∃ frames m, input = .message c frames ∧ zccpMsgDecode frames = .ok m ∧ m.request = request := by
  cases input with
  | expiry routingId => simp [Input.event]
  | message routingId frames =>
    obtain ⟨m, hm⟩ := hd
    simp only [Input.event, hm, PubSub.Event.request.injEq, Input.message.injEq]
    constructor
    · rintro ⟨rfl, hreq⟩
      exact ⟨frames, m, ⟨rfl, rfl⟩, hm, hreq⟩
    · rintro ⟨frames', m', ⟨rfl, rfl⟩, hm', hreq⟩
      rw [hm, Except.ok.injEq] at hm'
      subst hm'
      exact ⟨rfl, hreq⟩

theorem event_eq_subscribe_iff {input : Input} (hd : input.Decodable) {c : Frame} {e : CStr} :
    input.event = .request c (.subscribe e) ↔
      ∃ frames, input = .message c frames ∧ IsSubscribe frames e := by
  rw [event_eq_request_iff hd]
  constructor
  · rintro ⟨frames, m, rfl, hm, hreq⟩
    refine ⟨frames, rfl, m, hm, ?_⟩
    have hshape := (zccpMsgDecode_shape hm).2
    unfold ZccpMsg.request at hreq
    cases hid : m.id with
    | subscribe =>
      rw [hid] at hshape
      obtain ⟨e', h', rfl⟩ := hshape
      exact ⟨rfl, congrArg some (PubSub.Request.subscribe.inj hreq)⟩
    | _ => simp [hid] at hreq
  · rintro ⟨frames, rfl, m, hm, hid, he⟩
    exact ⟨frames, m, rfl, hm, by simp [ZccpMsg.request, hid, he]⟩

theorem event_eq_hello_iff {input : Input} (hd : input.Decodable) {c : Frame} {name : CStr} :
    input.event = .request c (.hello name) ↔
      ∃ frames, input = .message c frames ∧ IsHello frames name := by
  rw [event_eq_request_iff hd]
  constructor
  · rintro ⟨frames, m, rfl, hm, hreq⟩
    refine ⟨frames, rfl, m, hm, ?_⟩
    have hshape := (zccpMsgDecode_shape hm).2
    unfold ZccpMsg.request at hreq
    cases hid : m.id with
    | hello =>
      rw [hid] at hshape
      obtain ⟨name', h', rfl⟩ := hshape
      exact ⟨rfl, congrArg some (PubSub.Request.hello.inj hreq)⟩
    | _ => simp [hid] at hreq
  · rintro ⟨frames, rfl, m, hm, hid, hname⟩
    exact ⟨frames, m, rfl, hm, by simp [ZccpMsg.request, hid, hname]⟩

/-- Having a session all the way, in the run and in the directory. -/
theorem stays_iff (verbose : Bool) {pre post : List Input} (hd : ∀ i ∈ pre ++ post, i.Decodable) (c : Frame) :
    (∀ mid, mid <+: post → HasSession z verbose (pre ++ mid) c) ↔
      PubSub.Stays (policy z) c (directory z pre) (post.map Input.event) := by
  have hmid : ∀ mid, mid <+: post → (HasSession z verbose (pre ++ mid) c ↔
      ((mid.map Input.event).foldl (PubSub.step (policy z)) (directory z pre) c).isSome) := by
    intro mid hmid
    rw [hasSession_iff, directory_append]
    intro i hi
    rcases List.mem_append.mp hi with hi | hi
    · exact hd i (List.mem_append_left _ hi)
    · exact hd i (List.mem_append_right _ (hmid.subset hi))
  constructor
  · intro h es' hes'
    obtain ⟨mid, hpre, rfl⟩ := List.prefix_map_iff.mp hes'
    exact (hmid mid hpre).mp (h mid hpre)
  · intro h mid hpre
    exact (hmid mid hpre).mpr (h _ (hpre.map Input.event))

/-- What a peer has asked for, in the run and in the directory. -/
theorem askedFor_iff {inputs : List Input} (hd : ∀ i ∈ inputs, i.Decodable) (c : Frame) (e : CStr) :
    AskedFor z verbose inputs c e ↔ PubSub.Asked (policy z) c e (inputs.map Input.event) := by
  constructor
  · rintro ⟨pre, frames, post, rfl, hsub, hstays⟩
    have hevent := (event_eq_subscribe_iff (hd (.message c frames) (by simp))).mpr ⟨frames, rfl, hsub⟩
    refine ⟨pre.map Input.event, post.map Input.event, ?_, ?_⟩
    · rw [List.map_append, List.map_cons, hevent]
    · rw [← hevent, ← List.map_cons]
      exact (stays_iff verbose hd c).mp hstays
  · rintro ⟨pre', post', heq, hstays⟩
    obtain ⟨pre, rest, rfl, rfl, hrest⟩ := List.map_eq_append_iff.mp heq
    obtain ⟨i, post, rfl, hi, rfl⟩ := List.map_eq_cons_iff.mp hrest
    rw [← hi, ← List.map_cons] at hstays
    obtain ⟨frames, rfl, hsub⟩ := (event_eq_subscribe_iff (hd i (by simp))).mp hi
    exact ⟨pre, frames, post, rfl, hsub, (stays_iff verbose hd c).mpr hstays⟩

/-- **A peer's subscriptions** are the expressions it has asked for in its session, less those that
cannot be compiled. -/
theorem subscriptions_iff {inputs : List Input} (hd : ∀ i ∈ inputs, i.Decodable) {c : Frame}
    {m : PubSub.Member CStr CStr} (hm : directory z inputs c = some m) (e : CStr) :
    e ∈ m.subscriptions ↔ AskedFor z verbose inputs c e ∧ (z.zrexNew e).isSome := by
  rw [askedFor_iff hd]
  exact PubSub.mem_subscriptions_iff (policy z) c e _ m hm

/-- **A peer's name** is the identifier of the HELLO that opened its session. -/
theorem openedBy_iff {inputs : List Input} (hd : ∀ i ∈ inputs, i.Decodable) {c : Frame}
    {m : PubSub.Member CStr CStr} (hm : directory z inputs c = some m) (name : CStr) :
    OpenedBy z verbose inputs c name ↔ m.name = name := by
  rw [← PubSub.opened_iff (policy z) c name (inputs.map Input.event) m hm]
  constructor
  · rintro ⟨pre, frames, post, rfl, hhello, hnone, hstays⟩
    have hevent := (event_eq_hello_iff (hd (.message c frames) (by simp))).mpr ⟨frames, rfl, hhello⟩
    refine ⟨pre.map Input.event, post.map Input.event, ?_, ?_, ?_⟩
    · rw [List.map_append, List.map_cons, hevent]
    · rw [hasSession_iff (fun i hi => hd i (List.mem_append_left _ hi)),
        Option.not_isSome_iff_eq_none] at hnone
      exact hnone
    · rw [← hevent, ← List.map_singleton, ← List.map_append]
      refine (stays_iff verbose (by simpa using hd) c).mp fun mid hmid => ?_
      rw [← List.append_cons]
      exact hstays mid hmid
  · rintro ⟨pre', post', heq, hnone, hstays⟩
    obtain ⟨pre, rest, rfl, rfl, hrest⟩ := List.map_eq_append_iff.mp heq
    obtain ⟨i, post, rfl, hi, rfl⟩ := List.map_eq_cons_iff.mp hrest
    rw [← hi, ← List.map_singleton, ← List.map_append] at hstays
    obtain ⟨frames, rfl, hhello⟩ := (event_eq_hello_iff (hd i (by simp))).mp hi
    refine ⟨pre, frames, post, rfl, hhello, ?_, fun mid hmid => ?_⟩
    · rw [hasSession_iff (fun i hi => hd i (List.mem_append_left _ hi)),
        Option.not_isSome_iff_eq_none]
      exact hnone
    · rw [List.append_cons]
      exact (stays_iff verbose (by simpa using hd) c).mpr hstays mid hmid

/-- Whether a peer has a session can be found out by running the broker. -/
instance (inputs : List Input) (c : Frame) : Decidable (HasSession z verbose inputs c) :=
  decidable_of_iff
    ((run z verbose inputs).bind fun s => s.clients (zframeStrhex c)).isSome (by
      simp only [HasSession, Option.isSome_iff_exists, Option.bind_eq_some_iff]
      constructor
      · rintro ⟨r, s, hs, hr⟩
        exact ⟨s, hs, r, hr⟩
      · rintro ⟨s, hs, r, hr⟩
        exact ⟨r, s, hs, hr⟩)

theorem OpenedBy.hasSession {inputs : List Input} {p : Frame} {name : CStr}
    (h : OpenedBy z verbose inputs p name) : HasSession z verbose inputs p := by
  obtain ⟨pre, frames, post, rfl, -, -, hstays⟩ := h
  exact hstays post List.prefix_rfl

theorem HasSession.opened {inputs : List Input} (hd : ∀ i ∈ inputs, i.Decodable) {p : Frame}
    (h : HasSession z verbose inputs p) : ∃ name, OpenedBy z verbose inputs p name := by
  obtain ⟨mp, hmp⟩ := Option.isSome_iff_exists.mp ((hasSession_iff hd p).mp h)
  exact ⟨mp.name, (openedBy_iff hd hmp mp.name).mpr rfl⟩

theorem HasSession.decodable {inputs : List Input} {p : Frame}
    (h : HasSession z verbose inputs p) : ∀ i ∈ inputs, i.Decodable := by
  obtain ⟨s, hs, -⟩ := h
  exact decodable_of_run hs

/-- Who has opened a session can be read off the directory. -/
theorem openedBy_iff_directory {inputs : List Input} (hd : ∀ i ∈ inputs, i.Decodable) (c : Frame)
    (name : CStr) :
    OpenedBy z verbose inputs c name ↔ (directory z inputs c).map (·.name) = some name := by
  constructor
  · intro h
    obtain ⟨m, hm⟩ := Option.isSome_iff_exists.mp ((hasSession_iff hd c).mp h.hasSession)
    rw [hm, Option.map_some, (openedBy_iff hd hm name).mp h]
  · intro h
    obtain ⟨m, hm, hname⟩ := Option.map_eq_some_iff.mp h
    exact (openedBy_iff hd hm name).mpr hname

/-! ## What is sent -/

/-- What a `send` puts on the wire is the encoding of its message. -/
def Obs.Encoded : Obs → Prop
  | .send _ msg frames => frames = wire msg
  | _ => True

/-- The same of a block of observations. -/
def Encoded (t : List Obs) : Prop := ∀ o ∈ t, o.Encoded

/-- **Everything sent is well encoded.** -/
theorem Transition.encoded {k k' : Core} {input : Input} {t : List Obs}
    (h : Transition z k input k' t) : Encoded t := by
  cases h <;> simp only [Encoded, List.forall_mem_append, List.forall_mem_cons, List.not_mem_nil,
    false_implies, List.forall_mem_map, List.forall_mem_flatMap, forall_mem_before,
    forall_mem_after, Visit.forall_mem_trace, Obs.Encoded, sent, implies_true, and_self]

/-- What is sent to a peer, with the frames on the wire. -/
def framesIn (routingId : Frame) (t : List Obs) : List (ZccpMsg × List Frame) :=
  t.filterMap fun
    | .send peer msg frames => if peer = routingId then some (msg, frames) else none
    | _ => none

/-- Where every send is of the encoding of its message, the frames say no more than the messages. -/
theorem framesIn_eq {t : List Obs} (h : Encoded t) (c : Frame) :
    framesIn c t = (sentIn c t).map fun m => (m, wire m) := by
  induction t with
  | nil => rfl
  | cons o t ih =>
    have ht := ih fun o' ho' => h o' (List.mem_cons_of_mem _ ho')
    cases o with
    | send peer msg frames =>
      have hf : frames = wire msg := h _ List.mem_cons_self
      subst hf
      by_cases hp : peer = c
      · simpa [framesIn, sentIn, hp] using ht
      · simpa [framesIn, sentIn, hp] using ht
    | _ => exact ht

theorem encoded_of_run {inputs : List Input} {s : Server} (h : run z verbose inputs = some s) :
    Encoded s.trace := by
  induction inputs using List.reverseRecOn generalizing s with
  | nil =>
    obtain rfl := Option.some.inj h
    exact List.forall_mem_nil _
  | append_singleton inputs i ih =>
    have hd := decodable_of_run h
    obtain ⟨s₁, s₂, t, hs₁, hs₂, -, htrans, htrace, -⟩ := run_step z verbose
      (fun j hj => hd j (List.mem_append_left _ hj)) (hd i (by simp))
    obtain rfl := Option.some.inj (h.symm.trans hs₂)
    rw [htrace]
    exact List.forall_mem_append.mpr ⟨ih hs₁, htrans.encoded⟩

end Zccp.Broker
