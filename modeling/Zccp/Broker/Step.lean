import Zccp.Broker.Forward
import Zccp.Msg.Format

/-!
# `Zccp/Broker/Step.lean` — what one input does

`Transition` lists everything that handling one input can do: the core before and after, and the
observations in between. `handle_spec` says that from a server that satisfies the invariant every
decodable input is handled, with the return code 0, in one of these ways; `Transition.inv` says
that the invariant is kept. Whatever is said about runs of the broker is said by cases on a
`Transition` and nowhere looks into the state machine again.

A transition is about cores only. The cursors of the pattern list, which every pass leaves somewhere
else, are in its observations and nowhere in what it says of the state: that is why they appear there
as arguments about which nothing is known. What a constructor does record is all that decides the
outcome, the session it found included, so that a later proof never has to ask how the message was
looked up.
-/

set_option autoImplicit false

namespace Zccp.Broker

open Lib CursorList

variable {z : Czmq} {f n : Nat} {s : Server}

/-! ## The transitions -/

/-- The types of message that a session survives. HELLO is not among them: the connected state has no
transition for it, so that a second one is answered like anything unexpected. -/
def MsgId.Expected (id : MsgId) : Prop := id = .subscribe ∨ id = .publish ∨ id = .direct

instance (id : MsgId) : Decidable (MsgId.Expected id) := by
  unfold MsgId.Expected; infer_instance

/-- **What handling one input can do.** `msg` is the message with its routing id. There are eight cases
and not one for each type of message, since all that the broker has no transition for takes the same
way through the external state. -/
inductive Transition (z : Czmq) (k : Core) : Input → Core → List Obs → Prop
  /-- HELLO from a peer without a session. -/
  | hello (routingId : Frame) (frames : List Frame) (m msg : ZccpMsg) (identifier : CStr)
      (patterns : CursorList Pattern)
      (decoded : zccpMsgDecode frames = .ok m) (hmsg : msg = m.setRoutingId routingId)
      (id : m.id = .hello) (hidentifier : m.identifier = some identifier)
      (unknown : k.clients (zframeStrhex routingId) = none) :
      Transition z k (.message routingId frames) (k.enrol routingId identifier msg)
        ([.take k.brk msg] ++ before k.verbose k.brk .start .hello patterns ++
          [sent routingId (plainReply .helloOk routingId)] ++
          after k.verbose k.brk .connected patterns)
  /-- Anything else from such a peer. -/
  | refuse (routingId : Frame) (frames : List Frame) (m msg : ZccpMsg)
      (patterns patterns' : CursorList Pattern)
      (decoded : zccpMsgDecode frames = .ok m) (hmsg : msg = m.setRoutingId routingId)
      (id : m.id ≠ .hello) (unknown : k.clients (zframeStrhex routingId) = none) :
      Transition z k (.message routingId frames) k.refuse
        ([.take k.brk msg] ++ before k.verbose k.brk .start (sProtocolEvent m) patterns ++
          (externalReply (sProtocolEvent m)).map (fun id => sent routingId (plainReply id routingId)) ++
          [.destroy k.brk, .leave k.brk patterns'])
  /-- SUBSCRIBE for a session. -/
  | subscribe (routingId : Frame) (frames : List Frame) (m msg : ZccpMsg) (r : Ref) (σ : Session)
      (expression : CStr) (patterns patterns' : CursorList Pattern)
      (decoded : zccpMsgDecode frames = .ok m) (hmsg : msg = m.setRoutingId routingId)
      (id : m.id = .subscribe) (hexpression : m.expression = some expression)
      (session : k.session r = some σ) (peer : σ.routingId = routingId) :
      Transition z k (.message routingId frames)
        ((k.touch r σ msg).subscribe z r expression)
        ([.take r msg] ++ before k.verbose r .connected .subscribe patterns ++
          [sent routingId (plainReply .subscribeOk routingId)] ++
          after k.verbose r .connected patterns')
  /-- PUBLISH for a session. -/
  | publish (routingId : Frame) (frames : List Frame) (m msg : ZccpMsg) (r : Ref) (σ : Session)
      (relay : Relay) (visits : List Visit) (patterns patterns' : CursorList Pattern)
      (decoded : zccpMsgDecode frames = .ok m) (hmsg : msg = m.setRoutingId routingId)
      (id : m.id = .publish)
      (session : k.session r = some σ) (peer : σ.routingId = routingId)
      (hsender : σ.identifier = some relay.sender) (haddress : m.address = some relay.address)
      (hcontent : m.content = relay.content) (hheaders : relay.headers = none)
      (hvisits : visits.map (fun v => (v.position, v.client)) = k.targets z r relay.address) :
      Transition z k (.message routingId frames) ((k.touch r σ msg).point r k.brk)
        ([.take r msg] ++ before k.verbose r .connected .publish patterns ++
          visits.flatMap (Visit.trace z k relay) ++ after k.verbose r .connected patterns')
  /-- DIRECT for a session. -/
  | direct (routingId : Frame) (frames : List Frame) (m msg : ZccpMsg) (r : Ref) (σ : Session)
      (patterns : CursorList Pattern)
      (decoded : zccpMsgDecode frames = .ok m) (hmsg : msg = m.setRoutingId routingId)
      (id : m.id = .direct) (session : k.session r = some σ) (peer : σ.routingId = routingId) :
      Transition z k (.message routingId frames) (k.touch r σ msg)
        ([.take r msg] ++ before k.verbose r .connected .direct patterns ++
          after k.verbose r .connected patterns)
  /-- Anything else for a session. -/
  | close (routingId : Frame) (frames : List Frame) (m msg : ZccpMsg) (r : Ref) (σ : Session)
      (patterns patterns' : CursorList Pattern)
      (decoded : zccpMsgDecode frames = .ok m) (hmsg : msg = m.setRoutingId routingId)
      (id : ¬ MsgId.Expected m.id)
      (session : k.session r = some σ) (peer : σ.routingId = routingId) :
      Transition z k (.message routingId frames) ((k.touch r σ msg).drop r (k.touched σ msg))
        ([.take r msg] ++ before k.verbose r .connected (sProtocolEvent m) patterns ++
          (externalReply (sProtocolEvent m)).map (fun id => sent routingId (plainReply id routingId)) ++
          [.destroy r, .leave r patterns'])
  /-- The expiry of a session. -/
  | expire (routingId : Frame) (r : Ref) (σ : Session) (patterns patterns' : CursorList Pattern)
      (session : k.session r = some σ) (peer : σ.routingId = routingId) :
      Transition z k (.expiry routingId) (k.drop r σ)
        (before k.verbose r .connected .expired patterns ++ [.destroy r, .leave r patterns'])
  /-- An expiry of a peer without a session. -/
  | nothing (routingId : Frame) (unknown : k.clients (zframeStrhex routingId) = none) :
      Transition z k (.expiry routingId) k []

/-- **The invariant is kept.** Every transition is made of a few changes of the core, each of which
keeps it (`Zccp/Broker/Invariant.lean`); the cases only say which. -/
theorem Transition.inv {k k' : Core} {input : Input} {t : List Obs} (h : Transition z k input k' t)
    (hi : Inv z k) : Inv z k' := by
  have htouched : ∀ {r : Ref} {σ : Session} {msg : ZccpMsg},
      (k.touch r σ msg).session r = some (k.touched σ msg) := Function.update_self ..
  cases h with
  | hello _ _ _ msg identifier _ _ _ _ _ unknown => exact hi.enrol identifier msg unknown
  | refuse => exact hi.refuse
  | subscribe _ _ _ msg _ _ expression _ _ _ _ _ _ session =>
    exact (hi.touch session msg).subscribe htouched expression
  | publish _ _ _ msg _ _ _ _ _ _ _ _ _ session => exact (hi.touch session msg).point _ _
  | direct _ _ _ msg _ _ _ _ _ _ session => exact hi.touch session msg
  | close _ _ _ msg _ _ _ _ _ _ _ session => exact (hi.touch session msg).drop htouched
  | expire _ _ _ _ _ session => exact hi.drop session
  | nothing => exact hi

/-- **An address stays its owner's**: as long as there is a session at it, it is of the same
peer. The invariant does not say so, since it speaks of one state only. Addresses are handed out in
order, which leaves a HELLO as the only case to be argued. -/
theorem Transition.hashkey_eq {k k' : Core} {input : Input} {t : List Obs}
    (h : Transition z k input k' t) (hi : Inv z k) {r : Ref} {σ σ' : Session}
    (hσ : k.session r = some σ) (hσ' : k'.session r = some σ') : σ'.hashkey = σ.hashkey := by
  -- a session that has been touched has its old key
  have htouch : ∀ {r₁ : Ref} {σ₁ σ₂ : Session} {msg : ZccpMsg}, k.session r₁ = some σ₁ →
      (k.touch r₁ σ₁ msg).session r = some σ₂ → σ₂.hashkey = σ.hashkey := by
    intro r₁ σ₁ σ₂ msg h₁ h₂
    by_cases he : r = r₁
    · subst he
      obtain rfl := Option.some.inj (hσ.symm.trans h₁)
      simp only [Core.touch, Core.setSession, Function.update_self, Option.some.injEq] at h₂
      rw [← h₂]
      rfl
    · simp only [Core.touch, Core.setSession, Function.update_of_ne he, hσ, Option.some.injEq] at h₂
      rw [h₂]
  have hdrop : ∀ {k₁ : Core} {r₁ : Ref} {σ₁ : Session}, (k₁.drop r₁ σ₁).session r = some σ' →
      k₁.session r = some σ' := by
    intro k₁ r₁ σ₁ h₁
    by_cases he : r = r₁
    · simp [Core.drop, he] at h₁
    · simpa only [Core.drop, Function.update_of_ne he] using h₁
  have hsame : k.session r = some σ' → σ'.hashkey = σ.hashkey := by
    intro h₁
    rw [Option.some.inj (h₁.symm.trans hσ)]
  cases h with
  | hello =>
    apply hsame
    -- the newcomer gets an address nobody has had
    have he : r ≠ k.brk := Nat.ne_of_lt (hi.fresh r σ hσ)
    simpa only [Core.enrol, Function.update_of_ne he] using hσ'
  | refuse => exact hsame hσ'
  | subscribe _ _ _ _ _ _ _ _ _ _ _ _ _ session => exact htouch session hσ'
  | publish _ _ _ _ _ _ _ _ _ _ _ _ _ session => exact htouch session hσ'
  | direct _ _ _ _ _ _ _ _ _ _ session => exact htouch session hσ'
  | close _ _ _ _ _ _ _ _ _ _ _ session => exact htouch session (hdrop hσ')
  | expire => exact hsame (hdrop hσ')
  | nothing => exact hsame hσ'

/-! ## Receiving a message -/

theorem zccpMsgRecv_ok {routingId : Frame} {frames : List Frame} {m : ZccpMsg}
    (h : zccpMsgDecode frames = .ok m) :
    zccpMsgRecv (routingId :: frames) = some (m.setRoutingId routingId) := by
  cases frames with
  | nil => simp [zccpMsgDecode] at h
  | cons => simp [zccpMsgRecv, h, ZccpMsg.setRoutingId]

theorem sProtocolEvent_ne_null (m : ZccpMsg) : sProtocolEvent m ≠ .null := by
  unfold sProtocolEvent; split <;> decide

@[simp] theorem sProtocolEvent_setRoutingId (m : ZccpMsg) (routingId : Frame) :
    sProtocolEvent (m.setRoutingId routingId) = sProtocolEvent m := rfl

/-- What the connected state has no transition for, it inherits from `external`. -/
theorem sClientActions_connected {m : ZccpMsg} (h : ¬ MsgId.Expected m.id) :
    sClientActions .connected (sProtocolEvent m) = externalActions (sProtocolEvent m) := by
  unfold sProtocolEvent
  split <;> first | rfl | simp_all [MsgId.Expected]

/-- In the start state that is everything but a HELLO. -/
theorem sClientActions_start {m : ZccpMsg} (h : m.id ≠ .hello) :
    sClientActions .start (sProtocolEvent m) = externalActions (sProtocolEvent m) := by
  unfold sProtocolEvent
  split <;> first | rfl | simp_all

/-- Queueing a message and taking it off again makes it the request. This is where an empty mailbox
is needed: the filter takes the first message whose event is valid, and an older one would be in front
of this. -/
theorem queue_then_filter {r : Ref} {c : SClient} (hc : s.heap r = some c)
    (hm : c.mailbox = .empty) (hf : 0 < f) (msg : ZccpMsg) :
    (queueRequest r msg s).bind (sClientFilterMailbox f r) =
      some (sProtocolEvent msg, ({ s.setClient r { c with request := some { addr := s.brk, msg } }
        with brk := s.brk + 1 } : Server).emit [.take r msg]) := by
  let q : Request := { addr := s.brk, msg := msg }
  have hseek : seek (fun _ : Request => eventIsValid c.state) f (CursorList.empty.append q) =
      some (some 0, { items := [q], cursor := some 0 }) := by
    have hvalid : eventIsValid c.state = true := by cases c.state <;> rfl
    rw [seek_eq _ (show 1 ≤ f from hf)]
    simp [hvalid, CursorList.append, CursorList.empty]
  have hremove : (CursorList.remove { items := [q], cursor := some 0 } fun q' => q'.addr = s.brk) =
      CursorList.empty := by
    simp [CursorList.remove, q, CursorList.empty]
  simp only [queueRequest, hc, hm, Option.bind_eq_bind, Option.bind_some, sClientFilterMailbox,
    Server.heap_setClient_self, hseek, q] at hremove ⊢
  simp [hremove, Server.setClient, Server.note, Server.emit]

/-- The head of `s_server_client_message`: what it does once it has found or made the client. It arms
a new timer in place of the old one, whose id is 0 for a client that has just been made. -/
theorem received_spec {r : Ref} {c : SClient} (msg : ZccpMsg) (hc : s.heap r = some c)
    (hm : c.mailbox = .empty) (hf : 0 < f) :
    ∃ s₁, ((resetExpiryTimer r s).bind fun s =>
        (queueRequest r msg s).bind (sClientFilterMailbox f r)) =
        some (sProtocolEvent msg, s₁) ∧
      s₁.heap = Function.update s.heap r (some { c with
        toSession := s.core.touched c.toSession msg }) ∧
      s₁.core = { s.core.setSession r (s.core.touched c.toSession msg) with
        brk := s.brk + 1
        timers := (if c.expiryTimer = 0 then s.timers
          else s.timers.filter (·.id ≠ c.expiryTimer)) ++
          [{ id := s.lastTimerId + 1, argument := r }]
        lastTimerId := s.lastTimerId + 1 } ∧
      s₁.trace = s.trace ++ [.take r msg] ∧ s₁.patterns = s.patterns := by
  let s₀ := (zloopTimer r (endTimer c.expiryTimer s)).2.setClient r
    { c with expiryTimer := s.lastTimerId + 1 }
  have hend : ∀ id, (endTimer id s).lastTimerId = s.lastTimerId := by
    intro id
    unfold endTimer
    split <;> rfl
  have hreset : resetExpiryTimer r s = some s₀ := by
    simp only [resetExpiryTimer, hc, Option.bind_eq_bind, Option.bind_some, s₀, zloopTimer, hend]
  have hc₀ : s₀.heap r = some { c with expiryTimer := s.lastTimerId + 1 } :=
    Server.heap_setClient_self _ _ _
  have hqueue := queue_then_filter (f := f) hc₀ hm hf msg
  refine ⟨_, by rw [hreset, Option.bind_some, hqueue], ?_, ?_, ?_, ?_⟩
  · by_cases he : c.expiryTimer = 0 <;>
      simp [s₀, zloopTimer, endTimer, zloopTimerEnd, he, Server.setClient, Core.touched,
        Server.core, Server.emit]
  · rw [Server.core_emit]
    have hsession : ∀ s' : Server, s'.heap = Function.update s.heap r (some { c with
        toSession := s.core.touched c.toSession msg }) →
        s'.session = Function.update s.session r (some (s.core.touched c.toSession msg)) := by
      intro s' hs'
      funext r'
      by_cases h : r' = r
      · subst h; simp [Server.session, hs']
      · simp [Server.session, hs', h]
    ext1
    case session =>
      apply hsession
      by_cases he : c.expiryTimer = 0 <;>
        simp [s₀, zloopTimer, endTimer, zloopTimerEnd, he, Server.setClient, Core.touched,
          Server.core]
    all_goals
      by_cases he : c.expiryTimer = 0 <;>
        simp [s₀, zloopTimer, endTimer, zloopTimerEnd, he, Server.setClient, Server.core,
          Core.setSession]
  · by_cases he : c.expiryTimer = 0 <;>
      simp [s₀, zloopTimer, endTimer, zloopTimerEnd, he, Server.setClient]
  · by_cases he : c.expiryTimer = 0 <;>
      simp [s₀, zloopTimer, endTimer, zloopTimerEnd, he, Server.setClient]

/-- The rest of it: the state machine is run with the event of the message. -/
theorem sServerClientMessage_eq {frames : List Frame} {m : ZccpMsg} {routingId : Frame} {r : Ref}
    {s' s₁ : Server} (hdec : zccpMsgDecode frames = .ok m)
    (hlookup : lookupOrNew routingId s = (r, s'))
    (hreceived : ((resetExpiryTimer r s').bind fun s =>
        (queueRequest r (m.setRoutingId routingId) s).bind (sClientFilterMailbox f r)) =
        some (sProtocolEvent m, s₁)) :
    sServerClientMessage z f n (routingId :: frames) s =
      (sClientExecute z f n r (sProtocolEvent m) s₁).map fun s => (s, 0) := by
  have hid : (m.setRoutingId routingId).routingId = some routingId := rfl
  obtain ⟨s₂, h₂, hrest⟩ := Option.bind_eq_some_iff.mp hreceived
  obtain ⟨s₃, h₃, h₄⟩ := Option.bind_eq_some_iff.mp hrest
  simp only [sServerClientMessage, zccpMsgRecv_ok hdec, hid, hlookup, h₂, h₃, h₄,
    Option.bind_eq_bind, Option.bind_some, sProtocolEvent_ne_null, if_false, Option.map_eq_bind]
  rfl

/-- A message from a peer with a session, up to the state machine. -/
theorem known_spec {routingId : Frame} {frames : List Frame} {m : ZccpMsg} {r : Ref}
    (hi : Inv z s.core) (hr : s.clients (zframeStrhex routingId) = some r)
    (hdec : zccpMsgDecode frames = .ok m) (hf : 0 < f) :
    ∃ s₁ c₁ σ, sServerClientMessage z f n (routingId :: frames) s =
        (sClientExecute z f n r (sProtocolEvent m) s₁).map (fun s => (s, 0)) ∧
      s.core.session r = some σ ∧ σ.routingId = routingId ∧ σ.Idle ∧ Ready r c₁ s₁ ∧
      c₁.toSession = s.core.touched σ (m.setRoutingId routingId) ∧
      s₁.core = s.core.touch r σ (m.setRoutingId routingId) ∧
      s₁.trace = s.trace ++ [.take r (m.setRoutingId routingId)] ∧ s₁.patterns = s.patterns := by
  obtain ⟨σ, hσ, hpeer⟩ := hi.session_of_clients hr
  have hidle := hi.idle r σ hσ
  obtain ⟨c, hc, rfl⟩ := Server.heap_of_session hσ
  obtain ⟨s₁, hs₁, hheap, hcore, htrace, hpat⟩ := received_spec (f := f)
    (m.setRoutingId routingId) hc hidle.mailbox hf
  refine ⟨s₁, { c with toSession := s.core.touched c.toSession (m.setRoutingId routingId) },
    c.toSession, ?_, hσ, hpeer, hidle, ?_, rfl, ?_, htrace, hpat⟩
  · have hlookup : lookupOrNew routingId s = (r, s) := by simp only [lookupOrNew, hr]
    exact sServerClientMessage_eq hdec hlookup hs₁
  · exact ⟨by rw [hheap]; simp, hidle.awake, hidle.mailbox, hidle.reply⟩
  · rw [hcore, if_neg (hi.armed r _ hσ).1]
    rfl

/-- A message from a peer without a session, up to the state machine. The client is made and entered
into the table before anyone has looked at the type of the message, and only a HELLO keeps it there. -/
theorem unknown_spec {routingId : Frame} {frames : List Frame} {m : ZccpMsg}
    (hr : s.clients (zframeStrhex routingId) = none)
    (hdec : zccpMsgDecode frames = .ok m) (hf : 0 < f) :
    ∃ s₁ c₁, sServerClientMessage z f n (routingId :: frames) s =
        (sClientExecute z f n s.brk (sProtocolEvent m) s₁).map (fun s => (s, 0)) ∧
      Ready s.brk c₁ s₁ ∧
      c₁.toSession = s.core.newcomer routingId (m.setRoutingId routingId) ∧
      s₁.core = s.core.welcome routingId (m.setRoutingId routingId) ∧
      s₁.trace = s.trace ++ [.take s.brk (m.setRoutingId routingId)] ∧
      s₁.patterns = s.patterns := by
  let c : SClient :=
    { hashkey := zframeStrhex routingId, routingId := routingId, mailbox := .empty, state := .start,
      expiryTimer := 0, wakeupTimer := 0, request := none, reply := freshReply routingId,
      identifier := none, event := .null, nextEvent := .null, exception := .null }
  let s' : Server := { s.setClient s.brk c with
    brk := s.brk + 1
    clients := Function.update s.clients (zframeStrhex routingId) (some s.brk) }
  have hlookup : lookupOrNew routingId s = (s.brk, s') := by
    simp only [lookupOrNew, hr, sClientNew]
    rfl
  have hc : s'.heap s.brk = some c := Server.heap_setClient_self s.brk c s
  obtain ⟨s₁, hs₁, hheap, hcore, htrace, hpat⟩ := received_spec (f := f)
    (m.setRoutingId routingId) hc rfl hf
  refine ⟨s₁, _, sServerClientMessage_eq hdec hlookup hs₁,
    ⟨by rw [hheap, Function.update_self], rfl, rfl, rfl⟩, rfl, ?_, htrace, hpat⟩
  rw [hcore]
  have hsession : s'.session = Function.update s.session s.brk (some c.toSession) := by
    funext r'
    by_cases h : r' = s.brk
    · subst h; simp [Server.session, s', Server.setClient]
    · simp [Server.session, s', Server.setClient, h]
  ext1
  case session =>
    show Function.update s'.session s.brk _ = Function.update s.session s.brk _
    rw [hsession, Function.update_idem]
    rfl
  all_goals rfl

/-! ## Every input is handled in one of these ways -/

/-- A message that decodes, from a peer without a session. One pass is enough: if the client is kept,
nothing is queued for it, and if it is not, the loop is left. -/
theorem message_unknown {routingId : Frame} {frames : List Frame} {m : ZccpMsg} (hi : Inv z s.core)
    (hr : s.clients (zframeStrhex routingId) = none) (hdec : zccpMsgDecode frames = .ok m)
    (hf : s.core.fuel ≤ f) :
    ∃ s' t, sServerClientMessage z f (n + 1) (routingId :: frames) s = some (s', 0) ∧
      Transition z s.core (.message routingId frames) s'.core t ∧ s'.trace = s.trace ++ t := by
  obtain ⟨s₁, c₁, hrun, hready, hc₁, hcore₁, htrace₁, hpat₁⟩ :=
    unknown_spec (z := z) (f := f) (n := n + 1) hr hdec
      (Nat.lt_of_lt_of_le s.core.fuel_pos hf)
  have hf₁ : s₁.core.fuel ≤ f := by rw [hcore₁]; exact hf
  have hverbose : s₁.verbose = s.core.verbose := by rw [← Server.core_verbose, hcore₁]; rfl
  have hstart : c₁.state = .start := by rw [hc₁]; rfl
  have hroute : c₁.routingId = routingId := by rw [hc₁]; rfl
  by_cases hid : m.id = .hello
  · obtain ⟨identifier, hidentifier⟩ : ∃ i, m.identifier = some i := by
      have hshape := (zccpMsgDecode_shape hdec).2
      rw [hid] at hshape
      obtain ⟨i, h, rfl⟩ := hshape
      exact ⟨i, rfl⟩
    have hev : sProtocolEvent m = .hello := by simp [sProtocolEvent, hid]
    obtain ⟨s₂, hs₂, hcore₂, htrace₂⟩ := sClientExecute_hello (z := z) (n := n)
      hready hstart (by rw [hc₁]; rfl) hidentifier hf₁
    have htrans := Transition.hello (z := z) (k := s.core) routingId frames m _ identifier
      s₁.patterns hdec rfl hid hidentifier hr
    have hcore : s₂.core = s.core.enrol routingId identifier (m.setRoutingId routingId) := by
      rw [hcore₂, hcore₁, hc₁]
      exact Core.welcome_setSession _ _ _ _
    rw [← hcore] at htrans
    refine ⟨s₂, _, by rw [hrun, hev, hs₂]; rfl, htrans, ?_⟩
    rw [htrace₂, htrace₁, hverbose, hroute]
    simp only [List.append_assoc]
    rfl
  · have hkey : c₁.hashkey = zframeStrhex routingId := by rw [hc₁]; rfl
    obtain ⟨s₂, patterns, hs₂, hcore₂, htrace₂⟩ := sClientExecute_external (z := z) (n := n)
      hready (by rw [hstart]; exact sClientActions_start hid) (sProtocolEvent_ne_null m)
      (by rw [hcore₁, hkey]; exact Function.update_self ..) (by rw [hc₁]; exact Nat.succ_ne_zero _)
      hf₁ (by rw [hcore₁]; exact hi.once)
    have htrans := Transition.refuse (z := z) (k := s.core) routingId frames m _ s₁.patterns patterns
      hdec rfl hid hr
    -- what was entered for the newcomer is taken out again
    have hcore : s₂.core = s.core.refuse := by
      rw [hcore₂, hcore₁, hc₁]
      exact hi.drop_welcome hr _
    rw [← hcore] at htrans
    refine ⟨s₂, _, by rw [hrun, hs₂]; rfl, htrans, ?_⟩
    rw [htrace₂, htrace₁, hverbose, hroute, hstart]
    simp only [List.append_assoc]
    rfl

/-- A message that decodes, from a peer with a session. Two levels of the state machine are enough,
since a client that is handed a copy of a publication publishes nothing itself. -/
theorem message_known {routingId : Frame} {frames : List Frame} {m : ZccpMsg} {r : Ref}
    (hi : Inv z s.core) (hr : s.clients (zframeStrhex routingId) = some r)
    (hdec : zccpMsgDecode frames = .ok m) (hf : s.core.fuel ≤ f) :
    ∃ s' t, sServerClientMessage z f (n + 2) (routingId :: frames) s = some (s', 0) ∧
      Transition z s.core (.message routingId frames) s'.core t ∧ s'.trace = s.trace ++ t := by
  obtain ⟨s₁, c₁, σ, hrun, hσ, hpeer, hidle, hready, hc₁, hcore₁, htrace₁, hpat₁⟩ :=
    known_spec (z := z) (f := f) (n := n + 2) hi hr hdec
      (Nat.lt_of_lt_of_le s.core.fuel_pos hf)
  have hi₁ : Inv z s₁.core := by rw [hcore₁]; exact hi.touch hσ _
  have hf₁ : s₁.core.fuel ≤ f := by rw [hcore₁]; exact hf
  have hverbose : s₁.verbose = s.core.verbose := by rw [← Server.core_verbose, hcore₁]; rfl
  have hstate : c₁.state = .connected := by rw [hc₁]; exact hidle.connected
  have hroute : c₁.routingId = routingId := by rw [hc₁]; exact hpeer
  have hrequest : c₁.request = some { addr := s.core.brk, msg := m.setRoutingId routingId } := by
    rw [hc₁]; rfl
  have hshape := (zccpMsgDecode_shape hdec).2
  by_cases hexp : MsgId.Expected m.id
  · rcases hexp with hid | hid | hid
    · obtain ⟨expression, hexpr⟩ : ∃ e, m.expression = some e := by
        rw [hid] at hshape
        obtain ⟨e, h, rfl⟩ := hshape
        exact ⟨e, rfl⟩
      have hev : sProtocolEvent m = .subscribe := by simp [sProtocolEvent, hid]
      obtain ⟨s₂, patterns, hs₂, hcore₂, htrace₂⟩ := sClientExecute_subscribe (z := z)
        (n := n + 1) hready hstate hrequest hexpr hf₁ hi₁.distinct
      have htrans := Transition.subscribe (z := z) (k := s.core) routingId frames m _ r σ expression
        s₁.patterns patterns hdec rfl hid hexpr hσ hpeer
      rw [← hcore₁, ← hcore₂] at htrans
      refine ⟨s₂, _, by rw [hrun, hev, hs₂]; rfl, htrans, ?_⟩
      rw [htrace₂, htrace₁, hverbose, hroute]
      simp only [List.append_assoc]
    · obtain ⟨address, content, haddr, hcont⟩ : ∃ a c, m.address = some a ∧ m.content = c := by
        rw [hid] at hshape
        obtain ⟨a, h, c, rfl⟩ := hshape
        exact ⟨a, _, rfl, rfl⟩
      obtain ⟨sender, hsender⟩ := hidle.named
      let relay : Relay := { sender, address, headers := none, content }
      have hev : sProtocolEvent m = .publish := by simp [sProtocolEvent, hid]
      obtain ⟨s₂, patterns, visits, hs₂, hcore₂, hvisits, htrace₂⟩ := sClientExecute_publish (z := z)
        (n := n) (m := relay) hready hi₁ hstate hrequest (by rw [hc₁]; exact hsender) haddr
        hcont rfl hf₁
      -- whom the copies are for does not depend on what the message has changed so far
      have htargets : s₁.core.targets z r address = s.core.targets z r address := by
        rw [hcore₁]; rfl
      have hvisit : Visit.trace z s₁.core relay = Visit.trace z s.core relay := by
        funext v
        have : s₁.core.routingId v.client = s.core.routingId v.client := by
          rw [hcore₁]
          exact Core.routingId_touch hσ _ _
        simp only [Visit.trace, this, Server.core_verbose, hverbose]
      rw [htargets] at hvisits
      have htrans := Transition.publish (z := z) (k := s.core) routingId frames m _ r σ relay visits
        s₁.patterns patterns hdec rfl hid hσ hpeer hsender haddr hcont rfl hvisits
      rw [← hcore₁, ← hcore₂] at htrans
      refine ⟨s₂, _, by rw [hrun, hev, hs₂]; rfl, htrans, ?_⟩
      rw [htrace₂, htrace₁, hverbose, hvisit]
      simp only [List.append_assoc]
    · have hev : sProtocolEvent m = .direct := by simp [sProtocolEvent, hid]
      obtain ⟨s₂, hs₂, hcore₂, htrace₂⟩ := sClientExecute_direct (z := z) (n := n + 1)
        hready hstate hf₁
      have htrans := Transition.direct (z := z) (k := s.core) routingId frames m _ r σ
        s₁.patterns hdec rfl hid hσ hpeer
      rw [← hcore₁, ← hcore₂] at htrans
      refine ⟨s₂, _, by rw [hrun, hev, hs₂]; rfl, htrans, ?_⟩
      rw [htrace₂, htrace₁, hverbose]
      simp only [List.append_assoc]
  · obtain ⟨s₂, patterns, hs₂, hcore₂, htrace₂⟩ := sClientExecute_external (z := z)
      (n := n + 1) hready (by rw [hstate]; exact sClientActions_connected hexp)
      (sProtocolEvent_ne_null m)
      (hi₁.listed r _ (Server.session_of_heap hready.heap))
      (hi₁.armed r _ (Server.session_of_heap hready.heap)).1 hf₁ hi₁.once
    have htrans := Transition.close (z := z) (k := s.core) routingId frames m _ r σ
      s₁.patterns patterns hdec rfl hexp hσ hpeer
    rw [← hcore₁, ← hc₁, ← hcore₂] at htrans
    refine ⟨s₂, _, by rw [hrun, hs₂]; rfl, htrans, ?_⟩
    rw [htrace₂, htrace₁, hverbose, hroute, hstate]
    simp only [List.append_assoc]

/-- The expiry of a session, which is delivered through its timer. The reactor forgets a timer before it
calls the handler, and the destructor of the client ends it again. -/
theorem zloopFire_spec {r : Ref} {σ : Session} (hi : Inv z s.core) (hσ : s.core.session r = some σ)
    (hf : s.core.fuel ≤ f) :
    ∃ s' t, zloopFire z f (n + 1) σ.expiryTimer s = some (s', 0) ∧
      Transition z s.core (.expiry σ.routingId) s'.core t ∧ s'.trace = s.trace ++ t := by
  have hidle := hi.idle r σ hσ
  have hfind : s.timers.find? (·.id = σ.expiryTimer) =
      some { id := σ.expiryTimer, argument := r } := hi.find_timer hσ
  let s₁ := zloopTimerEnd σ.expiryTimer s
  obtain ⟨c, hready, rfl⟩ := Ready.of_idle (s := s₁) (r := r) hσ hidle
  obtain ⟨s₂, patterns, hs₂, hcore₂, htrace₂⟩ := sClientExecute_external (z := z) (f := f)
    (n := n) hready (show sClientActions c.state .expired = _ by rw [hidle.connected]; rfl)
    (by decide) (hi.listed r _ hσ) (hi.armed r _ hσ).1 hf hi.once
  have htrans := Transition.expire (z := z) (k := s.core) c.routingId r c.toSession s₁.patterns
    patterns hσ rfl
  have hcore : s₂.core = s.core.drop r c.toSession := by
    rw [hcore₂]
    -- taking it out twice is taking it out once
    ext1 <;> try rfl
    simp [Core.drop, s₁, zloopTimerEnd, Server.core, List.filter_filter]
  rw [← hcore] at htrans
  refine ⟨s₂, _, ?_, htrans, ?_⟩
  · simp only [zloopFire, hfind, sClientHandleTimeout]
    rw [hs₂]
    rfl
  · rw [htrace₂, hidle.connected]
    simp [externalReply, s₁, zloopTimerEnd]

/-- **Every decodable input is handled**, with the return code 0 and in one of the ways of
`Transition`. That there is a result at all is part of it: the loops of the model are run with a bound
that the server's own size gives (`Server.fuel_eq`). -/
theorem handle_spec {input : Input} (hi : Inv z s.core) (hd : input.Decodable) :
    ∃ s' t, handle z input s = some (s', 0) ∧ Transition z s.core input s'.core t ∧
      s'.trace = s.trace ++ t := by
  cases input with
  | message routingId frames =>
    obtain ⟨m, hdec⟩ := hd
    cases hr : s.clients (zframeStrhex routingId) with
    | none => exact message_unknown hi hr hdec (Nat.le_of_eq s.fuel_eq.symm)
    | some r => exact message_known hi hr hdec (Nat.le_of_eq s.fuel_eq.symm)
  | expiry routingId =>
    cases hr : s.clients (zframeStrhex routingId) with
    | none =>
      refine ⟨s, [], by simp only [handle, hr], .nothing routingId hr, by simp⟩
    | some r =>
      obtain ⟨σ, hσ, hpeer⟩ := hi.session_of_clients hr
      obtain ⟨c, hc, rfl⟩ := Server.heap_of_session hσ
      obtain ⟨s', t, hs', htrans, htrace⟩ := zloopFire_spec (z := z) (n := 1) hi hσ
        (Nat.le_of_eq s.fuel_eq.symm)
      rw [hpeer] at htrans
      refine ⟨s', t, ?_, htrans, htrace⟩
      simp only [handle, hr, hc, Option.bind_eq_bind, Option.bind_some]
      exact hs'

end Zccp.Broker
