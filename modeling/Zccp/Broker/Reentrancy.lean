import Zccp.Broker.Bounds
import Zccp.Broker.Runs
import Zccp.Msg.RoundTrip

/-!
# `Zccp/Broker/Reentrancy.lean` — forwarding is safe under re-entrancy

`forward_to_subscribers` walks lists whose cursors are in the lists, and runs other clients' state
machines on the way. What could go wrong is that such a nested pass moves a cursor, takes a client
off a list, destroys the publisher or publishes something itself; the first line of defence
against all of it is that every mailbox is empty, so that a nested pass has nothing to do but the
one event it was entered with.

`reentrancy` says what handling a message looks like from the entries and exits of
`s_client_execute`: how deep they nest, what is between them, and where `get_content_to_publish`
can be. That no bound of the model is behind it is part of the statement.
-/

set_option autoImplicit false

namespace Zccp.Broker

open Lib CursorList

variable {z : Czmq} {verbose : Bool}

/-! ## Nesting -/

/-- Neither an entry nor an exit. -/
def Obs.Inside : Obs → Prop
  | .enter _ _ _ => False
  | .leave _ _ => False
  | _ => True

/-- Properly nested calls of `s_client_execute`, at most so many inside each other. -/
inductive Nested : Nat → List Obs → Prop
  | nil (n : Nat) : Nested n []
  | inside {n : Nat} {o : Obs} {t : List Obs} : o.Inside → Nested n t → Nested n (o :: t)
  | call {n : Nat} {r : Ref} {event : Event} {patterns patterns' : CursorList Pattern}
      {body t : List Obs} : Nested n body → Nested (n + 1) t →
      Nested (n + 1) ([.enter r event patterns] ++ body ++ [.leave r patterns'] ++ t)

theorem Nested.append {n : Nat} {t t' : List Obs} (h : Nested n t) (h' : Nested n t') :
    Nested n (t ++ t') := by
  induction h with
  | nil n => exact h'
  | inside ho _ ih => exact .inside ho (ih h')
  | call hbody _ _ ih =>
    rw [List.append_assoc]
    exact .call hbody (ih h')

theorem Nested.succ {n : Nat} {t : List Obs} (h : Nested n t) : Nested (n + 1) t := by
  induction h with
  | nil n => exact .nil _
  | inside ho _ ih => exact .inside ho ih
  | call _ _ ihbody ih => exact .call ihbody ih

theorem Nested.of_inside {n : Nat} {t : List Obs} (h : ∀ o ∈ t, o.Inside) : Nested n t := by
  induction t with
  | nil => exact .nil n
  | cons o t ih =>
    exact .inside (h o List.mem_cons_self) (ih fun o' ho' => h o' (List.mem_cons_of_mem _ ho'))

/-- One pass around something nested less deeply. -/
theorem Nested.pass {n : Nat} {r : Ref} {state : State} {event : Event} {v : Bool}
    {patterns patterns' : CursorList Pattern} {body last : List Obs} (hbody : Nested n body)
    (hlast : ∀ o ∈ last, o.Inside) :
    Nested (n + 1) (before v r state event patterns ++ body ++ (last ++ [.leave r patterns'])) := by
  have hlog : ∀ o ∈ [Obs.iterate r state event] ++
      debugged v [.stateName state.code, .eventName event.code], o.Inside := by
    intro o ho
    cases v <;> simp [debugged] at ho
    · rw [ho]; trivial
    · rcases ho with rfl | rfl | rfl <;> trivial
  have hcall : Nested (n + 1) ([.enter r event patterns] ++ ([Obs.iterate r state event] ++
      debugged v [.stateName state.code, .eventName event.code] ++ body ++ last) ++
      [.leave r patterns'] ++ []) :=
    .call (((Nested.of_inside hlog).append hbody).append (.of_inside hlast)) (.nil (n + 1))
  simpa [before] using hcall

theorem inside_log (v : Bool) (os : List Obs) (h : ∀ o ∈ os, o.Inside) :
    ∀ o ∈ debugged v os, o.Inside := by
  cases v with
  | false => simp [debugged]
  | true => exact h

/-- A pass of a client that stays. -/
theorem Nested.stay {n : Nat} {r : Ref} {state state' : State} {event : Event} {v : Bool}
    {patterns patterns' : CursorList Pattern} {body : List Obs} (hbody : Nested n body) :
    Nested (n + 1) (before v r state event patterns ++ body ++ after v r state' patterns') :=
  hbody.pass (inside_log v _ (by simp [Obs.Inside]))

/-- A pass of a client that ends. -/
theorem Nested.finish {n : Nat} {r : Ref} {state : State} {event : Event} {v : Bool}
    {patterns patterns' : CursorList Pattern} {body : List Obs} (hbody : Nested n body) :
    Nested (n + 1) (before v r state event patterns ++ body ++ [.destroy r, .leave r patterns']) :=
  hbody.pass (show ∀ o ∈ [Obs.destroy r], o.Inside by simp [Obs.Inside])

/-- A pass for a message that has just been taken off a mailbox. -/
theorem Nested.taken {n : Nat} {r : Ref} {msg : ZccpMsg} {t : List Obs} (h : Nested n t) :
    Nested n ([.take r msg] ++ t) :=
  .inside trivial h

theorem nested_replies {n : Nat} (routingId : Frame) (ids : List MsgId) :
    Nested n (ids.map fun id => sent routingId (plainReply id routingId)) := by
  apply Nested.of_inside
  intro o ho
  obtain ⟨id, -, rfl⟩ := List.mem_map.mp ho
  trivial

theorem nested_visits {n : Nat} (k : Core) (m : Relay) (visits : List Visit) :
    Nested (n + 1) (visits.flatMap (Visit.trace z k m)) := by
  induction visits with
  | nil => exact .nil _
  | cons v visits ih =>
    rw [List.flatMap_cons]
    exact (Nested.stay (.of_inside (by simp [Obs.Inside, sent]))).append ih

/-! ## The targets of a publication -/

/-- The targets are computed from the topics, which have no cursors; in terms of the source's lists they are
the positions of matching patterns with every client listed there but the publisher. -/
theorem mem_targets_iff {s : Server} {r : Ref} {a : CStr} {i : Nat} {d : Ref} :
    (i, d) ∈ s.core.targets z r a ↔ ∃ p, s.patterns.items[i]? = some p ∧
      z.zrexMatches p.rex a = true ∧ d ∈ p.clients.items ∧ d ≠ r := by
  have htopic : ∀ j : Nat, s.core.topics[j]? = (s.patterns.items[j]?).map Pattern.topic := by
    intro j
    simp [Server.core]
  simp only [Core.targets, List.mem_flatten, List.mem_mapIdx]
  constructor
  · rintro ⟨_, ⟨j, hj, rfl⟩, hmem⟩
    obtain ⟨p, hp, ht⟩ := Option.map_eq_some_iff.mp
      ((htopic j).symm.trans (List.getElem?_eq_getElem hj))
    rw [← ht, topicTargets] at hmem
    split at hmem
    · next hm =>
      obtain ⟨d', hd', heq⟩ := List.mem_map.mp hmem
      obtain ⟨rfl, rfl⟩ := Prod.mk.inj heq
      obtain ⟨hd', hne⟩ := List.mem_filter.mp hd'
      exact ⟨p, hp, hm, hd', by simpa using hne⟩
    · exact absurd hmem (by simp)
  · rintro ⟨p, hp, hm, hd, hne⟩
    have hj : i < s.core.topics.length := by
      rw [← Server.patterns_length]
      exact (List.getElem?_eq_some_iff.mp hp).1
    have ht : s.core.topics[i] = p.topic := by
      have := htopic i
      rw [hp, List.getElem?_eq_getElem hj] at this
      exact Option.some.inj this
    refine ⟨_, ⟨i, hj, rfl⟩, ?_⟩
    rw [ht, topicTargets, if_pos (show z.zrexMatches p.topic.rex a = true from hm)]
    exact List.mem_map.mpr ⟨d, List.mem_filter.mpr ⟨hd, by simpa using hne⟩, rfl⟩

/-- No pair is visited twice: a client is on a pattern's list once, and two patterns differ in position
even if they list the same clients. -/
theorem Inv.targets_nodup {k : Core} (h : Inv z k) (r : Ref) (a : CStr) :
    (k.targets z r a).Nodup := by
  -- what is to be visited for the topic at `i` has `i` in front
  have hfst : ∀ i (t : Topic), ∀ x ∈ topicTargets z r a i t, x.1 = i := by
    intro i t x hx
    unfold topicTargets at hx
    split at hx
    · obtain ⟨d, -, rfl⟩ := List.mem_map.mp hx
      rfl
    · exact absurd hx (by simp)
  rw [Core.targets, List.nodup_flatten]
  constructor
  · intro l hl
    obtain ⟨i, hi, rfl⟩ := List.mem_mapIdx.mp hl
    unfold topicTargets
    split
    · refine (List.Nodup.filter _ (h.once _ (List.getElem_mem hi))).map ?_
      intro d d' he
      exact (Prod.mk.inj he).2
    · exact List.nodup_nil
  · rw [List.pairwise_iff_getElem]
    intro i j hi hj hij x hx hx'
    rw [List.getElem_mapIdx] at hx hx'
    exact absurd ((hfst i _ x hx).symm.trans (hfst j _ x hx')) (Nat.ne_of_lt hij)

/-! ## What handling a message looks like -/

/-- What `get_content_to_publish` leaves in the trace. -/
def Obs.Relays : Obs → Prop
  | .relay _ _ _ _ => True
  | _ => False

/-- Nothing is relayed. -/
def NoRelay (t : List Obs) : Prop := ∀ o ∈ t, ¬ o.Relays

/-- **The trace of a message**: what handling it adds to the trace of the server.

Unless it is a PUBLISH for a session, no call is nested in another and no content is relayed. If it
is, then around and between the nested passes there is nothing but the pass of the publisher; each
nested pass (`forwardPass`) is one iteration on `forward_event` in `connected_state`, which relays
the publisher's present identifier and the address and content of this very message, sends one
DELIVER, and returns with the pattern list, all client lists and all cursors as it found them; and
the passes are one for each pair of a matching pattern and another client on its list. -/
inductive HandlingTrace (z : Czmq) (s s' : Server) (p : Frame) (m : ZccpMsg) : List Obs → Prop
  | plain (t : List Obs)
      (notPublish : m.id ≠ .publish ∨ s.clients (zframeStrhex p) = none)
      (nested : Nested 1 t)
      (noRelay : NoRelay t) : HandlingTrace z s s' p m t
  | forward (r : Ref) (c c' : SClient) (relay : Relay) (visits : List Visit)
      (patterns patterns' : CursorList Pattern)
      (publish : m.id = .publish)
      (publisher : s.clients (zframeStrhex p) = some r ∧ s.heap r = some c)
      (alive : s'.heap r = some c' ∧ c'.identifier = c.identifier)
      (sender : c.identifier = some relay.sender)
      (address : m.address = some relay.address)
      (content : m.content = relay.content)
      (once : (visits.map fun v => (v.position, v.client)).Nodup)
      (all : ∀ i d, (i, d) ∈ visits.map (fun v => (v.position, v.client)) ↔
        ∃ pattern, s.patterns.items[i]? = some pattern ∧
          z.zrexMatches pattern.rex relay.address = true ∧ d ∈ pattern.clients.items ∧ d ≠ r) :
      HandlingTrace z s s' p m
        ([.take r (m.setRoutingId p)] ++ before s.verbose r .connected .publish patterns ++
          visits.flatMap (fun v => forwardPass z s.verbose relay v.client
            (s.core.routingId v.client) v.patterns) ++
          after s.verbose r .connected patterns')

/-- A message that is no PUBLISH of a session. -/
theorem HandlingTrace.of_nested {s s' : Server} {p : Frame} {m : ZccpMsg} {t : List Obs}
    (h : m.id ≠ .publish ∨ s.clients (zframeStrhex p) = none) (ht : Nested 1 t)
    (hr : NoRelay t) : Nested 2 t ∧ HandlingTrace z s s' p m t :=
  ⟨ht.succ, .plain t h ht hr⟩

/-- Every transition on a message leaves such a trace. For all but a PUBLISH it is one pass around what is
sent; for a PUBLISH the visits of the transition are the nested passes, and `mem_targets_iff` says which
they are. -/
theorem Transition.handlingTrace {s s' : Server} {p : Frame} {frames : List Frame} {m : ZccpMsg}
    {t : List Obs} (h : Transition z s.core (.message p frames) s'.core t) (hi : Inv z s.core)
    (hm : zccpMsgDecode frames = .ok m) : Nested 2 t ∧ HandlingTrace z s s' p m t := by
  have hsame : ∀ {m' : ZccpMsg}, zccpMsgDecode frames = .ok m' → m' = m :=
    fun h' => Except.ok.inj (h'.symm.trans hm)
  -- what is sent is inside the pass
  have hsent : ∀ (c : Frame) (msg : ZccpMsg), Nested 0 [sent c msg] :=
    fun c msg => .inside trivial (.nil 0)
  generalize hk : s.core = k at h
  generalize hk' : s'.core = k' at h
  cases h with
  | hello _ _ m' msg identifier patterns decoded _ id =>
    refine HandlingTrace.of_nested (.inl (by rw [← hsame decoded, id]; decide)) ?_ ?_
    · simpa only [List.append_assoc] using (Nested.stay (hsent _ _)).taken
    · simp [NoRelay, or_imp, forall_and, Obs.Relays, sent]
  | refuse _ _ m' msg patterns patterns' decoded _ id unknown =>
    subst hk
    refine HandlingTrace.of_nested (.inr unknown) ?_ ?_
    · simpa only [List.append_assoc] using (Nested.finish (nested_replies _ _)).taken
    · simp [NoRelay, or_imp, forall_and, Obs.Relays, sent]
  | subscribe _ _ m' msg r σ expression patterns patterns' decoded _ id =>
    refine HandlingTrace.of_nested (.inl (by rw [← hsame decoded, id]; decide)) ?_ ?_
    · simpa only [List.append_assoc] using (Nested.stay (hsent _ _)).taken
    · simp [NoRelay, or_imp, forall_and, Obs.Relays, sent]
  | direct _ _ m' msg r σ patterns decoded _ id =>
    refine HandlingTrace.of_nested (.inl (by rw [← hsame decoded, id]; decide)) ?_ ?_
    · simpa only [List.append_assoc, List.nil_append] using (Nested.stay (.nil 0)).taken
    · simp [NoRelay, or_imp, forall_and, Obs.Relays]
  | close _ _ m' msg r σ patterns patterns' decoded _ id =>
    refine HandlingTrace.of_nested (.inl ?_) ?_ ?_
    · rw [← hsame decoded]
      exact fun hp => id (.inr (.inl hp))
    · simpa only [List.append_assoc] using (Nested.finish (nested_replies _ _)).taken
    · simp [NoRelay, or_imp, forall_and, Obs.Relays, sent]
  | publish _ _ m' msg r σ relay visits patterns patterns' decoded hmsg id session peer hsender
      haddress hcontent hheaders hvisits =>
    subst hk hmsg
    obtain rfl := hsame decoded
    constructor
    · simpa only [List.append_assoc] using (Nested.stay (nested_visits s.core relay visits)).taken
    · obtain ⟨c, hc, rfl⟩ := Server.heap_of_session session
      have hσ' : s'.core.session r = some (s.core.touched c.toSession (m'.setRoutingId p)) := by
        rw [hk']
        exact Function.update_self ..
      obtain ⟨c', hc', htouched⟩ := Server.heap_of_session hσ'
      have hname := congrArg Session.identifier htouched
      have hlisted := hi.clients_of_session session
      rw [peer] at hlisted
      exact .forward r c c' relay visits patterns patterns' id ⟨hlisted, hc⟩
        ⟨hc', hname⟩ hsender haddress hcontent
        (by rw [hvisits]; exact hi.targets_nodup r relay.address)
        (fun i d => by rw [hvisits]; exact mem_targets_iff)

/-- **Forwarding is safe under re-entrancy, and terminates.** In a reachable state every mailbox is
empty, and a message that decodes is handled, with a trace as above and calls of
`s_client_execute` at most two deep, and in the same way for all bounds from some on. -/
theorem reentrancy (z : Czmq) (verbose : Bool) (inputs : List Input) (s : Server)
    (hs : run z verbose inputs = some s) (p : Frame) (frames : List Frame) (m : ZccpMsg)
    (hm : zccpMsgDecode frames = .ok m) :
    (∀ r c, s.heap r = some c → c.mailbox = .empty) ∧
      ∃ s' t, step z s (.message p frames) = some s' ∧
        (∀ f n, s.fuel ≤ f → 2 ≤ n → sServerClientMessage z f n (p :: frames) s = some (s', 0)) ∧
        s'.trace = s.trace ++ t ∧ Nested 2 t ∧ HandlingTrace z s s' p m t := by
  have hinv := (implements_of_run hs).inv
  obtain ⟨s', t, hs', htrans, htrace⟩ := handle_spec (z := z) hinv
    (show (Input.message p frames).Decodable from ⟨m, hm⟩)
  refine ⟨?_, s', t, step_of_handle hs', ?_, htrace, htrans.handlingTrace hinv hm⟩
  · intro r c hc
    exact (hinv.idle r _ (Server.session_of_heap hc)).mailbox
  · intro f n hf hn
    exact sServerClientMessage_extends hf hn (p :: frames) s _ hs'

/-- A PUBLISH with one subscriber. -/
theorem reentrancy_two_peers :
    let name := CStr.ofBytes [65]
    let inputs : List Input := [.message [1] (wire (.hello name)), .message [2] (wire (.hello name)),
      .message [2] (wire (.subscribe name))]
    let frames := wire (.publish name none [])
    ∃ s m, run .literal false inputs = some s ∧ zccpMsgDecode frames = .ok m ∧
      (∀ r c, s.heap r = some c → c.mailbox = .empty) ∧
      ∃ s' t, step .literal s (.message [1] frames) = some s' ∧
        (∀ f n, s.fuel ≤ f → 2 ≤ n →
          sServerClientMessage .literal f n ([1] :: frames) s = some (s', 0)) ∧
        s'.trace = s.trace ++ t ∧ Nested 2 t ∧ HandlingTrace .literal s s' [1] m t := by
  intro name inputs frames
  have hpub := zccpMsgDecode_wire (m := .publish name none []) (by decide)
    (fits_publish (by decide) fitsHeaders_none)
  obtain ⟨s, hs, -⟩ : HasSession .literal false inputs [2] := by decide +kernel
  exact ⟨s, _, hs, hpub, reentrancy .literal false inputs s hs [1] frames _ hpub⟩

end Zccp.Broker
