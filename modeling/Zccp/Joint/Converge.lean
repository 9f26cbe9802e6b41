import Zccp.Joint.System

/-!
# `Zccp/Joint/Converge.lean` — reconnection comes to an end

What happens when nothing new happens: only deliveries are left. An INVALID draws a HELLO, and a
HELLO that reaches a session ends it and draws an INVALID, so it is not obvious that the two ever
stop. They do, because of the session itself: the HELLO that is answered with HELLO_OK makes one,
and the HELLO that is answered with INVALID uses one up. With a session worth 2, a HELLO 4, an
INVALID 5, a SUBSCRIBE or PUBLISH 6 and every other message 1, each delivery makes the sum smaller
(`Move.work_lt`).

And where they stop both parties are connected (`converges`). On the client's side, since a state
that waits for an answer has the question or an answer in flight (`Awaits`), in every reachable
state; on the broker's, since what keeps the system busy leaves a session behind (`Busy`). The
second needs a start: a client whose session has expired and which has nothing in flight does not
find out.
-/

set_option autoImplicit false

namespace Zccp.Joint

open Lib Broker

variable {z : Czmq} {c : Frame} {j j' : System} {v v' : View}

/-! ## Deliveries -/

/-- A message that is next. Nothing but deliveries happens from here on. -/
inductive Delivery
  | toBroker
  | toClient
deriving DecidableEq, Repr

def Delivery.label : Delivery → Label
  | toBroker => .toBroker
  | toClient => .toClient

/-- One delivery. -/
def deliver (z : Czmq) (c : Frame) (j : System) (d : Delivery) : Option System := step z c j d.label

/-- A message with this id is in a queue. -/
def Carries (id : MsgId) (queue : List (List Frame)) : Prop :=
  ∃ frames ∈ queue, ∃ m, zccpMsgDecode frames = .ok m ∧ m.id = id

/-- Every message in a queue is well-formed. This is asked for in terms of the format and not of the
decoder, so that it is a condition on what has been sent. -/
def Clean (queue : List (List Frame)) : Prop := ∀ frames ∈ queue, WellFormed frames

instance (queue : List (List Frame)) : Decidable (Clean queue) :=
  decidable_of_iff (∀ frames ∈ queue, (zccpMsgDecode frames).isOk = true) <| by
    refine forall₂_congr fun frames _ => ?_
    rw [← zccpMsgDecode_ok_iff]
    cases zccpMsgDecode frames <;> simp [Except.isOk, Except.toBool]

section Queues

variable {id : MsgId} {queue queue' : List (List Frame)} {frames : List Frame} {m : ZccpMsg}

theorem Carries.append_left (h : Carries id queue) : Carries id (queue ++ queue') := by
  obtain ⟨frames, hmem, hm⟩ := h
  exact ⟨frames, List.mem_append_left _ hmem, hm⟩

theorem Carries.append_right (h : Carries id queue') : Carries id (queue ++ queue') := by
  obtain ⟨frames, hmem, hm⟩ := h
  exact ⟨frames, List.mem_append_right _ hmem, hm⟩

theorem Carries.tail (h : Carries id (frames :: queue)) (hdec : zccpMsgDecode frames = .ok m)
    (hid : m.id ≠ id) : Carries id queue := by
  obtain ⟨frames', hmem, m', hm', hid'⟩ := h
  rcases List.mem_cons.mp hmem with rfl | hmem
  · obtain rfl := Except.ok.inj (hdec.symm.trans hm')
    exact absurd hid' hid
  · exact ⟨frames', hmem, m', hm', hid'⟩

theorem carries_wire (h : WellFormed (wire m)) : Carries m.id [wire m] := by
  obtain ⟨m', hm'⟩ := (zccpMsgDecode_ok_iff (wire m)).mpr h
  exact ⟨_, List.mem_singleton.mpr rfl, m', hm', zccpMsgDecode_wire_id hm'⟩

theorem wellFormed_wire (hid : m.id ≠ .unset) (hfits : m.Fits) : WellFormed (wire m) :=
  (zccpMsgDecode_ok_iff (wire m)).mp ⟨_, zccpMsgDecode_wire hid hfits⟩

theorem Clean.tail (h : Clean (frames :: queue)) : Clean queue :=
  fun frames' hmem => h frames' (List.mem_cons_of_mem _ hmem)

theorem Clean.left (h : Clean (queue ++ queue')) : Clean queue :=
  fun frames' hmem => h frames' (List.mem_append_left _ hmem)

theorem Clean.append (h : Clean queue) (h' : Clean queue') : Clean (queue ++ queue') := by
  intro frames hmem
  rcases List.mem_append.mp hmem with hmem | hmem
  · exact h frames hmem
  · exact h' frames hmem

end Queues

/-! ## What a waiting client waits for -/

/-- A state that waits for an answer has the question or an answer in flight. In `reconnecting` and
`connecting` the question is a HELLO, and an INVALID counts as an answer: it makes the client ask again. -/
structure Awaits (v : View) : Prop where
  hello : v.state = .connecting ∨ v.state = .reconnecting →
    Carries .hello v.toBroker ∨ Carries .helloOk v.toClient ∨ Carries .invalid v.toClient
  subscribe : v.state = .subscribing →
    Carries .subscribe v.toBroker ∨ Carries .subscribeOk v.toClient ∨ Carries .invalid v.toClient

/-- The same as long as all that is in flight can be read: a message that cannot ends whoever reads it,
and is no question or answer. -/
def AwaitsIfClean (v : View) : Prop := Clean v.toBroker → Clean v.toClient → Awaits v

theorem carries_answer {m : ZccpMsg} {d : Option (PubSub.Member CStr CStr)}
    {r : PubSub.Reply CStr CStr (Option (List Frame))} (hr : PubSub.answer d m.request = [r])
    (hclean : Clean ((PubSub.answer d m.request).map (replyWire z c))) :
    Carries (replyId r) ((PubSub.answer d m.request).map (replyWire z c)) := by
  rw [hr] at hclean ⊢
  rw [← replyMsg_id z c]
  exact carries_wire (hclean _ (List.mem_singleton.mpr rfl))

section Pending

variable {question answer : MsgId} {toBroker toClient rest replies : List (List Frame)}
  {frames : List Frame} {m : ZccpMsg}

/-- The broker has read a message: if it was the question, the answer is in flight now. -/
theorem pending_of_question
    (h : Carries question (frames :: rest) ∨ Carries answer toClient ∨ Carries .invalid toClient)
    (hdec : zccpMsgDecode frames = .ok m)
    (hreplies : m.id = question → Carries answer replies ∨ Carries .invalid replies) :
    Carries question rest ∨ Carries answer (toClient ++ replies) ∨
      Carries .invalid (toClient ++ replies) := by
  rcases h with h | h | h
  · by_cases hid : m.id = question
    · exact .inr ((hreplies hid).imp Carries.append_right Carries.append_right)
    · exact .inl (h.tail hdec hid)
  · exact .inr (.inl h.append_left)
  · exact .inr (.inr h.append_left)

/-- The client has read a message that is no answer. -/
theorem pending_of_other
    (h : Carries question toBroker ∨ Carries answer (frames :: rest) ∨
      Carries .invalid (frames :: rest))
    (hdec : zccpMsgDecode frames = .ok m) (hanswer : m.id ≠ answer) (hinvalid : m.id ≠ .invalid) :
    Carries question toBroker ∨ Carries answer rest ∨ Carries .invalid rest := by
  rcases h with h | h | h
  · exact .inl h
  · exact .inr (.inl (h.tail hdec hanswer))
  · exact .inr (.inr (h.tail hdec hinvalid))

end Pending

/-- The broker has read a message: what was waited for is still in flight, or its answer is. -/
theorem Awaits.toBroker {frames : List Frame} {rest : List (List Frame)} {m : ZccpMsg}
    {entry : Option (PubSub.Member CStr CStr)} (h : Awaits v) (hqueue : v.toBroker = frames :: rest)
    (hdec : zccpMsgDecode frames = .ok m)
    (hclean : Clean ((PubSub.answer v.entry m.request).map (replyWire z c))) :
    Awaits { v with
      toBroker := rest
      toClient := v.toClient ++ (PubSub.answer v.entry m.request).map (replyWire z c)
      entry := entry } := by
  have hreply := fun r (hr : PubSub.answer v.entry m.request = [r]) => carries_answer hr hclean
  constructor
  · intro hstate
    have hhello := h.hello hstate
    rw [hqueue] at hhello
    refine pending_of_question hhello hdec fun hid => ?_
    unfold ZccpMsg.request at hreply ⊢
    rw [hid] at hreply ⊢
    cases hentry : v.entry <;> rw [hentry] at hreply
    case none => exact .inl (hreply .helloOk rfl)
    case some => exact .inr (hreply .invalid rfl)
  · intro hstate
    have hsubscribe := h.subscribe hstate
    rw [hqueue] at hsubscribe
    refine pending_of_question hsubscribe hdec fun hid => ?_
    unfold ZccpMsg.request at hreply ⊢
    rw [hid] at hreply ⊢
    cases hentry : v.entry <;> rw [hentry] at hreply
    case none => exact .inr (hreply .invalid rfl)
    case some => exact .inl (hreply .subscribeOk rfl)

/-- The client has read a message that does not make it ask for a session. -/
theorem Awaits.toClient {frames : List Frame} {rest : List (List Frame)} {m : ZccpMsg}
    (h : Awaits v) (hqueue : v.toClient = frames :: rest) (hdec : zccpMsgDecode frames = .ok m)
    (hid : Client.Downward m.id) (hinvalid : m.id ≠ .invalid) :
    Awaits { v with state := Client.received v.state m.id, toClient := rest } := by
  have hhello : Client.received v.state m.id = .connecting ∨
      Client.received v.state m.id = .reconnecting →
      (v.state = .connecting ∨ v.state = .reconnecting) ∧ m.id ≠ .helloOk := by
    rcases hid with hid | hid | hid | hid <;> rw [hid] <;> cases v.state <;>
      simp [Client.received] at hid hinvalid ⊢
    all_goals exact absurd hid hinvalid
  have hsubscribe : Client.received v.state m.id = .subscribing →
      v.state = .subscribing ∧ m.id ≠ .subscribeOk := by
    rcases hid with hid | hid | hid | hid <;> rw [hid] <;> cases v.state <;>
      simp [Client.received]
  constructor
  · intro hstate
    obtain ⟨hstate', hne⟩ := hhello hstate
    have hpending := h.hello hstate'
    rw [hqueue] at hpending
    exact pending_of_other hpending hdec hne hinvalid
  · intro hstate
    obtain ⟨hstate', hne⟩ := hsubscribe hstate
    have hpending := h.subscribe hstate'
    rw [hqueue] at hpending
    exact pending_of_other hpending hdec hne hinvalid

/-- **In every reachable state** a client that waits has something to wait for. -/
theorem AwaitsIfClean.move {l : Label} (h : AwaitsIfClean v) (hmove : Move z c v l v') :
    AwaitsIfClean v' := by
  intro hup hdown
  cases hmove with
  | connect endpoint timeout msg id =>
    have hcarries : Carries .hello (v.toBroker ++ [wire msg]) := by
      rw [← id]
      exact (carries_wire (hup _ (by simp))).append_right
    exact ⟨fun _ => .inl hcarries, nofun⟩
  | subscribe expression msg id =>
    have hcarries : Carries .subscribe (v.toBroker ++ [wire msg]) := by
      rw [← id]
      exact (carries_wire (hup _ (by simp))).append_right
    refine ⟨?_, fun _ => .inl hcarries⟩
    rintro (hstate | hstate) <;> cases hstate
  | publish =>
    refine ⟨?_, nofun⟩
    rintro (hstate | hstate) <;> cases hstate
  | ignore => exact h hup hdown
  | toBroker frames rest m queue decoded =>
    have hclean : Clean v.toBroker := by
      rw [queue]
      intro frames' hmem
      rcases List.mem_cons.mp hmem with rfl | hmem
      · exact (zccpMsgDecode_ok_iff _).mp ⟨m, decoded⟩
      · exact hup frames' hmem
    exact (h hclean hdown.left).toBroker queue decoded
      fun frames' hmem => hdown frames' (List.mem_append_right _ hmem)
  | toClient frames rest m hello queue decoded id hid fits state =>
    by_cases hinvalid : m.id = .invalid
    · -- an INVALID draws a HELLO, which is what is waited for from now on
      simp only [hinvalid, if_true] at hup ⊢
      have hcarries : Carries .hello (v.toBroker ++ [wire hello]) := by
        rw [← hid]
        exact (carries_wire (hup _ (by simp))).append_right
      refine ⟨fun _ => .inl hcarries, fun hstate => ?_⟩
      have : Client.received v.state .invalid = .reconnecting := by cases v.state <;> rfl
      rw [this] at hstate
      cases hstate
    · rw [if_neg hinvalid, List.append_nil] at hup ⊢
      have hclean : Clean v.toClient := by
        rw [queue]
        intro frames' hmem
        rcases List.mem_cons.mp hmem with rfl | hmem
        · exact (zccpMsgDecode_ok_iff _).mp ⟨m, decoded⟩
        · exact hdown frames' hmem
      exact (h hup hclean).toClient queue decoded id hinvalid
  | expire => exact ⟨(h hup hdown).hello, (h hup hdown).subscribe⟩
  | others input replies =>
    have hawaits := h hup hdown.left
    constructor
    · intro hstate
      exact (hawaits.hello hstate).imp_right
        fun h => h.imp Carries.append_left Carries.append_left
    · intro hstate
      exact (hawaits.subscribe hstate).imp_right
        fun h => h.imp Carries.append_left Carries.append_left

/-! ## What keeps the system busy -/

/-- There is a session, or something in flight that leads to one. Any message will do on its way to the
broker: one that finds no session draws an INVALID, and an INVALID draws a HELLO. -/
def Busy (v : View) : Prop :=
  v.entry.isSome ∨ v.toBroker ≠ [] ∨ Carries .invalid v.toClient

/-- What deliveries keep: both parties are at work, every message can be read, a waiting client has
something to wait for, and a session is there or to come. -/
structure Ready (v : View) : Prop where
  started : v.state ≠ .start
  up : Clean v.toBroker
  down : Clean v.toClient
  awaits : Awaits v
  busy : Busy v

/-- Every answer is well-formed. -/
theorem clean_answer {m : ZccpMsg} (hid : Upward m.id) (d : Option (PubSub.Member CStr CStr)) :
    Clean ((PubSub.answer d m.request).map (replyWire z c)) := by
  intro frames hmem
  obtain ⟨r, hr, rfl⟩ := List.mem_map.mp hmem
  refine wellFormed_wire ?_ ?_
  · rw [replyMsg_id]
    exact Downward.ne_unset (downward_answer hid d r hr)
  · unfold ZccpMsg.request at hr
    rcases hid with hid | hid | hid <;> rw [hid] at hr <;> cases d <;>
      simp only [PubSub.answer, List.mem_singleton, List.not_mem_nil] at hr <;> subst hr <;>
      first | trivial | exact fitsHeaders_none

/-- A delivery keeps it. A message that the broker takes leaves a session behind or draws an INVALID, and an
INVALID that the client takes draws a HELLO: so there is always one of the three that `Busy` asks for. -/
theorem Ready.move {d : Delivery} (h : Ready v) (hmove : Move z c v d.label v') : Ready v' := by
  have hawaits : AwaitsIfClean v' := AwaitsIfClean.move (fun _ _ => h.awaits) hmove
  cases d with
  | toBroker =>
    cases hmove with
    | toBroker frames rest m queue decoded id =>
      have hup : Clean rest := (queue ▸ h.up).tail
      have hdown := h.down.append (clean_answer (z := z) (c := c) id v.entry)
      refine ⟨h.started, hup, hdown, hawaits hup hdown, ?_⟩
      -- the message leaves a session behind, or draws an INVALID
      have hinvalid : PubSub.answer v.entry m.request = [.invalid] → Carries .invalid
          (v.toClient ++ (PubSub.answer v.entry m.request).map (replyWire z c)) := fun hr =>
        (carries_answer (r := .invalid) hr (clean_answer id v.entry)).append_right
      unfold Busy
      unfold ZccpMsg.request at hinvalid ⊢
      rcases id with id | id | id <;> rw [id] at hinvalid ⊢ <;> cases hentry : v.entry <;>
        rw [hentry] at hinvalid
      case inl.none => exact .inl rfl
      case inl.some => exact .inr (.inr (hinvalid rfl))
      case inr.inl.none => exact .inr (.inr (hinvalid rfl))
      case inr.inl.some => exact .inl rfl
      case inr.inr.none => exact .inr (.inr (hinvalid rfl))
      case inr.inr.some => exact .inl rfl
  | toClient =>
    cases hmove with
    | toClient frames rest m hello queue decoded id hid fits state =>
      have hdown : Clean rest := (queue ▸ h.down).tail
      have hup : Clean (v.toBroker ++ if m.id = .invalid then [wire hello] else []) := by
        refine h.up.append ?_
        split
        · intro frames' hmem
          rw [List.mem_singleton.mp hmem]
          exact wellFormed_wire (by rw [hid]; decide) fits
        · exact nofun
      refine ⟨?_, hup, hdown, hawaits hup hdown, ?_⟩
      · rcases id with id | id | id | id <;> rw [id] <;> cases hst : v.state <;>
          first | exact absurd hst h.started | exact nofun
      · by_cases hinvalid : m.id = .invalid
        · exact .inr (.inl (by simp [hinvalid]))
        · rcases h.busy with hentry | hqueue | hcarries
          · exact .inl hentry
          · exact .inr (.inl (by simp [hinvalid, hqueue]))
          · rw [queue] at hcarries
            exact .inr (.inr (hcarries.tail decoded hinvalid))

/-! ## The work that is left -/

/-- What a message of a type costs at most, its consequences included: an INVALID (5) draws a HELLO (4),
which draws a HELLO_OK (1) and makes a session (2), and a SUBSCRIBE or PUBLISH (6) that finds no session
draws an INVALID. Each is worth more than what it draws. -/
def price : MsgId → Nat
  | .hello => 4
  | .invalid => 5
  | .subscribe | .publish => 6
  | _ => 1

/-- What a message in flight costs. One that cannot be read costs nothing: nothing comes of it. -/
def cost (frames : List Frame) : Nat :=
  match zccpMsgDecode frames with
  | .ok m => price m.id
  | .error _ => 0

/-- What the messages in flight and the session cost. -/
def View.work (v : View) : Nat :=
  (v.toBroker.map cost).sum + (v.toClient.map cost).sum + if v.entry.isSome then 2 else 0

theorem cost_wire_le (m : ZccpMsg) : cost (wire m) ≤ price m.id := by
  unfold cost
  cases hm : zccpMsgDecode (wire m) with
  | error => exact Nat.zero_le _
  | ok m' => exact Nat.le_of_eq (congrArg price (zccpMsgDecode_wire_id hm))

/-- **Every delivery is worth more than what comes of it.** The case that is not obvious is the HELLO at a
session: it draws an INVALID, which is dearer than itself, and is paid for by the session that it ends. -/
theorem Move.work_lt {d : Delivery} (hmove : Move z c v d.label v') : v'.work < v.work := by
  cases d with
  | toBroker =>
    cases hmove with
    | toBroker frames rest m queue decoded id =>
      have hcost : cost frames = price m.id := by rw [cost, decoded]
      have hreply : ∀ r, cost (replyWire z c r) ≤ price (replyId r) := by
        intro r
        rw [← replyMsg_id z c]
        exact cost_wire_le _
      have hhelloOk := hreply .helloOk
      have hsubscribeOk := hreply .subscribeOk
      have hinvalid := hreply .invalid
      simp only [price, replyId] at hhelloOk hsubscribeOk hinvalid
      unfold View.work
      unfold ZccpMsg.request
      rcases id with id | id | id <;> rw [id] at hcost ⊢ <;> cases v.entry <;>
        simp only [queue, PubSub.answer, PubSub.settle, List.map_append, List.map_cons,
          List.map_nil, List.sum_append, List.sum_cons, List.sum_nil, hcost, price,
          Option.isSome_some, Option.isSome_none, if_true, Bool.false_eq_true, if_false] <;>
        omega
  | toClient =>
    cases hmove with
    | toClient frames rest m hello queue decoded id hid =>
      have hcost : cost frames = price m.id := by rw [cost, decoded]
      have hhello : cost (wire hello) ≤ 4 := by
        have := cost_wire_le hello
        rwa [hid] at this
      unfold View.work
      rcases id with id | id | id | id <;> rw [id] at hcost ⊢ <;>
        simp only [queue, List.map_append, List.map_cons, List.map_nil, List.sum_append,
          List.sum_cons, List.sum_nil, hcost, price, reduceCtorEq, if_true, if_false] <;>
        omega

/-! ## The end -/

/-- What a state costs. -/
def System.work (c : Frame) (j : System) : Nat :=
  (j.toBroker.map cost).sum + (j.toClient.map cost).sum +
    if (j.broker.bind fun s => s.core.entry c).isSome then 2 else 0

theorem Shows.work_eq (h : Shows z c j v) : j.work c = v.work := by
  obtain ⟨s, hs, -, hentry⟩ := h.broker
  simp only [System.work, View.work, h.toBroker, h.toClient, hs, Option.bind_some, hentry]

/-- Between deliveries. -/
def Settling (z : Czmq) (c : Frame) (j : System) : Prop := ∃ v, Shows z c j v ∧ Ready v

/-- One delivery: nobody is lost, and there is less to do. -/
theorem Settling.next {d : Delivery} (h : Settling z c j) (hstep : deliver z c j d = some j') :
    Settling z c j' ∧ j'.work c < j.work c := by
  obtain ⟨v, hshows, hready⟩ := h
  rcases step_spec hshows hstep with ⟨v', hmove, hshows'⟩ | ⟨hloses, -⟩
  · refine ⟨⟨v', hshows', hready.move hmove⟩, ?_⟩
    rw [hshows.work_eq, hshows'.work_eq]
    exact hmove.work_lt
  · -- every message can be read, and the client has been told to connect
    have hread : ∀ {queue}, Clean queue → ¬ ∃ frames rest, queue = frames :: rest ∧
        ∀ m, zccpMsgDecode frames ≠ .ok m := by
      rintro queue hclean ⟨frames, rest, rfl, hno⟩
      obtain ⟨m, hm⟩ := (zccpMsgDecode_ok_iff frames).mpr (hclean frames List.mem_cons_self)
      exact hno m hm
    cases d with
    | toBroker => exact absurd hloses (hread hready.up)
    | toClient => exact absurd hloses (not_or.mpr ⟨hready.started, hread hready.down⟩)

/-- Where no delivery is possible, everything is as it should be. -/
theorem Settling.atRest (h : Settling z c j) (hstuck : ∀ d, deliver z c j d = none) :
    ∃ s r, AtRest c j s r := by
  obtain ⟨v, hshows, hready⟩ := h
  obtain ⟨self, hself, hrunning, hstate⟩ := hshows.client
  obtain ⟨s, hs, hinv, hentry⟩ := hshows.broker
  have hup : v.toBroker = [] := by
    have := hstuck .toBroker
    cases hqueue : v.toBroker with
    | nil => rfl
    | cons frames rest =>
      simp [deliver, Delivery.label, step, hs, hshows.toBroker, hqueue] at this
  have hdown : v.toClient = [] := by
    have := hstuck .toClient
    cases hqueue : v.toClient with
    | nil => rfl
    | cons frames rest =>
      simp [deliver, Delivery.label, step, hself, hshows.toClient, hqueue] at this
  have hnone : ∀ id, ¬ Carries id [] := by
    rintro id ⟨frames, hmem, -⟩
    cases hmem
  -- the client is not waiting for anything, so it is connected
  have hconnected : v.state = .connected := by
    have hhello := hready.awaits.hello
    have hsubscribe := hready.awaits.subscribe
    simp only [hup, hdown, hnone, or_self, imp_false] at hhello hsubscribe
    cases hst : v.state with
    | connected => rfl
    | start => exact absurd hst hready.started
    | disconnecting => exact absurd (hstate.trans hst) hrunning.disconnecting
    | defaults => exact absurd (hstate.trans hst) hrunning.defaults
    | connecting => exact absurd (.inl hst) hhello
    | reconnecting => exact absurd (.inr hst) hhello
    | subscribing => exact absurd hst hsubscribe
  -- and what keeps the system busy can only be a session
  have hsome : v.entry.isSome := by
    rcases hready.busy with hsome | hne | hcarries
    · exact hsome
    · exact absurd hup hne
    · rw [hdown] at hcarries
      exact absurd hcarries (hnone _)
  obtain ⟨m, hm⟩ := Option.isSome_iff_exists.mp hsome
  obtain ⟨r, σ, hσ, -, hr, -, -⟩ := hinv.session_of_entry (hentry.trans hm)
  obtain ⟨b, hb, rfl⟩ := Server.heap_of_session hσ
  exact ⟨s, r, ⟨self, hself, hstate.trans hconnected⟩, hs, hr,
    ⟨b, hb, (hinv.idle r _ hσ).connected⟩, hshows.toBroker.trans hup, hshows.toClient.trans hdown⟩

/-- **Reconnection converges.** Take any reachable state in which both parties are there, the client
has been told to connect, every message in flight is well-formed, and the broker has a session of
the client, or something is in flight to the broker, or an INVALID to the client. However the
deliveries are interleaved from there, there is a bound on how many there are, and when there are
no more both parties are connected and nothing is in flight. -/
theorem converges (z : Czmq) (c : Frame) (verbose : Bool) (labels : List Label) (j : System)
    (self : Client.SClient) (s : Server) (hrun : run z c verbose labels = some j)
    (hclient : j.client = some self) (hstarted : self.state ≠ .start) (hbroker : j.broker = some s)
    (hup : Clean j.toBroker) (hdown : Clean j.toClient)
    (hbusy : (∃ r, s.clients (zframeStrhex c) = some r) ∨ j.toBroker ≠ [] ∨
      Carries .invalid j.toClient) :
    ∃ bound, ∀ deliveries j', runFrom (deliver z c) j deliveries = some j' →
      deliveries.length ≤ bound ∧
        ((∀ d, deliver z c j' d = none) → ∃ s' r', AtRest c j' s' r') := by
  have hlost : ¬ j.Lost := by
    rintro (h | h)
    · rw [hclient] at h; cases h
    · rw [hbroker] at h; cases h
  have hnew : AwaitsIfClean .new := by
    intro _ _
    refine ⟨?_, nofun⟩
    rintro (h | h) <;> cases h
  obtain ⟨v, hshows, hawaits⟩ := run_moves hnew (fun _ _ _ h => h.move) hrun hlost
  obtain ⟨self', hself', -, hstate⟩ := hshows.client
  obtain rfl := Option.some.inj (hclient.symm.trans hself')
  obtain ⟨s', hs', hinv, hentry⟩ := hshows.broker
  obtain rfl := Option.some.inj (hbroker.symm.trans hs')
  rw [hshows.toBroker] at hup hbusy
  rw [hshows.toClient] at hdown hbusy
  have hsettling : Settling z c j := by
    refine ⟨v, hshows, ?_, hup, hdown, hawaits hup hdown, ?_⟩
    · rw [← hstate]
      exact hstarted
    · refine hbusy.imp_left fun ⟨r, hr⟩ => ?_
      rw [← hentry, Option.isSome_iff_ne_none, ne_eq, hinv.entry_none_iff]
      exact fun hnone => nomatch hr.symm.trans hnone
  refine ⟨j.work c, fun deliveries j' hdeliveries => ⟨?_, ?_⟩⟩
  · have := length_le_of_decreasing (I := Settling z c) (fun _ _ _ h hstep => h.next hstep)
      hsettling hdeliveries
    omega
  · have hend : Settling z c j' :=
      runFrom_preserves (fun _ _ _ h hstep => (h.next hstep).1) hsettling hdeliveries
    exact hend.atRest

/-- Two PUBLISHes are on their way to a broker at which the session has expired. -/
theorem converges_two_publishes :
    let e := CStr.ofBytes [65]
    let labels : List Label := [.command (.connect e 100), .toBroker, .toClient, .expire,
      .command (.publish e e), .command (.publish e e)]
    ∃ j, run .literal [1] false labels = some j ∧ j.toBroker.length = 2 ∧
      ∃ bound, ∀ deliveries j', runFrom (deliver .literal [1]) j deliveries = some j' →
        deliveries.length ≤ bound ∧
          ((∀ d, deliver .literal [1] j' d = none) → ∃ s' r', AtRest [1] j' s' r') := by
  intro e labels
  obtain ⟨j, hrun, hj⟩ := (Option.any_eq_true ..).mp (show
    (run .literal [1] false labels).any (fun j => decide (j.client.any (·.state ≠ .start) = true ∧
      j.broker.isSome ∧ Clean j.toBroker ∧ Clean j.toClient ∧ j.toBroker.length = 2)) = true
    by decide +kernel)
  obtain ⟨hclient, hbroker, hup, hdown, htwo⟩ := of_decide_eq_true hj
  obtain ⟨self, hself, hstarted⟩ := (Option.any_eq_true ..).mp hclient
  obtain ⟨s, hs⟩ := Option.isSome_iff_exists.mp hbroker
  refine ⟨j, hrun, htwo, converges .literal [1] false labels j self s hrun hself
    (of_decide_eq_true hstarted) hs hup hdown (.inr (.inl ?_))⟩
  intro hnil
  rw [hnil] at htwo
  cases htwo

end Zccp.Joint
