import Zccp.Joint.System

/-!
# `Zccp/Joint/Agreement.lean` — do the two agree on subscriptions?

An application that has been told SUCCESS for a SUBSCRIBE counts on the broker knowing it. As long
as the client stays in its session that is right: between the command and its arrival the request
is in flight with no HELLO behind it that could end the session, and from then on the expression is
in the broker's store, or the broker has lost the session, which the client is about to learn
(`Promised`). So when everything has been delivered and there is a session, the expression is in
the store (`agreement`).

It is not right for longer than that. A client that asks for a new session starts with nothing:
`client_t` has no field in which it could remember what it had subscribed to, and none of the
actions on the way through `reconnecting` sends a SUBSCRIBE. `agreement_ends` is the shortest run
in which a subscription is lost that way, with both parties connected and nothing in flight.
-/

set_option autoImplicit false

namespace Zccp.Joint

open Lib Broker

variable {z : Czmq} {c : Frame} {j j' : System} {v v' : View} {e : CStr}

/-! ## What the application has been told -/

/-- The client after some steps, if it is there. -/
def clientAfter (z : Czmq) (c : Frame) (verbose : Bool) (labels : List Label) :
    Option Client.SClient := (run z c verbose labels).bind (·.client)

/-- The state it is in. -/
def stateAfter (z : Czmq) (c : Frame) (verbose : Bool) (labels : List Label) :
    Option Client.State := (clientAfter z c verbose labels).map (·.state)

/-- A SUBSCRIBE command comes after `pre`, and after `mid` more steps the delivery that makes the
client answer it with SUCCESS. It was connected when the command came and waited until the answer;
a command that comes at another time is discarded and never answered. -/
structure Succeeds (z : Czmq) (c : Frame) (verbose : Bool) (e : CStr) (pre mid : List Label) :
    Prop where
  connected : stateAfter z c verbose pre = some .connected
  waiting : ∀ m, m <+: mid →
    stateAfter z c verbose (pre ++ .command (.subscribe e) :: m) = some .subscribing
  success : (clientAfter z c verbose (pre ++ .command (.subscribe e) :: (mid ++ [.toClient]))).map
      (·.trace) =
    (clientAfter z c verbose (pre ++ .command (.subscribe e) :: mid)).map
      (·.trace ++ [.reply (.success 0)])

/-- A SUBSCRIBE command for this expression has been answered with SUCCESS. -/
def Answered (z : Czmq) (c : Frame) (verbose : Bool) (labels : List Label) (e : CStr) : Prop :=
  ∃ pre mid post, labels = pre ++ .command (.subscribe e) :: (mid ++ .toClient :: post) ∧
    Succeeds z c verbose e pre mid

/-- The client is in a session, as far as it knows. Whether the broker still has one is another matter:
the client learns of its end only when it next says something. -/
def Served (state : Client.State) : Prop := state = .connected ∨ state = .subscribing

/-- The same, and the client has not asked for a new session since: it has been connected or
subscribing all the time. -/
def AnsweredSince (z : Czmq) (c : Frame) (verbose : Bool) (labels : List Label) (e : CStr) :
    Prop :=
  ∃ pre mid post, labels = pre ++ .command (.subscribe e) :: (mid ++ .toClient :: post) ∧
    Succeeds z c verbose e pre mid ∧
    ∀ m, m <+: post → ∃ state,
      stateAfter z c verbose (pre ++ .command (.subscribe e) :: (mid ++ .toClient :: m)) =
        some state ∧ Served state

/-! ## What it may count on -/

/-- No HELLO is in a queue. -/
def NoHello (queue : List (List Frame)) : Prop := Holds (· ≠ .hello) queue

/-- A subscription on its way, or made: the SUBSCRIBE is in flight with no HELLO behind it, or
there is no HELLO in flight and the broker, if it has a session, knows the expression. The HELLOs are
what the invariant has to keep out: one that reached the broker later would end the session and, sent
once more, make a new one that knows nothing. -/
def Promised (e : CStr) (v : View) : Prop :=
  (∃ before frames behind, v.toBroker = before ++ frames :: behind ∧ IsSubscribe frames e ∧
    NoHello behind) ∨
  (NoHello v.toBroker ∧ ∀ m, v.entry = some m → e ∈ m.subscriptions)

/-- Sending anything but a HELLO keeps a promise, and a client that stays in its session sends no HELLO: it
does so only on the way to one. -/
theorem Promised.send {msg : ZccpMsg} {state : Client.State} (h : Promised e v)
    (hid : msg.id = .subscribe ∨ msg.id = .publish) :
    Promised e { v with state := state, toBroker := v.toBroker ++ [wire msg] } := by
  have hnew : NoHello [wire msg] := by
    rcases hid with hid | hid
    · exact holds_wire (by rw [hid]; decide)
    · exact holds_wire (by rw [hid]; decide)
  rcases h with ⟨before, frames, behind, hqueue, hsub, hno⟩ | ⟨hno, hentry⟩
  · exact .inl ⟨before, frames, behind ++ [wire msg], by simp [hqueue], hsub, hno.append hnew⟩
  · exact .inr ⟨hno.append hnew, hentry⟩

/-- The broker takes the next message. If it is the SUBSCRIBE, the expression is subscribed from now on; if
the SUBSCRIBE is further back, it moves up; and if it was taken before, no HELLO is left in the queue that
could start the session over. -/
theorem Promised.toBroker {frames : List Frame} {rest : List (List Frame)} {m : ZccpMsg}
    {down : List (List Frame)} (h : Promised e v) (hcompiles : (z.zrexNew e).isSome)
    (hqueue : v.toBroker = frames :: rest) (hdec : zccpMsgDecode frames = .ok m) :
    Promised e { v with
      toBroker := rest
      toClient := down
      entry := PubSub.settle (policy z) v.entry m.request } := by
  rcases h with ⟨before, frames', behind, hsplit, hsub, hno⟩ | ⟨hno, hentry⟩
  · rw [hqueue] at hsplit
    cases before with
    | cons frames'' before =>
      -- not yet its turn
      exact .inl ⟨before, frames', behind, (List.cons.inj hsplit).2, hsub, hno⟩
    | nil =>
      obtain ⟨rfl, rfl⟩ := List.cons.inj hsplit
      obtain ⟨m', hm', hid, hexpression⟩ := hsub
      obtain rfl := Except.ok.inj (hdec.symm.trans hm')
      have hreq : m.request = .subscribe e := by simp [ZccpMsg.request, hid, hexpression]
      refine .inr ⟨hno, fun mem hmem => ?_⟩
      simp only [hreq] at hmem
      cases hentry : v.entry with
      | none => simp [hentry, PubSub.settle] at hmem
      | some mem₀ =>
        simp only [hentry, PubSub.settle, policy, hcompiles, if_true, Option.some.injEq] at hmem
        rw [← hmem]
        exact Finset.mem_insert_self _ _
  · rw [hqueue] at hno
    refine .inr ⟨hno.tail, PubSub.mem_subscriptions_settle (policy z) ?_ hentry⟩
    intro name hname
    have hid : m.id ≠ .hello := hno frames List.mem_cons_self m hdec
    unfold ZccpMsg.request at hname
    cases hm : m.id <;> rw [hm] at hname hid <;> simp at hname hid

/-- **A promise is kept** as long as the client stays in its session. -/
theorem Promised.move {l : Label} (h : Promised e v) (hcompiles : (z.zrexNew e).isSome)
    (hv : Served v.state) (hmove : Move z c v l v') (hv' : Served v'.state) : Promised e v' := by
  cases hmove with
  | connect endpoint timeout msg id fits state =>
    rw [state] at hv
    rcases hv with hv | hv <;> cases hv
  | subscribe expression msg id => exact h.send (.inl id)
  | publish address content msg id => exact h.send (.inr id)
  | ignore => exact h
  | toBroker frames rest m queue decoded => exact h.toBroker hcompiles queue decoded
  | toClient frames rest m hello queue decoded id hid fits state =>
    have hid' : m.id ≠ .invalid := by
      intro hinvalid
      simp only [hinvalid] at hv'
      rcases hv with hv | hv <;> rw [hv] at hv' <;> rcases hv' with hv' | hv' <;> cases hv'
    rw [if_neg hid', List.append_nil]
    exact h
  | expire =>
    rcases h with h | ⟨hno, -⟩
    · exact .inl h
    · exact .inr ⟨hno, nofun⟩
  | others => exact h

/-! ## The two agree -/

/-- What a SUBSCRIBE command puts in flight is a SUBSCRIBE for its expression, unless it has a
percent sign in it or does not fit. -/
theorem isSubscribe_wire {msg : ZccpMsg} (hprintf : Printf z.zsysVprintf) (hpercent : 37 ∉ e.bytes)
    (hshort : e.Short) (hid : msg.id = .subscribe)
    (hexpression : msg.expression = some (z.zsysVprintf e)) (hheaders : msg.headers = none) :
    IsSubscribe (wire msg) e := by
  have hprint : z.zsysVprintf e = e := hprintf e e (unpercent_of_not_mem hpercent)
  rw [hprint] at hexpression
  have hfits : msg.Fits := by
    simp only [ZccpMsg.Fits, hid, hexpression, hheaders]
    exact ⟨shortField_some hshort, fitsHeaders_none⟩
  refine ⟨_, zccpMsgDecode_wire (by rw [hid]; decide) hfits, ?_, ?_⟩
  · rw [ZccpMsg.received_id, hid]
  · simp [ZccpMsg.received, hid, hexpression]

theorem promised_of_command (hprintf : Printf z.zsysVprintf) (hpercent : 37 ∉ e.bytes)
    (hshort : e.Short) (hstate : v.state = .connected)
    (hmove : Move z c v (.command (.subscribe e)) v') : Promised e v' ∧ Served v'.state := by
  cases hmove with
  | subscribe _ msg id hexpression headers state =>
    have hsub := isSubscribe_wire hprintf hpercent hshort id hexpression headers
    exact ⟨.inl ⟨v.toBroker, _, [], rfl, hsub, by simp [NoHello, Holds]⟩, .inr rfl⟩
  | ignore _ acts =>
    rw [hstate] at acts
    exact absurd trivial acts

theorem stored_of_mem_entry {s : Server} {r : Ref} (hinv : Inv z s.core)
    (hr : s.clients (zframeStrhex c) = some r)
    (h : ∀ m, s.core.entry c = some m → e ∈ m.subscriptions) :
    ∃ p ∈ s.patterns.items, p.expression = e ∧ r ∈ p.clients.items := by
  obtain ⟨σ, hσ, -⟩ := hinv.table _ r hr
  have hentry : s.core.entry c =
      some { name := σ.identifier.getD .empty, subscriptions := s.core.subscriptions r } := by
    have hr' : s.core.clients (zframeStrhex c) = some r := hr
    simp only [Core.entry, hr', Option.bind_some, hσ, Option.map_some]
  obtain ⟨t, ht, hmem, rfl⟩ := Core.mem_subscriptions.mp (h _ hentry)
  obtain ⟨p, hp, rfl⟩ := List.mem_map.mp ht
  exact ⟨p, hp, rfl, hmem⟩

/-- From the command on, the client has been in its session all the time: it was connected when the
command came, and waited until the answer. -/
theorem Succeeds.served {verbose : Bool} {pre mid post labels : List Label}
    (h : Succeeds z c verbose e pre mid)
    (hsince : ∀ m, m <+: post → ∃ state,
      stateAfter z c verbose (pre ++ .command (.subscribe e) :: (mid ++ .toClient :: m)) =
        some state ∧ Served state) (hlabels : labels <+: mid ++ .toClient :: post) :
    ∃ state, stateAfter z c verbose (pre ++ .command (.subscribe e) :: labels) = some state ∧
      Served state := by
  rcases Nat.le_total labels.length mid.length with hle | hle
  · -- not answered yet
    have hpre := List.prefix_of_prefix_length_le hlabels (List.prefix_append mid _) hle
    exact ⟨.subscribing, h.waiting labels hpre, .inr rfl⟩
  · obtain ⟨t, rfl⟩ := List.prefix_of_prefix_length_le (List.prefix_append mid _) hlabels hle
    rw [List.prefix_append_right_inj] at hlabels
    cases t with
    | nil =>
      rw [List.append_nil]
      exact ⟨.subscribing, h.waiting mid List.prefix_rfl, .inr rfl⟩
    | cons l t =>
      obtain ⟨rfl, ht⟩ := List.cons_prefix_cons.mp hlabels
      exact hsince t ht

/-- A client that is in a session. -/
def System.Served (j : System) : Prop := ∃ self, j.client = some self ∧ Joint.Served self.state

theorem served_of_stateAfter {verbose : Bool} {labels : List Label} {state : Client.State}
    (hrun : run z c verbose labels = some j) (hstate : stateAfter z c verbose labels = some state)
    (hserved : Served state) : j.Served := by
  simp only [stateAfter, clientAfter, hrun, Option.bind_some, Option.map_eq_some_iff] at hstate
  obtain ⟨self, hself, rfl⟩ := hstate
  exact ⟨self, hself, hserved⟩

/-- **Agreement.** Whenever both parties are connected and nothing is in flight, every expression for
which the application has been told SUCCESS since the client last asked for a session is in the
broker's store, with this session on its list. -/
theorem agreement (z : Czmq) (c : Frame) (verbose : Bool) (labels : List Label) (j : System)
    (s : Server) (r : Ref) (hprintf : Printf z.zsysVprintf)
    (hrun : run z c verbose labels = some j) (hrests : AtRest c j s r)
    (e : CStr) (hpercent : 37 ∉ e.bytes) (hshort : e.Short) (hcompiles : (z.zrexNew e).isSome)
    (hanswered : AnsweredSince z c verbose labels e) :
    ∃ p ∈ s.patterns.items, p.expression = e ∧ r ∈ p.clients.items := by
  obtain ⟨pre, mid, post, rfl, hsucceeds, hsince⟩ := hanswered
  -- the three parts of the run: up to the command, the command, and what comes after it
  obtain ⟨j₀, hrun₀, hrest⟩ := runFrom_of_append hrun
  rw [runFrom_cons] at hrest
  obtain ⟨j₁, hstep, hrest⟩ := Option.bind_eq_some_iff.mp hrest
  have hserved : ∀ labels', labels' <+: mid ++ .toClient :: post → ∀ j₂,
      runFrom (step z c) j₁ labels' = some j₂ → j₂.Served := by
    intro labels' hpre j₂ hrun₂
    obtain ⟨state, hstate, hserved⟩ := hsucceeds.served hsince hpre
    refine served_of_stateAfter ?_ hstate hserved
    rw [run, runFrom_append, hrun₀, Option.bind_some, runFrom_cons, hstep, Option.bind_some, hrun₂]
  -- nobody is lost on the way
  have hlost : ¬ j.Lost := by
    obtain ⟨self, hself, -⟩ := hserved _ List.prefix_rfl j hrest
    rintro (h | h)
    · rw [hself] at h; cases h
    · rw [hrests.broker] at h; cases h
  have hthere : ∀ labels', labels' <+: mid ++ .toClient :: post → ∀ j₂,
      runFrom (step z c) j₁ labels' = some j₂ → ¬ j₂.Lost := by
    rintro labels' ⟨t, ht⟩ j₂ hrun₂ h
    rw [← ht, runFrom_append, hrun₂] at hrest
    exact hlost (lost_after h hrest)
  have hlost₁ : ¬ j₁.Lost := hthere [] List.nil_prefix j₁ rfl
  have hlost₀ : ¬ j₀.Lost := fun h => hlost₁ (h.step hstep)
  -- at the command, the promise is made
  obtain ⟨v₀, hshows₀, -⟩ := run_moves (P := fun _ => True) trivial (fun _ _ _ _ _ => trivial) hrun₀
    hlost₀
  have hstate₀ : v₀.state = .connected := by
    obtain ⟨self₀, hself₀, -, hstate⟩ := hshows₀.client
    have := hsucceeds.connected
    simp only [stateAfter, clientAfter, show run z c verbose pre = some j₀ from hrun₀,
      Option.bind_some, hself₀, Option.map_some, Option.some.injEq] at this
    rw [← hstate, this]
  obtain ⟨v₁, hmove, hshows₁⟩ := step_moves hshows₀ hstep hlost₁
  have hpromise := promised_of_command hprintf hpercent hshort hstate₀ hmove
  -- and it is kept, since the client is in its session all along
  obtain ⟨v, hshows, hkept⟩ : ∃ v, Shows z c j v ∧ Promised e v ∧ Served v.state := by
    refine runFrom_preserves_along (I := fun j => ∃ v, Shows z c j v ∧ Promised e v ∧ Served v.state)
      (Q := fun j => ¬ j.Lost ∧ j.Served) ?_ ⟨v₁, hshows₁, hpromise⟩ hrest
      fun labels' hpre j₂ hrun₂ => ⟨hthere labels' hpre j₂ hrun₂, hserved labels' hpre j₂ hrun₂⟩
    rintro j₂ l j₃ ⟨v₂, hshows₂, hpromise₂, hserved₂⟩ hstep₂ ⟨hlost₃, self₃, hself₃, hserved₃⟩
    obtain ⟨v₃, hmove₃, hshows₃⟩ := step_moves hshows₂ hstep₂ hlost₃
    obtain ⟨self', hself', -, hstate₃⟩ := hshows₃.client
    obtain rfl := Option.some.inj (hself₃.symm.trans hself')
    rw [hstate₃] at hserved₃
    exact ⟨v₃, hshows₃, hpromise₂.move hcompiles hserved₂ hmove₃ hserved₃, hserved₃⟩
  -- nothing is in flight any more
  obtain ⟨s', hs', hinv, hentry⟩ := hshows.broker
  obtain rfl := Option.some.inj (hrests.broker.symm.trans hs')
  rcases hkept.1 with ⟨before, frames, behind, hqueue, -⟩ | ⟨-, hknown⟩
  · rw [← hshows.toBroker, hrests.toBroker] at hqueue
    simp at hqueue
  · rw [← hentry] at hknown
    exact stored_of_mem_entry hinv hrests.session hknown

/-- The steps by which a client connects. -/
def connecting (e : CStr) : List Label := [.command (.connect e 100), .toBroker, .toClient]

/-- The client connects and subscribes; the broker has heard of it, and the client has not been told. -/
def subscribing (e : CStr) : List Label := connecting e ++ .command (.subscribe e) :: [.toBroker]

theorem succeeds_subscribing :
    Succeeds (.printing .literal strictPrintf) [1] false (.ofBytes [65]) (connecting (.ofBytes [65]))
      [.toBroker] where
  connected := by decide +kernel
  waiting := by
    intro m hm
    rcases List.prefix_cons_iff.mp hm with rfl | ⟨t, rfl, ht⟩
    · decide +kernel
    · rw [List.prefix_nil.mp ht]
      decide +kernel
  success := by decide +kernel

/-- The client has just subscribed. -/
theorem agreement_subscribing :
    let z := Czmq.printing .literal strictPrintf
    let e := CStr.ofBytes [65]
    ∃ j s r, run z [1] false (subscribing e ++ [.toClient]) = some j ∧ AtRest [1] j s r ∧
      ∃ p ∈ s.patterns.items, p.expression = e ∧ r ∈ p.clients.items := by
  intro z e
  obtain ⟨j, hrun, hrests⟩ := (Option.any_eq_true ..).mp (show
    (run z [1] false (subscribing e ++ [.toClient])).any
      (fun j => decide (∃ s r, AtRest [1] j s r ∧ True)) = true by decide +kernel)
  obtain ⟨s, r, hrests, -⟩ := of_decide_eq_true hrests
  refine ⟨j, s, r, hrun, hrests, ?_⟩
  apply agreement z [1] false _ j s r strictPrintf_printf hrun hrests e (by decide) (by decide)
    (by decide)
  refine ⟨connecting e, [.toBroker], [], rfl, succeeds_subscribing, fun m hm => ?_⟩
  rw [List.prefix_nil.mp hm]
  exact ⟨.connected, by decide +kernel, .inl rfl⟩

/-- **Where agreement ends.** The session expires, a PUBLISH draws an INVALID, the client asks for a
session and gets one. Both parties are connected again and nothing is in flight, and the broker
does not know what the application has been told SUCCESS for. -/
theorem agreement_ends :
    let z := Czmq.printing .literal strictPrintf
    let e := CStr.ofBytes [65]
    let labels := subscribing e ++ .toClient :: [.expire, .command (.publish e e), .toBroker,
      .toClient, .toBroker, .toClient]
    Answered z [1] false labels e ∧ ∃ j s r, run z [1] false labels = some j ∧ AtRest [1] j s r ∧
      ¬ ∃ p ∈ s.patterns.items, p.expression = e ∧ r ∈ p.clients.items := by
  intro z e labels
  refine ⟨⟨connecting e, [.toBroker], _, rfl, succeeds_subscribing⟩, ?_⟩
  obtain ⟨j, hrun, hrests⟩ := (Option.any_eq_true ..).mp (show
    (run z [1] false labels).any (fun j => decide (∃ s r, AtRest [1] j s r ∧
      ¬ ∃ p ∈ s.patterns.items, p.expression = e ∧ r ∈ p.clients.items)) = true by decide +kernel)
  obtain ⟨s, r, hrests, hlost⟩ := of_decide_eq_true hrests
  exact ⟨j, s, r, hrun, hrests, hlost⟩

end Zccp.Joint
