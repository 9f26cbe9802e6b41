import Mathlib.Data.Finset.Dedup
import Mathlib.Algebra.BigOperators.Group.List.Basic
import Zccp.Broker.Step
import Zccp.Lib.PubSub

/-!
# `Zccp/Broker/Refines.lean` — the broker is a broker

The broker refines the set-based one of `Zccp/Lib/PubSub.lean`. Its directory is read off the
core (`Core.entry`): a peer has an entry if the table leads to a session of it, its name is that
session's identifier, and its subscriptions are the expressions of the patterns it is on the list
of. `Transition.refines` is the refinement of one step and `run_refines` that of a run, with what
every peer is sent.

Three things are lost in the abstraction, on purpose. The order of the patterns and of the
clients on them: no peer can tell, since all it gets from one publication is copies of the same
message. Patterns nobody is subscribed to any more: they stay in the list and match nothing. And
timers, addresses and pointers.

The abstraction is a function of the core, `Core.entry`, and not a relation: the invariant makes the
table, the sessions and the lists agree, and with that there is one directory for each core. So a step
is refined by computing the directory after it, for each of the few things a transition does to a core,
and the order in which things are sent is not abstracted from at all.
-/

set_option autoImplicit false

namespace Zccp

/-- What a peer asks for. -/
def ZccpMsg.request (m : ZccpMsg) : Lib.PubSub.Request CStr CStr CStr (Option (List Frame)) :=
  match m.id with
  | .hello => .hello (m.identifier.getD .empty)
  | .subscribe => .subscribe (m.expression.getD .empty)
  | .publish => .publish (m.address.getD .empty) m.content
  | .direct => .direct
  | .goodbye => .goodbye
  | _ => .other

namespace Broker

open Lib CursorList

variable {z : Czmq} {k : Core}

/-! ## What is seen of it -/

/-- An input as an event. What does not decode is no event; it is never asked for. -/
def Input.event : Input → PubSub.Event Frame CStr CStr CStr (Option (List Frame))
  | .message routingId frames =>
    match zccpMsgDecode frames with
    | .ok m => .request routingId m.request
    | .error _ => .request routingId .other
  | .expiry routingId => .expiry routingId

@[simp] theorem Input.event_peer (input : Input) : input.event.peer = input.peer := by
  cases input with
  | message routingId frames =>
    simp only [Input.event, Input.peer]
    split <;> rfl
  | expiry => rfl

/-- A reply as the message that is sent. -/
def replyMsg (z : Czmq) (routingId : Frame) :
    PubSub.Reply CStr CStr (Option (List Frame)) → ZccpMsg
  | .helloOk => plainReply .helloOk routingId
  | .subscribeOk => plainReply .subscribeOk routingId
  | .goodbyeOk => plainReply .goodbyeOk routingId
  | .invalid => plainReply .invalid routingId
  | .deliver sender address content =>
    Relay.deliver z { sender, address, headers := none, content } routingId

/-- The id of a reply. -/
def replyId : PubSub.Reply CStr CStr (Option (List Frame)) → MsgId
  | .helloOk => .helloOk
  | .subscribeOk => .subscribeOk
  | .goodbyeOk => .goodbyeOk
  | .invalid => .invalid
  | .deliver _ _ _ => .deliver

/-- The routing id and the rest of a reply have no say in its type. -/
theorem replyMsg_id (z : Czmq) (c : Frame) (r : PubSub.Reply CStr CStr (Option (List Frame))) :
    (replyMsg z c r).id = replyId r := by
  cases r <;> rfl

/-- What can be subscribed to and what it selects: an expression that `zrex_new` answers `NULL` to
is acknowledged and forgotten. -/
def policy (z : Czmq) : PubSub.Policy CStr CStr where
  compiles e := (z.zrexNew e).isSome
  selects := z.matches

/-- The expressions a client is subscribed to. -/
def Core.subscriptions (k : Core) (r : Ref) : Finset CStr :=
  ((k.topics.filter (r ∈ ·.clients)).map Topic.expression).toFinset

/-- What the broker knows about a peer. -/
def Core.entry (k : Core) (routingId : Frame) : Option (PubSub.Member CStr CStr) :=
  (k.clients (zframeStrhex routingId)).bind fun r => (k.session r).map fun σ =>
    { name := σ.identifier.getD .empty, subscriptions := k.subscriptions r }

/-- What is sent to a peer. -/
def sentIn (routingId : Frame) (t : List Obs) : List ZccpMsg :=
  t.filterMap fun
    | .send peer msg _ => if peer = routingId then some msg else none
    | _ => none

/-- What a peer has been sent. -/
def Server.sentTo (routingId : Frame) (s : Server) : List ZccpMsg := sentIn routingId s.trace

section SentIn

variable (c : Frame)

@[simp] theorem sentIn_nil : sentIn c [] = [] := rfl

@[simp] theorem sentIn_append (t t' : List Obs) : sentIn c (t ++ t') = sentIn c t ++ sentIn c t' :=
  List.filterMap_append ..

@[simp] theorem sentIn_sent_cons (routingId : Frame) (msg : ZccpMsg) (t : List Obs) :
    sentIn c (sent routingId msg :: t) =
      (if routingId = c then [msg] else []) ++ sentIn c t := by
  by_cases h : routingId = c <;> simp [sentIn, sent, h]

@[simp] theorem sentIn_take_cons (r : Ref) (msg : ZccpMsg) (t : List Obs) :
    sentIn c (.take r msg :: t) = sentIn c t := rfl

@[simp] theorem sentIn_relay_cons (r : Ref) (a b : CStr) (x : Option (List Frame)) (t : List Obs) :
    sentIn c (.relay r a b x :: t) = sentIn c t := rfl

@[simp] theorem sentIn_destroy_cons (r : Ref) (t : List Obs) :
    sentIn c (.destroy r :: t) = sentIn c t := rfl

@[simp] theorem sentIn_leave_cons (r : Ref) (l : CursorList Pattern) (t : List Obs) :
    sentIn c (.leave r l :: t) = sentIn c t := rfl

@[simp] theorem sentIn_before (v : Bool) (r : Ref) (state : State) (event : Event)
    (l : CursorList Pattern) : sentIn c (before v r state event l) = [] := by
  cases v <;> rfl

@[simp] theorem sentIn_after (v : Bool) (r : Ref) (state : State) (l : CursorList Pattern) :
    sentIn c (after v r state l) = [] := by cases v <;> rfl

/-- A visit shows one message, to the client that is visited. -/
theorem sentIn_visit (m : Relay) (v : Visit) :
    sentIn c (v.trace z k m) =
      if k.routingId v.client = c then [m.deliver z c] else [] := by
  by_cases h : k.routingId v.client = c <;> simp [Visit.trace, forwardPass, h]

end SentIn

/-! ## The directory -/

theorem Core.mem_subscriptions {r : Ref} {e : CStr} :
    e ∈ k.subscriptions r ↔ ∃ t ∈ k.topics, r ∈ t.clients ∧ t.expression = e := by
  simp only [Core.subscriptions, List.mem_toFinset, List.mem_map, List.mem_filter,
    decide_eq_true_eq, and_assoc]

namespace Inv

/-- The entry of a peer is read off its session, which is the only one it has. -/
theorem entry_session (h : Inv z k) {r : Ref} {σ : Session} (hr : k.session r = some σ) :
    k.entry σ.routingId =
      some { name := σ.identifier.getD .empty, subscriptions := k.subscriptions r } := by
  have hc := h.clients_of_session hr
  simp [Core.entry, hc, hr]

/-- And back: an entry is that of a session. -/
theorem session_of_entry (h : Inv z k) {c : Frame} {m : PubSub.Member CStr CStr}
    (hm : k.entry c = some m) :
    ∃ r σ, k.session r = some σ ∧ σ.routingId = c ∧ k.clients (zframeStrhex c) = some r ∧
      σ.identifier = some m.name ∧ m.subscriptions = k.subscriptions r := by
  simp only [Core.entry, Option.bind_eq_some_iff, Option.map_eq_some_iff] at hm
  obtain ⟨r, hr, σ, hσ, rfl⟩ := hm
  obtain ⟨σ', hσ', hpeer⟩ := h.session_of_clients hr
  rw [hσ, Option.some.injEq] at hσ'
  subst hσ'
  obtain ⟨i, hi⟩ := (h.idle r σ hσ).named
  exact ⟨r, σ, hσ, hpeer, hr, by simp [hi], rfl⟩

/-- A peer without an entry is one that the table does not lead anywhere for. -/
theorem entry_none_iff (h : Inv z k) {c : Frame} :
    k.entry c = none ↔ k.clients (zframeStrhex c) = none := by
  constructor
  · intro hn
    cases hc : k.clients (zframeStrhex c) with
    | none => rfl
    | some r =>
      obtain ⟨σ, hσ, -⟩ := h.table _ r hc
      simp [Core.entry, hc, hσ] at hn
  · intro hc
    simp [Core.entry, hc]

/-- Sessions and peers are the same thing counted twice: this is what allows going from a list of
clients to a list of peers. -/
theorem routingId_eq_iff (h : Inv z k) {r r' : Ref} {σ σ' : Session} (hr : k.session r = some σ)
    (hr' : k.session r' = some σ') : σ.routingId = σ'.routingId ↔ r = r' := by
  constructor
  · intro he
    have hc := h.clients_of_session hr
    rw [he, h.clients_of_session hr', Option.some.injEq] at hc
    exact hc.symm
  · rintro rfl
    rw [hr, Option.some.injEq] at hr'
    rw [hr']

end Inv

/-! ## What each thing does to the directory -/

/-- A newcomer has a name and no subscriptions. The latter has to be shown: its address is on no list
because it is fresh. -/
theorem Inv.entry_enrol (h : Inv z k) {routingId : Frame} (identifier : CStr) (msg : ZccpMsg) :
    (k.enrol routingId identifier msg).entry =
      Function.update k.entry routingId (some { name := identifier, subscriptions := ∅ }) := by
  funext c
  have hsubs : k.subscriptions k.brk = ∅ := by
    rw [Finset.eq_empty_iff_forall_notMem]
    intro e he
    obtain ⟨t, ht, hm, -⟩ := Core.mem_subscriptions.mp he
    exact h.not_subscribed h.session_brk t ht hm
  by_cases hc : c = routingId
  · subst hc
    rw [Function.update_self]
    simp only [Core.entry, Core.enrol, Function.update_self, Option.bind_some, Option.map_some,
      Option.getD_some]
    exact congrArg some (congrArg (PubSub.Member.mk identifier) hsubs)
  · rw [Function.update_of_ne hc]
    have hkey : zframeStrhex c ≠ zframeStrhex routingId := fun he => hc (zframeStrhex_injective he)
    simp only [Core.entry, Core.enrol, Function.update_of_ne hkey]
    cases hr : k.clients (zframeStrhex c) with
    | none => rfl
    | some r =>
      obtain ⟨σ, hσ, -⟩ := h.table _ r hr
      have hne : r ≠ k.brk := Nat.ne_of_lt (h.fresh r σ hσ)
      simp only [Option.bind_some, Function.update_of_ne hne]
      rfl

theorem entry_refuse (k : Core) : k.refuse.entry = k.entry := rfl

theorem entry_point (k : Core) (r request : Ref) : (k.point r request).entry = k.entry := rfl

/-- A message that is received changes nothing by having been received. -/
theorem entry_touch {r : Ref} {σ : Session} (hr : k.session r = some σ) (msg : ZccpMsg) :
    (k.touch r σ msg).entry = k.entry := by
  funext c
  simp only [Core.entry, Core.touch, Core.setSession]
  congr 1
  funext r'
  by_cases he : r' = r
  · subst he
    rw [Function.update_self, hr]
    rfl
  · rw [Function.update_of_ne he]
    rfl

/-- One peer less, and the others as they were. -/
theorem Inv.entry_drop (h : Inv z k) {r : Ref} {σ : Session} (hr : k.session r = some σ) :
    (k.drop r σ).entry = Function.update k.entry σ.routingId none := by
  have hidle := h.idle r σ hr
  funext c
  by_cases hc : c = σ.routingId
  · subst hc
    rw [Function.update_self]
    simp [Core.entry, Core.drop, hidle.key]
  · rw [Function.update_of_ne hc]
    have hkey : zframeStrhex c ≠ σ.hashkey := by
      rw [hidle.key]
      exact fun he => hc (zframeStrhex_injective he)
    simp only [Core.entry, Core.drop, Function.update_of_ne hkey]
    cases hr' : k.clients (zframeStrhex c) with
    | none => rfl
    | some r' =>
      obtain ⟨σ', hσ', -⟩ := h.session_of_clients hr'
      have hne := h.address_ne hr hr' hc
      have hsubs : (k.drop r σ).subscriptions r' = k.subscriptions r' := by
        ext e
        simp only [Core.mem_subscriptions, Core.drop, List.mem_map]
        constructor
        · rintro ⟨_, ⟨t, ht, rfl⟩, hm, he⟩
          exact ⟨t, ht, (List.mem_filter.mp hm).1, he⟩
        · rintro ⟨t, ht, hm, he⟩
          exact ⟨_, ⟨t, ht, rfl⟩, List.mem_filter.mpr ⟨hm, by simpa using hne⟩, he⟩
      simp only [Option.bind_some, Function.update_of_ne hne, hσ', Option.map_some]
      exact congrArg some (congrArg (PubSub.Member.mk _) hsubs)

/-- Who is subscribed to what after a SUBSCRIBE. In the list, the new client may be on an old pattern or
a new one may have been appended; as sets these are one case. What `zrex_new` does not compile is left
out, as the policy says. -/
theorem Inv.mem_subscriptions_subscribe (h : Inv z k) {r r' : Ref} {e e' : CStr} :
    e' ∈ (k.subscribe z r e).subscriptions r' ↔
      e' ∈ k.subscriptions r' ∨ (r' = r ∧ e' = e ∧ (z.zrexNew e).isSome) := by
  simp only [Core.mem_subscriptions]
  by_cases hmem : e ∈ k.topics.map Topic.expression
  · -- there is a pattern for it, which the client is added to unless it is there
    have hcompiles : (z.zrexNew e).isSome := by
      obtain ⟨t, ht, rfl⟩ := List.mem_map.mp hmem
      rw [h.compiled t ht]
      rfl
    have htopics : (k.subscribe z r e).topics = k.topics.map fun t =>
        if t.expression = e ∧ r ∉ t.clients then { t with clients := t.clients ++ [r] } else t :=
      if_pos hmem
    simp only [htopics, List.mem_map, hcompiles, and_true]
    constructor
    · rintro ⟨_, ⟨t, ht, rfl⟩, hm, he⟩
      split at hm
      · next hcond =>
        rw [if_pos hcond] at he
        rcases List.mem_append.mp hm with hm | hm
        · exact .inl ⟨t, ht, hm, he⟩
        · exact .inr ⟨List.mem_singleton.mp hm, he.symm.trans hcond.1⟩
      · next hcond =>
        rw [if_neg hcond] at he
        exact .inl ⟨t, ht, hm, he⟩
    · rintro (⟨t, ht, hm, he⟩ | ⟨rfl, rfl⟩)
      · refine ⟨_, ⟨t, ht, rfl⟩, ?_, ?_⟩
        · split
          · exact List.mem_append_left _ hm
          · exact hm
        · split <;> exact he
      · obtain ⟨t, ht, he⟩ := List.mem_map.mp hmem
        refine ⟨_, ⟨t, ht, rfl⟩, ?_, ?_⟩
        · by_cases hin : r' ∈ t.clients
          · rw [if_neg (by simp [hin])]
            exact hin
          · rw [if_pos ⟨he, hin⟩]
            simp
        · split <;> exact he
  · -- there is none, and there will be one if it compiles
    cases hz : z.zrexNew e with
    | none =>
      have htopics : (k.subscribe z r e).topics = k.topics := by
        rw [Core.subscribe, if_neg hmem, hz]
      simp [htopics]
    | some rex =>
      have htopics : (k.subscribe z r e).topics =
          k.topics ++ [{ expression := e, rex, clients := [r] }] := by
        rw [Core.subscribe, if_neg hmem, hz]
      rw [htopics]
      simp only [List.mem_append, List.mem_singleton, Option.isSome_some, and_true]
      constructor
      · rintro ⟨t, ht | rfl, hm, he⟩
        · exact .inl ⟨t, ht, hm, he⟩
        · exact .inr ⟨List.mem_singleton.mp hm, he.symm⟩
      · rintro (⟨t, ht, hm, he⟩ | ⟨rfl, rfl⟩)
        · exact ⟨t, .inl ht, hm, he⟩
        · exact ⟨_, .inr rfl, List.mem_singleton.mpr rfl, rfl⟩

/-- One more expression for one peer. -/
theorem Inv.entry_subscribe (h : Inv z k) {r : Ref} {σ : Session} (hr : k.session r = some σ)
    (e : CStr) :
    (k.subscribe z r e).entry = Function.update k.entry σ.routingId (some
      { name := σ.identifier.getD .empty
        subscriptions := if (policy z).compiles e then insert e (k.subscriptions r)
          else k.subscriptions r }) := by
  funext c
  have hsubs : ∀ r', (k.subscribe z r e).subscriptions r' =
      if r' = r ∧ (policy z).compiles e then insert e (k.subscriptions r')
      else k.subscriptions r' := by
    intro r'
    ext e'
    rw [h.mem_subscriptions_subscribe]
    by_cases h₁ : r' = r <;> by_cases h₂ : (z.zrexNew e).isSome = true <;>
      simp [policy, h₁, h₂, or_comm]
  by_cases hc : c = σ.routingId
  · subst hc
    have := (h.subscribe hr e).entry_session (r := r) (σ := σ) hr
    rw [Function.update_self, this, hsubs r]
    simp
  · rw [Function.update_of_ne hc]
    simp only [Core.entry]
    show (k.clients (zframeStrhex c)).bind _ = _
    cases hr' : k.clients (zframeStrhex c) with
    | none => rfl
    | some r' =>
      have hne := h.address_ne hr hr' hc
      simp only [Option.bind_some, hsubs r', if_neg (fun hx : r' = r ∧ _ => hne hx.1)]
      rfl

/-! ## How often a publication is handed on -/

/-- The clients to be visited, without the positions of the patterns they are visited for. -/
theorem targets_clients (z : Czmq) (k : Core) (r : Ref) (a : CStr) :
    (k.targets z r a).map Prod.snd =
      k.topics.flatMap fun t => if z.zrexMatches t.rex a then t.clients.filter (· ≠ r) else [] := by
  have hone : ∀ i t, (topicTargets z r a i t).map Prod.snd =
      if z.zrexMatches t.rex a then t.clients.filter (· ≠ r) else [] := by
    intro i t
    unfold topicTargets
    split <;> simp [Function.comp_def]
  rw [Core.targets, List.map_flatten, List.flatMap]
  congr 1
  refine List.ext_getElem? fun j => ?_
  simp only [List.getElem?_map, List.getElem?_mapIdx, Option.map_map, Function.comp_def, hone]

/-- **A client is visited once for each of its subscriptions that match.** The count over the lists is a
sum over patterns of 0 or 1, since a client is on each list at most once; and it is the size of a set,
since no two patterns have one expression. -/
theorem Inv.count_targets (h : Inv z k) {r r' : Ref} (hne : r' ≠ r) (a : CStr) :
    ((k.targets z r a).map Prod.snd).count r' = ((k.subscriptions r').filter (z.matches · a)).card := by
  -- in both, a topic counts once if it matches and the client is on its list
  let counts : Topic → Bool := fun t => z.zrexMatches t.rex a && decide (r' ∈ t.clients)
  have hleft : ((k.targets z r a).map Prod.snd).count r' = (k.topics.filter counts).length := by
    rw [targets_clients, List.count_flatMap]
    have : ∀ topics : List Topic, (∀ t ∈ topics, t.clients.Nodup) →
        (topics.map (List.count r' ∘ fun t =>
          if z.zrexMatches t.rex a then t.clients.filter (· ≠ r) else [])).sum =
          (topics.filter counts).length := by
      intro topics honce
      induction topics with
      | nil => rfl
      | cons t topics ih =>
        rw [List.map_cons, List.sum_cons, ih fun t' ht' => honce t' (List.mem_cons_of_mem _ ht')]
        have hcount : (List.count r' ∘ fun t : Topic =>
            if z.zrexMatches t.rex a then t.clients.filter (· ≠ r) else []) t =
            if counts t then 1 else 0 := by
          have hfilter : (t.clients.filter (· ≠ r)).count r' = t.clients.count r' :=
            List.count_filter (by simpa using hne)
          have hnodup := honce t List.mem_cons_self
          by_cases hm : z.zrexMatches t.rex a = true
          · by_cases hr' : r' ∈ t.clients
            · simp only [Function.comp, hm, if_true, hfilter, counts, hr', decide_true,
                Bool.and_self]
              exact List.count_eq_one_of_mem hnodup hr'
            · simp only [Function.comp, hm, if_true, hfilter, counts, hr', decide_false,
                Bool.and_false, Bool.false_eq_true, if_false]
              exact List.count_eq_zero_of_not_mem hr'
          · simp [Function.comp, hm, counts]
        rw [hcount, List.filter_cons]
        by_cases hct : counts t = true <;> simp [hct, Nat.add_comm]
    exact this k.topics h.once
  have hright : (k.subscriptions r').filter (z.matches · a) =
      ((k.topics.filter counts).map Topic.expression).toFinset := by
    ext e
    simp only [Finset.mem_filter, Core.mem_subscriptions, List.mem_toFinset, List.mem_map,
      List.mem_filter, counts, Bool.and_eq_true, decide_eq_true_eq]
    have hmatch : ∀ t ∈ k.topics, z.matches t.expression a = z.zrexMatches t.rex a := by
      intro t ht
      simp [Czmq.matches, h.compiled t ht]
    constructor
    · rintro ⟨⟨t, ht, hr, rfl⟩, hm⟩
      exact ⟨t, ⟨ht, by rw [← hmatch t ht]; exact hm, hr⟩, rfl⟩
    · rintro ⟨t, ⟨ht, hm, hr⟩, rfl⟩
      exact ⟨⟨t, ht, hr, rfl⟩, by rw [hmatch t ht]; exact hm⟩
  rw [hleft, hright, List.toFinset_card_of_nodup, List.length_map]
  exact h.distinct.sublist (List.filter_sublist.map _)

/-- What the visits of a publication send to one peer: copies of one DELIVER, as many as the abstract
broker tells it. All copies are equal, so that counting them is all there is to do. -/
theorem Inv.sentIn_visits (h : Inv z k) {r : Ref} {σ : Session} (hr : k.session r = some σ)
    {m : Relay} {visits : List Visit}
    (hv : visits.map (fun v => (v.position, v.client)) = k.targets z r m.address) (c : Frame) :
    sentIn c (visits.flatMap (Visit.trace z k m)) =
      if c = σ.routingId then []
      else List.replicate ((k.entry c).elim 0 (·.copies (policy z) m.address)) (m.deliver z c) := by
  have hcl : visits.map Visit.client = (k.targets z r m.address).map Prod.snd := by
    rw [← hv, List.map_map]
    rfl
  -- what is sent is one copy for each visit of a client with this routing id
  have hsent : ∀ vs : List Visit, sentIn c (vs.flatMap (Visit.trace z k m)) =
      List.replicate ((vs.map Visit.client).countP (k.routingId · = c)) (m.deliver z c) := by
    intro vs
    induction vs with
    | nil => rfl
    | cons v vs ih =>
      rw [List.flatMap_cons, sentIn_append, ih, sentIn_visit, List.map_cons, List.countP_cons]
      by_cases hc : k.routingId v.client = c <;>
        simp [hc, List.replicate_succ]
  rw [hsent, hcl]
  -- every target is a session other than the publisher's
  have htarget : ∀ d ∈ (k.targets z r m.address).map Prod.snd,
      d ≠ r ∧ ∃ σ', k.session d = some σ' := by
    intro d hd
    rw [targets_clients, List.mem_flatMap] at hd
    obtain ⟨t, ht, hd⟩ := hd
    split at hd
    · obtain ⟨hd, hne⟩ := List.mem_filter.mp hd
      exact ⟨by simpa using hne, h.live t ht d hd⟩
    · exact absurd hd (by simp)
  have hrouting : ∀ d σ', k.session d = some σ' → k.routingId d = σ'.routingId := by
    intro d σ' hd
    simp only [Core.routingId, hd]
  by_cases hc : c = σ.routingId
  · rw [if_pos hc]
    have : ((k.targets z r m.address).map Prod.snd).countP (k.routingId · = c) = 0 := by
      rw [List.countP_eq_zero]
      intro d hd
      obtain ⟨hne, σ', hσ'⟩ := htarget d hd
      have : k.routingId d ≠ c := by
        rw [hrouting d σ' hσ', hc]
        exact fun he => hne ((h.routingId_eq_iff hσ' hr).mp he)
      simpa using this
    rw [this]
    rfl
  · rw [if_neg hc]
    congr 1
    cases hentry : k.entry c with
    | none =>
      rw [List.countP_eq_zero.mpr]
      · rfl
      intro d hd
      obtain ⟨-, σ', hσ'⟩ := htarget d hd
      have : k.routingId d ≠ c := by
        rw [hrouting d σ' hσ']
        rintro rfl
        rw [h.entry_session hσ'] at hentry
        exact absurd hentry (by simp)
      simpa using this
    | some mem =>
      obtain ⟨rc, σc, hσc, hrc, -, -, hsubs⟩ := h.session_of_entry hentry
      have hne : rc ≠ r := by
        rintro rfl
        rw [hr, Option.some.injEq] at hσc
        exact hc (by rw [← hrc, hσc])
      have hcount : ((k.targets z r m.address).map Prod.snd).countP (k.routingId · = c) =
          ((k.targets z r m.address).map Prod.snd).count rc := by
        rw [List.count, List.countP_congr]
        intro d hd
        obtain ⟨-, σ', hσ'⟩ := htarget d hd
        have : k.routingId d = c ↔ d = rc := by
          rw [hrouting d σ' hσ', ← hrc]
          exact h.routingId_eq_iff hσ' hσc
        simp [this]
      rw [hcount, h.count_targets hne]
      simp only [Option.elim, PubSub.Member.copies, hsubs, policy]

/-! ## The refinement -/

/-- What the external state answers is what the abstract broker answers, to a peer without a
session. -/
theorem externalReply_unknown {m : ZccpMsg} (hid : m.id ≠ .hello) (c : Frame) :
    (externalReply (sProtocolEvent m)).map (fun id => plainReply id c) =
      (PubSub.answer none m.request).map (replyMsg z c) := by
  unfold sProtocolEvent ZccpMsg.request
  cases h : m.id <;> first | exact absurd h hid | rfl

/-- And to one with a session, except that the three expected types do not get there. -/
theorem externalReply_known {m : ZccpMsg} (hid : ¬ MsgId.Expected m.id) (c : Frame)
    (mem : PubSub.Member CStr CStr) :
    (externalReply (sProtocolEvent m)).map (fun id => plainReply id c) =
      (PubSub.answer (some mem) m.request).map (replyMsg z c) := by
  unfold sProtocolEvent ZccpMsg.request
  unfold MsgId.Expected at hid
  cases h : m.id <;> first | rfl | exact absurd (by simp [h]) hid

/-- A peer without a session has none after anything but a HELLO. -/
theorem settle_unknown {m : ZccpMsg} (hid : m.id ≠ .hello) :
    PubSub.settle (policy z) none m.request = none := by
  unfold ZccpMsg.request
  cases h : m.id <;> first | exact absurd h hid | rfl

/-- One with a session has none after anything unexpected. -/
theorem settle_known {m : ZccpMsg} (hid : ¬ MsgId.Expected m.id) (mem : PubSub.Member CStr CStr) :
    PubSub.settle (policy z) (some mem) m.request = none := by
  unfold ZccpMsg.request
  unfold MsgId.Expected at hid
  cases h : m.id <;> first | rfl | exact absurd (by simp [h]) hid

/-- A request that ends a session, or finds none, is told to nobody else. -/
theorem relayed_external {m : ZccpMsg} (hid : ¬ m.id = .publish)
    (a b : Option (PubSub.Member CStr CStr)) :
    PubSub.relayed (policy z) a b m.request = [] := by
  unfold ZccpMsg.request
  cases h : m.id <;> first | exact absurd h hid | rfl

/-- Replies go to the peer they are for. -/
theorem sentIn_replies (c routingId : Frame) (ids : List MsgId) :
    sentIn c (ids.map fun id => sent routingId (plainReply id routingId)) =
      if c = routingId then ids.map fun id => plainReply id c else [] := by
  induction ids with
  | nil => simp
  | cons id ids ih =>
    rw [List.map_cons, sentIn_sent_cons, ih]
    by_cases h : routingId = c
    · subst h
      simp
    · simp [h, Ne.symm h]

/-- **One step.** A transition does to the directory, and sends to every peer, what the event it
stands for does. -/
theorem Transition.refines {k' : Core} {input : Input} {t : List Obs}
    (h : Transition z k input k' t) (hi : Inv z k) :
    k'.entry = PubSub.step (policy z) k.entry input.event ∧
      ∀ c, sentIn c t = (PubSub.out (policy z) c k.entry input.event).map (replyMsg z c) := by
  have htouched : ∀ {r : Ref} {σ : Session} {msg : ZccpMsg},
      (k.touch r σ msg).session r = some (k.touched σ msg) := Function.update_self ..
  cases h with
  | hello routingId frames m msg identifier patterns decoded hmsg id hidentifier unknown =>
    have hreq : m.request = .hello identifier := by simp [ZccpMsg.request, id, hidentifier]
    have hnone : k.entry routingId = none := hi.entry_none_iff.mpr unknown
    simp only [Input.event, decoded, hreq, PubSub.step, PubSub.out, hnone]
    refine ⟨hi.entry_enrol identifier msg, fun c => ?_⟩
    by_cases hc : c = routingId
    · subst hc
      simp [PubSub.answer, replyMsg]
    · simp [hc, Ne.symm hc, PubSub.relayed]
  | refuse routingId frames m msg patterns patterns' decoded hmsg id unknown =>
    have hnone : k.entry routingId = none := hi.entry_none_iff.mpr unknown
    have hsettle : PubSub.settle (policy z) (k.entry routingId) m.request = k.entry routingId := by
      rw [hnone, settle_unknown id]
    -- a message that is refused settles nothing
    simp only [Input.event, decoded, PubSub.step, PubSub.out, hsettle, Function.update_eq_self]
    refine ⟨entry_refuse k, fun c => ?_⟩
    have hsent := externalReply_unknown (z := z) id c
    simp only [sentIn_append, sentIn_take_cons, sentIn_before, sentIn_replies, sentIn_destroy_cons,
      sentIn_leave_cons, sentIn_nil, List.append_nil, List.nil_append, hsent]
    by_cases hc : c = routingId
    · rw [if_pos hc, if_pos hc, hnone]
    · rw [if_neg hc, if_neg hc, hnone]
      cases m.request <;> rfl
  | subscribe routingId frames m msg r σ expression patterns patterns' decoded hmsg id hexpression
      session peer =>
    subst peer
    have hreq : m.request = .subscribe expression := by simp [ZccpMsg.request, id, hexpression]
    have hentry := hi.entry_session session
    have hentry' := (hi.touch session msg).entry_subscribe htouched expression
    rw [entry_touch session] at hentry'
    simp only [Input.event, decoded, hreq, PubSub.step, PubSub.out, hentry]
    refine ⟨hentry', fun c => ?_⟩
    by_cases hc : c = σ.routingId
    · subst hc
      simp [PubSub.answer, replyMsg]
    · simp [hc, Ne.symm hc, PubSub.relayed]
  | publish routingId frames m msg r σ relay visits patterns patterns' decoded hmsg id session peer
      hsender haddress hcontent hheaders hvisits =>
    subst peer
    have hreq : m.request = .publish relay.address relay.content := by
      simp [ZccpMsg.request, id, haddress, hcontent]
    have hentry : k.entry σ.routingId =
        some { name := relay.sender, subscriptions := k.subscriptions r } := by
      rw [hi.entry_session session, hsender]
      rfl
    have hsettle : PubSub.settle (policy z) (k.entry σ.routingId) m.request =
        k.entry σ.routingId := by rw [hentry, hreq]; rfl
    rw [hreq] at hsettle
    simp only [Input.event, decoded, hreq, PubSub.step, PubSub.out, hsettle,
      Function.update_eq_self]
    refine ⟨by rw [entry_point, entry_touch session], fun c => ?_⟩
    simp only [sentIn_append, sentIn_take_cons, sentIn_before, sentIn_after, sentIn_nil,
      List.append_nil, List.nil_append, hi.sentIn_visits session hvisits c]
    by_cases hc : c = σ.routingId
    · rw [if_pos hc, if_pos hc, hentry]
      rfl
    · rw [if_neg hc, if_neg hc, hentry]
      cases k.entry c with
      | none => rfl
      | some mem =>
        -- the headers of the relay are none, and so are those of the reply
        have : relay.deliver z c = replyMsg z c (.deliver relay.sender relay.address relay.content) := by
          simp only [replyMsg, Relay.deliver, hheaders]
        simp only [Option.elim, PubSub.relayed, List.map_replicate, this]
  | direct routingId frames m msg r σ patterns decoded hmsg id session peer =>
    subst peer
    have hreq : m.request = .direct := by simp [ZccpMsg.request, id]
    have hentry := hi.entry_session session
    have hsettle : PubSub.settle (policy z) (k.entry σ.routingId) m.request =
        k.entry σ.routingId := by rw [hentry, hreq]; rfl
    rw [hreq] at hsettle
    simp only [Input.event, decoded, hreq, PubSub.step, PubSub.out, hsettle,
      Function.update_eq_self]
    refine ⟨entry_touch session msg, fun c => ?_⟩
    by_cases hc : c = σ.routingId <;> simp [hc, hentry, PubSub.answer, PubSub.relayed]
  | close routingId frames m msg r σ patterns patterns' decoded hmsg id session peer =>
    subst peer
    have hentry := hi.entry_session session
    have hentry' := (hi.touch session msg).entry_drop htouched
    rw [entry_touch session] at hentry'
    have hsettle : PubSub.settle (policy z) (k.entry σ.routingId) m.request = none := by
      rw [hentry, settle_known id]
    simp only [Input.event, decoded, PubSub.step, PubSub.out, hsettle]
    refine ⟨hentry', fun c => ?_⟩
    -- the peer alone is answered, since an unexpected message is no publication
    have hsent := externalReply_known (z := z) id c
    simp only [sentIn_append, sentIn_take_cons, sentIn_before, sentIn_replies, sentIn_destroy_cons,
      sentIn_leave_cons, sentIn_nil, List.append_nil, List.nil_append]
    by_cases hc : c = σ.routingId
    · rw [if_pos hc, if_pos hc, hentry, hsent]
    · have hpub : ¬ m.id = .publish := fun hp => id (.inr (.inl hp))
      rw [if_neg hc, if_neg hc, relayed_external hpub]
      rfl
  | expire routingId r σ patterns patterns' session peer =>
    subst peer
    refine ⟨hi.entry_drop session, fun c => ?_⟩
    simp [Input.event, PubSub.out]
  | nothing routingId unknown =>
    have hnone : k.entry routingId = none := hi.entry_none_iff.mpr unknown
    refine ⟨?_, fun c => by simp [Input.event, PubSub.out]⟩
    simp only [Input.event, PubSub.step, ← hnone, Function.update_eq_self]

/-- A server and the directory that it implements. -/
structure Implements (z : Czmq) (s : Server) (d : PubSub.Directory Frame CStr CStr) : Prop where
  inv : Inv z s.core
  entry : s.core.entry = d

/-- At the start there is nobody. -/
theorem Implements.new (z : Czmq) (verbose : Bool) :
    Implements z (.new verbose) PubSub.Directory.empty :=
  ⟨.new z verbose, rfl⟩

/-- A callback that returns 0 is a step of the reactor. -/
theorem step_of_handle {s s' : Server} {input : Input} (h : handle z input s = some (s', 0)) :
    step z s input = some s' := by
  simp only [step, h, Option.bind_eq_bind, Option.bind_some, if_true]

/-- One input, from a server that implements a directory. -/
theorem step_refines {s : Server} {d : PubSub.Directory Frame CStr CStr} {input : Input}
    (h : Implements z s d) (hd : input.Decodable) :
    ∃ s', step z s input = some s' ∧ Implements z s' (PubSub.step (policy z) d input.event) ∧
      ∀ c, s'.sentTo c =
        s.sentTo c ++ (PubSub.out (policy z) c d input.event).map (replyMsg z c) := by
  obtain ⟨s', t, hs', htrans, htrace⟩ := handle_spec h.inv hd
  obtain ⟨hentry, hsent⟩ := htrans.refines h.inv
  rw [h.entry] at hentry hsent
  refine ⟨s', step_of_handle hs', ⟨htrans.inv h.inv, hentry⟩, fun c => ?_⟩
  rw [Server.sentTo, htrace, sentIn_append, hsent]
  rfl

/-- The directory after a run. -/
def directory (z : Czmq) (inputs : List Input) : PubSub.Directory Frame CStr CStr :=
  (inputs.map Input.event).foldl (PubSub.step (policy z)) PubSub.Directory.empty

/-- What a peer is told in a run. -/
def told (z : Czmq) (c : Frame) (inputs : List Input) :
    List (PubSub.Reply CStr CStr (Option (List Frame))) :=
  outputs (PubSub.step (policy z)) (PubSub.out (policy z)) c PubSub.Directory.empty
    (inputs.map Input.event)

/-- **The refinement, for runs.** The broker gets through every run of decodable inputs, it
implements the directory the abstract broker has after it, and every peer has been sent what the
abstract broker tells it. -/
theorem run_refines (z : Czmq) (verbose : Bool) {inputs : List Input}
    (hd : ∀ i ∈ inputs, i.Decodable) :
    ∃ s, run z verbose inputs = some s ∧ Implements z s (directory z inputs) ∧
      ∀ c, s.sentTo c = (told z c inputs).map (replyMsg z c) := by
  obtain ⟨s, hs, himpl, hsent⟩ := runFrom_refines (step z)
    (fun d i => PubSub.step (policy z) d (Input.event i))
    (fun c d i => (PubSub.out (policy z) c d (Input.event i)).map (replyMsg z c))
    Server.sentTo (Implements z) Input.Decodable
    (fun s d i h hi => step_refines h hi) (Implements.new z verbose) hd
  refine ⟨s, hs, ?_, fun c => ?_⟩
  · rw [directory, List.foldl_map]
    exact himpl
  · rw [hsent c, told, ← outputs_map, outputs_mapOut]
    rfl

end Broker

end Zccp
