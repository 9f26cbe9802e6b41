import Zccp.Broker.Runs
import Zccp.Msg.RoundTrip

/-!
# `Zccp/Broker/Sessions.lean` — sessions, from the inside and from the outside

Two views of the same thing. From the inside a session is an entry in the table, an address that
pattern lists and timers refer to: `store_invariant` says that between two callbacks all of these
are in order, in terms of the server's own data. From the outside it is a conversation:
`session_protocol` says which messages a peer is sent in any run, and how each of its own
messages is answered.

The conversation is the abstract broker's (`PubSub.told_outputs`); what is left to do here is to
say it of message ids.
-/

set_option autoImplicit false

namespace Zccp.Broker

open Lib CursorList

variable {z : Czmq} {verbose : Bool}

/-! ## From the inside -/

/-- A client the table leads to, as it is between two callbacks. -/
structure Resident (z : Czmq) (verbose : Bool) (inputs : List Input) (s : Server) (r : Ref)
    (c : SClient) : Prop where
  heap : s.heap r = some c
  listed : s.clients (zframeStrhex c.routingId) = some r
  connected : c.state = .connected
  mailbox : c.mailbox = .empty
  /-- Its identifier is the one of the HELLO that opened the session. -/
  named : ∃ name, c.identifier = some name ∧ OpenedBy z verbose inputs c.routingId name

/-- **The store is in order.** In a reachable server

* every client reference on a pattern's list is the address of a resident of the table;
* no client is on one list twice;
* no two patterns have the same expression;
* every entry of the table is a resident, under the key of its own routing id. -/
structure StoreInvariant (z : Czmq) (verbose : Bool) (inputs : List Input) (s : Server) : Prop where
  live : ∀ p ∈ s.patterns.items, ∀ r ∈ p.clients.items, ∃ c, Resident z verbose inputs s r c
  once : ∀ p ∈ s.patterns.items, p.clients.items.Nodup
  distinct : (s.patterns.items.map Pattern.expression).Nodup
  table : ∀ key r, s.clients key = some r →
    ∃ c, Resident z verbose inputs s r c ∧ key = zframeStrhex c.routingId

/-- A session that there is between two inputs is listed under its routing id, waits in `connected`, and has
the name of the HELLO that opened it. -/
theorem resident_of_session {inputs : List Input} {s : Server} (hs : run z verbose inputs = some s)
    {r : Ref} {σ : Session} (hr : s.core.session r = some σ) :
    ∃ c, Resident z verbose inputs s r c ∧ c.toSession = σ := by
  have himpl := implements_of_run hs
  obtain ⟨c, hc, rfl⟩ := Server.heap_of_session hr
  have hidle := himpl.inv.idle r _ hr
  obtain ⟨name, hname⟩ := hidle.named
  have hentry := himpl.inv.entry_session hr
  rw [himpl.entry, hname] at hentry
  refine ⟨c, ?_, rfl⟩
  constructor
  case heap => exact hc
  case listed => exact himpl.inv.clients_of_session hr
  case connected => exact hidle.connected
  case mailbox => exact hidle.mailbox
  case named => exact ⟨name, hname, (openedBy_iff (decodable_of_run hs) hentry name).mpr rfl⟩

theorem storeInvariant_of_run {inputs : List Input} {s : Server}
    (hs : run z verbose inputs = some s) : StoreInvariant z verbose inputs s := by
  have hinv := (implements_of_run hs).inv
  have htopic : ∀ p ∈ s.patterns.items, p.topic ∈ s.core.topics :=
    fun p hp => List.mem_map_of_mem hp
  constructor
  case live =>
    intro p hp r hr
    obtain ⟨σ, hσ⟩ := hinv.live p.topic (htopic p hp) r hr
    obtain ⟨c, hc, -⟩ := resident_of_session hs hσ
    exact ⟨c, hc⟩
  case once => exact fun p hp => hinv.once p.topic (htopic p hp)
  case distinct => exact hinv.nodup_expressions
  case table =>
    intro key r hr
    obtain ⟨σ, hσ, hkey⟩ := hinv.table key r hr
    obtain ⟨c, hc, rfl⟩ := resident_of_session hs hσ
    refine ⟨c, hc, ?_⟩
    rw [← hkey, (hinv.idle r _ hσ).key]

/-- **The store invariant.** Every sequence of decodable inputs leads to a server whose store is in
order, and a session that the last input has ended, however it ended, has been freed and is on no
pattern's list any more. -/
theorem store_invariant (z : Czmq) (verbose : Bool) (inputs : List Input)
    (hd : ∀ i ∈ inputs, i.Decodable) :
    ∃ s, run z verbose inputs = some s ∧ StoreInvariant z verbose inputs s ∧
      ∀ input s', step z s input = some s' →
        ∀ key r, s.clients key = some r → s'.clients key ≠ some r →
          s'.heap r = none ∧ ∀ p ∈ s'.patterns.items, r ∉ p.clients.items := by
  obtain ⟨s, hs, -, -⟩ := run_refines z verbose hd
  refine ⟨s, hs, storeInvariant_of_run hs, ?_⟩
  intro input s' hs' key r hr hgone
  have hrun' : run z verbose (inputs ++ [input]) = some s' := by
    rw [run_append_singleton, hs, Option.bind_some, hs']
  have hinv := (implements_of_run hs).inv
  have hinv' := (implements_of_run hrun').inv
  -- the address was a session's, and if it still were one's, it would be the same peer's
  obtain ⟨σ, hσ, hkey⟩ := hinv.table key r hr
  have hnone : s'.core.session r = none := by
    cases hσ' : s'.core.session r with
    | none => rfl
    | some σ' =>
      obtain ⟨t, htrans⟩ := transition_of_step hinv hs'
      have hsame := htrans.hashkey_eq hinv hσ hσ'
      rw [← hkey, ← hsame] at hgone
      exact absurd (hinv'.listed r σ' hσ') hgone
  refine ⟨?_, fun p hp hmem => ?_⟩
  · cases hc : s'.heap r with
    | none => rfl
    | some c => rw [Server.session_of_heap hc] at hnone; cases hnone
  · obtain ⟨σ', hσ'⟩ := hinv'.live p.topic (List.mem_map_of_mem hp) r hmem
    rw [hnone] at hσ'
    cases hσ'

/-- Two peers share a pattern. -/
theorem store_invariant_two_peers :
    let name := CStr.ofBytes [65]
    let inputs : List Input := [.message [1] (wire (.hello name)), .message [2] (wire (.hello name)),
      .message [1] (wire (.subscribe name)), .message [2] (wire (.subscribe name))]
    ∃ s, run .literal false inputs = some s ∧ StoreInvariant .literal false inputs s ∧
      ∀ input s', step .literal s input = some s' →
        ∀ key r, s.clients key = some r → s'.clients key ≠ some r →
          s'.heap r = none ∧ ∀ p ∈ s'.patterns.items, r ∉ p.clients.items := by
  intro name inputs
  have hhello := zccpMsgDecode_wire (m := .hello name) (by decide) (fits_hello (by decide))
  have hsub := zccpMsgDecode_wire (m := .subscribe name) (by decide) (fits_subscribe (by decide))
  apply store_invariant
  simp only [inputs, List.forall_mem_cons, List.not_mem_nil, false_implies, implies_true, and_true]
  exact ⟨⟨_, hhello⟩, ⟨_, hhello⟩, ⟨_, hsub⟩, ⟨_, hsub⟩⟩

/-! ## From the outside -/

/-- The messages a peer is sent between HELLO_OK and the end of its session. -/
structure Talk (l : List MsgId) : Prop where
  only : ∀ id ∈ l, id = .subscribeOk ∨ id = .deliver
  /-- No DELIVER precedes the first SUBSCRIBE_OK. -/
  after : ∀ pre post, l = pre ++ .deliver :: post → .subscribeOk ∈ pre

/-- What a session ends with. -/
def endingIds : PubSub.Ending → List MsgId
  | .invalid => [.invalid]
  | .goodbye => [.goodbyeOk]
  | .expired => []

/-- What a peer is sent in a whole session, with how it ended; or without one. -/
inductive SessionTrace : PubSub.Ending → List MsgId → Prop
  | invalid : SessionTrace .invalid [.invalid]
  | goodbye : SessionTrace .goodbye [.goodbyeOk]
  | session {l : List MsgId} (talk : Talk l) (ending : PubSub.Ending) :
      SessionTrace ending (.helloOk :: l ++ endingIds ending)

/-- What a peer has been sent in all its sessions, the last of which may still be open. -/
def SessionTraces (z : Czmq) (verbose : Bool) (inputs : List Input) (c : Frame)
    (ids : List MsgId) : Prop :=
  ∃ (sessions : List (PubSub.Ending × List MsgId)) (last : List MsgId),
    ids = (sessions.map Prod.snd).flatten ++ last ∧ (∀ x ∈ sessions, SessionTrace x.1 x.2) ∧
    (sessions.filter (·.1 = .expired)).length ≤ (inputs.filter (· = .expiry c)).length ∧
    if HasSession z verbose inputs c then ∃ talk, last = .helloOk :: talk ∧ Talk talk
    else last = []

/-- How a peer is answered: in a session, and without one. -/
def answerIds : Bool → MsgId → List MsgId
  | true, .subscribe => [.subscribeOk]
  | true, .publish | true, .direct => []
  | true, .goodbye => [.goodbyeOk]
  | true, _ => [.invalid]
  | false, .hello => [.helloOk]
  | false, .goodbye => [.goodbyeOk]
  | false, _ => [.invalid]

/-- Whether the peer has a session then. -/
def remains : Bool → MsgId → Bool
  | true, .subscribe | true, .publish | true, .direct => true
  | true, _ => false
  | false, .hello => true
  | false, _ => false

/-- What one input means to a peer: which messages it is sent, and whether it has a session before
and after. Its own messages are answered; from those of others it gets nothing but DELIVERs of
PUBLISHes. -/
def Exchange (c : Frame) (session : Bool) (input : Input) (sent : List MsgId)
    (session' : Bool) : Prop :=
  match input with
  | .message p frames => ∃ m, zccpMsgDecode frames = .ok m ∧
    if p = c then sent = answerIds session m.id ∧ session' = remains session m.id
    else (∀ id ∈ sent, id = .deliver ∧ m.id = .publish) ∧ session' = session
  | .expiry p => sent = [] ∧ session' = (session && decide (p ≠ c))

theorem map_replyMsg_id (z : Czmq) (c : Frame)
    (l : List (PubSub.Reply CStr CStr (Option (List Frame)))) :
    ((l.map (replyMsg z c)).map (·.id)) = l.map replyId := by
  rw [List.map_map]
  exact List.map_congr_left fun r _ => replyMsg_id z c r

theorem endingIds_eq (e : PubSub.Ending) :
    (e.replies : List (PubSub.Reply CStr CStr (Option (List Frame)))).map replyId =
      endingIds e := by
  cases e <;> rfl

theorem talk_ids {l : List (PubSub.Reply CStr CStr (Option (List Frame)))} (h : PubSub.Talk l) :
    Talk (l.map replyId) where
  only := by
    intro id hid
    obtain ⟨r, hr, rfl⟩ := List.mem_map.mp hid
    rcases h.only r hr with rfl | hd
    · exact .inl rfl
    · cases r with
      | deliver => exact .inr rfl
      | _ => exact absurd hd (by simp [PubSub.Reply.IsDeliver])
  after := by
    intro pre post heq
    obtain ⟨pre', rest, rfl, rfl, hrest⟩ := List.map_eq_append_iff.mp heq
    obtain ⟨r, post', rfl, hr, rfl⟩ := List.map_eq_cons_iff.mp hrest
    have hd : r.IsDeliver := by
      cases r with
      | deliver => trivial
      | _ => simp [replyId] at hr
    exact List.mem_map.mpr ⟨_, h.after pre' r post' rfl hd, rfl⟩

theorem sessionTrace_ids {e : PubSub.Ending}
    {l : List (PubSub.Reply CStr CStr (Option (List Frame)))} (h : PubSub.Session e l) :
    SessionTrace e (l.map replyId) := by
  cases h with
  | invalid => exact .invalid
  | goodbye => exact .goodbye
  | session talk e =>
    have := SessionTrace.session (talk_ids talk) e
    simpa [endingIds_eq, replyId] using this

theorem isExpiryOf_event (c : Frame) (input : Input) :
    input.event.isExpiryOf c = decide (input = .expiry c) := by
  cases input with
  | expiry p => simp [Input.event, PubSub.Event.isExpiryOf]
  | message p frames =>
    simp only [Input.event]
    split <;> simp [PubSub.Event.isExpiryOf]

/-- What a peer is told splits into its sessions because the abstract broker's replies do
(`PubSub.told_outputs`): the messages sent are those replies under their ids. -/
theorem sessionTraces_of_run {inputs : List Input} {s : Server}
    (hs : run z verbose inputs = some s) (c : Frame) :
    SessionTraces z verbose inputs c ((s.sentTo c).map (·.id)) := by
  have hd := decodable_of_run hs
  obtain ⟨s', hs', -, hsent⟩ := run_refines z verbose hd
  obtain rfl := Option.some.inj (hs.symm.trans hs')
  obtain ⟨sessions, last, ho, hall, hn, hu⟩ :=
    PubSub.told_outputs (policy z) c (inputs.map Input.event)
  refine ⟨sessions.map fun x => (x.1, x.2.map replyId), last.map replyId, ?_, ?_, ?_, ?_⟩
  · rw [hsent, map_replyMsg_id, told, ho]
    simp [List.map_flatten, Function.comp_def]
  · intro x hx
    obtain ⟨y, hy, rfl⟩ := List.mem_map.mp hx
    exact sessionTrace_ids (hall y hy)
  · have hexpired : (inputs.map Input.event).filter (·.isExpiryOf c) =
        (inputs.filter (· = .expiry c)).map Input.event := by
      rw [List.filter_map]
      congr 1
      exact List.filter_congr fun i _ => isExpiryOf_event c i
    rw [hexpired, List.length_map] at hn
    rw [List.filter_map, List.length_map]
    exact hn
  · change PubSub.Underway (directory z inputs c) last at hu
    cases hdir : directory z inputs c with
    | none =>
      rw [hdir] at hu
      have hlast : last = [] := hu
      rw [if_neg (by rw [hasSession_iff hd, hdir]; simp), hlast, List.map_nil]
    | some m =>
      rw [hdir] at hu
      obtain ⟨talk, rfl, htalk, -⟩ := hu
      rw [if_pos (by rw [hasSession_iff hd, hdir]; rfl)]
      exact ⟨talk.map replyId, rfl, talk_ids htalk⟩

theorem answer_ids (m : ZccpMsg) (d : Option (PubSub.Member CStr CStr)) :
    (PubSub.answer d m.request).map replyId = answerIds d.isSome m.id := by
  unfold ZccpMsg.request
  cases d <;> cases m.id <;> rfl

theorem settle_isSome (m : ZccpMsg) (d : Option (PubSub.Member CStr CStr)) :
    (PubSub.settle (policy z) d m.request).isSome = remains d.isSome m.id := by
  unfold ZccpMsg.request
  cases d <;> cases m.id <;> rfl

/-- To a peer that did not send it, a message can lead to DELIVERs only, and only a PUBLISH does. -/
theorem relayed_ids {m : ZccpMsg} {d d' : Option (PubSub.Member CStr CStr)} :
    ∀ id ∈ (PubSub.relayed (policy z) d d' m.request).map replyId,
      id = .deliver ∧ m.id = .publish := by
  intro id hid
  obtain ⟨r, hr, rfl⟩ := List.mem_map.mp hid
  unfold ZccpMsg.request at hr
  cases hm : m.id with
  | publish =>
    rw [hm] at hr
    cases d with
    | none => exact absurd hr (by simp [PubSub.relayed])
    | some a =>
      cases d' with
      | none => exact absurd hr (by simp [PubSub.relayed])
      | some b =>
        obtain rfl := List.eq_of_mem_replicate hr
        exact ⟨rfl, rfl⟩
  | _ =>
    rw [hm] at hr
    exact absurd hr (by simp [PubSub.relayed])

/-- **One input, as one peer sees it.** -/
theorem exchange_step {inputs : List Input} {input : Input} (hd : ∀ i ∈ inputs, i.Decodable)
    (hi : input.Decodable) (c : Frame) :
    ∃ s s' t, run z verbose inputs = some s ∧ step z s input = some s' ∧
      s'.trace = s.trace ++ t ∧
      Exchange c (decide (HasSession z verbose inputs c)) input ((sentIn c t).map (·.id))
        (decide (HasSession z verbose (inputs ++ [input]) c)) := by
  obtain ⟨s, s', t, hs, hs', -, -, htrace, hsent⟩ := run_step z verbose hd hi
  rw [run_append_singleton, hs] at hs'
  refine ⟨s, s', t, hs, hs', htrace, ?_⟩
  have hbefore : decide (HasSession z verbose inputs c) = (directory z inputs c).isSome := by
    rw [Bool.eq_iff_iff, decide_eq_true_iff, hasSession_iff hd]
  have hafter : decide (HasSession z verbose (inputs ++ [input]) c) =
      (PubSub.step (policy z) (directory z inputs) input.event c).isSome := by
    rw [Bool.eq_iff_iff, decide_eq_true_iff, hasSession_iff (by
      intro i hmem
      rcases List.mem_append.mp hmem with hmem | hmem
      · exact hd i hmem
      · rw [List.mem_singleton.mp hmem]
        exact hi), directory_append]
    rfl
  rw [hbefore, hafter, hsent, map_replyMsg_id]
  cases input with
  | expiry p =>
    refine ⟨rfl, ?_⟩
    by_cases hp : p = c
    · subst hp
      simp [Input.event, PubSub.step]
    · rw [PubSub.step_of_ne (policy z) (show c ≠ p from Ne.symm hp)]
      simp [hp]
  | message p frames =>
    obtain ⟨m, hm⟩ := hi
    refine ⟨m, hm, ?_⟩
    simp only [Input.event, hm, PubSub.out]
    by_cases hp : p = c
    · subst hp
      rw [if_pos rfl, if_pos rfl, answer_ids]
      refine ⟨rfl, ?_⟩
      rw [← settle_isSome (z := z)]
      simp [PubSub.step]
    · rw [if_neg hp, if_neg (Ne.symm hp)]
      refine ⟨relayed_ids, ?_⟩
      rw [PubSub.step_of_ne (policy z) (show c ≠ p from Ne.symm hp)]

/-- **The session protocol.** In every run of decodable inputs, what a peer is sent is a sequence of
session traces, and every input is an exchange with it. -/
theorem session_protocol (z : Czmq) (verbose : Bool) (inputs : List Input)
    (hd : ∀ i ∈ inputs, i.Decodable) (c : Frame) :
    (∃ s, run z verbose inputs = some s ∧
      SessionTraces z verbose inputs c ((s.sentTo c).map (·.id))) ∧
    ∀ pre input post, inputs = pre ++ input :: post →
      ∃ s s' t, run z verbose pre = some s ∧ step z s input = some s' ∧
        s'.trace = s.trace ++ t ∧
        Exchange c (decide (HasSession z verbose pre c)) input ((sentIn c t).map (·.id))
          (decide (HasSession z verbose (pre ++ [input]) c)) := by
  constructor
  · obtain ⟨s, hs, -, -⟩ := run_refines z verbose hd
    exact ⟨s, hs, sessionTraces_of_run hs c⟩
  · rintro pre input post rfl
    exact exchange_step (fun i hi => hd i (List.mem_append_left _ hi)) (hd input (by simp)) c

/-- A peer says HELLO twice. -/
theorem session_protocol_two_hellos :
    let name := CStr.ofBytes [65]
    let inputs : List Input := [.message [1] (wire (.hello name)), .message [1] (wire (.hello name))]
    (∃ s, run .literal false inputs = some s ∧
      SessionTraces .literal false inputs [1] ((s.sentTo [1]).map (·.id))) ∧
    ∀ pre input post, inputs = pre ++ input :: post →
      ∃ s s' t, run .literal false pre = some s ∧ step .literal s input = some s' ∧
        s'.trace = s.trace ++ t ∧
        Exchange [1] (decide (HasSession .literal false pre [1])) input ((sentIn [1] t).map (·.id))
          (decide (HasSession .literal false (pre ++ [input]) [1])) := by
  intro name inputs
  have hhello := zccpMsgDecode_wire (m := .hello name) (by decide) (fits_hello (by decide))
  apply session_protocol
  simp only [inputs, List.forall_mem_cons, List.not_mem_nil, false_implies, implies_true, and_true]
  exact ⟨⟨_, hhello⟩, ⟨_, hhello⟩⟩

end Zccp.Broker
