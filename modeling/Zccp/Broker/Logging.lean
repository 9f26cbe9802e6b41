import Zccp.Broker.Runs

/-!
# `Zccp/Broker/Logging.lean` — the names in the log

With verbose logging every pass of the state machine looks up its state and its event by number. The
states and the events that the engine raises itself have names; `terminate_event` has the number -1,
and it is also what `s_protocol_event` makes of a message that no client is supposed to send. So a
peer that sends one of those makes the broker read in front of the table (`in_table_iff`).
-/

set_option autoImplicit false

namespace Zccp.Broker

open Lib CursorList

variable {z : Czmq}

/-! ## The tables -/

/-- `s_state_name` -/
def sStateName : List String := ["(NONE)", "start", "connected", "external"]

/-- `s_event_name` -/
def sEventName : List String :=
  ["(NONE)", "HELLO", "SUBSCRIBE", "PUBLISH", "DIRECT", "forward", "GOODBYE", "expired"]

/-- If it is a lookup, its index is inside the table. -/
def Obs.InTable : Obs → Prop
  | .stateName index => 0 ≤ index ∧ index < sStateName.length
  | .eventName index => 0 ≤ index ∧ index < sEventName.length
  | _ => True

/-- All lookups are inside their tables. -/
def InTable (t : List Obs) : Prop := ∀ o ∈ t, o.InTable

/-- The types that `s_protocol_event` has a case for. -/
def MsgId.HasEvent (id : MsgId) : Prop :=
  id ∈ [MsgId.hello, MsgId.subscribe, MsgId.publish, MsgId.direct, MsgId.goodbye]

instance (id : MsgId) : Decidable (MsgId.HasEvent id) := inferInstanceAs (Decidable (_ ∈ _))

/-- An expiry, or a message of such a type. -/
def Input.HasEvent : Input → Prop
  | .message _ frames => ∃ m, zccpMsgDecode frames = .ok m ∧ MsgId.HasEvent m.id
  | .expiry _ => True

theorem hasEvent_message_iff {routingId : Frame} {frames : List Frame} {m : ZccpMsg}
    (hm : zccpMsgDecode frames = .ok m) :
    (Input.message routingId frames).HasEvent ↔ MsgId.HasEvent m.id := by
  constructor
  · rintro ⟨m', hm', hid⟩
    rwa [Except.ok.inj (hm.symm.trans hm')]
  · intro hid
    exact ⟨m, hm, hid⟩

theorem sProtocolEvent_eq_terminate_iff (m : ZccpMsg) :
    sProtocolEvent m = .terminate ↔ ¬ MsgId.HasEvent m.id := by
  unfold sProtocolEvent
  cases m.id <;> decide

/-! ## What is looked up -/

theorem State.code_inTable (state : State) : 0 ≤ state.code ∧ state.code < sStateName.length := by
  cases state <;> decide

/-- Every event has a name but one. -/
theorem Event.code_inTable_iff (event : Event) :
    (0 ≤ event.code ∧ event.code < sEventName.length) ↔ event ≠ .terminate := by
  cases event <;> decide

/-- **One input.** Its passes look up the state and the event on the way in, and the state on the way
out. The nested ones are all for `forward_event`, which has a name, so all depends on the event that
the input itself is. -/
theorem Transition.inTable_iff {k k' : Core} {input : Input} {t : List Obs}
    (h : Transition z k input k' t) (hverbose : k.verbose = true) : InTable t ↔ input.HasEvent := by
  rw [InTable]
  cases h <;> simp only [List.forall_mem_append, List.forall_mem_cons, List.not_mem_nil,
    false_implies, List.forall_mem_map, List.forall_mem_flatMap, forall_mem_before,
    forall_mem_after, Visit.forall_mem_trace, hverbose, true_implies, Obs.InTable, sent,
    State.code_inTable, Event.code_inTable_iff, implies_true, and_true, true_and]
  case hello decoded _ id _ _ =>
    rw [hasEvent_message_iff decoded, id]
    decide
  case refuse decoded _ _ _ =>
    rw [hasEvent_message_iff decoded, ne_eq, sProtocolEvent_eq_terminate_iff, not_not]
  case subscribe decoded _ id _ _ _ =>
    rw [hasEvent_message_iff decoded, id]
    decide
  case publish decoded _ id _ _ _ _ _ _ _ =>
    rw [hasEvent_message_iff decoded, id]
    exact iff_of_true ⟨by decide, fun _ _ => by decide⟩ (by decide)
  case direct decoded _ id _ _ =>
    rw [hasEvent_message_iff decoded, id]
    decide
  case close decoded _ _ _ _ =>
    rw [hasEvent_message_iff decoded, ne_eq, sProtocolEvent_eq_terminate_iff, not_not]
  case expire => exact iff_of_true (by decide) trivial
  case nothing => exact iff_of_true trivial trivial

/-! ## Over a run -/

theorem Transition.verbose_eq {k k' : Core} {input : Input} {t : List Obs}
    (h : Transition z k input k' t) : k'.verbose = k.verbose := by
  cases h <;> rfl

/-- Logging stays as it is, and the lookups of a run are those of its inputs. -/
theorem inTable_of_run {inputs : List Input} {s : Server} (hs : run z true inputs = some s) :
    s.core.verbose = true ∧ (InTable s.trace ↔ ∀ i ∈ inputs, i.HasEvent) := by
  induction inputs using List.reverseRecOn generalizing s with
  | nil =>
    obtain rfl := Option.some.inj hs
    exact ⟨rfl, iff_of_true (List.forall_mem_nil _) (List.forall_mem_nil _)⟩
  | append_singleton inputs i ih =>
    have hd := decodable_of_run hs
    obtain ⟨s₁, s₂, t, hs₁, hs₂, -, htrans, htrace, -⟩ := run_step z true
      (fun j hj => hd j (List.mem_append_left _ hj)) (hd i (by simp))
    obtain rfl := Option.some.inj (hs.symm.trans hs₂)
    obtain ⟨hverbose, hiff⟩ := ih hs₁
    refine ⟨htrans.verbose_eq.trans hverbose, ?_⟩
    rw [InTable, htrace, List.forall_mem_append, List.forall_mem_append, List.forall_mem_singleton]
    exact and_congr hiff (htrans.inTable_iff hverbose)

/-- **The lookups of verbose logging.** Those for one more message are inside the tables if and only if
the message is of a type that has an event; and those of a whole run, if and only if all its
messages are. -/
theorem in_table_iff {inputs : List Input} {s : Server} (hs : run z true inputs = some s)
    (routingId : Frame) {frames : List Frame} {m : ZccpMsg} (hm : zccpMsgDecode frames = .ok m) :
    (∃ s' t, step z s (.message routingId frames) = some s' ∧ s'.trace = s.trace ++ t ∧
      (InTable t ↔ MsgId.HasEvent m.id)) ∧
    (InTable s.trace ↔ ∀ i ∈ inputs, i.HasEvent) := by
  obtain ⟨hverbose, hrun⟩ := inTable_of_run hs
  obtain ⟨s', t, hs', htrans, htrace⟩ := handle_spec (z := z) (implements_of_run hs).inv
    (show (Input.message routingId frames).Decodable from ⟨m, hm⟩)
  refine ⟨⟨s', t, step_of_handle hs', htrace, ?_⟩, hrun⟩
  rw [htrans.inTable_iff hverbose, hasEvent_message_iff hm]

/-- A GOODBYE and then a PING, both from a stranger. -/
theorem in_table_goodbye :
    ∃ s, run .literal true [.message [1] [[0xAA, 0xAA, 8]]] = some s ∧
      (∃ s' t, step .literal s (.message [1] [[0xAA, 0xAA, 10]]) = some s' ∧
        s'.trace = s.trace ++ t ∧ (InTable t ↔ MsgId.HasEvent .ping)) ∧
      (InTable s.trace ↔ ∀ i ∈ [Input.message [1] [[0xAA, 0xAA, 8]]], i.HasEvent) := by
  have hsome : (run .literal true [.message [1] [[0xAA, 0xAA, 8]]]).isSome := by decide +kernel
  obtain ⟨s, hs⟩ := Option.isSome_iff_exists.mp hsome
  have hping : zccpMsgDecode [[0xAA, 0xAA, 10]] = .ok (zccpMsgNew .ping) := by decide +kernel
  exact ⟨s, hs, in_table_iff hs [1] hping⟩

/-- A PING makes the broker look up the name of event -1. -/
theorem not_in_table_ping :
    ∃ s, run .literal true [.message [1] [[0xAA, 0xAA, 10]]] = some s ∧
      .eventName (-1) ∈ s.trace ∧ ¬ InTable s.trace := by
  have hlookup : ((run .literal true [.message [1] [[0xAA, 0xAA, 10]]]).map fun s =>
      decide (.eventName (-1) ∈ s.trace)) = some true := by decide +kernel
  obtain ⟨s, hs, hmem⟩ := Option.map_eq_some_iff.mp hlookup
  have hmem' := of_decide_eq_true hmem
  exact ⟨s, hs, hmem', fun h => absurd (h _ hmem').1 (by decide)⟩

end Zccp.Broker
