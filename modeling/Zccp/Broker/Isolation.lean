import Zccp.Broker.Runs
import Zccp.Msg.RoundTrip

/-!
# `Zccp/Broker/Isolation.lean` — who can tell what from whom

A peer that publishes nothing is invisible: `isolation` compares a run with the same run without
that peer, and says that everybody else is sent the same messages in the same order.

The two runs do not agree on much else. What the peer has subscribed to and left again stays in
the pattern list of the one and is missing in the other, the clients on a pattern stand in
another order, and addresses and timer ids have moved. None of it is in the directory, and the
directory is all that decides what is sent (`PubSub.outputs_without`).
-/

set_option autoImplicit false

namespace Zccp.Broker

open Lib

variable {z : Czmq} {verbose : Bool}

/-- An input that is a PUBLISH. -/
def Input.IsPublish : Input → Prop
  | message _ frames => ∃ m, zccpMsgDecode frames = .ok m ∧ m.id = .publish
  | expiry _ => False

theorem isPublish_of_event {input : Input} (h : input.event.IsPublish) : input.IsPublish := by
  cases input with
  | expiry routingId => exact h
  | message routingId frames =>
    cases hm : zccpMsgDecode frames with
    | error e => simp [Input.event, hm, PubSub.Event.IsPublish] at h
    | ok m =>
      refine ⟨m, hm, ?_⟩
      simp only [Input.event, hm] at h
      unfold ZccpMsg.request at h
      cases hid : m.id with
      | publish => rfl
      | _ => simp [hid, PubSub.Event.IsPublish] at h

/-- The run without a peer is the run of events without it. -/
theorem filter_event (inputs : List Input) (c : Frame) :
    (inputs.filter fun i => i.peer ≠ c).map Input.event =
      (inputs.map Input.event).filter fun e => e.peer ≠ c := by
  rw [List.filter_map]
  congr 1
  apply List.filter_congr
  intro i _
  simp

/-- What a peer is told in a run depends on the events of the peers that publish only. -/
theorem told_without {inputs : List Input} {c : Frame}
    (hc : ∀ i ∈ inputs, i.peer = c → ¬ i.IsPublish) {d : Frame} (hd : d ≠ c) :
    told z d inputs = told z d (inputs.filter fun i => i.peer ≠ c) := by
  rw [told, told, filter_event]
  apply PubSub.outputs_without (policy z) _ (fun _ _ => rfl) hd
  intro e he hpeer hpub
  obtain ⟨i, hi, rfl⟩ := List.mem_map.mp he
  rw [Input.event_peer] at hpeer
  exact hc i hi hpeer (isPublish_of_event hpub)

/-- **Non-interference.** A peer none of whose messages is a PUBLISH can be taken out of a run, its
messages and its expiries: both runs get through, and every other peer is sent the same messages
in the same order. -/
theorem isolation (z : Czmq) (verbose : Bool) (inputs : List Input)
    (hdec : ∀ i ∈ inputs, i.Decodable) (c : Frame)
    (hc : ∀ i ∈ inputs, i.peer = c → ¬ i.IsPublish) :
    ∃ s s', run z verbose inputs = some s ∧
      run z verbose (inputs.filter fun i => i.peer ≠ c) = some s' ∧
      ∀ d, d ≠ c → s.sentTo d = s'.sentTo d ∧ framesIn d s.trace = framesIn d s'.trace := by
  have hdec' : ∀ i ∈ inputs.filter fun i => i.peer ≠ c, i.Decodable :=
    fun i hi => hdec i (List.mem_of_mem_filter hi)
  obtain ⟨s, hs, -, hsent⟩ := run_refines z verbose hdec
  obtain ⟨s', hs', -, hsent'⟩ := run_refines z verbose hdec'
  refine ⟨s, s', hs, hs', fun d hd => ?_⟩
  have hsame : s.sentTo d = s'.sentTo d := by
    rw [hsent d, hsent' d, told_without hc hd]
  refine ⟨hsame, ?_⟩
  rw [framesIn_eq (encoded_of_run hs), framesIn_eq (encoded_of_run hs')]
  exact congrArg (List.map fun m => (m, wire m)) hsame

/-- Peer 3 subscribes to what peer 2 subscribes to, and is thrown out; peer 2 notices nothing. -/
theorem isolation_three_peers :
    let name := CStr.ofBytes [65]
    let inputs : List Input := [.message [1] (wire (.hello name)), .message [3] (wire (.hello name)),
      .message [3] (wire (.subscribe name)), .message [2] (wire (.hello name)),
      .message [2] (wire (.subscribe name)), .message [3] (wire (.hello name)),
      .message [1] (wire (.publish name none []))]
    ∃ s s', run .literal false inputs = some s ∧
      run .literal false (inputs.filter fun i => i.peer ≠ [3]) = some s' ∧
      ∀ d, d ≠ [3] → s.sentTo d = s'.sentTo d ∧ framesIn d s.trace = framesIn d s'.trace := by
  intro name inputs
  have hhello := zccpMsgDecode_wire (m := .hello name) (by decide) (fits_hello (by decide))
  have hsub := zccpMsgDecode_wire (m := .subscribe name) (by decide) (fits_subscribe (by decide))
  have hpub := zccpMsgDecode_wire (m := .publish name none []) (by decide)
    (fits_publish (by decide) fitsHeaders_none)
  apply isolation
  · simp only [inputs, List.forall_mem_cons, List.not_mem_nil, false_implies, implies_true, and_true]
    exact ⟨⟨_, hhello⟩, ⟨_, hhello⟩, ⟨_, hsub⟩, ⟨_, hhello⟩, ⟨_, hsub⟩, ⟨_, hhello⟩, ⟨_, hpub⟩⟩
  · simp only [inputs, List.forall_mem_cons, List.not_mem_nil, false_implies, implies_true, and_true,
      Input.peer, Input.IsPublish, hhello, hsub]
    simp [ZccpMsg.received, ZccpMsg.hello, ZccpMsg.subscribe, zccpMsgNew]

end Zccp.Broker
