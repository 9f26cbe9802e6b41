import Zccp.Broker.Isolation
import Zccp.Lib.Commute

/-!
# `Zccp/Broker/Interleaving.lean` — the order of what the broker hears

Messages of different clients reach the broker in an order that nobody controls. How much of it can be
seen: if each client's own messages come in the same order, and each publication between the same
messages of each client, then every client is sent the same, in the same order, and the same sessions
and subscriptions are left. The sessions are not the same objects, and the patterns may stand in
another order; it is the abstract broker in which the inputs commute (`PubSub.commutes`).
-/

set_option autoImplicit false

namespace Zccp.Broker

open Lib

variable {z : Czmq} {verbose : Bool}

instance : DecidablePred Input.IsPublish
  | .message _ frames =>
    match h : zccpMsgDecode frames with
    | .ok m => decidable_of_iff (m.id = .publish) ⟨fun hid => ⟨m, h, hid⟩, fun ⟨m', hm', hid⟩ => by
        rw [Except.ok.inj (h.symm.trans hm')]
        exact hid⟩
    | .error _ => isFalse fun ⟨m, hm, _⟩ => nomatch h.symm.trans hm
  | .expiry _ => isFalse not_false

/-- Inputs of two peers, neither a PUBLISH. -/
def Independent (i j : Input) : Prop := i.peer ≠ j.peer ∧ ¬ i.IsPublish ∧ ¬ j.IsPublish

/-- What a peer says itself, and what is published. -/
def heardOf (p : Frame) (inputs : List Input) : List Input :=
  inputs.filter fun i => i.peer = p ∨ i.IsPublish

theorem Independent.commutes (z : Czmq) {i j : Input} (h : Independent i j) :
    Commutes (fun d i => PubSub.step (policy z) d (Input.event i))
      (fun c d i => PubSub.out (policy z) c d (Input.event i)) i j := by
  obtain ⟨hne, hi, hj⟩ := h
  have hpeer : i.event.peer ≠ j.event.peer := by
    rw [Input.event_peer, Input.event_peer]
    exact hne
  have hcomm := PubSub.commutes (policy z) hpeer (fun h => hi (isPublish_of_event h))
    (fun h => hj (isPublish_of_event h))
  exact ⟨hcomm.state, hcomm.shown⟩

/-- Inputs that are heard in the same order by everyone can be reordered into each other. -/
theorem reorder_of_heardOf {inputs inputs' : List Input}
    (h : ∀ p, heardOf p inputs = heardOf p inputs') : Reorder Independent inputs inputs' := by
  -- what two dependent inputs are is part of what one peer hears
  have hpart : ∀ {i j p}, (i.peer = p ∨ i.IsPublish) → (j.peer = p ∨ j.IsPublish) →
      occurrences i j inputs = occurrences i j inputs' := by
    intro i j p hi hj
    have hall : ∀ l : List Input, occurrences i j l = occurrences i j (heardOf p l) := by
      intro l
      rw [heardOf, occurrences, occurrences, List.filter_filter]
      refine List.filter_congr fun k _ => ?_
      by_cases hki : k = i
      · simp [hki, hi]
      · by_cases hkj : k = j
        · simp [hkj, hj]
        · simp [hki, hkj]
    rw [hall inputs, hall inputs', h p]
  refine Reorder.of_filter (fun i hi => hi.1 rfl) (fun i j hij => ⟨hij.1.symm, hij.2.2, hij.2.1⟩)
    fun i j hij => ?_
  by_cases hi : i.IsPublish
  · exact hpart (p := j.peer) (.inr hi) (.inl rfl)
  · by_cases hj : j.IsPublish
    · exact hpart (p := i.peer) (.inl rfl) (.inr hj)
    · have hpeer : i.peer = j.peer := by
        by_contra hne
        exact hij ⟨hne, hi, hj⟩
      exact hpart (p := i.peer) (.inl rfl) (.inl hpeer.symm)

theorem directory_of_reorder {inputs inputs' : List Input} (h : Reorder Independent inputs inputs') :
    directory z inputs = directory z inputs' := by
  have hcomm : ∀ i j, Independent i j → Commutes _ _ i j := fun i j hij => hij.commutes z
  rw [directory, directory, List.foldl_map, List.foldl_map]
  exact h.foldl_eq hcomm _

theorem told_of_reorder {inputs inputs' : List Input} (h : Reorder Independent inputs inputs')
    (c : Frame) : told z c inputs = told z c inputs' := by
  rw [told, told, ← outputs_map, ← outputs_map]
  exact h.outputs_eq (fun i j hij => hij.commutes z) c _

/-- **Nobody sees how the clients' inputs are interleaved**, as long as each client's own come in
order, and each publication in its place among them. -/
theorem interleaving_unseen (z : Czmq) (verbose : Bool) {inputs inputs' : List Input}
    (hd : ∀ i ∈ inputs, i.Decodable) (h : ∀ p, heardOf p inputs = heardOf p inputs') :
    ∃ s s', run z verbose inputs = some s ∧ run z verbose inputs' = some s' ∧
      (∀ c, framesIn c s.trace = framesIn c s'.trace) ∧ s.core.entry = s'.core.entry := by
  have hd' : ∀ i ∈ inputs', i.Decodable := by
    intro i hi
    have hmem : i ∈ heardOf i.peer inputs' := List.mem_filter.mpr ⟨hi, by simp⟩
    rw [← h i.peer] at hmem
    exact hd i (List.mem_filter.mp hmem).1
  have hreorder := reorder_of_heardOf h
  obtain ⟨s, hs, himpl, hsent⟩ := run_refines z verbose hd
  obtain ⟨s', hs', himpl', hsent'⟩ := run_refines z verbose hd'
  refine ⟨s, s', hs, hs', fun c => ?_, ?_⟩
  · have hsame : sentIn c s.trace = sentIn c s'.trace := by
      have h₁ : sentIn c s.trace = (told z c inputs).map (replyMsg z c) := hsent c
      have h₂ : sentIn c s'.trace = (told z c inputs').map (replyMsg z c) := hsent' c
      rw [h₁, h₂, told_of_reorder hreorder]
    rw [framesIn_eq (encoded_of_run hs), framesIn_eq (encoded_of_run hs'), hsame]
  · rw [himpl.entry, himpl'.entry, directory_of_reorder hreorder]

/-- Two peers come and subscribe, one first or both at a time, before a third publishes. -/
theorem interleaving_unseen_three_peers :
    let name := CStr.ofBytes [65]
    let before : List Input := [.message [1] (wire (.hello name)), .message [2] (wire (.hello name)),
      .message [2] (wire (.subscribe name)), .message [3] (wire (.hello name)),
      .message [3] (wire (.subscribe name))]
    let mixed : List Input := [.message [3] (wire (.hello name)), .message [2] (wire (.hello name)),
      .message [3] (wire (.subscribe name)), .message [1] (wire (.hello name)),
      .message [2] (wire (.subscribe name))]
    let publish : List Input := [.message [1] (wire (.publish name none []))]
    ∃ s s', run .literal false (before ++ publish) = some s ∧
      run .literal false (mixed ++ publish) = some s' ∧
      (∀ c, framesIn c s.trace = framesIn c s'.trace) ∧ s.core.entry = s'.core.entry := by
  intro name before mixed publish
  have hhello := zccpMsgDecode_wire (m := .hello name) (by decide) (fits_hello (by decide))
  have hsub := zccpMsgDecode_wire (m := .subscribe name) (by decide) (fits_subscribe (by decide))
  have hpub := zccpMsgDecode_wire (m := .publish name none []) (by decide)
    (fits_publish (by decide) fitsHeaders_none)
  apply interleaving_unseen
  · simp only [before, publish, List.cons_append, List.nil_append, List.forall_mem_cons,
      List.not_mem_nil, false_implies, implies_true, and_true]
    exact ⟨⟨_, hhello⟩, ⟨_, hhello⟩, ⟨_, hsub⟩, ⟨_, hhello⟩, ⟨_, hsub⟩, ⟨_, hpub⟩⟩
  · intro p
    have h₁ : ∀ c, ¬ (Input.message c (wire (.hello name))).IsPublish := by
      rintro c ⟨m, hm, hid⟩
      rw [← Except.ok.inj (hhello.symm.trans hm)] at hid
      exact nomatch hid
    have h₂ : ∀ c, ¬ (Input.message c (wire (.subscribe name))).IsPublish := by
      rintro c ⟨m, hm, hid⟩
      rw [← Except.ok.inj (hsub.symm.trans hm)] at hid
      exact nomatch hid
    have h₃ : ∀ c, (Input.message c (wire (.publish name none []))).IsPublish :=
      fun c => ⟨_, hpub, rfl⟩
    simp only [heardOf, before, mixed, publish, List.cons_append, List.nil_append, List.filter_cons,
      List.filter_nil, Input.peer, h₁, h₂, h₃, or_false, or_true, decide_true, if_true]
    by_cases hp₁ : p = [1]
    · subst hp₁; rfl
    · by_cases hp₂ : p = [2]
      · subst hp₂; rfl
      · by_cases hp₃ : p = [3]
        · subst hp₃; rfl
        · simp [Ne.symm hp₁, Ne.symm hp₂, Ne.symm hp₃]

end Zccp.Broker
