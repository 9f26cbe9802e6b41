import Zccp.Broker.Runs
import Zccp.Msg.RoundTrip

/-!
# `Zccp/Broker/Delivery.lean` — publications

What a PUBLISH makes the broker do, said of runs. `delivery_refines` counts the DELIVERs and says
in which order they come; `deliver_strings_iff` and `deliver_headers_iff` say what of the
publication is in them. The content is. The headers never are: of the four fields of the server
that a publication is handed on through, `headers` is the one that `forward_to_subscribers` does
not set. The publisher's name and the address are there if neither has a percent sign: each
passes through a setter that takes it for a format.
-/

set_option autoImplicit false

namespace Zccp.Broker

open Lib CursorList

variable {z : Czmq} {verbose : Bool}

/-- A message is a PUBLISH to an address. -/
def IsPublish (frames : List Frame) (a : CStr) : Prop :=
  ∃ m, zccpMsgDecode frames = .ok m ∧ m.id = .publish ∧ m.address = some a

/-- The DELIVERs among what is sent to a peer. -/
def deliversIn (c : Frame) (t : List Obs) : List (ZccpMsg × List Frame) :=
  (framesIn c t).filter (·.1.id = .deliver)

/-- What a peer gets of a publication after the inputs so far: one DELIVER for each different
expression that it has asked for in its session and that matches, each with exactly the content
frames of the publication behind its first frame. -/
def Delivers (z : Czmq) (verbose : Bool) (inputs : List Input) (c : Frame) (a : CStr)
    (content : List Frame) (l : List (ZccpMsg × List Frame)) : Prop :=
  ∃ S : Finset CStr, (∀ e, e ∈ S ↔ AskedFor z verbose inputs c e ∧ z.matches e a = true) ∧
    l.length = S.card ∧
    ∀ d ∈ l, d.1.id = .deliver ∧ d.1.content = some content ∧
      ∃ fields, d.2 = ([0xAA, 0xAA, 7] ++ fields) :: content

/-- The DELIVERs to a peer that one input causes, after the inputs so far. -/
inductive HandsOn (z : Czmq) (verbose : Bool) (inputs : List Input) (c : Frame) :
    Input → List (ZccpMsg × List Frame) → Prop
  | publish (p : Frame) (frames : List Frame) (a : CStr) (l : List (ZccpMsg × List Frame))
      (other : c ≠ p) (publish : IsPublish frames a) (session : HasSession z verbose inputs p)
      (delivers : Delivers z verbose inputs c a frames.tail l) :
      HandsOn z verbose inputs c (.message p frames) l
  | nothing (input : Input)
      (quiet : ∀ p frames a, input = .message p frames → IsPublish frames a →
        HasSession z verbose inputs p → c = p) :
      HandsOn z verbose inputs c input []

/-- The content of a PUBLISH is what stands behind its first frame. -/
theorem IsPublish.request {frames : List Frame} {a : CStr} (h : IsPublish frames a) :
    ∃ m, zccpMsgDecode frames = .ok m ∧ m.id = .publish ∧
      m.request = .publish a (some frames.tail) := by
  obtain ⟨m, hm, hid, ha⟩ := h
  refine ⟨m, hm, hid, ?_⟩
  rcases zccpMsgDecode_cases frames with ⟨rest, id, m', fields, tr, -, hf, rfl, h'⟩ | h' | ⟨_, h'⟩
  · rw [hm, Except.ok.injEq] at h'
    subst h'
    have hid' : id = .publish := hf.id_eq.symm.trans hid
    subst hid'
    obtain ⟨s, pairs, sb, db, -, -, -, rfl⟩ := hf
    exact congrArg (fun x => PubSub.Request.publish x (some rest)) (Option.some.inj ha)
  · rw [hm] at h'
    cases h'
  · rw [hm] at h'
    cases h'

/-- A PUBLISH leaves the store alone, whoever sends it. The cases for other types of message are
contradictory, since a message decodes in one way. -/
theorem Transition.topics_of_publish {k k' : Core} {p : Frame} {frames : List Frame} {a : CStr}
    {t : List Obs} (h : Transition z k (.message p frames) k' t) (hp : IsPublish frames a) :
    k'.topics = k.topics := by
  obtain ⟨m, hm, hid, -⟩ := hp
  have hconflict : ∀ {m' : ZccpMsg}, zccpMsgDecode frames = .ok m' → m'.id = .publish := by
    intro m' hm'
    rw [hm, Except.ok.injEq] at hm'
    rw [← hm', hid]
  cases h with
  | hello _ _ m' _ _ _ decoded _ id => exact absurd (id.symm.trans (hconflict decoded)) (by simp)
  | refuse => rfl
  | subscribe _ _ m' _ _ _ _ _ _ decoded _ id =>
    exact absurd (id.symm.trans (hconflict decoded)) (by simp)
  | publish => rfl
  | direct => rfl
  | close _ _ m' _ _ _ _ _ decoded _ id =>
    exact absurd (.inr (.inl (hconflict decoded))) id

/-- The content of a publication goes out frame for frame, behind one frame of fields. -/
theorem wire_deliver (z : Czmq) (m : Relay) (c : Frame) {content : List Frame}
    (h : m.content = some content) :
    ∃ fields, wire (m.deliver z c) = ([0xAA, 0xAA, 7] ++ fields) :: content := by
  refine ⟨(putFields (m.deliver z c)).flatten, ?_⟩
  have hcontent : contentFrames (m.deliver z c) = content := by
    simp [contentFrames, Relay.deliver, zccpMsgNew, h]
  have hid : (m.deliver z c).id = .deliver := rfl
  rw [wire, hcontent]
  simp [serialise, beBytes, hid, MsgId.code]

/-- The DELIVER of a publication to a peer. -/
def delivery (z : Czmq) (name a : CStr) (content : List Frame) (c : Frame) : ZccpMsg :=
  Relay.deliver z { sender := name, address := a, headers := none, content := some content } c

/-- What a relayed publication looks like to the peer it is for: as many copies as that peer has
matching subscriptions. The set is of expressions asked for in the session, which is a statement about
the history of inputs; the abstract broker, whose state it is read off, does not appear in it. -/
theorem relayed_frames (z : Czmq) (verbose : Bool) {inputs : List Input}
    (hd : ∀ i ∈ inputs, i.Decodable) (c : Frame) (a : CStr) (content : List Frame)
    (mp : PubSub.Member CStr CStr) :
    ∃ S : Finset CStr, (∀ e, e ∈ S ↔ AskedFor z verbose inputs c e ∧ z.matches e a = true) ∧
      ((PubSub.relayed (policy z) (some mp) (directory z inputs c)
        (.publish a (some content))).map (replyMsg z c)).map (fun m => (m, wire m)) =
        List.replicate S.card (delivery z mp.name a content c,
          wire (delivery z mp.name a content c)) := by
  cases hc : directory z inputs c with
  | none =>
    refine ⟨∅, ?_, rfl⟩
    intro e
    simp only [Finset.notMem_empty, false_iff]
    rintro ⟨⟨pre, frames, post, rfl, -, hstays⟩, -⟩
    -- asking takes a session to this day, and there is none
    have := (hasSession_iff hd c).mp (hstays _ List.prefix_rfl)
    rw [hc] at this
    exact absurd this (by simp)
  | some m =>
    refine ⟨m.subscriptions.filter (z.matches · a), ?_, ?_⟩
    · intro e
      rw [Finset.mem_filter, subscriptions_iff hd hc]
      constructor
      · rintro ⟨⟨hasked, -⟩, hm⟩
        exact ⟨hasked, hm⟩
      · rintro ⟨hasked, hm⟩
        -- what matches was compiled
        refine ⟨⟨hasked, ?_⟩, hm⟩
        cases hz : z.zrexNew e with
        | none => simp [Czmq.matches, hz] at hm
        | some rex => rfl
    · simp only [PubSub.relayed, List.map_replicate, PubSub.Member.copies]
      rfl

/-- **One PUBLISH**, by the refinement of one step: what each peer is sent is what the abstract broker
answers, and from there on this is about sets. -/
theorem publish_step {inputs : List Input} {p : Frame} {frames : List Frame} {a name : CStr}
    (hpub : IsPublish frames a) (hp : OpenedBy z verbose inputs p name) :
    ∃ s s' t, run z verbose inputs = some s ∧ step z s (.message p frames) = some s' ∧
      s'.trace = s.trace ++ t ∧ s'.core.topics = s.core.topics ∧ framesIn p t = [] ∧
      ∀ c, c ≠ p → ∃ S : Finset CStr,
        (∀ e, e ∈ S ↔ AskedFor z verbose inputs c e ∧ z.matches e a = true) ∧
        framesIn c t = List.replicate S.card
          (delivery z name a frames.tail c, wire (delivery z name a frames.tail c)) := by
  have hd := hp.hasSession.decodable
  obtain ⟨m, hm, hid, hreq⟩ := hpub.request
  obtain ⟨s, s', t, hs, hs', himpl, htrans, htrace, hsent⟩ :=
    run_step z verbose hd (show (Input.message p frames).Decodable from ⟨m, hm⟩)
  have hevent : (Input.message p frames).event = .request p (.publish a (some frames.tail)) := by
    simp only [Input.event, hm, hreq]
  obtain ⟨mp, hmp⟩ := Option.isSome_iff_exists.mp ((hasSession_iff hd p).mp hp.hasSession)
  have hname : mp.name = name := (openedBy_iff hd hmp name).mp hp
  subst hname
  rw [run_append_singleton, hs] at hs'
  refine ⟨s, s', t, hs, hs', htrace, htrans.topics_of_publish hpub, ?_, ?_⟩
  · rw [framesIn_eq htrans.encoded, hsent, hevent, PubSub.out, if_pos rfl, hmp]
    rfl
  · intro c hc
    rw [framesIn_eq htrans.encoded, hsent, hevent, PubSub.out, if_neg hc, hmp]
    exact relayed_frames z verbose hd c a frames.tail mp

/-- Copies of one DELIVER are what is asked for. -/
theorem Delivers.of_replicate {inputs : List Input} {c : Frame} {a name : CStr}
    {content : List Frame} {l : List (ZccpMsg × List Frame)} {S : Finset CStr}
    (hS : ∀ e, e ∈ S ↔ AskedFor z verbose inputs c e ∧ z.matches e a = true)
    (hl : l = List.replicate S.card (delivery z name a content c,
      wire (delivery z name a content c))) :
    Delivers z verbose inputs c a content l := by
  subst hl
  refine ⟨S, hS, List.length_replicate, ?_⟩
  intro d hd
  obtain rfl := List.eq_of_mem_replicate hd
  exact ⟨rfl, rfl, wire_deliver z _ c rfl⟩

/-- They are all of them DELIVERs, so that looking for those finds them all. -/
theorem deliversIn_replicate {t : List Obs} {c : Frame} {a name : CStr} {content : List Frame}
    {n : Nat} (h : framesIn c t = List.replicate n (delivery z name a content c,
      wire (delivery z name a content c))) :
    deliversIn c t = framesIn c t := by
  rw [deliversIn, List.filter_eq_self]
  intro d hd
  rw [h] at hd
  obtain rfl := List.eq_of_mem_replicate hd
  rfl

/-- Nothing but a PUBLISH asks for a publication. -/
theorem isPublish_of_request {frames : List Frame} {m : ZccpMsg} {a : CStr}
    {b : Option (List Frame)} (hm : zccpMsgDecode frames = .ok m)
    (hr : m.request = .publish a b) : IsPublish frames a := by
  have hshape := (zccpMsgDecode_shape hm).2
  unfold ZccpMsg.request at hr
  cases hid : m.id with
  | publish =>
    rw [hid] at hshape
    obtain ⟨a', h, content, rfl⟩ := hshape
    injection hr with ha _
    exact ⟨_, hm, rfl, congrArg some ha⟩
  | _ => simp [hid] at hr

/-- What a peer is answered is never a DELIVER. -/
theorem answer_not_deliver (z : Czmq) (c : Frame) (d : Option (PubSub.Member CStr CStr))
    (r : PubSub.Request CStr CStr CStr (Option (List Frame))) :
    ∀ x ∈ PubSub.answer d r, (replyMsg z c x).id ≠ .deliver := by
  intro x hx
  cases d <;> cases r <;> simp_all [PubSub.answer, replyMsg, plainReply, ZccpMsg.setId]

/-- **One input**: the DELIVERs that it causes are those of a PUBLISH, or there are none. The second case
has to be read off what is sent, since a peer is told things for other reasons as well. -/
theorem handsOn_step {inputs : List Input} (hd : ∀ i ∈ inputs, i.Decodable) {input : Input}
    (hi : input.Decodable) {t : List Obs} (ht : Encoded t) {c : Frame}
    (hsent : sentIn c t =
      (PubSub.out (policy z) c (directory z inputs) input.event).map (replyMsg z c)) :
    HandsOn z verbose inputs c input (deliversIn c t) := by
  have hframes : framesIn c t =
      ((PubSub.out (policy z) c (directory z inputs) input.event).map (replyMsg z c)).map
        fun m => (m, wire m) := by rw [framesIn_eq ht, hsent]
  -- either the peer is handed on a publication, or it is not told of any
  have hquiet : (∀ x ∈ PubSub.out (policy z) c (directory z inputs) input.event,
      (replyMsg z c x).id ≠ .deliver) → deliversIn c t = [] := by
    intro h
    rw [deliversIn, hframes, List.filter_eq_nil_iff]
    intro d hdm
    rw [List.map_map] at hdm
    obtain ⟨x, hx, rfl⟩ := List.mem_map.mp hdm
    simpa using h x hx
  by_cases hpub : ∃ p frames a, input = .message p frames ∧ IsPublish frames a ∧
      HasSession z verbose inputs p ∧ c ≠ p
  · obtain ⟨p, frames, a, rfl, hpub, hp, hc⟩ := hpub
    obtain ⟨m, hm, hid, hreq⟩ := hpub.request
    have hevent : (Input.message p frames).event = .request p (.publish a (some frames.tail)) := by
      simp only [Input.event, hm, hreq]
    obtain ⟨mp, hmp⟩ := Option.isSome_iff_exists.mp ((hasSession_iff hd p).mp hp)
    obtain ⟨S, hS, hl⟩ := relayed_frames z verbose hd c a frames.tail mp
    have hall := hframes
    rw [hevent, PubSub.out, if_neg hc, hmp, hl] at hall
    have hdel : Delivers z verbose inputs c a frames.tail (framesIn c t) := .of_replicate hS hall
    rw [deliversIn_replicate hall]
    exact .publish p frames a _ hc hpub hp hdel
  · have hnone : deliversIn c t = [] := by
      apply hquiet
      intro x hx
      cases input with
      | expiry p => simp [Input.event, PubSub.out] at hx
      | message p frames =>
        obtain ⟨m, hm⟩ := hi
        simp only [Input.event, hm, PubSub.out] at hx
        by_cases hc : c = p
        · rw [if_pos hc] at hx
          exact answer_not_deliver z c _ _ x hx
        · rw [if_neg hc] at hx
          cases hr : m.request with
          | publish a b =>
            rw [hr] at hx
            cases hdp : directory z inputs p with
            | none => simp [hdp, PubSub.relayed] at hx
            | some mp =>
              refine absurd ⟨p, frames, a, rfl, isPublish_of_request hm hr, ?_, hc⟩ hpub
              exact (hasSession_iff hd p).mpr (by rw [hdp]; rfl)
          | _ =>
            rw [hr] at hx
            simp [PubSub.relayed] at hx
    rw [hnone]
    refine .nothing input fun p frames a hin hp hs => ?_
    by_contra hc
    exact hpub ⟨p, frames, a, hin, hp, hs, hc⟩

/-- **A run**, by induction on its end: the DELIVERs to a peer are in groups, one for each input, each
of which is about the inputs before it. -/
theorem deliversIn_run (z : Czmq) (verbose : Bool) {inputs : List Input}
    (hd : ∀ i ∈ inputs, i.Decodable) (c : Frame) :
    ∃ s, ∃ ls : List (List (ZccpMsg × List Frame)), run z verbose inputs = some s ∧
      ls.length = inputs.length ∧ deliversIn c s.trace = ls.flatten ∧
      ∀ n i l, inputs[n]? = some i → ls[n]? = some l →
        HandsOn z verbose (inputs.take n) c i l := by
  induction inputs using List.reverseRecOn with
  | nil => exact ⟨.new verbose, [], rfl, rfl, rfl, by simp⟩
  | append_singleton inputs input ih =>
    have hd' : ∀ i ∈ inputs, i.Decodable := fun i hi => hd i (List.mem_append_left _ hi)
    have hi : input.Decodable := hd input (by simp)
    obtain ⟨s₀, ls, hs₀, hlen, hflat, hall⟩ := ih hd'
    obtain ⟨s, s', t, hs, hs', -, htrans, htrace, hsent⟩ := run_step z verbose hd' hi
    obtain rfl : s₀ = s := Option.some.inj (hs₀.symm.trans hs)
    refine ⟨s', ls ++ [deliversIn c t], hs', by simp [hlen], ?_, ?_⟩
    · rw [htrace, deliversIn, framesIn, List.filterMap_append, List.filter_append,
        List.flatten_append, ← hflat]
      simp [deliversIn, framesIn]
    · intro n i l hn hl
      rcases Nat.lt_trichotomy n inputs.length with hlt | rfl | hgt
      · rw [List.getElem?_append_left hlt] at hn
        rw [List.getElem?_append_left (by omega)] at hl
        rw [List.take_append_of_le_length (Nat.le_of_lt hlt)]
        exact hall n i l hn hl
      · rw [List.getElem?_append_right (Nat.le_refl _)] at hn
        rw [List.getElem?_append_right (by omega), hlen] at hl
        simp only [Nat.sub_self, List.getElem?_cons_zero, Option.some.injEq] at hn hl
        rw [List.take_left', ← hn, ← hl]
        · exact handsOn_step hd' hi htrans.encoded (hsent c)
        · rfl
      · rw [List.getElem?_eq_none (by simp; omega)] at hn
        cases hn

/-- **Delivery refines the set-based specification.** In every run of decodable inputs:

* a PUBLISH from a peer with a session is sent to every other peer once for each different
  expression that peer has asked for in its session and that matches, as DELIVERs with exactly the
  content frames of the PUBLISH; to the publisher nothing is sent, and the store is not touched;
* every peer gets the DELIVERs in the order in which the PUBLISHes were handled, and no other
  DELIVERs: they are those of the first input, then those of the second, and so on. -/
theorem delivery_refines (z : Czmq) (verbose : Bool) (inputs : List Input)
    (hd : ∀ i ∈ inputs, i.Decodable) :
    ∃ s, run z verbose inputs = some s ∧
      (∀ p frames a, IsPublish frames a → HasSession z verbose inputs p →
        ∃ s' t, step z s (.message p frames) = some s' ∧
          s'.trace = s.trace ++ t ∧ s'.core.topics = s.core.topics ∧
          (∀ c, c ≠ p → Delivers z verbose inputs c a frames.tail (framesIn c t)) ∧
          framesIn p t = []) ∧
      ∀ c, ∃ ls : List (List (ZccpMsg × List Frame)), ls.length = inputs.length ∧ deliversIn c s.trace = ls.flatten ∧
        ∀ n i l, inputs[n]? = some i → ls[n]? = some l →
          HandsOn z verbose (inputs.take n) c i l := by
  obtain ⟨s, hs, -, -⟩ := run_refines z verbose hd
  refine ⟨s, hs, ?_, ?_⟩
  · intro p frames a hpub hp
    obtain ⟨name, hname⟩ := hp.opened hd
    obtain ⟨s₁, s', t, hs₁, hs', htrace, htopics, hself, hothers⟩ := publish_step hpub hname
    obtain rfl : s = s₁ := Option.some.inj (hs.symm.trans hs₁)
    refine ⟨s', t, hs', htrace, htopics, fun c hc => ?_, hself⟩
    obtain ⟨S, hS, hl⟩ := hothers c hc
    exact .of_replicate hS hl
  · intro c
    obtain ⟨s₁, ls, hs₁, hls⟩ := deliversIn_run z verbose hd c
    obtain rfl : s = s₁ := Option.some.inj (hs.symm.trans hs₁)
    exact ⟨ls, hls⟩

/-- Two peers meet: one subscribes, the other publishes two frames. -/
theorem delivery_refines_two_peers :
    let name := CStr.ofBytes [65]
    let inputs : List Input := [.message [1] (wire (.hello name)), .message [2] (wire (.hello name)),
      .message [2] (wire (.subscribe name))]
    let frames := wire (.publish name none [[7], [8]])
    ∃ s s' t, run .literal false inputs = some s ∧
      step .literal s (.message [1] frames) = some s' ∧ s'.trace = s.trace ++ t ∧
      Delivers .literal false inputs [2] name [[7], [8]] (framesIn [2] t) := by
  intro name inputs frames
  have hshort : name.Short := by decide
  have hhello := zccpMsgDecode_wire (m := .hello name) (by decide) (fits_hello hshort)
  have hsub := zccpMsgDecode_wire (m := .subscribe name) (by decide) (fits_subscribe hshort)
  have hpub := zccpMsgDecode_wire (m := .publish name none [[7], [8]]) (by decide)
    (fits_publish hshort fitsHeaders_none)
  obtain ⟨s, hs, hstep, -⟩ := delivery_refines .literal false inputs (by
    simp only [inputs, List.forall_mem_cons, List.not_mem_nil, false_implies, implies_true, and_true]
    exact ⟨⟨_, hhello⟩, ⟨_, hhello⟩, ⟨_, hsub⟩⟩)
  obtain ⟨s', t, hs', ht, -, hothers, -⟩ := hstep [1] frames name ⟨_, hpub, rfl, rfl⟩ (by decide)
  exact ⟨s, s', t, hs, hs', ht, hothers [2] (by decide)⟩

/-! ## Names and addresses -/

/-- A DELIVER, as its recipient decodes it, has this sender and this address. -/
def Carries (d : ZccpMsg × List Frame) (sender address : CStr) : Prop :=
  ∃ m, zccpMsgDecode d.2 = .ok m ∧ m.sender = some sender ∧ m.address = some address

/-- What a DELIVER carries is what the setters made of the name and the address. -/
theorem carries_delivery {z : Czmq} {name a name' a' : CStr} {content : List Frame} {c : Frame}
    (hname : (z.zsysVprintf name).Short) (ha : (z.zsysVprintf a).Short) :
    Carries (delivery z name a content c, wire (delivery z name a content c)) name' a' ↔
      z.zsysVprintf name = name' ∧ z.zsysVprintf a = a' := by
  have hdec := zccpMsgDecode_wire (m := delivery z name a content c)
    (show MsgId.deliver ≠ .unset by decide)
    ⟨shortField_some hname, shortField_some ha, fitsHeaders_none⟩
  constructor
  · rintro ⟨m, hm, hs, ha⟩
    obtain rfl := Except.ok.inj (hdec.symm.trans hm)
    exact ⟨Option.some.inj hs, Option.some.inj ha⟩
  · rintro ⟨rfl, rfl⟩
    exact ⟨_, hdec, rfl, rfl⟩

/-- The formatter has no say in what matches. -/
theorem policy_printing (z : Czmq) (vprintf : CStr → CStr) :
    policy (z.printing vprintf) = policy z := rfl

/-- Which sessions there are does not depend on the formatter. -/
theorem openedBy_printing (vprintf : CStr → CStr) {inputs : List Input} {p : Frame} {name : CStr}
    (h : OpenedBy z verbose inputs p name) :
    OpenedBy (z.printing vprintf) verbose inputs p name := by
  have hd := h.hasSession.decodable
  obtain ⟨m, hm⟩ := Option.isSome_iff_exists.mp ((hasSession_iff hd p).mp h.hasSession)
  exact (openedBy_iff hd (by rw [directory, policy_printing]; exact hm) name).mpr
    ((openedBy_iff hd hm name).mp h)

/-- Nor in what has been asked for. -/
theorem askedFor_printing {vprintf : CStr → CStr} {inputs : List Input}
    (hd : ∀ i ∈ inputs, i.Decodable) (c : Frame) (e : CStr) :
    AskedFor (z.printing vprintf) verbose inputs c e ↔ AskedFor z verbose inputs c e := by
  rw [askedFor_iff hd, askedFor_iff hd, policy_printing]

/-- Some peer other than the publisher is to be handed on what is published under an address. -/
def HasRecipient (z : Czmq) (verbose : Bool) (inputs : List Input) (p : Frame) (a : CStr) : Prop :=
  ∃ c e, c ≠ p ∧ AskedFor z verbose inputs c e ∧ z.matches e a = true

/-- If there is a DELIVER, there is somebody to hand the publication on to. -/
theorem delivery_of_mem {inputs : List Input} {p c : Frame} {a name : CStr} {content : List Frame}
    {t : List Obs} {d : ZccpMsg × List Frame} (hself : framesIn p t = [])
    (hothers : ∀ c, c ≠ p → ∃ S : Finset CStr,
      (∀ e, e ∈ S ↔ AskedFor z verbose inputs c e ∧ z.matches e a = true) ∧
      framesIn c t = List.replicate S.card
        (delivery z name a content c, wire (delivery z name a content c)))
    (hd : d ∈ deliversIn c t) :
    HasRecipient z verbose inputs p a ∧
      d = (delivery z name a content c, wire (delivery z name a content c)) := by
  have hmem := List.mem_of_mem_filter hd
  have hc : c ≠ p := by
    rintro rfl
    rw [hself] at hmem
    exact absurd hmem (by simp)
  obtain ⟨S, hS, hl⟩ := hothers c hc
  rw [hl] at hmem
  obtain ⟨hn, hd⟩ := List.mem_replicate.mp hmem
  obtain ⟨e, he⟩ := Finset.card_ne_zero.mp hn
  exact ⟨⟨c, e, hc, (hS e).mp he⟩, hd⟩

/-- And if there is somebody, there is a DELIVER. -/
theorem mem_of_hasRecipient {inputs : List Input} {p : Frame} {a name : CStr}
    {content : List Frame} {t : List Obs}
    (hothers : ∀ c, c ≠ p → ∃ S : Finset CStr,
      (∀ e, e ∈ S ↔ AskedFor z verbose inputs c e ∧ z.matches e a = true) ∧
      framesIn c t = List.replicate S.card
        (delivery z name a content c, wire (delivery z name a content c)))
    (h : HasRecipient z verbose inputs p a) :
    ∃ c, (delivery z name a content c, wire (delivery z name a content c)) ∈ deliversIn c t := by
  obtain ⟨c, e, hc, hasked⟩ := h
  obtain ⟨S, hS, hl⟩ := hothers c hc
  refine ⟨c, ?_⟩
  rw [deliversIn_replicate hl, hl]
  exact List.mem_replicate.mpr ⟨Finset.card_ne_zero.mpr ⟨e, (hS e).mpr hasked⟩, rfl⟩

/-- What a peer is named and what it publishes under came off the wire, so both are short. -/
theorem short_of_publication {inputs : List Input} {p : Frame} {frames : List Frame}
    {a name : CStr} (hpub : IsPublish frames a) (hp : OpenedBy z verbose inputs p name) :
    name.Short ∧ a.Short := by
  obtain ⟨m, hm, hid, ha⟩ := hpub
  obtain ⟨-, frames', -, -, ⟨m', hm', hid', hname⟩, -⟩ := hp
  have hfits := zccpMsgDecode_fits hm
  have hfits' := zccpMsgDecode_fits hm'
  simp only [ZccpMsg.Fits, hid] at hfits
  simp only [ZccpMsg.Fits, hid'] at hfits'
  exact ⟨hfits'.1 name hname, hfits.1 a ha⟩

/-- **Names and addresses are relayed unless one has a percent sign.** A PUBLISH is handed on with
the publisher's identifier and with its address, whatever `zsys_vprintf` does beyond what is
assumed of it, if and only if neither has a percent sign in it or there is nobody to hand it on
to. -/
theorem deliver_strings_iff (z : Czmq) (verbose : Bool) (inputs : List Input) (p : Frame)
    (frames : List Frame) (a name : CStr) (hpub : IsPublish frames a)
    (hp : OpenedBy z verbose inputs p name) :
    (∀ vprintf, Printf vprintf → ∀ s s' t, run (z.printing vprintf) verbose inputs = some s →
      step (z.printing vprintf) s (.message p frames) = some s' → s'.trace = s.trace ++ t →
      ∀ c, ∀ d ∈ deliversIn c t, Carries d name a) ↔
    (37 ∉ name.bytes ∧ 37 ∉ a.bytes) ∨ ¬ HasRecipient z verbose inputs p a := by
  have hd := hp.hasSession.decodable
  obtain ⟨hname, ha⟩ := short_of_publication hpub hp
  have hrecipient : ∀ vprintf, HasRecipient (z.printing vprintf) verbose inputs p a ↔
      HasRecipient z verbose inputs p a := by
    intro vprintf
    simp only [HasRecipient, askedFor_printing hd]
    rfl
  constructor
  · intro h
    by_contra hcond
    rw [not_or, not_not] at hcond
    obtain ⟨hpercent, hrec⟩ := hcond
    -- the strictest formatter changes every string with a percent sign in it
    obtain ⟨s, s', t, hs, hs', ht, -, -, hothers⟩ := publish_step hpub
      (openedBy_printing strictPrintf hp)
    obtain ⟨c, hc⟩ := mem_of_hasRecipient hothers ((hrecipient _).mpr hrec)
    have hcarries := h strictPrintf strictPrintf_printf s s' t hs hs' ht c _ hc
    rw [carries_delivery (Nat.lt_of_le_of_lt (strictPrintf_length name).1 hname)
      (Nat.lt_of_le_of_lt (strictPrintf_length a).1 ha)] at hcarries
    refine hpercent ⟨fun hm => ?_, fun hm => ?_⟩
    · exact (strictPrintf_length name).2 hm hcarries.1
    · exact (strictPrintf_length a).2 hm hcarries.2
  · intro hcond vprintf hprintf s s' t hs hs' ht c d hdm
    obtain ⟨s₁, s₁', t₁, hs₁, hs₁', ht₁, -, hself, hothers⟩ := publish_step hpub
      (openedBy_printing vprintf hp)
    obtain rfl := Option.some.inj (hs.symm.trans hs₁)
    obtain rfl := Option.some.inj (hs'.symm.trans hs₁')
    obtain rfl := List.append_cancel_left (ht.symm.trans ht₁)
    obtain ⟨hrec, rfl⟩ := delivery_of_mem hself hothers hdm
    obtain ⟨hn, hna⟩ := hcond.resolve_right (not_not.mpr ((hrecipient vprintf).mp hrec))
    -- without a percent sign the format is the text
    have hprint : ∀ x : CStr, 37 ∉ x.bytes → (z.printing vprintf).zsysVprintf x = x :=
      fun x hx => hprintf x x (unpercent_of_not_mem hx)
    rw [carries_delivery (by rwa [hprint name hn]) (by rwa [hprint a hna])]
    exact ⟨hprint name hn, hprint a hna⟩

/-- Without percent signs, whatever the formatter. -/
theorem deliver_strings_two_peers :
    let name := CStr.ofBytes [65]
    let inputs : List Input := [.message [1] (wire (.hello name)), .message [2] (wire (.hello name)),
      .message [2] (wire (.subscribe name))]
    let frames := wire (.publish name none [])
    ∀ vprintf, Printf vprintf →
      ∀ s s' t, run (Czmq.literal.printing vprintf) false inputs = some s →
      step (Czmq.literal.printing vprintf) s (.message [1] frames) = some s' →
      s'.trace = s.trace ++ t → ∀ c, ∀ d ∈ deliversIn c t, Carries d name name := by
  intro name inputs frames
  have hshort : name.Short := by decide
  have hhello := zccpMsgDecode_wire (m := .hello name) (by decide) (fits_hello hshort)
  have hsub := zccpMsgDecode_wire (m := .subscribe name) (by decide) (fits_subscribe hshort)
  have hpub := zccpMsgDecode_wire (m := .publish name none []) (by decide)
    (fits_publish hshort fitsHeaders_none)
  have hd : ∀ i ∈ inputs, i.Decodable := by
    simp only [inputs, List.forall_mem_cons, List.not_mem_nil, false_implies, implies_true, and_true]
    exact ⟨⟨_, hhello⟩, ⟨_, hhello⟩, ⟨_, hsub⟩⟩
  exact (deliver_strings_iff .literal false inputs [1] frames name name ⟨_, hpub, rfl, rfl⟩
    ((openedBy_iff_directory hd [1] name).mpr (by decide +kernel))).mpr
    (.inl (by decide))

/-- A peer that calls itself `%%` and publishes under `A`: the DELIVER says that it comes from
`%`. -/
theorem deliver_strings_percent :
    let percent := CStr.ofBytes [37, 37]
    let name := CStr.ofBytes [65]
    let inputs : List Input := [.message [1] (wire (.hello percent)),
      .message [2] (wire (.hello name)), .message [2] (wire (.subscribe name))]
    let frames := wire (.publish name none [])
    let z := Czmq.literal.printing strictPrintf
    Printf strictPrintf ∧ OpenedBy z false inputs [1] percent ∧ IsPublish frames name ∧
      (run z false (inputs ++ [.message [1] frames])).map (fun s =>
        (deliversIn [2] s.trace).map fun d => (d.1.sender, d.1.address)) =
        some [(some (CStr.ofBytes [37]), some name)] := by
  intro percent name inputs frames z
  have hshort : name.Short := by decide
  have hpercent := zccpMsgDecode_wire (m := .hello percent) (by decide) (fits_hello (by decide))
  have hhello := zccpMsgDecode_wire (m := .hello name) (by decide) (fits_hello hshort)
  have hsub := zccpMsgDecode_wire (m := .subscribe name) (by decide) (fits_subscribe hshort)
  have hpub := zccpMsgDecode_wire (m := .publish name none []) (by decide)
    (fits_publish hshort fitsHeaders_none)
  have hd : ∀ i ∈ inputs, i.Decodable := by
    simp only [inputs, List.forall_mem_cons, List.not_mem_nil, false_implies, implies_true, and_true]
    exact ⟨⟨_, hpercent⟩, ⟨_, hhello⟩, ⟨_, hsub⟩⟩
  exact ⟨strictPrintf_printf,
    (openedBy_iff_directory hd [1] percent).mpr (by decide +kernel),
    ⟨_, hpub, rfl, rfl⟩, by decide +kernel⟩

/-! ## Headers -/

/-- **Headers are relayed only if there are none.** The DELIVERs of a PUBLISH have the entries of
its headers if and only if it has no entries or there is nobody to hand it on to. -/
theorem deliver_headers_iff (z : Czmq) (verbose : Bool) (inputs : List Input) (p : Frame)
    (frames : List Frame) (m : ZccpMsg) (hm : zccpMsgDecode frames = .ok m)
    (hid : m.id = .publish) (hp : HasSession z verbose inputs p) :
    (∀ s s' t, run z verbose inputs = some s → step z s (.message p frames) = some s' →
      s'.trace = s.trace ++ t → ∀ c, ∀ d ∈ deliversIn c t, d.2 = wire d.1 ∧
        ∀ key, Zhash.get? d.1.headers key = Zhash.get? m.headers key) ↔
    (∀ key, Zhash.get? m.headers key = none) ∨
      ¬ ∃ a, m.address = some a ∧ HasRecipient z verbose inputs p a := by
  obtain ⟨a, ha⟩ : ∃ a, m.address = some a := by
    have hshape := (zccpMsgDecode_shape hm).2
    rw [hid] at hshape
    obtain ⟨a, h, content, rfl⟩ := hshape
    exact ⟨a, rfl⟩
  obtain ⟨name, hname⟩ := hp.opened hp.decodable
  obtain ⟨s, s', t, hs, hs', ht, -, hself, hothers⟩ := publish_step ⟨m, hm, hid, ha⟩ hname
  constructor
  · intro h
    rw [or_iff_not_imp_right, not_not]
    rintro ⟨a', ha', hrec⟩ key
    obtain rfl := Option.some.inj (ha.symm.trans ha')
    obtain ⟨c, hc⟩ := mem_of_hasRecipient hothers hrec
    exact ((h s s' t hs hs' ht c _ hc).2 key).symm
  · intro hcond s₁ s₁' t₁ hs₁ hs₁' ht₁ c d hdm
    obtain rfl := Option.some.inj (hs.symm.trans hs₁)
    obtain rfl := Option.some.inj (hs'.symm.trans hs₁')
    obtain rfl := List.append_cancel_left (ht.symm.trans ht₁)
    obtain ⟨hrec, rfl⟩ := delivery_of_mem hself hothers hdm
    have hnone := hcond.resolve_right (not_not.mpr ⟨a, ha, hrec⟩)
    exact ⟨rfl, fun key => (hnone key).symm⟩

/-- A PUBLISH without headers. -/
theorem deliver_headers_two_peers :
    let name := CStr.ofBytes [65]
    let inputs : List Input := [.message [1] (wire (.hello name)), .message [2] (wire (.hello name)),
      .message [2] (wire (.subscribe name))]
    let frames := wire (.publish name none [])
    ∀ s s' t, run .literal false inputs = some s →
      step .literal s (.message [1] frames) = some s' → s'.trace = s.trace ++ t →
      ∀ c, ∀ d ∈ deliversIn c t, d.2 = wire d.1 ∧ ∀ key, Zhash.get? d.1.headers key = none := by
  intro name inputs frames
  have hpub := zccpMsgDecode_wire (m := .publish name none []) (by decide)
    (fits_publish (by decide) fitsHeaders_none)
  exact (deliver_headers_iff .literal false inputs [1] frames _ hpub rfl (by decide)).mpr
    (.inl fun key => rfl)

/-- A PUBLISH with one header field: the DELIVER has none. -/
theorem deliver_headers_lost :
    let name := CStr.ofBytes [65]
    let headers := Zhash.empty.insert name name
    let inputs : List Input := [.message [1] (wire (.hello name)), .message [2] (wire (.hello name)),
      .message [2] (wire (.subscribe name))]
    let frames := wire (.publish name (some headers) [])
    HasSession .literal false inputs [1] ∧
      (∃ m, zccpMsgDecode frames = .ok m ∧ m.id = .publish ∧
        Zhash.get? m.headers name = some name) ∧
      (run .literal false (inputs ++ [.message [1] frames])).map (fun s =>
        (deliversIn [2] s.trace).map fun d => Zhash.get? d.1.headers name) = some [none] := by
  intro name headers inputs frames
  have hpub := zccpMsgDecode_wire (m := .publish name (some headers) []) (by decide)
    (fits_publish (by decide) (by
      intro d hd
      obtain rfl := Option.some.inj hd
      decide))
  exact ⟨by decide, ⟨_, hpub, rfl, rfl⟩, by decide +kernel⟩

end Zccp.Broker
