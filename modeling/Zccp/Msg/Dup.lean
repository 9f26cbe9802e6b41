import Zccp.Msg.Raw
import Zccp.Msg.Walk

/-!
# `Zccp/Msg/Dup.lean` — duplicates, and those of C

A duplicate is there to be sent in place of its original. What that takes is said once for all the
programs that have such a function (`Codec.Duplicates`): what is heard of the one is what is heard of
the other. None of the functions writes to the message it is given, so that it is an argument here and
not part of the result.

In C it is `zccp_msg_dup`, and `zccp_msg_send_again` sends what it returns.
-/

set_option autoImplicit false

namespace Zccp

open Lib

/-! ## What a duplicate is for -/

/-- A multipart message that goes out, with the routing id that stands in front on a `ROUTER`. -/
structure Sent where
  routingId : Option Frame
  frames : List Frame
deriving DecidableEq

/-- What there is to be heard of it: what it says, if it can be decoded, and the frames behind the
first. -/
@[ext] structure Heard where
  routingId : Option Frame
  said : Option Saying
  content : List Frame

def heard (sent : Sent) : Heard where
  routingId := sent.routingId
  said :=
    match zccpMsgDecode sent.frames with
    | .ok m => some m.saying
    | .error _ => none
  content := sent.frames.tail

theorem heard_of_decode {frames : List Frame} {m : ZccpMsg} (h : zccpMsgDecode frames = .ok m)
    (routingId : Option Frame) : heard ⟨routingId, frames⟩ = ⟨routingId, some m.saying, frames.tail⟩ := by
  rw [heard, h]

/-- A program that duplicates messages and sends them, on a `ROUTER` or on another socket. Which of
several multipart messages it sends depends on the order in which the headers are walked. -/
structure Codec (M : Type) where
  /-- `none` if it fails. -/
  dup : M → Option M
  routingId : M → Option Frame
  sends : Bool → M → Sent → Prop
  /-- The strings and the headers fit the lengths that they are sent with. -/
  fits : M → Prop

namespace Codec

variable {M : Type} (codec : Codec M)

/-- To send a copy is as good as to send the original. -/
structure Resends (m copy : M) : Prop where
  routingId : codec.routingId copy = codec.routingId m
  /-- What may be heard of the copy is what may be heard of the original. -/
  heard_iff : ∀ router said, (∃ sent, codec.sends router copy sent ∧ heard sent = said) ↔
    ∃ sent, codec.sends router m sent ∧ heard sent = said
  /-- If the message fits, the same is heard whichever of the two is sent, and in whatever order its
  headers are walked. -/
  settled : codec.fits m → ∀ router sent sent', codec.sends router m sent →
    codec.sends router copy sent' → heard sent' = heard sent

/-- **A message is duplicated.** -/
def Duplicates (m : M) : Prop := ∃ copy, codec.dup m = some copy ∧ codec.Resends m copy

variable {codec}

/-- It is enough that the same goes out, and that there is one thing to be heard of the original. -/
theorem Resends.of_sends {m copy : M} (hroutingId : codec.routingId copy = codec.routingId m)
    (hsends : ∀ router sent, codec.sends router copy sent ↔ codec.sends router m sent)
    (hsettled : codec.fits m → ∀ router sent sent', codec.sends router m sent →
      codec.sends router m sent' → heard sent' = heard sent) : codec.Resends m copy where
  routingId := hroutingId
  heard_iff router said := by simp only [hsends]
  settled hfits router sent sent' hsent hsent' :=
    hsettled hfits router sent sent' hsent ((hsends router sent').mp hsent')

end Codec

/-! ## `zccp_msg_dup` and `zccp_msg_send_again` -/

/-- `zccp_msg_dup`, with `zhash_dup`. -/
def zccpMsgDup (zhashDup : Zhash → Zhash) : Option ZccpMsg → Option ZccpMsg
  | none => none
  | some self =>
    let copy := { zccpMsgNew self.id with routingId := self.routingId }
    match self.id with
    | .hello => some { copy with
        identifier := self.identifier, headers := self.headers.map zhashDup }
    | .helloOk => some { copy with headers := self.headers.map zhashDup }
    | .subscribe => some { copy with
        expression := self.expression, headers := self.headers.map zhashDup }
    | .subscribeOk => some copy
    | .publish => some { copy with
        address := self.address, headers := self.headers.map zhashDup, content := self.content }
    | .direct => some { copy with
        address := self.address, headers := self.headers.map zhashDup, content := self.content }
    | .deliver => some { copy with
        sender := self.sender, address := self.address, headers := self.headers.map zhashDup,
        content := self.content }
    | .goodbye => some copy
    | .goodbyeOk => some { copy with headers := self.headers.map zhashDup }
    | .ping => some copy
    | .pingOk => some copy
    | .invalid => some copy
    | .unset => some copy

/-- The routing id in front of a message to a `ROUTER`, where it must be set. -/
def prependRoutingId (router : Bool) (routingId : Option Frame) (frames : List Frame) : Option Sent :=
  if router then routingId.map fun routingId => ⟨some routingId, frames⟩ else some ⟨none, frames⟩

/-- `zccp_msg_send`, with the two walks of its headers. -/
def zccpMsgSend (router : Bool) (sized walked : ZccpMsg) : Option Sent := do
  let frames ← zccpMsgEncodeWalking sized walked
  prependRoutingId router walked.routingId frames

namespace ZccpMsg

/-- What it may send. -/
def Sends (router : Bool) (self : ZccpMsg) (sent : Sent) : Prop :=
  ∃ sized walked, self.Walks sized ∧ self.Walks walked ∧ zccpMsgSend router sized walked = some sent

/-- What `zccp_msg_send_again` may send. -/
def SendsAgain (zhashDup : Zhash → Zhash) (router : Bool) (self : ZccpMsg) (sent : Sent) : Prop :=
  ∃ copy, zccpMsgDup zhashDup (some self) = some copy ∧ copy.Sends router sent

end ZccpMsg

/-- C, as far as that goes. -/
def cCodec (zhashDup : Zhash → Zhash) : Codec ZccpMsg where
  dup self := zccpMsgDup zhashDup (some self)
  routingId := ZccpMsg.routingId
  sends := ZccpMsg.Sends
  fits self := self.id ≠ .unset ∧ self.Fits

/-! ## What goes out -/

theorem putFields_eq (self : ZccpMsg) :
    putFields self = self.texts.flatMap putStringField ++
      if self.id.hasHeaders then putHeaders self.headers else [] := by
  obtain ⟨routingId, id, identifier, headers, expression, address, content, sender⟩ := self
  cases id <;> simp [putFields, ZccpMsg.texts, MsgId.hasHeaders]

/-- Messages with the same fields but for the order of their headers; of those that their type does not
have nothing is said. -/
structure ZccpMsg.Alike (m m' : ZccpMsg) : Prop where
  routingId : m'.routingId = m.routingId
  id : m'.id = m.id
  texts : m'.texts = m.texts
  headers : m.id.hasHeaders = true →
    Option.Rel (fun h h' => h.items.Perm h'.items) m.headers m'.headers
  content : contentFrames m' = contentFrames m

theorem ZccpMsg.Alike.symm {m m' : ZccpMsg} (h : m.Alike m') : m'.Alike m where
  routingId := h.routingId.symm
  id := h.id.symm
  texts := h.texts.symm
  headers hid := optionRel_symm List.Perm.symm (h.headers (h.id ▸ hid))
  content := h.content.symm

/-- What goes out of a message depends on the fields of its type. -/
theorem wire_congr {m m' : ZccpMsg} (hid : m'.id = m.id) (htexts : m'.texts = m.texts)
    (hheaders : m.id.hasHeaders = true → m'.headers = m.headers)
    (hcontent : contentFrames m' = contentFrames m) : wire m' = wire m := by
  have hfields : putFields m' = putFields m := by
    rw [putFields_eq, putFields_eq, htexts, hid]
    split
    · rw [hheaders ‹_›]
    · rfl
  rw [wire, wire, serialise, serialise, hfields, hid, hcontent]

/-- Each way to walk the headers of the one is a way to walk those of the other. -/
theorem ZccpMsg.Alike.walks {m m' w' : ZccpMsg} (h : m.Alike m') (hw' : m'.Walks w') :
    ∃ w, m.Walks w ∧ wire w = wire w' := by
  obtain ⟨hfields, hentries⟩ := hw'
  have hid : w'.id = m.id := by
    rw [hfields]
    exact h.id
  have htexts : w'.texts = m.texts := by
    rw [hfields]
    exact h.texts
  have hcontent : contentFrames w' = contentFrames m := by
    rw [hfields]
    exact h.content
  by_cases hhas : m.id.hasHeaders = true
  · refine ⟨{ m with headers := w'.headers }, ⟨rfl, ?_⟩, ?_⟩
    · exact optionRel_trans List.Perm.trans (h.headers hhas) hentries
    · exact wire_congr hid.symm htexts.symm (fun _ => rfl) hcontent.symm
  · refine ⟨m, ⟨rfl, optionRel_refl (fun h => List.Perm.refl h.items) _⟩, ?_⟩
    refine wire_congr hid.symm htexts.symm (fun hw => ?_) hcontent.symm
    rw [hid] at hw
    exact absurd hw hhas

/-- The walk that sizes the frame makes no difference. -/
theorem sends_iff {self : ZccpMsg} (hid : self.id ≠ .unset) (router : Bool) (sent : Sent) :
    self.Sends router sent ↔
      ∃ walked, self.Walks walked ∧ prependRoutingId router self.routingId (wire walked) = some sent := by
  have hsend : ∀ {sized walked}, self.Walks sized → self.Walks walked →
      zccpMsgSend router sized walked = prependRoutingId router self.routingId (wire walked) := by
    intro sized walked hsized hwalked
    have hid' : walked.id ≠ .unset := by rwa [hwalked.fields]
    have hrouting : walked.routingId = self.routingId := by rw [hwalked.fields]
    have hsize : frameSize sized = frameSize walked :=
      (frameSize_walks hsized).trans (frameSize_walks hwalked).symm
    have hencode : zccpMsgEncodeWalking sized walked = some (wire walked) := by
      rw [zccpMsgEncodeWalking, hsize]
      exact zccpMsgEncode_eq hid'
    rw [zccpMsgSend, hencode, hrouting]
    rfl
  constructor
  · rintro ⟨sized, walked, hsized, hwalked, h⟩
    exact ⟨walked, hwalked, (hsend hsized hwalked).symm.trans h⟩
  · rintro ⟨walked, hwalked, h⟩
    exact ⟨walked, walked, hwalked, hwalked, (hsend hwalked hwalked).trans h⟩

/-- A message without a type is not sent at all. -/
theorem not_sends_unset {self : ZccpMsg} (hid : self.id = .unset) (router : Bool) (sent : Sent) :
    ¬ self.Sends router sent := by
  rintro ⟨sized, walked, hsized, -, h⟩
  have hsize : frameSize sized = none := by
    rw [frameSize_walks hsized, frameSize, hid]
  rw [zccpMsgSend, zccpMsgEncodeWalking, hsize] at h
  cases h

/-- **Messages that are alike send the same.** -/
theorem ZccpMsg.Alike.sends_iff {m m' : ZccpMsg} (h : m.Alike m') (router : Bool) (sent : Sent) :
    m'.Sends router sent ↔ m.Sends router sent := by
  have himp : ∀ {m m' : ZccpMsg}, m.Alike m' → m'.Sends router sent → m.Sends router sent := by
    intro m m' h hsent
    by_cases hid : m.id = .unset
    · exact absurd hsent (not_sends_unset (h.id.trans hid) router sent)
    · obtain ⟨w', hw', hout⟩ := (Zccp.sends_iff (h.id ▸ hid) router sent).mp hsent
      obtain ⟨w, hw, hwire⟩ := h.walks hw'
      rw [h.routingId, ← hwire] at hout
      exact (Zccp.sends_iff hid router sent).mpr ⟨w, hw, hout⟩
  exact ⟨himp h, himp h.symm⟩

/-- A copy is like its original. -/
theorem alike_of_dup {zhashDup : Zhash → Zhash} (hdup : ∀ h, (zhashDup h).items.Perm h.items)
    {self copy : ZccpMsg} (h : zccpMsgDup zhashDup (some self) = some copy) : self.Alike copy := by
  have hheaders := optionRel_map (r := fun h h' : Zhash => h.items.Perm h'.items)
    (fun h => (hdup h).symm) self.headers
  obtain ⟨routingId, id, identifier, headers, expression, address, content, sender⟩ := self
  cases id with
  | hello | helloOk | subscribe | publish | direct | deliver | goodbyeOk =>
    obtain rfl := Option.some.inj h
    exact ⟨rfl, rfl, rfl, fun _ => hheaders, rfl⟩
  | _ =>
    obtain rfl := Option.some.inj h
    refine ⟨rfl, rfl, rfl, ?_, rfl⟩
    intro hhas
    cases hhas

theorem exists_dup (zhashDup : Zhash → Zhash) (self : ZccpMsg) :
    ∃ copy, zccpMsgDup zhashDup (some self) = some copy := by
  obtain ⟨routingId, id, identifier, headers, expression, address, content, sender⟩ := self
  cases id <;> exact ⟨_, rfl⟩

/-! ## What is heard -/

/-- What a message says does not depend on the order of its headers. -/
theorem saying_restores {m m' : ZccpMsg} (h : m.Restores m') : m'.saying = m.received.saying := by
  obtain ⟨hfields, hheaders⟩ := h
  have hentry : ∀ key, (m'.headers.getD .empty).entry key = (m.received.headers.getD .empty).entry key := by
    intro key
    by_cases hkey : 0 ∈ key
    · rw [Zhash.entry_eq_none _ hkey, Zhash.entry_eq_none _ hkey]
    · rw [Zhash.entry_eq_lookup _ hkey, Zhash.entry_eq_lookup _ hkey]
      rw [optionRel_getD (fun _ => rfl) hheaders]
  rw [hfields] at hentry ⊢
  exact Saying.ext rfl rfl (funext fun key => by simp only [ZccpMsg.saying, hentry]) rfl

/-- **There is one thing to be heard** of a message that fits. -/
theorem heard_sends {self : ZccpMsg} (hid : self.id ≠ .unset) (hfits : self.Fits) {router : Bool}
    {sent : Sent} (h : self.Sends router sent) :
    heard sent = ⟨if router then self.routingId else none, some self.received.saying,
      contentFrames self⟩ := by
  obtain ⟨walked, hwalked, hout⟩ := (sends_iff hid router sent).mp h
  have hid' : walked.id ≠ .unset := by rwa [hwalked.fields]
  have hdecode := zccpMsgDecode_wire hid' (fits_walks hwalked hfits)
  have hsaying := saying_restores (restores_walks hwalked)
  have hcontent : contentFrames walked = contentFrames self := by rw [hwalked.fields]; rfl
  have hheard : ∀ routingId, heard ⟨routingId, wire walked⟩ =
      ⟨routingId, some self.received.saying, contentFrames self⟩ := by
    intro routingId
    rw [heard_of_decode hdecode, hsaying, wire, List.tail_cons, hcontent]
  cases router with
  | false =>
    obtain rfl := Option.some.inj hout
    exact hheard none
  | true =>
    obtain ⟨routingId, hrouting, rfl⟩ := Option.map_eq_some_iff.mp hout
    rw [if_pos rfl, hrouting]
    exact hheard (some routingId)

/-- **C duplicates every message.** -/
theorem duplicates_c {zhashDup : Zhash → Zhash} (hdup : ∀ h, (zhashDup h).items.Perm h.items)
    (self : ZccpMsg) : (cCodec zhashDup).Duplicates self := by
  obtain ⟨copy, hcopy⟩ := exists_dup zhashDup self
  have halike := alike_of_dup hdup hcopy
  refine ⟨copy, hcopy, .of_sends halike.routingId halike.sends_iff ?_⟩
  rintro ⟨hid, hfits⟩ router sent sent' hsent hsent'
  rw [heard_sends hid hfits hsent, heard_sends hid hfits hsent']

/-- `zccp_msg_send_again`, which sends a copy and keeps the message, sends what `zccp_msg_send` does. -/
theorem sendsAgain_iff {zhashDup : Zhash → Zhash} (hdup : ∀ h, (zhashDup h).items.Perm h.items)
    (self : ZccpMsg) (router : Bool) (sent : Sent) :
    self.SendsAgain zhashDup router sent ↔ self.Sends router sent := by
  constructor
  · rintro ⟨copy, hcopy, hsent⟩
    exact ((alike_of_dup hdup hcopy).sends_iff router sent).mp hsent
  · intro hsent
    obtain ⟨copy, hcopy⟩ := exists_dup zhashDup self
    exact ⟨copy, hcopy, ((alike_of_dup hdup hcopy).sends_iff router sent).mpr hsent⟩

end Zccp
