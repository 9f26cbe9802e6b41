import Zccp.Lib.Pairs
import Zccp.Msg.RoundTrip

/-!
# `Zccp/Msg/Walk.lean` — a round trip in whatever order the hash is walked

`zccp_msg_encode` walks the headers twice, to size the frame and to fill it, and nothing says in
which order a `zhash_t` is walked. In the model the order is that of `Zhash.items`; here the two
walks are those of two messages that have the same entries (`Walks`), and the encoder takes one
for each pass (`zccpMsgEncodeWalking`).

`round_trip` is the round trip of the codec for all twelve types.
-/

set_option autoImplicit false

namespace Zccp

open Lib

/-- The same message, with headers that are walked in some other order. -/
structure ZccpMsg.Walks (m m' : ZccpMsg) : Prop where
  fields : m' = { m with headers := m'.headers }
  entries : Option.Rel (fun h h' => h.items.Perm h'.items) m.headers m'.headers

/-- `zccp_msg_encode`, with the walk of its sizing pass and that of its serialisation pass. -/
def zccpMsgEncodeWalking (sized walked : ZccpMsg) : Option (List Frame) := do
  let size ← frameSize sized
  let frame ← fill size (serialise walked)
  some (frame :: contentFrames walked)

theorem zccpMsgEncodeWalking_self (m : ZccpMsg) : zccpMsgEncodeWalking m m = zccpMsgEncode m := rfl

/-- The message `m` as the other end has it: headers are a map, and the same one. -/
structure ZccpMsg.Restores (m m' : ZccpMsg) : Prop where
  fields : m' = { m.received with headers := m'.headers }
  headers : Option.Rel (fun h h' => ∀ key, h'.lookup key = h.lookup key) m.received.headers m'.headers

section Walks

variable {m m' : ZccpMsg}

theorem headersBytes_of_perm {h h' : Option Zhash}
    (hp : Option.Rel (fun h h' => h.items.Perm h'.items) h h') : headersBytes h' = headersBytes h := by
  cases hp with
  | none => rfl
  | some hp => exact ((hp.map _).sum_nat).symm

theorem fitsHeaders_of_perm {h h' : Option Zhash}
    (hp : Option.Rel (fun h h' => h.items.Perm h'.items) h h') (hf : FitsHeaders h) :
    FitsHeaders h' := by
  cases hp with
  | none => exact hf
  | @some h h' hp =>
    obtain ⟨hlen, hitems⟩ := hf h rfl
    intro d hd
    obtain rfl := Option.some.inj hd
    exact ⟨hp.length_eq ▸ hlen, fun p hmem => hitems p (hp.mem_iff.mpr hmem)⟩

theorem frameSize_walks (h : m.Walks m') : frameSize m' = frameSize m := by
  rw [h.fields]
  simp only [frameSize, headersFieldSize, headersBytes_of_perm h.entries]

theorem fits_walks (h : m.Walks m') (hf : m.Fits) : m'.Fits := by
  rw [h.fields]
  have hheaders := fitsHeaders_of_perm h.entries
  unfold ZccpMsg.Fits at hf ⊢
  cases hid : m.id <;> simp only [hid] at hf ⊢
  case hello | subscribe | publish | direct => exact ⟨hf.1, hheaders hf.2⟩
  case deliver => exact ⟨hf.1, hf.2.1, hheaders hf.2.2⟩
  case helloOk | goodbyeOk => exact hheaders hf

theorem lookup_getD_of_perm {h h' : Option Zhash}
    (hp : Option.Rel (fun h h' => h.items.Perm h'.items) h h') (key : CStr) :
    (h'.getD .empty).lookup key = (h.getD .empty).lookup key := by
  have hperm : (h.getD .empty).items.Perm (h'.getD .empty).items :=
    optionRel_getD (r := fun h h' : Zhash => h.items.Perm h'.items) (List.Perm.refl _) hp
  exact (Zhash.lookup_eq_of_perm hperm key).symm

/-- What is read back differs in the order of its headers only. -/
theorem restores_walks (h : m.Walks m') : m.Restores m'.received := by
  have hmap : Option.Rel (fun h h' => ∀ key, h'.lookup key = h.lookup key)
      (some (m.headers.getD .empty)) (some (m'.headers.getD .empty)) :=
    .some (lookup_getD_of_perm h.entries)
  rw [h.fields] at hmap ⊢
  constructor
  · unfold ZccpMsg.received contentFrames
    cases m.id <;> rfl
  · unfold ZccpMsg.received
    cases m.id <;> first | exact hmap | exact .none

end Walks

/-- **The wire round trip of the codec**, whatever the order of either walk. The frame the sizing
pass asks for is the one that the serialisation pass fills, to its last byte, and the message that
is sent is decoded into the one it was. -/
theorem round_trip {m sized walked : ZccpMsg} (hid : m.id ≠ .unset) (hfits : m.Fits)
    (hsized : m.Walks sized) (hwalked : m.Walks walked) :
    ∃ frame, frameSize sized = some frame.length ∧ (serialise walked).flatten = frame ∧
      zccpMsgEncodeWalking sized walked = some (frame :: contentFrames m) ∧
      ∃ m', zccpMsgDecode (frame :: contentFrames m) = .ok m' ∧ m.Restores m' := by
  have hid' : walked.id ≠ .unset := by rwa [hwalked.fields]
  have hcontent : contentFrames walked = contentFrames m := by
    rw [hwalked.fields]
    rfl
  have hsize : frameSize sized = some (serialise walked).flatten.length := by
    rw [frameSize_walks hsized, ← frameSize_walks hwalked, frameSize_eq walked hid']
  refine ⟨(serialise walked).flatten, hsize, rfl, ?_, walked.received, ?_, restores_walks hwalked⟩
  · rw [zccpMsgEncodeWalking, hsize]
    simp only [Option.bind_eq_bind, Option.bind_some, fill_eq rfl, hcontent]
  · rw [← hcontent]
    exact zccpMsgDecode_wire hid' (fits_walks hwalked hfits)

/-- A HELLO_OK with two headers, in the order in which they are walked. -/
def twoHeaders (first second : CStr × CStr) (h : first.1 ≠ second.1) : ZccpMsg :=
  { zccpMsgNew .helloOk with headers := some { items := [first, second], nodup := by simpa using h } }

theorem round_trip_two_headers :
    let m := twoHeaders (.ofBytes [65], .empty) (.empty, .ofBytes [66]) (by decide)
    let walked := twoHeaders (.empty, .ofBytes [66]) (.ofBytes [65], .empty) (by decide)
    ∃ frame, frameSize m = some frame.length ∧ (serialise walked).flatten = frame ∧
      zccpMsgEncodeWalking m walked = some (frame :: contentFrames m) ∧
      ∃ m', zccpMsgDecode (frame :: contentFrames m) = .ok m' ∧ m.Restores m' := by
  intro m walked
  have hsized : m.Walks m := { fields := rfl, entries := .some (List.Perm.refl _) }
  have hwalked : m.Walks walked := { fields := rfl, entries := .some (List.Perm.swap _ _ _) }
  have hfits : m.Fits := by
    intro d hd
    obtain rfl := Option.some.inj hd
    exact ⟨by decide, by decide⟩
  exact round_trip (by decide) hfits hsized hwalked

end Zccp
