import Zccp.Go.Marshal
import Zccp.Java.Send

/-!
# `Zccp/Codecs.lean` — does the broker understand its clients?

Three encoders beside C's own: two Go packages and a Java class. Each of them writes the layout of
the broker, and each of them goes wrong in a place of its own: `go/zccp/msg` in the ids, which are
the broker's for the first three types only, and the Java class in lengths that are counted in units
of UTF-16. `zccp/msg` goes wrong only where the number of headers no longer fits in four bytes.
-/

set_option autoImplicit false

namespace Zccp

open Lib

/-- **When the messages of a client get across**, for each of the three. -/
theorem codecs_transmit_iff {t : Go.Transit} (ht : t.ForC) (routingId : Frame)
    {msg : Java.ZccpMsg} (hmsg : msg.ForC) :
    ((∃ frames, t.send Go.goZccpMsg .other routingId = some frames ∧
        Transmits t.sayingFilled frames) ↔
      t.id ∈ [MsgId.hello, MsgId.helloOk, MsgId.subscribe] ∧ t.headers.entries.length < 2 ^ 32) ∧
    ((∃ frames, t.send Go.zccpMsg .other routingId = some frames ∧
        Transmits t.sayingFilled frames) ↔ t.headers.entries.length < 2 ^ 32) ∧
    ((∃ frames, msg.send = some frames ∧ Transmits msg.saying frames) ↔
      Ascii msg.chars ∧ (frameOf msg.id msg.raw []).length < 2 ^ 31) := by
  have hcount : t.raw.pairs.length = t.headers.entries.length := List.length_map _
  have hfour : 2 ^ 32 = 256 ^ 4 := rfl
  refine ⟨?_, ?_, Java.ZccpMsg.transmits_send_iff hmsg⟩
  · rw [Go.transmits_send_iff Go.goZccpMsg routingId ht, Go.idOf_goZccpMsg_iff, hcount, hfour]
  · rw [Go.transmits_send_iff Go.zccpMsg routingId ht, hcount, hfour]
    exact and_iff_right (Go.idOf_zccpMsg t.id_ne_unset)

/-- A `PUBLISH` without anything in it. -/
theorem forC_publish : (Go.Transit.publish [] ∅ none).ForC where
  texts text htext := by
    obtain rfl := List.mem_singleton.mp htext
    exact ⟨nofun, by decide⟩
  keys key value h := by cases h
  values key value h := by cases h

/-- A `SUBSCRIBE` to an expression of one character. -/
def subscribeTo (c : Char) : Java.ZccpMsg :=
  { Java.ZccpMsg.new .subscribe with expression := some [c] }

theorem forC_subscribeTo : (subscribeTo 'é').ForC where
  id := nofun
  texts text htext := by
    obtain rfl := List.mem_singleton.mp htext
    exact ⟨by decide, by decide⟩
  keys := nofun
  values := nofun

theorem not_ascii_subscribeTo : ¬ Ascii (subscribeTo 'é').chars := by
  intro h
  have hchars : (subscribeTo 'é').chars = ['é'] := rfl
  rw [hchars] at h
  exact absurd (h 'é' (List.mem_singleton_self _)) (by decide)

theorem codecs_transmit_publish_subscribe :
    (¬ ∃ frames, (Go.Transit.publish [] ∅ none).send Go.goZccpMsg .other [] = some frames ∧
      Transmits (Go.Transit.publish [] ∅ none).sayingFilled frames) ∧
    (∃ frames, (Go.Transit.publish [] ∅ none).send Go.zccpMsg .other [] = some frames ∧
      Transmits (Go.Transit.publish [] ∅ none).sayingFilled frames) ∧
    ¬ ∃ frames, (subscribeTo 'é').send = some frames ∧
      Transmits (subscribeTo 'é').saying frames := by
  obtain ⟨hgo, hzccp, hjava⟩ := codecs_transmit_iff forC_publish [] forC_subscribeTo
  refine ⟨?_, hzccp.mpr (Nat.pow_pos (Nat.zero_lt_succ _)), ?_⟩
  · rw [hgo]
    exact fun h => absurd h.1 (by decide)
  · rw [hjava]
    exact fun h => not_ascii_subscribeTo h.1

/-- What happens to the two of them: the broker takes the one for a `SUBSCRIBE_OK`, and the other is
not sent. -/
theorem publish_mistaken_subscribe_lost :
    (∃ frames, (Go.Transit.publish [] ∅ none).send Go.goZccpMsg .other [] = some frames ∧
      zccpMsgDecode frames = .ok (zccpMsgNew .subscribeOk)) ∧
    (Go.Transit.publish [] ∅ none).ForC ∧
    (subscribeTo 'é').send = none ∧ (subscribeTo 'é').ForC := by
  refine ⟨⟨_, rfl, ?_⟩, forC_publish, ?_, forC_subscribeTo⟩
  · have hid : MsgId.subscribeOk ≠ .unset := nofun
    exact zccpMsgDecode_frameOf hid (Raw.valid_nil rfl) _ _
  · rw [Option.eq_none_iff_forall_ne_some]
    intro frames h
    exact not_ascii_subscribeTo ((Java.send_eq_some_iff _ _).mp h).1

end Zccp
