import Zccp.Broker.Runs
import Zccp.Msg.RoundTrip

/-!
# `Zccp/Broker/Malformed.lean` — messages that do not decode

`zccp_msg_recv` answers `NULL` for everything it cannot make a message of: an interrupted wait, a
message without a second frame, another signature, an id out of range, a field that is cut short.
`s_server_client_message` takes every `NULL` for the first of these and answers -1, at which the
reactor stops. So the callback is harmless, since nothing is touched on that path, but it is the
last one: `survives_iff` says that the reactor goes on if and only if the message is well-formed.
-/

set_option autoImplicit false

namespace Zccp.Broker

open Lib CursorList

variable {z : Czmq} {verbose : Bool}

/-- What is to be said of a message: the reactor goes on, and a message that cannot be decoded
changes nothing and is told to nobody else. -/
def Survives (z : Czmq) (s : Server) (routingId : Frame) (frames : List Frame) : Prop :=
  ∃ s', handle z (.message routingId frames) s = some (s', 0) ∧
    ((∀ m, zccpMsgDecode frames ≠ .ok m) →
      s'.core = s.core ∧ ∀ c, c ≠ routingId → s'.sentTo c = s.sentTo c)

/-- **Malformed messages.** In every reachable state and for every message from every peer, the
message is survived if and only if it is well-formed; and if it is not, the whole server is as it
was, its trace included, with the return code -1. -/
theorem survives_iff (z : Czmq) (verbose : Bool) (inputs : List Input) (s : Server)
    (hs : run z verbose inputs = some s) (routingId : Frame) (frames : List Frame) :
    (Survives z s routingId frames ↔ WellFormed frames) ∧
      (¬ WellFormed frames → handle z (.message routingId frames) s = some (s, -1)) := by
  have hmalformed : ¬ WellFormed frames →
      handle z (.message routingId frames) s = some (s, -1) := by
    intro h
    apply handle_malformed
    intro m hm
    exact h ((zccpMsgDecode_ok_iff frames).mp ⟨m, hm⟩)
  refine ⟨?_, hmalformed⟩
  constructor
  · rintro ⟨s', hs', -⟩
    by_contra h
    rw [hmalformed h, Option.some.injEq, Prod.mk.injEq] at hs'
    exact absurd hs'.2 (by decide)
  · intro h
    obtain ⟨m, hm⟩ := (zccpMsgDecode_ok_iff frames).mpr h
    obtain ⟨s', t, hs', -, -⟩ := handle_spec (implements_of_run hs).inv
      (show (Input.message routingId frames).Decodable from ⟨m, hm⟩)
    exact ⟨s', hs', fun hno => absurd hm (hno m)⟩

/-- A PING, to a broker on which nothing has happened. -/
theorem survives_ping :
    (Survives .literal (.new false) [1] [[0xAA, 0xAA, 10]] ↔ WellFormed [[0xAA, 0xAA, 10]]) ∧
      (¬ WellFormed [[0xAA, 0xAA, 10]] →
        handle .literal (.message [1] [[0xAA, 0xAA, 10]]) (.new false) = some (.new false, -1)) :=
  survives_iff .literal false [] (.new false) rfl [1] [[0xAA, 0xAA, 10]]

/-- One byte from a stranger, while somebody else has a session. -/
theorem survives_not_one_byte :
    let inputs : List Input := [.message [2] (wire (.hello (.ofBytes [65])))]
    HasSession .literal false inputs [2] ∧
      ∀ s, run .literal false inputs = some s → ¬ Survives .literal s [1] [[0]] := by
  intro inputs
  refine ⟨by decide +kernel, ?_⟩
  rintro s - ⟨s', hs', -⟩
  rw [handle_malformed .literal s [1] [[0]] (by intro m hm; cases hm),
    Option.some.injEq, Prod.mk.injEq] at hs'
  exact absurd hs'.2 (by decide)

/-- **Which runs there are**: the reactor gets through exactly the runs of well-formed messages. -/
theorem run_isSome_iff (z : Czmq) (verbose : Bool) (inputs : List Input) :
    (run z verbose inputs).isSome ↔
      ∀ routingId frames, .message routingId frames ∈ inputs → WellFormed frames := by
  constructor
  · intro h routingId frames hmem
    obtain ⟨s, hs⟩ := Option.isSome_iff_exists.mp h
    exact (zccpMsgDecode_ok_iff frames).mp (decodable_of_run hs _ hmem)
  · intro h
    have hd : ∀ i ∈ inputs, i.Decodable := by
      intro i hi
      cases i with
      | expiry routingId => trivial
      | message routingId frames =>
        exact (zccpMsgDecode_ok_iff frames).mpr (h routingId frames hi)
    obtain ⟨s, hs, -, -⟩ := run_refines z verbose hd
    rw [hs]
    rfl

end Zccp.Broker
