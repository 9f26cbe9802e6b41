import Zccp.Czmq

/-!
# `Zccp/Msg/Types.lean` — the message object

`zccp_msg_t` and its twelve message ids. One structure serves all twelve types: a field that a
type does not use is `none` (`NULL`) in every message of that type that the decoder makes, but
nothing stops a sender from leaving a stale value in one, and the client does; so the structure
does not forbid it.

The id is an enumeration with one extra member, `unset`, for the `zccp_msg_new (0)` with which
every outgoing message starts.
-/

set_option autoImplicit false

namespace Zccp

/-- The `ZCCP_MSG_…` constants, and `unset` for 0. -/
inductive MsgId
  | unset
  | hello
  | helloOk
  | subscribe
  | subscribeOk
  | publish
  | direct
  | deliver
  | goodbye
  | goodbyeOk
  | ping
  | pingOk
  | invalid
deriving DecidableEq, Repr

namespace MsgId

/-- The number on the wire. -/
def code : MsgId → Nat
  | unset => 0
  | hello => 1
  | helloOk => 2
  | subscribe => 3
  | subscribeOk => 4
  | publish => 5
  | direct => 6
  | deliver => 7
  | goodbye => 8
  | goodbyeOk => 9
  | ping => 10
  | pingOk => 11
  | invalid => 12

/-- The case of the decoder's `switch` that a number selects; `none` is its `default`. -/
def ofCode : Nat → Option MsgId
  | 1 => some hello
  | 2 => some helloOk
  | 3 => some subscribe
  | 4 => some subscribeOk
  | 5 => some publish
  | 6 => some direct
  | 7 => some deliver
  | 8 => some goodbye
  | 9 => some goodbyeOk
  | 10 => some ping
  | 11 => some pingOk
  | 12 => some invalid
  | _ => none

theorem ofCode_eq_some_iff {n : Nat} {id : MsgId} :
    ofCode n = some id ↔ id ≠ unset ∧ n = id.code := by
  constructor
  · intro h
    unfold ofCode at h
    split at h <;> cases h <;> exact ⟨by simp, rfl⟩
  · rintro ⟨hne, rfl⟩
    cases id <;> first | exact absurd rfl hne | rfl

theorem code_lt (id : MsgId) : id.code < 256 := by cases id <;> decide

/-- An id fits the one byte that it has on the wire. -/
theorem toNat_ofNat_code (id : MsgId) : (UInt8.ofNat id.code).toNat = id.code := by
  rw [UInt8.toNat_ofNat', Nat.mod_eq_of_lt id.code_lt]

theorem ofCode_ofNat {id : MsgId} (hid : id ≠ unset) :
    ofCode (UInt8.ofNat id.code).toNat = some id := by
  rw [toNat_ofNat_code]
  exact ofCode_eq_some_iff.mpr ⟨hid, rfl⟩

/-- No two ids have the same byte, so the byte tells the type. -/
theorem ofNat_code_inj {id id' : MsgId} (h : UInt8.ofNat id.code = UInt8.ofNat id'.code) :
    id = id' := by
  cases id <;> cases id' <;> first | rfl | exact absurd h (by decide)

end MsgId

/-- `zccp_msg_t`, less the two pointers and the size that only a codec pass in progress uses. -/
structure ZccpMsg where
  routingId : Option Frame
  id : MsgId
  identifier : Option CStr
  headers : Option Zhash
  expression : Option CStr
  address : Option CStr
  content : Option (List Frame)
  sender : Option CStr
deriving DecidableEq

def zccpMsgNew (id : MsgId) : ZccpMsg where
  routingId := none
  id := id
  identifier := none
  headers := none
  expression := none
  address := none
  content := none
  sender := none

namespace ZccpMsg

/-- `zccp_msg_set_routing_id` -/
def setRoutingId (self : ZccpMsg) (routingId : Frame) : ZccpMsg :=
  { self with routingId := some routingId }

/-- `zccp_msg_set_id` -/
def setId (self : ZccpMsg) (id : MsgId) : ZccpMsg := { self with id := id }

/-- `zccp_msg_set_expression`: the argument is the *format*, as in all the string setters. -/
def setExpression (z : Czmq) (self : ZccpMsg) (format : CStr) : ZccpMsg :=
  { self with expression := some (z.zsysVprintf format) }

/-- `zccp_msg_set_address` -/
def setAddress (z : Czmq) (self : ZccpMsg) (format : CStr) : ZccpMsg :=
  { self with address := some (z.zsysVprintf format) }

/-- `zccp_msg_set_sender` -/
def setSender (z : Czmq) (self : ZccpMsg) (format : CStr) : ZccpMsg :=
  { self with sender := some (z.zsysVprintf format) }

/-- `zccp_msg_set_headers` -/
def setHeaders (self : ZccpMsg) (headers : Option Zhash) : ZccpMsg :=
  { self with headers := headers }

/-- `zccp_msg_set_content` -/
def setContent (self : ZccpMsg) (content : Option (List Frame)) : ZccpMsg :=
  { self with content := content }

end ZccpMsg

end Zccp
