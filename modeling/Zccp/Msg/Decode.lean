import Zccp.Lib.Reader
import Zccp.Msg.Types

/-!
# `Zccp/Msg/Decode.lean` — `zccp_msg_decode`

The decoder, case by case. Its two error labels are two constructors: `empty` is silent,
`malformed` logs the message id read so far. A third, `wild`, is not in the source: it is a read
outside the frame, which `zccpMsgDecode_ne_wild` (`Zccp/Msg/Format.lean`) excludes.
-/

set_option autoImplicit false

namespace Zccp

open Lib Lib.Reader

/-- `GET_STRING`: a one-byte length, then that many bytes, NUL-terminated by the copy. -/
def getString : Reader CStr := do
  let stringSize ← number 1
  let host ← octets stringSize
  pure (CStr.ofBytes host)

/-- `GET_LONGSTR`: the same behind a four-byte length. -/
def getLongstr : Reader CStr := do
  let stringSize ← number 4
  let host ← octets stringSize
  pure (CStr.ofBytes host)

/-- `while (hash_size--)` of the dictionary block. -/
def getPairs : Nat → Zhash → Reader Zhash
  | 0, headers => pure headers
  | hashSize + 1, headers => do
    let key ← getString
    let value ← getLongstr
    getPairs hashSize (headers.insert key value)

/-- The dictionary block: a four-byte count, then that many key and value strings. -/
def getDictionary : Reader Zhash := do
  let hashSize ← number 4
  getPairs hashSize Zhash.empty

/-- The `switch (self->id)` of the decoder. `rest` is what the message holds behind the frame
being read, which the three types with a content take as it is. -/
def getFields (rest : List Frame) (id : MsgId) : Reader ZccpMsg :=
  match id with
  | .hello => do
    let identifier ← getString
    let headers ← getDictionary
    pure { zccpMsgNew .hello with identifier := some identifier, headers := some headers }
  | .helloOk => do
    let headers ← getDictionary
    pure { zccpMsgNew .helloOk with headers := some headers }
  | .subscribe => do
    let expression ← getString
    let headers ← getDictionary
    pure { zccpMsgNew .subscribe with expression := some expression, headers := some headers }
  | .publish => do
    let address ← getString
    let headers ← getDictionary
    pure { zccpMsgNew .publish with
      address := some address, headers := some headers, content := some rest }
  | .direct => do
    let address ← getString
    let headers ← getDictionary
    pure { zccpMsgNew .direct with
      address := some address, headers := some headers, content := some rest }
  | .deliver => do
    let sender ← getString
    let address ← getString
    let headers ← getDictionary
    pure { zccpMsgNew .deliver with
      sender := some sender, address := some address, headers := some headers,
      content := some rest }
  | .goodbyeOk => do
    let headers ← getDictionary
    pure { zccpMsgNew .goodbyeOk with headers := some headers }
  | .subscribeOk => pure (zccpMsgNew .subscribeOk)
  | .goodbye => pure (zccpMsgNew .goodbye)
  | .ping => pure (zccpMsgNew .ping)
  | .pingOk => pure (zccpMsgNew .pingOk)
  | .invalid => pure (zccpMsgNew .invalid)
  -- not reached: the `default` of the switch is `MsgId.ofCode`'s `none`
  | .unset => pure (zccpMsgNew .unset)

/-- How decoding ends without a message. -/
inductive DecodeError
  /-- `empty`: no frame, or another signature; nothing is logged. -/
  | empty
  /-- `malformed`: logged as `malformed message '<id>'`, with the id read so far. -/
  | malformed (id : Nat)
  /-- A read outside the frame. -/
  | wild
deriving DecidableEq, Repr

/-- `goto malformed`, as seen from where `self->id` is `id`. -/
def DecodeError.ofRead (id : Nat) : ReadError → DecodeError
  | .malformed => .malformed id
  | .wild => .wild

def zccpMsgDecode : List Frame → Except DecodeError ZccpMsg
  | [] => .error .empty
  | frame :: rest =>
    match number 2 frame 0 with
    | .error e => .error (.ofRead 0 e)
    | .ok (signature, needle) =>
      if signature ≠ (0xAAA0 ||| 10) then .error .empty
      else
        match number 1 frame needle with
        | .error e => .error (.ofRead 0 e)
        | .ok (code, needle) =>
          match MsgId.ofCode code with
          | none => .error (.malformed code)
          | some id =>
            match getFields rest id frame needle with
            | .error e => .error (.ofRead code e)
            | .ok (self, _) => .ok self

end Zccp
