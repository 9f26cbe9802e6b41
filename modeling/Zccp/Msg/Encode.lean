import Zccp.Lib.Bytes
import Zccp.Msg.Types

/-!
# `Zccp/Msg/Encode.lean` — `zccp_msg_encode`

Two passes that have to agree and are written independently: `frameSize` adds up the size of the
first frame, the stores of `serialise` then fill it. The buffer between them is `fill`: a store
that would run past the allocated size is an overflow (`none`), and bytes that no store reaches
keep what the allocator left there, for which zeros stand in. `zccpMsgEncode_eq` says that
neither happens.

The walk order of a dictionary is the order of `Zhash.items`.
-/

set_option autoImplicit false

namespace Zccp

open Lib

/-! ## The sizing pass -/

/-- What a string field adds: one octet, and `strlen` if it is not `NULL`. -/
def stringFieldSize : Option CStr → Nat
  | none => 1
  | some s => 1 + s.strlen

/-- `headers_bytes`, which stays at the zero it was allocated with when there are no headers. -/
def headersBytes : Option Zhash → Nat
  | none => 0
  | some h => (h.items.map fun p => 1 + p.1.strlen + (4 + p.2.strlen)).sum

/-- What a dictionary field adds. -/
def headersFieldSize (headers : Option Zhash) : Nat := 4 + headersBytes headers

/-- The first `switch` of the encoder; `none` is its `assert (false)`. -/
def frameSize (self : ZccpMsg) : Option Nat :=
  match self.id with
  | .hello => some (2 + 1 + stringFieldSize self.identifier + headersFieldSize self.headers)
  | .helloOk => some (2 + 1 + headersFieldSize self.headers)
  | .subscribe => some (2 + 1 + stringFieldSize self.expression + headersFieldSize self.headers)
  | .subscribeOk => some (2 + 1)
  | .publish => some (2 + 1 + stringFieldSize self.address + headersFieldSize self.headers)
  | .direct => some (2 + 1 + stringFieldSize self.address + headersFieldSize self.headers)
  | .deliver => some (2 + 1 + stringFieldSize self.sender + stringFieldSize self.address +
      headersFieldSize self.headers)
  | .goodbye => some (2 + 1)
  | .goodbyeOk => some (2 + 1 + headersFieldSize self.headers)
  | .ping => some (2 + 1)
  | .pingOk => some (2 + 1)
  | .invalid => some (2 + 1)
  | .unset => none

/-! ## The serialisation pass -/

/-- `PUT_STRING`: the length is stored through a `byte`, so only its low eight bits are. -/
def putString (s : CStr) : List (List UInt8) := [beBytes 1 s.strlen, s.bytes]

def putLongstr (s : CStr) : List (List UInt8) := [beBytes 4 s.strlen, s.bytes]

/-- A string field: an empty string for `NULL`. -/
def putStringField : Option CStr → List (List UInt8)
  | none => [beBytes 1 0]
  | some s => putString s

/-- A dictionary field: an empty dictionary for `NULL`. -/
def putHeaders : Option Zhash → List (List UInt8)
  | none => [beBytes 4 0]
  | some h => beBytes 4 h.items.length :: h.items.flatMap fun p => putString p.1 ++ putLongstr p.2

/-- The second `switch` of the encoder: the blocks a type stores, in order. -/
def putFields (self : ZccpMsg) : List (List UInt8) :=
  match self.id with
  | .hello => putStringField self.identifier ++ putHeaders self.headers
  | .helloOk => putHeaders self.headers
  | .subscribe => putStringField self.expression ++ putHeaders self.headers
  | .publish => putStringField self.address ++ putHeaders self.headers
  | .direct => putStringField self.address ++ putHeaders self.headers
  | .deliver => putStringField self.sender ++ (putStringField self.address ++
      putHeaders self.headers)
  | .goodbyeOk => putHeaders self.headers
  | _ => []

/-- All the stores, the signature and the id first. -/
def serialise (self : ZccpMsg) : List (List UInt8) :=
  beBytes 2 (0xAAA0 ||| 10) :: beBytes 1 self.id.code :: putFields self

/-- One store at the needle into a buffer of `size` octets. -/
def store (size : Nat) (written : List UInt8) (block : List UInt8) : Option (List UInt8) :=
  if written.length + block.length ≤ size then some (written ++ block) else none

/-- `zframe_new (NULL, size)` and all the stores into it. -/
def fill (size : Nat) (blocks : List (List UInt8)) : Option Frame :=
  (blocks.foldlM (store size) []).map fun w => w ++ List.replicate (size - w.length) 0

/-- The frames sent behind the first: the content of the three types that have one, and one
empty frame for a `NULL` content. -/
def contentFrames (self : ZccpMsg) : List Frame :=
  match self.id with
  | .publish | .direct | .deliver =>
    match self.content with
    | none => [[]]
    | some content => content
  | _ => []

/-- `zccp_msg_encode`; `none` is a failed assertion or an overflow of the frame. -/
def zccpMsgEncode (self : ZccpMsg) : Option (List Frame) := do
  let size ← frameSize self
  let frame ← fill size (serialise self)
  some (frame :: contentFrames self)

/-! ## The two passes agree -/

theorem foldlM_store (size : Nat) (blocks : List (List UInt8)) (w : List UInt8)
    (h : w.length + blocks.flatten.length ≤ size) :
    blocks.foldlM (store size) w = some (w ++ blocks.flatten) := by
  induction blocks generalizing w with
  | nil => simp
  | cons b bs ih =>
    simp only [List.flatten_cons, List.length_append] at h
    have hs : store size w b = some (w ++ b) := if_pos (by omega)
    have hr := ih (w ++ b) (by rw [List.length_append]; omega)
    simp only [List.foldlM_cons, hs, Option.bind_eq_bind, Option.bind_some, hr,
      List.flatten_cons, List.append_assoc]

theorem fill_eq {size : Nat} {blocks : List (List UInt8)} (h : blocks.flatten.length = size) :
    fill size blocks = some blocks.flatten := by
  unfold fill
  rw [foldlM_store size blocks [] (by simp [h])]
  simp [h]

theorem stringFieldSize_eq (s : Option CStr) :
    (putStringField s).flatten.length = stringFieldSize s := by
  cases s <;> simp [putStringField, putString, stringFieldSize, CStr.strlen]

theorem headersFieldSize_eq (h : Option Zhash) :
    (putHeaders h).flatten.length = headersFieldSize h := by
  cases h with
  | none => simp [putHeaders, headersFieldSize, headersBytes]
  | some h =>
    have hsum : ∀ items : List (CStr × CStr),
        (items.flatMap fun p => putString p.1 ++ putLongstr p.2).flatten.length =
          (items.map fun p => 1 + p.1.strlen + (4 + p.2.strlen)).sum := by
      intro items
      induction items with
      | nil => simp
      | cons p items ih =>
        rw [List.flatMap_cons, List.flatten_append, List.length_append, ih]
        simp [putString, putLongstr, CStr.strlen]
        omega
    simp [putHeaders, headersFieldSize, headersBytes, hsum]

/-- **The sizing pass computes exactly what the serialisation pass writes**, for all types. -/
theorem frameSize_eq (self : ZccpMsg) (hid : self.id ≠ .unset) :
    frameSize self = some (serialise self).flatten.length := by
  have hs := stringFieldSize_eq
  have hh := headersFieldSize_eq
  cases hid' : self.id <;>
    simp only [frameSize, serialise, putFields, hid', List.flatten_cons, List.flatten_append,
      List.length_append, beBytes_length, hs, hh, List.flatten_nil, List.length_nil,
      Option.some.injEq] <;>
    first | omega | exact absurd hid' hid

/-- What goes onto the wire for a message of some type. -/
def wire (self : ZccpMsg) : List Frame := (serialise self).flatten :: contentFrames self

/-- **The encoder never fails on a message that has a type**, and fills its frame exactly. -/
theorem zccpMsgEncode_eq {self : ZccpMsg} (hid : self.id ≠ .unset) :
    zccpMsgEncode self = some (wire self) := by
  simp only [zccpMsgEncode, frameSize_eq self hid, fill_eq rfl, Option.bind_eq_bind,
    Option.bind_some, wire]

end Zccp
