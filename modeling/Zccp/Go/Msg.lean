import Zccp.Msg.Raw

/-!
# `Zccp/Go/Msg.lean` — the Go packages

`go/zccp/msg` and `zccp/msg`: `Marshal`, `Send` and `Unmarshal` of their message types. The two
packages are the same program but for the block of constants with the message ids (`Package`); the
one has no type for SUBSCRIBE_OK and so numbers the types behind it differently. The types READY,
REQUEST and REPLY, which only one of them has files for, are in neither block.

A Go string is any bytes. A `[]byte` that is `nil` is `none`. The entries of a map stand in the
order in which `range` walks them, which Go leaves open and no result depends on.

Left out: the capacity that `Marshal` computes for its buffer, which grows as needed; the error
results of the socket; and running out of memory.
-/

set_option autoImplicit false

namespace Zccp.Go

open Lib

/-- `map[string]string` -/
abbrev Headers : Type := AList fun _ : List UInt8 => List UInt8

/-- The message types. -/
inductive Transit
  | hello (identifier : List UInt8) (headers : Headers)
  | helloOk (headers : Headers)
  | subscribe (expression : List UInt8) (headers : Headers)
  | subscribeOk
  | publish (address : List UInt8) (headers : Headers) (content : Option Frame)
  | direct (address : List UInt8) (headers : Headers) (content : Option Frame)
  | deliver (sender address : List UInt8) (headers : Headers) (content : Option Frame)
  | goodbye
  | goodbyeOk (headers : Headers)
  | ping
  | pingOk
  | invalid

def signature : Nat := 0xAAA0 ||| 10

/-- The message ids of a package, which are also the cases of the `switch` in its `Unmarshal`. -/
structure Package where
  ids : List (MsgId × UInt8)

/-- `zccp/msg` -/
def zccpMsg : Package where
  ids := [(.hello, 1), (.helloOk, 2), (.subscribe, 3), (.subscribeOk, 4), (.publish, 5),
    (.direct, 6), (.deliver, 7), (.goodbye, 8), (.goodbyeOk, 9), (.ping, 10), (.pingOk, 11),
    (.invalid, 12)]

/-- `go/zccp/msg` -/
def goZccpMsg : Package where
  ids := [(.hello, 1), (.helloOk, 2), (.subscribe, 3), (.publish, 4), (.direct, 5), (.deliver, 6),
    (.goodbye, 7), (.goodbyeOk, 8), (.ping, 9), (.pingOk, 10), (.invalid, 11)]

/-- `HelloId` and the others. -/
def Package.idOf (package : Package) (id : MsgId) : Option UInt8 := firstValue package.ids id

/-- The package `zccp/msg` was generated from the broker's protocol and has all its ids. -/
theorem idOf_zccpMsg {id : MsgId} (hid : id ≠ .unset) :
    zccpMsg.idOf id = some (UInt8.ofNat id.code) := by
  cases id <;> first | rfl | exact absurd rfl hid

/-- The package `go/zccp/msg` is of an earlier protocol, without SUBSCRIBE_OK: from there on it has
other ids, and agrees with the broker on the first three only. -/
theorem idOf_goZccpMsg_iff (id : MsgId) :
    goZccpMsg.idOf id = some (UInt8.ofNat id.code) ↔
      id ∈ [MsgId.hello, MsgId.helloOk, MsgId.subscribe] := by
  cases id <;> decide

/-- The type that a `case` of the `switch` makes a new message of. -/
def Package.typeOf (package : Package) (code : UInt8) : Option MsgId :=
  (package.ids.find? (·.2 = code)).map Prod.fst

namespace Transit

/-- Which type it is. -/
def id : Transit → MsgId
  | hello _ _ => .hello
  | helloOk _ => .helloOk
  | subscribe _ _ => .subscribe
  | subscribeOk => .subscribeOk
  | publish _ _ _ => .publish
  | direct _ _ _ => .direct
  | deliver _ _ _ _ => .deliver
  | goodbye => .goodbye
  | goodbyeOk _ => .goodbyeOk
  | ping => .ping
  | pingOk => .pingOk
  | invalid => .invalid

theorem id_ne_unset (t : Transit) : t.id ≠ .unset := by
  cases t <;> nofun

/-- Its strings. -/
def texts : Transit → List (List UInt8)
  | hello identifier _ => [identifier]
  | subscribe expression _ => [expression]
  | publish address _ _ => [address]
  | direct address _ _ => [address]
  | deliver sender address _ _ => [sender, address]
  | _ => []

/-- Its headers. -/
def headers : Transit → Headers
  | hello _ headers => headers
  | helloOk headers => headers
  | subscribe _ headers => headers
  | publish _ headers _ => headers
  | direct _ headers _ => headers
  | deliver _ _ headers _ => headers
  | goodbyeOk headers => headers
  | _ => ∅

/-- Its content. -/
def content : Transit → Option Frame
  | publish _ _ content => content
  | direct _ _ content => content
  | deliver _ _ _ content => content
  | _ => none

/-- What it says. -/
def saying (t : Transit) : Saying where
  id := t.id
  texts := t.texts
  headers := fun key => t.headers.lookup key
  content := t.content.toList

/-- What it says if a `nil` content is taken for the empty slice that it is equivalent to. -/
def sayingFilled (t : Transit) : Saying :=
  { t.saying with content := if t.id.hasContent then [t.content.getD []] else [] }

end Transit

/-! ## `Marshal` and `Send` -/

def putString (buffer str : List UInt8) : List UInt8 := buffer ++ (beBytes 1 str.length ++ str)

def putLongString (buffer str : List UInt8) : List UInt8 := buffer ++ (beBytes 4 str.length ++ str)

/-- The headers. -/
def putHeaders (buffer : List UInt8) (headers : Headers) : List UInt8 :=
  headers.entries.foldl (fun buffer e => putLongString (putString buffer e.1) e.2)
    (buffer ++ beBytes 4 headers.entries.length)

/-- `Marshal`; `none` if the package has no such type. -/
def Transit.marshal (package : Package) (t : Transit) : Option Frame := do
  let id ← package.idOf t.id
  let buffer := beBytes 2 signature ++ [id]
  match t with
  | hello identifier headers => some (putHeaders (putString buffer identifier) headers)
  | helloOk headers => some (putHeaders buffer headers)
  | subscribe expression headers => some (putHeaders (putString buffer expression) headers)
  | subscribeOk => some buffer
  | publish address headers _ => some (putHeaders (putString buffer address) headers)
  | direct address headers _ => some (putHeaders (putString buffer address) headers)
  | deliver sender address headers _ =>
    some (putHeaders (putString (putString buffer sender) address) headers)
  | goodbye => some buffer
  | goodbyeOk headers => some (putHeaders buffer headers)
  | ping => some buffer
  | pingOk => some buffer
  | invalid => some buffer

/-- `GetType` of a socket, as far as `Send` looks at it. -/
inductive SocketType
  | router
  | other
deriving DecidableEq, Repr

/-- `Send`: the frames that go out. -/
def Transit.send (package : Package) (socType : SocketType) (routingId : Frame) (t : Transit) :
    Option (List Frame) := do
  let frame ← t.marshal package
  let ahead := if socType = .router then [routingId] else []
  match t with
  | publish _ _ content => some (ahead ++ [frame, content.getD []])
  | direct _ _ content => some (ahead ++ [frame, content.getD []])
  | deliver _ _ _ content => some (ahead ++ [frame, content.getD []])
  | _ => some (ahead ++ [frame])

/-! ## `Unmarshal` -/

/-- `binary.Read` into so many bytes: what has been read, and what is left of the buffer. A buffer
that is too short is used up, and the target keeps what it held; no caller looks at the error. -/
def binaryRead (size : Nat) (buffer : List UInt8) : Option (List UInt8) × List UInt8 :=
  if size ≤ buffer.length then (some (buffer.take size), buffer.drop size) else (none, [])

/-- A number of so many bytes read into a new variable, which is 0 if the buffer is too short. -/
def readNumber (size : Nat) (buffer : List UInt8) : Nat × List UInt8 :=
  let (bytes, buffer) := binaryRead size buffer
  (bytes.elim 0 bigEndian, buffer)

/-- `getString` and `getLongString`, behind a length of `k` bytes: `make ([]byte, size)` is all
zeros. -/
def getSized (k : Nat) (buffer : List UInt8) : List UInt8 × List UInt8 :=
  let (size, buffer) := readNumber k buffer
  let (str, buffer) := binaryRead size buffer
  (str.getD (List.replicate size 0), buffer)

def getString (buffer : List UInt8) : List UInt8 × List UInt8 := getSized 1 buffer

def getLongString (buffer : List UInt8) : List UInt8 × List UInt8 := getSized 4 buffer

/-- `for ; headersSize != 0; headersSize--` -/
def getPairs : Nat → Headers → List UInt8 → Headers
  | 0, headers, _ => headers
  | headersSize + 1, headers, buffer =>
    let (key, buffer) := getString buffer
    let (val, buffer) := getLongString buffer
    getPairs headersSize (headers.insert key val) buffer

/-- The headers, which are the last field. -/
def getHeaders (buffer : List UInt8) : Headers :=
  let (headersSize, buffer) := readNumber 4 buffer
  getPairs headersSize ∅ buffer

/-- How `Unmarshal` fails. -/
inductive GoError
  /-- `can't unmarshal an empty message` -/
  | emptyMessage
  /-- `invalid signature` -/
  | invalidSignature
  /-- `malformed <type> message` -/
  | malformed (id : MsgId)
deriving DecidableEq, Repr

/-- The fields of a type; `frames` are those behind the first. -/
def getTransit (frames : List Frame) (buffer : List UInt8) : MsgId → Transit
  | .hello =>
    let (identifier, buffer) := getString buffer
    .hello identifier (getHeaders buffer)
  | .helloOk => .helloOk (getHeaders buffer)
  | .subscribe =>
    let (expression, buffer) := getString buffer
    .subscribe expression (getHeaders buffer)
  | .subscribeOk => .subscribeOk
  | .publish =>
    let (address, buffer) := getString buffer
    .publish address (getHeaders buffer) frames.head?
  | .direct =>
    let (address, buffer) := getString buffer
    .direct address (getHeaders buffer) frames.head?
  | .deliver =>
    let (sender, buffer) := getString buffer
    let (address, buffer) := getString buffer
    .deliver sender address (getHeaders buffer) frames.head?
  | .goodbye => .goodbye
  | .goodbyeOk => .goodbyeOk (getHeaders buffer)
  | .ping => .ping
  | .pingOk => .pingOk
  | .invalid => .invalid
  -- not reached: no package has an id for it
  | .unset => .invalid

/-- `Unmarshal` of a message type, which looks at the signature and the id once more. -/
def Transit.unmarshal (package : Package) (id : MsgId) (frames : List Frame) :
    Except GoError Transit :=
  match frames with
  | [] => .error .emptyMessage
  | frame :: frames =>
    let (sig, buffer) := readNumber 2 frame
    if sig ≠ signature then .error .invalidSignature
    else
      let (code, buffer) := readNumber 1 buffer
      if package.idOf id ≠ some (UInt8.ofNat code) then .error (.malformed id)
      else .ok (getTransit frames buffer id)

/-- How a call of `Unmarshal` ends. -/
inductive Unmarshalled
  | message (t : Transit)
  | error (err : GoError)
  /-- It calls a method of an interface that is `nil`. -/
  | panics

/-- `Unmarshal`. Without frames it is called with a slice that is `nil`. An empty slice that is not
`nil` passes the test for it and panics at `frames[0]`; no list stands for that one. -/
def unmarshal (package : Package) (frames : List Frame) : Unmarshalled :=
  match frames with
  | [] => .error .emptyMessage
  | frame :: _ =>
    let (sig, buffer) := readNumber 2 frame
    if sig ≠ signature then .error .invalidSignature
    else
      let (code, _) := readNumber 1 buffer
      match package.typeOf (UInt8.ofNat code) with
      | none => .panics
      | some id =>
        match Transit.unmarshal package id frames with
        | .ok t => .message t
        | .error err => .error err

end Zccp.Go
