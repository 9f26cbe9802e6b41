import Zccp.Lib.Unicode
import Zccp.Lib.Multipart
import Zccp.Msg.Raw

/-!
# `Zccp/Java/ZccpMsg.lean` — the Java class

`send` and `recv` of `ZccpMsg.java`. A `String` is a list of characters, measured in units of UTF-16
by `length` and written in UTF-8 by `getBytes`; unpaired surrogates are left out. A field that is
`null` is `none`, and a call that ends in an exception of the runtime is `none` too, or answers
`null` where the class catches it.

Left out: `needle` and `headersBytes` as fields, which no call leaves to the next; the methods that
set and get fields; interrupted reads, the type of the socket that `send` is given, and running out
of memory.
-/

set_option autoImplicit false

namespace Zccp.Java

open Lib Lib.Reader

/-- `String` -/
abbrev Str : Type := List Char

/-- `Map <String, String>`, in the order in which `entrySet` is walked. -/
abbrev Headers : Type := AList fun _ : Str => Str

structure ZccpMsg where
  routingId : Option Frame
  id : MsgId
  identifier : Option Str
  headers : Option Headers
  expression : Option Str
  address : Option Str
  content : Option (List Frame)
  sender : Option Str

/-- `new ZccpMsg (id)` -/
def ZccpMsg.new (id : MsgId) : ZccpMsg where
  routingId := none
  id := id
  identifier := none
  headers := none
  expression := none
  address := none
  content := none
  sender := none

/-- `value.length ()` -/
def length (value : Str) : Int32 := Int32.ofNat (utf16Length value)

/-! ## `send` -/

/-- `ByteBuffer`, as far as it has been written. -/
structure ByteBuffer where
  capacity : Nat
  bytes : List UInt8

namespace ByteBuffer

/-- `ByteBuffer.wrap (new byte [size])`; a `NegativeArraySizeException` is `none`. -/
def wrap (size : Int32) : Option ByteBuffer :=
  if size < 0 then none else some { capacity := size.toNatClampNeg, bytes := [] }

/-- `put`; a `BufferOverflowException` is `none`. -/
def put (needle : ByteBuffer) (bytes : List UInt8) : Option ByteBuffer :=
  if needle.bytes.length + bytes.length ≤ needle.capacity then
    some { needle with bytes := needle.bytes ++ bytes }
  else none

/-- The array behind it. -/
def array (needle : ByteBuffer) : List UInt8 :=
  needle.bytes ++ List.replicate (needle.capacity - needle.bytes.length) 0

def putNumber1 (needle : ByteBuffer) (value : Nat) : Option ByteBuffer := needle.put (beBytes 1 value)

def putNumber2 (needle : ByteBuffer) (value : Nat) : Option ByteBuffer := needle.put (beBytes 2 value)

def putNumber4 (needle : ByteBuffer) (value : Nat) : Option ByteBuffer := needle.put (beBytes 4 value)

/-- `putString`: the length is the number of units, in one byte. -/
def putString (needle : ByteBuffer) (value : Str) : Option ByteBuffer := do
  let needle ← needle.put (beBytes 1 (utf16Length value))
  needle.put (utf8 value)

def putLongString (needle : ByteBuffer) (value : Str) : Option ByteBuffer := do
  let needle ← needle.put (beBytes 4 (utf16Length value))
  needle.put (utf8 value)

/-- A string field, which is empty if it is `null`. -/
def putField (needle : ByteBuffer) : Option Str → Option ByteBuffer
  | some value => needle.putString value
  | none => needle.putNumber1 0

/-- One header. -/
def putEntry (needle : ByteBuffer) (entry : Sigma fun _ : Str => Str) : Option ByteBuffer := do
  let needle ← needle.putString entry.1
  needle.putLongString entry.2

/-- The headers. -/
def putHeaders (needle : ByteBuffer) : Option Headers → Option ByteBuffer
  | some headers => do
    let needle ← needle.putNumber4 headers.entries.length
    headers.entries.foldlM putEntry needle
  | none => needle.putNumber4 0

end ByteBuffer

/-- What a string field adds to `frameSize`. -/
def fieldSize (value : Option Str) : Int32 := 1 + value.elim 0 length

/-- What the headers add. -/
def headersSize : Option Headers → Int32
  | some headers =>
    4 + headers.entries.foldl
      (fun headersBytes entry => headersBytes + (1 + length entry.1) + (4 + length entry.2)) 0
  | none => 4

namespace ZccpMsg

def frameSize (self : ZccpMsg) : Int32 :=
  match self.id with
  | .hello => 3 + fieldSize self.identifier + headersSize self.headers
  | .helloOk => 3 + headersSize self.headers
  | .subscribe => 3 + fieldSize self.expression + headersSize self.headers
  | .subscribeOk => 3
  | .publish => 3 + fieldSize self.address + headersSize self.headers
  | .direct => 3 + fieldSize self.address + headersSize self.headers
  | .deliver => 3 + fieldSize self.sender + fieldSize self.address + headersSize self.headers
  | .goodbye => 3
  | .goodbyeOk => 3 + headersSize self.headers
  | .ping => 3
  | .pingOk => 3
  | .invalid => 3
  -- `E: bad message type`
  | .unset => 3

/-- The `switch` that writes the fields. -/
def putFields (self : ZccpMsg) (needle : ByteBuffer) : Option ByteBuffer :=
  match self.id with
  | .hello => do
    let needle ← needle.putField self.identifier
    needle.putHeaders self.headers
  | .helloOk => needle.putHeaders self.headers
  | .subscribe => do
    let needle ← needle.putField self.expression
    needle.putHeaders self.headers
  | .subscribeOk => some needle
  | .publish => do
    let needle ← needle.putField self.address
    needle.putHeaders self.headers
  | .direct => do
    let needle ← needle.putField self.address
    needle.putHeaders self.headers
  | .deliver => do
    let needle ← needle.putField self.sender
    let needle ← needle.putField self.address
    needle.putHeaders self.headers
  | .goodbye => some needle
  | .goodbyeOk => needle.putHeaders self.headers
  | .ping => some needle
  | .pingOk => some needle
  | .invalid => some needle
  | .unset => some needle

/-- The `switch` that adds the frames of the content. -/
def contentParts (self : ZccpMsg) : List Frame :=
  match self.id with
  | .publish => self.content.getD []
  | .direct => self.content.getD []
  | .deliver => self.content.getD []
  | _ => []

/-- `send`: the frames that go out. -/
def send (self : ZccpMsg) : Option (List Frame) := do
  let needle ← ByteBuffer.wrap self.frameSize
  let needle ← needle.putNumber2 (0xAAA0 ||| 10)
  let needle ← needle.putNumber1 self.id.code
  let needle ← self.putFields needle
  some (needle.array :: self.contentParts)

end ZccpMsg

/-! ## `recv` -/

/-- How `new String` decodes bytes: as UTF-8, where they are that. What it makes of others it leaves
open, but for the NULs in them, which are characters of their own wherever they stand. -/
structure Charset where
  decode : List UInt8 → Str
  decode_utf8 : ∀ s, decode (utf8 s) = s
  nul : ∀ bytes, 0 ∈ bytes → 0 ∈ utf8 (decode bytes)

/-- Any exception, all of which `recv` catches. -/
def throwing {α : Type} : Reader α := fun _ _ => .error .malformed

def getNumber1 : Reader Nat := number 1

def getNumber2 : Reader Nat := number 2

/-- `getNumber4`: `0xffffffff` is an `int`, and masks nothing. -/
def getNumber4 : Reader Int := do
  let value ← number 4
  pure ((value : Int).bmod (2 ^ 32))

/-- `new byte [size]`, and `get` into it. -/
def getBytes (size : Int) : Reader (List UInt8) :=
  if size < 0 then throwing else octets size.toNat

def getString (charset : Charset) : Reader Str := do
  let size ← getNumber1
  let value ← getBytes size
  pure (charset.decode value)

def getLongString (charset : Charset) : Reader Str := do
  let size ← getNumber4
  let value ← getBytes size
  pure (charset.decode value)

/-- `while (hashSize-- > 0)` -/
def getEntries (charset : Charset) : Nat → Headers → Reader Headers
  | 0, headers => pure headers
  | hashSize + 1, headers => do
    let key ← getString charset
    let value ← getLongString charset
    getEntries charset hashSize (headers.insert key value)

/-- The headers. -/
def getHeaders (charset : Charset) : Reader Headers := do
  let hashSize ← getNumber4
  getEntries charset hashSize.toNat ∅

/-- The `switch`, but for the content. -/
def getFields (charset : Charset) (self : ZccpMsg) : MsgId → Reader ZccpMsg
  | .hello => do
    let identifier ← getString charset
    let headers ← getHeaders charset
    pure { self with id := .hello, identifier := some identifier, headers := some headers }
  | .helloOk => do
    let headers ← getHeaders charset
    pure { self with id := .helloOk, headers := some headers }
  | .subscribe => do
    let expression ← getString charset
    let headers ← getHeaders charset
    pure { self with id := .subscribe, expression := some expression, headers := some headers }
  | .subscribeOk => pure { self with id := .subscribeOk }
  | .publish => do
    let address ← getString charset
    let headers ← getHeaders charset
    pure { self with id := .publish, address := some address, headers := some headers }
  | .direct => do
    let address ← getString charset
    let headers ← getHeaders charset
    pure { self with id := .direct, address := some address, headers := some headers }
  | .deliver => do
    let sender ← getString charset
    let address ← getString charset
    let headers ← getHeaders charset
    pure { self with
      id := .deliver, sender := some sender, address := some address, headers := some headers }
  | .goodbye => pure { self with id := .goodbye }
  | .goodbyeOk => do
    let headers ← getHeaders charset
    pure { self with id := .goodbyeOk, headers := some headers }
  | .ping => pure { self with id := .ping }
  | .pingOk => pure { self with id := .pingOk }
  | .invalid => pure { self with id := .invalid }
  | .unset => throwing

/-- What is behind the signature. -/
def getMessage (charset : Charset) (self : ZccpMsg) : Reader ZccpMsg := do
  let id ← getNumber1
  match MsgId.ofCode id with
  | some id => getFields charset self id
  -- `default: throw new IllegalArgumentException ()`
  | none => throwing

/-- How a call of `recv` ends. -/
inductive Received
  /-- It does not: there is no message. -/
  | waits
  | null (input : Inlet Frame)
  | message (self : ZccpMsg) (input : Inlet Frame)

/-- `if (input.hasReceiveMore ()) content.add (ZFrame.recvFrame (input))` -/
def recvContent : Inlet Frame → List Frame × Inlet Frame
  | ⟨part :: more, queue⟩ => ([part], ⟨more, queue⟩)
  | ⟨[], queue⟩ => ([], ⟨[], queue⟩)

/-- What `recv` does when a frame has the signature. An exception leaves the frames that have not
been read where they are. -/
def recvMessage (charset : Charset) (self : ZccpMsg) (frame : Frame) (needle : Nat)
    (input : Inlet Frame) : Received :=
  match getMessage charset self frame needle with
  | .error _ => .null input
  | .ok (self, _) =>
    match self.id with
    | .publish | .direct | .deliver =>
      let (content, input) := recvContent input
      .message { self with content := some content } input
    | _ => .message self input

/-- `self.routingId = ZFrame.recvFrame (input)`, on a ROUTER. -/
def recvRoutingId (router : Bool) (self : ZccpMsg) (input : Inlet Frame) :
    Option (ZccpMsg × Inlet Frame) :=
  if router then
    input.recvFrame.map fun (routingId, input) => ({ self with routingId := some routingId }, input)
  else some (self, input)

theorem recvRoutingId_size {router : Bool} {self self' : ZccpMsg} {input input' : Inlet Frame}
    (h : recvRoutingId router self input = some (self', input')) : input'.size ≤ input.size := by
  cases router with
  | false =>
    cases h
    exact Nat.le_refl _
  | true =>
    obtain ⟨⟨routingId, input''⟩, hrecv, heq⟩ := Option.map_eq_some_iff.mp h
    cases heq
    exact Nat.le_of_lt (Inlet.recvFrame_size hrecv)

/-- The `while (true)`, which goes on when a frame does not have the signature. -/
def recvLoop (charset : Charset) (router : Bool) (self : ZccpMsg) (input : Inlet Frame) :
    Received :=
  match _hrouting : recvRoutingId router self input with
  | none => .waits
  | some (self, input') =>
    -- `if (!input.hasReceiveMore ()) throw new IllegalArgumentException ()`
    if router = true ∧ input'.AtStart then .null input'
    else
      match _hframe : input'.recvFrame with
      | none => .waits
      | some (frame, input'') =>
        match getNumber2 frame 0 with
        | .error _ => .null input''
        | .ok (signature, needle) =>
          if signature = 0xAAA0 ||| 10 then recvMessage charset self frame needle input''
          else recvLoop charset router self input''.flush
termination_by input.size
decreasing_by
  exact Nat.lt_of_le_of_lt (Inlet.flush_size input'')
    (Nat.lt_of_lt_of_le (Inlet.recvFrame_size _hframe) (recvRoutingId_size _hrouting))

def recv (charset : Charset) (router : Bool) (input : Inlet Frame) : Received :=
  recvLoop charset router (ZccpMsg.new .unset) input

/-! ## What a message says -/

namespace ZccpMsg

/-- The string fields of its type. -/
def texts (self : ZccpMsg) : List (Option Str) :=
  match self.id with
  | .hello => [self.identifier]
  | .subscribe => [self.expression]
  | .publish => [self.address]
  | .direct => [self.address]
  | .deliver => [self.sender, self.address]
  | _ => []

/-- Its headers, if its type has any. -/
def headerMap (self : ZccpMsg) : Headers :=
  if self.id.hasHeaders then self.headers.getD ∅ else ∅

/-- Its headers as they would stand in a frame: keys and values in UTF-8, in the map's order. -/
def pairs (self : ZccpMsg) : List (List UInt8 × List UInt8) :=
  (toPairs self.headerMap).map fun p => (utf8 p.1, utf8 p.2)

/-- What it says. -/
def saying (self : ZccpMsg) : Saying where
  id := self.id
  texts := self.texts.map fun s => utf8 (s.getD [])
  headers := firstValue self.pairs
  content := self.contentParts

end ZccpMsg

end Zccp.Java
