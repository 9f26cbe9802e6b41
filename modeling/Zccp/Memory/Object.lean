import Zccp.Lib.Ownership
import Zccp.Msg.Dup

/-!
# `Zccp/Memory/Object.lean` — the message class, pointer by pointer

`zccp_msg.c` again, and this time what it allocates and frees. An object of CZMQ is one block, with
whatever it holds: a hash with its own copies of keys and values, a message with its frames. What is
read from a frame and written to one is left to the readers and the blocks of the model without
pointers (`Zccp/Msg/Decode.lean`, `Zccp/Msg/Encode.lean`).

A pointer is `Option Nat`, and `NULL` is `none`. What C does not define is `undefined`: to use a block
that is not there, or that is another kind of object, and a failed assertion.
-/

set_option autoImplicit false

namespace Zccp

/-- `zhash_update`: a key that is present gets the new value. -/
def Zhash.update (h : Zhash) (key value : CStr) : Zhash :=
  if hk : key ∈ h.items.map Prod.fst then
    { items := h.items.map fun p => if p.1 = key then (key, value) else p
      nodup := by
        have hkeys : (h.items.map fun p => if p.1 = key then (key, value) else p).map Prod.fst =
            h.items.map Prod.fst := by
          rw [List.map_map]
          refine List.map_congr_left fun p _ => ?_
          show (if p.1 = key then (key, value) else p).1 = p.1
          split
          · exact Eq.symm ‹_›
          · rfl
        rw [hkeys]
        exact h.nodup }
  else h.insert key value

namespace Memory

open Lib Lib.Reader

/-! ## Blocks -/

/-- The pointers in a `struct _zccp_msg_t`. -/
inductive Field
  | routingId
  | identifier
  | headers
  | expression
  | address
  | content
  | sender
deriving DecidableEq

/-- `struct _zccp_msg_t`. The needle and the ceiling point into a frame for as long as it is read or
written, and `headers_bytes` is for the sizing pass; they are in those passes. -/
structure MsgObject where
  id : MsgId
  field : Field → Option Nat

def MsgObject.set (o : MsgObject) (f : Field) (p : Option Nat) : MsgObject :=
  { o with field := Function.update o.field f p }

@[simp] theorem MsgObject.id_set (o : MsgObject) (f : Field) (p : Option Nat) : (o.set f p).id = o.id :=
  rfl

@[simp] theorem MsgObject.field_set (o : MsgObject) (f : Field) (p : Option Nat) :
    (o.set f p).field f = p := by simp [MsgObject.set]

theorem MsgObject.field_set_ne (o : MsgObject) {f g : Field} (p : Option Nat) (h : g ≠ f) :
    (o.set f p).field g = o.field g := by simp [MsgObject.set, h]

/-- An object on the heap. -/
inductive Block
  | msg (o : MsgObject)
  | string (s : CStr)
  | hash (h : Zhash)
  | zmsg (frames : List Frame)
  | frame (data : Frame)

/-- A kind of object, as it is made and as it is found. -/
structure Kind (α : Type) where
  make : α → Block
  of? : Block → Option α
  of_make : ∀ a, of? (make a) = some a
  make_of : ∀ b a, of? b = some a → b = make a

namespace Kind

def msg : Kind MsgObject where
  make := .msg
  of?
    | .msg o => some o
    | _ => none
  of_make _ := rfl
  make_of b a h := by
    cases b <;> cases h
    rfl

def string : Kind CStr where
  make := .string
  of?
    | .string s => some s
    | _ => none
  of_make _ := rfl
  make_of b a h := by
    cases b <;> cases h
    rfl

def hash : Kind Zhash where
  make := .hash
  of?
    | .hash h => some h
    | _ => none
  of_make _ := rfl
  make_of b a h := by
    cases b <;> cases h
    rfl

def zmsg : Kind (List Frame) where
  make := .zmsg
  of?
    | .zmsg frames => some frames
    | _ => none
  of_make _ := rfl
  make_of b a h := by
    cases b <;> cases h
    rfl

def frame : Kind Frame where
  make := .frame
  of?
    | .frame data => some data
    | _ => none
  of_make _ := rfl
  make_of b a h := by
    cases b <;> cases h
    rfl

@[simp] theorem make_msg (o : MsgObject) : msg.make o = .msg o := rfl

@[simp] theorem make_string (s : CStr) : string.make s = .string s := rfl

@[simp] theorem make_hash (h : Zhash) : hash.make h = .hash h := rfl

@[simp] theorem make_zmsg (frames : List Frame) : zmsg.make frames = .zmsg frames := rfl

@[simp] theorem make_frame (data : Frame) : frame.make data = .frame data := rfl

end Kind

abbrev Mem (α : Type) := Prog Block α

section Access

variable {α : Type} (kind : Kind α)

/-- The object at an address, which must be one of its kind. -/
def loadAs (p : Nat) : Mem α := do
  match kind.of? (← load p) with
  | some a => pure a
  | none => undefined

/-- A destructor: `NULL` is nothing to it. -/
def destroyAs : Option Nat → Mem Unit
  | none => pure ()
  | some p => do
    let _ ← loadAs kind p
    free p

/-- A copy of what is at an address, if there is one. -/
def dupAs (copy : α → α) : Option Nat → Mem (Option Nat)
  | none => pure none
  | some p => do
    let a ← loadAs kind p
    let p' ← alloc (kind.make (copy a))
    pure (some p')

end Access

/-- What a function is handed to read: something the caller has elsewhere, or what is at an address. -/
inductive Lent (α : Type)
  | given (a : α)
  | kept (p : Nat)

def Lent.read {α : Type} (kind : Kind α) : Lent α → Mem α
  | given a => pure a
  | kept p => loadAs kind p

/-! ## CZMQ -/

/-- `free`, on a string -/
def freeString : Option Nat → Mem Unit := destroyAs .string

def zhashDestroy : Option Nat → Mem Unit := destroyAs .hash

def zmsgDestroy : Option Nat → Mem Unit := destroyAs .zmsg

def zframeDestroy : Option Nat → Mem Unit := destroyAs .frame

def strdup : Option Nat → Mem (Option Nat) := dupAs .string id

def zframeDup : Option Nat → Mem (Option Nat) := dupAs .frame id

def zmsgDup : Option Nat → Mem (Option Nat) := dupAs .zmsg id

/-- `zhash_dup` -/
def zhashCopy (zhashDup : Zhash → Zhash) : Option Nat → Mem (Option Nat) :=
  dupAs .hash zhashDup

/-- `zhash_insert`, which copies what it is handed. -/
def zhashInsert (hash key value : Nat) : Mem Unit := do
  let k ← loadAs .string key
  let v ← loadAs .string value
  let h ← loadAs .hash hash
  assign hash (.hash (h.insert k v))

/-- `zhash_update` -/
def zhashUpdate (hash : Nat) (key : CStr) (value : Nat) : Mem Unit := do
  let v ← loadAs .string value
  let h ← loadAs .hash hash
  assign hash (.hash (h.update key v))

/-- `zmsg_pop`: the frame is the caller's. -/
def zmsgPop (msg : Nat) : Mem (Option Nat) := do
  match ← loadAs .zmsg msg with
  | [] => pure none
  | data :: frames => do
    assign msg (.zmsg frames)
    let frame ← alloc (.frame data)
    pure (some frame)

/-- `zmsg_append`, `zmsg_add`: the frame is the message's. -/
def zmsgAppend (msg frame : Nat) : Mem Unit := do
  let data ← loadAs .frame frame
  free frame
  let frames ← loadAs .zmsg msg
  assign msg (.zmsg (frames ++ [data]))

/-- `zmsg_prepend` -/
def zmsgPrepend (msg frame : Nat) : Mem Unit := do
  let data ← loadAs .frame frame
  free frame
  let frames ← loadAs .zmsg msg
  assign msg (.zmsg (data :: frames))

/-- Frame after frame popped from one message and appended to another, until `n` have been. -/
def moveFrames (source msg : Nat) : Nat → Mem Unit
  | 0 => pure ()
  | n + 1 => do
    match ← zmsgPop source with
    | none => undefined
    | some frame => do
      zmsgAppend msg frame
      moveFrames source msg n

/-- The loops that do so until there is none left. -/
def moveAll (source msg : Nat) : Mem Unit := do
  let frames ← loadAs .zmsg source
  moveFrames source msg frames.length

/-! ## Fields -/

/-- What is done for some of the types only. -/
def guarded (has : Bool) (x : Mem Unit) : Mem Unit := if has then x else pure ()

/-- `self->f = p` -/
def setField (self : Nat) (f : Field) (p : Option Nat) : Mem Unit := do
  let o ← loadAs .msg self
  assign self (.msg (o.set f p))

def zccpMsgNew (id : MsgId) : Mem Nat := alloc (.msg { id := id, field := fun _ => none })

def zccpMsgDestroy : Option Nat → Mem Unit
  | none => pure ()
  | some self => do
    let o ← loadAs .msg self
    zframeDestroy (o.field .routingId)
    freeString (o.field .identifier)
    zhashDestroy (o.field .headers)
    freeString (o.field .expression)
    freeString (o.field .address)
    zmsgDestroy (o.field .content)
    freeString (o.field .sender)
    free self

/-- `zccp_msg_set_id` -/
def zccpMsgSetId (self : Nat) (id : MsgId) : Mem Unit := do
  let o ← loadAs .msg self
  assign self (.msg { o with id := id })

/-- The setters that copy what they are handed: what the field had is freed first. -/
def replaceField {α : Type} (kind : Kind α) (copy : α → α) (f : Field) (self : Nat)
    (lent : Lent α) : Mem Unit := do
  let o ← loadAs .msg self
  destroyAs kind (o.field f)
  let a ← lent.read kind
  let p ← alloc (kind.make (copy a))
  setField self f (some p)

/-- Those of the strings, which are handed a format. -/
def setText (z : Czmq) : Field → Nat → Lent CStr → Mem Unit :=
  replaceField .string z.zsysVprintf

def zccpMsgSetIdentifier (z : Czmq) : Nat → Lent CStr → Mem Unit := setText z .identifier

def zccpMsgSetExpression (z : Czmq) : Nat → Lent CStr → Mem Unit := setText z .expression

def zccpMsgSetAddress (z : Czmq) : Nat → Lent CStr → Mem Unit := setText z .address

def zccpMsgSetSender (z : Czmq) : Nat → Lent CStr → Mem Unit := setText z .sender

def zccpMsgSetRoutingId : Nat → Lent Frame → Mem Unit :=
  replaceField .frame id .routingId

/-- The getters that give a field away. -/
def takeField (f : Field) (self : Nat) : Mem (Option Nat) := do
  let o ← loadAs .msg self
  setField self f none
  pure (o.field f)

def zccpMsgGetHeaders : Nat → Mem (Option Nat) := takeField .headers

def zccpMsgGetContent : Nat → Mem (Option Nat) := takeField .content

/-- The setters that take one. -/
def putField {α : Type} (kind : Kind α) (f : Field) (self : Nat) (p : Option Nat) : Mem Unit := do
  let o ← loadAs .msg self
  destroyAs kind (o.field f)
  setField self f p

def zccpMsgSetHeaders : Nat → Option Nat → Mem Unit := putField .hash .headers

def zccpMsgSetContent : Nat → Option Nat → Mem Unit := putField .zmsg .content

/-- The headers, which are made if there are none. -/
def ensureHeaders (self : Nat) (o : MsgObject) : Mem Nat :=
  match o.field .headers with
  | some headers => pure headers
  | none => do
    let headers ← alloc (.hash .empty)
    setField self .headers (some headers)
    pure headers

def zccpMsgHeadersInsert (z : Czmq) (self : Nat) (key format : CStr) : Mem Unit := do
  let string ← alloc (.string (z.zsysVprintf format))
  let o ← loadAs .msg self
  let headers ← ensureHeaders self o
  zhashUpdate headers key string
  freeString (some string)

/-! ## The fields of a type -/

end Memory

namespace MsgId

open Memory

/-- Its strings, in the order in which they are sent. -/
def textFields : MsgId → List Field
  | .hello => [.identifier]
  | .subscribe => [.expression]
  | .publish => [.address]
  | .direct => [.address]
  | .deliver => [.sender, .address]
  | _ => []

end MsgId

namespace Memory

open Lib Lib.Reader

/-! ## `zccp_msg_decode` -/

/-- A read from the frame at the needle; `none` is `goto malformed`. -/
def readAt {α : Type} (read : Reader α) (frame needle : Nat) : Mem (Option (α × Nat)) := do
  let data ← loadAs .frame frame
  match read data needle with
  | .ok r => pure (some r)
  | .error .malformed => pure none
  | .error .wild => undefined

/-- `GET_STRING` and `GET_LONGSTR`: the string is allocated. -/
def getHost (read : Reader CStr) (frame needle : Nat) : Mem (Option (Nat × Nat)) := do
  match ← readAt read frame needle with
  | none => pure none
  | some (string, needle) => do
    let host ← alloc (.string string)
    pure (some (host, needle))

/-- The strings of a type, each into its field. -/
def getHosts (frame self : Nat) : List Field → Nat → Mem (Option Nat)
  | [], needle => pure (some needle)
  | f :: fields, needle => do
    match ← getHost getString frame needle with
    | none => pure none
    | some (host, needle) => do
      setField self f (some host)
      getHosts frame self fields needle

/-- `while (hash_size--)`: the key and the value are copied by the hash, and freed. Where there is no
value the loop is left with `goto`, and nobody has the key. -/
def insertPairs (frame headers : Nat) : Nat → Nat → Mem (Option Nat)
  | 0, needle => pure (some needle)
  | hashSize + 1, needle => do
    match ← getHost getString frame needle with
    | none => pure none
    | some (key, needle) => do
      match ← getHost getLongstr frame needle with
      | none => pure none
      | some (value, needle) => do
        zhashInsert headers key value
        freeString (some key)
        freeString (some value)
        insertPairs frame headers hashSize needle

/-- The dictionary block. -/
def getHeaders (frame self needle : Nat) : Mem (Option Nat) := do
  match ← readAt (number 4) frame needle with
  | none => pure none
  | some (hashSize, needle) => do
    let headers ← alloc (.hash .empty)
    setField self .headers (some headers)
    insertPairs frame headers hashSize needle

/-- The remaining frames of the message. -/
def getContent (self msg : Nat) : Mem Unit := do
  let content ← alloc (.zmsg [])
  setField self .content (some content)
  moveAll msg content

/-- The `switch` of the decoder: what a type has of strings, headers and content. -/
def getFields (frame self msg : Nat) (id : MsgId) (needle : Nat) : Mem (Option Nat) := do
  match ← getHosts frame self id.textFields needle with
  | none => pure none
  | some needle => do
    match ← (if id.hasHeaders then getHeaders frame self needle else pure (some needle)) with
    | none => pure none
    | some needle => do
      guarded id.hasContent (getContent self msg)
      pure (some needle)

/-- The signature and the id. -/
def getId : Reader (Option MsgId) := do
  let signature ← number 2
  if signature ≠ (0xAAA0 ||| 10) then pure none
  else do
    let code ← number 1
    pure (MsgId.ofCode code)

/-- The `malformed` and `empty` labels. -/
def fail (frame : Option Nat) (msg self : Nat) : Mem (Option Nat) := do
  zframeDestroy frame
  zmsgDestroy (some msg)
  zccpMsgDestroy (some self)
  pure none

/-- The reads jump to `malformed` from wherever they are, so that a key whose value is missing stays behind
(`insertPairs`); all else is destroyed there, or goes into the message. -/
def zccpMsgDecode : Option Nat → Mem (Option Nat)
  | none => pure none
  | some msg => do
    let self ← zccpMsgNew .unset
    match ← zmsgPop msg with
    | none => fail none msg self
    | some frame => do
      match ← readAt getId frame 0 with
      | some (some id, needle) => do
        zccpMsgSetId self id
        match ← getFields frame self msg id needle with
        | none => fail (some frame) msg self
        | some _ => do
          zframeDestroy (some frame)
          zmsgDestroy (some msg)
          pure (some self)
      | _ => fail (some frame) msg self

/-- `zccp_msg_recv`, of what has arrived. On a `ROUTER` the first frame is the routing id. -/
def zccpMsgRecv (router : Bool) (arrived : List Frame) : Mem (Option Nat) := do
  let msg ← alloc (.zmsg arrived)
  if router then do
    match ← zmsgPop msg with
    | none => pure none
    | some routingId => do
      let frames ← loadAs .zmsg msg
      if frames.isEmpty then pure none
      else do
        match ← zccpMsgDecode (some msg) with
        | none => pure none
        | some self => do
          setField self .routingId (some routingId)
          pure (some self)
  else zccpMsgDecode (some msg)

/-! ## `zccp_msg_encode` -/

/-- A field that is read if the type has it. -/
def readField {α : Type} (kind : Kind α) (has : Bool) (p : Option Nat) : Mem (Option α) :=
  match has, p with
  | true, some p => some <$> loadAs kind p
  | _, _ => pure none

/-- What the sizing pass and the serialisation pass read. -/
def readFields (self : Nat) : Mem ZccpMsg := do
  let o ← loadAs .msg self
  let text (f : Field) := readField .string (o.id.textFields.contains f) (o.field f)
  let identifier ← text .identifier
  let expression ← text .expression
  let address ← text .address
  let sender ← text .sender
  let headers ← readField .hash o.id.hasHeaders (o.field .headers)
  pure { Zccp.zccpMsgNew o.id with
    identifier := identifier, expression := expression, address := address, sender := sender,
    headers := headers }

/-- The content behind the first frame, or an empty frame. -/
def addContent (msg : Nat) : Option Nat → Mem Unit
  | some content => moveAll content msg
  | none => do
    let frame ← alloc (.frame [])
    zmsgAppend msg frame

def zccpMsgEncode (self : Nat) : Mem Nat := do
  let msg ← alloc (.zmsg [])
  let fields ← readFields self
  match (frameSize fields).bind fun size => fill size (serialise fields) with
  | none => undefined
  | some data => do
    let frame ← alloc (.frame data)
    zmsgAppend msg frame
    let o ← loadAs .msg self
    guarded o.id.hasContent (addContent msg (o.field .content))
    zccpMsgDestroy (some self)
    pure msg

/-! ## `zccp_msg_dup`, `zccp_msg_send` -/

/-- `copy->f = self->f? dup (self->f): NULL` -/
def copyField (dup : Option Nat → Mem (Option Nat)) (o : MsgObject) (copy : Nat) (f : Field) :
    Mem Unit := do
  let p ← dup (o.field f)
  setField copy f p

def copyTexts (o : MsgObject) (copy : Nat) : List Field → Mem Unit
  | [] => pure ()
  | f :: fields => do
    copyField strdup o copy f
    copyTexts o copy fields

def zccpMsgDup (zhashDup : Zhash → Zhash) : Option Nat → Mem (Option Nat)
  | none => pure none
  | some self => do
    let o ← loadAs .msg self
    let copy ← zccpMsgNew o.id
    copyField zframeDup o copy .routingId
    copyTexts o copy o.id.textFields
    guarded o.id.hasHeaders (copyField (zhashCopy zhashDup) o copy .headers)
    guarded o.id.hasContent (copyField zmsgDup o copy .content)
    pure (some copy)

/-- `zmsg_send`: the frames go out, and the message is gone. -/
def zmsgSend (msg : Nat) : Mem (List Frame) := do
  let frames ← loadAs .zmsg msg
  free msg
  pure frames

/-- The routing id goes in front of a message to a `ROUTER`, where it must be set. -/
def addRoutingId (router : Bool) (msg : Nat) (routingId : Option Nat) : Mem Unit :=
  match router, routingId with
  | true, some routingId => zmsgPrepend msg routingId
  | true, none => undefined
  | false, routingId => zframeDestroy routingId

/-- `zccp_msg_send`, with the frames that go out. -/
def zccpMsgSend (router : Bool) (self : Nat) : Mem (List Frame) := do
  let o ← loadAs .msg self
  setField self .routingId none
  let msg ← zccpMsgEncode self
  addRoutingId router msg (o.field .routingId)
  zmsgSend msg

def zccpMsgSendAgain (zhashDup : Zhash → Zhash) (router : Bool) (self : Nat) : Mem (List Frame) := do
  match ← zccpMsgDup zhashDup (some self) with
  | none => undefined
  | some copy => zccpMsgSend router copy

/-! ## The functions of one step -/

/-- What `zccp_msg_encode_…` and `zccp_msg_send_…` of a type are handed: strings for fields, and headers
and a content if the type has them. -/
structure OneStep (T H C : Type) where
  id : MsgId
  texts : List (Field × T)
  headers : Option H
  content : Option C

namespace OneStep

section Members

variable {T H C : Type}

/-- `zccp_msg_encode_hello`, `zccp_msg_send_hello` -/
def hello (identifier : T) (headers : H) : OneStep T H C :=
  ⟨.hello, [(.identifier, identifier)], some headers, none⟩

def helloOk (headers : H) : OneStep T H C := ⟨.helloOk, [], some headers, none⟩

def subscribe (expression : T) (headers : H) : OneStep T H C :=
  ⟨.subscribe, [(.expression, expression)], some headers, none⟩

def subscribeOk : OneStep T H C := ⟨.subscribeOk, [], none, none⟩

def publish (address : T) (headers : H) (content : C) : OneStep T H C :=
  ⟨.publish, [(.address, address)], some headers, some content⟩

def direct (address : T) (headers : H) (content : C) : OneStep T H C :=
  ⟨.direct, [(.address, address)], some headers, some content⟩

def deliver (sender address : T) (headers : H) (content : C) : OneStep T H C :=
  ⟨.deliver, [(.sender, sender), (.address, address)], some headers, some content⟩

def goodbye : OneStep T H C := ⟨.goodbye, [], none, none⟩

def goodbyeOk (headers : H) : OneStep T H C := ⟨.goodbyeOk, [], some headers, none⟩

def ping : OneStep T H C := ⟨.ping, [], none, none⟩

def pingOk : OneStep T H C := ⟨.pingOk, [], none, none⟩

def invalid : OneStep T H C := ⟨.invalid, [], none, none⟩

end Members

variable (z : Czmq) (zhashDup : Zhash → Zhash)

def setTexts (self : Nat) : List (Field × Lent CStr) → Mem Unit
  | [] => pure ()
  | (f, text) :: texts => do
    setText z f self text
    setTexts self texts

/-- The message gets a copy of the caller's headers; the caller keeps its own. -/
def copyHeaders (self : Nat) : Option (Option Nat) → Mem Unit
  | none => pure ()
  | some headers => do
    let headersCopy ← zhashCopy zhashDup headers
    zccpMsgSetHeaders self headersCopy

/-- The message gets a copy of the caller's content; the caller keeps its own. -/
def copyContent (self : Nat) : Option (Option Nat) → Mem Unit
  | none => pure ()
  | some content => do
    let contentCopy ← zmsgDup content
    zccpMsgSetContent self contentCopy

/-- The message that is encoded or sent. -/
def build (x : OneStep (Lent CStr) (Option Nat) (Option Nat)) : Mem Nat := do
  let self ← zccpMsgNew x.id
  setTexts z self x.texts
  copyHeaders zhashDup self x.headers
  copyContent self x.content
  pure self

/-- `zccp_msg_encode_…` -/
def encode (x : OneStep (Lent CStr) (Option Nat) (Option Nat)) : Mem Nat := do
  let self ← x.build z zhashDup
  zccpMsgEncode self

/-- `zccp_msg_send_…` -/
def send (router : Bool) (x : OneStep (Lent CStr) (Option Nat) (Option Nat)) : Mem (List Frame) := do
  let self ← x.build z zhashDup
  zccpMsgSend router self

end OneStep

end Memory

end Zccp
