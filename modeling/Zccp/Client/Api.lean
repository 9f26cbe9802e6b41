import Zccp.Client.Runs
import Zccp.Lib.Decimal
import Zccp.Lib.Multipart
import Zccp.Lib.Run

/-!
# `Zccp/Client/Api.lean` — the class interface

`zccp_client_t`, the calls an application makes, and the pipe between them and the actor: commands
go one way, replies come back as multipart messages of strings. The replies are read by
`s_accept_reply`, which takes the first one with a name that the call waits for and throws away
those before it.

An application makes one call at a time. The calls that wait for a reply are two steps of the
system, `call` and `accept`; the second can be taken as soon as what is on the pipe is enough for
`s_accept_reply` to get to its end. Nothing but the call reads the pipe, so that it has read some of
it before makes no difference.

Left out: an interrupt, which makes `s_accept_reply` return -1, and the limit on the length of a
pipe.
-/

set_option autoImplicit false

namespace Zccp.Api

open Lib Client

/-! ## Replies on the pipe -/

/-- A string literal. -/
def text (s : String) : CStr := .ofBytes s.toUTF8.toList

def nameSuccess : CStr := text "SUCCESS"
def nameFailure : CStr := text "FAILURE"
def nameMessage : CStr := text "MESSAGE"

/-- `"i"` in a picture. -/
def ofInt (i : Int) : CStr where
  bytes := decimal i
  nulFree := zero_notMem_decimal i

/-- `"s"` in a picture. What CZMQ makes of a `NULL` is left open: it goes out as `null`. -/
def ofString (null : CStr) (s : Option CStr) : CStr := s.getD null

/-- The `zsock_send` of `signal_success`, `signal_server_not_present` and
`deliver_message_to_application`. -/
def replyFrames (null : CStr) : Reply → Multipart CStr
  | .success status => ⟨nameSuccess, [ofInt status]⟩
  | .failure status reason => ⟨nameFailure, [ofInt status, reason]⟩
  | .message sender address content =>
    ⟨nameMessage, [ofString null sender, ofString null address, ofString null content]⟩

/-- The replies among some observations. -/
def repliesIn (t : List Obs) : List Reply := t.filterMap fun
  | .reply reply => some reply
  | _ => none

/-! ## `zccp_client_t` -/

/-- The properties that replies are loaded into. -/
structure ZccpClient where
  status : Int
  reason : Option CStr
  sender : Option CStr
  address : Option CStr
  content : Option CStr
deriving DecidableEq

def zccpClientNew : ZccpClient where
  status := 0
  reason := none
  sender := none
  address := none
  content := none

/-- The string in a frame that `zsock_recv` stores for `"s"`; `NULL` if the message is too short. -/
def stringAt (msg : List CStr) (i : Nat) : Option CStr := msg[i]?

/-- The number it stores for `"i"`; 0 if the message is too short. -/
def intAt (msg : List CStr) (i : Nat) : Int := msg[i]?.elim 0 fun frame => atoi frame.bytes

/-- The inner `if` of `s_accept_reply`: the properties of the reply are loaded, each kind with its
`zsock_recv`. -/
def loadReply (reply : CStr) (self : ZccpClient) (pipe : Inlet CStr) :
    Option (ZccpClient × Inlet CStr) :=
  if reply = nameSuccess then do
    let (msg, pipe) ← pipe.recvAll
    some ({ self with status := intAt msg 0 }, pipe)
  else if reply = nameFailure then do
    let (msg, pipe) ← pipe.recvAll
    some ({ self with status := intAt msg 0, reason := stringAt msg 1 }, pipe)
  else if reply = nameMessage then do
    let (msg, pipe) ← pipe.recvAll
    some ({ self with
      sender := stringAt msg 0, address := stringAt msg 1, content := stringAt msg 2 }, pipe)
  else some (self, pipe)

/-- `while (filter)`; the flag is whether one of the filters is the name of the reply. What is left
of the message is discarded with every filter that is not. -/
def matchFilters (reply : CStr) : List CStr → ZccpClient → Inlet CStr →
    Option (Bool × ZccpClient × Inlet CStr)
  | [], self, pipe => some (false, self, pipe)
  | filter :: filters, self, pipe =>
    if reply = filter then do
      let (self, pipe) ← loadReply reply self pipe
      some (true, self, pipe)
    else matchFilters reply filters self pipe.flush

/-- `while (true)`, for so many frames. -/
def acceptLoop (filters : List CStr) : Nat → ZccpClient → Inlet CStr →
    Option (ZccpClient × Inlet CStr)
  | 0, _, _ => none
  | bound + 1, self, pipe => do
    let (reply, pipe) ← pipe.recvFrame
    let (found, self, pipe) ← matchFilters reply filters self pipe
    if found then some (self, pipe) else acceptLoop filters bound self pipe

/-- `s_accept_reply`; `none` if it gets to the end of the pipe, where it waits. -/
def sAcceptReply (filters : List CStr) (self : ZccpClient) (pipe : Inlet CStr) :
    Option (ZccpClient × Inlet CStr) := acceptLoop filters pipe.size self pipe

/-! ## The calls -/

/-- The calls that wait for a reply. -/
inductive Waiting
  | connect
  | subscribe
  | recv
deriving DecidableEq, Repr

/-- The names that each waits for. -/
def Waiting.filters : Waiting → List CStr
  | .connect => [nameSuccess, nameFailure]
  | .subscribe => [nameSuccess, nameFailure]
  | .recv => [nameMessage]

/-- `zccp_client_connect` and the others, as far as what they send and whether they wait. -/
inductive Call
  | connect (endpoint : CStr) (timeout : Int)
  | subscribe (expression : CStr)
  | publish (address content : CStr)
  | verbose
  | recv
deriving DecidableEq

/-- The command it sends. -/
def Call.command : Call → Option Method
  | .connect endpoint timeout => some (.connect endpoint timeout)
  | .subscribe expression => some (.subscribe expression)
  | .publish address content => some (.publish address content)
  | .verbose => some .verbose
  | .recv => none

/-- The reply it waits for. -/
def Call.waiting : Call → Option Waiting
  | .connect _ _ => some .connect
  | .subscribe _ => some .subscribe
  | .recv => some .recv
  | _ => none

/-! ## The application and the actor -/

/-- The sender, the address and the content of a message, as the properties hold them. -/
structure Publication where
  sender : Option CStr
  address : Option CStr
  content : Option CStr
deriving DecidableEq

/-- What `zccp_client_recv` has returned, and the two properties that go with it. -/
def ZccpClient.publication (self : ZccpClient) : Publication where
  sender := self.sender
  address := self.address
  content := self.content

/-- What it should return for a DELIVER: the first frame of the content, as a string. -/
def publicationOf (null : CStr) (m : ZccpMsg) : Publication where
  sender := some (ofString null m.sender)
  address := some (ofString null m.address)
  content := some (ofString null ((m.content.getD []).head?.map CStr.ofBytes))

/-- The actor, the pipe, and the application. `taken` are the publications that the actor has taken
from its dealer socket since it got a connection, `returned` are those the application has got. -/
structure System where
  actor : Actor
  commands : List Method
  pipe : Inlet CStr
  self : ZccpClient
  waiting : Option Waiting
  taken : List Publication
  returned : List Publication
deriving DecidableEq

/-- At the start. -/
def System.new : System where
  actor := .up .new
  commands := []
  pipe := .empty
  self := zccpClientNew
  waiting := none
  taken := []
  returned := []

/-- The application makes a call, is answered, or the actor takes what has come to it. -/
inductive Label
  | call (call : Call)
  | accept
  | command
  | message (frames : List Frame)
  | timer (timer : Timer)
deriving DecidableEq

/-- What there is to see of an actor. -/
def observed : Actor → List Obs
  | .up self => self.trace
  | .ended self => self.trace
  | .aborted _ => []

/-- A turn of the actor puts its replies on the pipe. -/
def System.actorDid (null : CStr) (j : System) (actor : Actor) : System := { j with
  actor := actor
  pipe := j.pipe.push
    ((repliesIn ((observed actor).drop (observed j.actor).length)).map (replyFrames null)) }

/-- A client that has been told of a session. Of these two states there is no way out but a HELLO_OK,
which is when CONNECT succeeds, and an INVALID, after which that CONNECT is not answered. -/
def Connected (state : State) : Prop := state ≠ .start ∧ state ≠ .connecting

instance (state : State) : Decidable (Connected state) := inferInstanceAs (Decidable (_ ∧ _))

/-- The publication in a message, if it is one that a connected client has taken. -/
def arriving (null : CStr) (state : State) (frames : List Frame) : Option Publication :=
  match zccpMsgDecode frames with
  | .error _ => none
  | .ok m => if Connected state ∧ m.id = .deliver then some (publicationOf null m) else none

/-- One step; `none` if it cannot be taken. -/
def step (z : Czmq) (null : CStr) (j : System) : Label → Option System
  | .call call =>
    if j.waiting.isSome then none
    else some { j with commands := j.commands ++ call.command.toList, waiting := call.waiting }
  | .accept => do
    let waiting ← j.waiting
    let (self, pipe) ← sAcceptReply waiting.filters j.self j.pipe
    some { j with
      self := self
      pipe := pipe
      waiting := none
      returned := j.returned ++ if waiting = .recv then [self.publication] else [] }
  | .command =>
    match j.actor, j.commands with
    | .up self, method :: commands =>
      some ({ j with commands := commands }.actorDid null
        (actorStep z (.up self) (.command method)))
    | _, _ => none
  | .message frames =>
    match j.actor with
    | .up self => some
      ({ j with taken := j.taken ++ (arriving null self.state frames).toList }.actorDid null
        (actorStep z (.up self) (.message frames)))
    | _ => none
  | .timer timer =>
    match j.actor with
    | .up self => some (j.actorDid null (actorStep z (.up self) (.timer timer)))
    | _ => none

/-- A run, from `zccp_client_new` on. -/
def run (z : Czmq) (null : CStr) (labels : List Label) : Option System :=
  runFrom (step z null) .new labels

/-! ## The specification of `s_accept_reply` -/

section Accept

variable {reply f : CStr} {filters fs : List CStr} {self : ZccpClient} {pipe : Inlet CStr}

theorem nameFailure_ne : nameFailure ≠ nameSuccess ∧ nameFailure ≠ nameMessage := by
  decide +kernel

theorem nameMessage_ne : nameMessage ≠ nameSuccess := by
  decide +kernel

/-- The values of a reply are read from what is left of a message, and all of that. -/
theorem loadReply_success (self : ZccpClient) (pipe : Inlet CStr) :
    loadReply nameSuccess self pipe =
      pipe.recvAll.map fun p => ({ self with status := intAt p.1 0 }, p.2) := by
  rw [loadReply, if_pos rfl]
  cases pipe.recvAll <;> rfl

theorem loadReply_failure (self : ZccpClient) (pipe : Inlet CStr) :
    loadReply nameFailure self pipe = pipe.recvAll.map fun p =>
      ({ self with status := intAt p.1 0, reason := stringAt p.1 1 }, p.2) := by
  rw [loadReply, if_neg nameFailure_ne.1, if_pos rfl]
  cases pipe.recvAll <;> rfl

theorem loadReply_message (self : ZccpClient) (pipe : Inlet CStr) :
    loadReply nameMessage self pipe = pipe.recvAll.map fun p => ({ self with
      sender := stringAt p.1 0, address := stringAt p.1 1, content := stringAt p.1 2 }, p.2) := by
  rw [loadReply, if_neg nameMessage_ne, if_neg nameFailure_ne.2.symm, if_pos rfl]
  cases pipe.recvAll <;> rfl

/-- A reply that is not waited for leaves nothing behind, if something is waited for. -/
theorem matchFilters_of_not_mem (h : reply ∉ f :: fs) :
    matchFilters reply (f :: fs) self pipe = some (false, self, pipe.flush) := by
  induction fs generalizing f pipe with
  | nil =>
    rw [matchFilters, if_neg (by simpa using h)]
    rfl
  | cons f' fs ih =>
    obtain ⟨hf, hfs⟩ := List.ne_and_not_mem_of_not_mem_cons h
    rw [matchFilters, if_neg hf, ih hfs, Inlet.flush_flush]

theorem matchFilters_head : matchFilters f (f :: fs) self pipe =
    (loadReply f self pipe).map fun p => (true, p) := by
  rw [matchFilters, if_pos rfl]
  cases loadReply f self pipe <;> rfl

/-- **The replies that are not waited for are skipped**, one frame of the bound each. -/
theorem acceptLoop_skip (self : ZccpClient) {skipped : List (Multipart CStr)}
    (behind : List (Multipart CStr)) (bound : Nat) (h : ∀ m ∈ skipped, m.first ∉ f :: fs) :
    acceptLoop (f :: fs) (bound + skipped.length) self ⟨[], skipped ++ behind⟩ =
      acceptLoop (f :: fs) bound self ⟨[], behind⟩ := by
  induction skipped with
  | nil => rfl
  | cons m skipped ih =>
    obtain ⟨hm, hskipped⟩ := List.forall_mem_cons.mp h
    rw [List.length_cons, ← Nat.add_assoc, acceptLoop, List.cons_append, Inlet.recvFrame_start]
    simp only [Option.bind_eq_bind, Option.bind_some, matchFilters_of_not_mem hm, Inlet.flush_mk]
    exact ih hskipped

/-- The replies that nobody waits for are skipped, and what the filters make of the first that is waited
for is what the call comes to. -/
theorem sAcceptReply_first (self : ZccpClient) {skipped : List (Multipart CStr)} {m : Multipart CStr}
    (behind : List (Multipart CStr)) (hskipped : ∀ m ∈ skipped, m.first ∉ f :: fs)
    {result : Option (ZccpClient × Inlet CStr)}
    (hm : matchFilters m.first (f :: fs) self ⟨m.rest, behind⟩ = result.map fun p => (true, p)) :
    sAcceptReply (f :: fs) self ⟨[], skipped ++ m :: behind⟩ = result := by
  have hlength := Inlet.length_queue_le_size ⟨[], skipped ++ m :: behind⟩
  simp only [List.length_append, List.length_cons] at hlength
  obtain ⟨bound, hbound⟩ := Nat.exists_eq_add_of_le hlength
  rw [sAcceptReply, hbound, show skipped.length + (behind.length + 1) + bound =
    bound + behind.length + 1 + skipped.length by omega, acceptLoop_skip self _ _ hskipped, acceptLoop,
    Inlet.recvFrame_start]
  simp only [Option.bind_eq_bind, Option.bind_some, hm]
  cases result <;> rfl

/-- It is that reply, if its name is the first of the names. -/
theorem sAcceptReply_head (self : ZccpClient) {skipped : List (Multipart CStr)}
    {m : Multipart CStr} (behind : List (Multipart CStr)) (hskipped : ∀ m ∈ skipped, m.first ∉ f :: fs)
    (hm : m.first = f) :
    sAcceptReply (f :: fs) self ⟨[], skipped ++ m :: behind⟩ =
      loadReply f self ⟨m.rest, behind⟩ := by
  apply sAcceptReply_first self behind hskipped
  rw [hm, matchFilters_head]

theorem sAcceptReply_none {queue : List (Multipart CStr)} (h : ∀ m ∈ queue, m.first ∉ f :: fs) :
    sAcceptReply (f :: fs) self ⟨[], queue⟩ = none := by
  obtain ⟨bound, hbound⟩ := Nat.exists_eq_add_of_le (Inlet.length_queue_le_size ⟨[], queue⟩)
  have hskip := acceptLoop_skip self [] bound h
  rw [List.append_nil] at hskip
  rw [sAcceptReply, hbound, Nat.add_comm, hskip]
  cases bound <;> rfl

end Accept

end Zccp.Api
