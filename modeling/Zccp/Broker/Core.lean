import Mathlib.Algebra.Order.BigOperators.Group.List
import Mathlib.Data.List.Nodup
import Zccp.Broker.Reactor

/-!
# `Zccp/Broker/Core.lean` — what a pass of the state machine leaves behind

Most of a `Server` is scratch: the cursors of the lists, the three registers of each client and
the trace. `Core` is the rest, with every client reduced to its `Session` and every pattern to
its `Topic`, and `Server.core` forgets the scratch. The specifications of the functions
(`Zccp/Broker/Pass.lean`, `Zccp/Broker/Forward.lean`) say what happens to the core and what is added
to the trace; two servers with the same core are the same server as far as the next callback can
tell.

The second half is the vocabulary those specifications are written in: `Server.emit` for a block
of observations, and the few things a callback can do to a core (`Core.enrol`, `Core.refuse`,
`Core.touch`, `Core.subscribe`, `Core.point`, `Core.drop`).
-/

set_option autoImplicit false

namespace Zccp.Broker

open Lib CursorList

/-! ## Blocks of observations -/

/-- What `zsys_debug` adds. -/
def debugged (verbose : Bool) (os : List Obs) : List Obs := if verbose then os else []

namespace Server

/-- Record several observations. -/
def emit (os : List Obs) (s : Server) : Server := { s with trace := s.trace ++ os }

@[simp] theorem note_eq_emit (o : Obs) (s : Server) : s.note o = s.emit [o] := rfl

@[simp] theorem debug_eq_emit (os : List Obs) (s : Server) :
    s.debug os = s.emit (debugged s.verbose os) := rfl

@[simp] theorem emit_emit (os os' : List Obs) (s : Server) :
    (s.emit os).emit os' = s.emit (os ++ os') := by simp [emit]

@[simp] theorem emit_nil (s : Server) : s.emit [] = s := by simp [emit]

@[simp] theorem trace_emit (os : List Obs) (s : Server) : (s.emit os).trace = s.trace ++ os := rfl
@[simp] theorem heap_emit (os : List Obs) (s : Server) : (s.emit os).heap = s.heap := rfl
@[simp] theorem patterns_emit (os : List Obs) (s : Server) : (s.emit os).patterns = s.patterns := rfl
@[simp] theorem clients_emit (os : List Obs) (s : Server) : (s.emit os).clients = s.clients := rfl
@[simp] theorem verbose_emit (os : List Obs) (s : Server) : (s.emit os).verbose = s.verbose := rfl
@[simp] theorem headers_emit (os : List Obs) (s : Server) : (s.emit os).headers = s.headers := rfl
@[simp] theorem fuel_emit (os : List Obs) (s : Server) : (s.emit os).fuel = s.fuel := rfl

@[simp] theorem patternClients_emit (i : Nat) (os : List Obs) (s : Server) :
    (s.emit os).patternClients i = s.patternClients i := rfl

@[simp] theorem setClient_emit (r : Ref) (c : SClient) (os : List Obs) (s : Server) :
    (s.emit os).setClient r c = (s.setClient r c).emit os := rfl

@[simp] theorem setPatterns_emit (l : CursorList Pattern) (os : List Obs) (s : Server) :
    (s.emit os).setPatterns l = (s.setPatterns l).emit os := rfl

@[simp] theorem derefSender_emit (os : List Obs) (s : Server) :
    derefSender (s.emit os) = derefSender s := rfl

@[simp] theorem derefRequest_emit (os : List Obs) (s : Server) (p : Option (Ref × Ref)) :
    derefRequest (s.emit os) p = derefRequest s p := rfl

/-! ## Reading and writing clients -/

@[simp] theorem heap_setClient (r : Ref) (c : SClient) (s : Server) :
    (s.setClient r c).heap = Function.update s.heap r (some c) := rfl

theorem heap_setClient_self (r : Ref) (c : SClient) (s : Server) :
    (s.setClient r c).heap r = some c := by simp

@[simp] theorem setClient_setClient (r : Ref) (c c' : SClient) (s : Server) :
    (s.setClient r c).setClient r c' = s.setClient r c' := by simp [setClient]

theorem setClient_heap {r : Ref} {c : SClient} {s : Server} (h : s.heap r = some c) :
    s.setClient r c = s := by
  simp only [setClient, ← h, Function.update_eq_self]

@[simp] theorem patterns_setClient (r : Ref) (c : SClient) (s : Server) :
    (s.setClient r c).patterns = s.patterns := rfl
@[simp] theorem verbose_setClient (r : Ref) (c : SClient) (s : Server) :
    (s.setClient r c).verbose = s.verbose := rfl
@[simp] theorem trace_setClient (r : Ref) (c : SClient) (s : Server) :
    (s.setClient r c).trace = s.trace := rfl
@[simp] theorem clients_setClient (r : Ref) (c : SClient) (s : Server) :
    (s.setClient r c).clients = s.clients := rfl
@[simp] theorem patternClients_setClient (i : Nat) (r : Ref) (c : SClient) (s : Server) :
    (s.setClient r c).patternClients i = s.patternClients i := rfl

@[simp] theorem patterns_setPatterns (l : CursorList Pattern) (s : Server) :
    (s.setPatterns l).patterns = l := rfl
@[simp] theorem heap_setPatterns (l : CursorList Pattern) (s : Server) :
    (s.setPatterns l).heap = s.heap := rfl
@[simp] theorem trace_setPatterns (l : CursorList Pattern) (s : Server) :
    (s.setPatterns l).trace = s.trace := rfl
@[simp] theorem verbose_setPatterns (l : CursorList Pattern) (s : Server) :
    (s.setPatterns l).verbose = s.verbose := rfl
@[simp] theorem setPatterns_setPatterns (l l' : CursorList Pattern) (s : Server) :
    (s.setPatterns l).setPatterns l' = s.setPatterns l' := rfl

@[simp] theorem heap_setPatternClients (i : Nat) (l : CursorList Ref) (s : Server) :
    (s.setPatternClients i l).heap = s.heap := rfl
@[simp] theorem trace_setPatternClients (i : Nat) (l : CursorList Ref) (s : Server) :
    (s.setPatternClients i l).trace = s.trace := rfl
@[simp] theorem verbose_setPatternClients (i : Nat) (l : CursorList Ref) (s : Server) :
    (s.setPatternClients i l).verbose = s.verbose := rfl
@[simp] theorem cursor_setPatternClients (i : Nat) (l : CursorList Ref) (s : Server) :
    (s.setPatternClients i l).patterns.cursor = s.patterns.cursor := rfl

theorem items_setPatternClients (i : Nat) (l : CursorList Ref) (s : Server) :
    (s.setPatternClients i l).patterns.items =
      s.patterns.items.modify i fun p => { p with clients := l } := rfl

/-- The client list of a pattern is a place in the server, as long as there is such a pattern. -/
theorem patternClients_setPatternClients {i : Nat} {s : Server} (hi : i < s.patterns.items.length)
    (l : CursorList Ref) : (s.setPatternClients i l).patternClients i = l := by
  simp only [patternClients, items_setPatternClients, List.getElem?_modify_eq,
    List.getElem?_eq_getElem hi, Option.map_eq_map, Option.map_some]

theorem patternClients_of_getElem? {i : Nat} {s : Server} {p : Pattern}
    (h : s.patterns.items[i]? = some p) : s.patternClients i = p.clients := by
  simp [patternClients, h]

end Server

/-! ## The core -/

/-- A pattern without the cursor of its client list. -/
structure Topic where
  expression : CStr
  rex : Zrex
  clients : List Ref
deriving DecidableEq

/-- `Pattern` without its cursor. -/
def Pattern.topic (p : Pattern) : Topic where
  expression := p.expression
  rex := p.rex
  clients := p.clients.items

/-- A server without what is scratch. -/
@[ext] structure Core where
  topics : List Topic
  sender : Option Ref
  address : Option (Ref × Ref)
  headers : Option Zhash
  content : Option (Ref × Ref)
  clients : CStr → Option Ref
  verbose : Bool
  session : Ref → Option Session
  brk : Ref
  timers : List Timer
  lastTimerId : Nat

namespace Server

def core (s : Server) : Core where
  topics := s.patterns.items.map Pattern.topic
  sender := s.sender
  address := s.address
  headers := s.headers
  content := s.content
  clients := s.clients
  verbose := s.verbose
  session := s.session
  brk := s.brk
  timers := s.timers
  lastTimerId := s.lastTimerId

end Server

namespace Core

/-- Write a session back. -/
def setSession (r : Ref) (σ : Session) (k : Core) : Core :=
  { k with session := Function.update k.session r (some σ) }

theorem setSession_session {r : Ref} {σ : Session} {k : Core} (h : k.session r = some σ) :
    k.setSession r σ = k := by
  simp only [setSession, ← h, Function.update_eq_self]

end Core

namespace Server

theorem session_of_heap {s : Server} {r : Ref} {c : SClient} (h : s.heap r = some c) :
    s.core.session r = some c.toSession := by simp [core, session, h]

theorem heap_of_session {s : Server} {r : Ref} {σ : Session} (h : s.core.session r = some σ) :
    ∃ c, s.heap r = some c ∧ c.toSession = σ := by
  simpa [core, session] using h

@[simp] theorem core_emit (os : List Obs) (s : Server) : (s.emit os).core = s.core := rfl

@[simp] theorem core_setClient (r : Ref) (c : SClient) (s : Server) :
    (s.setClient r c).core = s.core.setSession r c.toSession := by
  ext1 <;> try rfl
  funext r'
  by_cases h : r' = r
  · subst h; simp [core, session, Core.setSession, setClient]
  · simp [core, session, Core.setSession, setClient, h]

/-- A change of registers only does not show. -/
theorem core_setClient_of_eq {s : Server} {r : Ref} {c c' : SClient} (h : s.heap r = some c)
    (he : c'.toSession = c.toSession) : (s.setClient r c').core = s.core := by
  rw [core_setClient, he, Core.setSession_session (session_of_heap h)]

theorem core_setPatterns (l : CursorList Pattern) (s : Server) :
    (s.setPatterns l).core = { s.core with topics := l.items.map Pattern.topic } := rfl

theorem core_setPatterns_of_items {l : CursorList Pattern} {s : Server}
    (h : l.items = s.patterns.items) : (s.setPatterns l).core = s.core := by
  rw [core_setPatterns, h]; rfl

theorem map_topic_modify (ps : List Pattern) (i : Nat) (l : CursorList Ref) :
    (ps.modify i fun p => { p with clients := l }).map Pattern.topic =
      (ps.map Pattern.topic).modify i fun t => { t with clients := l.items } := by
  refine List.ext_getElem? fun j => ?_
  simp only [List.getElem?_map, List.getElem?_modify]
  cases ps[j]? with
  | none => rfl
  | some p => by_cases h : i = j <;> simp [h, Pattern.topic]

theorem core_setPatternClients (i : Nat) (l : CursorList Ref) (s : Server) :
    (s.setPatternClients i l).core =
      { s.core with topics := s.core.topics.modify i fun t => { t with clients := l.items } } := by
  have h := map_topic_modify s.patterns.items i l
  ext1 <;> first | exact h | rfl

/-- Moving the cursor of a client list does not show. -/
theorem core_setPatternClients_of_items {i : Nat} {l : CursorList Ref} {s : Server}
    (h : l.items = (s.patternClients i).items) : (s.setPatternClients i l).core = s.core := by
  rw [core_setPatternClients]
  have : (s.core.topics.modify i fun t => { t with clients := l.items }) = s.core.topics := by
    refine List.ext_getElem? fun j => ?_
    simp only [List.getElem?_modify]
    by_cases hij : i = j
    · subst hij
      cases hp : s.patterns.items[i]? with
      | none => simp [core, hp]
      | some p => simp [core, hp, h, patternClients, Pattern.topic]
    · simp [hij]
  rw [this]

end Server

/-! ## What a callback does to a core -/

namespace Core

/-- `Server.fuel`, which only depends on the core. -/
def fuel (k : Core) : Nat :=
  k.topics.length + (k.topics.map fun t => t.clients.length).sum + 2

/-- The session with a routing id. -/
def lookup (k : Core) (routingId : Frame) : Option Session :=
  (k.clients (zframeStrhex routingId)).bind k.session

/-- A client that has just been made for a message, at the next free address; the request comes
after it. -/
def newcomer (routingId : Frame) (msg : ZccpMsg) (k : Core) : Session where
  hashkey := zframeStrhex routingId
  routingId := routingId
  mailbox := .empty
  state := .start
  expiryTimer := k.lastTimerId + 1
  wakeupTimer := 0
  request := some { addr := k.brk + 1, msg := msg }
  reply := freshReply routingId
  identifier := none

/-- A message from a peer without a session, up to the state machine. -/
def welcome (routingId : Frame) (msg : ZccpMsg) (k : Core) : Core :=
  { k with
    session := Function.update k.session k.brk (some (k.newcomer routingId msg))
    clients := Function.update k.clients (zframeStrhex routingId) (some k.brk)
    brk := k.brk + 2
    timers := k.timers ++ [{ id := k.lastTimerId + 1, argument := k.brk }]
    lastTimerId := k.lastTimerId + 1 }

/-- A HELLO from such a peer: a session of its own. -/
def enrol (routingId : Frame) (identifier : CStr) (msg : ZccpMsg) (k : Core) : Core :=
  { k with
    session := Function.update k.session k.brk (some
      { k.newcomer routingId msg with state := .connected, identifier := some identifier })
    clients := Function.update k.clients (zframeStrhex routingId) (some k.brk)
    brk := k.brk + 2
    timers := k.timers ++ [{ id := k.lastTimerId + 1, argument := k.brk }]
    lastTimerId := k.lastTimerId + 1 }

/-- What HELLO does to the newcomer makes it a session. -/
theorem welcome_setSession (k : Core) (routingId : Frame) (identifier : CStr) (msg : ZccpMsg) :
    (k.welcome routingId msg).setSession k.brk
      { k.newcomer routingId msg with identifier := some identifier, state := .connected } =
      k.enrol routingId identifier msg := by
  simp only [setSession, welcome, enrol, Function.update_idem]

/-- Any other message from such a peer: a session that is gone by the end of the callback. -/
def refuse (k : Core) : Core := { k with brk := k.brk + 2, lastTimerId := k.lastTimerId + 1 }

/-- A session that has just been sent a message: its expiry timer starts again, and the message
is its request. -/
def touched (σ : Session) (msg : ZccpMsg) (k : Core) : Session :=
  { σ with expiryTimer := k.lastTimerId + 1, request := some { addr := k.brk, msg := msg } }

/-- A message for a session, up to the state machine. -/
def touch (r : Ref) (σ : Session) (msg : ZccpMsg) (k : Core) : Core :=
  { k.setSession r (k.touched σ msg) with
    brk := k.brk + 1
    timers := k.timers.filter (·.id ≠ σ.expiryTimer) ++
      [{ id := k.lastTimerId + 1, argument := r }]
    lastTimerId := k.lastTimerId + 1 }

/-- One more subscription. -/
def subscribe (z : Czmq) (r : Ref) (expression : CStr) (k : Core) : Core :=
  { k with topics :=
      if expression ∈ k.topics.map Topic.expression then
        k.topics.map fun t =>
          if t.expression = expression ∧ r ∉ t.clients then { t with clients := t.clients ++ [r] }
          else t
      else
        match z.zrexNew expression with
        | none => k.topics
        | some rex => k.topics ++ [{ expression, rex, clients := [r] }] }

/-- The routing id of a session. -/
def routingId (k : Core) (r : Ref) : Frame :=
  match k.session r with
  | none => []
  | some σ => σ.routingId

theorem routingId_touch {k : Core} {r : Ref} {σ : Session} (h : k.session r = some σ) (msg : ZccpMsg)
    (r' : Ref) : (k.touch r σ msg).routingId r' = k.routingId r' := by
  by_cases he : r' = r
  · subst he
    simp [routingId, touch, setSession, touched, h]
  · simp [routingId, touch, setSession, he]

/-- The message being forwarded. -/
def point (r : Ref) (request : Ref) (k : Core) : Core :=
  { k with sender := some r, address := some (r, request), content := some (r, request) }

theorem topics_length_le (k : Core) : k.topics.length ≤ k.fuel := by unfold fuel; omega

theorem fuel_pos (k : Core) : 0 < k.fuel := by unfold fuel; omega

theorem clients_length_le {k : Core} {t : Topic} (ht : t ∈ k.topics) :
    t.clients.length ≤ k.fuel := by
  have := List.le_sum_of_mem (List.mem_map_of_mem (f := fun t : Topic => t.clients.length) ht)
  unfold fuel
  omega

/-- The end of a session. -/
def drop (r : Ref) (σ : Session) (k : Core) : Core :=
  { k with
    topics := k.topics.map fun t => { t with clients := t.clients.filter (· ≠ r) }
    clients := Function.update k.clients σ.hashkey none
    session := Function.update k.session r none
    timers := k.timers.filter (·.id ≠ σ.expiryTimer) }

end Core

namespace Server

theorem fuel_eq (s : Server) : s.fuel = s.core.fuel := by
  simp only [fuel, Core.fuel, core, List.length_map, List.map_map]
  rfl

theorem patterns_length (s : Server) : s.patterns.items.length = s.core.topics.length := by
  simp [core]

theorem patterns_length_le (s : Server) : s.patterns.items.length ≤ s.core.fuel := by
  rw [patterns_length]
  exact s.core.topics_length_le

theorem pattern_clients_length_le {s : Server} {p : Pattern} (hp : p ∈ s.patterns.items) :
    p.clients.items.length ≤ s.core.fuel :=
  Core.clients_length_le (k := s.core) (t := p.topic) (List.mem_map_of_mem hp)

@[simp] theorem core_verbose (s : Server) : s.core.verbose = s.verbose := rfl

end Server

end Zccp.Broker
