import Mathlib.Algebra.BigOperators.Group.List.Basic
import Zccp.Memory.Object

/-!
# `Zccp/Memory/Rules.lean` — what the message class owns

A message without pointers (`ZccpMsg`) is on the heap when there is an object with its id, and behind
each pointer of it what the message has in that field (`IsMsg`). Each function of the class gets one
rule, which says what it makes of such a message and that it has no other cells in the end.

The functions that set and get a field differ in which field and of what kind, so there is one rule for
each way of doing it (`spec_replaceField`, `spec_takeField`, `spec_putField`), and it takes the message
before and after as two messages that differ in that field. What is in the other fields is never looked
at (`block_congr`).
-/

set_option autoImplicit false

namespace Zccp

open Memory

/-- What is behind the pointers of a message. -/
def ZccpMsg.block (m : ZccpMsg) : Field → Option Block
  | .routingId => m.routingId.map Kind.frame.make
  | .identifier => m.identifier.map Kind.string.make
  | .headers => m.headers.map Kind.hash.make
  | .expression => m.expression.map Kind.string.make
  | .address => m.address.map Kind.string.make
  | .content => m.content.map Kind.zmsg.make
  | .sender => m.sender.map Kind.string.make

/-- What is in a string field. -/
def ZccpMsg.text (m : ZccpMsg) : Field → Option CStr
  | .identifier => m.identifier
  | .expression => m.expression
  | .address => m.address
  | .sender => m.sender
  | _ => none

/-- A message with another string. -/
def ZccpMsg.withText (m : ZccpMsg) (f : Field) (s : Option CStr) : ZccpMsg :=
  match f with
  | .identifier => { m with identifier := s }
  | .expression => { m with expression := s }
  | .address => { m with address := s }
  | .sender => { m with sender := s }
  | _ => m

/-- A message with one field less. -/
def ZccpMsg.without (m : ZccpMsg) : Field → ZccpMsg
  | .routingId => { m with routingId := none }
  | .identifier => { m with identifier := none }
  | .headers => { m with headers := none }
  | .expression => { m with expression := none }
  | .address => { m with address := none }
  | .content => { m with content := none }
  | .sender => { m with sender := none }

/-- The fields that a message of its type sends. -/
def ZccpMsg.typed (m : ZccpMsg) : ZccpMsg :=
  let text (f : Field) := if m.id.textFields.contains f then m.text f else none
  { Zccp.zccpMsgNew m.id with
    identifier := text .identifier
    expression := text .expression
    address := text .address
    sender := text .sender
    headers := if m.id.hasHeaders then m.headers else none }

/-- `zccp_msg_headers_insert`, less the pointers. -/
def ZccpMsg.headersInsert (z : Czmq) (m : ZccpMsg) (key format : CStr) : ZccpMsg :=
  { m with headers := some ((m.headers.getD .empty).update key (z.zsysVprintf format)) }

namespace Memory

open Lib Lib.Reader

/-- The pointers to strings. -/
def Field.IsText (f : Field) : Prop :=
  f = .identifier ∨ f = .expression ∨ f = .address ∨ f = .sender

/-- The pointers, in the order in which they are freed. -/
def fields : List Field :=
  [.routingId, .identifier, .headers, .expression, .address, .content, .sender]

/-! ## Pointers that may be `NULL` -/

/-- The cell behind a pointer. -/
def cell : Option Nat → Option Block → Cells Block
  | some p, some b => {(p, b)}
  | _, _ => 0

@[simp] theorem cell_some (p : Nat) (b : Block) : cell (some p) (some b) = {(p, b)} := rfl

@[simp] theorem cell_null (b : Option Block) : cell none b = 0 := rfl

@[simp] theorem cell_none (p : Option Nat) : cell p none = 0 := by cases p <;> rfl

section Access

variable {α γ : Type} (kind : Kind α) {M : Cells Block} {p : Option Nat} {q : Nat} {a : α}
  {x : Option α}

/-- What is behind a pointer is read, if it is of the kind that is asked for. -/
theorem spec_loadAs (hmem : (q, kind.make a) ∈ M) :
    Spec M (loadAs kind q) fun r M' => r = a ∧ M' = M := by
  refine (spec_load_of_mem hmem).bind fun r M' hM' => ?_
  obtain ⟨rfl, rfl⟩ := hM'
  rw [kind.of_make]
  exact .pure ⟨rfl, rfl⟩

/-- A program that goes on with what it has read. -/
theorem spec_read (hmem : (q, kind.make a) ∈ M) {f : α → Mem γ} {R : γ → Cells Block → Prop}
    (hf : Spec M (f a) R) : Spec M (loadAs kind q >>= f) R := by
  refine (spec_loadAs kind hmem).bind fun r M' hM' => ?_
  obtain ⟨rfl, rfl⟩ := hM'
  exact hf

theorem spec_destroyAs (hp : p.isSome = x.isSome) :
    Spec (cell p (x.map kind.make)) (destroyAs kind p) fun _ M => M = 0 := by
  cases p with
  | none => exact .pure rfl
  | some q =>
    obtain ⟨a, rfl⟩ := Option.isSome_iff_exists.mp hp.symm
    exact spec_read kind (Multiset.mem_singleton_self _) (spec_free q _)

/-- What is behind a pointer is copied. -/
theorem spec_dupAs (copy : α → α) (hp : p.isSome = x.isSome) (hle : cell p (x.map kind.make) ≤ M) :
    Spec M (dupAs kind copy p) fun r M' =>
      r.isSome = x.isSome ∧ M' = cell r ((x.map copy).map kind.make) + M := by
  cases p with
  | none =>
    obtain rfl : x = none := Option.not_isSome_iff_eq_none.mp (by simp [← hp])
    exact .pure ⟨rfl, (zero_add M).symm⟩
  | some q =>
    obtain ⟨a, rfl⟩ := Option.isSome_iff_exists.mp hp.symm
    refine spec_read kind (Multiset.mem_of_le hle (Multiset.mem_singleton_self _)) ?_
    refine (spec_alloc (kind.make (copy a))).call (zero_add M).symm fun q' M' hM' => ?_
    rw [hM']
    exact .pure ⟨rfl, rfl⟩

/-- What is lent is there to be read. -/
def Lends (a : α) (M : Cells Block) : Lent α → Prop
  | .given a' => a' = a
  | .kept p => (p, kind.make a) ∈ M

/-- Lent or given, it is read in the same way. -/
theorem spec_lent {lent : Lent α} (h : Lends kind a M lent) :
    Spec M (lent.read kind) fun r M' => r = a ∧ M' = M := by
  cases lent with
  | given a' => exact .pure ⟨h, rfl⟩
  | kept p => exact spec_loadAs kind h

end Access

/-! ## Hashes of CZMQ -/

/-- Inserting copies the value, and the caller keeps its own (`zhash_autofree`). -/
theorem spec_zhashInsert (hash key value : Nat) (h : Zhash) (k v : CStr) :
    Spec ({(hash, .hash h)} + ({(key, .string k)} + {(value, .string v)})) (zhashInsert hash key value)
      fun _ M => M = {(hash, .hash (h.insert k v))} + ({(key, .string k)} + {(value, .string v)}) := by
  refine spec_read .string (Multiset.mem_add.mpr (.inr (Multiset.mem_add.mpr (.inl
    (Multiset.mem_singleton_self _))))) ?_
  refine spec_read .string (Multiset.mem_add.mpr (.inr (Multiset.mem_add.mpr (.inr
    (Multiset.mem_singleton_self _))))) ?_
  refine spec_read .hash (Multiset.mem_add.mpr (.inl (Multiset.mem_singleton_self _))) ?_
  refine (spec_assign hash _ _).tail rfl fun _ M hM => ?_
  rw [hM]
  rfl

theorem spec_zhashUpdate (hash value : Nat) (h : Zhash) (k v : CStr) :
    Spec ({(hash, .hash h)} + {(value, .string v)}) (zhashUpdate hash k value)
      fun _ M => M = {(hash, .hash (h.update k v))} + {(value, .string v)} := by
  refine spec_read .string (Multiset.mem_add.mpr (.inr (Multiset.mem_singleton_self _))) ?_
  refine spec_read .hash (Multiset.mem_add.mpr (.inl (Multiset.mem_singleton_self _))) ?_
  refine (spec_assign hash _ _).tail rfl fun _ M hM => ?_
  rw [hM]
  rfl

/-! ## Messages of CZMQ -/

section Zmsg

variable {msg source : Nat} {frames frames' : List Frame}

/-- A frame that is popped is the caller's. -/
theorem spec_zmsgPop_cons (data : Frame) :
    Spec {(msg, .zmsg (data :: frames))} (zmsgPop msg) fun r M =>
      ∃ frame, r = some frame ∧ M = {(msg, .zmsg frames)} + {(frame, .frame data)} := by
  refine spec_read .zmsg (Multiset.mem_singleton_self _) ?_
  refine (spec_assign msg _ (Block.zmsg frames)).bind fun _ M hM => ?_
  subst hM
  refine (spec_alloc (Block.frame data)).call (zero_add _).symm fun frame M hM => ?_
  subst hM
  exact .pure ⟨frame, rfl, add_comm _ _⟩

theorem spec_zmsgPop_nil :
    Spec {(msg, .zmsg [])} (zmsgPop msg) fun r M => r = none ∧ M = {(msg, .zmsg [])} :=
  spec_read .zmsg (Multiset.mem_singleton_self _) (.pure ⟨rfl, rfl⟩)

/-- A frame that is appended is the caller's no longer. -/
theorem spec_zmsgAppend (frame : Nat) (data : Frame) :
    Spec ({(msg, .zmsg frames)} + {(frame, .frame data)}) (zmsgAppend msg frame)
      fun _ M => M = {(msg, .zmsg (frames ++ [data]))} := by
  refine spec_read .frame (Multiset.mem_add.mpr (.inr (Multiset.mem_singleton_self _))) ?_
  refine (spec_free frame (Block.frame data)).drop (add_comm _ _) ?_
  exact spec_read .zmsg (Multiset.mem_singleton_self _) (spec_assign msg _ _)

theorem spec_zmsgPrepend (frame : Nat) (data : Frame) :
    Spec ({(msg, .zmsg frames)} + {(frame, .frame data)}) (zmsgPrepend msg frame)
      fun _ M => M = {(msg, .zmsg (data :: frames))} := by
  refine spec_read .frame (Multiset.mem_add.mpr (.inr (Multiset.mem_singleton_self _))) ?_
  refine (spec_free frame (Block.frame data)).drop (add_comm _ _) ?_
  exact spec_read .zmsg (Multiset.mem_singleton_self _) (spec_assign msg _ _)

/-- The loop that moves the frames of one message behind those of another, by induction on the frames
that are left to be moved. -/
theorem spec_moveFrames :
    Spec ({(source, .zmsg frames)} + {(msg, .zmsg frames')}) (moveFrames source msg frames.length)
      fun _ M => M = {(source, .zmsg [])} + {(msg, .zmsg (frames' ++ frames))} := by
  induction frames generalizing frames' with
  | nil =>
    rw [List.append_nil]
    exact .pure rfl
  | cons data frames ih =>
    refine (spec_zmsgPop_cons data).call rfl fun r M hM => ?_
    obtain ⟨frame, rfl, rfl⟩ := hM
    have happend : Spec ({(msg, .zmsg frames')} + {(frame, .frame data)}) (zmsgAppend msg frame) _ :=
      spec_zmsgAppend frame data
    refine happend.call (F := {(source, .zmsg frames)}) (by abel) fun _ M hM => ?_
    rw [hM, add_comm, List.append_cons frames' data frames]
    exact ih

theorem spec_moveAll :
    Spec ({(source, .zmsg frames)} + {(msg, .zmsg frames')}) (moveAll source msg)
      fun _ M => M = {(source, .zmsg [])} + {(msg, .zmsg (frames' ++ frames))} :=
  spec_read .zmsg (Multiset.mem_add.mpr (.inl (Multiset.mem_singleton_self _))) spec_moveFrames

end Zmsg

/-! ## A message and its cells -/

/-- The object has the id and the pointers of a message. Only whether a pointer is `NULL` is said of it;
what is behind it is for the cells to say. -/
structure Represents (o : MsgObject) (m : ZccpMsg) : Prop where
  id : o.id = m.id
  field : ∀ f, (o.field f).isSome = (m.block f).isSome

/-- The cells behind some of the pointers. -/
def behind (o : MsgObject) (m : ZccpMsg) (l : List Field) : Cells Block :=
  (l.map fun f => cell (o.field f) (m.block f)).sum

/-- The cells of a message. -/
def msgCells (self : Nat) (o : MsgObject) (m : ZccpMsg) : Cells Block :=
  {(self, .msg o)} + behind o m fields

/-- **A message is on the heap**, and these are its cells. -/
def IsMsg (self : Nat) (m : ZccpMsg) (M : Cells Block) : Prop :=
  ∃ o, Represents o m ∧ M = msgCells self o m

section Msg

variable {self : Nat} {o : MsgObject} {m m' : ZccpMsg} {f : Field} {p : Option Nat} {M : Cells Block}

theorem mem_fields (f : Field) : f ∈ fields := by cases f <;> decide

theorem nodup_fields : fields.Nodup := by decide

/-- One field, and the others. -/
theorem behind_fields (o : MsgObject) (m : ZccpMsg) (f : Field) :
    behind o m fields = cell (o.field f) (m.block f) + behind o m (fields.erase f) := by
  have hperm := (List.perm_cons_erase (mem_fields f)).map fun f => cell (o.field f) (m.block f)
  rw [behind, hperm.sum_eq, List.map_cons, List.sum_cons]
  rfl

/-- Another pointer in a field makes no difference to what is behind the others. -/
theorem behind_set (l : List Field) (hf : f ∉ l) (hm : ∀ g, g ≠ f → m'.block g = m.block g) :
    behind (o.set f p) m' l = behind o m l := by
  refine congrArg List.sum (List.map_congr_left fun g hg => ?_)
  have hne : g ≠ f := fun heq => hf (heq ▸ hg)
  rw [o.field_set_ne p hne, hm g hne]

theorem not_mem_erase (f : Field) : f ∉ fields.erase f := nodup_fields.not_mem_erase

/-- The cells of a message, with one field in front: how every rule on a field begins. -/
theorem msgCells_eq (self : Nat) (o : MsgObject) (m : ZccpMsg) (f : Field) :
    msgCells self o m =
      {(self, .msg o)} + (cell (o.field f) (m.block f) + behind o m (fields.erase f)) := by
  rw [msgCells, behind_fields o m f]

/-- The cells of a message with something else behind a pointer. -/
theorem msgCells_update (hm : ∀ g, g ≠ f → m'.block g = m.block g) :
    msgCells self o m' =
      {(self, .msg o)} + (cell (o.field f) (m'.block f) + behind o m (fields.erase f)) := by
  have hbehind : behind o m' (fields.erase f) = behind o m (fields.erase f) := by
    refine congrArg List.sum (List.map_congr_left fun g hg => ?_)
    rw [hm g fun heq => not_mem_erase f (heq ▸ hg)]
  rw [msgCells_eq _ _ _ f, hbehind]

/-- The cells of a message with another pointer in a field. -/
theorem msgCells_set (hm : ∀ g, g ≠ f → m'.block g = m.block g) :
    msgCells self (o.set f p) m' =
      {(self, .msg (o.set f p))} + (cell p (m'.block f) + behind o m (fields.erase f)) := by
  rw [msgCells_eq _ _ _ f, behind_set _ (not_mem_erase f) hm, o.field_set]

/-- The object with another pointer is that of a message with something else in the field. -/
theorem Represents.set (h : Represents o m) (hid : m'.id = m.id)
    (hm : ∀ g, g ≠ f → m'.block g = m.block g) (hp : p.isSome = (m'.block f).isSome) :
    Represents (o.set f p) m' where
  id := h.id.trans hid.symm
  field g := by
    by_cases hg : g = f
    · rw [hg, o.field_set, hp]
    · rw [o.field_set_ne p hg, hm g hg, h.field]

/-- Something else behind a pointer that stays. -/
theorem Represents.update (h : Represents o m) (hid : m'.id = m.id)
    (hm : ∀ g, g ≠ f → m'.block g = m.block g)
    (hf : (m'.block f).isSome = (m.block f).isSome) : Represents o m' where
  id := h.id.trans hid.symm
  field g := by
    rw [h.field]
    by_cases hg : g = f
    · rw [hg, hf]
    · rw [hm g hg]

theorem mem_msgCells : (self, .msg o) ∈ msgCells self o m :=
  Multiset.mem_add.mpr (.inl (Multiset.mem_singleton_self _))

theorem cell_le_msgCells (f : Field) : cell (o.field f) (m.block f) ≤ msgCells self o m := by
  rw [msgCells_eq _ _ _ f]
  exact (Multiset.le_add_right _ _).trans (Multiset.le_add_left _ _)

theorem spec_setField (self : Nat) (o : MsgObject) (f : Field) (p : Option Nat) :
    Spec {(self, .msg o)} (setField self f p) fun _ M => M = {(self, .msg (o.set f p))} :=
  spec_read .msg (Multiset.mem_singleton_self _) (spec_assign self _ _)

/-- A message that is made has `NULL` everywhere, and one cell. -/
theorem spec_zccpMsgNew (id : MsgId) :
    Spec 0 (zccpMsgNew id) fun self M => IsMsg self (Zccp.zccpMsgNew id) M := by
  refine (spec_alloc _).mono fun self M hM => ?_
  refine ⟨{ id := id, field := fun _ => none }, ⟨rfl, fun f => ?_⟩, ?_⟩
  · cases f <;> rfl
  · rw [hM, msgCells]
    simp [behind, fields, cell]

/-- The id is changed and nothing is freed: what the new type has no use for stays until the end. -/
theorem spec_zccpMsgSetId (h : IsMsg self m M) (id : MsgId) :
    Spec M (zccpMsgSetId self id) fun _ M' => IsMsg self (m.setId id) M' := by
  obtain ⟨o, hrep, rfl⟩ := h
  refine spec_read .msg mem_msgCells ?_
  refine (spec_assign self _ (Block.msg { o with id := id })).tail rfl fun _ M' hM' => ?_
  have hblock : (m.setId id).block = m.block := funext fun f => by cases f <;> rfl
  refine ⟨{ o with id := id }, ⟨rfl, fun f => ?_⟩, ?_⟩
  · rw [hblock]
    exact hrep.field f
  · rw [hM']
    simp only [msgCells, behind, hblock]

/-- What a destructor finds in a field it frees. -/
theorem spec_destroyField {α : Type} (kind : Kind α) (h : Represents o m) {x : Option α}
    (hx : m.block f = x.map kind.make) :
    Spec (cell (o.field f) (m.block f)) (destroyAs kind (o.field f)) fun _ M => M = 0 := by
  have hp := h.field f
  rw [hx] at hp ⊢
  exact spec_destroyAs kind (hp.trans Option.isSome_map)

/-- **Nothing is left of a message that is destroyed.** The destructor goes through all the pointers,
whatever the type. -/
theorem spec_zccpMsgDestroy (h : IsMsg self m M) :
    Spec M (zccpMsgDestroy (some self)) fun _ M' => M' = 0 := by
  obtain ⟨o, hrep, rfl⟩ := h
  refine spec_read .msg mem_msgCells ?_
  have hbehind : behind o m fields =
      cell (o.field .routingId) (m.block .routingId) +
      (cell (o.field .identifier) (m.block .identifier) +
      (cell (o.field .headers) (m.block .headers) +
      (cell (o.field .expression) (m.block .expression) +
      (cell (o.field .address) (m.block .address) +
      (cell (o.field .content) (m.block .content) +
      (cell (o.field .sender) (m.block .sender) + 0)))))) := rfl
  rw [msgCells, hbehind]
  refine (spec_destroyField .frame hrep (f := .routingId) rfl).drop (add_left_comm _ _ _) ?_
  refine (spec_destroyField .string hrep (f := .identifier) rfl).drop (add_left_comm _ _ _) ?_
  refine (spec_destroyField .hash hrep (f := .headers) rfl).drop (add_left_comm _ _ _) ?_
  refine (spec_destroyField .string hrep (f := .expression) rfl).drop (add_left_comm _ _ _) ?_
  refine (spec_destroyField .string hrep (f := .address) rfl).drop (add_left_comm _ _ _) ?_
  refine (spec_destroyField .zmsg hrep (f := .content) rfl).drop (add_left_comm _ _ _) ?_
  refine (spec_destroyField .string hrep (f := .sender) rfl).drop (add_left_comm _ _ _) ?_
  rw [add_zero]
  exact spec_free self _

end Msg

/-! ## Setters and getters -/

section Setters

variable {self : Nat} {o : MsgObject} {m m' : ZccpMsg} {f : Field} {M F : Cells Block}

theorem block_text (hf : f.IsText) : m.block f = (m.text f).map Kind.string.make := by
  rcases hf with rfl | rfl | rfl | rfl <;> rfl

theorem block_withText (hf : f.IsText) (s : Option CStr) :
    (m.withText f s).block f = s.map Kind.string.make := by
  rcases hf with rfl | rfl | rfl | rfl <;> rfl

/-- Messages that differ in one field have the same behind all others. -/
theorem block_congr {g : Field} (hg : g ≠ f) (h : m'.without f = m.without f) :
    m'.block g = m.block g := by
  have hwithout : ∀ m : ZccpMsg, (m.without f).block g = m.block g := by
    intro m
    cases f <;> cases g <;> first | rfl | exact absurd rfl hg
  rw [← hwithout m', h, hwithout m]

theorem block_withText_ne {g : Field} (hg : g ≠ f) (s : Option CStr) :
    (m.withText f s).block g = m.block g :=
  block_congr hg (by cases f <;> rfl)

theorem id_withText (m : ZccpMsg) (f : Field) (s : Option CStr) : (m.withText f s).id = m.id := by
  cases f <;> rfl

/-- **The setters that copy**, of a message beside whatever else they are lent from. They free before they
copy, and so what is lent must not be in the field itself: `hlent` leaves that field out. -/
theorem spec_replaceField {α : Type} (kind : Kind α) (copy : α → α) {x : Option α} {a : α}
    {lent : Lent α} (h : Represents o m) (hx : m.block f = x.map kind.make) (hid : m'.id = m.id)
    (hm : ∀ g, g ≠ f → m'.block g = m.block g) (ha : m'.block f = some (kind.make (copy a)))
    (hlent : Lends kind a (behind o m (fields.erase f) + F) lent) :
    Spec (msgCells self o m + F) (replaceField kind copy f self lent) fun _ M' =>
      ∃ M₀, IsMsg self m' M₀ ∧ M' = M₀ + F := by
  refine spec_read .msg (Multiset.mem_add.mpr (.inl mem_msgCells)) ?_
  rw [msgCells_eq self o m f]
  refine (spec_destroyField kind h hx).drop
    (F := {(self, .msg o)} + (behind o m (fields.erase f) + F)) (by abel) ?_
  refine (spec_lent kind hlent).call (add_comm _ _) fun r M' hM' => ?_
  obtain ⟨rfl, rfl⟩ := hM'
  refine (spec_alloc (kind.make (copy r))).call (zero_add _).symm fun p M' hM' => ?_
  subst hM'
  refine (spec_setField self o f (some p)).tail
    (F := {(p, kind.make (copy r))} + (behind o m (fields.erase f) + F)) (by abel) ?_
  intro _ M' hM'
  refine ⟨_, ⟨o.set f (some p), h.set hid hm (by rw [ha]; rfl), rfl⟩, ?_⟩
  rw [hM', msgCells_set hm, ha]
  rw [cell_some]
  abel

/-- **The getters that give away**: the field is `NULL` afterwards. -/
theorem spec_takeField (h : Represents o m) (hid : m'.id = m.id)
    (hm : ∀ g, g ≠ f → m'.block g = m.block g) (hf : m'.block f = none) :
    Spec (msgCells self o m) (takeField f self) fun r M' =>
      r = o.field f ∧ ∃ M₀, IsMsg self m' M₀ ∧ M' = M₀ + cell (o.field f) (m.block f) := by
  refine spec_read .msg mem_msgCells ?_
  rw [msgCells_eq self o m f]
  refine (spec_setField self o f none).call rfl fun _ M' hM' => ?_
  refine .pure ⟨rfl, _, ⟨o.set f none, h.set hid hm (by rw [hf]; rfl), rfl⟩, ?_⟩
  rw [hM', msgCells_set hm, hf]
  rw [cell_null]
  abel

/-- **The setters that take**, after they have freed what was there. -/
theorem spec_putField {α : Type} (kind : Kind α) {x : Option α} {p : Option Nat} {b : Option Block}
    (h : Represents o m) (hx : m.block f = x.map kind.make) (hid : m'.id = m.id)
    (hm : ∀ g, g ≠ f → m'.block g = m.block g) (hf : m'.block f = b) (hp : p.isSome = b.isSome) :
    Spec (msgCells self o m + cell p b) (putField kind f self p) fun _ M' => IsMsg self m' M' := by
  refine spec_read .msg (Multiset.mem_add.mpr (.inl mem_msgCells)) ?_
  rw [msgCells_eq self o m f]
  refine (spec_destroyField kind h hx).drop
    (F := {(self, .msg o)} + (cell p b + behind o m (fields.erase f))) (by abel) ?_
  refine (spec_setField self o f p).tail rfl fun _ M' hM' => ?_
  refine ⟨o.set f p, h.set hid hm (by rw [hf, hp]), ?_⟩
  rw [hM', msgCells_set hm, hf]

/-- A pointer for a message that has none there. -/
theorem spec_setField_none (m' : ZccpMsg) {p : Option Nat} {b : Option Block} (h : Represents o m)
    (hnone : m.block f = none) (hid : m'.id = m.id) (hm : ∀ g, g ≠ f → m'.block g = m.block g)
    (hf : m'.block f = b) (hp : p.isSome = b.isSome) :
    Spec (msgCells self o m + cell p b) (setField self f p) fun _ M' =>
      Represents (o.set f p) m' ∧ M' = msgCells self (o.set f p) m' := by
  have hcell : cell (o.field f) (m.block f) = 0 := by
    rw [hnone]
    cases o.field f <;> rfl
  rw [msgCells_eq self o m f, hcell, zero_add, add_assoc]
  refine (spec_setField self o f p).tail rfl fun _ M' hM' => ?_
  refine ⟨h.set hid hm (by rw [hf, hp]), ?_⟩
  rw [hM', msgCells_set hm, hf, add_comm (behind _ _ _)]

/-- A message that has no headers gets an empty table. -/
theorem spec_ensureHeaders (h : Represents o m) :
    Spec (msgCells self o m) (ensureHeaders self o) fun headers M' =>
      ∃ o', Represents o' { m with headers := some (m.headers.getD .empty) } ∧
        o'.field .headers = some headers ∧
        M' = msgCells self o' { m with headers := some (m.headers.getD .empty) } := by
  have hfield := h.field .headers
  rw [ensureHeaders]
  cases hh : m.headers with
  | some hash =>
    rw [ZccpMsg.block, hh] at hfield
    obtain ⟨headers, hheaders⟩ := Option.isSome_iff_exists.mp hfield
    have hm : { m with headers := some hash } = m := by rw [← hh]
    rw [hheaders]
    refine .pure ⟨o, ?_, hheaders, ?_⟩ <;> rw [Option.getD_some, hm]
    exact h
  | none =>
    have hblock : m.block .headers = none := congrArg (Option.map Kind.hash.make) hh
    rw [hblock] at hfield
    have hnull : o.field .headers = none := Option.not_isSome_iff_eq_none.mp (by simp [hfield])
    rw [hnull]
    refine (spec_alloc (Block.hash .empty)).call (zero_add _).symm fun headers M' hM' => ?_
    rw [hM', add_comm]
    have hset : Spec (msgCells self o m + cell (some headers) (some (.hash .empty)))
        (setField self .headers (some headers)) _ :=
      spec_setField_none { m with headers := some .empty } h hblock rfl
        (fun g hg => block_congr hg rfl) rfl rfl
    refine hset.bind fun _ M' hM' => ?_
    obtain ⟨hrep, rfl⟩ := hM'
    exact .pure ⟨_, hrep, o.field_set .headers (some headers), rfl⟩

/-- `zccp_msg_headers_insert` -/
theorem spec_zccpMsgHeadersInsert (z : Czmq) (h : IsMsg self m M) (key format : CStr) :
    Spec M (zccpMsgHeadersInsert z self key format) fun _ M' =>
      IsMsg self (m.headersInsert z key format) M' := by
  obtain ⟨o, hrep, rfl⟩ := h
  refine (spec_alloc (Block.string (z.zsysVprintf format))).call (zero_add _).symm
    fun string M' hM' => ?_
  subst hM'
  refine spec_read .msg (Multiset.mem_add.mpr (.inr mem_msgCells)) ?_
  refine (spec_ensureHeaders hrep).call (add_comm _ _) fun headers M' hM' => ?_
  obtain ⟨o', hrep', hheaders, rfl⟩ := hM'
  generalize hm₁ : { m with headers := some (m.headers.getD .empty) } = m₁ at hrep' ⊢
  have hblock : m₁.block .headers = some (.hash (m.headers.getD .empty)) := by rw [← hm₁]; rfl
  rw [msgCells_eq self o' m₁ .headers, hheaders, hblock]
  have hupdate := spec_zhashUpdate headers string (m.headers.getD .empty) key (z.zsysVprintf format)
  refine hupdate.call (F := {(self, .msg o')} + behind o' m₁ (fields.erase .headers)) ?_
    fun _ M' hM' => ?_
  · rw [cell_some]
    abel
  subst hM'
  refine (spec_destroyAs .string (p := some string) (x := some (z.zsysVprintf format)) rfl).tail
    (F := {(headers, .hash ((m.headers.getD .empty).update key (z.zsysVprintf format)))} +
      ({(self, .msg o')} + behind o' m₁ (fields.erase .headers))) ?_ fun _ M' hM' => ?_
  · rw [Option.map_some, cell_some, Kind.make_string]
    abel
  have hset : o'.set .headers (some headers) = o' := by
    rw [MsgObject.set, ← hheaders, Function.update_eq_self]
  have hm : ∀ g, g ≠ .headers → (m.headersInsert z key format).block g = m₁.block g := by
    intro g hg
    rw [← hm₁]
    exact block_congr hg rfl
  refine ⟨o'.set .headers (some headers), hrep'.set (by rw [← hm₁]; rfl) hm rfl, ?_⟩
  rw [hM', msgCells_set hm, hset, zero_add]
  show _ = _ + ({(headers, _)} + _)
  exact add_left_comm _ _ _

end Setters

/-! ## `zccp_msg_dup` -/

section Dup

variable {self copy : Nat} {o : MsgObject} {m c c' : ZccpMsg} {f : Field} {M N : Cells Block}

/-- One field of the copy, beside whatever the original is part of. -/
theorem spec_copyField {α : Type} (kind : Kind α) (dup : α → α) (c' : ZccpMsg) {x : Option α}
    (h : Represents o m) (hx : m.block f = x.map kind.make)
    (hle : cell (o.field f) (m.block f) ≤ N) (hc : IsMsg copy c M) (hnone : c.block f = none)
    (hid : c'.id = c.id) (hother : ∀ g, g ≠ f → c'.block g = c.block g)
    (hf : c'.block f = (x.map dup).map kind.make) :
    Spec (M + N) (copyField (dupAs kind dup) o copy f) fun _ M' =>
      ∃ M₀, IsMsg copy c' M₀ ∧ M' = M₀ + N := by
  have hp := h.field f
  rw [hx] at hp hle
  obtain ⟨oc, hrep, rfl⟩ := hc
  refine (spec_dupAs kind dup (hp.trans Option.isSome_map) hle).call (add_comm _ _)
    fun p M' hM' => ?_
  obtain ⟨hsome, rfl⟩ := hM'
  have hp' : p.isSome = ((x.map dup).map kind.make).isSome := by
    rw [hsome, Option.isSome_map, Option.isSome_map]
  refine (spec_setField_none c' hrep hnone hid hother hf hp').tail (F := N) (by abel) ?_
  intro _ M' hM'
  obtain ⟨hrep', rfl⟩ := hM'
  exact ⟨_, ⟨_, hrep', rfl⟩, rfl⟩

/-- The strings. By induction on the fields that are left to be copied, which are `NULL` in the copy. -/
theorem spec_copyTexts (h : Represents o m) (hN : msgCells self o m ≤ N) (l : List Field)
    (htext : ∀ f ∈ l, f.IsText) (hnodup : l.Nodup) (hc : IsMsg copy c M)
    (hnone : ∀ f ∈ l, c.block f = none) :
    Spec (M + N) (copyTexts o copy l) fun _ M' =>
      ∃ M₀, IsMsg copy (l.foldl (fun c f => c.withText f (m.text f)) c) M₀ ∧ M' = M₀ + N := by
  induction l generalizing c M with
  | nil => exact .pure ⟨M, hc, rfl⟩
  | cons f l ih =>
    obtain ⟨hf, htext⟩ := List.forall_mem_cons.mp htext
    obtain ⟨hnot, hnodup⟩ := List.nodup_cons.mp hnodup
    obtain ⟨hfnone, hnone⟩ := List.forall_mem_cons.mp hnone
    refine (spec_copyField .string id (c.withText f (m.text f)) h (block_text hf)
      ((cell_le_msgCells f).trans hN) hc hfnone (id_withText c f _)
      (fun g hg => block_withText_ne hg _) ?_).bind fun _ M' hM' => ?_
    · rw [block_withText hf, Option.map_id]
      rfl
    · obtain ⟨M₀, hM₀, rfl⟩ := hM'
      refine ih htext hnodup hM₀ fun g hg => ?_
      have hne : g ≠ f := fun heq => hnot (heq ▸ hg)
      rw [block_withText_ne hne]
      exact hnone g hg

theorem isText_textFields (id : MsgId) : ∀ f ∈ id.textFields, f.IsText := by
  cases id <;> simp [MsgId.textFields, Field.IsText]

theorem nodup_textFields (id : MsgId) : id.textFields.Nodup := by
  cases id <;> decide

/-- A field that some of the types have. -/
theorem spec_copyGuarded {α : Type} (kind : Kind α) (dup : α → α) (has : Bool) (c' : ZccpMsg)
    {x : Option α} (h : Represents o m) (hx : m.block f = x.map kind.make)
    (hle : cell (o.field f) (m.block f) ≤ N)
    (hc : IsMsg copy c M) (hnone : c.block f = none) (hid : c'.id = c.id)
    (hother : ∀ g, g ≠ f → c'.block g = c.block g) (hf : c'.block f = (x.map dup).map kind.make) :
    Spec (M + N) (guarded has (copyField (dupAs kind dup) o copy f)) fun _ M' =>
      ∃ M₀, IsMsg copy (if has then c' else c) M₀ ∧ M' = M₀ + N := by
  cases has with
  | true => exact spec_copyField kind dup c' h hx hle hc hnone hid hother hf
  | false => exact .pure ⟨M, hc, rfl⟩

/-- The copy, field by field. -/
theorem zccpMsgDup_eq (zhashDup : Zhash → Zhash) (m : ZccpMsg) :
    let c₀ : ZccpMsg := { Zccp.zccpMsgNew m.id with routingId := m.routingId }
    let c₁ := m.id.textFields.foldl (fun c f => c.withText f (m.text f)) c₀
    let c₂ := if m.id.hasHeaders then { c₁ with headers := m.headers.map zhashDup } else c₁
    Zccp.zccpMsgDup zhashDup (some m) =
      some (if m.id.hasContent then { c₂ with content := m.content } else c₂) := by
  obtain ⟨routingId, id, identifier, headers, expression, address, content, sender⟩ := m
  cases id <;> rfl

/-- **A copy is a message of its own**, and the original is left as it is. -/
theorem spec_zccpMsgDup (zhashDup : Zhash → Zhash) (h : IsMsg self m M)
    (hdup : Zccp.zccpMsgDup zhashDup (some m) = some c) :
    Spec M (zccpMsgDup zhashDup (some self)) fun r M' =>
      ∃ copy N, r = some copy ∧ IsMsg copy c N ∧ M' = N + M := by
  obtain ⟨o, hrep, rfl⟩ := h
  rw [zccpMsgDup_eq] at hdup
  have hle : ∀ f, cell (o.field f) (m.block f) ≤ msgCells self o m := fun f => cell_le_msgCells f
  refine spec_read .msg mem_msgCells ?_
  rw [hrep.id]
  refine (spec_zccpMsgNew m.id).call (zero_add _).symm fun copy M₀ hM₀ => ?_
  -- the routing id
  refine (spec_copyField .frame id { Zccp.zccpMsgNew m.id with routingId := m.routingId }
    hrep rfl (hle .routingId) hM₀ rfl rfl (fun g hg => ?_) ?_).bind fun _ M' hM' => ?_
  · cases g <;> first | rfl | exact absurd rfl hg
  · rw [Option.map_id]
    rfl
  obtain ⟨M₁, hM₁, rfl⟩ := hM'
  -- the strings
  refine (spec_copyTexts hrep (Std.le_refl _) m.id.textFields (isText_textFields m.id)
    (nodup_textFields m.id) hM₁ ?_).bind fun _ M' hM' => ?_
  · intro f hf
    rcases isText_textFields m.id f hf with rfl | rfl | rfl | rfl <;> rfl
  obtain ⟨M₂, hM₂, rfl⟩ := hM'
  generalize hc₁ : m.id.textFields.foldl (fun c f => c.withText f (m.text f))
    { Zccp.zccpMsgNew m.id with routingId := m.routingId } = c₁ at hM₂ hdup
  have hnone : c₁.headers = none ∧ c₁.content = none := by
    rw [← hc₁]
    cases m.id <;> exact ⟨rfl, rfl⟩
  -- the headers
  have hheaders : c₁.block .headers = none := congrArg (Option.map Kind.hash.make) hnone.1
  refine (spec_copyGuarded .hash zhashDup m.id.hasHeaders
    { c₁ with headers := m.headers.map zhashDup } hrep rfl (hle .headers) hM₂ hheaders rfl
    (fun g hg => block_congr hg rfl) rfl).bind fun _ M' hM' => ?_
  obtain ⟨M₃, hM₃, rfl⟩ := hM'
  generalize hc₂ : (if m.id.hasHeaders then { c₁ with headers := m.headers.map zhashDup } else c₁) = c₂
    at hM₃ hdup
  -- the content
  have hcontent : c₂.block .content = none := by
    rw [← hc₂]
    cases m.id.hasHeaders <;> exact congrArg (Option.map Kind.zmsg.make) hnone.2
  refine (spec_copyGuarded .zmsg id m.id.hasContent { c₂ with content := m.content } hrep rfl
    (hle .content) hM₃ hcontent rfl (fun g hg => block_congr hg rfl) ?_).bind
    fun _ M' hM' => ?_
  · rw [Option.map_id]
    rfl
  obtain ⟨M₄, hM₄, rfl⟩ := hM'
  rw [Option.some.inj hdup] at hM₄
  exact .pure ⟨copy, M₄, rfl, hM₄, rfl⟩

end Dup

/-! ## `zccp_msg_encode` and `zccp_msg_send` -/

section Encode

variable {self msg : Nat} {o : MsgObject} {m : ZccpMsg} {M N : Cells Block}

/-- A field is read if the type has it, and a `NULL` is not followed. -/
theorem spec_readField {α : Type} (kind : Kind α) (has : Bool) {p : Option Nat} {x : Option α}
    (hp : p.isSome = x.isSome) (hle : cell p (x.map kind.make) ≤ N) :
    Spec N (readField kind has p) fun r M' => r = (if has then x else none) ∧ M' = N := by
  cases has with
  | false => exact .pure ⟨rfl, rfl⟩
  | true =>
    cases p with
    | none =>
      obtain rfl : x = none := Option.not_isSome_iff_eq_none.mp (by simp [← hp])
      exact .pure ⟨rfl, rfl⟩
    | some p =>
      obtain ⟨a, rfl⟩ := Option.isSome_iff_exists.mp hp.symm
      have hmem : (p, kind.make a) ∈ N := Multiset.mem_of_le hle (Multiset.mem_singleton_self _)
      show Spec N (some <$> loadAs kind p) _
      rw [← bind_pure_comp]
      refine (spec_loadAs kind hmem).bind fun r M' hM' => ?_
      obtain ⟨rfl, rfl⟩ := hM'
      exact .pure ⟨rfl, rfl⟩

/-- What is read is what the type sends. -/
theorem spec_readFields (h : Represents o m) (hN : msgCells self o m ≤ N) :
    Spec N (readFields self) fun r M' => r = m.typed ∧ M' = N := by
  have hread : ∀ {α : Type} (kind : Kind α) (has : Bool) (f : Field) (x : Option α),
      m.block f = x.map kind.make →
      Spec N (readField kind has (o.field f)) fun r M' => r = (if has then x else none) ∧ M' = N := by
    intro α kind has f x hx
    have hp := h.field f
    have hle : cell (o.field f) (m.block f) ≤ N := (cell_le_msgCells f).trans hN
    rw [hx] at hp hle
    exact spec_readField kind has (hp.trans Option.isSome_map) hle
  refine spec_read .msg (Multiset.mem_of_le hN mem_msgCells) ?_
  rw [h.id]
  refine (hread .string _ .identifier m.identifier rfl).bind fun _ M' hM' => ?_
  obtain ⟨rfl, rfl⟩ := hM'
  refine (hread .string _ .expression m.expression rfl).bind fun _ M' hM' => ?_
  obtain ⟨rfl, rfl⟩ := hM'
  refine (hread .string _ .address m.address rfl).bind fun _ M' hM' => ?_
  obtain ⟨rfl, rfl⟩ := hM'
  refine (hread .string _ .sender m.sender rfl).bind fun _ M' hM' => ?_
  obtain ⟨rfl, rfl⟩ := hM'
  refine (hread .hash _ .headers m.headers rfl).bind fun _ M' hM' => ?_
  obtain ⟨rfl, rfl⟩ := hM'
  exact .pure ⟨rfl, rfl⟩

/-- The first frame. -/
theorem typed_frame (hid : m.id ≠ .unset) :
    ((frameSize m.typed).bind fun size => fill size (serialise m.typed)) =
      some (serialise m).flatten := by
  have hid' : m.typed.id ≠ .unset := hid
  have hfields : serialise m.typed = serialise m := by
    obtain ⟨routingId, id, identifier, headers, expression, address, content, sender⟩ := m
    cases id <;> rfl
  rw [frameSize_eq _ hid', Option.bind_some, fill_eq rfl, hfields]

/-- A type with a content that is `NULL` sends an empty frame for it. -/
theorem contentFrames_eq (m : ZccpMsg) :
    contentFrames m = if m.id.hasContent then m.content.getD [[]] else [] := by
  obtain ⟨routingId, id, identifier, headers, expression, address, content, sender⟩ := m
  cases id <;> cases content <;> rfl

/-- The frames behind it. The content is left empty. -/
theorem spec_addContent {p : Option Nat} {content : Option (List Frame)} (frames : List Frame)
    (hp : p.isSome = content.isSome) :
    Spec ({(msg, .zmsg frames)} + cell p (content.map Kind.zmsg.make)) (addContent msg p)
      fun _ M' => M' = {(msg, .zmsg (frames ++ content.getD [[]]))} +
        cell p ((content.map fun _ => []).map Kind.zmsg.make) := by
  cases p with
  | none =>
    obtain rfl : content = none := Option.not_isSome_iff_eq_none.mp (by simp [← hp])
    refine (spec_alloc (Block.frame [])).call (zero_add _).symm fun frame M' hM' => ?_
    subst hM'
    have happend : Spec ({(msg, .zmsg frames)} + {(frame, .frame [])}) (zmsgAppend msg frame) _ :=
      spec_zmsgAppend frame []
    refine happend.tail (F := 0) ?_ fun _ M' hM' => ?_
    · rw [Option.map_none, cell_none]
      abel
    · rw [hM']
      rfl
  | some p =>
    obtain ⟨content, rfl⟩ := Option.isSome_iff_exists.mp hp.symm
    have hmove : Spec ({(p, .zmsg content)} + {(msg, .zmsg frames)}) (moveAll p msg) _ := spec_moveAll
    refine hmove.tail (F := 0) ?_ fun _ M' hM' => ?_
    · rw [Option.map_some, cell_some, Kind.make_zmsg]
      abel
    · rw [hM', add_zero, add_comm]
      rfl

/-- So what is left is a message still, which is what the destructor at the end of `zccp_msg_encode` asks
for. -/
theorem spec_content (h : Represents o m) (frames : List Frame) :
    Spec ({(msg, .zmsg frames)} + msgCells self o m)
      (guarded o.id.hasContent (addContent msg (o.field .content))) fun _ M' =>
        ∃ m' M₀, IsMsg self m' M₀ ∧ M' = {(msg, .zmsg (frames ++ contentFrames m))} + M₀ := by
  rw [h.id, contentFrames_eq]
  cases m.id.hasContent with
  | false =>
    refine .pure ⟨m, _, ⟨o, h, rfl⟩, ?_⟩
    rw [if_neg Bool.false_ne_true, List.append_nil]
  | true =>
    generalize hm' : ({ m with content := m.content.map fun _ => [] } : ZccpMsg) = m'
    have hm : ∀ g, g ≠ .content → m'.block g = m.block g := by
      intro g hg
      rw [← hm']
      exact block_congr hg rfl
    have hcontent : m'.block .content = (m.content.map fun _ => []).map Kind.zmsg.make := by
      rw [← hm']
      rfl
    have hp := h.field .content
    have hrep : Represents o m' := by
      refine h.update (by rw [← hm']) hm ?_
      rw [hcontent, ZccpMsg.block]
      simp only [Option.isSome_map]
    rw [msgCells_eq self o m .content]
    refine (spec_addContent frames (hp.trans Option.isSome_map)).tail
      (F := {(self, .msg o)} + behind o m (fields.erase .content)) ?_ fun _ M' hM' => ?_
    · rw [ZccpMsg.block]
      abel
    · refine ⟨m', _, ⟨o, hrep, rfl⟩, ?_⟩
      rw [hM', msgCells_update hm, hcontent, if_pos rfl]
      abel

/-- **A message that is encoded is gone, and its frames are in a message of CZMQ.** -/
theorem spec_zccpMsgEncode (h : IsMsg self m M) (hid : m.id ≠ .unset) :
    Spec M (zccpMsgEncode self) fun msg M' => M' = {(msg, .zmsg (wire m))} := by
  obtain ⟨o, hrep, rfl⟩ := h
  refine (spec_alloc (Block.zmsg [])).call (zero_add _).symm fun msg M' hM' => ?_
  subst hM'
  refine (spec_readFields hrep (Multiset.le_add_left _ _)).bind fun r M' hM' => ?_
  obtain ⟨rfl, rfl⟩ := hM'
  rw [typed_frame hid]
  refine (spec_alloc (Block.frame (serialise m).flatten)).call (zero_add _).symm fun frame M' hM' => ?_
  subst hM'
  have happend : Spec ({(msg, .zmsg [])} + {(frame, .frame (serialise m).flatten)})
      (zmsgAppend msg frame) _ := spec_zmsgAppend frame (serialise m).flatten
  refine happend.call (F := msgCells self o m) (by abel) fun _ M' hM' => ?_
  rw [hM', List.nil_append]
  refine spec_read .msg (Multiset.mem_add.mpr (.inr mem_msgCells)) ?_
  refine (spec_content hrep _).bind fun _ M' hM' => ?_
  obtain ⟨m', M₀, hm', rfl⟩ := hM'
  refine (spec_zccpMsgDestroy hm').drop (add_comm _ _) ?_
  exact .pure rfl

/-- On a `ROUTER` the routing id goes out in front; elsewhere it is freed. -/
theorem spec_addRoutingId {router : Bool} {p : Option Nat} {routingId : Option Frame}
    {frames : List Frame} {sent : Sent} (hp : p.isSome = routingId.isSome)
    (hsent : prependRoutingId router routingId frames = some sent) :
    Spec ({(msg, .zmsg frames)} + cell p (routingId.map Kind.frame.make)) (addRoutingId router msg p)
      fun _ M' => M' = {(msg, .zmsg (sent.routingId.toList ++ sent.frames))} := by
  cases router with
  | false =>
    obtain rfl := Option.some.inj hsent
    refine (spec_destroyAs .frame hp).tail (add_comm _ _) fun _ M' hM' => ?_
    rw [hM', zero_add]
    rfl
  | true =>
    obtain ⟨routingId, rfl, rfl⟩ := Option.map_eq_some_iff.mp hsent
    obtain ⟨p, rfl⟩ := Option.isSome_iff_exists.mp hp
    exact spec_zmsgPrepend p routingId

/-- A message that is sent is CZMQ's. -/
theorem spec_zmsgSend (frames : List Frame) :
    Spec {(msg, .zmsg frames)} (zmsgSend msg) fun r M' => r = frames ∧ M' = 0 := by
  refine spec_read .zmsg (Multiset.mem_singleton_self _) ?_
  refine (spec_free msg (Block.zmsg frames)).drop (add_zero _).symm ?_
  exact .pure ⟨rfl, rfl⟩

/-- **A message that is sent leaves nothing**, and goes out as it would without pointers. -/
theorem spec_zccpMsgSend {router : Bool} {sent : Sent} (h : IsMsg self m M) (hid : m.id ≠ .unset)
    (hsent : prependRoutingId router m.routingId (wire m) = some sent) :
    Spec M (zccpMsgSend router self) fun r M' =>
      r = sent.routingId.toList ++ sent.frames ∧ M' = 0 := by
  obtain ⟨o, hrep, rfl⟩ := h
  have hm : ∀ g, g ≠ .routingId → ({ m with routingId := none } : ZccpMsg).block g = m.block g :=
    fun g hg => block_congr hg rfl
  have hp := hrep.field .routingId
  refine spec_read .msg mem_msgCells ?_
  rw [msgCells_eq self o m .routingId]
  refine (spec_setField self o .routingId none).call rfl fun _ M' hM' => ?_
  have hcells : M' + (cell (o.field .routingId) (m.block .routingId) +
      behind o m (fields.erase .routingId)) =
      msgCells self (o.set .routingId none) { m with routingId := none } +
        cell (o.field .routingId) (m.block .routingId) := by
    rw [hM', msgCells_set hm, cell_null]
    abel
  rw [hcells]
  have hrep' : Represents (o.set .routingId none) { m with routingId := none } :=
    hrep.set rfl hm rfl
  refine (spec_zccpMsgEncode ⟨_, hrep', rfl⟩ hid).call rfl fun msg M' hM' => ?_
  have hwire : wire { m with routingId := none } = wire m := by
    obtain ⟨routingId, id, identifier, headers, expression, address, content, sender⟩ := m
    cases id <;> rfl
  rw [hM', hwire]
  refine (spec_addRoutingId (hp.trans Option.isSome_map) hsent).bind fun _ M' hM' => ?_
  rw [hM']
  exact spec_zmsgSend _

end Encode

/-! ## The functions of one step -/

/-- The message that is encoded or sent, less the pointers. -/
def OneStep.message (z : Czmq) (zhashDup : Zhash → Zhash)
    (x : OneStep CStr (Option Zhash) (Option (List Frame))) : ZccpMsg :=
  let m := x.texts.foldl (fun m p => m.withText p.1 (some (z.zsysVprintf p.2))) (Zccp.zccpMsgNew x.id)
  let m := x.headers.elim m fun headers => { m with headers := headers.map zhashDup }
  x.content.elim m fun content => { m with content := content }

namespace OneStep

variable {self : Nat} {m : ZccpMsg} {M N : Cells Block}

theorem message_id (z : Czmq) (zhashDup : Zhash → Zhash)
    (x : OneStep CStr (Option Zhash) (Option (List Frame))) : (x.message z zhashDup).id = x.id := by
  have hfold : ∀ (texts : List (Field × CStr)) (m : ZccpMsg),
      (texts.foldl (fun m p => m.withText p.1 (some (z.zsysVprintf p.2))) m).id = m.id := by
    intro texts
    induction texts with
    | nil => exact fun m => rfl
    | cons p texts ih => exact fun m => (ih _).trans (id_withText m p.1 _)
  obtain ⟨id, texts, headers, content⟩ := x
  cases headers <;> cases content <;> exact hfold texts (Zccp.zccpMsgNew id)

/-- A string of a message that is being made, beside what it is copied from. -/
theorem spec_setText (z : Czmq) {f : Field} (hf : f.IsText) (hm : IsMsg self m M) {lent : Lent CStr}
    {text : CStr} (hlent : Lends .string text N lent) :
    Spec (M + N) (setText z f self lent) fun _ M' =>
      ∃ M₀, IsMsg self (m.withText f (some (z.zsysVprintf text))) M₀ ∧ M' = M₀ + N := by
  obtain ⟨o, hrep, rfl⟩ := hm
  refine spec_replaceField .string z.zsysVprintf hrep (block_text hf) (id_withText m f _)
    (fun g hg => block_withText_ne hg _) (block_withText hf _) ?_
  cases lent with
  | given text' => exact hlent
  | kept p => exact Multiset.mem_add.mpr (.inr hlent)

/-- The strings of a message that is being made, in the order of the arguments. -/
theorem spec_setTexts (z : Czmq) {texts : List (Field × CStr)} {lents : List (Field × Lent CStr)}
    (h : List.Forall₂ (fun l t => l.1 = t.1 ∧ Lends .string t.2 N l.2) lents texts)
    (htext : ∀ t ∈ texts, t.1.IsText) (hm : IsMsg self m M) :
    Spec (M + N) (setTexts z self lents) fun _ M' => ∃ M₀,
      IsMsg self (texts.foldl (fun m p => m.withText p.1 (some (z.zsysVprintf p.2))) m) M₀ ∧
        M' = M₀ + N := by
  induction h generalizing m M with
  | nil => exact .pure ⟨M, hm, rfl⟩
  | @cons l t lents texts hlt h ih =>
    obtain ⟨hf, htexts⟩ := List.forall_mem_cons.mp htext
    obtain ⟨f, lent⟩ := l
    obtain ⟨f', text⟩ := t
    obtain ⟨rfl, hlent⟩ := hlt
    refine (spec_setText z hf hm hlent).bind fun _ M' hM' => ?_
    obtain ⟨M₀, hM₀, rfl⟩ := hM'
    exact ih htexts hM₀

/-- A copy for a field of a message that is being made. -/
theorem spec_copyInto {α : Type} (kind : Kind α) (dup : α → α) {f : Field} (m' : ZccpMsg)
    {p : Option Nat} {x x' : Option α} (hm : IsMsg self m M) (hx' : m.block f = x'.map kind.make)
    (hp : p.isSome = x.isSome) (hle : cell p (x.map kind.make) ≤ N) (hid : m'.id = m.id)
    (hother : ∀ g, g ≠ f → m'.block g = m.block g) (hf : m'.block f = (x.map dup).map kind.make) :
    Spec (M + N) (dupAs kind dup p >>= putField kind f self) fun _ M' =>
      ∃ M₀, IsMsg self m' M₀ ∧ M' = M₀ + N := by
  obtain ⟨o, hrep, rfl⟩ := hm
  refine (spec_dupAs kind dup hp hle).call (add_comm _ _) fun q M' hM' => ?_
  obtain ⟨hq, rfl⟩ := hM'
  have hq' : q.isSome = ((x.map dup).map kind.make).isSome := by
    rw [hq, Option.isSome_map, Option.isSome_map]
  refine (spec_putField kind hrep hx' hid hother hf hq').tail (F := N) (by abel) fun _ M' hM' => ?_
  exact ⟨M', hM', rfl⟩

/-- The headers, where the function has an argument for them. -/
theorem spec_copyHeaders (zhashDup : Zhash → Zhash) {p : Option (Option Nat)}
    {x : Option (Option Zhash)} (hm : IsMsg self m M)
    (h : Option.Rel (fun p x => p.isSome = x.isSome ∧ cell p (x.map Kind.hash.make) ≤ N) p x) :
    Spec (M + N) (copyHeaders zhashDup self p) fun _ M' => ∃ M₀,
      IsMsg self (x.elim m fun headers => { m with headers := headers.map zhashDup }) M₀ ∧
        M' = M₀ + N := by
  cases h with
  | none => exact .pure ⟨M, hm, rfl⟩
  | some h =>
    exact spec_copyInto .hash zhashDup _ hm rfl h.1 h.2 rfl (fun g hg => block_congr hg rfl) rfl

/-- The content, likewise. -/
theorem spec_copyContent {p : Option (Option Nat)} {x : Option (Option (List Frame))}
    (hm : IsMsg self m M)
    (h : Option.Rel (fun p x => p.isSome = x.isSome ∧ cell p (x.map Kind.zmsg.make) ≤ N) p x) :
    Spec (M + N) (copyContent self p) fun _ M' => ∃ M₀,
      IsMsg self (x.elim m fun content => { m with content := content }) M₀ ∧ M' = M₀ + N := by
  cases h with
  | none => exact .pure ⟨M, hm, rfl⟩
  | @some p x h =>
    refine spec_copyInto .zmsg (fun frames => frames) _ hm rfl h.1 h.2 rfl
      (fun g hg => block_congr hg rfl) ?_
    rw [Option.map_id']
    rfl

/-- What the caller hands over has the values that the message gets. -/
structure Hands (N : Cells Block) (l : OneStep (Lent CStr) (Option Nat) (Option Nat))
    (x : OneStep CStr (Option Zhash) (Option (List Frame))) : Prop where
  id : l.id = x.id
  texts : List.Forall₂ (fun l t => l.1 = t.1 ∧ Lends .string t.2 N l.2) l.texts x.texts
  headers : Option.Rel (fun p x => p.isSome = x.isSome ∧ cell p (x.map Kind.hash.make) ≤ N)
    l.headers x.headers
  content : Option.Rel (fun p x => p.isSome = x.isSome ∧ cell p (x.map Kind.zmsg.make) ≤ N)
    l.content x.content

/-- **The message is made, and what the caller has stays as it is.** -/
theorem spec_build (z : Czmq) (zhashDup : Zhash → Zhash)
    {l : OneStep (Lent CStr) (Option Nat) (Option Nat)}
    {x : OneStep CStr (Option Zhash) (Option (List Frame))} (h : Hands N l x)
    (htext : ∀ t ∈ x.texts, t.1.IsText) :
    Spec N (l.build z zhashDup) fun self M' =>
      ∃ M₀, IsMsg self (x.message z zhashDup) M₀ ∧ M' = M₀ + N := by
  rw [build, h.id]
  refine (spec_zccpMsgNew x.id).call (zero_add N).symm fun self M hM => ?_
  refine (spec_setTexts z h.texts htext hM).bind fun _ M' hM' => ?_
  obtain ⟨M₁, hM₁, rfl⟩ := hM'
  refine (spec_copyHeaders zhashDup hM₁ h.headers).bind fun _ M' hM' => ?_
  obtain ⟨M₂, hM₂, rfl⟩ := hM'
  refine (spec_copyContent hM₂ h.content).bind fun _ M' hM' => ?_
  obtain ⟨M₃, hM₃, rfl⟩ := hM'
  exact .pure ⟨M₃, hM₃, rfl⟩

end OneStep

end Memory

end Zccp
