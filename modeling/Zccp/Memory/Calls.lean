import Mathlib.Algebra.BigOperators.Group.Finset.Piecewise
import Zccp.Memory.Decode

/-!
# `Zccp/Memory/Calls.lean` — a caller of the message class

A caller has variables, and hands them to the functions of the class in any order it likes. `Call.spec`
says what it then holds, with no pointer in it, and what is left that nobody has; it is `none` where
the caller breaks the rules of the class: to hand over what it does not hold, to overwrite what it
does, to set a string from itself, to send a message without an id. `Call.exec` is the call itself.

Between the two is `run_owned`: a caller that keeps the rules meets nothing undefined, sees what the
model without pointers says, and there is nothing on the heap but what it holds and what is left.
`emptied_iff` says when nothing is left, and `setFromOwn_iff` why one of the rules is there.

What a variable owns is a multiset of cells, and what they all own is the sum (`OwnsAll`): a sum and not
a union, so that two variables never share a cell, and a variable can be taken out of it, used, and put
back without a word about the others.
-/

set_option autoImplicit false

namespace Zccp.Memory

open Lib

/-! ## What all the variables own -/

section OwnsAll

variable {V : Type} [Fintype V]

/-- What is behind the pointers of a caller, in these cells. -/
def OwnsAll (ps : V → Option Nat) (held : V → Option Held) (M : Cells Block) : Prop :=
  ∃ c : V → Cells Block, (∀ v, Owns (ps v) (held v) (c v)) ∧ M = ∑ v, c v

variable {ps : V → Option Nat} {held : V → Option Held} {M : Cells Block}

/-- At the start nobody owns anything. -/
theorem ownsAll_none : OwnsAll (fun _ : V => none) (fun _ => none) 0 :=
  ⟨fun _ => 0, fun _ => rfl, Finset.sum_const_zero.symm⟩

variable [DecidableEq V]

/-- One variable gets something else. All the rules on variables follow from this one, which takes what the
variable owns out of the sum and says how to put something in its place. -/
theorem OwnsAll.replace (h : OwnsAll ps held M) (v : V) :
    ∃ N F, Owns (ps v) (held v) N ∧ M = N + F ∧ ∀ p x N', Owns p x N' →
      OwnsAll (Function.update ps v p) (Function.update held v x) (N' + F) := by
  obtain ⟨c, hc, rfl⟩ := h
  refine ⟨c v, ∑ w ∈ Finset.univ \ {v}, c w, hc v, ?_, fun p x N' hown => ?_⟩
  · exact Finset.sum_eq_add_sum_sdiff_singleton_of_mem (Finset.mem_univ v) c
  · refine ⟨Function.update c v N', fun w => ?_, ?_⟩
    · by_cases hw : w = v
      · subst hw
        simpa only [Function.update_self] using hown
      · simpa only [Function.update_of_ne hw] using hc w
    · exact (Finset.sum_update_of_mem (Finset.mem_univ v) c N').symm

/-- One variable gives up what it has. -/
theorem OwnsAll.take (h : OwnsAll ps held M) (v : V) :
    ∃ N F, Owns (ps v) (held v) N ∧ M = N + F ∧
      OwnsAll (Function.update ps v none) (Function.update held v none) F := by
  obtain ⟨N, F, hown, rfl, hput⟩ := h.replace v
  have hnone := hput none none 0 rfl
  rw [zero_add] at hnone
  exact ⟨N, F, hown, rfl, hnone⟩

/-- What one variable owns is there. -/
theorem OwnsAll.le (h : OwnsAll ps held M) (v : V) : ∃ N, Owns (ps v) (held v) N ∧ N ≤ M := by
  obtain ⟨N, F, hown, rfl, -⟩ := h.replace v
  exact ⟨N, hown, Multiset.le_add_right N F⟩

/-- One that has nothing gets something. -/
theorem OwnsAll.put (h : OwnsAll ps held M) {v : V} (hv : held v = none) {p : Option Nat}
    {x : Option Held} {N : Cells Block} (hown : Owns p x N) :
    OwnsAll (Function.update ps v p) (Function.update held v x) (N + M) := by
  obtain ⟨N₀, F, hown₀, rfl, hput⟩ := h.replace v
  rw [hv] at hown₀
  obtain ⟨-, rfl⟩ := hown₀.none
  rw [zero_add]
  exact hput p x N hown

theorem OwnsAll.put_null (h : OwnsAll ps held M) {v : V} (hv : held v = none) :
    OwnsAll (Function.update ps v none) (Function.update held v none) M := by
  have hput := h.put (p := none) (x := none) (N := 0) hv rfl
  rwa [zero_add] at hput

/-- A variable that holds nothing is `NULL`. -/
theorem OwnsAll.null (h : OwnsAll ps held M) {v : V} (hv : held v = none) : ps v = none := by
  obtain ⟨N, hown, -⟩ := h.le v
  rw [hv] at hown
  exact hown.none.1

end OwnsAll

/-! ## What is handed over -/

/-- A pointer that a caller hands over: a variable, or a field of a message that it holds. -/
inductive Source (V : Type)
  | var (w : V)
  | field (w : V) (f : Field)
deriving DecidableEq

namespace Source

variable {V : Type}

/-- The variable behind it. -/
def target : Source V → V
  | var w => w
  | field w _ => w

/-- The pointer itself. -/
def pointer (ps : V → Option Nat) : Source V → Mem (Option Nat)
  | var w => pure (ps w)
  | field w f => do
    match ps w with
    | none => undefined
    | some p => do
      let o ← loadAs .msg p
      pure (o.field f)

/-- What is behind it; `none` is what cannot be handed over. -/
def block? (held : V → Option Held) : Source V → Option (Option Block)
  | var w =>
    match held w with
    | none => some none
    | some (.hash h) => some (some (.hash h))
    | some (.zmsg frames) => some (some (.zmsg frames))
    | some (.msg _) => none
  | field w f =>
    match held w with
    | some (.msg m) => some (m.block f)
    | _ => none

/-- That of a kind, or `NULL`. -/
def find {α : Type} (kind : Kind α) (held : V → Option Held) (s : Source V) : Option (Option α) :=
  match s.block? held with
  | none => none
  | some none => some none
  | some (some b) => (kind.of? b).map some

variable {s : Source V} {ps ps' : V → Option Nat} {held held' : V → Option Held}

/-- What is handed over depends on one variable. -/
theorem pointer_congr (h : ps' s.target = ps s.target) : s.pointer ps' = s.pointer ps := by
  cases s with
  | var w =>
    have hw : ps' w = ps w := h
    rw [pointer, pointer, hw]
  | field w f =>
    have hw : ps' w = ps w := h
    rw [pointer, pointer, hw]

theorem block_congr (h : held' s.target = held s.target) : s.block? held' = s.block? held := by
  cases s with
  | var w =>
    have hw : held' w = held w := h
    rw [block?, block?, hw]
  | field w f =>
    have hw : held' w = held w := h
    rw [block?, block?, hw]

/-- What is found is of the kind that was looked for. -/
theorem block_of_find {α : Type} {kind : Kind α} {x : Option α} (h : s.find kind held = some x) :
    s.block? held = some (x.map kind.make) := by
  rw [find] at h
  split at h
  · cases h
  · rename_i hb
    cases h
    exact hb
  · rename_i b hb
    obtain ⟨a, ha, rfl⟩ := Option.map_eq_some_iff.mp h
    rw [hb, kind.make_of b a ha]
    rfl

end Source

/-- A string or a frame that is copied: one from elsewhere, or one that a message has. -/
inductive Arg (V α : Type)
  | given (a : α)
  | kept (s : Source V)

namespace Arg

variable {V α : Type}

def lend (ps : V → Option Nat) : Arg V α → Mem (Lent α)
  | given a => pure (.given a)
  | kept s => do
    match ← s.pointer ps with
    | none => undefined
    | some p => pure (.kept p)

def value (kind : Kind α) (held : V → Option Held) : Arg V α → Option α
  | given a => some a
  | kept s => (s.find kind held).join

/-- It is what a message has in a field. -/
def Is (v : V) (f : Field) : Arg V α → Prop
  | given _ => False
  | kept s => s = .field v f

instance [DecidableEq V] (v : V) (f : Field) (a : Arg V α) : Decidable (a.Is v f) :=
  match a with
  | given _ => instDecidableFalse
  | kept s => inferInstanceAs (Decidable (s = .field v f))

end Arg

section Sources

variable {V : Type} [Fintype V] [DecidableEq V] {ps : V → Option Nat} {held : V → Option Held}
  {M F : Cells Block} {α : Type}

/-- What is handed over is there. -/
theorem Source.spec_pointer (hall : OwnsAll ps held M) {s : Source V} {b : Option Block}
    (hb : s.block? held = some b) :
    ∃ p, Spec M (s.pointer ps) (fun r M' => r = p ∧ M' = M) ∧ p.isSome = b.isSome ∧ cell p b ≤ M := by
  cases s with
  | var w =>
    refine ⟨ps w, .pure ⟨rfl, rfl⟩, ?_⟩
    obtain ⟨N, hown, hle⟩ := hall.le w
    rw [Source.block?] at hb
    cases hw : held w with
    | none =>
      rw [hw] at hb hown
      cases hb
      rw [hown.none.1]
      exact ⟨rfl, Multiset.zero_le M⟩
    | some x =>
      rw [hw] at hb hown
      cases hp : ps w with
      | none => rw [hp] at hown; exact hown.elim
      | some p =>
        rw [hp] at hown
        cases x with
        | msg m => cases hb
        | hash h =>
          cases hb
          obtain rfl : N = {(p, .hash h)} := hown
          exact ⟨rfl, hle⟩
        | zmsg frames =>
          cases hb
          obtain rfl : N = {(p, .zmsg frames)} := hown
          exact ⟨rfl, hle⟩
  | field w f =>
    obtain ⟨N, hown, hle⟩ := hall.le w
    rw [Source.block?] at hb
    split at hb
    · rename_i m hw
      cases hb
      rw [hw] at hown
      obtain ⟨q, hq, o, hrep, rfl⟩ := hown.msg
      refine ⟨o.field f, ?_, hrep.field f, (cell_le_msgCells f).trans hle⟩
      rw [Source.pointer, hq]
      exact spec_read .msg (Multiset.mem_of_le hle mem_msgCells) (.pure ⟨rfl, rfl⟩)
    · cases hb

/-- What is behind one pointer is among what is behind some of them. -/
theorem cell_le_behind {o : MsgObject} {m : ZccpMsg} {l : List Field} {f : Field} (hf : f ∈ l) :
    cell (o.field f) (m.block f) ≤ behind o m l := by
  obtain ⟨l₁, l₂, rfl⟩ := List.append_of_mem hf
  rw [behind, List.map_append, List.sum_append, List.map_cons, List.sum_cons]
  exact (Multiset.le_add_right _ _).trans (Multiset.le_add_left _ _)

/-- What is handed to a message is beside the field that it is for: in another variable, or in another
field of the same message. This is what the rule against setting a string from itself buys, for the
field is freed before the string is copied. -/
theorem Source.spec_beside {v : V} {self : Nat} {o : MsgObject} {m : ZccpMsg} {f : Field}
    (hself : ps v = some self) (hv : held v = some (.msg m)) (hrep : Represents o m)
    (hall : OwnsAll (Function.update ps v none) (Function.update held v none) F) {s : Source V}
    (hs : s ≠ .field v f) {b : Option Block} (hb : s.block? held = some b) :
    ∃ p, Spec (msgCells self o m + F) (s.pointer ps)
        (fun r M' => r = p ∧ M' = msgCells self o m + F) ∧
      p.isSome = b.isSome ∧ cell p b ≤ behind o m (fields.erase f) + F := by
  by_cases ht : s.target = v
  · cases s with
    | var w =>
      obtain rfl : w = v := ht
      rw [Source.block?, hv] at hb
      cases hb
    | field w g =>
      obtain rfl : w = v := ht
      rw [Source.block?, hv] at hb
      cases hb
      have hg : g ≠ f := fun heq => hs (heq ▸ rfl)
      refine ⟨o.field g, ?_, hrep.field g, ?_⟩
      · rw [Source.pointer, hself]
        exact spec_read .msg (Multiset.mem_add.mpr (.inl mem_msgCells)) (.pure ⟨rfl, rfl⟩)
      · have hmem : g ∈ fields.erase f := (List.mem_erase_of_ne hg).mpr (mem_fields g)
        exact (cell_le_behind hmem).trans (Multiset.le_add_right _ _)
  · have hb' : s.block? (Function.update held v none) = some b :=
      (Source.block_congr (Function.update_of_ne ht _ _)).trans hb
    have hpointer : s.pointer (Function.update ps v none) = s.pointer ps :=
      Source.pointer_congr (Function.update_of_ne ht _ _)
    obtain ⟨p, hspec, hp, hle⟩ := Source.spec_pointer hall hb'
    rw [hpointer] at hspec
    refine ⟨p, hspec.tail (add_comm _ _) fun r M' hM' => ?_, hp, hle.trans (Multiset.le_add_left _ _)⟩
    obtain ⟨rfl, rfl⟩ := hM'
    exact ⟨rfl, add_comm _ _⟩

/-- So is what is copied. -/
theorem Arg.spec_beside {kind : Kind α} {v : V} {self : Nat} {o : MsgObject} {m : ZccpMsg} {f : Field}
    (hself : ps v = some self) (hv : held v = some (.msg m)) (hrep : Represents o m)
    (hall : OwnsAll (Function.update ps v none) (Function.update held v none) F) {a : Arg V α}
    (ha : ¬ a.Is v f) {x : α} (hx : a.value kind held = some x) :
    Spec (msgCells self o m + F) (a.lend ps) fun lent M' =>
      Lends kind x (behind o m (fields.erase f) + F) lent ∧ M' = msgCells self o m + F := by
  cases a with
  | given a =>
    obtain rfl := Option.some.inj hx
    exact .pure ⟨rfl, rfl⟩
  | kept s =>
    have hfind : s.find kind held = some (some x) := Option.join_eq_some_iff.mp hx
    obtain ⟨p, hspec, hp, hle⟩ := Source.spec_beside hself hv hrep hall ha (Source.block_of_find hfind)
    obtain ⟨q, rfl⟩ := Option.isSome_iff_exists.mp hp
    refine hspec.bind fun r M' hM' => ?_
    obtain ⟨rfl, rfl⟩ := hM'
    exact .pure ⟨Multiset.mem_of_le hle (Multiset.mem_singleton_self _), rfl⟩

/-- What is copied into a message that is made for it is there. -/
theorem Arg.spec_lend {kind : Kind α} (hall : OwnsAll ps held M) {a : Arg V α} {x : α}
    (hx : a.value kind held = some x) :
    Spec M (a.lend ps) fun lent M' => Lends kind x M lent ∧ M' = M := by
  cases a with
  | given a =>
    obtain rfl := Option.some.inj hx
    exact .pure ⟨rfl, rfl⟩
  | kept s =>
    have hfind : s.find kind held = some (some x) := Option.join_eq_some_iff.mp hx
    obtain ⟨p, hspec, hp, hle⟩ := Source.spec_pointer hall (Source.block_of_find hfind)
    obtain ⟨q, rfl⟩ := Option.isSome_iff_exists.mp hp
    refine hspec.bind fun r M' hM' => ?_
    obtain ⟨rfl, rfl⟩ := hM'
    exact .pure ⟨Multiset.mem_of_le hle (Multiset.mem_singleton_self _), rfl⟩

end Sources

/-! ## Calls -/

/-- What is done to a message that stays. -/
inductive Edit (V : Type)
  | setId (id : MsgId)
  | setRoutingId (routingId : Arg V Frame)
  | setText (f : Field) (format : Arg V CStr)
  | headersInsert (key format : CStr)

/-- The functions of the class, with the variables that they are called on. The first four are those of
CZMQ that make and destroy what a caller hands over. -/
inductive Call (V : Type)
  | zhashNew (w : V) (h : Zhash)
  | zmsgNew (w : V) (frames : List Frame)
  | zhashDestroy (v : V)
  | zmsgDestroy (v : V)
  | new (w : V) (id : MsgId)
  | destroy (v : V)
  | edit (v : V) (e : Edit V)
  | getHeaders (v w : V)
  | getContent (v w : V)
  | setHeaders (v w : V)
  | setContent (v w : V)
  | dup (v w : V)
  | encode (v w : V)
  | decode (v w : V)
  | send (router : Bool) (v : V)
  | sendAgain (router : Bool) (v : V)
  | recv (router : Bool) (arrived : List Frame) (w : V)
  | encodeStep (x : OneStep (Arg V CStr) (Source V) (Source V)) (w : V)
  | sendStep (router : Bool) (x : OneStep (Arg V CStr) (Source V) (Source V))

instance (f : Field) : Decidable f.IsText :=
  inferInstanceAs (Decidable (f = .identifier ∨ f = .expression ∨ f = .address ∨ f = .sender))

section Exec

variable {V : Type} (z : Czmq) (zhashDup : Zhash → Zhash) (ps : V → Option Nat)

/-- `assert (self)` -/
def handle {α : Type} (p : Option Nat) (x : Nat → Mem α) : Mem α :=
  match p with
  | none => undefined
  | some self => x self

def Edit.exec (self : Nat) : Edit V → Mem Unit
  | setId id => zccpMsgSetId self id
  | setRoutingId routingId => do
    let lent ← routingId.lend ps
    zccpMsgSetRoutingId self lent
  | setText f format => do
    let lent ← format.lend ps
    Memory.setText z f self lent
  | headersInsert key format => zccpMsgHeadersInsert z self key format

def lendTexts : List (Field × Arg V CStr) → Mem (List (Field × Lent CStr))
  | [] => pure []
  | (f, a) :: texts => do
    let lent ← a.lend ps
    let lents ← lendTexts texts
    pure ((f, lent) :: lents)

def pointerOf : Option (Source V) → Mem (Option (Option Nat))
  | none => pure none
  | some s => some <$> s.pointer ps

def OneStep.lend (x : OneStep (Arg V CStr) (Source V) (Source V)) :
    Mem (OneStep (Lent CStr) (Option Nat) (Option Nat)) := do
  let texts ← lendTexts ps x.texts
  let headers ← pointerOf ps x.headers
  let content ← pointerOf ps x.content
  pure ⟨x.id, texts, headers, content⟩

variable [DecidableEq V]

/-- The call, with the variables behind it and the messages that go out. -/
def Call.exec : Call V → Mem ((V → Option Nat) × List (List Frame))
  | zhashNew w h => do
    let p ← alloc (.hash h)
    pure (Function.update ps w (some p), [])
  | zmsgNew w frames => do
    let p ← alloc (.zmsg frames)
    pure (Function.update ps w (some p), [])
  | zhashDestroy v => do
    Memory.zhashDestroy (ps v)
    pure (Function.update ps v none, [])
  | zmsgDestroy v => do
    Memory.zmsgDestroy (ps v)
    pure (Function.update ps v none, [])
  | new w id => do
    let self ← zccpMsgNew id
    pure (Function.update ps w (some self), [])
  | destroy v => do
    zccpMsgDestroy (ps v)
    pure (Function.update ps v none, [])
  | edit v e => do
    handle (ps v) fun self => e.exec z ps self
    pure (ps, [])
  | getHeaders v w => do
    let p ← handle (ps v) zccpMsgGetHeaders
    pure (Function.update ps w p, [])
  | getContent v w => do
    let p ← handle (ps v) zccpMsgGetContent
    pure (Function.update ps w p, [])
  | setHeaders v w => do
    handle (ps v) fun self => zccpMsgSetHeaders self (ps w)
    pure (Function.update ps w none, [])
  | setContent v w => do
    handle (ps v) fun self => zccpMsgSetContent self (ps w)
    pure (Function.update ps w none, [])
  | dup v w => do
    let copy ← zccpMsgDup zhashDup (ps v)
    pure (Function.update ps w copy, [])
  | encode v w => do
    let msg ← handle (ps v) zccpMsgEncode
    pure (Function.update (Function.update ps v none) w (some msg), [])
  | decode v w => do
    let self ← zccpMsgDecode (ps v)
    pure (Function.update (Function.update ps v none) w self, [])
  | send router v => do
    let frames ← handle (ps v) (zccpMsgSend router)
    pure (Function.update ps v none, [frames])
  | sendAgain router v => do
    let frames ← handle (ps v) (zccpMsgSendAgain zhashDup router)
    pure (ps, [frames])
  | recv router arrived w => do
    let self ← zccpMsgRecv router arrived
    pure (Function.update ps w self, [])
  | encodeStep x w => do
    let args ← x.lend ps
    let msg ← args.encode z zhashDup
    pure (Function.update ps w (some msg), [])
  | sendStep router x => do
    let args ← x.lend ps
    let frames ← args.send z zhashDup router
    pure (ps, [frames])

/-- Call after call. -/
def execAll : (V → Option Nat) → List (Call V) → Mem ((V → Option Nat) × List (List Frame))
  | ps, [] => pure (ps, [])
  | ps, call :: calls => do
    let first ← call.exec z zhashDup ps
    let rest ← execAll first.1 calls
    pure (rest.1, first.2 ++ rest.2)

end Exec

/-- What a caller holds after a call, what went out, and what is left that nobody has. -/
structure Outcome (V : Type) where
  held : V → Option Held
  sent : List (List Frame)
  leaked : Multiset Block

section Spec

variable {V : Type} (z : Czmq) (zhashDup : Zhash → Zhash) (held : V → Option Held)

/-- The message that a caller holds. -/
def msgAt (v : V) : Option ZccpMsg :=
  match held v with
  | some (.msg m) => some m
  | _ => none

theorem msgAt_eq {held : V → Option Held} {v : V} {m : ZccpMsg} (h : msgAt held v = some m) :
    held v = some (.msg m) := by
  rw [msgAt] at h
  split at h
  · rename_i hv
    cases h
    exact hv
  · cases h

variable [DecidableEq V]

/-- A variable that holds nothing, and gets something. -/
def putAt (held : V → Option Held) (w : V) (x : Option Held) : Option (V → Option Held) :=
  match held w with
  | none => some (Function.update held w x)
  | some _ => none

theorem putAt_eq {held held' : V → Option Held} {w : V} {x : Option Held}
    (h : putAt held w x = some held') : held w = none ∧ held' = Function.update held w x := by
  rw [putAt] at h
  split at h
  · rename_i hw
    cases h
    exact ⟨hw, rfl⟩
  · cases h

def Edit.apply (v : V) (m : ZccpMsg) : Edit V → Option ZccpMsg
  | setId id => some (m.setId id)
  | setRoutingId routingId =>
    if routingId.Is v .routingId then none
    else (routingId.value .frame held).map m.setRoutingId
  | setText f format =>
    if ¬ f.IsText ∨ format.Is v f then none
    else (format.value .string held).map fun text => m.withText f (some (z.zsysVprintf text))
  | headersInsert key format => some (m.headersInsert z key format)

/-- The frames of a message that can be sent. -/
def sentOf (router : Bool) (m : ZccpMsg) : Option (List Frame) :=
  if m.id = .unset then none
  else (prependRoutingId router m.routingId (wire m)).map fun sent =>
    sent.routingId.toList ++ sent.frames

def valueTexts : List (Field × Arg V CStr) → Option (List (Field × CStr))
  | [] => some []
  | (f, a) :: texts => do
    let text ← a.value .string held
    let values ← valueTexts texts
    if f.IsText then some ((f, text) :: values) else none

def valueOf {α : Type} (kind : Kind α) : Option (Source V) → Option (Option (Option α))
  | none => some none
  | some s => (s.find kind held).map some

def OneStep.value (x : OneStep (Arg V CStr) (Source V) (Source V)) :
    Option (OneStep CStr (Option Zhash) (Option (List Frame))) := do
  let texts ← valueTexts held x.texts
  let headers ← valueOf held .hash x.headers
  let content ← valueOf held .zmsg x.content
  pure ⟨x.id, texts, headers, content⟩

/-- What there is for the caller to hold after a call. -/
def quiet (held : V → Option Held) : Outcome V := ⟨held, [], 0⟩

/-- What a call does to the values held, without blocks or pointers. It is undefined where the caller would
break a rule: an argument of another type than the method's, a variable that holds a value already given a
new one, an id that is missing when the message is encoded or sent. -/
def Call.spec : Call V → Option (Outcome V)
  | zhashNew w h => (putAt held w (some (.hash h))).map quiet
  | zmsgNew w frames => (putAt held w (some (.zmsg frames))).map quiet
  | zhashDestroy v =>
    match held v with
    | some (.hash _) | none => some (quiet (Function.update held v none))
    | _ => none
  | zmsgDestroy v =>
    match held v with
    | some (.zmsg _) | none => some (quiet (Function.update held v none))
    | _ => none
  | new w id => (putAt held w (some (.msg (Zccp.zccpMsgNew id)))).map quiet
  | destroy v =>
    match held v with
    | some (.msg _) | none => some (quiet (Function.update held v none))
    | _ => none
  | edit v e => do
    let m ← msgAt held v
    let m' ← e.apply z held v m
    pure (quiet (Function.update held v (some (.msg m'))))
  | getHeaders v w => do
    let m ← msgAt held v
    (putAt (Function.update held v (some (.msg { m with headers := none }))) w
      (m.headers.map .hash)).map quiet
  | getContent v w => do
    let m ← msgAt held v
    (putAt (Function.update held v (some (.msg { m with content := none }))) w
      (m.content.map .zmsg)).map quiet
  | setHeaders v w => do
    let m ← msgAt held v
    let headers ← (Source.var w).find .hash held
    pure (quiet (Function.update (Function.update held w none) v
      (some (.msg { m with headers := headers }))))
  | setContent v w => do
    let m ← msgAt held v
    let content ← (Source.var w).find .zmsg held
    pure (quiet (Function.update (Function.update held w none) v
      (some (.msg { m with content := content }))))
  | dup v w =>
    match held v with
    | none => (putAt held w none).map quiet
    | some (.msg m) => do
      let copy ← Zccp.zccpMsgDup zhashDup (some m)
      (putAt held w (some (.msg copy))).map quiet
    | _ => none
  | encode v w => do
    let m ← msgAt held v
    if m.id = .unset then none
    else (putAt (Function.update held v none) w (some (.zmsg (wire m)))).map quiet
  | decode v w =>
    match held v with
    | none => (putAt held w none).map quiet
    | some (.zmsg frames) => do
      let held' ← putAt (Function.update held v none) w
        ((Zccp.zccpMsgDecode frames).toOption.map .msg)
      pure ⟨held', [], stray (strandedOf frames)⟩
    | _ => none
  | send router v => do
    let m ← msgAt held v
    let frames ← sentOf router m
    pure ⟨Function.update held v none, [frames], 0⟩
  | sendAgain router v => do
    let m ← msgAt held v
    let copy ← Zccp.zccpMsgDup zhashDup (some m)
    let frames ← sentOf router copy
    pure ⟨held, [frames], 0⟩
  | recv router arrived w => do
    let held' ← putAt held w ((received router arrived).map .msg)
    pure ⟨held', [], leftover router arrived⟩
  | encodeStep x w => do
    let args ← x.value held
    if args.id = .unset then none
    else (putAt held w (some (.zmsg (wire (args.message z zhashDup))))).map quiet
  | sendStep router x => do
    let args ← x.value held
    let frames ← sentOf router (args.message z zhashDup)
    pure ⟨held, [frames], 0⟩

/-- Call after call. -/
def specAll : (V → Option Held) → List (Call V) → Option (Outcome V)
  | held, [] => some (quiet held)
  | held, call :: calls => do
    let first ← call.spec z zhashDup held
    let rest ← specAll first.held calls
    pure ⟨rest.held, first.sent ++ rest.sent, first.leaked + rest.leaked⟩

end Spec

/-! ## One call -/

section Step

variable {V : Type} [Fintype V] [DecidableEq V] {z : Czmq} {zhashDup : Zhash → Zhash}
  {ps : V → Option Nat} {held held' : V → Option Held} {M F N : Cells Block} {v w : V} {m : ZccpMsg}
  {out : Outcome V}

/-- The caller holds what is said and the rest of the heap is what is left. The heap is divided without
remainder, so that a leak which the model does not tell of would be a contradiction. -/
def Accounts (out : Outcome V) (r : (V → Option Nat) × List (List Frame)) (M : Cells Block) : Prop :=
  r.2 = out.sent ∧ ∃ M₀ L, OwnsAll r.1 out.held M₀ ∧ M = M₀ + L ∧ L.map Prod.snd = out.leaked

omit [DecidableEq V] in
/-- Nothing is sent and nothing is left. -/
theorem accounts_quiet (h : OwnsAll ps held M) : Accounts (quiet held) (ps, []) M :=
  ⟨rfl, M, 0, h, (add_zero M).symm, rfl⟩

/-- The message behind a variable, and the rest. -/
theorem OwnsAll.msg (h : OwnsAll ps held M) (hv : held v = some (.msg m)) :
    ∃ self o F, ps v = some self ∧ Represents o m ∧ M = msgCells self o m + F ∧
      OwnsAll (Function.update ps v none) (Function.update held v none) F := by
  obtain ⟨N, F, hown, rfl, hnone⟩ := h.take v
  rw [hv] at hown
  obtain ⟨self, hself, o, hrep, rfl⟩ := hown.msg
  exact ⟨self, o, F, hself, hrep, rfl, hnone⟩

/-- A message that stays where it is. -/
theorem OwnsAll.msg_stays (h : OwnsAll ps held M) (hv : held v = some (.msg m)) :
    ∃ self o F, ps v = some self ∧ Represents o m ∧ M = msgCells self o m + F ∧
      OwnsAll (Function.update ps v none) (Function.update held v none) F ∧
      ∀ m' N, IsMsg self m' N → OwnsAll ps (Function.update held v (some (.msg m'))) (N + F) := by
  obtain ⟨N, F, hown, rfl, hput⟩ := h.replace v
  rw [hv] at hown
  obtain ⟨self, hself, o, hrep, rfl⟩ := hown.msg
  have hnone := hput none none 0 rfl
  rw [zero_add] at hnone
  refine ⟨self, o, F, hself, hrep, rfl, hnone, fun m' N hN => ?_⟩
  have hstays := hput (some self) (some (.msg m')) N hN
  rwa [← hself, Function.update_eq_self] at hstays

/-- What a message gives away is behind the pointer that its getter answers. -/
theorem owns_map {α : Type} (hold : α → Held) {make : α → Block} {p : Option Nat} {x : Option α}
    (hown : ∀ q a, Owns (some q) (some (hold a)) {(q, make a)}) (hp : p.isSome = x.isSome) :
    Owns p (x.map hold) (cell p (x.map make)) := by
  cases x with
  | none =>
    obtain rfl : p = none := Option.not_isSome_iff_eq_none.mp (by simp [hp])
    rfl
  | some a =>
    obtain ⟨q, rfl⟩ := Option.isSome_iff_exists.mp hp
    exact hown q a

/-- Something new for a variable that holds nothing. -/
theorem spec_make (hall : OwnsAll ps held M) {x : Held} {b : Block}
    (hown : ∀ p, Owns (some p) (some x) {(p, b)})
    (h : (putAt held w (some x)).map quiet = some out) :
    Spec M (do
      let p ← alloc b
      pure (Function.update ps w (some p), [])) (Accounts out) := by
  obtain ⟨held', hput, rfl⟩ := Option.map_eq_some_iff.mp h
  obtain ⟨hw, rfl⟩ := putAt_eq hput
  refine (spec_alloc b).call (zero_add M).symm fun p M' hM' => ?_
  subst hM'
  exact .pure (accounts_quiet (hall.put hw (hown p)))

/-- What a variable holds is destroyed. -/
theorem spec_discard (hall : OwnsAll ps held M) {x : Mem Unit}
    (hx : ∀ N, Owns (ps v) (held v) N → Spec N x fun _ M' => M' = 0) :
    Spec M (do
      x
      pure (Function.update ps v none, [])) (Accounts (quiet (Function.update held v none))) := by
  obtain ⟨N, F, hown, rfl, hnone⟩ := hall.take v
  exact (hx N hown).drop rfl (.pure (accounts_quiet hnone))

/-- What is done to a message that stays. The setters that copy need what they copy from to be beside the
field; the other two are handed nothing that is on the heap. -/
theorem Edit.spec_exec {e : Edit V} {self : Nat} {o : MsgObject} {m' : ZccpMsg}
    (hself : ps v = some self) (hv : held v = some (.msg m)) (hrep : Represents o m)
    (hall : OwnsAll (Function.update ps v none) (Function.update held v none) F)
    (he : e.apply z held v m = some m') :
    Spec (msgCells self o m + F) (e.exec z ps self) fun _ M' =>
      ∃ M₀, IsMsg self m' M₀ ∧ M' = M₀ + F := by
  cases e with
  | setId id =>
    obtain rfl := Option.some.inj he
    exact (spec_zccpMsgSetId ⟨o, hrep, rfl⟩ id).tail rfl fun _ M' hM' => ⟨M', hM', rfl⟩
  | setRoutingId routingId =>
    rw [Edit.apply] at he
    split at he
    · cases he
    rename_i hnot
    obtain ⟨data, hdata, rfl⟩ := Option.map_eq_some_iff.mp he
    refine (Arg.spec_beside hself hv hrep hall hnot hdata).bind fun lent M' hM' => ?_
    obtain ⟨hlent, rfl⟩ := hM'
    exact spec_replaceField .frame id hrep rfl rfl (fun g hg => block_congr hg rfl) rfl hlent
  | setText f format =>
    rw [Edit.apply] at he
    split at he
    · cases he
    rename_i hnot
    obtain ⟨hf, hnot⟩ := not_or.mp hnot
    obtain ⟨text, htext, rfl⟩ := Option.map_eq_some_iff.mp he
    refine (Arg.spec_beside hself hv hrep hall hnot htext).bind fun lent M' hM' => ?_
    obtain ⟨hlent, rfl⟩ := hM'
    have hf := not_not.mp hf
    exact spec_replaceField .string z.zsysVprintf hrep (block_text hf) (id_withText m f _)
      (fun g hg => block_withText_ne hg _) (block_withText hf _) hlent
  | headersInsert key format =>
    obtain rfl := Option.some.inj he
    exact (spec_zccpMsgHeadersInsert z ⟨o, hrep, rfl⟩ key format).tail rfl
      fun _ M' hM' => ⟨M', hM', rfl⟩

/-- A field of a message is given away. -/
theorem spec_get (hall : OwnsAll ps held M) (hv : msgAt held v = some m) {f : Field} (m' : ZccpMsg)
    {x : Option Held} (hid : m'.id = m.id) (hm : ∀ g, g ≠ f → m'.block g = m.block g)
    (hf : m'.block f = none)
    (hown : ∀ p : Option Nat, p.isSome = (m.block f).isSome → Owns p x (cell p (m.block f)))
    (h : (putAt (Function.update held v (some (.msg m'))) w x).map quiet = some out) :
    Spec M (do
      let p ← handle (ps v) (takeField f)
      pure (Function.update ps w p, [])) (Accounts out) := by
  obtain ⟨held', hput, rfl⟩ := Option.map_eq_some_iff.mp h
  obtain ⟨hw, rfl⟩ := putAt_eq hput
  obtain ⟨self, o, F, hself, hrep, rfl, -, hstays⟩ := hall.msg_stays (msgAt_eq hv)
  rw [hself]
  refine (spec_takeField hrep hid hm hf).call rfl fun p M' hM' => ?_
  obtain ⟨rfl, M₀, hM₀, rfl⟩ := hM'
  refine .pure (accounts_quiet ?_)
  have hput' := (hstays m' M₀ hM₀).put hw (hown (o.field f) (hrep.field f))
  have hcells : M₀ + cell (o.field f) (m.block f) + F = cell (o.field f) (m.block f) + (M₀ + F) := by
    abel
  rwa [hcells]

omit [Fintype V] [DecidableEq V] in
/-- What is behind a variable that is handed over. -/
theorem Owns.of_var {b : Option Block} (hown : Owns (ps w) (held w) N)
    (hb : (Source.var w).block? held = some b) :
    (ps w).isSome = b.isSome ∧ N = cell (ps w) b ∧ ∀ m, held w ≠ some (.msg m) := by
  rw [Source.block?] at hb
  cases hw : held w with
  | none =>
    rw [hw] at hb hown
    cases hb
    obtain ⟨hp, rfl⟩ := hown.none
    rw [hp]
    exact ⟨rfl, rfl, fun m hm => nomatch hm⟩
  | some x =>
    rw [hw] at hb hown
    cases hp : ps w with
    | none => rw [hp] at hown; exact hown.elim
    | some p =>
      rw [hp] at hown
      cases x with
      | msg m => cases hb
      | hash h =>
        cases hb
        exact ⟨rfl, hown, fun m hm => nomatch hm⟩
      | zmsg frames =>
        cases hb
        exact ⟨rfl, hown, fun m hm => nomatch hm⟩

/-- A field of a message is taken from a variable. -/
theorem spec_set {α : Type} (kind : Kind α) (hall : OwnsAll ps held M) (hv : msgAt held v = some m)
    {f : Field} (m' : ZccpMsg) {x x' : Option α} (hw : (Source.var w).find kind held = some x)
    (hx' : m.block f = x'.map kind.make) (hid : m'.id = m.id)
    (hm : ∀ g, g ≠ f → m'.block g = m.block g) (hf : m'.block f = x.map kind.make) :
    Spec M (do
      handle (ps v) fun self => putField kind f self (ps w)
      pure (Function.update ps w none, []))
      (Accounts (quiet (Function.update (Function.update held w none) v (some (.msg m'))))) := by
  have hv := msgAt_eq hv
  obtain ⟨N, F, hown, rfl, hnone⟩ := hall.take w
  obtain ⟨hp, rfl, hnot⟩ := hown.of_var (Source.block_of_find hw)
  have hne : v ≠ w := fun heq => hnot m (heq ▸ hv)
  have hv' : Function.update held w none v = some (.msg m) := (Function.update_of_ne hne _ _).trans hv
  obtain ⟨self, o, F, hself, hrep, rfl, -, hstays⟩ := hnone.msg_stays hv'
  rw [Function.update_of_ne hne] at hself
  rw [hself]
  refine (spec_putField kind hrep hx' hid hm hf hp).call (F := F) (by abel) fun _ M' hM' => ?_
  exact .pure (accounts_quiet (hstays m' M' hM'))

/-- What can be sent has an id, and a routing id where one is needed. -/
theorem sentOf_eq {router : Bool} {frames : List Frame} (h : sentOf router m = some frames) :
    m.id ≠ .unset ∧ ∃ sent, prependRoutingId router m.routingId (wire m) = some sent ∧
      frames = sent.routingId.toList ++ sent.frames := by
  rw [sentOf] at h
  split at h
  · cases h
  · obtain ⟨sent, hsent, rfl⟩ := Option.map_eq_some_iff.mp h
    exact ⟨‹_›, sent, hsent, rfl⟩

/-- A message that is sent is gone. -/
theorem spec_send {router : Bool} {frames : List Frame} {self : Nat} (h : IsMsg self m M)
    (hsent : sentOf router m = some frames) :
    Spec M (zccpMsgSend router self) fun r M' => r = frames ∧ M' = 0 := by
  obtain ⟨hid, sent, hprepend, rfl⟩ := sentOf_eq hsent
  exact spec_zccpMsgSend h hid hprepend

/-- One that is sent again is not. -/
theorem spec_zccpMsgSendAgain {router : Bool} {copy : ZccpMsg} {frames : List Frame} {self : Nat}
    (h : IsMsg self m M) (hcopy : Zccp.zccpMsgDup zhashDup (some m) = some copy)
    (hsent : sentOf router copy = some frames) :
    Spec M (zccpMsgSendAgain zhashDup router self) fun r M' => r = frames ∧ M' = M := by
  refine (spec_zccpMsgDup zhashDup h hcopy).bind fun r M' hM' => ?_
  obtain ⟨p, N, rfl, hN, rfl⟩ := hM'
  refine (spec_send hN hsent).tail rfl fun r M' hM' => ?_
  obtain ⟨rfl, rfl⟩ := hM'
  exact ⟨rfl, zero_add M⟩

/-! ## What the functions of one step are handed -/

/-- The strings, one after the other: lending one changes nothing for the next. -/
theorem spec_lendTexts (hall : OwnsAll ps held M) {texts : List (Field × Arg V CStr)}
    {values : List (Field × CStr)} (h : valueTexts held texts = some values) :
    Spec M (lendTexts ps texts) fun lents M' =>
      List.Forall₂ (fun l t => l.1 = t.1 ∧ Lends .string t.2 M l.2) lents values ∧ M' = M := by
  induction texts generalizing values with
  | nil =>
    cases h
    exact .pure ⟨.nil, rfl⟩
  | cons first texts ih =>
    obtain ⟨f, a⟩ := first
    obtain ⟨text, ha, h⟩ := Option.bind_eq_some_iff.mp h
    obtain ⟨rest, hrest, h⟩ := Option.bind_eq_some_iff.mp h
    split at h
    · cases h
      refine (Arg.spec_lend hall ha).bind fun lent M' hM' => ?_
      obtain ⟨hlent, rfl⟩ := hM'
      refine (ih hrest).bind fun lents M'' hM'' => ?_
      obtain ⟨hlents, rfl⟩ := hM''
      exact .pure ⟨.cons ⟨rfl, hlent⟩ hlents, rfl⟩
    · cases h

omit [Fintype V] [DecidableEq V] in
theorem isText_of_valueTexts {texts : List (Field × Arg V CStr)} {values : List (Field × CStr)}
    (h : valueTexts held texts = some values) : ∀ t ∈ values, t.1.IsText := by
  induction texts generalizing values with
  | nil =>
    cases h
    exact List.forall_mem_nil _
  | cons first texts ih =>
    obtain ⟨f, a⟩ := first
    obtain ⟨text, -, h⟩ := Option.bind_eq_some_iff.mp h
    obtain ⟨rest, hrest, h⟩ := Option.bind_eq_some_iff.mp h
    split at h
    · cases h
      exact List.forall_mem_cons.mpr ⟨‹_›, ih hrest⟩
    · cases h

/-- A pointer that the function may or may not have an argument for. -/
theorem spec_pointerOf {α : Type} {kind : Kind α} (hall : OwnsAll ps held M) {s : Option (Source V)}
    {x : Option (Option α)} (h : valueOf held kind s = some x) :
    Spec M (pointerOf ps s) fun p M' =>
      Option.Rel (fun p x => p.isSome = x.isSome ∧ cell p (x.map kind.make) ≤ M) p x ∧ M' = M := by
  cases s with
  | none =>
    cases h
    exact .pure ⟨.none, rfl⟩
  | some s =>
    obtain ⟨x, hx, rfl⟩ := Option.map_eq_some_iff.mp h
    obtain ⟨p, hspec, hp, hle⟩ := Source.spec_pointer hall (Source.block_of_find hx)
    show Spec M (some <$> s.pointer ps) _
    rw [← bind_pure_comp]
    refine hspec.bind fun r M' hM' => ?_
    obtain ⟨rfl, rfl⟩ := hM'
    exact .pure ⟨.some ⟨hp.trans Option.isSome_map, hle⟩, rfl⟩

/-- All that a function of one step is handed. -/
theorem OneStep.spec_lend (hall : OwnsAll ps held M)
    {x : OneStep (Arg V CStr) (Source V) (Source V)}
    {args : OneStep CStr (Option Zhash) (Option (List Frame))} (h : x.value held = some args) :
    Spec M (x.lend ps) fun l M' => Hands M l args ∧ M' = M := by
  obtain ⟨texts, htexts, h⟩ := Option.bind_eq_some_iff.mp h
  obtain ⟨headers, hheaders, h⟩ := Option.bind_eq_some_iff.mp h
  obtain ⟨content, hcontent, h⟩ := Option.bind_eq_some_iff.mp h
  cases h
  refine (spec_lendTexts hall htexts).bind fun texts' M' hM' => ?_
  obtain ⟨htexts', rfl⟩ := hM'
  refine (spec_pointerOf hall hheaders).bind fun headers' M'' hM'' => ?_
  obtain ⟨hheaders', rfl⟩ := hM''
  refine (spec_pointerOf hall hcontent).bind fun content' M'' hM'' => ?_
  obtain ⟨hcontent', rfl⟩ := hM''
  exact .pure ⟨⟨rfl, htexts', hheaders', hcontent'⟩, rfl⟩

omit [Fintype V] [DecidableEq V] in
theorem OneStep.isText_of_value {x : OneStep (Arg V CStr) (Source V) (Source V)}
    {args : OneStep CStr (Option Zhash) (Option (List Frame))} (h : x.value held = some args) :
    ∀ t ∈ args.texts, t.1.IsText := by
  obtain ⟨texts, htexts, h⟩ := Option.bind_eq_some_iff.mp h
  obtain ⟨headers, -, h⟩ := Option.bind_eq_some_iff.mp h
  obtain ⟨content, -, h⟩ := Option.bind_eq_some_iff.mp h
  cases h
  exact isText_of_valueTexts htexts

/-- A message made and encoded in one step: nothing is left of it but the frames. -/
theorem OneStep.spec_encode {l : OneStep (Lent CStr) (Option Nat) (Option Nat)}
    {args : OneStep CStr (Option Zhash) (Option (List Frame))} (h : Hands M l args)
    (htext : ∀ t ∈ args.texts, t.1.IsText) (hid : args.id ≠ .unset) :
    Spec M (l.encode z zhashDup) fun msg M' =>
      M' = {(msg, .zmsg (wire (args.message z zhashDup)))} + M := by
  refine (spec_build z zhashDup h htext).bind fun self M' hM' => ?_
  obtain ⟨M₀, hM₀, rfl⟩ := hM'
  have hid' : (args.message z zhashDup).id ≠ .unset := by rwa [args.message_id]
  refine (spec_zccpMsgEncode hM₀ hid').tail rfl fun msg M' hM' => ?_
  rw [hM']

/-- A message made and sent in one step: nothing is left of it. -/
theorem OneStep.spec_send {l : OneStep (Lent CStr) (Option Nat) (Option Nat)}
    {args : OneStep CStr (Option Zhash) (Option (List Frame))} (h : Hands M l args)
    (htext : ∀ t ∈ args.texts, t.1.IsText) {router : Bool} {frames : List Frame}
    (hsent : sentOf router (args.message z zhashDup) = some frames) :
    Spec M (l.send z zhashDup router) fun r M' => r = frames ∧ M' = M := by
  refine (spec_build z zhashDup h htext).bind fun self M' hM' => ?_
  obtain ⟨M₀, hM₀, rfl⟩ := hM'
  refine (Memory.spec_send hM₀ hsent).tail rfl fun r M' hM' => ?_
  obtain ⟨rfl, rfl⟩ := hM'
  exact ⟨rfl, zero_add M⟩

/-- A variable that holds no message is destroyed. -/
theorem spec_destroyVar {α : Type} (kind : Kind α) (hall : OwnsAll ps held M) (x : Option α)
    (hx : (Source.var v).block? held = some (x.map kind.make)) :
    Spec M (do
      destroyAs kind (ps v)
      pure (Function.update ps v none, [])) (Accounts (quiet (Function.update held v none))) := by
  refine spec_discard hall fun N hown => ?_
  obtain ⟨hp, rfl, -⟩ := hown.of_var hx
  exact spec_destroyAs kind (hp.trans Option.isSome_map)

/-- **One call.** What the caller may do is decided by `Call.spec`, so that each case begins with what
that says: the variables it needs hold what it needs. Then the rule of the function is applied to the
cells of these variables, and the rest of the heap is its frame. -/
theorem Call.spec_exec (hall : OwnsAll ps held M) {call : Call V}
    (h : call.spec z zhashDup held = some out) :
    Spec M (call.exec z zhashDup ps) (Accounts out) := by
  cases call with
  | zhashNew w x => exact spec_make (x := .hash x) hall (fun p => rfl) h
  | zmsgNew w frames => exact spec_make (x := .zmsg frames) hall (fun p => rfl) h
  | zhashDestroy v =>
    rw [Call.spec] at h
    split at h
    · rename_i x hv
      cases h
      exact spec_destroyVar .hash hall (some x) (by rw [Source.block?, hv]; rfl)
    · rename_i hv
      cases h
      exact spec_destroyVar .hash hall none (by rw [Source.block?, hv]; rfl)
    · cases h
  | zmsgDestroy v =>
    rw [Call.spec] at h
    split at h
    · rename_i x hv
      cases h
      exact spec_destroyVar .zmsg hall (some x) (by rw [Source.block?, hv]; rfl)
    · rename_i hv
      cases h
      exact spec_destroyVar .zmsg hall none (by rw [Source.block?, hv]; rfl)
    · cases h
  | new w id =>
    obtain ⟨held', hput, rfl⟩ := Option.map_eq_some_iff.mp h
    obtain ⟨hw, rfl⟩ := putAt_eq hput
    refine (spec_zccpMsgNew id).call (zero_add M).symm fun self M' hM' => ?_
    exact .pure (accounts_quiet (hall.put hw hM'))
  | destroy v =>
    rw [Call.spec] at h
    split at h
    · rename_i m hv
      cases h
      refine spec_discard hall fun N hown => ?_
      rw [hv] at hown
      obtain ⟨self, hself, hm⟩ := hown.msg
      rw [hself]
      exact spec_zccpMsgDestroy hm
    · rename_i hv
      cases h
      refine spec_discard hall fun N hown => ?_
      rw [hv] at hown
      obtain ⟨hp, rfl⟩ := hown.none
      rw [hp]
      exact .pure rfl
    · cases h
  | edit v e =>
    obtain ⟨m, hm, h⟩ := Option.bind_eq_some_iff.mp h
    obtain ⟨m', he, h⟩ := Option.bind_eq_some_iff.mp h
    cases h
    have hv := msgAt_eq hm
    obtain ⟨self, o, F, hself, hrep, rfl, hnone, hstays⟩ := hall.msg_stays hv
    rw [Call.exec, hself]
    refine (Edit.spec_exec hself hv hrep hnone he).bind fun _ M' hM' => ?_
    obtain ⟨M₀, hM₀, rfl⟩ := hM'
    exact .pure (accounts_quiet (hstays m' M₀ hM₀))
  | getHeaders v w =>
    obtain ⟨m, hm, h⟩ := Option.bind_eq_some_iff.mp h
    exact spec_get hall hm { m with headers := none } rfl (fun g hg => block_congr hg rfl) rfl
      (fun p hp => owns_map .hash (fun _ _ => rfl) (hp.trans Option.isSome_map)) h
  | getContent v w =>
    obtain ⟨m, hm, h⟩ := Option.bind_eq_some_iff.mp h
    exact spec_get hall hm { m with content := none } rfl (fun g hg => block_congr hg rfl) rfl
      (fun p hp => owns_map .zmsg (fun _ _ => rfl) (hp.trans Option.isSome_map)) h
  | setHeaders v w =>
    obtain ⟨m, hm, h⟩ := Option.bind_eq_some_iff.mp h
    obtain ⟨headers, hw, h⟩ := Option.bind_eq_some_iff.mp h
    cases h
    exact spec_set .hash hall hm { m with headers := headers } hw rfl rfl
      (fun g hg => block_congr hg rfl) rfl
  | setContent v w =>
    obtain ⟨m, hm, h⟩ := Option.bind_eq_some_iff.mp h
    obtain ⟨content, hw, h⟩ := Option.bind_eq_some_iff.mp h
    cases h
    exact spec_set .zmsg hall hm { m with content := content } hw rfl rfl
      (fun g hg => block_congr hg rfl) rfl
  | dup v w =>
    rw [Call.spec] at h
    split at h
    · rename_i hv
      obtain ⟨held', hput, rfl⟩ := Option.map_eq_some_iff.mp h
      obtain ⟨hw, rfl⟩ := putAt_eq hput
      rw [Call.exec, hall.null hv]
      exact .pure (accounts_quiet (hall.put_null hw))
    · rename_i m hv
      obtain ⟨copy, hcopy, h⟩ := Option.bind_eq_some_iff.mp h
      obtain ⟨held', hput, rfl⟩ := Option.map_eq_some_iff.mp h
      obtain ⟨hw, rfl⟩ := putAt_eq hput
      obtain ⟨self, o, F, hself, hrep, rfl, -⟩ := hall.msg hv
      rw [Call.exec, hself]
      refine (spec_zccpMsgDup zhashDup ⟨o, hrep, rfl⟩ hcopy).call rfl fun r M' hM' => ?_
      obtain ⟨p, N, rfl, hN, rfl⟩ := hM'
      rw [add_assoc]
      exact .pure (accounts_quiet (hall.put hw hN))
    · cases h
  | encode v w =>
    obtain ⟨m, hm, h⟩ := Option.bind_eq_some_iff.mp h
    split at h
    · cases h
    rename_i hid
    obtain ⟨held', hput, rfl⟩ := Option.map_eq_some_iff.mp h
    obtain ⟨hw, rfl⟩ := putAt_eq hput
    obtain ⟨self, o, F, hself, hrep, rfl, hnone⟩ := hall.msg (msgAt_eq hm)
    rw [Call.exec, hself]
    refine (spec_zccpMsgEncode ⟨o, hrep, rfl⟩ hid).call rfl fun msg M' hM' => ?_
    subst hM'
    exact .pure (accounts_quiet (hnone.put hw rfl))
  | decode v w =>
    rw [Call.spec] at h
    split at h
    · rename_i hv
      obtain ⟨held', hput, rfl⟩ := Option.map_eq_some_iff.mp h
      obtain ⟨hw, rfl⟩ := putAt_eq hput
      -- nothing is decoded, and nothing comes of it
      have hps : Function.update ps v none = ps := by rw [← hall.null hv, Function.update_eq_self]
      rw [Call.exec, hall.null hv, hps]
      exact .pure (accounts_quiet (hall.put_null hw))
    · rename_i frames hv
      obtain ⟨held', hput, h⟩ := Option.bind_eq_some_iff.mp h
      cases h
      obtain ⟨hw, rfl⟩ := putAt_eq hput
      obtain ⟨N, F, hown, rfl, hnone⟩ := hall.take v
      have hb : (Source.var v).block? held = some (some (.zmsg frames)) := by rw [Source.block?, hv]
      obtain ⟨hp, rfl, -⟩ := hown.of_var hb
      obtain ⟨p, hp⟩ := Option.isSome_iff_exists.mp hp
      rw [Call.exec, hp, cell_some]
      refine (spec_zccpMsgDecode p frames).call rfl fun self M' hM' => ?_
      obtain ⟨M₀, L, hown', rfl, hL⟩ := hM'
      -- `L` is the key that may be forgotten, and nobody's from now on
      exact .pure ⟨rfl, M₀ + F, L, hnone.put hw hown', by abel, hL⟩
    · cases h
  | send router v =>
    obtain ⟨m, hm, h⟩ := Option.bind_eq_some_iff.mp h
    obtain ⟨frames, hsent, h⟩ := Option.bind_eq_some_iff.mp h
    cases h
    obtain ⟨self, o, F, hself, hrep, rfl, hnone⟩ := hall.msg (msgAt_eq hm)
    rw [Call.exec, hself]
    refine (spec_send ⟨o, hrep, rfl⟩ hsent).call rfl fun r M' hM' => ?_
    obtain ⟨rfl, rfl⟩ := hM'
    rw [zero_add]
    exact .pure ⟨rfl, F, 0, hnone, (add_zero F).symm, rfl⟩
  | sendAgain router v =>
    obtain ⟨m, hm, h⟩ := Option.bind_eq_some_iff.mp h
    obtain ⟨copy, hcopy, h⟩ := Option.bind_eq_some_iff.mp h
    obtain ⟨frames, hsent, h⟩ := Option.bind_eq_some_iff.mp h
    cases h
    obtain ⟨self, o, F, hself, hrep, rfl, -⟩ := hall.msg (msgAt_eq hm)
    rw [Call.exec, hself]
    refine (spec_zccpMsgSendAgain ⟨o, hrep, rfl⟩ hcopy hsent).call rfl fun r M' hM' => ?_
    obtain ⟨rfl, rfl⟩ := hM'
    -- the message itself is where it was
    exact .pure ⟨rfl, _, 0, hall, (add_zero _).symm, rfl⟩
  | recv router arrived w =>
    obtain ⟨held', hput, h⟩ := Option.bind_eq_some_iff.mp h
    cases h
    obtain ⟨hw, rfl⟩ := putAt_eq hput
    refine (spec_zccpMsgRecv router arrived).call (zero_add M).symm fun self M' hM' => ?_
    obtain ⟨M₀, L, hown, rfl, hL⟩ := hM'
    exact .pure ⟨rfl, M₀ + M, L, hall.put hw hown, by abel, hL⟩
  | encodeStep x w =>
    obtain ⟨args, hargs, h⟩ := Option.bind_eq_some_iff.mp h
    split at h
    · cases h
    rename_i hid
    obtain ⟨held', hput, rfl⟩ := Option.map_eq_some_iff.mp h
    obtain ⟨hw, rfl⟩ := putAt_eq hput
    refine (OneStep.spec_lend hall hargs).bind fun l M' hM' => ?_
    obtain ⟨hl, rfl⟩ := hM'
    refine (OneStep.spec_encode hl (OneStep.isText_of_value hargs) hid).bind fun msg M' hM' => ?_
    subst hM'
    exact .pure (accounts_quiet (hall.put hw rfl))
  | sendStep router x =>
    obtain ⟨args, hargs, h⟩ := Option.bind_eq_some_iff.mp h
    obtain ⟨frames, hsent, h⟩ := Option.bind_eq_some_iff.mp h
    cases h
    refine (OneStep.spec_lend hall hargs).bind fun l M' hM' => ?_
    obtain ⟨hl, rfl⟩ := hM'
    refine (OneStep.spec_send hl (OneStep.isText_of_value hargs) hsent).bind fun r M' hM' => ?_
    obtain ⟨rfl, rfl⟩ := hM'
    exact .pure ⟨rfl, _, 0, hall, (add_zero _).symm, rfl⟩

/-- Call after call. By induction on the calls: what one leaves is set aside, and added up at the end. -/
theorem spec_execAll (hall : OwnsAll ps held M) {calls : List (Call V)}
    (h : specAll z zhashDup held calls = some out) :
    Spec M (execAll z zhashDup ps calls) (Accounts out) := by
  induction calls generalizing ps held M out with
  | nil =>
    cases h
    exact .pure (accounts_quiet hall)
  | cons call calls ih =>
    obtain ⟨first, hfirst, h⟩ := Option.bind_eq_some_iff.mp h
    obtain ⟨rest, hrest, h⟩ := Option.bind_eq_some_iff.mp h
    cases h
    refine (Call.spec_exec hall hfirst).bind fun r M' hM' => ?_
    obtain ⟨hsent, M₁, L₁, hall₁, rfl, hL₁⟩ := hM'
    refine (ih hall₁ hrest).call rfl fun r' M' hM' => ?_
    obtain ⟨hsent', M₂, L₂, hall₂, rfl, hL₂⟩ := hM'
    refine .pure ⟨by rw [hsent, hsent'], M₂, L₁ + L₂, hall₂, by abel, ?_⟩
    rw [Multiset.map_add, hL₁, hL₂]

end Step

/-! ## Whole runs -/

section Runs

variable {V : Type} [Fintype V] [DecidableEq V] {z : Czmq} {zhashDup : Zhash → Zhash}

/-- **A caller that keeps the rules of the class meets nothing undefined**, in whatever order it calls:
no object is used that is not there or is another one, none is freed twice, no assertion fails. The
messages that go out are those of the model without pointers, what is behind the variables is what they
hold there, and the rest of the heap is what is left of the messages that came in. -/
theorem run_owned (calls : List (Call V)) {out : Outcome V}
    (h : specAll z zhashDup (fun _ => none) calls = some out) :
    ∃ ps heap, execAll z zhashDup (fun _ => none) calls .empty = some ((ps, out.sent), heap) ∧
      ∃ M L, OwnsAll ps out.held M ∧ L.map Prod.snd = out.leaked ∧ heap.Is (M + L) := by
  obtain ⟨r, heap, M', hrun, haccounts, his⟩ := (spec_execAll ownsAll_none h).run
  obtain ⟨hsent, M, L, hall, rfl, hL⟩ := haccounts
  exact ⟨r.1, heap, by rw [hrun, ← hsent], M, L, hall, hL, his⟩

/-- A message is made and sent twice; another comes in on a `ROUTER`, which cannot be decoded. -/
theorem run_owned_publish :
    let calls : List (Call Bool) := [
      .new false .publish,
      .edit false (.setText .address (.given (.ofBytes [65]))),
      .edit false (.setText .sender (.kept (.field false .address))),
      .zmsgNew true [[1]],
      .setContent false true,
      .sendAgain false false,
      .encodeStep (.hello (.kept (.field false .address)) (.field false .headers)) true,
      .zmsgDestroy true,
      .send false false,
      .recv true [[7], [1]] true]
    ∃ out, specAll .literal id (fun _ => none) calls = some out ∧
      out.leaked = {.frame [7]} ∧ out.sent =
        [[[0xAA, 0xAA, 5, 1, 65, 0, 0, 0, 0], [1]], [[0xAA, 0xAA, 5, 1, 65, 0, 0, 0, 0], [1]]] ∧
      ∃ ps heap, execAll .literal id (fun _ => none) calls .empty = some ((ps, out.sent), heap) ∧
        ∃ M L, OwnsAll ps out.held M ∧ L.map Prod.snd = out.leaked ∧ heap.Is (M + L) := by
  refine ⟨_, rfl, rfl, rfl, ?_⟩
  exact run_owned _ rfl

/-- Nothing is left of what comes in. -/
def Call.Clean (held : V → Option Held) : Call V → Prop
  | decode v _ => ∀ frames, held v = some (.zmsg frames) → Unbroken frames
  | recv router arrived _ =>
    if router then (Broker.zccpMsgRecv arrived).isSome = true else Unbroken arrived
  | _ => True

/-- In none of the calls. -/
def CleanAll (z : Czmq) (zhashDup : Zhash → Zhash) (held : V → Option Held) :
    List (Call V) → Prop
  | [] => True
  | call :: calls => call.Clean held ∧
    ∀ first, call.spec z zhashDup held = some first → CleanAll z zhashDup first.held calls

omit [Fintype V] [DecidableEq V] in
theorem leaked_of_quiet {x : Option (V → Option Held)} {out : Outcome V}
    (h : x.map quiet = some out) : out.leaked = 0 := by
  obtain ⟨held, -, rfl⟩ := Option.map_eq_some_iff.mp h
  rfl

omit [Fintype V] in
/-- The calls that nothing comes in by leave nothing. -/
theorem leaked_of_spec {held : V → Option Held} {call : Call V} {out : Outcome V}
    (h : call.spec z zhashDup held = some out) (hdecode : ∀ v w, call ≠ .decode v w)
    (hrecv : ∀ router arrived w, call ≠ .recv router arrived w) : out.leaked = 0 := by
  cases call with
  | zhashNew w x => exact leaked_of_quiet h
  | zmsgNew w frames => exact leaked_of_quiet h
  | new w id => exact leaked_of_quiet h
  | zhashDestroy v =>
    rw [Call.spec] at h
    split at h <;> cases h <;> rfl
  | zmsgDestroy v =>
    rw [Call.spec] at h
    split at h <;> cases h <;> rfl
  | destroy v =>
    rw [Call.spec] at h
    split at h <;> cases h <;> rfl
  | edit v e =>
    obtain ⟨m, -, h⟩ := Option.bind_eq_some_iff.mp h
    obtain ⟨m', -, h⟩ := Option.bind_eq_some_iff.mp h
    cases h
    rfl
  | getHeaders v w =>
    obtain ⟨m, -, h⟩ := Option.bind_eq_some_iff.mp h
    exact leaked_of_quiet h
  | getContent v w =>
    obtain ⟨m, -, h⟩ := Option.bind_eq_some_iff.mp h
    exact leaked_of_quiet h
  | setHeaders v w =>
    obtain ⟨m, -, h⟩ := Option.bind_eq_some_iff.mp h
    obtain ⟨headers, -, h⟩ := Option.bind_eq_some_iff.mp h
    cases h
    rfl
  | setContent v w =>
    obtain ⟨m, -, h⟩ := Option.bind_eq_some_iff.mp h
    obtain ⟨content, -, h⟩ := Option.bind_eq_some_iff.mp h
    cases h
    rfl
  | dup v w =>
    rw [Call.spec] at h
    split at h
    · exact leaked_of_quiet h
    · obtain ⟨copy, -, h⟩ := Option.bind_eq_some_iff.mp h
      exact leaked_of_quiet h
    · cases h
  | encode v w =>
    obtain ⟨m, -, h⟩ := Option.bind_eq_some_iff.mp h
    split at h
    · cases h
    · exact leaked_of_quiet h
  | decode v w => exact absurd rfl (hdecode v w)
  | send router v =>
    obtain ⟨m, -, h⟩ := Option.bind_eq_some_iff.mp h
    obtain ⟨frames, -, h⟩ := Option.bind_eq_some_iff.mp h
    cases h
    rfl
  | sendAgain router v =>
    obtain ⟨m, -, h⟩ := Option.bind_eq_some_iff.mp h
    obtain ⟨copy, -, h⟩ := Option.bind_eq_some_iff.mp h
    obtain ⟨frames, -, h⟩ := Option.bind_eq_some_iff.mp h
    cases h
    rfl
  | recv router arrived w => exact absurd rfl (hrecv router arrived w)
  | encodeStep x w =>
    obtain ⟨args, -, h⟩ := Option.bind_eq_some_iff.mp h
    split at h
    · cases h
    · exact leaked_of_quiet h
  | sendStep router x =>
    obtain ⟨args, -, h⟩ := Option.bind_eq_some_iff.mp h
    obtain ⟨frames, -, h⟩ := Option.bind_eq_some_iff.mp h
    cases h
    rfl

omit [Fintype V] in
/-- **One call** leaves nothing exactly when it is clean. -/
theorem leaked_iff_clean {held : V → Option Held} {call : Call V} {out : Outcome V}
    (h : call.spec z zhashDup held = some out) : out.leaked = 0 ↔ call.Clean held := by
  cases call with
  | decode v w =>
    rw [Call.spec] at h
    split at h
    · rename_i hv
      refine iff_of_true (leaked_of_quiet h) fun frames hframes => ?_
      rw [hv] at hframes
      cases hframes
    · rename_i frames hv
      obtain ⟨held', -, h⟩ := Option.bind_eq_some_iff.mp h
      cases h
      refine (stray_strandedOf_iff frames).trans ⟨fun hunbroken frames' hframes => ?_, fun hclean => ?_⟩
      · rw [hv] at hframes
        cases hframes
        exact hunbroken
      · exact hclean frames hv
    · cases h
  | recv router arrived w =>
    obtain ⟨held', -, h⟩ := Option.bind_eq_some_iff.mp h
    cases h
    exact leftover_eq_zero_iff router arrived
  | _ => exact iff_of_true (leaked_of_spec h (fun _ _ => nofun) (fun _ _ _ => nofun)) trivial

omit [Fintype V] in
/-- And so with all of them, since what is left is a sum, and a sum is empty if every part is. -/
theorem leaked_iff_cleanAll {held : V → Option Held} {calls : List (Call V)} {out : Outcome V}
    (h : specAll z zhashDup held calls = some out) :
    out.leaked = 0 ↔ CleanAll z zhashDup held calls := by
  induction calls generalizing held out with
  | nil =>
    cases h
    exact iff_of_true rfl trivial
  | cons call calls ih =>
    obtain ⟨first, hfirst, h⟩ := Option.bind_eq_some_iff.mp h
    obtain ⟨rest, hrest, h⟩ := Option.bind_eq_some_iff.mp h
    cases h
    rw [CleanAll, ← leaked_iff_clean hfirst]
    show first.leaked + rest.leaked = 0 ↔ _
    rw [← Multiset.card_eq_zero, Multiset.card_add, Nat.add_eq_zero_iff, Multiset.card_eq_zero,
      Multiset.card_eq_zero, ih hrest]
    refine and_congr_right fun _ => ⟨fun hclean first' hfirst' => ?_, fun hclean => hclean first hfirst⟩
    rw [hfirst] at hfirst'
    cases hfirst'
    exact hclean

/-- **A caller that has given everything back leaves an empty heap**, or there was a message that came in
on a `ROUTER` and was not decoded, or one whose first frame broke off behind a key: and then it does
not. -/
theorem emptied_iff (calls : List (Call V)) {out : Outcome V}
    (h : specAll z zhashDup (fun _ => none) calls = some out) (hheld : ∀ v, out.held v = none) :
    ∃ ps heap, execAll z zhashDup (fun _ => none) calls .empty = some ((ps, out.sent), heap) ∧
      (heap.Is 0 ↔ CleanAll z zhashDup (fun _ => none) calls) := by
  obtain ⟨r, heap, M', hrun, haccounts, his⟩ := (spec_execAll ownsAll_none h).run
  obtain ⟨hsent, M, L, ⟨c, hc, rfl⟩, rfl, hL⟩ := haccounts
  have hnone : ∀ v, c v = 0 := by
    intro v
    have hown := hc v
    rw [hheld v] at hown
    exact hown.none.2
  rw [Finset.sum_eq_zero fun v _ => hnone v, zero_add] at his
  refine ⟨r.1, heap, by rw [hrun, ← hsent], ?_⟩
  rw [← leaked_iff_cleanAll h, ← hL, Multiset.map_eq_zero]
  constructor
  · intro hempty
    exact his.eq hempty
  · intro hzero
    rwa [hzero] at his

/-- What comes in cannot be decoded, and leaves nothing where it has no routing id. -/
theorem emptied_iff_publish :
    let calls : List (Call Bool) := [
      .new false .publish,
      .zmsgNew true [[1]],
      .setContent false true,
      .recv false [[1]] true,
      .edit false (.setText .address (.given (.ofBytes [65]))),
      .send false false]
    ∃ out, specAll .literal id (fun _ => none) calls = some out ∧
      out.sent = [[[0xAA, 0xAA, 5, 1, 65, 0, 0, 0, 0], [1]]] ∧
      ∃ ps heap, execAll .literal id (fun _ => none) calls .empty = some ((ps, out.sent), heap) ∧
        (heap.Is 0 ↔ CleanAll .literal id (fun _ => none) calls) := by
  refine ⟨_, rfl, rfl, ?_⟩
  exact emptied_iff _ rfl fun v => by cases v <;> rfl

end Runs

/-! ## A string set from itself -/

/-- A setter handed what a getter of the same message answers. -/
def setFromOwn (z : Czmq) (self : Nat) (f g : Field) : Mem Unit := do
  let o ← loadAs .msg self
  match o.field g with
  | none => undefined
  | some p => setText z f self (.kept p)

/-- **A string may be set from any other of the message, but not from itself**: the setter frees what it
is about to read. -/
theorem setFromOwn_iff (z : Czmq) {heap : Heap Block} {self : Nat} {m : ZccpMsg} {N F : Cells Block}
    {f g : Field} {text : CStr} (hm : IsMsg self m N) (his : heap.Is (N + F)) (hf : f.IsText)
    (hg : g.IsText) (htext : m.text g = some text) :
    (setFromOwn z self f g heap = none ↔ g = f) ∧
      (g ≠ f → ∃ heap' N', setFromOwn z self f g heap = some ((), heap') ∧
        IsMsg self (m.withText f (some (z.zsysVprintf text))) N' ∧ heap'.Is (N' + F)) := by
  obtain ⟨o, hrep, rfl⟩ := hm
  have hblock : m.block g = some (.string text) := by rw [block_text hg, htext]; rfl
  obtain ⟨p, hp⟩ : ∃ p, o.field g = some p := by
    have hsome := hrep.field g
    rw [hblock] at hsome
    exact Option.isSome_iff_exists.mp hsome
  have hself : (self, Block.msg o) ∈ msgCells self o m + F := Multiset.mem_add.mpr (.inl mem_msgCells)
  have hother : g ≠ f → ∃ heap' N', setFromOwn z self f g heap = some ((), heap') ∧
      IsMsg self (m.withText f (some (z.zsysVprintf text))) N' ∧ heap'.Is (N' + F) := by
    intro hne
    have hle := cell_le_behind (o := o) (m := m) ((List.mem_erase_of_ne hne).mpr (mem_fields g))
    rw [hp, hblock] at hle
    have hlent : Lends .string text (behind o m (fields.erase f) + F) (.kept p) :=
      Multiset.mem_add.mpr (.inl (Multiset.mem_of_le hle (Multiset.mem_singleton_self _)))
    have hspec : Spec (msgCells self o m + F) (setFromOwn z self f g) fun _ M' => ∃ N',
        IsMsg self (m.withText f (some (z.zsysVprintf text))) N' ∧ M' = N' + F := by
      refine spec_read .msg hself ?_
      rw [hp]
      exact spec_replaceField .string z.zsysVprintf hrep (block_text hf) (id_withText m f _)
        (fun g hg => block_withText_ne hg _) (block_withText hf _) hlent
    rw [← add_zero (msgCells self o m + F)] at his
    obtain ⟨r, heap', M', hrun, ⟨N', hN', rfl⟩, his'⟩ := hspec 0 heap his
    rw [add_zero] at his'
    exact ⟨heap', N', hrun, hN', his'⟩
  refine ⟨⟨fun hnone => ?_, fun heq => ?_⟩, hother⟩
  · by_contra hne
    obtain ⟨heap', N', hrun, -⟩ := hother hne
    rw [hrun] at hnone
    cases hnone
  · subst heq
    have hcells : msgCells self o m + F =
        {(p, .string text)} + ({(self, .msg o)} + (behind o m (fields.erase g) + F)) := by
      rw [msgCells_eq self o m g, hp, hblock, cell_some]
      abel
    have hgone : ∀ b, (p, b) ∉ {(self, Block.msg o)} + (behind o m (fields.erase g) + F) := by
      intro b
      rw [hcells] at his
      exact his.not_mem
    -- the string is freed, and then read
    have hfault : Fault (msgCells self o m + F) (setFromOwn z self g g) := by
      refine Fault.bind (spec_loadAs .msg hself) fun r M' hM' => ?_
      obtain ⟨rfl, rfl⟩ := hM'
      rw [hp]
      refine Fault.bind (spec_loadAs .msg hself) fun r M' hM' => ?_
      obtain ⟨rfl, rfl⟩ := hM'
      rw [hcells, hp]
      refine Fault.bind ((spec_freeString p text).frame _) fun _ M' hM' => ?_
      obtain ⟨M₀, rfl, rfl⟩ := hM'
      rw [zero_add]
      exact (fault_load hgone).bind_left.bind_left
    exact hfault heap his

/-- The address of a message that is to be published. -/
theorem setFromOwn_iff_publish : ∃ heap self,
    setFromOwn .literal self .address .address heap = none ∧
      setFromOwn .literal self .sender .address heap ≠ none := by
  have hands : OneStep.Hands 0 (.publish (.given (.ofBytes [65])) none none)
      (.publish (.ofBytes [65]) none none) :=
    ⟨rfl, .cons ⟨rfl, rfl⟩ .nil, .some ⟨rfl, Std.le_refl _⟩, .some ⟨rfl, Std.le_refl _⟩⟩
  have htext : ∀ t ∈ [(Field.address, CStr.ofBytes [65])], t.1.IsText := by decide
  obtain ⟨self, heap, M, -, ⟨N, hm, rfl⟩, his⟩ := (OneStep.spec_build .literal id hands htext).run
  refine ⟨heap, self, ?_, fun hnone => ?_⟩
  · exact (setFromOwn_iff .literal hm his (by decide) (by decide) rfl).1.mpr rfl
  · cases (setFromOwn_iff .literal hm his (by decide) (by decide) rfl).1.mp hnone

end Zccp.Memory
