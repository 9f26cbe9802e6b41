import Mathlib.Data.List.Basic
import Mathlib.Algebra.GroupWithZero.Nat
import Mathlib.Algebra.BigOperators.Group.List.Basic

/-!
# `Zccp/Lib/Multipart.lean` — multipart messages, read frame by frame

The receiving end of a queue of multipart messages. A reader takes frames one at a time, takes what
is left of a message, or throws that away; nothing tells it where a message begins but that the one
before it has been read to its end. `AtStart` is that it has been.

All reads are partial: on an end of the queue they wait.
-/

set_option autoImplicit false

namespace Zccp.Lib

/-- A multipart message. There is none without frames. -/
structure Multipart (φ : Type) where
  first : φ
  rest : List φ
deriving DecidableEq

namespace Multipart

variable {φ : Type}

def frames (m : Multipart φ) : List φ := m.first :: m.rest

@[simp] theorem frames_mk (f : φ) (fs : List φ) : (mk f fs).frames = f :: fs := rfl

end Multipart

/-- A receiving end: what is left of the message that is being read, and the messages behind it. -/
structure Inlet (φ : Type) where
  more : List φ
  queue : List (Multipart φ)
deriving DecidableEq

namespace Inlet

variable {φ : Type}

/-- An end at which nothing has arrived. -/
def empty : Inlet φ := ⟨[], []⟩

/-- A message arrives. -/
def push (i : Inlet φ) (ms : List (Multipart φ)) : Inlet φ := { i with queue := i.queue ++ ms }

/-- The next frame. -/
def recvFrame : Inlet φ → Option (φ × Inlet φ)
  | ⟨f :: fs, queue⟩ => some (f, ⟨fs, queue⟩)
  | ⟨[], m :: queue⟩ => some (m.first, ⟨m.rest, queue⟩)
  | ⟨[], []⟩ => none

/-- What is left of the message that is being read, or all of the next one. -/
def recvAll : Inlet φ → Option (List φ × Inlet φ)
  | ⟨f :: fs, queue⟩ => some (f :: fs, ⟨[], queue⟩)
  | ⟨[], m :: queue⟩ => some (m.frames, ⟨[], queue⟩)
  | ⟨[], []⟩ => none

/-- Throw away what is left of the message that is being read. -/
def flush (i : Inlet φ) : Inlet φ := { i with more := [] }

/-- How many frames there are to be read. -/
def size (i : Inlet φ) : Nat := i.more.length + (i.queue.map fun m => m.frames.length).sum

/-- The next frame is the first of a message. -/
def AtStart (i : Inlet φ) : Prop := i.more = []

instance (i : Inlet φ) [DecidableEq φ] : Decidable i.AtStart := inferInstanceAs (Decidable (_ = _))

@[simp] theorem recvFrame_cons (f : φ) (fs : List φ) (queue : List (Multipart φ)) :
    recvFrame ⟨f :: fs, queue⟩ = some (f, ⟨fs, queue⟩) := rfl

@[simp] theorem recvFrame_start (m : Multipart φ) (queue : List (Multipart φ)) :
    recvFrame ⟨[], m :: queue⟩ = some (m.first, ⟨m.rest, queue⟩) := rfl

@[simp] theorem recvFrame_empty : recvFrame (⟨[], []⟩ : Inlet φ) = none := rfl

theorem recvAll_cons {fs : List φ} (h : fs ≠ []) (queue : List (Multipart φ)) :
    recvAll ⟨fs, queue⟩ = some (fs, ⟨[], queue⟩) := by
  cases fs with
  | nil => exact absurd rfl h
  | cons f fs => rfl

@[simp] theorem flush_mk (fs : List φ) (queue : List (Multipart φ)) :
    flush ⟨fs, queue⟩ = ⟨[], queue⟩ := rfl

@[simp] theorem flush_atStart (i : Inlet φ) : i.flush.AtStart := rfl

@[simp] theorem flush_flush (i : Inlet φ) : i.flush.flush = i.flush := rfl

theorem length_queue_le_size (i : Inlet φ) : i.queue.length ≤ i.size := by
  obtain ⟨more, queue⟩ := i
  suffices h : queue.length ≤ (queue.map fun m => m.frames.length).sum by
    exact Nat.le_trans h (Nat.le_add_left _ _)
  induction queue with
  | nil => exact Nat.le_refl 0
  | cons m queue ih =>
    have hm : 1 ≤ m.frames.length := Nat.succ_le_succ (Nat.zero_le _)
    rw [List.map_cons, List.sum_cons, List.length_cons]
    omega

/-- Receiving a frame makes the inlet smaller, so a loop that receives until there is no more ends. -/
theorem recvFrame_size {i i' : Inlet φ} {f : φ} (h : i.recvFrame = some (f, i')) :
    i'.size < i.size := by
  obtain ⟨more, queue⟩ := i
  cases more with
  | cons f' more =>
    cases h
    simp only [size, List.length_cons]
    omega
  | nil =>
    cases queue with
    | nil => cases h
    | cons m queue =>
      cases h
      simp only [size, List.length_nil, List.map_cons, List.sum_cons, Multipart.frames,
        List.length_cons]
      omega

theorem flush_size (i : Inlet φ) : i.flush.size ≤ i.size :=
  Nat.add_le_add_right (Nat.zero_le _) _

end Inlet

end Zccp.Lib
