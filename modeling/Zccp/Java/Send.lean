import Mathlib.Tactic.Ring
import Zccp.Java.ZccpMsg

/-!
# `Zccp/Java/Send.lean` — does the broker understand the Java class?

`send` writes the lengths of strings, and the size of the frame, in units of UTF-16, and the strings
themselves in UTF-8. So the frame is right for ASCII, and anything else does not fit in it
(`send_eq_some_iff`).

A buffer of fixed capacity only overflows at its end, so the puts of a message can be taken together
(`put_put`) and the whole frame compared with the capacity once. It never has room left over: what
`frameSize` counts is at most what is written, and if it is exactly that, every character takes one
unit and one byte.
-/

set_option autoImplicit false

namespace Zccp.Java

open Lib

/-! ## The buffer -/

/-- Two puts are one. An exception in the first is one in both, since the second would need even more
room. -/
theorem put_put (needle : ByteBuffer) (bytes bytes' : List UInt8) :
    ((needle.put bytes).bind fun needle => needle.put bytes') = needle.put (bytes ++ bytes') := by
  simp only [ByteBuffer.put, List.length_append]
  by_cases h : needle.bytes.length + bytes.length ≤ needle.capacity
  · simp only [if_pos h, Option.bind_some, List.length_append, List.append_assoc, Nat.add_assoc]
  · have h' : ¬ needle.bytes.length + (bytes.length + bytes'.length) ≤ needle.capacity := by omega
    rw [if_neg h, if_neg h']
    rfl

/-- Putting no bytes at all succeeds in a buffer that has not overflowed, and changes nothing. -/
theorem put_nil {needle : ByteBuffer} (h : needle.bytes.length ≤ needle.capacity) :
    needle.put [] = some needle := by
  simp [ByteBuffer.put, h]

/-- What is in a buffer is within its capacity. -/
theorem put_fits {needle needle' : ByteBuffer} {bytes : List UInt8}
    (h : needle.put bytes = some needle') :
    needle'.bytes = needle.bytes ++ bytes ∧ needle'.capacity = needle.capacity ∧
      needle'.bytes.length ≤ needle'.capacity := by
  rw [ByteBuffer.put] at h
  split at h
  · rename_i hle
    cases h
    refine ⟨rfl, rfl, ?_⟩
    rw [List.length_append]
    exact hle
  · cases h

/-- A string behind its length in units. -/
def measured (k : Nat) (value : Str) : List UInt8 := beBytes k (utf16Length value) ++ utf8 value

/-- `null` is written as the empty string. -/
theorem putField_eq (needle : ByteBuffer) (value : Option Str) :
    needle.putField value = needle.put (measured 1 (value.getD [])) := by
  cases value with
  | none => rfl
  | some value => exact put_put needle _ _

/-- One header as it is written. -/
def measuredEntry (p : Str × Str) : List UInt8 := measured 1 p.1 ++ measured 4 p.2

theorem putEntry_eq (needle : ByteBuffer) (entry : Sigma fun _ : Str => Str) :
    needle.putEntry entry = needle.put (measuredEntry (entry.1, entry.2)) := by
  have hkey : ∀ needle : ByteBuffer, needle.putString entry.1 = needle.put (measured 1 entry.1) :=
    fun needle => put_put needle _ _
  have hvalue : ∀ needle : ByteBuffer,
      needle.putLongString entry.2 = needle.put (measured 4 entry.2) :=
    fun needle => put_put needle _ _
  simp only [ByteBuffer.putEntry, hkey, hvalue]
  exact put_put needle _ _

/-- The loop over the headers is one put of all of them. -/
theorem putHeaders_eq (needle : ByteBuffer) (headers : Option Headers) :
    needle.putHeaders headers =
      needle.put (beBytes 4 (toPairs (headers.getD ∅)).length ++
        (toPairs (headers.getD ∅)).flatMap measuredEntry) := by
  have hfold : ∀ (entries : List (Sigma fun _ : Str => Str)) (bytes : List UInt8),
      ((needle.put bytes).bind fun needle => entries.foldlM ByteBuffer.putEntry needle) =
        needle.put (bytes ++ (entries.map fun e => (e.1, e.2)).flatMap measuredEntry) := by
    intro entries
    induction entries with
    | nil =>
      intro bytes
      rw [List.map_nil, List.flatMap_nil, List.append_nil]
      exact Option.bind_fun_some (needle.put bytes)
    | cons entry entries ih =>
      intro bytes
      rw [List.map_cons, List.flatMap_cons, ← List.append_assoc, ← ih, ← put_put, Option.bind_assoc]
      simp only [List.foldlM_cons, putEntry_eq]
      rfl
  cases headers with
  | none => rfl
  | some headers =>
    rw [Option.getD_some, toPairs, List.length_map, ← hfold]
    rfl

namespace ZccpMsg

/-- The fields as they are written. -/
def measuredFields (self : ZccpMsg) : List UInt8 :=
  (self.texts.flatMap fun s => measured 1 (s.getD [])) ++
    if self.id.hasHeaders then
      beBytes 4 (toPairs self.headerMap).length ++ (toPairs self.headerMap).flatMap measuredEntry
    else []

/-- The fields, in the order of the type. -/
theorem putFields_eq (self : ZccpMsg) {needle : ByteBuffer}
    (h : needle.bytes.length ≤ needle.capacity) :
    self.putFields needle = needle.put self.measuredFields := by
  obtain ⟨routingId, id, identifier, headers, expression, address, content, sender⟩ := self
  cases id with
  | hello | subscribe | publish | direct | deliver =>
    simp only [putFields, putField_eq, putHeaders_eq, Option.bind_eq_bind, put_put]
    simp [measuredFields, texts, headerMap, MsgId.hasHeaders]
  | helloOk | goodbyeOk => exact putHeaders_eq needle headers
  | _ => exact (put_nil h).symm

/-- The frame as it is written. -/
def measuredFrame (self : ZccpMsg) : List UInt8 :=
  0xAA :: 0xAA :: UInt8.ofNat self.id.code :: self.measuredFields

/-- All its characters. -/
def chars (self : ZccpMsg) : Str :=
  (self.texts.flatMap fun s => s.getD []) ++
    (toPairs self.headerMap).flatMap fun p => p.1 ++ p.2

/-- What of a frame are not characters. -/
def overhead (self : ZccpMsg) : Nat :=
  3 + self.texts.length + if self.id.hasHeaders then 4 + 5 * (toPairs self.headerMap).length else 0

/-- What `frameSize` counts. -/
def units (self : ZccpMsg) : Nat := self.overhead + utf16Length self.chars

end ZccpMsg

/-- Sizes are counted in an `int`, and may wrap around; `Int32.ofNat` says which number has. -/
theorem fieldSize_eq (value : Option Str) :
    fieldSize value = Int32.ofNat (1 + utf16Length (value.getD [])) := by
  cases value with
  | none => rfl
  | some value => exact (Int32.ofNat_add 1 _).symm

/-- Five bytes of lengths for each header, and its characters. -/
theorem headersSize_eq (headers : Option Headers) :
    headersSize headers = Int32.ofNat (4 + (5 * (toPairs (headers.getD ∅)).length +
      utf16Length ((toPairs (headers.getD ∅)).flatMap fun p => p.1 ++ p.2))) := by
  have hfold : ∀ (entries : List (Sigma fun _ : Str => Str)) (n : Nat),
      entries.foldl (fun headersBytes entry =>
        headersBytes + (1 + length entry.1) + (4 + length entry.2)) (Int32.ofNat n) =
      Int32.ofNat (n + (5 * (entries.map fun e => (e.1, e.2)).length +
        utf16Length ((entries.map fun e => (e.1, e.2)).flatMap fun p => p.1 ++ p.2))) := by
    intro entries
    induction entries with
    | nil =>
      intro n
      rfl
    | cons entry entries ih =>
      intro n
      have hstep : Int32.ofNat n + (1 + length entry.1) + (4 + length entry.2) =
          Int32.ofNat (n + (1 + utf16Length entry.1) + (4 + utf16Length entry.2)) := by
        rw [Int32.ofNat_add, Int32.ofNat_add, Int32.ofNat_add, Int32.ofNat_add]
        rfl
      rw [List.foldl_cons, hstep, ih, List.map_cons, List.flatMap_cons, utf16Length_append,
        utf16Length_append, List.length_cons]
      congr 1
      ring
  cases headers with
  | none => rfl
  | some headers =>
    have h := hfold headers.entries 0
    rw [Nat.zero_add] at h
    rw [Option.getD_some, Int32.ofNat_add, toPairs, ← h]
    rfl

namespace ZccpMsg

/-- **`frameSize`** counts units, modulo the size of an `int`. -/
theorem frameSize_eq (self : ZccpMsg) : self.frameSize = Int32.ofNat self.units := by
  obtain ⟨routingId, id, identifier, headers, expression, address, content, sender⟩ := self
  have hthree : (3 : Int32) = Int32.ofNat 3 := rfl
  cases id with
  | hello | subscribe | publish | direct | deliver | helloOk | goodbyeOk =>
    simp only [frameSize, fieldSize_eq, headersSize_eq, hthree, ← Int32.ofNat_add]
    congr 1
    simp [units, overhead, chars, texts, headerMap, MsgId.hasHeaders, utf16Length_append]
    ring
  | _ => rfl

/-- What is written counts in bytes. The difference is in the characters only. -/
theorem measuredFrame_length (self : ZccpMsg) :
    self.measuredFrame.length = self.overhead + (utf8 self.chars).length := by
  have htexts : ∀ texts : List (Option Str),
      (texts.flatMap fun s => measured 1 (s.getD [])).length =
        texts.length + (utf8 (texts.flatMap fun s => s.getD [])).length := by
    intro texts
    induction texts with
    | nil => rfl
    | cons s texts ih =>
      rw [List.flatMap_cons, List.flatMap_cons, utf8_append, List.length_append,
        List.length_append, ih, measured, List.length_append, beBytes_length, List.length_cons]
      ring
  have hentries : ∀ pairs : List (Str × Str), (pairs.flatMap measuredEntry).length =
      5 * pairs.length + (utf8 (pairs.flatMap fun p => p.1 ++ p.2)).length := by
    intro pairs
    induction pairs with
    | nil => rfl
    | cons p pairs ih =>
      rw [List.flatMap_cons, List.flatMap_cons, utf8_append, utf8_append, List.length_append,
        List.length_append, List.length_append, ih, measuredEntry, List.length_append, measured,
        measured, List.length_append, List.length_append, beBytes_length, beBytes_length,
        List.length_cons]
      ring
  rw [measuredFrame, measuredFields, overhead, chars, utf8_append]
  simp only [List.length_cons, List.length_append, htexts]
  cases hid : self.id.hasHeaders with
  | true =>
    simp only [if_true, List.length_append, beBytes_length, hentries]
    ring
  | false =>
    have hnone : toPairs self.headerMap = [] := by
      rw [headerMap, hid]
      rfl
    rw [hnone]
    simp only [Bool.false_eq_true, if_false, List.flatMap_nil, List.length_nil, utf8_nil]
    ring

/-- **The size is right for ASCII**, and too small for anything else. -/
theorem units_le (self : ZccpMsg) : self.units ≤ self.measuredFrame.length := by
  rw [measuredFrame_length, units]
  exact Nat.add_le_add_left (utf16Length_le _) _

theorem units_eq_iff (self : ZccpMsg) :
    self.units = self.measuredFrame.length ↔ Ascii self.chars := by
  rw [measuredFrame_length, units, Nat.add_left_cancel_iff]
  exact utf16Length_eq_iff _

end ZccpMsg

/-! ## What goes out -/

/-- A size below `2 ^ 31` is one that an array can have. -/
theorem wrap_ofNat {n : Nat} (h : n < 2 ^ 31) :
    ByteBuffer.wrap (Int32.ofNat n) = some { capacity := n, bytes := [] } := by
  have hnonneg : ¬ Int32.ofNat n < 0 := by
    rw [Int32.lt_iff_toInt_lt, Int32.toInt_ofNat_of_lt h]
    exact Int.not_lt.mpr (Int.natCast_nonneg n)
  rw [ByteBuffer.wrap, if_neg hnonneg, Int32.toNatClampNeg_ofNat_of_lt h]

/-- And no array has any other, whatever the size wrapped around to. -/
theorem wrap_capacity {size : Int32} {needle : ByteBuffer} (h : ByteBuffer.wrap size = some needle) :
    needle.bytes = [] ∧ needle.capacity < 2 ^ 31 := by
  rw [ByteBuffer.wrap] at h
  split at h
  · cases h
  · cases h
    exact ⟨rfl, size.toNatClampNeg_lt⟩

/-- `send`, as one put into one buffer. -/
theorem send_eq (self : ZccpMsg) :
    self.send = (ByteBuffer.wrap (Int32.ofNat self.units)).bind fun needle =>
      (needle.put self.measuredFrame).map fun needle => needle.array :: self.contentParts := by
  rw [ZccpMsg.send, self.frameSize_eq]
  congr 1
  funext needle
  have hhead : ((needle.putNumber2 (0xAAA0 ||| 10)).bind fun needle =>
      needle.putNumber1 self.id.code) = needle.put [0xAA, 0xAA, UInt8.ofNat self.id.code] := by
    rw [show [0xAA, 0xAA, UInt8.ofNat self.id.code] =
      beBytes 2 (0xAAA0 ||| 10) ++ beBytes 1 self.id.code by simp [beBytes]]
    exact put_put needle _ _
  have hframe : self.measuredFrame =
      [0xAA, 0xAA, UInt8.ofNat self.id.code] ++ self.measuredFields := rfl
  rw [hframe, ← put_put, ← hhead]
  simp only [Option.bind_eq_bind]
  cases needle.putNumber2 (0xAAA0 ||| 10) with
  | none => rfl
  | some needle₂ =>
    simp only [Option.bind_some]
    cases hput : needle₂.putNumber1 self.id.code with
    | none => rfl
    | some needle₃ =>
      obtain ⟨-, -, hfits⟩ := put_fits hput
      rw [Option.bind_some, Option.bind_some, self.putFields_eq hfits]
      exact Option.map_eq_bind.symm

/-- **What is sent**: the frame as it is written, and the content behind it, if the size is right and
is a size; and nothing otherwise. -/
theorem send_eq_some_iff (self : ZccpMsg) (frames : List Frame) :
    self.send = some frames ↔ Ascii self.chars ∧ self.measuredFrame.length < 2 ^ 31 ∧
      frames = self.measuredFrame :: self.contentParts := by
  have hle := self.units_le
  rw [send_eq, ← self.units_eq_iff]
  constructor
  · intro h
    obtain ⟨needle, hwrap, h⟩ := Option.bind_eq_some_iff.mp h
    obtain ⟨needle', hput, rfl⟩ := Option.map_eq_some_iff.mp h
    obtain ⟨hempty, hcapacity⟩ := wrap_capacity hwrap
    obtain ⟨hbytes, hcap, hfits⟩ := put_fits hput
    rw [hempty, List.nil_append] at hbytes
    rw [hbytes, hcap] at hfits
    have hlt : self.units < 2 ^ 31 := by omega
    rw [wrap_ofNat hlt] at hwrap
    obtain rfl := Option.some.inj hwrap
    have heq : self.units = self.measuredFrame.length := Nat.le_antisymm hle hfits
    refine ⟨heq, heq ▸ hlt, ?_⟩
    rw [ByteBuffer.array, hbytes, hcap, heq, Nat.sub_self, List.replicate_zero, List.append_nil]
  · rintro ⟨heq, hlt, rfl⟩
    rw [wrap_ofNat (heq ▸ hlt), Option.bind_some, ByteBuffer.put, if_pos (by simp [heq])]
    simp [ByteBuffer.array, heq]

/-! ## The fields -/

theorem measured_ascii {k : Nat} {value : Str} (h : Ascii value) :
    measured k value = sized k (utf8 value) := by
  rw [measured, (utf16Length_eq_iff value).mpr h]
  rfl

theorem flatMap_measured {texts : List (Option Str)} (h : Ascii (texts.flatMap fun s => s.getD [])) :
    (texts.flatMap fun s => measured 1 (s.getD [])) =
      (texts.map fun s => utf8 (s.getD [])).flatMap (sized 1) := by
  induction texts with
  | nil => rfl
  | cons s texts ih =>
    rw [List.flatMap_cons] at h ⊢
    obtain ⟨hs, htexts⟩ := ascii_append.mp h
    rw [measured_ascii hs, ih htexts]
    rfl

theorem flatMap_measuredEntry {pairs : List (Str × Str)}
    (h : Ascii (pairs.flatMap fun p => p.1 ++ p.2)) :
    pairs.flatMap measuredEntry = encodePairs (pairs.map fun p => (utf8 p.1, utf8 p.2)) := by
  induction pairs with
  | nil => rfl
  | cons p pairs ih =>
    rw [List.flatMap_cons] at h ⊢
    obtain ⟨hp, hpairs⟩ := ascii_append.mp h
    obtain ⟨hkey, hvalue⟩ := ascii_append.mp hp
    rw [measuredEntry, measured_ascii hkey, measured_ascii hvalue, ih hpairs]
    rfl

namespace ZccpMsg

/-- The fields of a message. -/
def raw (self : ZccpMsg) : Raw where
  texts := self.saying.texts
  pairs := self.pairs

/-- A message that C can have, too: it has a type of the protocol, no string, key or value of it has a
NUL byte in it, which would end it in C, and every string and key has at most 255 bytes in UTF-8,
which is what the one byte in front of it can say. A value has four bytes in front of it, and no
bound here: that the whole frame is no longer than an `int` sees to it. -/
structure ForC (msg : ZccpMsg) : Prop where
  id : msg.id ≠ .unset
  texts : ∀ text ∈ msg.saying.texts, 0 ∉ text ∧ text.length < 256 ^ 1
  keys : ∀ p ∈ msg.pairs, 0 ∉ p.1 ∧ p.1.length < 256 ^ 1
  values : ∀ p ∈ msg.pairs, 0 ∉ p.2

/-- A message in ASCII is written in the layout of its type. -/
theorem measuredFrame_eq {self : ZccpMsg} (h : Ascii self.chars) :
    self.measuredFrame = frameOf self.id self.raw [] := by
  obtain ⟨htexts, hpairs⟩ := ascii_append.mp h
  rw [measuredFrame, measuredFields, frameOf, List.append_nil, Raw.encode,
    flatMap_measured htexts, flatMap_measuredEntry hpairs]
  have hlength : self.raw.pairs.length = (toPairs self.headerMap).length := List.length_map _
  rw [hlength]
  rfl

theorem raw_texts (self : ZccpMsg) : self.raw.texts.length = self.id.texts := by
  obtain ⟨routingId, id, identifier, headers, expression, address, content, sender⟩ := self
  cases id <;> rfl

theorem raw_pairs {self : ZccpMsg} (h : self.id.hasHeaders = false) : self.raw.pairs = [] := by
  show self.pairs = []
  rw [pairs, headerMap, h]
  rfl

/-- The bytes of the pairs are at least as many as the pairs, and as the bytes of any one value. -/
theorem encodePairs_length (pairs : List (List UInt8 × List UInt8)) :
    pairs.length ≤ (encodePairs pairs).length ∧
      ∀ p ∈ pairs, p.2.length ≤ (encodePairs pairs).length := by
  induction pairs with
  | nil => exact ⟨Nat.le_refl 0, nofun⟩
  | cons p pairs ih =>
    obtain ⟨hlength, hvalues⟩ := ih
    have hcons : (encodePairs (p :: pairs)).length =
        (1 + p.1.length) + (4 + p.2.length) + (encodePairs pairs).length := by
      rw [encodePairs, List.flatMap_cons, List.length_append]
      simp only [sized, List.length_append, beBytes_length]
      rfl
    refine ⟨?_, List.forall_mem_cons.mpr ⟨?_, fun p' hp' => ?_⟩⟩
    · rw [List.length_cons]
      omega
    · omega
    · have := hvalues p' hp'
      omega

/-- A frame that fits a `ByteBuffer` is shorter than 2^31 bytes, so the counts of four bytes are right without
a condition of their own: the number of headers, and the length of each value. -/
theorem ForC.valid {self : ZccpMsg} (h : self.ForC)
    (hlt : (frameOf self.id self.raw []).length < 2 ^ 31) : self.raw.Valid self.id := by
  obtain ⟨hcount, hvalues⟩ := encodePairs_length self.raw.pairs
  have hle : self.id.hasHeaders = true → (encodePairs self.raw.pairs).length < 2 ^ 31 := by
    intro hid
    rw [frameOf, Raw.encode, if_pos hid] at hlt
    simp only [List.length_cons, List.length_append] at hlt
    omega
  cases hid : self.id.hasHeaders with
  | true =>
    refine ⟨self.raw_texts, fun text htext => (h.texts text htext).2, fun hnot => ?_, ?_, ?_⟩
    · cases hid.symm.trans hnot
    · have := hle hid
      omega
    · intro p hp
      have := hvalues p hp
      have := hle hid
      exact ⟨(h.keys p hp).2, by omega⟩
  | false =>
    have hnil := raw_pairs hid
    refine ⟨self.raw_texts, fun text htext => (h.texts text htext).2, fun _ => hnil, ?_, ?_⟩
    · rw [hnil]
      exact Nat.pow_pos (Nat.zero_lt_succ _)
    · rw [hnil]
      exact List.forall_mem_nil _

theorem ForC.saidToC {self : ZccpMsg} (h : self.ForC) :
    self.raw.saidToC self.id self.contentParts = self.saying := by
  have hpairs : self.pairs.map (fun p => (cut p.1, cut p.2)) = self.pairs.map fun p => p := by
    refine List.map_congr_left fun p hp => ?_
    rw [cut_eq_self_iff.mpr (h.keys p hp).1, cut_eq_self_iff.mpr (h.values p hp)]
  apply Saying.ext
  · rfl
  · exact map_cut_eq_self_iff.mpr fun text htext => (h.texts text htext).1
  · show firstValue (self.pairs.map fun p => (cut p.1, cut p.2)) = firstValue self.pairs
    rw [hpairs, List.map_id']
  · show (if self.id.hasContent then self.contentParts else []) = self.contentParts
    obtain ⟨routingId, id, identifier, headers, expression, address, content, sender⟩ := self
    cases id <;> rfl

/-- **When a message gets across.** What `send` sends says the same to the broker if and only if all
its characters are ASCII, and the size of its frame is an `int`. -/
theorem transmits_send_iff {self : ZccpMsg} (h : self.ForC) :
    (∃ frames, self.send = some frames ∧ Transmits self.saying frames) ↔
      Ascii self.chars ∧ (frameOf self.id self.raw []).length < 2 ^ 31 := by
  constructor
  · rintro ⟨frames, hsend, -⟩
    obtain ⟨hascii, hlt, -⟩ := (send_eq_some_iff self frames).mp hsend
    exact ⟨hascii, measuredFrame_eq hascii ▸ hlt⟩
  · rintro ⟨hascii, hlt⟩
    have hframe := measuredFrame_eq hascii
    have hvalid := h.valid hlt
    refine ⟨_, (send_eq_some_iff self _).mpr ⟨hascii, hframe ▸ hlt, rfl⟩, ?_⟩
    refine ⟨self.raw.message self.id self.contentParts, ?_, ?_⟩
    · rw [hframe]
      exact zccpMsgDecode_frameOf h.id hvalid [] self.contentParts
    · rw [saying_message hvalid, h.saidToC]

end ZccpMsg

end Zccp.Java
