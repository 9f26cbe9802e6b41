import Zccp.Java.Get

/-!
# `Zccp/Java/Recv.lean` — does the Java class keep in step?

`recv` takes a message from the socket frame by frame, and leaves off where it has read what it
wants, or has run into an exception. What is left is then read as the next message. `keepsStep_iff`
says which messages it gets through: `Sound` ones, which end where `recv` leaves off and say to Java
what they say to C.

A call is proved right for a whole queue at once, since what it leaves on the socket is part of what it
does. The message object is a parameter of the loop: a ROUTER's `recv` has stored a routing id in it
before it knows whether the message will be skipped, so that it is not fresh for the next one.
-/

set_option autoImplicit false

namespace Zccp.Java

open Lib Lib.Reader

/-! ## The messages on a socket -/

/-- The frames that are for the decoder: a ROUTER puts one in front of them. -/
def payload (router : Bool) (m : Multipart Frame) : List Frame :=
  if router then m.rest else m.frames

/-- Messages that `recv` throws away: what is in the place of the signature is none. -/
def Skipped (router : Bool) (m : Multipart Frame) : Prop :=
  ¬ Signed (payload router m) ∧ ∃ a b tail rest, payload router m = (a :: b :: tail) :: rest

/-- **A call has read a message, and nothing else**: what is left on the socket are the messages
behind it, and the answer says what C's decoder says. -/
def InStep (received : Received) (frames : List Frame) (queue : List (Multipart Frame)) : Prop :=
  match received with
  | .waits => False
  | .null input => input = ⟨[], queue⟩ ∧ ∃ e, zccpMsgDecode frames = .error e
  | .message self input => input = ⟨[], queue⟩ ∧ Transmits self.saying frames

/-- Messages that are read to their end, and as C reads them. -/
inductive Sound (charset : Charset) : List Frame → Prop
  /-- The first frame is complete, and there is none behind it but for one frame of content. -/
  | complete {id : MsgId} {raw : Raw} {trailing : List UInt8} {rest : List Frame}
      (hid : id ≠ .unset) (hvalid : raw.Valid id) (hfits : Fits raw)
      (hlegible : Legible charset raw) (hrest : rest.length ≤ if id.hasContent then 1 else 0) :
      Sound charset (frameOf id raw trailing :: rest)
  /-- It is not, but there is none behind it, and it does not claim too many headers. -/
  | incomplete {frames : List Frame} (hlength : frames.length ≤ 1)
      (hnot : ∀ id raw trailing, id ≠ .unset → Raw.Valid id raw → frameOf id raw trailing ∉ frames)
      (hcount : ∀ frame ∈ frames, ∀ id, id ≠ .unset → ¬ Overflows id frame) : Sound charset frames

section Sound

variable {charset : Charset} {frame : Frame} {rest : List Frame}

/-- Of a complete frame, soundness is a condition on its fields: they can be read off it in one way
only. -/
theorem sound_complete_iff {id : MsgId} {raw : Raw} {trailing : List UInt8} (hid : id ≠ .unset)
    (hvalid : raw.Valid id) :
    Sound charset (frameOf id raw trailing :: rest) ↔
      Fits raw ∧ Legible charset raw ∧ rest.length ≤ if id.hasContent then 1 else 0 := by
  constructor
  · intro h
    generalize hframes : frameOf id raw trailing :: rest = frames at h
    cases h with
    | complete _ hvalid' hfits hlegible hrest =>
      obtain ⟨hframe, rfl⟩ := List.cons.inj hframes
      obtain ⟨rfl, rfl⟩ := frameOf_inj hvalid hvalid' hframe
      exact ⟨hfits, hlegible, hrest⟩
    | incomplete _ hnot _ =>
      subst hframes
      exact absurd List.mem_cons_self (hnot id raw trailing hid hvalid)
  · exact fun ⟨hfits, hlegible, hrest⟩ => .complete hid hvalid hfits hlegible hrest

/-- Where C's decoder fails, it is enough that there is nothing to leave on the socket, and that Java
fails too. -/
theorem sound_incomplete_iff {e : DecodeError} (h : zccpMsgDecode (frame :: rest) = .error e) :
    Sound charset (frame :: rest) ↔ rest = [] ∧ ∀ id, id ≠ .unset → ¬ Overflows id frame := by
  have hnot : ∀ id raw trailing, id ≠ .unset → Raw.Valid id raw →
      frame ≠ frameOf id raw trailing := by
    rintro id raw trailing hid hvalid rfl
    rw [zccpMsgDecode_frameOf hid hvalid] at h
    cases h
  constructor
  · intro hsound
    generalize hframes : frame :: rest = frames at hsound
    cases hsound with
    | complete hid hvalid =>
      obtain ⟨hframe, rfl⟩ := List.cons.inj hframes
      exact absurd hframe (hnot _ _ _ hid hvalid)
    | incomplete hlength _ hcount =>
      subst hframes
      refine ⟨?_, hcount frame List.mem_cons_self⟩
      exact List.length_eq_zero_iff.mp (Nat.le_zero.mp (Nat.le_of_succ_le_succ hlength))
  · rintro ⟨rfl, hcount⟩
    refine .incomplete (Nat.le_refl 1) (fun id raw trailing hid hvalid hmem => ?_) ?_
    · exact hnot id raw trailing hid hvalid (List.mem_singleton.mp hmem).symm
    · intro frame' hmem
      obtain rfl := List.mem_singleton.mp hmem
      exact hcount

end Sound

/-! ## One message -/

section Message

variable (charset : Charset) (self : ZccpMsg) {rest : List Frame} {queue : List (Multipart Frame)}

/-- One frame of content is taken, if there is one; nobody asks whether there are more. -/
theorem recvContent_eq (rest : List Frame) (queue : List (Multipart Frame)) :
    recvContent ⟨rest, queue⟩ = (rest.take 1, ⟨rest.drop 1, queue⟩) := by
  cases rest <;> rfl

/-- Behind the signature is the id, which says what the fields are. -/
theorem getMessage_cons (c : UInt8) (tail : List UInt8) :
    getMessage charset self (0xAA :: 0xAA :: c :: tail) 2 =
      match MsgId.ofCode c.toNat with
      | some id => getFields charset self id (0xAA :: 0xAA :: c :: tail) 3
      | none => .error .malformed := by
  have hnumber : getNumber1 (0xAA :: 0xAA :: c :: tail) 2 = .ok (c.toNat, 3) := by
    have h := (reads_number 1).complete [0xAA, 0xAA] [c] tail (a := bigEndian [c]) ⟨rfl, rfl⟩
    rw [show bigEndian [c] = c.toNat by simp [bigEndian]] at h
    exact h
  rw [getMessage, bind_ok hnumber]
  cases MsgId.ofCode c.toNat <;> rfl

theorem getMessage_eq {id : MsgId} (hid : id ≠ .unset) (tail : List UInt8) :
    getMessage charset self (0xAA :: 0xAA :: UInt8.ofNat id.code :: tail) 2 =
      (charset.message self id <$> getIntRaw id) (0xAA :: 0xAA :: UInt8.ofNat id.code :: tail) 3 := by
  rw [getMessage_cons, MsgId.ofCode_ofNat hid, ← getFields_eq charset self hid]

/-- **A frame that is signed and has an id**: if its fields are read, then so is the message, and one
frame more if its type has a content; and if they are not, there is an exception. -/
theorem recvMessage_cases {id : MsgId} (hid : id ≠ .unset) (tail : List UInt8) (rest : List Frame)
    (queue : List (Multipart Frame)) :
    (∃ raw n msg,
      getIntRaw id (0xAA :: 0xAA :: UInt8.ofNat id.code :: tail) 3 = .ok (raw, n) ∧
      recvMessage charset self (0xAA :: 0xAA :: UInt8.ofNat id.code :: tail) 2 ⟨rest, queue⟩ =
        .message msg ⟨rest.drop (if id.hasContent then 1 else 0), queue⟩ ∧
      msg.saying = saidToJava charset id (rest.take 1) raw) ∨
    ((∃ e, getIntRaw id (0xAA :: 0xAA :: UInt8.ofNat id.code :: tail) 3 = .error e) ∧
      recvMessage charset self (0xAA :: 0xAA :: UInt8.ofNat id.code :: tail) 2 ⟨rest, queue⟩ =
        .null ⟨rest, queue⟩) := by
  rw [recvMessage, getMessage_eq charset self hid, map_apply]
  cases hread : getIntRaw id (0xAA :: 0xAA :: UInt8.ofNat id.code :: tail) 3 with
  | error e => exact .inr ⟨⟨e, rfl⟩, rfl⟩
  | ok r =>
    obtain ⟨raw, n⟩ := r
    obtain ⟨htexts, hpairs⟩ := getIntRaw_shape hread
    have hsaying (content) := said_message charset self content htexts hpairs
    simp only [Except.map, message_id, recvContent_eq]
    cases id with
    | publish | direct | deliver => exact .inl ⟨raw, n, _, rfl, rfl, hsaying (some (rest.take 1))⟩
    | _ => exact .inl ⟨raw, n, _, rfl, rfl, hsaying _⟩

/-- An exception, where C does not decode the message either. -/
theorem inStep_null_iff {frame : Frame} {e : DecodeError}
    (h : zccpMsgDecode (frame :: rest) = .error e)
    (hcount : ∀ id, id ≠ .unset → ¬ Overflows id frame) :
    InStep (.null ⟨rest, queue⟩) (frame :: rest) queue ↔ Sound charset (frame :: rest) := by
  rw [sound_incomplete_iff h]
  constructor
  · rintro ⟨hinput, -⟩
    cases hinput
    exact ⟨rfl, hcount⟩
  · rintro ⟨rfl, -⟩
    exact ⟨rfl, e, h⟩

/-- A frame that is too short for a signature is one. -/
theorem inStep_short_iff {frame : Frame} (hlt : frame.length < 2) :
    InStep (.null ⟨rest, queue⟩) (frame :: rest) queue ↔ Sound charset (frame :: rest) := by
  have hnot (id : MsgId) (raw : Raw) (trailing : List UInt8) : frame ≠ frameOf id raw trailing := by
    rintro rfl
    simp only [frameOf, List.length_cons] at hlt
    omega
  obtain ⟨e, herror⟩ := decode_error (frame :: rest) fun id raw trailing _ _ _ heq =>
    hnot id raw trailing (List.cons.inj heq).1
  refine inStep_null_iff charset herror fun id _ hover => ?_
  obtain ⟨-, texts, count, trailing, -, -, -, -, rfl⟩ := hover
  simp only [List.length_cons] at hlt
  omega

/-- Fields that do not fit are not all read: both readers have found the same number of headers, and only
one of them believes it. -/
theorem le_length_of_counts {id : MsgId} {raw : Raw} {texts : List (List UInt8)} {buf : List UInt8}
    {n n₁ n₂ : Nat} (hread : getRaw id buf n = .ok (raw, n₁))
    (hcounts : CountsTooMany id texts buf n n₂) : 2 ^ 31 ≤ raw.pairs.length := by
  obtain ⟨hid, m, count, htexts, hcount, hle⟩ := hcounts
  rw [getRaw, hid] at hread
  obtain ⟨texts', m', htexts', hread⟩ := bind_eq_ok hread
  obtain ⟨pairs, m₂, hpairs, hread⟩ := bind_eq_ok hread
  obtain ⟨count', m₃, hcount', hpairs⟩ := bind_eq_ok hpairs
  cases hread
  cases htexts.symm.trans htexts'
  cases hcount.symm.trans hcount'
  rw [getRawPairs_length hpairs]
  exact hle

/-- **A complete frame.** If Java reads it, what is left on the socket and what has been said decide
together; if it throws, C does not, and the two are out of step whatever is left. -/
theorem inStep_complete_iff {id : MsgId} {raw : Raw} (hid : id ≠ .unset) (hvalid : raw.Valid id)
    (trailing : List UInt8) :
    InStep (recvMessage charset self (frameOf id raw trailing) 2 ⟨rest, queue⟩)
      (frameOf id raw trailing :: rest) queue ↔ Sound charset (frameOf id raw trailing :: rest) := by
  obtain ⟨n, hread⟩ := getRaw_frameOf hvalid trailing
  have hleft : (⟨rest.drop (if id.hasContent then 1 else 0), queue⟩ : Inlet Frame) = ⟨[], queue⟩ ↔
      rest.length ≤ if id.hasContent then 1 else 0 := by
    rw [Inlet.mk.injEq, List.drop_eq_nil_iff]
    exact and_iff_left rfl
  rw [sound_complete_iff hid hvalid]
  rcases recvMessage_cases charset self hid (raw.encode id ++ trailing) rest queue with
    ⟨raw', n', msg, hraw, hrecv, hsaying⟩ | ⟨⟨e, hraw⟩, hrecv⟩
  · rw [← frameOf] at hraw hrecv
    rw [hrecv, InStep, hleft, transmits_frameOf_iff hid hvalid, hsaying]
    rcases getIntRaw_ok_iff.mp hraw with ⟨hread', hfits⟩ | ⟨hcounts, hnil⟩
    · cases hread.symm.trans hread'
      rw [saidToJava_eq_saidToC_iff]
      constructor
      · rintro ⟨hrest, hlegible, -⟩
        exact ⟨hfits, hlegible, hrest⟩
      · rintro ⟨-, hlegible, hrest⟩
        exact ⟨hrest, hlegible, fun hcontent => by rwa [hcontent, if_pos rfl] at hrest⟩
    · have hle := le_length_of_counts hread hcounts
      constructor
      · -- there is a header that has not been read
        rintro ⟨-, hsaid⟩
        obtain ⟨p, pairs, hpairs⟩ := List.exists_cons_of_length_pos (Nat.lt_of_lt_of_le
          (Nat.pow_pos (Nat.zero_lt_succ 1)) hle)
        have hsome : (firstValue (raw.pairs.map fun p => (cut p.1, cut p.2)) (cut p.1)).isSome :=
          firstValue_isSome_iff.mpr ⟨cut p.2, List.mem_map.mpr
            ⟨p, hpairs ▸ List.mem_cons_self, rfl⟩⟩
        have hnone : none = firstValue (raw.pairs.map fun p => (cut p.1, cut p.2)) (cut p.1) := by
          have hheaders := congrFun (congrArg Saying.headers hsaid) (cut p.1)
          simp only [saidToJava, hnil, List.map_nil, lastValue_nil] at hheaders
          exact hheaders
        rw [← hnone] at hsome
        cases hsome
      · rintro ⟨hfits, -⟩
        exact absurd hfits.count (Nat.not_lt.mpr hle)
  · rw [← frameOf] at hraw hrecv
    rw [hrecv]
    constructor
    · rintro ⟨-, e', herror⟩
      rw [zccpMsgDecode_frameOf hid hvalid] at herror
      cases herror
    · rintro ⟨hfits, -⟩
      rw [getIntRaw_ok_iff.mpr (.inl ⟨hread, hfits⟩)] at hraw
      cases hraw

/-- The id of a frame that overflows is the one it has. -/
theorem overflows_head {id : MsgId} {a b c : UInt8} {tail : List UInt8}
    (h : Overflows id (a :: b :: c :: tail)) : c = UInt8.ofNat id.code := by
  obtain ⟨-, texts, count, trailing, -, -, -, -, hframe⟩ := h
  exact (List.cons.inj (List.cons.inj (List.cons.inj hframe).2).2).1

/-- **A signed frame**, whatever is behind the signature: nothing, an id that nobody has, or the id of a
type, with fields that are complete or not. Only in the last case can Java read a message that C does
not. -/
theorem inStep_recvMessage_iff (tail : List UInt8) :
    InStep (recvMessage charset self (0xAA :: 0xAA :: tail) 2 ⟨rest, queue⟩)
      ((0xAA :: 0xAA :: tail) :: rest) queue ↔ Sound charset ((0xAA :: 0xAA :: tail) :: rest) := by
  cases tail with
  | nil =>
    have hrecv : recvMessage charset self [0xAA, 0xAA] 2 ⟨rest, queue⟩ = .null ⟨rest, queue⟩ := rfl
    obtain ⟨e, herror⟩ := decode_error ([0xAA, 0xAA] :: rest) nofun
    rw [hrecv, inStep_null_iff charset herror]
    rintro id - ⟨-, texts, count, trailing, -, -, -, -, hframe⟩
    cases hframe
  | cons c tail =>
    cases hof : MsgId.ofCode c.toNat with
    | none =>
      have herror : zccpMsgDecode ((0xAA :: 0xAA :: c :: tail) :: rest) =
          .error (.malformed c.toNat) := by
        rw [zccpMsgDecode_cons, if_neg (by decide), hof]
      have hrecv : recvMessage charset self (0xAA :: 0xAA :: c :: tail) 2 ⟨rest, queue⟩ =
          .null ⟨rest, queue⟩ := by
        rw [recvMessage, getMessage_cons, hof]
      rw [hrecv, inStep_null_iff charset herror]
      intro id hid hover
      obtain rfl := overflows_head hover
      cases hof.symm.trans (MsgId.ofCode_ofNat hid)
    | some id =>
      obtain ⟨hid, hcode⟩ := MsgId.ofCode_eq_some_iff.mp hof
      obtain rfl : c = UInt8.ofNat id.code := by rw [← hcode, UInt8.ofNat_toNat]
      rcases getRaw_cases id tail with ⟨raw, trailing, hvalid, hframe⟩ | hm
      · rw [hframe]
        exact inStep_complete_iff charset self hid hvalid trailing
      · have herror := zccpMsgDecode_signed hid tail rest
        rw [hm] at herror
        rcases recvMessage_cases charset self hid tail rest queue with
          ⟨raw', n', msg, hraw, hrecv, -⟩ | ⟨⟨e, hraw⟩, hrecv⟩
        · -- Java reads what C does not: the number of headers is taken for none
          rcases getIntRaw_ok_iff.mp hraw with ⟨hread, -⟩ | ⟨hcounts, -⟩
          · cases hm.symm.trans hread
          · rw [hrecv, sound_incomplete_iff herror]
            constructor
            · rintro ⟨-, m, hm, -⟩
              cases herror.symm.trans hm
            · exact fun ⟨_, hcount⟩ => absurd (overflows_iff.mpr ⟨_, _, hcounts⟩) (hcount id hid)
        · rw [hrecv, inStep_null_iff charset herror]
          intro id' hid' hover
          obtain rfl := MsgId.ofNat_code_inj (overflows_head hover)
          obtain ⟨texts, n', hcounts⟩ := overflows_iff.mp hover
          have hok : getIntRaw id (0xAA :: 0xAA :: UInt8.ofNat id.code :: tail) 3 =
              .ok (⟨texts, []⟩, n') := getIntRaw_ok_iff.mpr (.inr ⟨hcounts, rfl⟩)
          cases hok.symm.trans hraw

end Message

/-! ## One call -/

section Call

variable (charset : Charset) (router : Bool) (self : ZccpMsg)

/-- A message without a frame for the decoder, which only a ROUTER has. -/
theorem recvLoop_none {m : Multipart Frame} (h : payload router m = [])
    (queue : List (Multipart Frame)) :
    recvLoop charset router self ⟨[], m :: queue⟩ = .null ⟨[], queue⟩ := by
  obtain ⟨first, rest⟩ := m
  cases router with
  | false => cases h
  | true =>
    obtain rfl : rest = [] := h
    rw [recvLoop]
    rfl

/-- One turn of the loop at a message that has a first frame: its signature and id decide whether it
is read or skipped. -/
theorem recvLoop_some {m : Multipart Frame} {frame : Frame} {rest : List Frame}
    (h : payload router m = frame :: rest) (queue : List (Multipart Frame)) :
    ∃ self', recvLoop charset router self ⟨[], m :: queue⟩ =
      match getNumber2 frame 0 with
      | .error _ => .null ⟨rest, queue⟩
      | .ok (signature, needle) =>
        if signature = 0xAAA0 ||| 10 then recvMessage charset self' frame needle ⟨rest, queue⟩
        else recvLoop charset router self' ⟨[], queue⟩ := by
  obtain ⟨first, rest'⟩ := m
  cases router with
  | false =>
    obtain ⟨rfl, rfl⟩ := List.cons.inj h
    refine ⟨self, ?_⟩
    rw [recvLoop]
    rfl
  | true =>
    obtain rfl : rest' = frame :: rest := h
    refine ⟨{ self with routingId := some first }, ?_⟩
    rw [recvLoop]
    rfl

/-- A frame too short for a signature throws, and is not skipped. -/
theorem getNumber2_short {frame : Frame} (h : frame.length < 2) :
    getNumber2 frame 0 = .error .malformed := by
  refine bind_error ?_
  rw [octets_apply, if_neg (by omega)]

theorem getNumber2_cons (a b : UInt8) (tail : List UInt8) :
    getNumber2 (a :: b :: tail) 0 = .ok (bigEndian [a, b], 2) := by
  have h := (reads_number 2).complete [] [a, b] tail (a := bigEndian [a, b]) ⟨rfl, rfl⟩
  exact h

/-- A message with some other signature is thrown away whole, and the loop goes on. -/
theorem recvLoop_skipped {g : Multipart Frame} (h : Skipped router g)
    (queue : List (Multipart Frame)) :
    ∃ self', recvLoop charset router self ⟨[], g :: queue⟩ =
      recvLoop charset router self' ⟨[], queue⟩ := by
  obtain ⟨hsigned, a, b, tail, rest, hpayload⟩ := h
  rw [hpayload, signed_cons_iff] at hsigned
  obtain ⟨self', hloop⟩ := recvLoop_some charset router self hpayload queue
  refine ⟨self', ?_⟩
  rw [hloop, getNumber2_cons]
  exact if_neg hsigned

/-- **A message that is not skipped** is read in step if and only if it is sound. -/
theorem inStep_recvLoop_iff {m : Multipart Frame} (h : ¬ Skipped router m)
    (queue : List (Multipart Frame)) :
    InStep (recvLoop charset router self ⟨[], m :: queue⟩) (payload router m) queue ↔
      Sound charset (payload router m) := by
  cases hpayload : payload router m with
  | nil =>
    rw [recvLoop_none charset router self hpayload]
    have hnone (frame : Frame) : frame ∉ ([] : List Frame) := List.not_mem_nil
    refine ⟨fun _ => ?_, fun _ => ⟨rfl, .empty, rfl⟩⟩
    exact .incomplete (Nat.zero_le 1) (fun _ _ _ _ _ => hnone _) fun frame h => absurd h (hnone frame)
  | cons frame rest =>
    obtain ⟨self', hloop⟩ := recvLoop_some charset router self hpayload queue
    rw [hloop]
    by_cases hlt : frame.length < 2
    · rw [getNumber2_short hlt]
      exact inStep_short_iff charset hlt
    · have hpos : 0 < frame.length := by omega
      obtain ⟨a, frame, rfl⟩ := List.exists_cons_of_length_pos hpos
      rw [List.length_cons] at hlt
      have hpos' : 0 < frame.length := by omega
      obtain ⟨b, tail, rfl⟩ := List.exists_cons_of_length_pos hpos'
      rw [getNumber2_cons]
      have hsigned : bigEndian [a, b] = 0xAAA0 ||| 10 := by
        by_contra hne
        refine h ⟨?_, a, b, tail, rest, hpayload⟩
        rw [hpayload, signed_cons_iff]
        exact hne
      simp only [if_pos hsigned]
      obtain ⟨rfl, rfl⟩ := bigEndian_pair_eq hsigned
      exact inStep_recvMessage_iff charset self' tail

/-- So are any number of them. -/
theorem recvLoop_garbage {garbage : List (Multipart Frame)} (h : ∀ g ∈ garbage, Skipped router g)
    (queue : List (Multipart Frame)) :
    ∃ self', recvLoop charset router self ⟨[], garbage ++ queue⟩ =
      recvLoop charset router self' ⟨[], queue⟩ := by
  induction garbage generalizing self with
  | nil => exact ⟨self, rfl⟩
  | cons g garbage ih =>
    obtain ⟨hg, hgarbage⟩ := List.forall_mem_cons.mp h
    obtain ⟨self₁, hskip⟩ := recvLoop_skipped charset router self hg (garbage ++ queue)
    obtain ⟨self₂, hrest⟩ := ih self₁ hgarbage
    exact ⟨self₂, hskip.trans hrest⟩

/-- **A call**, on any queue. -/
theorem inStep_recv_iff {garbage : List (Multipart Frame)} {m : Multipart Frame}
    (hskip : ∀ g ∈ garbage, Skipped router g) (h : ¬ Skipped router m)
    (queue : List (Multipart Frame)) :
    InStep (recv charset router ⟨[], garbage ++ m :: queue⟩) (payload router m) queue ↔
      Sound charset (payload router m) := by
  obtain ⟨self', hloop⟩ := recvLoop_garbage charset router (.new .unset) hskip (m :: queue)
  rw [recv, hloop]
  exact inStep_recvLoop_iff charset router self' h queue

/-- With nothing else on the socket, the call does not return. -/
theorem recv_waits {garbage : List (Multipart Frame)} (h : ∀ g ∈ garbage, Skipped router g) :
    recv charset router ⟨[], garbage⟩ = .waits := by
  obtain ⟨self', hloop⟩ := recvLoop_garbage charset router (.new .unset) h []
  rw [List.append_nil] at hloop
  rw [recv, hloop, recvLoop]
  cases router <;> rfl

end Call

/-! ## Call after call -/

/-- **The calls keep in step** until there is no message left. A queue is cut into garbage and a message
again and again, and each call has to take what its part is, no more and no less. -/
inductive KeepsStep (charset : Charset) (router : Bool) : List (Multipart Frame) → Prop
  | waits {garbage : List (Multipart Frame)} (hskip : ∀ g ∈ garbage, Skipped router g)
      (h : recv charset router ⟨[], garbage⟩ = .waits) : KeepsStep charset router garbage
  | next {garbage queue : List (Multipart Frame)} {m : Multipart Frame}
      (hskip : ∀ g ∈ garbage, Skipped router g) (hm : ¬ Skipped router m)
      (h : InStep (recv charset router ⟨[], garbage ++ m :: queue⟩) (payload router m) queue)
      (hqueue : KeepsStep charset router queue) : KeepsStep charset router (garbage ++ m :: queue)

variable (charset : Charset) (router : Bool)

/-- One more message in front. If it is skipped, it joins the garbage of the first call; otherwise there
is one call more. -/
theorem keepsStep_cons {m : Multipart Frame} {queue : List (Multipart Frame)}
    (hm : Skipped router m ∨ Sound charset (payload router m))
    (hqueue : KeepsStep charset router queue) : KeepsStep charset router (m :: queue) := by
  by_cases hskipped : Skipped router m
  · cases hqueue with
    | waits hskip =>
      have hskip' := List.forall_mem_cons.mpr ⟨hskipped, hskip⟩
      exact .waits hskip' (recv_waits charset router hskip')
    | next hskip hm' h hqueue =>
      have hskip' := List.forall_mem_cons.mpr ⟨hskipped, hskip⟩
      have hsound := (inStep_recv_iff charset router hskip hm' _).mp h
      exact .next hskip' hm' ((inStep_recv_iff charset router hskip' hm' _).mpr hsound) hqueue
  · have hsound := hm.resolve_left hskipped
    have hnone : ∀ g ∈ ([] : List (Multipart Frame)), Skipped router g := List.forall_mem_nil _
    exact .next hnone hskipped
      ((inStep_recv_iff charset router hnone hskipped queue).mpr hsound) hqueue

/-- **When the class keeps in step**: a call that reads a signed message does if the message is
sound, and does not if it is not; and the calls on a queue all do if all of its messages are sound
or skipped. -/
theorem keepsStep_iff (queue : List (Multipart Frame)) :
    (∀ garbage m rest, queue = garbage ++ m :: rest → (∀ g ∈ garbage, Skipped router g) →
      Signed (payload router m) →
      (InStep (recv charset router ⟨[], queue⟩) (payload router m) rest ↔
        Sound charset (payload router m))) ∧
    (KeepsStep charset router queue ↔
      ∀ m ∈ queue, Skipped router m ∨ Sound charset (payload router m)) := by
  constructor
  · rintro garbage m rest rfl hskip hsigned
    exact inStep_recv_iff charset router hskip (fun h => h.1 hsigned) rest
  constructor
  · intro h
    induction h with
    | waits hskip _ => exact fun m hmem => .inl (hskip m hmem)
    | next hskip hm h _ ih =>
      have hsound := (inStep_recv_iff charset router hskip hm _).mp h
      exact List.forall_mem_append.mpr ⟨fun g hg => .inl (hskip g hg),
        List.forall_mem_cons.mpr ⟨.inr hsound, ih⟩⟩
  · intro h
    induction queue with
    | nil =>
      have hnone : ∀ g ∈ ([] : List (Multipart Frame)), Skipped router g := List.forall_mem_nil _
      exact .waits hnone (recv_waits charset router hnone)
    | cons m queue ih =>
      obtain ⟨hm, hqueue⟩ := List.forall_mem_cons.mp h
      exact keepsStep_cons charset router hm (ih hqueue)

/-- A decoder that puts a replacement character for every byte above 127 of what is not UTF-8. -/
def Charset.replacing : Charset where
  decode bytes :=
    match bytes.toByteArray.utf8Decode? with
    | some chars => chars.toList
    | none => bytes.map fun b => if b ≤ 0x7f then Char.ofNat b.toNat else Char.ofNat 0xfffd
  decode_utf8 s := by
    have h : (utf8 s).toByteArray.utf8Decode? = some s.toArray := List.utf8Decode?_utf8Encode
    simp only [h]
  nul bytes hmem := by
    cases h : bytes.toByteArray.utf8Decode? with
    | some chars =>
      obtain ⟨s, hs⟩ := ByteArray.isSome_utf8Decode?_iff.mp (Option.isSome_of_eq_some h)
      have hbytes : bytes = utf8 s := by
        have hlist := congrArg (fun b => b.data.toList) hs
        rwa [List.utf8Encode, List.toList_data_toByteArray, List.toList_data_toByteArray] at hlist
      rw [hs, List.utf8Decode?_utf8Encode] at h
      obtain rfl := Option.some.inj h
      exact hbytes ▸ hmem
    | none => exact List.mem_flatMap.mpr ⟨Char.ofNat 0, List.mem_map.mpr ⟨0, hmem, rfl⟩, by decide⟩

/-- A `PING` with a frame behind it, and a dictionary that ends behind its number of headers, which
is `2 ^ 31`. -/
theorem smuggles_and_overflows :
    (¬ InStep (recv .replacing false ⟨[], [⟨[0xAA, 0xAA, 10], [[0xAA, 0xAA, 12]]⟩]⟩)
      [[0xAA, 0xAA, 10], [0xAA, 0xAA, 12]] []) ∧
    ¬ InStep (recv .replacing false ⟨[], [⟨[0xAA, 0xAA, 2, 0x80, 0, 0, 0], []⟩]⟩)
      [[0xAA, 0xAA, 2, 0x80, 0, 0, 0]] [] := by
  have hcall (first : List UInt8) (rest : List Frame) :=
    inStep_recv_iff .replacing false (List.forall_mem_nil _)
      (show ¬ Skipped false ⟨0xAA :: 0xAA :: first, rest⟩ from fun h => h.1 ⟨first, rest, rfl⟩) []
  constructor
  · refine mt (hcall [10] [[0xAA, 0xAA, 12]]).mp ?_
    have hping : MsgId.ping ≠ .unset := nofun
    have hsound : Sound .replacing (frameOf .ping ⟨[], []⟩ [] :: [[0xAA, 0xAA, 12]]) ↔ _ :=
      sound_complete_iff hping (Raw.valid_nil rfl)
    exact fun h => absurd (hsound.mp h).2.2 (by decide)
  · refine mt (hcall [2, 0x80, 0, 0, 0] []).mp ?_
    have hover : Overflows .helloOk [0xAA, 0xAA, 2, 0x80, 0, 0, 0] :=
      ⟨rfl, [], 2 ^ 31, [], rfl, nofun, Nat.le_refl _, by decide, by decide⟩
    have hid : MsgId.helloOk ≠ .unset := nofun
    have herror := zccpMsgDecode_signed hid [0x80, 0, 0, 0] []
    have hread : getRaw .helloOk [0xAA, 0xAA, 2, 0x80, 0, 0, 0] 3 = .error .malformed := by
      decide +kernel
    rw [show (0xAA :: 0xAA :: UInt8.ofNat MsgId.helloOk.code :: [0x80, 0, 0, 0] : Frame) =
      [0xAA, 0xAA, 2, 0x80, 0, 0, 0] from rfl, hread] at herror
    exact fun h => ((sound_incomplete_iff herror).mp h).2 .helloOk hid hover

end Zccp.Java
