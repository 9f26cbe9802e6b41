import Zccp.Go.Msg

/-!
# `Zccp/Go/Unmarshal.lean` — does Go read what the broker reads?

`Unmarshal` does not look at the errors of `binary.Read`. On a frame that is complete it finds what
C's decoder finds (`getTransit_saying`), but for what the two make of a NUL, of a repeated key and
of a second content frame; on one that is not, it finds something all the same, or runs into a
`nil`. `agrees_iff` says when the two agree.

The Go buffer is what has not been read yet, and C's needle is an index into the whole frame. The
lemmas on reading carry the one over to the other (`buf.drop n`), and are needed in one direction
only: where C reads a field, Go reads the same field. Where C does not, all that has to be known of Go
is that it reports no error.
-/

set_option autoImplicit false

namespace Zccp.Go

open Lib Lib.Reader

/-- The two decoders agree: both fail, or both find messages that say the same. -/
def Agrees : Unmarshalled → Except DecodeError ZccpMsg → Prop
  | .error _, .error _ => True
  | .message t, .ok m => t.saying = m.saying
  | _, _ => False

/-- Fields that everyone reads the same: no text and no key has a NUL in it, and a key that is
repeated has the same value at its last occurrence as at its first, but for a NUL and what is behind
it. -/
structure Unambiguous (raw : Raw) : Prop where
  texts : ∀ text ∈ raw.texts, 0 ∉ text
  keys : ∀ p ∈ raw.pairs, 0 ∉ p.1
  values : ∀ key, lastValue raw.pairs key = (firstValue raw.pairs key).map cut

/-! ## A buffer that is long enough -/

section Reads

variable {buf : List UInt8} {n n' : Nat}

/-- Bytes that are there are read. -/
theorem binaryRead_of_octets {size : Nat} {bs : List UInt8} (h : octets size buf n = .ok (bs, n')) :
    binaryRead size (buf.drop n) = (some bs, buf.drop n') := by
  rw [octets_apply] at h
  split at h
  · rename_i hle
    cases h
    rw [binaryRead, if_pos (by rw [List.length_drop]; omega), List.drop_drop]
  · cases h

/-- Both sides are big-endian. -/
theorem readNumber_of_number {size v : Nat} (h : number size buf n = .ok (v, n')) :
    readNumber size (buf.drop n) = (v, buf.drop n') := by
  obtain ⟨bs, n₁, hbs, hv⟩ := bind_eq_ok h
  cases hv
  rw [readNumber, binaryRead_of_octets hbs]
  rfl

/-- A text with its length in front, for both sizes of length. -/
theorem getSized_of_getText {k : Nat} {text : List UInt8} (h : getText k buf n = .ok (text, n')) :
    getSized k (buf.drop n) = (text, buf.drop n') := by
  obtain ⟨size, n₁, hsize, htext⟩ := bind_eq_ok h
  simp only [getSized, readNumber_of_number hsize, binaryRead_of_octets htext]
  rfl

/-- The loop over the headers. The map so far is general in the induction, since Go fills one map where
the raw pairs are a list. -/
theorem getPairs_of_getRawPairs {count : Nat} {headers : Headers}
    {pairs : List (List UInt8 × List UInt8)} (h : getRawPairs count buf n = .ok (pairs, n')) :
    getPairs count headers (buf.drop n) = pairs.foldl (fun m p => m.insert p.1 p.2) headers := by
  induction count generalizing n headers pairs with
  | zero =>
    cases h
    rfl
  | succ count ih =>
    obtain ⟨key, n₁, hkey, h⟩ := bind_eq_ok h
    obtain ⟨value, n₂, hvalue, h⟩ := bind_eq_ok h
    obtain ⟨pairs', n₃, hpairs, h⟩ := bind_eq_ok h
    cases h
    simp only [getPairs, getString, getLongString, getSized_of_getText hkey,
      getSized_of_getText hvalue, List.foldl_cons]
    exact ih hpairs

/-- A map keeps what was put into it last. -/
theorem getHeaders_of_getRawDictionary {pairs : List (List UInt8 × List UInt8)}
    (h : getRawDictionary buf n = .ok (pairs, n')) (key : List UInt8) :
    (getHeaders (buf.drop n)).lookup key = lastValue pairs key := by
  obtain ⟨count, n₁, hcount, hpairs⟩ := bind_eq_ok h
  rw [getHeaders, readNumber_of_number hcount]
  simp only [getPairs_of_getRawPairs hpairs, lookup_foldl_insert, AList.lookup_empty]
  exact Option.or_none

/-- The fields are read in two blocks, of which the second need not be there. -/
theorem getRaw_ok {id : MsgId} {raw : Raw} (h : getRaw id buf n = .ok (raw, n')) :
    ∃ n₁, getTexts id.texts buf n = .ok (raw.texts, n₁) ∧
      if id.hasHeaders then getRawDictionary buf n₁ = .ok (raw.pairs, n') else raw.pairs = [] := by
  obtain ⟨texts, n₁, htexts, h⟩ := bind_eq_ok h
  obtain ⟨pairs, n₂, hpairs, h⟩ := bind_eq_ok h
  cases h
  refine ⟨n₁, htexts, ?_⟩
  cases hid : id.hasHeaders <;> rw [hid] at hpairs
  · cases hpairs
    rfl
  · exact hpairs

theorem getTexts_one {texts : List (List UInt8)} (h : getTexts 1 buf n = .ok (texts, n')) :
    ∃ text, texts = [text] ∧ getString (buf.drop n) = (text, buf.drop n') := by
  obtain ⟨text, n₁, htext, h⟩ := bind_eq_ok h
  cases h
  exact ⟨text, rfl, getSized_of_getText htext⟩

theorem getTexts_two {texts : List (List UInt8)} (h : getTexts 2 buf n = .ok (texts, n')) :
    ∃ text text' n₁, texts = [text, text'] ∧ getString (buf.drop n) = (text, buf.drop n₁) ∧
      getString (buf.drop n₁) = (text', buf.drop n') := by
  obtain ⟨text, n₁, htext, h⟩ := bind_eq_ok h
  obtain ⟨texts', n₂, htexts', h⟩ := bind_eq_ok h
  cases h
  obtain ⟨text', rfl, htext'⟩ := getTexts_one htexts'
  exact ⟨text, text', n₁, rfl, getSized_of_getText htext, htext'⟩

/-- What fields say to Go: the texts as they are, the last value of a key, and one content frame. -/
def saidToGo (id : MsgId) (rest : List Frame) (raw : Raw) : Saying where
  id := id
  texts := raw.texts
  headers := lastValue raw.pairs
  content := if id.hasContent then rest.head?.toList else []

/-- **A complete frame is read**, whatever is behind the fields. The types go together by how many texts
they have and whether they have headers. -/
theorem getTransit_saying {id : MsgId} (hid : id ≠ .unset) {raw : Raw} (rest : List Frame)
    (h : getRaw id buf n = .ok (raw, n')) :
    (getTransit rest (buf.drop n) id).saying = saidToGo id rest raw := by
  obtain ⟨n₁, htexts, hheaders⟩ := getRaw_ok h
  obtain ⟨texts, pairs⟩ := raw
  cases id with
  | unset => exact absurd rfl hid
  | hello | subscribe | publish | direct =>
    obtain ⟨text, rfl, hstring⟩ := getTexts_one htexts
    have hlookup := getHeaders_of_getRawDictionary hheaders
    simp only [getTransit, hstring]
    exact Saying.ext rfl rfl (funext hlookup) rfl
  | deliver =>
    obtain ⟨text, text', n₂, rfl, hstring, hstring'⟩ := getTexts_two htexts
    have hlookup := getHeaders_of_getRawDictionary hheaders
    simp only [getTransit, hstring, hstring']
    exact Saying.ext rfl rfl (funext hlookup) rfl
  | helloOk | goodbyeOk =>
    cases htexts
    have hlookup := getHeaders_of_getRawDictionary hheaders
    exact Saying.ext rfl rfl (funext hlookup) rfl
  | _ =>
    cases htexts
    obtain rfl : pairs = [] := hheaders
    exact Saying.ext rfl rfl rfl rfl

end Reads

/-! ## The frames -/

/-- The types of this package have C's numbers. -/
theorem typeOf_eq_some_iff {code : UInt8} {id : MsgId} :
    zccpMsg.typeOf code = some id ↔ id ≠ .unset ∧ code = UInt8.ofNat id.code := by
  constructor
  · intro h
    obtain ⟨p, hp, rfl⟩ := Option.map_eq_some_iff.mp h
    have hcode : p.2 = code := by simpa using List.find?_some hp
    have hmem := List.mem_of_find?_eq_some hp
    rw [← hcode]
    simp only [zccpMsg, List.mem_cons, List.not_mem_nil, or_false] at hmem
    rcases hmem with rfl | rfl | rfl | rfl | rfl | rfl | rfl | rfl | rfl | rfl | rfl | rfl <;>
      exact ⟨nofun, rfl⟩
  · rintro ⟨hid, rfl⟩
    cases id <;> first | rfl | exact absurd rfl hid

/-- A number is read from a buffer that is long enough; from any other, it is 0. -/
theorem readNumber_of_le {size : Nat} {buffer : List UInt8} (h : size ≤ buffer.length) :
    readNumber size buffer = (bigEndian (buffer.take size), buffer.drop size) := by
  rw [readNumber, binaryRead, if_pos h]
  rfl

/-- `Unmarshal`, on a frame that is long enough for the signature and the id. -/
theorem unmarshal_cons (a b c : UInt8) (tail : List UInt8) (rest : List Frame) :
    unmarshal zccpMsg ((a :: b :: c :: tail) :: rest) =
      if bigEndian [a, b] ≠ signature then .error .invalidSignature
      else
        match zccpMsg.typeOf c with
        | none => .panics
        | some id => .message (getTransit rest tail id) := by
  have h₂ : readNumber 2 (a :: b :: c :: tail) = (bigEndian [a, b], c :: tail) :=
    readNumber_of_le (by simp)
  have h₁ : readNumber 1 (c :: tail) = (c.toNat, tail) := by
    rw [readNumber_of_le (by simp)]
    simp [bigEndian]
  simp only [unmarshal, h₂, h₁, UInt8.ofNat_toNat]
  by_cases hsig : bigEndian [a, b] ≠ signature
  · rw [if_pos hsig, if_pos hsig]
  · rw [if_neg hsig, if_neg hsig]
    cases htype : zccpMsg.typeOf c with
    | none => rfl
    | some id =>
      obtain ⟨hid, rfl⟩ := typeOf_eq_some_iff.mp htype
      simp only [Transit.unmarshal, h₂, h₁, UInt8.ofNat_toNat, if_neg hsig, idOf_zccpMsg hid,
        ne_eq, not_true_eq_false, if_false]

/-- **What the two differ in**, of fields that both have read: the NUL, the repeated key, and the second
content frame. -/
theorem saidToGo_eq_saidToC_iff {id : MsgId} {rest : List Frame} {raw : Raw} :
    saidToGo id rest raw = raw.saidToC id rest ↔
      Unambiguous raw ∧ (id.hasContent = true → rest.length ≤ 1) := by
  have hcontent : (if id.hasContent then rest.head?.toList else []) =
      (if id.hasContent then rest else []) ↔ (id.hasContent = true → rest.length ≤ 1) := by
    cases id.hasContent with
    | false => simp
    | true =>
      match rest with
      | [] => simp
      | [frame] => simp
      | frame :: frame' :: rest => simp
  constructor
  · intro h
    have hheaders := fun key => congrFun (congrArg Saying.headers h) key
    obtain ⟨hkeys, hvalues⟩ := lastValue_eq_firstValue_cut_iff.mp hheaders
    refine ⟨⟨?_, hkeys, hvalues⟩, hcontent.mp (congrArg Saying.content h)⟩
    exact map_cut_eq_self_iff.mp (congrArg Saying.texts h).symm
  · rintro ⟨⟨htexts, hkeys, hvalues⟩, hrest⟩
    refine Saying.ext rfl ?_ ?_ (hcontent.mpr hrest)
    · exact (map_cut_eq_self_iff.mpr htexts).symm
    · exact funext (lastValue_eq_firstValue_cut_iff.mpr ⟨hkeys, hvalues⟩)

/-- **An error is all that `Unmarshal` makes of a message that is not signed**, and of no other. It reads
the signature twice, first to find the type and then in the type's own `Unmarshal`; the second check
never fails. -/
theorem unmarshal_error_iff (frames : List Frame) :
    (∃ err, unmarshal zccpMsg frames = .error err) ↔ ¬ Signed frames := by
  match frames with
  | [] => exact ⟨fun _ => nofun, fun _ => ⟨_, rfl⟩⟩
  | [] :: _ => exact ⟨fun _ => nofun, fun _ => ⟨_, rfl⟩⟩
  | [a] :: _ => exact ⟨fun _ => nofun, fun _ => ⟨_, rfl⟩⟩
  | [a, b] :: rest =>
    -- the id is not there, and is taken for 0
    have h₂ : readNumber 2 [a, b] = (bigEndian [a, b], []) := readNumber_of_le (by simp)
    have h₁ : readNumber 1 [] = (0, []) := rfl
    have h₀ : zccpMsg.typeOf (UInt8.ofNat 0) = none := rfl
    simp only [unmarshal, h₂, h₁, h₀]
    rw [signed_cons_iff]
    by_cases hsig : bigEndian [a, b] = signature
    · rw [if_neg (not_not_intro hsig)]
      exact ⟨nofun, fun h => absurd hsig h⟩
    · rw [if_pos hsig]
      exact ⟨fun _ => hsig, fun _ => ⟨_, rfl⟩⟩
  | (a :: b :: c :: tail) :: rest =>
    rw [unmarshal_cons, signed_cons_iff]
    by_cases hsig : bigEndian [a, b] = signature
    · rw [if_neg (not_not_intro hsig)]
      refine ⟨?_, fun h => absurd hsig h⟩
      cases zccpMsg.typeOf c <;> exact nofun
    · rw [if_pos hsig]
      exact ⟨fun _ => hsig, fun _ => ⟨_, rfl⟩⟩

/-- **When Go reads what the broker reads**: if the message is not signed, in which case neither
reads it, or if its first frame is complete and its fields are unambiguous, and if there is no more
than one frame behind it where it has a content. -/
theorem agrees_iff (frames : List Frame) :
    Agrees (unmarshal zccpMsg frames) (zccpMsgDecode frames) ↔
      ¬ Signed frames ∨ ∃ id raw trailing rest, id ≠ .unset ∧ raw.Valid id ∧
        frames = frameOf id raw trailing :: rest ∧ Unambiguous raw ∧
        (id.hasContent = true → rest.length ≤ 1) := by
  cases hdec : zccpMsgDecode frames with
  | error e =>
    rw [show Agrees (unmarshal zccpMsg frames) (.error e) ↔ ¬ Signed frames by
      rw [← unmarshal_error_iff]
      cases unmarshal zccpMsg frames <;> simp [Agrees]]
    constructor
    · exact .inl
    · rintro (h | ⟨id, raw, trailing, rest, hid, hvalid, rfl, -⟩)
      · exact h
      · rw [zccpMsgDecode_frameOf hid hvalid] at hdec
        cases hdec
  | ok m =>
    obtain ⟨id, raw, trailing, rest, hid, hvalid, rfl⟩ := complete_of_decode hdec
    rw [zccpMsgDecode_frameOf hid hvalid] at hdec
    obtain rfl := Except.ok.inj hdec
    obtain ⟨n, hread⟩ := getRaw_frameOf hvalid trailing
    have hgo := getTransit_saying hid rest hread
    rw [frameOf, unmarshal_cons, if_neg (by decide), typeOf_eq_some_iff.mpr ⟨hid, rfl⟩]
    show (getTransit rest (raw.encode id ++ trailing) id).saying = (raw.message id rest).saying ↔ _
    rw [saying_message hvalid, show (getTransit rest (raw.encode id ++ trailing) id).saying = _ from
      hgo, saidToGo_eq_saidToC_iff]
    constructor
    · rintro ⟨hraw, hrest⟩
      exact .inr ⟨id, raw, trailing, rest, hid, hvalid, rfl, hraw, hrest⟩
    · rintro (h | ⟨id', raw', trailing', rest', -, hvalid', hframes, hraw, hrest⟩)
      · exact absurd (signed_frameOf id raw trailing rest) h
      · obtain ⟨hframe, rfl⟩ := List.cons.inj hframes
        obtain ⟨rfl, rfl⟩ := frameOf_inj hvalid hvalid' hframe
        exact ⟨hraw, hrest⟩

/-- An id that nobody has given, and a `HELLO` that ends behind its id. -/
theorem disagrees_unknown_and_short :
    (unmarshal zccpMsg [[0xAA, 0xAA, 0]] = .panics ∧
      ¬ Agrees (unmarshal zccpMsg [[0xAA, 0xAA, 0]]) (zccpMsgDecode [[0xAA, 0xAA, 0]])) ∧
    ¬ Agrees (unmarshal zccpMsg [[0xAA, 0xAA, 1]]) (zccpMsgDecode [[0xAA, 0xAA, 1]]) := by
  have h₀ : unmarshal zccpMsg [[0xAA, 0xAA, 0]] = .panics := by
    rw [unmarshal_cons, if_neg (by decide)]
    rfl
  have h₁ : unmarshal zccpMsg [[0xAA, 0xAA, 1]] = .message (.hello [] ∅) := by
    rw [unmarshal_cons, if_neg (by decide)]
    rfl
  have hello : MsgId.hello ≠ .unset := nofun
  have hdec : zccpMsgDecode [[0xAA, 0xAA, 1]] = .error (.malformed 1) :=
    zccpMsgDecode_signed hello [] []
  refine ⟨⟨h₀, ?_⟩, ?_⟩
  · rw [h₀]
    exact id
  · rw [h₁, hdec]
    exact id

end Zccp.Go
