import Zccp.Java.ZccpMsg

/-!
# `Zccp/Java/Get.lean` — what the Java class makes of a frame

`recv` reads the fields of a frame as C does, but for numbers of four bytes, which it takes for an
`int`: a value whose length is none is not read, and a number of headers that is none is taken for
no headers at all (`getIntRaw_ok_iff`). Then it decodes the texts, and keeps the last value of a key
(`said_message`).

Decoding cannot fail and does not depend on where in the frame a text is, so the two are taken apart:
`getFields_eq` says that the class reads bytes with `getIntRaw` and decodes them afterwards. What
remains to be compared with C is a reader of bytes with a reader of bytes.
-/

set_option autoImplicit false

namespace Zccp.Java

open Lib Lib.Reader

/-! ## Numbers of four bytes -/

/-- A text behind a length that has to be an `int`. -/
def getIntText : Reader (List UInt8) := do
  let size ← getNumber4
  getBytes size

def getIntPairs : Nat → Reader (List (List UInt8 × List UInt8))
  | 0 => pure []
  | n + 1 => do
    let key ← getText 1
    let value ← getIntText
    let pairs ← getIntPairs n
    pure ((key, value) :: pairs)

/-- The dictionary block. -/
def getIntDictionary : Reader (List (List UInt8 × List UInt8)) := do
  let count ← getNumber4
  getIntPairs count.toNat

def getIntHeaders (hasHeaders : Bool) : Reader (List (List UInt8 × List UInt8)) :=
  if hasHeaders then getIntDictionary else pure []

/-- The fields of a message of a type. -/
def getIntRaw (id : MsgId) : Reader Raw := do
  let texts ← getTexts id.texts
  let pairs ← getIntHeaders id.hasHeaders
  pure { texts := texts, pairs := pairs }

/-- Fields whose numbers of four bytes are an `int`. -/
structure Fits (raw : Raw) : Prop where
  count : raw.pairs.length < 2 ^ 31
  values : ∀ p ∈ raw.pairs, p.2.length < 2 ^ 31

section Numbers

variable {buf : List UInt8} {n n' : Nat}

/-- A number of four bytes is an `int`, or it is negative. -/
theorem bmod_of_lt {value : Nat} (h : value < 2 ^ 31) : ((value : Int).bmod (2 ^ 32)) = value := by
  rw [Int.bmod_eq_of_le] <;> omega

/-- The mask of the source is an `int` itself, -1, so that it clears nothing. -/
theorem bmod_neg {value : Nat} (h : 2 ^ 31 ≤ value) (hlt : value < 256 ^ 4) :
    ((value : Int).bmod (2 ^ 32)) < 0 := by
  rw [Int.bmod_def]
  omega

/-- The number is read if its bytes are there, and then taken for an `int`. -/
theorem getNumber4_ok_iff {value : Int} :
    getNumber4 buf n = .ok (value, n') ↔
      ∃ v, number 4 buf n = .ok (v, n') ∧ value = (v : Int).bmod (2 ^ 32) := by
  rw [getNumber4, bind_eq_ok_iff]
  constructor
  · rintro ⟨v, n₁, hv, h⟩
    rw [pure_apply] at h
    obtain ⟨hvalue, rfl⟩ := Prod.mk.inj (Except.ok.inj h)
    exact ⟨v, hv, hvalue.symm⟩
  · rintro ⟨v, hv, hvalue⟩
    exact ⟨v, n', hv, hvalue ▸ pure_apply _ _ _⟩

theorem getBytes_natCast (size : Nat) : getBytes size = octets size := by
  rw [getBytes, if_neg (Int.not_lt.mpr (Int.natCast_nonneg size)), Int.toNat_natCast]

/-- There is no array of a negative size. -/
theorem getBytes_neg {size : Int} (h : size < 0) : getBytes size = throwing := if_pos h

/-- **A value is read if its length is an `int`.** -/
theorem getIntText_ok_iff {text : List UInt8} :
    getIntText buf n = .ok (text, n') ↔ getText 4 buf n = .ok (text, n') ∧ text.length < 2 ^ 31 := by
  rw [getIntText, bind_eq_ok_iff, getText, bind_eq_ok_iff]
  constructor
  · rintro ⟨value, n₁, hvalue, h⟩
    obtain ⟨v, hv, heq⟩ := getNumber4_ok_iff.mp hvalue
    rw [heq] at h
    by_cases hlt : v < 2 ^ 31
    · rw [bmod_of_lt hlt, getBytes_natCast] at h
      exact ⟨⟨v, n₁, hv, h⟩, (octets_length h).symm ▸ hlt⟩
    · rw [getBytes_neg (bmod_neg (Nat.not_lt.mp hlt) (number_lt hv))] at h
      cases h
  · rintro ⟨⟨v, n₁, hv, h⟩, hlt⟩
    rw [octets_length h] at hlt
    refine ⟨_, n₁, getNumber4_ok_iff.mpr ⟨v, hv, rfl⟩, ?_⟩
    rw [bmod_of_lt hlt, getBytes_natCast]
    exact h

/-- Of the headers only the values have such a length; that of a key is one byte. -/
theorem getIntPairs_ok_iff {count : Nat} {pairs : List (List UInt8 × List UInt8)} :
    getIntPairs count buf n = .ok (pairs, n') ↔
      getRawPairs count buf n = .ok (pairs, n') ∧ ∀ p ∈ pairs, p.2.length < 2 ^ 31 := by
  induction count generalizing n pairs with
  | zero =>
    constructor
    · intro h
      cases h
      exact ⟨rfl, nofun⟩
    · exact fun h => h.1
  | succ count ih =>
    rw [getIntPairs, getRawPairs]
    simp only [bind_eq_ok_iff]
    constructor
    · rintro ⟨key, n₁, hkey, value, n₂, hvalue, pairs', n₃, hpairs, h⟩
      cases h
      obtain ⟨hvalue, hlt⟩ := getIntText_ok_iff.mp hvalue
      obtain ⟨hpairs, hvalues⟩ := ih.mp hpairs
      exact ⟨⟨key, n₁, hkey, value, n₂, hvalue, pairs', _, hpairs, rfl⟩,
        List.forall_mem_cons.mpr ⟨hlt, hvalues⟩⟩
    · rintro ⟨⟨key, n₁, hkey, value, n₂, hvalue, pairs', n₃, hpairs, h⟩, hvalues⟩
      cases h
      obtain ⟨hlt, hvalues⟩ := List.forall_mem_cons.mp hvalues
      exact ⟨key, n₁, hkey, value, n₂, getIntText_ok_iff.mpr ⟨hvalue, hlt⟩, pairs', _,
        ih.mpr ⟨hpairs, hvalues⟩, rfl⟩

/-- As many pairs are read as were announced. -/
theorem getRawPairs_length {count : Nat} {pairs : List (List UInt8 × List UInt8)}
    (h : getRawPairs count buf n = .ok (pairs, n')) : pairs.length = count := by
  induction count generalizing n pairs with
  | zero =>
    cases h
    rfl
  | succ count ih =>
    obtain ⟨key, n₁, -, h⟩ := bind_eq_ok h
    obtain ⟨value, n₂, -, h⟩ := bind_eq_ok h
    obtain ⟨pairs', n₃, hpairs, h⟩ := bind_eq_ok h
    cases h
    rw [List.length_cons, ih hpairs]

/-- **The headers are read if their number is an `int`**, and otherwise taken for none: the loop that
counts down from a negative number is not entered, and nothing is thrown. -/
theorem getIntDictionary_ok_iff {pairs : List (List UInt8 × List UInt8)} :
    getIntDictionary buf n = .ok (pairs, n') ↔
      (getRawDictionary buf n = .ok (pairs, n') ∧ pairs.length < 2 ^ 31 ∧
        ∀ p ∈ pairs, p.2.length < 2 ^ 31) ∨
      ∃ count, number 4 buf n = .ok (count, n') ∧ 2 ^ 31 ≤ count ∧ pairs = [] := by
  rw [getIntDictionary, bind_eq_ok_iff, getRawDictionary, bind_eq_ok_iff]
  constructor
  · rintro ⟨value, n₁, hvalue, h⟩
    obtain ⟨count, hcount, heq⟩ := getNumber4_ok_iff.mp hvalue
    rw [heq] at h
    by_cases hlt : count < 2 ^ 31
    · rw [bmod_of_lt hlt, Int.toNat_natCast, getIntPairs_ok_iff] at h
      exact .inl ⟨⟨count, n₁, hcount, h.1⟩, (getRawPairs_length h.1).symm ▸ hlt, h.2⟩
    · have hle := Nat.not_lt.mp hlt
      rw [Int.toNat_of_nonpos (Int.le_of_lt (bmod_neg hle (number_lt hcount)))] at h
      cases h
      exact .inr ⟨count, hcount, hle, rfl⟩
  · rintro (⟨⟨count, n₁, hcount, h⟩, hlt, hvalues⟩ | ⟨count, hcount, hle, rfl⟩)
    · rw [getRawPairs_length h] at hlt
      refine ⟨_, n₁, getNumber4_ok_iff.mpr ⟨count, hcount, rfl⟩, ?_⟩
      rw [bmod_of_lt hlt, Int.toNat_natCast, getIntPairs_ok_iff]
      exact ⟨h, hvalues⟩
    · refine ⟨_, n', getNumber4_ok_iff.mpr ⟨count, hcount, rfl⟩, ?_⟩
      rw [Int.toNat_of_nonpos (Int.le_of_lt (bmod_neg hle (number_lt hcount)))]
      rfl

theorem getTexts_length {count : Nat} {texts : List (List UInt8)}
    (h : getTexts count buf n = .ok (texts, n')) : texts.length = count := by
  induction count generalizing n texts with
  | zero =>
    cases h
    rfl
  | succ count ih =>
    obtain ⟨text, n₁, -, h⟩ := bind_eq_ok h
    obtain ⟨texts', n₂, htexts, h⟩ := bind_eq_ok h
    cases h
    rw [List.length_cons, ih htexts]

/-- A frame says how many headers it has, and the number is no `int`. -/
def CountsTooMany (id : MsgId) (texts : List (List UInt8)) (buf : List UInt8) (n n' : Nat) : Prop :=
  id.hasHeaders = true ∧ ∃ n₁ count, getTexts id.texts buf n = .ok (texts, n₁) ∧
    number 4 buf n₁ = .ok (count, n') ∧ 2 ^ 31 ≤ count

/-- **What is read of a frame**: what C reads, if it fits; or, if the number of headers does not, the
fields in front of that number, which ends the reading there. The two cases exclude each other, as C
would have to find `2 ^ 31` headers for the first. -/
theorem getIntRaw_ok_iff {id : MsgId} {raw : Raw} :
    getIntRaw id buf n = .ok (raw, n') ↔
      (getRaw id buf n = .ok (raw, n') ∧ Fits raw) ∨
      (CountsTooMany id raw.texts buf n n' ∧ raw.pairs = []) := by
  have hnil (raw : Raw) : Fits { raw with pairs := [] } :=
    ⟨Nat.pow_pos (Nat.zero_lt_succ _), nofun⟩
  rw [getIntRaw, bind_eq_ok_iff, getRaw, bind_eq_ok_iff, CountsTooMany]
  cases hid : id.hasHeaders with
  | false =>
    simp only [getIntHeaders, getRawHeaders, Bool.false_eq_true, if_false, false_and, or_false]
    constructor
    · rintro ⟨texts, n₁, htexts, h⟩
      cases h
      exact ⟨⟨texts, _, htexts, rfl⟩, hnil ⟨texts, []⟩⟩
    · exact fun h => h.1
  | true =>
    simp only [getIntHeaders, getRawHeaders, if_true, bind_eq_ok_iff, true_and]
    constructor
    · rintro ⟨texts, n₁, htexts, pairs, n₂, hpairs, h⟩
      cases h
      rcases getIntDictionary_ok_iff.mp hpairs with
        ⟨hpairs, hcount, hvalues⟩ | ⟨count, hcount, hle, rfl⟩
      · exact .inl ⟨⟨texts, n₁, htexts, pairs, _, hpairs, rfl⟩, hcount, hvalues⟩
      · exact .inr ⟨⟨n₁, count, htexts, hcount, hle⟩, rfl⟩
    · rintro (⟨⟨texts, n₁, htexts, pairs, n₂, hpairs, h⟩, hfits⟩ |
        ⟨⟨n₁, count, htexts, hcount, hle⟩, hnone⟩)
      · cases h
        exact ⟨texts, n₁, htexts, pairs, _,
          getIntDictionary_ok_iff.mpr (.inl ⟨hpairs, hfits.count, hfits.values⟩), rfl⟩
      · refine ⟨raw.texts, n₁, htexts, [], n',
          getIntDictionary_ok_iff.mpr (.inr ⟨count, hcount, hle, rfl⟩), ?_⟩
        rw [← hnone]
        rfl

/-- Whatever is read has the shape of its type. -/
theorem getIntRaw_shape {id : MsgId} {raw : Raw} (h : getIntRaw id buf n = .ok (raw, n')) :
    raw.texts.length = id.texts ∧ (id.hasHeaders = false → raw.pairs = []) := by
  obtain ⟨texts, n₁, htexts, h⟩ := bind_eq_ok h
  obtain ⟨pairs, n₂, hpairs, h⟩ := bind_eq_ok h
  cases h
  refine ⟨getTexts_length htexts, fun hid => ?_⟩
  rw [hid] at hpairs
  cases hpairs
  rfl

end Numbers

/-- A frame that says of itself that it has more headers than an `int` can count. -/
def Overflows (id : MsgId) (frame : Frame) : Prop :=
  id.hasHeaders = true ∧ ∃ (texts : List (List UInt8)) (count : Nat) (trailing : List UInt8),
    texts.length = id.texts ∧ (∀ text ∈ texts, text.length < 256 ^ 1) ∧
    2 ^ 31 ≤ count ∧ count < 256 ^ 4 ∧
    frame = 0xAA :: 0xAA :: UInt8.ofNat id.code ::
      (texts.flatMap (sized 1) ++ beBytes 4 count ++ trailing)

/-- Seen from the reader. -/
theorem overflows_iff {id : MsgId} {tail : List UInt8} :
    Overflows id (0xAA :: 0xAA :: UInt8.ofNat id.code :: tail) ↔
      ∃ texts n', CountsTooMany id texts (0xAA :: 0xAA :: UInt8.ofNat id.code :: tail) 3 n' := by
  have hreads := (reads_getTexts id.texts).bind fun texts =>
    (reads_number 4).bindPure fun count => (texts, count)
  constructor
  · rintro ⟨hid, texts, count, trailing, hl, hshort, hle, hlt, hframe⟩
    have hread := hreads.complete [0xAA, 0xAA, UInt8.ofNat id.code] _ trailing
      (a := (texts, count)) ⟨texts, _, beBytes 4 count, rfl, ⟨hl, hshort, rfl⟩, count, rfl,
        (bigEndian_beBytes_of_lt hlt).symm, beBytes_length 4 count⟩
    obtain ⟨texts', n₁, htexts, h⟩ := bind_eq_ok hread
    obtain ⟨count', n₂, hcount, h⟩ := bind_eq_ok h
    cases h
    rw [hframe]
    exact ⟨texts, _, hid, n₁, count, htexts, hcount, hle⟩
  · rintro ⟨texts, n', hid, n₁, count, htexts, hcount, hle⟩
    have hread : (getTexts id.texts >>= fun texts => number 4 >>= fun count => pure (texts, count))
        (0xAA :: 0xAA :: UInt8.ofNat id.code :: tail) 3 = .ok ((texts, count), n') := by
      rw [bind_ok htexts, bind_ok hcount]
      rfl
    rcases reads_at hreads [0xAA, 0xAA, UInt8.ofNat id.code] tail (n := 3) rfl with
      ⟨r, _, trailing, ⟨texts', _, bs, rfl, ⟨hl, hshort, rfl⟩, count', rfl, rfl, hbs⟩, rfl, hr⟩ | hm
    · obtain ⟨heq, -⟩ := Prod.mk.inj (Except.ok.inj (hread.symm.trans hr))
      obtain ⟨rfl, rfl⟩ := Prod.mk.inj heq
      refine ⟨hid, texts, bigEndian bs, trailing, hl, hshort, hle, hbs ▸ bigEndian_lt bs, ?_⟩
      rw [← hbs, beBytes_bigEndian]
    · cases hread.symm.trans hm

/-! ## The message -/

namespace Charset

variable (charset : Charset)

/-- The bytes of the string that bytes are decoded into. -/
def reencode (bytes : List UInt8) : List UInt8 := utf8 (charset.decode bytes)

/-- Decoding loses nothing exactly if the bytes are UTF-8. The charset is a parameter because what it
puts for bytes that are not is its own affair. -/
theorem reencode_eq_self_iff {bytes : List UInt8} : charset.reencode bytes = bytes ↔ IsUtf8 bytes := by
  constructor
  · exact fun h => ⟨charset.decode bytes, h.symm⟩
  · rintro ⟨s, rfl⟩
    rw [reencode, charset.decode_utf8]

/-- The map that pairs are read into. -/
def mapOf (pairs : List (List UInt8 × List UInt8)) : Headers :=
  (pairs.map fun p => (charset.decode p.1, charset.decode p.2)).foldl (fun m p => m.insert p.1 p.2) ∅

/-- The message that fields are read into. -/
def message (self : ZccpMsg) (id : MsgId) (raw : Raw) : ZccpMsg :=
  let text (i : Nat) := some (charset.decode (raw.texts.getD i []))
  let headers := some (charset.mapOf raw.pairs)
  match id with
  | .hello => { self with id := .hello, identifier := text 0, headers := headers }
  | .helloOk => { self with id := .helloOk, headers := headers }
  | .subscribe => { self with id := .subscribe, expression := text 0, headers := headers }
  | .publish => { self with id := .publish, address := text 0, headers := headers }
  | .direct => { self with id := .direct, address := text 0, headers := headers }
  | .deliver => { self with id := .deliver, sender := text 0, address := text 1, headers := headers }
  | .goodbyeOk => { self with id := .goodbyeOk, headers := headers }
  | id => { self with id := id }

end Charset

theorem getString_eq (charset : Charset) : getString charset = charset.decode <$> getText 1 := by
  have h : ∀ size : Nat, getBytes size = octets size := getBytes_natCast
  simp only [getString, getNumber1, getText, h, map_bind, bind_pure_comp]

theorem getLongString_eq (charset : Charset) :
    getLongString charset = charset.decode <$> getIntText := by
  simp only [getLongString, getIntText, map_bind, bind_pure_comp]

theorem getEntries_eq (charset : Charset) (count : Nat) (headers : Headers) :
    getEntries charset count headers = (fun pairs =>
      (pairs.map fun p => (charset.decode p.1, charset.decode p.2)).foldl
        (fun m p => m.insert p.1 p.2) headers) <$> getIntPairs count := by
  induction count generalizing headers with
  | zero => rfl
  | succ count ih =>
    simp only [getEntries, getIntPairs, getString_eq, getLongString_eq, ih, map_bind, bind_map_left,
      bind_pure_comp, Functor.map_map, List.map_cons, List.foldl_cons]

theorem getHeaders_eq (charset : Charset) :
    getHeaders charset = charset.mapOf <$> getIntDictionary := by
  simp only [getHeaders, getIntDictionary, getEntries_eq, map_bind]
  rfl

/-- **The class reads the fields and then decodes the texts.** -/
theorem getFields_eq (charset : Charset) (self : ZccpMsg) {id : MsgId} (hid : id ≠ .unset) :
    getFields charset self id = charset.message self id <$> getIntRaw id := by
  cases id with
  | unset => exact absurd rfl hid
  | _ =>
    simp [getFields, getIntRaw, getIntHeaders, MsgId.texts, MsgId.hasHeaders, getTexts,
      getString_eq, getHeaders_eq, Charset.message]

/-! ## What it says -/

variable (charset : Charset)

/-- What pairs are to the class: the last value of a key. Keys are compared as strings there and as bytes
here, which comes to the same for a key in UTF-8; any other is the key of no string. -/
theorem firstValue_mapOf (pairs : List (List UInt8 × List UInt8)) (key : List UInt8) :
    firstValue ((toPairs (charset.mapOf pairs)).map fun p => (utf8 p.1, utf8 p.2)) key =
      lastValue (pairs.map fun p => (charset.reencode p.1, charset.reencode p.2)) key := by
  by_cases hkey : IsUtf8 key
  · obtain ⟨s, rfl⟩ := hkey
    have hleft := firstValue_map utf8 utf8 (toPairs (charset.mapOf pairs)) s
      fun p _ => utf8_injective
    have hright := lastValue_map utf8 utf8
      (pairs.map fun p => (charset.decode p.1, charset.decode p.2)) s fun p _ => utf8_injective
    rw [List.map_map] at hright
    rw [hleft, firstValue_toPairs, Charset.mapOf, lookup_foldl_insert, AList.lookup_empty,
      Option.or_none, ← hright]
    rfl
  · -- there is no such key
    have hleft : firstValue ((toPairs (charset.mapOf pairs)).map fun p => (utf8 p.1, utf8 p.2)) key =
        none := by
      rw [← Option.not_isSome_iff_eq_none, firstValue_isSome_iff]
      rintro ⟨value, hmem⟩
      obtain ⟨p, -, hp⟩ := List.mem_map.mp hmem
      exact hkey ⟨p.1, (Prod.mk.inj hp).1.symm⟩
    rw [hleft, eq_comm, ← Option.not_isSome_iff_eq_none, lastValue_isSome_iff]
    rintro ⟨value, hmem⟩
    obtain ⟨p, -, hp⟩ := List.mem_map.mp hmem
    exact hkey ⟨charset.decode p.1, (Prod.mk.inj hp).1.symm⟩

/-- What fields say to Java: the texts in UTF-8, and the last value of a key. -/
def saidToJava (id : MsgId) (content : List Frame) (raw : Raw) : Saying where
  id := id
  texts := raw.texts.map charset.reencode
  headers := lastValue (raw.pairs.map fun p => (charset.reencode p.1, charset.reencode p.2))
  content := if id.hasContent then content else []

/-- The type that was read is the type of the message. -/
theorem message_id (self : ZccpMsg) (id : MsgId) (raw : Raw) :
    (charset.message self id raw).id = id := by
  cases id <;> rfl

/-- **What the message says** is what its fields say to Java. -/
theorem said_message (self : ZccpMsg) {id : MsgId} {raw : Raw} (content : Option (List Frame))
    (htexts : raw.texts.length = id.texts) (hpairs : id.hasHeaders = false → raw.pairs = []) :
    ({ charset.message self id raw with content := content } : ZccpMsg).saying =
      saidToJava charset id (content.getD []) raw := by
  apply Saying.ext
  · exact message_id charset self id raw
  · have h₀ : raw.texts.length = 0 → raw.texts = [] := List.length_eq_zero_iff.mp
    have h₁ : raw.texts.length = 1 → ∃ s, raw.texts = [s] := List.length_eq_one_iff.mp
    have h₂ : raw.texts.length = 2 → ∃ s a, raw.texts = [s, a] := List.length_eq_two.mp
    cases id with
    | hello | subscribe | publish | direct =>
      obtain ⟨s, hs⟩ := h₁ htexts
      simp only [saidToJava, hs, Charset.message]
      rfl
    | deliver =>
      obtain ⟨s, a, hs⟩ := h₂ htexts
      simp only [saidToJava, hs, Charset.message]
      rfl
    | _ =>
      simp only [saidToJava, h₀ htexts]
      rfl
  · funext key
    have hmap := firstValue_mapOf charset raw.pairs key
    cases id with
    | hello | helloOk | subscribe | publish | direct | deliver | goodbyeOk => exact hmap
    | _ =>
      simp only [saidToJava, hpairs rfl]
      rfl
  · cases id <;> rfl

/-- Fields that Java reads as C does. No text and no key has a NUL in it, all of them are UTF-8, and
what the last value of a key is decoded into is the first value, but for a NUL and what is behind
it. -/
structure Legible (raw : Raw) : Prop where
  texts : ∀ text ∈ raw.texts, IsUtf8 text ∧ 0 ∉ text
  keys : ∀ p ∈ raw.pairs, IsUtf8 p.1 ∧ 0 ∉ p.1
  values : ∀ key,
    (lastValue raw.pairs key).map charset.reencode = (firstValue raw.pairs key).map cut

/-- A text that is the same to both has no NUL, which only the one of them takes for an end: if it had,
the decoded text would still have one, and the one that C cuts off has none. -/
theorem reencode_eq_cut_iff {text : List UInt8} :
    charset.reencode text = cut text ↔ IsUtf8 text ∧ 0 ∉ text := by
  constructor
  · intro h
    have hnul : 0 ∉ text := by
      intro hmem
      have hmem' : 0 ∈ charset.reencode text := charset.nul text hmem
      rw [h] at hmem'
      exact zero_notMem_cut text hmem'
    rw [cut_eq_self_iff.mpr hnul] at h
    exact ⟨(charset.reencode_eq_self_iff).mp h, hnul⟩
  · rintro ⟨hutf8, hnul⟩
    rw [cut_eq_self_iff.mpr hnul]
    exact (charset.reencode_eq_self_iff).mpr hutf8

/-- The headers. That the keys are UTF-8 without a NUL has to follow from the two maps being the same,
and does: each key of the one is a key of the other. Of the values no more can be said than the
equation, since of a value that is not kept nothing is known. -/
theorem lastValue_reencode_eq_iff {pairs : List (List UInt8 × List UInt8)} :
    (∀ key, lastValue (pairs.map fun p => (charset.reencode p.1, charset.reencode p.2)) key =
        firstValue (pairs.map fun p => (cut p.1, cut p.2)) key) ↔
      (∀ p ∈ pairs, IsUtf8 p.1 ∧ 0 ∉ p.1) ∧
        ∀ key, (lastValue pairs key).map charset.reencode = (firstValue pairs key).map cut := by
  -- where the keys are the same to everyone, so are the maps but for the values
  have hvalues (hkeys : ∀ p ∈ pairs, IsUtf8 p.1 ∧ 0 ∉ p.1) (key : List UInt8) :
      lastValue (pairs.map fun p => (charset.reencode p.1, charset.reencode p.2)) key =
        (lastValue pairs key).map charset.reencode := by
    have hmap : pairs.map (fun p => (charset.reencode p.1, charset.reencode p.2)) =
        pairs.map fun p => (id p.1, charset.reencode p.2) := by
      refine List.map_congr_left fun p hp => ?_
      rw [(charset.reencode_eq_self_iff).mpr (hkeys p hp).1]
      rfl
    rw [hmap]
    exact lastValue_map id charset.reencode pairs key fun p _ heq => heq
  constructor
  · intro h
    have hnul : ∀ p ∈ pairs, 0 ∉ p.1 := by
      intro p hp hmem
      have hsome : (lastValue (pairs.map fun p => (charset.reencode p.1, charset.reencode p.2))
          (charset.reencode p.1)).isSome :=
        lastValue_isSome_iff.mpr ⟨_, List.mem_map.mpr ⟨p, hp, rfl⟩⟩
      rw [h, firstValue_isSome_iff] at hsome
      obtain ⟨value, hmem'⟩ := hsome
      obtain ⟨p', -, heq⟩ := List.mem_map.mp hmem'
      have hmem₀ : 0 ∈ charset.reencode p.1 := charset.nul p.1 hmem
      rw [← (Prod.mk.inj heq).1] at hmem₀
      exact zero_notMem_cut p'.1 hmem₀
    have hkeys : ∀ p ∈ pairs, IsUtf8 p.1 ∧ 0 ∉ p.1 := by
      intro p hp
      have hsome : (firstValue (pairs.map fun p => (cut p.1, cut p.2)) p.1).isSome :=
        firstValue_isSome_iff.mpr
          ⟨_, List.mem_map.mpr ⟨p, hp, by rw [cut_eq_self_iff.mpr (hnul p hp)]⟩⟩
      rw [← h, lastValue_isSome_iff] at hsome
      obtain ⟨value, hmem⟩ := hsome
      obtain ⟨p', -, heq⟩ := List.mem_map.mp hmem
      exact ⟨⟨charset.decode p'.1, (Prod.mk.inj heq).1.symm⟩, hnul p hp⟩
    refine ⟨hkeys, fun key => ?_⟩
    rw [← hvalues hkeys, h, firstValue_cut hnul]
  · rintro ⟨hkeys, hsame⟩ key
    rw [hvalues hkeys, hsame, firstValue_cut fun p hp => (hkeys p hp).2]

/-- **What Java and C differ in**, of fields that both have read. -/
theorem saidToJava_eq_saidToC_iff {id : MsgId} {rest : List Frame} {raw : Raw} :
    saidToJava charset id (rest.take 1) raw = raw.saidToC id rest ↔
      Legible charset raw ∧ (id.hasContent = true → rest.length ≤ 1) := by
  have htexts : raw.texts.map charset.reencode = raw.texts.map cut ↔
      ∀ text ∈ raw.texts, IsUtf8 text ∧ 0 ∉ text := by
    rw [List.map_inj_left]
    exact forall₂_congr fun text _ => reencode_eq_cut_iff charset
  have hcontent : (if id.hasContent then rest.take 1 else []) = (if id.hasContent then rest else []) ↔
      (id.hasContent = true → rest.length ≤ 1) := by
    cases id.hasContent with
    | false => simp
    | true => simp
  constructor
  · intro h
    have hheaders := fun key => congrFun (congrArg Saying.headers h) key
    obtain ⟨hkeys, hvalues⟩ := (lastValue_reencode_eq_iff charset).mp hheaders
    exact ⟨⟨htexts.mp (congrArg Saying.texts h), hkeys, hvalues⟩,
      hcontent.mp (congrArg Saying.content h)⟩
  · rintro ⟨⟨htexts', hkeys, hvalues⟩, hrest⟩
    refine Saying.ext rfl (htexts.mpr htexts') (funext ?_) (hcontent.mpr hrest)
    exact (lastValue_reencode_eq_iff charset).mpr ⟨hkeys, hvalues⟩

end Zccp.Java
