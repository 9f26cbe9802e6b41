import Zccp.Lib.Pairs
import Zccp.Msg.Format

/-!
# `Zccp/Msg/Raw.lean` — what a frame says, in bytes

Three programs read and write this format, and each has strings and maps of its own. `Raw` is what
they have in common: the texts of a frame as the bytes between the lengths, its dictionary as the
list of pairs it is on the wire. `getRaw` reads that, and C's decoder is `getRaw` followed by what
C makes of it (`getFields_eq`).

What a message says, whichever program holds it, is a `Saying`: its type, its texts, its headers as
a map, and the frames of its content, all in bytes. Two programs agree on a message when their
sayings are the same.
-/

set_option autoImplicit false

namespace Zccp

open Lib Lib.Reader

/-! ## The layout of a type -/

namespace MsgId

/-- How many short strings it has. -/
def texts : MsgId → Nat
  | .hello => 1
  | .subscribe => 1
  | .publish => 1
  | .direct => 1
  | .deliver => 2
  | _ => 0

/-- Whether a dictionary stands behind them. -/
def hasHeaders : MsgId → Bool
  | .hello => true
  | .helloOk => true
  | .subscribe => true
  | .publish => true
  | .direct => true
  | .deliver => true
  | .goodbyeOk => true
  | _ => false

/-- Whether the frames behind the first are its content. -/
def hasContent : MsgId → Bool
  | .publish => true
  | .direct => true
  | .deliver => true
  | _ => false

end MsgId

/-- The fields of a frame. -/
structure Raw where
  texts : List (List UInt8)
  pairs : List (List UInt8 × List UInt8)
deriving DecidableEq

/-- A text behind its length, in `k` bytes. -/
def sized (k : Nat) (text : List UInt8) : List UInt8 := beBytes k text.length ++ text

def encodePairs (pairs : List (List UInt8 × List UInt8)) : List UInt8 :=
  pairs.flatMap fun p => sized 1 p.1 ++ sized 4 p.2

theorem encodePairs_append (pairs pairs' : List (List UInt8 × List UInt8)) :
    encodePairs (pairs ++ pairs') = encodePairs pairs ++ encodePairs pairs' := List.flatMap_append

namespace Raw

/-- The fields on the wire, for a message of a type. -/
def encode (id : MsgId) (raw : Raw) : List UInt8 :=
  raw.texts.flatMap (sized 1) ++
    if id.hasHeaders then beBytes 4 raw.pairs.length ++ encodePairs raw.pairs else []

/-- Fields of a message of that type, that fit their lengths. -/
structure Valid (id : MsgId) (raw : Raw) : Prop where
  texts : raw.texts.length = id.texts
  short : ∀ text ∈ raw.texts, text.length < 256 ^ 1
  headers : id.hasHeaders = false → raw.pairs = []
  count : raw.pairs.length < 256 ^ 4
  entries : ∀ p ∈ raw.pairs, p.1.length < 256 ^ 1 ∧ p.2.length < 256 ^ 4

end Raw

theorem Raw.valid_nil {id : MsgId} (h : id.texts = 0) : Raw.Valid id ⟨[], []⟩ :=
  ⟨h.symm, nofun, fun _ => rfl, Nat.pow_pos (Nat.zero_lt_succ _), nofun⟩

/-! ## Reading it -/

/-- A text. -/
def getText (k : Nat) : Reader (List UInt8) := do
  let size ← number k
  octets size

def getTexts : Nat → Reader (List (List UInt8))
  | 0 => pure []
  | n + 1 => do
    let text ← getText 1
    let texts ← getTexts n
    pure (text :: texts)

def getRawPairs : Nat → Reader (List (List UInt8 × List UInt8))
  | 0 => pure []
  | n + 1 => do
    let key ← getText 1
    let value ← getText 4
    let pairs ← getRawPairs n
    pure ((key, value) :: pairs)

/-- The dictionary block. -/
def getRawDictionary : Reader (List (List UInt8 × List UInt8)) := do
  let count ← number 4
  getRawPairs count

def getRawHeaders (hasHeaders : Bool) : Reader (List (List UInt8 × List UInt8)) :=
  if hasHeaders then getRawDictionary else pure []

/-- The fields of a message of a type. -/
def getRaw (id : MsgId) : Reader Raw := do
  let texts ← getTexts id.texts
  let pairs ← getRawHeaders id.hasHeaders
  pure { texts := texts, pairs := pairs }

theorem reads_getText (k : Nat) :
    Reads (getText k) fun text bs => text.length < 256 ^ k ∧ bs = sized k text :=
  ((reads_number k).bind fun size => reads_octets size).congr fun text bs => by
    constructor
    · rintro ⟨size, nb, tb, rfl, ⟨rfl, rfl⟩, rfl, hl⟩
      refine ⟨by rw [hl]; exact bigEndian_lt nb, ?_⟩
      rw [sized, hl, beBytes_bigEndian]
    · rintro ⟨hlt, rfl⟩
      exact ⟨text.length, _, _, rfl, ⟨(bigEndian_beBytes_of_lt hlt).symm, by simp⟩, rfl, rfl⟩

theorem reads_getTexts (n : Nat) :
    Reads (getTexts n) fun texts bs => texts.length = n ∧
      (∀ text ∈ texts, text.length < 256 ^ 1) ∧ bs = texts.flatMap (sized 1) := by
  induction n with
  | zero => exact reads_nil
  | succ n ih => exact (reads_getText 1).cons ih

/-- The pairs of a dictionary that counts `n`: by induction, each pair read as one value. -/
theorem reads_getRawPairs (n : Nat) :
    Reads (getRawPairs n) fun pairs bs => pairs.length = n ∧
      (∀ p ∈ pairs, p.1.length < 256 ^ 1 ∧ p.2.length < 256 ^ 4) ∧ bs = encodePairs pairs := by
  induction n with
  | zero => exact reads_nil
  | succ n ih =>
    -- a pair is read as one value
    have hpair : Reads (do let key ← getText 1; let value ← getText 4; pure (key, value))
        fun p bs => (p.1.length < 256 ^ 1 ∧ p.2.length < 256 ^ 4) ∧
          bs = sized 1 p.1 ++ sized 4 p.2 := by
      refine ((reads_getText 1).bind fun key =>
        (reads_getText 4).bindPure fun value => (key, value)).congr fun p bs => ?_
      constructor
      · rintro ⟨key, _, _, rfl, ⟨hk, rfl⟩, value, rfl, hv, rfl⟩
        exact ⟨⟨hk, hv⟩, rfl⟩
      · rintro ⟨⟨hk, hv⟩, rfl⟩
        exact ⟨p.1, _, _, rfl, ⟨hk, rfl⟩, p.2, rfl, hv, rfl⟩
    have hcons := hpair.cons ih
    simp only [bind_assoc, pure_bind] at hcons
    exact hcons

theorem reads_getRawDictionary :
    Reads getRawDictionary fun pairs bs => pairs.length < 256 ^ 4 ∧
      (∀ p ∈ pairs, p.1.length < 256 ^ 1 ∧ p.2.length < 256 ^ 4) ∧
      bs = beBytes 4 pairs.length ++ encodePairs pairs :=
  ((reads_number 4).bind fun n => reads_getRawPairs n).congr fun pairs bs => by
    constructor
    · rintro ⟨n, nb, _, rfl, ⟨rfl, hl⟩, hn, hps, rfl⟩
      refine ⟨?_, hps, ?_⟩
      · rw [hn, ← hl]
        exact bigEndian_lt nb
      · rw [hn, ← hl, beBytes_bigEndian]
    · rintro ⟨hlt, hps, rfl⟩
      exact ⟨pairs.length, _, _, rfl, ⟨(bigEndian_beBytes_of_lt hlt).symm, by simp⟩, rfl, hps, rfl⟩

/-- **What `getRaw` reads** are the fields as `encode` writes them, of every type. -/
theorem reads_getRaw (id : MsgId) :
    Reads (getRaw id) fun raw bs => raw.Valid id ∧ bs = raw.encode id := by
  by_cases hid : id.hasHeaders = true
  · simp only [getRaw, getRawHeaders, hid, if_true]
    refine ((reads_getTexts id.texts).bind fun texts => reads_getRawDictionary.bindPure fun pairs =>
      ({ texts := texts, pairs := pairs } : Raw)).congr fun raw bs => ?_
    constructor
    · rintro ⟨texts, _, _, rfl, ⟨hl, hshort, rfl⟩, pairs, rfl, hlt, hps, rfl⟩
      refine ⟨⟨hl, hshort, fun hnot => absurd (hid.symm.trans hnot) nofun, hlt, hps⟩, ?_⟩
      rw [Raw.encode, if_pos hid]
    · rintro ⟨hvalid, rfl⟩
      refine ⟨raw.texts, _, _, ?_, ⟨hvalid.texts, hvalid.short, rfl⟩, raw.pairs, rfl, hvalid.count,
        hvalid.entries, rfl⟩
      rw [Raw.encode, if_pos hid]
  · have hid' : id.hasHeaders = false := by simpa using hid
    simp only [getRaw, getRawHeaders, hid', Bool.false_eq_true, if_false]
    refine ((reads_getTexts id.texts).bind fun texts => (reads_pure []).bindPure fun pairs =>
      ({ texts := texts, pairs := pairs } : Raw)).congr fun raw bs => ?_
    constructor
    · rintro ⟨texts, _, _, rfl, ⟨hl, hshort, rfl⟩, pairs, rfl, rfl, rfl⟩
      refine ⟨⟨hl, hshort, fun _ => rfl, Nat.pow_pos (Nat.zero_lt_succ _), nofun⟩, ?_⟩
      rw [Raw.encode, if_neg hid]
    · rintro ⟨hvalid, rfl⟩
      have hpairs := hvalid.headers hid'
      refine ⟨raw.texts, _, [], ?_, ⟨hvalid.texts, hvalid.short, rfl⟩, [], ?_, rfl, rfl⟩
      · rw [Raw.encode, if_neg hid]
      · rw [← hpairs]

/-! ## What C makes of it -/

/-- What is left of a text in a C string: the bytes up to the first NUL. -/
def cut (text : List UInt8) : List UInt8 := text.takeWhile (· ≠ 0)

theorem cut_eq_self_iff {text : List UInt8} : cut text = text ↔ 0 ∉ text := by
  rw [cut, List.takeWhile_eq_self_iff]
  constructor
  · intro h hmem
    simpa using h 0 hmem
  · intro h b hb
    simpa using fun heq : b = 0 => h (heq ▸ hb)

theorem zero_notMem_cut (text : List UInt8) : 0 ∉ cut text := (CStr.ofBytes text).nulFree

theorem map_cut_eq_self_iff {texts : List (List UInt8)} :
    texts.map cut = texts ↔ ∀ text ∈ texts, 0 ∉ text := by
  induction texts with
  | nil => simp
  | cons text texts ih => simp [cut_eq_self_iff, ih]

/-- Where no key has a NUL, looking at the texts changes the values only. -/
theorem firstValue_cut {pairs : List (List UInt8 × List UInt8)} (h : ∀ p ∈ pairs, 0 ∉ p.1)
    (key : List UInt8) :
    firstValue (pairs.map fun p => (cut p.1, cut p.2)) key = (firstValue pairs key).map cut := by
  have hkeys : pairs.map (fun p => (cut p.1, cut p.2)) = pairs.map fun p => (id p.1, cut p.2) := by
    refine List.map_congr_left fun p hp => ?_
    rw [cut_eq_self_iff.mpr (h p hp)]
    rfl
  rw [hkeys]
  exact firstValue_map id cut pairs key fun p _ heq => heq

/-- **First and last values** of the keys make for the same map only if no key has a NUL in it. -/
theorem lastValue_eq_firstValue_cut_iff {pairs : List (List UInt8 × List UInt8)} :
    (∀ key, lastValue pairs key = firstValue (pairs.map fun p => (cut p.1, cut p.2)) key) ↔
      (∀ p ∈ pairs, 0 ∉ p.1) ∧ ∀ key, lastValue pairs key = (firstValue pairs key).map cut := by
  constructor
  · intro h
    have hkeys : ∀ p ∈ pairs, 0 ∉ p.1 := by
      intro p hp
      have hsome : (lastValue pairs p.1).isSome := lastValue_isSome_iff.mpr ⟨p.2, hp⟩
      rw [h, firstValue_isSome_iff] at hsome
      obtain ⟨value, hmem⟩ := hsome
      obtain ⟨p', -, heq⟩ := List.mem_map.mp hmem
      rw [← congrArg Prod.fst heq]
      exact zero_notMem_cut p'.1
    exact ⟨hkeys, fun key => (h key).trans (firstValue_cut hkeys key)⟩
  · rintro ⟨hkeys, hvalues⟩ key
    rw [hvalues, firstValue_cut hkeys]

/-- The dictionary that pairs are read into. -/
def hashOf (pairs : List (List UInt8 × List UInt8)) : Zhash :=
  .ofPairs (pairs.map fun p => (CStr.ofBytes p.1, CStr.ofBytes p.2))

/-- The message that fields are read into. -/
def Raw.message (id : MsgId) (rest : List Frame) (raw : Raw) : ZccpMsg :=
  let text (i : Nat) := some (CStr.ofBytes (raw.texts.getD i []))
  let headers := some (hashOf raw.pairs)
  match id with
  | .hello => { zccpMsgNew .hello with identifier := text 0, headers := headers }
  | .helloOk => { zccpMsgNew .helloOk with headers := headers }
  | .subscribe => { zccpMsgNew .subscribe with expression := text 0, headers := headers }
  | .publish => { zccpMsgNew .publish with
      address := text 0, headers := headers, content := some rest }
  | .direct => { zccpMsgNew .direct with
      address := text 0, headers := headers, content := some rest }
  | .deliver => { zccpMsgNew .deliver with
      sender := text 0, address := text 1, headers := headers, content := some rest }
  | .goodbyeOk => { zccpMsgNew .goodbyeOk with headers := headers }
  | id => zccpMsgNew id

theorem getString_eq : getString = CStr.ofBytes <$> getText 1 := by
  simp only [getString, getText, map_bind, bind_pure_comp]

theorem getLongstr_eq : getLongstr = CStr.ofBytes <$> getText 4 := by
  simp only [getLongstr, getText, map_bind, bind_pure_comp]

theorem getPairs_eq (n : Nat) (h : Zhash) :
    getPairs n h = (fun pairs => (pairs.map fun p => (CStr.ofBytes p.1, CStr.ofBytes p.2)).foldl
      (fun h p => h.insert p.1 p.2) h) <$> getRawPairs n := by
  induction n generalizing h with
  | zero => rfl
  | succ n ih =>
    simp only [getPairs, getRawPairs, getString_eq, getLongstr_eq, ih, map_bind, bind_map_left,
      bind_pure_comp, Functor.map_map, List.map_cons, List.foldl_cons]

theorem getDictionary_eq : getDictionary = hashOf <$> getRawDictionary := by
  simp only [getDictionary, getRawDictionary, getPairs_eq, map_bind]
  rfl

/-- **C's decoder reads the fields and then looks at the texts.** -/
theorem getFields_eq (rest : List Frame) (id : MsgId) :
    getFields rest id = Raw.message id rest <$> getRaw id := by
  cases id <;>
    simp [getFields, getRaw, getRawHeaders, MsgId.texts, MsgId.hasHeaders, getTexts, getString_eq,
      getDictionary_eq, Raw.message]

/-! ## Sayings -/

/-- **What a message says**, in bytes. -/
@[ext] structure Saying where
  id : MsgId
  texts : List (List UInt8)
  headers : List UInt8 → Option (List UInt8)
  content : List Frame

/-- What stands in a dictionary under a key. -/
def Zhash.entry (h : Zhash) (key : List UInt8) : Option (List UInt8) :=
  (h.items.find? (·.1.bytes = key)).map (·.2.bytes)

/-- The short strings of a message, in the order of its type. -/
def ZccpMsg.texts (m : ZccpMsg) : List (Option CStr) :=
  match m.id with
  | .hello => [m.identifier]
  | .subscribe => [m.expression]
  | .publish => [m.address]
  | .direct => [m.address]
  | .deliver => [m.sender, m.address]
  | _ => []

/-- What a message of C's says. -/
def ZccpMsg.saying (m : ZccpMsg) : Saying where
  id := m.id
  texts := m.texts.map fun s => (s.getD .empty).bytes
  headers := fun key => if m.id.hasHeaders then (m.headers.getD .empty).entry key else none
  content := if m.id.hasContent then m.content.getD [] else []

/-- What fields say to C: the texts as far as their first NUL, and the first value of a key. -/
def Raw.saidToC (id : MsgId) (rest : List Frame) (raw : Raw) : Saying where
  id := id
  texts := raw.texts.map cut
  headers := firstValue (raw.pairs.map fun p => (cut p.1, cut p.2))
  content := if id.hasContent then rest else []

/-- A key with a NUL in it stands in no dictionary of C's: its keys are strings of C. -/
theorem Zhash.entry_eq_none (h : Zhash) {key : List UInt8} (hkey : 0 ∈ key) : h.entry key = none := by
  rw [Zhash.entry, Option.map_eq_none_iff, List.find?_eq_none]
  intro p _ hp
  exact p.1.nulFree (of_decide_eq_true hp ▸ hkey)

/-- A key without a NUL is a string of C, and its entry is what looking it up answers. -/
theorem Zhash.entry_eq_lookup (h : Zhash) {key : List UInt8} (hkey : 0 ∉ key) :
    h.entry key = (h.lookup ⟨key, hkey⟩).map CStr.bytes := by
  rw [Zhash.entry, Zhash.lookup, Option.map_map]
  congr 2
  funext p
  exact decide_eq_decide.mpr (CStr.ext_iff (x := p.1) (y := ⟨key, hkey⟩)).symm

theorem entry_hashOf (pairs : List (List UInt8 × List UInt8)) (key : List UInt8) :
    (hashOf pairs).entry key = firstValue (pairs.map fun p => (cut p.1, cut p.2)) key := by
  by_cases hkey : 0 ∈ key
  · rw [Zhash.entry_eq_none _ hkey, eq_comm, ← Option.not_isSome_iff_eq_none, firstValue_isSome_iff]
    rintro ⟨value, hmem⟩
    obtain ⟨p, -, hp⟩ := List.mem_map.mp hmem
    obtain ⟨rfl, -⟩ := Prod.mk.inj hp
    exact zero_notMem_cut p.1 hkey
  · rw [Zhash.entry_eq_lookup _ hkey, hashOf, Zhash.lookup_ofPairs]
    have hmap := firstValue_map CStr.bytes CStr.bytes
      (pairs.map fun p => (CStr.ofBytes p.1, CStr.ofBytes p.2)) ⟨key, hkey⟩ fun p _ => CStr.ext
    rw [List.map_map] at hmap
    exact hmap.symm

/-- The message that the C decoder makes of raw fields says what the fields say to C: texts up to their
first null byte, and for each header the first of its values. -/
theorem saying_message {id : MsgId} {raw : Raw} (h : raw.Valid id) (rest : List Frame) :
    (raw.message id rest).saying = raw.saidToC id rest := by
  have htexts := h.texts
  apply Saying.ext
  · cases id <;> rfl
  · show (raw.message id rest).texts.map _ = raw.texts.map cut
    have h₀ : raw.texts.length = 0 → raw.texts = [] := List.length_eq_zero_iff.mp
    have h₁ : raw.texts.length = 1 → ∃ s, raw.texts = [s] := List.length_eq_one_iff.mp
    have h₂ : raw.texts.length = 2 → ∃ s a, raw.texts = [s, a] := List.length_eq_two.mp
    cases id with
    | hello | subscribe | publish | direct =>
      obtain ⟨s, hs⟩ := h₁ htexts
      simp only [Raw.message, hs]
      rfl
    | deliver =>
      obtain ⟨s, a, hs⟩ := h₂ htexts
      simp only [Raw.message, hs]
      rfl
    | _ =>
      rw [h₀ htexts]
      rfl
  · funext key
    have hentry := entry_hashOf raw.pairs key
    have hpairs := h.headers
    cases id with
    | hello | helloOk | subscribe | publish | direct | deliver | goodbyeOk => exact hentry
    | _ =>
      show none = firstValue (raw.pairs.map fun p => (cut p.1, cut p.2)) key
      rw [hpairs rfl]
      rfl
  · cases id <;> rfl

/-! ## The decoder -/

/-- The first frame of a message: the signature, the id, the fields, and whatever is behind them. -/
def frameOf (id : MsgId) (raw : Raw) (trailing : List UInt8) : Frame :=
  0xAA :: 0xAA :: UInt8.ofNat id.code :: (raw.encode id ++ trailing)

/-- C's decoder on a frame that is signed, and has an id that it knows. -/
theorem zccpMsgDecode_signed {id : MsgId} (hid : id ≠ .unset) (tail : List UInt8)
    (rest : List Frame) :
    zccpMsgDecode ((0xAA :: 0xAA :: UInt8.ofNat id.code :: tail) :: rest) =
      match getRaw id (0xAA :: 0xAA :: UInt8.ofNat id.code :: tail) 3 with
      | .error e => .error (.ofRead id.code e)
      | .ok (raw, _) => .ok (raw.message id rest) := by
  rw [zccpMsgDecode_cons, if_neg (by decide), MsgId.ofCode_ofNat hid]
  simp only [getFields_eq, map_apply, MsgId.toNat_ofNat_code]
  cases getRaw id (0xAA :: 0xAA :: UInt8.ofNat id.code :: tail) 3 <;> rfl

/-- The reader takes the fields of a frame that has them all for what they are, whatever stands behind
them. -/
theorem getRaw_frameOf {id : MsgId} {raw : Raw} (h : raw.Valid id) (trailing : List UInt8) :
    ∃ n, getRaw id (frameOf id raw trailing) 3 = .ok (raw, n) :=
  ⟨_, (reads_getRaw id).complete [0xAA, 0xAA, UInt8.ofNat id.code] _ trailing ⟨h, rfl⟩⟩

/-- It reads a frame that begins like one of its type only if all fields are there; any other is
malformed to it. With `getRaw_frameOf` this is all it ever does. -/
theorem getRaw_cases (id : MsgId) (tail : List UInt8) :
    (∃ raw trailing, raw.Valid id ∧
      0xAA :: 0xAA :: UInt8.ofNat id.code :: tail = frameOf id raw trailing) ∨
    getRaw id (0xAA :: 0xAA :: UInt8.ofNat id.code :: tail) 3 = .error .malformed := by
  rcases reads_at (reads_getRaw id) [0xAA, 0xAA, UInt8.ofNat id.code] tail (n := 3) rfl with
    ⟨raw, _, trailing, ⟨hvalid, rfl⟩, rfl, -⟩ | hm
  · exact .inl ⟨raw, trailing, hvalid, rfl⟩
  · exact .inr hm

/-- **A complete frame is decoded.** -/
theorem zccpMsgDecode_frameOf {id : MsgId} {raw : Raw} (hid : id ≠ .unset) (h : raw.Valid id)
    (trailing : List UInt8) (rest : List Frame) :
    zccpMsgDecode (frameOf id raw trailing :: rest) = .ok (raw.message id rest) := by
  obtain ⟨n, hread⟩ := getRaw_frameOf h trailing
  rw [frameOf] at hread ⊢
  rw [zccpMsgDecode_signed hid, hread]

/-- **Nothing else is.** -/
theorem complete_of_decode {frames : List Frame} {m : ZccpMsg}
    (h : zccpMsgDecode frames = .ok m) :
    ∃ id raw trailing rest, id ≠ .unset ∧ Raw.Valid id raw ∧
      frames = frameOf id raw trailing :: rest := by
  rcases zccpMsgDecode_cases frames with
    ⟨rest, id, _, fields, trailing, hid, -, hmsg, -⟩ | h' | ⟨_, h'⟩
  · rcases getRaw_cases id (fields ++ trailing) with ⟨raw, trailing', hvalid, hframe⟩ | hm
    · exact ⟨id, raw, trailing', rest, hid, hvalid, hmsg.trans (congrArg (· :: rest) hframe)⟩
    · rw [hmsg] at h
      simp only [List.cons_append, List.nil_append] at h
      rw [zccpMsgDecode_signed hid, hm] at h
      cases h
  · cases h'.symm.trans h
  · cases h'.symm.trans h

theorem decode_error (frames : List Frame)
    (h : ∀ id raw trailing rest, id ≠ .unset → Raw.Valid id raw →
      frames ≠ frameOf id raw trailing :: rest) : ∃ e, zccpMsgDecode frames = .error e := by
  cases hdec : zccpMsgDecode frames with
  | error e => exact ⟨e, rfl⟩
  | ok m =>
    obtain ⟨id, raw, trailing, rest, hid, hvalid, hframes⟩ := complete_of_decode hdec
    exact absurd hframes (h id raw trailing rest hid hvalid)

/-- There is one way to read a complete frame. -/
theorem frameOf_inj {id id' : MsgId} {raw raw' : Raw} {trailing trailing' : List UInt8}
    (hvalid : raw.Valid id) (hvalid' : raw'.Valid id')
    (h : frameOf id raw trailing = frameOf id' raw' trailing') : id = id' ∧ raw = raw' := by
  obtain rfl : id = id' :=
    MsgId.ofNat_code_inj (List.cons.inj (List.cons.inj (List.cons.inj h).2).2).1
  obtain ⟨n, hread⟩ := getRaw_frameOf hvalid trailing
  obtain ⟨n', hread'⟩ := getRaw_frameOf hvalid' trailing'
  rw [h, hread'] at hread
  exact ⟨rfl, (Prod.mk.inj (Except.ok.inj hread)).1.symm⟩

/-- A message whose first frame begins with the signature. -/
def Signed (frames : List Frame) : Prop := ∃ tail rest, frames = (0xAA :: 0xAA :: tail) :: rest

theorem signed_cons_iff {a b : UInt8} {tail : List UInt8} {rest : List Frame} :
    Signed ((a :: b :: tail) :: rest) ↔ bigEndian [a, b] = 0xAAAA := by
  constructor
  · rintro ⟨tail', rest', heq⟩
    cases heq
    rfl
  · intro h
    obtain ⟨rfl, rfl⟩ := bigEndian_pair_eq h
    exact ⟨tail, rest, rfl⟩

theorem signed_frameOf (id : MsgId) (raw : Raw) (trailing : List UInt8) (rest : List Frame) :
    Signed (frameOf id raw trailing :: rest) := ⟨_, rest, rfl⟩

/-- The type of a decoded message is the one its id stands for. -/
theorem ofCode_of_decode {a b c : UInt8} {tail : List UInt8} {rest : List Frame} {m : ZccpMsg}
    (h : zccpMsgDecode ((a :: b :: c :: tail) :: rest) = .ok m) :
    MsgId.ofCode c.toNat = some m.id := by
  rcases zccpMsgDecode_cases ((a :: b :: c :: tail) :: rest) with
    ⟨_, id, m', fields, trailing, hid, hf, hmsg, h'⟩ | h' | ⟨_, h'⟩ <;> rw [h'] at h
  · obtain rfl := Except.ok.inj h
    simp only [List.cons_append, List.nil_append, List.cons.injEq] at hmsg
    obtain ⟨⟨-, -, rfl, -⟩, -⟩ := hmsg
    rw [hf.id_eq, MsgId.ofCode_ofNat hid]
  · cases h
  · cases h

/-- **A message gets across** to C: the frames are decoded, and into a message that says the same. -/
def Transmits (said : Saying) (frames : List Frame) : Prop :=
  ∃ m, zccpMsgDecode frames = .ok m ∧ m.saying = said

theorem transmits_frameOf_iff {id : MsgId} {raw : Raw} (hid : id ≠ .unset) (h : raw.Valid id)
    (trailing : List UInt8) (rest : List Frame) (said : Saying) :
    Transmits said (frameOf id raw trailing :: rest) ↔ said = raw.saidToC id rest := by
  rw [Transmits, zccpMsgDecode_frameOf hid h]
  constructor
  · rintro ⟨m, hm, rfl⟩
    rw [← Except.ok.inj hm, saying_message h]
  · rintro rfl
    exact ⟨_, rfl, saying_message h rest⟩

end Zccp
