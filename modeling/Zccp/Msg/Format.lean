import Zccp.Msg.Decode

/-!
# `Zccp/Msg/Format.lean` — the format, and that the decoder accepts exactly it

`zccp_msg.bnf` as predicates on byte lists, one for each production: `IsString`, `IsLongstr`,
`IsPairs`, `IsDictionary`, and `IsFields` for what stands behind the message id. `WellFormed`
is a whole multipart message. Nothing here mentions a needle, and nothing in the decoder
mentions these predicates; `zccpMsgDecode_ok_iff` says that they agree, in both directions and
on every list of frames.

The decoder does not look behind the last field it reads, so `WellFormed` leaves a frame's
trailing bytes open. Frames behind the first are the content of the three types that have one
and are ignored in all others.
-/

set_option autoImplicit false

namespace Zccp

open Lib Lib.Reader

/-! ## The productions -/

/-- `string = number-1 *OCTET`, as the C string it is read into. -/
def IsString (s : CStr) (bs : List UInt8) : Prop :=
  ∃ text, text.length < 256 ^ 1 ∧ bs = beBytes 1 text.length ++ text ∧ s = CStr.ofBytes text

/-- `longstr = number-4 *OCTET` -/
def IsLongstr (s : CStr) (bs : List UInt8) : Prop :=
  ∃ text, text.length < 256 ^ 4 ∧ bs = beBytes 4 text.length ++ text ∧ s = CStr.ofBytes text

/-- `*(dict-name dict-value)` -/
inductive IsPairs : List (CStr × CStr) → List UInt8 → Prop
  | nil : IsPairs [] []
  | cons {key value : CStr} {pairs : List (CStr × CStr)} {kb vb pb : List UInt8} :
      IsString key kb → IsLongstr value vb → IsPairs pairs pb →
      IsPairs ((key, value) :: pairs) (kb ++ (vb ++ pb))

/-- `dictionary = dict-count *(dict-name dict-value)` -/
def IsDictionary (pairs : List (CStr × CStr)) (bs : List UInt8) : Prop :=
  ∃ pb, pairs.length < 256 ^ 4 ∧ bs = beBytes 4 pairs.length ++ pb ∧ IsPairs pairs pb

/-- The dictionary that a list of pairs is read into: a repeated key keeps its first value. -/
def Zhash.ofPairs (pairs : List (CStr × CStr)) : Zhash :=
  pairs.foldl (fun h p => h.insert p.1 p.2) Zhash.empty

theorem foldl_insert_lookup (pairs : List (CStr × CStr)) (h : Zhash) (key : CStr) :
    (pairs.foldl (fun h p => h.insert p.1 p.2) h).lookup key =
      (h.lookup key).or ((pairs.find? (·.1 = key)).map Prod.snd) := by
  induction pairs generalizing h with
  | nil => simp
  | cons p pairs ih =>
    rw [List.foldl_cons, ih, Zhash.lookup_insert, Option.or_assoc, List.find?_cons]
    by_cases hk : p.1 = key <;> simp [hk]

/-- **A key is mapped to the value of its first occurrence.** -/
theorem Zhash.lookup_ofPairs (pairs : List (CStr × CStr)) (key : CStr) :
    (Zhash.ofPairs pairs).lookup key = (pairs.find? (·.1 = key)).map Prod.snd := by
  rw [Zhash.ofPairs, foldl_insert_lookup]
  rfl

/-- The fields of each message type, in the order of `zccp_msg.xml`, with the message they are
read into. -/
def IsFields (rest : List Frame) : MsgId → ZccpMsg → List UInt8 → Prop
  | .hello, m, bs => ∃ s pairs sb db, bs = sb ++ db ∧ IsString s sb ∧ IsDictionary pairs db ∧
      m = { zccpMsgNew .hello with identifier := some s, headers := some (.ofPairs pairs) }
  | .helloOk, m, bs => ∃ pairs, IsDictionary pairs bs ∧
      m = { zccpMsgNew .helloOk with headers := some (.ofPairs pairs) }
  | .subscribe, m, bs => ∃ s pairs sb db, bs = sb ++ db ∧ IsString s sb ∧ IsDictionary pairs db ∧
      m = { zccpMsgNew .subscribe with expression := some s, headers := some (.ofPairs pairs) }
  | .publish, m, bs => ∃ s pairs sb db, bs = sb ++ db ∧ IsString s sb ∧ IsDictionary pairs db ∧
      m = { zccpMsgNew .publish with
        address := some s, headers := some (.ofPairs pairs), content := some rest }
  | .direct, m, bs => ∃ s pairs sb db, bs = sb ++ db ∧ IsString s sb ∧ IsDictionary pairs db ∧
      m = { zccpMsgNew .direct with
        address := some s, headers := some (.ofPairs pairs), content := some rest }
  | .deliver, m, bs => ∃ s a pairs sb ab db, bs = sb ++ (ab ++ db) ∧ IsString s sb ∧
      IsString a ab ∧ IsDictionary pairs db ∧
      m = { zccpMsgNew .deliver with
        sender := some s, address := some a, headers := some (.ofPairs pairs),
        content := some rest }
  | .goodbyeOk, m, bs => ∃ pairs, IsDictionary pairs bs ∧
      m = { zccpMsgNew .goodbyeOk with headers := some (.ofPairs pairs) }
  | id, m, bs => m = zccpMsgNew id ∧ bs = []

/-- A well-formed multipart message: the signature, a message id from 1 to 12 and a complete
encoding of that id's fields at the start of the first frame. -/
def WellFormed (msg : List Frame) : Prop :=
  ∃ rest id m fields trailing, id ≠ .unset ∧ IsFields rest id m fields ∧
    msg = ([0xAA, 0xAA, UInt8.ofNat id.code] ++ (fields ++ trailing)) :: rest

/-! ## Each production is read by its macro -/

/-- Strings and long strings differ by the width of the length only. -/
theorem reads_sized (k : Nat) :
    Reads (do let size ← number k; let host ← octets size; pure (CStr.ofBytes host))
      fun s bs => ∃ text, text.length < 256 ^ k ∧ bs = beBytes k text.length ++ text ∧
        s = CStr.ofBytes text :=
  ((reads_number k).bind fun size => (reads_octets size).bindPure CStr.ofBytes).congr
    fun s bs => by
      constructor
      · rintro ⟨size, nb, tb, rfl, ⟨rfl, rfl⟩, text, rfl, rfl, hl⟩
        refine ⟨text, ?_, ?_, rfl⟩
        · rw [hl]; exact bigEndian_lt nb
        · rw [hl, beBytes_bigEndian]
      · rintro ⟨text, hlt, rfl, rfl⟩
        refine ⟨text.length, _, _, rfl, ⟨(bigEndian_beBytes_of_lt hlt).symm, by simp⟩,
          text, rfl, rfl, rfl⟩

theorem reads_getString : Reads getString IsString := reads_sized 1

theorem reads_getLongstr : Reads getLongstr IsLongstr := reads_sized 4

/-- The dictionary loop, by induction on the count that was read. -/
theorem reads_getPairs (n : Nat) (h : Zhash) :
    Reads (getPairs n h) fun h' bs => ∃ pairs, pairs.length = n ∧ IsPairs pairs bs ∧
      h' = pairs.foldl (fun h p => h.insert p.1 p.2) h := by
  induction n generalizing h with
  | zero =>
    refine (reads_pure h).congr fun h' bs => ?_
    constructor
    · rintro ⟨rfl, rfl⟩; exact ⟨[], rfl, .nil, rfl⟩
    · rintro ⟨pairs, hl, hp, rfl⟩
      rw [List.length_eq_zero_iff] at hl
      subst hl
      cases hp
      exact ⟨rfl, rfl⟩
  | succ n ih =>
    refine (reads_getString.bind fun key => reads_getLongstr.bind fun value =>
      ih (h.insert key value)).congr fun h' bs => ?_
    constructor
    · rintro ⟨key, kb, _, rfl, hk, value, vb, pb, rfl, hv, pairs, rfl, hp, rfl⟩
      exact ⟨(key, value) :: pairs, rfl, .cons hk hv hp, rfl⟩
    · rintro ⟨pairs, hl, hp, rfl⟩
      cases hp with
      | nil => simp at hl
      | cons hk hv hp =>
        exact ⟨_, _, _, rfl, hk, _, _, _, rfl, hv, _, by simpa using hl, hp, rfl⟩

theorem reads_getDictionary :
    Reads getDictionary fun h bs => ∃ pairs, IsDictionary pairs bs ∧ h = .ofPairs pairs :=
  ((reads_number 4).bind fun n => reads_getPairs n Zhash.empty).congr fun h bs => by
    constructor
    · rintro ⟨n, nb, pb, rfl, ⟨rfl, hl⟩, pairs, hn, hp, rfl⟩
      refine ⟨pairs, ⟨pb, ?_, ?_, hp⟩, rfl⟩
      · rw [hn, ← hl]; exact bigEndian_lt nb
      · rw [hn, ← hl, beBytes_bigEndian]
    · rintro ⟨pairs, ⟨pb, hlt, rfl, hp⟩, rfl⟩
      exact ⟨pairs.length, _, pb, rfl, ⟨(bigEndian_beBytes_of_lt hlt).symm, by simp⟩,
        pairs, rfl, hp, rfl⟩

theorem reads_headersOnly (mk : Zhash → ZccpMsg) :
    Reads (do let headers ← getDictionary; pure (mk headers)) fun m bs =>
      ∃ pairs, IsDictionary pairs bs ∧ m = mk (.ofPairs pairs) :=
  (reads_getDictionary.bindPure mk).congr fun m bs => by
    constructor
    · rintro ⟨_, rfl, pairs, hd, rfl⟩; exact ⟨pairs, hd, rfl⟩
    · rintro ⟨pairs, hd, rfl⟩; exact ⟨_, rfl, pairs, hd, rfl⟩

theorem reads_stringHeaders (mk : CStr → Zhash → ZccpMsg) :
    Reads (do let s ← getString; let headers ← getDictionary; pure (mk s headers)) fun m bs =>
      ∃ s pairs sb db, bs = sb ++ db ∧ IsString s sb ∧ IsDictionary pairs db ∧
        m = mk s (.ofPairs pairs) :=
  (reads_getString.bind fun s => reads_headersOnly (mk s)).congr fun m bs => by
    constructor
    · rintro ⟨s, sb, db, rfl, hs, pairs, hd, rfl⟩; exact ⟨s, pairs, sb, db, rfl, hs, hd, rfl⟩
    · rintro ⟨s, pairs, sb, db, rfl, hs, hd, rfl⟩; exact ⟨s, sb, db, rfl, hs, pairs, hd, rfl⟩

/-- **Every case of the switch reads its own fields.** -/
theorem reads_getFields (rest : List Frame) (id : MsgId) :
    Reads (getFields rest id) (IsFields rest id) := by
  cases id with
  | hello => exact reads_stringHeaders fun s h =>
      { zccpMsgNew .hello with identifier := some s, headers := some h }
  | subscribe => exact reads_stringHeaders fun s h =>
      { zccpMsgNew .subscribe with expression := some s, headers := some h }
  | publish => exact reads_stringHeaders fun s h =>
      { zccpMsgNew .publish with address := some s, headers := some h, content := some rest }
  | direct => exact reads_stringHeaders fun s h =>
      { zccpMsgNew .direct with address := some s, headers := some h, content := some rest }
  | helloOk => exact reads_headersOnly fun h => { zccpMsgNew .helloOk with headers := some h }
  | goodbyeOk => exact reads_headersOnly fun h => { zccpMsgNew .goodbyeOk with headers := some h }
  | deliver =>
    refine (reads_getString.bind fun s => reads_stringHeaders fun a h =>
      { zccpMsgNew .deliver with
        sender := some s, address := some a, headers := some h,
        content := some rest }).congr fun m bs => ?_
    constructor
    · rintro ⟨s, sb, _, rfl, hs, a, pairs, ab, db, rfl, ha, hd, rfl⟩
      exact ⟨s, a, pairs, sb, ab, db, rfl, hs, ha, hd, rfl⟩
    · rintro ⟨s, a, pairs, sb, ab, db, rfl, hs, ha, hd, rfl⟩
      exact ⟨s, sb, _, rfl, hs, a, pairs, ab, db, rfl, ha, hd, rfl⟩
  | _ => exact reads_pure _

/-! ## The whole decoder -/

/-- A `Reads` fact at the start of what the needle has not yet passed. -/
theorem reads_at {α : Type} {p : Reader α} {fmt : α → List UInt8 → Prop} (h : Reads p fmt)
    (pre tail : List UInt8) {n : Nat} (hn : pre.length = n) :
    (∃ a bs rest, fmt a bs ∧ tail = bs ++ rest ∧
      p (pre ++ tail) n = .ok (a, n + bs.length)) ∨ p (pre ++ tail) n = .error .malformed := by
  subst hn
  simpa using h.sound pre tail

/-- The decoder on a frame that is long enough to have a signature and an id. -/
theorem zccpMsgDecode_cons (a b c : UInt8) (tail : List UInt8) (rest : List Frame) :
    zccpMsgDecode ((a :: b :: c :: tail) :: rest) =
      if bigEndian [a, b] ≠ 0xAAAA then .error .empty
      else
        match MsgId.ofCode c.toNat with
        | none => .error (.malformed c.toNat)
        | some id =>
          match getFields rest id (a :: b :: c :: tail) 3 with
          | .error e => .error (.ofRead c.toNat e)
          | .ok (self, _) => .ok self := by
  have h2 : number 2 (a :: b :: c :: tail) 0 = .ok (bigEndian [a, b], 2) := by
    have := (reads_number 2).complete [] [a, b] (c :: tail)
      (a := bigEndian [a, b]) ⟨rfl, rfl⟩
    simpa using this
  have h1 : number 1 (a :: b :: c :: tail) 2 = .ok (c.toNat, 3) := by
    have := (reads_number 1).complete [a, b] [c] tail
      (a := bigEndian [c]) ⟨rfl, rfl⟩
    simpa [bigEndian] using this
  simp only [zccpMsgDecode, h2, h1]
  rfl

theorem bigEndian_pair_eq {a b : UInt8} (h : bigEndian [a, b] = 0xAAAA) : a = 0xAA ∧ b = 0xAA := by
  have ha := a.toNat_lt
  have hb := b.toNat_lt
  simp only [bigEndian, List.foldl_cons, List.foldl_nil] at h
  refine ⟨UInt8.toNat_inj.mp ?_, UInt8.toNat_inj.mp ?_⟩
  · show a.toNat = 170; omega
  · show b.toNat = 170; omega

/-- **What the decoder can answer**, on any list of frames. Either it is a well-formed message
and the answer is the message its fields say, or the answer is one of the two error labels. -/
theorem zccpMsgDecode_cases (msg : List Frame) :
    (∃ rest id m fields trailing, id ≠ .unset ∧ IsFields rest id m fields ∧
      msg = ([0xAA, 0xAA, UInt8.ofNat id.code] ++ (fields ++ trailing)) :: rest ∧
      zccpMsgDecode msg = .ok m) ∨
    zccpMsgDecode msg = .error .empty ∨ ∃ id, zccpMsgDecode msg = .error (.malformed id) := by
  cases msg with
  | nil => exact Or.inr (Or.inl rfl)
  | cons frame rest =>
    match frame with
    | [] => exact Or.inr (Or.inr ⟨0, rfl⟩)
    | [a] => exact Or.inr (Or.inr ⟨0, rfl⟩)
    | [a, b] =>
      -- a signature and nothing else: the id cannot be read
      have h2 : number 2 [a, b] 0 = .ok (bigEndian [a, b], 2) := rfl
      have h1 : number 1 [a, b] 2 = .error .malformed := rfl
      by_cases hs : bigEndian [a, b] = 0xAAAA
      · exact Or.inr (Or.inr ⟨0, by simp [zccpMsgDecode, h2, h1, hs, DecodeError.ofRead]⟩)
      · exact Or.inr (Or.inl (by simp [zccpMsgDecode, h2, hs]))
    | a :: b :: c :: tail =>
      rw [zccpMsgDecode_cons]
      by_cases hs : bigEndian [a, b] = 0xAAAA
      · rw [if_neg (by simpa using hs)]
        obtain ⟨rfl, rfl⟩ := bigEndian_pair_eq hs
        cases hid : MsgId.ofCode c.toNat with
        | none => exact Or.inr (Or.inr ⟨_, rfl⟩)
        | some id =>
          obtain ⟨hne, hc⟩ := MsgId.ofCode_eq_some_iff.mp hid
          have hc' : c = UInt8.ofNat id.code := by
            rw [← hc, UInt8.ofNat_toNat]
          rcases reads_at (reads_getFields rest id) [0xAA, 0xAA, c] tail (n := 3) rfl with
            ⟨m, fields, trailing, hf, rfl, hr⟩ | hm
          · refine Or.inl ⟨rest, id, m, fields, trailing, hne, hf, by rw [hc']; rfl, ?_⟩
            simp only [List.cons_append, List.nil_append] at hr
            simp only [hr]
          · simp only [List.cons_append, List.nil_append] at hm
            exact Or.inr (Or.inr ⟨c.toNat, by simp only [hm, DecodeError.ofRead]⟩)
      · rw [if_pos (by simpa using hs)]
        exact Or.inr (Or.inl rfl)

theorem zccpMsgDecode_of_isFields {rest : List Frame} {id : MsgId} {m : ZccpMsg}
    {fields : List UInt8} (trailing : List UInt8) (hid : id ≠ .unset)
    (hf : IsFields rest id m fields) :
    zccpMsgDecode (([0xAA, 0xAA, UInt8.ofNat id.code] ++ (fields ++ trailing)) :: rest) =
      .ok m := by
  have hr := (reads_getFields rest id).complete [0xAA, 0xAA, UInt8.ofNat id.code] fields
    trailing hf
  simp only [List.cons_append, List.nil_append] at hr ⊢
  rw [zccpMsgDecode_cons, if_neg (by decide), MsgId.ofCode_ofNat hid]
  have h3 : ([0xAA, 0xAA, UInt8.ofNat id.code] : List UInt8).length = 3 := rfl
  rw [h3] at hr
  simp only [hr]

/-- **The decoder accepts exactly the format.** -/
theorem zccpMsgDecode_ok_iff (msg : List Frame) :
    (∃ m, zccpMsgDecode msg = .ok m) ↔ WellFormed msg := by
  constructor
  · rintro ⟨m, hm⟩
    rcases zccpMsgDecode_cases msg with ⟨rest, id, m', fields, trailing, hid, hf, hmsg, -⟩ | h | ⟨_, h⟩
    · exact ⟨rest, id, m', fields, trailing, hid, hf, hmsg⟩
    · rw [h] at hm; cases hm
    · rw [h] at hm; cases hm
  · rintro ⟨rest, id, m, fields, trailing, hid, hf, rfl⟩
    exact ⟨m, zccpMsgDecode_of_isFields trailing hid hf⟩

/-- **No read leaves the frame**, whatever the frame holds. -/
theorem zccpMsgDecode_ne_wild (msg : List Frame) : zccpMsgDecode msg ≠ .error .wild := by
  rcases zccpMsgDecode_cases msg with ⟨_, _, _, _, _, _, _, _, h⟩ | h | ⟨_, h⟩ <;> rw [h] <;> simp

/-! ## What a decoded message looks like -/

/-- The fields that a decoded message has, by type: exactly those of its type are set. -/
def ZccpMsg.Shape (m : ZccpMsg) : Prop :=
  m.routingId = none ∧
  match m.id with
  | .unset => False
  | .hello => ∃ s h, m = { zccpMsgNew .hello with identifier := some s, headers := some h }
  | .helloOk => ∃ h, m = { zccpMsgNew .helloOk with headers := some h }
  | .subscribe => ∃ s h, m = { zccpMsgNew .subscribe with expression := some s, headers := some h }
  | .publish => ∃ a h c, m = { zccpMsgNew .publish with
      address := some a, headers := some h, content := some c }
  | .direct => ∃ a h c, m = { zccpMsgNew .direct with
      address := some a, headers := some h, content := some c }
  | .deliver => ∃ s a h c, m = { zccpMsgNew .deliver with
      sender := some s, address := some a, headers := some h, content := some c }
  | .goodbyeOk => ∃ h, m = { zccpMsgNew .goodbyeOk with headers := some h }
  | id => m = zccpMsgNew id

theorem IsFields.shape {rest : List Frame} {id : MsgId} {m : ZccpMsg} {bs : List UInt8}
    (hid : id ≠ .unset) (h : IsFields rest id m bs) : m.Shape := by
  cases id with
  | unset => exact absurd rfl hid
  | hello | subscribe => obtain ⟨s, ps, _, _, _, _, _, rfl⟩ := h; exact ⟨rfl, s, _, rfl⟩
  | publish | direct => obtain ⟨s, ps, _, _, _, _, _, rfl⟩ := h; exact ⟨rfl, s, _, rest, rfl⟩
  | deliver =>
    obtain ⟨s, a, ps, _, _, _, _, _, _, _, rfl⟩ := h; exact ⟨rfl, s, a, _, rest, rfl⟩
  | helloOk | goodbyeOk => obtain ⟨ps, _, rfl⟩ := h; exact ⟨rfl, _, rfl⟩
  | _ => obtain ⟨rfl, -⟩ := h; exact ⟨rfl, rfl⟩

theorem IsFields.id_eq {rest : List Frame} {id : MsgId} {m : ZccpMsg} {bs : List UInt8}
    (h : IsFields rest id m bs) : m.id = id := by
  cases id with
  | hello | subscribe | publish | direct => obtain ⟨_, _, _, _, _, _, _, rfl⟩ := h; rfl
  | deliver => obtain ⟨_, _, _, _, _, _, _, _, _, _, rfl⟩ := h; rfl
  | helloOk | goodbyeOk => obtain ⟨_, _, rfl⟩ := h; rfl
  | _ => obtain ⟨rfl, -⟩ := h; rfl

/-- **Exactly the fields of its type are set in a decoded message**, and its content, if it has
one, is what stands behind the first frame. -/
theorem zccpMsgDecode_shape {msg : List Frame} {m : ZccpMsg} (h : zccpMsgDecode msg = .ok m) :
    m.Shape := by
  rcases zccpMsgDecode_cases msg with ⟨_, _, m', _, _, hid, hf, _, h'⟩ | h' | ⟨_, h'⟩ <;>
    rw [h'] at h
  · cases h
    exact hf.shape hid
  · cases h
  · cases h

end Zccp
