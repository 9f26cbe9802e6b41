import Zccp.Msg.Encode
import Zccp.Msg.Format

/-!
# `Zccp/Msg/RoundTrip.lean` — what the other end receives

`ZccpMsg.received` is the message an encoded message is decoded into: the fields of its type, a
`NULL` string as the empty string, `NULL` headers as the empty dictionary, a `NULL` content as
one empty frame, and nothing else. It is what a stale field of another type is *not* in.

The round trip `zccpMsgDecode_wire` needs the lengths to fit their counts (`Fits`): a one-byte
length cannot carry more than 255, and `PUT_STRING` stores the low byte of any length without
a check.
-/

set_option autoImplicit false

namespace Zccp

open Lib

/-- A short string fits its one-byte length. -/
def CStr.Short (s : CStr) : Prop := s.strlen < 256

instance (s : CStr) : Decidable s.Short := inferInstanceAs (Decidable (_ < _))

/-- A `NULL` string is sent as an empty one, and an empty one fits. -/
def ShortField (s : Option CStr) : Prop := ∀ t, s = some t → t.Short

/-- Every key fits a one-byte length, every value and the number of entries a four-byte one. -/
def FitsHeaders (h : Option Zhash) : Prop :=
  ∀ d, h = some d → d.items.length < 256 ^ 4 ∧
    ∀ p ∈ d.items, p.1.Short ∧ p.2.strlen < 256 ^ 4

theorem shortField_some {s : CStr} (h : s.Short) : ShortField (some s) := by
  intro t ht
  exact Option.some.inj ht ▸ h

theorem fitsHeaders_none : FitsHeaders none := by
  intro d hd
  cases hd

/-- The fields that are sent fit the lengths they are sent with. -/
def ZccpMsg.Fits (m : ZccpMsg) : Prop :=
  match m.id with
  | .hello => ShortField m.identifier ∧ FitsHeaders m.headers
  | .subscribe => ShortField m.expression ∧ FitsHeaders m.headers
  | .publish | .direct => ShortField m.address ∧ FitsHeaders m.headers
  | .deliver => ShortField m.sender ∧ ShortField m.address ∧ FitsHeaders m.headers
  | .helloOk | .goodbyeOk => FitsHeaders m.headers
  | _ => True

/-- The message as it is read back. -/
def ZccpMsg.received (m : ZccpMsg) : ZccpMsg :=
  let string (s : Option CStr) : Option CStr := some (s.getD .empty)
  let headers : Option Zhash := some (m.headers.getD .empty)
  let content : Option (List Frame) := some (contentFrames m)
  match m.id with
  | .hello => { zccpMsgNew .hello with identifier := string m.identifier, headers := headers }
  | .helloOk => { zccpMsgNew .helloOk with headers := headers }
  | .subscribe =>
    { zccpMsgNew .subscribe with expression := string m.expression, headers := headers }
  | .publish => { zccpMsgNew .publish with
      address := string m.address, headers := headers, content := content }
  | .direct => { zccpMsgNew .direct with
      address := string m.address, headers := headers, content := content }
  | .deliver => { zccpMsgNew .deliver with
      sender := string m.sender, address := string m.address, headers := headers,
      content := content }
  | .goodbyeOk => { zccpMsgNew .goodbyeOk with headers := headers }
  | id => zccpMsgNew id

theorem ZccpMsg.received_id (m : ZccpMsg) : m.received.id = m.id := by
  unfold ZccpMsg.received
  cases h : m.id <;> rfl

/-! ## Each field is an encoding of what it is read into -/

theorem isString_putStringField {s : Option CStr} (h : ShortField s) :
    IsString (s.getD .empty) (putStringField s).flatten := by
  cases s with
  | none => exact ⟨[], by simp, by simp [putStringField], rfl⟩
  | some t =>
    refine ⟨t.bytes, by simpa [CStr.Short, CStr.strlen] using h t rfl, ?_, by simp⟩
    simp [putStringField, putString, CStr.strlen]

/-- What the walk over the entries writes is the production for those entries. -/
theorem isPairs_items (items : List (CStr × CStr))
    (h : ∀ p ∈ items, p.1.Short ∧ p.2.strlen < 256 ^ 4) :
    IsPairs items (items.flatMap fun p => putString p.1 ++ putLongstr p.2).flatten := by
  induction items with
  | nil => exact .nil
  | cons p items ih =>
    obtain ⟨hk, hv⟩ := h p List.mem_cons_self
    have ht := ih fun q hq => h q (List.mem_cons_of_mem _ hq)
    have hks : IsString p.1 (putString p.1).flatten :=
      ⟨p.1.bytes, by simpa [CStr.Short, CStr.strlen] using hk,
        by simp [putString, CStr.strlen], by simp⟩
    have hvs : IsLongstr p.2 (putLongstr p.2).flatten :=
      ⟨p.2.bytes, by simpa [CStr.strlen] using hv, by simp [putLongstr, CStr.strlen], by simp⟩
    have := IsPairs.cons hks hvs ht
    simpa only [List.flatMap_cons, List.flatten_append, List.append_assoc] using this

theorem isDictionary_putHeaders {h : Option Zhash} (hf : FitsHeaders h) :
    IsDictionary (h.getD .empty).items (putHeaders h).flatten := by
  cases h with
  | none => exact ⟨[], by simp [Zhash.empty], by simp [putHeaders, Zhash.empty], .nil⟩
  | some d =>
    obtain ⟨hl, hp⟩ := hf d rfl
    exact ⟨_, hl, by simp [putHeaders], isPairs_items d.items hp⟩

/-- Inserting pairs with new and different keys appends them. -/
theorem foldl_insert_items (pairs : List (CStr × CStr)) (h : Zhash)
    (hn : ((h.items ++ pairs).map Prod.fst).Nodup) :
    (pairs.foldl (fun h p => h.insert p.1 p.2) h).items = h.items ++ pairs := by
  induction pairs generalizing h with
  | nil => simp
  | cons p pairs ih =>
    have hnew : p.1 ∉ h.items.map Prod.fst := by
      rw [List.map_append, List.nodup_append] at hn
      intro hm
      exact hn.2.2 _ hm _ (by simp) rfl
    have hins : (h.insert p.1 p.2).items = h.items ++ [p] := by
      simp only [Zhash.insert, dif_neg hnew]
    rw [List.foldl_cons, ih (h.insert p.1 p.2) (by rw [hins]; simpa using hn), hins]
    simp

/-- Reading back the entries of a dictionary gives the dictionary. -/
theorem Zhash.ofPairs_items (h : Zhash) : Zhash.ofPairs h.items = h := by
  have hi : (Zhash.ofPairs h.items).items = h.items := by
    have := foldl_insert_items h.items Zhash.empty (by simpa [Zhash.empty] using h.nodup)
    simpa [Zhash.ofPairs, Zhash.empty] using this
  cases h
  cases hz : Zhash.ofPairs _
  rw [hz] at hi
  simp only at hi
  subst hi
  rfl

/-- **The wire round trip**: a message whose lengths fit is decoded into `received`. -/
theorem zccpMsgDecode_wire {m : ZccpMsg} (hid : m.id ≠ .unset) (hf : m.Fits) :
    zccpMsgDecode (wire m) = .ok m.received := by
  have hfields : IsFields (contentFrames m) m.id m.received (putFields m).flatten := by
    unfold ZccpMsg.Fits at hf
    cases hid' : m.id with
    | unset => exact absurd hid' hid
    | hello | subscribe | publish | direct =>
      simp only [hid'] at hf
      simp only [ZccpMsg.received, putFields, hid', List.flatten_append]
      refine ⟨_, _, _, _, rfl, isString_putStringField hf.1, isDictionary_putHeaders hf.2, ?_⟩
      simp [Zhash.ofPairs_items]
    | deliver =>
      simp only [hid'] at hf
      simp only [ZccpMsg.received, putFields, hid', List.flatten_append]
      refine ⟨_, _, _, _, _, _, rfl, isString_putStringField hf.1,
        isString_putStringField hf.2.1, isDictionary_putHeaders hf.2.2, ?_⟩
      simp [Zhash.ofPairs_items]
    | helloOk | goodbyeOk =>
      simp only [hid'] at hf
      simp only [ZccpMsg.received, putFields, hid']
      refine ⟨_, isDictionary_putHeaders hf, ?_⟩
      simp [Zhash.ofPairs_items]
    | _ => exact ⟨by simp [ZccpMsg.received, hid'], by simp [putFields, hid']⟩
  have hw : wire m =
      ([0xAA, 0xAA, UInt8.ofNat m.id.code] ++ ((putFields m).flatten ++ [])) :: contentFrames m := by
    simp [wire, serialise, beBytes]
  rw [hw]
  exact zccpMsgDecode_of_isFields [] hid hfields

/-- The byte that says what type a message is of: the third of its first frame. It is there whether
or not the rest can be read. -/
def wireCode (frames : List Frame) : Option UInt8 := frames.head?.bind (·[2]?)

theorem wireCode_wire (m : ZccpMsg) : wireCode (wire m) = some (UInt8.ofNat m.id.code) := by
  simp [wireCode, wire, serialise, beBytes]

theorem wireCode_of_decode {frames : List Frame} {m : ZccpMsg} (h : zccpMsgDecode frames = .ok m) :
    wireCode frames = some (UInt8.ofNat m.id.code) := by
  rcases zccpMsgDecode_cases frames with ⟨rest, id, m₁, fields, trailing, -, hf, hmsg, h'⟩ | h' |
    ⟨_, h'⟩ <;> rw [h'] at h
  · obtain rfl := Except.ok.inj h
    rw [hmsg, hf.id_eq]
    rfl
  · cases h
  · cases h

/-- Whether frames are those of a message of type `id`, by that byte. -/
def hasCode (id : MsgId) (frames : List Frame) : Bool :=
  wireCode frames = some (UInt8.ofNat id.code)

theorem hasCode_wire (id : MsgId) (m : ZccpMsg) : hasCode id (wire m) = decide (m.id = id) := by
  simp only [hasCode, wireCode_wire, Option.some.injEq]
  exact decide_eq_decide.mpr ⟨MsgId.ofNat_code_inj, fun h => by rw [h]⟩

theorem hasCode_of_decode {frames : List Frame} {m : ZccpMsg} (id : MsgId)
    (h : zccpMsgDecode frames = .ok m) : hasCode id frames = decide (m.id = id) := by
  simp only [hasCode, wireCode_of_decode h, Option.some.injEq]
  exact decide_eq_decide.mpr ⟨MsgId.ofNat_code_inj, fun h => by rw [h]⟩

/-- Whatever the lengths, a message is never taken for one of another type. -/
theorem zccpMsgDecode_wire_id {m m' : ZccpMsg} (h : zccpMsgDecode (wire m) = .ok m') :
    m'.id = m.id := by
  have hcode := hasCode_of_decode m.id h
  rw [hasCode_wire, decide_eq_decide] at hcode
  exact hcode.mp rfl

/-! ## What is decoded can be encoded again -/

theorem ofBytes_strlen_le (bs : List UInt8) : (CStr.ofBytes bs).strlen ≤ bs.length :=
  (List.takeWhile_sublist _).length_le

theorem IsString.short {s : CStr} {bs : List UInt8} (h : IsString s bs) : s.Short := by
  obtain ⟨text, hlt, -, rfl⟩ := h
  exact Nat.lt_of_le_of_lt (ofBytes_strlen_le text) hlt

theorem IsLongstr.strlen_lt {s : CStr} {bs : List UInt8} (h : IsLongstr s bs) :
    s.strlen < 256 ^ 4 := by
  obtain ⟨text, hlt, -, rfl⟩ := h
  exact Nat.lt_of_le_of_lt (ofBytes_strlen_le text) hlt

theorem IsPairs.fits {pairs : List (CStr × CStr)} {bs : List UInt8} (h : IsPairs pairs bs) :
    ∀ p ∈ pairs, p.1.Short ∧ p.2.strlen < 256 ^ 4 := by
  induction h with
  | nil => simp
  | cons hk hv _ ih =>
    intro p hp
    rcases List.mem_cons.mp hp with rfl | hp
    · exact ⟨hk.short, hv.strlen_lt⟩
    · exact ih p hp

theorem foldl_insert_sublist (pairs : List (CStr × CStr)) (h : Zhash) :
    (pairs.foldl (fun h p => h.insert p.1 p.2) h).items.Sublist (h.items ++ pairs) := by
  induction pairs generalizing h with
  | nil => simp
  | cons p pairs ih =>
    refine (ih (h.insert p.1 p.2)).trans ?_
    rw [List.append_cons]
    refine List.Sublist.append_right ?_ pairs
    unfold Zhash.insert
    split
    · exact List.sublist_append_left _ _
    · exact List.Sublist.refl _

theorem IsDictionary.fits {pairs : List (CStr × CStr)} {bs : List UInt8}
    (h : IsDictionary pairs bs) : FitsHeaders (some (.ofPairs pairs)) := by
  obtain ⟨pb, hlt, -, hpairs⟩ := h
  intro d hd
  obtain rfl := Option.some.inj hd
  have hsub : (Zhash.ofPairs pairs).items.Sublist pairs := foldl_insert_sublist pairs Zhash.empty
  exact ⟨Nat.lt_of_le_of_lt hsub.length_le hlt, fun p hp => hpairs.fits p (hsub.subset hp)⟩

/-- **A decoded message fits**: forwarding what was received never truncates a length. -/
theorem zccpMsgDecode_fits {frames : List Frame} {m : ZccpMsg}
    (h : zccpMsgDecode frames = .ok m) : m.Fits := by
  rcases zccpMsgDecode_cases frames with ⟨rest, id, m', fields, _, _, hf, -, h'⟩ | h' | ⟨_, h'⟩ <;>
    rw [h'] at h
  · obtain rfl := Except.ok.inj h
    cases id with
    | hello | subscribe | publish | direct =>
      obtain ⟨s, pairs, sb, db, -, hs, hd, rfl⟩ := hf
      exact ⟨shortField_some hs.short, hd.fits⟩
    | deliver =>
      obtain ⟨s, a, pairs, sb, ab, db, -, hs, ha, hd, rfl⟩ := hf
      exact ⟨shortField_some hs.short, shortField_some ha.short, hd.fits⟩
    | helloOk | goodbyeOk =>
      obtain ⟨pairs, hd, rfl⟩ := hf
      exact hd.fits
    | _ =>
      obtain ⟨rfl, -⟩ := hf
      trivial
  · cases h
  · cases h

/-! ## Messages as the protocol has them -/

/-- A HELLO. -/
def ZccpMsg.hello (identifier : CStr) : ZccpMsg :=
  { zccpMsgNew .hello with identifier := some identifier }

/-- A SUBSCRIBE. -/
def ZccpMsg.subscribe (expression : CStr) : ZccpMsg :=
  { zccpMsgNew .subscribe with expression := some expression }

/-- A PUBLISH. -/
def ZccpMsg.publish (address : CStr) (headers : Option Zhash) (content : List Frame) : ZccpMsg :=
  { zccpMsgNew .publish with
    address := some address, headers := headers, content := some content }

theorem fits_hello {identifier : CStr} (h : identifier.Short) : (ZccpMsg.hello identifier).Fits :=
  ⟨shortField_some h, fitsHeaders_none⟩

theorem fits_subscribe {expression : CStr} (h : expression.Short) :
    (ZccpMsg.subscribe expression).Fits :=
  ⟨shortField_some h, fitsHeaders_none⟩

theorem fits_publish {address : CStr} {headers : Option Zhash} {content : List Frame}
    (h : address.Short) (hh : FitsHeaders headers) :
    (ZccpMsg.publish address headers content).Fits :=
  ⟨shortField_some h, hh⟩

end Zccp
