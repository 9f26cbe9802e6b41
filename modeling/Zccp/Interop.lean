import Mathlib.Data.Set.Card
import Zccp.Codecs
import Zccp.Go.Unmarshal
import Zccp.Java.Recv
import Zccp.Msg.Dup

/-!
# `Zccp/Interop.lean` — who understands whom

Three programs speak, as long as what they send gets across to C at all: C itself, the Go package
with the broker's ids, and the Java class. What they send has one shape (`Spoken.canonical`): a
complete frame with nothing behind the fields, no NUL, and no key twice. So it does not matter who
speaks, and `interop` says of each listener what it needs to hear.

Each pair of a speaker and a listener could be compared by itself, and would need nine proofs. With
`CanonicalFrames` between them there are three for the speakers and three for the listeners; and the
listeners' conditions, which are about bytes in a frame (`Go.Unambiguous`, `Java.Legible`), turn into
conditions on what is said.
-/

set_option autoImplicit false

namespace Zccp

open Lib

/-- What a program sends, with what it says by it. The premises are what keeps a speaker within the
format: C and Go write a length into one byte without looking whether it fits. -/
inductive Spoken : Saying → List Frame → Prop
  /-- C, in whatever order it walks its headers; a content that is `NULL` is sent as an empty frame. -/
  | c {m : ZccpMsg} {router : Bool} {sent : Sent} (hid : m.id ≠ .unset) (hfits : m.Fits)
      (h : m.Sends router sent) : Spoken m.received.saying sent.frames
  | go {t : Go.Transit} {routingId : Frame} {frames : List Frame} (ht : t.ForC)
      (hcount : t.headers.entries.length < 2 ^ 32)
      (h : t.send Go.zccpMsg .other routingId = some frames) : Spoken t.sayingFilled frames
  | java {msg : Java.ZccpMsg} {frames : List Frame} (hmsg : msg.ForC)
      (h : msg.send = some frames) : Spoken msg.saying frames

/-- Texts that Java can have: UTF-8, and no more of them, and none longer, than an `int` can say. -/
structure Saying.ForJava (said : Saying) : Prop where
  texts : ∀ text ∈ said.texts, IsUtf8 text
  headers : ∀ key value, said.headers key = some value →
    IsUtf8 key ∧ IsUtf8 value ∧ value.length < 2 ^ 31
  count : {key | (said.headers key).isSome}.ncard < 2 ^ 31

/-! ## The frames of those who speak -/

/-- Fields that nobody can take for others. A decoder in C ends a text at a NUL, and the decoders differ
in which of two values of a key they keep; here there is nothing to differ about. -/
structure Raw.Canonical (raw : Raw) : Prop where
  texts : ∀ text ∈ raw.texts, 0 ∉ text
  keys : ∀ p ∈ raw.pairs, 0 ∉ p.1
  values : ∀ p ∈ raw.pairs, 0 ∉ p.2
  nodup : (raw.pairs.map Prod.fst).Nodup

/-- Frames with such fields, and what they say. -/
structure CanonicalFrames (said : Saying) (frames : List Frame) (id : MsgId) (raw : Raw)
    (rest : List Frame) : Prop where
  hasId : id ≠ .unset
  valid : raw.Valid id
  canonical : raw.Canonical
  frames : frames = frameOf id raw [] :: rest
  said : said = raw.saidToC id rest
  rest : id.hasContent = false → rest = []

/-- The fields of a message of C's. -/
def ZccpMsg.raw (m : ZccpMsg) : Raw where
  texts := m.texts.map fun s => (s.getD .empty).bytes
  pairs := if m.id.hasHeaders then (m.headers.getD .empty).items.map fun p => (p.1.bytes, p.2.bytes)
    else []

section C

variable {m : ZccpMsg}

/-- A `NULL` is written as the empty string. -/
theorem flatten_putStringField (s : Option CStr) :
    (putStringField s).flatten = sized 1 (s.getD .empty).bytes := by
  cases s <;> simp [putStringField, putString, sized, CStr.strlen, CStr.empty]

/-- And a dictionary that is `NULL` as one without entries. -/
theorem flatten_putHeaders (h : Option Zhash) :
    (putHeaders h).flatten = beBytes 4 (h.getD .empty).items.length ++
      encodePairs ((h.getD .empty).items.map fun p => (p.1.bytes, p.2.bytes)) := by
  have hitems : ∀ items : List (CStr × CStr),
      (items.flatMap fun p => putString p.1 ++ putLongstr p.2).flatten =
        encodePairs (items.map fun p => (p.1.bytes, p.2.bytes)) := by
    intro items
    induction items with
    | nil => rfl
    | cons p items ih =>
      rw [List.flatMap_cons, List.flatten_append, ih]
      simp [encodePairs, putString, putLongstr, sized, CStr.strlen]
  cases h with
  | none => simp [putHeaders, Zhash.empty, encodePairs]
  | some h =>
    show (beBytes 4 h.items.length :: _).flatten = _
    rw [List.flatten_cons, hitems]
    rfl

/-- C writes the layout of the type. -/
theorem serialise_eq (m : ZccpMsg) : (serialise m).flatten = frameOf m.id m.raw [] := by
  have htexts : ∀ texts : List (Option CStr), (texts.flatMap putStringField).flatten =
      (texts.map fun s => (s.getD .empty).bytes).flatMap (sized 1) := by
    intro texts
    induction texts with
    | nil => rfl
    | cons s texts ih =>
      rw [List.flatMap_cons, List.flatten_append, ih, flatten_putStringField]
      rfl
  have hfields : (putFields m).flatten = m.raw.encode m.id := by
    rw [putFields_eq, List.flatten_append, htexts, Raw.encode, ZccpMsg.raw]
    cases hid : m.id.hasHeaders with
    | true => simp only [if_true, flatten_putHeaders, List.length_map]
    | false => rfl
  rw [serialise, List.flatten_cons, List.flatten_cons, hfields, frameOf, List.append_nil]
  simp [beBytes]

/-- The strings of a message that fits, of whatever type it is. -/
theorem ZccpMsg.Fits.texts (h : m.Fits) : ∀ s ∈ m.texts, ShortField s := by
  unfold ZccpMsg.Fits at h
  rw [ZccpMsg.texts]
  cases hm : m.id <;> rw [hm] at h
  case hello | subscribe | publish | direct =>
    exact List.forall_mem_singleton.mpr h.1
  case deliver => exact List.forall_mem_cons.mpr ⟨h.1, List.forall_mem_singleton.mpr h.2.1⟩
  all_goals exact List.forall_mem_nil _

/-- Its headers, where the type has any. -/
theorem ZccpMsg.Fits.headers (h : m.Fits) (hid : m.id.hasHeaders = true) :
    FitsHeaders m.headers := by
  unfold ZccpMsg.Fits at h
  cases hm : m.id <;> rw [hm] at h hid
  case hello | subscribe | publish | direct => exact h.2
  case deliver => exact h.2.2
  case helloOk | goodbyeOk => exact h
  all_goals cases hid

/-- A message that fits has fields that can be laid out. -/
theorem ZccpMsg.Fits.valid (h : m.Fits) : m.raw.Valid m.id := by
  have htexts : m.raw.texts.length = m.id.texts := by
    show (m.texts.map _).length = m.id.texts
    rw [List.length_map, ZccpMsg.texts]
    cases m.id <;> rfl
  have hshort : ∀ text ∈ m.raw.texts, text.length < 256 ^ 1 := by
    refine List.forall_mem_map.mpr fun s hs => ?_
    cases s with
    | none => exact Nat.pow_pos (Nat.zero_lt_succ _)
    | some t => exact h.texts _ hs t rfl
  cases hid : m.id.hasHeaders with
  | false =>
    have hnil : m.raw.pairs = [] := if_neg (by simp [hid])
    refine ⟨htexts, hshort, fun _ => hnil, ?_, ?_⟩
    · rw [hnil]
      exact Nat.pow_pos (Nat.zero_lt_succ _)
    · rw [hnil]
      exact List.forall_mem_nil _
  | true =>
    have hpairs : m.raw.pairs = (m.headers.getD .empty).items.map _ := if_pos hid
    have hfits : (m.headers.getD .empty).items.length < 256 ^ 4 ∧
        ∀ p ∈ (m.headers.getD .empty).items, p.1.Short ∧ p.2.strlen < 256 ^ 4 := by
      cases hh : m.headers with
      | none => exact ⟨Nat.pow_pos (Nat.zero_lt_succ _), List.forall_mem_nil _⟩
      | some d => exact h.headers hid d hh
    refine ⟨htexts, hshort, fun hnot => ?_, ?_, ?_⟩
    · cases hid.symm.trans hnot
    · rw [hpairs, List.length_map]
      exact hfits.1
    · rw [hpairs]
      exact List.forall_mem_map.mpr hfits.2

/-- C's strings end at their NUL and its tables have no key twice, so that every message of C's is
canonical without a condition. -/
theorem ZccpMsg.canonical (m : ZccpMsg) : m.raw.Canonical := by
  have hitems : ∀ p ∈ m.raw.pairs, ∃ q ∈ (m.headers.getD .empty).items,
      (q.1.bytes, q.2.bytes) = p := by
    intro p hp
    rw [ZccpMsg.raw] at hp
    split at hp
    · exact List.mem_map.mp hp
    · cases hp
  refine ⟨List.forall_mem_map.mpr fun s _ => (s.getD .empty).nulFree, ?_, ?_, ?_⟩
  · intro p hp
    obtain ⟨q, -, rfl⟩ := hitems p hp
    exact q.1.nulFree
  · intro p hp
    obtain ⟨q, -, rfl⟩ := hitems p hp
    exact q.2.nulFree
  · rw [ZccpMsg.raw]
    split
    · have hinj : Function.Injective CStr.bytes := fun _ _ => CStr.ext
      have hnodup := (m.headers.getD .empty).nodup.map hinj
      rw [List.map_map] at hnodup ⊢
      exact hnodup
    · exact List.nodup_nil

end C

/-- **What is spoken is canonical**, whoever speaks. For C the frame is that of the message as it was
walked, which may have its headers in another order, and says the same. -/
theorem Spoken.canonical {said : Saying} {frames : List Frame} (h : Spoken said frames) :
    ∃ id raw rest, CanonicalFrames said frames id raw rest := by
  cases h with
  | @c m router sent hid hfits h =>
    obtain ⟨walked, hwalked, hout⟩ := (sends_iff hid router sent).mp h
    have hid' : walked.id ≠ .unset := by rwa [hwalked.fields]
    have hfits' := fits_walks hwalked hfits
    have hframes : sent.frames = frameOf walked.id walked.raw [] :: contentFrames walked := by
      rw [← serialise_eq]
      cases router with
      | false =>
        obtain rfl := Option.some.inj hout
        rfl
      | true =>
        obtain ⟨routingId, -, rfl⟩ := Option.map_eq_some_iff.mp hout
        rfl
    have hdecode := zccpMsgDecode_wire hid' hfits'
    rw [wire, serialise_eq, zccpMsgDecode_frameOf hid' hfits'.valid] at hdecode
    refine ⟨walked.id, walked.raw, contentFrames walked, hid', hfits'.valid, walked.canonical, hframes,
      ?_, fun hcontent => ?_⟩
    · rw [← saying_message hfits'.valid, Except.ok.inj hdecode,
        saying_restores (restores_walks hwalked)]
    · rw [contentFrames]
      cases hm : walked.id <;> rw [hm] at hcontent <;> first | rfl | cases hcontent
  | @go t routingId frames ht hcount h =>
    have hcount' : t.raw.pairs.length < 256 ^ 4 := by
      rw [Go.Transit.raw, toPairs, List.length_map]
      exact hcount
    rw [Go.send_eq, Go.idOf_zccpMsg t.id_ne_unset] at h
    refine ⟨t.id, t.raw, t.sayingFilled.content, t.id_ne_unset, ht.valid hcount', ?_, ?_,
      ht.saidToC.symm, fun hcontent => ?_⟩
    · exact ⟨fun text htext => (ht.texts text htext).1,
        fun p hp => (ht.keys p.1 p.2 (mem_toPairs.mp hp)).1,
        fun p hp => (ht.values p.1 p.2 (mem_toPairs.mp hp)).1, nodup_toPairs t.headers⟩
    · rw [frameOf, List.append_nil]
      exact (Option.some.inj h).symm
    · cases t <;> first | rfl | cases hcontent
  | @java msg frames hmsg h =>
    obtain ⟨hascii, hlt, rfl⟩ := (Java.send_eq_some_iff msg frames).mp h
    have hframe := Java.ZccpMsg.measuredFrame_eq hascii
    refine ⟨msg.id, msg.raw, msg.contentParts, hmsg.id, hmsg.valid (hframe ▸ hlt), ?_, ?_,
      hmsg.saidToC.symm, fun hcontent => ?_⟩
    · refine ⟨fun text htext => (hmsg.texts text htext).1, fun p hp => (hmsg.keys p hp).1,
        hmsg.values, ?_⟩
      show ((msg.pairs).map Prod.fst).Nodup
      rw [Java.ZccpMsg.pairs, List.map_map]
      have hnodup := (nodup_toPairs msg.headerMap).map fun _ _ => utf8_injective
      rwa [List.map_map] at hnodup
    · rw [hframe]
    · obtain ⟨routingId, id, identifier, headers, expression, address, content, sender⟩ := msg
      cases id <;> first | rfl | cases hcontent

/-! ## What the listeners need -/

section Listeners

variable {said : Saying} {frames : List Frame} {id : MsgId} {raw : Raw} {rest : List Frame}

/-- Cutting at a NUL cuts nothing off. -/
theorem Raw.Canonical.cut_pairs (h : raw.Canonical) :
    raw.pairs.map (fun p => (cut p.1, cut p.2)) = raw.pairs := by
  refine (List.map_congr_left fun p hp => ?_).trans (List.map_id _)
  rw [cut_eq_self_iff.mpr (h.keys p hp), cut_eq_self_iff.mpr (h.values p hp)]
  rfl

/-- No key twice: the last value is the first. -/
theorem Raw.Canonical.lastValue (h : raw.Canonical) (key : List UInt8) :
    lastValue raw.pairs key = firstValue raw.pairs key :=
  (firstValue_eq_of_perm (List.reverse_perm _).symm h.nodup key).symm

theorem Raw.Canonical.cut_firstValue (h : raw.Canonical) (key : List UInt8) :
    (firstValue raw.pairs key).map cut = firstValue raw.pairs key := by
  rw [← firstValue_cut h.keys, h.cut_pairs]

/-- What Go needs of the fields, which is always there. -/
theorem Raw.Canonical.unambiguous (h : raw.Canonical) : Go.Unambiguous raw where
  texts := h.texts
  keys := h.keys
  values key := (h.lastValue key).trans (h.cut_firstValue key).symm

/-- What is said can be read off the fields byte by byte. -/
theorem CanonicalFrames.texts (h : CanonicalFrames said frames id raw rest) :
    said.texts = raw.texts := by
  rw [h.said]
  exact map_cut_eq_self_iff.mpr h.canonical.texts

theorem CanonicalFrames.headers (h : CanonicalFrames said frames id raw rest) (key : List UInt8) :
    said.headers key = firstValue raw.pairs key := by
  rw [h.said]
  show firstValue (raw.pairs.map fun p => (cut p.1, cut p.2)) key = _
  rw [h.canonical.cut_pairs]

theorem CanonicalFrames.content (h : CanonicalFrames said frames id raw rest) :
    said.content = rest := by
  rw [h.said]
  show (if id.hasContent then rest else []) = rest
  cases hid : id.hasContent with
  | true => rfl
  | false => exact (h.rest hid).symm

/-- A header that is said is one of the pairs, and there is no other with its key. -/
theorem CanonicalFrames.headers_eq_some_iff (h : CanonicalFrames said frames id raw rest)
    {key value : List UInt8} : said.headers key = some value ↔ (key, value) ∈ raw.pairs := by
  rw [h.headers]
  constructor
  · exact mem_of_firstValue
  · intro hmem
    obtain ⟨value', hvalue'⟩ := Option.isSome_iff_exists.mp
      (firstValue_isSome_iff.mpr ⟨value, hmem⟩)
    have heq := List.inj_on_of_nodup_map h.canonical.nodup (mem_of_firstValue hvalue') hmem rfl
    rw [hvalue', (Prod.mk.inj heq).2]

/-- So many headers are said as there are pairs: a condition on the number that is written can be put
as one on what is said. -/
theorem CanonicalFrames.count (h : CanonicalFrames said frames id raw rest) :
    {key | (said.headers key).isSome}.ncard = raw.pairs.length := by
  have hkeys : {key | (said.headers key).isSome} = ↑(raw.pairs.map Prod.fst).toFinset := by
    ext key
    simp only [Set.mem_ofPred_eq, h.headers, firstValue_isSome_iff, List.coe_toFinset, List.mem_map]
    constructor
    · intro hsome
      obtain ⟨value, hmem⟩ := hsome
      exact ⟨(key, value), hmem, rfl⟩
    · rintro ⟨p, hmem, rfl⟩
      exact ⟨p.2, hmem⟩
  rw [hkeys, Set.ncard_coe_finset, List.toFinset_card_of_nodup h.canonical.nodup, List.length_map]

/-- **Java's conditions are conditions on what is said.** -/
theorem CanonicalFrames.forJava_iff (h : CanonicalFrames said frames id raw rest)
    (charset : Java.Charset) :
    Java.Fits raw ∧ Java.Legible charset raw ↔ said.ForJava := by
  -- a value is the same to both if it is UTF-8
  have hvalue : ∀ p ∈ raw.pairs, charset.reencode p.2 = p.2 ↔ IsUtf8 p.2 := by
    intro p hp
    have hiff : charset.reencode p.2 = cut p.2 ↔ _ := Java.reencode_eq_cut_iff charset
    rw [cut_eq_self_iff.mpr (h.canonical.values p hp), and_iff_left (h.canonical.values p hp)] at hiff
    exact hiff
  constructor
  · rintro ⟨hfits, htexts, hkeys, hvalues⟩
    refine ⟨?_, fun key value hsome => ?_, ?_⟩
    · rw [h.texts]
      exact fun text htext => (htexts text htext).1
    · have hmem := h.headers_eq_some_iff.mp hsome
      refine ⟨(hkeys _ hmem).1, (hvalue _ hmem).mp ?_, hfits.values _ hmem⟩
      have hsame := hvalues key
      rw [h.canonical.lastValue, h.canonical.cut_firstValue, ← h.headers, hsome] at hsame
      exact Option.some.inj hsame
    · rw [h.count]
      exact hfits.count
  · rintro ⟨htexts, hheaders, hcount⟩
    rw [h.texts] at htexts
    rw [h.count] at hcount
    have hpairs : ∀ p ∈ raw.pairs, IsUtf8 p.1 ∧ IsUtf8 p.2 ∧ p.2.length < 2 ^ 31 :=
      fun p hp => hheaders p.1 p.2 (h.headers_eq_some_iff.mpr hp)
    refine ⟨⟨hcount, fun p hp => (hpairs p hp).2.2⟩, ?_, ?_, ?_⟩
    · exact fun text htext => ⟨htexts text htext, h.canonical.texts text htext⟩
    · exact fun p hp => ⟨(hpairs p hp).1, h.canonical.keys p hp⟩
    · intro key
      rw [h.canonical.lastValue, h.canonical.cut_firstValue]
      cases hsome : firstValue raw.pairs key with
      | none => rfl
      | some value =>
        have hmem := mem_of_firstValue hsome
        exact congrArg some ((hvalue _ hmem).mpr (hpairs _ hmem).2.1)

end Listeners

/-- **Who understands whom.** C understands everyone. Go understands everyone who sends no more than one
frame of content, and the rest of it is lost. So does Java, and what it hears must be text to it. The
conditions are exact: a listener that reads something else, or nothing, has been sent what they rule
out. -/
theorem interop {said : Saying} {frames : List Frame} (h : Spoken said frames) :
    Transmits said frames ∧
    ((∃ t, Go.unmarshal Go.zccpMsg frames = .message t ∧ t.saying = said) ↔
      said.content.length ≤ 1) ∧
    ∀ charset router garbage m queue, (∀ g ∈ garbage, Java.Skipped router g) →
      Java.payload router m = frames →
      ((∃ msg, Java.recv charset router ⟨[], garbage ++ m :: queue⟩ = .message msg ⟨[], queue⟩ ∧
          msg.saying = said) ↔
        said.content.length ≤ 1 ∧ said.ForJava) := by
  obtain ⟨id, raw, rest, hcanonical⟩ := h.canonical
  have hid := hcanonical.hasId
  have hvalid := hcanonical.valid
  have hcontent := hcanonical.content
  -- a type without content has no frames behind the first, so that the type can be left out
  have hone : (id.hasContent = true → rest.length ≤ 1) ↔ rest.length ≤ 1 := by
    refine ⟨fun hle => ?_, fun hle _ => hle⟩
    cases hc : id.hasContent with
    | true => exact hle hc
    | false =>
      rw [hcanonical.rest hc]
      exact Nat.zero_le 1
  have htransmits : ∀ said', Transmits said' frames ↔ said' = said := by
    intro said'
    rw [hcanonical.frames, hcanonical.said]
    exact transmits_frameOf_iff hid hvalid [] rest said'
  refine ⟨(htransmits said).mpr rfl, ?_, ?_⟩
  · obtain ⟨n, hread⟩ := getRaw_frameOf hvalid []
    have hgo := Go.getTransit_saying hid rest hread
    have hsaid : (Go.getTransit rest (raw.encode id ++ []) id).saying = Go.saidToGo id rest raw := hgo
    rw [hcanonical.frames, frameOf, Go.unmarshal_cons, if_neg (by decide),
      Go.typeOf_eq_some_iff.mpr ⟨hid, rfl⟩, hcontent, ← hone]
    have hiff : Go.saidToGo id rest raw = raw.saidToC id rest ↔ _ := Go.saidToGo_eq_saidToC_iff
    rw [and_iff_right hcanonical.canonical.unambiguous, ← hcanonical.said, ← hsaid] at hiff
    rw [← hiff]
    constructor
    · rintro ⟨t, ht, htsaid⟩
      cases ht
      exact htsaid
    · exact fun hsame => ⟨_, rfl, hsame⟩
  · intro charset router garbage m queue hskip hpayload
    have hsigned : ¬ Java.Skipped router m := by
      intro hskipped
      rw [Java.Skipped, hpayload, hcanonical.frames] at hskipped
      exact hskipped.1 (signed_frameOf id raw [] rest)
    have hcall := Java.inStep_recv_iff charset router hskip hsigned queue
    rw [hpayload, hcanonical.frames, Java.sound_complete_iff hid hvalid, ← hcanonical.frames, ← and_assoc,
      hcanonical.forJava_iff charset] at hcall
    have hrest : rest.length ≤ (if id.hasContent then 1 else 0) ↔ rest.length ≤ 1 := by
      cases hc : id.hasContent with
      | true => exact Iff.rfl
      | false =>
        rw [hcanonical.rest hc]
        exact ⟨fun _ => Nat.zero_le 1, fun _ => Nat.le_refl 0⟩
    rw [hcontent, and_comm, ← hrest, ← hcall]
    cases Java.recv charset router ⟨[], garbage ++ m :: queue⟩ with
    | waits =>
      constructor
      · rintro ⟨msg, hmsg, -⟩
        cases hmsg
      · exact False.elim
    | null input =>
      constructor
      · rintro ⟨msg, hmsg, -⟩
        cases hmsg
      · rintro ⟨-, e, herror⟩
        obtain ⟨m', hm', -⟩ := (htransmits said).mpr rfl
        cases herror.symm.trans hm'
    | message msg input =>
      constructor
      · rintro ⟨msg', hmsg', hsaid⟩
        cases hmsg'
        exact ⟨rfl, (htransmits _).mpr hsaid⟩
      · rintro ⟨rfl, htrans⟩
        exact ⟨msg, rfl, (htransmits _).mp htrans⟩

/-- A PUBLISH of C's with two frames of content, which only C understands. -/
theorem interop_two_frames :
    let m := ZccpMsg.publish (.ofBytes [65]) none [[1], [2]]
    let said := m.received.saying
    Transmits said (wire m) ∧
      (¬ ∃ t, Go.unmarshal Go.zccpMsg (wire m) = .message t ∧ t.saying = said) ∧
      ¬ ∃ msg, Java.recv .replacing false ⟨[], [⟨(serialise m).flatten, contentFrames m⟩]⟩ =
        .message msg ⟨[], []⟩ ∧ msg.saying = said := by
  intro m said
  have hid : m.id ≠ .unset := nofun
  have hwalks : m.Walks m := ⟨rfl, .none⟩
  have hsends : m.Sends false ⟨none, wire m⟩ := (sends_iff hid false _).mpr ⟨m, hwalks, rfl⟩
  have hspoken : Spoken said (wire m) := .c hid (fits_publish (by decide) fitsHeaders_none) hsends
  have htwo : ¬ said.content.length ≤ 1 := Nat.not_succ_le_self 1
  obtain ⟨hc, hgo, hjava⟩ := interop hspoken
  refine ⟨hc, fun h => htwo (hgo.mp h), fun h => htwo ?_⟩
  exact ((hjava .replacing false [] _ [] (List.forall_mem_nil _) rfl).mp h).1

end Zccp
