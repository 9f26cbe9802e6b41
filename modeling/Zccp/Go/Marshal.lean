import Zccp.Go.Msg

/-!
# `Zccp/Go/Marshal.lean` — does the broker understand the Go packages?

`Marshal` writes the fields of a message in the layout of its type, whatever the package
(`marshal_eq`), so all that can go wrong is the id in front of them and the four bytes for the
number of headers. `transmits_iff` says that both make the difference.
-/

set_option autoImplicit false

namespace Zccp.Go

open Lib

variable {package : Package} {t : Transit}

/-- The fields of a message. -/
def Transit.raw (t : Transit) : Raw where
  texts := t.texts
  pairs := toPairs t.headers

/-- A message that C can have, too: no string, key or value of it has a NUL byte in it, which would end
it in C, every string and key has at most 255 bytes and every value fewer than 2^32, which is what
the lengths in front of them can say. -/
structure Transit.ForC (t : Transit) : Prop where
  texts : ∀ text ∈ t.texts, 0 ∉ text ∧ text.length < 256 ^ 1
  keys : ∀ key value, t.headers.lookup key = some value → 0 ∉ key ∧ key.length < 256 ^ 1
  values : ∀ key value, t.headers.lookup key = some value → 0 ∉ value ∧ value.length < 256 ^ 4

theorem putString_eq (buffer str : List UInt8) : putString buffer str = buffer ++ sized 1 str := rfl

/-- The number of the headers, and then the pairs in the order of the iteration. -/
theorem putHeaders_eq (buffer : List UInt8) (headers : Headers) :
    putHeaders buffer headers =
      buffer ++ (beBytes 4 (toPairs headers).length ++ encodePairs (toPairs headers)) := by
  have hfold : ∀ (entries : List (Sigma fun _ : List UInt8 => List UInt8)) (buffer : List UInt8),
      entries.foldl (fun buffer e => putLongString (putString buffer e.1) e.2) buffer =
        buffer ++ encodePairs (entries.map fun e => (e.1, e.2)) := by
    intro entries
    induction entries with
    | nil =>
      intro buffer
      exact (List.append_nil buffer).symm
    | cons e entries ih =>
      intro buffer
      rw [List.foldl_cons, ih, List.map_cons]
      simp only [putLongString, putString, encodePairs, sized, List.flatMap_cons, List.append_assoc]
  rw [putHeaders, hfold, toPairs, List.length_map, List.append_assoc]

/-- **`Marshal` writes the layout of the type** behind the id of the package. -/
theorem marshal_eq (package : Package) (t : Transit) :
    t.marshal package =
      (package.idOf t.id).map fun code => 0xAA :: 0xAA :: code :: t.raw.encode t.id := by
  have hsignature : beBytes 2 signature = [0xAA, 0xAA] := by decide
  rw [Transit.marshal]
  cases package.idOf t.id with
  | none => rfl
  | some code =>
    simp only [Option.bind_eq_bind, Option.bind_some, hsignature, Option.map_some]
    cases t <;>
      simp [putHeaders_eq, putString_eq, Transit.raw, Transit.texts, Transit.headers, Transit.id,
        Raw.encode, MsgId.hasHeaders]

/-- **`Send`** sends that frame, and one more if there is a content. -/
theorem send_eq (package : Package) (routingId : Frame) (t : Transit) :
    t.send package .other routingId =
      (package.idOf t.id).map fun code =>
        (0xAA :: 0xAA :: code :: t.raw.encode t.id) :: t.sayingFilled.content := by
  rw [Transit.send, marshal_eq]
  cases package.idOf t.id with
  | none => rfl
  | some code => cases t <;> rfl

/-! ## The fields -/

theorem raw_texts (t : Transit) : t.raw.texts.length = t.id.texts := by
  cases t <;> rfl

theorem raw_headers (h : t.id.hasHeaders = false) : t.raw.pairs = [] := by
  cases t <;> first | rfl | cases h

theorem Transit.ForC.entries (h : t.ForC) :
    ∀ p ∈ t.raw.pairs, p.1.length < 256 ^ 1 ∧ p.2.length < 256 ^ 4 := by
  rintro ⟨key, value⟩ hp
  have hlookup := mem_toPairs.mp hp
  exact ⟨(h.keys key value hlookup).2, (h.values key value hlookup).2⟩

/-- Fields whose number fits four bytes are what C reads. -/
theorem Transit.ForC.valid (h : t.ForC) (hcount : t.raw.pairs.length < 256 ^ 4) :
    t.raw.Valid t.id where
  texts := raw_texts t
  short text htext := (h.texts text htext).2
  headers := raw_headers
  count := hcount
  entries := h.entries

/-- No text of it has a null byte, so C cuts nothing off: it reads what was said. -/
theorem Transit.ForC.saidToC (h : t.ForC) :
    t.raw.saidToC t.id t.sayingFilled.content = t.sayingFilled := by
  apply Saying.ext
  · rfl
  · exact map_cut_eq_self_iff.mpr fun text htext => (h.texts text htext).1
  · funext key
    have hkeys : ∀ p ∈ t.raw.pairs, 0 ∉ p.1 := by
      intro p hp
      exact (h.keys p.1 p.2 (mem_toPairs.mp hp)).1
    show firstValue (t.raw.pairs.map fun p => (cut p.1, cut p.2)) key = t.headers.lookup key
    rw [firstValue_cut hkeys, Transit.raw, firstValue_toPairs]
    cases hvalue : t.headers.lookup key with
    | none => rfl
    | some value =>
      rw [Option.map_some, cut_eq_self_iff.mpr (h.values key value hvalue).1]
  · show (if t.id.hasContent then t.sayingFilled.content else []) = t.sayingFilled.content
    cases t <;> rfl

/-! ## Too many headers -/

/-- The fields as far as C reads them: the number of headers has been cut down to four bytes. -/
def Transit.rawRead (t : Transit) : Raw :=
  { t.raw with pairs := t.raw.pairs.take (t.raw.pairs.length % 256 ^ 4) }

theorem rawRead_length (t : Transit) :
    t.rawRead.pairs.length = t.raw.pairs.length % 256 ^ 4 := by
  rw [Transit.rawRead, List.length_take]
  exact Nat.min_eq_left (Nat.mod_le _ _)

/-- The others stand behind them. -/
theorem encode_rawRead (t : Transit) :
    ∃ trailing, t.raw.encode t.id = t.rawRead.encode t.id ++ trailing := by
  by_cases hid : t.id.hasHeaders = true
  · refine ⟨encodePairs (t.raw.pairs.drop (t.raw.pairs.length % 256 ^ 4)), ?_⟩
    have hsplit : encodePairs t.raw.pairs = encodePairs t.rawRead.pairs ++
        encodePairs (t.raw.pairs.drop (t.raw.pairs.length % 256 ^ 4)) := by
      rw [← encodePairs_append, Transit.rawRead, List.take_append_drop]
    simp only [Raw.encode, if_pos hid, rawRead_length, beBytes_mod, hsplit, List.append_assoc]
    rfl
  · refine ⟨[], ?_⟩
    simp only [Raw.encode, if_neg hid, Transit.rawRead, List.append_nil]

theorem Transit.ForC.valid_rawRead (h : t.ForC) : t.rawRead.Valid t.id where
  texts := raw_texts t
  short text htext := (h.texts text htext).2
  headers hid := by
    rw [Transit.rawRead, raw_headers hid, List.take_nil]
  count := by
    rw [rawRead_length]
    exact Nat.mod_lt _ (Nat.pow_pos (Nat.zero_lt_succ _))
  entries p hp := h.entries p (List.mem_of_mem_take hp)

/-- So there is a header that C does not have. -/
theorem exists_lost (t : Transit) (hcount : 256 ^ 4 ≤ t.raw.pairs.length) :
    ∃ key, (t.headers.lookup key).isSome ∧ ∀ p ∈ t.rawRead.pairs, p.1 ≠ key := by
  have hlt : t.raw.pairs.length % 256 ^ 4 < t.raw.pairs.length :=
    Nat.lt_of_lt_of_le (Nat.mod_lt _ (Nat.pow_pos (Nat.zero_lt_succ _))) hcount
  obtain ⟨p, rest, hdrop⟩ := List.exists_cons_of_ne_nil
    (mt List.drop_eq_nil_iff.mp (Nat.not_le_of_lt hlt))
  have hsplit : t.raw.pairs = t.rawRead.pairs ++ p :: rest := by
    rw [← hdrop, Transit.rawRead, List.take_append_drop]
  refine ⟨p.1, ?_, fun p' hp' heq => ?_⟩
  · have hmem : (p.1, p.2) ∈ t.raw.pairs := by
      rw [hsplit]
      exact List.mem_append_right _ List.mem_cons_self
    rw [mem_toPairs.mp hmem]
    rfl
  · have hnodup := nodup_toPairs t.headers
    rw [show toPairs t.headers = t.rawRead.pairs ++ p :: rest from hsplit, List.map_append,
      List.nodup_append] at hnodup
    exact hnodup.2.2 p'.1 (List.mem_map_of_mem hp') p.1 (List.mem_cons_self ..) heq

/-- **When a message gets across.** What a package sends says the same to the broker if and only if
the package has the broker's id for it, and the number of its headers fits the four bytes for it. -/
theorem transmits_send_iff (package : Package) (routingId : Frame) (h : t.ForC) :
    (∃ frames, t.send package .other routingId = some frames ∧ Transmits t.sayingFilled frames) ↔
      package.idOf t.id = some (UInt8.ofNat t.id.code) ∧ t.raw.pairs.length < 256 ^ 4 := by
  have hne := t.id_ne_unset
  rw [send_eq]
  constructor
  · rintro ⟨frames, hframes, m, hdec, hsaying⟩
    obtain ⟨code, hcode, rfl⟩ := Option.map_eq_some_iff.mp hframes
    -- the type
    have hid : m.id = t.id := congrArg Saying.id hsaying
    have hof := ofCode_of_decode hdec
    rw [hid] at hof
    have hcode' : code = UInt8.ofNat t.id.code := by
      rw [← (MsgId.ofCode_eq_some_iff.mp hof).2, UInt8.ofNat_toNat]
    subst hcode'
    refine ⟨hcode, ?_⟩
    -- the headers
    by_contra hcount
    obtain ⟨trailing, hencode⟩ := encode_rawRead t
    rw [hencode] at hdec
    have hframe := zccpMsgDecode_frameOf hne h.valid_rawRead trailing t.sayingFilled.content
    rw [frameOf] at hframe
    rw [hframe] at hdec
    obtain rfl := Except.ok.inj hdec
    rw [saying_message h.valid_rawRead] at hsaying
    obtain ⟨key, hsome, hlost⟩ := exists_lost t (Nat.not_lt.mp hcount)
    have hheaders : firstValue (t.rawRead.pairs.map fun p => (cut p.1, cut p.2)) key =
        t.headers.lookup key := congrFun (congrArg Saying.headers hsaying) key
    have hkeys : ∀ p ∈ t.rawRead.pairs, 0 ∉ p.1 := by
      intro p hp
      exact (h.keys p.1 p.2 (mem_toPairs.mp (List.mem_of_mem_take hp))).1
    rw [firstValue_cut hkeys] at hheaders
    rw [← hheaders, Option.isSome_map, firstValue_isSome_iff] at hsome
    obtain ⟨value, hmem⟩ := hsome
    exact hlost _ hmem rfl
  · rintro ⟨hcode, hcount⟩
    rw [hcode]
    refine ⟨_, rfl, t.raw.message t.id t.sayingFilled.content, ?_, ?_⟩
    · have hframe := zccpMsgDecode_frameOf hne (h.valid hcount) [] t.sayingFilled.content
      rwa [frameOf, List.append_nil] at hframe
    · rw [saying_message (h.valid hcount), h.saidToC]

end Zccp.Go
