import Zccp.Broker.Reactor
import Zccp.Memory.Rules

/-!
# `Zccp/Memory/Decode.lean` — what decoding allocates, and what it forgets

A message that is decoded is a message on the heap, and the message of CZMQ it came in is gone. When it
is malformed everything that was read of it is freed, with one exception: the loop of the dictionary is
left with a key in hand where its value cannot be read, and that key is nobody's (`BreaksOff`,
`strandedKey_eq_some_iff`).

Whether a read succeeds is decided in the model without pointers, and the rules here follow that
decision: `EndsAs` puts the end of a part of the decoder beside the end of its reader there. The two
differ in what a failure leaves behind, since a reader that fails has no value, and the part of a
message that has been read is an object that somebody has to free.
-/

set_option autoImplicit false

namespace Zccp.Memory

open Lib Lib.Reader

/-! ## The fields, one after the other -/

/-- The strings of a type. -/
def readTexts : List Field → ZccpMsg → Reader ZccpMsg
  | [], m => pure m
  | f :: fields, m => do
    let string ← getString
    readTexts fields (m.withText f (some string))

/-- The dictionary block. -/
def readHeaders (m : ZccpMsg) : Reader ZccpMsg := do
  let headers ← getDictionary
  pure { m with headers := some headers }

/-- That of the types that have one. -/
def guardedHeaders (has : Bool) (m : ZccpMsg) : Reader ZccpMsg := if has then readHeaders m else pure m

theorem getFields_eq (rest : List Frame) (id : MsgId) :
    Zccp.getFields rest id = (do
      let m ← readTexts id.textFields (Zccp.zccpMsgNew id)
      let m ← guardedHeaders id.hasHeaders m
      pure (if id.hasContent then { m with content := some rest } else m)) := by
  cases id <;>
    simp [Zccp.getFields, MsgId.textFields, MsgId.hasHeaders, MsgId.hasContent, readTexts, guardedHeaders,
      readHeaders, ZccpMsg.withText]

/-! ## The key that is forgotten -/

/-- The key whose value cannot be read. -/
def strandedIn (frame : Frame) : Nat → Nat → Option CStr
  | 0, _ => none
  | hashSize + 1, needle =>
    match getString frame needle with
    | .error _ => none
    | .ok (key, needle) =>
      match getLongstr frame needle with
      | .error _ => some key
      | .ok (_, needle) => strandedIn frame hashSize needle

def strandedAt (frame : Frame) (needle : Nat) : Option CStr :=
  match number 4 frame needle with
  | .error _ => none
  | .ok (hashSize, needle) => strandedIn frame hashSize needle

def strandedFields (id : MsgId) (frame : Frame) (needle : Nat) : Option CStr :=
  match getTexts id.texts frame needle with
  | .error _ => none
  | .ok (_, needle) => if id.hasHeaders then strandedAt frame needle else none

def strandedKey (frame : Frame) : Option CStr :=
  match getId frame 0 with
  | .ok (some id, needle) => strandedFields id frame needle
  | _ => none

/-- What is left of it. -/
def stray (key : Option CStr) : Multiset Block := key.elim 0 fun key => {.string key}

/-- A loop that gets to its end has nothing in its hands. -/
theorem strandedIn_eq_none {frame : Frame} {n needle needle' : Nat} {h h' : Zhash}
    (hp : getPairs n h frame needle = .ok (h', needle')) : strandedIn frame n needle = none := by
  induction n generalizing h needle with
  | zero => rfl
  | succ n ih =>
    obtain ⟨key, n₁, hkey, hp⟩ := bind_eq_ok hp
    obtain ⟨value, n₂, hvalue, hp⟩ := bind_eq_ok hp
    simp only [strandedIn, hkey, hvalue]
    exact ih hp

/-- The headers are not the content. -/
theorem guardedHeaders_content {has : Bool} {m m' : ZccpMsg} {frame : Frame} {needle needle' : Nat}
    (h : guardedHeaders has m frame needle = .ok (m', needle')) :
    m'.block .content = m.block .content := by
  cases has with
  | false =>
    cases h
    rfl
  | true =>
    obtain ⟨headers, n, hheaders, h⟩ := bind_eq_ok (p := getDictionary) h
    cases h
    rfl

/-- The strings end where their octets do. -/
theorem readTexts_getTexts (l : List Field) (m : ZccpMsg) (frame : Frame) (needle : Nat) :
    (readTexts l m frame needle).toOption.map Prod.snd =
      (getTexts l.length frame needle).toOption.map Prod.snd := by
  induction l generalizing m needle with
  | nil => rfl
  | cons f l ih =>
    have hstring : getString = CStr.ofBytes <$> getText 1 := by
      simp only [getString, getText, map_eq_pure_bind, bind_assoc]
    rw [readTexts, List.length_cons, getTexts, hstring, map_eq_pure_bind, bind_assoc]
    cases ht : getText 1 frame needle with
    | error e =>
      rw [bind_error ht, bind_error ht]
      rfl
    | ok r =>
      obtain ⟨text, needle'⟩ := r
      rw [bind_ok ht, bind_ok ht, pure_bind, ih]
      cases hts : getTexts l.length frame needle' with
      | error e => rw [bind_error hts]
      | ok r => rw [bind_ok hts]; rfl

/-- Reading strings leaves the other fields as they are. -/
theorem readTexts_other {l : List Field} {m m' : ZccpMsg} {frame : Frame} {needle needle' : Nat}
    (h : readTexts l m frame needle = .ok (m', needle')) {f : Field} (hf : f ∉ l) :
    m'.block f = m.block f := by
  induction l generalizing m needle with
  | nil =>
    cases h
    rfl
  | cons g l ih =>
    obtain ⟨string, n, hstring, h⟩ := bind_eq_ok h
    obtain ⟨hne, hf⟩ := List.ne_and_not_mem_of_not_mem_cons hf
    rw [ih h hf, block_withText_ne hne]

/-! ## Reading -/

/-- How a part of the decoder ends, beside its reader in the model without pointers. -/
def EndsAs {α : Type} (x : Except ReadError (α × Nat)) (r : Option Nat) (a : α) : Prop :=
  match x with
  | .ok (a', needle) => r = some needle ∧ a = a'
  | .error _ => r = none

section EndsAs

variable {α β : Type} {x : Except ReadError (α × Nat)} {p : Reader α} {data : Frame} {needle : Nat}
  {r : Option Nat} {a : α}

/-- What was read without pointers, read off what was read with them. -/
theorem EndsAs.ok (h : EndsAs x (some needle) a) : x = .ok (a, needle) := by
  cases x with
  | error e => cases h
  | ok r =>
    obtain ⟨hr, rfl⟩ := h
    rw [Option.some.inj hr]

theorem EndsAs.error (h : EndsAs x none a) : ∃ e, x = .error e := by
  cases x with
  | error e => exact ⟨e, rfl⟩
  | ok r => cases h.1

/-- What goes on from where nothing was read. -/
theorem EndsAs.bind_none (h : EndsAs (p data needle) none a) (f : α → Reader β) (b : β) :
    EndsAs ((p >>= f) data needle) none b := by
  obtain ⟨e, he⟩ := h.error
  rw [bind_error he]
  rfl

theorem EndsAs.bind_pure (h : EndsAs (p data needle) r a) (f : α → β) :
    EndsAs ((p >>= fun a => pure (f a)) data needle) r (f a) := by
  cases r with
  | none => exact h.bind_none _ (f a)
  | some n =>
    rw [bind_ok h.ok]
    exact ⟨rfl, rfl⟩

end EndsAs

/-- None of the readers looks outside the frame (`Tame`), so that reading from the heap never ends in
undefined behaviour for that reason. -/
theorem tame_sized (k : Nat) :
    Tame (do let size ← number k; let host ← octets size; pure (CStr.ofBytes host)) := by
  refine (tame_number k).bind fun size => (tame_octets size).bind fun host => ?_
  exact tame_pure (CStr.ofBytes host)

theorem tame_getString : Tame getString := tame_sized 1

theorem tame_getLongstr : Tame getLongstr := tame_sized 4

theorem tame_getId : Tame getId := by
  refine (tame_number 2).bind fun signature => ?_
  by_cases h : signature ≠ (0xAAA0 ||| 10)
  · simp only [if_pos h]
    exact tame_pure none
  · simp only [if_neg h]
    exact (tame_number 1).bind fun code => tame_pure (MsgId.ofCode code)

section Reading

variable {frame self msg needle : Nat} {data : Frame} {M : Cells Block}

/-- A read leaves the frame as it is, and ends as the reader does. -/
theorem spec_readAt {α : Type} {p : Reader α} (hp : Tame p) (frame needle : Nat) (data : Frame) :
    Spec {(frame, .frame data)} (readAt p frame needle) fun r M' =>
      r = (p data needle).toOption ∧ M' = {(frame, .frame data)} := by
  refine spec_read .frame (Multiset.mem_singleton_self _) ?_
  cases hr : p data needle with
  | ok r => exact .pure ⟨rfl, rfl⟩
  | error e =>
    cases e with
    | malformed => exact .pure ⟨rfl, rfl⟩
    | wild => exact absurd hr (hp data needle)

/-- A string that can be read is put in a new object. -/
theorem spec_getHost_ok {read : Reader CStr} (hread : Tame read) {string : CStr} {needle' : Nat}
    (h : read data needle = .ok (string, needle')) :
    Spec {(frame, .frame data)} (getHost read frame needle) fun r M' =>
      ∃ host, r = some (host, needle') ∧
        M' = {(frame, .frame data)} + {(host, .string string)} := by
  refine (spec_readAt hread frame needle data).bind fun r M' hM' => ?_
  obtain ⟨rfl, rfl⟩ := hM'
  rw [h]
  refine (spec_alloc (Block.string string)).call (zero_add _).symm fun host M' hM' => ?_
  subst hM'
  exact .pure ⟨host, rfl, add_comm _ _⟩

/-- Where there is no string to read, nothing is allocated: the length is checked first. -/
theorem spec_getHost_error {read : Reader CStr} (hread : Tame read) {e : ReadError}
    (h : read data needle = .error e) :
    Spec {(frame, .frame data)} (getHost read frame needle) fun r M' =>
      r = none ∧ M' = {(frame, .frame data)} := by
  refine (spec_readAt hread frame needle data).bind fun r M' hM' => ?_
  obtain ⟨rfl, rfl⟩ := hM'
  rw [h]
  exact .pure ⟨rfl, rfl⟩

/-- The strings. By induction on the fields, each of which is `NULL` until it is read: a field read twice
would lose its first string. -/
theorem spec_getHosts {m : ZccpMsg} (l : List Field) (htext : ∀ f ∈ l, f.IsText) (hnodup : l.Nodup)
    (hm : IsMsg self m M) (hnone : ∀ f ∈ l, m.block f = none) :
    Spec ({(frame, .frame data)} + M) (getHosts frame self l needle) fun r M' =>
      ∃ m' M₀, IsMsg self m' M₀ ∧ M' = {(frame, .frame data)} + M₀ ∧
        EndsAs (readTexts l m data needle) r m' := by
  induction l generalizing m M needle with
  | nil => exact .pure ⟨m, M, hm, rfl, rfl, rfl⟩
  | cons f l ih =>
    obtain ⟨hf, htext⟩ := List.forall_mem_cons.mp htext
    obtain ⟨hnot, hnodup⟩ := List.nodup_cons.mp hnodup
    obtain ⟨hfnone, hnone⟩ := List.forall_mem_cons.mp hnone
    cases hs : getString data needle with
    | error e =>
      refine (spec_getHost_error tame_getString hs).call rfl fun r M' hM' => ?_
      obtain ⟨rfl, rfl⟩ := hM'
      refine .pure ⟨m, M, hm, rfl, ?_⟩
      rw [readTexts, bind_error hs]
      rfl
    | ok r =>
      obtain ⟨string, needle'⟩ := r
      obtain ⟨o, hrep, rfl⟩ := hm
      refine (spec_getHost_ok tame_getString hs).call rfl fun r M' hM' => ?_
      obtain ⟨host, rfl, rfl⟩ := hM'
      have hset : Spec (msgCells self o m + cell (some host) (some (.string string)))
          (setField self f (some host)) _ :=
        spec_setField_none (m.withText f (some string)) hrep hfnone (id_withText m f _)
          (fun g hg => block_withText_ne hg _) (block_withText hf _) rfl
      refine hset.call (F := {(frame, .frame data)}) ?_ fun _ M' hM' => ?_
      · rw [cell_some]
        abel
      obtain ⟨hrep', rfl⟩ := hM'
      rw [readTexts, bind_ok hs, add_comm]
      refine ih htext hnodup ⟨_, hrep', rfl⟩ fun g hg => ?_
      have hne : g ≠ f := fun heq => hnot (heq ▸ hg)
      rw [block_withText_ne hne]
      exact hnone g hg

/-- Each destructor frees one cell, if it is of the kind that the destructor is for. -/
theorem spec_freeString (p : Nat) (string : CStr) :
    Spec {(p, .string string)} (freeString (some p)) fun _ M' => M' = 0 :=
  spec_read .string (Multiset.mem_singleton_self _) (spec_free p _)

theorem spec_zmsgDestroy (p : Nat) (frames : List Frame) :
    Spec {(p, .zmsg frames)} (zmsgDestroy (some p)) fun _ M' => M' = 0 :=
  spec_read .zmsg (Multiset.mem_singleton_self _) (spec_free p _)

theorem spec_zframeDestroy (p : Nat) (data : Frame) :
    Spec {(p, .frame data)} (zframeDestroy (some p)) fun _ M' => M' = 0 :=
  spec_read .frame (Multiset.mem_singleton_self _) (spec_free p _)

/-- The pairs, with the key that is forgotten. Of the three ways through the body of the loop, the one in
which the key can be read and the value cannot is the only one that leaves a cell. -/
theorem spec_insertPairs (headers : Nat) (h : Zhash) (n : Nat) :
    Spec ({(frame, .frame data)} + {(headers, .hash h)}) (insertPairs frame headers n needle)
      fun r M' => ∃ h' L, M' = {(frame, .frame data)} + {(headers, .hash h')} + L ∧
        L.map Prod.snd = stray (strandedIn data n needle) ∧ EndsAs (getPairs n h data needle) r h' := by
  induction n generalizing h needle with
  | zero => exact .pure ⟨h, 0, (add_zero _).symm, rfl, rfl, rfl⟩
  | succ n ih =>
    rw [insertPairs, strandedIn, getPairs]
    cases hs : getString data needle with
    | error e =>
      refine (spec_getHost_error tame_getString hs).call rfl fun r M' hM' => ?_
      obtain ⟨rfl, rfl⟩ := hM'
      refine .pure ⟨h, 0, (add_zero _).symm, rfl, ?_⟩
      rw [bind_error hs]
      rfl
    | ok r =>
      obtain ⟨string, needle₁⟩ := r
      refine (spec_getHost_ok tame_getString hs).call rfl fun r M' hM' => ?_
      obtain ⟨key, rfl, rfl⟩ := hM'
      rw [bind_ok hs]
      cases hl : getLongstr data needle₁ with
      | error e =>
        -- the jump to `malformed`, past the `free` of the key
        have hhost : Spec {(frame, .frame data)} (getHost getLongstr frame needle₁) _ :=
          spec_getHost_error tame_getLongstr hl
        refine hhost.call (F := {(key, .string string)} + {(headers, .hash h)}) (by abel)
          fun r M' hM' => ?_
        obtain ⟨rfl, rfl⟩ := hM'
        refine .pure ⟨h, {(key, .string string)}, by abel, ?_, ?_⟩
        · simp only [hl]
          rfl
        · rw [bind_error hl]
          rfl
      | ok r =>
        obtain ⟨text, needle₂⟩ := r
        have hhost : Spec {(frame, .frame data)} (getHost getLongstr frame needle₁) _ :=
          spec_getHost_ok tame_getLongstr hl
        refine hhost.call (F := {(key, .string string)} + {(headers, .hash h)}) (by abel)
          fun r M' hM' => ?_
        obtain ⟨value, rfl, rfl⟩ := hM'
        rw [bind_ok hl]
        refine (spec_zhashInsert headers key value h string text).call (F := {(frame, .frame data)})
          (by abel) fun _ M' hM' => ?_
        subst hM'
        simp only [hl]
        refine (spec_freeString key string).drop (F := {(value, .string text)} + ({(frame, .frame data)} +
          {(headers, .hash (h.insert string text))})) (by abel) ?_
        exact (spec_freeString value text).drop rfl (ih (h.insert string text))

/-- The dictionary block. The hash is put into the message before the loop fills it, and so it is freed
along with the message if the loop breaks off. -/
theorem spec_getHeaders {m : ZccpMsg} (hm : IsMsg self m M) (hnone : m.block .headers = none) :
    Spec ({(frame, .frame data)} + M) (getHeaders frame self needle) fun r M' =>
      ∃ m' M₀ L, IsMsg self m' M₀ ∧ M' = {(frame, .frame data)} + M₀ + L ∧
        L.map Prod.snd = stray (strandedAt data needle) ∧
        EndsAs (readHeaders m data needle) r m' := by
  refine (spec_readAt (tame_number 4) frame needle data).call rfl fun r M' hM' => ?_
  obtain ⟨rfl, rfl⟩ := hM'
  rw [strandedAt]
  cases hn : number 4 data needle with
  | error e =>
    refine .pure ⟨m, M, 0, hm, (add_zero _).symm, rfl, ?_⟩
    rw [readHeaders, getDictionary, bind_assoc, bind_error hn]
    rfl
  | ok r =>
    obtain ⟨n, needle'⟩ := r
    obtain ⟨o, hrep, rfl⟩ := hm
    refine (spec_alloc (Block.hash .empty)).call (zero_add _).symm fun headers M' hM' => ?_
    subst hM'
    -- the message with the empty hash, as a message of its own, so that its fields stay folded
    generalize hm₁ : ({ m with headers := some .empty } : ZccpMsg) = m₁
    have hblock : m₁.block .headers = some (.hash .empty) := by
      rw [← hm₁]
      rfl
    have hother : ∀ h : Zhash, ∀ g, g ≠ .headers →
        ({ m with headers := some h } : ZccpMsg).block g = m₁.block g := by
      intro h g hg
      rw [← hm₁]
      exact block_congr hg rfl
    have hset : Spec (msgCells self o m + cell (some headers) (some (.hash .empty)))
        (setField self .headers (some headers)) _ :=
      spec_setField_none m₁ hrep hnone (by rw [← hm₁])
        (fun g hg => hm₁ ▸ block_congr hg rfl) hblock rfl
    refine hset.call (F := {(frame, .frame data)}) ?_ fun _ M' hM' => ?_
    · rw [cell_some]
      abel
    obtain ⟨hrep', rfl⟩ := hM'
    rw [msgCells_eq self _ m₁ .headers, o.field_set, hblock, cell_some]
    refine (spec_insertPairs headers .empty n).tail
      (F := {(self, .msg (o.set .headers (some headers)))} +
        behind (o.set .headers (some headers)) m₁ (fields.erase .headers)) (by abel) fun r M' hM' => ?_
    obtain ⟨h', L, rfl, hL, hends⟩ := hM'
    refine ⟨{ m with headers := some h' }, _, L, ⟨_, hrep'.update ?_ (hother h') ?_, rfl⟩, ?_, hL, ?_⟩
    · rw [← hm₁]
    · rw [hblock]
      rfl
    · rw [msgCells_update (hother h'), o.field_set]
      show _ = _ + (_ + ({(headers, Block.hash h')} + _)) + _
      abel
    · rw [readHeaders, getDictionary, bind_assoc, bind_ok hn]
      exact hends.bind_pure fun h => { m with headers := some h }

/-- The remaining frames, which are moved one by one and change owners: CZMQ's message is left empty, and
is destroyed later like any other. -/
theorem spec_getContent {m : ZccpMsg} {rest : List Frame} (hm : IsMsg self m M)
    (hnone : m.block .content = none) :
    Spec ({(msg, .zmsg rest)} + M) (getContent self msg) fun _ M' =>
      ∃ M₀, IsMsg self { m with content := some rest } M₀ ∧ M' = {(msg, .zmsg [])} + M₀ := by
  obtain ⟨o, hrep, rfl⟩ := hm
  refine (spec_alloc (Block.zmsg [])).call (zero_add _).symm fun content M' hM' => ?_
  subst hM'
  have hblock : ∀ frames : List Frame,
      ({ m with content := some frames } : ZccpMsg).block .content = some (.zmsg frames) :=
    fun _ => rfl
  have hset : Spec (msgCells self o m + cell (some content) (some (.zmsg [])))
      (setField self .content (some content)) _ :=
    spec_setField_none { m with content := some [] } hrep hnone rfl
      (fun g hg => block_congr hg rfl) (hblock []) rfl
  refine hset.call (F := {(msg, .zmsg rest)}) ?_ fun _ M' hM' => ?_
  · rw [cell_some]
    abel
  obtain ⟨hrep', rfl⟩ := hM'
  have hother : ∀ g, g ≠ .content → ({ m with content := some rest } : ZccpMsg).block g =
      ({ m with content := some [] } : ZccpMsg).block g := by
    intro g hg
    exact block_congr hg rfl
  have hmove : Spec ({(msg, .zmsg rest)} + {(content, .zmsg [])}) (moveAll msg content) _ :=
    spec_moveAll
  refine hmove.tail (F := {(self, .msg (o.set .content (some content)))} +
    behind (o.set .content (some content)) { m with content := some [] } (fields.erase .content)) ?_
    fun _ M' hM' => ?_
  · rw [msgCells_eq self _ _ .content, o.field_set, hblock, cell_some]
    abel
  refine ⟨_, ⟨_, hrep'.update rfl hother rfl, rfl⟩, ?_⟩
  rw [hM', msgCells_update hother, o.field_set, hblock, cell_some, List.nil_append]
  abel

/-- The dictionary block of the types that have one. -/
theorem spec_guardedHeaders (has : Bool) {m : ZccpMsg} (hm : IsMsg self m M)
    (hnone : m.block .headers = none) :
    Spec ({(frame, .frame data)} + M)
      (if has then getHeaders frame self needle else pure (some needle)) fun r M' =>
        ∃ m' M₀ L, IsMsg self m' M₀ ∧ M' = {(frame, .frame data)} + M₀ + L ∧
          L.map Prod.snd = stray (if has then strandedAt data needle else none) ∧
          EndsAs (guardedHeaders has m data needle) r m' := by
  cases has with
  | true => exact spec_getHeaders hm hnone
  | false => exact .pure ⟨m, M, 0, hm, (add_zero _).symm, rfl, rfl, rfl⟩

theorem spec_guardedContent (has : Bool) {m : ZccpMsg} {rest : List Frame} (hm : IsMsg self m M)
    (hnone : m.block .content = none) :
    Spec ({(msg, .zmsg rest)} + M) (guarded has (getContent self msg)) fun _ M' =>
      ∃ rest' M₀, IsMsg self (if has then { m with content := some rest } else m) M₀ ∧
        M' = {(msg, .zmsg rest')} + M₀ := by
  cases has with
  | true => exact (spec_getContent hm hnone).mono fun _ M' hM' => ⟨[], hM'⟩
  | false => exact .pure ⟨rest, M, hm, rfl⟩

/-- **The fields of a type**, and a key that is forgotten when they cannot be read: strings, headers,
content, each block only if the one before it could be read. -/
theorem spec_getFields {id : MsgId} {rest : List Frame} (hm : IsMsg self (Zccp.zccpMsgNew id) M) :
    Spec ({(frame, .frame data)} + ({(msg, .zmsg rest)} + M)) (getFields frame self msg id needle)
      fun r M' => ∃ m' M₀ rest' L, IsMsg self m' M₀ ∧
        M' = {(frame, .frame data)} + ({(msg, .zmsg rest')} + M₀) + L ∧
        L.map Prod.snd = stray (strandedFields id data needle) ∧
        EndsAs (Zccp.getFields rest id data needle) r m' := by
  have hnone : ∀ f ∈ id.textFields, (Zccp.zccpMsgNew id).block f = none := by
    intro f hf
    rcases isText_textFields id f hf with rfl | rfl | rfl | rfl <;> rfl
  have htexts := readTexts_getTexts id.textFields (Zccp.zccpMsgNew id) data needle
  have hlength : id.textFields.length = id.texts := by cases id <;> rfl
  rw [hlength] at htexts
  rw [getFields_eq, strandedFields]
  refine (spec_getHosts id.textFields (isText_textFields id) (nodup_textFields id) hm hnone).call
    (F := {(msg, .zmsg rest)}) (by abel) fun r M' hM' => ?_
  obtain ⟨m₁, M₁, hm₁, rfl, hends⟩ := hM'
  cases r with
  | none =>
    -- a string is missing: no dictionary has been begun, and no key is in hand
    obtain ⟨e, he⟩ := hends.error
    rw [he] at htexts
    refine .pure ⟨m₁, M₁, rest, 0, hm₁, by abel, ?_, hends.bind_none _ m₁⟩
    cases ht : getTexts id.texts data needle with
    | error e => rfl
    | ok r =>
      rw [ht] at htexts
      cases htexts
  | some needle₁ =>
    have hok := hends.ok
    rw [bind_ok hok]
    rw [hok] at htexts
    cases ht : getTexts id.texts data needle with
    | error e =>
      rw [ht] at htexts
      cases htexts
    | ok r =>
      obtain ⟨texts, needle₂⟩ := r
      rw [ht] at htexts
      obtain rfl : needle₁ = needle₂ := Option.some.inj htexts
      -- the fields that come next are `NULL` still
      have hother : ∀ f : Field, f ∉ id.textFields → m₁.block f = (Zccp.zccpMsgNew id).block f :=
        fun f hf => readTexts_other hok hf
      have hheaders : m₁.block .headers = none := hother .headers (by cases id <;> decide)
      have hcontent : m₁.block .content = none := hother .content (by cases id <;> decide)
      refine (spec_guardedHeaders id.hasHeaders hm₁ hheaders).call (F := {(msg, .zmsg rest)})
        (by abel) fun r M' hM' => ?_
      obtain ⟨m₂, M₂, L, hm₂, rfl, hL, hends₂⟩ := hM'
      cases r with
      | none => exact .pure ⟨m₂, M₂, rest, L, hm₂, by abel, hL, hends₂.bind_none _ m₂⟩
      | some needle₂ =>
        have hcontent₂ : m₂.block .content = none := by
          rw [← hcontent]
          exact guardedHeaders_content hends₂.ok
        refine (spec_guardedContent id.hasContent hm₂ hcontent₂).call
          (F := {(frame, .frame data)} + L) (by abel) fun _ M' hM' => ?_
        obtain ⟨rest', M₃, hm₃, rfl⟩ := hM'
        refine .pure ⟨_, M₃, rest', L, hm₃, by abel, hL, ?_⟩
        rw [bind_ok hends₂.ok]
        exact ⟨rfl, rfl⟩

/-- The error labels free what there is. -/
theorem spec_fail {m : ZccpMsg} {frame : Option Nat} {F : Cells Block} {rest : List Frame}
    (hframe : Spec F (zframeDestroy frame) fun _ M' => M' = 0) (hm : IsMsg self m M) :
    Spec (F + ({(msg, .zmsg rest)} + M)) (fail frame msg self) fun r M' => r = none ∧ M' = 0 := by
  refine hframe.drop rfl ?_
  refine (spec_zmsgDestroy msg rest).drop rfl ?_
  exact (spec_zccpMsgDestroy hm).drop (add_zero _).symm (.pure ⟨rfl, rfl⟩)

end Reading

/-! ## Whole messages -/

/-- What a caller can hold. -/
inductive Held
  | msg (m : ZccpMsg)
  | hash (h : Zhash)
  | zmsg (frames : List Frame)

/-- It is behind this pointer, in these cells. -/
def Owns : Option Nat → Option Held → Cells Block → Prop
  | none, none, M => M = 0
  | some p, some (.msg m), M => IsMsg p m M
  | some p, some (.hash h), M => M = {(p, .hash h)}
  | some p, some (.zmsg frames), M => M = {(p, .zmsg frames)}
  | _, _, _ => False

section Owns

variable {p : Option Nat} {M : Cells Block}

/-- Holding nothing is holding `NULL`, and no cells. -/
theorem Owns.none (h : Owns p none M) : p = none ∧ M = 0 := by
  cases p with
  | none => exact ⟨rfl, h⟩
  | some p => exact h.elim

theorem Owns.msg {m : ZccpMsg} (h : Owns p (some (.msg m)) M) : ∃ q, p = some q ∧ IsMsg q m M := by
  cases p with
  | none => exact h.elim
  | some p => exact ⟨p, rfl, h⟩

end Owns

/-- The decoder of the model without pointers, from where the fields begin. -/
theorem decode_cons (frame : Frame) (rest : List Frame) :
    (Zccp.zccpMsgDecode (frame :: rest)).toOption =
      match getId frame 0 with
      | .ok (some id, needle) => (Zccp.getFields rest id frame needle).toOption.map Prod.fst
      | _ => none := by
  rw [Zccp.zccpMsgDecode, getId]
  cases h₂ : number 2 frame 0 with
  | error e => rw [bind_error h₂]; rfl
  | ok r =>
    obtain ⟨signature, needle⟩ := r
    rw [bind_ok h₂]
    by_cases hs : signature ≠ (0xAAA0 ||| 10)
    · simp only [if_pos hs]
      rfl
    · simp only [if_neg hs]
      cases h₁ : number 1 frame needle with
      | error e => rw [bind_error h₁]; rfl
      | ok r =>
        obtain ⟨code, needle⟩ := r
        rw [bind_ok h₁, pure_apply]
        cases hid : MsgId.ofCode code with
        | none => simp only [hid]; rfl
        | some id =>
          simp only [hid]
          cases Zccp.getFields rest id frame needle <;> rfl

/-- The key that a message leaves behind. -/
def strandedOf (frames : List Frame) : Option CStr := frames.head?.bind strandedKey

/-- One that is decoded leaves none. -/
theorem strandedOf_decoded {frames : List Frame} {m : ZccpMsg} (h : Zccp.zccpMsgDecode frames = .ok m) :
    strandedOf frames = none := by
  cases frames with
  | nil => rfl
  | cons frame rest =>
    have hd := decode_cons frame rest
    rw [h] at hd
    rw [strandedOf, List.head?_cons, Option.bind_some, strandedKey]
    split at hd
    · rename_i id needle hid
      obtain ⟨r, hr, -⟩ := Option.map_eq_some_iff.mp hd.symm
      cases hf : Zccp.getFields rest id frame needle with
      | error e => rw [hf] at hr; cases hr
      | ok r' =>
        rw [getFields_eq] at hf
        obtain ⟨m₁, n₁, htexts, hf⟩ := bind_eq_ok hf
        obtain ⟨m₂, n₂, hheaders, -⟩ := bind_eq_ok hf
        have hneedle := readTexts_getTexts id.textFields (Zccp.zccpMsgNew id) frame needle
        have hlength : id.textFields.length = id.texts := by cases id <;> rfl
        rw [htexts, hlength] at hneedle
        simp only [strandedFields]
        cases ht : getTexts id.texts frame needle with
        | error e => rfl
        | ok r =>
          rw [ht] at hneedle
          obtain rfl : n₁ = r.2 := Option.some.inj hneedle
          cases hhas : id.hasHeaders with
          | false => rfl
          | true =>
            rw [hhas] at hheaders
            obtain ⟨h', n, hdict, -⟩ := bind_eq_ok (p := getDictionary) hheaders
            obtain ⟨hashSize, n', hnumber, hpairs⟩ := bind_eq_ok (p := number 4) hdict
            simp only [if_pos, strandedAt, hnumber]
            exact strandedIn_eq_none hpairs
    · cases hd

/-- **A message is decoded, and the one it came in is gone**, but for a key that is forgotten. It is gone
on every way out, malformed or not; `zccp_msg_decode` takes the pointer from its caller. -/
theorem spec_zccpMsgDecode (msg : Nat) (frames : List Frame) :
    Spec {(msg, .zmsg frames)} (zccpMsgDecode (some msg)) fun r M' => ∃ M₀ L,
      Owns r ((Zccp.zccpMsgDecode frames).toOption.map .msg) M₀ ∧ M' = M₀ + L ∧
      L.map Prod.snd = stray (strandedOf frames) := by
  refine (spec_zccpMsgNew .unset).call (zero_add _).symm fun self M hM => ?_
  cases frames with
  | nil =>
    refine spec_zmsgPop_nil.call (add_comm _ _) fun r M' hM' => ?_
    obtain ⟨rfl, rfl⟩ := hM'
    have hframe : Spec 0 (zframeDestroy none) fun _ M' => M' = 0 := .pure rfl
    have hfail : Spec (0 + ({(msg, .zmsg [])} + M)) (fail none msg self) _ := spec_fail hframe hM
    rw [zero_add] at hfail
    refine hfail.mono fun r M' hM' => ?_
    obtain ⟨rfl, rfl⟩ := hM'
    exact ⟨0, 0, rfl, rfl, rfl⟩
  | cons data rest =>
    refine (spec_zmsgPop_cons data).call (add_comm _ _) fun r M' hM' => ?_
    obtain ⟨frame, rfl, rfl⟩ := hM'
    -- from wherever the decoder jumps to the labels, there is a message as far as it has been read
    have hfail : ∀ {m : ZccpMsg} {N : Cells Block} (rest' : List Frame), IsMsg self m N →
        Spec ({(frame, .frame data)} + ({(msg, .zmsg rest')} + N)) (fail (some frame) msg self)
          fun r M' => r = none ∧ M' = 0 :=
      fun rest' hm => spec_fail (spec_zframeDestroy frame data) hm
    refine (spec_readAt tame_getId frame 0 data).call (F := {(msg, .zmsg rest)} + M) (by abel)
      fun r M' hM' => ?_
    obtain ⟨rfl, rfl⟩ := hM'
    rw [decode_cons, strandedOf, List.head?_cons, Option.bind_some, strandedKey]
    cases hid : getId data 0 with
    | error e =>
      refine (hfail rest hM).mono fun r M' hM' => ?_
      obtain ⟨rfl, rfl⟩ := hM'
      exact ⟨0, 0, rfl, rfl, rfl⟩
    | ok r =>
      obtain ⟨id, needle⟩ := r
      cases id with
      | none =>
        refine (hfail rest hM).mono fun r M' hM' => ?_
        obtain ⟨rfl, rfl⟩ := hM'
        exact ⟨0, 0, rfl, rfl, rfl⟩
      | some id =>
        refine (spec_zccpMsgSetId hM id).call (F := {(frame, .frame data)} + {(msg, .zmsg rest)})
          (by abel) fun _ M' hM' => ?_
        refine (spec_getFields hM').call (F := 0) (by abel) fun r M' hfields => ?_
        obtain ⟨m', M₀, rest', L, hm', rfl, hL, hends⟩ := hfields
        cases r with
        | none =>
          obtain ⟨e, he⟩ := hends.error
          refine (hfail rest' hm').tail (F := L) (by abel) fun r M' hM' => ?_
          obtain ⟨rfl, rfl⟩ := hM'
          refine ⟨0, L, ?_, rfl, hL⟩
          simp only [he]
          rfl
        | some needle' =>
          refine (spec_zframeDestroy frame data).drop (F := {(msg, .zmsg rest')} + (M₀ + L)) (by abel) ?_
          refine (spec_zmsgDestroy msg rest').drop rfl ?_
          refine .pure ⟨M₀, L, ?_, rfl, hL⟩
          simp only [hends.ok]
          exact hm'

/-- What is received. -/
def received (router : Bool) (arrived : List Frame) : Option ZccpMsg :=
  if router then Broker.zccpMsgRecv arrived else (Zccp.zccpMsgDecode arrived).toOption

/-- What is left of it that nobody has. On a `ROUTER` that is the routing id, too, unless the message
is decoded. -/
def leftover (router : Bool) (arrived : List Frame) : Multiset Block :=
  match router, arrived with
  | false, frames => stray (strandedOf frames)
  | true, [] => {.zmsg []}
  | true, routingId :: frames =>
    if frames.isEmpty then {.frame routingId} + {.zmsg []}
    else
      match Zccp.zccpMsgDecode frames with
      | .ok _ => stray (strandedOf frames)
      | .error _ => {.frame routingId} + stray (strandedOf frames)

/-- **A message is received**, and of the one it came in no more is left than is said. Its routing id is
popped before anything else is known about it, and is put into the message only once there is one. -/
theorem spec_zccpMsgRecv (router : Bool) (arrived : List Frame) :
    Spec 0 (zccpMsgRecv router arrived) fun r M' => ∃ M₀ L,
      Owns r ((received router arrived).map .msg) M₀ ∧ M' = M₀ + L ∧
      L.map Prod.snd = leftover router arrived := by
  refine (spec_alloc (Block.zmsg arrived)).call (zero_add _).symm fun msg M hM => ?_
  rw [hM, add_zero]
  cases router with
  | false => exact spec_zccpMsgDecode msg arrived
  | true =>
    cases arrived with
    | nil =>
      refine spec_zmsgPop_nil.bind fun r M' hM' => ?_
      obtain ⟨rfl, rfl⟩ := hM'
      exact .pure ⟨0, {(msg, .zmsg [])}, rfl, (zero_add _).symm, rfl⟩
    | cons data frames =>
      refine (spec_zmsgPop_cons data).bind fun r M' hM' => ?_
      obtain ⟨routingId, rfl, rfl⟩ := hM'
      refine spec_read .zmsg (Multiset.mem_add.mpr (.inl (Multiset.mem_singleton_self _))) ?_
      rw [received, if_pos rfl, Broker.zccpMsgRecv, leftover]
      cases frames with
      | nil =>
        -- the early return, with both objects in hand
        refine .pure ⟨0, {(routingId, .frame data)} + {(msg, .zmsg [])}, rfl, ?_, ?_⟩
        · rw [zero_add]
          exact add_comm _ _
        · rw [Multiset.map_add]
          rfl
      | cons frame frames =>
        have hne : ¬ (frame :: frames).isEmpty := Bool.false_ne_true
        simp only [if_neg hne]
        refine (spec_zccpMsgDecode msg (frame :: frames)).call rfl fun r M' hM' => ?_
        obtain ⟨M₀, L, howns, rfl, hL⟩ := hM'
        cases hd : Zccp.zccpMsgDecode (frame :: frames) with
        | error e =>
          -- there is no message to put the routing id into
          rw [hd] at howns
          obtain ⟨rfl, rfl⟩ := howns.none
          refine .pure ⟨0, {(routingId, .frame data)} + L, rfl, by abel, ?_⟩
          rw [Multiset.map_add, hL]
          rfl
        | ok m =>
          rw [hd] at howns
          obtain ⟨self, rfl, o, hrep, rfl⟩ := howns.msg
          have hnone : m.block .routingId = none :=
            congrArg (Option.map Kind.frame.make) (zccpMsgDecode_shape hd).1
          have hset : Spec (msgCells self o m + cell (some routingId) (some (.frame data)))
              (setField self .routingId (some routingId)) _ :=
            spec_setField_none { m with routingId := some data } hrep hnone rfl
              (fun g hg => block_congr hg rfl) rfl rfl
          refine hset.call (F := L) ?_ fun _ M' hM' => ?_
          · rw [cell_some]
            abel
          obtain ⟨hrep', rfl⟩ := hM'
          exact .pure ⟨_, L, ⟨_, hrep', rfl⟩, rfl, hL⟩

/-! ## When a key is forgotten -/

/-- The frame breaks off behind a key: its dictionary has more entries to come, one of them begins, and
what is there is no value. -/
def BreaksOff (frame : Frame) (key : CStr) : Prop :=
  ∃ (id : MsgId) (texts : List (List UInt8)) (n : Nat) (pairs : List (CStr × CStr))
    (pb kb tail : List UInt8), id.hasHeaders = true ∧ texts.length = id.texts ∧
    (∀ text ∈ texts, text.length < 256 ^ 1) ∧ n < 256 ^ 4 ∧ pairs.length < n ∧ IsPairs pairs pb ∧
    IsString key kb ∧ (∀ value vb rest, IsLongstr value vb → tail ≠ vb ++ rest) ∧
    frame = [0xAA, 0xAA, UInt8.ofNat id.code] ++
      (texts.flatMap (sized 1) ++ (beBytes 4 n ++ (pb ++ (kb ++ tail))))

section BreaksOff

variable {frame : Frame} {key : CStr}

/-- The types are told apart behind the signature. -/
theorem getId_eq_iff {id : MsgId} {needle : Nat} :
    getId frame 0 = .ok (some id, needle) ↔
      id ≠ .unset ∧ needle = 3 ∧ ∃ tail, frame = [0xAA, 0xAA, UInt8.ofNat id.code] ++ tail := by
  constructor
  · intro h
    obtain ⟨signature, n₂, h₂, h⟩ := bind_eq_ok h
    obtain ⟨bs, rest, ⟨rfl, hbs⟩, rfl, rfl⟩ := ((reads_number 2).ok_iff [] frame).mp h₂
    by_cases hs : bigEndian bs ≠ (0xAAA0 ||| 10)
    · rw [if_pos hs] at h
      cases h
    rw [if_neg hs] at h
    obtain ⟨code, n₁, h₁, h⟩ := bind_eq_ok h
    obtain ⟨cs, tail, ⟨rfl, hcs⟩, rfl, rfl⟩ := ((reads_number 1).ok_iff bs rest).mp h₁
    obtain ⟨a, b, rfl⟩ := List.length_eq_two.mp hbs
    obtain ⟨c, rfl⟩ := List.length_eq_one_iff.mp hcs
    obtain ⟨rfl, rfl⟩ := bigEndian_pair_eq (not_not.mp hs)
    injection h with h
    injection h with hid hneedle
    obtain ⟨hne, hcode⟩ := MsgId.ofCode_eq_some_iff.mp hid
    refine ⟨hne, hneedle.symm, tail, ?_⟩
    have hc : UInt8.ofNat id.code = c := by
      rw [← hcode]
      simp [bigEndian]
    rw [hc]
    rfl
  · rintro ⟨hne, rfl, tail, rfl⟩
    have h₂ := (reads_number 2).complete [] [0xAA, 0xAA] (UInt8.ofNat id.code :: tail) ⟨rfl, rfl⟩
    have h₁ := (reads_number 1).complete [0xAA, 0xAA] [UInt8.ofNat id.code] tail ⟨rfl, rfl⟩
    rw [getId]
    refine (bind_ok h₂).trans ?_
    rw [if_neg (by decide)]
    refine (bind_ok h₁).trans ?_
    have hcode : bigEndian [UInt8.ofNat id.code] = (UInt8.ofNat id.code).toNat := by simp [bigEndian]
    rw [hcode, MsgId.ofCode_ofNat hne]
    rfl

/-- The loop over the entries of a dictionary stops at a value that it cannot read, and has that value's
key in its hands. -/
theorem strandedIn_of_breaksOff {n : Nat} {pairs : List (CStr × CStr)} {pb kb : List UInt8}
    (hpairs : IsPairs pairs pb) (hn : pairs.length < n) (hkey : IsString key kb) (tail : List UInt8)
    (htail : ∀ value vb rest, IsLongstr value vb → tail ≠ vb ++ rest) (pre : List UInt8) :
    strandedIn (pre ++ (pb ++ (kb ++ tail))) n pre.length = some key := by
  induction hpairs generalizing pre n with
  | nil =>
    obtain ⟨n, rfl⟩ := Nat.exists_eq_succ_of_ne_zero (Nat.ne_of_gt hn)
    have hk := reads_getString.complete pre kb tail hkey
    obtain ⟨e, he⟩ := (reads_getLongstr.error_iff (pre ++ kb) tail).mpr htail
    rw [List.append_assoc] at he
    rw [List.nil_append, strandedIn, hk]
    simp only [he]
  | @cons k v pairs kb' vb pb hk hv hpairs ih =>
    obtain ⟨n, rfl⟩ := Nat.exists_eq_succ_of_ne_zero (Nat.ne_of_gt (Nat.zero_lt_of_lt hn))
    have hk' := reads_getString.complete pre kb' (vb ++ (pb ++ (kb ++ tail))) hk
    have hv' := reads_getLongstr.complete (pre ++ kb') vb (pb ++ (kb ++ tail)) hv
    have hrest := ih (Nat.lt_of_succ_lt_succ hn) (pre ++ kb' ++ vb)
    simp only [List.append_assoc] at hk' hv' hrest ⊢
    rw [strandedIn, hk']
    simp only [hv']
    exact hrest

/-- Wherever the loop stops with a key in its hands, so many entries could be read, then the key, and
behind it there is no value. -/
theorem breaksOff_of_strandedIn {n : Nat} {pre tail : List UInt8}
    (h : strandedIn (pre ++ tail) n pre.length = some key) :
    ∃ pairs pb kb rest, IsPairs pairs pb ∧ pairs.length < n ∧ IsString key kb ∧
      (∀ value vb rest', IsLongstr value vb → rest ≠ vb ++ rest') ∧ tail = pb ++ (kb ++ rest) := by
  induction n generalizing pre tail with
  | zero => cases h
  | succ n ih =>
    rw [strandedIn] at h
    rcases reads_getString.sound pre tail with ⟨k, kb, rest, hk, rfl, hp⟩ | hm
    · rw [hp] at h
      rcases reads_getLongstr.sound (pre ++ kb) rest with ⟨v, vb, rest', hv, rfl, hq⟩ | hm
      · have happend : pre ++ (kb ++ (vb ++ rest')) = pre ++ kb ++ vb ++ rest' := by
          simp only [List.append_assoc]
        rw [List.append_assoc] at hq
        simp only [hq] at h
        rw [happend] at h
        obtain ⟨pairs, pb, kb', rest, hpairs, hn, hkey, hrest, rfl⟩ := ih h
        refine ⟨(k, v) :: pairs, kb ++ (vb ++ pb), kb', rest, .cons hk hv hpairs, Nat.succ_lt_succ hn,
          hkey, hrest, ?_⟩
        simp only [List.append_assoc]
      · have hrest := (reads_getLongstr.error_iff (pre ++ kb) rest).mp ⟨_, hm⟩
        rw [List.append_assoc] at hm
        simp only [hm] at h
        cases h
        exact ⟨[], [], kb, rest, .nil, Nat.succ_pos n, hk, hrest, rfl⟩
    · rw [hm] at h
      cases h

/-- **A key is forgotten exactly when the frame breaks off behind it.** What the loop does with a frame, on
the left, is put as what the frame is, on the right; the decoder does not appear there. -/
theorem strandedKey_eq_some_iff : strandedKey frame = some key ↔ BreaksOff frame key := by
  constructor
  · intro h
    rw [strandedKey] at h
    split at h
    · rename_i id needle hid
      obtain ⟨hne, rfl, tail, rfl⟩ := getId_eq_iff.mp hid
      rw [strandedFields] at h
      split at h
      · cases h
      rename_i texts needle hts
      obtain ⟨bs, rest, ⟨hlength, hshort, rfl⟩, rfl, rfl⟩ :=
        ((reads_getTexts id.texts).ok_iff [0xAA, 0xAA, UInt8.ofNat id.code] tail).mp hts
      split at h
      · rename_i hheaders
        rw [strandedAt] at h
        split at h
        · cases h
        rename_i n needle hn
        rw [← List.append_assoc] at hn h
        obtain ⟨nb, rest, ⟨rfl, hnb⟩, rfl, rfl⟩ := ((reads_number 4).ok_iff _ rest).mp hn
        rw [← List.append_assoc] at h
        obtain ⟨pairs, pb, kb, rest, hpairs, hlt, hkey, hrest, rfl⟩ := breaksOff_of_strandedIn h
        have hcount : bigEndian nb < 256 ^ 4 := hnb ▸ bigEndian_lt nb
        refine ⟨id, texts, bigEndian nb, pairs, pb, kb, rest, hheaders, hlength, hshort, hcount, hlt,
          hpairs, hkey, hrest, ?_⟩
        rw [← hnb, beBytes_bigEndian]
      · cases h
    · cases h
  · rintro ⟨id, texts, n, pairs, pb, kb, tail, hheaders, hlength, hshort, hn, hlt, hpairs, hkey, htail,
      rfl⟩
    have hne : id ≠ .unset := by
      rintro rfl
      cases hheaders
    -- each reader in turn finds what the frame has there
    generalize hpre : [0xAA, 0xAA, UInt8.ofNat id.code] = pre
    generalize hrest : pb ++ (kb ++ tail) = rest
    have hthree : pre.length = 3 := by rw [← hpre]; rfl
    have hid := getId_eq_iff.mpr ⟨hne, rfl, texts.flatMap (sized 1) ++ (beBytes 4 n ++ rest), rfl⟩
    have hts := (reads_getTexts id.texts).complete pre (texts.flatMap (sized 1)) (beBytes 4 n ++ rest)
      ⟨hlength, hshort, rfl⟩
    have hcount := (reads_number 4).complete (pre ++ texts.flatMap (sized 1)) (beBytes 4 n) rest
      ⟨(bigEndian_beBytes_of_lt hn).symm, by simp⟩
    have hin := strandedIn_of_breaksOff hpairs hlt hkey tail htail
      (pre ++ texts.flatMap (sized 1) ++ beBytes 4 n)
    rw [hpre, ← hthree] at hid
    rw [hrest] at hin
    simp only [List.append_assoc] at hid hts hcount hin ⊢
    simp only [strandedKey, hid, strandedFields, hts, if_pos hheaders, strandedAt, hcount, hin]

end BreaksOff

/-- The first frame of a message does not break off. -/
def Unbroken (frames : List Frame) : Prop :=
  ∀ frame rest key, frames = frame :: rest → ¬ BreaksOff frame key

theorem stray_eq_zero_iff {key : Option CStr} : stray key = 0 ↔ key = none := by
  cases key with
  | none => exact ⟨fun _ => rfl, fun _ => rfl⟩
  | some key =>
    refine ⟨fun h => ?_, fun h => nomatch h⟩
    exact absurd h (Multiset.singleton_ne_zero _)

/-- Decoding a message leaves nothing behind exactly when its first frame does not break off behind a
key: that key is the one object that the decoder forgets. -/
theorem stray_strandedOf_iff (frames : List Frame) : stray (strandedOf frames) = 0 ↔ Unbroken frames := by
  rw [stray_eq_zero_iff]
  cases frames with
  | nil => exact ⟨fun _ frame rest key h => (nomatch h), fun _ => rfl⟩
  | cons frame rest =>
    rw [strandedOf, List.head?_cons, Option.bind_some]
    constructor
    · intro hnone frame' rest' key h hbreaks
      cases h
      rw [strandedKey_eq_some_iff.mpr hbreaks] at hnone
      cases hnone
    · intro hunbroken
      cases hkey : strandedKey frame with
      | none => rfl
      | some key => exact absurd (strandedKey_eq_some_iff.mp hkey) (hunbroken frame rest key rfl)

/-- Receiving a message on a `ROUTER` leaves nothing behind exactly when it is decoded, since the routing
id is forgotten on every other way out; elsewhere it is the decoder alone that counts. -/
theorem leftover_eq_zero_iff (router : Bool) (arrived : List Frame) :
    leftover router arrived = 0 ↔
      if router then (Broker.zccpMsgRecv arrived).isSome = true else Unbroken arrived := by
  cases router with
  | false => exact stray_strandedOf_iff arrived
  | true =>
    cases arrived with
    | nil =>
      refine ⟨fun h => ?_, fun h => nomatch h⟩
      exact absurd h (Multiset.singleton_ne_zero _)
    | cons routingId frames =>
      rw [leftover, if_pos rfl, Broker.zccpMsgRecv]
      split
      · refine ⟨fun h => ?_, fun h => nomatch h⟩
        rw [Multiset.singleton_add] at h
        exact absurd h Multiset.cons_ne_zero
      · cases hd : Zccp.zccpMsgDecode frames with
        | ok m =>
          simp only [strandedOf_decoded hd]
          exact ⟨fun _ => rfl, fun _ => rfl⟩
        | error e =>
          refine ⟨fun h => ?_, fun h => nomatch h⟩
          rw [Multiset.singleton_add] at h
          exact absurd h Multiset.cons_ne_zero

end Zccp.Memory
