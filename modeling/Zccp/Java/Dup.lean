import Zccp.Java.Send
import Zccp.Msg.Dup

/-!
# `Zccp/Java/Dup.lean` — the duplicates of the Java class

`dup` hands the headers to a constructor that does not take `null`, and has no line for the content.
So it throws for a message whose headers have not been set, which `send` can send, and what it makes of
a message with a content is one without (`duplicates_java_iff`).
-/

set_option autoImplicit false

namespace Zccp.Java

open Lib

/-- `new HashMap <String, String> (headers)`; a `NullPointerException` is `none`. -/
def newHashMap (hashMap : Headers → Headers) (headers : Option Headers) : Option Headers :=
  headers.map hashMap

namespace ZccpMsg

/-- `dup`, with that constructor. -/
def dup (hashMap : Headers → Headers) (self : ZccpMsg) : Option ZccpMsg :=
  let copy := { new self.id with routingId := self.routingId }
  match self.id with
  | .hello => do
    let headers ← newHashMap hashMap self.headers
    some { copy with identifier := self.identifier, headers := some headers }
  | .helloOk => do
    let headers ← newHashMap hashMap self.headers
    some { copy with headers := some headers }
  | .subscribe => do
    let headers ← newHashMap hashMap self.headers
    some { copy with expression := self.expression, headers := some headers }
  | .subscribeOk => some copy
  | .publish => do
    let headers ← newHashMap hashMap self.headers
    some { copy with address := self.address, headers := some headers }
  | .direct => do
    let headers ← newHashMap hashMap self.headers
    some { copy with address := self.address, headers := some headers }
  | .deliver => do
    let headers ← newHashMap hashMap self.headers
    some { copy with sender := self.sender, address := self.address, headers := some headers }
  | .goodbye => some copy
  | .goodbyeOk => do
    let headers ← newHashMap hashMap self.headers
    some { copy with headers := some headers }
  | .ping => some copy
  | .pingOk => some copy
  | .invalid => some copy
  | .unset => some copy

/-- The same message, with headers that are walked in some other order. -/
structure Walks (m m' : ZccpMsg) : Prop where
  fields : m' = { m with headers := m'.headers }
  entries : Option.Rel (fun h h' => h.entries.Perm h'.entries) m.headers m'.headers

/-- What it may send, which on every socket is the frames alone. -/
def Sends (_router : Bool) (self : ZccpMsg) (sent : Sent) : Prop :=
  sent.routingId = none ∧ ∃ walked, self.Walks walked ∧ walked.send = some sent.frames

end ZccpMsg

/-- The Java class, as far as that goes. -/
def javaCodec (hashMap : Headers → Headers) : Codec ZccpMsg where
  dup := ZccpMsg.dup hashMap
  routingId := ZccpMsg.routingId
  sends := ZccpMsg.Sends
  fits := ZccpMsg.ForC

/-! ## What goes out -/

namespace ZccpMsg

theorem walks_refl (m : ZccpMsg) : m.Walks m where
  fields := rfl
  entries := optionRel_refl (fun h => List.Perm.refl h.entries) _

/-- Messages with the same fields but for the order of their headers and for the content; of those
that their type does not have nothing is said. -/
structure Alike (m m' : ZccpMsg) : Prop where
  id : m'.id = m.id
  texts : m'.texts = m.texts
  headers : m.id.hasHeaders = true →
    Option.Rel (fun h h' => h.entries.Perm h'.entries) m.headers m'.headers

/-- The headers are walked in another order, and that is all. -/
theorem Walks.alike {m m' : ZccpMsg} (h : m.Walks m') : m.Alike m' := by
  obtain ⟨hfields, hentries⟩ := h
  rw [hfields]
  exact ⟨rfl, rfl, fun _ => hentries⟩

theorem Walks.contentParts_eq {m m' : ZccpMsg} (h : m.Walks m') :
    m'.contentParts = m.contentParts := by
  rw [h.fields]
  rfl

theorem measuredFrame_congr {m m' : ZccpMsg} (hid : m'.id = m.id) (htexts : m'.texts = m.texts)
    (hheaders : m'.headerMap = m.headerMap) : m'.measuredFrame = m.measuredFrame := by
  rw [measuredFrame, measuredFrame, measuredFields, measuredFields, hid, htexts, hheaders]

namespace Alike

variable {m m' w' : ZccpMsg}

theorem symm (h : m.Alike m') : m'.Alike m where
  id := h.id.symm
  texts := h.texts.symm
  headers hid := optionRel_symm List.Perm.symm (h.headers (h.id ▸ hid))

theorem perm_headerMap (h : m.Alike m') : (toPairs m.headerMap).Perm (toPairs m'.headerMap) := by
  rw [headerMap, headerMap, h.id]
  split
  · rename_i hid
    exact (optionRel_getD (r := fun h h' : Headers => h.entries.Perm h'.entries)
      (List.Perm.refl _) (h.headers hid)).map _
  · exact List.Perm.refl _

/-- Messages that are alike have the same characters, if not in the same order, so that both are ASCII
or neither is. -/
theorem ascii_chars (h : m.Alike m') : Ascii m'.chars ↔ Ascii m.chars := by
  have hperm : m.chars.Perm m'.chars := by
    rw [chars, chars, h.texts]
    exact (h.perm_headerMap.flatMap_right _).append_left _
  constructor
  · intro hascii c hc
    exact hascii c (hperm.mem_iff.mp hc)
  · intro hascii c hc
    exact hascii c (hperm.mem_iff.mpr hc)

/-- Messages that are alike have frames of one length: the order of the headers does not change it. -/
theorem length_measuredFrame (h : m.Alike m') :
    m'.measuredFrame.length = m.measuredFrame.length := by
  have hperm : m.measuredFields.Perm m'.measuredFields := by
    rw [measuredFields, measuredFields, h.texts, h.id]
    refine List.Perm.append_left _ ?_
    split
    · rw [h.perm_headerMap.length_eq]
      exact (h.perm_headerMap.flatMap_right _).append_left _
    · exact List.Perm.refl _
  rw [measuredFrame, measuredFrame, List.length_cons, List.length_cons, List.length_cons,
    List.length_cons, List.length_cons, List.length_cons, hperm.length_eq]

/-- Each way to walk the headers of the one is a way to walk those of the other. -/
theorem walks (h : m.Alike m') (hw' : m'.Walks w') :
    ∃ w, m.Walks w ∧ w.measuredFrame = w'.measuredFrame := by
  have hid : w'.id = m.id := hw'.alike.id.trans h.id
  have htexts : w'.texts = m.texts := hw'.alike.texts.trans h.texts
  by_cases hhas : m.id.hasHeaders = true
  · refine ⟨{ m with headers := w'.headers }, ⟨rfl, ?_⟩, ?_⟩
    · exact optionRel_trans List.Perm.trans (h.headers hhas) hw'.entries
    · refine measuredFrame_congr hid.symm htexts.symm ?_
      rw [headerMap, headerMap, hid]
  · refine ⟨m, walks_refl m, measuredFrame_congr hid.symm htexts.symm ?_⟩
    rw [headerMap, headerMap, hid, if_neg hhas, if_neg hhas]

theorem perm_pairs (h : m.Alike m') : m.pairs.Perm m'.pairs := h.perm_headerMap.map _

/-- What they say can differ in the content only. -/
theorem saying_eq (h : m.Alike m') (hcontent : m'.contentParts = m.contentParts) :
    m'.saying = m.saying := by
  have hnodup : (m'.pairs.map Prod.fst).Nodup := by
    rw [pairs, List.map_map]
    have hkeys := (nodup_toPairs m'.headerMap).map fun _ _ => utf8_injective
    rwa [List.map_map] at hkeys
  apply Saying.ext
  · exact h.id
  · show m'.texts.map _ = m.texts.map _
    rw [h.texts]
  · exact funext (firstValue_eq_of_perm h.perm_pairs.symm hnodup)
  · exact hcontent

theorem forC (h : m.Alike m') (hcontent : m'.contentParts = m.contentParts) (hforC : m.ForC) :
    m'.ForC where
  id := by
    rw [h.id]
    exact hforC.id
  texts := by
    rw [h.saying_eq hcontent]
    exact hforC.texts
  keys p hp := hforC.keys p (h.perm_pairs.mem_iff.mpr hp)
  values p hp := hforC.values p (h.perm_pairs.mem_iff.mpr hp)

end Alike

/-- It can be sent: its characters are ASCII, and its first frame has a size that is an `int`. -/
def Sendable (self : ZccpMsg) : Prop := Ascii self.chars ∧ self.measuredFrame.length < 2 ^ 31

theorem Alike.sendable_iff {m m' : ZccpMsg} (h : m.Alike m') : m'.Sendable ↔ m.Sendable := by
  rw [Sendable, Sendable, h.ascii_chars, h.length_measuredFrame]

theorem sends_iff (self : ZccpMsg) (router : Bool) (sent : Sent) :
    self.Sends router sent ↔ self.Sendable ∧ sent.routingId = none ∧
      ∃ walked, self.Walks walked ∧ sent.frames = walked.measuredFrame :: self.contentParts := by
  constructor
  · rintro ⟨hrouting, walked, hwalked, hsend⟩
    obtain ⟨hascii, hlt, hframes⟩ := (send_eq_some_iff walked _).mp hsend
    rw [hwalked.contentParts_eq] at hframes
    exact ⟨hwalked.alike.sendable_iff.mp ⟨hascii, hlt⟩, hrouting, walked, hwalked, hframes⟩
  · rintro ⟨hsendable, hrouting, walked, hwalked, hframes⟩
    obtain ⟨hascii, hlt⟩ := hwalked.alike.sendable_iff.mpr hsendable
    refine ⟨hrouting, walked, hwalked, (send_eq_some_iff walked _).mpr ⟨hascii, hlt, ?_⟩⟩
    rw [hframes, hwalked.contentParts_eq]

/-- **Messages that are alike send the same**, if they have the same content or cannot be sent. -/
theorem Alike.sends_iff {m m' : ZccpMsg} (h : m.Alike m')
    (hcontent : m'.contentParts = m.contentParts ∨ ¬ m.Sendable) (router : Bool) (sent : Sent) :
    m'.Sends router sent ↔ m.Sends router sent := by
  have himp : ∀ {m m' : ZccpMsg}, m.Alike m' → m'.contentParts = m.contentParts →
      m'.Sends router sent → m.Sends router sent := by
    intro m m' h hcontent hsent
    obtain ⟨hsendable, hrouting, w', hw', hframes⟩ := (ZccpMsg.sends_iff m' router sent).mp hsent
    obtain ⟨w, hw, hframe⟩ := h.walks hw'
    rw [← hframe, hcontent] at hframes
    exact (ZccpMsg.sends_iff m router sent).mpr
      ⟨h.sendable_iff.mp hsendable, hrouting, w, hw, hframes⟩
  rcases hcontent with hcontent | hnot
  · exact ⟨himp h hcontent, himp h.symm hcontent.symm⟩
  · refine iff_of_false (fun hsent => hnot ?_) (fun hsent => hnot ?_)
    · exact h.sendable_iff.mp ((ZccpMsg.sends_iff m' router sent).mp hsent).1
    · exact ((ZccpMsg.sends_iff m router sent).mp hsent).1

/-! ## What is copied -/

/-- Whether there is a copy depends on the headers. -/
theorem dup_isSome_iff (hashMap : Headers → Headers) (self : ZccpMsg) :
    (self.dup hashMap).isSome ↔ (self.id.hasHeaders = true → self.headers.isSome) := by
  obtain ⟨routingId, id, identifier, headers, expression, address, content, sender⟩ := self
  cases id with
  | hello | helloOk | subscribe | publish | direct | deliver | goodbyeOk =>
    cases headers <;> simp [dup, newHashMap, MsgId.hasHeaders]
  | _ => simp [dup, MsgId.hasHeaders]

/-- A copy is like its original, and has no content. -/
theorem alike_of_dup {hashMap : Headers → Headers} (hmap : ∀ h, (hashMap h).entries.Perm h.entries)
    {self copy : ZccpMsg} (h : self.dup hashMap = some copy) :
    self.Alike copy ∧ copy.routingId = self.routingId ∧ copy.contentParts = [] := by
  obtain ⟨routingId, id, identifier, headers, expression, address, content, sender⟩ := self
  cases id with
  | hello | helloOk | subscribe | publish | direct | deliver | goodbyeOk =>
    obtain ⟨headers', hheaders', hcopy⟩ := Option.bind_eq_some_iff.mp h
    obtain ⟨entries, rfl, rfl⟩ := Option.map_eq_some_iff.mp hheaders'
    obtain rfl := Option.some.inj hcopy
    exact ⟨⟨rfl, rfl, fun _ => .some (hmap entries).symm⟩, rfl, rfl⟩
  | _ =>
    obtain rfl := Option.some.inj h
    refine ⟨⟨rfl, rfl, ?_⟩, rfl, rfl⟩
    intro hhas
    cases hhas

/-- **There is one thing to be heard** of a message that fits. -/
theorem heard_sends {self : ZccpMsg} (hforC : self.ForC) (router : Bool) {sent : Sent}
    (h : self.Sends router sent) : heard sent = ⟨none, some self.saying, self.contentParts⟩ := by
  obtain ⟨hrouting, walked, hwalked, hsend⟩ := h
  have hcontent := hwalked.contentParts_eq
  obtain ⟨hascii, hlt, hframes⟩ := (send_eq_some_iff walked _).mp hsend
  obtain ⟨frames, hframes', m, hdecode, hsaying⟩ :=
    (transmits_send_iff (hwalked.alike.forC hcontent hforC)).mpr
      ⟨hascii, measuredFrame_eq hascii ▸ hlt⟩
  obtain rfl := Option.some.inj (hframes'.symm.trans hsend)
  obtain ⟨routingId, frames⟩ := sent
  obtain rfl : routingId = none := hrouting
  rw [heard_of_decode hdecode, hsaying, hwalked.alike.saying_eq hcontent, hframes, List.tail_cons,
    hcontent]

end ZccpMsg

/-- **Which messages the Java class duplicates**: those that have headers, if their type has any, and
no content, if they can be sent at all. -/
theorem duplicates_java_iff {hashMap : Headers → Headers}
    (hmap : ∀ h, (hashMap h).entries.Perm h.entries) (self : ZccpMsg) :
    (javaCodec hashMap).Duplicates self ↔
      (self.id.hasHeaders = true → self.headers.isSome) ∧
        (self.contentParts = [] ∨ ¬ self.Sendable) := by
  constructor
  · rintro ⟨copy, hcopy, hresends⟩
    obtain ⟨halike, -, hcontent⟩ := ZccpMsg.alike_of_dup hmap hcopy
    refine ⟨(ZccpMsg.dup_isSome_iff hashMap self).mp (Option.isSome_iff_exists.mpr ⟨copy, hcopy⟩), ?_⟩
    by_contra hnot
    obtain ⟨hparts, hsendable⟩ := not_or.mp hnot
    -- what is sent of the original has its content, and no copy has one
    have hsends : self.Sends false ⟨none, self.measuredFrame :: self.contentParts⟩ :=
      (ZccpMsg.sends_iff self false _).mpr
        ⟨Classical.not_not.mp hsendable, rfl, self, self.walks_refl, rfl⟩
    obtain ⟨sent, hsent, hheard⟩ := (hresends.heard_iff false _).mpr ⟨_, hsends, rfl⟩
    obtain ⟨-, -, walked, -, hframes⟩ := (ZccpMsg.sends_iff copy false sent).mp hsent
    have htail : sent.frames.tail = self.contentParts := congrArg Heard.content hheard
    rw [hframes, List.tail_cons, hcontent] at htail
    exact hparts htail.symm
  · rintro ⟨hheaders, hcontent⟩
    obtain ⟨copy, hcopy⟩ :=
      Option.isSome_iff_exists.mp ((ZccpMsg.dup_isSome_iff hashMap self).mpr hheaders)
    obtain ⟨halike, hrouting, hempty⟩ := ZccpMsg.alike_of_dup hmap hcopy
    refine ⟨copy, hcopy, .of_sends hrouting (halike.sends_iff ?_) ?_⟩
    · rcases hcontent with hparts | hnot
      · exact .inl (hempty.trans hparts.symm)
      · exact .inr hnot
    · intro hforC router sent sent' hsent hsent'
      rw [ZccpMsg.heard_sends hforC router hsent, ZccpMsg.heard_sends hforC router hsent']

end Zccp.Java
