import Zccp.Go.Marshal
import Zccp.Msg.Dup

/-!
# `Zccp/Go/Clone.lean` — the duplicates of the Go packages

`Clone` copies every field of every type. A `nil` slice comes out as an empty one, and the other way
round, which makes no difference to what is sent. The `Clone` of a package that has no type for
SUBSCRIBE_OK has no case for it either.
-/

set_option autoImplicit false

namespace Zccp.Go

open Lib

/-- A message with its field `routingId`. -/
structure Message where
  routingId : Option Frame
  transit : Transit

/-- `routingId := make ([]byte, len (msg.RoutingId ()))`, and `copy`. -/
def copyBytes (bytes : Option Frame) : Option Frame := some (bytes.getD [])

/-- `for key, val := range msg.Headers`, into a new map. -/
def cloneHeaders (headers : Headers) : Headers :=
  headers.entries.foldl (fun cloned e => cloned.insert e.1 e.2) ∅

/-- `append (cloned.Content, msg.Content...)`, where there is nothing in front. -/
def appendContent (content : Option Frame) : Option Frame :=
  if content.getD [] = [] then none else content

/-- `Clone` -/
def clone (msg : Message) : Message where
  routingId := copyBytes msg.routingId
  transit :=
    match msg.transit with
    | .hello identifier headers => .hello identifier (cloneHeaders headers)
    | .helloOk headers => .helloOk (cloneHeaders headers)
    | .subscribe expression headers => .subscribe expression (cloneHeaders headers)
    | .subscribeOk => .subscribeOk
    | .publish address headers content =>
      .publish address (cloneHeaders headers) (appendContent content)
    | .direct address headers content =>
      .direct address (cloneHeaders headers) (appendContent content)
    | .deliver sender address headers content =>
      .deliver sender address (cloneHeaders headers) (appendContent content)
    | .goodbye => .goodbye
    | .goodbyeOk headers => .goodbyeOk (cloneHeaders headers)
    | .ping => .ping
    | .pingOk => .pingOk
    | .invalid => .invalid

/-- The same message with other headers, if its type has any. -/
def Transit.withHeaders (headers : Headers) : Transit → Transit
  | hello identifier _ => hello identifier headers
  | helloOk _ => helloOk headers
  | subscribe expression _ => subscribe expression headers
  | publish address _ content => publish address headers content
  | direct address _ content => direct address headers content
  | deliver sender address _ content => deliver sender address headers content
  | goodbyeOk _ => goodbyeOk headers
  | t => t

/-- What `Send` may send: its headers are walked in any order. -/
def Message.Sends (package : Package) (router : Bool) (msg : Message) (sent : Sent) : Prop :=
  sent.routingId.isSome = router ∧ ∃ headers, headers.entries.Perm msg.transit.headers.entries ∧
    (msg.transit.withHeaders headers).send package (if router then .router else .other)
      (msg.routingId.getD []) = some (sent.routingId.toList ++ sent.frames)

/-- Its strings and headers fit, and the broker has the type under the same number. -/
structure Message.Fits (package : Package) (msg : Message) : Prop where
  forC : msg.transit.ForC
  count : msg.transit.headers.entries.length < 256 ^ 4
  idOf : package.idOf msg.transit.id = some (UInt8.ofNat msg.transit.id.code)

/-- A Go package, as far as that goes. A `nil` routing id is an empty one. -/
def goCodec (package : Package) : Codec Message where
  dup msg := some (clone msg)
  routingId msg := some (msg.routingId.getD [])
  sends := Message.Sends package
  fits := Message.Fits package

/-! ## What is copied -/

theorem getD_appendContent (content : Option Frame) :
    (appendContent content).getD [] = content.getD [] := by
  rw [appendContent]
  split
  · rename_i h
    exact h.symm
  · rfl

/-- The map that is copied into has the same entries. -/
theorem perm_cloneHeaders (headers : Headers) :
    (cloneHeaders headers).entries.Perm headers.entries := by
  have hfold : ∀ (entries : List (Sigma fun _ : List UInt8 => List UInt8)) (cloned : Headers),
      (entries.map Sigma.fst).Nodup → (∀ e ∈ entries, e.1 ∉ cloned) →
      (entries.foldl (fun cloned e => cloned.insert e.1 e.2) cloned).entries.Perm
        (cloned.entries ++ entries) := by
    intro entries
    induction entries with
    | nil =>
      intro cloned _ _
      simp
    | cons e entries ih =>
      intro cloned hnodup hnew
      obtain ⟨hfirst, hrest⟩ := List.nodup_cons.mp hnodup
      obtain ⟨he, hentries⟩ := List.forall_mem_cons.mp hnew
      have hinsert := ih (cloned.insert e.1 e.2) hrest (fun e' he' => by
        rw [AList.mem_insert]
        rintro (heq | hmem)
        · exact hfirst (heq ▸ List.mem_map_of_mem he')
        · exact hentries e' he' hmem)
      rw [List.foldl_cons]
      refine hinsert.trans ?_
      rw [AList.entries_insert_of_notMem he]
      exact List.perm_middle.symm
  exact hfold headers.entries ∅ headers.nodupKeys (fun e _ => AList.notMem_empty e.1)

theorem perm_headers_clone (msg : Message) :
    (clone msg).transit.headers.entries.Perm msg.transit.headers.entries := by
  obtain ⟨routingId, t⟩ := msg
  cases t with
  | hello _ headers | helloOk headers | subscribe _ headers | publish _ headers | direct _ headers
  | deliver _ _ headers | goodbyeOk headers => exact perm_cloneHeaders headers
  | _ => exact List.Perm.refl _

/-- With the same headers a copy sends the same. -/
theorem send_withHeaders_clone (package : Package) (socType : SocketType) (routingId : Frame)
    (msg : Message) (headers : Headers) :
    ((clone msg).transit.withHeaders headers).send package socType routingId =
      (msg.transit.withHeaders headers).send package socType routingId := by
  obtain ⟨_, t⟩ := msg
  cases t with
  | publish _ _ content | direct _ _ content | deliver _ _ _ content =>
    have hcontent := getD_appendContent content
    simp only [clone, Transit.withHeaders, Transit.send, hcontent]
    rfl
  | _ => rfl

/-- **A copy sends what its original does.** -/
theorem sends_clone_iff (package : Package) (msg : Message) (router : Bool) (sent : Sent) :
    (clone msg).Sends package router sent ↔ msg.Sends package router sent := by
  have hrouting : (clone msg).routingId.getD [] = msg.routingId.getD [] := rfl
  have hperm := perm_headers_clone msg
  simp only [Message.Sends, send_withHeaders_clone, hrouting]
  constructor
  · rintro ⟨hrouter, headers, hheaders, hsend⟩
    exact ⟨hrouter, headers, hheaders.trans hperm, hsend⟩
  · rintro ⟨hrouter, headers, hheaders, hsend⟩
    exact ⟨hrouter, headers, hheaders.trans hperm.symm, hsend⟩

/-! ## What is heard -/

section Heard

variable {package : Package} {t : Transit} {headers : Headers}

@[simp] theorem id_withHeaders (headers : Headers) (t : Transit) : (t.withHeaders headers).id = t.id := by
  cases t <;> rfl

@[simp] theorem texts_withHeaders (headers : Headers) (t : Transit) :
    (t.withHeaders headers).texts = t.texts := by
  cases t <;> rfl

@[simp] theorem content_withHeaders (headers : Headers) (t : Transit) :
    (t.withHeaders headers).content = t.content := by
  cases t <;> rfl

/-- A walk in another order finds the same. -/
theorem lookup_withHeaders (hp : headers.entries.Perm t.headers.entries) (key : List UInt8) :
    (t.withHeaders headers).headers.lookup key = t.headers.lookup key := by
  cases t with
  | hello | helloOk | subscribe | publish | direct | deliver | goodbyeOk => exact AList.perm_lookup hp
  | _ => rfl

theorem length_withHeaders (hp : headers.entries.Perm t.headers.entries) :
    (t.withHeaders headers).headers.entries.length = t.headers.entries.length := by
  cases t with
  | hello | helloOk | subscribe | publish | direct | deliver | goodbyeOk => exact hp.length_eq
  | _ => rfl

theorem sayingFilled_withHeaders (hp : headers.entries.Perm t.headers.entries) :
    (t.withHeaders headers).sayingFilled = t.sayingFilled := by
  have hlookup := lookup_withHeaders hp
  simp only [Transit.sayingFilled, Transit.saying, id_withHeaders, texts_withHeaders,
    content_withHeaders, hlookup]

theorem forC_withHeaders (h : t.ForC) (hp : headers.entries.Perm t.headers.entries) :
    (t.withHeaders headers).ForC where
  texts := by
    rw [texts_withHeaders]
    exact h.texts
  keys key value hvalue := h.keys key value ((lookup_withHeaders hp key).symm.trans hvalue)
  values key value hvalue := h.values key value ((lookup_withHeaders hp key).symm.trans hvalue)

/-- On a `ROUTER` the routing id goes in front, and nothing else changes. -/
theorem send_router (package : Package) (t : Transit) (routingId : Frame) :
    t.send package .router routingId = (t.send package .other routingId).map (routingId :: ·) := by
  rw [Transit.send, Transit.send]
  cases t.marshal package with
  | none => rfl
  | some frame => cases t <;> rfl

/-- **There is one thing to be heard** of a message that fits. -/
theorem heard_sends {msg : Message} (hfits : msg.Fits package) {router : Bool} {sent : Sent}
    (h : msg.Sends package router sent) :
    heard sent = ⟨if router then some (msg.routingId.getD []) else none,
      some msg.transit.sayingFilled, msg.transit.sayingFilled.content⟩ := by
  obtain ⟨hrouter, headers, hp, hsend⟩ := h
  have hcount : (msg.transit.withHeaders headers).raw.pairs.length < 256 ^ 4 := by
    rw [Transit.raw, toPairs, List.length_map, length_withHeaders hp]
    exact hfits.count
  have hid : package.idOf (msg.transit.withHeaders headers).id =
      some (UInt8.ofNat (msg.transit.withHeaders headers).id.code) := by
    rw [id_withHeaders]
    exact hfits.idOf
  obtain ⟨frames, hframes, m, hdecode, hsaying⟩ :=
    (transmits_send_iff package (msg.routingId.getD []) (forC_withHeaders hfits.forC hp)).mpr
      ⟨hid, hcount⟩
  have htail : frames.tail = msg.transit.sayingFilled.content := by
    rw [send_eq, hid, Option.map_some, Option.some.injEq] at hframes
    rw [← hframes, List.tail_cons, sayingFilled_withHeaders hp]
  rw [sayingFilled_withHeaders hp] at hsaying
  have hheard : ∀ routingId, heard ⟨routingId, frames⟩ =
      ⟨routingId, some msg.transit.sayingFilled, msg.transit.sayingFilled.content⟩ := by
    intro routingId
    rw [heard_of_decode hdecode, hsaying, htail]
  obtain ⟨routingId, frames'⟩ := sent
  cases router with
  | false =>
    obtain rfl := Option.not_isSome_iff_eq_none.mp (Bool.eq_false_iff.mp hrouter)
    obtain rfl := Option.some.inj (hframes.symm.trans hsend)
    exact hheard none
  | true =>
    obtain ⟨ahead, rfl⟩ := Option.isSome_iff_exists.mp hrouter
    rw [if_pos rfl, send_router, hframes, Option.map_some, Option.some.injEq] at hsend
    obtain ⟨rfl, rfl⟩ := List.cons.inj hsend
    exact hheard _

end Heard

/-- **The Go packages duplicate every message.** -/
theorem duplicates_go (package : Package) (msg : Message) : (goCodec package).Duplicates msg := by
  refine ⟨clone msg, rfl, .of_sends rfl (sends_clone_iff package msg) ?_⟩
  intro hfits router sent sent' hsent hsent'
  rw [heard_sends hfits hsent, heard_sends hfits hsent']

end Zccp.Go
