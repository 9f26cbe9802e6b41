import Zccp.Client.Api

/-!
# `Zccp/Client/Accept.lean` — which reply is loaded

`s_accept_reply` is for the first reply with one of the names a call waits for (`firstOf`). It throws
away what is left of a reply with every name that does not match, before it has tried the others: with
the second name or a later one the reply has lost its values, and those of the next are loaded, its
name among them. `accepts_first_iff` says that only the first of the names can be relied on, which for
a CONNECT is SUCCESS.
-/

set_option autoImplicit false

namespace Zccp.Api

open Lib Client

variable {null f : CStr} {fs : List CStr} {self : ZccpClient} {replies behind : List Reply}
  {reply : Reply}

/-! ## What it is for -/

/-- The first frame of a reply. -/
def nameOf : Reply → CStr
  | .success _ => nameSuccess
  | .failure _ _ => nameFailure
  | .message _ _ _ => nameMessage

/-- The values of a reply in the properties it has, and the others as they were. -/
def loaded (null : CStr) : Reply → ZccpClient → ZccpClient
  | .success status, self => { self with status := status }
  | .failure status reason, self => { self with status := status, reason := some reason }
  | .message sender address content, self => { self with
      sender := some (ofString null sender)
      address := some (ofString null address)
      content := some (ofString null content) }

/-- The first reply with one of these names, and those behind it. -/
def firstOf (filters : List CStr) : List Reply → Option (Reply × List Reply)
  | [] => none
  | reply :: behind => if nameOf reply ∈ filters then some (reply, behind) else firstOf filters behind

/-- The pipe at the start of the first of these replies. -/
def pipeOf (null : CStr) (replies : List Reply) : Inlet CStr := ⟨[], replies.map (replyFrames null)⟩

/-- `s_accept_reply` loads the first such reply and leaves those behind it, or it waits, if there is
none. -/
def AcceptsFirst (null : CStr) (filters : List CStr) (self : ZccpClient) (replies : List Reply) :
    Prop :=
  sAcceptReply filters self (pipeOf null replies) =
    (firstOf filters replies).map fun p => (loaded null p.1 self, pipeOf null p.2)

/-- `zccp_client_connect`, with the commands on their way to the actor; what it returns comes first. -/
def zccpClientConnect (endpoint : CStr) (timeout : Int) (self : ZccpClient) (commands : List Method)
    (pipe : Inlet CStr) : Option (Int × ZccpClient × List Method × Inlet CStr) := do
  let commands := commands ++ [.connect endpoint timeout]
  let (self, pipe) ← sAcceptReply [nameSuccess, nameFailure] self pipe
  some (self.status, self, commands, pipe)

/-- The status in a reply. -/
def statusOf : Reply → Option Int
  | .success status => some status
  | .failure status _ => some status
  | .message _ _ _ => none

/-- It returns the status of the first SUCCESS or FAILURE, or waits, if there is none. -/
def ConnectsFirst (null endpoint : CStr) (timeout : Int) (self : ZccpClient) (commands : List Method)
    (replies : List Reply) : Prop :=
  (zccpClientConnect endpoint timeout self commands (pipeOf null replies)).map (·.1) =
    (firstOf [nameSuccess, nameFailure] replies).bind fun p => statusOf p.1

/-- The first reply of the names asked for is the one with none of them in front of it. -/
theorem firstOf_eq_some {filters : List CStr} :
    firstOf filters replies = some (reply, behind) ↔ ∃ skipped, replies = skipped ++ reply :: behind ∧
      (∀ r ∈ skipped, nameOf r ∉ filters) ∧ nameOf reply ∈ filters := by
  induction replies with
  | nil =>
    constructor
    · intro h
      cases h
    · rintro ⟨skipped, h, -⟩
      cases skipped <;> cases h
  | cons r rs ih =>
    rw [firstOf]
    by_cases hr : nameOf r ∈ filters
    · rw [if_pos hr, Option.some.injEq, Prod.mk.injEq]
      constructor
      · rintro ⟨rfl, rfl⟩
        exact ⟨[], rfl, List.forall_mem_nil _, hr⟩
      · rintro ⟨skipped, h, hskipped, -⟩
        cases skipped with
        | nil => exact List.cons.inj h
        | cons r' skipped =>
          obtain ⟨rfl, -⟩ := List.cons.inj h
          exact absurd hr (hskipped _ List.mem_cons_self)
    · rw [if_neg hr, ih]
      constructor
      · rintro ⟨skipped, rfl, hskipped, hreply⟩
        exact ⟨r :: skipped, rfl, List.forall_mem_cons.mpr ⟨hr, hskipped⟩, hreply⟩
      · rintro ⟨skipped, h, hskipped, hreply⟩
        cases skipped with
        | nil =>
          obtain ⟨rfl, -⟩ := List.cons.inj h
          exact absurd hreply hr
        | cons r' skipped =>
          obtain ⟨rfl, hrest⟩ := List.cons.inj h
          exact ⟨skipped, hrest, (List.forall_mem_cons.mp hskipped).2, hreply⟩

theorem firstOf_eq_none {filters : List CStr} :
    firstOf filters replies = none ↔ ∀ r ∈ replies, nameOf r ∉ filters := by
  induction replies with
  | nil => exact iff_of_true rfl (List.forall_mem_nil _)
  | cons r rs ih =>
    rw [firstOf, List.forall_mem_cons, ← ih]
    by_cases hr : nameOf r ∈ filters
    · rw [if_pos hr]
      exact iff_of_false (Option.some_ne_none _) (fun h => h.1 hr)
    · rw [if_neg hr]
      exact (and_iff_right hr).symm

/-! ## What it does -/

@[simp] theorem first_replyFrames (null : CStr) (reply : Reply) :
    (replyFrames null reply).first = nameOf reply := by
  cases reply <;> rfl

@[simp] theorem intAt_ofInt (i : Int) (frames : List CStr) : intAt (ofInt i :: frames) 0 = i :=
  atoi_decimal i

/-- From what is left of a reply behind its name its own values are loaded. -/
theorem loadReply_rest (null : CStr) (reply : Reply) (self : ZccpClient)
    (queue : List (Multipart CStr)) :
    loadReply (nameOf reply) self ⟨(replyFrames null reply).rest, queue⟩ =
      some (loaded null reply self, ⟨[], queue⟩) := by
  cases reply with
  | success status =>
    rw [nameOf, loadReply_success, replyFrames, Inlet.recvAll_cons (by simp), Option.map_some,
      intAt_ofInt]
    rfl
  | failure status reason =>
    rw [nameOf, loadReply_failure, replyFrames, Inlet.recvAll_cons (by simp), Option.map_some,
      intAt_ofInt]
    rfl
  | message sender address content =>
    rw [nameOf, loadReply_message, replyFrames, Inlet.recvAll_cons (by simp)]
    rfl

/-- Whatever is loaded, it is the rest of the message that is being read, or all of the next. -/
theorem loadReply_pipe (reply : Reply) (self : ZccpClient) (pipe : Inlet CStr) :
    (loadReply (nameOf reply) self pipe).map (·.2) = pipe.recvAll.map (·.2) := by
  cases reply with
  | success status =>
    rw [nameOf, loadReply_success, Option.map_map]
    rfl
  | failure status reason =>
    rw [nameOf, loadReply_failure, Option.map_map]
    rfl
  | message sender address content =>
    rw [nameOf, loadReply_message, Option.map_map]
    rfl

/-- With a name that is not the first, the values that are loaded are not those of the reply. -/
theorem matchFilters_tail {g : CStr} (hne : g ≠ f) (hmem : g ∈ fs) (frames : List CStr)
    (queue : List (Multipart CStr)) :
    matchFilters g (f :: fs) self ⟨frames, queue⟩ =
      (loadReply g self ⟨[], queue⟩).map fun p => (true, p) := by
  induction fs generalizing f frames with
  | nil => cases hmem
  | cons f' fs ih =>
    rw [matchFilters, if_neg hne, Inlet.flush_mk]
    by_cases he : g = f'
    · subst he
      exact matchFilters_head
    · exact ih he ((List.mem_cons.mp hmem).resolve_left he) []

/-- **What is loaded**, if the first reply that is waited for has the first of the names: that reply. -/
theorem sAcceptReply_of_eq (self : ZccpClient)
    (h : firstOf (f :: fs) replies = some (reply, behind)) (hname : nameOf reply = f) :
    sAcceptReply (f :: fs) self (pipeOf null replies) =
      some (loaded null reply self, pipeOf null behind) := by
  obtain ⟨skipped, rfl, hskipped, -⟩ := firstOf_eq_some.mp h
  rw [pipeOf, List.map_append, List.map_cons, sAcceptReply_head self _ ?_ ?_, ← hname, loadReply_rest]
  · rfl
  · simpa using hskipped
  · rw [first_replyFrames, hname]

/-- **What is loaded**, if it has one of the other names: the values that its name asks for, but from the
reply behind it, since the filters before it have flushed its own. -/
theorem sAcceptReply_of_ne (self : ZccpClient)
    (h : firstOf (f :: fs) replies = some (reply, behind)) (hname : nameOf reply ≠ f) :
    sAcceptReply (f :: fs) self (pipeOf null replies) =
      loadReply (nameOf reply) self (pipeOf null behind) := by
  obtain ⟨skipped, rfl, hskipped, hmem⟩ := firstOf_eq_some.mp h
  rw [pipeOf, List.map_append, List.map_cons]
  apply sAcceptReply_first self _ (by simpa using hskipped)
  rw [first_replyFrames]
  exact matchFilters_tail hname ((List.mem_cons.mp hmem).resolve_left hname) _ _

theorem sAcceptReply_of_none (self : ZccpClient) (h : firstOf (f :: fs) replies = none) :
    sAcceptReply (f :: fs) self (pipeOf null replies) = none := by
  apply sAcceptReply_none
  simpa using firstOf_eq_none.mp h

/-- The name of a reply, read as a number. -/
theorem atoi_nameOf (reply : Reply) : atoi (nameOf reply).bytes = 0 := by
  have hnames : atoi nameSuccess.bytes = 0 ∧ atoi nameFailure.bytes = 0 ∧
      atoi nameMessage.bytes = 0 := by decide +kernel
  cases reply with
  | success status => exact hnames.1
  | failure status reason => exact hnames.2.1
  | message sender address content => exact hnames.2.2

/-- A reply that is not where it should be is missed on the pipe. -/
theorem loadReply_ne (reply : Reply) (self self' : ZccpClient) (behind : List Reply) :
    loadReply (nameOf reply) self (pipeOf null behind) ≠ some (self', pipeOf null behind) := by
  intro h
  have hpipe := loadReply_pipe reply self (pipeOf null behind)
  rw [h, Option.map_some] at hpipe
  cases behind with
  | nil => cases hpipe
  | cons r behind =>
    have hqueue := congrArg (fun p => p.queue.length) (Option.some.inj hpipe)
    simp [pipeOf] at hqueue

/-- The reply is loaded if it is of the first name. If it is of a later one, the flush behind the first
filter has emptied the pipe of its values by then, so that what is loaded cannot be the reply. -/
theorem acceptsFirst_iff (null : CStr) (f : CStr) (fs : List CStr) (self : ZccpClient)
    (replies : List Reply) :
    AcceptsFirst null (f :: fs) self replies ↔
      ∀ reply behind, firstOf (f :: fs) replies = some (reply, behind) → nameOf reply = f := by
  unfold AcceptsFirst
  cases hfirst : firstOf (f :: fs) replies with
  | none =>
    refine iff_of_true (sAcceptReply_of_none self hfirst) ?_
    intro reply behind h
    cases h
  | some p =>
    obtain ⟨reply, behind⟩ := p
    constructor
    · intro h reply' behind' he
      obtain ⟨rfl, rfl⟩ := Prod.mk.inj (Option.some.inj he)
      by_contra hname
      rw [sAcceptReply_of_ne self hfirst hname] at h
      exact loadReply_ne reply self _ behind h
    · intro h
      exact sAcceptReply_of_eq self hfirst (h reply behind rfl)

/-- For a CONNECT whose answer is a FAILURE, what it reads as the status is the name of the reply
behind it, if there is one. -/
theorem connectsFirst_iff (null endpoint : CStr) (timeout : Int) (self : ZccpClient)
    (commands : List Method) (replies : List Reply) :
    ConnectsFirst null endpoint timeout self commands replies ↔
      ∀ reply behind, firstOf [nameSuccess, nameFailure] replies = some (reply, behind) →
        nameOf reply = nameSuccess ∨ statusOf reply = some 0 ∧ behind ≠ [] := by
  unfold ConnectsFirst zccpClientConnect
  cases hfirst : firstOf [nameSuccess, nameFailure] replies with
  | none =>
    rw [sAcceptReply_of_none self hfirst]
    refine iff_of_true rfl ?_
    intro reply behind h
    cases h
  | some p =>
    obtain ⟨reply, behind⟩ := p
    obtain ⟨-, -, -, hmem⟩ := firstOf_eq_some.mp hfirst
    have hiff : ∀ {P : Reply → List Reply → Prop},
        (∀ r b, some (reply, behind) = some (r, b) → P r b) ↔ P reply behind := by
      intro P
      simp
    rw [hiff]
    cases reply with
    | success status =>
      rw [sAcceptReply_of_eq self hfirst rfl]
      exact iff_of_true rfl (.inl rfl)
    | failure status reason =>
      rw [sAcceptReply_of_ne self hfirst nameFailure_ne.1, nameOf, loadReply_failure]
      cases behind with
      | nil =>
        refine iff_of_false (by intro h; cases h) ?_
        rintro (h | ⟨-, h⟩)
        · exact nameFailure_ne.1 h
        · exact h rfl
      | cons r behind =>
        have hstatus : intAt (replyFrames null r).frames 0 = 0 := by
          rw [Multipart.frames, intAt, first_replyFrames]
          exact atoi_nameOf r
        have hread : (pipeOf null (r :: behind)).recvAll =
            some ((replyFrames null r).frames, pipeOf null behind) := rfl
        simp only [hread, hstatus, Option.map_some, Option.bind_eq_bind, Option.bind_some, statusOf,
          Option.some.injEq, nameFailure_ne.1, false_or]
        exact ⟨fun h => ⟨h.symm, List.cons_ne_nil r behind⟩, fun h => h.1.symm⟩
    | message sender address content =>
      simp [nameOf, nameMessage_ne, nameFailure_ne.2.symm] at hmem

/-- **Which reply is loaded.** `s_accept_reply` loads the first reply that is waited for if and only if
that has the first of the names, in whatever order the names are; and `zccp_client_connect` returns
its status if and only if it is a SUCCESS, or a FAILURE that happens to have the status that is read
instead. -/
theorem accepts_first_iff (null : CStr) (f : CStr) (fs : List CStr) (self : ZccpClient)
    (replies : List Reply) :
    (AcceptsFirst null (f :: fs) self replies ↔
      ∀ reply behind, firstOf (f :: fs) replies = some (reply, behind) → nameOf reply = f) ∧
    ∀ endpoint timeout commands, ConnectsFirst null endpoint timeout self commands replies ↔
      ∀ reply behind, firstOf [nameSuccess, nameFailure] replies = some (reply, behind) →
        nameOf reply = nameSuccess ∨ statusOf reply = some 0 ∧ behind ≠ [] :=
  ⟨acceptsFirst_iff null f fs self replies, fun endpoint timeout commands =>
    connectsFirst_iff null endpoint timeout self commands replies⟩

/-- The answer to a CONNECT to no server: alone it is not taken for an answer, and with a SUCCESS
behind it that is taken for it. -/
theorem not_accepts_first_failure :
    let null := text "NULL"
    let filters := [nameSuccess, nameFailure]
    let failure := Reply.failure (-1) (text "Server is not reachable")
    let connect := fun replies =>
      zccpClientConnect (text "tcp://127.0.0.1:9999") 100 zccpClientNew [] (pipeOf null replies)
    connect [failure] = none ∧ ¬ AcceptsFirst null filters zccpClientNew [failure] ∧
      (connect [failure, .success 0]).map (fun p => (p.1, p.2.1.reason)) = some (0, some (text "0")) ∧
      ¬ AcceptsFirst null filters zccpClientNew [failure, .success 0] := by
  intro null filters failure connect
  have hnot : ∀ behind, ¬ AcceptsFirst null filters zccpClientNew (failure :: behind) := by
    intro behind h
    have hname := (acceptsFirst_iff ..).mp h failure behind (if_pos (by decide +kernel))
    exact nameFailure_ne.1 hname
  exact ⟨by decide +kernel, hnot _, by decide +kernel, hnot _⟩

end Zccp.Api
