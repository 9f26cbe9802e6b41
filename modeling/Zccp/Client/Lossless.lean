import Zccp.Client.Api

/-!
# `Zccp/Client/Lossless.lean` — does the application get every message?

A publication crosses two filters on its way to the application. The state machine hands a DELIVER
on in `connected` only, and a call that waits for SUCCESS or FAILURE throws away what is on the pipe
before it. `loss` is how many publications a step loses to either, counted on the state before the step:
whether one is lost is decided by where the client is and what is on the pipe, and never by what the
step comes to.

Whatever is not lost so is returned by `zccp_client_recv`, once and in order (`lossless_iff`).
-/

set_option autoImplicit false

namespace Zccp.Api

open Lib Client

variable {z : Czmq} {null : CStr} {j j' : System}

/-! ## What is on the pipe -/

/-- The publication in a reply. -/
def inReply (m : Multipart CStr) : Option Publication :=
  if m.first = nameMessage then
    some ⟨stringAt m.rest 0, stringAt m.rest 1, stringAt m.rest 2⟩
  else none

/-- The publications on their way to the application. -/
def onPipe (queue : List (Multipart CStr)) : List Publication := queue.filterMap inReply

/-- The replies in front of the first that is waited for. -/
def ahead (waiting : Waiting) (queue : List (Multipart CStr)) : List (Multipart CStr) :=
  queue.takeWhile fun m => m.first ∉ waiting.filters

/-- **How many publications a step loses**: a DELIVER that comes while the client is connected but not
in `connected`, and every MESSAGE on the pipe that a call for something else gets to see. -/
def loss (null : CStr) (j : System) : Label → Nat
  | .message frames =>
    match j.actor with
    | .up self =>
      if self.state = .connected then 0 else (arriving null self.state frames).toList.length
    | _ => 0
  | .accept => j.waiting.elim 0 fun waiting => (onPipe (ahead waiting j.pipe.queue)).length
  | _ => 0

/-- How many a run loses. -/
def losses (z : Czmq) (null : CStr) (j : System) (labels : List Label) : Nat :=
  costFrom (step z null) (loss null) j labels

/-- The application receives so many messages. -/
def recvs : Nat → List Label
  | 0 => []
  | k + 1 => .call .recv :: .accept :: recvs k

theorem onPipe_append (queue queue' : List (Multipart CStr)) :
    onPipe (queue ++ queue') = onPipe queue ++ onPipe queue' := List.filterMap_append

/-! ## The replies of the actor -/

/-- What the actor says on its pipe when it takes something. It never says FAILURE: nothing raises
`expired` in it. -/
def replied : State → Input → List Reply
  | state, .message frames =>
    match zccpMsgDecode frames with
    | .error _ => []
    | .ok m =>
      if state = .connecting ∧ m.id = .helloOk ∨ state = .subscribing ∧ m.id = .subscribeOk then
        [.success 0]
      else if state = .connected ∧ m.id = .deliver then [delivery m]
      else []
  | _, _ => []

theorem repliesIn_append (t t' : List Obs) : repliesIn (t ++ t') = repliesIn t ++ repliesIn t' :=
  List.filterMap_append

/-- A command draws no reply. The reply to a CONNECT comes with the HELLO_OK, and not before. -/
theorem repliesIn_commanding {self : SClient} (m : Method) :
    repliesIn (commanding z self m).notes = [] := by
  unfold commanding reaction
  rw [SClient.taking_state]
  cases self.state <;> cases m <;> rfl

/-- A message may. -/
theorem repliesIn_reaction {self : SClient} {frames : List Frame} {m : ZccpMsg} {event : Event}
    (hdec : zccpMsgDecode frames = .ok m) (hevent : sProtocolEvent m = some event) :
    repliesIn (reaction { self with msgin := some m } event).notes =
      replied self.state (.message frames) := by
  unfold sProtocolEvent at hevent
  simp only [replied, hdec]
  unfold reaction
  split at hevent <;> cases hevent <;> rename_i hid <;> rw [hid] <;> cases self.state <;> rfl

/-- **What a turn of the actor puts on the pipe.** -/
theorem replies_step {self : SClient} (h : Running self) (hnone : self.timers = []) (input : Input) :
    repliesIn ((observed (actorStep z (.up self) input)).drop self.trace.length) =
      replied self.state input := by
  have hdoes := actorStep_does (z := z) h hnone input
  generalize actorStep z (.up self) input = actor at hdoes ⊢
  cases hdoes with
  | @command m self' hm survives turn =>
    simp only [observed, turn.trace, SClient.taking_trace, List.append_assoc, List.drop_left]
    rw [repliesIn_append, repliesIn_commanding]
    rfl
  | term quiet =>
    simp only [observed, quiet, List.drop_left]
    rfl
  | abort aborts =>
    simp only [observed, List.drop_nil]
    rfl
  | message state decoded raises turn =>
    simp only [observed, turn.trace, List.drop_left]
    exact repliesIn_reaction decoded raises
  | @malformed frames undecodable =>
    simp only [observed, List.drop_length, replied]
    cases hdec : zccpMsgDecode frames with
    | error e => rfl
    | ok m => exact absurd hdec (undecodable m)
  | @halts frames m self' decoded raises quiet =>
    simp only [observed, quiet, List.drop_length, replied, decoded]
    have hid : m.id ≠ .helloOk ∧ m.id ≠ .subscribeOk ∧ m.id ≠ .deliver := by
      refine ⟨?_, ?_, ?_⟩ <;> intro hid <;> rw [sProtocolEvent, hid] at raises <;> cases raises
    simp [hid, repliesIn]
  | @early frames m event state decoded raises =>
    simp [observed, replied, decoded, state, repliesIn]
  | timer =>
    simp only [observed, List.drop_length, replied]
    rfl

/-- A reply that the actor gives. -/
inductive Ordinary (null : CStr) : Multipart CStr → Prop
  | success (status : Int) : Ordinary null (replyFrames null (.success status))
  | message (sender address content : Option CStr) :
      Ordinary null (replyFrames null (.message sender address content))

/-- These are the SUCCESS of a HELLO_OK or a SUBSCRIBE_OK, and the MESSAGE of a DELIVER. -/
theorem ordinary_of_replied {state : State} {input : Input} {m : Multipart CStr}
    (h : m ∈ (replied state input).map (replyFrames null)) : Ordinary null m := by
  obtain ⟨reply, hreply, rfl⟩ := List.mem_map.mp h
  unfold replied at hreply
  split at hreply
  · split at hreply
    · cases hreply
    · split at hreply
      · obtain rfl := List.mem_singleton.mp hreply
        exact .success 0
      · split at hreply
        · obtain rfl := List.mem_singleton.mp hreply
          exact .message _ _ _
        · cases hreply
  · cases hreply

/-- **The first filter**: what arrives and is not lost is on the pipe. In the other states of a client
that has a connection, a DELIVER falls to the `*` of `defaults`. -/
theorem arriving_eq (null : CStr) (state : State) (frames : List Frame) :
    onPipe ((replied state (.message frames)).map (replyFrames null)) =
      if state = .connected then (arriving null state frames).toList else [] := by
  cases hdec : zccpMsgDecode frames with
  | error e => simp [replied, arriving, hdec, onPipe]
  | ok m =>
    have hsuccess : inReply (replyFrames null (.success 0)) = none := if_neg nameMessage_ne.symm
    have hdelivery : inReply (replyFrames null (delivery m)) = some (publicationOf null m) :=
      if_pos rfl
    simp only [replied, arriving, hdec]
    cases state <;> by_cases hid : m.id = .deliver <;>
      simp [onPipe, Connected, hid, hdelivery, hsuccess]

/-! ## The account of the pipe -/

/-- What has been taken has been returned or is on the pipe, in order, but for `n` publications. -/
structure PipeAccount (null : CStr) (j : System) (n : Nat) : Prop where
  actor : ∀ self, j.actor = .up self → Running self ∧ self.timers = []
  start : j.pipe.AtStart
  replies : ∀ m ∈ j.pipe.queue, Ordinary null m
  order : (j.returned ++ onPipe j.pipe.queue).Sublist j.taken
  balance : j.taken.length = j.returned.length + (onPipe j.pipe.queue).length + n

theorem pipeAccount_new (null : CStr) : PipeAccount null .new 0 where
  actor self h := by
    cases h
    exact ⟨running_new, rfl⟩
  start := rfl
  replies := nofun
  order := List.Sublist.refl _
  balance := rfl

/-- The name that each call comes to load. -/
def Waiting.first : Waiting → CStr
  | .connect => nameSuccess
  | .subscribe => nameSuccess
  | .recv => nameMessage

theorem Waiting.filters_eq (w : Waiting) : ∃ names, w.filters = w.first :: names := by
  cases w <;> exact ⟨_, rfl⟩

/-- **The second filter**: a reply that is waited for is loaded, and what there is of a publication in
it is what `zccp_client_recv` returns. -/
theorem load_ordinary {w : Waiting} {m : Multipart CStr} (self : ZccpClient)
    (behind : List (Multipart CStr)) (h : Ordinary null m) (hm : m.first ∈ w.filters) :
    m.first = w.first ∧ ∃ self', loadReply w.first self ⟨m.rest, behind⟩ = some (self', ⟨[], behind⟩) ∧
      inReply m = if w = .recv then some self'.publication else none := by
  obtain ⟨-, hfailure⟩ := nameFailure_ne
  cases h with
  | success status =>
    have hload := loadReply_success self ⟨[ofInt status], behind⟩
    have hnone : inReply (replyFrames null (.success status)) = none := if_neg nameMessage_ne.symm
    cases w with
    | recv => simp [Waiting.filters, replyFrames, nameMessage_ne.symm] at hm
    | connect | subscribe => exact ⟨rfl, _, hload, hnone⟩
  | message s a c =>
    have hload := loadReply_message self
      ⟨[ofString null s, ofString null a, ofString null c], behind⟩
    have hsome : inReply (replyFrames null (.message s a c)) =
        some ⟨some (ofString null s), some (ofString null a), some (ofString null c)⟩ := if_pos rfl
    cases w with
    | recv => exact ⟨rfl, _, hload, hsome⟩
    | connect | subscribe =>
      simp [Waiting.filters, replyFrames, nameMessage_ne, hfailure.symm] at hm

/-- The queue, as a call gets to see it. -/
theorem queue_split {w : Waiting} {queue : List (Multipart CStr)}
    (h : ∀ m ∈ queue, Ordinary null m) (hsome : ∃ m ∈ queue, m.first ∈ w.filters) :
    ∃ m behind, queue = ahead w queue ++ m :: behind ∧ Ordinary null m ∧ m.first ∈ w.filters := by
  obtain ⟨m₀, hm₀, hwaited⟩ := hsome
  cases hrest : queue.dropWhile fun m => m.first ∉ w.filters with
  | nil => exact absurd hwaited (by simpa using List.dropWhile_eq_nil_iff.mp hrest m₀ hm₀)
  | cons m behind =>
    have hsplit : queue = ahead w queue ++ m :: behind := by
      rw [ahead, ← hrest, List.takeWhile_append_dropWhile]
    refine ⟨m, behind, hsplit, h m ?_, ?_⟩
    · rw [hsplit]
      exact List.mem_append_right _ List.mem_cons_self
    · have hhead := List.head_dropWhile_not (fun m => m.first ∉ w.filters) (l := queue)
        (by rw [hrest]; nofun)
      simp only [hrest, List.head_cons] at hhead
      simpa using hhead

/-- What is ahead is not waited for. -/
theorem not_mem_of_ahead {w : Waiting} {queue : List (Multipart CStr)} {m : Multipart CStr}
    (h : m ∈ ahead w queue) : m.first ∉ w.filters := by
  simpa using List.mem_takeWhile_imp h

theorem onPipe_ahead_recv (queue : List (Multipart CStr)) : onPipe (ahead .recv queue) = [] := by
  refine List.filterMap_eq_nil_iff.mpr fun m hm => if_neg ?_
  intro hname
  exact not_mem_of_ahead hm (by rw [hname]; exact List.mem_cons_self)

/-- **What a call that waits gets**: it goes up to the first reply that it waits for. -/
theorem accept_spec (w : Waiting) {queue : List (Multipart CStr)} (self : ZccpClient)
    (h : ∀ m ∈ queue, Ordinary null m) :
    (∃ m behind, queue = ahead w queue ++ m :: behind ∧ ∃ self',
      sAcceptReply w.filters self ⟨[], queue⟩ = some (self', ⟨[], behind⟩) ∧
      inReply m = if w = .recv then some self'.publication else none) ∨
    sAcceptReply w.filters self ⟨[], queue⟩ = none ∧ ∀ m ∈ queue, m.first ∉ w.filters := by
  obtain ⟨names, hfilters⟩ := w.filters_eq
  by_cases hsome : ∃ m ∈ queue, m.first ∈ w.filters
  · left
    obtain ⟨m, behind, hsplit, hm, hwaited⟩ := queue_split h hsome
    obtain ⟨hfirst, self', hload, hreply⟩ := load_ordinary self behind hm hwaited
    have hahead : ∀ m ∈ ahead w queue, m.first ∉ w.first :: names := by
      intro m hm
      rw [← hfilters]
      exact not_mem_of_ahead hm
    have haccept := sAcceptReply_head self behind hahead hfirst
    rw [← hfilters, ← hsplit] at haccept
    exact ⟨m, behind, hsplit, self', haccept.trans hload, hreply⟩
  · right
    have hnone : ∀ m ∈ queue, m.first ∉ w.filters := fun m hm hw => hsome ⟨m, hm, hw⟩
    rw [hfilters] at hnone ⊢
    exact ⟨sAcceptReply_none hnone, hnone⟩

/-! ## Steps -/

/-- A turn of the actor, at which it takes `new` publications, `lost` of which it does not hand
on. -/
theorem PipeAccount.turn {n : Nat} {self : SClient} (h : PipeAccount null j n) (input : Input)
    (new : List Publication) (lost : Nat) (hactor : j.actor = .up self) (commands : List Method)
    (hsub : (onPipe ((replied self.state input).map (replyFrames null))).Sublist new)
    (hlost : new.length =
      (onPipe ((replied self.state input).map (replyFrames null))).length + lost) :
    PipeAccount null ({ j with commands := commands, taken := j.taken ++ new }.actorDid null
      (actorStep z (.up self) input)) (n + lost) := by
  obtain ⟨hrunning, hnone⟩ := h.actor self hactor
  have hreplies := replies_step (z := z) hrunning hnone input
  have hqueue : ({ j with commands := commands, taken := j.taken ++ new }.actorDid null
      (actorStep z (.up self) input)).pipe.queue =
        j.pipe.queue ++ (replied self.state input).map (replyFrames null) := by
    rw [← hreplies]
    simp only [System.actorDid, Inlet.push, hactor, observed]
  constructor
  · intro self' hself'
    exact actorStep_up hrunning hnone hself'
  · exact h.start
  · intro m hm
    rw [hqueue] at hm
    rcases List.mem_append.mp hm with hm | hm
    · exact h.replies m hm
    · exact ordinary_of_replied hm
  · rw [hqueue, onPipe_append, ← List.append_assoc]
    exact h.order.append hsub
  · rw [hqueue, onPipe_append]
    simp only [System.actorDid, List.length_append, h.balance, hlost]
    omega

/-- The end of a call. Everything in front of the reply that is accepted is thrown away, publications
among it, and those are the loss; the reply itself is a publication for `zccp_client_recv` only. -/
theorem PipeAccount.accept {n : Nat} {w : Waiting} {self : ZccpClient} {pipe : Inlet CStr}
    (h : PipeAccount null j n) (hw : j.waiting = some w)
    (haccept : sAcceptReply w.filters j.self j.pipe = some (self, pipe)) :
    PipeAccount null { j with
      self := self
      pipe := pipe
      waiting := none
      returned := j.returned ++ if w = .recv then [self.publication] else [] }
      (n + loss null j .accept) := by
  have hpipe : j.pipe = ⟨[], j.pipe.queue⟩ := by
    rw [← h.start]
  rw [hpipe] at haccept
  rcases accept_spec w j.self h.replies with
    ⟨m, behind, hsplit, self', hload, hreply⟩ | ⟨hnone, -⟩
  · rw [hload] at haccept
    obtain ⟨rfl, rfl⟩ := Prod.mk.inj (Option.some.inj haccept)
    have hloss : loss null j .accept = (onPipe (ahead w j.pipe.queue)).length := by
      simp only [loss, hw, Option.elim_some]
    have hon : onPipe j.pipe.queue = onPipe (ahead w j.pipe.queue) ++
        ((if w = .recv then [self'.publication] else []) ++ onPipe behind) := by
      conv_lhs => rw [hsplit]
      rw [onPipe_append, onPipe, onPipe, onPipe, List.filterMap_cons, hreply]
      by_cases hrecv : w = .recv <;> simp [hrecv]
    have horder := h.order
    have hbalance := h.balance
    rw [hon] at horder hbalance
    constructor
    · exact h.actor
    · rfl
    · intro m' hm'
      refine h.replies m' ?_
      rw [hsplit]
      exact List.mem_append_right _ (List.mem_cons_of_mem _ hm')
    · rw [List.append_assoc]
      exact (List.Sublist.append (List.Sublist.refl _)
        (List.sublist_append_right _ _)).trans horder
    · rw [hloss, hbalance]
      simp only [List.length_append]
      omega
  · rw [hnone] at haccept
    cases haccept

/-- **One step.** A call only sends a command, and a command or a timer puts nothing of a publication on
the pipe: what can lose one is the arrival of a message and the end of a call. -/
theorem PipeAccount.step {n : Nat} {l : Label} (h : PipeAccount null j n)
    (hstep : Api.step z null j l = some j') :
    PipeAccount null j' (n + loss null j l) := by
  cases l with
  | call call =>
    simp only [Api.step] at hstep
    split at hstep
    · cases hstep
    · cases hstep
      exact ⟨h.actor, h.start, h.replies, h.order, h.balance⟩
  | accept =>
    obtain ⟨w, hw, hrest⟩ := Option.bind_eq_some_iff.mp hstep
    obtain ⟨⟨self, pipe⟩, haccept, hj'⟩ := Option.bind_eq_some_iff.mp hrest
    cases hj'
    exact h.accept hw haccept
  | command =>
    simp only [Api.step] at hstep
    split at hstep
    · rename_i self method commands hactor hcommands
      cases hstep
      have hturn := h.turn (z := z) (.command method) [] 0 hactor
        commands (List.Sublist.refl _) rfl
      rwa [List.append_nil] at hturn
    · cases hstep
  | message frames =>
    simp only [Api.step] at hstep
    split at hstep
    · rename_i self hactor
      cases hstep
      -- what arrives is taken in four states, and handed on in one of them
      have harriving := arriving_eq null self.state frames
      refine h.turn (.message frames) _ _ hactor j.commands ?_ ?_
      · rw [harriving]
        split
        · exact List.Sublist.refl _
        · exact List.nil_sublist _
      · rw [harriving]
        simp only [loss, hactor]
        split <;> simp
    · cases hstep
  | timer timer =>
    simp only [Api.step] at hstep
    split at hstep
    · rename_i self hactor
      cases hstep
      have hturn := h.turn (z := z) (.timer timer) [] 0 hactor
        j.commands (List.Sublist.refl _) rfl
      rwa [List.append_nil] at hturn
    · cases hstep

/-- **A run**: the losses of its steps add up. -/
theorem PipeAccount.run {n : Nat} {labels : List Label} (h : PipeAccount null j n)
    (hrun : runFrom (Api.step z null) j labels = some j') :
    PipeAccount null j' (n + losses z null j labels) :=
  runFrom_costs (I := PipeAccount null) (fun _ _ _ _ h hstep => h.step hstep) h hrun

/-! ## Receiving the rest -/

/-- A `zccp_client_recv` loses nothing: the first MESSAGE ends it, so no publication stands in front. -/
theorem recv_account {n : Nat} (h : PipeAccount null j n)
    (hrun : runFrom (Api.step z null) j [.call .recv, .accept] = some j') :
    PipeAccount null j' n ∧ j'.taken = j.taken := by
  rw [runFrom_cons] at hrun
  obtain ⟨j₁, hcall, hrest⟩ := Option.bind_eq_some_iff.mp hrun
  rw [runFrom_cons] at hrest
  obtain ⟨j₂, haccept, hdone⟩ := Option.bind_eq_some_iff.mp hrest
  obtain rfl := Option.some.inj hdone
  have hwaiting : j₁.waiting = some .recv ∧ j₁.taken = j.taken := by
    simp only [Api.step] at hcall
    split at hcall <;> cases hcall
    exact ⟨rfl, rfl⟩
  have haccount := (h.step hcall).step haccept
  have hloss : loss null j₁ .accept = 0 := by
    simp only [loss, hwaiting.1, Option.elim_some, onPipe_ahead_recv, List.length_nil]
  rw [hloss] at haccount
  refine ⟨haccount, ?_⟩
  rw [← hwaiting.2]
  obtain ⟨w, -, hrest⟩ := Option.bind_eq_some_iff.mp haccept
  obtain ⟨⟨self, pipe⟩, -, hj₂⟩ := Option.bind_eq_some_iff.mp hrest
  cases hj₂
  rfl

/-- It returns the first publication on the pipe, past whatever stale replies stand in front of it. -/
theorem recv_next {n : Nat} {p : Publication} {rest : List Publication} (h : PipeAccount null j n)
    (hidle : j.waiting = none) (hon : onPipe j.pipe.queue = p :: rest) :
    ∃ j', runFrom (Api.step z null) j [.call .recv, .accept] = some j' ∧
      j'.waiting = none ∧ onPipe j'.pipe.queue = rest ∧ j'.returned = j.returned ++ [p] := by
  have hcall : Api.step z null j (.call .recv) = some { j with waiting := some .recv } := by
    simp only [Api.step, hidle, Option.isSome_none, Bool.false_eq_true, if_false, Call.command,
      Option.toList_none, List.append_nil]
    rfl
  have hpipe : j.pipe = ⟨[], j.pipe.queue⟩ := by
    rw [← h.start]
  rcases accept_spec .recv j.self h.replies with
    ⟨m, behind, hsplit, self', hload, hreply⟩ | ⟨-, hnone⟩
  · have hon' : onPipe j.pipe.queue = self'.publication :: onPipe behind := by
      conv_lhs => rw [hsplit]
      rw [onPipe_append, onPipe_ahead_recv, List.nil_append, onPipe, List.filterMap_cons, hreply]
      rfl
    rw [hon] at hon'
    obtain ⟨rfl, rfl⟩ := List.cons.inj hon'
    let j₂ : System := { j with
      self := self', pipe := ⟨[], behind⟩, returned := j.returned ++ [self'.publication],
      waiting := none }
    have haccept : Api.step z null { j with waiting := some .recv } .accept = some j₂ := by
      show (sAcceptReply Waiting.recv.filters j.self j.pipe).bind _ = _
      rw [hpipe, hload]
      rfl
    refine ⟨j₂, ?_, rfl, rfl, rfl⟩
    rw [runFrom_cons, hcall, Option.bind_some, runFrom_cons, haccept, Option.bind_some, runFrom_nil]
  · have hnone' : onPipe j.pipe.queue = [] := by
      refine List.filterMap_eq_nil_iff.mpr fun m hm => if_neg ?_
      exact fun hname => hnone m hm (by rw [hname]; exact List.mem_cons_self)
    rw [hon] at hnone'
    cases hnone'

/-- **As many calls as there are publications on the pipe get them all.** -/
theorem recv_all {n : Nat} (h : PipeAccount null j n) (hidle : j.waiting = none) :
    ∃ j', runFrom (Api.step z null) j (recvs (onPipe j.pipe.queue).length) = some j' ∧
      j'.returned = j.returned ++ onPipe j.pipe.queue := by
  generalize hon : onPipe j.pipe.queue = rest
  induction rest generalizing j with
  | nil => exact ⟨j, rfl, (List.append_nil _).symm⟩
  | cons p rest ih =>
    obtain ⟨j₁, hrun₁, hidle₁, hon₁, hreturned₁⟩ := recv_next (z := z) h hidle hon
    obtain ⟨j', hrun', hreturned'⟩ := ih (recv_account h hrun₁).1 hidle₁ hon₁
    refine ⟨j', ?_, ?_⟩
    · rw [List.length_cons, show recvs (rest.length + 1) = [.call .recv, .accept] ++ recvs rest.length
        from rfl, runFrom_append, hrun₁]
      exact hrun'
    · rw [hreturned', hreturned₁, List.append_assoc]
      rfl

theorem recvs_account {n k : Nat} (h : PipeAccount null j n)
    (hrun : runFrom (Api.step z null) j (recvs k) = some j') :
    PipeAccount null j' n ∧ j'.taken = j.taken := by
  induction k generalizing j with
  | zero =>
    cases hrun
    exact ⟨h, rfl⟩
  | succ k ih =>
    obtain ⟨j₁, hrun₁, hrest⟩ : ∃ j₁, runFrom (Api.step z null) j [.call .recv, .accept] = some j₁ ∧
        runFrom (Api.step z null) j₁ (recvs k) = some j' := runFrom_of_append hrun
    obtain ⟨haccount₁, htaken₁⟩ := recv_account h hrun₁
    obtain ⟨haccount', htaken'⟩ := ih haccount₁ hrest
    exact ⟨haccount', htaken'.trans htaken₁⟩

/-- **No message is lost inside the client**, exactly as far as none is lost on the way. In every
state that a run can reach, what the application has got and what is on the pipe for it is, in order,
some of what the actor has taken since it was connected, and all of it if no step was a loss. And
when no call is waiting, there is a number of calls of `zccp_client_recv` after which the application
has got all of it if and only if no step was a loss. -/
theorem lossless_iff (z : Czmq) (null : CStr) (labels : List Label) (j : System)
    (hrun : run z null labels = some j) :
    (j.returned ++ onPipe j.pipe.queue).Sublist j.taken ∧
      (j.taken = j.returned ++ onPipe j.pipe.queue ↔ losses z null .new labels = 0) ∧
      (j.waiting = none →
        ((∃ k j', runFrom (step z null) j (recvs k) = some j' ∧ j'.returned = j.taken) ↔
          losses z null .new labels = 0)) := by
  have haccount := (pipeAccount_new null).run hrun
  rw [Nat.zero_add] at haccount
  have hiff : j.taken = j.returned ++ onPipe j.pipe.queue ↔ losses z null .new labels = 0 := by
    have hbalance := haccount.balance
    constructor
    · intro heq
      rw [heq, List.length_append] at hbalance
      omega
    · intro hzero
      refine (haccount.order.eq_of_length ?_).symm
      rw [List.length_append, hbalance, hzero]
      rfl
  refine ⟨haccount.order, hiff, fun hidle => ⟨?_, fun hzero => ?_⟩⟩
  · rintro ⟨k, j', hrun', hreturned⟩
    obtain ⟨haccount', htaken⟩ := recvs_account haccount hrun'
    have hbalance := haccount'.balance
    rw [htaken, hreturned] at hbalance
    omega
  · obtain ⟨j', hrun', hreturned⟩ := recv_all (z := z) haccount hidle
    exact ⟨_, j', hrun', hreturned.trans (hiff.mpr hzero).symm⟩

/-- A DELIVER from `A` to `A`, of the string `content`. -/
def deliverMsg (content : CStr) : ZccpMsg := { zccpMsgNew .deliver with
  sender := some (.ofBytes [65]), address := some (.ofBytes [65]), content := some [content.bytes] }

/-- The steps by which an application connects. -/
def connects : List Label :=
  [.call (.connect (.ofBytes [65]) 100), .command, .message (wire (zccpMsgNew .helloOk)), .accept]

/-- The application connects and subscribes; one DELIVER comes before the broker has heard of it, and
one before the application is told that it has. -/
def subscribes : List Label :=
  connects ++ [.message (wire (deliverMsg (.ofBytes [66]))), .call (.subscribe (.ofBytes [65])),
    .command, .message (wire (deliverMsg (.ofBytes [67]))),
    .message (wire (zccpMsgNew .subscribeOk)), .accept]

/-- What comes to a connected application, it gets. -/
theorem lossless_iff_connects :
    let z := Czmq.printing .literal strictPrintf
    ∃ j, run z .empty (connects ++ [.message (wire (deliverMsg (.ofBytes [66])))]) = some j ∧
      j.taken = [publicationOf .empty (deliverMsg (.ofBytes [66]))] ∧
      ∃ k j', runFrom (step z .empty) j (recvs k) = some j' ∧ j'.returned = j.taken := by
  intro z
  obtain ⟨j, hrun, hj⟩ := (Option.any_eq_true ..).mp (show
    (run z .empty (connects ++ [.message (wire (deliverMsg (.ofBytes [66])))])).any (fun j =>
      decide (j.waiting = none ∧
        j.taken = [publicationOf .empty (deliverMsg (.ofBytes [66]))])) = true by decide +kernel)
  obtain ⟨hidle, htaken⟩ := of_decide_eq_true hj
  refine ⟨j, hrun, htaken, ?_⟩
  exact ((lossless_iff z .empty _ j hrun).2.2 hidle).mpr (by decide +kernel)

/-- **Two messages that are lost.** One has been on the pipe when the application subscribes, the other
comes before the SUBSCRIBE_OK does. The client is connected and subscribed, and however often the
application receives, it gets neither. -/
theorem not_lossless_subscribes :
    let z := Czmq.printing .literal strictPrintf
    ∃ j, run z .empty subscribes = some j ∧ j.waiting = none ∧
      j.taken = [publicationOf .empty (deliverMsg (.ofBytes [66])),
        publicationOf .empty (deliverMsg (.ofBytes [67]))] ∧
      ∀ k j', runFrom (step z .empty) j (recvs k) = some j' → j'.returned = [] := by
  intro z
  obtain ⟨j, hrun, hj⟩ := (Option.any_eq_true ..).mp (show
    (run z .empty subscribes).any (fun j => decide (j.waiting = none ∧
      j.taken = [publicationOf .empty (deliverMsg (.ofBytes [66])),
        publicationOf .empty (deliverMsg (.ofBytes [67]))])) = true by decide +kernel)
  obtain ⟨hidle, htaken⟩ := of_decide_eq_true hj
  refine ⟨j, hrun, hidle, htaken, fun k j' hrun' => ?_⟩
  have hlosses : losses z .empty .new subscribes = 2 := by decide +kernel
  have haccount := (pipeAccount_new .empty).run hrun
  rw [hlosses] at haccount
  obtain ⟨haccount', htaken'⟩ := recvs_account haccount hrun'
  have hbalance := haccount'.balance
  rw [htaken', htaken] at hbalance
  have hnone : j'.returned.length = 0 := by
    simp only [List.length_cons, List.length_nil] at hbalance
    omega
  exact List.eq_nil_of_length_eq_zero hnone

end Zccp.Api
