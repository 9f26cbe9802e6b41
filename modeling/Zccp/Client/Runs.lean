import Zccp.Client.Spec

/-!
# `Zccp/Client/Runs.lean` — the client actor as a process

The actor on its own, with whatever commands, messages and timers come to it in whatever order. A
callback that returns -1 ends the reactor; one with no defined result ends the process. Either is
the end of the actor, and what comes after it changes nothing.

`Does` is everything a step can be, and `actorStep_does` that a step is one of these. The second
half of it is the invariant of runs: a client that is still up is `Running`, and no timer is armed in
its reactor.
-/

set_option autoImplicit false

namespace Zccp.Client

/-! ## The process -/

/-- What can come to the actor. -/
inductive Input
  /-- A command is on the pipe. -/
  | command (method : Method)
  /-- A message is on the dealer socket. -/
  | message (frames : List Frame)
  /-- A timer fires, if it is armed. -/
  | timer (timer : Timer)
deriving DecidableEq

/-- The actor, and how it has ended. One whose reactor has ended is kept, with what it has sent; of an
aborted process nothing is left. -/
inductive Actor
  | up (self : SClient)
  /-- The reactor has ended. -/
  | ended (self : SClient)
  /-- The process has. -/
  | aborted (fault : Fault)
deriving DecidableEq

/-- Whether it is still there. -/
def Actor.isUp : Actor → Bool
  | .up _ => true
  | _ => false

/-- What a callback leaves. -/
def Actor.ofCallback : Except Fault (SClient × Int) → Actor
  | .error fault => .aborted fault
  | .ok (self, rc) => if rc = 0 then .up self else .ended self

/-- The callback a timer is armed with. -/
def fire (z : Czmq) (self : SClient) : TimerFn → Except Fault (SClient × Int)
  | .handleTimeout => sClientHandleTimeout z self
  | .handleWakeup => sClientHandleWakeup z self

/-- One turn of the reactor. -/
def actorStep (z : Czmq) : Actor → Input → Actor
  | .up self, .command method => .ofCallback (sClientHandlePipe z method self)
  | .up self, .message frames => .ofCallback (sClientHandleProtocol z frames self)
  | .up self, .timer timer =>
    if timer ∈ self.timers then
      .ofCallback (fire z { self with timers := self.timers.erase timer } timer.handler)
    else .up self
  | actor, _ => actor

/-- A run of the actor. -/
def actorRun (z : Czmq) (inputs : List Input) : Actor := inputs.foldl (actorStep z) (.up .new)

/-! ## No timer is ever armed -/

section Timers

variable {z : Czmq} {self self' : SClient}

/-- A sequence that gets through gets through its first part. -/
theorem of_bind_ok {α β : Type} {x : Except Fault α} {f : α → Except Fault β} {b : β}
    (h : x >>= f = .ok b) : ∃ a, x = .ok a ∧ f a = .ok b := by
  cases x with
  | error fault => cases h
  | ok a => exact ⟨a, rfl, h⟩

/-- No action of the state machine sets a timer. -/
theorem perform_timers {a : Action} (h : perform z self a = .ok self') :
    self'.timers = self.timers := by
  cases a with
  | connectToServerEndpoint =>
    simp only [perform, connectToServerEndpoint] at h
    split at h
    · cases h
    · split at h <;> cases h <;> rfl
  | deliverMessageToApplication =>
    simp only [perform, deliverMessageToApplication] at h
    split at h
    · cases h
    · split at h <;> cases h
      rfl
  | send id =>
    simp only [perform, sendMsgout] at h
    split at h <;> cases h
    rfl
  | unhandled => cases h
  | _ =>
    cases h
    rfl

theorem runAction_timers {a : Action} (h : runAction z self a = .ok self') :
    self'.timers = self.timers := by
  unfold runAction at h
  split at h
  · exact perform_timers h
  · cases h
    rfl

theorem foldlM_runAction_timers {acts : List Action}
    (h : acts.foldlM (runAction z) self = .ok self') : self'.timers = self.timers := by
  induction acts generalizing self with
  | nil =>
    cases h
    rfl
  | cons a acts ih =>
    rw [List.foldlM_cons] at h
    obtain ⟨self₁, ha, hacts⟩ := of_bind_ok h
    exact (ih hacts).trans (runAction_timers ha)

theorem sClientIterate_timers (h : sClientIterate z self = .ok self') :
    self'.timers = self.timers := by
  obtain ⟨self₁, hacts, h⟩ := of_bind_ok h
  have hsame := foldlM_runAction_timers hacts
  split at h <;> cases h <;> exact hsame

/-- By induction on the bound of the loop: each pass leaves the timers as they are. -/
theorem executeLoop_timers {bound : Nat} (h : executeLoop z bound self = .ok self') :
    self'.timers = self.timers := by
  induction bound generalizing self with
  | zero =>
    unfold executeLoop at h
    split at h <;> cases h
    rfl
  | succ bound ih =>
    unfold executeLoop at h
    split at h
    · cases h
      rfl
    · obtain ⟨self₁, hpass, h⟩ := of_bind_ok h
      exact (ih h).trans (sClientIterate_timers hpass)

/-- The state machine takes timers away, but does not set any: `engine_set_timeout` and
`engine_set_wakeup_event` are the only functions that could, the first does not and the second is not
called. -/
theorem sClientExecute_timers {event : Event} (hnone : self.timers = [])
    (h : sClientExecute z event self = .ok self') : self'.timers = [] := by
  rw [executeLoop_timers h]
  simp [cancelWakeup, hnone]

theorem sClientHandlePipe_timers {m : Method} {rc : Int} (hnone : self.timers = [])
    (h : sClientHandlePipe z m self = .ok (self', rc)) : self'.timers = [] := by
  cases m with
  | verbose | term =>
    cases h
    exact hnone
  | _ =>
    obtain ⟨self₁, hexec, h⟩ := of_bind_ok h
    cases h
    exact sClientExecute_timers (by exact hnone) hexec

theorem sClientHandleProtocol_timers {frames : List Frame} {rc : Int} (hnone : self.timers = [])
    (h : sClientHandleProtocol z frames self = .ok (self', rc)) : self'.timers = [] := by
  unfold sClientHandleProtocol at h
  split at h
  · cases h
    exact hnone
  · dsimp only at h
    split at h <;> obtain ⟨self₁, hexec, h⟩ := of_bind_ok h <;> cases h <;>
      exact sClientExecute_timers (by exact hnone) hexec

end Timers

/-! ## One step -/

/-- **Everything that can happen** to a client that is up, input by input. Later proofs about runs are by
cases on this and not on the callbacks. -/
inductive Does (z : Czmq) (self : SClient) : Input → Actor → Prop
  /-- A command. -/
  | command {m : Method} {self' : SClient} (hm : m ≠ .term) (survives : ¬ Aborts z self.state m)
      (turn : Turn (self.taking z m) self' (commanding z self m)) :
      Does z self (.command m) (.up self')
  /-- The last command. -/
  | term {self' : SClient} (quiet : self'.trace = self.trace ++ [.command .term]) :
      Does z self (.command .term) (.ended self')
  /-- A command for which there is no state to take it. -/
  | abort {m : Method} {event : Event} (aborts : Aborts z self.state m) :
      Does z self (.command m) (.aborted (.unhandled event .start))
  /-- A message. -/
  | message {frames : List Frame} {m : ZccpMsg} {event : Event} {self' : SClient}
      (state : self.state ≠ .start) (decoded : zccpMsgDecode frames = .ok m)
      (raises : sProtocolEvent m = some event)
      (turn : Turn { self with msgin := some m } self'
        (reaction { self with msgin := some m } event)) :
      Does z self (.message frames) (.up self')
  /-- A message that cannot be decoded ends the reactor. -/
  | malformed {frames : List Frame} (undecodable : ∀ m, zccpMsgDecode frames ≠ .ok m) :
      Does z self (.message frames) (.ended self)
  /-- So does one that a client has no event for: a HELLO, a GOODBYE or a PING_OK. -/
  | halts {frames : List Frame} {m : ZccpMsg} {self' : SClient}
      (decoded : zccpMsgDecode frames = .ok m) (raises : sProtocolEvent m = none)
      (quiet : self'.trace = self.trace) : Does z self (.message frames) (.ended self')
  /-- A message before there is a connection. -/
  | early {frames : List Frame} {m : ZccpMsg} {event : Event} (state : self.state = .start)
      (decoded : zccpMsgDecode frames = .ok m) (raises : sProtocolEvent m = some event) :
      Does z self (.message frames) (.aborted (.unhandled event .start))
  /-- A timer that is not armed. -/
  | timer {timer : Timer} : Does z self (.timer timer) (.up self)

variable {z : Czmq} {self self' : SClient}

/-- **A step is one of these**, of a client in whose reactor no timer is armed. -/
theorem actorStep_does (h : Running self) (hnone : self.timers = []) (input : Input) :
    Does z self input (actorStep z (.up self) input) := by
  cases input with
  | command m =>
    by_cases hm : m = .term
    · subst hm
      exact .term rfl
    by_cases habort : Aborts z self.state m
    · obtain ⟨event, hfault⟩ := abort_spec h habort
      rw [actorStep, hfault]
      exact .abort habort
    · obtain ⟨self', hself', hturn⟩ := command_turn h hm habort
      rw [actorStep, hself']
      exact .command hm habort hturn
  | message frames =>
    by_cases hdec : ∃ m, zccpMsgDecode frames = .ok m
    · obtain ⟨m, hdec⟩ := hdec
      cases hevent : sProtocolEvent m with
      | none =>
        obtain ⟨self', hself', hquiet⟩ := protocol_halts (z := z) (c := self) hdec hevent
        rw [actorStep, hself']
        exact .halts hdec hevent hquiet
      | some event =>
        by_cases hs : self.state = .start
        · rw [actorStep, message_start h hs hdec hevent]
          exact .early hs hdec hevent
        · obtain ⟨self', hself', hturn⟩ := message_turn (z := z) h hs hdec hevent
          rw [actorStep, hself']
          exact .message hs hdec hevent hturn
    · have hdec' : ∀ m, zccpMsgDecode frames ≠ .ok m := fun m hm => hdec ⟨m, hm⟩
      rw [actorStep, protocol_malformed hdec']
      exact .malformed hdec'
  | timer timer =>
    rw [actorStep, if_neg (by simp [hnone])]
    exact .timer

/-- A client that is up after a step is as it was before. -/
theorem actorStep_up {input : Input} (h : Running self) (hnone : self.timers = [])
    (hstep : actorStep z (.up self) input = .up self') : Running self' ∧ self'.timers = [] := by
  have hdoes := actorStep_does (z := z) h hnone input
  rw [hstep] at hdoes
  have hcallback : ∀ r, Actor.ofCallback r = .up self' → r = .ok (self', 0) := by
    intro r hr
    unfold Actor.ofCallback at hr
    split at hr
    · cases hr
    · split at hr <;> cases hr
      rename_i hrc
      rw [hrc]
  cases hdoes with
  | command hm survives turn =>
    exact ⟨command_running h turn, sClientHandlePipe_timers hnone (hcallback _ hstep)⟩
  | message state decoded raises turn =>
    exact ⟨message_running h state turn, sClientHandleProtocol_timers hnone (hcallback _ hstep)⟩
  | timer => exact ⟨h, hnone⟩

/-! ## Runs -/

theorem actorStep_over {actor : Actor} (h : actor.isUp = false) (input : Input) :
    actorStep z actor input = actor := by
  cases actor with
  | up self => cases h
  | _ => rfl

theorem foldl_actorStep_over {actor : Actor} (h : actor.isUp = false) (inputs : List Input) :
    inputs.foldl (actorStep z) actor = actor := by
  induction inputs with
  | nil => rfl
  | cons input inputs ih => rw [List.foldl_cons, actorStep_over h, ih]

theorem actorRun_snoc (inputs : List Input) (input : Input) :
    actorRun z (inputs ++ [input]) = actorStep z (actorRun z inputs) input := by
  rw [actorRun, List.foldl_append]
  rfl

theorem actorRun_up_init {inputs : List Input} {input : Input}
    (h : actorRun z (inputs ++ [input]) = .up self') :
    ∃ self, actorRun z inputs = .up self ∧ actorStep z (.up self) input = .up self' := by
  rw [actorRun_snoc] at h
  cases hrun : actorRun z inputs with
  | up self =>
    rw [hrun] at h
    exact ⟨self, rfl, h⟩
  | _ =>
    rw [hrun, actorStep_over rfl] at h
    cases h

/-- **The invariant of runs.** -/
theorem actorRun_running {inputs : List Input} (h : actorRun z inputs = .up self) :
    Running self ∧ self.timers = [] := by
  induction inputs using List.reverseRecOn generalizing self with
  | nil =>
    cases h
    exact ⟨running_new, rfl⟩
  | append_singleton inputs input ih =>
    obtain ⟨self₀, hrun, hstep⟩ := actorRun_up_init h
    obtain ⟨hrunning, hnone⟩ := ih hrun
    exact actorStep_up hrunning hnone hstep

end Zccp.Client
