import Zccp.Client.Runs

/-!
# `Zccp/Client/Survival.lean` — aborting, and waiting for ever

Two ways for an application to come to grief through its client.

The start state of the client does not inherit `defaults`, whose `*` event discards whatever has no
transition, and the `else` that is generated for it is an assertion. `never_aborts_iff` says for which
inputs that is reached: those whose first event is anything but a CONNECT that `zsock_connect`
carries out. A CONNECT that it does not carry out raises `error`, whose transition is in `connected`.

The other states count on `expired` to notice that the server is silent. `engine_set_timeout` stores
the timeout and arms no timer, so the event is never raised (`never_guarded`): the callback for it
is dead code.
-/

set_option autoImplicit false

namespace Zccp.Client

variable {z : Czmq} {self self' : SClient}

/-! ## The assertion -/

/-- The messages that raise no event and halt a client. -/
def Halting (id : MsgId) : Prop := id = .hello ∨ id = .goodbye ∨ id = .pingOk

/-- What comes first, of the things a client has to do something about, is a CONNECT that can be
carried out, or something that ends the client. -/
def Opens (z : Czmq) : List Input → Prop
  | [] => True
  | .command (.connect endpoint _) :: _ => z.zsockConnect endpoint = true
  | .command (.subscribe _) :: _ => False
  | .command (.publish _ _) :: _ => False
  | .command .term :: _ => True
  | .message frames :: _ => ∀ m, zccpMsgDecode frames = .ok m → Halting m.id
  | _ :: inputs => Opens z inputs

theorem sProtocolEvent_eq_none_iff {frames : List Frame} {m : ZccpMsg}
    (hdec : zccpMsgDecode frames = .ok m) : sProtocolEvent m = none ↔ Halting m.id := by
  have hshape := (zccpMsgDecode_shape hdec).2
  unfold sProtocolEvent Halting
  cases hid : m.id <;> rw [hid] at hshape <;> simp at hshape ⊢

/-- Once there is a connection, nothing aborts the process. -/
theorem actorRun_started (h : Running self) (hnone : self.timers = []) (hs : self.state ≠ .start)
    (inputs : List Input) (fault : Fault) :
    inputs.foldl (actorStep z) (.up self) ≠ .aborted fault := by
  induction inputs generalizing self with
  | nil => nofun
  | cons input inputs ih =>
    rw [List.foldl_cons]
    have hdoes := actorStep_does (z := z) h hnone input
    cases hstep : actorStep z (.up self) input with
    | up self' =>
      obtain ⟨hrunning', hnone'⟩ := actorStep_up h hnone hstep
      refine ih hrunning' hnone' ?_
      rw [hstep] at hdoes
      cases hdoes with
      | command hm survives turn =>
        rw [turn.state, (commanding_eq z self _).1]
        unfold accepted
        split <;> first | exact hs | exact nofun
      | @message frames m event _ state decoded raises turn =>
        have hstarted : Started ({ self with msgin := some m } : SClient).state := h.started state
        rw [turn.state]
        exact (started_reaction hstarted).1
      | timer => exact hs
    | ended self' =>
      rw [foldl_actorStep_over rfl]
      exact nofun
    | aborted fault' =>
      rw [hstep] at hdoes
      cases hdoes with
      | abort aborts =>
        unfold Aborts at aborts
        split at aborts
        case h_4 => exact aborts.elim
        all_goals contradiction
      | early state decoded raises => exact absurd state hs

/-- Before that, the first event decides. The induction is over inputs that raise none (VERBOSE, unknown
commands, timers that are not armed), which leave the client in its start state. -/
theorem actorRun_start (h : Running self) (hnone : self.timers = []) (hs : self.state = .start)
    (inputs : List Input) :
    (∀ event state, inputs.foldl (actorStep z) (.up self) ≠ .aborted (.unhandled event state)) ↔
      Opens z inputs := by
  induction inputs generalizing self with
  | nil => exact ⟨fun _ => trivial, fun _ => nofun⟩
  | cons input inputs ih =>
    rw [List.foldl_cons]
    have hdoes := actorStep_does (z := z) h hnone input
    cases hstep : actorStep z (.up self) input with
    | up self' =>
      obtain ⟨hrunning', hnone'⟩ := actorStep_up h hnone hstep
      rw [hstep] at hdoes
      cases hdoes with
      | @command m _ hm survives turn =>
        have hstate := turn.state
        rw [(commanding_eq z self m).1, hs] at hstate
        rw [hs] at survives
        cases m with
        | connect endpoint timeout =>
          -- from here on nothing can go wrong
          have hnot := actorRun_started (z := z) hrunning' hnone' (by rw [hstate]; nofun) inputs
          have hconnect : z.zsockConnect endpoint = true := by simpa [Aborts] using survives
          exact ⟨fun _ => hconnect, fun _ event state => hnot _⟩
        | subscribe expression => exact absurd trivial survives
        | publish address content => exact absurd trivial survives
        | term => exact absurd rfl hm
        | verbose => exact ih hrunning' hnone' hstate
        | other => exact ih hrunning' hnone' hstate
      | message state decoded raises turn => exact absurd hs state
      | timer => exact ih hrunning' hnone' hs
    | ended self' =>
      rw [hstep] at hdoes
      refine ⟨fun _ => ?_, fun _ => by rw [foldl_actorStep_over rfl]; exact nofun⟩
      cases hdoes with
      | term quiet => trivial
      | malformed undecodable => exact fun m hm => absurd hm (undecodable m)
      | halts decoded raises quiet =>
        intro m hm
        obtain rfl := Except.ok.inj (decoded.symm.trans hm)
        exact (sProtocolEvent_eq_none_iff decoded).mp raises
    | aborted fault =>
      rw [hstep] at hdoes
      rw [foldl_actorStep_over rfl]
      cases hdoes with
      | @abort m event aborts =>
        rw [hs] at aborts
        refine ⟨fun hall => absurd rfl (hall _ _), fun hopens => ?_⟩
        cases m with
        | connect endpoint timeout => exact absurd (hopens.symm.trans aborts) nofun
        | subscribe expression => exact hopens.elim
        | publish address content => exact hopens.elim
        | _ => exact aborts.elim
      | early state decoded raises =>
        refine ⟨fun hall => absurd rfl (hall _ _), fun hopens => ?_⟩
        rw [(sProtocolEvent_eq_none_iff decoded).mpr (hopens _ decoded)] at raises
        cases raises

/-- **When the client library does not abort its process**: whatever comes to the actor, in whatever
order and number, the assertion behind `unhandled event` is not reached if and only if the inputs
open with a CONNECT that can be carried out, or with something that ends the client. -/
theorem never_aborts_iff (z : Czmq) (inputs : List Input) :
    (∀ event state, actorRun z inputs ≠ .aborted (.unhandled event state)) ↔ Opens z inputs :=
  actorRun_start running_new rfl rfl inputs

/-- A CONNECT to an endpoint that `zsock_connect` refuses, and a SUBSCRIBE that comes too early. -/
theorem aborts_refused :
    actorRun { Czmq.literal with zsockConnect := fun _ => false }
        [.command (.connect (.ofBytes [65]) 100)] = .aborted (.unhandled .error .start) ∧
      actorRun .literal [.command (.subscribe (.ofBytes [65]))] =
        .aborted (.unhandled .subscribe .start) := by
  decide +kernel

/-! ## The timeout -/

/-- An inactivity timer is armed, with the last value given to `engine_set_timeout`: what it would take for
the client to notice that the server is silent. -/
def Guarded (self : SClient) : Prop :=
  ∃ timer ∈ self.timers, timer.handler = .handleTimeout ∧ timer.delay = self.timeout

instance (self : SClient) : Decidable (Guarded self) := inferInstanceAs (Decidable (∃ _ ∈ _, _ ∧ _))

/-- **A silent server is never noticed.** Whatever has come to an actor that is up, there is no
inactivity timer in its reactor, whether it has connected or not, and no timer at all that could
fire. -/
theorem never_guarded (z : Czmq) (inputs : List Input) (self : SClient)
    (h : actorRun z inputs = .up self) :
    ¬ Guarded self ∧ ∀ timer, actorStep z (.up self) (.timer timer) = .up self := by
  obtain ⟨-, hnone⟩ := actorRun_running h
  refine ⟨?_, fun timer => ?_⟩
  · rintro ⟨timer, hmem, -⟩
    rw [hnone] at hmem
    cases hmem
  · rw [actorStep, if_neg (by simp [hnone])]

/-- A client that has sent its HELLO, with a timeout of 100 milliseconds. -/
theorem never_guarded_connecting :
    ∃ self, actorRun .literal [.command (.connect (.ofBytes [65]) 100)] = .up self ∧
      ¬ Guarded self ∧ ∀ timer, actorStep .literal (.up self) (.timer timer) = .up self :=
  ⟨_, rfl, never_guarded .literal [.command (.connect (.ofBytes [65]) 100)] _ rfl⟩

/-- It is not terminated and waits for an answer, and nothing will tell it that there is none. -/
theorem not_guarded_connecting :
    ∃ self, actorRun .literal [.command (.connect (.ofBytes [65]) 100)] = .up self ∧
      self.terminated = false ∧ self.state = .connecting ∧ self.timeout = 100 ∧ ¬ Guarded self :=
  ⟨_, rfl, rfl, rfl, rfl, by decide⟩

end Zccp.Client
