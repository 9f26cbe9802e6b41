import Zccp.Broker.Runs
import Zccp.Msg.RoundTrip

/-!
# `Zccp/Broker/Timers.lean` — expiry timers and sessions

A timer is armed by `s_server_client_message` and cancelled there or by `s_client_destroy`; a session
is made and ended elsewhere, and may be ended inside its own timer's callback, or by the message that
has just armed its timer. `timers_fit` says that between callbacks the two are in step all the same:
one timer for each session, one session for each timer, armed by the last message of the peer.
-/

set_option autoImplicit false

namespace Zccp.Broker

open Lib CursorList

variable {z : Czmq} {verbose : Bool}

/-! ## What a transition does to a timer -/

/-- A timer is running, for a session of this peer. -/
def Core.Runs (k : Core) (p : Frame) (t : Timer) : Prop :=
  t ∈ k.timers ∧ ∃ σ, k.session t.argument = some σ ∧ σ.routingId = p

/-- A timer with an id that has not been given out before, of the peer that the input comes from. -/
def Arms (k : Core) (input : Input) (p : Frame) (t : Timer) : Prop :=
  (∃ frames, input = .message p frames) ∧ k.lastTimerId < t.id

/-- The peer whose session has a timer running is one that the table has. -/
theorem Inv.known_of_runs {k : Core} (hi : Inv z k) {p : Frame} {t : Timer} (h : k.Runs p t) :
    k.clients (zframeStrhex p) = some t.argument := by
  obtain ⟨-, σ, hσ, rfl⟩ := h
  exact hi.clients_of_session hσ

theorem Inv.ne_of_runs {k : Core} (hi : Inv z k) {p c : Frame} {t : Timer} (h : k.Runs p t)
    (hc : k.clients (zframeStrhex c) = none) : p ≠ c := by
  rintro rfl
  rw [hi.known_of_runs h] at hc
  cases hc

/-- A HELLO from a stranger arms the timer of the new session. -/
theorem Inv.runs_enrol {k : Core} (hi : Inv z k) {routingId : Frame} {identifier : CStr}
    {msg : ZccpMsg} {p : Frame} {t : Timer} (h : (k.enrol routingId identifier msg).Runs p t) :
    (p = routingId ∧ k.lastTimerId < t.id) ∨ k.Runs p t := by
  obtain ⟨ht, σ, hσ, hp⟩ := h
  rcases List.mem_append.mp ht with ht | ht
  · -- an old timer, and so an old session
    obtain ⟨σ', hσ', -⟩ := hi.timer t ht
    have hne : t.argument ≠ k.brk := Nat.ne_of_lt (hi.fresh _ σ' hσ')
    simp only [Core.enrol, Function.update_of_ne hne] at hσ
    exact .inr ⟨ht, σ, hσ, hp⟩
  · obtain rfl := List.mem_singleton.mp ht
    simp only [Core.enrol, Function.update_self, Option.some.injEq] at hσ
    subst hσ
    exact .inl ⟨hp.symm, Nat.lt_succ_self _⟩

/-- A message for a session arms its timer anew, and leaves the others. -/
theorem Inv.runs_touch {k : Core} (hi : Inv z k) {r : Ref} {σ : Session} {msg : ZccpMsg}
    (hr : k.session r = some σ) {p : Frame} {t : Timer} (h : (k.touch r σ msg).Runs p t) :
    (p = σ.routingId ∧ k.lastTimerId < t.id) ∨ (p ≠ σ.routingId ∧ k.Runs p t) := by
  obtain ⟨ht, σ', hσ', hp⟩ := h
  rcases List.mem_append.mp ht with ht | ht
  · obtain ⟨ht, hid⟩ := List.mem_filter.mp ht
    obtain ⟨σ₀, hσ₀, hid₀⟩ := hi.timer t ht
    -- it is not the timer of this session, which has been cancelled
    have hne : t.argument ≠ r := by
      intro he
      rw [he, hr, Option.some.injEq] at hσ₀
      rw [← hid₀, hσ₀] at hid
      simp at hid
    simp only [Core.touch, Core.setSession, Function.update_of_ne hne] at hσ'
    have hruns : k.Runs p t := ⟨ht, σ', hσ', hp⟩
    refine .inr ⟨?_, hruns⟩
    rintro rfl
    have hlisted := hi.clients_of_session hr
    rw [hi.known_of_runs hruns] at hlisted
    exact hne (Option.some.inj hlisted)
  · obtain rfl := List.mem_singleton.mp ht
    simp only [Core.touch, Core.setSession, Function.update_self, Option.some.injEq] at hσ'
    subst hσ'
    exact .inl ⟨hp.symm, Nat.lt_succ_self _⟩

/-- With a session its timer goes, and no other. -/
theorem Inv.runs_drop {k : Core} (hi : Inv z k) {r : Ref} {σ : Session} (hr : k.session r = some σ)
    {p : Frame} {t : Timer} (h : (k.drop r σ).Runs p t) : p ≠ σ.routingId ∧ k.Runs p t := by
  obtain ⟨ht, σ', hσ', hp⟩ := h
  have hne : t.argument ≠ r := by
    intro he
    simp [Core.drop, he] at hσ'
  simp only [Core.drop, Function.update_of_ne hne] at hσ'
  have hruns : k.Runs p t := ⟨(List.mem_filter.mp ht).1, σ', hσ', hp⟩
  refine ⟨?_, hruns⟩
  rintro rfl
  have hlisted := hi.clients_of_session hr
  rw [hi.known_of_runs hruns] at hlisted
  exact hne (Option.some.inj hlisted)

/-- **One input.** A timer that runs has been armed by it, or has been running before and the input is
no message of its peer. -/
theorem Transition.runs {k k' : Core} {input : Input} {tr : List Obs}
    (h : Transition z k input k' tr) (hi : Inv z k) {p : Frame} {t : Timer} (ht : k'.Runs p t) :
    Arms k input p t ∨ ((∀ frames, input ≠ .message p frames) ∧ k.Runs p t) := by
  have hother : ∀ {c : Frame} {frames : List Frame}, p ≠ c →
      ∀ frames', Input.message c frames ≠ .message p frames' := by
    intro c frames hne frames' he
    exact hne (Input.message.inj he).1.symm
  have htouch : ∀ {r : Ref} {σ : Session} {msg : ZccpMsg} {c : Frame} {frames : List Frame},
      k.session r = some σ → σ.routingId = c → (k.touch r σ msg).Runs p t →
      Arms k (.message c frames) p t ∨
        ((∀ frames', Input.message c frames ≠ .message p frames') ∧ k.Runs p t) := by
    rintro r σ msg c frames hr rfl hruns
    rcases hi.runs_touch hr hruns with ⟨rfl, hid⟩ | ⟨hne, hruns⟩
    · exact .inl ⟨⟨frames, rfl⟩, hid⟩
    · exact .inr ⟨hother hne, hruns⟩
  cases h with
  | hello routingId frames _ msg identifier _ _ _ _ _ unknown =>
    rcases hi.runs_enrol ht with ⟨rfl, hid⟩ | hruns
    · exact .inl ⟨⟨frames, rfl⟩, hid⟩
    · exact .inr ⟨hother (hi.ne_of_runs hruns unknown), hruns⟩
  | refuse _ _ _ _ _ _ _ _ _ unknown =>
    have hruns : k.Runs p t := ht
    exact .inr ⟨hother (hi.ne_of_runs hruns unknown), hruns⟩
  | subscribe _ _ _ _ _ _ _ _ _ _ _ _ _ session peer => exact htouch session peer ht
  | publish _ _ _ _ _ _ _ _ _ _ _ _ _ session peer => exact htouch session peer ht
  | direct _ _ _ _ _ _ _ _ _ _ session peer => exact htouch session peer ht
  | close _ _ _ msg _ σ _ _ _ _ _ session peer =>
    -- the timer that has just been armed is cancelled again
    obtain ⟨hne, hruns⟩ := (hi.touch session msg).runs_drop (Function.update_self ..) ht
    rcases hi.runs_touch session hruns with ⟨rfl, -⟩ | ⟨-, hruns⟩
    · exact absurd rfl hne
    · exact .inr ⟨hother (peer ▸ hne), hruns⟩
  | expire _ _ _ _ _ session =>
    refine .inr ⟨?_, (hi.runs_drop session ht).2⟩
    intro frames he
    cases he
  | nothing =>
    refine .inr ⟨?_, ht⟩
    intro frames he
    cases he

/-- An expiry ends the session at this address. -/
theorem Transition.expired {k k' : Core} {c : Frame} {tr : List Obs}
    (h : Transition z k (.expiry c) k' tr) (hi : Inv z k) {r : Ref} {σ : Session}
    (hr : k.session r = some σ) (hc : σ.routingId = c) :
    k'.session r = none ∧ k'.clients (zframeStrhex c) = none := by
  have hlisted := hi.clients_of_session hr
  rw [hc] at hlisted
  cases h with
  | nothing _ unknown =>
    rw [hlisted] at unknown
    cases unknown
  | expire _ r' σ' _ _ session peer =>
    have hlisted' := hi.clients_of_session session
    rw [peer, hlisted] at hlisted'
    obtain rfl := Option.some.inj hlisted'
    obtain rfl := Option.some.inj (hr.symm.trans session)
    refine ⟨Function.update_self .., ?_⟩
    rw [← hc, ← (hi.idle r σ hr).key]
    exact Function.update_self ..

/-! ## Over a run -/

/-- The timer was armed, with an id of its own, by the last message of the peer, and has been running
ever since. -/
def ArmedByLast (z : Czmq) (verbose : Bool) (inputs : List Input) (p : Frame) (t : Timer) : Prop :=
  ∃ pre frames post s₀, inputs = pre ++ .message p frames :: post ∧
    (∀ i ∈ post, ∀ frames', i ≠ .message p frames') ∧
    run z verbose pre = some s₀ ∧ s₀.lastTimerId < t.id ∧
    ∀ mid, mid <+: post → ∃ s₁, run z verbose (pre ++ .message p frames :: mid) = some s₁ ∧
      t ∈ s₁.timers

/-- **Timers and sessions** of a server that a run has led to. -/
structure TimersFit (z : Czmq) (verbose : Bool) (inputs : List Input) (s : Server) : Prop where
  /-- A session in the table has one timer, which its last message has armed. -/
  armed : ∀ key r, s.clients key = some r → ∃ c, s.heap r = some c ∧
    s.timers.filter (·.argument = r) = [{ id := c.expiryTimer, argument := r }] ∧
    ArmedByLast z verbose inputs c.routingId { id := c.expiryTimer, argument := r }
  /-- A timer is the timer of a session in the table. -/
  listed : ∀ t ∈ s.timers, ∃ c, s.heap t.argument = some c ∧ c.expiryTimer = t.id ∧
    s.clients (zframeStrhex c.routingId) = some t.argument
  /-- When it fires, it is that session that its callback ends. -/
  fires : ∀ t ∈ s.timers, s.timers.find? (·.id = t.id) = some t ∧
    ∃ c s', s.heap t.argument = some c ∧ zloopFire z s.fuel 2 t.id s = some (s', 0) ∧
      s'.heap t.argument = none ∧ s'.clients (zframeStrhex c.routingId) = none

/-- The timers of a session are one, the one it knows by id. -/
theorem Inv.filter_timers {k : Core} (hi : Inv z k) {r : Ref} {σ : Session}
    (hr : k.session r = some σ) :
    k.timers.filter (·.argument = r) = [{ id := σ.expiryTimer, argument := r }] := by
  have hmem := (hi.armed r σ hr).2
  have hnodup : k.timers.Nodup := hi.timerIds.of_map _
  refine List.perm_singleton.mp ((List.perm_ext_iff_of_nodup (hnodup.filter _)
    (List.nodup_singleton _)).mpr fun t => ?_)
  rw [List.mem_filter, List.mem_singleton, decide_eq_true_iff]
  constructor
  · rintro ⟨ht, rfl⟩
    obtain ⟨σ', hσ', hid⟩ := hi.timer t ht
    rw [hr, Option.some.injEq] at hσ'
    rw [hσ', hid]
  · rintro rfl
    exact ⟨hmem, rfl⟩

/-- A step either arms the timer of a peer, by a message of that peer, or leaves it as it was; so a timer that
is running was armed by the last message (`runFrom_since`), and has been running from then on. -/
theorem armedByLast_of_run {inputs : List Input} {s : Server} (hs : run z verbose inputs = some s)
    {p : Frame} {t : Timer} (ht : s.core.Runs p t) : ArmedByLast z verbose inputs p t := by
  have hstep : ∀ s i s', Inv z s.core → step z s i = some s' → s'.core.Runs p t →
      Arms s.core i p t ∨ ((∀ frames, i ≠ .message p frames) ∧ s.core.Runs p t) := by
    intro s i s' hi hs' hruns
    obtain ⟨tr, htrans⟩ := transition_of_step hi hs'
    exact htrans.runs hi hruns
  have hnone : ¬ (Server.new verbose).core.Runs p t := fun h => absurd h.1 (List.not_mem_nil)
  obtain ⟨pre, i, post, s₁, s₂, rfl, hs₁, hs₂, ⟨⟨frames, rfl⟩, hid⟩, hpost, hsince⟩ :=
    runFrom_since (P := fun s => s.core.Runs p t) (N := fun s i _ => Arms s.core i p t)
      (Q := fun i => ∀ frames, i ≠ .message p frames) inv_step hstep (Inv.new z verbose) hnone hs
      ht
  refine ⟨pre, frames, post, s₁, rfl, hpost, hs₁, hid, fun mid hmid => ?_⟩
  obtain ⟨rest, rfl⟩ := hmid
  rw [← List.cons_append, ← List.append_assoc] at hs
  obtain ⟨s₃, hs₃, -⟩ := runFrom_of_append hs
  refine ⟨s₃, hs₃, (hsince mid (List.prefix_append _ _) s₃ ?_).1⟩
  rw [runFrom_append, hs₁, Option.bind_some, runFrom_cons, hs₂, Option.bind_some] at hs₃
  exact hs₃

/-- **Timers and sessions correspond.** -/
theorem timers_fit (z : Czmq) (verbose : Bool) (inputs : List Input)
    (hd : ∀ i ∈ inputs, i.Decodable) :
    ∃ s, run z verbose inputs = some s ∧ TimersFit z verbose inputs s := by
  obtain ⟨s, hs, himpl, -⟩ := run_refines z verbose hd
  have hi := himpl.inv
  refine ⟨s, hs, ?_, ?_, ?_⟩
  · intro key r hr
    obtain ⟨σ, hσ, -⟩ := hi.table key r hr
    obtain ⟨c, hc, rfl⟩ := Server.heap_of_session hσ
    exact ⟨c, hc, hi.filter_timers hσ,
      armedByLast_of_run hs ⟨(hi.armed r _ hσ).2, _, hσ, rfl⟩⟩
  · intro t ht
    obtain ⟨σ, hσ, hid⟩ := hi.timer t ht
    obtain ⟨c, hc, rfl⟩ := Server.heap_of_session hσ
    exact ⟨c, hc, hid, hi.known_of_runs ⟨ht, _, hσ, rfl⟩⟩
  · intro t ht
    obtain ⟨σ, hσ, hid⟩ := hi.timer t ht
    obtain ⟨c, hc, rfl⟩ := Server.heap_of_session hσ
    have hfind := hi.find_timer hσ
    rw [hid] at hfind
    obtain ⟨s', tr, hs', htrans, -⟩ := zloopFire_spec (z := z) (n := 1) hi hσ
      (Nat.le_of_eq s.fuel_eq.symm)
    rw [hid] at hs'
    obtain ⟨hgone, hunlisted⟩ := htrans.expired hi hσ rfl
    exact ⟨hfind, c, s', hc, hs', Option.map_eq_none_iff.mp hgone, hunlisted⟩

/-- A peer is sent a DELIVER, says something itself, and another has its session end. -/
theorem timers_fit_deliver :
    let name := CStr.ofBytes [65]
    let inputs : List Input := [.message [1] (wire (.hello name)), .message [2] (wire (.hello name)),
      .message [2] (wire (.subscribe name)), .message [1] (wire (.publish name none [])),
      .message [2] (wire (.subscribe name)), .expiry [1]]
    ∃ s, run .literal false inputs = some s ∧ TimersFit .literal false inputs s := by
  intro name inputs
  have hhello := zccpMsgDecode_wire (m := .hello name) (by decide) (fits_hello (by decide))
  have hsub := zccpMsgDecode_wire (m := .subscribe name) (by decide) (fits_subscribe (by decide))
  have hpub := zccpMsgDecode_wire (m := .publish name none []) (by decide)
    (fits_publish (by decide) fitsHeaders_none)
  apply timers_fit
  simp only [inputs, List.forall_mem_cons, List.not_mem_nil, false_implies, implies_true, and_true]
  exact ⟨⟨_, hhello⟩, ⟨_, hhello⟩, ⟨_, hsub⟩, ⟨_, hpub⟩, ⟨_, hsub⟩, trivial⟩

end Zccp.Broker
