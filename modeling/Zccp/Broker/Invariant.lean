import Zccp.Broker.Core

/-!
# `Zccp/Broker/Invariant.lean` — what holds between two callbacks

`Inv` is the global invariant of the broker. The pointers of the C program are what makes it
worth having: the table of clients, the pattern list and the reactor's timers all hold addresses
of clients, each put there by one function and taken out by another, and nothing but the
sequence of transitions keeps them in agreement.

It is stated about a `Core`, and preserved by each thing a callback can do to one. That a
callback *does* only these things is `handle_spec` (`Zccp/Broker/Step.lean`).

The clauses come in pairs that hold each other up: what is in the table is a session and every session
is in the table, every session has a timer and every timer a session. Neither half could be preserved
by itself. `once` and `distinct` are there for the loops of the source that stop at the first node
they find.
-/

set_option autoImplicit false

namespace Zccp.Broker

open Lib CursorList

/-- A session at rest: connected, with nothing queued, no alarm, and a fresh reply at hand. -/
structure Session.Idle (σ : Session) : Prop where
  connected : σ.state = .connected
  key : σ.hashkey = zframeStrhex σ.routingId
  mailbox : σ.mailbox = .empty
  awake : σ.wakeupTimer = 0
  named : ∃ i, σ.identifier = some i
  reply : σ.reply = freshReply σ.routingId

/-- **The invariant of the broker.** -/
structure Inv (z : Czmq) (k : Core) : Prop where
  /-- Every session is at rest; none is left in the start state. -/
  idle : ∀ r σ, k.session r = some σ → σ.Idle
  /-- The table leads to sessions only, each under its own key. -/
  table : ∀ h r, k.clients h = some r → ∃ σ, k.session r = some σ ∧ σ.hashkey = h
  /-- The table leads to all sessions. -/
  listed : ∀ r σ, k.session r = some σ → k.clients σ.hashkey = some r
  /-- The allocator hands out new addresses. -/
  fresh : ∀ r σ, k.session r = some σ → r < k.brk
  /-- Every session has its expiry timer running. -/
  armed : ∀ r σ, k.session r = some σ →
    σ.expiryTimer ≠ 0 ∧ ({ id := σ.expiryTimer, argument := r } : Timer) ∈ k.timers
  /-- There are no other timers: whoever is called back is there. -/
  timer : ∀ t ∈ k.timers, ∃ σ, k.session t.argument = some σ ∧ σ.expiryTimer = t.id
  timerIds : (k.timers.map Timer.id).Nodup
  timerBound : ∀ t ∈ k.timers, t.id ≤ k.lastTimerId
  /-- Nothing but a session is subscribed. -/
  live : ∀ t ∈ k.topics, ∀ r ∈ t.clients, ∃ σ, k.session r = some σ
  /-- Nobody is subscribed to a pattern twice. -/
  once : ∀ t ∈ k.topics, t.clients.Nodup
  /-- No two patterns are for the same expression. -/
  distinct : (k.topics.map Topic.expression).Nodup
  /-- A pattern holds its expression as `zrex_new` compiled it. -/
  compiled : ∀ t ∈ k.topics, z.zrexNew t.expression = some t.rex
  /-- The server's own headers are never set. -/
  headers : k.headers = none

namespace Inv

variable {z : Czmq} {k : Core}

/-! ## What follows from it -/

/-- No two sessions have one key, since the table leads to both. -/
theorem session_unique (h : Inv z k) {r r' : Ref} {σ σ' : Session} (hr : k.session r = some σ)
    (hr' : k.session r' = some σ') (he : σ.hashkey = σ'.hashkey) : r = r' := by
  have h₁ := h.listed r σ hr
  have h₂ := h.listed r' σ' hr'
  rw [he, h₂] at h₁
  exact (Option.some.inj h₁).symm

/-- A peer that has a session is in the table with it. -/
theorem clients_of_session (h : Inv z k) {r : Ref} {σ : Session} (hr : k.session r = some σ) :
    k.clients (zframeStrhex σ.routingId) = some r := by
  rw [← (h.idle r σ hr).key]
  exact h.listed r σ hr

/-- What is in the table for a peer is a session of that peer: two peers never share a key, because
`zframe_strhex` is injective. -/
theorem session_of_clients (h : Inv z k) {routingId : Frame} {r : Ref}
    (hr : k.clients (zframeStrhex routingId) = some r) :
    ∃ σ, k.session r = some σ ∧ σ.routingId = routingId := by
  obtain ⟨σ, hσ, hkey⟩ := h.table _ r hr
  exact ⟨σ, hσ, zframeStrhex_injective ((h.idle r σ hσ).key.symm.trans hkey)⟩

/-- Two peers have their sessions at two addresses. -/
theorem address_ne (h : Inv z k) {r r' : Ref} {σ : Session} (hr : k.session r = some σ) {c : Frame}
    (hr' : k.clients (zframeStrhex c) = some r') (hne : c ≠ σ.routingId) : r' ≠ r := by
  rintro rfl
  obtain ⟨σ', hσ', hpeer⟩ := h.session_of_clients hr'
  rw [hr, Option.some.injEq] at hσ'
  exact hne (by rw [← hpeer, hσ'])

/-- The address a new client would get is nobody's. -/
theorem session_brk (h : Inv z k) : k.session k.brk = none := by
  cases hs : k.session k.brk with
  | none => rfl
  | some σ => exact absurd (h.fresh _ _ hs) (Nat.lt_irrefl _)

/-- Where there is no session, nothing is subscribed: an address that is used again would otherwise
inherit subscriptions. -/
theorem not_subscribed (h : Inv z k) {r : Ref} (hr : k.session r = none) :
    ∀ t ∈ k.topics, r ∉ t.clients := by
  intro t ht hm
  obtain ⟨σ, hσ⟩ := h.live t ht r hm
  rw [hr] at hσ
  exact absurd hσ (by simp)

/-- No two patterns of the server are for the same expression. -/
theorem nodup_expressions {s : Server} (h : Inv z s.core) :
    (s.patterns.items.map Pattern.expression).Nodup := by
  have hmap : s.core.topics.map Topic.expression = s.patterns.items.map Pattern.expression := by
    simp only [Server.core, List.map_map]
    rfl
  rw [← hmap]
  exact h.distinct

/-- The id a new timer would get is no timer's. -/
theorem timer_fresh (h : Inv z k) : ∀ t ∈ k.timers, t.id ≠ k.lastTimerId + 1 := by
  intro t ht he
  have := h.timerBound t ht
  omega

/-- Two sessions have two timers. -/
theorem timer_ne (h : Inv z k) {r r' : Ref} {σ σ' : Session} (hr : k.session r = some σ)
    (hr' : k.session r' = some σ') (hne : r ≠ r') : σ.expiryTimer ≠ σ'.expiryTimer := by
  intro he
  have h₁ := (h.armed r σ hr).2
  have h₂ := (h.armed r' σ' hr').2
  rw [← he] at h₂
  have := List.inj_on_of_nodup_map h.timerIds h₁ h₂ rfl
  exact hne (Timer.mk.inj this).2

/-- The reactor finds a session's timer by its id, and no other. -/
theorem find_timer (h : Inv z k) {r : Ref} {σ : Session} (hr : k.session r = some σ) :
    k.timers.find? (·.id = σ.expiryTimer) =
      some { id := σ.expiryTimer, argument := r } := by
  have hm := (h.armed r σ hr).2
  cases hf : k.timers.find? (·.id = σ.expiryTimer) with
  | none =>
    rw [List.find?_eq_none] at hf
    exact absurd (hf _ hm) (by simp)
  | some t =>
    have hid : t.id = σ.expiryTimer := by simpa using List.find?_some hf
    rw [List.inj_on_of_nodup_map h.timerIds (List.mem_of_find?_eq_some hf) hm hid]

/-- A client that does not outlive the message it was made for leaves no trace but used-up
addresses and timer ids. That its removal from all the lists touches none of them is `not_subscribed`,
at an address that nobody has had. -/
theorem drop_welcome (h : Inv z k) {routingId : Frame}
    (hnew : k.clients (zframeStrhex routingId) = none) (msg : ZccpMsg) :
    (k.welcome routingId msg).drop k.brk (k.newcomer routingId msg) = k.refuse := by
  have htopics : (k.topics.map fun t => { t with clients := t.clients.filter (· ≠ k.brk) }) =
      k.topics := by
    conv_rhs => rw [← List.map_id k.topics]
    refine List.map_congr_left fun t ht => ?_
    have : t.clients.filter (· ≠ k.brk) = t.clients := by
      rw [List.filter_eq_self]
      intro r hr
      have : r ≠ k.brk := fun he => h.not_subscribed h.session_brk t ht (he ▸ hr)
      simpa using this
    rw [this]
    rfl
  have htimers : k.timers.filter (·.id ≠ k.lastTimerId + 1) = k.timers := by
    rw [List.filter_eq_self]
    intro t ht
    simpa using h.timer_fresh t ht
  ext1
  case topics => exact htopics
  case clients =>
    show Function.update (Function.update k.clients _ _) (zframeStrhex routingId) none = k.clients
    rw [Function.update_idem, ← hnew, Function.update_eq_self]
  case session =>
    show Function.update (Function.update k.session _ _) k.brk none = k.session
    rw [Function.update_idem, ← h.session_brk, Function.update_eq_self]
  case timers =>
    show (k.timers ++ [_]).filter (·.id ≠ k.lastTimerId + 1) = k.timers
    rw [List.filter_append, htimers]
    simp
  all_goals rfl

/-! ## It holds at the start -/

theorem new (z : Czmq) (verbose : Bool) : Inv z (Server.new verbose).core where
  idle r σ h := by simp [Server.core, Server.session, Server.new] at h
  table key r h := by simp [Server.core, Server.new] at h
  listed r σ h := by simp [Server.core, Server.session, Server.new] at h
  fresh r σ h := by simp [Server.core, Server.session, Server.new] at h
  armed r σ h := by simp [Server.core, Server.session, Server.new] at h
  timer t h := by simp [Server.core, Server.new] at h
  timerIds := by simp [Server.core, Server.new]
  timerBound t h := by simp [Server.core, Server.new] at h
  live t h := by simp [Server.core, Server.new, CursorList.empty] at h
  once t h := by simp [Server.core, Server.new, CursorList.empty] at h
  distinct := by simp [Server.core, Server.new, CursorList.empty]
  compiled t h := by simp [Server.core, Server.new, CursorList.empty] at h
  headers := rfl

/-! ## It is preserved -/

/-- The pointers of `forward_to_subscribers` are not in it. -/
theorem point (h : Inv z k) (r request : Ref) : Inv z (k.point r request) := { h with }

/-- Nothing but the two counters moves, and they move up. -/
theorem refuse (h : Inv z k) : Inv z k.refuse :=
  { h with
    fresh := fun r σ hr => Nat.lt_of_lt_of_le (h.fresh r σ hr) (Nat.le_add_right _ _)
    timerBound := fun t ht => Nat.le_trans (h.timerBound t ht) (Nat.le_succ _) }

/-- A new session. The premise is what keeps keys apart: without it the old session of the peer would
lose its entry in the table. -/
theorem enrol (h : Inv z k) {routingId : Frame} (identifier : CStr) (msg : ZccpMsg)
    (hnew : k.clients (zframeStrhex routingId) = none) :
    Inv z (k.enrol routingId identifier msg) := by
  have hbrk := h.session_brk
  -- a session after the step is the new one or an old one, at another address and key
  have hcases : ∀ r σ, (k.enrol routingId identifier msg).session r = some σ →
      (r = k.brk ∧ σ.routingId = routingId ∧ σ.Idle ∧ σ.expiryTimer = k.lastTimerId + 1 ∧
        σ.hashkey = zframeStrhex routingId) ∨
      (r ≠ k.brk ∧ k.session r = some σ ∧ σ.hashkey ≠ zframeStrhex routingId) := by
    intro r σ hr
    by_cases he : r = k.brk
    · subst he
      simp only [Core.enrol, Function.update_self, Option.some.injEq] at hr
      subst hr
      exact .inl ⟨rfl, rfl, ⟨rfl, rfl, rfl, rfl, ⟨_, rfl⟩, rfl⟩, rfl, rfl⟩
    · simp only [Core.enrol, Function.update_of_ne he] at hr
      refine .inr ⟨he, hr, fun hk => ?_⟩
      have := h.listed r σ hr
      rw [hk, hnew] at this
      exact absurd this (by simp)
  have hold : ∀ r σ, k.session r = some σ → (k.enrol routingId identifier msg).session r = some σ := by
    intro r σ hr
    have he : r ≠ k.brk := Nat.ne_of_lt (h.fresh r σ hr)
    simp only [Core.enrol, Function.update_of_ne he, hr]
  constructor
  case idle =>
    intro r σ hr
    rcases hcases r σ hr with ⟨-, -, hi, -⟩ | ⟨-, hr, -⟩
    · exact hi
    · exact h.idle r σ hr
  case table =>
    intro key r hr
    by_cases hk : key = zframeStrhex routingId
    · subst hk
      simp only [Core.enrol, Function.update_self, Option.some.injEq] at hr
      subst hr
      exact ⟨_, Function.update_self .., rfl⟩
    · simp only [Core.enrol, Function.update_of_ne hk] at hr
      obtain ⟨σ, hσ, hkey⟩ := h.table key r hr
      exact ⟨σ, hold r σ hσ, hkey⟩
  case listed =>
    intro r σ hr
    rcases hcases r σ hr with ⟨rfl, -, -, -, hk⟩ | ⟨-, hr, hk⟩
    · simp only [Core.enrol, hk, Function.update_self]
    · simp only [Core.enrol, Function.update_of_ne hk, h.listed r σ hr]
  case fresh =>
    intro r σ hr
    rcases hcases r σ hr with ⟨rfl, -⟩ | ⟨-, hr, -⟩
    · exact Nat.lt_add_of_pos_right Nat.two_pos
    · exact Nat.lt_of_lt_of_le (h.fresh r σ hr) (Nat.le_add_right _ _)
  case armed =>
    intro r σ hr
    simp only [Core.enrol, List.mem_append, List.mem_singleton]
    rcases hcases r σ hr with ⟨rfl, -, -, ht, -⟩ | ⟨-, hr, -⟩
    · exact ⟨by omega, .inr (by rw [ht])⟩
    · exact ⟨(h.armed r σ hr).1, .inl (h.armed r σ hr).2⟩
  case timer =>
    intro t ht
    simp only [Core.enrol, List.mem_append, List.mem_singleton] at ht
    rcases ht with ht | rfl
    · obtain ⟨σ, hσ, hid⟩ := h.timer t ht
      exact ⟨σ, hold _ σ hσ, hid⟩
    · exact ⟨_, Function.update_self .., rfl⟩
  case timerIds =>
    simp only [Core.enrol, List.map_append, List.map_cons, List.map_nil]
    rw [List.nodup_append]
    refine ⟨h.timerIds, by simp, ?_⟩
    intro a ha b hb hab
    obtain ⟨t, ht, rfl⟩ := List.mem_map.mp ha
    exact h.timer_fresh t ht (hab.trans (List.mem_singleton.mp hb))
  case timerBound =>
    intro t ht
    simp only [Core.enrol, List.mem_append, List.mem_singleton] at ht ⊢
    rcases ht with ht | rfl
    · exact Nat.le_trans (h.timerBound t ht) (Nat.le_succ _)
    · exact Nat.le_refl _
  case live =>
    intro t ht r hr
    obtain ⟨σ, hσ⟩ := h.live t ht r hr
    exact ⟨σ, hold r σ hσ⟩
  case once => exact h.once
  case distinct => exact h.distinct
  case compiled => exact h.compiled
  case headers => exact h.headers

/-- A session's timer is replaced. For that moment the old one is gone and the new one not yet there, so
that it has to be one change of the core. -/
theorem touch (h : Inv z k) {r : Ref} {σ : Session} (hr : k.session r = some σ) (msg : ZccpMsg) :
    Inv z (k.touch r σ msg) := by
  -- the session that is touched differs in its timer and its request only
  have hcases : ∀ r' σ', (k.touch r σ msg).session r' = some σ' →
      (r' = r ∧ σ' = k.touched σ msg) ∨
      (r' ≠ r ∧ k.session r' = some σ') := by
    intro r' σ' h'
    by_cases he : r' = r
    · subst he
      simp only [Core.touch, Core.setSession, Function.update_self, Option.some.injEq] at h'
      exact .inl ⟨rfl, h'.symm⟩
    · simp only [Core.touch, Core.setSession, Function.update_of_ne he] at h'
      exact .inr ⟨he, h'⟩
  have hold : ∀ r' σ', k.session r' = some σ' → ∃ σ'', (k.touch r σ msg).session r' = some σ'' ∧
      σ''.hashkey = σ'.hashkey ∧ (r' ≠ r → σ''.expiryTimer = σ'.expiryTimer) := by
    intro r' σ' h'
    by_cases he : r' = r
    · subst he
      rw [hr, Option.some.injEq] at h'
      subst h'
      exact ⟨_, Function.update_self .., rfl, fun hne => absurd rfl hne⟩
    · exact ⟨σ', by simp only [Core.touch, Core.setSession, Function.update_of_ne he, h'], rfl,
        fun _ => rfl⟩
  constructor
  case idle =>
    intro r' σ' h'
    rcases hcases r' σ' h' with ⟨-, rfl⟩ | ⟨-, h'⟩
    · exact { h.idle r σ hr with }
    · exact h.idle r' σ' h'
  case table =>
    intro key r' h'
    obtain ⟨σ', hσ', hkey⟩ := h.table key r' h'
    obtain ⟨σ'', hσ'', hk, -⟩ := hold r' σ' hσ'
    exact ⟨σ'', hσ'', hk.trans hkey⟩
  case listed =>
    intro r' σ' h'
    rcases hcases r' σ' h' with ⟨rfl, rfl⟩ | ⟨-, h'⟩
    · exact h.listed r' σ hr
    · exact h.listed r' σ' h'
  case fresh =>
    intro r' σ' h'
    simp only [Core.touch]
    rcases hcases r' σ' h' with ⟨rfl, -⟩ | ⟨-, h'⟩
    · exact Nat.lt_succ_of_lt (h.fresh r' σ hr)
    · exact Nat.lt_succ_of_lt (h.fresh r' σ' h')
  case armed =>
    intro r' σ' h'
    simp only [Core.touch, List.mem_append, List.mem_filter, List.mem_singleton]
    rcases hcases r' σ' h' with ⟨rfl, rfl⟩ | ⟨hne, h'⟩
    · exact ⟨Nat.succ_ne_zero _, .inr rfl⟩
    · refine ⟨(h.armed r' σ' h').1, .inl ⟨(h.armed r' σ' h').2, ?_⟩⟩
      simpa using h.timer_ne h' hr hne
  case timer =>
    intro t ht
    simp only [Core.touch, List.mem_append, List.mem_filter, List.mem_singleton, ne_eq, decide_not,
      Bool.not_eq_eq_eq_not, Bool.not_true, decide_eq_false_iff_not] at ht
    rcases ht with ⟨ht, hne⟩ | rfl
    · obtain ⟨σ', hσ', hid⟩ := h.timer t ht
      have hother : t.argument ≠ r := by
        intro he
        rw [he, hr, Option.some.injEq] at hσ'
        exact hne (by rw [hσ', hid])
      obtain ⟨σ'', hσ'', -, ht'⟩ := hold _ σ' hσ'
      exact ⟨σ'', hσ'', (ht' hother).trans hid⟩
    · exact ⟨_, Function.update_self .., rfl⟩
  case timerIds =>
    simp only [Core.touch, List.map_append, List.map_cons, List.map_nil]
    rw [List.nodup_append]
    refine ⟨h.timerIds.sublist (List.filter_sublist.map _), by simp, ?_⟩
    intro a ha b hb hab
    obtain ⟨t, ht, rfl⟩ := List.mem_map.mp ha
    exact h.timer_fresh t (List.mem_filter.mp ht).1 (hab.trans (List.mem_singleton.mp hb))
  case timerBound =>
    intro t ht
    simp only [Core.touch, List.mem_append, List.mem_filter, List.mem_singleton] at ht ⊢
    rcases ht with ⟨ht, -⟩ | rfl
    · exact Nat.le_trans (h.timerBound t ht) (Nat.le_succ _)
    · exact Nat.le_refl _
  case live =>
    intro t ht r' hr'
    obtain ⟨σ', hσ'⟩ := h.live t ht r' hr'
    obtain ⟨σ'', hσ'', -⟩ := hold r' σ' hσ'
    exact ⟨σ'', hσ''⟩
  case once => exact h.once
  case distinct => exact h.distinct
  case compiled => exact h.compiled
  case headers => exact h.headers

/-- A subscription. Only the clauses on topics are at stake, and of these `live` needs the session. -/
theorem subscribe (h : Inv z k) {r : Ref} {σ : Session} (hr : k.session r = some σ)
    (expression : CStr) : Inv z (k.subscribe z r expression) := by
  -- only the topics change
  have key : (∀ t ∈ (k.subscribe z r expression).topics, ∀ r' ∈ t.clients,
        ∃ σ, k.session r' = some σ) ∧
      (∀ t ∈ (k.subscribe z r expression).topics, t.clients.Nodup) ∧
      ((k.subscribe z r expression).topics.map Topic.expression).Nodup ∧
      (∀ t ∈ (k.subscribe z r expression).topics, z.zrexNew t.expression = some t.rex) := by
    unfold Core.subscribe
    by_cases hm : expression ∈ k.topics.map Topic.expression
    · simp only [if_pos hm]
      refine ⟨?_, ?_, ?_, ?_⟩
      · intro t' ht' r' hr'
        obtain ⟨t, ht, rfl⟩ := List.mem_map.mp ht'
        split at hr'
        · rcases List.mem_append.mp hr' with hr' | hr'
          · exact h.live t ht r' hr'
          · rw [List.mem_singleton.mp hr']
            exact ⟨σ, hr⟩
        · exact h.live t ht r' hr'
      · intro t' ht'
        obtain ⟨t, ht, rfl⟩ := List.mem_map.mp ht'
        split
        · next hc =>
          refine List.nodup_append.mpr ⟨h.once t ht, by simp, ?_⟩
          rintro a ha b hb rfl
          exact hc.2 (List.mem_singleton.mp hb ▸ ha)
        · exact h.once t ht
      · have : (fun t : Topic => if t.expression = expression ∧ r ∉ t.clients then
            { t with clients := t.clients ++ [r] } else t) = fun t =>
            { t with clients := if t.expression = expression ∧ r ∉ t.clients then
              t.clients ++ [r] else t.clients } := by
          funext t
          split <;> rfl
        simp only [this, List.map_map]
        exact h.distinct
      · intro t' ht'
        obtain ⟨t, ht, rfl⟩ := List.mem_map.mp ht'
        split <;> exact h.compiled t ht
    · simp only [if_neg hm]
      cases hz : z.zrexNew expression with
      | none => exact ⟨h.live, h.once, h.distinct, h.compiled⟩
      | some rex =>
        refine ⟨?_, ?_, ?_, ?_⟩
        · intro t ht r' hr'
          rcases List.mem_append.mp ht with ht | ht
          · exact h.live t ht r' hr'
          · rw [List.mem_singleton.mp ht] at hr'
            rw [List.mem_singleton.mp hr']
            exact ⟨σ, hr⟩
        · intro t ht
          rcases List.mem_append.mp ht with ht | ht
          · exact h.once t ht
          · rw [List.mem_singleton.mp ht]
            exact List.nodup_singleton _
        · simp only [List.map_append, List.map_cons, List.map_nil]
          refine List.nodup_append.mpr ⟨h.distinct, by simp, ?_⟩
          rintro a ha b hb rfl
          exact hm (List.mem_singleton.mp hb ▸ ha)
        · intro t ht
          rcases List.mem_append.mp ht with ht | ht
          · exact h.compiled t ht
          · rw [List.mem_singleton.mp ht]
            exact hz
  obtain ⟨hlive, honce, hdistinct, hcompiled⟩ := key
  exact { h with live := hlive, once := honce, distinct := hdistinct, compiled := hcompiled }

/-- The end of a session. Its timer, its entry and its subscriptions go together: any of them left
behind would lead to an address that has been freed. -/
theorem drop (h : Inv z k) {r : Ref} {σ : Session} (hr : k.session r = some σ) :
    Inv z (k.drop r σ) := by
  -- what is left are the other sessions, under other keys and with other timers
  have hcases : ∀ r' σ', (k.drop r σ).session r' = some σ' → r' ≠ r ∧ k.session r' = some σ' := by
    intro r' σ' h'
    by_cases he : r' = r
    · subst he
      simp [Core.drop] at h'
    · simp only [Core.drop, Function.update_of_ne he] at h'
      exact ⟨he, h'⟩
  have hold : ∀ r' σ', r' ≠ r → k.session r' = some σ' → (k.drop r σ).session r' = some σ' := by
    intro r' σ' he h'
    simp only [Core.drop, Function.update_of_ne he, h']
  constructor
  case idle => exact fun r' σ' h' => h.idle r' σ' (hcases r' σ' h').2
  case table =>
    intro key r' h'
    by_cases hk : key = σ.hashkey
    · subst hk
      simp [Core.drop] at h'
    · simp only [Core.drop, Function.update_of_ne hk] at h'
      obtain ⟨σ', hσ', hkey⟩ := h.table key r' h'
      refine ⟨σ', hold r' σ' ?_ hσ', hkey⟩
      rintro rfl
      rw [hr, Option.some.injEq] at hσ'
      exact hk (by rw [← hkey, hσ'])
  case listed =>
    intro r' σ' h'
    obtain ⟨hne, h'⟩ := hcases r' σ' h'
    have hk : σ'.hashkey ≠ σ.hashkey := fun he => hne (h.session_unique h' hr he)
    simp only [Core.drop, Function.update_of_ne hk, h.listed r' σ' h']
  case fresh => exact fun r' σ' h' => h.fresh r' σ' (hcases r' σ' h').2
  case armed =>
    intro r' σ' h'
    obtain ⟨hne, h'⟩ := hcases r' σ' h'
    refine ⟨(h.armed r' σ' h').1, List.mem_filter.mpr ⟨(h.armed r' σ' h').2, ?_⟩⟩
    simpa using h.timer_ne h' hr hne
  case timer =>
    intro t ht
    obtain ⟨ht, hne⟩ := List.mem_filter.mp ht
    obtain ⟨σ', hσ', hid⟩ := h.timer t ht
    refine ⟨σ', hold _ σ' ?_ hσ', hid⟩
    intro he
    rw [he, hr, Option.some.injEq] at hσ'
    rw [hσ', hid] at hne
    simp at hne
  case timerIds => exact h.timerIds.sublist (List.filter_sublist.map _)
  case timerBound => exact fun t ht => h.timerBound t (List.mem_filter.mp ht).1
  case live =>
    intro t' ht' r' hr'
    obtain ⟨t, ht, rfl⟩ := List.mem_map.mp ht'
    obtain ⟨hr', hne⟩ := List.mem_filter.mp hr'
    obtain ⟨σ', hσ'⟩ := h.live t ht r' hr'
    exact ⟨σ', hold r' σ' (by simpa using hne) hσ'⟩
  case once =>
    intro t' ht'
    obtain ⟨t, ht, rfl⟩ := List.mem_map.mp ht'
    exact (h.once t ht).filter _
  case distinct =>
    have : (k.drop r σ).topics.map Topic.expression = k.topics.map Topic.expression := by
      simp [Core.drop]
    rw [this]
    exact h.distinct
  case compiled =>
    intro t' ht'
    obtain ⟨t, ht, rfl⟩ := List.mem_map.mp ht'
    exact h.compiled t ht
  case headers => exact h.headers

end Inv

end Zccp.Broker
