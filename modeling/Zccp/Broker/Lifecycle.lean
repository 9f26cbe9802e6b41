import Zccp.Broker.Isolation
import Zccp.Broker.Task

/-!
# `Zccp/Broker/Lifecycle.lean` — the server's whole life, to its end

What a client object goes through, from `zmalloc` to `free`, whoever frees it: the state machine,
when the session ends, or `zhash_destroy`, when the server does. In between lies any interleaving
of messages, timers, commands of the caller and changes of the configuration file. The trace shows
every use of a client and every `free` of one; a life in which each client used is freed once, and
not used afterwards, is a life without a leak, a double `free` or a use after one.

`Ledger` is what the trace says about each address at any time, `Transition.fate` what one callback
does to that, and `zhash_destroy` closes whatever is open then.

The ledger is kept for addresses and not for clients, since the model never hands out an address
twice: what is said about an address is said about one object. The commands of the caller come in
through `Same`: they leave the broker as it is but for the flag that makes it log.
-/

set_option autoImplicit false

namespace Zccp.Broker

open Lib CursorList
open scoped List

variable {z : Czmq} {r : Ref} {t t' : List Obs}

/-! ## Uses of a client -/

/-- An observation of the state machine at work for a client, or of something read from it. The
return from `s_client_execute` is none: it comes after the `free`. -/
def Obs.Uses (r : Ref) : Obs → Prop
  | .enter client _ _ => client = r
  | .iterate client _ _ => client = r
  | .take client _ => client = r
  | .relay client _ _ _ => client = r
  | _ => False

/-- Nothing happens to a client. Of an address this says both that its client is not there yet and that
it is not there any more; which one, the trace before it tells. -/
def Quiet (r : Ref) (t : List Obs) : Prop := ∀ o ∈ t, ¬ o.Uses r ∧ o ≠ .destroy r

/-- It is used and not freed. -/
def InUse (r : Ref) (t : List Obs) : Prop := (∃ o ∈ t, o.Uses r) ∧ .destroy r ∉ t

/-- It is used, then freed, once, and not used any more. -/
def FreedOnce (r : Ref) (t : List Obs) : Prop :=
  ∃ t₁ t₂, t = t₁ ++ .destroy r :: t₂ ∧ InUse r t₁ ∧ Quiet r t₂

theorem Quiet.not_destroy (h : Quiet r t) : .destroy r ∉ t := fun hd => (h _ hd).2 rfl

theorem InUse.append (h : InUse r t) (h' : .destroy r ∉ t') : InUse r (t ++ t') := by
  obtain ⟨⟨o, ho, huse⟩, hnot⟩ := h
  exact ⟨⟨o, List.mem_append_left _ ho, huse⟩, by simp [hnot, h']⟩

theorem InUse.prepend (h : InUse r t') (h' : .destroy r ∉ t) : InUse r (t ++ t') := by
  obtain ⟨⟨o, ho, huse⟩, hnot⟩ := h
  exact ⟨⟨o, List.mem_append_right _ ho, huse⟩, by simp [hnot, h']⟩

theorem FreedOnce.append (h : FreedOnce r t) (h' : Quiet r t') : FreedOnce r (t ++ t') := by
  obtain ⟨t₁, t₂, rfl, hused, hquiet⟩ := h
  exact ⟨t₁, t₂ ++ t', by simp, hused, List.forall_mem_append.mpr ⟨hquiet, h'⟩⟩

theorem FreedOnce.prepend (h : FreedOnce r t') (h' : .destroy r ∉ t) : FreedOnce r (t ++ t') := by
  obtain ⟨t₁, t₂, rfl, hused, hquiet⟩ := h
  exact ⟨t ++ t₁, t₂, by simp, hused.prepend h', hquiet⟩

/-- The `free` of a client in use. -/
theorem InUse.destroy (h : InUse r t) (h' : Quiet r t') : FreedOnce r (t ++ .destroy r :: t') :=
  ⟨t, t', rfl, h, h'⟩

/-! ## What a pass shows -/

@[simp] theorem not_destroy_before (v : Bool) (client : Ref) (state : State) (event : Event)
    (l : CursorList Pattern) : .destroy r ∉ before v client state event l := by
  cases v <;> simp [before, debugged]

@[simp] theorem not_destroy_after (v : Bool) (client : Ref) (state : State)
    (l : CursorList Pattern) : .destroy r ∉ after v client state l := by
  cases v <;> simp [after, debugged]

theorem inUse_before (v : Bool) (r : Ref) (state : State) (event : Event) (l : CursorList Pattern) :
    InUse r (before v r state event l) :=
  ⟨⟨.enter r event l, by simp [before], rfl⟩, not_destroy_before v r state event l⟩

/-- Replies free nobody. -/
theorem not_destroy_replies (routingId : Frame) (ids : List MsgId) :
    .destroy r ∉ ids.map fun id => sent routingId (plainReply id routingId) := by
  simp [sent]

/-- A nested pass uses the client that is visited, and no other. -/
theorem quiet_visit {k : Core} {m : Relay} {v : Visit} (h : v.client ≠ r) :
    Quiet r (Visit.trace z k m v) := by
  rw [Quiet, Visit.forall_mem_trace]
  simp [sent, Obs.Uses, h]

theorem not_destroy_visit {k : Core} {m : Relay} {v : Visit} : .destroy r ∉ Visit.trace z k m v := by
  simp [Visit.trace, forwardPass, sent]

/-- The nested passes of a publication use the clients that are visited. -/
theorem quiet_or_inUse_visits {k : Core} {m : Relay} (visits : List Visit) :
    Quiet r (visits.flatMap (Visit.trace z k m)) ∨
      (∃ v ∈ visits, v.client = r) ∧ InUse r (visits.flatMap (Visit.trace z k m)) := by
  have hnot : .destroy r ∉ visits.flatMap (Visit.trace z k m) := fun hd => by
    obtain ⟨v, -, hv⟩ := List.mem_flatMap.mp hd
    exact not_destroy_visit hv
  by_cases h : ∃ v ∈ visits, v.client = r
  · obtain ⟨v, hv, rfl⟩ := h
    exact .inr ⟨⟨v, hv, rfl⟩, ⟨.enter v.client .forward v.patterns,
      List.mem_flatMap.mpr ⟨v, hv, by simp [Visit.trace, forwardPass, before]⟩, rfl⟩, hnot⟩
  · refine .inl fun o ho => ?_
    obtain ⟨v, hv, hmem⟩ := List.mem_flatMap.mp ho
    exact quiet_visit (fun hr => h ⟨v, hv, hr⟩) o hmem

/-- A pass for a message that has just been taken, of a client that stays. -/
theorem inUse_pass {msg : ZccpMsg} {v : Bool} {state : State} {event : Event}
    {l : CursorList Pattern} (h : .destroy r ∉ t) :
    InUse r ([.take r msg] ++ before v r state event l ++ t) :=
  ((inUse_before v r state event l).prepend (by simp)).append h

/-- The same, of a client that ends. -/
theorem freedOnce_pass {v : Bool} {state : State} {event : Event} {l l' : CursorList Pattern}
    (h : .destroy r ∉ t) :
    FreedOnce r (before v r state event l ++ t ++ [.destroy r, .leave r l']) :=
  ((inUse_before v r state event l).append h).destroy (by simp [Quiet, Obs.Uses])

/-! ## What a callback does to a client -/

/-- The fate of an address in a callback: nothing happens to it; or its client, which was there
before or is new, is used, and stays or is freed. There is no case of a `free` without a use before
it in the same callback, which is what makes a `free` of a client that is gone impossible. -/
inductive Fate (k k' : Core) (r : Ref) (t : List Obs) : Prop
  | nothing (quiet : Quiet r t) (same : k'.session r = none ↔ k.session r = none)
  | used (known : (k.session r).isSome ∨ r = k.brk) (inUse : InUse r t)
      (stays : (k'.session r).isSome)
  | freed (known : (k.session r).isSome ∨ r = k.brk) (freed : FreedOnce r t)
      (gone : k'.session r = none)

/-- Touching a session makes none and ends none. -/
theorem touch_session_none_iff {k : Core} {client : Ref} {σ : Session} {msg : ZccpMsg}
    (h : k.session client = some σ) :
    (k.touch client σ msg).session r = none ↔ k.session r = none := by
  by_cases hr : r = client
  · simp [Core.touch, Core.setSession, hr, h]
  · simp [Core.touch, Core.setSession, hr]

/-- Who is to be visited is subscribed. -/
theorem mem_topics_of_mem_targets {k : Core} {client d : Ref} {a : CStr} {i : Nat}
    (h : (i, d) ∈ k.targets z client a) : ∃ t ∈ k.topics, d ∈ t.clients := by
  have hd : d ∈ (k.targets z client a).map Prod.snd := List.mem_map.mpr ⟨_, h, rfl⟩
  rw [targets_clients] at hd
  obtain ⟨t, ht, hmem⟩ := List.mem_flatMap.mp hd
  split at hmem
  · exact ⟨t, ht, (List.mem_filter.mp hmem).1⟩
  · cases hmem

/-- **What a callback does to an address**, one case for each transition. It is the client of the
transition, which the case is about; or, in a publication, a client that is visited; or neither. -/
theorem Transition.fate {k k' : Core} {input : Input} (h : Transition z k input k' t)
    (hi : Inv z k) (r : Ref) : Fate k k' r t := by
  cases h with
  | hello routingId frames m msg identifier patterns =>
    by_cases hr : k.brk = r
    · subst hr
      refine .used (.inr rfl) ?_ (by simp [Core.enrol])
      rw [List.append_assoc]
      exact inUse_pass (by simp [sent])
    · refine .nothing (by simp [Quiet, or_imp, forall_and, Obs.Uses, hr, sent]) ?_
      simp [Core.enrol, Ne.symm hr]
  | refuse routingId frames m msg patterns patterns' =>
    by_cases hr : k.brk = r
    · subst hr
      refine .freed (.inr rfl) ?_ hi.session_brk
      rw [List.append_assoc, List.append_assoc, ← List.append_assoc (before ..)]
      exact (freedOnce_pass (not_destroy_replies _ _)).prepend (by simp)
    · exact .nothing (by simp [Quiet, or_imp, forall_and, Obs.Uses, hr, sent]) Iff.rfl
  | subscribe routingId frames m msg client σ expression patterns patterns' _ _ _ _ session =>
    by_cases hr : client = r
    · subst hr
      refine .used (.inl (by simp [session])) ?_ (by simp [Core.subscribe, Core.touch, Core.setSession])
      rw [List.append_assoc]
      exact inUse_pass (by simp [sent])
    · exact .nothing (by simp [Quiet, or_imp, forall_and, Obs.Uses, hr, sent])
        (touch_session_none_iff session)
  | publish routingId frames m msg client σ relay visits patterns patterns' _ _ _ session _ _ _ _ _
      hvisits =>
    by_cases hr : client = r
    · subst hr
      refine .used (.inl (by simp [session])) ?_ (by simp [Core.point, Core.touch, Core.setSession])
      rw [List.append_assoc]
      refine inUse_pass ?_
      simp only [List.mem_append, not_destroy_after, or_false]
      rcases quiet_or_inUse_visits (z := z) (k := k) (m := relay) visits with h | h
      · exact h.not_destroy
      · exact h.2.2
    · have hquiet : Quiet r
          ([.take client msg] ++ before k.verbose client .connected .publish patterns) := by
        simp [Quiet, or_imp, forall_and, Obs.Uses, hr]
      rcases quiet_or_inUse_visits (z := z) (r := r) (k := k) (m := relay) visits with
        h | ⟨⟨v, hv, rfl⟩, h⟩
      · refine .nothing ?_ (touch_session_none_iff session)
        exact List.forall_mem_append.mpr
          ⟨List.forall_mem_append.mpr ⟨hquiet, h⟩, by simp [Obs.Uses]⟩
      · -- who is visited is subscribed, and who is subscribed has a session
        have htarget : (v.position, v.client) ∈ k.targets z client relay.address :=
          hvisits ▸ List.mem_map.mpr ⟨v, hv, rfl⟩
        obtain ⟨t, ht, hclient⟩ := mem_topics_of_mem_targets htarget
        obtain ⟨σ', hσ'⟩ := hi.live t ht v.client hclient
        refine .used (.inl (by simp [hσ'])) ?_ ?_
        · exact (h.prepend hquiet.not_destroy).append (not_destroy_after _ _ _ _)
        · rw [Option.isSome_iff_ne_none, ne_eq]
          exact fun hnone => by simp [(touch_session_none_iff session).mp hnone] at hσ'
  | direct routingId frames m msg client σ patterns _ _ _ session =>
    by_cases hr : client = r
    · subst hr
      exact .used (.inl (by simp [session])) (inUse_pass (by simp))
        (by simp [Core.touch, Core.setSession])
    · exact .nothing (by simp [Quiet, or_imp, forall_and, Obs.Uses, hr])
        (touch_session_none_iff session)
  | close routingId frames m msg client σ patterns patterns' _ _ _ session =>
    by_cases hr : client = r
    · subst hr
      refine .freed (.inl (by simp [session])) ?_ (by simp [Core.drop])
      rw [List.append_assoc, List.append_assoc, ← List.append_assoc (before ..)]
      exact (freedOnce_pass (not_destroy_replies _ _)).prepend (by simp)
    · refine .nothing (by simp [Quiet, or_imp, forall_and, Obs.Uses, hr, sent]) ?_
      simp only [Core.drop, Function.update_of_ne (Ne.symm hr)]
      exact touch_session_none_iff session
  | expire routingId client σ patterns patterns' session =>
    by_cases hr : client = r
    · subst hr
      refine .freed (.inl (by simp [session])) ?_ (by simp [Core.drop])
      have h : FreedOnce client (before k.verbose client .connected .expired patterns ++ [] ++
        [.destroy client, .leave client patterns']) := freedOnce_pass (by simp)
      simpa using h
    · refine .nothing (by simp [Quiet, or_imp, forall_and, Obs.Uses, hr]) ?_
      simp [Core.drop, Function.update_of_ne (Ne.symm hr)]
  | nothing => exact .nothing (List.forall_mem_nil _) Iff.rfl

/-! ## The ledger -/

/-- What the trace says about every address. -/
structure Ledger (k : Core) (t : List Obs) : Prop where
  /-- The client of a session has been used and not freed. -/
  live : ∀ r σ, k.session r = some σ → InUse r t
  /-- Where there is no session, there never was one, or its client has been freed, once. -/
  gone : ∀ r, k.session r = none → Quiet r t ∨ FreedOnce r t
  /-- The allocator hands out new addresses. -/
  fresh : ∀ r, k.brk ≤ r → Quiet r t

theorem Ledger.new (verbose : Bool) : Ledger (Server.new verbose).core [] where
  live r σ h := by simp [Server.core, Server.session, Server.new] at h
  gone r _ := .inl (List.forall_mem_nil _)
  fresh r _ := List.forall_mem_nil _

/-- Addresses are not given back. -/
theorem Transition.brk_le {k k' : Core} {input : Input} (h : Transition z k input k' t) :
    k.brk ≤ k'.brk := by
  cases h with
  | hello | refuse => exact Nat.le_add_right _ 2
  | subscribe | publish | direct | close => exact Nat.le_succ _
  | expire | nothing => exact Nat.le_refl _

/-- A client that is used in a callback has its address below the next free one after it. -/
theorem Transition.lt_brk {k k' : Core} {input : Input} (h : Transition z k input k' t)
    (hi : Inv z k) (hknown : (k.session r).isSome ∨ r = k.brk) (hnot : ¬ Quiet r t) : r < k'.brk := by
  rcases hknown with hsome | rfl
  · obtain ⟨σ, hσ⟩ := Option.isSome_iff_exists.mp hsome
    exact Nat.lt_of_lt_of_le (hi.fresh r σ hσ) h.brk_le
  · cases h with
    | hello | refuse => exact Nat.lt_add_of_pos_right Nat.two_pos
    | subscribe | publish | direct | close => exact Nat.lt_succ_self _
    | expire _ client σ _ _ session =>
      have hne : client ≠ k.brk := Nat.ne_of_lt (hi.fresh client σ session)
      exact absurd (by simp [Quiet, or_imp, forall_and, Obs.Uses, hne]) hnot
    | nothing => exact absurd (List.forall_mem_nil _) hnot

/-- **One callback** keeps the ledger. Whoever is used or freed in it is known or new, and so has not been
freed before: the clause on live sessions gives the one, that on fresh addresses the other. -/
theorem Ledger.step {k k' : Core} {input : Input} (h : Ledger k t) (hi : Inv z k)
    (htrans : Transition z k input k' t') : Ledger k' (t ++ t') := by
  -- what is known is in use or new
  have hknown : ∀ {r}, (k.session r).isSome ∨ r = k.brk → InUse r t ∨ Quiet r t := by
    intro r hr
    rcases hr with hsome | rfl
    · obtain ⟨σ, hσ⟩ := Option.isSome_iff_exists.mp hsome
      exact .inl (h.live r σ hσ)
    · exact .inr (h.fresh _ (Nat.le_refl _))
  have hdestroy : ∀ {r}, InUse r t ∨ Quiet r t → .destroy r ∉ t := fun hr =>
    hr.elim (·.2) Quiet.not_destroy
  constructor
  case live =>
    intro r σ hσ
    cases htrans.fate hi r with
    | nothing quiet same =>
      obtain ⟨σ', hσ'⟩ := Option.ne_none_iff_exists'.mp (mt same.mpr (by simp [hσ]))
      exact (h.live r σ' hσ').append quiet.not_destroy
    | used known inUse => exact inUse.prepend (hdestroy (hknown known))
    | freed _ _ gone => simp [gone] at hσ
  case gone =>
    intro r hr
    cases htrans.fate hi r with
    | nothing quiet same =>
      rcases h.gone r (same.mp hr) with hquiet | hfreed
      · exact .inl (List.forall_mem_append.mpr ⟨hquiet, quiet⟩)
      · exact .inr (hfreed.append quiet)
    | used _ _ stays => simp [hr] at stays
    | freed known freed => exact .inr (freed.prepend (hdestroy (hknown known)))
  case fresh =>
    intro r hr
    refine List.forall_mem_append.mpr ⟨h.fresh r (Nat.le_trans htrans.brk_le hr), ?_⟩
    cases htrans.fate hi r with
    | nothing quiet => exact quiet
    | used known inUse =>
      by_contra hnot
      exact absurd (htrans.lt_brk hi known hnot) (Nat.not_lt.mpr hr)
    | freed known =>
      by_contra hnot
      exact absurd (htrans.lt_brk hi known hnot) (Nat.not_lt.mpr hr)

/-! ## The end of the server -/

variable {k : Core} {s : Server}

/-- The `free` of a session's client. -/
theorem Ledger.drop (h : Ledger k t) {σ : Session} (hr : k.session r = some σ) :
    Ledger (k.drop r σ) (t ++ [.destroy r]) := by
  have hother : ∀ {r'}, r' ≠ r → Quiet r' [.destroy r] := fun hne => by simp [Quiet, Obs.Uses, Ne.symm hne]
  constructor
  case live =>
    intro r' σ' h'
    by_cases hne : r' = r
    · subst hne
      simp [Core.drop] at h'
    · simp only [Core.drop, Function.update_of_ne hne] at h'
      exact (h.live r' σ' h').append (hother hne).not_destroy
  case gone =>
    intro r' h'
    by_cases hne : r' = r
    · subst hne
      exact .inr ((h.live r' σ hr).destroy (List.forall_mem_nil _))
    · simp only [Core.drop, Function.update_of_ne hne] at h'
      rcases h.gone r' h' with hquiet | hfreed
      · exact .inl (List.forall_mem_append.mpr ⟨hquiet, hother hne⟩)
      · exact .inr (hfreed.append (hother hne))
  case fresh =>
    intro r' h'
    have hquiet : Quiet r' t := h.fresh r' h'
    refine List.forall_mem_append.mpr ⟨hquiet, hother ?_⟩
    rintro rfl
    obtain ⟨o, ho, huse⟩ := (h.live r' σ hr).1
    exact (hquiet o ho).1 huse

/-- **`zhash_destroy`**, in any order: every session ends, as if by itself, and nothing else happens. By
induction on the order, with the table shrinking along with it. -/
theorem zhashDestroy_spec {order : List CStr} {f : Nat} (hi : Inv z s.core)
    (hl : Ledger s.core s.trace) (ho : Lists order s.clients) (hf : s.patterns.items.length ≤ f) :
    ∃ s' t, zhashDestroy f order s = some s' ∧ Inv z s'.core ∧ Ledger s'.core s'.trace ∧
      (∀ hashkey, s'.clients hashkey = none) ∧ s'.trace = s.trace ++ t ∧
      ∀ o ∈ t, ∃ r, o = .destroy r := by
  induction order generalizing s with
  | nil =>
    refine ⟨s, [], rfl, hi, hl, fun hashkey => ?_, by simp, by simp⟩
    have hnot := (ho.mem hashkey).not.mp List.not_mem_nil
    simpa using hnot
  | cons hashkey order ih =>
    obtain ⟨r, hr⟩ := Option.isSome_iff_exists.mp ((ho.mem hashkey).mp List.mem_cons_self)
    obtain ⟨σ, hσ, rfl⟩ := hi.table hashkey r hr
    obtain ⟨c, hc, rfl⟩ := Server.heap_of_session hσ
    obtain ⟨s₁, hs₁, hcore, htrace⟩ := zhashDelete_spec hc hr (hi.idle r _ hσ).awake
      (hi.armed r _ hσ).1 hf hi.once
    have hclients : s₁.clients = Function.update s.clients c.hashkey none := congrArg Core.clients hcore
    have hnodup := List.nodup_cons.mp ho.nodup
    have ho₁ : Lists order s₁.clients := by
      refine ⟨hnodup.2, fun key => ?_⟩
      rw [hclients]
      by_cases he : key = c.hashkey
      · subst he
        simpa using hnodup.1
      · have := ho.mem key
        simpa [Function.update_of_ne he, he] using this
    have hlen : s₁.patterns.items.length = s.patterns.items.length := by
      have := congrArg (fun k : Core => k.topics.length) hcore
      simpa [Server.core, Core.drop] using this
    obtain ⟨s', t, hs', hi', hl', hnone, ht, hdestroys⟩ := ih (hcore ▸ hi.drop hσ)
      (by rw [hcore, htrace]; exact hl.drop hσ) ho₁ (hlen ▸ hf)
    refine ⟨s', .destroy r :: t, ?_, hi', hl', hnone, by rw [ht, htrace]; simp, ?_⟩
    · rw [zhashDestroy, List.foldlM_cons, hs₁]
      exact hs'
    · exact List.forall_mem_cons.mpr ⟨⟨r, rfl⟩, hdestroys⟩

/-! ## Callbacks of the actor -/

namespace SServer

variable {cfg : Zconfig} {env : Env cfg} {self self' : SServer cfg} {wake : Wake} {rc : Int}

/-- The inputs of the broker that a callback amounts to: none, unless it is a client's, and has
happened. -/
def heardIn (self : SServer cfg) : Env cfg × Wake → List Input
  | (env, .client (.expiry routingId)) =>
    if self.mayHappen env (.expiry routingId) then [.expiry routingId] else []
  | (_, .client (.message routingId frames)) =>
    if (zccpMsgRecv (routingId :: frames)).isSome then [.message routingId frames] else []
  | (_, .command _) => []
  | (_, .monitor) => []

/-- Nothing of the broker has changed but whether it logs. -/
structure Same (actor actor' : SServer cfg) : Prop where
  server : ∃ verbose, actor'.server = { actor.server with verbose := verbose }
  due : actor'.due = actor.due

theorem Same.refl (self : SServer cfg) : Same self self := ⟨⟨self.server.verbose, rfl⟩, rfl⟩

theorem Same.trans {self₁ self₂ self₃ : SServer cfg} (h : Same self₁ self₂)
    (h' : Same self₂ self₃) : Same self₁ self₃ := by
  obtain ⟨v, hv⟩ := h.server
  obtain ⟨v', hv'⟩ := h'.server
  exact ⟨⟨v', by rw [hv', hv]⟩, h'.due.trans h.due⟩

theorem same_sServerConfigSelf (self : SServer cfg) : Same self (sServerConfigSelf self) :=
  ⟨⟨_, rfl⟩, rfl⟩

theorem same_setConfig (config : cfg.Tree) (self : SServer cfg) : Same self (self.setConfig config) :=
  ⟨⟨self.server.verbose, rfl⟩, rfl⟩

theorem same_shareConfig (self : SServer cfg) : Same self self.shareConfig :=
  ⟨⟨self.server.verbose, rfl⟩, rfl⟩

theorem same_report (r : Report) (self : SServer cfg) : Same self (self.report r) :=
  ⟨⟨self.server.verbose, rfl⟩, rfl⟩

/-- A section of the configuration file binds endpoints and prints, but holds nothing that clients see. -/
theorem same_applySection (env : Env cfg) (self : SServer cfg) (tree : cfg.Tree) :
    Same self (applySection env self tree) := by
  unfold applySection
  split
  · exact same_report _ self
  · split
    · dsimp only
      split
      · exact same_report _ self
      · exact .refl self
    · exact .refl self

theorem same_sServerApplyConfig (env : Env cfg) (self : SServer cfg) :
    Same self (sServerApplyConfig env self) := by
  have hsections : ∀ (trees : List cfg.Tree) (self : SServer cfg),
      Same self (trees.foldl (applySection env) self) := by
    intro trees
    induction trees with
    | nil => exact Same.refl
    | cons tree trees ih => exact fun self => (same_applySection env self tree).trans (ih _)
  exact (hsections _ self).trans (same_sServerConfigSelf _)

/-- **A command of the caller** changes nothing of the broker but whether it logs. The timeout it may
change is the actor's, and counts from the next message of each client on. -/
theorem same_sServerApiMessage {message : ApiMessage}
    (h : self.sServerApiMessage env message = some (self', rc)) : Same self self' := by
  cases message with
  | verbose =>
    cases h
    exact ⟨⟨true, rfl⟩, rfl⟩
  | term | port | other =>
    cases h
    exact ⟨⟨self.server.verbose, rfl⟩, rfl⟩
  | bind endpoint =>
    cases endpoint with
    | none => cases h
    | some endpoint =>
      simp only [sServerApiMessage, Option.some.injEq, Prod.mk.injEq] at h
      rw [← h.1]
      split <;> exact ⟨⟨self.server.verbose, rfl⟩, rfl⟩
  | configure file =>
    cases file with
    | none => cases h
    | some file =>
      cases hload : env.zconfigLoad file with
      | some config =>
        simp only [sServerApiMessage, hload, Option.some.injEq, Prod.mk.injEq] at h
        rw [← h.1]
        exact ((same_setConfig config self).trans (same_sServerApplyConfig env _)).trans
          (same_shareConfig _)
      | none =>
        simp only [sServerApiMessage, hload, Option.some.injEq, Prod.mk.injEq] at h
        rw [← h.1]
        exact (same_report _ self).trans (same_setConfig cfg.new _)
  | set path value =>
    cases path with
    | none => cases h
    | some path =>
      cases value with
      | none => cases h
      | some value =>
        simp only [sServerApiMessage, Option.some.injEq, Prod.mk.injEq] at h
        rw [← h.1]
        refine Same.trans ?_ (same_sServerConfigSelf _)
        split
        · exact ⟨⟨_, rfl⟩, rfl⟩
        · exact ⟨⟨self.server.verbose, rfl⟩, rfl⟩

/-- The watch of the configuration file. A file that cannot be read is left alone, and so is the server. -/
theorem same_sWatchServerConfig (env : Env cfg) (self : SServer cfg) :
    Same self (self.sWatchServerConfig env) := by
  unfold sWatchServerConfig
  split
  · split
    · next config _ =>
      exact (((same_setConfig config self).trans (same_sServerConfigSelf _)).trans
        (same_shareConfig _)).trans (same_report _ _)
    · exact .refl self
  · exact .refl self

/-- What a callback does: what the broker does with an input, or nothing but to change the settings. A
message that does not decode is of the second kind. So is an expiry that is not due: the list of
wakes may say that it comes, and the reactor does not call back. -/
theorem react_spec (hi : Inv z self.server.core)
    (h : self.react z env wake = some (self', rc)) :
    (rc = 0 ∧ ∃ input t, wake = .client input ∧ heardIn self (env, wake) = [input] ∧
      input.Decodable ∧
      step z self.server input = some self'.server ∧
      Transition z self.server.core input self'.server.core t ∧
      self'.server.trace = self.server.trace ++ t ∧
      ∀ id, self'.due id =
        if self.server.lastTimerId < id ∧ id ≤ self'.server.lastTimerId then env.after self.timeout
        else self.due id) ∨
    (heardIn self (env, wake) = [] ∧ Same self self') := by
  cases wake with
  | command message => exact .inr ⟨rfl, same_sServerApiMessage h⟩
  | monitor =>
    cases h
    exact .inr ⟨rfl, same_sWatchServerConfig env self⟩
  | client input =>
    by_cases hmay : self.mayHappen env input = true
    case neg =>
      simp only [react, if_neg hmay, Option.some.injEq, Prod.mk.injEq] at h
      cases input with
      | message => exact absurd rfl hmay
      | expiry routingId => exact .inr ⟨if_neg hmay, h.1 ▸ .refl self⟩
    case pos =>
      simp only [react, if_pos hmay] at h
      obtain ⟨⟨server, rc'⟩, hhandle, hself⟩ := Option.bind_eq_some_iff.mp h
      obtain ⟨rfl, rfl⟩ := Prod.mk.inj (Option.some.inj hself)
      by_cases hd : input.Decodable
      · obtain ⟨s', t, hs', htrans, htrace⟩ := handle_spec hi hd
        obtain ⟨rfl, rfl⟩ := Prod.mk.inj (Option.some.inj (hs'.symm.trans hhandle))
        refine .inl ⟨rfl, input, t, rfl, ?_, hd, step_of_handle hs', htrans, htrace, fun _ => rfl⟩
        cases input with
        | message routingId frames =>
          obtain ⟨m, hm⟩ := hd
          exact if_pos (by rw [zccpMsgRecv_ok hm, Option.isSome_some])
        | expiry => exact if_pos hmay
      · -- the callback returns -1 with the broker as it was
        cases input with
        | expiry => exact absurd trivial hd
        | message routingId frames =>
          have hbad : ∀ m, zccpMsgDecode frames ≠ .ok m := fun m hm => hd ⟨m, hm⟩
          rw [handle_malformed z _ _ _ hbad] at hhandle
          obtain ⟨rfl, rfl⟩ := Prod.mk.inj (Option.some.inj hhandle)
          refine .inr ⟨if_neg ?_, ⟨self.server.verbose, rfl⟩, ?_⟩
          · rw [zccpMsgRecv_error hbad, Option.isSome_none]
            exact Bool.false_ne_true
          · funext id
            exact if_neg fun harmed => absurd harmed.1 (Nat.not_lt.mpr harmed.2)

/-! ## Runs of the actor -/

/-- What a peer is told grows at its end. -/
theorem told_append_singleton (z : Czmq) (c : Frame) (inputs : List Input) (i : Input) :
    Broker.told z c (inputs ++ [i]) =
      Broker.told z c inputs ++ PubSub.out (policy z) c (directory z inputs) i.event := by
  rw [Broker.told, List.map_append, outputs_append]
  simp only [List.map_cons, List.map_nil, outputs, List.append_nil]
  rfl

/-- The reactor goes on after a callback. -/
def advance (z : Czmq) (self : SServer cfg) (wake : Env cfg × Wake) : Option (SServer cfg) := do
  let (self, rc) ← self.react z wake.1 wake.2
  if rc = -1 then none else some self

/-- What the broker hears until the reactor ends. -/
def heard (z : Czmq) (wakes : List (Env cfg × Wake)) (self : SServer cfg) : List Input :=
  seenFrom (advance z) heardIn self wakes

/-- An actor whose broker has heard some inputs: what is said of runs of the broker, as an invariant of the
actor. The inputs are an argument, since the actor itself does not keep them. -/
structure Sound (z : Czmq) (actor : SServer cfg) (inputs : List Input) : Prop where
  decodable : ∀ i ∈ inputs, i.Decodable
  implements : Implements z actor.server (directory z inputs)
  told : ∀ c, actor.server.sentTo c = (told z c inputs).map (replyMsg z c)
  encoded : Encoded actor.server.trace
  ledger : Ledger actor.server.core actor.server.trace

/-- Whether the broker logs is nowhere in it. -/
theorem Sound.same {inputs : List Input} (h : Sound z self inputs)
    (hs : Same self self') : Sound z self' inputs := by
  obtain ⟨verbose, hs⟩ := hs.server
  refine ⟨h.decodable, ?_, ?_, ?_, ?_⟩
  · rw [hs]
    exact ⟨{ h.implements.inv with }, h.implements.entry⟩
  · rw [hs]
    exact h.told
  · rw [hs]
    exact h.encoded
  · rw [hs]
    exact { h.ledger with }

theorem sound_new : Sound z (sServerNew : SServer cfg) [] :=
  ⟨by simp, Implements.new z _, fun _ => rfl, List.forall_mem_nil _, Ledger.new _⟩

/-- **One callback** of a sound actor. -/
theorem Sound.react {inputs : List Input} (h : Sound z self inputs)
    (hr : self.react z env wake = some (self', rc)) :
    Sound z self' (inputs ++ heardIn self (env, wake)) := by
  rcases react_spec h.implements.inv hr with ⟨-, input, t, -, hheard, hd, hstep, htrans, htrace, -⟩ |
    ⟨hheard, hsame⟩
  · obtain ⟨s', hs', himpl, hsent⟩ := step_refines h.implements hd
    obtain rfl := Option.some.inj (hstep.symm.trans hs')
    rw [hheard]
    refine ⟨?_, ?_, fun c => ?_, ?_, ?_⟩
    · exact List.forall_mem_append.mpr ⟨h.decodable, List.forall_mem_singleton.mpr hd⟩
    · rw [directory_append]
      exact himpl
    · rw [hsent, h.told, told_append_singleton, List.map_append]
    · rw [htrace]
      exact List.forall_mem_append.mpr ⟨h.encoded, htrans.encoded⟩
    · rw [htrace]
      exact h.ledger.step h.implements.inv htrans
  · rw [hheard, List.append_nil]
    exact h.same hsame

/-- **A run of the reactor**, to its end. After a callback that returns -1 nothing is heard any more, on
either side of the equation. -/
theorem Sound.zloopStart {inputs : List Input} {wakes : List (Env cfg × Wake)}
    (h : Sound z self inputs) (hrun : self.zloopStart z wakes = some self') :
    Sound z self' (inputs ++ heard z wakes self) := by
  induction wakes generalizing self inputs with
  | nil =>
    obtain rfl := Option.some.inj hrun
    simpa [heard, seenFrom] using h
  | cons wake wakes ih =>
    obtain ⟨⟨self₁, rc⟩, hreact, hrest⟩ := Option.bind_eq_some_iff.mp hrun
    have h₁ := h.react hreact
    by_cases hrc : rc = -1
    · obtain rfl := Option.some.inj ((if_pos hrc).symm.trans hrest)
      have hend : advance z self wake = none := by simp [advance, hreact, hrc]
      simpa [heard, seenFrom, hend] using h₁
    · have hon : advance z self wake = some self₁ := by simp [advance, hreact, hrc]
      have h₂ := ih h₁ ((if_neg hrc).symm.trans hrest)
      simpa [heard, seenFrom, hon] using h₂

theorem sServerApiMessage_complete {message : ApiMessage} (hc : message.Complete) :
    ∃ self' rc, self.sServerApiMessage env message = some (self', rc) := by
  cases message with
  | verbose | term | port | other => exact ⟨_, _, rfl⟩
  | bind endpoint =>
    cases endpoint with
    | none => exact hc.elim
    | some endpoint => exact ⟨_, _, rfl⟩
  | configure file =>
    cases file with
    | none => exact hc.elim
    | some file =>
      simp only [sServerApiMessage]
      cases env.zconfigLoad file <;> exact ⟨_, _, rfl⟩
  | set path value =>
    cases path with
    | none => exact hc.elim
    | some path =>
      cases value with
      | none => exact hc.elim
      | some value => exact ⟨_, _, rfl⟩

/-- A callback gets through. -/
theorem react_complete (hi : Inv z self.server.core) (hc : wake.Complete) :
    ∃ self' rc, self.react z env wake = some (self', rc) := by
  cases wake with
  | command message => exact sServerApiMessage_complete hc
  | monitor => exact ⟨_, _, rfl⟩
  | client input =>
    by_cases hmay : self.mayHappen env input = true
    case neg => exact ⟨_, _, if_neg hmay⟩
    case pos =>
      obtain ⟨s', rc, hs'⟩ : ∃ s' rc, handle z input self.server = some (s', rc) := by
        by_cases hd : input.Decodable
        · obtain ⟨s', -, hs', -⟩ := handle_spec hi hd
          exact ⟨s', 0, hs'⟩
        · cases input with
          | expiry => exact absurd trivial hd
          | message routingId frames =>
            exact ⟨_, _, handle_malformed z _ _ _ fun m hm => hd ⟨m, hm⟩⟩
      simp only [react, if_pos hmay, clientCallback, hs', Option.bind_eq_bind, Option.bind_some]
      exact ⟨_, _, rfl⟩

/-- **The reactor gets through**, whatever wakes it. -/
theorem zloopStart_complete {inputs : List Input} {wakes : List (Env cfg × Wake)}
    (h : Sound z self inputs) (hc : ∀ wake ∈ wakes, wake.2.Complete) :
    ∃ self', self.zloopStart z wakes = some self' := by
  induction wakes generalizing self inputs with
  | nil => exact ⟨self, rfl⟩
  | cons wake wakes ih =>
    obtain ⟨self₁, rc, hreact⟩ : ∃ self₁ rc, self.react z wake.1 wake.2 = some (self₁, rc) :=
      react_complete h.implements.inv (hc wake List.mem_cons_self)
    rw [zloopStart, hreact, Option.bind_eq_bind, Option.bind_some]
    by_cases hrc : rc = -1
    · exact ⟨self₁, if_pos hrc⟩
    · obtain ⟨self', hself'⟩ := ih (h.react hreact) fun w hw => hc w (List.mem_cons_of_mem _ hw)
      exact ⟨self', (if_neg hrc).trans hself'⟩

end SServer

variable {cfg : Zconfig}

/-- A configuration of paths and values, without sections. -/
def Zconfig.flat : Zconfig where
  Tree := List (CStr × CStr)
  new := []
  resolve tree path := (tree.find? (·.1 = path)).map Prod.snd
  put tree path value := (path, value) :: tree
  locate _ _ := none
  children _ := []
  name _ := .empty
  value _ := none
  filename _ := none
  resolve_new _ := rfl

/-- A file system without files, and a router that binds. -/
def Env.at (now : Int) : Env Zconfig.flat where
  now := now
  after delay := now + delay
  zsockBind _ := 5670
  zconfigLoad _ := none
  zconfigHasChanged _ := false
  zconfigReload _ := none

/-- A client comes while the caller changes the timeout, and is silent for too long. -/
def living : List (Env Zconfig.flat × SServer.Wake) := [
  (.at 0, .command .verbose),
  (.at 1, .client (.message [1] (wire (.hello .empty)))),
  (.at 2, .command (.set (some pathTimeout) (some (.ofBytes [50])))),
  (.at 3, .client (.message [2] (wire (.hello .empty)))),
  (.at 4, .client (.expiry [2])),
  (.at 5, .client (.expiry [2])),
  (.at 6, .command (.configure (some .empty))),
  (.at 7, .command .term)]

/-- **The caller cannot be seen by the clients.** Whatever commands and changes of the configuration
come in between, what every client has been sent, byte by byte, and the sessions and subscriptions
there are, are those of a broker that is given just what the server hears: every message that can be
read and every expiry that is due, until the reactor ends. -/
theorem commands_unseen (z : Czmq) {wakes : List (Env cfg × SServer.Wake)} {self : SServer cfg}
    (h : SServer.zloopStart z wakes SServer.sServerNew = some self) :
    ∃ s, run z false (SServer.heard z wakes SServer.sServerNew) = some s ∧
      (∀ c, framesIn c self.server.trace = framesIn c s.trace) ∧
      self.server.core.entry = s.core.entry := by
  have hsound := SServer.Sound.zloopStart SServer.sound_new h
  obtain ⟨s, hs, himpl, hsent⟩ := run_refines z false hsound.decodable
  refine ⟨s, hs, fun c => ?_, ?_⟩
  · have hsame : sentIn c self.server.trace = sentIn c s.trace := (hsound.told c).trans (hsent c).symm
    rw [framesIn_eq hsound.encoded, framesIn_eq (encoded_of_run hs), hsame]
  · rw [hsound.implements.entry, himpl.entry]

theorem commands_unseen_living : ∃ self,
    SServer.zloopStart .literal living SServer.sServerNew = some self ∧
      ∃ s, run .literal false (SServer.heard .literal living SServer.sServerNew) = some s ∧
        (∀ c, framesIn c self.server.trace = framesIn c s.trace) ∧
        self.server.core.entry = s.core.entry := by
  obtain ⟨self, hself⟩ := SServer.zloopStart_complete (SServer.sound_new (z := .literal))
    (show ∀ wake ∈ living, wake.2.Complete by simp [living, SServer.Wake.Complete, ApiMessage.Complete])
  exact ⟨self, hself, commands_unseen .literal hself⟩

/-- **The whole life of the server.** Whatever wakes the reactor, in whatever order, and however the
hash is gone through at the end, the server gets to its end; then no client is left, in the table,
among the timers or on the heap, and every client that was ever used has been freed once, and was
not used after that. Ending, the server sends nothing. -/
theorem zccp_server_frees (z : Czmq) {wakes : List (Env cfg × SServer.Wake)}
    (hc : ∀ wake ∈ wakes, wake.2.Complete) :
    ∃ self, SServer.zloopStart z wakes SServer.sServerNew = some self ∧
      ∀ order, Lists order self.server.clients →
        ∃ s, zccpServer z wakes order = some s ∧
          (∀ r, s.heap r = none) ∧ (∀ hashkey, s.clients hashkey = none) ∧ s.timers = [] ∧
          (∀ c, s.sentTo c = self.server.sentTo c) ∧
          ∀ r, (∃ o ∈ s.trace, o.Uses r ∨ o = .destroy r) → FreedOnce r s.trace := by
  obtain ⟨self, hself⟩ := SServer.zloopStart_complete (SServer.sound_new (z := z)) hc
  refine ⟨self, hself, fun order horder => ?_⟩
  have hsound := SServer.Sound.zloopStart SServer.sound_new hself
  obtain ⟨s, t, hs, hi, hl, hnone, htrace, hdestroys⟩ :=
    zhashDestroy_spec hsound.implements.inv hsound.ledger horder
      (show self.server.patterns.items.length ≤ self.server.fuel by unfold Server.fuel; omega)
  -- no session is left, since the table is empty
  have hsessions : ∀ r, s.core.session r = none := by
    intro r
    by_contra hsome
    obtain ⟨σ, hσ⟩ := Option.ne_none_iff_exists'.mp hsome
    have := hi.listed r σ hσ
    exact absurd this (by rw [show s.core.clients _ = none from hnone _]; exact nofun)
  refine ⟨{ serverTerminate s with timers := [] }, ?_, ?_, hnone, rfl, ?_, ?_⟩
  · rw [zccpServer, hself, Option.bind_eq_bind, Option.bind_some, sServerDestroy, hs]
    rfl
  · intro r
    show s.heap r = none
    simpa [Server.core, Server.session] using hsessions r
  · intro c
    show sentIn c s.trace = sentIn c self.server.trace
    rw [htrace, sentIn_append]
    have hquiet : sentIn c t = [] := by
      refine List.filterMap_eq_nil_iff.mpr fun o ho => ?_
      obtain ⟨r, rfl⟩ := hdestroys o ho
      rfl
    rw [hquiet, List.append_nil]
  · rintro r ⟨o, ho, huse⟩
    rcases hl.gone r (hsessions r) with hquiet | hfreed
    · exact absurd huse (not_or.mpr (hquiet o ho))
    · exact hfreed

theorem zccp_server_frees_living :
    ∃ self, SServer.zloopStart .literal living SServer.sServerNew = some self ∧
      ∀ order, Lists order self.server.clients →
        ∃ s, zccpServer .literal living order = some s ∧
          (∀ r, s.heap r = none) ∧ (∀ hashkey, s.clients hashkey = none) ∧ s.timers = [] ∧
          (∀ c, s.sentTo c = self.server.sentTo c) ∧
          ∀ r, (∃ o ∈ s.trace, o.Uses r ∨ o = .destroy r) → FreedOnce r s.trace :=
  zccp_server_frees .literal (by simp [living, SServer.Wake.Complete, ApiMessage.Complete])

end Zccp.Broker
