import Zccp.Broker.Runs
import Zccp.Msg.RoundTrip

/-!
# `Zccp/Broker/Store.lean` — what is in the pattern store

Two promises that the store does not keep.

`SUBSCRIBE_OK` is sent whether or not there is anything to confirm: `store_new_subscription` raises
no exception when `s_pattern_new` fails, and an expression that `zrex_new` makes an invalid object
of is stored like any other. `truthful_iff` says that the confirmation can be relied on for the
expressions that compile, and for no others.

A pattern outlives its clients. `client_terminate` takes a client off every list and leaves the
lists where they are, so that the last client of a pattern leaves one with nobody on it.
`only_live_iff` says that this is the one way to get there.
-/

set_option autoImplicit false

namespace Zccp.Broker

open Lib CursorList

variable {z : Czmq} {verbose : Bool}

/-! ## What `SUBSCRIBE_OK` means -/

/-- `zrex_new` makes a valid object of the expression. -/
def Compiles (z : Czmq) (e : CStr) : Prop := ∃ rex, z.zrexNew e = some rex ∧ rex.valid = true

/-- A pattern that can be matched: what it holds is what its expression is compiled into, and that
is valid. -/
def Pattern.Usable (z : Czmq) (p : Pattern) : Prop :=
  z.zrexNew p.expression = some p.rex ∧ p.rex.valid = true

/-- Between one server and a later one a peer has been sent a message of a type. -/
def Told (s s' : Server) (c : Frame) (id : MsgId) : Prop :=
  ∃ t, s'.trace = s.trace ++ t ∧ id ∈ (sentIn c t).map (·.id)

/-- **A truthful answer** to a SUBSCRIBE of `c` for `e`, which takes the server from `s` to `s'`. The
store is the list of patterns with their clients, less the cursors. -/
structure Truthful (z : Czmq) (s s' : Server) (c : Frame) (e : CStr) : Prop where
  stored : Told s s' c .subscribeOk → ∃ r, s'.clients (zframeStrhex c) = some r ∧
    ∃ p ∈ s'.patterns.items, p.expression = e ∧ p.Usable z ∧ r ∈ p.clients.items
  refused : ¬ Compiles z e → s'.core.topics = s.core.topics ∧
    (∀ p ∈ s'.patterns.items, p.Usable z) ∧ ¬ Told s s' c .subscribeOk

/-- What a SUBSCRIBE for a session does. -/
theorem Transition.subscribed {k k' : Core} {c : Frame} {frames : List Frame} {t : List Obs}
    {e : CStr} {r : Ref} (h : Transition z k (.message c frames) k' t) (hi : Inv z k)
    (hsub : IsSubscribe frames e) (hr : k.clients (zframeStrhex c) = some r) :
    ∃ σ msg, k.session r = some σ ∧ k' = (k.touch r σ msg).subscribe z r e ∧
      (sentIn c t).map (·.id) = [.subscribeOk] := by
  obtain ⟨m, hm, hid, he⟩ := hsub
  have hknown : k.clients (zframeStrhex c) ≠ none := by
    rw [hr]
    exact Option.some_ne_none r
  have hsame : ∀ {m' : ZccpMsg}, zccpMsgDecode frames = .ok m' → m' = m :=
    fun h' => Except.ok.inj (h'.symm.trans hm)
  cases h with
  | hello _ _ _ _ _ _ _ _ _ _ unknown => exact absurd unknown hknown
  | refuse _ _ _ _ _ _ _ _ _ unknown => exact absurd unknown hknown
  | publish _ _ _ _ _ _ _ _ _ _ decoded _ id =>
    rw [hsame decoded, hid] at id
    cases id
  | direct _ _ _ _ _ _ _ decoded _ id =>
    rw [hsame decoded, hid] at id
    cases id
  | close _ _ _ _ _ _ _ _ decoded _ id =>
    rw [hsame decoded] at id
    exact absurd (.inl hid) id
  | subscribe _ _ _ msg r' σ expression _ _ decoded _ _ hexpression session peer =>
    -- the session is the one that the table leads to
    have hlisted := hi.clients_of_session session
    rw [peer, hr] at hlisted
    obtain rfl := Option.some.inj hlisted
    rw [hsame decoded, he] at hexpression
    obtain rfl := Option.some.inj hexpression
    exact ⟨σ, msg, session, rfl, by simp [plainReply, ZccpMsg.setId]⟩

/-- The same for a message that comes at the end of a run. -/
theorem step_subscribe {inputs : List Input} {s : Server} (hs : run z verbose inputs = some s)
    {c : Frame} {frames : List Frame} {e : CStr} (hsession : HasSession z verbose inputs c)
    (hsub : IsSubscribe frames e) :
    ∃ s' r σ msg, step z s (.message c frames) = some s' ∧ Inv z s.core ∧
      s.core.session r = some σ ∧ s.core.clients (zframeStrhex c) = some r ∧
      s'.core = (s.core.touch r σ msg).subscribe z r e ∧ Told s s' c .subscribeOk := by
  have hi := (implements_of_run hs).inv
  obtain ⟨s₁, hs₁, r, hr⟩ := hsession
  obtain rfl := Option.some.inj (hs.symm.trans hs₁)
  obtain ⟨m, hm, -⟩ := id hsub
  obtain ⟨s', t, hs', htrans, htrace⟩ := handle_spec (z := z) hi
    (show (Input.message c frames).Decodable from ⟨m, hm⟩)
  obtain ⟨σ, msg, hσ, hcore, hsent⟩ := htrans.subscribed hi hsub hr
  refine ⟨s', r, σ, msg, step_of_handle hs', hi, hσ, hr, hcore, t, htrace, ?_⟩
  rw [hsent]
  exact List.mem_singleton_self _

/-- **When SUBSCRIBE_OK is truthful**: if the expression compiles, and only then. -/
theorem truthful_iff {inputs : List Input} {s : Server} (hs : run z verbose inputs = some s)
    {c : Frame} {frames : List Frame} {e : CStr} (hsession : HasSession z verbose inputs c)
    (hsub : IsSubscribe frames e) :
    ∃ s', step z s (.message c frames) = some s' ∧ (Truthful z s s' c e ↔ Compiles z e) := by
  obtain ⟨s', r, σ, msg, hs', hi, hσ, hr, hcore, htold⟩ := step_subscribe hs hsession hsub
  refine ⟨s', hs', ?_⟩
  constructor
  · intro h
    by_contra hno
    exact (h.refused hno).2.2 htold
  · rintro ⟨rex, hrex, hvalid⟩
    refine ⟨fun _ => ⟨r, ?_, ?_⟩, fun hno => absurd ⟨rex, hrex, hvalid⟩ hno⟩
    · have hclients := congrArg Core.clients hcore
      rw [show s'.clients = s'.core.clients from rfl, hclients]
      exact hr
    · -- the client is on the list of the pattern with this expression
      have hmem : e ∈ s'.core.subscriptions r := by
        rw [hcore, (hi.touch hσ msg).mem_subscriptions_subscribe]
        exact .inr ⟨rfl, rfl, by rw [hrex]; rfl⟩
      obtain ⟨t, ht, hclient, rfl⟩ := Core.mem_subscriptions.mp hmem
      have hinv' : Inv z s'.core := by
        rw [hcore]
        exact (hi.touch hσ msg).subscribe (Function.update_self ..) _
      obtain ⟨p, hp, rfl⟩ := List.mem_map.mp ht
      have hcompiled := hinv'.compiled _ ht
      have hsame : p.rex = rex := Option.some.inj (hcompiled.symm.trans hrex)
      exact ⟨p, hp, rfl, ⟨hcompiled, by rw [hsame, hvalid]⟩, hclient⟩

theorem truthful_literal :
    let name := CStr.ofBytes [65]
    let inputs : List Input := [.message [1] (wire (.hello name))]
    ∃ s s', run .literal false inputs = some s ∧
      step .literal s (.message [1] (wire (.subscribe name))) = some s' ∧
      (Truthful .literal s s' [1] name ↔ Compiles .literal name) := by
  intro name inputs
  have hsub := zccpMsgDecode_wire (m := .subscribe name) (by decide) (fits_subscribe (by decide))
  have hsession : HasSession .literal false inputs [1] := by decide +kernel
  obtain ⟨s, hs, -⟩ := id hsession
  obtain ⟨s', hs', hiff⟩ := truthful_iff hs hsession ⟨_, hsub, rfl, rfl⟩
  exact ⟨s, s', hs, hs', hiff⟩

/-- An opening bracket, which `zrex_new` makes an invalid object of or answers `NULL` to. The client is
told SUBSCRIBE_OK; in the first case the object is stored. -/
theorem not_truthful_bracket :
    let bracket := CStr.ofBytes [40]
    let inputs : List Input := [.message [1] (wire (.hello (.ofBytes [65])))]
    let invalid : Czmq :=
      { Czmq.literal with zrexNew := fun e => some { expression := e, valid := false } }
    let null : Czmq := { Czmq.literal with zrexNew := fun _ => none }
    (∃ s s', run invalid false inputs = some s ∧
      step invalid s (.message [1] (wire (.subscribe bracket))) = some s' ∧
      Told s s' [1] .subscribeOk ∧ s'.core.topics.length = 1 ∧
      ¬ Truthful invalid s s' [1] bracket) ∧
    ∃ s s', run null false inputs = some s ∧
      step null s (.message [1] (wire (.subscribe bracket))) = some s' ∧
      Told s s' [1] .subscribeOk ∧ ¬ Truthful null s s' [1] bracket := by
  intro bracket inputs invalid null
  have hsub := zccpMsgDecode_wire (m := .subscribe bracket) (by decide) (fits_subscribe (by decide))
  constructor
  · have hsession : HasSession invalid false inputs [1] := by decide +kernel
    have hno : ¬ Compiles invalid bracket := by
      rintro ⟨rex, hrex, hvalid⟩
      rw [← Option.some.inj hrex] at hvalid
      cases hvalid
    have hstored : ((run invalid false inputs).bind fun s =>
        (step invalid s (.message [1] (wire (.subscribe bracket)))).map fun s' =>
          s'.core.topics.length) = some 1 := by decide +kernel
    obtain ⟨s, hs, -⟩ := id hsession
    obtain ⟨s', r, σ, msg, hs', -, -, -, -, htold⟩ := step_subscribe hs hsession ⟨_, hsub, rfl, rfl⟩
    rw [hs, Option.bind_some, hs', Option.map_some, Option.some.injEq] at hstored
    exact ⟨s, s', hs, hs', htold, hstored, fun h => (h.refused hno).2.2 htold⟩
  · have hsession : HasSession null false inputs [1] := by decide +kernel
    have hno : ¬ Compiles null bracket := by
      rintro ⟨rex, hrex, -⟩
      cases hrex
    obtain ⟨s, hs, -⟩ := id hsession
    obtain ⟨s', r, σ, msg, hs', -, -, -, -, htold⟩ := step_subscribe hs hsession ⟨_, hsub, rfl, rfl⟩
    exact ⟨s, s', hs, hs', htold, fun h => (h.refused hno).2.2 htold⟩

/-! ## Who is in it -/

/-- A session the table leads to is on the list of a pattern with this expression. -/
def Subscribed (s : Server) (r : Ref) (e : CStr) : Prop :=
  (∃ key, s.clients key = some r) ∧ ∃ p ∈ s.patterns.items, p.expression = e ∧ r ∈ p.clients.items

/-- **Only live subscriptions.** Every pattern has a subscribed session; there are no more patterns
than pairs of a session and an expression it is subscribed to, and none if there is no such pair. -/
structure OnlyLive (s : Server) : Prop where
  subscribed : ∀ p ∈ s.patterns.items, ∃ r ∈ p.clients.items, Subscribed s r p.expression
  bounded : ∃ pairs : List (Ref × CStr), pairs.Nodup ∧
    (∀ r e, (r, e) ∈ pairs ↔ Subscribed s r e) ∧ s.patterns.items.length ≤ pairs.length
  emptied : (∀ r e, ¬ Subscribed s r e) → s.patterns.items = []

/-- An input that ends the session of its peer, if it has one. -/
def Input.Ends : Input → Prop
  | .message _ frames => ∃ m, zccpMsgDecode frames = .ok m ∧ ¬ MsgId.Expected m.id
  | .expiry _ => True

/-- It ends a session that is alone on the list of a pattern. -/
def Orphans (s : Server) (input : Input) : Prop :=
  input.Ends ∧ ∃ r, s.clients (zframeStrhex input.peer) = some r ∧
    ∃ p ∈ s.patterns.items, p.clients.items = [r]

/-- No list is empty. -/
def Core.Filled (k : Core) : Prop := ∀ t ∈ k.topics, t.clients ≠ []

section Filled

variable {k : Core} {r : Ref}

/-- Subscribing empties no list: it puts a client on one, or makes a pattern with one client. -/
theorem filled_subscribe (h : k.Filled) (e : CStr) : (k.subscribe z r e).Filled := by
  intro t' ht'
  unfold Core.subscribe at ht'
  by_cases hmem : e ∈ k.topics.map Topic.expression
  · rw [if_pos hmem] at ht'
    obtain ⟨t, ht, rfl⟩ := List.mem_map.mp ht'
    split
    · simp
    · exact h t ht
  · rw [if_neg hmem] at ht'
    cases hz : z.zrexNew e with
    | none =>
      rw [hz] at ht'
      exact h t' ht'
    | some rex =>
      rw [hz] at ht'
      rcases List.mem_append.mp ht' with ht' | ht'
      · exact h t' ht'
      · rw [List.mem_singleton.mp ht']
        exact List.cons_ne_nil _ _

/-- A list from which a client is taken is empty if nobody else was on it. -/
theorem filled_drop_iff (hi : Inv z k) (h : k.Filled) (σ : Session) :
    (k.drop r σ).Filled ↔ ¬ ∃ t ∈ k.topics, t.clients = [r] := by
  have hone : ∀ t ∈ k.topics, t.clients.filter (· ≠ r) = [] ↔ t.clients = [r] := by
    intro t ht
    constructor
    · intro hnil
      have hall : ∀ r' ∈ t.clients, r' = r := by simpa using hnil
      have hrep := List.eq_replicate_of_mem hall
      have hle : t.clients.length ≤ 1 := by
        have hnodup := hi.once t ht
        rw [hrep, List.nodup_replicate] at hnodup
        exact hnodup
      have hpos := List.length_pos_iff.mpr (h t ht)
      rw [hrep, Nat.le_antisymm hle hpos]
      rfl
    · intro hsingle
      rw [hsingle]
      simp
  have htopics : (k.drop r σ).topics =
      k.topics.map fun t => { t with clients := t.clients.filter (· ≠ r) } := rfl
  rw [Core.Filled, htopics, List.forall_mem_map]
  constructor
  · rintro hfilled ⟨t, ht, hsingle⟩
    exact hfilled t ht ((hone t ht).mpr hsingle)
  · intro hno t ht hnil
    exact hno ⟨t, ht, (hone t ht).mp hnil⟩

end Filled

/-- **One step** leaves an empty list behind if and only if it ends a session that is alone on one. -/
theorem Transition.filled_iff {s : Server} {k' : Core} {input : Input} {t : List Obs}
    (h : Transition z s.core input k' t) (hi : Inv z s.core) (hfilled : s.core.Filled) :
    k'.Filled ↔ ¬ Orphans s input := by
  have hsingle : ∀ r, (∃ p ∈ s.patterns.items, p.clients.items = [r]) ↔
      ∃ t ∈ s.core.topics, t.clients = [r] := by
    intro r
    constructor
    · rintro ⟨p, hp, hsingle⟩
      exact ⟨p.topic, List.mem_map_of_mem hp, hsingle⟩
    · rintro ⟨t, ht, hsingle⟩
      obtain ⟨p, hp, rfl⟩ := List.mem_map.mp ht
      exact ⟨p, hp, hsingle⟩
  -- an input that ends the session at `r`
  have hends : ∀ {r σ}, input.Ends → s.core.session r = some σ → σ.routingId = input.peer →
      (Orphans s input ↔ ∃ t ∈ s.core.topics, t.clients = [r]) := by
    intro r σ hinput hσ hpeer
    have hlisted : s.clients (zframeStrhex input.peer) = some r := by
      rw [← hpeer]
      exact hi.clients_of_session hσ
    constructor
    · rintro ⟨-, r', hr', hp⟩
      obtain rfl := Option.some.inj (hlisted.symm.trans hr')
      exact (hsingle _).mp hp
    · intro ht
      exact ⟨hinput, r, hlisted, (hsingle r).mpr ht⟩
  have hunknown : s.clients (zframeStrhex input.peer) = none → ¬ Orphans s input := by
    rintro hnone ⟨-, r, hr, -⟩
    rw [hnone] at hr
    cases hr
  have hexpected : ∀ {routingId frames m}, input = .message routingId frames →
      zccpMsgDecode frames = .ok m → MsgId.Expected m.id → ¬ Orphans s input := by
    rintro routingId frames m rfl hm hid ⟨⟨m', hm', hid'⟩, -⟩
    exact hid' (Except.ok.inj (hm.symm.trans hm') ▸ hid)
  generalize hk : s.core = k at h
  cases h with
  | hello _ _ _ _ _ _ _ _ _ _ unknown =>
    subst hk
    exact iff_of_true hfilled (hunknown unknown)
  | refuse _ _ _ _ _ _ _ _ _ unknown =>
    subst hk
    exact iff_of_true hfilled (hunknown unknown)
  | subscribe _ _ _ _ _ _ _ _ _ decoded _ id =>
    subst hk
    exact iff_of_true (filled_subscribe hfilled _) (hexpected rfl decoded (.inl id))
  | publish _ _ _ _ _ _ _ _ _ _ decoded _ id =>
    subst hk
    exact iff_of_true hfilled (hexpected rfl decoded (.inr (.inl id)))
  | direct _ _ _ _ _ _ _ decoded _ id =>
    subst hk
    exact iff_of_true hfilled (hexpected rfl decoded (.inr (.inr id)))
  | close _ _ m msg r σ _ _ decoded _ id session peer =>
    subst hk
    rw [hends ⟨m, decoded, id⟩ session peer]
    exact filled_drop_iff (hi.touch session msg) hfilled _
  | expire _ r σ _ _ session peer =>
    subst hk
    rw [hends trivial session peer]
    exact filled_drop_iff hi hfilled σ
  | nothing _ unknown =>
    subst hk
    exact iff_of_true hfilled (hunknown unknown)

/-! ## Over a run -/

/-- The lists, as pairs of a client and an expression. -/
def pairsOf (patterns : List Pattern) : List (Ref × CStr) :=
  patterns.flatMap fun p => p.clients.items.map fun r => (r, p.expression)

theorem nodup_pairsOf {patterns : List Pattern} (hdistinct : (patterns.map Pattern.expression).Nodup)
    (honce : ∀ p ∈ patterns, p.clients.items.Nodup) : (pairsOf patterns).Nodup := by
  rw [pairsOf, List.nodup_flatMap]
  constructor
  · intro p hp
    exact (honce p hp).map fun r r' h => (Prod.mk.inj h).1
  · refine (List.pairwise_map.mp hdistinct).imp fun {p p'} hne => ?_
    intro x hx hx'
    obtain ⟨r, -, rfl⟩ := List.mem_map.mp hx
    obtain ⟨r', -, heq⟩ := List.mem_map.mp hx'
    exact hne (Prod.mk.inj heq).2.symm

theorem length_le_pairsOf {patterns : List Pattern} (h : ∀ p ∈ patterns, ∃ r, r ∈ p.clients.items) :
    patterns.length ≤ (pairsOf patterns).length := by
  induction patterns with
  | nil => exact Nat.zero_le _
  | cons p patterns ih =>
    obtain ⟨⟨r, hr⟩, hrest⟩ := List.forall_mem_cons.mp h
    have hpos := List.length_pos_of_mem hr
    have hle := ih hrest
    rw [pairsOf] at hle ⊢
    rw [List.flatMap_cons, List.length_append, List.length_map, List.length_cons]
    omega

/-- In a server that keeps its invariant, what is promised of the store is that no list is empty. -/
theorem onlyLive_iff_filled {s : Server} (hi : Inv z s.core) : OnlyLive s ↔ s.core.Filled := by
  have hlive : ∀ p ∈ s.patterns.items, ∀ r ∈ p.clients.items, Subscribed s r p.expression := by
    intro p hp r hr
    obtain ⟨σ, hσ⟩ := hi.live p.topic (List.mem_map_of_mem hp) r hr
    exact ⟨⟨σ.hashkey, hi.listed r σ hσ⟩, p, hp, rfl, hr⟩
  constructor
  · intro h t ht hnil
    obtain ⟨p, hp, rfl⟩ := List.mem_map.mp ht
    obtain ⟨r, hr, -⟩ := h.subscribed p hp
    rw [show p.clients.items = [] from hnil] at hr
    cases hr
  · intro h
    have hfilled : ∀ p ∈ s.patterns.items, ∃ r, r ∈ p.clients.items := by
      intro p hp
      exact List.exists_mem_of_ne_nil _ (h p.topic (List.mem_map_of_mem hp))
    refine ⟨fun p hp => ?_, ?_, fun hnone => ?_⟩
    · obtain ⟨r, hr⟩ := hfilled p hp
      exact ⟨r, hr, hlive p hp r hr⟩
    · have honce : ∀ p ∈ s.patterns.items, p.clients.items.Nodup :=
        fun p hp => hi.once p.topic (List.mem_map_of_mem hp)
      refine ⟨pairsOf s.patterns.items, nodup_pairsOf hi.nodup_expressions honce, fun r e => ?_,
        length_le_pairsOf hfilled⟩
      constructor
      · intro hmem
        obtain ⟨p, hp, hmem⟩ := List.mem_flatMap.mp hmem
        obtain ⟨r', hr', heq⟩ := List.mem_map.mp hmem
        cases heq
        exact hlive p hp _ hr'
      · rintro ⟨-, p, hp, rfl, hr⟩
        exact List.mem_flatMap.mpr ⟨p, hp, List.mem_map_of_mem hr⟩
    · refine List.eq_nil_iff_forall_not_mem.mpr fun p hp => ?_
      obtain ⟨r, hr⟩ := hfilled p hp
      exact hnone r p.expression (hlive p hp r hr)

/-- **The store over a run.** It holds only live subscriptions all the way if and only if no input on
the way ends a session that is alone on the list of a pattern. -/
theorem only_live_iff (z : Czmq) (verbose : Bool) {inputs : List Input}
    (hd : ∀ i ∈ inputs, i.Decodable) :
    (∀ pre, pre <+: inputs → ∀ s, run z verbose pre = some s → OnlyLive s) ↔
      ∀ pre i, pre ++ [i] <+: inputs → ∀ s, run z verbose pre = some s → ¬ Orphans s i := by
  obtain ⟨s, hs, -⟩ := run_refines z verbose hd
  refine runFrom_always_iff (I := fun s => Inv z s.core) inv_step ?_ (Inv.new z verbose) ?_ hs
  · intro s i s' hi hstep hlive
    obtain ⟨t, h⟩ := transition_of_step hi hstep
    rw [onlyLive_iff_filled (h.inv hi)]
    exact h.filled_iff hi ((onlyLive_iff_filled hi).mp hlive)
  · rw [onlyLive_iff_filled (Inv.new z verbose)]
    intro t ht
    cases ht

/-- Two peers share a pattern, and one of them leaves. -/
theorem only_live_two_peers :
    let name := CStr.ofBytes [65]
    let inputs : List Input := [.message [1] (wire (.hello name)), .message [2] (wire (.hello name)),
      .message [1] (wire (.subscribe name)), .message [2] (wire (.subscribe name)), .expiry [1]]
    (∀ pre, pre <+: inputs → ∀ s, run .literal false pre = some s → OnlyLive s) ↔
      ∀ pre i, pre ++ [i] <+: inputs → ∀ s, run .literal false pre = some s → ¬ Orphans s i := by
  intro name inputs
  have hhello := zccpMsgDecode_wire (m := .hello name) (by decide) (fits_hello (by decide))
  have hsub := zccpMsgDecode_wire (m := .subscribe name) (by decide) (fits_subscribe (by decide))
  apply only_live_iff
  simp only [inputs, List.forall_mem_cons, List.not_mem_nil, false_implies, implies_true, and_true]
  exact ⟨⟨_, hhello⟩, ⟨_, hhello⟩, ⟨_, hsub⟩, ⟨_, hsub⟩, trivial⟩

/-- A peer subscribes and says goodbye: nobody is subscribed to anything, and there is a pattern. -/
theorem not_only_live_one_peer :
    let name := CStr.ofBytes [65]
    let inputs : List Input := [.message [1] (wire (.hello name)),
      .message [1] (wire (.subscribe name)), .message [1] [[0xAA, 0xAA, 8]]]
    ∃ s, run .literal false inputs = some s ∧ (∀ r e, ¬ Subscribed s r e) ∧
      s.patterns.items.length = 1 ∧ ¬ OnlyLive s := by
  intro name inputs
  have hlists : ((run .literal false inputs).map fun s => s.patterns.items.map fun p =>
      p.clients.items) = some [[]] := by decide +kernel
  obtain ⟨s, hs, hitems⟩ := Option.map_eq_some_iff.mp hlists
  have hlength : s.patterns.items.length = 1 := by
    rw [← List.length_map, hitems]
    rfl
  have hnone : ∀ r e, ¬ Subscribed s r e := by
    rintro r e ⟨-, p, hp, -, hr⟩
    have hmem : p.clients.items ∈ s.patterns.items.map fun p => p.clients.items :=
      List.mem_map_of_mem hp
    rw [hitems, List.mem_singleton] at hmem
    rw [hmem] at hr
    cases hr
  refine ⟨s, hs, hnone, hlength, fun h => ?_⟩
  rw [h.emptied hnone] at hlength
  cases hlength

end Zccp.Broker
