import Zccp.Broker.Invariant

/-!
# `Zccp/Broker/Pass.lean` — one pass through the state machine

The specification of `sClientExecute` for every transition that does not re-enter it; forwarding
has a file of its own (`Zccp/Broker/Forward.lean`). Everything rests on two rules, one for each
way the loop of the state machine can be left after its first pass:

* `sClientExecute_stay`: the actions leave no next event, and the mailbox is empty;
* `sClientExecute_end`: the actions end in `terminate`, and the client is deleted.

Both take what the *action list* did as a hypothesis, so that a transition is verified by
running its actions and nothing else. An empty mailbox is essential in the first: with a message
left in it the loop would go round again, with whatever event that message stands for.

The specifications are equations, `sClientExecute .. = some ..`, for every bound that is large enough:
that the loops end is proved along with what they do. The nesting `n` is left open, so that
forwarding can use the same specification one level down.
-/

set_option autoImplicit false

namespace Zccp.Broker

open Lib CursorList

variable {z : Czmq} {f n : Nat} {r : Ref} {s : Server}

/-! ## What is sent and what is logged -/

/-- The observation of a message sent to a peer, encoded as it is when the encoder succeeds. -/
def sent (routingId : Frame) (msg : ZccpMsg) : Obs := .send routingId msg (wire msg)

/-- A reply with nothing in it but its id. -/
def plainReply (id : MsgId) (routingId : Frame) : ZccpMsg := (freshReply routingId).setId id

/-- The observations from the entry into the state machine to the first action. -/
def before (verbose : Bool) (r : Ref) (state : State) (event : Event)
    (patterns : CursorList Pattern) : List Obs :=
  [.enter r event patterns, .iterate r state event] ++
    debugged verbose [.stateName state.code, .eventName event.code]

/-- The observations from the last action to the return, for a client that stays. -/
def after (verbose : Bool) (r : Ref) (state : State) (patterns : CursorList Pattern) : List Obs :=
  debugged verbose [.stateName state.code] ++ [.leave r patterns]

section Observations

variable {P : Obs → Prop}

/-- What is there only if it is wanted. -/
theorem forall_mem_debugged {v : Bool} {os : List Obs} :
    (∀ o ∈ debugged v os, P o) ↔ (v = true → ∀ o ∈ os, P o) := by
  cases v <;> simp [debugged]

/-- What is true of all that a pass shows before its first action, whatever one asks of it: of the
trace's encodings, lookups, uses and relays alike. -/
@[simp] theorem forall_mem_before {v : Bool} {r : Ref} {state : State} {event : Event}
    {patterns : CursorList Pattern} :
    (∀ o ∈ before v r state event patterns, P o) ↔
      P (.enter r event patterns) ∧ P (.iterate r state event) ∧
        (v = true → P (.stateName state.code) ∧ P (.eventName event.code)) := by
  rw [before, List.forall_mem_append, List.forall_mem_cons, List.forall_mem_singleton,
    forall_mem_debugged, List.forall_mem_cons, List.forall_mem_singleton, and_assoc]

@[simp] theorem forall_mem_after {v : Bool} {r : Ref} {state : State}
    {patterns : CursorList Pattern} :
    (∀ o ∈ after v r state patterns, P o) ↔
      (v = true → P (.stateName state.code)) ∧ P (.leave r patterns) := by
  rw [after, List.forall_mem_append, forall_mem_debugged, List.forall_mem_singleton,
    List.forall_mem_singleton]

end Observations

/-- The client as the first action of a pass finds it. -/
def SClient.entered (c : SClient) (event : Event) : SClient :=
  { c with event := event, nextEvent := .null, exception := .null }

/-- The server as the first action of a pass finds it. -/
def Server.entered (r : Ref) (c : SClient) (event : Event) (s : Server) : Server :=
  (s.setClient r (c.entered event)).emit (before s.verbose r c.state event s.patterns)

@[simp] theorem Server.heap_entered (c : SClient) (event : Event) :
    (s.entered r c event).heap r = some (c.entered event) := by simp [Server.entered]

theorem Server.core_entered {c : SClient} (hc : s.heap r = some c) (event : Event) :
    (s.entered r c event).core = s.core := by
  rw [Server.entered, Server.core_emit]
  exact Server.core_setClient_of_eq hc rfl

/-! ## The two rules -/

/-- The actions of a transition, run one after the other. -/
def runActions (z : Czmq) (f n : Nat) (r : Ref) (actions : List Action) (s : Server) :
    Option Server :=
  actions.foldlM (runAction z (sClientExecute z f n) f r) s

/-- One pass of the loop that leaves no next event: the registers of the client are what they were,
which is why the cells that the loop writes back can be read off as `s₁` itself. -/
theorem sClientIterate_stay {c c₁ : SClient} {s₁ : Server} (event : Event)
    (hc : s.heap r = some { c with nextEvent := event })
    (hacts : runActions z f n r (sClientActions c.state event)
      ((s.setClient r (c.entered event)).emit ([.iterate r c.state event] ++
        debugged s.verbose [.stateName c.state.code, .eventName event.code])) = some s₁)
    (hc₁ : s₁.heap r = some c₁) (hex : c₁.exception = .null) (hnx : c₁.nextEvent = .null)
    (hmb : c₁.mailbox = .empty) :
    sClientIterate z (sClientExecute z f n) f r s =
      some (s₁.emit (debugged s₁.verbose [.stateName c₁.state.code]), false) := by
  have hfilter : sClientFilterMailbox f r
      (s₁.emit (debugged s₁.verbose [.stateName c₁.state.code])) =
      some (.null, s₁.emit (debugged s₁.verbose [.stateName c₁.state.code])) := by
    have hseek : seek (fun _ : Request => eventIsValid c₁.state) f c₁.mailbox =
        some (none, CursorList.empty) := by
      rw [hmb, seek_eq _ (by simp)]
      rfl
    have hback : ({ c₁ with mailbox := CursorList.empty } : SClient) = c₁ := by rw [← hmb]
    simp only [sClientFilterMailbox, Server.heap_emit, hc₁, hseek, Option.bind_eq_bind,
      Option.bind_some, hback, Server.setClient_emit, Server.setClient_heap hc₁]
  have hcell : ({ c₁ with nextEvent := .null, exception := .null } : SClient) = c₁ := by
    cases c₁
    simp only at hex hnx
    rw [hex, hnx]
  simp only [runActions, SClient.entered] at hacts
  simp only [sClientIterate, hc, Option.bind_eq_bind, Option.bind_some, Server.note_eq_emit,
    Server.debug_eq_emit, Server.emit_emit, Server.verbose_emit, Server.verbose_setClient, hacts,
    hc₁, hex, hnx, if_true, if_false, reduceCtorEq, hfilter, Server.heap_emit, hcell,
    Server.setClient_emit, Server.setClient_heap hc₁]

/-- One pass that ends in `terminate`. The client is gone then, and the loop is left without looking at
it again. -/
theorem sClientIterate_end {c c₁ : SClient} {s₁ s₂ : Server} (event : Event)
    (hc : s.heap r = some { c with nextEvent := event })
    (hacts : runActions z f n r (sClientActions c.state event)
      ((s.setClient r (c.entered event)).emit ([.iterate r c.state event] ++
        debugged s.verbose [.stateName c.state.code, .eventName event.code])) = some s₁)
    (hc₁ : s₁.heap r = some c₁) (hex : c₁.exception = .null) (hnx : c₁.nextEvent = .terminate)
    (hdel : zhashDelete f c₁.hashkey s₁ = some s₂) :
    sClientIterate z (sClientExecute z f n) f r s = some (s₂, true) := by
  simp only [runActions, SClient.entered] at hacts
  simp only [sClientIterate, hc, Option.bind_eq_bind, Option.bind_some, Server.note_eq_emit,
    Server.debug_eq_emit, Server.emit_emit, Server.verbose_emit, Server.verbose_setClient, hacts,
    hc₁, hex, hnx, if_true, hdel]

/-- The entry into the state machine and the way out, around the loop. The alarm that it would cancel
is never set. -/
theorem sClientExecute_eq {c : SClient} (hc : s.heap r = some c) (haw : c.wakeupTimer = 0)
    (event : Event) :
    sClientExecute z f (n + 1) r event s =
      (executeLoop (sClientIterate z (sClientExecute z f n) f r) r f
        ((s.setClient r { c with nextEvent := event }).emit [.enter r event s.patterns])).map
        fun s => s.emit [.leave r s.patterns] := by
  have hcell : ({ c with nextEvent := event, wakeupTimer := 0 } : SClient) =
      { c with nextEvent := event } := by rw [← haw]
  simp only [sClientExecute, Server.note_eq_emit, Server.heap_emit, hc, Option.bind_eq_bind,
    Option.bind_some, haw, endTimer, if_true, hcell, Server.setClient_emit,
    Server.setClient_setClient, Option.map_eq_bind]
  rfl

/-- **The client stays.** The loop is entered a second time, to find that there is no next event. -/
theorem sClientExecute_stay {c c₁ : SClient} {s₁ : Server} {event : Event}
    (hc : s.heap r = some c) (haw : c.wakeupTimer = 0) (hf : 0 < f) (hev : event ≠ .null)
    (hacts : runActions z f n r (sClientActions c.state event) (s.entered r c event) =
      some s₁)
    (hc₁ : s₁.heap r = some c₁) (hex : c₁.exception = .null) (hnx : c₁.nextEvent = .null)
    (hmb : c₁.mailbox = .empty) :
    sClientExecute z f (n + 1) r event s =
      some (s₁.emit (after s₁.verbose r c₁.state s₁.patterns)) := by
  have hpass := sClientIterate_stay (z := z) (f := f) (n := n)
    (s := (s.setClient r { c with nextEvent := event }).emit [.enter r event s.patterns]) (r := r)
    (c := c) event (by simp)
    (by simpa [Server.entered, before] using hacts) hc₁ hex hnx hmb
  obtain ⟨g, rfl⟩ : ∃ g, f = g + 1 := ⟨f - 1, by omega⟩
  rw [sClientExecute_eq hc haw]
  have hloop : executeLoop (sClientIterate z (sClientExecute z (g + 1) n) (g + 1) r) r (g + 1)
      ((s.setClient r { c with nextEvent := event }).emit [.enter r event s.patterns]) =
      some (s₁.emit (debugged s₁.verbose [.stateName c₁.state.code])) := by
    simp only [executeLoop, Server.heap_emit, Server.heap_setClient_self, Option.bind_eq_bind,
      Option.bind_some, hev, if_false, hpass, Bool.false_eq_true]
    -- with no bound left over, the loop still sees that it is done
    cases g <;> simp only [executeLoop, Server.heap_emit, hc₁, Option.bind_eq_bind,
      Option.bind_some, hnx, if_true]
  simp [hloop, after]

/-- **The client ends.** What is assumed of the table is what `zhash_delete` needs to find it by. -/
theorem sClientExecute_end {c c₁ : SClient} {s₁ s₂ : Server} {event : Event}
    (hc : s.heap r = some c) (haw : c.wakeupTimer = 0) (hf : 0 < f) (hev : event ≠ .null)
    (hacts : runActions z f n r (sClientActions c.state event) (s.entered r c event) =
      some s₁)
    (hc₁ : s₁.heap r = some c₁) (hex : c₁.exception = .null) (hnx : c₁.nextEvent = .terminate)
    (hdel : zhashDelete f c₁.hashkey s₁ = some s₂) :
    sClientExecute z f (n + 1) r event s = some (s₂.emit [.leave r s₂.patterns]) := by
  have hpass := sClientIterate_end (z := z) (f := f) (n := n)
    (s := (s.setClient r { c with nextEvent := event }).emit [.enter r event s.patterns]) (r := r)
    (c := c) event (by simp)
    (by simpa [Server.entered, before] using hacts) hc₁ hex hnx hdel
  obtain ⟨g, rfl⟩ : ∃ g, f = g + 1 := ⟨f - 1, by omega⟩
  rw [sClientExecute_eq hc haw]
  simp only [executeLoop, Server.heap_emit, Server.heap_setClient_self, Option.bind_eq_bind,
    Option.bind_some, hev, if_false, hpass, if_true, Option.map_some]

/-! ## Running actions

An action list is run by rewriting with `runActions_cons`, one action at a time, each with what
`perform` makes of it. -/

@[simp] theorem runActions_nil : runActions z f n r [] s = some s := rfl

theorem runActions_cons {c : SClient} {s₁ : Server} {a : Action} {actions : List Action}
    (hc : s.heap r = some c) (hex : c.exception = .null)
    (ha : perform z (sClientExecute z f n) f r a s = some s₁) :
    runActions z f n r (a :: actions) s = runActions z f n r actions s₁ := by
  simp [runActions, runAction, hc, hex, ha]

/-- A reply goes out as it is encoded, and a fresh one takes its place. -/
theorem sendReply_eq {c : SClient} {id : MsgId} {routingId : Frame} (hc : s.heap r = some c)
    (hid : id ≠ .unset) (hr : c.reply.routingId = some routingId) :
    sendReply id r s =
      some ((s.setClient r { c with reply := freshReply c.routingId }).emit
        [sent routingId (c.reply.setId id)]) := by
  have henc : zccpMsgEncode (c.reply.setId id) = some (wire (c.reply.setId id)) :=
    zccpMsgEncode_eq hid
  have hrid : (c.reply.setId id).routingId = some routingId := hr
  simp [sendReply, hc, hrid, henc, sent]

/-- A fresh reply is sent, and there is a fresh reply again. -/
theorem sendReply_fresh {c : SClient} {id : MsgId} {routingId : Frame} (hc : s.heap r = some c)
    (hid : id ≠ .unset) (hrid : c.routingId = routingId) (hr : c.reply = freshReply routingId) :
    sendReply id r s = some (s.emit [sent routingId (plainReply id routingId)]) := by
  subst hrid
  have hsame : ({ c with reply := freshReply c.routingId } : SClient) = c := by rw [← hr]
  rw [sendReply_eq hc hid (by rw [hr]; rfl), hsame, Server.setClient_heap hc, hr, plainReply]

/-! ## The end of a client -/

/-- `client_terminate`: the client is taken off every list. By induction over the patterns, of which
those before the cursor are done (`mapBefore`). The source removes one occurrence from each list, and
that is all of them only because no list has a client twice. -/
theorem clientTerminate_spec (hf : s.patterns.items.length ≤ f)
    (hn : ∀ t ∈ s.core.topics, t.clients.Nodup) :
    ∃ s', clientTerminate f r s = some s' ∧ s'.heap = s.heap ∧ s'.trace = s.trace ∧
      s'.core = { s.core with
        topics := s.core.topics.map fun t => { t with clients := t.clients.filter (· ≠ r) } } := by
  let off : Topic → Topic := fun t => { t with clients := t.clients.filter (· ≠ r) }
  have hlen : s.patterns.items.length = s.core.topics.length := by simp [Server.core]
  obtain ⟨s', hs', ⟨hheap, htrace, hcore⟩, -, -⟩ :=
    forEach_spec (Q := fun _ => True) Server.patterns Server.setPatterns
      (fun _ _ _ => rfl)
      (fun i s => some (s.setPatternClients i ((s.patternClients i).remove (· = r))))
      (P := fun i s₁ => s₁.heap = s.heap ∧ s₁.trace = s.trace ∧
        s₁.core = { s.core with topics := mapBefore off i s.core.topics })
      (s := s) trivial
      ⟨rfl, rfl, by
        rw [mapBefore_zero]
        exact Server.core_setPatterns_of_items (first_items _)⟩
      (by
        rintro i s₁ hi ⟨hheap, htrace, hcore⟩ hcur hlen₁
        refine ⟨_, rfl, trivial, hcur, ?_, hheap, htrace, ?_⟩
        · rw [Server.items_setPatternClients, List.length_modify, hlen₁]
        · rw [Server.core_setPatterns_of_items (next_items _), Server.core_setPatternClients, hcore,
            mapBefore_succ]
          -- the list of the pattern at `i` is still what it was
          have hi₁ : i < s₁.patterns.items.length := by omega
          have htop : s.core.topics[i]? = some (s₁.patterns.items[i]).topic := by
            have : s₁.core.topics[i]? = s.core.topics[i]? := by rw [hcore, mapBefore_getElem?]
            rw [← this]
            simp [Server.core, List.getElem?_eq_getElem hi₁]
          have hpc : s₁.patternClients i = (s₁.patterns.items[i]).clients :=
            Server.patternClients_of_getElem? (List.getElem?_eq_getElem hi₁)
          have hnodup : (s₁.patternClients i).items.Nodup := by
            rw [hpc]
            exact hn _ (List.mem_of_getElem? htop)
          have hmod : (mapBefore off i s.core.topics).modify i (fun t =>
              { t with clients := ((s₁.patternClients i).remove (· = r)).items }) =
              (mapBefore off i s.core.topics).modify i off := by
            refine List.ext_getElem? fun j => ?_
            simp only [List.getElem?_modify]
            by_cases hij : i = j
            · subst hij
              rw [mapBefore_getElem?, htop, remove_items_eq_filter hnodup, hpc]
              simp [off, Pattern.topic]
            · simp [hij]
          rw [hmod])
      hf
  refine ⟨s', hs', hheap, htrace, ?_⟩
  rw [hcore, hlen, mapBefore_length]

/-- `zhash_delete`: the session is gone, and with it its timer and its subscriptions. -/
theorem zhashDelete_spec {c : SClient} (hc : s.heap r = some c)
    (hlisted : s.clients c.hashkey = some r) (haw : c.wakeupTimer = 0) (hexp : c.expiryTimer ≠ 0)
    (hf : s.patterns.items.length ≤ f) (hn : ∀ t ∈ s.core.topics, t.clients.Nodup) :
    ∃ s', zhashDelete f c.hashkey s = some s' ∧ s'.core = s.core.drop r c.toSession ∧
      s'.trace = s.trace ++ [.destroy r] := by
  obtain ⟨s₁, hs₁, hheap, htrace, hcore⟩ := clientTerminate_spec (r := r) (f := f)
    (s := zloopTimerEnd c.expiryTimer
      { s with clients := Function.update s.clients c.hashkey none }) hf hn
  refine ⟨{ s₁ with heap := Function.update s₁.heap r none }.emit [.destroy r], ?_, ?_, ?_⟩
  · simp only [zhashDelete, hlisted, sClientDestroy, hc, Option.bind_eq_bind, Option.bind_some,
      endTimer, haw, if_true, hexp, if_false, hs₁, Server.note_eq_emit]
  · rw [Server.core_emit]
    have hsession : ({ s₁ with heap := Function.update s₁.heap r none } : Server).session =
        Function.update s.session r none := by
      funext r'
      by_cases h : r' = r
      · subst h; simp [Server.session]
      · simp [Server.session, h, hheap, zloopTimerEnd]
    have hfields := Core.mk.inj hcore
    obtain ⟨h₁, h₂, h₃, h₄, h₅, h₆, h₇, -, h₈, h₉, h₁₀⟩ := hfields
    ext1 <;> first | exact hsession | assumption
  · rw [Server.trace_emit]
    exact congrArg (· ++ [Obs.destroy r]) htrace

/-! ## A new subscription -/

/-- In a list of topics with different expressions, changing the one found is changing all those
with its expression. The source stops at the first; the core, like the abstract broker, has no
first. -/
theorem modify_findIdx_eq_map {topics : List Topic} {expression : CStr} {i : Nat}
    (hn : (topics.map Topic.expression).Nodup)
    (hi : topics.findIdx? (·.expression = expression) = some i) (f : Topic → Topic) :
    topics.modify i f = topics.map fun t => if t.expression = expression then f t else t := by
  obtain ⟨hlt, hpi, -⟩ := List.findIdx?_eq_some_iff_getElem.mp hi
  refine List.ext_getElem? fun j => ?_
  simp only [List.getElem?_modify, List.getElem?_map]
  cases hj : topics[j]? with
  | none => rfl
  | some t =>
    obtain ⟨hjl, rfl⟩ := List.getElem?_eq_some_iff.mp hj
    by_cases hij : i = j
    · subst hij
      have : topics[i].expression = expression := by simpa using hpi
      simp [this]
    · have : topics[j].expression ≠ expression := by
        intro he
        have hpi : topics[i].expression = expression := by simpa using hpi
        refine hij ((@List.Nodup.getElem_inj_iff _ _ hn i (by simpa using hlt) j
          (by simpa using hjl)).mp ?_)
        simp [he, hpi]
      simp [hij, this]

/-- `store_new_subscription`. Three cases: a new pattern, a pattern with the client on its list already,
and one without. In the first the pattern is stored only if `zrex_new` compiles its expression, for
`zlist_append` ignores a `NULL`. -/
theorem storeNewSubscription_spec {c : SClient} {q : Request} {expression : CStr}
    (hc : s.heap r = some c) (hq : c.request = some q) (he : q.msg.expression = some expression)
    (hf : s.patterns.items.length ≤ f)
    (hfc : ∀ p ∈ s.patterns.items, p.clients.items.length ≤ f)
    (hn : (s.core.topics.map Topic.expression).Nodup) :
    ∃ s', storeNewSubscription z f r s = some s' ∧ s'.heap = s.heap ∧ s'.trace = s.trace ∧
      s'.core = s.core.subscribe z r expression := by
  have hseek := seek_eq (fun p : Pattern => p.expression = expression) (l := s.patterns) hf
  -- the search over the patterns and the search over the topics find the same position
  have hidx : s.core.topics.findIdx? (·.expression = expression) =
      s.patterns.items.findIdx? (fun p => p.expression = expression) := by
    simp only [Server.core, List.findIdx?_map]
    rfl
  cases hi : s.patterns.items.findIdx? (fun p => p.expression = expression) with
  | none =>
    rw [hi] at hseek hidx
    have hnot : expression ∉ s.core.topics.map Topic.expression := by
      rw [List.findIdx?_eq_none_iff] at hidx
      intro hm
      obtain ⟨t, ht, hte⟩ := List.mem_map.mp hm
      exact absurd (hidx t ht) (by simp [hte])
    refine ⟨s.setPatterns
      (zlistAppend { s.patterns with cursor := none } (sPatternNew z expression r)), ?_, rfl, rfl, ?_⟩
    · simp only [storeNewSubscription, hc, hq, he, hseek, Option.bind_eq_bind, Option.bind_some,
        Server.patterns_setPatterns, Server.setPatterns_setPatterns]
    · rw [Server.core_setPatterns]
      simp only [Core.subscribe, if_neg hnot]
      cases hz : z.zrexNew expression with
      | none => simp [sPatternNew, hz, zlistAppend, Server.core]
      | some rex => simp [sPatternNew, hz, zlistAppend, Server.core, Pattern.topic]
  | some i =>
    rw [hi] at hseek hidx
    obtain ⟨hlt, hpi, -⟩ := List.findIdx?_eq_some_iff_getElem.mp hi
    obtain ⟨s₁, hs₁⟩ : ∃ s₁, s₁ = s.setPatterns { s.patterns with cursor := some i } := ⟨_, rfl⟩
    have hpc : s₁.patternClients i = s.patterns.items[i].clients := by
      rw [hs₁]
      exact Server.patternClients_of_getElem? (List.getElem?_eq_getElem hlt)
    have hseekc := seek_eq (fun x : Ref => x = r) (l := s₁.patternClients i)
      (show _ ≤ f by rw [hpc]; exact hfc _ (List.getElem_mem hlt))
    have hmem : expression ∈ s.core.topics.map Topic.expression := by
      refine List.mem_map.mpr ⟨s.patterns.items[i].topic, ?_, by simpa [Pattern.topic] using hpi⟩
      exact List.mem_map_of_mem (List.getElem_mem hlt)
    have htop : s.core.topics[i]? = some s.patterns.items[i].topic := by
      simp [Server.core, List.getElem?_eq_getElem hlt]
    have hcore₁ : s₁.core = s.core := by
      rw [hs₁]
      exact Server.core_setPatterns_of_items rfl
    have hrun : storeNewSubscription z f r s =
        some (s₁.setPatternClients i
          (if ((s₁.patternClients i).items.findIdx? (fun x => x = r)).isNone then
            CursorList.append { s₁.patternClients i with
              cursor := (s₁.patternClients i).items.findIdx? (fun x => x = r) } r
          else { s₁.patternClients i with
            cursor := (s₁.patternClients i).items.findIdx? (fun x => x = r) })) := by
      simp only [storeNewSubscription, hc, hq, he, hseek, Option.bind_eq_bind, Option.bind_some,
        ← hs₁, hseekc]
    refine ⟨_, hrun, by simp [hs₁], by simp [hs₁], ?_⟩
    rw [Server.core_setPatternClients, hcore₁]
    simp only [Core.subscribe, if_pos hmem]
    have hmap : (s.core.topics.map fun t =>
        if t.expression = expression ∧ r ∉ t.clients then { t with clients := t.clients ++ [r] }
        else t) =
        s.core.topics.map fun t => if t.expression = expression then
          (if r ∉ t.clients then { t with clients := t.clients ++ [r] } else t) else t := by
      refine List.map_congr_left fun t _ => ?_
      by_cases h₁ : t.expression = expression <;> simp [h₁]
    rw [hmap, ← modify_findIdx_eq_map hn hidx
      (fun t => if r ∉ t.clients then { t with clients := t.clients ++ [r] } else t)]
    congr 1
    refine List.ext_getElem? fun j => ?_
    simp only [List.getElem?_modify]
    by_cases hij : i = j
    · subst hij
      rw [htop, hpc]
      by_cases hm : r ∈ s.patterns.items[i].clients.items
      · have hfound : (s.patterns.items[i].clients.items.findIdx? (fun x => x = r)).isNone = false := by
          rw [Option.isNone_eq_false_iff, List.findIdx?_isSome, List.any_eq_true]
          exact ⟨r, hm, by simp⟩
        simp [hfound, hm, Pattern.topic]
      · have hfound : s.patterns.items[i].clients.items.findIdx? (fun x => x = r) = none := by
          rw [List.findIdx?_eq_none_iff]
          rintro x hx
          have : x ≠ r := fun h => hm (h ▸ hx)
          simpa using this
        simp [hfound, hm, Pattern.topic]
    · simp [hij]

/-! ## The transitions -/

/-- A client whose state machine can be run: no alarm, nothing queued, and a fresh reply. -/
structure Ready (r : Ref) (c : SClient) (s : Server) : Prop where
  heap : s.heap r = some c
  awake : c.wakeupTimer = 0
  mailbox : c.mailbox = .empty
  reply : c.reply = freshReply c.routingId

/-- Between two callbacks every client is ready: that much of the invariant is needed here. -/
theorem Ready.of_idle {σ : Session} (hr : s.core.session r = some σ) (hi : σ.Idle) :
    ∃ c, Ready r c s ∧ c.toSession = σ := by
  obtain ⟨c, hc, rfl⟩ := Server.heap_of_session hr
  exact ⟨c, ⟨hc, hi.awake, hi.mailbox, hi.reply⟩, rfl⟩

/-- HELLO: the client gets its name and is connected. -/
theorem sClientExecute_hello {c : SClient} {q : Request} {identifier : CStr} (h : Ready r c s)
    (hst : c.state = .start) (hq : c.request = some q) (hi : q.msg.identifier = some identifier)
    (hf : s.core.fuel ≤ f) :
    ∃ s', sClientExecute z f (n + 1) r .hello s = some s' ∧
      s'.core = s.core.setSession r
        { c.toSession with identifier := some identifier, state := .connected } ∧
      s'.trace = s.trace ++ (before s.verbose r .start .hello s.patterns ++
        [sent c.routingId (plainReply .helloOk c.routingId)] ++
        after s.verbose r .connected s.patterns) := by
  let c₁ : SClient := { c.entered .hello with identifier := some identifier }
  let s₁ := (s.entered r c .hello).setClient r c₁
  have hc₁ : s₁.heap r = some c₁ := Server.heap_setClient_self _ _ _
  let s₂ := s₁.emit [sent c.routingId (plainReply .helloOk c.routingId)]
  let s₃ := s₂.setClient r { c₁ with state := .connected }
  have h₁ : perform z (sClientExecute z f n) f r .registerNewClient
      (s.entered r c .hello) = some s₁ := by
    simp [perform, registerNewClient, SClient.entered, hq, hi, s₁, c₁]
  have h₂ : perform z (sClientExecute z f n) f r (.send .helloOk) s₁ = some s₂ :=
    sendReply_fresh hc₁ (by decide) rfl h.reply
  have h₃ : perform z (sClientExecute z f n) f r (.become .connected) s₂ = some s₃ := by
    simp only [perform, becomeAction, s₂, Server.heap_emit, hc₁, Option.bind_eq_bind,
      Option.bind_some, s₃]
  have hacts : runActions z f n r (sClientActions c.state .hello) (s.entered r c .hello) =
      some s₃ := by
    rw [hst, sClientActions, runActions_cons (Server.heap_entered _ _) rfl h₁,
      runActions_cons hc₁ rfl h₂, runActions_cons (show s₂.heap r = some c₁ from hc₁) rfl h₃,
      runActions_nil]
  have hrun := sClientExecute_stay h.heap h.awake (Nat.lt_of_lt_of_le s.core.fuel_pos hf)
    (by decide) hacts (Server.heap_setClient_self _ _ _) rfl rfl h.mailbox
  refine ⟨_, hrun, ?_, ?_⟩
  · simp [s₃, s₂, s₁, c₁, Server.entered, SClient.entered]
  · simp [s₃, s₂, s₁, Server.entered, hst]

/-- SUBSCRIBE, which is acknowledged whether or not anything has been stored. -/
theorem sClientExecute_subscribe {c : SClient} {q : Request} {expression : CStr}
    (h : Ready r c s) (hst : c.state = .connected) (hq : c.request = some q)
    (he : q.msg.expression = some expression) (hf : s.core.fuel ≤ f)
    (hn : (s.core.topics.map Topic.expression).Nodup) :
    ∃ s' patterns, sClientExecute z f (n + 1) r .subscribe s = some s' ∧
      s'.core = s.core.subscribe z r expression ∧
      s'.trace = s.trace ++ (before s.verbose r .connected .subscribe s.patterns ++
        [sent c.routingId (plainReply .subscribeOk c.routingId)] ++
        after s.verbose r .connected patterns) := by
  have hcore := Server.core_entered h.heap .subscribe
  obtain ⟨s₁, h₁, hheap₁, htrace₁, hcore₁⟩ := storeNewSubscription_spec (z := z)
    (s := s.entered r c .subscribe) (f := f) (Server.heap_entered _ _) hq he
    (Nat.le_trans s.patterns_length_le hf)
    (fun p hp => Nat.le_trans (Server.pattern_clients_length_le (s := s) hp) hf)
    (by rw [hcore]; exact hn)
  have hc₁ : s₁.heap r = some (c.entered .subscribe) := by rw [hheap₁]; simp
  have hverbose : s₁.verbose = s.verbose := by
    rw [← Server.core_verbose, hcore₁]
    simp only [Core.subscribe, hcore, Server.core_verbose]
  have h₁' : perform z (sClientExecute z f n) f r .storeNewSubscription
      (s.entered r c .subscribe) = some s₁ := h₁
  have h₂ : perform z (sClientExecute z f n) f r (.send .subscribeOk) s₁ =
      some (s₁.emit [sent c.routingId (plainReply .subscribeOk c.routingId)]) :=
    sendReply_fresh hc₁ (by decide) rfl h.reply
  have hacts : runActions z f n r (sClientActions c.state .subscribe)
      (s.entered r c .subscribe) =
      some (s₁.emit [sent c.routingId (plainReply .subscribeOk c.routingId)]) := by
    rw [hst, sClientActions, runActions_cons (Server.heap_entered _ _) rfl h₁',
      runActions_cons hc₁ rfl h₂, runActions_nil]
  have hrun := sClientExecute_stay h.heap h.awake (Nat.lt_of_lt_of_le s.core.fuel_pos hf)
    (by decide) hacts hc₁ rfl rfl h.mailbox
  refine ⟨_, s₁.patterns, hrun, ?_, ?_⟩
  · rw [Server.core_emit, Server.core_emit, hcore₁, hcore]
  · simp [htrace₁, Server.entered, hst, hverbose, SClient.entered]

/-- DIRECT, which has a transition with no action. -/
theorem sClientExecute_direct {c : SClient} (h : Ready r c s) (hst : c.state = .connected)
    (hf : s.core.fuel ≤ f) :
    ∃ s', sClientExecute z f (n + 1) r .direct s = some s' ∧ s'.core = s.core ∧
      s'.trace = s.trace ++ (before s.verbose r .connected .direct s.patterns ++
        after s.verbose r .connected s.patterns) := by
  have hacts : runActions z f n r (sClientActions c.state .direct) (s.entered r c .direct) =
      some (s.entered r c .direct) := by rw [hst]; rfl
  have hrun := sClientExecute_stay h.heap h.awake (Nat.lt_of_lt_of_le s.core.fuel_pos hf)
    (by decide) hacts (Server.heap_entered _ _) rfl rfl h.mailbox
  refine ⟨_, hrun, ?_, ?_⟩
  · rw [Server.core_emit, Server.core_entered h.heap]
  · simp [Server.entered, hst, SClient.entered]

/-- What the external state answers before it terminates the client. -/
def externalReply : Event → List MsgId
  | .goodbye => [.goodbyeOk]
  | .expired => []
  | _ => [.invalid]

/-- It answers, if it answers, before it terminates. -/
theorem externalActions_eq (event : Event) :
    externalActions event = (externalReply event).map Action.send ++ [.terminate] := by
  cases event <;> rfl

/-- Every event that ends the client, in any state: the answer of the external state, if any, and
then nothing is left of the client. It is used for a message that the connected state does not expect,
for one that is not a HELLO from a new client, and for the expiry. -/
theorem sClientExecute_external {c : SClient} {event : Event} (h : Ready r c s)
    (hacts : sClientActions c.state event = externalActions event) (hev : event ≠ .null)
    (hlisted : s.core.clients c.hashkey = some r) (hexp : c.expiryTimer ≠ 0)
    (hf : s.core.fuel ≤ f) (hn : ∀ t ∈ s.core.topics, t.clients.Nodup) :
    ∃ s' patterns, sClientExecute z f (n + 1) r event s = some s' ∧
      s'.core = s.core.drop r c.toSession ∧
      s'.trace = s.trace ++ (before s.verbose r c.state event s.patterns ++
        (externalReply event).map (fun id => sent c.routingId (plainReply id c.routingId)) ++
        [.destroy r, .leave r patterns]) := by
  let replies := (externalReply event).map fun id => sent c.routingId (plainReply id c.routingId)
  let s₁ := (s.entered r c event).emit replies
  have hc₁ : s₁.heap r = some (c.entered event) := Server.heap_entered _ _
  let c₂ : SClient := { c.entered event with nextEvent := .terminate }
  let s₂ := s₁.setClient r c₂
  have hc₂ : s₂.heap r = some c₂ := Server.heap_setClient_self _ _ _
  have hsend : ∀ id, externalReply event = [id] → id ≠ .unset →
      perform z (sClientExecute z f n) f r (.send id) (s.entered r c event) =
        some s₁ := by
    intro id hid hne
    have : s₁ = (s.entered r c event).emit [sent c.routingId (plainReply id c.routingId)] := by
      simp [s₁, replies, hid]
    rw [this]
    exact sendReply_fresh (Server.heap_entered c event) hne rfl h.reply
  have hterm : perform z (sClientExecute z f n) f r .terminate s₁ = some s₂ := by
    simp only [perform, terminateAction, hc₁, Option.bind_eq_bind, Option.bind_some, s₂, c₂]
  have hrunActs : runActions z f n r (sClientActions c.state event) (s.entered r c event) =
      some s₂ := by
    rw [hacts, externalActions_eq]
    -- at most one reply
    have hone : externalReply event = [] ∨ ∃ id, externalReply event = [id] ∧ id ≠ .unset := by
      cases event <;> simp [externalReply]
    rcases hone with hnil | ⟨id, hid, hne⟩
    · have hs₁ : s₁ = s.entered r c event := by simp [s₁, replies, hnil]
      rw [hnil, List.map_nil, List.nil_append,
        runActions_cons (Server.heap_entered _ _) rfl (by rw [← hs₁]; exact hterm), runActions_nil]
    · rw [hid, List.map_cons, List.map_nil, List.cons_append, List.nil_append,
        runActions_cons (Server.heap_entered _ _) rfl (hsend id hid hne),
        runActions_cons hc₁ rfl hterm, runActions_nil]
  have hcore₂ : s₂.core = s.core := by
    have : s₂.core = s₁.core := Server.core_setClient_of_eq hc₁ rfl
    rw [this, Server.core_emit, Server.core_entered h.heap]
  obtain ⟨s₃, h₃, hcore₃, htrace₃⟩ := zhashDelete_spec (f := f) hc₂
    (show s₂.clients c.hashkey = some r from hlisted) h.awake hexp
    (Nat.le_trans s.patterns_length_le hf) (by rw [hcore₂]; exact hn)
  have hrun := sClientExecute_end h.heap h.awake (Nat.lt_of_lt_of_le s.core.fuel_pos hf) hev
    hrunActs hc₂ rfl rfl h₃
  refine ⟨_, s₃.patterns, hrun, ?_, ?_⟩
  · rw [Server.core_emit, hcore₃, hcore₂]
    rfl
  · simp [htrace₃, s₂, s₁, replies, Server.entered]

end Zccp.Broker
