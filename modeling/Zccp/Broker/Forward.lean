import Zccp.Broker.Pass

/-!
# `Zccp/Broker/Forward.lean` — forwarding

`forward_to_subscribers` walks two nested lists and runs the state machine of every client it
meets on the way. Both loops keep their place in the lists themselves, so the loops are only
right if a nested pass gives the lists back exactly as it found them. `sClientExecute_forward`
is that fact: the nested pass adds its observations to the trace, and otherwise touches nothing
but the registers of the one client it runs.

From it and the rule for loops (`forEach_spec`) follows the specification of the whole PUBLISH
(`sClientExecute_publish`): one visit for each client of each matching pattern, the publisher
left out, in the order of the lists.
-/

set_option autoImplicit false

namespace Zccp.Broker

open Lib CursorList

variable {z : Czmq} {f n : Nat} {s : Server}

/-! ## The message being forwarded -/

/-- What `get_content_to_publish` copies into a reply. -/
structure Relay where
  sender : CStr
  address : CStr
  headers : Option Zhash
  content : Option (List Frame)
deriving DecidableEq

/-- The DELIVER it makes of it. -/
def Relay.deliver (z : Czmq) (m : Relay) (routingId : Frame) : ZccpMsg :=
  { zccpMsgNew .deliver with
    routingId := some routingId
    sender := some (z.zsysVprintf m.sender)
    address := some (z.zsysVprintf m.address)
    headers := m.headers
    content := m.content }

/-- The request at the end of a pointer into one. -/
def Core.derefRequest (k : Core) (p : Option (Ref × Ref)) : Option ZccpMsg := do
  let (r, addr) ← p
  let σ ← k.session r
  let request ← σ.request
  if request.addr = addr then some request.msg else none

/-- The message that the server's pointers lead to. -/
structure Core.Points (k : Core) (m : Relay) : Prop where
  sender : ∃ r σ, k.sender = some r ∧ k.session r = some σ ∧ σ.identifier = some m.sender
  address : ∃ msg, k.derefRequest k.address = some msg ∧ msg.address = some m.address
  content : ∃ msg, k.derefRequest k.content = some msg ∧ msg.content = m.content
  headers : k.headers = m.headers

theorem derefRequest_core (s : Server) (p : Option (Ref × Ref)) :
    derefRequest s p = s.core.derefRequest p := by
  cases p with
  | none => rfl
  | some p =>
    simp only [derefRequest, Core.derefRequest, Option.bind_eq_bind, Option.bind_some, Server.core,
      Server.session]
    cases s.heap p.1 <;> rfl

/-! ## The nested pass -/

/-- The observations of one nested pass. The pattern list is the same, cursors included, on the
way in and on the way out. -/
def forwardPass (z : Czmq) (verbose : Bool) (m : Relay) (client : Ref) (routingId : Frame)
    (patterns : CursorList Pattern) : List Obs :=
  before verbose client .connected .forward patterns ++
    [.relay client m.sender m.address m.content, sent routingId (m.deliver z routingId)] ++
    after verbose client .connected patterns

/-- **A nested pass** is one iteration, sends one DELIVER, and leaves the server as it was, but
for the registers of the client. -/
theorem sClientExecute_forward {d : Ref} {c : SClient} {m : Relay} (h : Ready d c s)
    (hst : c.state = .connected) (hp : s.core.Points m) (hf : 0 < f) :
    ∃ s', sClientExecute z f (n + 1) d .forward s = some s' ∧ s'.core = s.core ∧
      s'.patterns = s.patterns ∧ (∀ r, r ≠ d → s'.heap r = s.heap r) ∧
      s'.trace = s.trace ++ forwardPass z s.verbose m d c.routingId s.patterns := by
  have hcore := Server.core_entered h.heap .forward
  let c₁ : SClient := { c.entered .forward with
    reply := (((c.reply.setSender z m.sender).setAddress z m.address).setHeaders
      m.headers).setContent m.content }
  let s₁ := ((s.entered d c .forward).setClient d c₁).emit
    [.relay d m.sender m.address m.content]
  let s₂ := (s.entered d c .forward).emit
    [.relay d m.sender m.address m.content, sent c.routingId (m.deliver z c.routingId)]
  have h₁ : perform z (sClientExecute z f n) f d .getContentToPublish
      (s.entered d c .forward) = some s₁ := by
    obtain ⟨r, σ, hr, hσ, hi⟩ := hp.sender
    obtain ⟨ma, hma, ha⟩ := hp.address
    obtain ⟨mc, hmc, hct⟩ := hp.content
    have hsender : derefSender (s.entered d c .forward) = some m.sender := by
      have hr' : (s.entered d c .forward).sender = some r := hr
      obtain ⟨c', hc', rfl⟩ := Server.heap_of_session (by rw [hcore]; exact hσ)
      simp only [derefSender, hr', hc', Option.bind_eq_bind, Option.bind_some, hi]
    have haddress : derefRequest (s.entered d c .forward) (s.entered d c .forward).address =
        some ma := by
      rw [derefRequest_core, hcore]
      exact hma
    have hcontent : derefRequest (s.entered d c .forward) (s.entered d c .forward).content =
        some mc := by
      rw [derefRequest_core, hcore]
      exact hmc
    have hheaders : (s.entered d c .forward).headers = m.headers := hp.headers
    simp only [perform, getContentToPublish, hcontent, Server.heap_entered, hsender, haddress, ha,
      hheaders, Option.bind_eq_bind, Option.bind_some, hct, Server.note_eq_emit, s₁, c₁,
      SClient.entered]
  have h₂ : perform z (sClientExecute z f n) f d (.send .deliver) s₁ = some s₂ := by
    have hc₁ : s₁.heap d = some c₁ := Server.heap_setClient_self _ _ _
    have hrid : c₁.reply.routingId = some c.routingId := by
      show c.reply.routingId = _
      rw [h.reply]
      rfl
    have hmsg : c₁.reply.setId .deliver = m.deliver z c.routingId := by
      simp only [c₁, h.reply]
      rfl
    -- the reply is fresh again, so the client is as it was
    have hback : ({ c₁ with reply := freshReply c₁.routingId } : SClient) = c.entered .forward := by
      show ({ c.entered .forward with reply := freshReply c.routingId } : SClient) = _
      rw [← h.reply]
      rfl
    show sendReply .deliver d s₁ = some s₂
    rw [sendReply_eq hc₁ (by decide) hrid, hmsg, hback]
    simp only [s₁, s₂, Server.setClient_emit, Server.setClient_setClient, Server.emit_emit,
      Server.setClient_heap (Server.heap_entered c .forward), List.singleton_append]
  have hacts : runActions z f n d (sClientActions c.state .forward)
      (s.entered d c .forward) = some s₂ := by
    rw [hst, sClientActions, runActions_cons (Server.heap_entered _ _) rfl h₁,
      runActions_cons (show s₁.heap d = some c₁ from Server.heap_setClient_self _ _ _) rfl h₂,
      runActions_nil]
  have hrun := sClientExecute_stay h.heap h.awake hf (by decide) hacts
    (show s₂.heap d = some (c.entered .forward) from Server.heap_entered _ _) rfl rfl h.mailbox
  refine ⟨_, hrun, hcore, rfl, ?_, ?_⟩
  · intro r hr
    simp [s₂, Server.entered, hr]
  · simp [s₂, Server.entered, forwardPass, hst, SClient.entered]

/-! ## The two loops -/

/-- A nested pass that the loops start: for which pattern, for which client, and what the pattern
list is then. -/
structure Visit where
  position : Nat
  client : Ref
  patterns : CursorList Pattern

/-- What a visit adds to the trace. -/
def Visit.trace (z : Czmq) (k : Core) (m : Relay) (v : Visit) : List Obs :=
  forwardPass z k.verbose m v.client (k.routingId v.client) v.patterns

/-- A property of all that a visit shows. -/
theorem Visit.forall_mem_trace {P : Obs → Prop} {k : Core} {m : Relay} {v : Visit} :
    (∀ o ∈ v.trace z k m, P o) ↔
      (∀ o ∈ before k.verbose v.client .connected .forward v.patterns, P o) ∧
        P (.relay v.client m.sender m.address m.content) ∧
        P (sent (k.routingId v.client) (m.deliver z (k.routingId v.client))) ∧
        ∀ o ∈ after k.verbose v.client .connected v.patterns, P o := by
  rw [Visit.trace, forwardPass, List.forall_mem_append, List.forall_mem_append,
    List.forall_mem_cons, List.forall_mem_singleton, and_assoc, and_assoc]

/-- The visits to make for one topic. -/
def topicTargets (z : Czmq) (r : Ref) (address : CStr) (i : Nat) (t : Topic) : List (Nat × Ref) :=
  if z.zrexMatches t.rex address then (t.clients.filter (· ≠ r)).map fun d => (i, d) else []

/-- The visits to make, in order. -/
def Core.targets (z : Czmq) (r : Ref) (address : CStr) (k : Core) : List (Nat × Ref) :=
  (k.topics.mapIdx (topicTargets z r address)).flatten

/-- Visits made for certain targets, as the trace shows them. -/
def Visited (z : Czmq) (k : Core) (m : Relay) (targets : List (Nat × Ref)) (s s' : Server) : Prop :=
  ∃ visits : List Visit, visits.map (fun v => (v.position, v.client)) = targets ∧
    s'.trace = s.trace ++ visits.flatMap (Visit.trace z k m)

theorem Visited.refl (z : Czmq) (k : Core) (m : Relay) {s s' : Server} (h : s'.trace = s.trace) :
    Visited z k m [] s s' := ⟨[], rfl, by simp [h]⟩

theorem Visited.trans {k : Core} {m : Relay} {ts ts' : List (Nat × Ref)} {s₁ s₂ s₃ : Server}
    (h : Visited z k m ts s₁ s₂) (h' : Visited z k m ts' s₂ s₃) :
    Visited z k m (ts ++ ts') s₁ s₃ := by
  obtain ⟨vs, hvs, ht⟩ := h
  obtain ⟨vs', hvs', ht'⟩ := h'
  exact ⟨vs ++ vs', by rw [List.map_append, hvs, hvs'], by
    rw [ht', ht, List.flatMap_append, List.append_assoc]⟩

/-- Only the trace counts. -/
theorem Visited.congr {k : Core} {m : Relay} {ts : List (Nat × Ref)} {s₁ s₂ s₃ : Server}
    (h : Visited z k m ts s₁ s₂) (he : s₃.trace = s₂.trace) : Visited z k m ts s₁ s₃ := by
  obtain ⟨vs, hvs, ht⟩ := h
  exact ⟨vs, hvs, by rw [he, ht]⟩

/-- What stays as it is through both loops. -/
structure Kept (r : Ref) (c : SClient) (k : Core) (s : Server) : Prop where
  core : s.core = k
  publisher : s.heap r = some c

/-- The body of the inner loop, at a client that may be the publisher. -/
theorem forwardToClient_spec {r d : Ref} {c : SClient} {k : Core} {m : Relay} {i j : Nat}
    {s : Server} (hk : Kept r c k s) (hi : Inv z k) (hp : k.Points m) (hf : 0 < f)
    (hd : (s.patternClients i).items[j]? = some d) (hlive : ∃ σ, k.session d = some σ) :
    ∃ s', forwardToClient (sClientExecute z f (n + 1)) r i j s = some s' ∧ Kept r c k s' ∧
      s'.patterns = s.patterns ∧
      Visited z k m (([d].filter (· ≠ r)).map fun d => (i, d)) s s' := by
  by_cases hself : d = r
  · refine ⟨s, by simp [forwardToClient, hd, hself], hk, rfl, ?_⟩
    simpa [hself] using Visited.refl z k m (s := s) rfl
  · obtain ⟨σ, hσ⟩ := hlive
    obtain ⟨cd, hready, rfl⟩ := Ready.of_idle (s := s) (by rw [hk.core]; exact hσ) (hi.idle d σ hσ)
    obtain ⟨s', hs', hcore, hpat, hheap, htrace⟩ := sClientExecute_forward (z := z) (f := f)
      (n := n) hready (hi.idle d _ hσ).connected (by rw [hk.core]; exact hp) hf
    refine ⟨s', ?_, ⟨by rw [hcore, hk.core], by rw [hheap r (Ne.symm hself), hk.publisher]⟩, hpat, ?_⟩
    · simp [forwardToClient, hd, hself, hs']
    · have hrid : k.routingId d = cd.routingId := by simp only [Core.routingId, hσ]
      have hverbose : k.verbose = s.verbose := by rw [← hk.core, Server.core_verbose]
      refine ⟨[⟨i, d, s.patterns⟩], by simp [hself], ?_⟩
      rw [htrace]
      simp [Visit.trace, hrid, hverbose]

/-- The inner loop. -/
theorem forwardClients_spec {r : Ref} {c : SClient} {k : Core} {m : Relay} {i : Nat} {t : Topic}
    {s : Server} (hk : Kept r c k s) (hi : Inv z k) (hp : k.Points m) (hf : k.fuel ≤ f)
    (ht : k.topics[i]? = some t) (hcur : s.patterns.cursor = some i) :
    ∃ s', forEach (Server.patternClients i) (Server.setPatternClients i)
        (forwardToClient (sClientExecute z f (n + 1)) r i) f s = some s' ∧
      Kept r c k s' ∧ s'.patterns.cursor = some i ∧
      Visited z k m ((t.clients.filter (· ≠ r)).map fun d => (i, d)) s s' := by
  -- in any server with this core, the client list at `i` has the items of `t`
  have hitems : ∀ s₁ : Server, s₁.core = k → i < s₁.patterns.items.length ∧
      (s₁.patternClients i).items = t.clients := by
    intro s₁ hs₁
    have : s₁.core.topics[i]? = some t := by rw [hs₁, ht]
    simp only [Server.core, List.getElem?_map, Option.map_eq_some_iff] at this
    obtain ⟨p, hp, rfl⟩ := this
    exact ⟨(List.getElem?_eq_some_iff.mp hp).1, by
      rw [Server.patternClients_of_getElem? hp]; rfl⟩
  have hmove : ∀ (s₁ : Server) (l : CursorList Ref), Kept r c k s₁ →
      l.items = (s₁.patternClients i).items → Kept r c k (s₁.setPatternClients i l) :=
    fun s₁ l h hl => ⟨by rw [Server.core_setPatternClients_of_items hl, h.core], h.publisher⟩
  obtain ⟨hlt, hit⟩ := hitems s hk.core
  obtain ⟨s', hs', ⟨hk', hcur', hv⟩, -, -⟩ :=
    forEach_spec (Q := fun s => i < s.patterns.items.length)
      (Server.patternClients i) (Server.setPatternClients i)
      (fun s₁ h l => Server.patternClients_setPatternClients h l)
      (forwardToClient (sClientExecute z f (n + 1)) r i)
      (P := fun j s₁ => Kept r c k s₁ ∧ s₁.patterns.cursor = some i ∧
        Visited z k m (((t.clients.take j).filter (· ≠ r)).map fun d => (i, d)) s s₁)
      (s := s) hlt
      ⟨hmove s _ hk (first_items _), hcur, Visited.refl z k m rfl⟩
      (by
        rintro j s₁ hj ⟨hk₁, hcur₁, hv₁⟩ hjc -
        obtain ⟨hlt₁, hit₁⟩ := hitems s₁ hk₁.core
        have hjt : j < t.clients.length := by rw [hit] at hj; exact hj
        obtain ⟨s₂, hs₂, hk₂, hpat₂, hv₂⟩ := forwardToClient_spec (z := z) (f := f)
          (n := n) (i := i) (j := j) (d := t.clients[j]) hk₁ hi hp
          (Nat.lt_of_lt_of_le k.fuel_pos hf)
          (by rw [hit₁]; exact List.getElem?_eq_getElem hjt)
          (hi.live t (List.mem_of_getElem? ht) _ (List.getElem_mem hjt))
        have hpc : s₂.patternClients i = s₁.patternClients i := by
          simp only [Server.patternClients, hpat₂]
        refine ⟨s₂, hs₂, by rw [hpat₂]; exact hlt₁, by rw [hpc]; exact hjc,
          by rw [hpc, hit₁, hit], hmove s₂ _ hk₂ (next_items _), ?_, ?_⟩
        · rw [Server.cursor_setPatternClients, hpat₂, hcur₁]
        · have hadd := (hv₁.trans hv₂).congr
            (show (s₂.setPatternClients i (s₂.patternClients i).next).trace = s₂.trace from rfl)
          rw [List.take_add_one, List.getElem?_eq_getElem hjt]
          simpa only [Option.toList, List.filter_append, List.map_append] using hadd)
      (show _ ≤ f by rw [hit]; exact Nat.le_trans (Core.clients_length_le (List.mem_of_getElem? ht)) hf)
  rw [hit, List.take_length] at hv
  exact ⟨s', hs', hk', hcur', hv⟩

/-- The body of the outer loop. -/
theorem forwardPattern_spec {r : Ref} {c : SClient} {k : Core} {m : Relay} {q : Request} {i : Nat}
    {t : Topic} {s : Server} (hk : Kept r c k s) (hi : Inv z k) (hp : k.Points m)
    (hf : k.fuel ≤ f) (hq : c.request = some q) (ha : q.msg.address = some m.address)
    (ht : k.topics[i]? = some t) (hcur : s.patterns.cursor = some i) :
    ∃ s', forwardPattern z (sClientExecute z f (n + 1)) f r i s = some s' ∧
      Kept r c k s' ∧ s'.patterns.cursor = some i ∧
      Visited z k m (topicTargets z r m.address i t) s s' := by
  have htop : s.core.topics[i]? = some t := by rw [hk.core, ht]
  simp only [Server.core, List.getElem?_map, Option.map_eq_some_iff] at htop
  obtain ⟨p, hp', rfl⟩ := htop
  have hbody : forwardPattern z (sClientExecute z f (n + 1)) f r i s =
      if z.zrexMatches p.rex m.address then
        forEach (Server.patternClients i) (Server.setPatternClients i)
          (forwardToClient (sClientExecute z f (n + 1)) r i) f s
      else some s := by
    simp only [forwardPattern, hp', hk.publisher, hq, ha, Option.bind_eq_bind, Option.bind_some]
  by_cases hm : z.zrexMatches p.rex m.address = true
  · obtain ⟨s', hs', hk', hcur', hv⟩ := forwardClients_spec (z := z) (n := n) hk hi hp hf ht
      hcur
    refine ⟨s', by rw [hbody, if_pos hm, hs'], hk', hcur', ?_⟩
    have : topicTargets z r m.address i p.topic =
        (p.topic.clients.filter (· ≠ r)).map fun d => (i, d) := if_pos hm
    rw [this]
    exact hv
  · refine ⟨s, by rw [hbody, if_neg hm], hk, hcur, ?_⟩
    have : topicTargets z r m.address i p.topic = [] := if_neg hm
    rw [this]
    exact Visited.refl z k m rfl

/-- **`forward_to_subscribers`** visits exactly the targets, in order. -/
theorem forwardToSubscribers_spec {r : Ref} {c : SClient} {k : Core} {m : Relay} {q : Request}
    (hcore : s.core.point r q.addr = k) (hc : s.heap r = some c) (hi : Inv z k) (hp : k.Points m)
    (hf : k.fuel ≤ f) (hq : c.request = some q) (ha : q.msg.address = some m.address) :
    ∃ s', forwardToSubscribers z (sClientExecute z f (n + 1)) f r s = some s' ∧
      Kept r c k s' ∧ Visited z k m (k.targets z r m.address) s s' := by
  let s₀ : Server := { s with
    sender := some r
    address := some (r, q.addr)
    content := some (r, q.addr) }
  have hcore₀ : s₀.core = k := hcore
  have hlen : s₀.patterns.items.length = k.topics.length := by
    rw [Server.patterns_length, hcore₀]
  have hmove : ∀ (s₁ : Server) (l : CursorList Pattern), Kept r c k s₁ →
      l.items = s₁.patterns.items → Kept r c k (s₁.setPatterns l) :=
    fun s₁ l h hl => ⟨by rw [Server.core_setPatterns_of_items hl, h.core], h.publisher⟩
  obtain ⟨s', hs', ⟨hk', hv⟩, -, -⟩ :=
    forEach_spec (Q := fun _ => True) Server.patterns Server.setPatterns
      (fun _ _ _ => rfl)
      (forwardPattern z (sClientExecute z f (n + 1)) f r)
      (P := fun i s₁ => Kept r c k s₁ ∧
        Visited z k m (((k.topics.take i).mapIdx (topicTargets z r m.address)).flatten) s s₁)
      (s := s₀) trivial
      ⟨hmove s₀ _ ⟨hcore₀, hc⟩ (first_items _), Visited.refl z k m rfl⟩
      (by
        rintro i s₁ hlt ⟨hk₁, hv₁⟩ hcur₁ hlen₁
        have hit : i < k.topics.length := by omega
        obtain ⟨s₂, hs₂, hk₂, hcur₂, hv₂⟩ := forwardPattern_spec (z := z) (n := n) hk₁ hi hp
          hf hq ha (List.getElem?_eq_getElem hit) hcur₁
        refine ⟨s₂, hs₂, trivial, hcur₂, ?_, hmove s₂ _ hk₂ (next_items _), ?_⟩
        · rw [Server.patterns_length, hk₂.core, hlen]
        · have hadd := (hv₁.trans hv₂).congr
            (show (s₂.setPatterns s₂.patterns.next).trace = s₂.trace from rfl)
          rw [List.take_add_one, List.getElem?_eq_getElem hit, Option.toList,
            List.mapIdx_append, List.flatten_append]
          simpa [Nat.min_eq_left (Nat.le_of_lt hit)] using hadd)
      (show _ ≤ f by rw [hlen]; exact Nat.le_trans k.topics_length_le hf)
  rw [hlen, List.take_length] at hv
  refine ⟨s', ?_, hk', hv⟩
  simp only [forwardToSubscribers, hc, hq, Option.bind_eq_bind, Option.bind_some]
  exact hs'

/-- **PUBLISH in the connected state.** -/
theorem sClientExecute_publish {r : Ref} {c : SClient} {q : Request} {m : Relay} (h : Ready r c s)
    (hi : Inv z s.core) (hst : c.state = .connected) (hq : c.request = some q)
    (hid : c.identifier = some m.sender) (ha : q.msg.address = some m.address)
    (hct : q.msg.content = m.content) (hhd : m.headers = none) (hf : s.core.fuel ≤ f) :
    ∃ s' patterns, ∃ visits : List Visit,
      sClientExecute z f (n + 2) r .publish s = some s' ∧
      s'.core = s.core.point r q.addr ∧
      visits.map (fun v => (v.position, v.client)) = s.core.targets z r m.address ∧
      s'.trace = s.trace ++ (before s.verbose r .connected .publish s.patterns ++
        visits.flatMap (Visit.trace z s.core m) ++ after s.verbose r .connected patterns) := by
  have hcore := Server.core_entered h.heap .publish
  have hsession : (s.core.point r q.addr).session r = some c.toSession :=
    Server.session_of_heap h.heap
  have hderef : (s.core.point r q.addr).derefRequest (some (r, q.addr)) = some q.msg := by
    simp only [Core.derefRequest, hsession, hq, Option.bind_eq_bind, Option.bind_some, if_true]
  have hpoints : (s.core.point r q.addr).Points m :=
    { sender := ⟨r, c.toSession, rfl, hsession, hid⟩
      address := ⟨q.msg, hderef, ha⟩
      content := ⟨q.msg, hderef, hct⟩
      headers := hi.headers.trans hhd.symm }
  obtain ⟨s₁, h₁, hk₁, visits, hvisits, htrace₁⟩ := forwardToSubscribers_spec (z := z)
    (f := f) (n := n) (s := s.entered r c .publish) (r := r) (c := c.entered .publish)
    (k := s.core.point r q.addr) (m := m) (q := q) (by rw [hcore]) (Server.heap_entered _ _)
    (hi.point r q.addr) hpoints hf hq ha
  have h₁' : perform z (sClientExecute z f (n + 1)) f r .forwardToSubscribers
      (s.entered r c .publish) = some s₁ := h₁
  have hacts : runActions z f (n + 1) r (sClientActions c.state .publish)
      (s.entered r c .publish) = some s₁ := by
    rw [hst, sClientActions, runActions_cons (Server.heap_entered _ _) rfl h₁', runActions_nil]
  have hrun := sClientExecute_stay h.heap h.awake (Nat.lt_of_lt_of_le s.core.fuel_pos hf)
    (by decide) hacts hk₁.publisher rfl rfl h.mailbox
  have hverbose : s₁.verbose = s.verbose := by
    rw [← Server.core_verbose, hk₁.core]
    rfl
  refine ⟨_, s₁.patterns, visits, hrun, ?_, hvisits, ?_⟩
  · rw [Server.core_emit, hk₁.core]
  · rw [Server.trace_emit, htrace₁]
    have hvt : Visit.trace z (s.core.point r q.addr) m = Visit.trace z s.core m := rfl
    simp [Server.entered, hst, hverbose, SClient.entered, hvt]

end Zccp.Broker
