import Mathlib.Algebra.Order.BigOperators.Group.Finset
import Mathlib.Data.Prod.Lex
import Zccp.Joint.Converge
import Zccp.Network.Delivery

/-!
# `Zccp/Network/Converge.lean` — the whole network comes to rest

Reconnection in company. That a client and the broker find back to each other when nothing new
happens is `Zccp/Joint/Converge.lean`; here all the clients of a network do so at once, and while
they do they publish: every PUBLISH in flight may become any number of DELIVERs for any number of
the others. So no number that a client and its queues come to gets smaller with every delivery.
What does is a pair of numbers: what is in flight apart from DELIVERs, with the sessions, over all
clients, and then the DELIVERs. A delivery to the broker takes the first down (`control`), whatever
it does to the second, and a delivery to a client takes the first down, or leaves it and takes the
second down (`delivers`).
-/

set_option autoImplicit false

namespace Zccp.Network

open Lib Broker
open Joint (View Move Ready Clean Shows cost)

variable {z : Czmq} {peers : Finset Frame} {verbose : Bool} {c d : Frame} {n n' : System}

/-! ## Deliveries -/

/-- A message that is next. -/
inductive Delivery
  | toBroker (c : Frame)
  | toClient (c : Frame)
deriving DecidableEq

def Delivery.label : Delivery → Label
  | toBroker c => .toBroker c
  | toClient c => .toClient c

/-- One delivery. -/
def deliver (z : Czmq) (peers : Finset Frame) (n : System) (d : Delivery) : Option System :=
  step z peers n d.label

/-! ## What a client's part costs -/

/-- Whether a message is a DELIVER. -/
def isDeliver (frames : List Frame) : Bool :=
  match zccpMsgDecode frames with
  | .ok m => m.id = .deliver
  | .error _ => false

/-- What the messages in flight to and from a client cost, apart from DELIVERs, with its session. -/
def control (c : Frame) (j : Joint.System) : Nat :=
  (j.toBroker.map cost).sum + ((j.toClient.filter (! isDeliver ·)).map cost).sum +
    if (j.broker.bind fun s => s.core.entry c).isSome then 2 else 0

/-- The DELIVERs in flight to it. -/
def delivers (j : Joint.System) : Nat := (j.toClient.filter isDeliver).length

theorem cost_of_isDeliver {frames : List Frame} (h : isDeliver frames = true) : cost frames = 1 := by
  unfold isDeliver at h
  unfold cost
  cases hdec : zccpMsgDecode frames with
  | error e =>
    rw [hdec] at h
    cases h
  | ok m =>
    rw [hdec] at h
    have hid : m.id = .deliver := of_decide_eq_true h
    simp only [hid, Joint.price]

/-- The cost of a queue, split by what is a DELIVER: one of those costs one. -/
theorem sum_cost_eq (queue : List (List Frame)) : (queue.map cost).sum =
    ((queue.filter (! isDeliver ·)).map cost).sum + (queue.filter isDeliver).length := by
  induction queue with
  | nil => rfl
  | cons frames queue ih =>
    rw [List.map_cons, List.sum_cons, ih]
    cases h : isDeliver frames with
    | true =>
      rw [List.filter_cons_of_neg (by simp [h]), List.filter_cons_of_pos h, List.length_cons,
        cost_of_isDeliver h]
      omega
    | false =>
      rw [List.filter_cons_of_pos (by simp [h]), List.filter_cons_of_neg (by simp [h]),
        List.map_cons, List.sum_cons]
      omega

/-- The two add up to what the system of two counts. -/
theorem work_eq (c : Frame) (j : Joint.System) : j.work c = control c j + delivers j := by
  unfold Joint.System.work control delivers
  rw [sum_cost_eq j.toClient]
  omega

section Move

variable {v v' : View} {j j' : Joint.System}

/-- Where both parties show something, neither is lost. -/
theorem not_lost_of_shows (h : Shows z c j v) : ¬ j.Lost := by
  obtain ⟨self, hself, -⟩ := h.client
  obtain ⟨s, hs, -⟩ := h.broker
  rintro (hnone | hnone)
  · exact nomatch hself.symm.trans hnone
  · exact nomatch hs.symm.trans hnone

/-- A reply of the broker is a DELIVER only if it hands on a publication. -/
theorem isDeliver_of_replyWire {r : PubSub.Reply CStr CStr (Option (List Frame))}
    (h : isDeliver (Joint.replyWire z c r) = true) : r.IsDeliver := by
  cases hm : zccpMsgDecode (Joint.replyWire z c r) with
  | error e =>
    rw [isDeliver, hm] at h
    cases h
  | ok m =>
    have hid : m.id = replyId r := (zccpMsgDecode_wire_id hm).trans (replyMsg_id z c r)
    simp only [isDeliver, hm, hid] at h
    cases r <;> trivial

/-- What hands on a publication is a DELIVER, or it cannot be read and costs nothing. -/
theorem cost_of_not_isDeliver {r : PubSub.Reply CStr CStr (Option (List Frame))}
    (hr : r.IsDeliver) (h : isDeliver (Joint.replyWire z c r) = false) :
    cost (Joint.replyWire z c r) = 0 := by
  cases hm : zccpMsgDecode (Joint.replyWire z c r) with
  | error e => rw [cost, hm]
  | ok m =>
    have hid : m.id = replyId r := (zccpMsgDecode_wire_id hm).trans (replyMsg_id z c r)
    simp only [isDeliver, hm, hid] at h
    cases r <;> first | exact hr.elim | exact absurd h (by simp [replyId])

/-- The broker answers nobody with a DELIVER. -/
theorem filter_answer (e : Option (PubSub.Member CStr CStr)) (m : ZccpMsg) :
    ((PubSub.answer e m.request).map (Joint.replyWire z c)).filter isDeliver = [] := by
  rw [List.filter_eq_nil_iff]
  intro frames hframes hdeliver
  obtain ⟨r, hr, rfl⟩ := List.mem_map.mp hframes
  have hnot := answer_not_deliver z c e m.request r hr
  rw [replyMsg_id] at hnot
  have := isDeliver_of_replyWire hdeliver
  cases r <;> first | exact this | exact hnot rfl

/-- A delivery to the broker. -/
theorem filter_toBroker (hmove : Move z c v .toBroker v') :
    v'.toClient.filter isDeliver = v.toClient.filter isDeliver := by
  cases hmove with
  | toBroker frames rest m => rw [List.filter_append, filter_answer, List.append_nil]

/-- A delivery to the client. -/
theorem filter_toClient (hmove : Move z c v .toClient v') :
    v'.toClient.filter isDeliver = v.toClient.filter isDeliver ∨
      (v'.toClient.filter isDeliver).length < (v.toClient.filter isDeliver).length ∧
        v'.toBroker = v.toBroker ∧ v'.entry = v.entry ∧
        v'.toClient.filter (! isDeliver ·) = v.toClient.filter (! isDeliver ·) := by
  cases hmove with
  | toClient frames rest m hello queue decoded =>
    simp only [queue]
    cases h : isDeliver frames with
    | false =>
      rw [List.filter_cons_of_neg (by simp [h])]
      exact .inl rfl
    | true =>
      have hid : m.id ≠ .invalid := by
        intro hid
        simp only [isDeliver, decoded, hid] at h
        exact absurd h (by decide)
      rw [List.filter_cons_of_pos h, List.filter_cons_of_neg (by simp [h]), if_neg hid,
        List.append_nil]
      exact .inr ⟨Nat.lt_succ_self _, by simp⟩

/-- Another peer does something. -/
theorem cost_others {input : Input} (hmove : Move z c v (.others input) v') :
    v'.toBroker = v.toBroker ∧ v'.entry = v.entry ∧
      ((v'.toClient.filter (! isDeliver ·)).map cost).sum =
        ((v.toClient.filter (! isDeliver ·)).map cost).sum := by
  cases hmove with
  | others _ replies peer deliver =>
    refine ⟨rfl, rfl, ?_⟩
    have hnone : (((replies.map (Joint.replyWire z c)).filter (! isDeliver ·)).map cost).sum = 0 := by
      rw [List.sum_eq_zero_iff]
      intro k hk
      obtain ⟨frames, hframes, rfl⟩ := List.mem_map.mp hk
      obtain ⟨hmem, hnot⟩ := List.mem_filter.mp hframes
      obtain ⟨r, hr, rfl⟩ := List.mem_map.mp hmem
      exact cost_of_not_isDeliver (deliver r hr) (by simpa using hnot)
    simp only [List.filter_append, List.map_append, List.sum_append, hnone, Nat.add_zero]

theorem control_of_shows (h : Shows z c j v) : control c j =
    (v.toBroker.map cost).sum + ((v.toClient.filter (! isDeliver ·)).map cost).sum +
      if v.entry.isSome then 2 else 0 := by
  obtain ⟨s, hs, -, hentry⟩ := h.broker
  simp only [control, h.toBroker, h.toClient, hs, Option.bind_some, hentry]

theorem delivers_of_shows (h : Shows z c j v) :
    delivers j = (v.toClient.filter isDeliver).length := by
  rw [delivers, h.toClient]

end Move

/-- **A delivery to the broker** leaves less to do, apart from the DELIVERs that it may start for
others. -/
theorem control_toBroker {j j' : Joint.System} (h : Joint.Settling z c j)
    (hstep : Joint.deliver z c j .toBroker = some j') :
    Joint.Settling z c j' ∧ control c j' < control c j := by
  obtain ⟨hsettling, hwork⟩ := h.next hstep
  refine ⟨hsettling, ?_⟩
  obtain ⟨v, hshows, hready⟩ := h
  obtain ⟨v₁, hshows₁, -⟩ := id hsettling
  obtain ⟨v', hmove, hshows'⟩ := Joint.step_moves hshows hstep (not_lost_of_shows hshows₁)
  have hsame := filter_toBroker hmove
  rw [work_eq, work_eq, delivers_of_shows hshows, delivers_of_shows hshows', hsame] at hwork
  omega

/-- **A delivery to a client** leaves less to do, or takes a DELIVER off, which a client never answers. -/
theorem control_toClient {j j' : Joint.System} (h : Joint.Settling z c j)
    (hstep : Joint.deliver z c j .toClient = some j') :
    Joint.Settling z c j' ∧ (control c j' < control c j ∨
      control c j' = control c j ∧ delivers j' < delivers j) := by
  obtain ⟨hsettling, hwork⟩ := h.next hstep
  refine ⟨hsettling, ?_⟩
  obtain ⟨v, hshows, hready⟩ := h
  obtain ⟨v₁, hshows₁, -⟩ := id hsettling
  obtain ⟨v', hmove, hshows'⟩ := Joint.step_moves hshows hstep (not_lost_of_shows hshows₁)
  rcases filter_toClient hmove with hsame | ⟨hless, hup, hentry, hdown⟩
  · rw [work_eq, work_eq, delivers_of_shows hshows, delivers_of_shows hshows', hsame] at hwork
    exact .inl (by omega)
  · rw [control_of_shows hshows, control_of_shows hshows', delivers_of_shows hshows,
      delivers_of_shows hshows', hup, hentry, hdown]
    exact .inr ⟨rfl, hless⟩

/-! ## The network between deliveries -/

/-- The network between two deliveries: every application has given commands that go out as they are, the
broker is there, and so is every client, which with its queues and its session is where a delivery
finds it. The history is kept because what a PUBLISH in flight comes to for the others depends on its
address and its publisher's name. -/
structure BetweenDeliveries (z : Czmq) (peers : Finset Frame) (verbose : Bool) (n : System) : Prop where
  history : ∃ h, IsHistory z peers verbose n h ∧
    ∀ c m, .client c (.command m) ∈ h → VerbatimCommand m
  up : ∃ s, n.broker = .up s
  settling : ∀ c ∈ peers, Joint.Settling z c (n.at c)

/-- What the broker tells others of a message can be read, if its address goes out as it is and the peer
has given itself no name: a DELIVER with a text that grew in the setter's format would not fit, and
would end the client that reads it. -/
theorem clean_others {inputs : List Input} {s s' : Server} {frames : List Frame} {t : List Obs}
    (hprintf : Printf z.zsysVprintf) (hrun : Broker.run z verbose inputs = some s)
    (hname : ∀ x, .request d (.hello x) ∈ inputs.map Input.event → x = .empty)
    (hverbatim : ∀ address body, requestIn frames = .publish address body → Verbatim address)
    (hstep : Broker.step z s (.message d frames) = some s') (htrace : s'.trace = s.trace ++ t)
    (hcd : c ≠ d) : Clean ((framesIn c t).map Prod.snd) := by
  obtain ⟨s₁, s₁', t₁, hs₁, hs₁', -, htrans, htrace₁, hsent⟩ :=
    run_step z verbose (decodable_of_run hrun) (decodable_of_step hstep)
  obtain rfl := Option.some.inj (hrun.symm.trans hs₁)
  rw [run_append_singleton, hrun, Option.bind_some, hstep] at hs₁'
  obtain rfl := Option.some.inj hs₁'
  obtain rfl := List.append_cancel_left (htrace.symm.trans htrace₁)
  rw [framesIn_eq htrans.encoded, hsent, event_message, PubSub.out, if_neg hcd, List.map_map,
    List.map_map]
  intro wired hwired
  obtain ⟨r, hr, rfl⟩ := List.mem_map.mp hwired
  cases hreq : requestIn frames with
  | publish address body =>
    rw [hreq] at hr
    cases hsender : directory z inputs d with
    | none => simp [hsender, PubSub.relayed] at hr
    | some m =>
      cases hrecipient : directory z inputs c with
      | none => simp [hsender, hrecipient, PubSub.relayed] at hr
      | some m' =>
        rw [hsender, hrecipient] at hr
        obtain rfl := List.eq_of_mem_replicate hr
        have hm : m.name = .empty := PubSub.name_eq_of_hello (policy z) hname hsender
        have haddress := hverbatim address body hreq
        have hempty : z.zsysVprintf .empty = .empty := Client.print_eq hprintf (by decide)
        have hprint : z.zsysVprintf address = address := Client.print_eq hprintf haddress.1
        refine Joint.wellFormed_wire (show MsgId.deliver ≠ .unset by decide)
          ⟨?_, ?_, fitsHeaders_none⟩
        · simpa [replyMsg, Relay.deliver, hm, hempty] using shortField_some (by decide)
        · simpa [replyMsg, Relay.deliver, hprint] using shortField_some haddress.2
  | _ =>
    rw [hreq] at hr
    simp [PubSub.relayed] at hr

/-- A client whose queue has got longer by what can be read. -/
theorem settling_others {j j' : Joint.System} {input : Input} (h : Joint.Settling z c j)
    (hstep : Joint.step z c j (.others input) = some j') (hdec : input.Decodable)
    (hclean : Clean j'.toClient) : Joint.Settling z c j' ∧ control c j' = control c j := by
  obtain ⟨v, hshows, hready⟩ := h
  rcases Joint.step_spec hshows hstep with ⟨v', hmove, hshows'⟩ | ⟨hloses, -⟩
  · obtain ⟨hup, hentry, hcost⟩ := cost_others hmove
    rw [hshows'.toClient] at hclean
    have hawaits : Joint.AwaitsIfClean v' := Joint.AwaitsIfClean.move (fun _ _ => hready.awaits) hmove
    refine ⟨⟨v', hshows', ?_, hup ▸ hready.up, hclean, hawaits (hup ▸ hready.up) hclean, ?_⟩, ?_⟩
    · cases hmove with
      | others => exact hready.started
    · cases hmove with
      | others => exact hready.busy.imp_right fun h => h.imp_right Joint.Carries.append_left
    · rw [control_of_shows hshows, control_of_shows hshows', hup, hentry, hcost]
  · exact absurd hdec hloses

/-- What the deliveries take down: what is left to do apart from DELIVERs, and the DELIVERs, compared in
that order. A sum would not do, since a PUBLISH may become any number of DELIVERs. -/
def burden (peers : Finset Frame) (n : System) : Nat ×ₗ Nat :=
  toLex (∑ c ∈ peers, control c (n.at c), ∑ c ∈ peers, delivers (n.at c))

theorem ofCallback_up {r : Option (Server × Int)} {s : Server} (h : Host.ofCallback r = .up s) :
    r = some (s, 0) := by
  unfold Host.ofCallback at h
  split at h
  · cases h
  · split at h <;> cases h
    rename_i hrc
    rw [hrc]

theorem up_of_settling (h : Joint.Settling z c (n.at c)) : ∃ s, n.broker = .up s := by
  obtain ⟨v, hshows, -⟩ := h
  obtain ⟨s, hs, -⟩ := hshows.broker
  have hbroker : brokerOf n.broker = some s := hs
  cases hhost : n.broker with
  | up s => exact ⟨s, rfl⟩
  | _ =>
    rw [hhost] at hbroker
    cases hbroker

/-- One delivery to the broker. -/
theorem BetweenDeliveries.toBroker (hprintf : Printf z.zsysVprintf)
    (hbetween : BetweenDeliveries z peers verbose n)
    (hstep : step z peers n (.toBroker d) = some n') :
    d ∈ peers ∧ BetweenDeliveries z peers verbose n' ∧ burden peers n' < burden peers n := by
  obtain ⟨h, hhistory, hverbatim⟩ := hbetween.history
  have hhistory' := hhistory.step hstep
  obtain ⟨s, frames, rest, hs, hqueue, hn'⟩ : ∃ s frames rest, n.broker = .up s ∧
      n.toBroker d = frames :: rest ∧
      n' = { n with toBroker := Function.update n.toBroker d rest }.brokerDid
        (.ofCallback (handle z (.message d frames) s)) := by
    cases stepped hstep with
    | toBroker _ hs hqueue => exact ⟨_, _, _, hs, hqueue, rfl⟩
  have hd : d ∈ peers := by
    by_contra hd
    exact nomatch hqueue.symm.trans (hhistory.idle d hd)
  have hgiven : happening n (.toBroker d) = [.host (.message d frames)] := by
    rw [happening, hqueue]
    rfl
  rw [hgiven] at hhistory'
  -- the client it is from
  have hown := step_projects hd hstep
  rw [seenBy, if_pos rfl, runFrom_singleton] at hown
  obtain ⟨hsettling, hless⟩ := control_toBroker (hbetween.settling d hd) hown
  obtain ⟨s', hs'⟩ := up_of_settling hsettling
  have hhandle : handle z (.message d frames) s = some (s', 0) := by
    rw [hn'] at hs'
    exact ofCallback_up hs'
  have hrun : Broker.run z verbose (heard h) = some s := by
    have hfollows := hhistory.broker
    rw [hs] at hfollows
    exact hfollows
  -- and the others
  have hothers : ∀ c ∈ peers, c ≠ d →
      Joint.Settling z c (n'.at c) ∧ control c (n'.at c) = control c (n.at c) := by
    intro c hc hcd
    have hother := step_projects hc hstep
    rw [seenBy, if_neg (Ne.symm hcd), hqueue, List.head?_cons, Option.toList_some, List.map_cons,
      List.map_nil, runFrom_singleton] at hother
    refine settling_others (hbetween.settling c hc) hother ?_ ?_
    · exact decodable_of_step (step_of_handle hhandle)
    · obtain ⟨v, hshows, hready⟩ := hbetween.settling c hc
      obtain ⟨t, ht⟩ := (show Follows z verbose (.up s) (heard h) from hrun).handle
        (.message d frames) |>.2
      have hdown : (n'.at c).toClient = n.toClient c ++ (framesIn c t).map Prod.snd := by
        rw [hn']
        show n.toClient c ++ (framesIn c ((Host.ofCallback _).trace.drop
          n.broker.trace.length)).map Prod.snd = _
        rw [ht, hs]
        show _ ++ (framesIn c ((s.trace ++ t).drop s.trace.length)).map Prod.snd = _
        rw [List.drop_left]
      have hold : n.toClient c = v.toClient := hshows.toClient
      rw [hdown, hold]
      refine hready.down.append ?_
      rw [hhandle] at ht
      refine clean_others hprintf hrun ?_ ?_ (step_of_handle hhandle) ht hcd
      · exact fun x hx => hhistory.name hprintf hd (hverbatim d) List.prefix_rfl (mem_requestIn hx)
      · refine fun address body hreq => hhistory'.verbatim_of_publish hprintf hd ?_ ?_ hreq
        · exact fun m hm => hverbatim d m (by simpa using hm)
        · simp [heard, framesFrom]
  refine ⟨hd, ⟨⟨_, hhistory', ?_⟩, ⟨s', hs'⟩, ?_⟩, ?_⟩
  · exact fun c m hm => hverbatim c m (by simpa using hm)
  · intro c hc
    by_cases hcd : c = d
    · subst hcd
      exact hsettling
    · exact (hothers c hc hcd).1
  · apply Prod.Lex.toLex_lt_toLex.mpr
    refine .inl (Finset.sum_lt_sum (fun c hc => ?_) ⟨d, hd, hless⟩)
    by_cases hcd : c = d
    · subst hcd
      exact Nat.le_of_lt hless
    · exact Nat.le_of_eq (hothers c hc hcd).2

/-- One delivery to a client. -/
theorem BetweenDeliveries.toClient (hbetween : BetweenDeliveries z peers verbose n)
    (hstep : step z peers n (.toClient d) = some n') :
    d ∈ peers ∧ BetweenDeliveries z peers verbose n' ∧ burden peers n' < burden peers n := by
  obtain ⟨h, hhistory, hverbatim⟩ := hbetween.history
  have hhistory' := hhistory.step hstep
  have hbroker : n'.broker = n.broker := by
    cases stepped hstep
    rfl
  have hd : d ∈ peers := by
    cases stepped hstep
    assumption
  have hown := step_projects hd hstep
  rw [seenBy, if_pos rfl, runFrom_singleton] at hown
  obtain ⟨hsettling, hless⟩ := control_toClient (hbetween.settling d hd) hown
  have hothers : ∀ c ∈ peers, c ≠ d → n'.at c = n.at c := by
    intro c hc hcd
    have hother := step_projects hc hstep
    rw [seenBy, if_neg (Ne.symm hcd), runFrom_nil] at hother
    exact (Option.some.inj hother).symm
  refine ⟨hd, ⟨⟨_, hhistory', ?_⟩, hbroker ▸ hbetween.up, ?_⟩, ?_⟩
  · exact fun c m hm => hverbatim c m (by simpa [happening] using hm)
  · intro c hc
    by_cases hcd : c = d
    · subst hcd
      exact hsettling
    · rw [hothers c hc hcd]
      exact hbetween.settling c hc
  · apply Prod.Lex.toLex_lt_toLex.mpr
    rcases hless with hless | ⟨hsame, hless⟩
    · refine .inl (Finset.sum_lt_sum (fun c hc => ?_) ⟨d, hd, hless⟩)
      by_cases hcd : c = d
      · subst hcd
        exact Nat.le_of_lt hless
      · rw [hothers c hc hcd]
    · refine .inr ⟨Finset.sum_congr rfl fun c hc => ?_,
        Finset.sum_lt_sum (fun c hc => ?_) ⟨d, hd, hless⟩⟩
      · by_cases hcd : c = d
        · subst hcd
          exact hsame
        · rw [hothers c hc hcd]
      · by_cases hcd : c = d
        · subst hcd
          exact Nat.le_of_lt hless
        · rw [hothers c hc hcd]

/-- A client that is on its way, in a reachable state. -/
theorem settling_of_run {labels : List Joint.Label} {j : Joint.System} {self : Client.SClient}
    {s : Server} (hrun : Joint.run z c verbose labels = some j) (hself : j.client = some self)
    (hstarted : self.state ≠ .start) (hs : j.broker = some s) (hup : Clean j.toBroker)
    (hdown : Clean j.toClient) (hbusy : (∃ r, s.clients (zframeStrhex c) = some r) ∨
      j.toBroker ≠ [] ∨ Joint.Carries .invalid j.toClient) : Joint.Settling z c j := by
  have hlost : ¬ j.Lost := by
    rintro (hnone | hnone)
    · exact nomatch hself.symm.trans hnone
    · exact nomatch hs.symm.trans hnone
  have hnew : Joint.AwaitsIfClean .new := by
    intro _ _
    refine ⟨?_, nofun⟩
    rintro (h | h) <;> cases h
  obtain ⟨v, hshows, hawaits⟩ := Joint.run_moves hnew (fun _ _ _ h => h.move) hrun hlost
  obtain ⟨self', hself', -, hstate⟩ := hshows.client
  obtain rfl := Option.some.inj (hself.symm.trans hself')
  obtain ⟨s', hs', hinv, hentry⟩ := hshows.broker
  obtain rfl := Option.some.inj (hs.symm.trans hs')
  rw [hshows.toBroker] at hup hbusy
  rw [hshows.toClient] at hdown hbusy
  refine ⟨v, hshows, hstate ▸ hstarted, hup, hdown, hawaits hup hdown, ?_⟩
  refine hbusy.imp_left fun ⟨r, hr⟩ => ?_
  rw [← hentry, Option.isSome_iff_ne_none, ne_eq, hinv.entry_none_iff]
  exact fun hnone => nomatch hr.symm.trans hnone

/-- Where no delivery is possible, everything is as it should be: all queues are empty, so a client that
waited for something would have nothing coming, which `Joint.Settling` excludes. -/
theorem BetweenDeliveries.atRest (hbetween : BetweenDeliveries z peers verbose n)
    (hstuck : ∀ d, deliver z peers n d = none) :
    ∃ s, n.broker = .up s ∧ ∀ c ∈ peers, ∃ r, Joint.AtRest c (n.at c) s r := by
  obtain ⟨s, hs⟩ := hbetween.up
  refine ⟨s, hs, fun c hc => ?_⟩
  have hsettling := hbetween.settling c hc
  obtain ⟨v, hshows, -⟩ := id hsettling
  obtain ⟨self, hself, -⟩ := hshows.client
  have hup : n.client c = .up self := by
    have hclient : clientOf (n.client c) = some self := hself
    cases hactor : n.client c <;> rw [hactor] at hclient <;> cases hclient
    rfl
  obtain ⟨s', r, hrest⟩ := hsettling.atRest fun d => by
    cases d with
    | toBroker =>
      have hnone := hstuck (.toBroker c)
      cases hqueue : n.toBroker c with
      | nil => simp [Joint.deliver, Joint.Delivery.label, Joint.step, System.at, hqueue, hs, brokerOf]
      | cons frames rest => simp [deliver, Delivery.label, step, hs, hqueue] at hnone
    | toClient =>
      have hnone := hstuck (.toClient c)
      cases hqueue : n.toClient c with
      | nil => simp [Joint.deliver, Joint.Delivery.label, Joint.step, System.at, hqueue, hup, clientOf]
      | cons frames rest => simp [deliver, Delivery.label, step, hup, hqueue, hc] at hnone
  obtain rfl : s' = s := by
    have hbroker : brokerOf n.broker = some s' := hrest.broker
    rw [hs] at hbroker
    exact (Option.some.inj hbroker).symm
  exact ⟨r, hrest⟩

/-- **The network comes to rest.** Take any reachable state of a network whose applications have given
commands that go out as they are, in which the broker and every client is there, every client has
been told to connect, can read all that is in flight to it, and has a session, something in flight to
the broker, or an INVALID in flight to itself. However the deliveries are interleaved from there, there is a
bound on how many there are, and when there are no more every client is connected, the broker has a
session of it that is connected, and nothing is in flight. -/
theorem comes_to_rest (z : Czmq) (peers : Finset Frame) (verbose : Bool) (labels : List Label)
    (n : System) (s : Server) (hprintf : Printf z.zsysVprintf)
    (hverbatim : ∀ l ∈ labels, l.CommandsVerbatim)
    (hrun : run z peers verbose labels = some n) (hs : n.broker = .up s)
    (hclients : ∀ c ∈ peers, ∃ self, n.client c = .up self ∧ self.state ≠ .start)
    (hdown : ∀ c ∈ peers, Clean (n.toClient c))
    (hbusy : ∀ c ∈ peers, (∃ r, s.clients (zframeStrhex c) = some r) ∨ n.toBroker c ≠ [] ∨
      Joint.Carries .invalid (n.toClient c)) :
    ∃ bound, ∀ deliveries n', runFrom (deliver z peers) n deliveries = some n' →
      deliveries.length ≤ bound ∧ ((∀ d, deliver z peers n' d = none) →
        ∃ s', n'.broker = .up s' ∧ ∀ c ∈ peers, ∃ r, Joint.AtRest c (n'.at c) s' r) := by
  have hcommands : ∀ c m, .client c (.command m) ∈ history z peers verbose labels → VerbatimCommand m :=
    fun d m hm => hverbatim _ (command_of_history hm)
  have hhistory := isHistory_of_run hrun
  have hbetween : BetweenDeliveries z peers verbose n := by
    refine ⟨⟨_, hhistory, hcommands⟩, ⟨s, hs⟩, fun c hc => ?_⟩
    obtain ⟨self, hself, hstarted⟩ := hclients c hc
    refine settling_of_run (run_at hc hrun) (at_of_up hself) hstarted (at_broker_of_up hs) ?_
      (hdown c hc) (hbusy c hc)
    -- all that a client has sent can be read
    obtain ⟨sent, -, hsent⟩ := hhistory.sent hprintf hc (hcommands c)
    intro frames hframes
    have hmem : zccpMsgDecode frames ∈ sent.map .ok := by
      rw [← hsent]
      exact List.mem_map.mpr ⟨frames, List.mem_append_right _ hframes, rfl⟩
    obtain ⟨m, -, hm⟩ := List.mem_map.mp hmem
    exact (zccpMsgDecode_ok_iff frames).mp ⟨m, hm.symm⟩
  have hnext : ∀ n₁ d n₂, BetweenDeliveries z peers verbose n₁ → deliver z peers n₁ d = some n₂ →
      d ∈ peers.toList.map .toBroker ++ peers.toList.map .toClient ∧ BetweenDeliveries z peers verbose n₂ ∧
        burden peers n₂ < burden peers n₁ := by
    intro n₁ d n₂ hbetween₁ hstep
    cases d with
    | toBroker d =>
      obtain ⟨hd, hrest⟩ := hbetween₁.toBroker hprintf hstep
      exact ⟨by simp [hd], hrest⟩
    | toClient d =>
      obtain ⟨hd, hrest⟩ := hbetween₁.toClient hstep
      exact ⟨by simp [hd], hrest⟩
  obtain ⟨bound, hbound⟩ := exists_bound_of_wellFounded wellFounded_lt hnext hbetween
  refine ⟨bound, fun deliveries n' hdeliveries => ⟨hbound deliveries n' hdeliveries, fun hstuck => ?_⟩⟩
  exact (runFrom_preserves (fun _ _ _ h hstep => (hnext _ _ _ h hstep).2.1) hbetween
    hdeliveries).atRest hstuck

/-- The recipient's session has expired, and both clients publish. -/
def publishing : List Label :=
  let e := CStr.ofBytes [65]
  meeting ++ [.expire [2], .command [1] (.publish e e), .command [2] (.publish e e)]

theorem comes_to_rest_publishing :
    let z := Czmq.printing .literal strictPrintf
    ∃ n, run z {[1], [2]} false publishing = some n ∧
      (∀ c ∈ ({[1], [2]} : Finset Frame), n.toBroker c ≠ []) ∧
      ∃ bound, ∀ deliveries n', runFrom (deliver z {[1], [2]}) n deliveries = some n' →
        deliveries.length ≤ bound ∧ ((∀ d, deliver z {[1], [2]} n' d = none) →
          ∃ s', n'.broker = .up s' ∧
            ∀ c ∈ ({[1], [2]} : Finset Frame), ∃ r, Joint.AtRest c (n'.at c) s' r) := by
  intro z
  obtain ⟨n, hrun, hn⟩ := (Option.any_eq_true ..).mp (show
    (run z {[1], [2]} false publishing).any (fun n => decide ((brokerOf n.broker).isSome ∧
      ∀ c ∈ ({[1], [2]} : Finset Frame), (clientOf (n.client c)).any (·.state ≠ .start) = true ∧
        Clean (n.toClient c) ∧ n.toBroker c ≠ [])) = true by decide +kernel)
  obtain ⟨hbroker, hall⟩ := of_decide_eq_true hn
  obtain ⟨s, hs⟩ : ∃ s, n.broker = .up s := by
    cases hhost : n.broker with
    | up s => exact ⟨s, rfl⟩
    | _ =>
      rw [hhost] at hbroker
      cases hbroker
  refine ⟨n, hrun, fun c hc => (hall c hc).2.2, ?_⟩
  apply comes_to_rest z {[1], [2]} false publishing n s strictPrintf_printf (by decide) hrun hs
  · intro c hc
    have hclient := (hall c hc).1
    cases hactor : n.client c with
    | up self =>
      rw [hactor] at hclient
      exact ⟨self, rfl, of_decide_eq_true hclient⟩
    | _ =>
      rw [hactor] at hclient
      cases hclient
  · exact fun c hc => (hall c hc).2.1
  · exact fun c hc => .inr (.inl (hall c hc).2.2)

end Zccp.Network
