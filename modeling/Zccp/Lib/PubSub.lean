import Mathlib.Data.Finset.Card
import Mathlib.Data.Finset.Insert
import Mathlib.Logic.Function.Basic
import Zccp.Lib.Commute

/-!
# `Zccp/Lib/PubSub.lean` — publish and subscribe, with sessions

What a broker is for, as a function on sets. A peer is unknown or a `Member`: it has a name, and a
set of the expressions it has subscribed to. The broker answers each request of a peer, and hands
a publication to every other member once for each of its expressions that matches the address.

Peers, names, expressions, addresses and bodies are any types at all. What makes the statements
below short is that a request changes the entry of the peer that sent it and nothing else
(`step_of_ne`), so that what a member is told depends on its own requests and on the
publications of others (`outputs_without`).
-/

set_option autoImplicit false

namespace Zccp.Lib.PubSub

open scoped List

variable {Peer Name Expr Addr Body : Type}

/-! ## The system -/

/-- A peer with a session. -/
structure Member (Name Expr : Type) where
  name : Name
  subscriptions : Finset Expr

/-- Who has a session. -/
abbrev Directory (Peer Name Expr : Type) : Type := Peer → Option (Member Name Expr)

/-- Nobody. -/
def Directory.empty : Directory Peer Name Expr := fun _ => none

/-- What a peer can ask for; `other` is anything else it may say. -/
inductive Request (Name Expr Addr Body : Type)
  | hello (name : Name)
  | subscribe (expr : Expr)
  | publish (addr : Addr) (body : Body)
  | direct
  | goodbye
  | other

/-- What can happen: a request, or the end of a peer's session by silence. -/
inductive Event (Peer Name Expr Addr Body : Type)
  | request (peer : Peer) (request : Request Name Expr Addr Body)
  | expiry (peer : Peer)

/-- Whom an event is about. -/
def Event.peer : Event Peer Name Expr Addr Body → Peer
  | request p _ => p
  | expiry p => p

/-- What a peer can be told. -/
inductive Reply (Name Addr Body : Type)
  | helloOk
  | subscribeOk
  | goodbyeOk
  | invalid
  | deliver (name : Name) (addr : Addr) (body : Body)

/-- Which expressions can be subscribed to, and which addresses each selects. -/
structure Policy (Expr Addr : Type) where
  compiles : Expr → Bool
  selects : Expr → Addr → Bool

section System

variable [DecidableEq Peer] [DecidableEq Expr] (π : Policy Expr Addr)

/-- How a request changes the entry of the peer that makes it. -/
def settle : Option (Member Name Expr) → Request Name Expr Addr Body → Option (Member Name Expr)
  | none, .hello name => some { name, subscriptions := ∅ }
  | none, _ => none
  | some m, .subscribe e =>
    some { m with subscriptions := if π.compiles e then insert e m.subscriptions else m.subscriptions }
  | some m, .publish _ _ => some m
  | some m, .direct => some m
  | some _, _ => none

/-- The directory after an event. -/
def step (d : Directory Peer Name Expr) : Event Peer Name Expr Addr Body →
    Directory Peer Name Expr
  | .request p r => Function.update d p (settle π (d p) r)
  | .expiry p => Function.update d p none

/-- What a peer is told in answer to its request. -/
def answer : Option (Member Name Expr) → Request Name Expr Addr Body → List (Reply Name Addr Body)
  | none, .hello _ => [.helloOk]
  | some _, .subscribe _ => [.subscribeOk]
  | some _, .publish _ _ => []
  | some _, .direct => []
  | _, .goodbye => [.goodbyeOk]
  | _, _ => [.invalid]

/-- How many of a member's subscriptions match an address. -/
def Member.copies (m : Member Name Expr) (a : Addr) : Nat :=
  (m.subscriptions.filter (π.selects · a)).card

/-- What the peer `c` is told when another peer, whose entry is `sender`, makes a request. -/
def relayed (sender recipient : Option (Member Name Expr)) :
    Request Name Expr Addr Body → List (Reply Name Addr Body)
  | .publish a b =>
    match sender, recipient with
    | some m, some m' => List.replicate (m'.copies π a) (.deliver m.name a b)
    | _, _ => []
  | _ => []

/-- What the peer `c` is told at an event. -/
def out (c : Peer) (d : Directory Peer Name Expr) :
    Event Peer Name Expr Addr Body → List (Reply Name Addr Body)
  | .request p r => if c = p then answer (d p) r else relayed π (d p) (d c) r
  | .expiry _ => []

/-- What a member is subscribed to, it stays subscribed to as long as it does not start again. -/
theorem mem_subscriptions_settle {d : Option (Member Name Expr)} {r : Request Name Expr Addr Body}
    {e : Expr} (hr : ∀ name, r ≠ .hello name) (h : ∀ m, d = some m → e ∈ m.subscriptions) :
    ∀ m, settle π d r = some m → e ∈ m.subscriptions := by
  intro m hm
  cases d with
  | none =>
    cases r with
    | hello name => exact absurd rfl (hr name)
    | _ => simp [settle] at hm
  | some m₀ =>
    have hmem := h m₀ rfl
    cases r with
    | subscribe e' =>
      simp only [settle, Option.some.injEq] at hm
      subst hm
      show e ∈ if _ then _ else _
      split
      · exact Finset.mem_insert_of_mem hmem
      · exact hmem
    | publish a b =>
      simp only [settle, Option.some.injEq] at hm
      exact hm ▸ hmem
    | direct =>
      simp only [settle, Option.some.injEq] at hm
      exact hm ▸ hmem
    | _ => simp [settle] at hm

/-! ## Who is affected by what -/

/-- **An event changes the entry of its own peer only.** -/
theorem step_of_ne {d : Directory Peer Name Expr} {e : Event Peer Name Expr Addr Body} {c : Peer}
    (h : c ≠ e.peer) : step π d e c = d c := by
  cases e with
  | request p r => exact Function.update_of_ne h _ _
  | expiry p => exact Function.update_of_ne h _ _

/-- The entry of a peer after an event of its own depends on that entry only. -/
theorem step_congr {d d' : Directory Peer Name Expr} {e : Event Peer Name Expr Addr Body}
    {c : Peer} (h : d c = d' c) : step π d e c = step π d' e c := by
  by_cases hc : c = e.peer
  · subst hc
    cases e with
    | request p r => simp only [step, Event.peer, Function.update_self] at h ⊢; rw [h]
    | expiry p => simp [step, Event.peer]
  · rw [step_of_ne π hc, step_of_ne π hc, h]

omit [DecidableEq Expr] in
/-- What a peer is told depends on its own entry and on that of the peer the event is about. -/
theorem out_congr {d d' : Directory Peer Name Expr} {e : Event Peer Name Expr Addr Body} {c : Peer}
    (hc : d c = d' c) (he : d e.peer = d' e.peer) : out π c d e = out π c d' e := by
  cases e with
  | request p r => simp only [out, Event.peer] at he ⊢; rw [hc, he]
  | expiry p => rfl

/-- Whether an event is a publication. -/
def Event.IsPublish : Event Peer Name Expr Addr Body → Prop
  | request _ (.publish _ _) => True
  | _ => False

omit [DecidableEq Expr] in
/-- Nobody else is told of an event that is not a publication. -/
theorem out_of_not_publish {d : Directory Peer Name Expr} {e : Event Peer Name Expr Addr Body}
    {c : Peer} (hc : c ≠ e.peer) (he : ¬ e.IsPublish) : out π c d e = [] := by
  cases e with
  | request p r =>
    have hne : ¬ c = p := hc
    cases r <;> first | exact absurd trivial he | simp [out, hne, relayed]
  | expiry p => rfl

/-- **Events of two peers commute**, if neither is a publication. -/
theorem commutes {e e' : Event Peer Name Expr Addr Body} (hne : e.peer ≠ e'.peer)
    (he : ¬ e.IsPublish) (he' : ¬ e'.IsPublish) :
    Commutes (fun (d : Directory Peer Name Expr) e => step π d e) (out π) e e' where
  state d := by
    funext c
    by_cases hc : c = e'.peer
    · have hce : c ≠ e.peer := fun h => hne (h.symm.trans hc)
      rw [step_of_ne π hce]
      exact step_congr π (step_of_ne π hce)
    · rw [step_of_ne π hc]
      exact (step_congr π (step_of_ne π hc)).symm
  shown c d := by
    by_cases hc : c = e'.peer
    · have hce : c ≠ e.peer := fun h => hne (h.symm.trans hc)
      have hsame : step π d e c = d c := step_of_ne π hce
      rw [out_of_not_publish π hce he, out_of_not_publish π hce he, List.nil_append, List.append_nil]
      exact out_congr π hsame (hc ▸ hsame)
    · rw [out_of_not_publish π hc he', out_of_not_publish π hc he', List.append_nil, List.nil_append]
      by_cases hce : c = e.peer
      · have hsame : step π d e' c = d c := step_of_ne π hc
        exact (out_congr π hsame (hce ▸ hsame)).symm
      · rw [out_of_not_publish π hce he, out_of_not_publish π hce he]

/-- Two directories that agree but for one peer. -/
def AgreeBut (p : Peer) (d d' : Directory Peer Name Expr) : Prop := ∀ c, c ≠ p → d c = d' c

/-- **Non-interference.** Take all the events of a peer that never publishes out of a run: every
other peer is told the same, in the same order. -/
theorem outputs_without {p : Peer} {es : List (Event Peer Name Expr Addr Body)}
    (hp : ∀ e ∈ es, e.peer = p → ¬ e.IsPublish) {d d' : Directory Peer Name Expr}
    (hd : AgreeBut p d d') {c : Peer} (hc : c ≠ p) :
    outputs (step π) (out π) c d es =
      outputs (step π) (out π) c d' (es.filter fun e => e.peer ≠ p) := by
  induction es generalizing d d' with
  | nil => rfl
  | cons e es ih =>
    have hrest : ∀ e ∈ es, e.peer = p → ¬ e.IsPublish :=
      fun e' he' => hp e' (List.mem_cons_of_mem _ he')
    by_cases he : e.peer = p
    · -- an event that is taken out: nobody else is told, and only `p`'s entry changes
      rw [List.filter_cons_of_neg (by simpa using he), outputs,
        out_of_not_publish π (by rw [he]; exact hc) (hp e List.mem_cons_self he), List.nil_append]
      exact ih hrest fun c' hc' => by rw [step_of_ne π (by rw [he]; exact hc'), hd c' hc']
    · rw [List.filter_cons_of_pos (by simpa using he), outputs, outputs,
        out_congr π (hd c hc) (hd e.peer he)]
      congr 1
      exact ih hrest fun c' hc' => step_congr π (hd c' hc')

/-! ## What a peer is told in a session -/

/-- How a session can end. -/
inductive Ending
  | invalid
  | goodbye
  | expired
deriving DecidableEq

/-- What the peer is told then. -/
def Ending.replies : Ending → List (Reply Name Addr Body)
  | invalid => [.invalid]
  | goodbye => [.goodbyeOk]
  | expired => []

/-- Whether a reply is a publication handed on. -/
def Reply.IsDeliver : Reply Name Addr Body → Prop
  | deliver _ _ _ => True
  | _ => False

omit [DecidableEq Expr] in
/-- All that a peer is told at the event of another is publications handed on. -/
theorem isDeliver_of_mem_out {d : Directory Peer Name Expr} {e : Event Peer Name Expr Addr Body}
    {c : Peer} (hc : c ≠ e.peer) : ∀ r ∈ out π c d e, r.IsDeliver := by
  intro r hr
  cases e with
  | expiry p => simp [out] at hr
  | request p q =>
    have hne : ¬ c = p := hc
    rw [out, if_neg hne] at hr
    cases q with
    | publish a b =>
      cases hp : d p <;> cases hd : d c <;> rw [hp, hd] at hr
      case some.some m m' =>
        rw [List.eq_of_mem_replicate hr]
        trivial
      all_goals simp [relayed] at hr
    | _ => simp [relayed] at hr

/-- What is said inside a session: acknowledged subscriptions and publications, and no publication
before the first acknowledged subscription. -/
structure Talk (l : List (Reply Name Addr Body)) : Prop where
  only : ∀ r ∈ l, r = .subscribeOk ∨ r.IsDeliver
  after : ∀ pre r post, l = pre ++ r :: post → r.IsDeliver → .subscribeOk ∈ pre

/-- All that is said in a session, with how it ended; a peer without one is told a single thing. -/
inductive Session : Ending → List (Reply Name Addr Body) → Prop
  | invalid : Session .invalid [.invalid]
  | goodbye : Session .goodbye [.goodbyeOk]
  | session {l : List (Reply Name Addr Body)} (talk : Talk l) (e : Ending) :
      Session e (.helloOk :: l ++ e.replies)

/-- What has been said in the session that is still going on, if there is one. -/
def Underway : Option (Member Name Expr) → List (Reply Name Addr Body) → Prop
  | none, l => l = []
  | some m, l => ∃ talk, l = .helloOk :: talk ∧ Talk talk ∧
      (m.subscriptions.Nonempty → .subscribeOk ∈ talk)

omit [DecidableEq Peer] [DecidableEq Expr] in
theorem Talk.nil : Talk ([] : List (Reply Name Addr Body)) :=
  ⟨by simp, by simp⟩

/-- A talk goes on with a SUBSCRIBE_OK at any time, and with a DELIVER once there has been one. -/
theorem Talk.append_singleton {l : List (Reply Name Addr Body)} {r : Reply Name Addr Body}
    (h : Talk l) (hr : r = .subscribeOk ∨ r.IsDeliver ∧ .subscribeOk ∈ l) : Talk (l ++ [r]) where
  only := by
    intro r' hr'
    rcases List.mem_append.mp hr' with hr' | hr'
    · exact h.only r' hr'
    · rw [List.mem_singleton.mp hr']
      exact hr.imp_right And.left
  after := by
    intro pre r' post he hd
    rcases List.append_eq_append_iff.mp he with ⟨as, hpre, hlast⟩ | ⟨bs, hl, hrest⟩
    · cases as with
      | nil =>
        simp only [List.nil_append, List.cons.injEq] at hlast
        rw [hpre, List.append_nil]
        rcases hr with rfl | ⟨-, hmem⟩
        · rw [← hlast.1] at hd
          exact absurd hd (by simp [Reply.IsDeliver])
        · exact hmem
      | cons a as => simp at hlast
    · cases bs with
      | nil =>
        simp only [List.nil_append, List.cons.injEq] at hrest
        rw [List.append_nil] at hl
        rcases hr with rfl | ⟨-, hmem⟩
        · rw [hrest.1] at hd
          exact absurd hd (by simp [Reply.IsDeliver])
        · exact hl ▸ hmem
      | cons b bs =>
        simp only [List.cons_append, List.cons.injEq] at hrest
        exact h.after pre r' bs (by rw [hl, hrest.1]) hd

theorem Talk.append_replicate {l : List (Reply Name Addr Body)} {r : Reply Name Addr Body}
    (h : Talk l) (n : Nat) (hr : r.IsDeliver) (hmem : n ≠ 0 → .subscribeOk ∈ l) :
    Talk (l ++ List.replicate n r) := by
  induction n with
  | zero => simpa using h
  | succ n ih =>
    have hsub : Reply.subscribeOk ∈ l := hmem (Nat.succ_ne_zero n)
    rw [List.replicate_succ', ← List.append_assoc]
    exact (ih fun _ => hsub).append_singleton
      (.inr ⟨hr, List.mem_append_left _ hsub⟩)

/-- Whether an event is the expiry of a peer. -/
def Event.isExpiryOf (c : Peer) : Event Peer Name Expr Addr Body → Bool
  | expiry p => p = c
  | request _ _ => false

/-- What a peer has been told up to now: whole sessions, and what has been said in the one that is
going on. Only an expiry ends one without a word. -/
def Told (c : Peer) (es : List (Event Peer Name Expr Addr Body)) (d : Directory Peer Name Expr)
    (o : List (Reply Name Addr Body)) : Prop :=
  ∃ (sessions : List (Ending × List (Reply Name Addr Body))) (last : List (Reply Name Addr Body)),
    o = (sessions.map Prod.snd).flatten ++ last ∧ (∀ s ∈ sessions, Session s.1 s.2) ∧
    (sessions.filter (·.1 = .expired)).length ≤ (es.filter (·.isExpiryOf c)).length ∧
    Underway (d c) last

variable {c : Peer} {es : List (Event Peer Name Expr Addr Body)} {d : Directory Peer Name Expr}
  {o : List (Reply Name Addr Body)}

omit [DecidableEq Expr] in
/-- A step that leaves the peer its session. -/
theorem Told.talk {m m' : Member Name Expr} {d' : Directory Peer Name Expr}
    {e : Event Peer Name Expr Addr Body} {l : List (Reply Name Addr Body)} (h : Told c es d o)
    (hd : d c = some m) (hd' : d' c = some m')
    (hl : ∀ talk, Talk talk → (m.subscriptions.Nonempty → .subscribeOk ∈ talk) →
      Talk (talk ++ l) ∧ (m'.subscriptions.Nonempty → .subscribeOk ∈ talk ++ l)) :
    Told c (es ++ [e]) d' (o ++ l) := by
  obtain ⟨sessions, last, ho, hs, hn, hu⟩ := h
  rw [hd] at hu
  obtain ⟨talk, rfl, ht, hsub⟩ := hu
  obtain ⟨ht', hsub'⟩ := hl talk ht hsub
  refine ⟨sessions, .helloOk :: (talk ++ l), by rw [ho]; simp, hs, ?_, ?_⟩
  · rw [List.filter_append, List.length_append]
    omega
  · rw [hd']
    exact ⟨talk ++ l, rfl, ht', hsub'⟩

omit [DecidableEq Expr] in
/-- A step that ends its session. -/
theorem Told.finish {m : Member Name Expr} {d' : Directory Peer Name Expr}
    {e : Event Peer Name Expr Addr Body} (h : Told c es d o) (hd : d c = some m)
    (hd' : d' c = none) (ending : Ending) (he : ending = .expired → e.isExpiryOf c = true) :
    Told c (es ++ [e]) d' (o ++ ending.replies) := by
  obtain ⟨sessions, last, ho, hs, hn, hu⟩ := h
  rw [hd] at hu
  obtain ⟨talk, rfl, ht, -⟩ := hu
  refine ⟨sessions ++ [(ending, .helloOk :: talk ++ ending.replies)], [], by rw [ho]; simp, ?_, ?_,
    by rw [hd']; rfl⟩
  · intro s hmem
    rcases List.mem_append.mp hmem with hmem | hmem
    · exact hs s hmem
    · rw [List.mem_singleton.mp hmem]
      exact .session ht ending
  · rw [List.filter_append, List.filter_append, List.length_append, List.length_append]
    by_cases hx : ending = .expired
    · simp [hx, he hx, hn]
    · have : ([(ending, Reply.helloOk :: talk ++ ending.replies)].filter (·.1 = .expired)) =
          ([] : List (Ending × List (Reply Name Addr Body))) := by simp [hx]
      rw [this]
      simp only [List.length_nil]
      omega

omit [DecidableEq Expr] in
/-- A step at which a peer without a session is told a whole session. -/
theorem Told.brief {d' : Directory Peer Name Expr} {e : Event Peer Name Expr Addr Body}
    {l : List (Reply Name Addr Body)} {ending : Ending} (h : Told c es d o) (hd : d c = none)
    (hd' : d' c = none) (hl : Session ending l) (he : ending ≠ .expired) :
    Told c (es ++ [e]) d' (o ++ l) := by
  obtain ⟨sessions, last, ho, hs, hn, hu⟩ := h
  rw [hd] at hu
  have hlast : last = [] := hu
  subst hlast
  refine ⟨sessions ++ [(ending, l)], [], by rw [ho]; simp, ?_, ?_, by rw [hd']; rfl⟩
  · intro s hmem
    rcases List.mem_append.mp hmem with hmem | hmem
    · exact hs s hmem
    · rw [List.mem_singleton.mp hmem]
      exact hl
  · have : ([(ending, l)].filter (·.1 = .expired)) =
        ([] : List (Ending × List (Reply Name Addr Body))) := by simp [he]
    rw [List.filter_append, List.filter_append, this, List.length_append, List.length_append]
    simp only [List.length_nil]
    omega

omit [DecidableEq Expr] in
/-- A step that has nothing to do with the peer. -/
theorem Told.skip {d' : Directory Peer Name Expr} {e : Event Peer Name Expr Addr Body}
    (h : Told c es d o) (hd : d' c = d c) : Told c (es ++ [e]) d' o := by
  obtain ⟨sessions, last, ho, hs, hn, hu⟩ := h
  refine ⟨sessions, last, ho, hs, ?_, by rw [hd]; exact hu⟩
  rw [List.filter_append, List.length_append]
  omega

/-- A request of the peer itself. -/
theorem Told.answer {r : Request Name Expr Addr Body} (h : Told c es d o) :
    Told c (es ++ [.request c r]) (step π d (.request c r))
      (o ++ out π c d (.request c r)) := by
  have hout : out π c d (.request c r) = PubSub.answer (d c) r := by simp [out]
  have hstep : step π d (.request c r) c = settle π (d c) r := by simp [step]
  rw [hout]
  cases hd : d c with
  | none =>
    rw [hd] at hstep
    cases r with
    | hello name =>
      -- a session begins
      obtain ⟨sessions, last, ho, hs, hn, hu⟩ := h
      rw [hd] at hu
      have hlast : last = [] := hu
      subst hlast
      refine ⟨sessions, [.helloOk], by rw [ho]; simp [PubSub.answer], hs, ?_, ?_⟩
      · rw [List.filter_append, List.length_append]
        omega
      · rw [hstep]
        exact ⟨[], rfl, .nil, by simp⟩
    | goodbye => exact h.brief hd hstep .goodbye (by decide)
    | _ => exact h.brief hd hstep .invalid (by decide)
  | some m =>
    rw [hd] at hstep
    cases r with
    | subscribe e =>
      refine h.talk hd hstep fun talk ht _ => ⟨ht.append_singleton (.inl rfl), fun _ => ?_⟩
      simp [PubSub.answer]
    | publish a b => exact h.talk hd hstep fun talk ht hsub => by simpa [PubSub.answer] using ⟨ht, hsub⟩
    | direct => exact h.talk hd hstep fun talk ht hsub => by simpa [PubSub.answer] using ⟨ht, hsub⟩
    | goodbye => exact h.finish hd hstep .goodbye (by simp)
    | hello name => exact h.finish hd hstep .invalid (by simp)
    | other => exact h.finish hd hstep .invalid (by simp)

/-- A request of another peer. -/
theorem Told.relay {p : Peer} {r : Request Name Expr Addr Body} (h : Told c es d o) (hp : c ≠ p) :
    Told c (es ++ [.request p r]) (step π d (.request p r))
      (o ++ out π c d (.request p r)) := by
  have hstep : step π d (.request p r) c = d c := step_of_ne π hp
  have hout : out π c d (.request p r) = relayed π (d p) (d c) r := by simp [out, hp]
  rw [hout]
  cases r with
  | publish a b =>
    cases hdp : d p with
    | none => simpa [relayed] using h.skip hstep
    | some m =>
      cases hdc : d c with
      | none => simpa [relayed] using h.skip hstep
      | some m' =>
        refine h.talk hdc (hstep.trans hdc) fun talk ht hsub => ?_
        simp only [relayed]
        refine ⟨ht.append_replicate _ trivial fun hn => hsub ?_, fun hne =>
          List.mem_append_left _ (hsub hne)⟩
        -- something matched, so there is a subscription
        obtain ⟨e, he⟩ := Finset.card_ne_zero.mp hn
        exact ⟨e, (Finset.mem_filter.mp he).1⟩
  | _ => simpa [relayed] using h.skip hstep

/-- **The protocol of a session.** In every run from the empty directory, a peer is told whole
sessions and the beginning of one more. -/
theorem told_outputs (c : Peer) (es : List (Event Peer Name Expr Addr Body)) :
    Told c es (es.foldl (step π) Directory.empty)
      (outputs (step π) (out π) c Directory.empty es) := by
  refine outputs_invariant (step π) (out π) ?_ ⟨[], [], rfl, by simp, by simp, rfl⟩ es
  intro es d o e h
  cases e with
  | request p r =>
    by_cases hp : c = p
    · subst hp
      exact h.answer π
    · exact h.relay π hp
  | expiry p =>
    simp only [out, List.append_nil]
    by_cases hp : c = p
    · subst hp
      have hd' : step π d (.expiry c : Event Peer Name Expr Addr Body) c = none :=
        Function.update_self ..
      cases hd : d c with
      | none => exact h.skip (hd'.trans hd.symm)
      | some m =>
        simpa [Ending.replies] using h.finish hd hd' .expired fun _ => by simp [Event.isExpiryOf]
    · exact h.skip (step_of_ne π hp)

/-! ## Where the subscriptions come from -/

/-- The peer has had a session all the way through a run. -/
def Stays (c : Peer) (d : Directory Peer Name Expr) (es : List (Event Peer Name Expr Addr Body)) :
    Prop :=
  ∀ es', es' <+: es → ((es'.foldl (step π) d) c).isSome

/-- The peer asked for an expression in the session it has now. -/
def Asked (c : Peer) (e : Expr) (es : List (Event Peer Name Expr Addr Body)) : Prop :=
  ∃ pre post, es = pre ++ .request c (.subscribe e) :: post ∧
    Stays π c (pre.foldl (step π) Directory.empty) (.request c (.subscribe e) :: post)

/-- One event later, the peer still has what it asked for if it still has its session, and has
asked for what the event asks for. -/
theorem asked_append_singleton (c : Peer) (e : Expr) (es : List (Event Peer Name Expr Addr Body))
    (x : Event Peer Name Expr Addr Body) :
    Asked π c e (es ++ [x]) ↔
      ((step π (es.foldl (step π) Directory.empty) x) c).isSome ∧
        (Asked π c e es ∨
          x = .request c (.subscribe e) ∧ ((es.foldl (step π) Directory.empty) c).isSome) := by
  constructor
  · rintro ⟨pre, post, heq, hstays⟩
    have hall := hstays (.request c (.subscribe e) :: post) List.prefix_rfl
    rw [← List.foldl_append, ← heq, List.foldl_append] at hall
    refine ⟨hall, ?_⟩
    rcases List.eq_nil_or_concat post with rfl | ⟨post, y, rfl⟩
    · obtain ⟨rfl, hx⟩ := List.append_inj' heq rfl
      refine .inr ⟨(List.cons.inj hx).1, hstays [] List.nil_prefix⟩
    · rw [List.concat_eq_append, ← List.cons_append, ← List.append_assoc] at heq
      obtain ⟨rfl, -⟩ := List.append_inj' heq rfl
      refine .inl ⟨pre, post, rfl, fun es' hes' => hstays es' (hes'.trans ?_)⟩
      rw [List.concat_eq_append, ← List.cons_append]
      exact List.prefix_append _ _
  · rintro ⟨hall, ⟨pre, post, rfl, hstays⟩ | ⟨rfl, hlive⟩⟩
    · refine ⟨pre, post ++ [x], by simp, fun es' hes' => ?_⟩
      rw [← List.cons_append, List.prefix_concat_iff] at hes'
      rcases hes' with rfl | hes'
      · rw [← List.foldl_append, ← List.append_assoc, List.foldl_append]
        exact hall
      · exact hstays es' hes'
    · refine ⟨es, [], rfl, fun es' hes' => ?_⟩
      rcases List.prefix_cons_iff.mp hes' with rfl | ⟨t, rfl, ht⟩
      · exact hlive
      · rw [List.prefix_nil.mp ht]
        exact hall

/-- **A member's subscriptions** are the expressions it has asked for in its session, less those
that cannot be subscribed to. -/
theorem mem_subscriptions_iff (c : Peer) (e : Expr) (es : List (Event Peer Name Expr Addr Body)) :
    ∀ m : Member Name Expr, es.foldl (step π) Directory.empty c = some m →
      (e ∈ m.subscriptions ↔ Asked π c e es ∧ π.compiles e = true) := by
  induction es using List.reverseRecOn with
  | nil =>
    intro m hm
    exact absurd hm (by simp [Directory.empty])
  | append_singleton es x ih =>
    intro m hm
    rw [List.foldl_append] at hm
    have hm' : step π (es.foldl (step π) Directory.empty) x c = some m := hm
    rw [asked_append_singleton, hm']
    simp only [Option.isSome_some, true_and]
    -- where the entry is the one before, so are the requests
    have hsame : es.foldl (step π) Directory.empty c = some m →
        (∀ e', x ≠ .request c (.subscribe e')) →
        (e ∈ m.subscriptions ↔ (Asked π c e es ∨ x = .request c (.subscribe e) ∧
          ((es.foldl (step π) Directory.empty) c).isSome) ∧ π.compiles e = true) := by
      intro h hx
      rw [ih m h]
      simp [hx e]
    by_cases hc : c = x.peer
    · subst hc
      cases x with
      | expiry p => simp [step, Event.peer] at hm'
      | request p r =>
        simp only [Event.peer] at hm' hsame ih ⊢
        simp only [step, Function.update_self] at hm'
        cases hd : es.foldl (step π) Directory.empty p with
        | none =>
          have hnot : ¬ Asked π p e es := by
            rintro ⟨pre, post, rfl, hstays⟩
            have := hstays _ List.prefix_rfl
            rw [← List.foldl_append, hd] at this
            exact absurd this (by simp)
          rw [hd] at hm'
          cases r <;> simp only [settle, Option.some.injEq, reduceCtorEq] at hm'
          subst hm'
          simp [hnot]
        | some m₀ =>
          rw [hd] at hm'
          cases r with
          | subscribe e' =>
            simp only [settle, Option.some.injEq] at hm'
            subst hm'
            have hiff := ih m₀ hd
            by_cases he : e' = e
            · subst he
              by_cases hcomp : π.compiles e' = true <;> simp [hcomp, hiff]
            · by_cases hcomp : π.compiles e' = true <;>
                simp [hcomp, hiff, he, Ne.symm he]
          | publish a b =>
            simp only [settle, Option.some.injEq] at hm'
            rw [← hd]
            exact hsame (hd.trans (congrArg some hm')) (by simp)
          | direct =>
            simp only [settle, Option.some.injEq] at hm'
            rw [← hd]
            exact hsame (hd.trans (congrArg some hm')) (by simp)
          | _ => simp [settle] at hm'
    · rw [step_of_ne π hc] at hm'
      refine hsame hm' fun e' he => hc ?_
      rw [he]
      rfl

/-! ## Where the name comes from -/

/-- The session the peer has now began with this name. -/
def Opened (c : Peer) (name : Name) (es : List (Event Peer Name Expr Addr Body)) : Prop :=
  ∃ pre post, es = pre ++ .request c (.hello name) :: post ∧
    pre.foldl (step π) Directory.empty c = none ∧
    Stays π c ((pre ++ [.request c (.hello name)]).foldl (step π) Directory.empty) post

/-- An event that leaves a member its session leaves it its name. -/
theorem name_step {d : Directory Peer Name Expr} {c : Peer} {m m' : Member Name Expr}
    {x : Event Peer Name Expr Addr Body} (hm : d c = some m) (hm' : step π d x c = some m') :
    m'.name = m.name := by
  by_cases hc : c = x.peer
  · subst hc
    cases x with
    | expiry p => simp [step, Event.peer] at hm'
    | request p r =>
      simp only [Event.peer] at hm hm'
      simp only [step, Function.update_self, hm] at hm'
      cases r with
      | subscribe e =>
        simp only [settle, Option.some.injEq] at hm'
        rw [← hm']
      | publish a b =>
        simp only [settle, Option.some.injEq] at hm'
        rw [← hm']
      | direct =>
        simp only [settle, Option.some.injEq] at hm'
        rw [← hm']
      | _ => simp [settle] at hm'
  · rw [step_of_ne π hc, hm, Option.some.injEq] at hm'
    rw [← hm']

theorem Stays.name {c : Peer} {d : Directory Peer Name Expr} {m m' : Member Name Expr}
    {es : List (Event Peer Name Expr Addr Body)} (h : Stays π c d es) (hm : d c = some m)
    (hm' : es.foldl (step π) d c = some m') : m'.name = m.name := by
  induction es using List.reverseRecOn generalizing m' with
  | nil =>
    rw [List.foldl_nil, hm, Option.some.injEq] at hm'
    rw [← hm']
  | append_singleton es x ih =>
    obtain ⟨m₁, hm₁⟩ := Option.isSome_iff_exists.mp (h es (List.prefix_append _ _))
    rw [List.foldl_append] at hm'
    rw [name_step π hm₁ hm']
    exact ih (fun es' hes' => h es' (hes'.trans (List.prefix_append _ _))) hm₁

/-- **A member's name** is the one its session began with. -/
theorem opened_iff (c : Peer) (name : Name) (es : List (Event Peer Name Expr Addr Body)) :
    ∀ m : Member Name Expr, es.foldl (step π) Directory.empty c = some m →
      (Opened π c name es ↔ m.name = name) := by
  intro m hm
  constructor
  · rintro ⟨pre, post, rfl, hnone, hstays⟩
    rw [List.append_cons, List.foldl_append] at hm
    refine hstays.name π (m := { name, subscriptions := ∅ }) ?_ hm
    rw [List.foldl_append]
    simp [step, hnone, settle]
  · rintro rfl
    induction es using List.reverseRecOn generalizing m with
    | nil => exact absurd hm (by simp [Directory.empty])
    | append_singleton es x ih =>
      have hm' : step π (es.foldl (step π) Directory.empty) x c = some m := by
        rw [List.foldl_append] at hm
        exact hm
      cases hd : es.foldl (step π) Directory.empty c with
      | some m₀ =>
        -- an old session goes on
        obtain ⟨pre, post, rfl, hnone, hstays⟩ := ih m₀ hd
        rw [name_step π hd hm']
        refine ⟨pre, post ++ [x], by simp, hnone, fun es' hes' => ?_⟩
        rcases List.prefix_concat_iff.mp hes' with rfl | hes'
        · rw [← List.foldl_append, ← List.append_assoc, ← List.append_cons, hm]
          rfl
        · exact hstays es' hes'
      | none =>
        -- a new one begins
        have hc : c = x.peer := by
          by_contra hc
          rw [step_of_ne π hc, hd] at hm'
          exact absurd hm' (by simp)
        subst hc
        cases x with
        | expiry p => simp [step, Event.peer] at hm'
        | request p r =>
          simp only [Event.peer] at hd hm hm' ⊢
          simp only [step, Function.update_self, hd] at hm'
          cases r with
          | hello name =>
            simp only [settle, Option.some.injEq] at hm'
            subst hm'
            refine ⟨es, [], rfl, hd, fun es' hes' => ?_⟩
            rw [List.prefix_nil.mp hes', List.foldl_nil, hm]
            rfl
          | _ => simp [settle] at hm'

/-! ## Where a publication comes from -/

/-- What a peer is told, each reply with the peer whose event it comes from. -/
def traced (c : Peer) (d : Directory Peer Name Expr) (e : Event Peer Name Expr Addr Body) :
    List (Peer × Reply Name Addr Body) :=
  (out π c d e).map (e.peer, ·)

/-- That is all it is told. -/
theorem outputs_traced (c : Peer) (d : Directory Peer Name Expr)
    (es : List (Event Peer Name Expr Addr Body)) :
    (outputs (step π) (traced π) c d es).map Prod.snd = outputs (step π) (out π) c d es := by
  induction es generalizing d with
  | nil => rfl
  | cons e es ih =>
    rw [outputs, outputs, List.map_append, ih, traced, List.map_map]
    show (out π c d e).map id ++ _ = _
    rw [List.map_id]

/-- The address and the body of a publication, without the name that it was handed on under. -/
def Reply.publication : Reply Name Addr Body → Option (Addr × Body)
  | deliver _ a b => some (a, b)
  | _ => none

/-- The address and the body of a publication by a peer. -/
def Event.publicationBy (p : Peer) : Event Peer Name Expr Addr Body → Option (Addr × Body)
  | request q (.publish a b) => if q = p then some (a, b) else none
  | _ => none

omit [DecidableEq Expr] in
/-- What one event tells a peer of another that is not the peer's own: publications, under the name
that the other has at the time. -/
theorem eq_deliver_of_mem_traced {c : Peer} {d : Directory Peer Name Expr}
    {e : Event Peer Name Expr Addr Body} {x : Peer × Reply Name Addr Body}
    (hx : x ∈ traced π c d e) (hdeliver : x.2.IsDeliver) :
    x.1 ≠ c ∧ ∃ m a b, d x.1 = some m ∧ x.2 = .deliver m.name a b := by
  obtain ⟨r, hr, rfl⟩ := List.mem_map.mp hx
  cases e with
  | expiry q => cases hr
  | request q req =>
    by_cases hc : c = q
    · -- its own requests are answered otherwise
      rw [out, if_pos hc] at hr
      cases hd : d q <;> cases req <;> rw [hd] at hr <;>
        simp only [answer, List.mem_singleton, List.not_mem_nil] at hr <;> subst hr <;>
        exact hdeliver.elim
    · rw [out, if_neg hc] at hr
      cases req with
      | publish a b =>
        cases hq : d q with
        | none => simp [relayed, hq] at hr
        | some m =>
          cases hdc : d c with
          | none => simp [relayed, hdc] at hr
          | some m' =>
            rw [hq, hdc] at hr
            exact ⟨Ne.symm hc, m, a, b, hq, List.eq_of_mem_replicate hr⟩
      | _ => simp [relayed] at hr

omit [DecidableEq Expr] in
/-- What one event tells a peer that has subscribed to nothing but `S` of what another publishes. -/
theorem traced_sublist {c p : Peer} {d : Directory Peer Name Expr}
    {e : Event Peer Name Expr Addr Body} {S : Finset Expr} (hp : p ≠ c)
    (hS : ∀ m, d c = some m → m.subscriptions ⊆ S) :
    ((traced π c d e).filter (·.1 = p)).filterMap (·.2.publication) <+
      (e.publicationBy p).toList.flatMap fun x =>
        List.replicate (S.filter (π.selects · x.1)).card x := by
  by_cases he : e.peer = p
  · have hall : (traced π c d e).filter (·.1 = p) = traced π c d e := by
      rw [List.filter_eq_self]
      intro x hx
      obtain ⟨r, -, rfl⟩ := List.mem_map.mp hx
      simpa using he
    rw [hall, traced, List.filterMap_map]
    show (out π c d e).filterMap Reply.publication <+ _
    cases e with
    | expiry q => exact List.nil_sublist _
    | request q r =>
      obtain rfl : q = p := he
      rw [out, if_neg (Ne.symm hp)]
      cases r with
      | publish a b =>
        cases hdp : d q with
        | none => exact List.nil_sublist _
        | some m =>
          cases hdc : d c with
          | none => exact List.nil_sublist _
          | some m' =>
            simp only [relayed, Event.publicationBy, if_true, Option.toList_some,
              List.flatMap_singleton]
            rw [List.filterMap_replicate_of_some (show (Reply.deliver m.name a b).publication =
              some (a, b) from rfl)]
            refine List.replicate_sublist_replicate _ |>.mpr (Finset.card_le_card ?_)
            exact Finset.filter_subset_filter _ (hS m' hdc)
      | _ => exact List.nil_sublist _
  · have hnone : (traced π c d e).filter (·.1 = p) = [] := by
      rw [List.filter_eq_nil_iff]
      intro x hx
      obtain ⟨r, -, rfl⟩ := List.mem_map.mp hx
      simpa using he
    rw [hnone]
    exact List.nil_sublist _

/-- What a member has subscribed to after an event. -/
theorem subscriptions_step_subset {c : Peer} {d : Directory Peer Name Expr}
    {e : Event Peer Name Expr Addr Body} {S : Finset Expr}
    (hS : ∀ m, d c = some m → m.subscriptions ⊆ S) (he : ∀ x, e = .request c (.subscribe x) → x ∈ S) :
    ∀ m, step π d e c = some m → m.subscriptions ⊆ S := by
  by_cases hc : c = e.peer
  · subst hc
    cases e with
    | expiry q => simp [step, Event.peer]
    | request q r =>
      simp only [Event.peer] at hS
      simp only [step, Event.peer, Function.update_self]
      intro m hm
      cases hd : d q with
      | none =>
        rw [hd] at hm
        cases r <;> simp only [settle, Option.some.injEq, reduceCtorEq] at hm
        subst hm
        exact Finset.empty_subset S
      | some m₀ =>
        rw [hd] at hm
        cases r <;> simp only [settle, Option.some.injEq, reduceCtorEq] at hm <;> subst hm
        case subscribe x =>
          show (if _ then _ else _) ⊆ S
          split
          · exact Finset.insert_subset (he x rfl) (hS m₀ hd)
          · exact hS m₀ hd
        all_goals exact hS _ hd
  · rw [step_of_ne π hc]
    exact hS

/-- A member has only subscribed to what it has ever asked for. -/
theorem subscriptions_subset {c : Peer} {es : List (Event Peer Name Expr Addr Body)}
    {S : Finset Expr} (hS : ∀ x, .request c (.subscribe x) ∈ es → x ∈ S) :
    ∀ m, es.foldl (step π) Directory.empty c = some m → m.subscriptions ⊆ S := by
  induction es using List.reverseRecOn with
  | nil => exact nofun
  | append_singleton es e ih =>
    rw [List.foldl_append]
    exact subscriptions_step_subset π (ih fun x hx => hS x (List.mem_append_left _ hx))
      fun x hx => hS x (by simp [hx])

/-- A member has one of the names that it has given itself. -/
theorem name_eq_of_hello {p : Peer} {es : List (Event Peer Name Expr Addr Body)} {name : Name}
    (hname : ∀ x, .request p (.hello x) ∈ es → x = name) {m : Member Name Expr}
    (hm : es.foldl (step π) Directory.empty p = some m) : m.name = name := by
  obtain ⟨pre, post, rfl, -⟩ := (opened_iff π p m.name es m hm).mpr rfl
  exact hname _ (by simp)

/-- **Every publication has a publisher**, which is another peer, and is handed on under a name that
this peer has given itself. -/
theorem eq_deliver_of_mem_outputs {c : Peer} {es : List (Event Peer Name Expr Addr Body)}
    {x : Peer × Reply Name Addr Body}
    (hx : x ∈ outputs (step π) (traced π) c Directory.empty es) (hdeliver : x.2.IsDeliver) :
    x.1 ≠ c ∧ ∃ name a b, x.2 = .deliver name a b ∧ .request x.1 (.hello name) ∈ es := by
  induction es using List.reverseRecOn with
  | nil => cases hx
  | append_singleton es e ih =>
    rw [outputs_append, outputs, outputs, List.append_nil] at hx
    rcases List.mem_append.mp hx with hx | hx
    · obtain ⟨hne, name, a, b, hdel, hhello⟩ := ih hx
      exact ⟨hne, name, a, b, hdel, List.mem_append_left _ hhello⟩
    · obtain ⟨hne, m, a, b, hm, hdel⟩ := eq_deliver_of_mem_traced π hx hdeliver
      obtain ⟨pre, post, rfl, -⟩ := (opened_iff π x.1 m.name es m hm).mpr rfl
      exact ⟨hne, m.name, a, b, hdel, by simp⟩

/-- **No publication is made up, reordered or multiplied.** What a peer is told in a run of another's
publications are publications that the other has asked for, in the order in which it has, each at
most once for each matching expression among all that the peer has ever asked for. -/
theorem traced_outputs_sublist {c p : Peer} {es : List (Event Peer Name Expr Addr Body)}
    {S : Finset Expr} (hp : p ≠ c) (hS : ∀ x, .request c (.subscribe x) ∈ es → x ∈ S) :
    ((outputs (step π) (traced π) c Directory.empty es).filter (·.1 = p)).filterMap
        (·.2.publication) <+
      (es.filterMap (Event.publicationBy p)).flatMap fun x =>
        List.replicate (S.filter (π.selects · x.1)).card x := by
  induction es using List.reverseRecOn with
  | nil => exact List.nil_sublist _
  | append_singleton es e ih =>
    have hS' : ∀ x, .request c (.subscribe x) ∈ es → x ∈ S :=
      fun x hx => hS x (List.mem_append_left _ hx)
    have hlast := traced_sublist π (e := e) hp (subscriptions_subset π hS')
    rw [outputs_append, List.filter_append, List.filterMap_append, List.filterMap_append,
      List.flatMap_append, outputs, outputs, List.append_nil]
    refine (ih hS').append ?_
    cases hpub : e.publicationBy p with
    | none => simpa [hpub] using hlast
    | some x => simpa [hpub] using hlast

end System

end Zccp.Lib.PubSub
