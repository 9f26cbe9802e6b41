import Zccp.Broker.Lifecycle
import Zccp.Broker.Timers

/-!
# `Zccp/Broker/Timeouts.lean` — what the configuration does

The clients do not see the caller (`commands_unseen`), but for one thing: the timeout of their
sessions. A timer is armed with the timeout in force at that moment, and setting another one does
not touch it (`expires_iff_silent`). What is in force, and what the application sees of the tree, is
what was read last; a file that cannot be loaded leaves the old settings in force, an empty tree in
their place, and the application with a pointer to a tree that is gone (`settings_in_force`).
-/

set_option autoImplicit false

namespace Zccp.Broker.SServer

open Lib

variable {cfg : Zconfig} {z : Czmq} {env : Env cfg} {self self' : SServer cfg} {wake : Wake}

/-! ## When a timer goes off -/

theorem advance_eq_some_iff {w : Env cfg × Wake} :
    advance z self w = some self' ↔ ∃ rc, self.react z w.1 w.2 = some (self', rc) ∧ rc ≠ -1 := by
  constructor
  · intro h
    obtain ⟨⟨self₁, rc⟩, hreact, hrest⟩ := Option.bind_eq_some_iff.mp h
    by_cases hrc : rc = -1
    · exact absurd ((if_pos hrc).symm.trans hrest) nofun
    · obtain rfl := Option.some.inj ((if_neg hrc).symm.trans hrest)
      exact ⟨rc, hreact, hrc⟩
  · rintro ⟨rc, hreact, hrc⟩
    rw [advance, hreact, Option.bind_eq_bind, Option.bind_some]
    exact if_neg hrc

theorem inv_advance (self : SServer cfg) (w : Env cfg × Wake) (self' : SServer cfg)
    (hi : Inv z self.server.core) (h : advance z self w = some self') : Inv z self'.server.core := by
  obtain ⟨rc, hreact, -⟩ := advance_eq_some_iff.mp h
  rcases react_spec hi hreact with ⟨-, _, _, -, -, -, -, htrans, -⟩ | ⟨-, hsame⟩
  · exact htrans.inv hi
  · obtain ⟨verbose, hs⟩ := hsame.server
    rw [hs]
    exact { hi with }

/-- A timer runs, for a session of this peer, and goes off at a certain time. -/
def RunsUntil (p : Frame) (t : Timer) (until' : Int) (self : SServer cfg) : Prop :=
  self.server.core.Runs p t ∧ self.due t.id = until'

/-- The callback is that of a message from this peer, and what it arms goes off at a certain time. -/
def ArmsUntil (p : Frame) (until' : Int) (self : SServer cfg) (w : Env cfg × Wake) : Prop :=
  (∃ frames, w.2 = .client (.message p frames)) ∧ until' = w.1.after self.timeout

/-- **One callback.** A timer that runs has been armed by it, for the timeout then in force, or has
been running before, for the same time, and nothing has come from its peer. -/
theorem runsUntil_of_advance {w : Env cfg × Wake} {p : Frame} {t : Timer} {until' : Int}
    (hi : Inv z self.server.core) (h : advance z self w = some self')
    (hruns : RunsUntil p t until' self') :
    ArmsUntil p until' self w ∨
      ((∀ frames, w.2 ≠ .client (.message p frames)) ∧ RunsUntil p t until' self) := by
  obtain ⟨rc, hreact, hrc⟩ := advance_eq_some_iff.mp h
  obtain ⟨hruns, rfl⟩ := hruns
  obtain ⟨env, wake⟩ := w
  have hi' := inv_advance self (env, wake) self' hi h
  rcases react_spec hi hreact with ⟨-, input, tr, hwake, -, -, -, htrans, -, hdue⟩ | ⟨hheard, hsame⟩
  · obtain rfl : wake = .client input := hwake
    rw [hdue]
    rcases htrans.runs hi hruns with ⟨⟨frames, rfl⟩, hid⟩ | ⟨hother, hbefore⟩
    · rw [if_pos ⟨hid, hi'.timerBound t hruns.1⟩]
      exact .inl ⟨⟨frames, rfl⟩, rfl⟩
    · refine .inr ⟨fun frames he => hother frames (Wake.client.inj he), hbefore, ?_⟩
      rw [if_neg fun hid => Nat.not_lt.mpr (hi.timerBound t hbefore.1) hid.1]
  · obtain ⟨verbose, hs⟩ := hsame.server
    have hbefore : self.server.core.Runs p t := by
      rw [hs] at hruns
      exact hruns
    refine .inr ⟨fun frames he => ?_, hbefore, by rw [hsame.due]⟩
    -- a message that is nothing to the broker cannot be read, and ends the reactor
    obtain rfl : wake = .client (.message p frames) := he
    have hbad : ∀ m, zccpMsgDecode frames ≠ .ok m := fun m hm => by
      rw [heardIn, if_pos (by rw [zccpMsgRecv_ok hm, Option.isSome_some])] at hheard
      cases hheard
    simp only [react, mayHappen, if_true, clientCallback, handle_malformed z _ _ _ hbad,
      Option.bind_eq_bind, Option.bind_some, Option.some.injEq, Prod.mk.injEq] at hreact
    exact hrc hreact.2.symm

/-- **A session ends when its peer has been silent for the timeout that was in force when it was last
heard**, and not before, whatever has been configured since. -/
theorem expires_iff_silent (z : Czmq) {wakes : List (Env cfg × Wake)} {self : SServer cfg}
    (h : runFrom (advance z) sServerNew wakes = some self) {p : Frame} {σ : Session}
    (hp : self.server.core.lookup p = some σ) :
    ∃ pre env₀ frames post self₀, wakes = pre ++ (env₀, .client (.message p frames)) :: post ∧
      runFrom (advance z) sServerNew pre = some self₀ ∧
      (∀ wake ∈ post, ∀ frames', wake.2 ≠ .client (.message p frames')) ∧
      ∀ env, ∃ self', advance z self (env, .client (.expiry p)) = some self' ∧
        if env₀.after self₀.timeout ≤ env.now then self'.server.core.lookup p = none
        else self' = self := by
  have hi : Inv z self.server.core :=
    runFrom_preserves inv_advance sound_new.implements.inv h
  obtain ⟨r, hr, hσ⟩ := Option.bind_eq_some_iff.mp hp
  obtain ⟨σ', hσ', hpeer⟩ := hi.session_of_clients hr
  obtain rfl := Option.some.inj (hσ.symm.trans hσ')
  have hruns : RunsUntil p { id := σ.expiryTimer, argument := r } (self.due σ.expiryTimer) self :=
    ⟨⟨(hi.armed r σ hσ).2, σ, hσ, hpeer⟩, rfl⟩
  have hnone : ¬ RunsUntil p { id := σ.expiryTimer, argument := r } (self.due σ.expiryTimer)
      (sServerNew : SServer cfg) := fun hnew => List.not_mem_nil hnew.1.1
  obtain ⟨pre, w, post, self₀, self₁, rfl, hpre, -, ⟨⟨frames, hw⟩, hdue⟩, hpost, -⟩ :=
    runFrom_since (Q := fun w => ∀ frames, w.2 ≠ .client (.message p frames)) inv_advance
      (fun self w self' hi hstep hruns => runsUntil_of_advance hi hstep hruns)
      sound_new.implements.inv hnone h hruns
  obtain ⟨env₀, wake⟩ := w
  obtain rfl : wake = _ := hw
  refine ⟨pre, env₀, frames, post, self₀, rfl, hpre, hpost, fun env => ?_⟩
  have hmay : self.mayHappen env (.expiry p) = decide (env₀.after self₀.timeout ≤ env.now) := by
    rw [mayHappen, hp, Option.elim_some, hdue]
  by_cases hlate : env₀.after self₀.timeout ≤ env.now
  · rw [decide_eq_true hlate] at hmay
    obtain ⟨s', tr, hs', htrans, -⟩ := handle_spec hi (show (Input.expiry p).Decodable from trivial)
    obtain ⟨self', hreact, hserver⟩ : ∃ self',
        self.react z env (.client (.expiry p)) = some (self', 0) ∧ self'.server = s' := by
      simp only [react, hmay, if_true, clientCallback, hs', Option.bind_eq_bind, Option.bind_some]
      exact ⟨_, rfl, rfl⟩
    refine ⟨self', advance_eq_some_iff.mpr ⟨0, hreact, by decide⟩, ?_⟩
    rw [if_pos hlate, hserver, Core.lookup, (htrans.expired hi hσ hpeer).2]
    rfl
  · rw [decide_eq_false hlate] at hmay
    refine ⟨self, advance_eq_some_iff.mpr ⟨0, ?_, by decide⟩, if_neg hlate ▸ rfl⟩
    simp only [react, hmay, Bool.false_eq_true, if_false]

theorem expires_iff_silent_living : ∃ self,
    runFrom (advance .literal) sServerNew (living.take 4) = some self ∧
      ∃ pre env₀ frames post self₀,
        living.take 4 = pre ++ (env₀, .client (.message [2] frames)) :: post ∧
        runFrom (advance .literal) sServerNew pre = some self₀ ∧
        (∀ wake ∈ post, ∀ frames', wake.2 ≠ .client (.message [2] frames')) ∧
        ∀ env, ∃ self', advance .literal self (env, .client (.expiry [2])) = some self' ∧
          if env₀.after self₀.timeout ≤ env.now then self'.server.core.lookup [2] = none
          else self' = self := by
  have hsession : ((runFrom (advance .literal) sServerNew (living.take 4)).bind fun self =>
      self.server.core.lookup [2]).isSome = true := by decide +kernel
  obtain ⟨σ, hσ⟩ := Option.isSome_iff_exists.mp hsession
  obtain ⟨self, hself, hp⟩ := Option.bind_eq_some_iff.mp hσ
  exact ⟨self, hself, expires_iff_silent .literal hself hp⟩

/-! ## What is in force -/

/-- What a callback does to the configuration. -/
inductive Change
  /-- CONFIGURE has loaded its file. -/
  | loaded
  /-- CONFIGURE has not found its file, or it could not be read, while this timeout was in force. -/
  | failed (timeout : Nat)
  /-- SET. -/
  | set
  /-- The monitor has found that the file has changed, and has loaded it again. -/
  | reloaded
deriving DecidableEq

/-- The changes at a callback. A file that has changed and cannot be loaded again is not among them:
`s_watch_server_config` leaves everything as it is then. -/
def changeIn (self : SServer cfg) : Env cfg × Wake → List Change
  | (env, .command (.configure (some file))) =>
    if (env.zconfigLoad file).isSome then [.loaded] else [.failed self.timeout]
  | (_, .command (.set (some _) (some _))) => [.set]
  | (env, .monitor) =>
    if env.zconfigHasChanged self.config ∧ (env.zconfigReload self.config).isSome then [.reloaded]
    else []
  | _ => []

/-- What has been done to the configuration in a run. -/
def changes (z : Czmq) (wakes : List (Env cfg × Wake)) : List Change :=
  seenFrom (advance z) changeIn sServerNew wakes

/-- The tree, and what the server and the application have of it. -/
structure Configured (l : List Change) (actor : SServer cfg) : Prop where
  /-- Addresses go up. -/
  bound : actor.serverConfig ≤ actor.configAt
  /-- The application's pointer is to the tree, unless the last file could not be loaded. -/
  pointer : actor.serverConfig = actor.configAt ↔
    ∀ timeout, (l.filter (· ≠ .set)).getLast? ≠ some (.failed timeout)
  /-- The settings are those of the tree, unless that was the last thing that happened. -/
  timeout : (∀ timeout, l.getLast? ≠ some (.failed timeout)) →
    actor.timeout = configTimeout actor.config
  /-- Then the tree is empty, and the timeout is the one that was in force before. -/
  failed : ∀ timeout, l.getLast? = some (.failed timeout) →
    actor.config = cfg.new ∧ actor.timeout = timeout

theorem configured_new : Configured [] (sServerNew : SServer cfg) where
  bound := Nat.le_refl 0
  pointer := by simp [sServerNew, sServerConfigSelf]
  timeout _ := rfl
  failed timeout h := by cases h

/-- Where none of it is touched, nothing changes. -/
theorem Configured.congr {l : List Change} (h : Configured l self) (hc : self'.config = self.config)
    (hat : self'.configAt = self.configAt) (hs : self'.serverConfig = self.serverConfig)
    (ht : self'.timeout = self.timeout) : Configured l self' where
  bound := by rw [hat, hs]; exact h.bound
  pointer := by rw [hat, hs]; exact h.pointer
  timeout hl := by rw [ht, hc]; exact h.timeout hl
  failed timeout hl := by rw [ht, hc]; exact h.failed timeout hl

/-- A tree that has been read, and that the application has been told of. -/
theorem Configured.of_shared {l : List Change} {c : Change} (hc : ∀ timeout, c ≠ .failed timeout)
    (hset : c ≠ .set) (hs : self'.serverConfig = self'.configAt)
    (ht : self'.timeout = configTimeout self'.config) : Configured (l ++ [c]) self' where
  bound := Nat.le_of_eq hs
  pointer := by simp [hs, hc, hset]
  timeout _ := ht
  failed timeout hl := by simp [hc] at hl

/-- A command. VERBOSE, $TERM, PORT and BIND leave the configuration alone; CONFIGURE replaces the tree
whether the file loads or not, and applies it only if it does; SET works on the tree that is there. -/
theorem Configured.command {l : List Change} {message : ApiMessage} {rc : Int}
    (h : Configured l self) (hr : self.sServerApiMessage env message = some (self', rc)) :
    Configured (l ++ changeIn self (env, .command message)) self' := by
  cases message with
  | verbose | term | port | other =>
    cases hr
    show Configured (l ++ []) _
    rw [List.append_nil]
    exact h.congr rfl rfl rfl rfl
  | bind endpoint =>
    cases endpoint with
    | none => cases hr
    | some endpoint =>
      simp only [sServerApiMessage, Option.some.injEq, Prod.mk.injEq] at hr
      show Configured (l ++ []) _
      rw [← hr.1, List.append_nil]
      split <;> exact h.congr rfl rfl rfl rfl
  | configure file =>
    cases file with
    | none => cases hr
    | some file =>
      cases hload : env.zconfigLoad file with
      | some config =>
        simp only [sServerApiMessage, hload, Option.some.injEq, Prod.mk.injEq] at hr
        simp only [← hr.1, changeIn, hload, Option.isSome_some, if_true]
        exact .of_shared (by simp) (by simp) rfl rfl
      | none =>
        simp only [sServerApiMessage, hload, Option.some.injEq, Prod.mk.injEq] at hr
        simp only [← hr.1, changeIn, hload, Option.isSome_none, Bool.false_eq_true, if_false]
        -- the tree is replaced and the settings are not: the pointer is one behind
        refine ⟨Nat.le_succ_of_le h.bound, ?_, by simp, fun timeout hl => ⟨rfl, ?_⟩⟩
        · have hlt : self.serverConfig ≠ self.configAt + 1 :=
            Nat.ne_of_lt (Nat.lt_succ_of_le h.bound)
          simpa [setConfig, report] using hlt
        · rw [List.getLast?_concat, Option.some.injEq, Change.failed.injEq] at hl
          exact hl
  | set path value =>
    cases path with
    | none => cases hr
    | some path =>
      cases value with
      | none => cases hr
      | some value =>
        simp only [sServerApiMessage, Option.some.injEq, Prod.mk.injEq] at hr
        show Configured (l ++ [.set]) _
        rw [← hr.1]
        split <;> exact ⟨h.bound, by simpa [sServerConfigSelf, report] using h.pointer, fun _ => rfl,
          by simp⟩

/-- **One callback.** -/
theorem Configured.advance {l : List Change} {w : Env cfg × Wake} (h : Configured l self)
    (hr : advance z self w = some self') : Configured (l ++ changeIn self w) self' := by
  obtain ⟨rc, hreact, -⟩ := advance_eq_some_iff.mp hr
  obtain ⟨env, wake⟩ := w
  cases wake with
  | command message => exact h.command hreact
  | client input =>
    show Configured (l ++ []) _
    rw [List.append_nil]
    simp only [react] at hreact
    split at hreact
    · obtain ⟨⟨server, rc'⟩, -, hself⟩ := Option.bind_eq_some_iff.mp hreact
      obtain ⟨rfl, rfl⟩ := Prod.mk.inj (Option.some.inj hself)
      exact h.congr rfl rfl rfl rfl
    · cases hreact
      exact h
  | monitor =>
    cases hreact
    unfold changeIn sWatchServerConfig
    by_cases hchanged : env.zconfigHasChanged self.config = true
    · cases hreload : env.zconfigReload self.config with
      | some config =>
        simp only [hchanged, if_true, hreload, Option.isSome_some, and_self]
        exact .of_shared (by simp) (by simp) rfl rfl
      | none =>
        simp only [hchanged, if_true, hreload, Option.isSome_none, Bool.false_eq_true, and_false,
          if_false, List.append_nil]
        exact h
    · simp only [hchanged, Bool.false_eq_true, if_false, false_and, List.append_nil]
      exact h

/-- **What is in force.** After every run of the actor, the application's pointer is to the tree that
the server has unless the last file that the caller named could not be loaded; the timeout is that
of the tree, or the one before if that was the last thing that happened. -/
theorem settings_in_force (z : Czmq) {wakes : List (Env cfg × Wake)} {self : SServer cfg}
    (h : runFrom (SServer.advance z) sServerNew wakes = some self) :
    Configured (changes z wakes) self :=
  runFrom_seen (I := fun self l => Configured l self) (fun _ _ _ _ h hr => h.advance hr)
    configured_new h

/-- After a file that is not there, the application's pointer dangles, and the 2 ms that had been set
before stay in force. -/
theorem settings_in_force_living : ∃ self,
    runFrom (SServer.advance .literal) sServerNew (living.take 7) = some self ∧
      self.serverConfig ≠ self.configAt ∧ self.config = [] ∧ self.timeout = 2 := by
  have hsome : (runFrom (SServer.advance .literal) (sServerNew : SServer .flat)
      (living.take 7)).isSome = true := by decide +kernel
  have hfailed : (changes .literal (living.take 7)).getLast? = some (.failed 2) := by decide +kernel
  have hloaded : ((changes .literal (living.take 7)).filter (· ≠ .set)).getLast? =
      some (.failed 2) := by decide +kernel
  obtain ⟨self, hself⟩ := Option.isSome_iff_exists.mp hsome
  have h := settings_in_force .literal hself
  exact ⟨self, hself, fun he => h.pointer.mp he 2 hloaded, h.failed 2 hfailed⟩

end Zccp.Broker.SServer
