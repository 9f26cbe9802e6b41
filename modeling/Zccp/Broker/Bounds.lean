import Zccp.Lib.Extends
import Zccp.Broker.Reactor

/-!
# `Zccp/Broker/Bounds.lean` — the two bounds are no part of the behaviour

The C program has neither `fuel` nor `depth`. Here each function is shown to answer the same with
more of either, bottom up, along the calls of the source. So a callback that gets through with
some bounds gets through in the same way with all larger ones: that is what it means that it
terminates, and that `s_client_execute` is nested no deeper than `depth`.

`Extends` orders partial results by definedness (`Zccp/Lib/Extends.lean`). All that is used of it is
that it respects `bind`, so that a proof follows the body of its function line by line, and says
nothing about what the function is for.
-/

set_option autoImplicit false

namespace Zccp.Broker

open Lib CursorList Extends

variable {z : Czmq} {f f' : Nat}

/-! ## What loops over one list -/

/-- The loop over the patterns, which is the only thing in it that takes a bound. -/
theorem clientTerminate_extends (hf : f ≤ f') (self : Ref) (s : Server) :
    Extends (clientTerminate f self s) (clientTerminate f' self s) :=
  forEach_extends _ _ (fun _ _ => .refl _) hf s

/-- Two searches take a bound, the one for the pattern and the one for the client on its list; what comes
after them is the same on both sides. -/
theorem storeNewSubscription_extends (hf : f ≤ f') (self : Ref) (s : Server) :
    Extends (storeNewSubscription z f self s) (storeNewSubscription z f' self s) := by
  apply bind_right
  intro c
  apply bind_right
  intro request
  apply bind_right
  intro expression
  apply (seek_extends _ hf _).bind
  rintro ⟨pattern, patterns⟩ -
  cases pattern with
  | none => exact .refl _
  | some i =>
    apply (seek_extends _ hf _).bind
    rintro ⟨client, clients⟩ -
    exact .refl _

theorem sClientDestroy_extends (hf : f ≤ f') (self : Ref) (s : Server) :
    Extends (sClientDestroy f self s) (sClientDestroy f' self s) := by
  apply bind_right
  intro c
  apply (clientTerminate_extends hf self _).bind
  intro s' _
  exact .refl _

theorem zhashDelete_extends (hf : f ≤ f') (hashkey : CStr) (s : Server) :
    Extends (zhashDelete f hashkey s) (zhashDelete f' hashkey s) := by
  unfold zhashDelete
  cases s.clients hashkey with
  | none => exact .refl _
  | some r => exact sClientDestroy_extends hf r _

theorem sClientFilterMailbox_extends (hf : f ≤ f') (self : Ref) (s : Server) :
    Extends (sClientFilterMailbox f self s) (sClientFilterMailbox f' self s) := by
  apply bind_right
  intro c
  apply (seek_extends _ hf _).bind
  rintro ⟨found, mailbox⟩ -
  cases found <;> exact .refl _

/-! ## What re-enters the state machine -/

section Reentry

-- `send` stands for the state machine one level down; these functions only pass it on
variable {send send' : Ref → Event → Server → Option Server}
  (hs : ∀ r e s, Extends (send r e s) (send' r e s))

include hs

theorem forwardToClient_extends (self : Ref) (i j : Nat) (s : Server) :
    Extends (forwardToClient send self i j s) (forwardToClient send' self i j s) := by
  apply bind_right
  intro client
  exact .ite (fun _ => hs client .forward s) fun _ => .refl _

theorem forwardPattern_extends (hf : f ≤ f') (self : Ref) (i : Nat) (s : Server) :
    Extends (forwardPattern z send f self i s) (forwardPattern z send' f' self i s) := by
  apply bind_right
  intro pattern
  apply bind_right
  intro c
  apply bind_right
  intro request
  apply bind_right
  intro address
  exact .ite (fun _ => forEach_extends _ _ (forwardToClient_extends hs self i) hf s)
    fun _ => .refl _

theorem forwardToSubscribers_extends (hf : f ≤ f') (self : Ref) (s : Server) :
    Extends (forwardToSubscribers z send f self s) (forwardToSubscribers z send' f' self s) := by
  apply bind_right
  intro c
  apply bind_right
  intro request
  exact forEach_extends _ _ (forwardPattern_extends hs hf self) hf _

theorem perform_extends (hf : f ≤ f') (self : Ref) (a : Action) (s : Server) :
    Extends (perform z send f self a s) (perform z send' f' self a s) := by
  cases a with
  | storeNewSubscription => exact storeNewSubscription_extends hf self s
  | forwardToSubscribers => exact forwardToSubscribers_extends hs hf self s
  | _ => exact .refl _

theorem runAction_extends (hf : f ≤ f') (self : Ref) (s : Server) (a : Action) :
    Extends (runAction z send f self s a) (runAction z send' f' self s a) := by
  apply bind_right
  intro c
  exact .ite (fun _ => perform_extends hs hf self a s) fun _ => .refl _

/-- One pass of the loop: its actions, and then whichever of the three ways out the flags choose. -/
theorem sClientIterate_extends (hf : f ≤ f') (self : Ref) (s : Server) :
    Extends (sClientIterate z send f self s) (sClientIterate z send' f' self s) := by
  apply bind_right
  intro c
  apply (foldlM (fun s a => runAction_extends hs hf self s a) _ _).bind
  intro s₁ _
  apply bind_right
  intro c₁
  apply bind_right
  intro c₂
  apply Extends.ite
  · intro _
    apply (zhashDelete_extends hf _ _).bind
    intro s₂ _
    exact .refl _
  · intro _
    apply Extends.ite
    · intro _
      apply (sClientFilterMailbox_extends hf self _).bind
      rintro ⟨event, s₂⟩ -
      exact .refl _
    · intro _
      exact .refl _

end Reentry

/-- The `while` of the state machine. With a bound of 0 a loop that has more to do has no result, so
that any larger one extends it; otherwise one pass of each is compared. -/
theorem executeLoop_extends {iterate iterate' : Server → Option (Server × Bool)}
    (h : ∀ s, Extends (iterate s) (iterate' s)) (self : Ref) (hf : f ≤ f') (s : Server) :
    Extends (executeLoop iterate self f s) (executeLoop iterate' self f' s) := by
  induction f generalizing f' s with
  | zero =>
    cases f' with
    | zero => exact .refl _
    | succ f' =>
      apply bind_right
      intro c
      by_cases hc : c.nextEvent = .null
      · simp only [if_pos hc]
        exact .refl _
      · simp only [if_neg hc]
        exact .none _
  | succ f ih =>
    obtain ⟨g, rfl⟩ : ∃ g, f' = g + 1 := ⟨f' - 1, by omega⟩
    apply bind_right
    intro c
    apply Extends.ite
    · intro _
      exact .refl _
    · intro _
      apply (h s).bind
      rintro ⟨s₁, left⟩ -
      exact .ite (fun _ => .refl _) fun _ => ih (Nat.le_of_succ_le_succ hf) s₁

/-- **`s_client_execute`**, by induction on the depth: the state machine that a pass re-enters is the one
the induction is about. -/
theorem sClientExecute_extends (hf : f ≤ f') {n n' : Nat} (hn : n ≤ n') (self : Ref) (event : Event)
    (s : Server) : Extends (sClientExecute z f n self event s) (sClientExecute z f' n' self event s) := by
  induction n generalizing n' self event s with
  | zero => exact .none _
  | succ n ih =>
    obtain ⟨m, rfl⟩ : ∃ m, n' = m + 1 := ⟨n' - 1, by omega⟩
    apply bind_right
    intro c
    have hloop := executeLoop_extends (fun s => sClientIterate_extends (z := z)
      (ih (Nat.le_of_succ_le_succ hn)) hf self s) self hf
    apply (hloop _).bind
    intro s₁ _
    exact .refl _

/-! ## The callbacks -/

/-- `s_server_client_message`, whose two loops have the same bound. -/
theorem sServerClientMessage_extends (hf : f ≤ f') {n n' : Nat} (hn : n ≤ n')
    (message : List Frame) (s : Server) :
    Extends (sServerClientMessage z f n message s) (sServerClientMessage z f' n' message s) := by
  unfold sServerClientMessage
  cases zccpMsgRecv message with
  | none => exact .refl _
  | some msg =>
    apply bind_right
    intro routingId
    apply bind_right
    intro s₁
    apply bind_right
    intro s₂
    apply (sClientFilterMailbox_extends hf _ s₂).bind
    rintro ⟨event, s₃⟩ -
    apply Extends.ite
    · intro _
      exact .refl _
    · intro _
      apply (sClientExecute_extends hf hn _ event s₃).bind
      intro s₄ _
      exact .refl _

end Zccp.Broker
