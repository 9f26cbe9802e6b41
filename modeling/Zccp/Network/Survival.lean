import Zccp.Network.Delivery

/-!
# `Zccp/Network/Survival.lean` — what the broker of a network has to fear

A message that the broker cannot decode ends its reactor, and with it the service of everybody. A C
client can be made to send one: an expression or an address of more than 255 bytes is enough, since
`PUT_STRING` writes the length modulo 256 and all of the text. Where the texts of the applications go
out as they are it never does, in whatever order things happen, and `broker_up_iff` says that the broker
is then at the mercy of the other programs alone: it is up at the end of a run if and only if all that
these have sent was well-formed.

Two things make it an equivalence. A broker that has ended has heard one message that it could not
decode, and it was the last (`Follows`); whoever has sent it is a client, which sends none of that kind,
or a stranger. And what a stranger sends is read at once, so nothing malformed of it can be waiting
somewhere, unread, while the broker is still up.
-/

set_option autoImplicit false

namespace Zccp.Network

open Lib Broker

variable {z : Czmq} {peers : Finset Frame} {verbose : Bool} {c : Frame} {n : System}

/-- A stranger is no client: `step` refuses the label for the routing id of one. -/
theorem not_mem_of_stranger {labels : List Label} {frames : List Frame}
    (hrun : run z peers verbose labels = some n) (h : .stranger c frames ∈ labels) : c ∉ peers := by
  obtain ⟨pre, post, rfl⟩ := List.append_of_mem h
  obtain ⟨n₁, -, hrest⟩ := runFrom_of_append hrun
  rw [runFrom_cons] at hrest
  obtain ⟨n₂, hstep, -⟩ := Option.bind_eq_some_iff.mp hrest
  cases stepped hstep with
  | stranger _ _ hc hs => exact hc

theorem mem_sentBy {labels : List Label} {frames : List Frame} :
    frames ∈ sentBy c labels ↔ .stranger c frames ∈ labels := by
  rw [sentBy, List.mem_filterMap]
  constructor
  · rintro ⟨l, hl, hof⟩
    cases l with
    | stranger d frames' =>
      obtain ⟨rfl, hsame⟩ := Option.ite_none_right_eq_some.mp hof
      exact Option.some.inj hsame ▸ hl
    | _ => cases hof
  · intro h
    exact ⟨_, h, if_pos rfl⟩

theorem mem_framesFrom {inputs : List Input} {frames : List Frame} :
    frames ∈ framesFrom c inputs ↔ .message c frames ∈ inputs := by
  rw [framesFrom, List.mem_filterMap]
  constructor
  · rintro ⟨input, hinput, hof⟩
    cases input with
    | message d frames' =>
      obtain ⟨rfl, hsame⟩ := Option.ite_none_right_eq_some.mp hof
      exact Option.some.inj hsame ▸ hinput
    | expiry d => cases hof
  · intro h
    exact ⟨_, h, if_pos rfl⟩

/-- What the broker has read of a client, it could decode, and it can decode what is in the queue: all of
it is the encoding of messages whose texts fit. -/
theorem IsHistory.decodable {h : List Happening} {frames : List Frame} (hprintf : Printf z.zsysVprintf)
    (hhistory : IsHistory z peers verbose n h) (hc : c ∈ peers)
    (hverbatim : ∀ m, .client c (.command m) ∈ h → VerbatimCommand m)
    (hframes : frames ∈ framesFrom c (heard h)) : ∃ m, zccpMsgDecode frames = .ok m := by
  obtain ⟨sent, -, hsent⟩ := hhistory.sent hprintf hc hverbatim
  have hmem : zccpMsgDecode frames ∈ (framesFrom c (heard h) ++ n.toBroker c).map zccpMsgDecode :=
    List.mem_map_of_mem (List.mem_append_left _ hframes)
  rw [hsent] at hmem
  obtain ⟨m, -, hm⟩ := List.mem_map.mp hmem
  exact ⟨m, hm.symm⟩

/-- **The broker lives as long as the strangers are well-behaved.** Whatever has happened in a network
whose applications' texts go out as they are, its broker is up if and only if every message that another
program has sent is well-formed. -/
theorem broker_up_iff (z : Czmq) (peers : Finset Frame) (verbose : Bool) (labels : List Label)
    (n : System) (hprintf : Printf z.zsysVprintf) (hverbatim : ∀ l ∈ labels, l.CommandsVerbatim)
    (hrun : run z peers verbose labels = some n) :
    (∃ s, n.broker = .up s) ↔ ∀ c frames, .stranger c frames ∈ labels → WellFormed frames := by
  have hhistory := isHistory_of_run hrun
  have hfollows := hhistory.broker
  constructor
  · rintro ⟨s, hs⟩ c frames hmem
    rw [hs] at hfollows
    have hheard : frames ∈ framesFrom c (heard (history z peers verbose labels)) := by
      rw [framesFrom_stranger (not_mem_of_stranger hrun hmem) hrun]
      exact mem_sentBy.mpr hmem
    exact (zccpMsgDecode_ok_iff frames).mp (decodable_of_run hfollows _ (mem_framesFrom.mp hheard))
  · intro hwell
    cases hhost : n.broker with
    | up s => exact ⟨s, rfl⟩
    | aborted =>
      rw [hhost] at hfollows
      exact hfollows.elim
    | ended s =>
      -- somebody has sent what has ended it
      rw [hhost] at hfollows
      obtain ⟨before, last, hlast, hbad, -⟩ := hfollows
      cases last with
      | expiry d => exact absurd trivial hbad
      | message d frames =>
        have hframes : frames ∈ framesFrom d (heard (history z peers verbose labels)) :=
          mem_framesFrom.mpr (by simp [hlast])
        refine absurd ?_ hbad
        by_cases hd : d ∈ peers
        · exact hhistory.decodable hprintf hd
            (fun m hm => hverbatim _ (command_of_history hm)) hframes
        · rw [framesFrom_stranger hd hrun] at hframes
          exact (zccpMsgDecode_ok_iff frames).mpr (hwell d frames (mem_sentBy.mp hframes))

/-- Two clients have met, and a stranger sends a PING. -/
theorem broker_up_iff_meeting :
    ∃ n s, run (.printing .literal strictPrintf) {[1], [2]} false
        (meeting ++ [.stranger [3] (wire (zccpMsgNew .ping))]) = some n ∧ n.broker = .up s := by
  obtain ⟨n, hrun⟩ := Option.isSome_iff_exists.mp (show
    (run (.printing .literal strictPrintf) {[1], [2]} false
      (meeting ++ [.stranger [3] (wire (zccpMsgNew .ping))])).isSome = true by decide +kernel)
  have hwell : ∀ c frames, .stranger c frames ∈ meeting ++ [.stranger [3] (wire (zccpMsgNew .ping))] →
      WellFormed frames := by
    intro c frames hmem
    rcases List.mem_append.mp hmem with hmem | hmem
    · simp [meeting] at hmem
    · obtain ⟨-, rfl⟩ := Label.stranger.inj (List.mem_singleton.mp hmem)
      exact (zccpMsgDecode_ok_iff _).mp ⟨_, zccpMsgDecode_wire (by decide) trivial⟩
  obtain ⟨s, hs⟩ := (broker_up_iff _ {[1], [2]} false _ n strictPrintf_printf (by decide) hrun).mpr
    hwell
  exact ⟨n, s, hrun, hs⟩

end Zccp.Network
