import Qsf.Proof.Alignment

/-!
# Messages to nodes that are not there

A ROUTER drops a message to an unknown destination, or refuses it when
`router_mandatory` is set. `dispatch_message` returns the refusal as it returns any other
failure, and the loop of `qsf_start` ends on it.

* `dispatch_refused`, `round_sent`: one round, with a message that is refused or not.
* `keeps_dispatching_iff`: exactly when the loop goes on to the last message.
-/

set_option autoImplicit false

namespace Qsf

namespace RouterRun

variable {ι : Type} {mandatory : Bool} {lookup : Frame → Option ι} {peers : ℕ → Frame → Option ι}
  {s : RouterRun ι} {m : NodeSend} {ms : List Incoming} {sends : List NodeSend}

/-- **The loop goes on** over all the messages: after any number of rounds that many are
consumed, and all of them went out that have a destination. -/
def KeepsDispatching (mandatory : Bool) (peers : ℕ → Frame → Option ι) (sends : List NodeSend) :
    Prop :=
  ∀ n ≤ sends.length, ∃ s, qsfStartRounds mandatory peers n (start (sends.map NodeSend.incoming)) = some s ∧
    s.incoming = (sends.drop n).map NodeSend.incoming ∧ s.socket = .idle ∧
    s.delivered = forwarded peers (sends.take n)

theorem idle_unsent (h : s.socket = .idle) : s.Unsent := by
  unfold Unsent
  rw [h]
  exact ⟨rfl, rfl⟩

/-- A refused message ends the loop. -/
theorem dispatch_refused (hin : s.incoming = m.incoming :: ms) (hs : s.socket = .idle)
    (hm : mandatory = true) (hnone : lookup m.destination = none) :
    qsfStartLoop mandatory lookup 1 s = none := by
  have hr : s.socket.receiving = [] := by rw [hs]; rfl
  rw [qsfStartLoop, dispatch_pair (idle_unsent hs) hin hr rfl]
  simp only [forward, hm, hnone, Option.isNone_none, Bool.and_self, if_true]
  rw [if_pos (by norm_num)]

/-- **A round with a message that is not refused**: dropped, or sent on. -/
theorem round_sent (hin : s.incoming = m.incoming :: ms) (hs : s.socket = .idle)
    (hm : mandatory = true → (lookup m.destination).isSome = true) :
    ∃ s', qsfStartLoop mandatory lookup 1 s = some s' ∧ s'.incoming = ms ∧ s'.socket = .idle ∧
      s'.delivered = s.delivered ++ ((lookup m.destination).map (·, [m.sender, m.data])).toList := by
  have hr : s.socket.receiving = [] := by rw [hs]; rfl
  have hacc : Accepted mandatory lookup m.incoming := ⟨m.destination, m.data, rfl, hm⟩
  obtain ⟨s', hloop, hin', hsock, hdel⟩ := loop_accepted (idle_unsent hs) hin hr hacc
  exact ⟨s', hloop, hin', hsock.trans hs, hdel m.destination m.data rfl⟩

theorem forwarded_snoc (sends : List NodeSend) (m : NodeSend) :
    forwarded peers (sends ++ [m]) = forwarded peers sends ++
      ((peers sends.length m.destination).map (·, [m.sender, m.data])).toList := by
  unfold forwarded
  rw [List.zipIdx_append, List.filterMap_append]
  congr 1
  cases h : peers sends.length m.destination <;> simp [h]

/-- **The loop goes on** exactly when `router_mandatory` is off, or every message has its
destination there in its round. -/
theorem keeps_dispatching_iff (mandatory : Bool) (peers : ℕ → Frame → Option ι)
    (sends : List NodeSend) :
    KeepsDispatching mandatory peers sends ↔
      (mandatory = true → ∀ k (hk : k < sends.length), (peers k sends[k].destination).isSome = true) := by
  constructor
  · intro h hmand k hk
    obtain ⟨s, hs, hin, hsock, -⟩ := h k hk.le
    obtain ⟨s', hs', -⟩ := h (k + 1) hk
    rw [List.drop_eq_getElem_cons hk, List.map_cons] at hin
    by_contra hnone
    -- the round of this message would have ended the loop
    have hend : qsfStartLoop mandatory (peers k) 1 s = none :=
      dispatch_refused hin hsock hmand (by simpa using hnone)
    rw [qsfStartRounds, hs, Option.bind_some, hend] at hs'
    cases hs'
  · intro h n hn
    -- the state after `n` rounds
    induction n with
    | zero => exact ⟨_, rfl, rfl, rfl, rfl⟩
    | succ n ih =>
      obtain ⟨s, hs, hin, hsock, hdel⟩ := ih (by omega)
      rw [List.drop_eq_getElem_cons hn, List.map_cons] at hin
      have hm : mandatory = true → (peers n sends[n].destination).isSome = true := fun hm => h hm n hn
      obtain ⟨s', hs', hin', hsock', hdel'⟩ := round_sent hin hsock hm
      refine ⟨s', ?_, hin', hsock', ?_⟩
      · rw [qsfStartRounds, hs, Option.bind_some, hs']
      · have hlen : (sends.take n).length = n := List.length_take_of_le (by omega)
        rw [hdel', hdel, List.take_succ_eq_append_getElem hn, forwarded_snoc, hlen]

/-- **`router_mandatory = 1`, and one message to a name that nobody has**: the loop ends, and
the message behind it is never sent on. -/
theorem unknown_name_ends_loop : ¬ KeepsDispatching true (fun _ => onlyB)
    [⟨[97], [120], [1]⟩, ⟨[97], [98], [104, 105]⟩] := by
  intro h
  obtain ⟨s, hs, -⟩ := h 1 (by decide)
  cases hs

end RouterRun

end Qsf
