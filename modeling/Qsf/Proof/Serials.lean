import Qsf.Proof.Runs

/-!
# No serial is assigned twice

The serials are assigned in the cyclic order of the candidates (`candidate`), beginning
with `START_SERIAL_NUMBER`: while fewer than 2³² - 1 were assigned, the next candidate is
not the key of any session, since all keys were assigned before (`Issued.next_free`). So
the first 2³² - 1 serials are the candidates in their order (`Issued.order`), and these are
distinct (`candidate_inj`).
-/

set_option autoImplicit false

namespace Qsf

/-- How many serials there are: every 32-bit value but 0. -/
def SERIALS : ℕ := 4294967295

/-- The sessions added to the map and their serials, in order. -/
def accepts (tr : List TraceEvent) : List (ℕ × UInt32) :=
  tr.filterMap fun
    | .accept a n => some (a, n)
    | _ => none

/-- The serials assigned, in order. -/
def serialsAssigned (tr : List TraceEvent) : List UInt32 := (accepts tr).map Prod.snd

namespace Server

variable {s s' : Server} {a b : ℕ} {n : UInt32}

/-- The candidate tried after `k` others, from the start. -/
def candidate (k : ℕ) : UInt32 := nextCandidate^[k] START_SERIAL_NUMBER

theorem candidate_toNat (k : ℕ) : (candidate k).toNat = (999 + k) % SERIALS + 1 :=
  iterate_toNat (by decide) k

/-- The candidates repeat after all serials were tried. -/
theorem candidate_inj {i j : ℕ} (hi : i < SERIALS) (hj : j < SERIALS)
    (h : candidate i = candidate j) :
    i = j := by
  have hn := congrArg UInt32.toNat h
  rw [candidate_toNat, candidate_toNat] at hn
  unfold SERIALS at *
  omega

theorem candidate_succ (k : ℕ) : candidate (k + 1) = skipZero (candidate k + 1) :=
  Function.iterate_succ_apply' ..

/-- **How serials are assigned**: the members of the map have the keys under which they
were added, and the first serials are the candidates in their order. -/
structure Issued (s : Server) : Prop extends Inv s where
  keys : (s.members.map fun a => (s.sess a).serial).Nodup
  member : ∀ a ∈ s.members, (a, (s.sess a).serial) ∈ accepts s.trace
  created : ∀ p ∈ accepts s.trace, p.1 < s.allocated
  order : (serialsAssigned s.trace).take SERIALS =
    (List.range (min (accepts s.trace).length SERIALS)).map candidate
  next : (accepts s.trace).length ≤ SERIALS → skipZero s.nextSerial = candidate (accepts s.trace).length

theorem accepts_append (tr us : List TraceEvent) : accepts (tr ++ us) = accepts tr ++ accepts us :=
  List.filterMap_append

/-- Changes that add no session and change no serial. -/
theorem Issued.of_same (h : s.Issued) (hi : s'.Inv) (hm : s'.members.Sublist s.members)
    (hser : ∀ a ∈ s'.members, (s'.sess a).serial = (s.sess a).serial)
    (ha : s'.allocated = s.allocated) (hn : s'.nextSerial = s.nextSerial)
    (ht : accepts s'.trace = accepts s.trace) : s'.Issued where
  toInv := hi
  keys := by
    rw [List.map_congr_left hser]
    exact (hm.map _).nodup h.keys
  member a hm' := by
    rw [hser a hm', ht]
    exact h.member a (hm.subset hm')
  created p hp := by
    rw [ha]
    exact h.created p (ht ▸ hp)
  order := by
    rw [serialsAssigned, ht]
    exact h.order
  next hle := by
    rw [hn, ht]
    exact h.next (ht ▸ hle)

theorem Issued.drop (h : s.Issued) (a : ℕ) (hi : (s.drop a).Inv) : (s.drop a).Issued := by
  apply h.of_same hi (drop_members_sublist s a) (fun b _ => drop_serial b) rfl rfl
  rw [drop_trace, accepts_append]
  exact List.append_nil _

/-- No call, no report and no removal assigns a serial. -/
theorem issued_stable : Stable (fun _ _ => True) Issued := by
  apply Stable.of_inv
  case inv => exact fun s h => h.toInv
  case quiet =>
    intro s s' hq hi h
    exact h.of_same hi (by rw [hq.members]) (fun a _ => (hq.sess a).serial) (by rw [hq.rest]) (by rw [hq.rest])
      (by rw [hq.rest])
  case drop => exact fun s a hi h => h.drop a hi
  case stop =>
    intro s s' he hi h
    exact h.of_same hi (by rw [he]) (fun a _ => by rw [he]) (by rw [he]) (by rw [he]) (by rw [he])
  case report =>
    intro s who r _ hi h
    apply h.of_same hi (List.Sublist.refl _) (fun _ _ => rfl) rfl rfl
    exact (accepts_append _ _).trans (List.append_nil _)

/-- Every key of the map was assigned. -/
theorem Issued.key_assigned (h : s.Issued) (hlt : (accepts s.trace).length < SERIALS)
    (ha : a ∈ s.members) :
    ∃ i < (accepts s.trace).length, candidate i = (s.sess a).serial := by
  -- fewer serials than there are candidates: all of them are in order
  have hall : serialsAssigned s.trace = (List.range (accepts s.trace).length).map candidate := by
    have hlen : (serialsAssigned s.trace).length ≤ SERIALS := by
      rw [serialsAssigned, List.length_map]
      exact hlt.le
    have ho := h.order
    rwa [List.take_of_length_le hlen, min_eq_left hlt.le] at ho
  have hmem : (s.sess a).serial ∈ serialsAssigned s.trace := List.mem_map_of_mem (h.member a ha)
  rw [hall] at hmem
  obtain ⟨i, hi, he⟩ := List.mem_map.1 hmem
  exact ⟨i, List.mem_range.1 hi, he⟩

/-- **The next candidate is free** while some serial was never assigned. -/
theorem Issued.next_free (h : s.Issued) (hlt : (accepts s.trace).length < SERIALS) :
    s.hashFindInt (skipZero s.nextSerial) = none := by
  rw [h.next hlt.le, hashFindInt, List.find?_eq_none]
  intro a ha
  obtain ⟨i, hi, he⟩ := h.key_assigned hlt ha
  rw [← he, decide_eq_true_iff]
  intro hc
  exact absurd (candidate_inj (hi.trans hlt) hlt hc) hi.ne

theorem Issued.accepted {now : UInt64} (h : s.Issued) (hc : s.hashCount < s.maxConnection.toNat)
    (hfree : s.FirstFree n) : (s.accepted now n).Issued := by
  have hmem := accepted_members now n h.toOK
  have hold : ∀ a ∈ s.members, (s.accepted now n).sess a = s.sess a := fun a ha =>
    Function.update_of_ne (h.bound a ha).ne _ _
  have hnew : ((s.accepted now n).sess s.allocated).serial = n := by
    simp only [Server.accepted, Function.update_self]
  have hacc : accepts (s.accepted now n).trace = accepts s.trace ++ [(s.allocated, n)] :=
    accepts_append s.trace [.accept s.allocated n]
  have hser : serialsAssigned (s.accepted now n).trace = serialsAssigned s.trace ++ [n] := by
    rw [serialsAssigned, hacc, List.map_append]
    rfl
  have hlen : (serialsAssigned s.trace).length = (accepts s.trace).length := List.length_map _
  set k := (accepts s.trace).length with hk
  have hk' : (accepts (s.accepted now n).trace).length = k + 1 := by
    rw [hacc, List.length_append, List.length_singleton]
  -- the next candidate, while there are candidates that were never assigned
  have hn : k < SERIALS → n = candidate k := by
    intro hlt
    rw [hfree.eq_next (h.next_free hlt)]
    exact h.next hlt.le
  refine ⟨h.toInv.accepted hc, ?_, ?_, ?_, ?_, ?_⟩
  · rw [hmem, List.map_append, List.map_congr_left (fun a ha => by rw [hold a ha])]
    refine List.nodup_append.2 ⟨h.keys, List.nodup_singleton _, ?_⟩
    rintro m hm m' hm' rfl
    obtain ⟨a, ha, rfl⟩ := List.mem_map.1 hm
    rw [List.map_singleton, List.mem_singleton, hnew] at hm'
    exact hashFindInt_none hfree.1 a ha hm'
  · intro a ha
    rw [hacc, List.mem_append, List.mem_singleton]
    rw [hmem, List.mem_append, List.mem_singleton] at ha
    rcases ha with ha | rfl
    · rw [hold a ha]
      exact .inl (h.member a ha)
    · rw [hnew]
      exact .inr rfl
  · intro p hp
    rw [hacc, List.mem_append, List.mem_singleton] at hp
    show p.1 < s.allocated + 1
    rcases hp with hp | rfl
    · exact (h.created p hp).trans (Nat.lt_succ_self _)
    · exact Nat.lt_succ_self _
  · rw [hser, hk']
    by_cases hlt : k < SERIALS
    · have hle : (serialsAssigned s.trace).length ≤ SERIALS := by rw [hlen]; exact hlt.le
      have ho := h.order
      rw [List.take_of_length_le hle, min_eq_left hlt.le] at ho
      rw [List.take_of_length_le, ho, min_eq_left hlt, List.range_succ, List.map_append, List.map_singleton, hn hlt]
      rw [List.length_append, List.length_singleton, hlen]
      exact hlt
    · have ho := h.order
      rw [← hk, min_eq_right (not_lt.1 hlt)] at ho
      rw [List.take_append_of_le_length (by rw [hlen]; exact not_lt.1 hlt), ho, min_eq_right (by omega)]
  · intro hle
    rw [hk'] at hle ⊢
    rw [candidate_succ, ← hn hle]
    rfl

/-- **Every run** assigns serials in this way. -/
theorem issued_kept : Kept Issued where
  toStable := issued_stable
  inv _ h := h.toInv
  outside s s' he h :=
    h.of_same (h.toInv.outside he) (by rw [he]) (fun a _ => by rw [he]) (by rw [he]) (by rw [he]) (by rw [he])
  receive s a now bytes ha h := by
    refine h.of_same (h.toInv.setSess fun _ => ha) (List.Sublist.refl _) ?_ rfl rfl rfl
    intro b _
    rw [setSess_eq]
    split
    · rename_i hb
      rw [hb]
      exact (Session.fill_same _ now bytes.length).1
    · rfl
  refused s now h := by
    have hold : ∀ a ∈ s.members, (s.refused now).sess a = s.sess a := fun a ha =>
      Function.update_of_ne (h.bound a ha).ne _ _
    have hacc : accepts (s.refused now).trace = accepts s.trace :=
      (accepts_append s.trace [.destroy s.allocated]).trans (List.append_nil _)
    refine ⟨h.toInv.refused, ?_, ?_, ?_, ?_, ?_⟩
    · have hkeys : ((s.refused now).members.map fun a => ((s.refused now).sess a).serial) =
          s.members.map fun a => (s.sess a).serial :=
        List.map_congr_left fun a ha => by rw [hold a ha]
      rw [hkeys]
      exact h.keys
    · intro a ha
      rw [hold a ha, hacc]
      exact h.member a ha
    · intro p hp
      exact (h.created p (hacc ▸ hp)).trans (Nat.lt_succ_self _)
    · rw [serialsAssigned, hacc]
      exact h.order
    · intro hle
      rw [hacc] at hle ⊢
      exact h.next hle
  accepted s now n hc _ hfree h := h.accepted hc hfree
  turn s h := by
    refine h.of_same (inv_step (.quiet .turn) h.toInv trivial) (List.Sublist.refl _) ?_ rfl rfl rfl
    intro a _
    show (s.sess a).turn.serial = _
    unfold Session.turn
    split <;> rfl

theorem issued_create (m : UInt32) (b c : UInt16) : (qsfCreateNetServer m b c).Issued where
  toInv := inv_create m b c
  keys := List.nodup_nil
  member a ha := absurd ha List.not_mem_nil
  created p hp := absurd hp List.not_mem_nil
  order := by simp [qsfCreateNetServer, serialsAssigned, accepts]
  next _ := show skipZero START_SERIAL_NUMBER = candidate 0 by decide

theorem issued_reachable (h : netServer.Reachable s) : s.Issued :=
  issued_kept.reachable issued_create h

/-- The serials assigned first are distinct. -/
theorem Issued.distinct (h : s.Issued) : ((serialsAssigned s.trace).take SERIALS).Nodup := by
  rw [h.order]
  refine List.Nodup.map_on ?_ List.nodup_range
  intro i hi j hj he
  have hlt : ∀ m ∈ List.range (min (accepts s.trace).length SERIALS), m < SERIALS := fun m hm =>
    (List.mem_range.1 hm).trans_le (min_le_right _ _)
  exact candidate_inj (hlt i hi) (hlt j hj) he

/-- **A serial stands for one session**, while not all serials were used. -/
theorem Issued.stands_for (h : s.Issued) (hlen : (serialsAssigned s.trace).length ≤ SERIALS)
    (ha : (a, n) ∈ accepts s.trace) (hfind : s.hashFindInt n = some b) : b = a := by
  obtain ⟨hb, hser⟩ := mem_of_hashFindInt hfind
  have hmem := h.member b hb
  rw [hser] at hmem
  -- the serial was assigned once, so to one session
  have hnd := h.distinct
  rw [List.take_of_length_le hlen] at hnd
  have heq : (b, n) = (a, n) := List.inj_on_of_nodup_map hnd hmem ha rfl
  exact congrArg Prod.fst heq

end Server

open Server

/-- **Serial allocation.** The search of `set_session_serial` ends for any map of fewer than
2³² - 1 sessions and any `next_serial`, with a serial that is not 0 and not a key of the
map. In every run the keys of the map are distinct, the first 2³² - 1 serials assigned are
distinct, and while no more were assigned a serial finds no session but the one it was
assigned to. -/
theorem serials_fresh :
    (∀ (s : Server) (a : ℕ), s.hashCount < SERIALS →
      ∃ t, s.setSessionSerial a = some t ∧ (t.sess a).serial ≠ 0 ∧
        ∀ b ∈ s.members, (s.sess b).serial ≠ (t.sess a).serial) ∧
    ∀ s : Server, netServer.Reachable s →
      (s.members.map fun a => (s.sess a).serial).Nodup ∧
      ((serialsAssigned s.trace).take SERIALS).Nodup ∧
      ((serialsAssigned s.trace).length ≤ SERIALS → ∀ a n b, (a, n) ∈ accepts s.trace →
        s.hashFindInt n = some b → b = a) := by
  refine ⟨?_, ?_⟩
  · intro s a hcount
    obtain ⟨t, ht⟩ := setSessionSerial_isSome hcount a
    obtain ⟨n, hn, hfree, rfl⟩ := setSessionSerial_spec ht
    refine ⟨_, ht, ?_, ?_⟩
    · simpa using hn
    · intro b hb
      simpa using hashFindInt_none hfree.1 b hb
  · intro s hs
    have h := issued_reachable hs
    exact ⟨h.keys, h.distinct, fun hlen a n b ha hfind => h.stands_for hlen ha hfind⟩

/-- Two sessions, of which the first is closed, and a third. -/
theorem serials_fresh_first :
    let es := [.quiet (.start ⟨0, 0, 0, 0⟩), .quiet (.connection 0 0 0 0 0), .quiet (.connection 0 0 0 0 0),
      .quiet (.op (.close 1000)), .quiet (.connection 0 0 0 0 0)]
    let s := netServer.exec (qsfCreateNetServer 2 10 10) es
    s.members = [1, 2] ∧ serialsAssigned s.trace = [1000, 1001, 1002] ∧
      (∃ t, s.setSessionSerial 3 = some t ∧ (t.sess 3).serial ≠ 0 ∧
        ∀ b ∈ s.members, (s.sess b).serial ≠ (t.sess 3).serial) ∧
      (s.members.map fun a => (s.sess a).serial).Nodup ∧ ((serialsAssigned s.trace).take SERIALS).Nodup ∧
      (∀ b, s.hashFindInt 1000 = some b → b = 0) ∧ ∀ b, s.hashFindInt 1002 = some b → b = 2 := by
  intro es s
  have h₀ : netServer.Reachable (qsfCreateNetServer 2 10 10) := .start ⟨2, 10, 10, rfl⟩
  have hr : netServer.Runs (qsfCreateNetServer 2 10 10) es := ⟨trivial, rfl, rfl, trivial, rfl, trivial⟩
  obtain ⟨hkeys, hdistinct, hstands⟩ := serials_fresh.2 s (h₀.runs hr)
  have hlen : (serialsAssigned s.trace).length ≤ SERIALS := by decide
  exact ⟨rfl, rfl, serials_fresh.1 s 3 (by decide), hkeys, hdistinct, fun b => hstands hlen 0 1000 b (by decide),
    fun b => hstands hlen 2 1002 b (by decide)⟩

end Qsf
