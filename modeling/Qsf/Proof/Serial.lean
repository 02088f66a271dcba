import Qsf.Lib.Probe
import Qsf.Proof.Calls

/-!
# Serial numbers

`set_session_serial` is linear probing over the 2³² - 1 non-zero serials
(`setSessionSerialLoop_eq`): it ends while fewer sessions than that are in the map
(`setSessionSerial_isSome`), with the first candidate that is not 0 and not a key of the
map (`setSessionSerial_spec`).
-/

set_option autoImplicit false

namespace Qsf

namespace Server

variable {s s' : Server} {a b : ℕ}

/-- `if (serial == 0) serial++`. -/
def skipZero (n : UInt32) : UInt32 := if n = 0 then n + 1 else n

/-- The candidate tried after `n`. -/
def nextCandidate (n : UInt32) : UInt32 := skipZero (n + 1)

theorem setSessionSerialLoop_eq (s : Server) (k : ℕ) :
    ∀ n, s.setSessionSerialLoop k n =
      probe (fun n => (s.hashFindInt n).isSome) nextCandidate k (skipZero n) := by
  induction k with
  | zero => intro n; rfl
  | succ k ih =>
    intro n
    simp only [setSessionSerialLoop, probe]
    rw [show (if n = 0 then n + 1 else n) = skipZero n from rfl]
    split
    · rename_i h; simp [h]
    · rename_i h; rw [ih, if_pos (by simp [h])]; rfl

theorem skipZero_ne (n : UInt32) : skipZero n ≠ 0 := by
  unfold skipZero
  split
  · rename_i h; subst h; decide
  · assumption

/-- The candidates run through the non-zero serials in a cycle of length 2³² - 1. -/
theorem iterate_toNat {n : UInt32} (hn : n ≠ 0) (k : ℕ) :
    (nextCandidate^[k] n).toNat = (n.toNat - 1 + k) % 4294967295 + 1 := by
  have hpos : 0 < n.toNat := Nat.pos_of_ne_zero fun h => hn (UInt32.toNat_inj.1 h)
  have hlt := n.toNat_lt
  induction k with
  | zero => simp only [Function.iterate_zero, id_eq]; omega
  | succ k ih =>
    rw [Function.iterate_succ_apply']
    set m := nextCandidate^[k] n
    have hm := m.toNat_lt
    have hadd : (m + 1).toNat = (m.toNat + 1) % 4294967296 := by simp [UInt32.toNat_add]
    unfold nextCandidate skipZero
    split
    · rename_i h0
      have hz : (m + 1).toNat = 0 := by rw [h0]; rfl
      rw [h0]
      simp only [UInt32.zero_add, UInt32.reduceToNat]
      omega
    · rename_i h0
      have hz : (m + 1).toNat ≠ 0 := fun h => h0 (UInt32.toNat_inj.1 h)
      omega

/-- **The search ends** while some non-zero serial is free. -/
theorem setSessionSerial_isSome (h : s.hashCount < 4294967295) (a : ℕ) :
    ∃ t, s.setSessionSerial a = some t := by
  have htaken : ∀ n, (s.hashFindInt n).isSome = true → n ∈ s.members.map fun b => (s.sess b).serial := by
    intro n hn
    obtain ⟨b, hb⟩ := Option.isSome_iff_exists.1 hn
    obtain ⟨hm, hs⟩ := mem_of_hashFindInt hb
    exact List.mem_map.2 ⟨b, hm, hs⟩
  have hlen : (s.members.map fun b => (s.sess b).serial).length = s.hashCount := by
    rw [List.length_map]; rfl
  obtain ⟨n, hn⟩ := probe_isSome nextCandidate htaken (a := skipZero s.nextSerial) (by
    intro i hi j hj hij
    rw [hlen] at hi hj
    have hi' := iterate_toNat (skipZero_ne s.nextSerial) i
    have hj' := iterate_toNat (skipZero_ne s.nextSerial) j
    rw [hij, hj'] at hi'
    omega)
  rw [hlen, ← setSessionSerialLoop_eq] at hn
  exact ⟨_, by rw [setSessionSerial, hn]; rfl⟩

/-- `n` is the first candidate from `next_serial` on that is not a key of the map. -/
def FirstFree (s : Server) (n : UInt32) : Prop :=
  s.hashFindInt n = none ∧ ∃ k, n = nextCandidate^[k] (skipZero s.nextSerial) ∧
    ∀ j < k, s.hashFindInt (nextCandidate^[j] (skipZero s.nextSerial)) ≠ none

/-- **The serial found** is not 0 and not the key of a session in the map. -/
theorem setSessionSerial_spec (h : s.setSessionSerial a = some s') :
    ∃ n, n ≠ 0 ∧ s.FirstFree n ∧
      s' = { s.setSess a { s.sess a with serial := n } with nextSerial := n + 1 } := by
  unfold setSessionSerial at h
  obtain ⟨n, hn, rfl⟩ := Option.map_eq_some_iff.1 h
  rw [setSessionSerialLoop_eq] at hn
  obtain ⟨k, -, hk, hfree, htaken⟩ := probe_eq_iterate hn
  refine ⟨n, ?_, ⟨by simpa using hfree, k, hk, ?_⟩, rfl⟩
  · intro h0
    have := iterate_toNat (skipZero_ne s.nextSerial) k
    rw [← hk, h0] at this
    simp at this
  · intro j hj
    exact Option.isSome_iff_ne_none.1 (htaken j hj)

/-- The next candidate is taken when it is free. -/
theorem FirstFree.eq_next {n : UInt32} (h : s.FirstFree n)
    (hfree : s.hashFindInt (skipZero s.nextSerial) = none) :
    n = skipZero s.nextSerial := by
  obtain ⟨-, k, hk, htaken⟩ := h
  cases k with
  | zero => exact hk
  | succ k => exact absurd hfree (htaken 0 (Nat.succ_pos k))

theorem hashFindInt_none {n : UInt32} (h : s.hashFindInt n = none) :
    ∀ b ∈ s.members, (s.sess b).serial ≠ n := by
  intro b hb
  have := List.find?_eq_none.1 h b hb
  simpa using this

end Server

end Qsf
