import Qsf.Proof.Delivery

/-!
# The receive buffer against hostile input

`Session.Fits` is what holds of a session between two reads: a buffer of 128 to 65535
bytes that is large enough for the body announced, and counters that stop short of the
end of the header or of the body. It makes `on_session_alloc` sound (`Fits.offers`), and
the sum in `on_session_read` exact (`Fits.recv_add`). Every session of every run fits
(`buffer_sound`), since it receives some bytes (`Session.Receives.fits`).
-/

set_option autoImplicit false

namespace Qsf

open Server

/-- Where the part being read ends: the header, or the body. -/
def Session.goal (σ : Session) : ℕ := if σ.bodySize = 0 then 2 else σ.bodySize.toNat

/-- The receive buffer and its counters between two reads. -/
structure Session.Fits (σ : Session) : Prop where
  buf_min : 128 ≤ σ.bufSize.toNat
  buf_max : σ.bufSize.toNat ≤ 65535
  buf_len : σ.recvBuf.length = σ.bufSize.toNat
  body_le : σ.bodySize.toNat ≤ σ.bufSize.toNat
  recv_lt : σ.recvBytes.toNat < σ.goal

/-- `on_session_alloc` passes its `assert`, and offers what is missing of the header or of
the body: not nothing, and all inside `recv_buf`. -/
structure Server.Offers (s : Server) (a : ℕ) : Prop where
  passes : (s.onSessionAlloc a).1 = s
  base : (s.onSessionAlloc a).2.1 = (s.sess a).recvBytes.toNat
  nonempty : 0 < (s.onSessionAlloc a).2.2
  inside : (s.onSessionAlloc a).2.1 + (s.onSessionAlloc a).2.2 ≤ (s.sess a).recvBuf.length
  missing : (s.onSessionAlloc a).2.1 + (s.onSessionAlloc a).2.2 = (s.sess a).goal

/-- Header and body both fit the buffer. -/
theorem Session.Fits.goal_le {σ : Session} (h : σ.Fits) : σ.goal ≤ σ.recvBuf.length := by
  have hmin := h.buf_min
  have hbody := h.body_le
  rw [h.buf_len, Session.goal]
  split <;> omega

/-- A session that received some bytes fits. -/
theorem Session.Receives.fits {σ : Session} {t : List UInt8} (h : σ.Receives t) : σ.Fits := by
  refine ⟨h.buf_min, h.buf_max, h.buf_len, h.body_le, ?_⟩
  unfold Session.goal
  rcases h.state with ⟨hz, ht, hr, -⟩ | ⟨b0, b1, q, -, -, hq, hr, -⟩
  · have hz' : σ.bodySize = 0 := UInt16.toNat_inj.1 hz
    rw [if_pos hz', hr]
    exact ht
  · have hz' : σ.bodySize ≠ 0 := by
      intro e
      rw [e] at hq
      exact absurd hq (Nat.not_lt_zero _)
    rw [if_neg hz', hr]
    exact hq

/-- **`on_session_alloc`** of a session that fits. -/
theorem Session.Fits.offers {s : Server} {a : ℕ} (h : (s.sess a).Fits) : s.Offers a := by
  have hlt := h.recv_lt
  have hle := h.goal_le
  have halloc : s.onSessionAlloc a =
      (s, (s.sess a).recvBytes.toNat, (s.sess a).goal - (s.sess a).recvBytes.toNat) := by
    unfold onSessionAlloc Session.goal at *
    have hbody := (s.sess a).bodySize.toNat_lt
    split_ifs with hz
    · simp only [hz, if_true] at hlt ⊢
      rw [if_neg (by omega)]
    · simp only [hz, if_false] at hlt ⊢
      congr 2
      -- the `int` difference is not negative
      omega
  refine ⟨?_, ?_, ?_, ?_, ?_⟩ <;> rw [halloc] <;> simp only <;> omega

/-- **The sum in `on_session_read`** is that of the numbers, for a read that the region
offered can hold. -/
theorem Session.Fits.recv_add {s : Server} {a n : ℕ} (h : (s.sess a).Fits)
    (hn : n ≤ (s.onSessionAlloc a).2.2) :
    ((s.sess a).recvBytes + UInt16.ofInt n).toNat = (s.sess a).recvBytes.toNat + n := by
  have ho := h.offers
  have hmax := h.buf_max
  have hlen := h.buf_len
  have hin := ho.inside
  rw [ho.base] at hin
  have hcast : (UInt16.ofInt n).toNat = n := u16_ofInt_toNat (by omega)
  rw [u16_add_toNat (by omega), hcast]

/-! ## Runs -/

theorem Session.fill_bufSize (σ : Session) (now : UInt64) (nread : ℤ) :
    σ.bufSize.toNat ≤ (σ.fill now nread).1.bufSize.toNat := by
  unfold Session.fill Session.takeHeader
  simp only
  split
  · split
    · split
      · rename_i hgrow
        exact le_of_lt (UInt32.lt_iff_toNat_lt.1 hgrow)
      · exact le_refl _
    · exact le_refl _
  · split <;> exact le_refl _

namespace Server

variable {s : Server} {a n : ℕ} {cb : Callback}

/-- The buffer of session `a` has at least `n` bytes. -/
structure Holds (n a : ℕ) (s : Server) : Prop extends Inv s where
  created : a < s.allocated
  bufSize : n ≤ (s.sess a).bufSize.toNat

/-- No call, no report and no removal touches a buffer. -/
theorem holds_stable (n a : ℕ) : Stable (fun _ _ => True) (Holds n a) := by
  apply Stable.of_inv
  case inv => exact fun s h => h.toInv
  case quiet =>
    intro s s' hq hi h
    refine ⟨hi, by rw [hq.rest]; exact h.created, ?_⟩
    rw [(hq.sess a).sameReceiver.2.2.1]
    exact h.bufSize
  case drop =>
    intro s b hi h
    refine ⟨hi, h.created, ?_⟩
    obtain ⟨handle, ha⟩ := exists_drop_sess s b a
    rw [ha]
    exact h.bufSize
  case stop =>
    intro s s' he hi h
    exact ⟨hi, by rw [he]; exact h.created, by rw [he]; exact h.bufSize⟩
  case report => exact fun s who r _ hi h => ⟨hi, h.created, h.bufSize⟩

/-- **A buffer never shrinks**, in any run. -/
theorem holds_kept (n a : ℕ) : Kept (Holds n a) where
  toStable := holds_stable n a
  inv _ h := h.toInv
  outside s s' he h := by
    exact ⟨h.toInv.outside he, by rw [he]; exact h.created, by rw [he]; exact h.bufSize⟩
  receive s b now bytes hb h := by
    refine ⟨h.toInv.setSess fun _ => hb, h.created, ?_⟩
    rw [setSess_eq]
    split
    · rename_i hab
      have hn := h.bufSize
      rw [hab] at hn
      exact hn.trans (((s.sess b).copied bytes).fill_bufSize now bytes.length)
    · exact h.bufSize
  refused s now h := by
    refine ⟨h.toInv.refused, h.created.trans (Nat.lt_succ_self _), ?_⟩
    simp only [refused, Function.update_of_ne h.created.ne]
    exact h.bufSize
  accepted s now k hc _ _ h := by
    refine ⟨h.toInv.accepted hc, h.created.trans (Nat.lt_succ_self _), ?_⟩
    simp only [accepted, Function.update_of_ne h.created.ne]
    exact h.bufSize
  turn s h := by
    refine ⟨inv_step (.quiet .turn) h.toInv trivial, h.created, ?_⟩
    show n ≤ (s.sess a).turn.bufSize.toNat
    unfold Session.turn
    split <;> exact h.bufSize

theorem framed_reachable (h : netServer.Reachable s) : ∃ β, Framed β s := by
  refine Machine.Reachable.invariant (I := fun s => ∃ β, Framed β s) ?_ ?_ h
  · rintro _ ⟨m, b, c, rfl⟩
    exact ⟨_, framed_create m b c⟩
  · rintro s e ⟨β, hs⟩ he
    exact ⟨_, framed_step hs he⟩

end Server

/-- **The receive buffers of a server**, whatever its clients send and however it is cut:
in every reachable state each session fits, `on_session_alloc` offers a region that is
inside its buffer and not empty, and a read of at most that many bytes is counted without
a wrap; no buffer shrinks afterwards. -/
theorem buffer_sound {s : Server} (h : netServer.Reachable s) (a : ℕ) (ha : a < s.allocated) :
    (s.sess a).Fits ∧ s.Offers a ∧
    (∀ bytes : List UInt8, bytes.length ≤ (s.onSessionAlloc a).2.2 →
      ((s.sess a).recvBytes + UInt16.ofInt bytes.length).toNat =
        (s.sess a).recvBytes.toNat + bytes.length) ∧
    ∀ es, netServer.Runs s es → (s.sess a).bufSize.toNat ≤ ((netServer.exec s es).sess a).bufSize.toNat := by
  obtain ⟨β, hβ⟩ := framed_reachable h
  have hfits : (s.sess a).Fits := (hβ.receives a ha).fits
  refine ⟨hfits, hfits.offers, fun bytes hb => hfits.recv_add hb, ?_⟩
  intro es hr
  -- from here on the buffer has at least the bytes it has now
  have hH : Holds (s.sess a).bufSize.toNat a s := ⟨hβ.toInv, ha, le_refl _⟩
  exact ((holds_kept _ a).run hH hr).bufSize

/-- A header that came in two pieces, and the first of three bytes of the body. -/
theorem buffer_sound_first :
    let es := accepting ++
      [.quiet (.read 0 0 (.data [0])), .quiet (.read 0 0 (.data [3])), .quiet (.read 0 0 (.data [7]))]
    let s := netServer.exec (qsfCreateNetServer 1 10 10) es
    (s.onSessionAlloc 0).2 = (1, 2) ∧ (s.sess 0).Fits ∧ s.Offers 0 ∧
      ((s.sess 0).recvBytes + UInt16.ofInt 2).toNat = (s.sess 0).recvBytes.toNat + 2 ∧
      (s.sess 0).bufSize.toNat ≤ ((netServer.exec s [.quiet (.read 0 1 (.data [8, 9]))]).sess 0).bufSize.toNat := by
  intro es s
  have h₀ : netServer.Reachable (qsfCreateNetServer 1 10 10) := .start ⟨1, 10, 10, rfl⟩
  have hr : netServer.Runs (qsfCreateNetServer 1 10 10) es :=
    ⟨trivial, rfl, ⟨rfl, by decide⟩, ⟨rfl, by decide⟩, ⟨rfl, by decide⟩, trivial⟩
  obtain ⟨hfits, hoffers, hread, hkept⟩ := buffer_sound (h₀.runs hr) 0 (by decide)
  exact ⟨by decide +kernel, hfits, hoffers, hread [8, 9] (by decide), hkept _ ⟨⟨rfl, by decide⟩, trivial⟩⟩

end Qsf
