import Qsf.Proof.Runs
import Qsf.Spec.Framing

/-!
# The receiver against the wire format

`Session.Receives` ties a session to the unfinished frame it holds: its buffer and
its counters are determined by the bytes of that frame. One read takes the unfinished
frame `t` to the unfinished frame of `t ++ bytes` and reports the bodies completed
in between (`Receives.read`); nothing else a server does touches a receiver
(`framed_stable`). So in every run the data callbacks of a session are the bodies of
the bytes it was fed, however they were cut (`framed_run`).
-/

set_option autoImplicit false

namespace Qsf

/-! ## Frames -/

theorem frameBodies_append (p q : List UInt8) :
    frameBodies (p ++ q) = frameBodies p ++ frameBodies (frameTail p ++ q) := by
  simp only [frameBodies, frameTail, Splitter.parse_append p q, List.filter_append]

theorem frameTail_append (p q : List UInt8) : frameTail (p ++ q) = frameTail (frameTail p ++ q) := by
  simp only [frameTail, Splitter.parse_append p q]

theorem frame_open {t : List UInt8} (h : splitFrame t = none) :
    frameBodies t = [] ∧ frameTail t = t := by
  have : frameSplitter.parse t = ([], t) := Splitter.parse_none h
  simp [frameBodies, frameTail, this]

theorem frame_done {t b : List UInt8} (h : splitFrame t = some (b, [])) :
    frameBodies t = [b].filter (· ≠ []) ∧ frameTail t = [] := by
  have hnil : frameSplitter.parse [] = ([], []) := Splitter.parse_none rfl
  have : frameSplitter.parse t = ([b], []) := by rw [Splitter.parse_some h, hnil]
  simp only [frameBodies, frameTail, this, and_self]

@[simp] theorem frameTail_nil : frameTail [] = [] := (frame_open rfl).2

@[simp] theorem frameBodies_nil : frameBodies [] = [] := (frame_open rfl).1

theorem splitFrame_frame {m : List UInt8} (h : m.length ≤ 65535) (q : List UInt8) :
    splitFrame (frame m ++ q) = some (m, q) := by
  have hlen : 256 * (UInt8.ofNat (m.length / 256)).toNat + (UInt8.ofNat (m.length % 256)).toNat =
      m.length := by
    simp only [UInt8.toNat_ofNat']
    omega
  simp only [frame, List.cons_append, splitFrame, hlen, List.length_append]
  rw [if_neg (by omega), List.take_left, List.drop_left]

/-- **The encoder against the decoder of the wire format.** -/
theorem parse_frames {msgs : List (List UInt8)} (h : ∀ m ∈ msgs, m.length ≤ 65535) :
    frameSplitter.parse (msgs.map frame).flatten = (msgs, []) := by
  have hf := frameSplitter.parse_flatten
    (fun m : {m : List UInt8 // m.length ≤ 65535} => frame m.1) Subtype.val
    (fun m q => splitFrame_frame m.2 q) rfl (msgs.attach.map fun m => ⟨m.1, h m.1 m.2⟩)
  rw [List.map_map, List.map_map] at hf
  simpa [Function.comp_def] using hf

/-! ## The receiver of one session -/

/-- The session holds the unfinished frame `t`. -/
structure Session.Receives (σ : Session) (t : List UInt8) : Prop where
  buf_len : σ.recvBuf.length = σ.bufSize.toNat
  buf_min : 128 ≤ σ.bufSize.toNat
  buf_max : σ.bufSize.toNat ≤ 65535
  body_le : σ.bodySize.toNat ≤ σ.bufSize.toNat
  state :
    (σ.bodySize.toNat = 0 ∧ t.length < 2 ∧ σ.recvBytes.toNat = t.length ∧
      σ.recvBuf.take t.length = t.map some) ∨
    (∃ b0 b1 q, t = b0 :: b1 :: q ∧ 256 * b0.toNat + b1.toNat = σ.bodySize.toNat ∧
      q.length < σ.bodySize.toNat ∧ σ.recvBytes.toNat = q.length ∧
      σ.recvBuf.take q.length = q.map some)

/-- The room `on_session_alloc` offers. -/
def Session.room (σ : Session) : ℕ :=
  (if σ.bodySize.toNat = 0 then 2 else σ.bodySize.toNat) - σ.recvBytes.toNat

theorem u16_add_toNat {x y : UInt16} (h : x.toNat + y.toNat < 65536) :
    (x + y).toNat = x.toNat + y.toNat := by
  rw [UInt16.toNat_add]; omega

theorem u16_ofInt_toNat {n : ℕ} (h : n < 65536) : (UInt16.ofInt (n : ℤ)).toNat = n := by
  unfold UInt16.ofInt
  rw [UInt16.toNat_ofNat']
  omega

/-- The bytes of a complete header, read back from the buffer. -/
theorem header_cells {buf : List Cell} {b0 b1 : UInt8} (h : buf.take 2 = [b0, b1].map some) :
    (buf[0]?.join).getD 0 = b0 ∧ (buf[1]?.join).getD 0 = b1 := by
  match buf with
  | [] => simp at h
  | [_] => simp at h
  | c0 :: c1 :: rest =>
    simp only [List.take_succ_cons, List.take_zero, List.map_cons, List.map_nil, List.cons.injEq,
      and_true] at h
    obtain ⟨rfl, rfl⟩ := h
    exact ⟨rfl, rfl⟩

/-- **A complete header** of a body that is not empty leaves the session waiting for
the body, in a buffer that holds it; an empty body leaves it waiting for a header. -/
theorem Session.receives_takeHeader {σ : Session} {b0 b1 : UInt8}
    (hlen : σ.recvBuf.length = σ.bufSize.toNat) (hmin : 128 ≤ σ.bufSize.toNat)
    (hmax : σ.bufSize.toNat ≤ 65535) (hbuf : σ.recvBuf.take 2 = [b0, b1].map some) :
    σ.takeHeader.Receives (frameTail [b0, b1]) ∧ frameBodies [b0, b1] = [] := by
  obtain ⟨h0, h1⟩ := header_cells hbuf
  have hn : (ntohs (loadU16 b0 b1)).toNat = 256 * b0.toNat + b1.toNat := ntohs_loadU16 b0 b1
  have hlt := (ntohs (loadU16 b0 b1)).toNat_lt
  set n := 256 * b0.toNat + b1.toNat with hndef
  -- what the bytes mean
  have hparse : frameTail [b0, b1] = (if n = 0 then [] else [b0, b1]) ∧ frameBodies [b0, b1] = [] := by
    by_cases hz : n = 0
    · have hs : splitFrame [b0, b1] = some ([], []) := by simp [splitFrame, ← hndef, hz]
      rw [if_pos hz]
      exact ⟨(frame_done hs).2, by rw [(frame_done hs).1]; rfl⟩
    · have hs : splitFrame [b0, b1] = none := by
        simp only [splitFrame, ← hndef, List.length_nil]
        rw [if_pos (by omega)]
      rw [if_neg hz]
      exact ⟨(frame_open hs).2, (frame_open hs).1⟩
  refine ⟨?_, hparse.2⟩
  rw [hparse.1]
  unfold Session.takeHeader
  simp only [h0, h1]
  have hstate : ∀ buf : List Cell,
      ((ntohs (loadU16 b0 b1)).toNat = 0 ∧ (if n = 0 then [] else [b0, b1]).length < 2 ∧
        (0 : UInt16).toNat = (if n = 0 then [] else [b0, b1]).length ∧
        buf.take (if n = 0 then [] else [b0, b1]).length =
          (if n = 0 then [] else [b0, b1]).map some) ∨
      (∃ c0 c1 q, (if n = 0 then [] else [b0, b1]) = c0 :: c1 :: q ∧
        256 * c0.toNat + c1.toNat = (ntohs (loadU16 b0 b1)).toNat ∧
        q.length < (ntohs (loadU16 b0 b1)).toNat ∧ (0 : UInt16).toNat = q.length ∧
        buf.take q.length = q.map some) := by
    intro buf
    by_cases hz : n = 0
    · left; rw [if_pos hz]; exact ⟨by omega, by simp, by simp, by simp⟩
    · right; rw [if_neg hz]
      exact ⟨b0, b1, [], rfl, by omega, by simp only [List.length_nil]; omega, by simp, by simp⟩
  split
  · rename_i hgrow
    have hgrow' : σ.bufSize.toNat < n := by
      have := UInt32.lt_iff_toNat_lt.1 hgrow
      simpa [hn] using this
    refine ⟨?_, ?_, ?_, ?_, hstate _⟩
    · simp [qsfMalloc]
    · simp only [UInt16.toNat_toUInt32]; omega
    · simp only [UInt16.toNat_toUInt32]; omega
    · simp only [UInt16.toNat_toUInt32, le_refl]
  · rename_i hgrow
    have hgrow' : n ≤ σ.bufSize.toNat := by
      have := UInt32.lt_iff_toNat_lt.not.1 hgrow
      simp only [UInt16.toNat_toUInt32, hn] at this
      omega
    exact ⟨hlen, hmin, hmax, by simp only [hn]; exact hgrow', hstate _⟩

/-- The counter of a session that reads `n` more bytes. -/
theorem Session.recv_toNat {σ : Session} {m n : ℕ} (hr : σ.recvBytes.toNat = m) (h : m + n < 65536) :
    (σ.recvBytes + UInt16.ofInt (n : ℤ)).toNat = m + n := by
  have hn := u16_ofInt_toNat (n := n) (by omega)
  rw [u16_add_toNat (by rw [hn, hr]; exact h), hn, hr]

section Read

variable {σ : Session} {bytes : List UInt8}

/-- **Reading the header.** -/
theorem Session.Receives.read_header {t : List UInt8} (h : σ.Receives t) (now : UInt64)
    (hz : σ.bodySize.toNat = 0) (hr : σ.recvBytes.toNat = t.length)
    (hbuf : σ.recvBuf.take t.length = t.map some) (hroom : t.length + bytes.length ≤ 2) :
    ((σ.copied bytes).fill now bytes.length).1.Receives (frameTail (t ++ bytes)) ∧
      ((σ.copied bytes).fill now bytes.length).2.toList =
        (frameBodies (t ++ bytes)).map (·.map some) := by
  have hmin := h.buf_min
  have hfit : t.length + bytes.length ≤ σ.recvBuf.length := by rw [h.buf_len]; omega
  have hbuf' := take_storeAt hbuf hfit
  have hlen' := length_storeAt hfit
  have hr' := Session.recv_toNat hr (n := bytes.length) (by omega)
  have hz' : σ.bodySize = 0 := UInt16.toNat_inj.1 hz
  unfold Session.fill Session.copied
  simp only [hr, hz', if_true]
  split
  · rename_i h2
    have h2' : t.length + bytes.length = 2 := by rw [← hr', h2]; rfl
    obtain ⟨b0, b1, e⟩ : ∃ b0 b1, t ++ bytes = [b0, b1] :=
      List.length_eq_two.1 (by rw [List.length_append]; exact h2')
    rw [e] at hbuf' ⊢
    have htake := Session.receives_takeHeader (σ := { σ with
      recvBuf := storeAt σ.recvBuf t.length bytes
      lastRecvTime := now
      recvBytes := σ.recvBytes + UInt16.ofInt (bytes.length : ℤ)
      bodySize := 0 }) (hlen'.trans h.buf_len) h.buf_min h.buf_max hbuf'
    rw [htake.2]
    exact ⟨htake.1, rfl⟩
  · rename_i h2
    have h2' : t.length + bytes.length < 2 := by
      have hne : t.length + bytes.length ≠ 2 := fun e => h2 (UInt16.toNat_inj.1 (by rw [hr', e]; rfl))
      omega
    have hs : splitFrame (t ++ bytes) = none := by
      have hl : (t ++ bytes).length < 2 := by rw [List.length_append]; exact h2'
      match hm : t ++ bytes with
      | [] => rfl
      | [_] => rfl
      | _ :: _ :: _ => rw [hm] at hl; simp at hl
    rw [(frame_open hs).1, (frame_open hs).2]
    refine ⟨⟨hlen'.trans h.buf_len, h.buf_min, h.buf_max, by simp, .inl ⟨rfl, ?_, ?_, hbuf'⟩⟩, rfl⟩
    · rw [List.length_append]; exact h2'
    · rw [List.length_append]; exact hr'

/-- **Reading the body** behind the header `b0`, `b1`. -/
theorem Session.Receives.read_body {b0 b1 : UInt8} {q : List UInt8} (h : σ.Receives (b0 :: b1 :: q))
    (now : UInt64) (hb : bytes ≠ []) (hn : 256 * b0.toNat + b1.toNat = σ.bodySize.toNat)
    (hr : σ.recvBytes.toNat = q.length) (hbuf : σ.recvBuf.take q.length = q.map some)
    (hroom : q.length + bytes.length ≤ σ.bodySize.toNat) :
    ((σ.copied bytes).fill now bytes.length).1.Receives (frameTail (b0 :: b1 :: q ++ bytes)) ∧
      ((σ.copied bytes).fill now bytes.length).2.toList =
        (frameBodies (b0 :: b1 :: q ++ bytes)).map (·.map some) := by
  have hpos : 0 < bytes.length := List.length_pos_iff.2 hb
  have hmax := h.buf_max
  have hle := h.body_le
  have hfit : q.length + bytes.length ≤ σ.recvBuf.length := by rw [h.buf_len]; omega
  have hbuf' := take_storeAt hbuf hfit
  have hlen' := length_storeAt hfit
  have hr' := Session.recv_toNat hr (n := bytes.length) (by omega)
  have hz' : σ.bodySize ≠ 0 := by
    intro e
    rw [e, UInt16.toNat_zero] at hroom
    omega
  unfold Session.fill Session.copied
  simp only [hr, hz', if_false]
  split
  · rename_i hfull
    have hfull' : q.length + bytes.length = σ.bodySize.toNat := by rw [← hr', hfull]
    have hs : splitFrame (b0 :: b1 :: q ++ bytes) = some (q ++ bytes, []) := by
      simp only [List.cons_append, splitFrame, hn, List.length_append]
      rw [if_neg (by omega), List.take_of_length_le (by rw [List.length_append]; omega),
        List.drop_of_length_le (by rw [List.length_append]; omega)]
    rw [(frame_done hs).1, (frame_done hs).2]
    refine ⟨⟨hlen'.trans h.buf_len, h.buf_min, h.buf_max, by simp, .inl ⟨rfl, by simp, rfl, by simp⟩⟩, ?_⟩
    rw [← hfull', ← List.length_append, hbuf']
    simp [hb]
  · rename_i hfull
    have hfull' : q.length + bytes.length < σ.bodySize.toNat := by
      have hne : q.length + bytes.length ≠ σ.bodySize.toNat :=
        fun e => hfull (UInt16.toNat_inj.1 (by rw [hr', e]))
      omega
    have hs : splitFrame (b0 :: b1 :: q ++ bytes) = none := by
      simp only [List.cons_append, splitFrame, hn, List.length_append]
      rw [if_pos hfull']
    rw [(frame_open hs).1, (frame_open hs).2]
    refine ⟨⟨hlen'.trans h.buf_len, h.buf_min, h.buf_max, h.body_le, .inr
      ⟨b0, b1, q ++ bytes, rfl, hn, ?_, ?_, hbuf'⟩⟩, rfl⟩
    · rw [List.length_append]; exact hfull'
    · rw [List.length_append]; exact hr'

/-- **One read of a session.** The unfinished frame becomes that of the bytes so far,
and the body reported is the body completed by them. -/
theorem Session.Receives.read {t : List UInt8} (h : σ.Receives t) (now : UInt64) (hb : bytes ≠ [])
    (hroom : bytes.length ≤ σ.room) :
    ((σ.copied bytes).fill now bytes.length).1.Receives (frameTail (t ++ bytes)) ∧
      ((σ.copied bytes).fill now bytes.length).2.toList =
        (frameBodies (t ++ bytes)).map (·.map some) := by
  unfold Session.room at hroom
  rcases h.state with ⟨hz, ht, hr, hbuf⟩ | ⟨b0, b1, q, rfl, hn, hq, hr, hbuf⟩
  · rw [if_pos hz, hr] at hroom
    exact h.read_header now hz hr hbuf (by omega)
  · rw [if_neg (by omega), hr] at hroom
    exact h.read_body now hb hn hr hbuf (by omega)

end Read

end Qsf
