import Qsf.Proof.Ltn12
import Qsf.Proof.LuaMatch
import Qsf.Spec.Http

/-!
# HTTP connections: proofs

`Reads` and `Writes` are what LuaSocket promises of a connection.

* `http_chunked`: a chunked body is read as it was written, up to its first empty chunk.
* `http_chunked_filtered`: a filter in front of it, at the source and at the sink.
* `receiveheaders_text`: the fields that `sendheaders` writes are read back.
* `http_by_length`, `http_until_closed`: bodies of known length, and up to the end of the connection.
* `http_response`: whole responses.
-/

set_option autoImplicit false

namespace Qsf

variable {σ τ α β : Type} {sock : Sock σ}

/-- The bytes on their way to this end arrive as lines, or as many at once as are wanted. -/
structure Sock.Reads (sock : Sock σ) (pending : σ → List UInt8) : Prop where
  line : ∀ {s l rest}, pending s = l ++ CRLF ++ rest → 10 ∉ l → 13 ∉ l →
    ∃ s', sock.receiveLine s = pure (.ok l, s') ∧ pending s' = rest
  exact : ∀ {s d rest}, pending s = d ++ rest → d ≠ [] →
    ∃ s', sock.receive d.length s = pure (.ok d, s') ∧ pending s' = rest

/-- What this end sends is written to the connection. -/
structure Sock.Writes (sock : Sock σ) (written : σ → List UInt8) : Prop where
  send : ∀ s d, ∃ s', sock.send d s = pure ((true, none), s') ∧ written s' = written s ++ d

/-! ## Chunked bodies -/

theorem formatBase_notMem {b n : ℕ} (hb : 1 < b) (hb' : b ≤ 16) {c : UInt8} (hc : isalnum c = false) :
    c ∉ formatBase b n := by
  intro h
  obtain ⟨d, hd, rfl⟩ := mem_formatBase hb h
  rw [(digit_facts d (hd.trans_le hb')).2.1] at hc
  cases hc

theorem chunkSize_formatX (n : ℕ) : chunkSize (formatX n) = pure (some (Int64.ofNat n)) := by
  have hgsub : stringGsub (formatX n) (fun (u : Unit) _ => (some [], u)) (str ";.*") () = .ok (formatX n, ()) := by
    refine gsubFrom_none (i := 0) ?_ _ ()
    intro j _
    have hno : singlematch (formatX n) j (.char (ch ';')) = false := by
      unfold singlematch
      cases h : (formatX n)[j]? with
      | none => rfl
      | some c =>
        show (ch ';' == c) = false
        rw [beq_eq_false_iff_ne]
        rintro rfl
        exact formatBase_notMem (by decide) (by decide) (by decide) (List.mem_of_getElem? h)
    show doMatch (formatX n) (.single (.char (ch ';')) .once :: _) _ j [] = _
    rw [doMatch, hno]
    rfl
  unfold chunkSize
  rw [hgsub]
  show (pure (tonumberBase (formatX n) 16) : LuaRun _) = _
  rw [formatX, tonumberBase_formatBase (by decide) (by decide)]

section Pieces

variable {ys : List (List UInt8)}

theorem takeWhile_pieces (h : [] ∉ ys) : ys.takeWhile (· ≠ []) = ys :=
  List.takeWhile_eq_self_iff.2 fun _ hy => decide_eq_true (ne_of_mem_of_not_mem hy h)

theorem takeWhile_pieces_cons (h : [] ∉ ys) (zs : List (List UInt8)) : (ys ++ [] :: zs).takeWhile (· ≠ []) = ys := by
  rw [List.takeWhile_append_of_pos fun _ hy => decide_eq_true (ne_of_mem_of_not_mem hy h),
    List.takeWhile_cons_of_neg (by simp), List.append_nil]

end Pieces

/-- A chunk as it is sent. -/
def chunkText (x : List UInt8) : List UInt8 := formatX x.length ++ CRLF ++ x ++ CRLF

section Chunked

variable {pending : σ → List UInt8} {s : σ} {x rest : List UInt8} (hs : Option Headers)

theorem receive_size {q : List UInt8} (hr : sock.Reads pending) (h : pending s = formatX x.length ++ CRLF ++ q) :
    ∃ s', sock.receiveLine s = pure (.ok (formatX x.length), s') ∧ pending s' = q :=
  hr.line h (formatBase_notMem (by decide) (by decide) (by decide)) (formatBase_notMem (by decide) (by decide) (by decide))

theorem sourceHttpChunked_chunk (hr : sock.Reads pending) (hx : x ≠ []) (hlen : x.length < 2 ^ 63)
    (h : pending s = chunkText x ++ rest) :
    ∃ s', sourceHttpChunked sock (s, hs) = pure ((some x, none), (s', hs)) ∧ pending s' = rest := by
  have hpos := List.length_pos_iff.2 hx
  obtain ⟨s₁, hline, h₁⟩ := receive_size (x := x) (q := x ++ (CRLF ++ rest)) hr (by
    rw [h, chunkText]
    simp only [List.append_assoc])
  obtain ⟨s₂, hrecv, h₂⟩ := hr.exact h₁ hx
  obtain ⟨s₃, hend, h₃⟩ := hr.line (l := []) h₂ List.not_mem_nil List.not_mem_nil
  have hint : (Int64.ofNat x.length).toInt = x.length := Int64.toInt_ofNat_of_lt hlen
  refine ⟨s₃, ?_, h₃⟩
  unfold sourceHttpChunked
  dsimp only
  rw [hline]
  show (chunkSize (formatX x.length) >>= _) = _
  rw [chunkSize_formatX]
  have hsize : (0 : Int64) < Int64.ofNat x.length := by
    rw [Int64.lt_iff_toInt_lt, hint]
    exact Int.natCast_pos.2 hpos
  show (if (0 : Int64) < Int64.ofNat x.length then _ else _) = _
  rw [if_pos hsize, hint, Int.toNat_natCast, hrecv]
  show (sock.receiveLine s₂ >>= _) = _
  rw [hend]
  rfl

theorem headersLoop_end (hs : Option Headers) (s : σ) : headersLoop sock hs [] s = pure (.ok hs, s) := by
  rw [headersLoop, luaLoop_eq]
  dsimp only
  rw [if_pos rfl]
  rfl

/-- A chunk of size 0 ends the body, and so does an empty chunk. -/
theorem sourceHttpChunked_end (hr : sock.Reads pending) (h : pending s = chunkText [] ++ rest) :
    ∃ s', sourceHttpChunked sock (s, hs) = pure ((none, none), (s', hs)) ∧ pending s' = rest := by
  obtain ⟨s₁, hline, h₁⟩ := receive_size (x := []) (q := CRLF ++ rest) hr (by
    rw [h, chunkText]
    simp only [List.append_assoc, List.nil_append])
  obtain ⟨s₂, hend, h₂⟩ := hr.line (l := []) h₁ List.not_mem_nil List.not_mem_nil
  refine ⟨s₂, ?_, h₂⟩
  unfold sourceHttpChunked
  dsimp only
  rw [hline, pure_bind]
  dsimp only
  rw [chunkSize_formatX]
  show (receiveheaders sock hs s₁ >>= _) = _
  unfold receiveheaders
  rw [hend]
  show (headersLoop sock hs [] s₂ >>= _) = _
  rw [headersLoop_end]
  rfl

/-- Chunks that are not empty are given one after the other, and then what follows. -/
theorem sourceHttpChunked_chunks (hr : sock.Reads pending) {xs : List (List UInt8)}
    (hxs : ∀ x ∈ xs, x ≠ [] ∧ x.length < 2 ^ 63) (h : pending s = (xs.map chunkText).flatten ++ rest) :
    ∃ s₁, pending s₁ = rest ∧ ∀ ys e, (sourceHttpChunked sock).Gives none (s₁, hs) ys e →
      (sourceHttpChunked sock).Gives none (s, hs) (xs ++ ys) e := by
  induction xs generalizing s with
  | nil => exact ⟨s, h, fun _ _ hys => hys⟩
  | cons x xs ih =>
    rw [List.map_cons, List.flatten_cons, List.append_assoc] at h
    obtain ⟨hx, hlen⟩ := hxs x List.mem_cons_self
    obtain ⟨s₁, hchunk, h₁⟩ := sourceHttpChunked_chunk hs hr hx hlen h
    obtain ⟨s₂, h₂, hgives⟩ := ih (fun y hy => hxs y (List.mem_cons_of_mem x hy)) h₁
    exact ⟨s₂, h₂, fun ys e hys => .chunk hchunk (hgives ys e hys)⟩

/-- Chunks that are not empty are read up to the empty one behind them. -/
theorem sourceHttpChunked_until (hr : sock.Reads pending) {xs : List (List UInt8)}
    (hxs : ∀ x ∈ xs, x ≠ [] ∧ x.length < 2 ^ 63) (h : pending s = (xs.map chunkText).flatten ++ (chunkText [] ++ rest)) :
    ∃ s', (sourceHttpChunked sock).Gives none (s, hs) xs (s', hs) ∧ pending s' = rest := by
  obtain ⟨s₁, h₁, hgives⟩ := sourceHttpChunked_chunks hs hr hxs h
  obtain ⟨s', hend, h'⟩ := sourceHttpChunked_end hs hr h₁
  have hall := hgives [] _ (.stop hend)
  rw [List.append_nil] at hall
  exact ⟨s', hall, h'⟩

/-- **What is read of chunks**: those in front of the first empty one. -/
theorem sourceHttpChunked_gives (hr : sock.Reads pending) {xs : List (List UInt8)}
    (hlen : ∀ x ∈ xs, x.length < 2 ^ 63) (h : pending s = (xs.map chunkText).flatten ++ chunkText [] ++ rest) :
    ∃ s', (sourceHttpChunked sock).Gives none (s, hs) (xs.takeWhile (· ≠ [])) (s', hs) ∧
      (pending s' = rest ↔ [] ∉ xs) := by
  by_cases hmem : [] ∈ xs
  -- the first empty chunk is read as the end, and at least the real end is left behind it
  · obtain ⟨ys, zs, rfl, hys⟩ := List.eq_append_cons_of_mem hmem
    rw [List.map_append, List.map_cons, List.flatten_append, List.flatten_cons] at h
    simp only [List.append_assoc] at h
    have hfull : ∀ y ∈ ys, y ≠ [] ∧ y.length < 2 ^ 63 := fun y hy =>
      ⟨fun e => hys (e ▸ hy), hlen y (List.mem_append_left _ hy)⟩
    obtain ⟨s', hgives, h'⟩ := sourceHttpChunked_until hs hr hfull h
    rw [takeWhile_pieces_cons hys]
    refine ⟨s', hgives, iff_of_false (fun he => ?_) (fun h => h hmem)⟩
    have hleft := congrArg List.length (h'.symm.trans he)
    simp only [List.length_append, chunkText, CRLF, List.length_cons] at hleft
    omega
  · have hfull : ∀ x ∈ xs, x ≠ [] ∧ x.length < 2 ^ 63 := fun x hx => ⟨fun e => hmem (e ▸ hx), hlen x hx⟩
    rw [List.append_assoc] at h
    obtain ⟨s', hgives, h'⟩ := sourceHttpChunked_until hs hr hfull h
    rw [takeWhile_pieces hmem]
    exact ⟨s', hgives, iff_of_true h' hmem⟩

/-- A sink that sends a text for each chunk writes these texts. -/
theorem Sink.accepts_of_send {written : σ → List UInt8} (hw : sock.Writes written) {snk : Sink σ}
    {text : List UInt8 → List UInt8} (hsnk : ∀ s x, snk s (some x) none = sock.send (text x) s) (xs : List (List UInt8))
    (s : σ) : ∃ s', snk.Accepts none s xs s' ∧ written s' = written s ++ (xs.map text).flatten := by
  induction xs generalizing s with
  | nil => exact ⟨s, .nil, (List.append_nil _).symm⟩
  | cons x xs ih =>
    obtain ⟨s₁, hsend, h₁⟩ := hw.send s (text x)
    obtain ⟨s', hacc, h'⟩ := ih s₁
    refine ⟨s', .cons ((hsnk s x).trans hsend) hacc, ?_⟩
    rw [h', h₁, List.map_cons, List.flatten_cons, List.append_assoc]

theorem sinkHttpChunked_accepts {written : σ → List UInt8} (hw : sock.Writes written) (xs : List (List UInt8)) (s : σ) :
    ∃ s', (sinkHttpChunked sock).Accepts none s xs s' ∧ written s' = written s ++ (xs.map chunkText).flatten :=
  Sink.accepts_of_send hw (fun _ _ => rfl) xs s

end Chunked

section Filtered

variable {sock' : Sock τ} {written : σ → List UInt8} {pending : τ → List UInt8} {zs : List (List UInt8)}

/-- What is read of chunks on the wire, and what is left. -/
theorem pump_sourceHttpChunked (hs : Option Headers) (hr : sock'.Reads pending)
    (hzs : ∀ z ∈ zs, z ≠ [] ∧ z.length < 2 ^ 63) {r : τ} {rest : List UInt8}
    (h : pending r = (zs.map chunkText).flatten ++ (chunkText [] ++ rest)) :
    ∃ r', pumpAll (sourceHttpChunked sock') sinkTable ((r, hs), []) = pure ((true, none), ((r', hs), zs)) ∧
      pending r' = rest := by
  obtain ⟨r', hgives, hleft⟩ := sourceHttpChunked_until hs hr hzs h
  exact ⟨r', pumpAll_eq hgives (sinkTable_accepts []) (sinkTable_end _), hleft⟩

end Filtered

/-- **A chunked body is read as it was written**, up to its first empty chunk: that one ends the
body, and what follows is left in the connection. -/
theorem http_chunked {sock : Sock σ} {sock' : Sock τ} {written : σ → List UInt8} {pending : τ → List UInt8}
    (hw : sock.Writes written) (hr : sock'.Reads pending) {src : Source α} {a a' : α} {xs : List (List UInt8)}
    (hsrc : src.Gives none a xs a') (hlen : ∀ x ∈ xs, x.length < 2 ^ 63) (s : σ) (hs : Option Headers) :
    ∃ s' wire, pumpAll src (sinkHttpChunked sock) (a, s) = pure ((true, none), (a', s')) ∧
      written s' = written s ++ wire ∧
      ∀ r rest, pending r = wire ++ rest →
        ∃ r', pumpAll (sourceHttpChunked sock') sinkTable ((r, hs), []) =
            pure ((true, none), ((r', hs), xs.takeWhile (· ≠ []))) ∧
          (pending r' = rest ↔ [] ∉ xs) := by
  obtain ⟨s₁, hacc, h₁⟩ := sinkHttpChunked_accepts hw xs s
  obtain ⟨s', hsend, h'⟩ := hw.send s₁ (chunkText [])
  refine ⟨s', (xs.map chunkText).flatten ++ chunkText [], pumpAll_eq hsrc hacc hsend, ?_, ?_⟩
  · rw [h', h₁, List.append_assoc]
  · intro r rest hrest
    obtain ⟨r', hgives, hleft⟩ := sourceHttpChunked_gives hs hr hlen hrest
    exact ⟨r', pumpAll_eq hgives (sinkTable_accepts []) (sinkTable_end _), hleft⟩

/-- A connection that has these bytes for this end, and these from it. -/
def wireSock : Sock (List UInt8 × List UInt8) where
  receiveLine s :=
    match s.1.span (· ≠ 10) with
    | (l, _ :: t) => return (.ok (l.filter (· ≠ 13)), (t, s.2))
    | (_, []) => return (.error "closed", s)
  receive n s :=
    if n ≤ s.1.length then return (.ok (s.1.take n), (s.1.drop n, s.2)) else return (.error ("closed", s.1), ([], s.2))
  send d s := return ((true, none), (s.1, s.2 ++ d))
  close s := return s

theorem wireSock_reads : wireSock.Reads Prod.fst where
  line := by
    intro s l rest h hl hl'
    refine ⟨(rest, s.2), ?_, rfl⟩
    have hline : ∀ c ∈ l ++ [13], decide (c ≠ 10) = true := by
      intro c hc
      rcases List.mem_append.1 hc with hc | hc
      · exact decide_eq_true fun e => hl (e ▸ hc)
      · obtain rfl := List.mem_singleton.1 hc
        decide
    have hsplit : s.1 = (l ++ [13]) ++ 10 :: rest := by
      rw [h, CRLF]
      simp
    have hspan : s.1.span (· ≠ 10) = (l ++ [13], 10 :: rest) := by
      rw [List.span_eq_takeWhile_dropWhile, hsplit, List.takeWhile_append_of_pos hline,
        List.dropWhile_append_of_pos hline, List.takeWhile_cons_of_neg (by decide),
        List.dropWhile_cons_of_neg (by decide), List.append_nil]
    have hfilter : (l ++ [13]).filter (· ≠ 13) = l := by
      have hself : l.filter (· ≠ 13) = l :=
        List.filter_eq_self.2 fun c hc => decide_eq_true fun (e : c = 13) => hl' (e ▸ hc)
      rw [List.filter_append, hself]
      exact List.append_nil l
    unfold wireSock
    dsimp only
    rw [hspan]
    dsimp only
    rw [hfilter]
  exact := by
    intro s d rest h _
    refine ⟨(rest, s.2), ?_, rfl⟩
    unfold wireSock
    dsimp only
    rw [if_pos (by rw [h, List.length_append]; omega), h, List.take_left, List.drop_left]

theorem wireSock_writes : wireSock.Writes Prod.snd where
  send s d := ⟨(s.1, s.2 ++ d), rfl, rfl⟩

theorem http_chunked_ab : ∃ s' wire,
    pumpAll (sourceCat (α := ℕ)) (sinkHttpChunked wireSock) ([(sourceString (str "ab"), 1)], ([], [])) =
      pure ((true, none), ([], s')) ∧
    s'.2 = [] ++ wire ∧
    ∀ r : List UInt8 × List UInt8, ∀ rest, r.1 = wire ++ rest →
      ∃ r', pumpAll (sourceHttpChunked wireSock) sinkTable ((r, none), []) =
          pure ((true, none), ((r', none), [str "ab"].takeWhile (· ≠ []))) ∧
        (r'.1 = rest ↔ [] ∉ [str "ab"]) := by
  have hsrc : sourceCat.Gives none [(sourceString (str "ab"), 1)] [str "ab"] [] :=
    .chunk (t := [(sourceString (str "ab"), 1 + BLOCKSIZE)]) rfl (.stop rfl)
  exact http_chunked wireSock_writes wireSock_reads hsrc (by decide) ([], []) none

/-- **A filter in front of a chunked body belongs at the source.** There the body is read as the
filter makes it. At the sink it sends an empty chunk behind what it makes of the first chunk, and
this ends the body: the other pieces are left in the connection. -/
theorem http_chunked_filtered {sock : Sock σ} {sock' : Sock τ} {written : σ → List UInt8} {pending : τ → List UInt8}
    (hw : sock.Writes written) (hr : sock'.Reads pending) {src : Source α} {f : Filter β} {a a' : α} {g g₁ g₂ g' : β}
    {x : List UInt8} {xs ps qs ws : List (List UInt8)} (hsrc : src.Gives none a (x :: xs) a')
    (hx : f.stage.Drains [] (some []) g (some x) ps g₂) (hfeed : f.stage.Feeds [] g₂ xs qs g₁)
    (hend : f.stage.Drains [] none g₁ none ws g') (hlen : ∀ p ∈ ps ++ qs ++ ws, p.length < 2 ^ 63) (s : σ)
    (hs : Option Headers) :
    (∃ e s' wire, pumpAll (sourceChain src f) (sinkHttpChunked sock) (.init a g, s) = pure ((true, none), (e, s')) ∧
        written s' = written s ++ wire ∧
        ∀ r rest, pending r = wire ++ rest →
          ∃ r', pumpAll (sourceHttpChunked sock') sinkTable ((r, hs), []) =
            pure ((true, none), ((r', hs), ps ++ qs ++ ws)) ∧ pending r' = rest) ∧
      ([] ∉ x :: xs →
        ∃ s' wire, ∃ zs : List (List UInt8), pumpAll src (sinkChain f (sinkHttpChunked sock)) (a, (g, s)) =
            pure ((true, none), (a', (g', s'))) ∧
          written s' = written s ++ wire ∧ zs.filter (· ≠ []) = qs ++ ws ∧
          ∀ r rest, pending r = wire ++ rest →
            ∃ r', pumpAll (sourceHttpChunked sock') sinkTable ((r, hs), []) = pure ((true, none), ((r', hs), ps)) ∧
              pending r' = (zs.map chunkText).flatten ++ chunkText [] ++ rest) := by
  have hpieces : ∀ p ∈ ps ++ qs ++ ws, p ≠ [] ∧ p.length < 2 ^ 63 := by
    refine fun p hp => ⟨fun e => ?_, hlen p hp⟩
    simp only [e, List.mem_append] at hp
    exact hp.elim (·.elim hx.ne_empty hfeed.ne_empty) hend.ne_empty
  refine ⟨?_, ?_⟩
  -- at the source the sink gets the pieces of the filter, none of them empty
  · obtain ⟨e, hgives⟩ := sourceChain_gives (y := some []) (q := []) hsrc (.cons hx hfeed) hend
    obtain ⟨s₁, hacc, h₁⟩ := sinkHttpChunked_accepts hw (ps ++ qs ++ ws) s
    obtain ⟨s', hsend, h'⟩ := hw.send s₁ (chunkText [])
    refine ⟨e, s', _, pumpAll_eq hgives hacc hsend, by rw [h', h₁, List.append_assoc], fun r rest hrest => ?_⟩
    rw [List.append_assoc] at hrest
    exact pump_sourceHttpChunked hs hr hpieces hrest
  -- at the sink there is an empty chunk behind the pieces of the first chunk, and reading stops there
  · intro hxs
    obtain ⟨zs, hzs, hall⟩ := sinkChain_accepts (sinkHttpChunked sock) hfeed
      (fun hmem => hxs (List.mem_cons_of_mem x hmem))
    obtain ⟨s₁, hacc₁, h₁⟩ := sinkHttpChunked_accepts hw (ps ++ [[]]) s
    obtain ⟨s₂, hacc₂, h₂⟩ := sinkHttpChunked_accepts hw zs s₁
    obtain ⟨s₃, hacc₃, h₃⟩ := sinkHttpChunked_accepts hw ws s₂
    obtain ⟨s', hsend, h'⟩ := hw.send s₃ (chunkText [])
    have hacc := sinkChain_accepts_cons hx (fun e => hxs (e ▸ List.mem_cons_self)) hacc₁ (hall s₁ s₂ hacc₂)
    have hleft : ((zs ++ ws).filter (· ≠ [])) = qs ++ ws := by
      rw [List.filter_append, hzs]
      congr 1
      exact List.filter_eq_self.2 fun p hp => decide_eq_true fun e => hend.ne_empty (e ▸ hp)
    have hwire : written s' = written s ++
        ((ps.map chunkText).flatten ++ (chunkText [] ++ (((zs ++ ws).map chunkText).flatten ++ chunkText []))) := by
      rw [h', h₃, h₂, h₁]
      simp only [List.map_append, List.flatten_append, List.map_cons, List.map_nil, List.flatten_cons,
        List.flatten_nil, List.append_nil, List.append_assoc]
    refine ⟨s', _, zs ++ ws, pumpAll_eq hsrc hacc (sinkChain_end hend hacc₃ hsend), hwire, hleft,
      fun r rest hrest => ?_⟩
    rw [List.append_assoc, List.append_assoc] at hrest
    exact pump_sourceHttpChunked hs hr
      (fun p hp => hpieces p (List.mem_append_left _ (List.mem_append_left _ hp))) hrest

theorem http_chunked_filtered_bytewise :
    (∃ e s' wire, pumpAll (sourceChain (sourceCat (α := ℕ)) bytewise) (sinkHttpChunked wireSock)
          (.init [(sourceString (str "ab"), 1), (sourceString (str "c"), 1)] [], ([], [])) =
            pure ((true, none), (e, s')) ∧
        s'.2 = [] ++ wire ∧
        ∀ r : List UInt8 × List UInt8, ∀ rest, r.1 = wire ++ rest →
          ∃ r', pumpAll (sourceHttpChunked wireSock) sinkTable ((r, none), []) =
            pure ((true, none), ((r', none), [str "a", str "b"] ++ [str "c"] ++ [])) ∧ r'.1 = rest) ∧
      ∃ s' wire, ∃ zs : List (List UInt8), pumpAll (sourceCat (α := ℕ)) (sinkChain bytewise (sinkHttpChunked wireSock))
          ([(sourceString (str "ab"), 1), (sourceString (str "c"), 1)], ([], ([], []))) =
            pure ((true, none), ([], ([], s'))) ∧
        s'.2 = [] ++ wire ∧ zs.filter (· ≠ []) = [str "c"] ++ [] ∧
        ∀ r : List UInt8 × List UInt8, ∀ rest, r.1 = wire ++ rest →
          ∃ r', pumpAll (sourceHttpChunked wireSock) sinkTable ((r, none), []) =
            pure ((true, none), ((r', none), [str "a", str "b"])) ∧
            r'.1 = (zs.map chunkText).flatten ++ chunkText [] ++ rest := by
  have hsrc : sourceCat.Gives none [(sourceString (str "ab"), 1), (sourceString (str "c"), 1)]
      [str "ab", str "c"] [] :=
    .chunk (t := [(sourceString (str "ab"), 1 + BLOCKSIZE), (sourceString (str "c"), 1)]) rfl
      (.chunk (t := [(sourceString (str "c"), 1 + BLOCKSIZE)]) rfl (.stop rfl))
  have hx : bytewise.stage.Drains [] (some []) [] (some (str "ab")) [str "a", str "b"] [] :=
    .piece (t := str "b") rfl (by decide) (.piece (t := []) rfl (by decide) (.stop rfl))
  have hfeed : bytewise.stage.Feeds [] [] [str "c"] ([str "c"] ++ []) [] :=
    .cons (.piece (t := []) rfl (by decide) (.stop rfl)) .nil
  obtain ⟨hsource, hsink⟩ := http_chunked_filtered wireSock_writes wireSock_reads hsrc hx hfeed (.stop rfl)
    (by decide) ([], []) none
  exact ⟨hsource, hsink (by decide)⟩

/-! ## Headers -/

/-- The pattern of a header line. -/
def headerItems : List PatternItem :=
  [.openCapture, .single .any .minus, .closeCapture, .single (.char (ch ':')) .once, .single (.escaped (ch 's')) .star,
    .openCapture, .single .any .star, .closeCapture]

theorem find_header (name sp value : List UInt8) (hname : ch ':' ∉ name) (hsp : ∀ c ∈ sp, isspace c = true)
    (hvalue : ∀ c ∈ value.head?, isspace c = false) :
    stringFind (name ++ ch ':' :: (sp ++ value)) (str "^(.-):%s*(.*)") 1 =
      .ok (some ⟨1, (name ++ ch ':' :: (sp ++ value)).length, [.string name, .string value]⟩) := by
  have hitems : patternItems 12 (str "^(.-):%s*(.*)").tail = headerItems := by decide +kernel
  rw [stringFind_items (by decide), if_pos (by decide)]
  show findFrom _ (patternItems 12 _) _ _ _ = _
  rw [hitems]
  generalize htext : name ++ ch ':' :: (sp ++ value) = text
  have hlen : text.length = name.length + 1 + sp.length + value.length := by
    rw [← htext]
    simp only [List.length_append, List.length_cons]
    omega
  have hrest : repetitions text (name.length + 1 + sp.length) .any = value.length := by
    have h := repetitions_append .any (w := value) (t := []) (name ++ ch ':' :: sp) (fun _ _ => rfl)
      (fun c hc => by cases hc)
    rw [← htext]
    simpa [Nat.add_assoc, Nat.add_comm sp.length 1] using h
  have hblank : repetitions text (name.length + 1) (.escaped (ch 's')) = sp.length := by
    have h := repetitions_append (.escaped (ch 's')) (w := sp) (t := value) (name ++ [ch ':']) hsp hvalue
    rw [← htext]
    simpa using h
  have hcolon : singlematch text name.length (.char (ch ':')) = true := by
    rw [← htext, singlematch_append]
    rfl
  have hany : repetitions text 0 .any = text.length := by
    simpa using repetitions_append .any (w := text) (t := []) [] (fun _ _ => rfl) (fun c hc => by cases hc)
  have hnone : ∀ j < name.length, singlematch text j (.char (ch ':')) = false := by
    intro j hj
    have hget : text[j]? = some name[j] := by rw [← htext, List.getElem?_append_left hj, List.getElem?_eq_getElem hj]
    rw [singlematch, hget]
    exact beq_eq_false_iff_ne.2 fun e => hname (e ▸ List.getElem_mem hj)
  -- from the end of the pattern to its start
  generalize hn : name.length = n at *
  generalize hv : value.length = v at *
  generalize he : n + 1 + sp.length = e at *
  have h₁ : Gives text (headerItems.drop 7) 1 (e + v) [⟨0, .closed n⟩, ⟨e, .unfinished⟩]
      (some (e + v, [⟨0, .closed n⟩, ⟨e, .closed v⟩])) := by
    refine .closeCapture (l := 1) rfl ?_
    have hclose : e + v - e = v := Nat.add_sub_cancel_left e v
    show Gives text [] 0 (e + v) [⟨0, .closed n⟩, ⟨e, .closed (e + v - e)⟩] _
    rw [hclose]
    exact .nil
  have h₂ := Gives.star (i := e) hrest.ge
    (fun j hj hle => absurd (hrest ▸ hle) (not_le.2 hj)) h₁ (fun e => by cases e)
  have h₃ := Gives.openCapture (show ([⟨0, .closed n⟩] : List Capture).length < LUA_MAXCAPTURES from (by decide : 1 < 32)) h₂
  have h₄ : Gives text (headerItems.drop 4) 4 (n + 1) [⟨0, .closed n⟩]
      (some (e + v, [⟨0, .closed n⟩, ⟨e, .closed v⟩])) :=
    .star hblank.ge (fun j hj hle => absurd (hblank ▸ hle) (not_le.2 hj)) (by rw [he]; exact h₃) (fun e => by cases e)
  have h₅ := Gives.once hcolon h₄
  have h₆ : Gives text (headerItems.drop 2) 5 n [⟨0, .unfinished⟩]
      (some (e + v, [⟨0, .closed n⟩, ⟨e, .closed v⟩])) := .closeCapture (l := 0) rfl h₅
  have h₇ : Gives text (headerItems.drop 1) 6 0 [⟨0, .unfinished⟩]
      (some (e + v, [⟨0, .closed n⟩, ⟨e, .closed v⟩])) := by
    refine .minus (m := n) ?_ (by rw [hany]; omega) (by rwa [Nat.zero_add])
    intro j hj
    rw [Nat.zero_add]
    exact (Gives.closeCapture (l := 0) rfl (Gives.once_none (hnone j hj))).mono (by decide)
  have h₈ : Gives text headerItems 7 0 [] _ := .openCapture (by decide) h₇
  rw [findFrom_here (by decide) h₈ rfl, hlen]
  have hname : text.take n = name := by rw [← htext, ← hn, List.take_left]
  have hvalue : (text.drop e).take v = value := by
    have hsplit : text = (name ++ ch ':' :: sp) ++ value := by rw [← htext]; simp
    rw [hsplit, List.drop_left' (by simp; omega), List.take_of_length_le hv.le]
  show Except.ok (some (Found.mk 1 (e + v) [.string (text.take n), .string ((text.drop _).take v)])) = _
  rw [hname, hvalue]

theorem find_fold {text : List UInt8} (h : ∀ c ∈ text.head?, isspace c = false) :
    stringFind text (str "^%s") 1 = .ok none := by
  rw [stringFind_items (by decide), if_pos (by decide)]
  have hitems : patternItems (str "^%s").tail.length (str "^%s").tail = [.single (.escaped (ch 's')) .once] := by
    decide +kernel
  rw [hitems]
  refine findFrom_anchor_none (k := 0) (by decide) (.once_none ?_)
  rw [singlematch_eq, List.drop_zero]
  cases hc : text.head? with
  | none => rfl
  | some c => exact h c hc

theorem tolower_eq : ∀ n < 256, ∀ c ∈ [ch ':', 10, 13],
    (tolower (UInt8.ofNat n) = c → UInt8.ofNat n = c) ∧ isspace (tolower (UInt8.ofNat n)) = isspace (UInt8.ofNat n) := by
  decide +kernel

/-- The case of letters is all that the canonic name of a field changes. -/
theorem canonicName_lower (f : List UInt8) : (canonicName f).map tolower = f.map tolower := by
  have hall : ∀ p ∈ canonic, (str p.2).map tolower = (str p.1).map tolower := by decide +kernel
  unfold canonicName
  split
  next p hp =>
    have heq := List.find?_some hp
    rw [hall p (List.mem_of_find?_eq_some hp), of_decide_eq_true heq]
  next => rfl

/-- A field that can be sent: its name is in lower case. -/
structure FieldOk (fv : List UInt8 × List UInt8) : Prop where
  lower : fv.1.map tolower = fv.1
  name : ∀ c ∈ [ch ':', 10, 13], c ∉ fv.1
  name_head : ∀ c ∈ fv.1.head?, isspace c = false
  value : ∀ c ∈ [(10 : UInt8), 13], c ∉ fv.2
  value_head : ∀ c ∈ fv.2.head?, isspace c = false

/-- The line of a field. -/
def fieldLine (fv : List UInt8 × List UInt8) : List UInt8 := canonicName fv.1 ++ str ": " ++ fv.2

section Field

variable {fv : List UInt8 × List UInt8}

theorem FieldOk.canonic_lower (h : FieldOk fv) : (canonicName fv.1).map tolower = fv.1 :=
  (canonicName_lower fv.1).trans h.lower

theorem FieldOk.notMem_canonic (h : FieldOk fv) {c : UInt8} (hc : c ∈ [ch ':', 10, 13]) : c ∉ canonicName fv.1 := by
  intro hmem
  refine h.name c hc ?_
  have hlow : tolower c ∈ (canonicName fv.1).map tolower := List.mem_map_of_mem hmem
  have hsame : ∀ c ∈ [ch ':', 10, 13], tolower c = c := by decide +kernel
  rwa [h.canonic_lower, hsame c hc] at hlow

theorem FieldOk.canonic_head (h : FieldOk fv) {c : UInt8} (hc : (canonicName fv.1).head? = some c) : isspace c = false := by
  have hhead : fv.1.head? = some (tolower c) := by
    rw [← h.canonic_lower, List.head?_map, hc]
    rfl
  have hspace := (tolower_eq c.toNat c.toNat_lt 10 (by decide)).2
  rw [UInt8.ofNat_toNat] at hspace
  rw [← hspace]
  exact h.name_head _ hhead

theorem FieldOk.line_notMem (h : FieldOk fv) {c : UInt8} (hc : c ∈ [(10 : UInt8), 13]) : c ∉ fieldLine fv := by
  unfold fieldLine
  rw [List.mem_append, List.mem_append, not_or, not_or]
  have hsep : ∀ c ∈ [(10 : UInt8), 13], c ∉ str ": " := by decide +kernel
  exact ⟨⟨h.notMem_canonic (List.mem_cons_of_mem _ hc), hsep c hc⟩, h.value c hc⟩

theorem FieldOk.line_head (h : FieldOk fv) : ∀ c ∈ (fieldLine fv).head?, isspace c = false := by
  intro c hc
  unfold fieldLine at hc
  rw [List.append_assoc, List.head?_append] at hc
  cases hname : (canonicName fv.1).head? with
  | none =>
    rw [hname] at hc
    obtain rfl : ch ':' = c := Option.some.inj hc
    decide
  | some d =>
    rw [hname] at hc
    obtain rfl : d = c := Option.some.inj hc
    exact h.canonic_head hname

theorem FieldOk.line_ne_nil : fieldLine fv ≠ [] := by
  unfold fieldLine
  simp [str]

theorem FieldOk.find (h : FieldOk fv) : ∃ i j, stringFind (fieldLine fv) (str "^(.-):%s*(.*)") 1 =
    .ok (some ⟨i, j, [.string (canonicName fv.1), .string fv.2]⟩) := by
  have hfind := find_header (canonicName fv.1) [ch ' '] fv.2 (h.notMem_canonic List.mem_cons_self) (by decide +kernel) h.value_head
  refine ⟨1, (fieldLine fv).length, ?_⟩
  unfold fieldLine
  rw [List.append_assoc]
  exact hfind

end Field

/-- Fields, in the order of their lines, and the empty line. -/
def fieldsText (fs : List (List UInt8 × List UInt8)) : List UInt8 := (fs.map fun fv => fieldLine fv ++ CRLF).flatten ++ CRLF

theorem headersText_eq (fields : List (List UInt8 × List UInt8)) : headersText fields = fieldsText fields.reverse := by
  suffices h : ∀ q, fields.foldl (fun h fv => canonicName fv.1 ++ str ": " ++ fv.2 ++ CRLF ++ h) q =
      (fields.reverse.map fun fv => fieldLine fv ++ CRLF).flatten ++ q from h CRLF
  intro q
  induction fields generalizing q with
  | nil => rfl
  | cons fv fields ih =>
    rw [List.foldl_cons, ih, List.reverse_cons, List.map_append, List.flatten_append, List.append_assoc]
    simp [fieldLine]

/-- The line that is read where these fields follow. -/
def firstLine : List (List UInt8 × List UInt8) → List UInt8
  | [] => []
  | fv :: _ => fieldLine fv

/-- What is left behind it. -/
def afterFirst (rest : List UInt8) : List (List UInt8 × List UInt8) → List UInt8
  | [] => rest
  | _ :: fs => fieldsText fs ++ rest

section Receive

variable {pending : σ → List UInt8} {s : σ} {fs : List (List UInt8 × List UInt8)} {rest : List UInt8}

theorem receive_firstLine (hr : sock.Reads pending) (hfs : ∀ fv ∈ fs, FieldOk fv) (h : pending s = fieldsText fs ++ rest) :
    ∃ s', sock.receiveLine s = pure (.ok (firstLine fs), s') ∧ pending s' = afterFirst rest fs := by
  cases fs with
  | nil => exact hr.line (l := []) h List.not_mem_nil List.not_mem_nil
  | cons fv fs =>
    have hok := hfs fv List.mem_cons_self
    refine hr.line (l := fieldLine fv) ?_ (hok.line_notMem (by decide)) (hok.line_notMem (by decide))
    rw [h, fieldsText, List.map_cons, List.flatten_cons, List.append_assoc, List.append_assoc, ← List.append_assoc _ CRLF]
    rfl

theorem unfoldLines_firstLine (hfs : ∀ fv ∈ fs, FieldOk fv) (value : List UInt8) (s : σ) :
    unfoldLines sock value (firstLine fs) s = pure ((value, firstLine fs), s) := by
  have hhead : ∀ c ∈ (firstLine fs).head?, isspace c = false := by
    cases fs with
    | nil => exact fun c hc => by cases hc
    | cons fv fs => exact (hfs fv List.mem_cons_self).line_head
  rw [unfoldLines, luaLoop_eq]
  dsimp only
  rw [find_fold hhead]
  rfl

/-- **The loop over header lines**: the fields are saved one after the other. -/
theorem headersLoop_fields (hr : sock.Reads pending) (hfs : ∀ fv ∈ fs, FieldOk fv) (hnodup : (fs.map Prod.fst).Nodup)
    {H : Headers} (hH : ∀ fv ∈ fs, H fv.1 = none) (h : pending s = afterFirst rest fs) :
    ∃ s' H', headersLoop sock (some H) (firstLine fs) s = pure (.ok (some H'), s') ∧ pending s' = rest ∧
      ∀ f v, H' f = some v ↔ (f, v) ∈ fs ∨ H f = some v := by
  -- one line is read ahead: it is in hand while the lines behind it are on their way
  induction fs generalizing s H with
  | nil =>
    refine ⟨s, H, ?_, h, fun f v => by simp⟩
    rw [firstLine, headersLoop_end]
  | cons fv fs ih =>
    have hok := hfs fv List.mem_cons_self
    have hfs' : ∀ fv ∈ fs, FieldOk fv := fun x hx => hfs x (List.mem_cons_of_mem fv hx)
    obtain ⟨s₁, hline, h₁⟩ := receive_firstLine hr hfs' h
    rw [List.map_cons, List.nodup_cons] at hnodup
    have hne : ∀ x ∈ fs, x.1 ≠ fv.1 := fun x hx e => hnodup.1 (e ▸ List.mem_map_of_mem hx)
    obtain ⟨s', H', hloop, h', hmem⟩ := ih hfs' hnodup.2 (H := Function.update H fv.1 (some fv.2)) (fun x hx => by
      rw [Function.update_of_ne (hne x hx)]
      exact hH x (List.mem_cons_of_mem fv hx)) h₁
    refine ⟨s', H', ?_, h', ?_⟩
    · obtain ⟨i, j, hfind⟩ := hok.find
      rw [firstLine, headersLoop, luaLoop_eq]
      dsimp only
      rw [if_neg FieldOk.line_ne_nil, hfind]
      show ((sock.receiveLine s >>= _) >>= _) = _
      rw [hline]
      show ((unfoldLines sock fv.2 (firstLine fs) s₁ >>= _) >>= _) = _
      rw [unfoldLines_firstLine hfs', ← hloop]
      show headersLoop sock (some (Function.update H ((canonicName fv.1).map tolower) (some _))) _ _ = _
      rw [hok.canonic_lower, hH fv List.mem_cons_self]
    · intro f v
      rw [hmem]
      -- no name comes twice, so no value is appended to another
      by_cases hf : f = fv.1
      · subst hf
        rw [Function.update_self, hH fv List.mem_cons_self, Option.some_inj]
        constructor
        · rintro (hin | rfl)
          · exact absurd rfl (hne (fv.1, v) hin)
          · exact .inl List.mem_cons_self
        · rintro (hin | hin)
          · rcases List.mem_cons.1 hin with e | hin
            · exact .inr (congrArg Prod.snd e).symm
            · exact absurd rfl (hne (fv.1, v) hin)
          · cases hin
      · rw [Function.update_of_ne hf, List.mem_cons]
        have hother : (f, v) ≠ fv := fun e => hf (congrArg Prod.fst e)
        rw [or_iff_right hother]

/-- **Headers are received as they were sent.** -/
theorem receiveheaders_text (hr : sock.Reads pending) {fields : List (List UInt8 × List UInt8)}
    (hok : ∀ fv ∈ fields, FieldOk fv) (hnodup : (fields.map Prod.fst).Nodup)
    (h : pending s = headersText fields ++ rest) :
    ∃ s' H, receiveheaders sock (some fun _ => none) s = pure (.ok (some H), s') ∧ pending s' = rest ∧
      ∀ f v, H f = some v ↔ (f, v) ∈ fields := by
  rw [headersText_eq] at h
  have hok' : ∀ fv ∈ fields.reverse, FieldOk fv := fun fv hfv => hok fv (List.mem_reverse.1 hfv)
  obtain ⟨s₁, hline, h₁⟩ := receive_firstLine hr hok' h
  obtain ⟨s', H, hloop, h', hmem⟩ := headersLoop_fields hr hok' (by
    rw [List.map_reverse]
    exact List.nodup_reverse.2 hnodup) (H := fun _ => none) (fun _ _ => rfl) h₁
  refine ⟨s', H, ?_, h', fun f v => by rw [hmem, List.mem_reverse]; simp⟩
  unfold receiveheaders
  rw [hline]
  exact hloop

/-- The last chunk, with fields behind it. -/
theorem sourceHttpChunked_trailers (hr : sock.Reads pending) (hok : ∀ fv ∈ fs, FieldOk fv)
    (hnodup : (fs.map Prod.fst).Nodup) (h : pending s = formatX 0 ++ CRLF ++ (fieldsText fs ++ rest)) :
    ∃ s' H, sourceHttpChunked sock (s, some fun _ => none) = pure ((none, none), (s', some H)) ∧ pending s' = rest := by
  obtain ⟨s₁, hline, h₁⟩ := receive_size (x := []) hr h
  obtain ⟨s₂, hfirst, h₂⟩ := receive_firstLine hr hok h₁
  obtain ⟨s', H, hloop, h', _⟩ := headersLoop_fields hr hok hnodup (H := fun _ => none) (fun _ _ => rfl) h₂
  refine ⟨s', H, ?_, h'⟩
  unfold sourceHttpChunked
  dsimp only
  rw [hline, pure_bind]
  show (chunkSize (formatX 0) >>= _) = _
  rw [chunkSize_formatX]
  show (receiveheaders sock _ s₁ >>= _) = _
  unfold receiveheaders
  rw [hfirst]
  show (headersLoop sock (some fun _ => none) (firstLine fs) s₂ >>= _) = _
  rw [hloop]
  rfl

end Receive

/-! ## Messages -/

/-- The pattern of a status line. -/
def statusItems : List PatternItem :=
  (str "HTTP/").map (fun c => .single (.char c) .once) ++
    [.single (.escaped (ch 'd')) .star, .single (.escaped (ch '.')) .once, .single (.escaped (ch 'd')) .star,
      .single (.char (ch ' ')) .once, .openCapture, .single (.escaped (ch 'd')) .once, .single (.escaped (ch 'd')) .once,
      .single (.escaped (ch 'd')) .once, .closeCapture]

theorem find_status (major minor code reason : List UInt8) (hmajor : ∀ c ∈ major, isdigit c = true)
    (hminor : ∀ c ∈ minor, isdigit c = true) (hcode : ∀ c ∈ code, isdigit c = true) (hlen : code.length = 3) :
    ∃ j, stringFind (str "HTTP/" ++ (major ++ ch '.' :: (minor ++ ch ' ' :: (code ++ reason))))
      (str "HTTP/%d*%.%d* (%d%d%d)") 1 = .ok (some ⟨1, j, [.string code]⟩) := by
  have hitems : patternItems (str "HTTP/%d*%.%d* (%d%d%d)").length (str "HTTP/%d*%.%d* (%d%d%d)") = statusItems := by
    decide +kernel
  rw [stringFind_items (by decide), if_neg (by decide), hitems]
  obtain ⟨a, b, c, rfl⟩ := List.length_eq_three.1 hlen
  generalize htext : str "HTTP/" ++ (major ++ ch '.' :: (minor ++ ch ' ' :: ([a, b, c] ++ reason))) = text
  have h₀ : text.drop 0 = str "HTTP/" ++ (major ++ ch '.' :: (minor ++ ch ' ' :: ([a, b, c] ++ reason))) := htext.symm
  have h₁ := drop_past h₀
  have h₂ := drop_past h₁
  have h₃ := drop_next h₂
  have h₄ := drop_past h₃
  have h₅ := drop_next h₄
  generalize hp : 0 + (str "HTTP/").length + major.length + 1 + minor.length + 1 = p at *
  -- from the end of the pattern to its start
  have hclose : Gives text (statusItems.drop 13) 1 (p + 1 + 1 + 1) [⟨p, .unfinished⟩]
      (some (p + 1 + 1 + 1, [⟨p, .closed 3⟩])) := by
    refine .closeCapture (l := 0) rfl ?_
    have hlen : p + 1 + 1 + 1 - p = 3 := by omega
    show Gives text [] 0 _ [⟨p, .closed (p + 1 + 1 + 1 - p)⟩] _
    rw [hlen]
    exact .nil
  have hdigits := Gives.once_at (.escaped (ch 'd')) h₅ (hcode a (by simp))
    (.once_at (.escaped (ch 'd')) (drop_next h₅) (hcode b (by simp))
      (.once_at (.escaped (ch 'd')) (drop_next (drop_next h₅)) (hcode c (by simp)) hclose))
  have hopen := Gives.openCapture (show ([] : List Capture).length < LUA_MAXCAPTURES by decide) hdigits
  have hspace := Gives.once_at (.char (ch ' ')) h₄ (by decide) (by rw [hp]; exact hopen)
  have hversion := Gives.star_at (.escaped (ch 'd')) h₁ hmajor (by simp; decide)
    (.once_at (.escaped (ch '.')) h₂ (by decide)
      (.star_at (.escaped (ch 'd')) h₃ hminor (by simp; decide) hspace))
  have hall := Gives.chars_at h₀ hversion
  refine ⟨_, findFrom_here (by decide) hall ?_⟩
  have hcap : (text.drop p).take 3 = [a, b, c] := take_at (w := [a, b, c]) h₅ rfl
  show Except.ok [LuaValue.string ((text.drop p).take 3)] = _
  rw [hcap]

theorem formatBase_digit {n : ℕ} : ∀ c ∈ formatBase 10 n, isdigit c = true := by
  intro c hc
  obtain ⟨d, hd, rfl⟩ := mem_formatBase (by decide) hc
  have hall : ∀ d < 10, isdigit (digitChar d) = true := by decide
  exact hall d hd

theorem formatBase_length_three {n : ℕ} (h : 100 ≤ n) (h' : n < 1000) : (formatBase 10 n).length = 3 := by
  have hlog : Nat.log 10 n = 2 := Nat.log_eq_of_pow_le_of_lt_pow h h'
  rw [formatBase_eq, List.length_map, List.length_reverse, numeralDigits, if_neg (by omega),
    Nat.length_digits 10 n (by decide) (by omega), hlog]

/-- The first line of a response, and its fields. -/
structure HttpMessage where
  major : ℕ
  minor : ℕ
  code : ℕ
  reason : List UInt8
  fields : List (List UInt8 × List UInt8)

namespace HttpMessage

/-- What stands behind `HTTP/`. -/
def line (m : HttpMessage) : List UInt8 :=
  formatBase 10 m.major ++ ch '.' :: (formatBase 10 m.minor ++ ch ' ' :: (formatBase 10 m.code ++ m.reason))

def text (m : HttpMessage) : List UInt8 := str "HTTP/" ++ (m.line ++ CRLF ++ headersText m.fields)

structure Ok (m : HttpMessage) : Prop where
  code_ge : 100 ≤ m.code
  code_lt : m.code < 1000
  reason : ∀ c ∈ [(10 : UInt8), 13], c ∉ m.reason
  fields : ∀ fv ∈ m.fields, FieldOk fv
  nodup : (m.fields.map Prod.fst).Nodup

theorem Ok.line_notMem {m : HttpMessage} (h : m.Ok) {c : UInt8} (hc : c ∈ [(10 : UInt8), 13]) : c ∉ m.line := by
  have hclass : ∀ c ∈ [(10 : UInt8), 13], isalnum c = false ∧ c ≠ ch '.' ∧ c ≠ ch ' ' := by decide +kernel
  obtain ⟨halnum, hdot, hblank⟩ := hclass c hc
  have hnum : ∀ n, c ∉ formatBase 10 n := fun n => formatBase_notMem (by decide) (by decide) halnum
  unfold line
  simp only [List.mem_append, List.mem_cons, not_or]
  exact ⟨hnum _, hdot, hnum _, hblank, hnum _, h.reason c hc⟩

end HttpMessage

section Receive

variable {pending : σ → List UInt8} {s : σ} {rest : List UInt8} {m : HttpMessage}

theorem receivestatusline_text (hr : sock.Reads pending) (hm : m.Ok) (h : pending s = m.text ++ rest) :
    ∃ s', receivestatusline sock s = pure (.ok (m.code, str "HTTP/" ++ m.line), s') ∧
      pending s' = headersText m.fields ++ rest := by
  rw [HttpMessage.text, List.append_assoc] at h
  obtain ⟨s₁, hfive, h₁⟩ := hr.exact (d := str "HTTP/") h (by decide)
  rw [List.append_assoc] at h₁
  obtain ⟨s', hline, h'⟩ := hr.line h₁ (hm.line_notMem (by decide)) (hm.line_notMem (by decide))
  refine ⟨s', ?_, h'⟩
  obtain ⟨j, hfind⟩ := find_status (formatBase 10 m.major) (formatBase 10 m.minor) (formatBase 10 m.code)
    m.reason formatBase_digit formatBase_digit formatBase_digit (formatBase_length_three hm.code_ge hm.code_lt)
  have hcode : (Int64.ofNat m.code).toInt = m.code := Int64.toInt_ofNat_of_lt (by have := hm.code_lt; omega)
  unfold receivestatusline
  show (sock.receive (str "HTTP/").length s >>= _) = _
  rw [hfive, pure_bind]
  dsimp only
  rw [if_neg (fun e => e rfl), hline, pure_bind]
  dsimp only
  rw [HttpMessage.line, hfind]
  simp only [ofPattern, pure_bind]
  rw [lStr2int_formatBase]
  dsimp only
  rw [hcode]

theorem tryHeaders_text (hr : sock.Reads pending) (hm : m.Ok) (h : pending s = headersText m.fields ++ rest) :
    ∃ s' H, tryHeaders sock s = pure (H, s') ∧ pending s' = rest ∧ ∀ f v, H f = some v ↔ (f, v) ∈ m.fields := by
  obtain ⟨s', H, hrecv, h', hmem⟩ := receiveheaders_text hr hm.fields hm.nodup h
  refine ⟨s', H, ?_, h', hmem⟩
  rw [tryHeaders, hrecv]
  rfl

theorem HttpMessage.exists_first {interim : List HttpMessage} (hinterim : ∀ i ∈ interim, i.Ok ∧ i.code = 100) (hm : m.Ok) :
    ∃ i is, interim ++ [m] = i :: is ∧ i.Ok := by
  cases interim with
  | nil => exact ⟨m, [], rfl, hm⟩
  | cons i is => exact ⟨i, is ++ [m], rfl, (hinterim i List.mem_cons_self).1⟩

/-- Responses that say to continue are skipped. -/
theorem skipContinue_text (hr : sock.Reads pending) {interim is : List HttpMessage} {i : HttpMessage}
    (hinterim : ∀ i ∈ interim, i.Ok ∧ i.code = 100) (hm : m.Ok) (hcode : m.code ≠ 100) (hi : interim ++ [m] = i :: is)
    (h : pending s = headersText i.fields ++ ((is.map HttpMessage.text).flatten ++ rest)) :
    ∃ s', skipContinue sock (some i.code) (str "HTTP/" ++ i.line) s =
        pure ((some (m.code : ℤ), str "HTTP/" ++ m.line), s') ∧
      pending s' = headersText m.fields ++ rest := by
  -- on the interim responses that are still to come; the status line in hand is that of the first
  induction interim generalizing i is s with
  | nil =>
    cases hi
    refine ⟨s, ?_, h⟩
    rw [skipContinue, luaLoop_eq]
    dsimp only
    rw [if_neg]
    · rfl
    rw [Option.some_inj]
    exact_mod_cast hcode
  | cons j js ih =>
    rw [List.cons_append] at hi
    obtain ⟨rfl, rfl⟩ := List.cons.inj hi
    obtain ⟨hok, hj⟩ := hinterim j List.mem_cons_self
    have hjs : ∀ i ∈ js, i.Ok ∧ i.code = 100 := fun i hi => hinterim i (List.mem_cons_of_mem j hi)
    obtain ⟨s₁, H, htry, h₁, _⟩ := tryHeaders_text hr hok h
    obtain ⟨i, is, hi, hiok⟩ := HttpMessage.exists_first hjs hm
    rw [hi, List.map_cons, List.flatten_cons, List.append_assoc] at h₁
    obtain ⟨s₂, hstatus, h₂⟩ := receivestatusline_text hr hiok h₁
    obtain ⟨s', hskip, h'⟩ := ih hjs hi h₂
    refine ⟨s', ?_, h'⟩
    have hhundred : (some (j.code : ℤ)) = some 100 := congrArg (fun n : ℕ => some (n : ℤ)) hj
    rw [skipContinue, luaLoop_eq]
    dsimp only
    rw [if_pos hhundred, htry]
    show ((receivestatusline sock s₁ >>= _) >>= _) = _
    rw [hstatus]
    exact hskip

/-- A body of known length is read, and nothing behind it. -/
theorem sourceByLength_gives (hr : sock.Reads pending) {body : List UInt8} (h : pending s = body ++ rest) :
    ∃ s' xs, (sourceByLength sock).Gives none (s, (body.length : ℤ)) xs (s', 0) ∧ xs.flatten = body ∧ pending s' = rest := by
  induction hn : body.length using Nat.strong_induction_on generalizing body s with
  | _ n ih =>
    subst hn
    by_cases hbody : body = []
    · subst hbody
      refine ⟨s, [], .stop ?_, rfl, h⟩
      rfl
    · have hpos := List.length_pos_iff.2 hbody
      have hblock : 0 < BLOCKSIZE := by decide
      -- one block, and the rest by induction
      set d := body.take BLOCKSIZE with hd
      have hlen : d.length = min BLOCKSIZE body.length := List.length_take
      have hne : d ≠ [] := by
        rw [← List.length_pos_iff, hlen]
        omega
      have hsplit : pending s = d ++ (body.drop BLOCKSIZE ++ rest) := by
        rw [h, ← List.append_assoc, List.take_append_drop]
      obtain ⟨s₁, hrecv, h₁⟩ := hr.exact hsplit hne
      have hleft : (body.drop BLOCKSIZE).length = body.length - BLOCKSIZE := List.length_drop
      obtain ⟨s', xs, hxs, hflat, h'⟩ := ih _ (by omega) h₁ rfl
      refine ⟨s', d :: xs, .chunk ?_ hxs, ?_, h'⟩
      · unfold sourceByLength
        dsimp only
        rw [if_neg (by omega), Int.toNat_natCast, ← hlen, hrecv]
        have hint : (body.length : ℤ) - d.length = ((body.drop BLOCKSIZE).length : ℕ) := by
          rw [hlen, hleft]
          omega
        show (pure ((some d, none), (s₁, (body.length : ℤ) - d.length)) : LuaRun _) = _
        rw [hint]
      · rw [List.flatten_cons, hflat, hd, List.take_append_drop]

end Receive

/-- **A body of known length is read as it was written**, in whatever chunks it was sent. -/
theorem http_by_length {sock : Sock σ} {sock' : Sock τ} {written : σ → List UInt8} {pending : τ → List UInt8}
    (hw : sock.Writes written) (hr : sock'.Reads pending) {src : Source α} {a a' : α} {xs : List (List UInt8)}
    (hsrc : src.Gives none a xs a') (s : σ) :
    ∃ s', pumpAll src (sinkKeepOpen sock) (a, s) = pure ((true, none), (a', s')) ∧
      written s' = written s ++ xs.flatten ∧
      ∀ r rest, pending r = xs.flatten ++ rest →
        ∃ r' ys, pumpAll (sourceByLength sock') sinkTable ((r, (xs.flatten.length : ℤ)), []) =
            pure ((true, none), ((r', 0), ys)) ∧
          ys.flatten = xs.flatten ∧ pending r' = rest := by
  have hsnk : ∀ s x, sinkKeepOpen sock s (some x) none = sock.send (id x) s := fun _ _ => rfl
  obtain ⟨s', hacc, h'⟩ := Sink.accepts_of_send hw hsnk xs s
  rw [List.map_id] at h'
  refine ⟨s', pumpAll_eq hsrc hacc rfl, h', fun r rest hrest => ?_⟩
  obtain ⟨r', ys, hgives, hflat, hleft⟩ := sourceByLength_gives hr hrest
  exact ⟨r', ys, pumpAll_eq hgives (sinkTable_accepts []) (sinkTable_end _), hflat, hleft⟩

/-- The other end has sent these bytes and then closed. -/
structure Sock.ReadsClosed (sock : Sock σ) (pending : σ → List UInt8) : Prop where
  full : ∀ {s n}, n ≤ (pending s).length →
    ∃ s', sock.receive n s = pure (.ok ((pending s).take n), s') ∧ pending s' = (pending s).drop n
  part : ∀ {s n}, (pending s).length < n → ∃ s', sock.receive n s = pure (.error ("closed", pending s), s')
  close : ∀ s, ∃ s', sock.close s = pure s'

theorem sourceUntilClosed_gives {pending : σ → List UInt8} (hr : sock.ReadsClosed pending) (s : σ) :
    ∃ s' xs, (sourceUntilClosed sock).Gives none (s, false) xs (s', true) ∧ xs.flatten = pending s := by
  induction hn : (pending s).length using Nat.strong_induction_on generalizing s with
  | _ n ih =>
    subst hn
    have hblock : 0 < BLOCKSIZE := by decide
    by_cases hfull : BLOCKSIZE ≤ (pending s).length
    · obtain ⟨s₁, hrecv, h₁⟩ := hr.full hfull
      have hless : (pending s₁).length < (pending s).length := by
        rw [h₁, List.length_drop]
        omega
      obtain ⟨s', xs, hxs, hflat⟩ := ih _ hless s₁ rfl
      refine ⟨s', (pending s).take BLOCKSIZE :: xs, .chunk ?_ hxs, ?_⟩
      · rw [sourceUntilClosed, if_neg Bool.false_ne_true, hrecv]
        rfl
      · rw [List.flatten_cons, hflat, h₁, List.take_append_drop]
    -- what is left comes with the error, and the next call is told that it was the last
    · obtain ⟨s₁, hrecv⟩ := hr.part (not_le.1 hfull)
      obtain ⟨s', hclose⟩ := hr.close s₁
      refine ⟨s', [pending s], .chunk (t := (s', true)) ?_ (.stop rfl), List.flatten_singleton⟩
      rw [sourceUntilClosed, if_neg Bool.false_ne_true, hrecv, pure_bind]
      dsimp only
      rw [if_pos rfl, hclose]
      rfl

/-- **A body up to the end of the connection is read as it was written.** -/
theorem http_until_closed {sock : Sock σ} {sock' : Sock τ} {written : σ → List UInt8} {pending : τ → List UInt8}
    (hw : sock.Writes written) (hclose : ∀ s, ∃ s', sock.close s = pure s' ∧ written s' = written s)
    (hr : sock'.ReadsClosed pending) {src : Source α} {a a' : α} {xs : List (List UInt8)} (hsrc : src.Gives none a xs a')
    (s : σ) :
    ∃ s', pumpAll src (sinkCloseWhenDone sock) (a, s) = pure ((true, none), (a', s')) ∧
      written s' = written s ++ xs.flatten ∧
      ∀ r, pending r = xs.flatten →
        ∃ r' ys, pumpAll (sourceUntilClosed sock') sinkTable ((r, false), []) = pure ((true, none), ((r', true), ys)) ∧
          ys.flatten = xs.flatten := by
  have hsnk : ∀ s x, sinkCloseWhenDone sock s (some x) none = sock.send (id x) s := fun _ _ => rfl
  obtain ⟨s₁, hacc, h₁⟩ := Sink.accepts_of_send hw hsnk xs s
  obtain ⟨s', hclosed, h'⟩ := hclose s₁
  have hend : sinkCloseWhenDone sock s₁ none none = pure ((true, none), s') := by
    show (sock.close s₁ >>= _) = _
    rw [hclosed]
    rfl
  rw [List.map_id] at h₁
  refine ⟨s', pumpAll_eq hsrc hacc hend, h'.trans h₁, fun r hrest => ?_⟩
  obtain ⟨r', ys, hgives, hflat⟩ := sourceUntilClosed_gives hr r
  exact ⟨r', ys, pumpAll_eq hgives (sinkTable_accepts []) (sinkTable_end _), hflat.trans hrest⟩

theorem wireSock_readsClosed : wireSock.ReadsClosed Prod.fst where
  full := by
    intro s n h
    refine ⟨(s.1.drop n, s.2), ?_, rfl⟩
    unfold wireSock
    dsimp only
    rw [if_pos h]
  part := by
    intro s n h
    refine ⟨([], s.2), ?_⟩
    unfold wireSock
    dsimp only
    rw [if_neg (not_le.2 h)]
  close s := ⟨s, rfl⟩

/-- Whether a response to this method has a body. -/
def HttpMessage.HasBody (method : Option (List UInt8)) (m : HttpMessage) : Prop :=
  method ≠ some (str "HEAD") ∧ 200 ≤ m.code ∧ m.code ≠ 204 ∧ m.code ≠ 304

/-- How a body is sent behind the fields: not at all, of the length that the fields give, or in
chunks with more fields behind them. -/
inductive Framed (method : Option (List UInt8)) (m : HttpMessage) : List UInt8 → List UInt8 → Prop
  | none (h : ¬ m.HasBody method) : Framed method m [] []
  | byLength {body : List UInt8} (h : m.HasBody method)
      (hlen : (str "content-length", formatBase 10 body.length) ∈ m.fields)
      (hte : ∀ v, (str "transfer-encoding", v) ∈ m.fields → v = str "identity") (hlt : body.length < 2 ^ 63) :
      Framed method m body body
  | chunked {v : List UInt8} {xs : List (List UInt8)} {trailers : List (List UInt8 × List UInt8)}
      (h : m.HasBody method) (hte : (str "transfer-encoding", v) ∈ m.fields) (hv : v ≠ str "identity")
      (hlen : ∀ v, (str "content-length", v) ∉ m.fields) (hxs : ∀ x ∈ xs, x ≠ [] ∧ x.length < 2 ^ 63)
      (hok : ∀ fv ∈ trailers, FieldOk fv) (hnodup : (trailers.map Prod.fst).Nodup) :
      Framed method m xs.flatten ((xs.map chunkText).flatten ++ (formatX 0 ++ CRLF ++ fieldsText trailers))

section Response

variable {pending : σ → List UInt8} {s : σ} {rest body wire : List UInt8} {m : HttpMessage} {method : Option (List UInt8)}
  {H : Headers}

/-- Whether the client looks elsewhere. -/
def HttpMessage.Redirects (reqt : Request) (m : HttpMessage) : Prop :=
  (∃ v, (str "location", v) ∈ m.fields ∧ ∃ c ∈ v, isspace c = false) ∧ reqt.redirect = true ∧ reqt.source = false ∧
    m.code ∈ [301, 302, 303, 307] ∧ reqt.method ∈ [none, some (str "GET"), some (str "HEAD")] ∧ reqt.nredirects < 5

theorem shouldredirect_eq {reqt : Request} (hH : ∀ f v, H f = some v ↔ (f, v) ∈ m.fields)
    (hstay : ¬ m.Redirects reqt) :
    ∃ b, shouldredirect reqt (some (m.code : ℤ)) H = pure b ∧ ¬ (b = true ∧ ¬ reqt.source = true) := by
  unfold shouldredirect
  cases hloc : H (str "location") with
  | none => exact ⟨false, rfl, fun h => by cases h.1⟩
  | some v =>
    have hpat : patternItems (str "%s").length (str "%s") = [.single (.escaped (ch 's')) .once] := by decide +kernel
    dsimp only
    rw [stringGsub_class (f := fun _ => some []) hpat (by decide) (fun _ _ => rfl)]
    refine ⟨_, rfl, ?_⟩
    rintro ⟨hb, hsource⟩
    obtain ⟨hne, hredirect, hcode, hmethod, hn⟩ := of_decide_eq_true hb
    refine hstay ⟨⟨v, (hH _ _).1 hloc, ?_⟩, hredirect, by simpa using hsource, ?_, by simpa using hmethod, hn⟩
    -- the location is more than blanks, or the gsub would leave nothing of it
    · by_contra hall
      push Not at hall
      refine hne (List.flatMap_eq_nil_iff.2 fun c hc => ?_)
      have hspace : isspace c = true := by simpa using hall c hc
      exact if_pos hspace
    · have hints : ∀ n : ℕ, some (m.code : ℤ) = some (n : ℤ) → m.code = n := fun n h => by exact_mod_cast Option.some.inj h
      rcases hcode with h | h | h | h
      · exact hints 301 h ▸ by simp
      · exact hints 302 h ▸ by simp
      · exact hints 303 h ▸ by simp
      · exact hints 307 h ▸ by simp

theorem shouldreceivebody_eq (hm : m.Ok) (reqt : Request) [Decidable (m.HasBody reqt.method)] :
    shouldreceivebody reqt (some (m.code : ℤ)) = pure (decide (m.HasBody reqt.method)) := by
  have hge := hm.code_ge
  unfold shouldreceivebody
  by_cases hsome : reqt.method = some (str "HEAD") ∨ (some (m.code : ℤ)) = some 204 ∨ (some (m.code : ℤ)) = some 304
  · rw [if_pos hsome, decide_eq_false]
    rintro ⟨h₁, _, h₂, h₃⟩
    rcases hsome with h | h | h
    · exact h₁ h
    · exact h₂ (by exact_mod_cast Option.some.inj h)
    · exact h₃ (by exact_mod_cast Option.some.inj h)
  · rw [if_neg hsome]
    rw [not_or, not_or] at hsome
    obtain ⟨h₁, h₂, h₃⟩ := hsome
    show (pure (decide ¬(100 ≤ (m.code : ℤ) ∧ (m.code : ℤ) < 200)) : LuaRun Bool) = _
    congr 1
    rw [decide_eq_decide]
    constructor
    · intro h
      exact ⟨h₁, by omega, fun e => h₂ (by rw [e]; rfl), fun e => h₃ (by rw [e]; rfl)⟩
    · rintro ⟨_, h, _⟩
      omega

theorem receivebody_framed (hr : sock.Reads pending) (hbody : Framed method m body wire) (hhas : m.HasBody method)
    (hH : ∀ f v, H f = some v ↔ (f, v) ∈ m.fields) (h : pending s = wire ++ rest) :
    ∃ s' chunks, receivebody sock H sinkTable s [] = pure (s', chunks) ∧ chunks.flatten = body ∧ pending s' = rest := by
  cases hbody with
  | none hno => exact absurd hhas hno
  | @byLength _ _ hlen hte hlt =>
    obtain ⟨s', xs, hxs, hflat, h'⟩ := sourceByLength_gives hr h
    refine ⟨s', xs, ?_, hflat, h'⟩
    have hpump := pumpAll_eq hxs (sinkTable_accepts []) (sinkTable_end _)
    have hlength : (Int64.ofNat body.length).toInt = body.length := Int64.toInt_ofNat_of_lt hlt
    -- a transfer encoding would be asked first
    have hplain : ¬ ((H (str "transfer-encoding")).isSome ∧ H (str "transfer-encoding") ≠ some (str "identity")) := by
      rintro ⟨hsome, hne⟩
      obtain ⟨v, hv⟩ := Option.isSome_iff_exists.1 hsome
      exact hne (hv.trans (congrArg some (hte v ((hH _ _).1 hv))))
    unfold receivebody
    dsimp only
    rw [if_neg hplain, (hH _ _).2 hlen, Option.bind_some, lStr2int_formatBase]
    dsimp only
    rw [hlength, hpump]
    rfl
  | @chunked v xs trailers _ hte hv hlen hxs hok hnodup =>
    rw [List.append_assoc, List.append_assoc] at h
    obtain ⟨s₁, h₁, hgives⟩ := sourceHttpChunked_chunks (some fun _ => none) hr hxs h
    obtain ⟨s', H', hend, h'⟩ := sourceHttpChunked_trailers hr hok hnodup h₁
    have hpump := pumpAll_eq (hgives _ _ (.stop hend)) (sinkTable_accepts []) (sinkTable_end _)
    rw [List.append_nil] at hpump
    have hlength : H (str "content-length") = none := by
      rw [Option.eq_none_iff_forall_not_mem]
      exact fun v hv => hlen v ((hH _ _).1 hv)
    refine ⟨s', xs, ?_, rfl, h'⟩
    unfold receivebody
    dsimp only
    rw [(hH _ _).2 hte, if_pos ⟨rfl, fun e => hv (Option.some.inj e)⟩, hlength]
    show (pumpAll (sourceHttpChunked sock) sinkTable ((s, some fun _ => none), []) >>= _) = _
    rw [hpump]
    rfl

end Response

open Classical in
/-- **A response is read as it was sent**, and what follows it in the connection is left there: the
responses that say to continue are skipped, the fields are as they were sent, and so is the body,
however it was framed. -/
theorem http_response {pending : σ → List UInt8} (hr : sock.Reads pending) {interim : List HttpMessage} {m : HttpMessage}
    {reqt : Request} {body wire rest : List UInt8} {s : σ} (hinterim : ∀ i ∈ interim, i.Ok ∧ i.code = 100) (hm : m.Ok)
    (hcode : m.code ≠ 100) (hstay : ¬ m.Redirects reqt) (hbody : Framed reqt.method m body wire)
    (h : pending s = ((interim ++ [m]).map HttpMessage.text).flatten ++ (wire ++ rest)) :
    ∃ s' H chunks, receiveResponse sock reqt sinkTable s [] =
        pure (.inr ⟨some (m.code : ℤ), H, str "HTTP/" ++ m.line⟩, (s', chunks)) ∧
      (∀ f v, H f = some v ↔ (f, v) ∈ m.fields) ∧ chunks.flatten = body ∧ pending s' = rest := by
  -- the first status line is that of an interim response, if there is one
  obtain ⟨i, is, hi, hiok⟩ := HttpMessage.exists_first hinterim hm
  rw [hi, List.map_cons, List.flatten_cons, List.append_assoc] at h
  obtain ⟨s₁, hstatus, h₁⟩ := receivestatusline_text hr hiok h
  obtain ⟨s₂, hskip, h₂⟩ := skipContinue_text hr hinterim hm hcode hi h₁
  obtain ⟨s₃, H, htry, h₃, hH⟩ := tryHeaders_text hr hm h₂
  obtain ⟨b, hredirect, hb⟩ := shouldredirect_eq hH hstay
  -- up to the body nothing depends on how it is framed
  have hstart : receiveResponse sock reqt sinkTable s [] = (do
      if ← shouldreceivebody reqt (some (m.code : ℤ)) then
        let (s, b) ← receivebody sock H sinkTable s₃ []
        return (.inr ⟨some (m.code : ℤ), H, str "HTTP/" ++ m.line⟩, (s, b))
      else return (.inr ⟨some (m.code : ℤ), H, str "HTTP/" ++ m.line⟩, (s₃, []))) := by
    rw [receiveResponse, hstatus]
    show (skipContinue sock (some i.code) _ s₁ >>= _) = _
    rw [hskip]
    show (tryHeaders sock s₂ >>= _) = _
    rw [htry]
    show (shouldredirect reqt (some (m.code : ℤ)) H >>= _) = _
    rw [hredirect, pure_bind, if_neg hb]
  rw [hstart, shouldreceivebody_eq hm]
  by_cases hhas : m.HasBody reqt.method
  · obtain ⟨s', chunks, hrecv, hflat, h'⟩ := receivebody_framed hr hbody hhas hH h₃
    refine ⟨s', H, chunks, ?_, hH, hflat, h'⟩
    rw [decide_eq_true hhas]
    show (receivebody sock H sinkTable s₃ [] >>= _) = _
    rw [hrecv]
    rfl
  · cases hbody with
    | none => exact ⟨s₃, H, [], by rw [decide_eq_false hhas]; rfl, hH, rfl, h₃⟩
    | byLength hbody => exact absurd hbody hhas
    | chunked hbody => exact absurd hbody hhas

theorem http_response_continue :
    ∃ s' H chunks, receiveResponse wireSock ⟨none, false, true, 0⟩ sinkTable
        (str "HTTP/1.1 100 Continue" ++ CRLF ++ CRLF ++ str "HTTP/1.1 200 OK" ++ CRLF ++ str "Content-Length: 2" ++ CRLF ++
          CRLF ++ str "hiHTTP", []) [] =
        pure (.inr ⟨some ((200 : ℕ) : ℤ), H, str "HTTP/" ++ str "1.1 200 OK"⟩, (s', chunks)) ∧
      (∀ f v, H f = some v ↔ (f, v) ∈ [(str "content-length", str "2")]) ∧ chunks.flatten = str "hi" ∧ s'.1 = str "HTTP" := by
  let i : HttpMessage := ⟨1, 1, 100, str " Continue", []⟩
  let m : HttpMessage := ⟨1, 1, 200, str " OK", [(str "content-length", str "2")]⟩
  have hi : i.Ok := ⟨by decide, by decide, by decide +kernel, by simp [i], by simp [i]⟩
  have hm : m.Ok := by
    refine ⟨by decide, by decide, by decide +kernel, ?_, by decide⟩
    intro fv hfv
    obtain rfl := List.mem_singleton.1 hfv
    exact ⟨by decide, by decide +kernel, by decide +kernel, by decide +kernel, by decide +kernel⟩
  have hbody : Framed none m (str "hi") (str "hi") := by
    refine .byLength ⟨by decide, by decide, by decide⟩ (by decide) ?_ (by decide)
    intro v hv
    have hname : str "transfer-encoding" = str "content-length" := congrArg Prod.fst (List.mem_singleton.1 hv)
    exact absurd hname (by decide)
  have hinterim : ∀ j ∈ [i], j.Ok ∧ j.code = 100 := by
    intro j hj
    obtain rfl := List.mem_singleton.1 hj
    exact ⟨hi, rfl⟩
  have hstay : ¬ m.Redirects ⟨none, false, true, 0⟩ := fun h => absurd h.2.2.2.1 (by decide)
  have htext : str "HTTP/1.1 100 Continue" ++ CRLF ++ CRLF ++ str "HTTP/1.1 200 OK" ++ CRLF ++ str "Content-Length: 2" ++
      CRLF ++ CRLF ++ str "hiHTTP" = (([i] ++ [m]).map HttpMessage.text).flatten ++ (str "hi" ++ str "HTTP") := by decide
  exact http_response wireSock_reads hinterim hm (by decide) hstay hbody htext

end Qsf
