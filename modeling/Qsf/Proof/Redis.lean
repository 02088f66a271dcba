import Qsf.Lib.Backlog
import Qsf.Proof.Http
import Qsf.Spec.Redis

/-!
# The client of a Redis server: proofs

* `Resp`: the replies of the protocol, and what `response.read` makes of them.
* `responseRead_text`: a reply is read to its end, or to the first error in it.
-/

set_option autoImplicit false

namespace Qsf

variable {σ τ α β : Type} {sock : Sock σ}

/-! ## Scripts -/

theorem RedisRun.bind_ok {x : RedisRun σ α} {f : α → RedisRun σ β} {s s' : σ} {a : α} (h : x s = some (.ok a, s')) :
    (x >>= f) s = f a s' := by
  show (x s).bind _ = _
  rw [h]
  rfl

theorem RedisRun.bind_error {x : RedisRun σ α} {f : α → RedisRun σ β} {s s' : σ} {e : List UInt8}
    (h : x s = some (.error e, s')) : (x >>= f) s = some (.error e, s') := by
  show (x s).bind _ = _
  rw [h]
  rfl

/-- The bytes on their way to this end arrive as lines, or as many at once as are wanted. -/
structure Sock.Receives (sock : Sock σ) (P : List UInt8 → σ → Prop) : Prop where
  line : ∀ {s l rest}, P (l ++ CRLF ++ rest) s → 10 ∉ l → 13 ∉ l →
    ∃ s', sock.receiveLine s = pure (.ok l, s') ∧ P rest s'
  exact : ∀ {s d rest}, P (d ++ rest) s → d ≠ [] → ∃ s', sock.receive d.length s = pure (.ok d, s') ∧ P rest s'

theorem Sock.Reads.receives {pending : σ → List UInt8} (h : sock.Reads pending) :
    sock.Receives fun bytes s => pending s = bytes :=
  ⟨h.line, h.exact⟩

section Network

variable {P : List UInt8 → σ → Prop} {s : σ} {rest : List UInt8}

theorem network_readLine (hr : sock.Receives P) (n : ℕ) {l : List UInt8} (h : P (l ++ CRLF ++ rest) s)
    (hl : ∀ c ∈ [(10 : UInt8), 13], c ∉ l) :
    ∃ s', (network sock n).read none s = some (.ok l, s') ∧ P rest s' := by
  obtain ⟨s', hline, h'⟩ := hr.line h (hl 10 (by decide)) (hl 13 (by decide))
  refine ⟨s', ?_, h'⟩
  have hcall : sockCall sock.receiveLine s = some (.ok (.ok l), s') := by
    rw [sockCall, hline]
    rfl
  exact RedisRun.bind_ok hcall

theorem network_readLength (hr : sock.Receives P) (n : ℕ) {d : List UInt8} (h : P (d ++ rest) s) (hd : d ≠ []) :
    ∃ s', (network sock n).read (some (d.length : ℤ)) s = some (.ok d, s') ∧ P rest s' := by
  obtain ⟨s', hrecv, h'⟩ := hr.exact h hd
  refine ⟨s', ?_, h'⟩
  have hcall : sockCall (sock.receive (d.length : ℤ).toNat) s = some (.ok (.ok d), s') := by
    rw [Int.toNat_natCast, sockCall, hrecv]
    rfl
  unfold network
  dsimp only
  rw [if_neg (by omega)]
  exact RedisRun.bind_ok hcall

theorem network_write (n : ℕ) {d : List UInt8} {s' : σ} (h : sock.send d s = pure ((true, none), s')) :
    (network sock n).write d s = some (.ok (), s') := by
  have hcall : sockCall (sock.send d) s = some (.ok (true, none), s') := by
    rw [sockCall, h]
    rfl
  exact RedisRun.bind_ok hcall

end Network

/-! ## Replies -/

/-- A reply of the protocol. -/
inductive Resp
  | status (s : List UInt8)
  | error (s : List UInt8)
  | integer (n : Int64)
  | nullBulk
  | bulk (s : List UInt8)
  | nullArray
  | array (l : List Resp)

namespace Resp

mutual

/-- How deep calls of `response.read` go in a reply. -/
def depth : Resp → ℕ
  | array l => depthAll l
  | _ => 0

def depthAll : List Resp → ℕ
  | [] => 0
  | t :: ts => max (depth t + 1) (depthAll ts)

end

mutual

def text : Resp → List UInt8
  | status s => ch '+' :: s ++ CRLF
  | error s => ch '-' :: s ++ CRLF
  | integer n => ch ':' :: formatInt n.toInt ++ CRLF
  | nullBulk => str "$-1" ++ CRLF
  | bulk s => bulkText s
  | nullArray => str "*-1" ++ CRLF
  | array l => ch '*' :: formatBase 10 l.length ++ CRLF ++ textAll l

def textAll : List Resp → List UInt8
  | [] => []
  | t :: ts => text t ++ textAll ts

end

mutual

/-- What the client returns of a reply: its value, or the first error. -/
def outcome : Resp → Except (List UInt8) RedisValue
  | status s => .ok (if s = str "OK" then .bool true else if s = str "QUEUED" then .queued else .string s)
  | error s => .error (str "redis error: " ++ s)
  | integer n => .ok (.integer n)
  | nullBulk => .ok .nil
  | bulk s => .ok (.string s)
  | nullArray => .ok .nil
  | array l => (outcomeAll l).map .list

def outcomeAll : List Resp → Except (List UInt8) (List RedisValue)
  | [] => .ok []
  | t :: ts => (outcome t).bind fun v => (outcomeAll ts).map (v :: ·)

end

mutual

/-- What the client leaves unread of a reply: what is behind the first error. -/
def left : Resp → List Resp
  | array l => leftAll l
  | _ => []

def leftAll : List Resp → List Resp
  | [] => []
  | t :: ts =>
    match outcome t with
    | .ok _ => leftAll ts
    | .error _ => left t ++ ts

end

mutual

/-- A reply that can be sent. -/
def Ok : Resp → Prop
  | status s => ∀ c ∈ [(10 : UInt8), 13], c ∉ s
  | error s => ∀ c ∈ [(10 : UInt8), 13], c ∉ s
  | bulk s => s.length + 2 < 2 ^ 63
  | array l => l.length < 2 ^ 63 ∧ OkAll l
  | _ => True

def OkAll : List Resp → Prop
  | [] => True
  | t :: ts => Ok t ∧ OkAll ts

end

mutual

/-- A reply without an error in it is read to its end. -/
theorem left_of_ok : ∀ (t : Resp) {v : RedisValue}, t.outcome = .ok v → t.left = []
  | array l, v, h => by
    rw [outcome] at h
    cases hall : outcomeAll l with
    | ok vs => exact leftAll_of_ok l hall
    | error e =>
      rw [hall] at h
      cases h
  | status _, _, _ | error _, _, _ | integer _, _, _ | nullBulk, _, _ | bulk _, _, _ | nullArray, _, _ => rfl

theorem leftAll_of_ok : ∀ (l : List Resp) {vs : List RedisValue}, outcomeAll l = .ok vs → leftAll l = []
  | [], _, _ => rfl
  | t :: ts, vs, h => by
    rw [outcomeAll] at h
    cases hout : outcome t with
    | error e =>
      rw [hout] at h
      cases h
    | ok v =>
      rw [hout] at h
      cases hall : outcomeAll ts with
      | error e =>
        change (outcomeAll ts).map (v :: ·) = _ at h
        rw [hall] at h
        cases h
      | ok vs' =>
        rw [leftAll, hout]
        exact leftAll_of_ok ts hall

end

theorem textAll_append (l l' : List Resp) : textAll (l ++ l') = textAll l ++ textAll l' := by
  induction l with
  | nil => rfl
  | cons t l ih => rw [List.cons_append, textAll, textAll, ih, List.append_assoc]

end Resp

/-! What `response.read` does, by the first character of the line. -/

section Prefix

variable {net : ClientNetwork σ} {reader : RedisRun σ RedisValue} {s s' : σ} {data : List UInt8} {n : Int64}

theorem responseBody_status (h : net.read none s = some (.ok (ch '+' :: data), s')) :
    responseBody net reader s = some ((Resp.status data).outcome, s') := by
  rw [responseBody, RedisRun.bind_ok h]
  dsimp only
  rw [if_pos rfl, Resp.outcome]
  split_ifs <;> rfl

theorem responseBody_error (h : net.read none s = some (.ok (ch '-' :: data), s')) :
    responseBody net reader s = some (.error (str "redis error: " ++ data), s') := by
  rw [responseBody, RedisRun.bind_ok h]
  dsimp only
  rw [if_neg (by decide), if_pos rfl]
  rfl

theorem responseBody_integer (h : net.read none s = some (.ok (ch ':' :: data), s')) (hn : lStr2int data = some n) :
    responseBody net reader s = some (.ok (.integer n), s') := by
  rw [responseBody, RedisRun.bind_ok h]
  dsimp only
  rw [if_neg (by decide), if_neg (by decide), if_pos rfl, hn]
  rfl

theorem responseBody_bulk (h : net.read none s = some (.ok (ch '$' :: data), s')) (hn : lStr2int data = some n) :
    responseBody net reader s = (if n = -1 then pure .nil else
      net.read (some (n + 2).toInt) >>= fun chunk => pure (.string (chunk.take (chunk.length - 2))) : RedisRun σ _) s' := by
  rw [responseBody, RedisRun.bind_ok h]
  dsimp only
  rw [if_neg (by decide), if_neg (by decide), if_neg (by decide), if_pos rfl, hn]

theorem responseBody_multibulk (h : net.read none s = some (.ok (ch '*' :: data), s')) (hn : lStr2int data = some n) :
    responseBody net reader s = (if n = -1 then pure .nil else
      readList reader n.toInt.toNat >>= fun l => pure (.list l) : RedisRun σ _) s' := by
  rw [responseBody, RedisRun.bind_ok h]
  dsimp only
  rw [if_neg (by decide), if_neg (by decide), if_neg (by decide), if_neg (by decide), if_pos rfl, hn]

end Prefix

section Read

variable {P : List UInt8 → σ → Prop}

theorem formatBase_line {n : ℕ} : ∀ c ∈ [(10 : UInt8), 13], c ∉ formatBase 10 n := by
  have hclass : ∀ c ∈ [(10 : UInt8), 13], isalnum c = false := by decide +kernel
  exact fun c hc => formatBase_notMem (by decide) (by decide) (hclass c hc)

theorem formatInt_notMem {n : ℤ} : ∀ c ∈ [(10 : UInt8), 13], c ∉ formatInt n := by
  have hminus : ∀ c ∈ [(10 : UInt8), 13], c ≠ ch '-' := by decide +kernel
  intro c hc
  unfold formatInt
  split
  · exact List.not_mem_cons_of_ne_of_not_mem (hminus c hc) (formatBase_line c hc)
  · exact formatBase_line c hc

/-- The line in front of a reply. -/
theorem responseRead_line (hr : sock.Receives P) (n : ℕ) (c : UInt8) (data rest : List UInt8) {s : σ}
    (hc : c ≠ 10 ∧ c ≠ 13) (hdata : ∀ c ∈ [(10 : UInt8), 13], c ∉ data) (h : P ((c :: data ++ CRLF) ++ rest) s) :
    ∃ s', (network sock n).read none s = some (.ok (c :: data), s') ∧ P rest s' := by
  refine network_readLine hr n h ?_
  intro d hd
  refine List.not_mem_cons_of_ne_of_not_mem ?_ (hdata d hd)
  rintro rfl
  rcases List.mem_cons.1 hd with e | e
  · exact hc.1 e
  · exact hc.2 (List.mem_singleton.1 e)

theorem lStr2int_minus_one : lStr2int (str "-1") = some (-1) := by
  decide +kernel

theorem ofNat_ne_minus_one {n : ℕ} (h : n < 2 ^ 63) : Int64.ofNat n ≠ -1 := by
  intro e
  have hint := congrArg Int64.toInt e
  rw [Int64.toInt_ofNat_of_lt h] at hint
  have hneg : (-1 : Int64).toInt = -1 := rfl
  omega

/-- What a call this deep may call. -/
def nestedRead (net : ClientNetwork σ) : ℕ → RedisRun σ RedisValue
  | 0 => throw (str "stack overflow")
  | calls + 1 => responseReadIn net calls

theorem responseReadIn_eq (net : ClientNetwork σ) (calls : ℕ) :
    responseReadIn net calls = responseBody net (nestedRead net calls) := by
  cases calls <;> rfl

mutual

/-- What a call reads that may call itself this deep. -/
theorem responseReadIn_text (hr : sock.Receives P) (n : ℕ) :
    ∀ (t : Resp) (calls : ℕ) (s : σ) (rest : List UInt8), t.Ok → t.depth ≤ calls → P (t.text ++ rest) s →
      ∃ s', responseReadIn (network sock n) calls s = some (t.outcome, s') ∧ P (Resp.textAll t.left ++ rest) s'
  | .status data, calls, s, rest, hok, _, h => by
    obtain ⟨s', hline, h'⟩ := responseRead_line hr n _ data rest (by decide) hok h
    rw [responseReadIn_eq]
    exact ⟨s', responseBody_status hline, h'⟩
  | .error data, calls, s, rest, hok, _, h => by
    obtain ⟨s', hline, h'⟩ := responseRead_line hr n _ data rest (by decide) hok h
    rw [responseReadIn_eq]
    exact ⟨s', responseBody_error hline, h'⟩
  | .integer k, calls, s, rest, _, _, h => by
    obtain ⟨s', hline, h'⟩ := responseRead_line hr n _ _ rest (by decide) formatInt_notMem h
    rw [responseReadIn_eq]
    refine ⟨s', responseBody_integer hline ?_, h'⟩
    rw [lStr2int_formatInt, Int64.ofInt_toInt]
  | .nullBulk, calls, s, rest, _, _, h => by
    obtain ⟨s', hline, h'⟩ := responseRead_line hr n (ch '$') (str "-1") rest (by decide) (by decide +kernel) h
    rw [responseReadIn_eq]
    exact ⟨s', responseBody_bulk hline lStr2int_minus_one, h'⟩
  | .bulk data, calls, s, rest, hok, _, h => by
    have hok : data.length + 2 < 2 ^ 63 := hok
    obtain ⟨s₁, hline, h₁⟩ := responseRead_line hr n (ch '$') (formatBase 10 data.length)
      ((data ++ CRLF) ++ rest) (by decide) formatBase_line (by
        rw [Resp.text, bulkText] at h
        simpa only [List.append_assoc, List.cons_append] using h)
    have hlength : (Int64.ofNat data.length + 2).toInt = ((data ++ CRLF).length : ℕ) := by
      rw [show (2 : Int64) = Int64.ofNat 2 from rfl, ← Int64.ofNat_add, Int64.toInt_ofNat_of_lt hok, List.length_append]
      rfl
    -- the line end is read with the data, and cut off
    obtain ⟨s', hdata, h'⟩ := network_readLength hr n h₁ (by simp [CRLF])
    refine ⟨s', ?_, h'⟩
    rw [responseReadIn_eq, responseBody_bulk hline lStr2int_formatBase, if_neg (ofNat_ne_minus_one (by omega)), hlength,
      RedisRun.bind_ok hdata]
    have hcut : (data ++ CRLF).take ((data ++ CRLF).length - 2) = data := by
      rw [List.length_append]
      exact List.take_left
    rw [hcut]
    rfl
  | .nullArray, calls, s, rest, _, _, h => by
    obtain ⟨s', hline, h'⟩ := responseRead_line hr n (ch '*') (str "-1") rest (by decide) (by decide +kernel) h
    rw [responseReadIn_eq]
    exact ⟨s', responseBody_multibulk hline lStr2int_minus_one, h'⟩
  | .array l, calls, s, rest, hok, hdepth, h => by
    obtain ⟨hlt, hl⟩ := hok
    obtain ⟨s₁, hline, h₁⟩ := responseRead_line hr n (ch '*') (formatBase 10 l.length)
      (Resp.textAll l ++ rest) (by decide) formatBase_line (by
        rw [Resp.text] at h
        simpa only [List.append_assoc, List.cons_append] using h)
    obtain ⟨s', hlist, h'⟩ := readList_text hr n l calls s₁ rest hl hdepth h₁
    refine ⟨s', ?_, h'⟩
    rw [responseReadIn_eq, responseBody_multibulk hline lStr2int_formatBase, if_neg (ofNat_ne_minus_one hlt),
      Int64.toInt_ofNat_of_lt hlt, Int.toNat_natCast, Resp.outcome]
    cases hall : Resp.outcomeAll l with
    | ok vs => exact RedisRun.bind_ok (hlist.trans (by rw [hall]))
    | error e => exact RedisRun.bind_error (hlist.trans (by rw [hall]))

theorem readList_text (hr : sock.Receives P) (n : ℕ) :
    ∀ (l : List Resp) (calls : ℕ) (s : σ) (rest : List UInt8), Resp.OkAll l → Resp.depthAll l ≤ calls →
      P (Resp.textAll l ++ rest) s →
      ∃ s', readList (nestedRead (network sock n) calls) l.length s = some (Resp.outcomeAll l, s') ∧
        P (Resp.textAll (Resp.leftAll l) ++ rest) s'
  | [], calls, s, rest, _, _, h => by
    refine ⟨s, ?_, h⟩
    rw [List.length_nil, readList]
    rfl
  | t :: ts, calls, s, rest, hok, hdepth, h => by
    obtain ⟨ht, hts⟩ := hok
    rw [Resp.depthAll, max_le_iff] at hdepth
    -- a reply within a reply takes a call of its own
    obtain ⟨calls, rfl⟩ := Nat.exists_eq_succ_of_ne_zero (Nat.ne_zero_of_lt hdepth.1)
    rw [Resp.textAll, List.append_assoc] at h
    obtain ⟨s₁, hread, h₁⟩ := responseReadIn_text hr n t calls s _ ht (Nat.le_of_succ_le_succ hdepth.1) h
    have hread' : nestedRead (network sock n) (calls + 1) s = some (t.outcome, s₁) := hread
    rw [List.length_cons, readList, Resp.outcomeAll, Resp.leftAll]
    cases hout : t.outcome with
    -- the error leaves the loop, with the replies behind it unread
    | error e =>
      refine ⟨s₁, RedisRun.bind_error (hread'.trans (by rw [hout])), ?_⟩
      rwa [Resp.textAll_append, List.append_assoc]
    | ok v =>
      rw [t.left_of_ok hout] at h₁
      obtain ⟨s', hlist, h'⟩ := readList_text hr n ts (calls + 1) s₁ rest hts hdepth.2 h₁
      refine ⟨s', ?_, h'⟩
      rw [hout] at hread'
      rw [RedisRun.bind_ok hread']
      cases hall : Resp.outcomeAll ts with
      | ok vs => exact RedisRun.bind_ok (hlist.trans (by rw [hall]))
      | error e => exact RedisRun.bind_error (hlist.trans (by rw [hall]))

end

end Read

/-! ## Requests -/

/-- The reply that looks like this request: a list of its words. -/
def requestResp (r : List (List UInt8)) : Resp := .array (r.map .bulk)

/-- A request that can be sent. -/
def RequestOk (r : List (List UInt8)) : Prop := r.length < 2 ^ 63 ∧ ∀ a ∈ r, a.length + 2 < 2 ^ 63

namespace Resp

/-- A reply that can be sent and read with a stack for `n` calls. -/
def Fits (n : ℕ) (t : Resp) : Prop := t.Ok ∧ t.depth ≤ n

theorem depthAll_bulk (r : List (List UInt8)) : depthAll (r.map .bulk) ≤ 1 := by
  induction r with
  | nil => exact Nat.zero_le 1
  | cons a r ih =>
    rw [List.map_cons, depthAll]
    exact max_le le_rfl ih

theorem textAll_bulk (r : List (List UInt8)) : textAll (r.map .bulk) = (r.map bulkText).flatten := by
  induction r with
  | nil => rfl
  | cons a r ih => rw [List.map_cons, textAll, ih, text, List.map_cons, List.flatten_cons]

theorem okAll_bulk {r : List (List UInt8)} (h : ∀ a ∈ r, a.length + 2 < 2 ^ 63) : OkAll (r.map .bulk) := by
  induction r with
  | nil => trivial
  | cons a r ih => exact ⟨h a List.mem_cons_self, ih fun b hb => h b (List.mem_cons_of_mem a hb)⟩

theorem outcomeAll_bulk (r : List (List UInt8)) : outcomeAll (r.map .bulk) = .ok (r.map .string) := by
  induction r with
  | nil => rfl
  | cons a r ih =>
    rw [List.map_cons, outcomeAll, ih]
    rfl

end Resp

theorem multibulkText_eq (command : List UInt8) (args : List (List UInt8)) :
    multibulkText command args = (requestResp (command :: args)).text := by
  rw [requestResp, Resp.text, Resp.textAll_bulk, List.length_map, List.map_cons, List.flatten_cons, multibulkText]
  simp only [List.append_assoc, List.length_cons]

/-- **What is read of a reply**, and what is left. -/
theorem responseRead_text {P : List UInt8 → σ → Prop} (hr : sock.Receives P) {n : ℕ} {t : Resp} (ht : t.Fits n) {s : σ}
    {rest : List UInt8} (h : P (t.text ++ rest) s) :
    ∃ s', responseRead (network sock n) s = some (t.outcome, s') ∧ P (Resp.textAll t.left ++ rest) s' :=
  responseReadIn_text hr n t n s rest ht.1 ht.2 h

theorem responseRead_request {P : List UInt8 → σ → Prop} (hr : sock.Receives P) {n : ℕ} (hn : 1 ≤ n)
    {r : List (List UInt8)} (hok : RequestOk r) {s : σ} {rest : List UInt8} (h : P ((requestResp r).text ++ rest) s) :
    ∃ s', responseRead (network sock n) s = some (.ok (.list (r.map .string)), s') ∧ P rest s' := by
  have hresp : (requestResp r).Fits n :=
    ⟨⟨by rw [List.length_map]; exact hok.1, Resp.okAll_bulk hok.2⟩, (Resp.depthAll_bulk r).trans hn⟩
  have hout : (requestResp r).outcome = .ok (.list (r.map .string)) := by
    rw [requestResp, Resp.outcome, Resp.outcomeAll_bulk]
    rfl
  obtain ⟨s', hread, h'⟩ := responseRead_text hr hresp h
  rw [hout] at hread
  rw [Resp.left_of_ok _ hout] at h'
  exact ⟨s', hread, h'⟩

/-- **No argument changes the meaning of a request.** Whatever bytes they are, a reader of the
protocol gets the command and its arguments back, and then what follows. -/
theorem redis_request {sock : Sock σ} {sock' : Sock τ} {written : σ → List UInt8} {pending : τ → List UInt8}
    (hw : sock.Writes written) (hr : sock'.Reads pending) {n : ℕ} (hn : 1 ≤ n) (command : List UInt8) (args : List RedisArg)
    (hok : RequestOk (command :: args.map RedisArg.tostring)) (s : σ) :
    ∃ s' wire, multibulk (network sock n) command args s = some (.ok (), s') ∧ written s' = written s ++ wire ∧
      ∀ r rest, pending r = wire ++ rest →
        ∃ r', responseRead (network sock' n) r =
            some (.ok (.list ((command :: args.map RedisArg.tostring).map .string)), r') ∧
          pending r' = rest := by
  obtain ⟨s', hsend, h'⟩ := hw.send s (multibulkText command (args.map RedisArg.tostring))
  refine ⟨s', _, network_write n hsend, h', fun r rest hrest => ?_⟩
  rw [multibulkText_eq] at hrest
  exact responseRead_request hr.receives hn hok hrest

/-- The argument ends with what looks like another request. -/
theorem redis_request_injected : ∃ s' wire,
    multibulk (network wireSock 1) (str "GET") [.string (str "k\r\n*1\r\n$8\r\nFLUSHALL\r\n")] ([], []) = some (.ok (), s') ∧
      s'.2 = [] ++ wire ∧
      ∀ r : List UInt8 × List UInt8, ∀ rest, r.1 = wire ++ rest →
        ∃ r', responseRead (network wireSock 1) r =
            some (.ok (.list ([str "GET", str "k\r\n*1\r\n$8\r\nFLUSHALL\r\n"].map .string)), r') ∧
          r'.1 = rest :=
  redis_request wireSock_writes wireSock_reads le_rfl (str "GET") [.string (str "k\r\n*1\r\n$8\r\nFLUSHALL\r\n")]
    ⟨by decide, by decide⟩ ([], [])

end Qsf
