import Qsf.Proof.Redis

/-!
# Sessions with a Redis server

The client and a server that answers every request in order.

* `callAll_backlog`: what commands return that are called one after the other.
* `redis_session`: every command gets its own answer, until one fails in the middle of its answer.
* `redis_pipeline`: what a pipeline returns, against the same commands one by one.
-/

set_option autoImplicit false

namespace Qsf

variable {σ α Q : Type} {sock : Sock σ} {exec : Q → List (List UInt8) → Q × Resp} {stack : ℕ}

/-! ## The server -/

/-- What a server does with requests, one after the other. -/
def serve (exec : Q → List (List UInt8) → Q × Resp) (q : Q) : List (List (List UInt8)) → Q × List Resp
  | [] => (q, [])
  | r :: rs => ((serve exec (exec q r).1 rs).1, (exec q r).2 :: (serve exec (exec q r).1 rs).2)

/-- A connection to a server. Where `Conn q bytes` holds, the server is in state `q` and these bytes
are on their way to the client. No reply is too deep for the client's stack. -/
structure Sock.Serves (sock : Sock σ) (exec : Q → List (List UInt8) → Q × Resp) (stack : ℕ)
    (Conn : Q → List UInt8 → σ → Prop) : Prop where
  receives : ∀ q, sock.Receives (Conn q)
  send : ∀ {q bytes s} (rs : List (List (List UInt8))), (∀ r ∈ rs, RequestOk r) → Conn q bytes s →
    ∃ s', sock.send (rs.map fun r => (requestResp r).text).flatten s = pure ((true, none), s') ∧
      Conn (serve exec q rs).1 (bytes ++ Resp.textAll (serve exec q rs).2) s'
  replies : ∀ q r, (exec q r).2.Fits stack

theorem fits_serve {Conn : Q → List UInt8 → σ → Prop} (h : sock.Serves exec stack Conn) (q : Q)
    (rs : List (List (List UInt8))) : ∀ t ∈ (serve exec q rs).2, t.Fits stack := by
  induction rs generalizing q with
  | nil => exact fun _ ht => absurd ht List.not_mem_nil
  | cons r rs ih =>
    rw [serve, List.forall_mem_cons]
    exact ⟨h.replies q r, ih _⟩

theorem length_serve (q : Q) (rs : List (List (List UInt8))) : (serve exec q rs).2.length = rs.length := by
  induction rs generalizing q with
  | nil => rfl
  | cons r rs ih => exact congrArg (· + 1) (ih _)

namespace Resp

theorem okAll_iff {l : List Resp} : OkAll l ↔ ∀ t ∈ l, t.Ok := by
  induction l with
  | nil => exact iff_of_true trivial fun _ ht => absurd ht List.not_mem_nil
  | cons t l ih => rw [OkAll, ih, List.forall_mem_cons]

theorem depthAll_le_iff {l : List Resp} {n : ℕ} : depthAll l ≤ n ↔ ∀ t ∈ l, t.depth + 1 ≤ n := by
  induction l with
  | nil => exact iff_of_true (Nat.zero_le n) fun _ ht => absurd ht List.not_mem_nil
  | cons t l ih => rw [depthAll, max_le_iff, ih, List.forall_mem_cons]

mutual

theorem left_fits {n : ℕ} : ∀ (t : Resp), t.Fits n → ∀ u ∈ t.left, u.Fits n
  | array l, h => leftAll_fits l h.1.2 h.2
  | status _, _ | error _, _ | integer _, _ | nullBulk, _ | bulk _, _ | nullArray, _ =>
    fun _ hu => absurd hu List.not_mem_nil

theorem leftAll_fits {n : ℕ} : ∀ (l : List Resp), OkAll l → depthAll l ≤ n → ∀ u ∈ leftAll l, u.Fits n
  | [], _, _ => fun _ hu => absurd hu List.not_mem_nil
  | t :: ts, hok, hdepth => by
    rw [depthAll, max_le_iff] at hdepth
    rw [leftAll]
    cases t.outcome with
    | ok v => exact leftAll_fits ts hok.2 hdepth.2
    | error e =>
      intro u hu
      rcases List.mem_append.1 hu with hu | hu
      · exact left_fits t ⟨hok.1, Nat.le_of_succ_le hdepth.1⟩ u hu
      · exact ⟨okAll_iff.1 hok.2 u hu, Nat.le_of_succ_le (depthAll_le_iff.1 hdepth.2 u hu)⟩

end

theorem answer_fits {n : ℕ} {b : List Resp} {t : Resp} (hb : ∀ u ∈ b, u.Fits n) (ht : t.Fits n) :
    (answer left b t).1.Fits n ∧ ∀ u ∈ (answer left b t).2, u.Fits n := by
  cases b with
  | nil => exact ⟨ht, left_fits t ht⟩
  | cons x xs =>
    rw [List.forall_mem_cons] at hb
    refine ⟨hb.1, fun u hu => ?_⟩
    rcases List.mem_append.1 hu with hu | hu
    · exact left_fits x hb.1 u hu
    · rcases List.mem_append.1 hu with hu | hu
      · exact hb.2 u hu
      · exact List.mem_singleton.1 hu ▸ ht

/-- What is on its way behind a request: the next answer, and what comes after it. -/
theorem textAll_answer (b : List Resp) (t : Resp) : ∃ rest, textAll b ++ t.text = (answer left b t).1.text ++ rest ∧
    textAll (answer left b t).1.left ++ rest = textAll (answer left b t).2 := by
  cases b with
  | nil => exact ⟨[], (List.append_nil _).symm, List.append_nil _⟩
  | cons x xs =>
    refine ⟨textAll xs ++ t.text, by rw [textAll, List.append_assoc]; rfl, ?_⟩
    show textAll x.left ++ (textAll xs ++ t.text) = textAll (x.left ++ (xs ++ [t]))
    rw [textAll_append, textAll_append, textAll, textAll, List.append_nil]

end Resp

/-! ## One command after the other -/

/-- The request of a command. -/
def Command.words (c : Command α) (args : α) : List (List UInt8) :=
  c.command :: (c.request args).map RedisArg.tostring

/-- What a command returns that gets this answer. -/
def Command.result (c : Command α) (args : α) (o : Except (List UInt8) RedisValue) :
    Except (List UInt8) (CommandReply α) :=
  o.bind fun
    | .queued => .ok (.queued c.parse)
    | v =>
      match c.parse with
      | none => .ok (.value v)
      | some parse => (parse v (some (c.command, args))).map .value

theorem Command.result_of_ne {c : Command α} {args : α} {v : RedisValue} (hv : v ≠ .queued) :
    c.result args (.ok v) =
      match c.parse with
      | none => .ok (.value v)
      | some parse => (parse v (some (c.command, args))).map .value := by
  cases v with
  | queued => exact absurd rfl hv
  | nil | bool | string | integer | list => rfl

/-- A command whose request is written, and that reads this. -/
theorem Command.call_eq {net : ClientNetwork σ} {c : Command α} {args : α} {s s₁ s' : σ} {o : Except (List UInt8) RedisValue}
    (hwrite : multibulk net c.command (c.request args) s = some (.ok (), s₁))
    (hread : responseRead net s₁ = some (o, s')) : c.call net args s = some (c.result args o, s') := by
  rw [Command.call, RedisRun.bind_ok hwrite]
  cases o with
  | error e => exact RedisRun.bind_error hread
  | ok v =>
    rw [RedisRun.bind_ok hread]
    by_cases hv : v = .queued
    · subst hv
      rfl
    · rw [Command.result_of_ne hv]
      cases v with
      | queued => exact absurd rfl hv
      | nil | bool | string | integer | list =>
        cases c.parse with
        | none => rfl
        | some parse =>
          dsimp only
          cases parse _ (some (c.command, args)) <;> rfl

/-- `pcall`. -/
def pcall {β : Type} (x : RedisRun σ β) : RedisRun σ (Except (List UInt8) β) := fun s =>
  (x s).map fun r => (.ok r.1, r.2)

/-- A script that calls these commands, each one under `pcall`. -/
def callAll (net : ClientNetwork σ) : List (Command α × α) → RedisRun σ (List (Except (List UInt8) (CommandReply α)))
  | [] => return []
  | (c, args) :: calls => do
    let r ← pcall (c.call net args)
    let rs ← callAll net calls
    return r :: rs

section Session

variable {Conn : Q → List UInt8 → σ → Prop} {q : Q} {s : σ}

theorem network_multibulk (h : sock.Serves exec stack Conn) {bytes : List UInt8} (c : Command α) (args : α)
    (hok : RequestOk (c.words args)) (hs : Conn q bytes s) :
    ∃ s', multibulk (network sock stack) c.command (c.request args) s = some (.ok (), s') ∧
      Conn (exec q (c.words args)).1 (bytes ++ (exec q (c.words args)).2.text) s' := by
  obtain ⟨s', hsend, h'⟩ := h.send [c.words args] (by simpa using hok) hs
  refine ⟨s', network_write stack ?_, ?_⟩
  · rw [multibulkText_eq]
    simpa [Command.words] using hsend
  · simpa [serve, Resp.textAll] using h'

/-- A command, behind answers that are unread. -/
theorem call_backlog (h : sock.Serves exec stack Conn) {b : List Resp} (hb : ∀ t ∈ b, t.Fits stack) (c : Command α)
    (args : α) (hok : RequestOk (c.words args)) (hs : Conn q (Resp.textAll b) s) :
    ∃ s', c.call (network sock stack) args s =
        some (c.result args (answer Resp.left b (exec q (c.words args)).2).1.outcome, s') ∧
      Conn (exec q (c.words args)).1 (Resp.textAll (answer Resp.left b (exec q (c.words args)).2).2) s' := by
  obtain ⟨s₁, hwrite, h₁⟩ := network_multibulk h c args hok hs
  -- the oldest answer is read, which need not be that of this request
  obtain ⟨rest, hrest, hleft⟩ := Resp.textAll_answer b (exec q (c.words args)).2
  have hanswer := Resp.answer_fits hb (h.replies q (c.words args))
  rw [hrest] at h₁
  obtain ⟨s', hread, h'⟩ := responseRead_text (h.receives _) hanswer.1 h₁
  rw [hleft] at h'
  exact ⟨s', Command.call_eq hwrite hread, h'⟩

/-- **Commands in a row**, behind answers that are unread. -/
theorem callAll_backlog (h : sock.Serves exec stack Conn) (calls : List (Command α × α)) {b : List Resp}
    (hb : ∀ t ∈ b, t.Fits stack) (hok : ∀ c ∈ calls, RequestOk (c.1.words c.2)) (hs : Conn q (Resp.textAll b) s) :
    ∃ s', callAll (network sock stack) calls s = some (.ok (List.zipWith (fun c t => c.1.result c.2 (Resp.outcome t)) calls
        (answers Resp.left b (serve exec q (calls.map fun c => c.1.words c.2)).2)), s') ∧
      Conn (serve exec q (calls.map fun c => c.1.words c.2)).1
        (Resp.textAll (backlog Resp.left b (serve exec q (calls.map fun c => c.1.words c.2)).2)) s' := by
  induction calls generalizing q b s with
  | nil => exact ⟨s, rfl, hs⟩
  | cons call calls ih =>
    obtain ⟨c, args⟩ := call
    obtain ⟨s₁, hcall, h₁⟩ := call_backlog h hb c args (hok _ List.mem_cons_self) hs
    have hb' := (Resp.answer_fits hb (h.replies q (c.words args))).2
    obtain ⟨s', hall, h'⟩ := ih hb' (fun c hc => hok c (List.mem_cons_of_mem _ hc)) h₁
    refine ⟨s', ?_, h'⟩
    have hpcall : pcall (c.call (network sock stack) args) s = some (.ok (c.result args
        (answer Resp.left b (exec q (c.words args)).2).1.outcome), s₁) := by
      rw [pcall, hcall]
      rfl
    rw [callAll, RedisRun.bind_ok hpcall, RedisRun.bind_ok hall]
    rfl

end Session

/-! A server to try this with. It reads requests as the client reads replies. -/

/-- The words of a list. -/
def RedisValue.words : RedisValue → List (List UInt8)
  | .list l => l.filterMap fun | .string s => some s | _ => none
  | _ => []

/-- At most `n` requests. -/
def readRequests : ℕ → List UInt8 → List (List (List UInt8))
  | 0, _ => []
  | n + 1, d =>
    match responseRead (network wireSock 1) (d, []) with
    | some (.ok v, (rest, _)) => v.words :: readRequests n rest
    | _ => []

def serverSock (exec : Q → List (List UInt8) → Q × Resp) : Sock (Q × List UInt8) where
  receiveLine s := do
    let (r, (bytes, _)) ← wireSock.receiveLine (s.2, [])
    return (r, (s.1, bytes))
  receive n s := do
    let (r, (bytes, _)) ← wireSock.receive n (s.2, [])
    return (r, (s.1, bytes))
  send d s :=
    let (q, ts) := serve exec s.1 (readRequests d.length d)
    return ((true, none), (q, s.2 ++ Resp.textAll ts))
  close s := return s

theorem readRequests_text {rs : List (List (List UInt8))} (hok : ∀ r ∈ rs, RequestOk r) {n : ℕ} (hn : rs.length ≤ n) :
    readRequests n (rs.map fun r => (requestResp r).text).flatten = rs := by
  induction rs generalizing n with
  | nil =>
    cases n with
    | zero => rfl
    | succ n =>
      have hread : responseRead (network wireSock 1) ([], []) =
          some (.error (str "connection error: closed"), ([], [])) := by
        rw [responseRead, responseReadIn_eq]
        rfl
      rw [List.map_nil, List.flatten_nil, readRequests, hread]
  | cons r rs ih =>
    obtain ⟨n, rfl⟩ := Nat.exists_eq_succ_of_ne_zero (Nat.ne_zero_of_lt hn)
    obtain ⟨s', hread, h'⟩ := responseRead_request wireSock_reads.receives le_rfl (hok r List.mem_cons_self)
      (s := ((requestResp r).text ++ (rs.map fun r => (requestResp r).text).flatten, [])) rfl
    have hwords : (RedisValue.list (r.map .string)).words = r := by
      unfold RedisValue.words
      dsimp only
      rw [List.filterMap_map]
      exact List.filterMap_some
    rw [List.map_cons, List.flatten_cons, readRequests, hread]
    dsimp only
    rw [h', hwords, ih (fun x hx => hok x (List.mem_cons_of_mem r hx)) (Nat.le_of_succ_le_succ hn)]

theorem serverSock_serves (hexec : ∀ q r, (exec q r).2.Fits stack) :
    (serverSock exec).Serves exec stack fun q bytes s => s = (q, bytes) where
  receives q := by
    refine ⟨?_, ?_⟩
    · rintro s l rest rfl hl hl'
      obtain ⟨s', hline, h'⟩ := wireSock_reads.line (s := (l ++ CRLF ++ rest, [])) rfl hl hl'
      refine ⟨(q, rest), ?_, rfl⟩
      unfold serverSock
      dsimp only
      rw [hline, ← h']
      rfl
    · rintro s d rest rfl hd
      obtain ⟨s', hrecv, h'⟩ := wireSock_reads.exact (s := (d ++ rest, [])) rfl hd
      refine ⟨(q, rest), ?_, rfl⟩
      unfold serverSock
      dsimp only
      rw [hrecv, ← h']
      rfl
  send := by
    rintro q bytes s rs hok rfl
    have hlen : rs.length ≤ (rs.map fun r => (requestResp r).text).flatten.length := by
      rw [List.length_flatten, List.map_map]
      have hone : ∀ n ∈ rs.map (List.length ∘ fun r => (requestResp r).text), 1 ≤ n := by
        intro n hn
        obtain ⟨r, _, rfl⟩ := List.mem_map.1 hn
        exact Nat.succ_pos _
      simpa using List.length_le_sum_of_one_le _ hone
    refine ⟨_, ?_, rfl⟩
    unfold serverSock
    dsimp only
    rw [readRequests_text hok hlen]
  replies := hexec

theorem serve_append (q : Q) (rs rs' : List (List (List UInt8))) :
    serve exec q (rs ++ rs') =
      ((serve exec (serve exec q rs).1 rs').1, (serve exec q rs).2 ++ (serve exec (serve exec q rs).1 rs').2) := by
  induction rs generalizing q with
  | nil => rfl
  | cons r rs ih =>
    rw [List.cons_append, serve, ih]
    rfl

/-- **Every command gets its own answer** as long as no answer before it failed with more behind the
error. What was behind it is read as the answers to the next commands, and from then on the client
never catches up. -/
theorem redis_session {Conn : Q → List UInt8 → σ → Prop} (h : sock.Serves exec stack Conn) {q : Q} {s : σ}
    (calls : List (Command α × α)) (hok : ∀ c ∈ calls, RequestOk (c.1.words c.2)) (hs : Conn q [] s) :
    ∃ s' results b, callAll (network sock stack) calls s = some (.ok results, s') ∧
      Conn (serve exec q (calls.map fun c => c.1.words c.2)).1 (Resp.textAll b) s' ∧
      ((∀ t ∈ (serve exec q (calls.map fun c => c.1.words c.2)).2.dropLast, t.left = []) →
        results = List.zipWith (fun c t => c.1.result c.2 (Resp.outcome t)) calls
          (serve exec q (calls.map fun c => c.1.words c.2)).2) ∧
      (b = [] ↔ ∀ t ∈ (serve exec q (calls.map fun c => c.1.words c.2)).2, t.left = []) ∧
      ∀ us c vs, calls = us ++ c :: vs →
        (∃ t ∈ (serve exec q (us.map fun c => c.1.words c.2)).2, t.left ≠ []) →
          ∃ x xs, backlog Resp.left [] (serve exec q (us.map fun c => c.1.words c.2)).2 = x :: xs ∧
            results[us.length]? = some (c.1.result c.2 x.outcome) := by
  obtain ⟨s', hall, h'⟩ := callAll_backlog h calls (b := []) (fun _ ht => absurd ht List.not_mem_nil) hok hs
  refine ⟨s', _, _, hall, h', fun hleft => by rw [answers_eq hleft], backlog_eq_nil_iff, ?_⟩
  -- something was left behind by then, and what was left first is read now
  rintro us c vs rfl ⟨t, ht, hne⟩
  cases hb : backlog Resp.left [] (serve exec q (us.map fun c => c.1.words c.2)).2 with
  | nil => exact absurd (backlog_eq_nil_iff.1 hb t ht) hne
  | cons x xs =>
    refine ⟨x, xs, rfl, ?_⟩
    have hlen : us.length = (answers Resp.left [] (serve exec q (us.map fun c => c.1.words c.2)).2).length := by
      rw [length_answers, length_serve, List.length_map]
    rw [List.map_append, serve_append, answers_append, hb, List.map_cons, serve, answers, answer,
      List.zipWith_append hlen]
    have hfirst : us.length = (List.zipWith (fun c t => c.1.result c.2 (Resp.outcome t)) us
        (answers Resp.left [] (serve exec q (us.map fun c => c.1.words c.2)).2)).length := by
      rw [List.length_zipWith, ← hlen, Nat.min_self]
    rw [hfirst, List.getElem?_append_right le_rfl, Nat.sub_self]
    rfl

/-- The first answer is a list with an error in front of a number. -/
def failOnce (q : ℕ) (_ : List (List UInt8)) : ℕ × Resp :=
  (q + 1, if q = 0 then .array [.error (str "ERR"), .integer 7] else .status (str "OK"))

theorem redis_session_stale :
    let get : Command Unit := ⟨str "GET", fun _ => [.string (str "k")], none⟩
    let ts := (serve failOnce 0 [get.words (), get.words ()]).2
    ∃ s' results b, callAll (network (serverSock failOnce) 1) [(get, ()), (get, ())] (0, []) = some (.ok results, s') ∧
      s' = ((serve failOnce 0 [get.words (), get.words ()]).1, Resp.textAll b) ∧
      ((∀ t ∈ ts.dropLast, t.left = []) →
        results = List.zipWith (fun c t => c.1.result c.2 (Resp.outcome t)) [(get, ()), (get, ())] ts) ∧
      (b = [] ↔ ∀ t ∈ ts, t.left = []) ∧
      ∀ us c vs, [(get, ()), (get, ())] = us ++ c :: vs →
        (∃ t ∈ (serve failOnce 0 (us.map fun c => c.1.words c.2)).2, t.left ≠ []) →
          ∃ x xs, backlog Resp.left [] (serve failOnce 0 (us.map fun c => c.1.words c.2)).2 = x :: xs ∧
            results[us.length]? = some (c.1.result c.2 x.outcome) := by
  intro get ts
  have hexec : ∀ q r, (failOnce q r).2.Fits 1 := by
    intro q r
    unfold failOnce
    dsimp only
    split
    · exact ⟨⟨by decide, by unfold Resp.Ok; decide +kernel, trivial, trivial⟩, le_rfl⟩
    · exact ⟨by unfold Resp.Ok; decide +kernel, Nat.zero_le 1⟩
  have hok : RequestOk (get.words ()) := ⟨by decide, by decide⟩
  exact redis_session (serverSock_serves hexec) [(get, ()), (get, ())] (by simpa using hok) rfl

/-! ## Pipelines -/

section Queue

variable {calls : List (Command α × α)} {parsers : List (ReplyParser α)} {requests : List (List UInt8)}

/-- The text of a call. -/
def callText (c : Command α × α) : List UInt8 := (requestResp (c.1.words c.2)).text

theorem call_queued (c : Command α) (args : α) (requests : List (List UInt8)) :
    c.call (queueNetwork stack) args requests = some (.ok (.queued c.parse), requests ++ [callText (c, args)]) := by
  have hwrite : multibulk (queueNetwork stack) c.command (c.request args) requests =
      some (.ok (), requests ++ [callText (c, args)]) := by
    rw [multibulk, multibulkText_eq]
    rfl
  have hread : responseRead (queueNetwork stack) (requests ++ [callText (c, args)]) =
      some ((Resp.status (str "QUEUED")).outcome, requests ++ [callText (c, args)]) := by
    rw [responseRead, responseReadIn_eq]
    exact responseBody_status rfl
  exact Command.call_eq hwrite hread

theorem tableInsert_end {β : Type} (t : List β) (v : Option β) : tableInsert t (t.length + 1) v = .ok (t ++ v.toList) := by
  rw [tableInsert, if_pos ⟨by omega, le_rfl⟩, Nat.add_sub_cancel, List.take_length, List.drop_length, List.append_nil]

theorem tableInsert_beyond {β : Type} {t : List β} {pos : ℕ} (h : t.length + 1 < pos) (v : Option β) :
    tableInsert t pos v = .error outOfBounds := by
  rw [tableInsert, if_neg fun hpos => absurd hpos.2 (not_le.2 h)]

/-- One call in the block. -/
theorem pipelineQueue_cons (c : Command α) (args : α) :
    pipelineQueue stack ((c, args) :: calls) parsers requests =
      match tableInsert parsers (requests.length + 1) c.parse with
      | .ok parsers => pipelineQueue stack calls parsers (requests ++ [callText (c, args)])
      | .error e => some (.error e, requests ++ [callText (c, args)]) := by
  rw [pipelineQueue, RedisRun.bind_ok (call_queued c args requests)]
  have hlen : (requests ++ [callText (c, args)]).length = requests.length + 1 := List.length_append
  show (liftExcept (tableInsert parsers (requests ++ [callText (c, args)]).length c.parse) >>= _ : RedisRun _ _) _ = _
  rw [hlen]
  cases tableInsert parsers (requests.length + 1) c.parse <;> rfl

/-- **Every command but the last has a parser**: the block is queued. -/
theorem pipelineQueue_ok (hlen : parsers.length = requests.length) (hparse : ∀ c ∈ calls.dropLast, c.1.parse.isSome) :
    pipelineQueue stack calls parsers requests =
      some (.ok (parsers ++ calls.filterMap fun c => c.1.parse), requests ++ calls.map callText) := by
  induction calls generalizing parsers requests with
  | nil =>
    rw [List.filterMap_nil, List.map_nil, List.append_nil, List.append_nil]
    rfl
  | cons call calls ih =>
    obtain ⟨c, args⟩ := call
    rw [pipelineQueue_cons, ← hlen, tableInsert_end]
    dsimp only
    -- the last parser may be missing: nothing is inserted behind it
    cases calls with
    | nil => cases hc : c.parse <;> simp [pipelineQueue, hc] <;> rfl
    | cons call' calls =>
      obtain ⟨parse, hc⟩ := Option.isSome_iff_exists.1 (hparse _ List.mem_cons_self)
      have hc : c.parse = some parse := hc
      rw [ih (by simp [hc, hlen]) fun x hx => hparse x (List.mem_cons_of_mem _ hx)]
      simp [hc]

/-- **A command before the last has no parser**: the next call fails. -/
theorem pipelineQueue_error (hlen : parsers.length = requests.length) (hparse : ∃ c ∈ calls.dropLast, c.1.parse = none) :
    ∃ requests', pipelineQueue stack calls parsers requests =
      some (.error outOfBounds, requests') := by
  induction calls generalizing parsers requests with
  | nil => simp at hparse
  | cons call calls ih =>
    obtain ⟨c, args⟩ := call
    rw [pipelineQueue_cons, ← hlen, tableInsert_end]
    dsimp only
    cases calls with
    | nil => simp at hparse
    | cons call' calls =>
      obtain ⟨c', args'⟩ := call'
      cases hc : c.parse with
      -- the table is one short, and the next position is out of bounds
      | none =>
        rw [pipelineQueue_cons, tableInsert_beyond (by simp [hlen])]
        exact ⟨_, rfl⟩
      | some parse =>
        refine ih (by simp [hlen]) ?_
        obtain ⟨x, hx, hnone⟩ := hparse
        rcases List.mem_cons.1 hx with rfl | hx
        · rw [hc] at hnone
          cases hnone
        · exact ⟨x, hx, hnone⟩

end Queue

theorem RedisValue.entry_eq {w : RedisValue} (h : w ≠ .nil) : w.entry = some w := by
  cases w <;> first | rfl | exact absurd rfl h

/-- **What a pipeline makes of the answers**, with what is unread then; `room` is whether the next
value has a place behind the values before it. It ends with the first error: that of an answer, which
may have more behind it, that of a parser, or that of `table.insert`, which finds no place behind nil. -/
def pipelined : Bool → List (Command α × α) → List Resp → Except (List UInt8) (List RedisValue) × List Resp
  | room, c :: calls, t :: ts =>
    match t.outcome with
    | .error e => (.error e, t.left ++ ts)
    | .ok v =>
      match parsedReply c.1.parse v with
      | .error e => (.error e, ts)
      | .ok w =>
        if room then
          ((pipelined w.entry.isSome calls ts).1.map (w.entry.toList ++ ·), (pipelined w.entry.isSome calls ts).2)
        else (.error outOfBounds, ts)
  | _, _, _ => (.ok [], [])

section Replies

variable {Conn : Q → List UInt8 → σ → Prop} {q : Q} {s : σ} {parsers : List (ReplyParser α)} {replies : List RedisValue}
  {room : Bool} {i : ℕ}

/-- A place for the next value: the table has no hole yet. -/
theorem tableInsert_room (hroom : if room then i = replies.length else replies.length < i) (w : Option RedisValue) :
    tableInsert replies (i + 1) w =
      if room then Except.ok (replies ++ w.toList) else Except.error outOfBounds := by
  cases room with
  | true =>
    obtain rfl : i = replies.length := hroom
    exact tableInsert_end replies w
  | false => exact tableInsert_beyond (Nat.succ_lt_succ hroom) w

variable (room) in
/-- **The loop over the replies.** -/
theorem pipelineReplies_pipelined (h : sock.Serves exec stack Conn) {calls : List (Command α × α)} {ts : List Resp}
    (hlen : ts.length = calls.length) (hp : ∀ k c, calls[k]? = some c → parsers[i + k]? = c.1.parse)
    (hroom : if room then i = replies.length else replies.length < i) (ht : ∀ t ∈ ts, t.Fits stack)
    (hs : Conn q (Resp.textAll ts) s) :
    ∃ s', pipelineReplies (network sock stack) parsers (i + 1) replies calls.length s =
        some ((pipelined room calls ts).1.map (replies ++ ·), s') ∧
      Conn q (Resp.textAll (pipelined room calls ts).2) s' := by
  induction calls generalizing ts i replies room s with
  | nil =>
    obtain rfl := List.length_eq_zero_iff.1 hlen
    refine ⟨s, ?_, hs⟩
    show (some (Except.ok replies, s) : Option (Except (List UInt8) _ × σ)) = some (Except.ok (replies ++ []), s)
    rw [List.append_nil]
  | cons c calls ih =>
    cases ts with
    | nil => cases hlen
    | cons t ts =>
      rw [List.forall_mem_cons] at ht
      obtain ⟨s₁, hread, h₁⟩ := responseRead_text (h.receives q) ht.1 hs
      have hparser : parsers[i]? = c.1.parse := hp 0 c rfl
      rw [List.length_cons, pipelineReplies, Nat.add_sub_cancel, hparser, pipelined]
      cases hout : t.outcome with
      | error e =>
        rw [hout] at hread
        refine ⟨s₁, RedisRun.bind_error hread, ?_⟩
        rw [Resp.textAll_append]
        exact h₁
      | ok v =>
        rw [hout] at hread
        rw [Resp.left_of_ok t hout] at h₁
        rw [RedisRun.bind_ok hread]
        dsimp only
        cases hparsed : parsedReply c.1.parse v with
        | error e => exact ⟨s₁, RedisRun.bind_error rfl, h₁⟩
        | ok w =>
          rw [RedisRun.bind_ok (rfl : (liftExcept (Except.ok w) : RedisRun σ RedisValue) s₁ = some (.ok w, s₁)),
            tableInsert_room hroom]
          cases room with
          | false => exact ⟨s₁, RedisRun.bind_error rfl, h₁⟩
          | true =>
            -- the next position is right behind this value, unless it was nil
            have hnext : if w.entry.isSome then i + 1 = (replies ++ w.entry.toList).length
                else (replies ++ w.entry.toList).length < i + 1 := by
              obtain rfl : i = replies.length := hroom
              cases w.entry <;> simp
            obtain ⟨s', hrest, h'⟩ := ih _ (Nat.succ.inj hlen)
              (fun k c hk => by rw [Nat.add_assoc, Nat.add_comm 1]; exact hp (k + 1) c hk) hnext ht.2 h₁
            refine ⟨s', ?_, h'⟩
            simp only [if_true]
            rw [RedisRun.bind_ok (rfl : (liftExcept (Except.ok (replies ++ w.entry.toList)) : RedisRun σ (List RedisValue)) s₁ =
              some (.ok _, s₁)), hrest]
            cases (pipelined w.entry.isSome calls ts).1 with
            | error e => rfl
            | ok l => simp [Except.map]

end Replies

/-- A parser that makes no use of the command and its arguments. -/
def Command.PlainParser (c : Command α) (args : α) : Prop :=
  ∀ parse ∈ c.parse, ∀ v, parse v (some (c.command, args)) = parse v none

theorem parsedReply_of_result {c : Command α} {args : α} {o : Except (List UInt8) RedisValue} {w : RedisValue}
    (hplain : c.PlainParser args) (h : c.result args o = .ok (.value w)) :
    ∃ v, o = .ok v ∧ parsedReply c.parse v = .ok w := by
  cases o with
  | error e => cases h
  | ok v =>
    refine ⟨v, rfl, ?_⟩
    have hv : v ≠ .queued := by
      rintro rfl
      cases h
    rw [Command.result_of_ne hv] at h
    unfold parsedReply
    cases hc : c.parse with
    | none =>
      rw [hc] at h
      cases h
      rfl
    | some parse =>
      rw [hc] at h
      dsimp only at h ⊢
      rw [hplain parse hc] at h
      cases hp : parse v none with
      | error e =>
        rw [hp] at h
        cases h
      | ok w' =>
        rw [hp] at h
        cases h
        rfl

/-- **Where every command returned a value**, one after the other, the pipeline stops at nil only. -/
theorem pipelined_of_results {calls : List (Command α × α)} {ts : List Resp} {ws : List RedisValue}
    (hlen : ts.length = calls.length) (hplain : ∀ c ∈ calls, c.1.PlainParser c.2)
    (h : List.zipWith (fun c t => c.1.result c.2 (Resp.outcome t)) calls (answers Resp.left [] ts) =
      ws.map fun w => .ok (.value w)) :
    ((∀ w ∈ ws.dropLast, w ≠ .nil) → pipelined true calls ts = (.ok (ws.filterMap RedisValue.entry), [])) ∧
      (∀ w ws', ws = w :: ws' → pipelined false calls ts = (.error outOfBounds, ts.drop 1)) ∧
      ∀ us w vs, ws = us ++ .nil :: w :: vs → (∀ u ∈ us, u ≠ .nil) →
        pipelined true calls ts = (.error outOfBounds, ts.drop (us.length + 2)) := by
  induction calls generalizing ts ws with
  | nil =>
    obtain rfl := List.length_eq_zero_iff.1 hlen
    obtain rfl := List.map_eq_nil_iff.1 h.symm
    refine ⟨fun _ => rfl, fun w ws' hw => absurd hw.symm (List.cons_ne_nil w ws'), ?_⟩
    intro us w vs hws
    exact absurd hws.symm (by simp)
  | cons c calls ih =>
    cases ts with
    | nil => cases hlen
    | cons t ts =>
      rw [answers, answer, List.zipWith_cons_cons] at h
      cases ws with
      | nil => cases h
      | cons w ws =>
        rw [List.map_cons, List.cons.injEq] at h
        obtain ⟨v, hv, hw⟩ := parsedReply_of_result (hplain c List.mem_cons_self) h.1
        rw [Resp.left_of_ok t hv] at h
        obtain ⟨hvalues, hfull, hnil⟩ := ih (Nat.succ.inj hlen) (fun x hx => hplain x (List.mem_cons_of_mem c hx)) h.2
        have hstep : pipelined true (c :: calls) (t :: ts) =
            ((pipelined w.entry.isSome calls ts).1.map (w.entry.toList ++ ·), (pipelined w.entry.isSome calls ts).2) := by
          rw [pipelined, hv]
          dsimp only
          rw [hw]
          exact if_pos rfl
        refine ⟨?_, ?_, ?_⟩
        · intro hne
          rw [hstep]
          cases ws with
          | nil =>
            -- the last value may be nil
            obtain rfl : calls = [] := by
              have hcalls := congrArg List.length h.2
              rw [List.length_zipWith, length_answers, List.length_map, Nat.succ.inj hlen] at hcalls
              exact List.length_eq_zero_iff.1 (by simpa using hcalls)
            have hempty : pipelined w.entry.isSome ([] : List (Command α × α)) ts = (.ok [], []) := by
              rw [List.length_eq_zero_iff.1 (Nat.succ.inj hlen)]
              rfl
            rw [hempty]
            cases he : w.entry <;> simp [Except.map, he]
          | cons w' ws =>
            rw [List.dropLast_cons_cons, List.forall_mem_cons] at hne
            rw [RedisValue.entry_eq hne.1, Option.isSome_some, hvalues hne.2,
              List.filterMap_cons_some (RedisValue.entry_eq hne.1)]
            rfl
        · intro _ _ _
          rw [pipelined, hv]
          dsimp only
          rw [hw]
          rfl
        · intro us w' vs hws hus
          rw [hstep]
          cases us with
          | nil =>
            obtain ⟨rfl, rfl⟩ := List.cons.inj hws
            rw [show (RedisValue.nil.entry).isSome = false from rfl, hfull w' vs rfl]
            rfl
          | cons u us =>
            obtain ⟨rfl, rfl⟩ := List.cons.inj hws
            rw [List.forall_mem_cons] at hus
            rw [RedisValue.entry_eq hus.1, Option.isSome_some, hnil us w' vs rfl hus.2]
            rfl

theorem getElem_parsers {calls : List (Command α × α)} (hparse : ∀ c ∈ calls.dropLast, c.1.parse.isSome) {k : ℕ}
    {c : Command α × α} (hc : calls[k]? = some c) : (calls.filterMap fun c => c.1.parse)[k]? = c.1.parse := by
  induction calls generalizing k with
  | nil => cases hc
  | cons d calls ih =>
    cases calls with
    | nil =>
      cases k with
      | zero =>
        obtain rfl : d = c := Option.some.inj hc
        cases hd : d.1.parse <;> simp [hd]
      | succ k => cases hc
    | cons d' calls =>
      obtain ⟨parse, hd⟩ := Option.isSome_iff_exists.1 (hparse d List.mem_cons_self)
      rw [List.filterMap_cons_some (f := fun c : Command α × α => c.1.parse) hd]
      cases k with
      | zero =>
        obtain rfl : d = c := Option.some.inj hc
        exact hd.symm
      | succ k => exact ih (fun x hx => hparse x (List.mem_cons_of_mem d hx)) hc

/-- **What a pipeline does.** When a command before the last has no parser, the block fails and
nothing is sent. Otherwise all requests are sent at once and the answers are read one after the other,
until one fails: what is behind it is left in the connection.

Where the same commands return values one by one, by parsers that make no use of the command and its
arguments, the pipeline returns them too, unless one before the last is nil. -/
theorem redis_pipeline {Conn : Q → List UInt8 → σ → Prop} (h : sock.Serves exec stack Conn) {q : Q} {s : σ}
    {calls : List (Command α × α)} (hok : ∀ c ∈ calls, RequestOk (c.1.words c.2)) (hs : Conn q [] s) :
    ((∃ c ∈ calls.dropLast, c.1.parse = none) → pipeline (network sock stack) calls s = some (.error outOfBounds, s)) ∧
      ((∀ c ∈ calls.dropLast, c.1.parse.isSome) → ∃ s', pipeline (network sock stack) calls s =
          some ((pipelined true calls (serve exec q (calls.map fun c => c.1.words c.2)).2).1.map (·, calls.length), s') ∧
        Conn (serve exec q (calls.map fun c => c.1.words c.2)).1
          (Resp.textAll (pipelined true calls (serve exec q (calls.map fun c => c.1.words c.2)).2).2) s') ∧
      ∀ ws s₁, (∀ c ∈ calls, c.1.PlainParser c.2) →
        callAll (network sock stack) calls s = some (.ok (ws.map fun w => .ok (.value w)), s₁) →
          ((∀ w ∈ ws.dropLast, w ≠ .nil) →
            pipelined true calls (serve exec q (calls.map fun c => c.1.words c.2)).2 =
              (.ok (ws.filterMap RedisValue.entry), [])) ∧
          ∀ us w vs, ws = us ++ .nil :: w :: vs → (∀ u ∈ us, u ≠ .nil) →
            pipelined true calls (serve exec q (calls.map fun c => c.1.words c.2)).2 =
              (.error outOfBounds, (serve exec q (calls.map fun c => c.1.words c.2)).2.drop (us.length + 2)) := by
  have hlen : (serve exec q (calls.map fun c => c.1.words c.2)).2.length = calls.length := by
    rw [length_serve, List.length_map]
  refine ⟨?_, ?_, ?_⟩
  · intro hparse
    have hzero : ([] : List (ReplyParser α)).length = ([] : List (List UInt8)).length := rfl
    obtain ⟨requests, hqueue⟩ := pipelineQueue_error hzero hparse
    rw [pipeline, hqueue]
    rfl
  · intro hparse
    obtain ⟨s₁, hsend, h₁⟩ := h.send (calls.map fun c => c.1.words c.2) (List.forall_mem_map.2 hok) hs
    rw [List.map_map] at hsend
    have hwrite : (network sock stack).write (calls.map callText).flatten s = some (.ok (), s₁) := network_write stack hsend
    have hparsers : ∀ k c, calls[k]? = some c → (calls.filterMap fun c => c.1.parse)[0 + k]? = c.1.parse := by
      intro k c hc
      rw [Nat.zero_add]
      exact getElem_parsers hparse hc
    have hfirst : 0 = ([] : List RedisValue).length := rfl
    obtain ⟨s', hreplies, h'⟩ := pipelineReplies_pipelined true h hlen hparsers hfirst (fits_serve h q _) h₁
    refine ⟨s', ?_, h'⟩
    rw [pipeline, pipelineQueue_ok rfl hparse]
    dsimp only
    rw [List.nil_append, List.nil_append, RedisRun.bind_ok hwrite, List.length_map]
    cases hout : (pipelined true calls (serve exec q (calls.map fun c => c.1.words c.2)).2).1 with
    | error e =>
      rw [hout] at hreplies
      exact RedisRun.bind_error hreplies
    | ok l =>
      rw [hout] at hreplies
      rw [RedisRun.bind_ok hreplies]
      rfl
  · intro ws s₁ hplain hall
    obtain ⟨s₂, hall', _⟩ := callAll_backlog h calls (b := []) (fun _ ht => absurd ht List.not_mem_nil) hok hs
    -- one by one every answer was read to its end, since all were values
    rw [hall] at hall'
    have hresults := Except.ok.inj (congrArg Prod.fst (Option.some.inj hall'))
    obtain ⟨hvalues, -, hnil⟩ := pipelined_of_results hlen hplain hresults.symm
    exact ⟨hvalues, hnil⟩

/-- Counts the requests. -/
def countAll (q : ℕ) (_ : List (List UInt8)) : ℕ × Resp := (q + 1, .integer (Int64.ofNat (q + 1)))

/-- Two requests that are counted, in a pipeline as one by one. -/
theorem redis_pipeline_two :
    let incr : Command Unit := ⟨str "INCR", fun _ => [.string (str "k")], some fun v _ => .ok v⟩
    ∃ s', pipeline (network (serverSock countAll) 1) [(incr, ()), (incr, ())] (0, []) =
      some (.ok ([.integer 1, .integer 2], 2), s') ∧ s' = (2, []) := by
  intro incr
  have hserves : (serverSock countAll).Serves countAll 1 fun q bytes s => s = (q, bytes) :=
    serverSock_serves fun _ _ => ⟨trivial, Nat.zero_le 1⟩
  have hok : ∀ c ∈ [(incr, ()), (incr, ())], RequestOk (c.1.words c.2) := by
    have hincr : RequestOk (incr.words ()) := ⟨by decide, by decide⟩
    simpa using hincr
  have hplain : ∀ c ∈ [(incr, ()), (incr, ())], c.1.PlainParser c.2 := by
    intro c hc parse hparse v
    obtain rfl : c = (incr, ()) := by simpa using hc
    obtain rfl := Option.some.inj hparse
    rfl
  have hnone : ∀ t ∈ ([] : List Resp), t.Fits 1 := fun _ ht => absurd ht List.not_mem_nil
  obtain ⟨s₁, hall, _⟩ := callAll_backlog hserves [(incr, ()), (incr, ())] (q := 0) hnone hok (rfl : (0, []) = (0, []))
  obtain ⟨-, hsent, hsame⟩ := redis_pipeline hserves hok (rfl : ((0, []) : ℕ × List UInt8) = (0, []))
  obtain ⟨hvalues, -⟩ := hsame [.integer 1, .integer 2] s₁ hplain hall
  obtain ⟨s', hpipeline, h'⟩ := hsent (by simp [incr])
  rw [hvalues (by simp)] at hpipeline h'
  exact ⟨s', hpipeline, h'⟩

end Qsf
