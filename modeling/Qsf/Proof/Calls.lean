import Qsf.Spec.NetServer

/-!
# What one call of the server API does

Every API call is a sequence of small moves (`call_moves`): a change of one
session's handle, output and shutdown flag (`Quiet`), the removal of a member
(`Server.drop`), and the two moves of `qsf_net_server_stop` around its loop.
Later modules derive each invariant from the moves, once for all calls.
-/

set_option autoImplicit false

namespace Qsf

open Relation

namespace Server

/-- `HASH_DEL` and `session_destroy`, as they stand together in the source. -/
def drop (s : Server) (a : ℕ) : Server := (s.hashDel a).sessionDestroy a

/-- The sessions in the map, in insertion order. -/
abbrev members (s : Server) : List ℕ := s.sessionMap.items

/-- The pointers of the map lead forward and to sessions that were created. -/
structure OK (s : Server) : Prop where
  forward : s.sessionMap.Forward
  bound : ∀ a ∈ s.members, a < s.allocated
  left_bound : ∀ a b, s.sessionMap.left a = some b → b < s.allocated

variable {s s' : Server} {a b : ℕ}

/-! ## Small facts about the updates -/

@[simp] theorem log_sess (e : TraceEvent) : (s.log e).sess = s.sess := rfl

@[simp] theorem setSess_self (σ : Session) : (s.setSess a σ).sess a = σ := by simp [setSess]

theorem setSess_ne (σ : Session) (h : b ≠ a) : (s.setSess a σ).sess b = s.sess b := by
  simp [setSess, h]

theorem setSess_eq (σ : Session) :
    (s.setSess a σ).sess b = if b = a then σ else s.sess b := by
  by_cases h : b = a
  · subst h; simp
  · simp [setSess_ne σ h, h]

@[simp] theorem drop_sessionMap : (s.drop a).sessionMap = s.sessionMap.del a := rfl

@[simp] theorem drop_trace : (s.drop a).trace = s.trace ++ [.remove a, .destroy a] := by
  simp [drop, sessionDestroy, hashDel, log, setSess]

theorem drop_sess : (s.drop a).sess b =
    if b = a then { s.sess a with handle := uvCloseOnce (uvStop (s.sess a).handle) }
    else s.sess b := by
  simp only [drop, sessionDestroy, log_sess, setSess_eq]
  rfl

/-- A removal changes no field of a session but its handle. -/
theorem exists_drop_sess (s : Server) (a b : ℕ) :
    ∃ h, (s.drop a).sess b = { s.sess b with handle := h } := by
  rw [drop_sess]
  by_cases hb : b = a
  · subst hb
    exact ⟨_, if_pos rfl⟩
  · exact ⟨_, if_neg hb⟩

theorem drop_serial (b : ℕ) : ((s.drop a).sess b).serial = (s.sess b).serial := by
  obtain ⟨h, hb⟩ := exists_drop_sess s a b
  rw [hb]

theorem drop_members (h : a ∈ s.members) : (s.drop a).members = s.members.erase a :=
  IMap.del_items h

theorem mem_drop (h : a ∈ s.members) : b ∈ (s.drop a).members ↔ b ≠ a ∧ b ∈ s.members :=
  IMap.mem_del h

theorem OK.of_eq (hs : s.OK) (hm : s'.sessionMap = s.sessionMap) (ha : s'.allocated = s.allocated) :
    s'.OK :=
  ⟨by rw [hm]; exact hs.forward, by rw [members, hm, ha]; exact hs.bound,
    by rw [hm, ha]; exact hs.left_bound⟩

theorem OK.length_le (h : s.OK) : s.members.length ≤ s.allocated := by
  have hsub : s.members ⊆ List.range s.allocated := fun a ha => List.mem_range.2 (h.bound a ha)
  simpa using (s.sessionMap.nodup.subperm hsub).length_le

theorem OK.next_lt (h : s.OK) (hn : s.hhNext a = some b) : a < b ∧ b < s.allocated := by
  refine ⟨h.forward.next hn, ?_⟩
  unfold hhNext IMap.next at hn
  split at hn
  · exact h.bound b (mem_of_succIn hn).2
  · exact h.left_bound a b hn

theorem hhNext_of_mem (h : a ∈ s.members) : s.hhNext a = succIn s.members a := by
  simp only [hhNext, IMap.next, if_pos h]

/-- **`HASH_ITER` as a fold**, for bodies that remove at most the session they are at. -/
theorem hashIter_eq_foldl (body : Server → ℕ → Server) (hs : s.members.length ≤ s.allocated)
    (I : Server → Prop) (hI : I s) (hbody : ∀ s a, I s → a ∈ s.members → I (body s a) ∧
      ((body s a).members = s.members ∨ (body s a).members = s.members.erase a)) :
    s.hashIter body = s.members.foldl body s :=
  walk_eq_foldl (fun s => s.members) I (fun s _ => s.sessionMap.nodup)
    (fun _ _ ha => hhNext_of_mem ha) hbody s.members [] s s.allocated hI rfl hs

/-- The same, for what such a body keeps. -/
theorem hashIter_invariant {body : Server → ℕ → Server} {I : Server → Prop} (hs : I s)
    (hlen : s.members.length ≤ s.allocated) (hbody : ∀ s a, I s → a ∈ s.members → I (body s a) ∧
      ((body s a).members = s.members ∨ (body s a).members = s.members.erase a)) :
    I (s.hashIter body) := by
  rw [hashIter_eq_foldl _ hlen I hs hbody]
  -- the members ahead are members still, since only those behind were removed
  have hfold : ∀ (l : List ℕ) (t : Server), l.Nodup → (∀ a ∈ l, a ∈ t.members) → I t →
      I (l.foldl body t) := by
    intro l
    induction l with
    | nil => intro t _ _ ht; exact ht
    | cons a l ih =>
      intro t hnd hmem ht
      obtain ⟨hal, hl⟩ := List.nodup_cons.1 hnd
      obtain ⟨hI, hm⟩ := hbody t a ht (hmem a List.mem_cons_self)
      refine ih _ hl ?_ hI
      intro b hb
      have hbt := hmem b (List.mem_cons_of_mem _ hb)
      rcases hm with hm | hm
      · rw [hm]; exact hbt
      · have hba : b ≠ a := fun e => hal (e ▸ hb)
        rw [hm]
        exact (List.mem_erase_of_ne hba).2 hbt
  exact hfold _ s s.sessionMap.nodup (fun _ h => h) hs

/-! ## Moves -/

/-- A change to a session that no API call but a removal exceeds. -/
def Touch (σ σ' : Session) : Prop :=
  (∃ active out shut, σ' = { σ with
    handle := { σ.handle with active := active }, out := out, shut := shut }) ∧
  (σ'.handle.active = true → σ.handle.active = true)

theorem Touch.refl (σ : Session) : Touch σ σ := ⟨⟨σ.handle.active, σ.out, σ.shut, rfl⟩, id⟩

theorem Touch.trans {σ τ ρ : Session} (h₁ : Touch σ τ) (h₂ : Touch τ ρ) : Touch σ ρ := by
  obtain ⟨⟨b₁, o₁, u₁, rfl⟩, k₁⟩ := h₁
  obtain ⟨⟨b₂, o₂, u₂, rfl⟩, k₂⟩ := h₂
  exact ⟨⟨b₂, o₂, u₂, rfl⟩, fun h => k₁ (k₂ h)⟩

theorem Touch.lastRecvTime {σ τ : Session} (h : Touch σ τ) : τ.lastRecvTime = σ.lastRecvTime := by
  obtain ⟨⟨_, _, _, rfl⟩, -⟩ := h
  rfl

theorem Touch.serial {σ τ : Session} (h : Touch σ τ) : τ.serial = σ.serial := by
  obtain ⟨⟨_, _, _, rfl⟩, -⟩ := h
  rfl

/-- Only sessions were touched; an `assert` may have failed. -/
structure Quiet (s s' : Server) : Prop where
  rest : s' = { s with sess := s'.sess, aborted := s'.aborted }
  sess : ∀ a, Touch (s.sess a) (s'.sess a)

theorem Quiet.refl (s : Server) : Quiet s s := ⟨rfl, fun _ => Touch.refl _⟩

theorem Quiet.trans {s₁ s₂ s₃ : Server} (h₁ : Quiet s₁ s₂) (h₂ : Quiet s₂ s₃) : Quiet s₁ s₃ := by
  refine ⟨?_, fun a => (h₁.sess a).trans (h₂.sess a)⟩
  rw [h₂.rest, h₁.rest]

theorem Quiet.members (h : Quiet s s') : s'.members = s.members := by
  rw [h.rest]

theorem quiet_abort : Quiet s s.abort := ⟨rfl, fun _ => Touch.refl _⟩

theorem quiet_setSess {σ : Session} (h : Touch (s.sess a) σ) : Quiet s (s.setSess a σ) := by
  refine ⟨rfl, ?_⟩
  intro b
  rw [setSess_eq]
  split
  · rename_i hb; rw [hb]; exact h
  · exact Touch.refl _

/-- One small move of an API call. -/
inductive Move : Server → Server → Prop
  | quiet {s s' : Server} : Quiet s s' → Move s s'
  | drop {s : Server} {a : ℕ} : a ∈ s.members → Move s (s.drop a)
  | stopping {s : Server} : Move s { s with stopped := true }
  | closing {s : Server} : Move s { s with
      timer := uvCloseOnce (uvStop s.timer)
      acceptor := uvCloseOnce s.acceptor }

theorem Move.ok (h : Move s s') (hs : s.OK) : s'.OK := by
  cases h with
  | quiet hq => rw [hq.rest]; exact hs.of_eq rfl rfl
  | @drop a ha =>
    refine ⟨hs.forward.del a, fun b hb => hs.bound b (IMap.mem_of_mem_del hb), ?_⟩
    intro x y hxy
    rw [drop_sessionMap, IMap.del_left ha] at hxy
    split at hxy
    · exact hs.bound y (mem_of_succIn hxy).2
    · exact hs.left_bound x y hxy
  | stopping => exact hs.of_eq rfl rfl
  | closing => exact hs.of_eq rfl rfl

/-- A fold of removals over the members, in any order without repetition. -/
theorem moves_foldl_drop (l : List ℕ) (hl : l.Nodup) :
    ∀ s : Server, (∀ a ∈ l, a ∈ s.members) → ReflTransGen Move s (l.foldl drop s) := by
  induction l with
  | nil => intro s _; exact .refl
  | cons a l ih =>
    intro s h
    have hal := List.nodup_cons.1 hl
    refine .head (.drop (h a List.mem_cons_self)) (ih hal.2 _ ?_)
    intro b hb
    rw [mem_drop (h a List.mem_cons_self)]
    exact ⟨fun e => hal.1 (e ▸ hb), h b (List.mem_cons_of_mem _ hb)⟩

theorem foldl_drop_members (l : List ℕ) :
    ∀ s : Server, s.members = l → (l.foldl drop s).members = [] := by
  induction l with
  | nil => intro s h; exact h
  | cons a l ih =>
    intro s h
    apply ih _
    rw [drop_members (by rw [h]; exact List.mem_cons_self), h, List.erase_cons_head]

/-- **`qsf_net_server_stop`** removes every member in order, then closes the two handles. -/
theorem stop_eq (hs : s.members.length ≤ s.allocated) :
    s.qsfNetServerStop =
      (let t := s.members.foldl drop { s with stopped := true }
       { t with timer := uvCloseOnce (uvStop t.timer), acceptor := uvCloseOnce t.acceptor }) := by
  have h := hashIter_eq_foldl (s := { s with stopped := true }) drop hs (fun _ => True)
    trivial (fun s a _ ha => ⟨trivial, Or.inr (IMap.del_items ha)⟩)
  unfold qsfNetServerStop
  simp only
  rw [show (fun (s : Server) a => (s.hashDel a).sessionDestroy a) = drop from rfl, h]

theorem stop_moves (hs : s.OK) : ReflTransGen Move s s.qsfNetServerStop := by
  rw [stop_eq hs.length_le]
  have h := moves_foldl_drop s.members s.sessionMap.nodup { s with stopped := true } fun _ h => h
  exact ((ReflTransGen.single .stopping).trans h).tail .closing

theorem stop_members (hs : s.OK) : s.qsfNetServerStop.members = [] := by
  rw [stop_eq hs.length_le]
  exact foldl_drop_members _ _ rfl

theorem mem_of_hashFindInt {n : UInt32} (h : s.hashFindInt n = some a) :
    a ∈ s.members ∧ (s.sess a).serial = n := by
  have := List.find?_some h
  exact ⟨List.mem_of_find?_eq_some h, by simpa using this⟩

theorem quiet_doSessionWrite {data : List UInt8} {size : UInt16} {r : ℤ} :
    Quiet s (s.doSessionWrite a data size r).2 := by
  unfold doSessionWrite
  split
  · exact quiet_abort
  · split
    · exact Quiet.refl s
    · exact quiet_setSess ⟨⟨_, _, _, rfl⟩, id⟩

theorem quiet_foldl {body : Server → ℕ → Server} (h : ∀ s a, Quiet s (body s a)) (l : List ℕ) :
    ∀ s, Quiet s (l.foldl body s) := by
  induction l with
  | nil => exact Quiet.refl
  | cons a l ih => exact fun s => (h s a).trans (ih _)

/-- The calls that remove no session. -/
def Op.keeps : Op → Prop
  | .close _ => False
  | .stop => False
  | _ => True

/-- A call that removes no session is quiet. -/
theorem quiet_call (hs : s.OK) {o : Op} (ho : Op.keeps o) : Quiet s (s.call o) := by
  cases o with
  | close => exact ho.elim
  | stop => exact ho.elim
  | write serial data size r =>
    simp only [call, qsfNetServerWrite]
    split
    · exact quiet_abort
    · split
      · exact Quiet.refl s
      · exact quiet_doSessionWrite
  | writeAll data size r =>
    simp only [call, qsfNetServerWriteAll]
    split
    · exact quiet_abort
    · have hb : ∀ (s : Server) a, Quiet s (s.doSessionWrite a data size (r a)).2 :=
        fun _ _ => quiet_doSessionWrite
      rw [hashIter_eq_foldl _ hs.length_le (fun _ => True) trivial
        (fun s a _ _ => ⟨trivial, Or.inl (hb s a).members⟩)]
      exact quiet_foldl hb _ s
  | shutdown serial r =>
    simp only [call, qsfNetServerShutdown]
    split
    · exact Quiet.refl s
    · rename_i a _
      have h₁ : Quiet s (s.setSess a { s.sess a with handle := uvStop (s.sess a).handle }) :=
        quiet_setSess ⟨⟨false, _, _, rfl⟩, fun h => by simp [uvStop] at h⟩
      split
      · exact h₁
      · exact h₁.trans (quiet_setSess ⟨⟨_, _, _, rfl⟩, id⟩)
  | size => exact Quiet.refl s

theorem quiet_calls {os : List Op} (hs : s.OK) (hk : ∀ o ∈ os, Op.keeps o) :
    Quiet s (os.foldl call s) := by
  induction os generalizing s with
  | nil => exact Quiet.refl s
  | cons o os ih =>
    have hq := quiet_call hs (hk o List.mem_cons_self)
    have hok : (s.call o).OK := by
      rw [hq.rest]
      exact hs.of_eq rfl rfl
    exact hq.trans (ih hok fun o' ho' => hk o' (List.mem_cons_of_mem _ ho'))

theorem close_eq (n : UInt32) : s.qsfNetServerClose n =
    match s.hashFindInt n with
    | none => s
    | some a => s.drop a := rfl

/-- **Every API call is a sequence of moves.** -/
theorem call_moves (hs : s.OK) (o : Op) : ReflTransGen Move s (s.call o) := by
  cases o with
  | close n =>
    simp only [call, close_eq]
    split
    · exact .refl
    · rename_i a h; exact .single (.drop (mem_of_hashFindInt h).1)
  | stop => exact stop_moves hs
  | write => exact .single (.quiet (quiet_call hs trivial))
  | writeAll => exact .single (.quiet (quiet_call hs trivial))
  | shutdown => exact .single (.quiet (quiet_call hs trivial))
  | size => exact .refl

theorem moves_ok (h : ReflTransGen Move s s') (hs : s.OK) : s'.OK := by
  induction h with
  | refl => exact hs
  | tail _ hm ih => exact hm.ok ih

theorem calls_moves (hs : s.OK) (os : List Op) : ReflTransGen Move s (os.foldl call s) := by
  induction os generalizing s with
  | nil => exact .refl
  | cons o os ih =>
    have h := call_moves hs o
    exact h.trans (ih (moves_ok h hs))

/-- What moves keep, a callback keeps, once the report is logged. -/
theorem callOnRead_moves (hs : s.OK) (cb : Callback) (who : Option ℕ) (r : Report) :
    ReflTransGen Move (s.log (.report who r)) (s.callOnRead cb who r) :=
  calls_moves (s := s.log (.report who r)) (hs.of_eq rfl rfl) _

theorem moves_invariant {I : Server → Prop} (hI : ∀ s s', Move s s' → I s → I s')
    (h : ReflTransGen Move s s') (hs : I s) : I s' := by
  induction h with
  | refl => exact hs
  | tail _ hm ih => exact hI _ _ hm ih

end Server

end Qsf
