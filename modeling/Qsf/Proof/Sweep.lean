import Qsf.Proof.Runs

/-!
# The heartbeat sweep

One call of `hearbeat_timer_cb`, for an `on_read` that leaves the map alone on a timeout
(`Callback.KeepsMap`). Such a callback is quiet on a map that is not empty
(`timeout_quiet`), so one round of the loop either does nothing or reports and drops one
session; `Swept` says this of a part of the map, it holds of one round (`swept_body`) and
composes (`Swept.trans`), and so it holds of the whole sweep (`sweep_exact`).
-/

set_option autoImplicit false

namespace Qsf

/-- On a timeout of a session in the map, `on_read` leaves the sessions in the map as they
are. -/
def Callback.KeepsMap (cb : Callback) : Prop :=
  ∀ (s : Server) (a : ℕ), s.OK → a ∈ s.members →
    (s.callOnRead cb (some a) (Server.timeoutReport (s.sess a).serial)).members = s.members

/-- The call is about the session with this serial, or about all sessions. -/
def Op.Names : Op → UInt32 → Prop
  | .close n, serial => n = serial
  | .stop, _ => True
  | .write n _ _ _, serial => n = serial
  | .writeAll _ _ _, _ => True
  | .shutdown n _, serial => n = serial
  | .size, _ => False

/-- No call of `on_read` is about the session with this serial. -/
def Callback.Spares (cb : Callback) (serial : UInt32) : Prop :=
  ∀ (r : Report) (s : Server), ∀ o ∈ cb r s, ¬ o.Names serial

namespace Server

variable {s t u : Server} {a b : ℕ} {cb : Callback} {now : UInt64}

/-- `now - last_recv_time > 1000 * max_heart_beat`, of the numbers. -/
def Overdue (s : Server) (now : UInt64) (a : ℕ) : Prop :=
  1000 * s.maxHeartBeat.toNat < now.toNat - (s.sess a).lastRecvTime.toNat

instance (s : Server) (now : UInt64) (a : ℕ) : Decidable (s.Overdue now a) :=
  inferInstanceAs (Decidable (_ < _))

/-- The sessions of `l` that are overdue. -/
def due (s : Server) (now : UInt64) (l : List ℕ) : List ℕ := l.filter (s.Overdue now ·)

theorem mem_due {l : List ℕ} : a ∈ s.due now l ↔ a ∈ l ∧ s.Overdue now a := by
  simp [due]

/-- What the sweep records of an overdue session. -/
def dropped (s : Server) (a : ℕ) : List TraceEvent :=
  [.report (some a) (timeoutReport (s.sess a).serial), .remove a, .destroy a]

/-- The test of the sweep does not wrap. -/
theorem expired_iff (h : (s.sess a).lastRecvTime ≤ now) :
    s.expired now a = true ↔ s.Overdue now a := by
  have hle := UInt64.le_iff_toNat_le.1 h
  have hbeat := s.maxHeartBeat.toNat_lt
  have hlt := now.toNat_lt
  have hmax : (UInt64.ofNat (s.maxHeartBeat.toNat * 1000)).toNat = s.maxHeartBeat.toNat * 1000 := by
    rw [UInt64.toNat_ofNat']
    omega
  have hsub : (now - (s.sess a).lastRecvTime).toNat = now.toNat - (s.sess a).lastRecvTime.toNat :=
    UInt64.toNat_sub_of_le _ _ h
  unfold expired Overdue
  rw [decide_eq_true_iff, gt_iff_lt, UInt64.lt_iff_toNat_lt, hmax, hsub]
  omega

/-! ## Callbacks that keep the map -/

/-- A call is quiet, or the map got smaller, or it was empty. -/
theorem call_quiet_or (hs : s.OK) (o : Op) :
    Quiet s (s.call o) ∨ (s.call o).members.length < s.members.length ∨ s.members = [] := by
  by_cases ho : Op.keeps o
  · exact .inl (quiet_call hs ho)
  cases o with
  | close n =>
    simp only [call, close_eq]
    split
    · exact .inl (Quiet.refl s)
    · rename_i a hfind
      have ha := (mem_of_hashFindInt hfind).1
      rw [drop_members ha, List.length_erase_of_mem ha]
      exact .inr (.inl (Nat.sub_lt (List.length_pos_of_mem ha) Nat.one_pos))
  | stop =>
    rw [call, stop_members hs]
    rcases List.eq_nil_or_concat s.members with h | ⟨l, a, h⟩
    · exact .inr (.inr h)
    · exact .inr (.inl (by rw [h]; simp))
  | write => exact absurd trivial ho
  | writeAll => exact absurd trivial ho
  | shutdown => exact absurd trivial ho
  | size => exact absurd trivial ho

theorem Move.members_length (h : Move s t) : t.members.length ≤ s.members.length := by
  cases h with
  | quiet hq => rw [hq.members]
  | drop ha => rw [drop_members ha]; exact List.length_erase_le
  | stopping => exact le_refl _
  | closing => exact le_refl _

/-- Calls that leave a map of some sessions with as many are quiet. -/
theorem calls_quiet {os : List Op} (hs : s.OK) (hne : s.members ≠ [])
    (hlen : s.members.length ≤ (os.foldl call s).members.length) : Quiet s (os.foldl call s) := by
  induction os generalizing s with
  | nil => exact Quiet.refl s
  | cons o os ih =>
    have hmoves := call_moves hs o
    have hok := moves_ok hmoves hs
    have hrest : (os.foldl call (s.call o)).members.length ≤ (s.call o).members.length :=
      moves_invariant (I := fun t => t.members.length ≤ (s.call o).members.length)
        (fun _ _ hm h => hm.members_length.trans h) (calls_moves hok os) (le_refl _)
    have hlen' : s.members.length ≤ (os.foldl call (s.call o)).members.length := hlen
    rcases call_quiet_or hs o with hq | hlt | hnil
    · refine hq.trans (ih hok ?_ ?_)
      · rw [hq.members]; exact hne
      · rw [hq.members]; exact hlen'
    · omega
    · exact absurd hnil hne

/-- **A callback that keeps the map is quiet** on the timeout of a session in it. -/
theorem timeout_quiet (h : cb.KeepsMap) (hs : s.OK) (ha : a ∈ s.members) :
    Quiet (s.log (.report (some a) (timeoutReport (s.sess a).serial)))
      (s.callOnRead cb (some a) (timeoutReport (s.sess a).serial)) := by
  have hlog : (s.log (.report (some a) (timeoutReport (s.sess a).serial))).OK := hs.of_eq rfl rfl
  apply calls_quiet hlog (List.ne_nil_of_mem ha)
  exact le_of_eq (congrArg List.length (h s a hs ha)).symm

/-! ## Sessions a call does not name -/

theorem doSessionWrite_sess {data : List UInt8} {size : UInt16} {r : ℤ} (h : a ≠ b) :
    ((s.doSessionWrite b data size r).2.sess a) = s.sess a := by
  unfold doSessionWrite
  split
  · rfl
  · split
    · rfl
    · exact setSess_ne _ h

/-- A call leaves the sessions alone that it does not name. -/
theorem call_sess (o : Op) (h : ¬ o.Names (s.sess a).serial) : (s.call o).sess a = s.sess a := by
  -- what is found under a serial is another session
  have hfound : ∀ {n : UInt32} {b : ℕ}, n ≠ (s.sess a).serial → s.hashFindInt n = some b → a ≠ b := by
    rintro n b hn hb rfl
    exact hn (mem_of_hashFindInt hb).2.symm
  cases o with
  | close n =>
    simp only [call, close_eq]
    split
    · rfl
    · rename_i b hb
      rw [drop_sess, if_neg (hfound h hb)]
  | stop => exact absurd trivial h
  | write n data size r =>
    simp only [call, qsfNetServerWrite]
    split
    · rfl
    · split
      · rfl
      · rename_i b hb
        exact doSessionWrite_sess (hfound h hb)
  | writeAll data size r => exact absurd trivial h
  | shutdown n r =>
    simp only [call, qsfNetServerShutdown]
    split
    · rfl
    · rename_i b hb
      have hne := hfound h hb
      split
      · exact setSess_ne _ hne
      · rw [setSess_ne _ hne, setSess_ne _ hne]
  | size => rfl

theorem calls_sess {os : List Op} (h : ∀ o ∈ os, ¬ o.Names (s.sess a).serial) :
    (os.foldl call s).sess a = s.sess a := by
  induction os generalizing s with
  | nil => rfl
  | cons o os ih =>
    have ho := call_sess o (h o List.mem_cons_self)
    rw [List.foldl_cons, ih, ho]
    intro o' ho'
    rw [ho]
    exact h o' (List.mem_cons_of_mem _ ho')

/-! ## The sweep -/

/-- From `s` to `t` the sweep passed the sessions `l`. -/
structure Swept (now : UInt64) (cb : Callback) (l : List ℕ) (s t : Server) : Prop where
  ok : t.OK
  maxHeartBeat : t.maxHeartBeat = s.maxHeartBeat
  trace : t.trace = s.trace ++ (s.due now l).flatMap s.dropped
  members : t.members = s.members.filter (· ∉ s.due now l)
  closed : ∀ a ∈ s.due now l, (t.sess a).handle = uvCloseOnce (uvStop (s.sess a).handle)
  touched : ∀ a, a ∉ s.due now l → Touch (s.sess a) (t.sess a)
  spared : ∀ a, a ∉ s.due now l → cb.Spares (s.sess a).serial → t.sess a = s.sess a

theorem Swept.nil (hs : s.OK) : Swept now cb [] s s where
  ok := hs
  maxHeartBeat := rfl
  trace := (List.append_nil _).symm
  members := by simp [due]
  closed a ha := absurd (mem_due.1 ha).1 List.not_mem_nil
  touched a _ := Touch.refl _
  spared a _ _ := rfl

/-- A stopped handle stays as it is. -/
theorem Touch.stopped {σ τ : Session} (h : Touch σ τ) (ha : σ.handle.active = false) :
    τ.handle = σ.handle := by
  obtain ⟨⟨active, out, shut, rfl⟩, hact⟩ := h
  have hf : active = false := by
    by_contra hne
    have htrue : σ.handle.active = true := hact (by simpa using hne)
    rw [ha] at htrue
    exact absurd htrue (by decide)
  subst hf
  simp only
  rw [← ha]

/-- What is due is not changed by sweeping other sessions. -/
theorem Swept.due_eq {l m : List ℕ} (h : Swept now cb l s t) (hd : l.Disjoint m) :
    t.due now m = s.due now m := by
  apply List.filter_congr
  intro a ha
  have hal : a ∉ s.due now l := fun e => hd (mem_due.1 e).1 ha
  apply decide_eq_decide.2
  rw [Overdue, h.maxHeartBeat, (h.touched a hal).lastRecvTime]
  rfl

theorem Swept.dropped_eq {l m : List ℕ} (h : Swept now cb l s t) (hd : l.Disjoint m) :
    (t.due now m).flatMap t.dropped = (s.due now m).flatMap s.dropped := by
  rw [h.due_eq hd]
  apply List.flatMap_congr
  intro a ha
  have hal : a ∉ s.due now l := fun e => hd (mem_due.1 e).1 (mem_due.1 ha).1
  simp only [dropped, (h.touched a hal).serial]

theorem due_append (l m : List ℕ) : s.due now (l ++ m) = s.due now l ++ s.due now m :=
  List.filter_append ..

/-- **One part of the map after the other.** -/
theorem Swept.trans {l m : List ℕ} (h₁ : Swept now cb l s t) (h₂ : Swept now cb m t u)
    (hd : l.Disjoint m) : Swept now cb (l ++ m) s u := by
  have hdue := h₁.due_eq hd
  refine ⟨h₂.ok, h₂.maxHeartBeat.trans h₁.maxHeartBeat, ?_, ?_, ?_, ?_, ?_⟩
  · rw [h₂.trace, h₁.dropped_eq hd, h₁.trace, due_append, List.flatMap_append, List.append_assoc]
  · rw [h₂.members, h₁.members, hdue, due_append, List.filter_filter]
    apply List.filter_congr
    intro a _
    simp only [List.mem_append, not_or, Bool.decide_and, decide_not, Bool.and_comm]
  · intro a ha
    rw [due_append, List.mem_append] at ha
    rcases ha with ha | ha
    · -- closed in the first part, and only touched in the second
      have ham : a ∉ t.due now m := fun e => hd (mem_due.1 ha).1 (mem_due.1 e).1
      rw [← h₁.closed a ha]
      refine (h₂.touched a ham).stopped ?_
      rw [h₁.closed a ha]
      exact uvCloseOnce_active _
    · have hal : a ∉ s.due now l := fun e => hd (mem_due.1 e).1 (mem_due.1 ha).1
      rw [h₂.closed a (hdue ▸ ha)]
      obtain ⟨⟨active, out, shut, he⟩, -⟩ := h₁.touched a hal
      rw [he]
      rfl
  · intro a ha
    rw [due_append, List.mem_append, not_or] at ha
    exact (h₁.touched a ha.1).trans (h₂.touched a (hdue ▸ ha.2))
  · intro a ha hsp
    rw [due_append, List.mem_append, not_or] at ha
    have hst := h₁.spared a ha.1 hsp
    rw [h₂.spared a (hdue ▸ ha.2) (hst ▸ hsp), hst]

/-- **One round of the loop.** -/
theorem swept_body (hcb : cb.KeepsMap) (hs : s.OK) (ha : a ∈ s.members)
    (hnow : (s.sess a).lastRecvTime ≤ now) : Swept now cb [a] s (sweepBody cb now s a) := by
  by_cases hexp : s.Overdue now a
  swap
  · have hdue : s.due now [a] = [] := by simp [due, hexp]
    have hbody : sweepBody cb now s a = s := by
      unfold sweepBody
      rw [if_neg (mt (expired_iff hnow).1 hexp)]
    rw [hbody]
    refine ⟨hs, rfl, ?_, ?_, ?_, fun b _ => Touch.refl _, fun b _ _ => rfl⟩
    · rw [hdue]; exact (List.append_nil _).symm
    · rw [hdue]; simp
    · rw [hdue]; exact fun b hb => absurd hb List.not_mem_nil
  have hdue : s.due now [a] = [a] := by simp [due, hexp]
  have hbody : sweepBody cb now s a =
      (s.callOnRead cb (some a) (timeoutReport (s.sess a).serial)).drop a := by
    unfold sweepBody
    rw [if_pos ((expired_iff hnow).2 hexp)]
    rfl
  have hq := timeout_quiet hcb hs ha
  set r := timeoutReport (s.sess a).serial
  set t := s.callOnRead cb (some a) r
  have hmem : t.members = s.members := hq.members
  have hat : a ∈ t.members := hmem ▸ ha
  have hok : t.OK := by rw [hq.rest]; exact hs.of_eq rfl rfl
  rw [hbody]
  refine ⟨(Move.drop hat).ok hok, ?_, ?_, ?_, ?_, ?_, ?_⟩
  · show t.maxHeartBeat = _
    rw [hq.rest]
    rfl
  · have htr : t.trace = s.trace ++ [.report (some a) r] := by rw [hq.rest]; rfl
    rw [drop_trace, htr, hdue, List.append_assoc]
    rfl
  · rw [drop_members hat, hmem, s.sessionMap.nodup.erase_eq_filter, hdue]
    apply List.filter_congr
    intro b _
    by_cases hb : b = a <;> simp [hb]
  · intro b hb
    rw [hdue, List.mem_singleton] at hb
    subst hb
    rw [drop_sess, if_pos rfl]
    obtain ⟨⟨active, out, shut, he⟩, -⟩ := hq.sess b
    rw [he]
    rfl
  · intro b hb
    rw [hdue, List.mem_singleton] at hb
    rw [drop_sess, if_neg hb]
    exact hq.sess b
  · intro b hb hsp
    rw [hdue, List.mem_singleton] at hb
    rw [drop_sess, if_neg hb]
    have hcalls : ∀ o ∈ cb r (s.log (.report (some a) r)), ¬ o.Names ((s.log (.report (some a) r)).sess b).serial :=
      hsp r _
    exact calls_sess hcalls

/-- The rounds for some members of the map. -/
theorem swept_foldl (hcb : cb.KeepsMap) (l : List ℕ) (hl : l.Nodup) (s : Server) (hs : s.OK)
    (hmem : ∀ a ∈ l, a ∈ s.members) (hnow : ∀ a ∈ l, (s.sess a).lastRecvTime ≤ now) :
    Swept now cb l s (l.foldl (sweepBody cb now) s) := by
  induction l generalizing s with
  | nil => exact Swept.nil hs
  | cons a l ih =>
    -- one round, and then the others, which find the rest as it was
    obtain ⟨hal, hl'⟩ := List.nodup_cons.1 hl
    have h₁ := swept_body hcb hs (hmem a List.mem_cons_self) (hnow a List.mem_cons_self)
    have hdis : List.Disjoint [a] l := List.disjoint_singleton.2 hal |>.symm
    have hnot : ∀ b ∈ l, b ∉ s.due now [a] := by
      intro b hb hba
      exact hdis (mem_due.1 hba).1 hb
    have h₂ := ih hl' _ h₁.ok (fun b hb => ?_) (fun b hb => ?_)
    · exact h₁.trans h₂ hdis
    · rw [h₁.members, List.mem_filter]
      exact ⟨hmem b (List.mem_cons_of_mem _ hb), decide_eq_true (hnot b hb)⟩
    · rw [(h₁.touched b (hnot b hb)).lastRecvTime]
      exact hnow b (List.mem_cons_of_mem _ hb)

end Server

open Server

/-- **The heartbeat sweep**, for any map, any `max_heart_beat` and any loop time that is
not before the last read of a session: it reports a timeout of each overdue session, in
the order of the map, and removes and closes that session before the next report; the
other sessions stay in the map in their order, with no field changed but by calls of
`on_read` about them. -/
theorem sweep_exact {s : Server} (hs : s.OK) {cb : Callback} (hcb : cb.KeepsMap) (now : UInt64)
    (hnow : ∀ a ∈ s.members, (s.sess a).lastRecvTime ≤ now) :
    (s.hearbeatTimerCb cb now).trace = s.trace ++ (s.members.filter (s.Overdue now ·)).flatMap (fun a =>
      [.report (some a) (timeoutReport (s.sess a).serial), .remove a, .destroy a]) ∧
    (s.hearbeatTimerCb cb now).members = s.members.filter (¬ s.Overdue now ·) ∧
    (∀ a ∈ s.members, s.Overdue now a →
      ((s.hearbeatTimerCb cb now).sess a).handle = uvCloseOnce (uvStop (s.sess a).handle)) ∧
    ∀ a, ¬ (a ∈ s.members ∧ s.Overdue now a) →
      Touch (s.sess a) ((s.hearbeatTimerCb cb now).sess a) ∧
      (cb.Spares (s.sess a).serial → (s.hearbeatTimerCb cb now).sess a = s.sess a) := by
  -- one round removes at most the session it is at
  have hround : ∀ (t : Server) (a : ℕ), t.OK ∧ (∀ b ∈ t.members, (t.sess b).lastRecvTime ≤ now) →
      a ∈ t.members → ((sweepBody cb now t a).OK ∧
        ∀ b ∈ (sweepBody cb now t a).members, ((sweepBody cb now t a).sess b).lastRecvTime ≤ now) ∧
      ((sweepBody cb now t a).members = t.members ∨ (sweepBody cb now t a).members = t.members.erase a) := by
    rintro t a ⟨ht, hlast⟩ ha
    have h := swept_body hcb ht ha (hlast a ha)
    refine ⟨⟨h.ok, ?_⟩, ?_⟩
    · intro b hb
      rw [h.members, List.mem_filter, decide_eq_true_iff] at hb
      rw [(h.touched b hb.2).lastRecvTime]
      exact hlast b hb.1
    · by_cases ho : t.Overdue now a
      · right
        rw [h.members, t.sessionMap.nodup.erase_eq_filter]
        apply List.filter_congr
        intro b _
        by_cases hb : b = a <;> simp [due, ho, hb]
      · left
        rw [h.members]
        simp [due, ho]
  have hfold : s.hearbeatTimerCb cb now = s.members.foldl (sweepBody cb now) s :=
    hashIter_eq_foldl _ hs.length_le _ ⟨hs, hnow⟩ hround
  have h := swept_foldl hcb s.members s.sessionMap.nodup s hs (fun _ ha => ha) hnow
  rw [hfold]
  refine ⟨h.trace, ?_, fun a ha ho => h.closed a (mem_due.2 ⟨ha, ho⟩), ?_⟩
  · rw [h.members]
    apply List.filter_congr
    intro a ha
    simp [due, ha]
  · intro a ha
    have hnot : a ∉ s.due now s.members := fun e => ha (mem_due.1 e)
    exact ⟨h.touched a hnot, h.spared a hnot⟩

/-- Of three sessions the second got a byte after six seconds; the other two expire five seconds
later, in their order. -/
theorem sweep_exact_first :
    let es := [.quiet (.start ⟨0, 0, 0, 0⟩), .quiet (.connection 0 0 0 0 0), .quiet (.connection 0 0 0 0 0),
      .quiet (.connection 0 0 0 0 0), .quiet (.read 1 6000 (.data [0]))]
    let s := netServer.exec (qsfCreateNetServer 3 10 10) es
    let t := s.hearbeatTimerCb (fun _ _ => []) 11000
    s.members = [0, 1, 2] ∧ t.members = [1] ∧
      t.trace = s.trace ++ [.report (some 0) (timeoutReport 1000), .remove 0, .destroy 0,
        .report (some 2) (timeoutReport 1002), .remove 2, .destroy 2] ∧
      t.sess 1 = s.sess 1 := by
  intro es s t
  have h₀ : netServer.Reachable (qsfCreateNetServer 3 10 10) := .start ⟨3, 10, 10, rfl⟩
  have hr : netServer.Runs (qsfCreateNetServer 3 10 10) es :=
    ⟨trivial, rfl, rfl, rfl, ⟨rfl, by decide⟩, trivial⟩
  have hok : s.OK := (inv_reachable (h₀.runs hr)).toOK
  have hcb : Callback.KeepsMap (fun _ _ => []) := fun _ _ _ _ => rfl
  obtain ⟨htrace, hmembers, -, hkept⟩ := sweep_exact hok hcb 11000 (by decide)
  have hspares : Callback.Spares (fun _ _ => []) (s.sess 1).serial := fun _ _ _ ho => absurd ho List.not_mem_nil
  refine ⟨rfl, ?_, ?_, ?_⟩
  · rw [hmembers]
    decide +kernel
  · rw [htrace]
    decide +kernel
  · rw [(hkept 1 (by decide)).2 hspares]

end Qsf
