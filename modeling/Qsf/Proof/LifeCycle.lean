import Qsf.Proof.Runs

/-!
# The life of a session

The trace of a run, read session by session. `on_read` is user code that does not remove
sessions (`polite`); sessions are removed by the loop: on a read error, by the sweep, by a
kick or by a stop.

* `LifeCycle`: what the trace says about one session: added, then data callbacks, then at
  most one terminal callback, removed, destroyed; or never added at all.
* `Legal`: what a callback may say at its place in the trace.
* `session_life_cycle`: both hold in every run, and nothing happens after a stop.
-/

set_option autoImplicit false

namespace Qsf

/-- The event concerns session `a`. -/
def TraceEvent.about (a : ℕ) : TraceEvent → Bool
  | .accept b _ => b = a
  | .report who _ => who = some a
  | .remove b => b = a
  | .destroy b => b = a

/-- Data callbacks of session `a` with serial `n`. -/
def DataCallbacks (a : ℕ) (n : UInt32) (ds : List TraceEvent) : Prop :=
  ∀ e ∈ ds, ∃ r : Report, e = .report (some a) r ∧ r.err = 0 ∧ r.serial = n

/-- The report of a read error or of a timeout, with serial `n`. -/
def Terminal (n : UInt32) (r : Report) : Prop :=
  (r.err < 0 ∨ r.err = NET_ERR_TIMEOUT) ∧ r.serial = n

/-- **The lives of session `a`**, as the trace tells them. -/
inductive LifeCycle (a : ℕ) : List TraceEvent → Prop
  | unborn : LifeCycle a []
  /-- Its setup failed. -/
  | failed : LifeCycle a [.destroy a]
  | live {n : UInt32} {ds : List TraceEvent} : n ≠ 0 → DataCallbacks a n ds →
      LifeCycle a (.accept a n :: ds)
  /-- It was kicked, or the server stopped. -/
  | left {n : UInt32} {ds : List TraceEvent} : n ≠ 0 → DataCallbacks a n ds →
      LifeCycle a (.accept a n :: ds ++ [.remove a, .destroy a])
  /-- A read failed, or it timed out. -/
  | ended {n : UInt32} {ds : List TraceEvent} {r : Report} : n ≠ 0 → DataCallbacks a n ds →
      Terminal n r → LifeCycle a (.accept a n :: ds ++ [.report (some a) r, .remove a, .destroy a])

/-- What a callback may say after the events `pre`: the limit with serial 0, or something
about a session in the map, under the serial that only this session has. -/
def Legal (pre : List TraceEvent) : Option ℕ → Report → Prop
  | none, r => r.serial = 0 ∧ r.err = NET_ERR_CONN_LIMIT
  | some a, r => r.serial ≠ 0 ∧ r.err ≠ NET_ERR_CONN_LIMIT ∧
      .accept a r.serial ∈ pre ∧ .remove a ∉ pre ∧
      ∀ b, b ≠ a → .accept b r.serial ∈ pre → .remove b ∈ pre

/-- Every callback in the trace is legal where it stands. -/
def AllLegal (tr : List TraceEvent) : Prop :=
  ∀ pre who r post, tr = pre ++ .report who r :: post → Legal pre who r

theorem AllLegal.append {tr us : List TraceEvent} (h : AllLegal tr)
    (hus : ∀ pre who r post, us = pre ++ .report who r :: post → Legal (tr ++ pre) who r) :
    AllLegal (tr ++ us) := by
  intro pre who r post he
  rcases List.append_eq_append_iff.1 he with ⟨mid, hpre, hmid⟩ | ⟨mid, htr, hmid⟩
  · rw [hpre]
    exact hus mid who r post hmid
  · cases mid with
    | nil =>
      rw [List.append_nil] at htr
      rw [← htr, ← List.append_nil tr]
      exact hus [] who r post hmid.symm
    | cons e mid =>
      rw [List.cons_append] at hmid
      obtain ⟨rfl, -⟩ := List.cons.inj hmid
      exact h pre who r mid htr

namespace Server

variable {s s' : Server} {a b : ℕ} {cb : Callback}

/-- What the trace says about session `a`. -/
def history (a : ℕ) (s : Server) : List TraceEvent := s.trace.filter (TraceEvent.about a)

/-- The life of `a` is over. -/
def Gone (a : ℕ) (h : List TraceEvent) : Prop :=
  LifeCycle a h ∧ (h = [.destroy a] ∨ .remove a ∈ h)

/-- Session `a` is in the map, and all its callbacks were data callbacks. -/
def Live (a : ℕ) (s : Server) : Prop :=
  ∃ ds, DataCallbacks a (s.sess a).serial ds ∧ s.history a = .accept a (s.sess a).serial :: ds

/-- The invariant: members of the map live under distinct serials, the lives of the
sessions that left it are over, and the callbacks so far were legal. -/
structure Living (s : Server) : Prop extends Inv s where
  serial_ne : ∀ a ∈ s.members, (s.sess a).serial ≠ 0
  serial_inj : ∀ a ∈ s.members, ∀ b ∈ s.members, (s.sess a).serial = (s.sess b).serial → a = b
  live : ∀ a ∈ s.members, s.Live a
  gone : ∀ a, a ∉ s.members → a < s.allocated → Gone a (s.history a)
  unborn : ∀ a, s.allocated ≤ a → s.history a = []
  legal : AllLegal s.trace

theorem mem_history {e : TraceEvent} (he : e.about a = true) : e ∈ s.history a ↔ e ∈ s.trace := by
  unfold history
  rw [List.mem_filter, and_iff_left he]

theorem history_append (us : List TraceEvent) (ht : s'.trace = s.trace ++ us) :
    s'.history a = s.history a ++ us.filter (TraceEvent.about a) := by
  unfold history
  rw [ht, List.filter_append]

theorem Living.lifeCycle (hs : s.Living) (a : ℕ) : LifeCycle a (s.history a) := by
  by_cases ha : a ∈ s.members
  · obtain ⟨ds, hds, he⟩ := hs.live a ha
    rw [he]
    exact .live (hs.serial_ne a ha) hds
  · by_cases hb : a < s.allocated
    · exact (hs.gone a ha hb).1
    · rw [hs.unborn a (not_lt.1 hb)]
      exact .unborn

/-- A member was added under its serial, and not removed. -/
theorem Living.member (hs : s.Living) (ha : a ∈ s.members) :
    .accept a (s.sess a).serial ∈ s.trace ∧ .remove a ∉ s.trace := by
  obtain ⟨ds, hds, he⟩ := hs.live a ha
  refine ⟨?_, ?_⟩
  · refine (mem_history (s := s) (a := a) (by simp [TraceEvent.about])).1 ?_
    rw [he]
    exact List.mem_cons_self
  · intro hr
    have hr' := (mem_history (s := s) (a := a) (by simp [TraceEvent.about])).2 hr
    rw [he, List.mem_cons] at hr'
    rcases hr' with hr' | hr'
    · cases hr'
    · obtain ⟨r, hr, -⟩ := hds _ hr'
      cases hr

/-- **Serials in use are unique**: whoever was added under the serial of a member, and is
not that member, was removed. -/
theorem Living.other (hs : s.Living) (ha : a ∈ s.members) (hne : b ≠ a)
    (hb : .accept b (s.sess a).serial ∈ s.trace) : .remove b ∈ s.trace := by
  have hb' := (mem_history (s := s) (a := b) (by simp [TraceEvent.about])).2 hb
  by_cases hm : b ∈ s.members
  · obtain ⟨ds, hds, he⟩ := hs.live b hm
    rw [he, List.mem_cons] at hb'
    rcases hb' with hb' | hb'
    · have hser : (s.sess a).serial = (s.sess b).serial := by
        injection hb'
      exact absurd (hs.serial_inj a ha b hm hser).symm hne
    · obtain ⟨r, hr, -⟩ := hds _ hb'
      cases hr
  · by_cases hlt : b < s.allocated
    · rcases (hs.gone b hm hlt).2 with he | he
      · rw [he] at hb'
        simp at hb'
      · exact (mem_history (by simp [TraceEvent.about])).1 he
    · rw [hs.unborn b (not_lt.1 hlt)] at hb'
      simp at hb'

/-- A callback about a member is legal. -/
theorem Living.legal_report (hs : s.Living) (ha : a ∈ s.members) {r : Report}
    (hser : r.serial = (s.sess a).serial) (herr : r.err ≠ NET_ERR_CONN_LIMIT) :
    Legal s.trace (some a) r := by
  have hm := hs.member ha
  refine ⟨by rw [hser]; exact hs.serial_ne a ha, herr, by rw [hser]; exact hm.1, hm.2, ?_⟩
  intro b hne hb
  rw [hser] at hb
  exact hs.other ha hne hb

/-- **What a step must show**, session by session: nothing was said about it and it did not
leave, or it was a member and lives on or ends as it should. -/
theorem Living.extend (us : List TraceEvent) (hs : s.Living) (hi : s'.Inv)
    (ha : s'.allocated = s.allocated) (hser : ∀ b, (s'.sess b).serial = (s.sess b).serial)
    (ht : s'.trace = s.trace ++ us) (hsub : ∀ b ∈ s'.members, b ∈ s.members)
    (hb : ∀ b, (us.filter (TraceEvent.about b) = [] ∧ (b ∈ s.members → b ∈ s'.members)) ∨
      (b ∈ s.members ∧ (b ∈ s'.members → s'.Live b) ∧ (b ∉ s'.members → Gone b (s'.history b))))
    (hus : ∀ pre who r post, us = pre ++ .report who r :: post → Legal (s.trace ++ pre) who r) :
    s'.Living where
  toInv := hi
  serial_ne b hm := by rw [hser]; exact hs.serial_ne b (hsub b hm)
  serial_inj b hbm c hcm h := by
    rw [hser, hser] at h
    exact hs.serial_inj b (hsub b hbm) c (hsub c hcm) h
  live b hm := by
    rcases hb b with ⟨hnil, -⟩ | ⟨-, hlive, -⟩
    · obtain ⟨ds, hds, he⟩ := hs.live b (hsub b hm)
      rw [Live, hser, history_append _ ht, hnil, List.append_nil]
      exact ⟨ds, hds, he⟩
    · exact hlive hm
  gone b hm hlt := by
    rcases hb b with ⟨hnil, hstay⟩ | ⟨-, -, hgone⟩
    · rw [history_append _ ht, hnil, List.append_nil]
      exact hs.gone b (fun h => hm (hstay h)) (ha ▸ hlt)
    · exact hgone hm
  unborn b hge := by
    rcases hb b with ⟨hnil, -⟩ | ⟨hm, -⟩
    · rw [history_append _ ht, hnil, List.append_nil]
      exact hs.unborn b (ha ▸ hge)
    · exact absurd (hs.bound b hm) (not_lt.2 (ha ▸ hge))
  legal := by rw [ht]; exact hs.legal.append hus

theorem Living.quiet (hs : s.Living) (hq : Quiet s s') : s'.Living := by
  have hser : ∀ b, (s'.sess b).serial = (s.sess b).serial := by
    intro b
    exact (hq.sess b).serial
  refine hs.extend [] (inv_stable.move _ _ (.quiet hq) hs.toInv) (by rw [hq.rest]) hser
    (by rw [hq.rest, List.append_nil]) (fun b hb => hq.members ▸ hb) (fun b => .inl ⟨rfl, ?_⟩) ?_
  · rw [hq.members]
    exact id
  · intro pre who r post h
    simp at h

/-- The state that a session leaves the map in, after a terminal callback or none. -/
theorem Living.ends (hs : s.Living) (ha : a ∈ s.members) {t : Server} {rs : List TraceEvent}
    (hi : (t.drop a).Inv) (halloc : t.allocated = s.allocated) (hm : t.members = s.members)
    (hser : ∀ b, (t.sess b).serial = (s.sess b).serial) (ht : t.trace = s.trace ++ rs)
    (hrs : rs = [] ∨ ∃ r, rs = [.report (some a) r] ∧ Terminal (s.sess a).serial r) :
    (t.drop a).Living := by
  have hat : a ∈ t.members := hm ▸ ha
  have htr : (t.drop a).trace = s.trace ++ (rs ++ [.remove a, .destroy a]) := by
    rw [drop_trace, ht, List.append_assoc]
  -- the new events are about `a` alone
  have hother : ∀ b, b ≠ a → (rs ++ [TraceEvent.remove a, .destroy a]).filter (TraceEvent.about b) = [] := by
    intro b hne
    rcases hrs with rfl | ⟨r, rfl, -⟩ <;> simp [TraceEvent.about, Ne.symm hne]
  refine hs.extend _ hi halloc ?_ htr ?_ ?_ ?_
  · intro b
    rw [drop_serial, hser]
  · intro b hb
    exact hm ▸ ((mem_drop hat).1 hb).2
  · intro b
    by_cases hba : b = a
    · subst hba
      refine .inr ⟨ha, fun hin => absurd rfl ((mem_drop hat).1 hin).1, ?_⟩
      intro _
      obtain ⟨ds, hds, he⟩ := hs.live b ha
      rw [history_append _ htr, he]
      rcases hrs with rfl | ⟨r, rfl, hterm⟩
      · have hfil : ([] ++ [.remove b, .destroy b] : List TraceEvent).filter (TraceEvent.about b) =
            [.remove b, .destroy b] := by simp [TraceEvent.about]
        rw [hfil]
        exact ⟨.left (hs.serial_ne b ha) hds, .inr (by simp)⟩
      · have hfil : ([.report (some b) r] ++ [.remove b, .destroy b] : List TraceEvent).filter
            (TraceEvent.about b) = [.report (some b) r, .remove b, .destroy b] := by simp [TraceEvent.about]
        rw [hfil]
        exact ⟨.ended (hs.serial_ne b ha) hds hterm, .inr (by simp)⟩
    · exact .inl ⟨hother b hba, fun h => (mem_drop hat).2 ⟨hba, hm ▸ h⟩⟩
  · intro pre who r post h
    rcases hrs with rfl | ⟨r', rfl, hterm⟩
    · have hin : TraceEvent.report who r ∈ [TraceEvent.remove a, .destroy a] := by
        rw [List.nil_append] at h
        rw [h]
        simp
      simp at hin
    · -- the only callback among the new events is the first of them
      cases pre with
      | nil =>
        simp only [List.nil_append, List.cons_append, List.cons.injEq, TraceEvent.report.injEq] at h
        obtain ⟨⟨rfl, rfl⟩, -⟩ := h
        rw [List.append_nil]
        apply hs.legal_report ha hterm.2
        rcases hterm.1 with h | h
        · intro e
          rw [e] at h
          exact absurd h (by decide)
        · rw [h]
          decide
      | cons e pre =>
        have hin : TraceEvent.report who r ∈ [.remove a, .destroy a] := by
          simp only [List.cons_append, List.nil_append, List.cons.injEq] at h
          rw [h.2]
          simp
        simp at hin

theorem Living.drop (hs : s.Living) (ha : a ∈ s.members) : (s.drop a).Living :=
  hs.ends ha (inv_stable.move _ _ (.drop ha) hs.toInv) rfl rfl (fun _ => rfl)
    (List.append_nil _).symm (.inl rfl)

theorem Living.move (hs : s.Living) (hm : Move s s') : s'.Living := by
  have hi := inv_stable.move s s' hm hs.toInv
  cases hm with
  | quiet hq => exact hs.quiet hq
  | drop ha => exact hs.drop ha
  | stopping =>
    exact { hs with toInv := hi, live := hs.live, gone := hs.gone, unborn := hs.unborn }
  | closing =>
    exact { hs with toInv := hi, live := hs.live, gone := hs.gone, unborn := hs.unborn }

/-! ## Callbacks that remove no session -/

/-- User code that does not remove sessions. -/
def Polite (cb : Callback) : Prop := ∀ r t, ∀ o ∈ cb r t, Op.keeps o

theorem quiet_callOnRead (hs : s.OK) (hk : Polite cb) (who : Option ℕ) (r : Report) :
    Quiet (s.log (.report who r)) (s.callOnRead cb who r) :=
  quiet_calls (s := s.log (.report who r)) (hs.of_eq rfl rfl) (hk r _)

/-- **A terminal callback**, and the removal after it. -/
theorem Living.reportDrop (hs : s.Living) (hk : Polite cb) (ha : a ∈ s.members) {r : Report}
    (hterm : Terminal (s.sess a).serial r) :
    ((s.callOnRead cb (some a) r).drop a).Living ∧
      ((s.callOnRead cb (some a) r).drop a).members = s.members.erase a := by
  have hq := quiet_callOnRead hs.toOK hk (some a) r
  have hser : ∀ b, ((s.callOnRead cb (some a) r).sess b).serial = (s.sess b).serial := by
    intro b
    exact (hq.sess b).serial
  have hm : (s.callOnRead cb (some a) r).members = s.members := hq.members
  refine ⟨hs.ends ha ?_ ?_ hm hser ?_ (.inr ⟨r, rfl, hterm⟩), ?_⟩
  · exact inv_stable.reportDrop trivial hs.toInv
  · rw [hq.rest]
    rfl
  · rw [hq.rest]
    rfl
  · rw [drop_members (hm ▸ ha), hm]

/-- **A data callback.** -/
theorem Living.reportData (hs : s.Living) (hk : Polite cb) (ha : a ∈ s.members) {r : Report}
    (herr : r.err = 0) (hser : r.serial = (s.sess a).serial) :
    (s.callOnRead cb (some a) r).Living := by
  refine Living.quiet ?_ (quiet_callOnRead hs.toOK hk (some a) r)
  have htr : (s.log (.report (some a) r)).trace = s.trace ++ [.report (some a) r] := rfl
  refine hs.extend _ (inv_stable.report _ _ _ trivial hs.toInv) rfl (fun _ => rfl) htr (fun b hb => hb)
    ?_ ?_
  · intro b
    by_cases hba : b = a
    · subst hba
      refine .inr ⟨ha, ?_, fun h => absurd ha h⟩
      intro _
      obtain ⟨ds, hds, he⟩ := hs.live b ha
      refine ⟨ds ++ [.report (some b) r], ?_, ?_⟩
      · intro e h
        rw [List.mem_append, List.mem_singleton] at h
        rcases h with h | h
        · exact hds e h
        · exact ⟨r, h, herr, hser⟩
      · rw [history_append _ htr, he]
        simp [TraceEvent.about]
    · exact .inl ⟨by simp [TraceEvent.about, Ne.symm hba], id⟩
  · intro pre who r' post h
    have hpre : pre = [] ∧ who = some a ∧ r' = r := by
      cases pre with
      | nil => simp only [List.nil_append, List.cons.injEq, TraceEvent.report.injEq] at h; grind
      | cons e pre => simp at h
    obtain ⟨rfl, rfl, rfl⟩ := hpre
    rw [List.append_nil]
    exact hs.legal_report ha hser (by rw [herr]; decide)

/-- **The callback at the limit**, about no session. -/
theorem Living.reportLimit (hs : s.Living) (hk : Polite cb) :
    (s.callOnRead cb none limitReport).Living := by
  refine Living.quiet ?_ (quiet_callOnRead hs.toOK hk none limitReport)
  have htr : (s.log (.report none limitReport)).trace = s.trace ++ [.report none limitReport] := rfl
  refine hs.extend _ (inv_stable.report _ _ _ trivial hs.toInv) rfl (fun _ => rfl) htr (fun b hb => hb)
    (fun b => .inl ⟨by simp [TraceEvent.about], id⟩) ?_
  intro pre who r' post h
  -- the new callback is the only new event
  have hpre : who = none ∧ r' = limitReport := by
    cases pre with
    | nil => simp only [List.nil_append, List.cons.injEq, TraceEvent.report.injEq] at h; grind
    | cons e pre => simp at h
  obtain ⟨rfl, rfl⟩ := hpre
  exact ⟨rfl, rfl⟩

/-! ## Connections -/

/-- A session was created, of which the trace says `e`; the others are as they were. -/
structure Born (s t : Server) (e : TraceEvent) : Prop where
  allocated : t.allocated = s.allocated + 1
  sess : ∀ b, b ≠ s.allocated → t.sess b = s.sess b
  members : ∀ b, b ≠ s.allocated → (b ∈ t.members ↔ b ∈ s.members)
  trace : t.trace = s.trace ++ [e]
  about : ∀ b, e.about b = true ↔ b = s.allocated
  silent : ∀ who r, e ≠ .report who r

theorem Born.history_of_ne {e : TraceEvent} (h : Born s s' e) (hb : b ≠ s.allocated) :
    s'.history b = s.history b := by
  have habout : e.about b = false := Bool.eq_false_iff.2 fun he => hb ((h.about b).1 he)
  rw [history_append _ h.trace, List.filter_singleton, habout, cond_false, List.append_nil]

theorem Born.history_self {e : TraceEvent} (h : Born s s' e) (hs : s.Living) :
    s'.history s.allocated = [e] := by
  rw [history_append _ h.trace, hs.unborn _ (le_refl _), List.filter_singleton,
    (h.about _).2 rfl, cond_true, List.nil_append]

/-- The new session is in the map, under a serial that no other has, or destroyed. -/
theorem Living.born {e : TraceEvent} (hs : s.Living) (h : Born s s' e) (hi : s'.Inv)
    (hin : s.allocated ∈ s'.members → (s'.sess s.allocated).serial ≠ 0 ∧
      e = .accept s.allocated (s'.sess s.allocated).serial ∧
      ∀ b ∈ s.members, (s.sess b).serial ≠ (s'.sess s.allocated).serial)
    (hout : s.allocated ∉ s'.members → e = .destroy s.allocated) : s'.Living := by
  refine ⟨hi, ?_, ?_, ?_, ?_, ?_, ?_⟩
  · intro b hb
    by_cases hba : b = s.allocated
    · subst hba
      exact (hin hb).1
    · rw [h.sess b hba]
      exact hs.serial_ne b ((h.members b hba).1 hb)
  · intro b hb c hc heq
    by_cases hba : b = s.allocated
    · by_cases hca : c = s.allocated
      · rw [hba, hca]
      · rw [hba] at hb heq
        rw [h.sess c hca] at heq
        exact absurd heq.symm ((hin hb).2.2 c ((h.members c hca).1 hc))
    · rw [h.sess b hba] at heq
      by_cases hca : c = s.allocated
      · rw [hca] at hc heq
        exact absurd heq ((hin hc).2.2 b ((h.members b hba).1 hb))
      · rw [h.sess c hca] at heq
        exact hs.serial_inj b ((h.members b hba).1 hb) c ((h.members c hca).1 hc) heq
  · intro b hb
    by_cases hba : b = s.allocated
    · subst hba
      exact ⟨[], by simp [DataCallbacks], (h.history_self hs).trans (by rw [← (hin hb).2.1])⟩
    · rw [Live, h.sess b hba, h.history_of_ne hba]
      exact hs.live b ((h.members b hba).1 hb)
  · intro b hb hlt
    by_cases hba : b = s.allocated
    · subst hba
      rw [h.history_self hs, hout hb]
      exact ⟨.failed, .inl rfl⟩
    · rw [h.history_of_ne hba]
      rw [h.allocated] at hlt
      exact hs.gone b (fun hmem => hb ((h.members b hba).2 hmem)) (by omega)
  · intro b hge
    rw [h.allocated] at hge
    rw [h.history_of_ne (by omega)]
    exact hs.unborn b (by omega)
  · rw [h.trace]
    apply hs.legal.append
    intro pre who r post heq
    have hreport : TraceEvent.report who r ∈ [e] := by rw [heq]; simp
    exact absurd (List.mem_singleton.1 hreport).symm (h.silent who r)

theorem Living.refused {now : UInt64} (hs : s.Living) : (s.refused now).Living := by
  have hborn : Born s (s.refused now) (.destroy s.allocated) :=
    ⟨rfl, fun b hb => Function.update_of_ne hb _ _, fun _ _ => Iff.rfl, rfl,
      fun b => by simp [TraceEvent.about, eq_comm], by simp⟩
  exact hs.born hborn hs.toInv.refused (fun hin => absurd hin hs.not_mem_allocated) fun _ => rfl

theorem Living.accepted {now : UInt64} {n : UInt32} (hs : s.Living)
    (hc : s.hashCount < s.maxConnection.toNat) (hn : n ≠ 0) (hfree : s.hashFindInt n = none) :
    (s.accepted now n).Living := by
  have hself : ((s.accepted now n).sess s.allocated).serial = n := by simp [Server.accepted]
  have hnew : ∀ b, b ∈ (s.accepted now n).members ↔ b ∈ s.members ∨ b = s.allocated := by
    intro b
    rw [accepted_members _ _ hs.toOK, List.mem_append, List.mem_singleton]
  have hborn : Born s (s.accepted now n) (.accept s.allocated n) :=
    ⟨rfl, fun b hb => Function.update_of_ne hb _ _, fun b hb => (hnew b).trans (or_iff_left hb), rfl,
      fun b => by simp [TraceEvent.about, eq_comm], by simp⟩
  refine hs.born hborn (hs.toInv.accepted hc) (fun _ => ?_) fun hout => absurd ((hnew _).2 (.inr rfl)) hout
  rw [hself]
  exact ⟨hn, rfl, hashFindInt_none hfree⟩

/-! ## Runs -/

/-- The server with user code that does not remove sessions. -/
def polite : Machine Server Event := netServer.restrict fun _ e => Polite e.cb

/-- Nothing about sessions or the trace was changed. -/
theorem Living.of_eq (hs : s.Living) (hi : s'.Inv) (hm : s'.sessionMap = s.sessionMap)
    (hser : ∀ b, (s'.sess b).serial = (s.sess b).serial) (ha : s'.allocated = s.allocated)
    (ht : s'.trace = s.trace) : s'.Living := by
  have hmem : s'.members = s.members := by unfold members; rw [hm]
  refine hs.extend [] hi ha hser (by rw [ht, List.append_nil]) (fun b hb => hmem ▸ hb)
    (fun b => .inl ⟨rfl, fun h => hmem ▸ h⟩) ?_
  intro pre who r post h
  simp at h

theorem Living.outside (hs : s.Living) (h : Outside s s') : s'.Living :=
  hs.of_eq (hs.toInv.outside h) (by rw [h]) (fun _ => by rw [h]) (by rw [h]) (by rw [h])

theorem Living.read (hs : s.Living) (hk : Polite cb) (now : UInt64) (bytes : List UInt8)
    (hact : (s.sess a).handle.active = true) : (s.sessionRead cb a now (.data bytes)).Living := by
  obtain ⟨t, ht, hts, htm, hcases⟩ := sessionRead_cases s cb a now bytes
  have htt : t.Living := by
    rcases ht with rfl | rfl
    · exact hs
    · exact hs.quiet quiet_abort
  have hmem : a ∈ t.members := htm ▸ hs.active a hact
  have hser : (((s.sess a).copied bytes).fill now bytes.length).1.serial = (t.sess a).serial := by
    rw [hts]
    exact (Session.fill_same _ now bytes.length).1
  set σ := (((s.sess a).copied bytes).fill now bytes.length).1
  have hset : (t.setSess a σ).Living := by
    refine htt.of_eq (htt.toInv.setSess fun _ => hmem) rfl ?_ rfl rfl
    intro b
    rw [setSess_eq]
    split
    · rename_i hb; rw [hb]; exact hser
    · rfl
  rcases hcases σ rfl with he | he | ⟨body, he⟩
  · rw [he]; exact htt
  · rw [he]; exact hset
  · rw [he]
    apply hset.reportData hk hmem rfl
    rw [setSess_self]
    rfl

/-- **The sweep**: each session that expired is reported once and removed. -/
theorem Living.sweep (hs : s.Living) (hk : Polite cb) {now : UInt64} :
    (s.hearbeatTimerCb cb now).Living := by
  apply hashIter_invariant hs hs.toOK.length_le
  intro t a ht ha
  unfold sweepBody
  split
  · have hterm : Terminal (t.sess a).serial (timeoutReport (t.sess a).serial) := ⟨.inr rfl, rfl⟩
    have h := ht.reportDrop hk ha hterm
    exact ⟨h.1, .inr h.2⟩
  · exact ⟨ht, .inl rfl⟩

theorem living_step (hs : s.Living) {e : Event} (he : polite.enabled s e) : (s.step e).Living := by
  have hi := inv_step e hs.toInv he.1
  obtain ⟨input, cb⟩ := e
  obtain ⟨he, hk⟩ := he
  cases input with
  | start r => exact hs.outside (outside_start r)
  | connection err now acc peer rd =>
    have hs' := hs.outside (outside_pending err)
    unfold step
    simp only
    rcases onConnection_cases cb hs'.toOK err now acc peer rd with
      ⟨h, -⟩ | ⟨h, -⟩ | ⟨h, -⟩ | ⟨h, -⟩ | ⟨n, h, hn, hfree, hc, -⟩
    · rw [h]; exact hs'
    · rw [h]; exact hs'.quiet quiet_abort
    · rw [h]; exact hs'.reportLimit hk
    · rw [h]; exact hs'.refused
    · rw [h]; exact hs'.accepted hc hn hfree
  | read a now r =>
    cases r with
    | data bytes => exact hs.read hk now bytes he.1
    | error code =>
      -- a read that fails offered a buffer before
      have hlive : (s.onSessionAlloc a).1.Living ∧ a ∈ (s.onSessionAlloc a).1.members ∧
          ((s.onSessionAlloc a).1.sess a).serial = (s.sess a).serial := by
        rcases onSessionAlloc_fst s a with h | h
        · rw [h]; exact ⟨hs, hs.active a he.1, rfl⟩
        · rw [h]; exact ⟨hs.quiet quiet_abort, hs.active a he.1, rfl⟩
      show (s.sessionRead cb a now (.error code)).Living
      rw [sessionRead_error he.2]
      refine (hlive.1.reportDrop hk hlive.2.1 ⟨.inl he.2, ?_⟩).1
      rw [hlive.2.2]
      rfl
  | tick now => exact (hs.outside outside_timer).sweep hk
  | op o => exact moves_invariant (fun _ _ hm h => h.move hm) (call_moves hs.toOK o) hs
  | turn =>
    refine hs.of_eq hi rfl ?_ rfl rfl
    intro b
    show (s.sess b).turn.serial = (s.sess b).serial
    unfold Session.turn
    split <;> rfl

theorem living_create (m : UInt32) (h c : UInt16) : (qsfCreateNetServer m h c).Living where
  toInv := inv_create m h c
  serial_ne a ha := absurd ha List.not_mem_nil
  serial_inj a ha := absurd ha List.not_mem_nil
  live a ha := absurd ha List.not_mem_nil
  gone a _ ha := absurd ha (Nat.not_lt_zero a)
  unborn a _ := rfl
  legal pre who r post h := by simp [qsfCreateNetServer] at h

/-! ## After a stop -/

/-- A stopped server: no sessions, and both handles on their way out. -/
structure Stopped (s : Server) : Prop extends Inv s where
  stopped : s.stopped = true
  empty : s.members = []
  timer : s.timer.active = false ∧ uvIsClosing s.timer = true
  acceptor : uvIsClosing s.acceptor = true

theorem uvCloseOnce_closing (h : UvHandle) : uvIsClosing (uvCloseOnce h) = true := by
  unfold uvCloseOnce
  split
  · assumption
  · rfl

theorem Stopped.stop_eq (hs : s.Stopped) : s.qsfNetServerStop = s := by
  have htimer : uvCloseOnce (uvStop s.timer) = s.timer := by
    have hstop : uvStop s.timer = s.timer := by
      have hact := hs.timer.1
      rcases hh : s.timer with ⟨phase, active⟩
      rw [hh] at hact
      simp only [uvStop]
      rw [← hact]
    rw [hstop, uvCloseOnce, if_pos hs.timer.2]
  have hacc : uvCloseOnce s.acceptor = s.acceptor := by rw [uvCloseOnce, if_pos hs.acceptor]
  rw [Server.stop_eq hs.toOK.length_le, hs.empty]
  simp only [List.foldl_nil, htimer, hacc]
  rw [← hs.stopped]

/-- **Stopping** a server. -/
theorem stopped_of_stop (hs : s.Inv) : s.qsfNetServerStop.Stopped := by
  have hstop : ∀ (l : List ℕ) (t : Server), (l.foldl Server.drop t).stopped = t.stopped := by
    intro l
    induction l with
    | nil => exact fun _ => rfl
    | cons a l ih => exact fun t => ih (t.drop a)
  have heq := Server.stop_eq hs.toOK.length_le
  refine ⟨inv_stable.moves (stop_moves hs.toOK) hs, ?_, stop_members hs.toOK, ?_, ?_⟩
  · rw [heq]
    exact hstop s.members { s with stopped := true }
  · rw [heq]
    exact ⟨uvCloseOnce_active _, uvCloseOnce_closing _⟩
  · rw [heq]
    exact uvCloseOnce_closing _

theorem Stopped.find (hs : s.Stopped) (n : UInt32) : s.hashFindInt n = none := by
  have hempty : s.sessionMap.items = [] := hs.empty
  rw [hashFindInt, hempty]
  rfl

/-- No call of the API does anything to a stopped server. -/
theorem Stopped.call (hs : s.Stopped) (o : Op) : s.call o = s ∨ s.call o = s.abort := by
  cases o with
  | close n =>
    left
    show s.qsfNetServerClose n = s
    rw [close_eq, hs.find]
  | stop => exact .inl hs.stop_eq
  | write serial data size r =>
    simp only [Server.call, qsfNetServerWrite, hs.find]
    split
    · exact .inr rfl
    · exact .inl rfl
  | writeAll data size r =>
    have hempty : s.sessionMap.items = [] := hs.empty
    simp only [Server.call, qsfNetServerWriteAll, hashIter, hempty, List.head?_nil,
      Option.bind_none, walk_none]
    split
    · exact .inr rfl
    · exact .inl rfl
  | shutdown serial r =>
    left
    simp only [Server.call, qsfNetServerShutdown, hs.find]
  | size => exact .inl rfl

theorem Stopped.abort (hs : s.Stopped) : s.abort.Stopped :=
  ⟨inv_stable.move _ _ (.quiet quiet_abort) hs.toInv, hs.stopped, hs.empty, hs.timer, hs.acceptor⟩

theorem uvTurn_closing {h : UvHandle} (hc : uvIsClosing h = true) :
    uvIsClosing (uvTurn h) = true := by
  unfold uvTurn
  split
  · rfl
  · exact hc

/-- **Nothing happens to a stopped server** that is not started again. -/
theorem stopped_step (hs : s.Stopped) {e : Event} (he : s.enabled e)
    (hne : ∀ r, e.input ≠ .start r) : (s.step e).Stopped ∧ (s.step e).trace = s.trace := by
  have hi := inv_step e hs.toInv he
  -- nothing is read from the sessions of a stopped server
  have hnot : ∀ a, (s.sess a).handle.active ≠ true := by
    intro a ha
    have hm := hs.active a ha
    rw [hs.empty] at hm
    exact absurd hm List.not_mem_nil
  obtain ⟨input, cb⟩ := e
  cases input with
  | start r => exact absurd rfl (hne r)
  | connection err now acc peer rd =>
    have hs' : (if err = 0 then { s with pending := true } else s).Stopped ∧
        (if err = 0 then { s with pending := true } else s).trace = s.trace := by
      split
      · exact ⟨⟨hs.toInv.of_eq rfl rfl rfl rfl, hs.stopped, hs.empty, hs.timer, hs.acceptor⟩, rfl⟩
      · exact ⟨hs, rfl⟩
    have hst := hs'.1.stopped
    unfold step
    simp only
    rcases onConnection_cases cb hs'.1.toOK err now acc peer rd with
      ⟨h, -⟩ | ⟨h, -⟩ | ⟨-, -, h⟩ | ⟨-, -, -, h⟩ | ⟨n, -, -, -, -, h, -⟩
    · rw [h]; exact hs'
    · rw [h]; exact ⟨hs'.1.abort, hs'.2⟩
    · rw [hst] at h; simp at h
    · rw [hst] at h; simp at h
    · rw [hst] at h; simp at h
  | read a now r =>
    cases r with
    | data bytes => exact absurd he.1 (hnot a)
    | error code => exact absurd he.1 (hnot a)
  | tick now =>
    have hact : s.timer.active = true := he
    rw [hs.timer.1] at hact
    simp at hact
  | op o =>
    show (s.call o).Stopped ∧ (s.call o).trace = s.trace
    rcases hs.call o with h | h
    · rw [h]; exact ⟨hs, rfl⟩
    · rw [h]; exact ⟨hs.abort, rfl⟩
  | turn =>
    exact ⟨⟨hi, hs.stopped, hs.empty, ⟨(uvTurn_active _).trans hs.timer.1, uvTurn_closing hs.timer.2⟩,
      uvTurn_closing hs.acceptor⟩, rfl⟩

theorem stopped_run {es : List Event} (hs : s.Stopped) (hr : polite.Runs s es)
    (hne : ∀ e ∈ es, ∀ r, e.input ≠ .start r) :
    (polite.exec s es).Stopped ∧ (polite.exec s es).trace = s.trace := by
  induction es generalizing s with
  | nil => exact ⟨hs, rfl⟩
  | cons e es ih =>
    have hstep := stopped_step hs hr.1.1 (hne e List.mem_cons_self)
    have hrest := ih hstep.1 hr.2 fun e' he' => hne e' (List.mem_cons_of_mem _ he')
    exact ⟨hrest.1, hrest.2.trans hstep.2⟩

/-- **The life cycle of the sessions of a run.** Every session lives as `LifeCycle` says,
every callback is legal where it stands, and after a stop, while the server is not started
again, the trace does not grow and another stop changes nothing. -/
theorem session_life_cycle {s₀ : Server} {es : List Event} (h₀ : polite.init s₀)
    (hr : polite.Runs s₀ es) :
    (∀ a, LifeCycle a ((polite.exec s₀ es).history a)) ∧ AllLegal (polite.exec s₀ es).trace ∧
      ∀ es₁ cb es₂, es = es₁ ++ ⟨.op .stop, cb⟩ :: es₂ → (∀ e ∈ es₂, ∀ r, e.input ≠ .start r) →
        (polite.exec s₀ es).trace = (polite.exec s₀ (es₁ ++ [⟨.op .stop, cb⟩])).trace ∧
        (polite.exec s₀ es).qsfNetServerStop = polite.exec s₀ es := by
  obtain ⟨m, h, c, rfl⟩ := h₀
  have hliving := Machine.Meets.invariant (I := Living) (fun s e hs he => living_step hs he)
    (living_create m h c) hr
  refine ⟨hliving.lifeCycle, hliving.legal, ?_⟩
  rintro es₁ cb es₂ rfl hne
  obtain ⟨hr₁, hr₂⟩ := Machine.Meets.of_append hr
  have hinv := Machine.Meets.invariant (I := Inv) (fun s e hs he => inv_step e hs he.1)
    (inv_create m h c) hr₁
  have hrun := stopped_run (stopped_of_stop hinv) hr₂.2 hne
  rw [Machine.exec_append, Machine.exec_append]
  exact ⟨hrun.2, hrun.1.stop_eq⟩

/-- A session that times out, and a stop after it. -/
theorem session_life_cycle_timeout :
    let es := accepting ++ [.quiet (.tick 20000), .quiet (.op .stop), .quiet .turn]
    let s := polite.exec (qsfCreateNetServer 1 10 10) es
    (∀ a, LifeCycle a (s.history a)) ∧ AllLegal s.trace ∧ s.qsfNetServerStop = s ∧
      s.trace.length = 4 := by
  intro es s
  have hk : Polite fun _ _ => [] := fun _ _ o ho => absurd ho List.not_mem_nil
  have hr : polite.Runs (qsfCreateNetServer 1 10 10) es :=
    ⟨⟨trivial, hk⟩, ⟨rfl, hk⟩, ⟨rfl, hk⟩, ⟨trivial, hk⟩, ⟨trivial, hk⟩, trivial⟩
  obtain ⟨h1, h2, h3⟩ := session_life_cycle ⟨1, 10, 10, rfl⟩ hr
  have h4 := h3 (accepting ++ [.quiet (.tick 20000)]) (fun _ _ => []) [.quiet .turn] rfl (by
    intro e he r
    rw [List.mem_singleton.1 he]
    exact fun h => by cases h)
  exact ⟨h1, h2, h4.2, rfl⟩

end Server

end Qsf
