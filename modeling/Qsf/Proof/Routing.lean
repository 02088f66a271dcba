import Qsf.Lib.Relay
import Qsf.Proof.Threads

/-!
# Routing between nodes

A message is rewritten at every hop: `[to, data]` in front of the router, `[from, data]`
behind it. The invariant relates each queue, and each thread between two of its frames,
to the sends the messages come from.

* `Network.Sound`: sockets and queues hold the frames of their sends, and the sends on
  their way form an ordered `Relay`.
* `Network.Threads`: every thread is in the middle of a program that keeps its contract.
* `inv_step`: every event keeps both.
* `routing_safe`: what nodes are handed was sent to them, once, and in order.
-/

set_option autoImplicit false

namespace Qsf

variable {w w' : Network} {rv rv' : RouterView} {nv : ℕ → NodeView} {v v' : NodeView} {d d' : Dealer}
  {i j : ℕ}

/-! ## The invariant -/

/-- The view of a node's thread is its socket, as long as calls succeed. -/
structure Dealer.Knows (terminated : Bool) (d : Dealer) (v : NodeView) : Prop where
  dead : v.dead = true → terminated = true
  receiving : v.dead = false → v.receiving = d.receiving
  sending : v.dead = false → v.sending = d.sending
  pending : ∀ m ∈ v.pending, d.record = m
  held : ∀ m ∈ v.held, d.current = m

namespace Network

/-- The view of the main thread is the ROUTER, as long as calls succeed. -/
structure Knows (w : Network) (v : RouterView) : Prop where
  dead : v.dead = true → w.terminated = true
  receiving : v.dead = false → v.receiving = w.router.receiving
  target : v.dead = false → v.target = w.router.target.isSome
  sending : v.dead = false → v.sending = w.router.sending
  held : ∀ m ∈ v.held, w.current = m

/-- The sends on their way: in front of the router, in its hands, and behind it. -/
def relay (w : Network) (rv : RouterView) (nv : ℕ → NodeView) : Relay ℕ ℕ SendRecord where
  out i := (w.dealers i).outbox.map Message.record ++ (nv i).pending.toList
  held := rv.held
  into j := (w.handed.filter (·.receiver = j)).map Handed.record ++ (nv j).held.toList ++
    (w.dealers j).inbox.map Message.record

/-- What was handed to a node is a message to it. -/
def Genuine (w : Network) (h : Handed) : Prop :=
  h.receiver < w.count ∧ h.name = h.record.senderName ∧ h.data = h.record.data ∧
    h.record.dest = (w.dealers h.receiver).name

structure Sound (w : Network) (rv : RouterView) (nv : ℕ → NodeView) : Prop where
  router : w.Knows rv
  nodes : ∀ i < w.count, (w.dealers i).Knows w.terminated (nv i)
  outbox : ∀ i < w.count, ∀ m ∈ (w.dealers i).outbox, m.frames = [m.record.dest, m.record.data]
  inbox : ∀ j < w.count, ∀ m ∈ (w.dealers j).inbox,
    m.frames = [m.record.senderName, m.record.data] ∧ m.record.dest = (w.dealers j).name
  held : ∀ j < w.count, ∀ m ∈ (nv j).held, m.dest = (w.dealers j).name
  target : rv.dead = false → ∀ j, w.router.target = some (some j) →
    j < w.count ∧ ∀ m ∈ rv.held, m.dest = (w.dealers j).name
  handed : ∀ h ∈ w.handed, w.Genuine h
  names : ∀ i < w.count, (w.dealers i).name ≠ []
  log : w.sent.map SendRecord.seq = List.range w.sent.length
  senders : ∀ m ∈ w.sent, m.sender < w.count ∧ m.senderName = (w.dealers m.sender).name
  ordered : (w.relay rv nv).Ordered SendRecord.sender SendRecord.seq (· ∈ w.sent)

structure Threads (w : Network) (rv : RouterView) (nv : ℕ → NodeView) : Prop where
  main : ∀ p, w.thread = some p → p.Safe routerContract RouterView.Ended rv
  node : ∀ i < w.count, ∀ p, (w.dealers i).thread = some p → p.Safe nodeContract NodeView.Ended (nv i)
  idle : ∀ i < w.count, (w.dealers i).thread = none → (nv i).Idle

def Inv (w : Network) : Prop := ∃ rv nv, w.Sound rv nv ∧ w.Threads rv nv

/-! ## One socket changes -/

/-- What holds of a DEALER that changes, and of the others, holds of every DEALER. -/
theorem forall_update (w : Network) (nv : ℕ → NodeView) {P : ℕ → Dealer → NodeView → Prop} {n : ℕ}
    (hself : P i d v) (hother : ∀ k < n, k ≠ i → P k (w.dealers k) (nv k)) :
    ∀ k < n, P k (Function.update w.dealers i d k) (Function.update nv i v k) := by
  intro k hk
  by_cases hki : k = i
  · subst hki
    rwa [Function.update_self, Function.update_self]
  · rw [Function.update_of_ne hki, Function.update_of_ne hki]
    exact hother k hk hki

/-- **One DEALER changes**, and the ROUTER. The other sockets are as they were. -/
theorem Sound.change (h : w.Sound rv nv)
    (hdealers : w'.dealers = Function.update w.dealers i d) (hcount : w'.count = w.count)
    (hsent : w'.sent = w.sent) (hterm : w'.terminated = w.terminated)
    (hrouter : w'.Knows rv')
    (htarget : rv'.dead = false → ∀ j, w'.router.target = some (some j) →
      j < w.count ∧ ∀ m ∈ rv'.held, m.dest = (w.dealers j).name)
    (hname : d.name = (w.dealers i).name) (hknows : d.Knows w.terminated v)
    (hout : ∀ m ∈ d.outbox, m.frames = [m.record.dest, m.record.data])
    (hin : ∀ m ∈ d.inbox,
      m.frames = [m.record.senderName, m.record.data] ∧ m.record.dest = (w.dealers i).name)
    (hheld : ∀ m ∈ v.held, m.dest = (w.dealers i).name)
    (hhanded : ∀ x ∈ w'.handed, w.Genuine x)
    (hordered : (w'.relay rv' (Function.update nv i v)).Ordered SendRecord.sender SendRecord.seq
      (· ∈ w.sent)) :
    w'.Sound rv' (Function.update nv i v) := by
  -- no node changes its name
  have hnames : ∀ k, (w'.dealers k).name = (w.dealers k).name := by
    intro k
    rw [hdealers]
    by_cases hk : k = i
    · rw [hk, Function.update_self, hname]
    · rw [Function.update_of_ne hk]
  constructor
  case router => exact hrouter
  case nodes =>
    rw [hcount, hterm, hdealers]
    exact forall_update w nv (P := fun _ d v => d.Knows w.terminated v) hknows fun k hk _ => h.nodes k hk
  case outbox =>
    rw [hcount, hdealers]
    exact forall_update w nv (v := v) (P := fun _ d _ => ∀ m ∈ d.outbox, m.frames = [m.record.dest,
      m.record.data]) hout fun k hk _ => h.outbox k hk
  case inbox =>
    intro k
    rw [hcount, hnames, hdealers]
    exact forall_update w nv (v := v) (P := fun k d _ => ∀ m ∈ d.inbox,
      m.frames = [m.record.senderName, m.record.data] ∧ m.record.dest = (w.dealers k).name)
      hin (fun k hk _ => h.inbox k hk) k
  case held =>
    intro k
    rw [hcount, hnames]
    exact forall_update w nv (d := d) (P := fun k _ v => ∀ m ∈ v.held, m.dest = (w.dealers k).name) hheld
      (fun k hk _ => h.held k hk) k
  case target =>
    intro hd k hk
    rw [hcount, hnames]
    exact htarget hd k hk
  case handed =>
    intro x hx
    have hg := hhanded x hx
    unfold Genuine at hg ⊢
    rw [hcount, hnames]
    exact hg
  case names =>
    intro k hk
    rw [hcount] at hk
    rw [hnames]
    exact h.names k hk
  case log => rw [hsent]; exact h.log
  case senders =>
    intro m hm
    rw [hsent] at hm
    rw [hcount, hnames]
    exact h.senders m hm
  case ordered => rw [hsent]; exact hordered

/-- The queues after a change of one DEALER, compared with queues that are known to be in
order. -/
theorem relay_ordered {P : SendRecord → Prop} {q : Relay ℕ ℕ SendRecord}
    (hq : q.Ordered SendRecord.sender SendRecord.seq P)
    (hdealers : w'.dealers = Function.update w.dealers i d) (hhanded : w'.handed = w.handed)
    (hout : ∀ k, k ≠ i → q.out k = (w.relay rv nv).out k)
    (hself : (d.outbox.map Message.record ++ v.pending.toList).Sublist (q.out i))
    (hheld : rv'.held.toList.Sublist q.held.toList)
    (hinto : ∀ k, k ≠ i → q.into k = (w.relay rv nv).into k)
    (hselfInto : ((w.handed.filter (·.receiver = i)).map Handed.record ++
      (v.held.toList ++ d.inbox.map Message.record)).Sublist (q.into i)) :
    (w'.relay rv' (Function.update nv i v)).Ordered SendRecord.sender SendRecord.seq P := by
  refine hq.lose ?_ hheld ?_
  · intro k
    by_cases hk : k = i
    · subst hk
      simpa only [relay, hdealers, Function.update_self] using hself
    · rw [hout k hk]
      simp only [relay, hdealers, Function.update_of_ne hk]
      exact List.Sublist.refl _
  · intro k
    by_cases hk : k = i
    · subst hk
      simpa only [relay, hdealers, hhanded, Function.update_self, List.append_assoc] using hselfInto
    · rw [hinto k hk]
      simp only [relay, hdealers, hhanded, Function.update_of_ne hk]
      exact List.Sublist.refl _

/-- One DEALER changes, and what is lost of its queues is the only change to them. -/
theorem Sound.dealer (h : w.Sound rv nv) (hi : i < w.count) (hname : d.name = (w.dealers i).name)
    (hknows : d.Knows w.terminated v)
    (hout : ∀ m ∈ d.outbox, m.frames = [m.record.dest, m.record.data])
    (hin : ∀ m ∈ d.inbox, m ∈ (w.dealers i).inbox)
    (hheld : ∀ m ∈ v.held, m.dest = (w.dealers i).name)
    (houts : (d.outbox.map Message.record ++ v.pending.toList).Sublist
      ((w.dealers i).outbox.map Message.record ++ (nv i).pending.toList))
    (hintos : (v.held.toList ++ d.inbox.map Message.record).Sublist
      ((nv i).held.toList ++ (w.dealers i).inbox.map Message.record)) :
    (w.setDealer i d).Sound rv (Function.update nv i v) := by
  refine h.change rfl rfl rfl rfl ⟨h.router.dead, h.router.receiving, h.router.target,
    h.router.sending, h.router.held⟩ h.target hname hknows hout
    (fun m hm => h.inbox i hi m (hin m hm)) hheld h.handed ?_
  refine relay_ordered h.ordered rfl rfl (fun _ _ => rfl) houts (List.Sublist.refl _) (fun _ _ => rfl) ?_
  simpa only [relay, List.append_assoc] using hintos.append_left _

/-- Only what no queue depends on changes. -/
theorem Sound.same (h : w.Sound rv nv) (hi : i < w.count) (hname : d.name = (w.dealers i).name)
    (hsending : d.sending = (w.dealers i).sending) (hreceiving : d.receiving = (w.dealers i).receiving)
    (hrecord : d.record = (w.dealers i).record) (hcurrent : d.current = (w.dealers i).current)
    (hout : d.outbox = (w.dealers i).outbox ∨ d.outbox = []) (hin : d.inbox = (w.dealers i).inbox) :
    (w.setDealer i d).Sound rv nv := by
  have hk := h.nodes i hi
  have hd : (w.setDealer i d).Sound rv (Function.update nv i (nv i)) := by
    refine h.dealer hi hname ⟨hk.dead, ?_, ?_, ?_, ?_⟩ ?_ ?_
      (h.held i hi) ?_ ?_
    · intro hd
      rw [hreceiving]; exact hk.receiving hd
    · intro hd
      rw [hsending]; exact hk.sending hd
    · rw [hrecord]; exact hk.pending
    · rw [hcurrent]; exact hk.held
    · rcases hout with ho | ho
      · rw [ho]; exact h.outbox i hi
      · rw [ho]; intro m hm; cases hm
    · intro m hm
      rw [← hin]; exact hm
    · rcases hout with ho | ho
      · rw [ho]
      · rw [ho]; exact List.sublist_append_right _ _
    · rw [hin]
  rwa [Function.update_eq_self] at hd

/-! ## The nodes -/

end Network

namespace Dealer

variable {t : Bool} {p : Zmq ℤ}

@[simp] theorem resume_name : (d.resume p).name = d.name := by cases p <;> rfl

@[simp] theorem resume_sending : (d.resume p).sending = d.sending := by cases p <;> rfl

@[simp] theorem resume_receiving : (d.resume p).receiving = d.receiving := by cases p <;> rfl

@[simp] theorem resume_outbox : (d.resume p).outbox = d.outbox := by cases p <;> rfl

@[simp] theorem resume_inbox : (d.resume p).inbox = d.inbox := by cases p <;> rfl

@[simp] theorem resume_record : (d.resume p).record = d.record := by cases p <;> rfl

@[simp] theorem resume_current : (d.resume p).current = d.current := by cases p <;> rfl

/-- A thread that goes on keeps its contract, and is idle when its function returned. -/
theorem resume_threads (h : p.Safe nodeContract NodeView.Ended v) :
    (∀ p', (d.resume p).thread = some p' → p'.Safe nodeContract NodeView.Ended v) ∧
      ((d.resume p).thread = none → v.Idle) := by
  cases p with
  | done r => exact ⟨fun p' hp => (by cases hp), fun _ => h⟩
  | call c k => exact ⟨fun p' hp => (by cases hp; exact h), fun hp => (by cases hp)⟩

theorem Knows.of_eq (h : d.Knows t v) (hreceiving : d'.receiving = d.receiving)
    (hsending : d'.sending = d.sending) (hrecord : d'.record = d.record)
    (hcurrent : d'.current = d.current) : d'.Knows t v := by
  refine ⟨h.dead, ?_, ?_, ?_, ?_⟩
  · rw [hreceiving]; exact h.receiving
  · rw [hsending]; exact h.sending
  · rw [hrecord]; exact h.pending
  · rw [hcurrent]; exact h.held

theorem Knows.resume (h : d.Knows t v) : (d.resume p).Knows t v :=
  h.of_eq resume_receiving resume_sending resume_record resume_current

theorem Knows.die (h : d.Knows t v) (ht : t = true) : d.Knows t { v with dead := true } :=
  ⟨fun _ => ht, fun hd => (by cases hd), fun hd => (by cases hd), h.pending, h.held⟩

theorem Knows.alive (h : d.Knows false v) : v.dead = false := by
  by_contra hd
  have := h.dead (by simpa using hd)
  cases this

/-- What `zmq_send` does to the queue in front of the router: nothing, unless the send is
complete. -/
theorem zmqSend_spec (h : d.Knows t v) {data : Frame} {more : Bool}
    (hpre : nodeContract.pre (.send data more) v) :
    ∃ v', v.Sent data more (d.zmqSend t data more).1 v' ∧ (d.zmqSend t data more).2.Knows t v' ∧
      (d.zmqSend t data more).2.name = d.name ∧ (d.zmqSend t data more).2.inbox = d.inbox ∧
      v'.held = v.held ∧
      (d.zmqSend t data more).2.outbox.map Message.record ++ v'.pending.toList =
        d.outbox.map Message.record ++ v.pending.toList ∧
      ∀ m ∈ (d.zmqSend t data more).2.outbox, m ∈ d.outbox ∨ m.frames = [m.record.dest, m.record.data] := by
  cases t with
  | true =>
    exact ⟨{ v with dead := true }, .inl ⟨rfl, rfl⟩, h.die rfl, rfl, rfl, rfl, rfl, fun m hm => .inl hm⟩
  | false =>
    have hd := h.alive
    obtain ⟨m, hm, hnext⟩ := hpre.resolve_left (by rw [hd]; decide)
    obtain rfl := h.pending m hm
    have hsending := h.sending hd
    refine ⟨v.sent data more, .inr ⟨hd, ?_⟩, ?_⟩
    · cases more <;> exact ⟨rfl, rfl⟩
    rcases hnext with ⟨hs, -, rfl⟩ | ⟨hs, rfl, rfl⟩
    · -- the destination
      refine ⟨⟨h.dead, h.receiving, ?_, h.pending, h.held⟩, rfl, rfl, rfl, rfl, fun m hm => .inl hm⟩
      intro _
      show v.sending ++ [data] = d.sending ++ [data]
      rw [hsending]
    · -- the data: the message is complete
      refine ⟨⟨h.dead, h.receiving, fun _ => rfl, fun m hm => (by cases hm), h.held⟩, rfl, rfl, rfl, ?_, ?_⟩
      · show (d.outbox ++ [_]).map Message.record ++ [] = _
        rw [List.map_append, hm, List.append_nil]
        rfl
      · intro m hm
        rcases List.mem_append.1 hm with hm | hm
        · exact .inl hm
        · obtain rfl := List.mem_singleton.1 hm
          refine .inr ?_
          show d.sending ++ [d.record.data] = [d.record.dest, d.record.data]
          rw [← hsending, hs]
          rfl

/-- What `zmq_msg_recv` does to the queue behind the router: the message that was received
before is over, and the first of the queue takes its place. -/
theorem msgRecv_spec (h : d.Knows t v) (ready : Bool)
    (hin : ∀ m ∈ d.inbox, m.frames = [m.record.senderName, m.record.data] ∧ m.record.senderName ≠ []) :
    ∃ v', v.Received (d.msgRecv t ready).1 v' ∧ (d.msgRecv t ready).2.Knows t v' ∧
      (d.msgRecv t ready).2.name = d.name ∧ (d.msgRecv t ready).2.outbox = d.outbox ∧
      v'.pending = v.pending ∧ (∀ m ∈ (d.msgRecv t ready).2.inbox, m ∈ d.inbox) ∧
      (∀ m ∈ v'.held, m ∈ v.held ∨ ∃ n ∈ d.inbox, n.record = m) ∧
      (v'.held.toList ++ (d.msgRecv t ready).2.inbox.map Message.record).Sublist
        (v.held.toList ++ d.inbox.map Message.record) := by
  cases t with
  | true =>
    exact ⟨{ v with dead := true }, .inl ⟨rfl, rfl⟩, h.die rfl, rfl, rfl, rfl, fun m hm => hm,
      fun m hm => .inl hm, List.Sublist.refl _⟩
  | false =>
    have hd := h.alive
    have hreceiving := h.receiving hd
    unfold msgRecv
    rw [if_neg Bool.false_ne_true]
    split
    · rename_i part rest hr
      rw [hr] at hreceiving
      exact ⟨{ v with receiving := rest }, .inr (.inl ⟨hd, part, rest, hreceiving, rfl, rfl⟩),
        ⟨h.dead, fun _ => rfl, h.sending, h.pending, h.held⟩, rfl, rfl, rfl, fun m hm => hm,
        fun m hm => .inl hm, List.Sublist.refl _⟩
    · rename_i hr
      rw [hr] at hreceiving
      have hnothing : v.Received none v := .inr (.inr (.inl ⟨hd, hreceiving, rfl, rfl⟩))
      split
      · exact ⟨v, hnothing, h, rfl, rfl, rfl, fun m hm => hm, fun m hm => .inl hm, List.Sublist.refl _⟩
      split
      · rename_i hnil
        exact ⟨v, hnothing, h, rfl, rfl, rfl, fun m hm => hm, fun m hm => .inl hm, List.Sublist.refl _⟩
      · rename_i m ms hbox
        obtain ⟨hframes, hname⟩ := hin m (by rw [hbox]; exact List.mem_cons_self)
        refine ⟨{ v with receiving := [m.record.data], held := some m.record },
          .inr (.inr (.inr ⟨hd, hreceiving, m.record, hname, ?_, rfl⟩)),
          ⟨h.dead, ?_, h.sending, h.pending, ?_⟩, rfl, rfl, rfl, ?_, ?_, ?_⟩
        · rw [hframes]
          rfl
        · intro _
          show [m.record.data] = m.frames.tail
          rw [hframes]
          rfl
        · intro n hn
          exact Option.some.inj hn
        · intro n hn
          rw [hbox]
          exact List.mem_cons_of_mem m hn
        · intro n hn
          refine .inr ⟨m, ?_, Option.some.inj hn⟩
          rw [hbox]
          exact List.mem_cons_self
        · rw [hbox]
          exact List.sublist_append_right _ _

end Dealer

namespace Network

theorem Sound.of_eq (h : w.Sound rv nv) (hdealers : w'.dealers = w.dealers)
    (hcount : w'.count = w.count)
    (hrouter : w'.router = w.router) (hcurrent : w'.current = w.current)
    (hterm : w'.terminated = w.terminated) (hsent : w'.sent = w.sent) (hhanded : w'.handed = w.handed) :
    w'.Sound rv nv := by
  cases w
  cases w'
  cases hdealers
  cases hcount
  cases hrouter
  cases hcurrent
  cases hterm
  cases hsent
  cases hhanded
  exact ⟨⟨h.router.dead, h.router.receiving, h.router.target, h.router.sending, h.router.held⟩,
    h.nodes, h.outbox, h.inbox, h.held, h.target, h.handed, h.names, h.log, h.senders, h.ordered⟩

/-- What is in a queue behind the router came from a node with a name. -/
theorem Sound.inbox_named (h : w.Sound rv nv) (hj : j < w.count) :
    ∀ m ∈ (w.dealers j).inbox, m.frames = [m.record.senderName, m.record.data] ∧
      m.record.senderName ≠ [] := by
  intro m hm
  refine ⟨(h.inbox j hj m hm).1, ?_⟩
  have hin : m.record ∈ (w.relay rv nv).into j :=
    List.mem_append_right _ (List.mem_map_of_mem hm)
  obtain ⟨hlt, hname⟩ := h.senders _ (h.ordered.into_known hin)
  rw [hname]
  exact h.names _ hlt

theorem Threads.setDealer (h : w.Threads rv nv)
    (hd : (∀ p, d.thread = some p → p.Safe nodeContract NodeView.Ended v) ∧ (d.thread = none → v.Idle)) :
    (w.setDealer i d).Threads rv (Function.update nv i v) := by
  refine ⟨h.main, ?_, ?_⟩
  · exact forall_update w nv
      (P := fun _ d v => ∀ p, d.thread = some p → p.Safe nodeContract NodeView.Ended v) hd.1
      fun k hk _ => h.node k hk
  · exact forall_update w nv (P := fun _ d v => d.thread = none → v.Idle) hd.2 fun k hk _ => h.idle k hk

/-- A message is handed over: it leaves the hands of the thread for the log. -/
theorem Sound.hand (h : w.Sound rv nv) (hi : i < w.count) {m : SendRecord} (hm : (nv i).held = some m)
    (p : Zmq ℤ) :
    Sound { w.setDealer i ((w.dealers i).resume p) with
      handed := w.handed ++ [⟨i, m.senderName, m.data, (w.dealers i).current⟩] } rv
        (Function.update nv i { nv i with held := none }) := by
  have hk := h.nodes i hi
  obtain rfl := hk.held m hm
  refine h.change rfl rfl rfl rfl ⟨h.router.dead, h.router.receiving, h.router.target,
    h.router.sending, h.router.held⟩ h.target Dealer.resume_name ?_ ?_ ?_ (fun n hn => by cases hn) ?_ ?_
  · exact Dealer.Knows.resume ⟨hk.dead, hk.receiving, hk.sending, hk.pending, fun n hn => (by cases hn)⟩
  · rw [Dealer.resume_outbox]
    exact h.outbox i hi
  · rw [Dealer.resume_inbox]
    exact h.inbox i hi
  · intro x hx
    rcases List.mem_append.1 hx with hx | hx
    · exact h.handed x hx
    · obtain rfl := List.mem_singleton.1 hx
      exact ⟨hi, rfl, rfl, h.held i hi _ hm⟩
  · refine h.ordered.lose ?_ (List.Sublist.refl _) ?_
    · intro k
      by_cases hki : k = i
      · subst hki
        simp only [relay, Network.setDealer, Function.update_self, Dealer.resume_outbox]
        exact List.Sublist.refl _
      · simp only [relay, Network.setDealer, Function.update_of_ne hki]
        exact List.Sublist.refl _
    · intro k
      by_cases hki : k = i
      · subst hki
        simp only [relay, Network.setDealer, Function.update_self, Dealer.resume_inbox, hm,
          List.filter_append, List.map_append, Option.toList_none, Option.toList_some, List.append_nil]
        simp
      · simp only [relay, Network.setDealer, Function.update_of_ne hki, List.filter_append,
          List.map_append]
        simp [Ne.symm hki]

/-- **A call of a node** keeps the invariant. -/
theorem inv_node (h : w.Inv) (hi : i < w.count) (ready : Bool) (ret : ℤ) :
    (w.nodeStep i ready ret).Inv := by
  obtain ⟨rv, nv, hs, ht⟩ := h
  have hk := hs.nodes i hi
  unfold nodeStep
  split
  · rename_i data more k hthread
    obtain ⟨hpre, hcont⟩ := ht.node i hi _ hthread
    obtain ⟨v', hpost, hknows, hname, hinbox, hheld, hq, hframes⟩ := Dealer.zmqSend_spec hk hpre
    refine ⟨rv, Function.update nv i v', hs.dealer hi ?_ hknows.resume ?_ ?_ ?_ ?_ ?_,
      ht.setDealer (Dealer.resume_threads (hcont _ _ hpost))⟩
    · rw [Dealer.resume_name, hname]
    · intro m hm
      rw [Dealer.resume_outbox] at hm
      exact (hframes m hm).elim (hs.outbox i hi m) id
    · intro m hm
      rwa [Dealer.resume_inbox, hinbox] at hm
    · rw [hheld]
      exact hs.held i hi
    · rw [Dealer.resume_outbox, hq]
    · rw [Dealer.resume_inbox, hinbox, hheld]
  · rename_i dontwait k hthread
    obtain ⟨-, hcont⟩ := ht.node i hi _ hthread
    obtain ⟨v', hpost, hknows, hname, hout, hpending, hinbox, hheld, hq⟩ :=
      Dealer.msgRecv_spec hk ready (hs.inbox_named hi)
    refine ⟨rv, Function.update nv i v', hs.dealer hi ?_ hknows.resume ?_ ?_ ?_ ?_ ?_,
      ht.setDealer (Dealer.resume_threads (hcont _ _ hpost))⟩
    · rw [Dealer.resume_name, hname]
    · rw [Dealer.resume_outbox, hout]
      exact hs.outbox i hi
    · rw [Dealer.resume_inbox]
      exact hinbox
    · intro m hm
      rcases hheld m hm with hm | ⟨n, hn, rfl⟩
      · exact hs.held i hi m hm
      · exact (hs.inbox i hi n hn).2
    · rw [Dealer.resume_outbox, hout, hpending]
    · rw [Dealer.resume_inbox]
      exact hq
  · rename_i name data k hthread
    obtain ⟨⟨m, hm, rfl, rfl⟩, hcont⟩ := ht.node i hi _ hthread
    have hth := ht.setDealer (i := i) (Dealer.resume_threads (d := w.dealers i) (hcont ret _ rfl))
    exact ⟨rv, _, hs.hand hi hm _, hth.main, hth.node, hth.idle⟩
  · exact ⟨rv, nv, hs.of_eq rfl rfl rfl rfl rfl rfl rfl, ht.main, ht.node, ht.idle⟩
  · exact ⟨rv, nv, hs, ht⟩

/-! ## The router -/

/-- The threads of nodes are where they were. -/
def SameThreads (w w' : Network) : Prop :=
  w'.count = w.count ∧ ∀ j, (w'.dealers j).thread = (w.dealers j).thread

theorem SameThreads.refl (w : Network) : SameThreads w w := ⟨rfl, fun _ => rfl⟩

theorem SameThreads.change (hcount : w'.count = w.count)
    (hdealers : w'.dealers = Function.update w.dealers j d) (hd : d.thread = (w.dealers j).thread) :
    SameThreads w w' := by
  refine ⟨hcount, ?_⟩
  intro k
  rw [hdealers]
  by_cases hk : k = j
  · subst hk
    rw [Function.update_self, hd]
  · rw [Function.update_of_ne hk]

/-- The main thread goes on, and starts over when `dispatch_message` returned. -/
theorem inv_resumeRouter (hs : w'.Sound rv nv) (ht : w.Threads rv' nv) (hsame : SameThreads w w')
    {p : Zmq ℤ} (hp : p.Safe routerContract RouterView.Ended rv) : (w'.resumeRouter p).Inv := by
  obtain ⟨hcount, hthreads⟩ := hsame
  refine ⟨rv, nv, ?_, ?_⟩
  · cases p <;> exact hs.of_eq rfl rfl rfl rfl rfl rfl rfl
  · have hnode : ∀ i < w'.count, ∀ p, (w'.dealers i).thread = some p →
        p.Safe nodeContract NodeView.Ended (nv i) := by
      intro i hi p hthread
      rw [hthreads] at hthread
      exact ht.node i (hcount ▸ hi) p hthread
    have hidle : ∀ i < w'.count, (w'.dealers i).thread = none → (nv i).Idle := by
      intro i hi hthread
      rw [hthreads] at hthread
      exact ht.idle i (hcount ▸ hi) hthread
    cases p with
    | done r =>
      refine ⟨?_, hnode, hidle⟩
      intro p' hp'
      simp only [resumeRouter] at hp'
      split at hp'
      · cases hp'
      · rename_i hr
        cases hp'
        exact dispatchMessage_safe (hp.resolve_left hr)
    | call c k =>
      refine ⟨?_, hnode, hidle⟩
      intro p' hp'
      cases hp'
      exact hp

theorem Knows.alive {w : Network} (h : w.Knows rv) (ht : w.terminated = false) : rv.dead = false := by
  by_contra hd
  have := h.dead (by simpa using hd)
  rw [ht] at this
  cases this

/-- A call that fails because the context is terminated. -/
theorem Sound.die (h : w.Sound rv nv) (ht : w.terminated = true) :
    w.Sound { rv with dead := true } nv :=
  ⟨⟨fun _ => ht, fun hd => (by cases hd), fun hd => (by cases hd), fun hd => (by cases hd), h.router.held⟩,
    h.nodes, h.outbox, h.inbox, h.held, fun hd => (by cases hd), h.handed, h.names, h.log, h.senders,
    h.ordered⟩

/-- A destination that is found has the name that was asked for. -/
theorem lookup_name {full : Bool} {name : Frame} (h : w.lookup full name = some j) :
    j < w.count ∧ (w.dealers j).name = name := by
  unfold lookup at h
  split at h
  · cases h
  · refine ⟨List.mem_range.1 (List.mem_of_find?_eq_some h), ?_⟩
    have hj := List.find?_some h
    simp only [decide_eq_true_eq] at hj
    exact hj.2

/-- Only the ROUTER changes. -/
theorem Sound.routed (h : w.Sound rv nv) {s : RouterSocket ℕ} (hheld : rv'.held = rv.held)
    (hknows : Knows { w with router := s } rv')
    (htarget : rv'.dead = false → ∀ j, s.target = some (some j) →
      j < w.count ∧ ∀ m ∈ rv.held, m.dest = (w.dealers j).name) :
    Sound { w with router := s } rv' nv := by
  refine ⟨hknows, h.nodes, h.outbox, h.inbox, h.held, ?_, h.handed, h.names, h.log, h.senders, ?_⟩
  · rw [hheld]
    exact htarget
  · have hrelay : relay { w with router := s } rv' nv = w.relay rv nv := by
      simp only [relay, hheld]
    rw [hrelay]
    exact h.ordered

/-- The view of the main thread after the last frame of a message. -/
def RouterDone (rv : RouterView) :
    RouterView := { rv with target := false, sending := [], held := none }

/-- **The last frame goes nowhere**: the message is dropped. -/
theorem Sound.dropped (h : w.Sound rv nv) :
    Sound { w with router := ⟨w.router.receiving, none, []⟩ } (RouterDone rv) nv := by
  refine ⟨⟨h.router.dead, h.router.receiving, fun _ => rfl, fun _ => rfl, fun n hn => (by cases hn)⟩,
    h.nodes, h.outbox, h.inbox, h.held, fun _ k hk => (by cases hk), h.handed, h.names, h.log, h.senders, ?_⟩
  exact h.ordered.lose (fun _ => List.Sublist.refl _) (List.nil_sublist _) fun _ => List.Sublist.refl _

/-- **The last frame goes out**: the message leaves the hands of the router, for the queue of
its destination. -/
theorem Sound.delivered (h : w.Sound rv nv) (hd : rv.dead = false) {m : SendRecord}
    (hm : rv.held = some m) (hpeer : w.router.target = some (some j)) :
    Sound (deliver { w with router := ⟨w.router.receiving, none, []⟩ } (some (j, [m.senderName, m.data])))
      (RouterDone rv) nv := by
  obtain rfl := h.router.held m hm
  obtain ⟨hj, hdest⟩ := h.target hd j hpeer
  rw [← Function.update_eq_self j nv]
  refine h.change rfl rfl rfl rfl
    ⟨h.router.dead, h.router.receiving, fun _ => rfl, fun _ => rfl, fun n hn => (by cases hn)⟩
    (fun _ k hk => (by cases hk)) rfl ((h.nodes j hj).of_eq rfl rfl rfl rfl) (h.outbox j hj) ?_
    (h.held j hj) h.handed ?_
  · intro n hn
    rcases List.mem_append.1 hn with hn | hn
    · exact h.inbox j hj n hn
    · obtain rfl := List.mem_singleton.1 hn
      exact ⟨rfl, hdest _ hm⟩
  · refine relay_ordered (h.ordered.deliver hm j) rfl rfl (fun _ _ => rfl) (List.Sublist.refl _)
      (List.Sublist.refl _) (fun k hk => Function.update_of_ne hk _ _) ?_
    simp only [Relay.deliver, Function.update_self, relay, List.map_append, List.append_assoc]
    exact List.Sublist.refl _

/-- **A send on the ROUTER**, of the next frame of the message in hand. -/
theorem routerSend_spec (h : w.Sound rv nv) (full : Bool) {data : Frame} {more : Bool}
    (hpre : routerContract.pre (.send data more) rv) :
    ∃ rv', rv.Sent data more (w.routerSend full data more).1 rv' ∧
      (w.routerSend full data more).2.Sound rv' nv ∧ SameThreads w (w.routerSend full data more).2 := by
  by_cases hterm : w.terminated = true
  · simp only [routerSend, hterm, if_true]
    exact ⟨{ rv with dead := true }, .inl ⟨rfl, rfl⟩, h.die hterm, SameThreads.refl w⟩
  have hterm' : w.terminated = false := by simpa using hterm
  have hd := h.router.alive hterm'
  obtain ⟨m, hm, hnext⟩ := hpre.resolve_left (by rw [hd]; decide)
  have htarget := h.router.target hd
  have hsending := h.router.sending hd
  have heq : w.routerSend full data more = ((w.router.send false (w.lookup full) data more).1,
      deliver { w with router := (w.router.send false (w.lookup full) data more).2.1 }
        (w.router.send false (w.lookup full) data more).2.2) := by
    rw [routerSend, if_neg hterm]
  rcases hnext with ⟨ht, -, rfl, rfl⟩ | ⟨ht, hs, rfl, rfl⟩ | ⟨ht, hs, rfl, rfl⟩
  · -- the destination
    have hnone : w.router.target = none := by
      rw [ht] at htarget
      simpa using htarget.symm
    rw [heq, RouterSocket.send_destination hnone (by simp)]
    refine ⟨rv.sent m.dest true, .inr ⟨hd, rfl, rfl⟩, ?_, SameThreads.refl w⟩
    rw [RouterView.sent, if_pos ht]
    refine h.routed rfl ⟨h.router.dead, h.router.receiving, fun _ => rfl, h.router.sending,
      h.router.held⟩ ?_
    intro _ j hj
    obtain ⟨hlt, hname⟩ := lookup_name (Option.some.inj hj)
    refine ⟨hlt, ?_⟩
    intro n hn
    rw [Option.mem_def, hm] at hn
    cases hn
    exact hname.symm
  all_goals
    obtain ⟨peer, hpeer⟩ : ∃ peer, w.router.target = some peer :=
      Option.isSome_iff_exists.1 (htarget ▸ ht)
    have hnot : ¬ rv.target = false := by
      rw [ht]
      decide
  · -- the identity of the sender
    rw [heq, RouterSocket.send_part hpeer]
    refine ⟨rv.sent m.senderName true, .inr ⟨hd, rfl, rfl⟩, ?_, SameThreads.refl w⟩
    rw [RouterView.sent, if_neg hnot, if_pos rfl]
    refine h.routed rfl ⟨h.router.dead, h.router.receiving, ?_, ?_,
      h.router.held⟩ ?_
    · intro _
      exact ht
    · intro _
      show rv.sending ++ _ = w.router.sending ++ _
      rw [hsending]
    · intro _ j hj
      rw [← hpeer] at hj
      exact h.target hd j hj
  · -- the data
    rw [hsending] at hs
    rw [heq, RouterSocket.send_last hpeer, hs]
    refine ⟨rv.sent m.data false, .inr ⟨hd, rfl, rfl⟩, ?_⟩
    rw [RouterView.sent, if_neg hnot, if_neg Bool.false_ne_true]
    cases peer with
    | none => exact ⟨h.dropped, SameThreads.refl w⟩
    | some j => exact ⟨h.delivered hd hm hpeer, SameThreads.change rfl rfl rfl⟩

/-- The sends in front of the router are those of the node they lie with. -/
theorem Sound.outbox_sender (h : w.Sound rv nv) {m : Message} (hm : m ∈ (w.dealers i).outbox) :
    m.record.senderName = (w.dealers i).name := by
  have hout : m.record ∈ (w.relay rv nv).out i := List.mem_append_left _ (List.mem_map_of_mem hm)
  obtain ⟨-, hname⟩ := h.senders _ (h.ordered.out_known 0 hout)
  rw [hname, h.ordered.own i _ hout]

/-- **A receive on the ROUTER**: with a new message, the one before it is over. -/
theorem routerRecv_spec (h : w.Sound rv nv) {source : Option ℕ}
    (hsource : ∀ i, source = some i → i < w.count) (ht : rv.target = false) :
    ∃ rv', rv.Received (w.routerRecv source).1 rv' ∧ (w.routerRecv source).2.Sound rv' nv ∧
      SameThreads w (w.routerRecv source).2 := by
  unfold routerRecv
  by_cases hterm : w.terminated = true
  · rw [if_pos hterm]
    exact ⟨{ rv with dead := true }, .inl ⟨rfl, rfl⟩, h.die hterm, SameThreads.refl w⟩
  rw [if_neg hterm]
  have hd := h.router.alive (by simpa using hterm)
  have hreceiving := h.router.receiving hd
  split
  · rename_i part rest hr
    rw [hr] at hreceiving
    refine ⟨{ rv with receiving := rest }, .inr (.inl ⟨hd, part, rest, hreceiving, rfl, rfl⟩), ?_,
      SameThreads.refl w⟩
    exact h.routed rfl ⟨h.router.dead, fun _ => rfl, h.router.target, h.router.sending, h.router.held⟩
      h.target
  rename_i hr
  rw [hr] at hreceiving
  have hnothing : rv.Received none rv := .inr (.inr (.inl ⟨hd, hreceiving, rfl, rfl⟩))
  split
  · exact ⟨rv, hnothing, h, SameThreads.refl w⟩
  rename_i i
  have hi := hsource i rfl
  have hk := h.nodes i hi
  split
  · exact ⟨rv, hnothing, h, SameThreads.refl w⟩
  rename_i m ms hbox
  have hin : m ∈ (w.dealers i).outbox := by rw [hbox]; exact List.mem_cons_self
  have hframes := h.outbox i hi m hin
  refine ⟨{ rv with receiving := [m.record.dest, m.record.data], held := some m.record },
    .inr (.inr (.inr ⟨hd, hreceiving, m.record, ?_, rfl⟩)), ?_, SameThreads.change rfl rfl rfl⟩
  · rw [h.outbox_sender hin]
  · rw [← Function.update_eq_self i nv]
    refine h.change rfl rfl rfl rfl ⟨h.router.dead, ?_, h.router.target, h.router.sending,
      fun n hn => Option.some.inj hn⟩ ?_ rfl (hk.of_eq rfl rfl rfl rfl)
      ?_ (h.inbox i hi) (h.held i hi) h.handed ?_
    · intro _
      exact hframes.symm
    · intro _ j hj
      -- no destination was sent yet
      have htarget := h.router.target hd
      rw [ht] at htarget
      change w.router.target = some (some j) at hj
      rw [hj] at htarget
      cases htarget
    · intro n hn
      exact h.outbox i hi n (by rw [hbox]; exact List.mem_cons_of_mem m hn)
    · have hout : (w.relay rv nv).out i = m.record :: (ms.map Message.record ++ (nv i).pending.toList) := by
        simp only [relay, hbox, List.map_cons, List.cons_append]
      refine relay_ordered (h.ordered.take hout) rfl rfl (fun k hk => Function.update_of_ne hk _ _) ?_
        (List.Sublist.refl _) (fun _ _ => rfl) ?_
      · simp only [Relay.take, Function.update_self]
        exact List.Sublist.refl _
      · simp only [Relay.take, relay, List.append_assoc]
        exact List.Sublist.refl _

/-- **A call of the main thread** keeps the invariant. -/
theorem inv_route (h : w.Inv) {source : Option ℕ} (hsource : ∀ i, source = some i → i < w.count)
    (full : Bool) : (w.routerStep source full).Inv := by
  obtain ⟨rv, nv, hs, ht⟩ := h
  unfold routerStep
  split
  · rename_i data more k hthread
    obtain ⟨hpre, hcont⟩ := ht.main _ hthread
    obtain ⟨rv', hpost, hsound, hsame⟩ := routerSend_spec hs full hpre
    exact inv_resumeRouter hsound ht hsame (hcont _ _ hpost)
  · rename_i dontwait k hthread
    obtain ⟨htarget, hcont⟩ := ht.main _ hthread
    obtain ⟨rv', hpost, hsound, hsame⟩ := routerRecv_spec hs hsource htarget
    exact inv_resumeRouter hsound ht hsame (hcont _ _ hpost)
  · exact ⟨rv, nv, hs, ht⟩

/-! ## The other events -/

/-- A new node is at the end of the list. -/
theorem inv_create (h : w.Inv) {name : Frame} (hname : name ≠ []) :
    Inv { w.setDealer w.count (.create name) with count := w.count + 1 } := by
  obtain ⟨rv, nv, hs, ht⟩ := h
  set fresh : NodeView := ⟨[], [], none, none, false⟩
  have hold : ∀ i < w.count, Function.update w.dealers w.count (Dealer.create name) i = w.dealers i :=
    fun i hi => Function.update_of_ne (by omega) _ _
  -- every node is an old one or the new one
  have hcases : ∀ {P : ℕ → Dealer → NodeView → Prop}, (∀ i < w.count, P i (w.dealers i) (nv i)) →
      P w.count (Dealer.create name) fresh → ∀ i < w.count + 1,
      P i (Function.update w.dealers w.count (Dealer.create name) i) (Function.update nv w.count fresh i) :=
    fun hP hnew => forall_update w nv hnew fun i hi hne => hP i (by omega)
  refine ⟨rv, Function.update nv w.count fresh, ?_, ht.main, ?_, ?_⟩
  · constructor
    case router =>
      exact ⟨hs.router.dead, hs.router.receiving, hs.router.target, hs.router.sending, hs.router.held⟩
    case nodes =>
      exact hcases hs.nodes ⟨fun hd => (by cases hd), fun _ => rfl, fun _ => rfl, fun m hm => (by cases hm),
        fun m hm => (by cases hm)⟩
    case outbox =>
      exact hcases (P := fun _ d _ => ∀ m ∈ d.outbox, m.frames = [m.record.dest, m.record.data]) hs.outbox
        fun m hm => (by cases hm)
    case inbox =>
      exact hcases (P := fun _ d _ => ∀ m ∈ d.inbox, m.frames = [m.record.senderName, m.record.data] ∧
        m.record.dest = d.name) hs.inbox fun m hm => (by cases hm)
    case held =>
      exact hcases (P := fun _ d v => ∀ m ∈ v.held, m.dest = d.name) hs.held fun m hm => (by cases hm)
    case target =>
      intro hd j hj
      obtain ⟨hlt, hdest⟩ := hs.target hd j hj
      refine ⟨Nat.lt_succ_of_lt hlt, ?_⟩
      intro m hm
      show m.dest = (Function.update w.dealers w.count (Dealer.create name) j).name
      rw [hold j hlt]
      exact hdest m hm
    case handed =>
      intro x hx
      obtain ⟨hlt, hrest⟩ := hs.handed x hx
      refine ⟨Nat.lt_succ_of_lt hlt, ?_⟩
      show _ ∧ _ ∧ x.record.dest = (Function.update w.dealers w.count (Dealer.create name) x.receiver).name
      rw [hold _ hlt]
      exact hrest
    case names => exact hcases (P := fun _ d _ => d.name ≠ []) hs.names hname
    case log => exact hs.log
    case senders =>
      intro m hm
      obtain ⟨hlt, hsender⟩ := hs.senders m hm
      refine ⟨Nat.lt_succ_of_lt hlt, ?_⟩
      show m.senderName = (Function.update w.dealers w.count (Dealer.create name) m.sender).name
      rw [hold _ hlt]
      exact hsender
    case ordered =>
      refine relay_ordered hs.ordered rfl rfl (fun _ _ => rfl) (List.nil_sublist _) (List.Sublist.refl _)
        (fun _ _ => rfl) ?_
      show (_ ++ []).Sublist _
      rw [List.append_nil]
      simp only [relay, List.append_assoc]
      exact List.sublist_append_left _ _
  · exact hcases (P := fun _ d v => ∀ p, d.thread = some p → p.Safe nodeContract NodeView.Ended v) ht.node
      fun p hp => (by cases hp)
  · exact hcases (P := fun _ d v => d.thread = none → v.Idle) ht.idle fun _ => ⟨rfl, .inr ⟨rfl, rfl⟩⟩

/-- A node calls `qsf_node_recv`. -/
theorem inv_startRecv (h : w.Inv) (hr : w.Ready i) (nowait : Bool) : (w.startRecv i nowait).Inv := by
  obtain ⟨rv, nv, hs, ht⟩ := h
  obtain ⟨hi, -, hidle⟩ := hr
  refine ⟨rv, nv, hs.same hi ?_ ?_ ?_ ?_ ?_ ?_ ?_, ?_⟩
  · exact Dealer.resume_name
  · exact Dealer.resume_sending
  · exact Dealer.resume_receiving
  · exact Dealer.resume_record
  · exact Dealer.resume_current
  · exact .inl Dealer.resume_outbox
  · exact Dealer.resume_inbox
  · rw [← Function.update_eq_self i nv]
    exact ht.setDealer (Dealer.resume_threads (qsfNodeRecv_safe nowait (ht.idle i hi hidle)))

/-- A record joins the log. -/
theorem Sound.logged (h : w.Sound rv nv) {m : SendRecord} (hseq : m.seq = w.sent.length)
    (hsender : m.sender < w.count) (hname : m.senderName = (w.dealers m.sender).name) :
    Sound { w with sent := w.sent ++ [m] } rv nv := by
  refine ⟨⟨h.router.dead, h.router.receiving, h.router.target, h.router.sending, h.router.held⟩, h.nodes,
    h.outbox, h.inbox, h.held, h.target, h.handed, h.names, ?_, ?_,
    h.ordered.mono fun n hn => List.mem_append_left _ hn⟩
  · show (w.sent ++ [m]).map SendRecord.seq = List.range (w.sent ++ [m]).length
    rw [List.map_append, h.log, List.length_append, List.length_singleton, List.range_succ, ← hseq]
    rfl
  · intro n hn
    rcases List.mem_append.1 hn with hn | hn
    · exact h.senders n hn
    · obtain rfl := List.mem_singleton.1 hn
      exact ⟨hsender, hname⟩

/-- Records that are logged come before the next. -/
theorem Sound.seq_lt (h : w.Sound rv nv) {m : SendRecord} (hm : m ∈ w.sent) :
    m.seq < w.sent.length := by
  have hseq := List.mem_map_of_mem (f := SendRecord.seq) hm
  rw [h.log] at hseq
  exact List.mem_range.1 hseq

/-- A node calls `qsf_node_send`. -/
theorem inv_startSend (h : w.Inv) (hr : w.Ready i) (debug : Bool) (name data : Frame) :
    (w.startSend debug i name data).Inv := by
  obtain ⟨rv, nv, hs, ht⟩ := h
  obtain ⟨hi, -, hthread⟩ := hr
  obtain ⟨hpending, hidle⟩ := ht.idle i hi hthread
  have hk := hs.nodes i hi
  set m : SendRecord := ⟨i, (w.dealers i).name, w.sent.length, name, data⟩ with hm
  have hlog := hs.logged (m := m) rfl hi rfl
  have hth := ht.setDealer (i := i) (Dealer.resume_threads (d := { w.dealers i with record := m })
    (qsfNodeSend_safe debug (v := { nv i with pending := some m }) rfl hidle))
  refine ⟨rv, Function.update nv i { nv i with pending := some m }, ?_, hth.main, hth.node, hth.idle⟩
  refine hlog.change rfl rfl rfl rfl ⟨hs.router.dead, hs.router.receiving, hs.router.target,
    hs.router.sending, hs.router.held⟩ hs.target ?_ ?_ ?_ ?_ (hs.held i hi) hs.handed ?_
  · exact Dealer.resume_name
  · refine Dealer.Knows.resume ⟨hk.dead, hk.receiving, hk.sending, ?_, hk.held⟩
    intro n hn
    exact Option.some.inj hn
  · rw [Dealer.resume_outbox]
    exact hs.outbox i hi
  · rw [Dealer.resume_inbox]
    exact hs.inbox i hi
  · refine relay_ordered (hs.ordered.push (i := i) (x := m) rfl (fun n hn => List.mem_append_left _ hn)
      (List.mem_append_right _ List.mem_cons_self) fun n hn => hs.seq_lt hn) rfl rfl
      (fun k hk => Function.update_of_ne hk _ _) ?_ (List.Sublist.refl _) (fun _ _ => rfl) ?_
    · simp only [Relay.push, Function.update_self, relay, hpending, Dealer.resume_outbox,
        Option.toList_none, List.append_nil, Option.toList_some]
      exact List.Sublist.refl _
    · simp only [Relay.push, relay, Dealer.resume_inbox, List.append_assoc]
      exact List.Sublist.refl _

theorem inv_terminate (h : w.Inv) : Inv { w with terminated := true } := by
  obtain ⟨rv, nv, hs, ht⟩ := h
  refine ⟨rv, nv, ⟨⟨fun _ => rfl, hs.router.receiving, hs.router.target, hs.router.sending, hs.router.held⟩,
    ?_, hs.outbox, hs.inbox, hs.held, hs.target, hs.handed, hs.names, hs.log, hs.senders,
    hs.ordered⟩, ht.main, ht.node, ht.idle⟩
  intro i hi
  have hk := hs.nodes i hi
  exact ⟨fun _ => rfl, hk.receiving, hk.sending, hk.pending, hk.held⟩

/-- A socket is closed, attached or detached. -/
theorem inv_socket (h : w.Inv) (hi : i < w.count) (b : Bool) (pipe : Pipe) {outbox : List Message}
    (hout : outbox = (w.dealers i).outbox ∨ outbox = []) :
    Inv (w.setDealer i { w.dealers i with isOpen := b, pipe := pipe, outbox := outbox }) := by
  obtain ⟨rv, nv, hs, ht⟩ := h
  refine ⟨rv, nv, hs.same hi rfl rfl rfl rfl rfl hout rfl, ?_⟩
  rw [← Function.update_eq_self i nv]
  exact ht.setDealer ⟨ht.node i hi, ht.idle i hi⟩

/-- **Every event** keeps the invariant. -/
theorem inv_step (debug : Bool) (h : w.Inv) {e : RoutingEvent} (he : w.enabled e) :
    (w.step debug e).Inv := by
  cases e with
  | create name => exact inv_create h he.1
  | exit i => exact inv_socket h he.1 false (w.dealers i).pipe (.inl rfl)
  | attach i => exact inv_socket h he.1 (w.dealers i).isOpen .attached (.inl rfl)
  | detach i => exact inv_socket h he.1 (w.dealers i).isOpen .gone (.inr rfl)
  | send i name data => exact inv_startSend h he.2 debug name data
  | recv i nowait => exact inv_startRecv h he.2 nowait
  | node i ready ret => exact inv_node h he.2 ready ret
  | route source full => exact inv_route h (fun i hi => (he.2 i hi).1) full
  | terminate => exact inv_terminate h

theorem inv_init : Network.init.Inv := by
  refine ⟨⟨[], false, [], none, false⟩, fun _ => ⟨[], [], none, none, false⟩, ?_, ?_⟩
  · refine ⟨⟨fun hd => (by cases hd), fun _ => rfl, fun _ => rfl, fun _ => rfl, fun m hm => (by cases hm)⟩,
      fun i hi => absurd hi (Nat.not_lt_zero i), fun i hi => absurd hi (Nat.not_lt_zero i),
      fun i hi => absurd hi (Nat.not_lt_zero i), fun i hi => absurd hi (Nat.not_lt_zero i),
      fun _ j hj => (by cases hj), fun x hx => (by cases hx), fun i hi => absurd hi (Nat.not_lt_zero i), rfl,
      fun m hm => (by cases hm), Relay.ordered_empty⟩
  · refine ⟨?_, fun i hi => absurd hi (Nat.not_lt_zero i), fun i hi => absurd hi (Nat.not_lt_zero i)⟩
    intro p hp
    cases hp
    exact dispatchMessage_safe ⟨rfl, rfl, rfl⟩

theorem inv_reachable {debug : Bool} (h : (routing debug).Reachable w) : w.Inv :=
  Machine.Reachable.invariant (I := Inv) (fun s hs => by obtain rfl : s = Network.init := hs; exact inv_init)
    (fun s e hs he => inv_step debug hs he) h

/-! ## What nodes are handed -/

/-- **Routing safety.** `sent` holds the calls of `qsf_node_send`, numbered in their order.
What a node is handed is the data of one of these, from a node of that name, to its own
name; no call is handed over twice; and of each sender a node is handed calls in their
order. -/
structure RoutingSafe (w : Network) : Prop where
  log : w.sent.map SendRecord.seq = List.range w.sent.length
  genuine : ∀ h ∈ w.handed, h.record ∈ w.sent ∧
    h.name = h.record.senderName ∧ h.record.senderName = (w.dealers h.record.sender).name ∧
    h.record.dest = (w.dealers h.receiver).name ∧ h.data = h.record.data
  once : (w.handed.map Handed.record).Nodup
  ordered : ∀ i j, ((w.handed.filter fun h => h.record.sender = i ∧ h.receiver = j).map
    (·.record.seq)).Pairwise (· < ·)

/-- What a node was handed is the head of what it was passed. -/
theorem handed_into (w : Network) (rv : RouterView) (nv : ℕ → NodeView) (j : ℕ) :
    ((w.handed.filter (·.receiver = j)).map Handed.record).Sublist ((w.relay rv nv).into j) := by
  simp only [relay, List.append_assoc]
  exact List.sublist_append_left _ _

theorem Sound.handed_once (h : w.Sound rv nv) : (w.handed.map Handed.record).Nodup := by
  rw [List.Nodup, List.pairwise_map]
  refine pairwise_of_filter (f := Handed.receiver) ?_ ?_
  · intro j
    rw [← List.pairwise_map]
    exact (h.ordered.nodup j).sublist (handed_into w rv nv j)
  · intro a ha b hb hne heq
    have hmem : ∀ x ∈ w.handed, x.record ∈ (w.relay rv nv).into x.receiver := fun x hx =>
      (handed_into w rv nv x.receiver).subset (List.mem_map_of_mem (List.mem_filter.2 ⟨hx, by simp⟩))
    have hb' := hmem b hb
    rw [← heq] at hb'
    exact h.ordered.apart _ _ hne _ (hmem a ha) hb'

theorem Sound.handed_ordered (h : w.Sound rv nv) (i j : ℕ) :
    ((w.handed.filter fun x => x.record.sender = i ∧ x.receiver = j).map
      (·.record.seq)).Pairwise (· < ·) := by
  have hline := (h.ordered.into_filter i j).sublist ((handed_into w rv nv j).filter (·.sender = i))
  rw [List.filter_map, List.pairwise_map, List.filter_filter] at hline
  rw [List.pairwise_map]
  have hfilter : (w.handed.filter fun x => x.record.sender = i ∧ x.receiver = j) =
      w.handed.filter fun x => ((fun m : SendRecord => decide (m.sender = i)) ∘ Handed.record) x &&
        decide (x.receiver = j) := by
    apply List.filter_congr
    intro x _
    simp only [Bool.decide_and, Function.comp_apply]
  rw [hfilter]
  exact hline

/-- **Routing between nodes is safe**, in every state that any interleaving of the threads
leads to. -/
theorem routing_safe {debug : Bool} (h : (routing debug).Reachable w) : w.RoutingSafe := by
  obtain ⟨rv, nv, hs, -⟩ := inv_reachable h
  refine ⟨hs.log, ?_, hs.handed_once, hs.handed_ordered⟩
  intro x hx
  obtain ⟨-, hname, hdata, hdest⟩ := hs.handed x hx
  have hin : x.record ∈ (w.relay rv nv).into x.receiver :=
    (handed_into w rv nv x.receiver).subset (List.mem_map_of_mem (List.mem_filter.2 ⟨hx, by simp⟩))
  have hsent := hs.ordered.into_known hin
  exact ⟨hsent, hname, (hs.senders _ hsent).2, hdest, hdata⟩

/-- Node `"a"` sends an empty message and `"hi"` to `"b"`, and one to nobody. -/
def helloRun : List RoutingEvent :=
  ([.create ⟨[97], by decide⟩, .create ⟨[98], by decide⟩, .attach 0, .attach 1] : List RoutingEvent) ++
  ([.send 0 [98] [], .node 0 true 0, .node 0 true 0] : List RoutingEvent) ++
  ([.send 0 [98] [104, 105], .node 0 true 0, .node 0 true 0] : List RoutingEvent) ++
  ([.send 0 [99] [120], .node 0 true 0, .node 0 true 0] : List RoutingEvent) ++
  List.replicate 18 (.route (some 0) false) ++
  ([.recv 1 true, .node 1 true 0, .node 1 true 0] : List RoutingEvent) ++
  ([.recv 1 true, .node 1 true 0, .node 1 true 0, .node 1 true 2, .recv 1 true, .node 1 true 0] :
    List RoutingEvent)

/-- The empty message is received and not handed over, the other is. -/
theorem routing_safe_hello :
    let w := (routing false).exec Network.init helloRun
    w.handed = [⟨1, [97], [104, 105], ⟨0, [97], 1, [98], [104, 105]⟩⟩] ∧ w.RoutingSafe := by
  intro w
  have hr : (routing false).Runs Network.init helloRun := by decide
  exact ⟨rfl, routing_safe (Machine.Reachable.runs (.start rfl) hr)⟩

end Network

end Qsf
