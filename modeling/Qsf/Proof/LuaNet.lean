import Qsf.Proof.Delivery
import Qsf.Proof.Serials
import Qsf.Spec.LuaNet

/-!
# What the methods of a server object do

For an integer of 32 bits the session that is found is the one the script names
(`hashFindInt_named`), and other integers name no session (`sessionOf_wide`), but are
narrowed to a serial that may be in use. So a call does what the script expects if and only
if the narrowing does no harm and the message is not empty (`LuaCall.agrees_iff`).
-/

set_option autoImplicit false

namespace Qsf

/-! ## Messages -/

section

variable {d : List UInt8}

theorem fitsFrame_or (d : List UInt8) : d = [] ∨ FitsFrame d ∨ 65535 < d.length := by
  rcases Nat.lt_or_ge 65535 d.length with hlong | hshort
  · exact .inr (.inr hlong)
  · rcases List.eq_nil_or_concat d with h | ⟨l, x, h⟩
    · exact .inl h
    · exact .inr (.inl ⟨by rw [h]; simp, hshort⟩)

theorem ofNat_length_ne_zero (h : FitsFrame d) : UInt16.ofNat d.length ≠ 0 := by
  intro he
  have hn := congrArg UInt16.toNat he
  rw [UInt16.toNat_ofNat', UInt16.toNat_zero] at hn
  have h1 := h.1
  have h2 := h.2
  omega

end

namespace Server

variable {c : Server} {a b : ℕ} {i : ℤ} {d : List UInt8}

/-! ## Sessions and serials -/

theorem sessionOf_mem (h : c.sessionOf i = some a) :
    a ∈ c.members ∧ ((c.sess a).serial.toNat : ℤ) = i :=
  ⟨List.mem_of_find?_eq_some h, by simpa using List.find?_some h⟩

/-- **A serial names one session.** -/
theorem Issued.sessionOf_iff (h : c.Issued) :
    c.sessionOf i = some a ↔ a ∈ c.members ∧ ((c.sess a).serial.toNat : ℤ) = i := by
  refine ⟨sessionOf_mem, ?_⟩
  rintro ⟨ha, hi⟩
  cases hfind : c.sessionOf i with
  | none =>
    have hne := List.find?_eq_none.1 hfind a ha
    exact absurd (decide_eq_true hi) hne
  | some b =>
    obtain ⟨hb, hbi⟩ := sessionOf_mem hfind
    have hser : (c.sess b).serial = (c.sess a).serial := by
      apply UInt32.toNat_inj.1
      omega
    rw [List.inj_on_of_nodup_map h.keys hb ha hser]

theorem ofInt_toNat (h : 0 ≤ i ∧ i < 4294967296) : ((UInt32.ofInt i).toNat : ℤ) = i := by
  have hmod : i % 2 ^ 32 = i := Int.emod_eq_of_lt h.1 h.2
  rw [UInt32.ofInt, UInt32.toNat_ofNat', hmod]
  omega

/-- For a 32-bit value `HASH_FIND_INT` finds the session that is named. -/
theorem hashFindInt_named (h : 0 ≤ i ∧ i < 4294967296) :
    c.hashFindInt (UInt32.ofInt i) = c.sessionOf i := by
  refine List.find?_congr fun a _ => decide_eq_decide.2 ?_
  rw [← UInt32.toNat_inj]
  have hi := ofInt_toNat h
  omega

/-- Any other integer names no session. -/
theorem sessionOf_wide (h : ¬ (0 ≤ i ∧ i < 4294967296)) : c.sessionOf i = none := by
  refine List.find?_eq_none.2 fun a _ ha => h ?_
  have hlt := (c.sess a).serial.toNat_lt
  have hi : ((c.sess a).serial.toNat : ℤ) = i := by simpa using ha
  omega

/-! ## The changes of a call -/

theorem write_found (h : FitsFrame d) {n : UInt32} (hfind : c.hashFindInt n = some a) :
    (c.qsfNetServerWrite n d (UInt16.ofNat d.length) 0).2 = c.setSess a ((c.sess a).queue d) := by
  unfold qsfNetServerWrite
  rw [if_neg (ofNat_length_ne_zero h), hfind]
  exact congrArg Prod.snd (doSessionWrite_eq h.1 h.2)

theorem write_absent (h : FitsFrame d) {n : UInt32} (hfind : c.hashFindInt n = none) :
    (c.qsfNetServerWrite n d (UInt16.ofNat d.length) 0).2 = c := by
  unfold qsfNetServerWrite
  rw [if_neg (ofNat_length_ne_zero h), hfind]

/-- Writing to the sessions of a list in turn. -/
theorem foldl_queue (d : List UInt8) (l : List ℕ) (hl : l.Nodup) (c : Server) :
    l.foldl (fun s a => s.setSess a ((s.sess a).queue d)) c =
      { c with sess := fun a => if a ∈ l then (c.sess a).queue d else c.sess a } := by
  induction l generalizing c with
  | nil => simp
  | cons a l ih =>
    obtain ⟨hal, hnd⟩ := List.nodup_cons.1 hl
    rw [List.foldl_cons, ih hnd]
    have hsess : (fun b => if b ∈ l then ((c.setSess a ((c.sess a).queue d)).sess b).queue d
        else (c.setSess a ((c.sess a).queue d)).sess b) =
        fun b => if b ∈ a :: l then (c.sess b).queue d else c.sess b := by
      funext b
      by_cases hb : b = a
      · subst hb
        simp [hal]
      · simp [setSess_ne _ hb, hb]
    rw [hsess]
    rfl

/-- **A broadcast** queues one frame for each session in the map. -/
theorem writeAll_eq (hc : c.OK) (h : FitsFrame d) :
    (c.qsfNetServerWriteAll d (UInt16.ofNat d.length) fun _ => 0).2 = c.queued d := by
  have hbody : (fun s a => (doSessionWrite s a d (UInt16.ofNat d.length) 0).2) =
      fun (s : Server) a => s.setSess a ((s.sess a).queue d) := by
    funext s a
    exact congrArg Prod.snd (doSessionWrite_eq h.1 h.2)
  have hfold := hashIter_eq_foldl (s := c) (fun s a => s.setSess a ((s.sess a).queue d)) hc.length_le
    (fun _ => True) trivial fun s a _ _ => ⟨trivial, .inl rfl⟩
  unfold qsfNetServerWriteAll
  rw [if_neg (ofNat_length_ne_zero h)]
  simp only [hbody]
  rw [hfold]
  exact foldl_queue d c.members c.sessionMap.nodup c

theorem shutdown_found {n : UInt32} (r : ℤ) (hfind : c.hashFindInt n = some a) :
    c.qsfNetServerShutdown n r = c.setSess a ((c.sess a).halt r) := by
  unfold qsfNetServerShutdown
  rw [hfind]
  simp only
  split
  · rename_i hr
    have hr' : ¬ 0 ≤ r := not_le.2 hr
    simp [Session.halt, hr']
  · rename_i hr
    have hr' : 0 ≤ r := not_lt.1 hr
    simp [Session.halt, hr', setSess]

theorem close_found {n : UInt32} (hfind : c.hashFindInt n = some a) :
    c.qsfNetServerClose n = c.kicked a := by
  unfold qsfNetServerClose
  rw [hfind]
  simp [kicked, hashDel, sessionDestroy, log, setSess]

/-! ## When a change shows -/

theorem queue_ne (c : Server) (a : ℕ) (d : List UInt8) : c.setSess a ((c.sess a).queue d) ≠ c := by
  intro h
  have hlen := congrArg (fun s : Server => (s.sess a).out.length) h
  simp [Session.queue, frame] at hlen

theorem kicked_ne (c : Server) (a : ℕ) : c.kicked a ≠ c := by
  intro h
  have hlen := congrArg (fun s : Server => s.trace.length) h
  simp [kicked] at hlen

theorem halt_eq_iff (r : ℤ) : c.setSess a ((c.sess a).halt r) = c ↔
    (c.sess a).handle.active = false ∧ (r < 0 ∨ (c.sess a).shut = true) := by
  constructor
  · intro h
    have hsess := congrArg (fun s : Server => s.sess a) h
    simp only [setSess_self] at hsess
    have hact := congrArg (fun σ : Session => σ.handle.active) hsess
    have hshut := congrArg Session.shut hsess
    refine ⟨hact.symm, ?_⟩
    simp only [Session.halt, Bool.or_eq_left_iff_imp, decide_eq_true_eq] at hshut
    rcases lt_or_ge r 0 with hr | hr
    · exact .inl hr
    · exact .inr (hshut hr)
  · rintro ⟨hact, hr⟩
    have hhandle : uvStop (c.sess a).handle = (c.sess a).handle := by
      rw [uvStop, ← hact]
    have hshut : ((c.sess a).shut || decide (0 ≤ r)) = (c.sess a).shut := by
      rcases hr with hr | hr
      · simp [not_le.2 hr]
      · simp [hr]
    rw [Session.halt, hhandle, hshut]
    exact congrArg (fun f => { c with sess := f }) (Function.update_eq_self a c.sess)

end Server

/-! ## Calls -/

namespace LuaCall

variable {c : Server} {i : ℤ} {d : List UInt8}

/-- **A call by serial**: when it does what it should to the session named, for a change `f`
of the session found. -/
theorem onSerial_iff {op : UInt32 → Server} {f : ℕ → Server}
    (hfound : ∀ n a, c.hashFindInt n = some a → op n = f a) (habsent : ∀ n, c.hashFindInt n = none → op n = c) :
    op (UInt32.ofInt i) = c.onSerial i f ↔
      Hits c i ∨ ∀ a, c.hashFindInt (UInt32.ofInt i) = some a → f a = c := by
  unfold Server.onSerial Hits
  by_cases hi : 0 ≤ i ∧ i < 4294967296
  · -- the session found is the session named
    have hsame : c.hashFindInt (UInt32.ofInt i) = c.sessionOf i := Server.hashFindInt_named hi
    refine iff_of_true ?_ (.inl (.inl hi))
    rw [← hsame]
    cases hfind : c.hashFindInt (UInt32.ofInt i) with
    | none => exact habsent _ hfind
    | some a => exact hfound _ a hfind
  · -- no session is named, but one may be found
    have hwide : c.sessionOf i = none := Server.sessionOf_wide hi
    rw [hwide]
    cases hfind : c.hashFindInt (UInt32.ofInt i) with
    | none => exact iff_of_true (habsent _ hfind) (.inl (.inr rfl))
    | some a =>
      rw [hfound _ a hfind]
      constructor
      · intro h
        refine .inr ?_
        intro b hb
        cases hb
        exact h
      · rintro ((h | h) | h)
        · exact absurd h hi
        · exact absurd h (Option.some_ne_none a)
        · exact h a rfl

theorem hits_or {f : ℕ → Server} (hne : ∀ a, f a ≠ c) :
    (Hits c i ∨ ∀ a, c.hashFindInt (UInt32.ofInt i) = some a → f a = c) ↔ Hits c i := by
  refine ⟨fun h => h.elim id fun hf => .inr ?_, .inl⟩
  apply Option.eq_none_iff_forall_ne_some.2
  intro a ha
  exact hne a (hf a ha)

section

variable {toInteger : LuaValue → Option ℤ} {toLstring : LuaValue → Option (List UInt8)} {w : Runtime} {k : ℕ}

theorem setC_inj {c' : Server} : w.setC k c = w.setC k c' ↔ c = c' := by
  refine ⟨?_, fun h => by rw [h]⟩
  intro h
  have hk := congrArg (fun w : Runtime => (w.servers k).c) h
  simpa [Runtime.setC, Runtime.setServer] using hk

theorem run_write (h : d.length ≤ UINT16_MAX) : (write i d).run toInteger toLstring w k =
    (w.setC k ((w.servers k).c.qsfNetServerWrite (UInt32.ofInt i) d (UInt16.ofNat d.length) 0).2, none) :=
  if_pos h

theorem run_write_long (h : UINT16_MAX < d.length) : (write i d).run toInteger toLstring w k =
    (w, some (tooBig d.length)) := if_neg (not_le.2 h)

theorem run_broadcast (h : d.length ≤ UINT16_MAX) : (broadcast d).run toInteger toLstring w k =
    (w.setC k ((w.servers k).c.qsfNetServerWriteAll d (UInt16.ofNat d.length) fun _ => 0).2, none) :=
  if_pos h

theorem run_broadcast_long (h : UINT16_MAX < d.length) : (broadcast d).run toInteger toLstring w k =
    (w, some (tooBig d.length)) := if_neg (not_le.2 h)

/-- A call that raises no error agrees when it changes the server as it should. -/
theorem agrees_some {call : LuaCall} {c' : Server} (hspec : call.spec (w.servers k).c = some c)
    (hrun : call.run toInteger toLstring w k = (w.setC k c', none)) :
    call.Agrees toInteger toLstring w k ↔ c' = c := by
  unfold Agrees
  rw [hspec, hrun]
  simp only [Prod.mk.injEq, and_true]
  exact setC_inj

/-- Where an error is due, a call agrees when it is refused. -/
theorem agrees_refused {call : LuaCall} {e : LuaRaise} (hspec : call.spec (w.servers k).c = none)
    (hrun : call.run toInteger toLstring w k = (w, some e)) : call.Agrees toInteger toLstring w k := by
  unfold Agrees
  rw [hspec]
  exact ⟨e, hrun⟩

theorem not_agrees {call : LuaCall} {w' : Runtime} (hspec : call.spec (w.servers k).c = none)
    (hrun : call.run toInteger toLstring w k = (w', none)) : ¬ call.Agrees toInteger toLstring w k := by
  unfold Agrees
  rw [hspec, hrun]
  rintro ⟨e, he⟩
  exact Option.some_ne_none e (congrArg Prod.snd he).symm

theorem agrees_write :
    (write i d).Agrees toInteger toLstring w k ↔ (write i d).Carried (w.servers k).c := by
  rcases fitsFrame_or d with rfl | hfit | hlong
  · -- an error is due, and the assertion of `qsf_net_server_write` fails instead
    exact iff_of_false (not_agrees rfl (run_write (Nat.zero_le _))) fun h => h.1 rfl
  · have hspec : (write i d).spec (w.servers k).c = some ((w.servers k).c.onSerial i fun a =>
        (w.servers k).c.setSess a (((w.servers k).c.sess a).queue d)) := if_pos hfit
    rw [agrees_some hspec (run_write hfit.2),
      onSerial_iff (fun n a => Server.write_found hfit) (fun n => Server.write_absent hfit),
      hits_or fun a => Server.queue_ne _ a d]
    have hd : d ≠ [] := List.ne_nil_of_length_pos hfit.1
    have hle : ¬ 65535 < d.length := not_lt.2 hfit.2
    simp only [Carried, hd, hle, ne_eq, not_false_eq_true, true_and, false_or]
  · have hnot : ¬ FitsFrame d := fun h => absurd h.2 (not_le.2 hlong)
    refine iff_of_true (agrees_refused (if_neg hnot) (run_write_long hlong)) ⟨?_, .inl hlong⟩
    rintro rfl
    exact absurd hlong (Nat.not_lt_zero _)

theorem agrees_broadcast (hc : (w.servers k).c.OK) :
    (broadcast d).Agrees toInteger toLstring w k ↔ (broadcast d).Carried (w.servers k).c := by
  rcases fitsFrame_or d with rfl | hfit | hlong
  · exact iff_of_false (not_agrees rfl (run_broadcast (Nat.zero_le _))) fun h => h rfl
  · have hspec : (broadcast d).spec (w.servers k).c = some ((w.servers k).c.queued d) := if_pos hfit
    rw [agrees_some hspec (run_broadcast hfit.2)]
    exact iff_of_true (Server.writeAll_eq hc hfit) (List.ne_nil_of_length_pos hfit.1)
  · have hnot : ¬ FitsFrame d := fun h => absurd h.2 (not_le.2 hlong)
    refine iff_of_true (agrees_refused (if_neg hnot) (run_broadcast_long hlong)) ?_
    rintro rfl
    exact absurd hlong (Nat.not_lt_zero _)

theorem shutdown_absent {n : UInt32} (r : ℤ) (h : c.hashFindInt n = none) :
    c.qsfNetServerShutdown n r = c := by
  unfold Server.qsfNetServerShutdown
  rw [h]

theorem close_absent {n : UInt32} (h : c.hashFindInt n = none) : c.qsfNetServerClose n = c := by
  unfold Server.qsfNetServerClose
  rw [h]

theorem agrees_shutdown (r : ℤ) :
    (shutdown i r).Agrees toInteger toLstring w k ↔ (shutdown i r).Carried (w.servers k).c := by
  rw [agrees_some rfl rfl, onSerial_iff (fun n a => Server.shutdown_found r) fun n => shutdown_absent r]
  simp only [Server.halt_eq_iff, Carried]

theorem agrees_kick : (kick i).Agrees toInteger toLstring w k ↔ (kick i).Carried (w.servers k).c := by
  rw [agrees_some rfl rfl, onSerial_iff (fun n a => Server.close_found) fun n => close_absent]
  exact hits_or fun a => Server.kicked_ne _ a

end

/-- A session is all that differs, with its place in the map and what was recorded of it. -/
structure Only (a : Option ℕ) (c c' : Server) : Prop where
  rest : c' = { c with sess := c'.sess, sessionMap := c'.sessionMap, trace := c'.trace }
  others : ∀ b, a ≠ some b → c'.sess b = c.sess b ∧ (b ∈ c'.members ↔ b ∈ c.members)

theorem only_setSess (a : ℕ) (σ : Session) : Only (some a) c (c.setSess a σ) where
  rest := rfl
  others b hb := by
    have hne : b ≠ a := fun e => hb (congrArg some e.symm)
    exact ⟨Server.setSess_ne σ hne, Iff.rfl⟩

theorem only_kicked {a : ℕ} (ha : a ∈ c.members) : Only (some a) c (c.kicked a) where
  rest := rfl
  others b hb := by
    have hne : b ≠ a := fun e => hb (congrArg some e.symm)
    refine ⟨Server.setSess_ne _ hne, ?_⟩
    have hmem : b ∈ (c.kicked a).members ↔ b ≠ a ∧ b ∈ c.members := IMap.mem_del ha
    simp [hmem, hne]

theorem only_onSerial {f : ℕ → Server} (hf : ∀ a ∈ c.members, Only (some a) c (f a)) :
    Only (c.sessionOf i) c (c.onSerial i f) := by
  unfold Server.onSerial
  cases hfind : c.sessionOf i with
  | none => exact ⟨rfl, fun b _ => ⟨rfl, Iff.rfl⟩⟩
  | some a => exact hf a (Server.sessionOf_mem hfind).1

/-- What a script expects of a call by serial touches the session it names only. -/
theorem spec_only {call : LuaCall} {c' : Server} (hn : call.named = some i)
    (h : call.spec c = some c') :
    Only (c.sessionOf i) c c' := by
  cases call with
  | broadcast d => exact absurd hn.symm (Option.some_ne_none i)
  | write j d =>
    cases hn
    simp only [spec, Option.ite_none_right_eq_some, Option.some.injEq] at h
    rw [← h.2]
    exact only_onSerial fun a _ => only_setSess a _
  | shutdown j r =>
    cases hn
    cases h
    exact only_onSerial fun a _ => only_setSess a _
  | kick j =>
    cases hn
    cases h
    exact only_onSerial fun a ha => only_kicked ha

/-- **The methods of a server object.** In every state of a server, also while a callback
runs, a serial names one session, a call by serial should touch that session only, and a
call does what it should if and only if the message is not empty and the narrowing of the
integer does no harm. -/
theorem agrees_iff (toInteger : LuaValue → Option ℤ) (toLstring : LuaValue → Option (List UInt8))
    (w : Runtime) (k : ℕ) :
    (∀ s, netServer.Reachable s → s.Issued) ∧ Server.Kept Server.Issued ∧
    ((w.servers k).c.Issued →
      (∀ i a, (w.servers k).c.sessionOf i = some a ↔
        a ∈ (w.servers k).c.members ∧ (((w.servers k).c.sess a).serial.toNat : ℤ) = i) ∧
      (∀ (call : LuaCall) c' i, call.named = some i → call.spec (w.servers k).c = some c' →
        Only ((w.servers k).c.sessionOf i) (w.servers k).c c') ∧
      ∀ call : LuaCall, call.Agrees toInteger toLstring w k ↔ call.Carried (w.servers k).c) := by
  refine ⟨fun s => Server.issued_reachable, Server.issued_kept, ?_⟩
  intro hk
  refine ⟨fun i a => hk.sessionOf_iff, fun call c' i hn hspec => spec_only hn hspec, ?_⟩
  intro call
  cases call with
  | write i d => exact agrees_write
  | broadcast d => exact agrees_broadcast hk.toOK
  | shutdown i r => exact agrees_shutdown r
  | kick i => exact agrees_kick

/-- A script starts a server, and a client connects. -/
def oneClient : List RuntimeEvent :=
  [.createServer [], .start [.userdata 0, .string [49], .integer 80, .function 7] ⟨0, 0, 0, 0⟩,
    .net 0 (.quiet (.connection 0 0 0 0 0))]

/-- The script writes to the client, and to a serial nobody has. -/
theorem agrees_iff_client :
    let w := (luaRuntime (luaTointegerx fun _ => none)).exec Runtime.init oneClient
    (w.servers 0).c.sessionOf 1000 = some 0 ∧
      (write 1000 [7]).Agrees (fun _ => none) (fun _ => none) w 0 ∧
      (write 1001 [7]).Agrees (fun _ => none) (fun _ => none) w 0 := by
  intro w
  have h₀ : netServer.Reachable (Server.qsfCreateNetServer 5000 60 10) := .start ⟨5000, 60, 10, rfl⟩
  have hr : netServer.Runs (Server.qsfCreateNetServer 5000 60 10)
      [⟨.start ⟨0, 0, 0, 0⟩, fun _ _ => []⟩, ⟨.connection 0 0 0 0 0, fun _ _ => []⟩] :=
    ⟨trivial, rfl, trivial⟩
  have hc : netServer.Reachable (w.servers 0).c := h₀.runs hr
  have hall := agrees_iff (fun _ => none) (fun _ => none) w 0
  have h := hall.2.2 (hall.1 _ hc)
  refine ⟨(h.1 1000 0).2 ⟨List.mem_singleton_self 0, rfl⟩, (h.2.2 _).2 ?_, (h.2.2 _).2 ?_⟩
  · exact ⟨List.cons_ne_nil 7 [], .inr (.inl ⟨by decide, by decide⟩)⟩
  · exact ⟨List.cons_ne_nil 7 [], .inr (.inl ⟨by decide, by decide⟩)⟩

/-- **An empty message and a wide integer.** Writing nothing to the client fails an
assertion. The integer 2³² + 1000 names no session, and a write to it goes to the client. -/
theorem narrowed_write :
    let w := (luaRuntime (luaTointegerx fun _ => none)).exec Runtime.init oneClient
    let empty := (write 1000 []).run (fun _ => none) (fun _ => none) w 0
    let wide := (write 4294968296 [7]).run (fun _ => none) (fun _ => none) w 0
    (luaRuntime (luaTointegerx fun _ => none)).Runs Runtime.init oneClient ∧
      empty.2 = none ∧ (empty.1.servers 0).c.aborted = true ∧
      ¬ (write 1000 []).Agrees (fun _ => none) (fun _ => none) w 0 ∧
      (w.servers 0).c.sessionOf 4294968296 = none ∧ ((wide.1.servers 0).c.sess 0).out = [0, 1, 7] ∧
      ¬ (write 4294968296 [7]).Agrees (fun _ => none) (fun _ => none) w 0 := by
  intro w empty wide
  refine ⟨⟨trivial, ?_, ⟨⟨Nat.one_pos, rfl⟩, rfl, fun _ => rfl, ?_, ?_⟩, trivial⟩,
    rfl, rfl, mt agrees_write.1 fun h => h.1 rfl, rfl, rfl, mt agrees_write.1 ?_⟩
  · intro i hi
    obtain rfl : 0 = i := Option.some.inj hi
    exact ⟨Nat.one_pos, rfl⟩
  · intro r
    exact Input.noConfusion
  · exact Input.noConfusion
  · intro h
    rcases h.2 with hlong | hrange | hnone
    · exact absurd hlong (by decide)
    · exact absurd hrange.2 (by decide)
    · exact absurd hnone (by decide)

end LuaCall

end Qsf
