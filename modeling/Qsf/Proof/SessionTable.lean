import Qsf.Proof.Runs
import Qsf.Proof.UtHash

/-!
# The session map is the hash table

The server's model has its sessions in an insertion-ordered map. Here the map is replayed on the
hash table of `uthash.h`, change by change (`sessionTable`).

* `Mirrors`: the table holds the members of the map under their serials, and every stored next
  pointer, of sessions that left the map too, is the one the model has.
* `sessionTable_mirrors`: this is so **in every reachable state**, for any callbacks and any hash
  function, as long as no session was deleted from the map twice and the table never had 2³² buckets.
-/

set_option autoImplicit false

namespace Qsf

/-- The key of a session in its table: the four bytes of `serial`. -/
def serialKey (serial : UInt32) : List UInt8 := leBytes 4 serial.toNat

/-- The macro behind an event of the trace. -/
def UtHash.replay (hashFcn : List UInt8 → UInt32) (U : UtHash) : TraceEvent → UtHash
  | .accept a serial => U.hashAddKeyptr hashFcn a (serialKey serial)
  | .remove a => U.hashDelete a
  | _ => U

/-- `session_map` after the events of a trace. -/
def sessionTable (hashFcn : List UInt8 → UInt32) (trace : List TraceEvent) : UtHash :=
  trace.foldl (UtHash.replay hashFcn) .null

/-- Up to the end of the trace the table never has 2³² buckets. -/
def TableInRange (hashFcn : List UInt8 → UInt32) (trace : List TraceEvent) : Prop :=
  ∀ t, t <+: trace → (sessionTable hashFcn t).tbl.log2NumBuckets < 32

theorem TableInRange.of_prefix {hashFcn : List UInt8 → UInt32} {t t' : List TraceEvent} (h : TableInRange hashFcn t')
    (hpre : t <+: t') : TableInRange hashFcn t :=
  fun u hu => h u (hu.trans hpre)

/-- An event doubles the number of buckets at most once. -/
theorem foldl_replay_log2_le (hashFcn : List UInt8 → UInt32) (U : UtHash) (t : List TraceEvent) :
    (t.foldl (UtHash.replay hashFcn) U).tbl.log2NumBuckets ≤ max 5 U.tbl.log2NumBuckets + t.length := by
  induction t generalizing U with
  | nil => exact le_max_right 5 _
  | cons e t ih =>
    have hone : (U.replay hashFcn e).tbl.log2NumBuckets ≤ max 5 U.tbl.log2NumBuckets + 1 := by
      cases e with
      | accept a serial => exact UtHash.apply_log2_le hashFcn U (.add a (serialKey serial))
      | remove a => exact UtHash.apply_log2_le hashFcn U (.delete a)
      | _ => exact (le_max_right 5 _).trans (Nat.le_succ _)
    refine (ih _).trans ?_
    rw [List.length_cons]
    omega

/-- A short trace is in range. -/
theorem tableInRange_short (hashFcn : List UInt8 → UInt32) {trace : List TraceEvent} (h : trace.length < 27) :
    TableInRange hashFcn trace := by
  intro t ht
  have hle := ht.length_le
  have hlog := foldl_replay_log2_le hashFcn .null t
  rw [show max 5 UtHash.null.tbl.log2NumBuckets = 5 from rfl] at hlog
  exact hlog.trans_lt (by omega)

theorem serialKey_injective {m n : UInt32} (h : serialKey m = serialKey n) : m = n := by
  have hnat := congrArg leNat h
  rw [serialKey, serialKey, leNat_leBytes, leNat_leBytes] at hnat
  have hm := m.toNat_lt
  have hn := n.toNat_lt
  refine UInt32.toNat_inj.1 ?_
  omega

namespace Server

open UtHash

variable {hashFcn : List UInt8 → UInt32} {s s' : Server} {U : UtHash} {a : ℕ}

/-- The table stands for the members with their serials, and stores the pointers of the map. -/
structure Mirrors (hashFcn : List UInt8 → UInt32) (s : Server) (U : UtHash) : Prop where
  stands : Stands hashFcn U (s.members.map fun a => (a, serialKey (s.sess a).serial))
  next : ∀ a, U.app.next a = s.hhNext a

theorem Mirrors.holds (h : Mirrors hashFcn s U) : Holds hashFcn U s.members := by
  have hm := h.stands.holds
  rwa [List.map_map, show Prod.fst ∘ (fun a => (a, serialKey (s.sess a).serial)) = id from rfl,
    List.map_id] at hm

/-- What the table does not see. -/
theorem Mirrors.of_eq (h : Mirrors hashFcn s U) (hm : s'.sessionMap = s.sessionMap)
    (hser : ∀ a ∈ s.members, (s'.sess a).serial = (s.sess a).serial) : Mirrors hashFcn s' U := by
  refine ⟨?_, ?_⟩
  · have hmap : (s'.members.map fun a => (a, serialKey (s'.sess a).serial)) =
        s.members.map fun a => (a, serialKey (s.sess a).serial) := by
      rw [members, hm]
      exact List.map_congr_left fun a ha => by rw [hser a ha]
    rw [hmap]
    exact h.stands
  · intro a
    rw [h.next, hhNext, hhNext, hm]

theorem Mirrors.create (m : UInt32) (b c : UInt16) :
    Mirrors hashFcn (qsfCreateNetServer m b c) .null :=
  ⟨Stands.null hashFcn, fun _ => rfl⟩

/-- The pointers after a change, when those of sessions outside the map did not move. -/
theorem next_of_holds {m : IMap ℕ} (h : Holds hashFcn U m.items) (hleft : ∀ a ∉ m.items, U.app.next a = m.left a)
    (a : ℕ) : U.app.next a = m.next a := by
  rw [IMap.next]
  split
  next ha => exact h.next ha
  next ha => exact hleft a ha

/-- **A session is added.** -/
theorem Mirrors.accepted {now : UInt64} {n : UInt32} (h : Mirrors hashFcn s U) (hs : s.OK)
    (hc : s.hashCount < s.maxConnection.toNat) (hfree : s.hashFindInt n = none)
    (hlog : (U.hashAddKeyptr hashFcn s.allocated (serialKey n)).tbl.log2NumBuckets < 32) :
    Mirrors hashFcn (s.accepted now n) (U.hashAddKeyptr hashFcn s.allocated (serialKey n)) := by
  have hnot := hs.not_mem_allocated
  have hold : ∀ a ∈ s.members, ((s.accepted now n).sess a) = s.sess a := by
    intro a ha
    have hne : a ≠ s.allocated := fun e => hnot (e ▸ ha)
    exact Function.update_of_ne hne _ _
  have hkeys : ((s.accepted now n).members.map fun a => (a, serialKey ((s.accepted now n).sess a).serial)) =
      (s.members.map fun a => (a, serialKey (s.sess a).serial)) ++ [(s.allocated, serialKey n)] := by
    rw [accepted_members now n hs, List.map_append, List.map_singleton]
    have hself : ((s.accepted now n).sess s.allocated).serial = n := by
      unfold Server.accepted
      dsimp only
      rw [Function.update_self]
    rw [hself]
    congr 1
    exact List.map_congr_left fun a ha => by rw [hold a ha]
  have henabled : keyedList.enabled (s.members.map fun a => (a, serialKey (s.sess a).serial))
      (.add s.allocated (serialKey n)) := by
    refine ⟨?_, ?_⟩
    · rw [List.map_map]
      intro e
      obtain ⟨a, ha, rfl⟩ := List.mem_map.1 e
      exact hnot ha
    · rw [List.map_map]
      intro e
      obtain ⟨a, ha, hk⟩ := List.mem_map.1 e
      -- the number was looked up first, and was free
      have hserial := List.find?_eq_none.1 hfree a ha
      exact hserial (decide_eq_true (serialKey_injective hk))
  -- the limit of the connections is an `unsigned` too
  have hlen : s.members.length + 1 < 4294967296 := by
    have hmax := s.maxConnection.toNat_lt
    have hcount : s.members.length < s.maxConnection.toNat := hc
    omega
  have hstands := h.stands.step henabled (by
    show (_ ++ [_]).length < _
    rwa [List.length_append, List.length_map]) hlog
  have hitems : (s.accepted now n).sessionMap.items = s.members ++ [s.allocated] := accepted_members now n hs
  refine ⟨?_, ?_⟩
  · rw [hkeys]
    exact hstands
  · refine next_of_holds (hitems ▸ h.holds.add hlen hnot _ hlog) ?_
    intro a ha
    rw [hitems] at ha
    rw [h.holds.add_next _ ha, h.next, hhNext, IMap.next, if_neg fun e => ha (List.mem_append_left _ e)]
    exact (congrFun IMap.add_left a).symm

/-- **A session is deleted.** -/
theorem Mirrors.drop (h : Mirrors hashFcn s U) (ha : a ∈ s.members) (hlen : s.members.length < 4294967296)
    (hlog : (U.hashDelete a).tbl.log2NumBuckets < 32) :
    Mirrors hashFcn (s.drop a) (U.hashDelete a) := by
  have hkeys : ((s.drop a).members.map fun b => (b, serialKey ((s.drop a).sess b).serial)) =
      (s.members.map fun b => (b, serialKey (s.sess b).serial)).filter (fun p => p.1 ≠ a) := by
    rw [List.filter_map, drop_members ha, s.sessionMap.nodup.erase_eq_filter]
    have hfilter : ∀ b ∈ s.members, (b != a) =
        ((fun p : ℕ × List UInt8 => decide (p.1 ≠ a)) ∘ fun b => (b, serialKey (s.sess b).serial)) b := by
      intro b _
      rw [Function.comp_apply, bne, Bool.beq_eq_decide_eq, ← decide_not]
    rw [List.filter_congr hfilter]
    exact List.map_congr_left fun b _ => by rw [drop_serial]
  have henabled : keyedList.enabled (s.members.map fun b => (b, serialKey (s.sess b).serial)) (.delete a) := by
    refine List.mem_map.2 ⟨(a, serialKey (s.sess a).serial), List.mem_map.2 ⟨a, ha, rfl⟩, rfl⟩
  refine ⟨?_, ?_⟩
  · rw [hkeys]
    refine h.stands.step henabled ((List.length_filter_le _ _).trans_lt ?_) hlog
    rwa [List.length_map]
  · have hitems : (s.drop a).sessionMap.items = s.members.erase a := drop_members ha
    refine next_of_holds (hitems ▸ h.holds.delete ha) ?_
    intro b hb
    rw [hitems] at hb
    rw [h.holds.delete_next ha hb, h.next, hhNext, IMap.next, drop_sessionMap, IMap.del_left ha]
    by_cases hba : b = a
    · rw [if_pos hba, hba, if_pos ha]
    · rw [if_neg hba, if_neg fun e => hb ((List.mem_erase_of_ne hba).2 e)]

theorem sessionTable_append (hashFcn : List UInt8 → UInt32) (t t' : List TraceEvent) :
    sessionTable hashFcn (t ++ t') = t'.foldl (UtHash.replay hashFcn) (sessionTable hashFcn t) :=
  List.foldl_append

/-- Unless a session was deleted twice, or there were too many buckets, the table mirrors the map. -/
structure Tabled (hashFcn : List UInt8 → UInt32) (s : Server) : Prop extends Inv s where
  mirrors : s.sessionMap.fault = false → TableInRange hashFcn s.trace →
    Mirrors hashFcn s (sessionTable hashFcn s.trace)

theorem Inv.length_lt (h : s.Inv) : s.members.length < 4294967296 :=
  h.count.trans_lt s.maxConnection.toNat_lt

/-- Events that are not about the map. -/
theorem Tabled.of_eq {t : List TraceEvent} (h : Tabled hashFcn s) (hi : s'.Inv) (hm : s'.sessionMap = s.sessionMap)
    (hser : ∀ a ∈ s.members, (s'.sess a).serial = (s.sess a).serial) (ht : s'.trace = s.trace ++ t)
    (heq : ∀ U, t.foldl (UtHash.replay hashFcn) U = U) : Tabled hashFcn s' := by
  refine ⟨hi, ?_⟩
  intro hf hrange
  rw [ht] at hrange
  rw [ht, sessionTable_append, heq]
  exact (h.mirrors (hm ▸ hf) (hrange.of_prefix (List.prefix_append _ _))).of_eq hm hser

theorem tabled_stable (hashFcn : List UInt8 → UInt32) : Stable (fun _ _ => True) (Tabled hashFcn) := by
  refine Stable.of_inv (fun _ h => h.toInv) ?_ ?_ ?_ ?_
  · intro s s' hq hi h
    exact h.of_eq (t := []) hi (by rw [hq.rest]) (fun a _ => (hq.sess a).serial)
      (by rw [hq.rest, List.append_nil]) (fun _ => rfl)
  · intro s a hi h
    refine ⟨hi, ?_⟩
    intro hf hrange
    by_cases ha : a ∈ s.members
    · rw [drop_sessionMap, IMap.del_fault ha] at hf
      have hlog := hrange _ List.prefix_rfl
      rw [drop_trace] at hrange hlog
      rw [drop_trace, sessionTable_append]
      rw [sessionTable_append] at hlog
      exact (h.mirrors hf (hrange.of_prefix (List.prefix_append _ _))).drop ha h.length_lt hlog
    · rw [drop_sessionMap, IMap.del_of_not_mem ha] at hf
      exact absurd hf Bool.noConfusion
  · intro s s' he hi h
    exact h.of_eq (t := []) hi (by rw [he]) (fun a _ => by rw [he]) (by rw [he, List.append_nil]) (fun _ => rfl)
  · intro s who r _ hi h
    exact h.of_eq hi rfl (fun _ _ => rfl) rfl (fun _ => rfl)

/-- **Every run** keeps it. -/
theorem tabled_kept (hashFcn : List UInt8 → UInt32) : Kept (Tabled hashFcn) where
  toStable := tabled_stable hashFcn
  inv _ h := h.toInv
  outside s s' he h := h.of_eq (t := []) (h.toInv.outside he) (by rw [he]) (fun a _ => by rw [he])
    (by rw [he, List.append_nil]) (fun _ => rfl)
  receive s a now bytes ha h := by
    refine h.of_eq (t := []) (h.toInv.setSess fun _ => ha) rfl ?_ (List.append_nil _).symm (fun _ => rfl)
    intro b _
    rw [setSess_eq]
    split
    next hb =>
      rw [hb]
      exact (Session.fill_same _ now bytes.length).1
    next => rfl
  refused s now h := by
    refine h.of_eq h.toInv.refused rfl ?_ rfl (fun _ => rfl)
    intro a ha
    show (Function.update s.sess s.allocated _ a).serial = _
    rw [Function.update_of_ne (h.bound a ha).ne]
  accepted s now n hc _ hfree h := by
    refine ⟨h.toInv.accepted hc, ?_⟩
    intro hf hrange
    have hfault : s.sessionMap.fault = false := by
      rw [← hf]
      exact (IMap.add_fault h.not_mem_allocated).symm
    have hrange : TableInRange hashFcn (s.trace ++ [.accept s.allocated n]) := hrange
    have hlog := hrange _ List.prefix_rfl
    show Mirrors hashFcn _ (sessionTable hashFcn (s.trace ++ [.accept s.allocated n]))
    rw [sessionTable_append] at hlog ⊢
    exact (h.mirrors hfault (hrange.of_prefix (List.prefix_append _ _))).accepted h.toOK hc hfree.1 hlog
  turn s h := by
    refine h.of_eq (t := []) (inv_step (.quiet .turn) h.toInv trivial) rfl ?_ (List.append_nil _).symm (fun _ => rfl)
    intro a _
    show (s.sess a).turn.serial = _
    unfold Session.turn
    split <;> rfl

theorem Mirrors.find (h : Mirrors hashFcn s U) (serial : UInt32) {fuel : ℕ} (hf : s.hashCount ≤ fuel) :
    U.hashFind hashFcn fuel (serialKey serial) = some (s.hashFindInt serial) := by
  rw [h.stands.find _ (by rwa [List.length_map]), List.find?_map, Option.map_map, hashFindInt]
  have hkey : ∀ a ∈ s.members, ((fun p : ℕ × List UInt8 => decide (p.2 = serialKey serial)) ∘
      fun a => (a, serialKey (s.sess a).serial)) a = decide ((s.sess a).serial = serial) := by
    intro a _
    rw [Function.comp_apply]
    exact decide_eq_decide.2 ⟨serialKey_injective, fun e => by rw [e]⟩
  rw [List.find?_congr hkey]
  exact congrArg some Option.map_id'

end Server

/-- **The session map of the source is the map of the model.** Replay, on the hash table of
`uthash.h`, what a server did to its session map, with any hash function. In every reachable
state, unless a session was deleted twice or the table had 2³² buckets, `HASH_FIND_INT`, `HASH_COUNT`
and `HASH_ITER` end and give what the model has, every stored next pointer is the model's, and nothing
was dereferenced through NULL or divided by 0. -/
theorem sessionTable_mirrors (hashFcn : List UInt8 → UInt32) {s : Server} (h : netServer.Reachable s)
    (hf : s.sessionMap.fault = false) (hrange : TableInRange hashFcn s.trace) :
    let U := sessionTable hashFcn s.trace
    (∀ fuel, s.hashCount ≤ fuel → U.hashIterItems fuel = some s.sessionMap.items ∧
        ∀ serial, U.hashFind hashFcn fuel (serialKey serial) = some (s.hashFindInt serial)) ∧
      U.hashCnt = s.hashCount ∧ (∀ a, U.app.next a = s.hhNext a) ∧ U.fault = false := by
  have hm := ((Server.tabled_kept hashFcn).reachable (fun m b c =>
    ⟨Server.inv_create m b c, fun _ _ => Server.Mirrors.create m b c⟩) h).mirrors hf hrange
  exact ⟨fun fuel hfuel => ⟨hm.holds.iter hfuel, fun serial => hm.find serial hfuel⟩, hm.holds.count, hm.next,
    hm.holds.fault⟩

/-- With its first session in the map, a server finds it under serial 1000, and none under 1001. -/
theorem sessionTable_mirrors_first :
    let s := netServer.exec (Server.qsfCreateNetServer 1 10 10) accepting
    let U := sessionTable hashJen s.trace
    U.hashIterItems 1 = some [0] ∧ U.hashFind hashJen 1 (serialKey 1000) = some (some 0) ∧
      U.hashFind hashJen 1 (serialKey 1001) = some none ∧ U.hashCnt = 1 := by
  have h₀ : netServer.Reachable (Server.qsfCreateNetServer 1 10 10) := .start ⟨1, 10, 10, rfl⟩
  have hr : netServer.Runs (Server.qsfCreateNetServer 1 10 10) accepting := ⟨trivial, rfl, trivial⟩
  obtain ⟨hloops, hcount, -⟩ := sessionTable_mirrors hashJen (h₀.runs hr) (by decide)
    (tableInRange_short hashJen (by decide))
  obtain ⟨hiter, hfind⟩ := hloops 1 (by decide)
  exact ⟨hiter.trans (by decide), (hfind 1000).trans (by decide), (hfind 1001).trans (by decide),
    hcount.trans (by decide)⟩

end Qsf
