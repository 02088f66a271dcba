import Mathlib.Algebra.BigOperators.Group.Finset.Basic
import Mathlib.Algebra.Order.BigOperators.Group.Finset
import Mathlib.Data.List.Find
import Mathlib.Data.Nat.Bitwise
import Qsf.Lib.Machine
import Qsf.Spec.UtHash

/-!
# What the hash table keeps

* `Chained`: the buckets of a table partition its elements, each in a chain linked both ways and
  counted. Adding to a bucket (`Chained.push`), deleting from one (`Chained.delete`) and expanding
  (`expandChained`) keep it.
-/

set_option autoImplicit false

namespace Qsf

variable {hashFcn : List UInt8 → UInt32} {U : UtHash} {items : List ℕ} {a b n : ℕ}

/-! ## Counters -/

theorem unsigned_of_lt (h : n < 4294967296) : unsigned n = n := Nat.mod_eq_of_lt h

theorem unsigned_le (n : ℕ) : unsigned n ≤ n := Nat.mod_le _ _

theorem unsignedPred_eq (h0 : 0 < n) (h : n < 4294967296) : unsignedPred n = n - 1 := by
  unfold unsignedPred unsigned
  omega

theorem two_pow_lt {k : ℕ} (hk : k < 32) : 2 ^ k < 4294967296 :=
  (Nat.pow_lt_pow_right (by norm_num) hk).trans_eq (by norm_num)

/-! ## Buckets -/

theorem hashToBkt_eq (v : UInt32) {k : ℕ} (hk : k < 32) : hashToBkt v (2 ^ k) = v.toNat % 2 ^ k := by
  rw [hashToBkt, unsignedPred_eq (Nat.two_pow_pos k) (two_pow_lt hk)]
  exact Nat.and_two_pow_sub_one_eq_mod _ _

theorem hashToBkt_lt (v : UInt32) {k : ℕ} (hk : k < 32) : hashToBkt v (2 ^ k) < 2 ^ k := by
  rw [hashToBkt_eq v hk]
  exact Nat.mod_lt _ (Nat.two_pow_pos k)

/-- The chains `C` of `n` buckets hold the elements `items`, each in the bucket of its hash value. -/
structure Chained (L : DLinks ℕ) (hashv : ℕ → UInt32) (n : ℕ) (B : ℕ → UtBucket) (items : List ℕ)
    (C : ℕ → List ℕ) : Prop where
  lists : L.Lists C
  mem : ∀ b a, a ∈ C b ↔ a ∈ items ∧ hashToBkt (hashv a) n = b
  head : ∀ b, (B b).hhHead = (C b).head?
  count : ∀ b, (B b).count = (C b).length

namespace Chained

variable {L : DLinks ℕ} {hashv : ℕ → UInt32} {B : ℕ → UtBucket} {C : ℕ → List ℕ}

/-- No chain is longer than the table. -/
theorem length_le (h : Chained L hashv n B items C) (b : ℕ) :
    (C b).length ≤ items.length := by
  refine (List.subperm_of_subset (h.lists.nodup b) ?_).length_le
  exact fun a ha => ((h.mem b a).1 ha).1

theorem count_succ (h : Chained L hashv n B items C) (hlen : items.length + 1 < 4294967296) (b : ℕ) :
    unsigned ((B b).count + 1) = (B b).count + 1 := by
  have hle := h.length_le b
  rw [h.count]
  exact unsigned_of_lt (by omega)

/-- **An element goes to the front of its bucket.** -/
theorem push (h : Chained L hashv n B items C) (hlen : items.length + 1 < 4294967296) (ha : a ∉ items)
    (hb : hashToBkt (hashv a) n = b) (mult : ℕ) :
    Chained (L.pushFront (B b).hhHead a) hashv n (Function.update B b ⟨some a, unsigned ((B b).count + 1), mult⟩)
      (items ++ [a]) (Function.update C b (a :: C b)) := by
  refine ⟨?_, ?_, ?_, ?_⟩
  · rw [h.head]
    exact h.lists.pushFront (fun c hc => ha ((h.mem c a).1 hc).1) b
  · intro c x
    rw [List.mem_append, List.mem_singleton]
    -- the other buckets keep what they have: the new element hashes to this one
    by_cases hc : c = b
    · subst hc
      rw [Function.update_self, List.mem_cons, h.mem]
      constructor
      · rintro (rfl | hx)
        · exact ⟨.inr rfl, hb⟩
        · exact ⟨.inl hx.1, hx.2⟩
      · rintro ⟨hx | rfl, hbx⟩
        · exact .inr ⟨hx, hbx⟩
        · exact .inl rfl
    · rw [Function.update_of_ne hc, h.mem]
      constructor
      · exact fun hx => ⟨.inl hx.1, hx.2⟩
      · rintro ⟨hx | rfl, hbx⟩
        · exact ⟨hx, hbx⟩
        · exact absurd (hbx.symm.trans hb) hc
  · intro c
    by_cases hc : c = b
    · subst hc
      rw [Function.update_self, Function.update_self]
      rfl
    · rw [Function.update_of_ne hc, Function.update_of_ne hc, h.head]
  · intro c
    by_cases hc : c = b
    · subst hc
      rw [Function.update_self, Function.update_self, List.length_cons, ← h.count]
      exact h.count_succ hlen c
    · rw [Function.update_of_ne hc, Function.update_of_ne hc, h.count]

/-- **An element leaves its bucket.** -/
theorem delete (h : Chained L hashv n B items C) (hlen : items.length < 4294967296) (hn : items.Nodup) (ha : a ∈ items)
    (hb : hashToBkt (hashv a) n = b) :
    Chained (L.unlink a) hashv n
      (Function.update B b ⟨if (B b).hhHead = some a then L.next a else (B b).hhHead, unsignedPred (B b).count,
        (B b).expandMult⟩) (items.erase a) (Function.update C b ((C b).erase a)) := by
  have hab : a ∈ C b := (h.mem b a).2 ⟨ha, hb⟩
  refine ⟨h.lists.unlink hab, ?_, ?_, ?_⟩
  · intro c x
    rw [hn.mem_erase_iff]
    by_cases hc : c = b
    · subst hc
      rw [Function.update_self, (h.lists.nodup c).mem_erase_iff, h.mem, and_assoc]
    · rw [Function.update_of_ne hc, h.mem]
      constructor
      · rintro ⟨hx, hbx⟩
        refine ⟨⟨?_, hx⟩, hbx⟩
        rintro rfl
        exact hc (hbx.symm.trans hb)
      · exact fun hx => ⟨hx.1.2, hx.2⟩
  · intro c
    by_cases hc : c = b
    · subst hc
      rw [Function.update_self, Function.update_self]
      have hs := h.lists.seg c
      show (if (B c).hhHead = some a then L.next a else (B c).hhHead) = _
      rw [h.head]
      -- only the element at the front moves the head of the bucket
      cases hC : C c with
      | nil =>
        rw [hC] at hab
        exact absurd hab List.not_mem_nil
      | cons x l =>
        rw [hC] at hs
        rw [List.head?_cons]
        by_cases hx : x = a
        · subst hx
          rw [if_pos rfl, List.erase_cons_head, hs.2.1, Option.or_none]
        · rw [if_neg (fun e => hx (Option.some.inj e)), List.erase_cons_tail (by simpa using hx)]
          rfl
    · rw [Function.update_of_ne hc, Function.update_of_ne hc, h.head]
  · intro c
    by_cases hc : c = b
    · subst hc
      rw [Function.update_self, Function.update_self, List.length_erase_of_mem hab]
      show unsignedPred (B c).count = _
      rw [h.count]
      exact unsignedPred_eq (List.length_pos_of_mem hab) ((h.length_le c).trans_lt hlen)
    · rw [Function.update_of_ne hc, Function.update_of_ne hc, h.count]

/-- The hash values of other elements do not matter. -/
theorem congr {hashv' : ℕ → UInt32} (h : Chained L hashv n B items C)
    (heq : ∀ a ∈ items, hashv' a = hashv a) : Chained L hashv' n B items C := by
  refine { h with mem := ?_ }
  intro b a
  rw [h.mem]
  constructor
  · exact fun hx => ⟨hx.1, (heq a hx.1).symm ▸ hx.2⟩
  · exact fun hx => ⟨hx.1, heq a hx.1 ▸ hx.2⟩

theorem of_mem {items' : List ℕ} (h : Chained L hashv n B items C) (heq : ∀ a, a ∈ items ↔ a ∈ items') :
    Chained L hashv n B items' C :=
  { h with mem := fun b a => by rw [h.mem, heq] }

/-- The elements of a table in the order of its buckets. -/
theorem perm {k : ℕ} (h : Chained L hashv (2 ^ k) B items C) (hk : k < 32) (hn : items.Nodup) :
    ((List.range (2 ^ k)).flatMap C).Perm items := by
  refine (List.perm_ext_iff_of_nodup ?_ hn).2 ?_
  · refine List.nodup_flatMap.2 ⟨fun b _ => h.lists.nodup b, ?_⟩
    refine List.nodup_range.imp_of_mem ?_
    intro b c _ _ hbc x hb hc
    exact hbc (h.lists.apart hb hc)
  · intro a
    rw [List.mem_flatMap]
    constructor
    · rintro ⟨b, -, hb⟩
      exact ((h.mem b a).1 hb).1
    · intro ha
      exact ⟨_, List.mem_range.2 (hashToBkt_lt (hashv a) hk), (h.mem _ a).2 ⟨ha, rfl⟩⟩

/-- **The counts of the buckets add up to the number of items.** -/
theorem sum_count {k : ℕ} (h : Chained L hashv (2 ^ k) B items C) (hk : k < 32) (hn : items.Nodup) :
    ∑ b ∈ Finset.range (2 ^ k), (B b).count = items.length := by
  rw [← (h.perm hk hn).length_eq, List.length_flatMap, ← Multiset.sum_coe]
  exact Finset.sum_congr rfl fun b _ => h.count b

end Chained

/-- No elements, and buckets after `memset`. -/
theorem chained_nil (L : DLinks ℕ) (hashv : ℕ → UInt32) (n : ℕ) :
    Chained L hashv n (fun _ => .zero) [] (fun _ => []) := by
  refine ⟨⟨fun _ => trivial, fun _ => List.nodup_nil, ?_⟩, ?_, fun _ => rfl, fun _ => rfl⟩
  · exact fun hb _ => absurd hb List.not_mem_nil
  · exact fun b a => ⟨fun ha => absurd ha List.not_mem_nil, fun ha => absurd ha.1 List.not_mem_nil⟩

/-! ## Expanding -/

namespace Expansion

variable {hashv : ℕ → UInt32} {ideal fuel : ℕ} {x : Expansion} {L : DLinks ℕ} {p : Option ℕ} {l : List ℕ}

theorem move_next (h : b ≠ a) : (x.move hashv n ideal a).chain.next b = x.chain.next b := by
  show (x.chain.pushFront _ a).next b = x.chain.next b
  rw [DLinks.pushFront_next, if_neg h]

theorem foldl_move_next (h : b ∉ l) :
    (l.foldl (move hashv n ideal) x).chain.next b = x.chain.next b := by
  induction l generalizing x with
  | nil => rfl
  | cons a l ih =>
    rw [List.foldl_cons, ih (List.not_mem_of_not_mem_cons h), move_next (List.ne_of_not_mem_cons h)]

/-- The inner loop visits the chain, although it relinks each handle on the way. -/
theorem moveChain_eq (hs : L.Seg p l none) (hn : l.Nodup) (hx : ∀ a ∈ l, x.chain.next a = L.next a)
    (hf : l.length ≤ fuel) :
    x.moveChain hashv n ideal fuel l.head? = l.foldl (move hashv n ideal) x := by
  induction l generalizing x p fuel with
  | nil => cases fuel <;> rfl
  | cons a l ih =>
    obtain ⟨f, rfl⟩ : ∃ f, fuel = f + 1 := ⟨fuel - 1, by rw [List.length_cons] at hf; omega⟩
    have hnext : x.chain.next a = l.head? := by
      rw [hx a List.mem_cons_self, hs.2.1, Option.or_none]
    rw [List.head?_cons, moveChain, hnext, List.foldl_cons]
    refine ih hs.2.2 (List.nodup_cons.1 hn).2 ?_ ?_
    · intro c hc
      have hca : c ≠ a := by
        rintro rfl
        exact (List.nodup_cons.1 hn).1 hc
      rw [move_next hca, hx c (List.mem_cons_of_mem a hc)]
    · rw [List.length_cons] at hf
      omega

variable (hashv) (ideal) in
/-- The outer loop visits one chain after the other. -/
theorem foldl_moveChain {B : ℕ → UtBucket} {C : ℕ → List ℕ} {bs : List ℕ} (hs : ∀ b, L.Seg none (C b) none)
    (hhead : ∀ b, (B b).hhHead = (C b).head?) (hf : ∀ b, (C b).length ≤ fuel)
    (hn : (bs.flatMap C).Nodup) (hx : ∀ a ∈ bs.flatMap C, x.chain.next a = L.next a) :
    bs.foldl (fun x b => x.moveChain hashv n ideal fuel (B b).hhHead) x =
      (bs.flatMap C).foldl (move hashv n ideal) x := by
  induction bs generalizing x with
  | nil => rfl
  | cons b bs ih =>
    rw [List.flatMap_cons] at hn hx
    obtain ⟨hb, hbs, hdisj⟩ := List.nodup_append.1 hn
    rw [List.foldl_cons, List.flatMap_cons, List.foldl_append, hhead,
      moveChain_eq (hs b) hb (fun a ha => hx a (List.mem_append_left _ ha)) (hf b)]
    refine ih hbs ?_
    intro a ha
    rw [foldl_move_next fun hab => hdisj a hab a ha rfl, hx a (List.mem_append_right _ ha)]

/-- The multiplier of a bucket, by the number of its handles. -/
def multOf (ideal count : ℕ) : ℕ := if ideal < count then count / ideal else 0

variable (ideal) in
/-- **What one move keeps.** -/
theorem move_chained {C : ℕ → List ℕ} (h : Chained x.chain hashv n x.newBuckets items C)
    (hlen : items.length + 1 < 4294967296) (ha : a ∉ items) :
    ∃ C, Chained (x.move hashv n ideal a).chain hashv n (x.move hashv n ideal a).newBuckets
      (items ++ [a]) C := by
  let b := hashToBkt (hashv a) n
  refine ⟨Function.update C b (a :: C b), ?_⟩
  unfold move
  by_cases hi : ideal < unsigned ((x.newBuckets b).count + 1)
  · simpa only [b, hi, if_true] using h.push hlen ha rfl (unsigned ((x.newBuckets b).count + 1) / ideal)
  · simpa only [b, hi, if_false] using h.push hlen ha rfl (x.newBuckets b).expandMult

theorem move_mult (hcount : ∀ b, unsigned ((x.newBuckets b).count + 1) = (x.newBuckets b).count + 1)
    (h : ∀ b, (x.newBuckets b).expandMult = multOf ideal (x.newBuckets b).count) (b : ℕ) :
    ((x.move hashv n ideal a).newBuckets b).expandMult =
      multOf ideal ((x.move hashv n ideal a).newBuckets b).count := by
  unfold move
  by_cases hb : b = hashToBkt (hashv a) n
  · subst hb
    have hold := h (hashToBkt (hashv a) n)
    by_cases hi : ideal < (x.newBuckets (hashToBkt (hashv a) n)).count + 1
    · simp only [Function.update_self, hcount, hi, if_true, multOf]
    · rw [multOf, if_neg (by omega)] at hold
      simp only [Function.update_self, hcount, hi, if_false, multOf, hold]
  · simp only [Function.update_of_ne hb, h]

theorem move_fault (hideal : 0 < ideal) : (x.move hashv n ideal a).fault = x.fault := by
  have hne : (ideal == 0) = false := beq_eq_false_iff_ne.2 hideal.ne'
  show (x.fault || (_ && ideal == 0)) = x.fault
  rw [hne, Bool.and_false, Bool.or_false]

variable (ideal) in
/-- **Moving a list of handles** into buckets that hold `items`. -/
theorem foldl_move {C : ℕ → List ℕ} (h : Chained x.chain hashv n x.newBuckets items C)
    (hlen : (items ++ l).length < 4294967296) (hn : (items ++ l).Nodup)
    (hmult : ∀ b, (x.newBuckets b).expandMult = multOf ideal (x.newBuckets b).count)
    (hideal : 0 < ideal) :
    ∃ C, Chained (l.foldl (move hashv n ideal) x).chain hashv n (l.foldl (move hashv n ideal) x).newBuckets
        (items ++ l) C ∧
      (∀ b, ((l.foldl (move hashv n ideal) x).newBuckets b).expandMult =
        multOf ideal ((l.foldl (move hashv n ideal) x).newBuckets b).count) ∧
      (l.foldl (move hashv n ideal) x).fault = x.fault := by
  induction l generalizing x items C with
  | nil => exact ⟨C, by rwa [List.append_nil], hmult, rfl⟩
  | cons a l ih =>
    have ha : a ∉ items := fun e => (List.nodup_append.1 hn).2.2 a e a List.mem_cons_self rfl
    have hone : items.length + 1 < 4294967296 := by
      rw [List.length_append, List.length_cons] at hlen
      omega
    obtain ⟨C', hC'⟩ := move_chained ideal h hone ha
    rw [List.append_cons] at hlen hn ⊢
    obtain ⟨C'', hC'', hm, hf⟩ := ih hC' hlen hn (move_mult (h.count_succ hone) hmult)
    exact ⟨C'', hC'', hm, hf.trans (move_fault hideal)⟩

end Expansion

namespace UtHash

/-- The ideal length is the number of items by the new number of buckets, rounded up. -/
theorem idealChainMaxlen_le {T : UtTable} (h : T.numBuckets = 2 ^ T.log2NumBuckets) (hlog : T.log2NumBuckets + 1 < 32)
    (hitems : T.numItems < 4294967296) (c : ℕ) : idealChainMaxlen T ≤ c ↔ T.numItems ≤ T.numBuckets * 2 * c := by
  have hpos : 0 < 2 ^ (T.log2NumBuckets + 1) := Nat.two_pow_pos _
  have hdiv := Nat.div_add_mod T.numItems (2 ^ (T.log2NumBuckets + 1))
  have hlt := Nat.mod_lt T.numItems hpos
  have hhalf : T.numItems / 2 ^ (T.log2NumBuckets + 1) ≤ T.numItems / 2 :=
    Nat.div_le_div_left (Nat.le_self_pow (Nat.succ_ne_zero _) 2) (by norm_num)
  rw [idealChainMaxlen, h, ← pow_succ, unsigned_of_lt (two_pow_lt hlog),
    unsigned_of_lt (by omega : T.log2NumBuckets + 1 < 4294967296), unsignedPred_eq hpos (two_pow_lt hlog),
    Nat.shiftRight_eq_div_pow, Nat.and_two_pow_sub_one_eq_mod, unsigned_of_lt (by split <;> omega)]
  clear hhalf
  generalize T.numItems / 2 ^ (T.log2NumBuckets + 1) = q at *
  generalize T.numItems % 2 ^ (T.log2NumBuckets + 1) = r at *
  generalize 2 ^ (T.log2NumBuckets + 1) = N at *
  rw [← hdiv]
  by_cases hr : r = 0
  · subst hr
    rw [if_neg (fun e => e rfl), Nat.add_zero, Nat.add_zero]
    exact (Nat.mul_le_mul_left_iff hpos).symm
  · rw [if_pos hr]
    constructor
    · intro hq
      calc N * q + r ≤ N * q + N := Nat.add_le_add_left hlt.le _
        _ = N * (q + 1) := (Nat.mul_succ N q).symm
        _ ≤ N * c := Nat.mul_le_mul_left N hq
    · intro hc
      refine Nat.succ_le_of_lt (Nat.lt_of_mul_lt_mul_left (a := N) ?_)
      omega

/-- **What the loops of an expansion do**: the same elements, in twice as many buckets. -/
theorem redistribute_spec {C : ℕ → List ℕ} (h : Chained U.chain U.hashv U.tbl.numBuckets U.tbl.buckets items C)
    (hlen : items.length < 4294967296) (hlog : U.tbl.log2NumBuckets + 1 < 32)
    (hn : items.Nodup) (hne : items ≠ []) (hk : U.tbl.numBuckets = 2 ^ U.tbl.log2NumBuckets)
    (hitems : U.tbl.numItems = items.length) :
    ∃ C, Chained U.redistribute.chain U.hashv (unsigned (U.tbl.numBuckets * 2)) U.redistribute.newBuckets items C ∧
      (∀ b, (U.redistribute.newBuckets b).expandMult =
        Expansion.multOf (idealChainMaxlen U.tbl) (U.redistribute.newBuckets b).count) ∧
      U.redistribute.fault = U.fault := by
  have hpos : 0 < idealChainMaxlen U.tbl := by
    refine Nat.pos_of_ne_zero fun h0 => hne (List.length_eq_zero_iff.1 ?_)
    have h1 := (idealChainMaxlen_le hk hlog (hitems ▸ hlen) 0).1 h0.le
    omega
  have hperm := (hk ▸ h : Chained _ _ (2 ^ U.tbl.log2NumBuckets) _ _ _).perm (Nat.lt_of_succ_lt hlog) hn
  have hnodup := hperm.nodup_iff.2 hn
  have hloop := Expansion.foldl_moveChain U.hashv (idealChainMaxlen U.tbl) (n := unsigned (U.tbl.numBuckets * 2))
    (x := ⟨U.chain, fun _ => .zero, 0, U.fault⟩) h.lists.seg h.head
    (fun b => hitems ▸ h.length_le b) hnodup (fun a _ => rfl)
  rw [← hk] at hperm hnodup hloop
  obtain ⟨C', hC', hmult, hfault⟩ := Expansion.foldl_move (idealChainMaxlen U.tbl)
    (x := ⟨U.chain, fun _ => .zero, 0, U.fault⟩) (chained_nil _ _ _)
    (by rwa [List.nil_append, hperm.length_eq]) (by rwa [List.nil_append]) (fun _ => rfl) hpos
  rw [← hloop] at hC' hmult hfault
  exact ⟨C', hC'.of_mem fun a => by rw [List.nil_append, hperm.mem_iff], hmult, hfault⟩

/-! ## The table as a whole -/

/-- A table in memory that holds `items`, in this order, in the chains `C`. -/
structure Stored (hashFcn : List UInt8 → UInt32) (U : UtHash) (items : List ℕ) (C : ℕ → List ℕ) : Prop where
  nodup : items.Nodup
  nonempty : items ≠ []
  length_lt : items.length < 4294967296
  log2_lt : U.tbl.log2NumBuckets < 32
  head : U.head = items.head?
  tail : U.tbl.tail = items.getLast?
  app : U.app.Seg none items none
  numItems : U.tbl.numItems = items.length
  numBuckets : U.tbl.numBuckets = 2 ^ U.tbl.log2NumBuckets
  hashed : ∀ a ∈ items, U.hashv a = hashFcn (U.key a)
  chained : Chained U.chain U.hashv U.tbl.numBuckets U.tbl.buckets items C
  fault : U.fault = false

/-- **Expanding keeps the table.** -/
theorem Stored.expand {C : ℕ → List ℕ} (h : Stored hashFcn U items C) (hlog : U.tbl.log2NumBuckets + 1 < 32) :
    ∃ C, Stored hashFcn U.hashExpandBuckets items C := by
  obtain ⟨C', hC', -, hf⟩ := redistribute_spec h.chained h.length_lt hlog h.nodup h.nonempty h.numBuckets h.numItems
  refine ⟨C', { h with log2_lt := ?_, numBuckets := ?_, chained := hC', fault := hf.trans h.fault }⟩
  · exact (unsigned_le _).trans_lt hlog
  · show unsigned (U.tbl.numBuckets * 2) = 2 ^ unsigned (U.tbl.log2NumBuckets + 1)
    rw [unsigned_of_lt (by omega : U.tbl.log2NumBuckets + 1 < 4294967296), h.numBuckets, ← pow_succ,
      unsigned_of_lt (two_pow_lt hlog)]

/-- The number of buckets did not wrap around. -/
theorem Stored.log2_succ {C : ℕ → List ℕ} (h : Stored hashFcn U items C)
    (hlog : U.hashExpandBuckets.tbl.log2NumBuckets < 32) : U.tbl.log2NumBuckets + 1 < 32 := by
  have hlt := h.log2_lt
  have heq : U.hashExpandBuckets.tbl.log2NumBuckets = U.tbl.log2NumBuckets + 1 := unsigned_of_lt (by omega)
  rwa [heq] at hlog

/-- The table is `items` in memory, or a head pointer that is NULL. -/
def Holds (hashFcn : List UInt8 → UInt32) (U : UtHash) (items : List ℕ) : Prop :=
  (items = [] ∧ U.head = none ∧ U.fault = false) ∨ ∃ C, Stored hashFcn U items C

theorem Holds.head (h : Holds hashFcn U items) : U.head = items.head? := by
  obtain ⟨rfl, hhead, -⟩ | ⟨C, hC⟩ := h
  · exact hhead
  · exact hC.head

theorem Holds.nodup (h : Holds hashFcn U items) : items.Nodup := by
  obtain ⟨rfl, -⟩ | ⟨C, hC⟩ := h
  · exact List.nodup_nil
  · exact hC.nodup

theorem Holds.fault (h : Holds hashFcn U items) : U.fault = false := by
  obtain ⟨-, -, hf⟩ | ⟨C, hC⟩ := h
  · exact hf
  · exact hC.fault

/-! ## Adding -/

/-- `a` is in the application order, the buckets hold the other elements. -/
structure Linked (hashFcn : List UInt8 → UInt32) (U : UtHash) (items : List ℕ) (a : ℕ) (C : ℕ → List ℕ) :
    Prop where
  length_lt : items.length + 1 < 4294967296
  log2_lt : U.tbl.log2NumBuckets < 32
  head : U.head = (items ++ [a]).head?
  tail : U.tbl.tail = some a
  app : U.app.Seg none (items ++ [a]) none
  numItems : U.tbl.numItems = items.length + 1
  numBuckets : U.tbl.numBuckets = 2 ^ U.tbl.log2NumBuckets
  hashed : ∀ b ∈ items ++ [a], U.hashv b = hashFcn (U.key b)
  chained : Chained U.chain U.hashv U.tbl.numBuckets U.tbl.buckets items C
  fault : U.fault = false

theorem linkItem_key (key : List UInt8) : (U.linkItem hashFcn a key).key = Function.update U.key a key := by
  unfold linkItem appendItem
  cases U.head <;> rfl

theorem linkItem_hashv (key : List UInt8) :
    (U.linkItem hashFcn a key).hashv = Function.update U.hashv a (hashFcn key) := by
  unfold linkItem appendItem
  cases U.head <;> rfl

theorem Holds.link (h : Holds hashFcn U items) (hlen : items.length + 1 < 4294967296) (ha : a ∉ items) (key : List UInt8) :
    ∃ C, Linked hashFcn (U.linkItem hashFcn a key) items a C := by
  have hne : ∀ b ∈ items, b ≠ a := fun b hb e => ha (e ▸ hb)
  have hself : (U.linkItem hashFcn a key).hashv a = hashFcn ((U.linkItem hashFcn a key).key a) := by
    rw [linkItem_key, linkItem_hashv, Function.update_self, Function.update_self]
  obtain ⟨rfl, hhead, hf⟩ | ⟨C, hC⟩ := h
  -- the first element: HASH_MAKE_TABLE
  · have heq : U.linkItem hashFcn a key = { U with
        head := some a
        tbl := { hashMakeTable a with numItems := 1 }
        app := U.app.pushBack none a
        key := Function.update U.key a key
        hashv := Function.update U.hashv a (hashFcn key) } := by
      simp only [linkItem, appendItem, hhead]
      rfl
    refine ⟨fun _ => [], ?_⟩
    rw [heq] at hself ⊢
    refine ⟨hlen, (by norm_num : 5 < 32), rfl, rfl, ?_, rfl, rfl, ?_, chained_nil _ _ _, hf⟩
    · exact DLinks.Seg.pushBack (l := []) trivial List.nodup_nil List.not_mem_nil
    · intro b hb
      rw [List.nil_append, List.mem_singleton] at hb
      exact hb ▸ hself
  · obtain ⟨h0, hh0⟩ : ∃ h0, U.head = some h0 := by
      rw [hC.head]
      exact Option.ne_none_iff_exists'.1 fun e => hC.nonempty (List.head?_eq_none_iff.1 e)
    obtain ⟨t, ht⟩ : ∃ t, U.tbl.tail = some t := by
      rw [hC.tail]
      exact Option.ne_none_iff_exists'.1 fun e => hC.nonempty (List.getLast?_eq_none_iff.1 e)
    have heq : U.linkItem hashFcn a key = { U with
        app := U.app.pushBack U.tbl.tail a
        tbl := { U.tbl with tail := some a, numItems := unsigned (U.tbl.numItems + 1) }
        key := Function.update U.key a key
        hashv := Function.update U.hashv a (hashFcn key) } := by
      simp only [linkItem, appendItem, hh0, ht, Option.isNone_some, Bool.or_false]
    refine ⟨C, ?_⟩
    rw [heq] at hself ⊢
    refine ⟨hlen, hC.log2_lt, ?_, rfl, ?_, ?_, hC.numBuckets, ?_, ?_, hC.fault⟩
    · show U.head = _
      rw [hC.head, List.head?_append_of_ne_nil _ hC.nonempty]
    · show (U.app.pushBack U.tbl.tail a).Seg none _ none
      rw [hC.tail]
      exact hC.app.pushBack hC.nodup ha
    · show unsigned (U.tbl.numItems + 1) = _
      rw [hC.numItems, unsigned_of_lt hlen]
    · intro b hb
      rcases List.mem_append.1 hb with hb | hb
      · show Function.update U.hashv a _ b = hashFcn (Function.update U.key a key b)
        rw [Function.update_of_ne (hne b hb), Function.update_of_ne (hne b hb), hC.hashed b hb]
      · exact List.mem_singleton.1 hb ▸ hself
    · exact hC.chained.congr fun b hb => Function.update_of_ne (hne b hb) _ _

theorem addToBkt_bucket : (U.addToBkt b a).tbl.buckets b =
    ⟨some a, unsigned ((U.tbl.buckets b).count + 1), (U.tbl.buckets b).expandMult⟩ :=
  Function.update_self ..

theorem Linked.stored {C : ℕ → List ℕ} (h : Linked hashFcn U items a C) (hn : items.Nodup) (ha : a ∉ items) :
    ∃ C, Stored hashFcn (U.addToBkt (hashToBkt (U.hashv a) U.tbl.numBuckets) a) (items ++ [a]) C := by
  refine ⟨_, ?_, ?_, ?_, h.log2_lt, h.head, ?_, h.app, ?_, h.numBuckets, h.hashed,
    h.chained.push h.length_lt ha rfl _, h.fault⟩
  · exact List.nodup_append.2 ⟨hn, List.nodup_singleton a, fun b hb c hc e => ha (by
      rw [← List.mem_singleton.1 hc, ← e]
      exact hb)⟩
  · exact List.append_ne_nil_of_right_ne_nil _ (List.cons_ne_nil a [])
  · rw [List.length_append]
    exact h.length_lt
  · rw [List.getLast?_concat]
    exact h.tail
  · rw [List.length_append]
    exact h.numItems

/-- **Adding keeps the table.** -/
theorem Holds.add (h : Holds hashFcn U items) (hlen : items.length + 1 < 4294967296) (ha : a ∉ items) (key : List UInt8)
    (hlog : (U.hashAddKeyptr hashFcn a key).tbl.log2NumBuckets < 32) :
    Holds hashFcn (U.hashAddKeyptr hashFcn a key) (items ++ [a]) := by
  obtain ⟨C, hC⟩ := h.link hlen ha key
  obtain ⟨C', hC'⟩ := hC.stored h.nodup ha
  rw [linkItem_hashv, Function.update_self] at hC'
  refine .inr ?_
  revert hlog
  unfold hashAddKeyptr hashAddToBkt
  dsimp only
  split
  · exact fun hlog => hC'.expand (hC'.log2_succ hlog)
  · exact fun _ => ⟨C', hC'⟩

/-! ## Deleting -/

theorem delete_last (hhead : U.head ≠ none) (hp : U.app.prev a = none) (hn : U.app.next a = none) :
    U.hashDelete a = { U with head := none } := by
  rw [hashDelete, if_neg hhead, if_pos ⟨hp, hn⟩]

/-- **Deleting keeps the table.** -/
theorem Holds.delete (h : Holds hashFcn U items) (ha : a ∈ items) :
    Holds hashFcn (U.hashDelete a) (items.erase a) := by
  obtain ⟨rfl, -⟩ | ⟨C, hC⟩ := h
  · exact absurd ha List.not_mem_nil
  obtain ⟨l, m, hlm⟩ := List.append_of_mem ha
  have hn : (l ++ a :: m).Nodup := hlm ▸ hC.nodup
  have hl : a ∉ l := fun e => (List.nodup_append.1 hn).2.2 a e a List.mem_cons_self rfl
  have hm : a ∉ m := (List.nodup_cons.1 (List.nodup_append.1 hn).2.1).1
  have herase : items.erase a = l ++ m := by
    rw [hlm, List.erase_append_right _ hl, List.erase_cons_head]
  have happ : U.app.Seg none (l ++ a :: m) none := hlm ▸ hC.app
  obtain ⟨hprev, hnext⟩ := happ.at
  have hhead : U.head ≠ none := by
    rw [hC.head]
    exact fun e => hC.nonempty (List.head?_eq_none_iff.1 e)
  by_cases hlast : U.app.prev a = none ∧ U.app.next a = none
  -- the table is freed with its last element
  · have hl0 : l = [] := List.getLast?_eq_none_iff.1 (hprev ▸ hlast.1)
    have hm0 : m = [] := List.head?_eq_none_iff.1 (hnext ▸ hlast.2)
    rw [delete_last hhead hlast.1 hlast.2, herase, hl0, hm0]
    exact .inl ⟨rfl, rfl, hC.fault⟩
  · have hchain := hC.chained.delete hC.length_lt hC.nodup ha rfl
    rw [hashDelete, if_neg hhead, if_neg hlast]
    refine .inr ⟨_, ?_, ?_, ?_, hC.log2_lt, ?_, ?_, ?_, ?_, hC.numBuckets, ?_, hchain, hC.fault⟩
    · exact hC.nodup.erase a
    · rw [herase]
      intro e
      obtain ⟨hl0, hm0⟩ := List.append_eq_nil_iff.1 e
      exact hlast ⟨by rw [hprev, hl0]; rfl, by rw [hnext, hm0]; rfl⟩
    · exact List.length_erase_le.trans_lt hC.length_lt
    · show (if (U.app.prev a).isSome then U.head else U.app.next a) = _
      rw [herase, hprev, hnext, hC.head, hlm]
      cases l <;> simp
    · show (if U.tbl.tail = some a then U.app.prev a else U.tbl.tail) = _
      rw [herase, hprev, hC.tail, hlm, List.getLast?_append_cons]
      rcases List.eq_nil_or_concat m with rfl | ⟨m, t, rfl⟩
      · rw [List.getLast?_singleton, if_pos rfl, List.append_nil]
      · rw [List.concat_eq_append, ← List.cons_append, List.getLast?_concat, if_neg, ← List.append_assoc,
          List.getLast?_concat]
        intro e
        exact hm (by simp [Option.some.inj e])
    · show (U.app.unlink a).Seg none _ none
      rw [herase]
      exact happ.unlink hn
    · show unsignedPred U.tbl.numItems = _
      rw [List.length_erase_of_mem ha, hC.numItems]
      exact unsignedPred_eq (List.length_pos_of_mem ha) hC.length_lt
    · intro b hb
      exact hC.hashed b (List.mem_of_mem_erase hb)

/-! ## Finding -/

/-- The loop goes along the chain. -/
theorem hashFindInBkt_eq {p : Option ℕ} {l : List ℕ} {fuel : ℕ} (hs : U.chain.Seg p l none)
    (hf : l.length ≤ fuel) (key : List UInt8) :
    U.hashFindInBkt key fuel l.head? = some (l.find? (fun a => U.key a = key)) := by
  induction l generalizing p fuel with
  | nil => cases fuel <;> rfl
  | cons a l ih =>
    obtain ⟨f, rfl⟩ : ∃ f, fuel = f + 1 := ⟨fuel - 1, by rw [List.length_cons] at hf; omega⟩
    have hnext : U.chain.next a = l.head? := by
      rw [hs.2.1, Option.or_none]
    rw [List.head?_cons, hashFindInBkt, hnext, List.find?_cons]
    by_cases hk : U.key a = key
    · rw [if_pos hk, decide_eq_true hk]
    · rw [if_neg hk, decide_eq_false hk]
      exact ih hs.2.2 (Nat.le_of_succ_le_succ hf)

/-- Finding compares the keys of one chain. -/
theorem Stored.hashFind_eq {C : ℕ → List ℕ} (h : Stored hashFcn U items C) (key : List UInt8) {fuel : ℕ}
    (hf : (C (hashToBkt (hashFcn key) U.tbl.numBuckets)).length ≤ fuel) :
    U.hashFind hashFcn fuel key =
      some ((C (hashToBkt (hashFcn key) U.tbl.numBuckets)).find? (fun a => U.key a = key)) := by
  obtain ⟨h0, hh0⟩ : ∃ h0, U.head = some h0 := by
    rw [h.head]
    exact Option.ne_none_iff_exists'.1 fun e => h.nonempty (List.head?_eq_none_iff.1 e)
  rw [hashFind, hh0, ← hashFindInBkt_eq (h.chained.lists.seg _) hf key, ← h.chained.head]

/-- The chain is in another order than the list, but only one element has the key. -/
theorem Stored.find_chain {C : ℕ → List ℕ} (h : Stored hashFcn U items C)
    (hinj : ∀ a ∈ items, ∀ b ∈ items, U.key a = U.key b → a = b) (key : List UInt8) :
    (C (hashToBkt (hashFcn key) U.tbl.numBuckets)).find? (fun a => U.key a = key) =
      items.find? (fun a => U.key a = key) := by
  refine Option.ext fun a => ?_
  have hmem : a ∈ C (hashToBkt (hashFcn key) U.tbl.numBuckets) ∧ U.key a = key ↔
      a ∈ items ∧ U.key a = key := by
    rw [h.chained.mem]
    constructor
    · exact fun ha => ⟨ha.1.1, ha.2⟩
    · rintro ⟨ha, rfl⟩
      exact ⟨⟨ha, by rw [h.hashed a ha]⟩, rfl⟩
  have huniq : ∀ l : List ℕ, (∀ b ∈ l, b ∈ items) →
      (l.find? (fun a => U.key a = key) = some a ↔ a ∈ l ∧ U.key a = key) := by
    intro l hl
    constructor
    · intro ha
      have hk := List.find?_some ha
      exact ⟨List.mem_of_find?_eq_some ha, of_decide_eq_true hk⟩
    · rintro ⟨ha, hk⟩
      obtain ⟨b, hb⟩ : ∃ b, l.find? (fun a => U.key a = key) = some b :=
        Option.isSome_iff_exists.1 (List.find?_isSome.2 ⟨a, ha, decide_eq_true hk⟩)
      have hbk := List.find?_some hb
      have hbk : U.key b = key := of_decide_eq_true hbk
      rw [hb, hinj b (hl b (List.mem_of_find?_eq_some hb)) a (hl a ha) (hbk.trans hk.symm)]
  rw [huniq items (fun b hb => hb), huniq _ (fun b hb => ((h.chained.mem _ b).1 hb).1), hmem]

/-- **Finding**: only an element with the key is found, and one is found if there is one. -/
theorem Holds.find (h : Holds hashFcn U items) (hinj : ∀ a ∈ items, ∀ b ∈ items, U.key a = U.key b → a = b)
    (key : List UInt8) {fuel : ℕ} (hf : items.length ≤ fuel) :
    U.hashFind hashFcn fuel key = some (items.find? (fun a => U.key a = key)) := by
  obtain ⟨rfl, hhead, -⟩ | ⟨C, hC⟩ := h
  · rw [hashFind, hhead]
    rfl
  · rw [hC.hashFind_eq key ((hC.chained.length_le _).trans hf), hC.find_chain hinj]

/-! ## Counting and iterating -/

theorem Holds.count (h : Holds hashFcn U items) : U.hashCnt = items.length := by
  obtain ⟨rfl, hhead, -⟩ | ⟨C, hC⟩ := h
  · rw [hashCnt, if_pos hhead]
    rfl
  · rw [hashCnt, if_neg, hC.numItems]
    rw [hC.head]
    exact fun e => hC.nonempty (List.head?_eq_none_iff.1 e)

theorem hashIterFrom_eq {p : Option ℕ} {l : List ℕ} {fuel : ℕ} (hs : U.app.Seg p l none) (hf : l.length ≤ fuel) :
    U.hashIterFrom fuel l.head? = some l := by
  induction l generalizing p fuel with
  | nil => cases fuel <;> rfl
  | cons a l ih =>
    obtain ⟨f, rfl⟩ : ∃ f, fuel = f + 1 := ⟨fuel - 1, by rw [List.length_cons] at hf; omega⟩
    have hnext : U.app.next a = l.head? := by
      rw [hs.2.1, Option.or_none]
    rw [List.head?_cons, hashIterFrom, hnext, ih hs.2.2 (Nat.le_of_succ_le_succ hf)]
    rfl

/-- **Iterating** visits every element once, in the order of addition, and ends. -/
theorem Holds.iter (h : Holds hashFcn U items) {fuel : ℕ} (hf : items.length ≤ fuel) :
    U.hashIterItems fuel = some items := by
  rw [hashIterItems, h.head]
  obtain ⟨rfl, -⟩ | ⟨C, hC⟩ := h
  · cases fuel <;> rfl
  · exact hashIterFrom_eq hC.app hf

/-! ## The stored pointers -/

/-- The next pointer of an element in the table. -/
theorem Holds.next (h : Holds hashFcn U items) (ha : a ∈ items) : U.app.next a = succIn items a := by
  obtain ⟨rfl, -⟩ | ⟨C, hC⟩ := h
  · exact absurd ha List.not_mem_nil
  · exact hC.app.next_eq hC.nodup ha

theorem hashAddToBkt_app : (U.hashAddToBkt b a).app = U.app := by
  unfold hashAddToBkt
  dsimp only
  split <;> rfl

/-- An addition leaves the pointers of elements outside the table alone. -/
theorem Holds.add_next (h : Holds hashFcn U items) (key : List UInt8) (hb : b ∉ items ++ [a]) :
    (U.hashAddKeyptr hashFcn a key).app.next b = U.app.next b := by
  have hba : b ≠ a := fun e => hb (List.mem_append_right _ (List.mem_singleton.2 e))
  rw [hashAddKeyptr, hashAddToBkt_app, linkItem, appendItem]
  obtain ⟨rfl, hhead, -⟩ | ⟨C, hC⟩ := h
  · simp only [hhead]
    rw [DLinks.pushBack_next, if_neg (by simp), if_neg hba]
  · cases hhead : U.head with
    | none =>
      rw [hC.head] at hhead
      exact absurd (List.head?_eq_none_iff.1 hhead) hC.nonempty
    | some h0 =>
      show (U.app.pushBack U.tbl.tail a).next b = _
      rw [DLinks.pushBack_next, hC.tail, if_neg, if_neg hba]
      intro e
      exact hb (List.mem_append_left _ (List.mem_of_getLast? e))

/-- So does a deletion, and the deleted element keeps its own. -/
theorem Holds.delete_next (h : Holds hashFcn U items) (ha : a ∈ items) (hb : b ∉ items.erase a) :
    (U.hashDelete a).app.next b = U.app.next b := by
  obtain ⟨rfl, -⟩ | ⟨C, hC⟩ := h
  · exact absurd ha List.not_mem_nil
  rw [hashDelete]
  split
  · rfl
  · split
    · rfl
    · obtain ⟨l, m, hlm⟩ := List.append_of_mem ha
      have hl : a ∉ l := fun e => (List.nodup_append.1 (hlm ▸ hC.nodup)).2.2 a e a List.mem_cons_self rfl
      have hprev := (DLinks.Seg.at (hlm ▸ hC.app)).1
      show (U.app.unlink a).next b = _
      rw [DLinks.unlink_next, hprev, if_neg]
      intro e
      refine hb ?_
      rw [hlm, List.erase_append_right _ hl, List.erase_cons_head]
      exact List.mem_append_left _ (List.mem_of_getLast? e)

/-! ## Any sequence of changes -/

theorem hashAddToBkt_key : (U.hashAddToBkt b a).key = U.key := by
  unfold hashAddToBkt
  dsimp only
  split <;> rfl

theorem hashAddKeyptr_key (key : List UInt8) :
    (U.hashAddKeyptr hashFcn a key).key = Function.update U.key a key := by
  rw [hashAddKeyptr, hashAddToBkt_key, linkItem_key]

theorem hashDelete_key : (U.hashDelete a).key = U.key := by
  unfold hashDelete
  split
  · rfl
  · split <;> rfl

/-- The table in memory stands for the abstract one. -/
structure Stands (hashFcn : List UInt8 → UInt32) (U : UtHash) (s : List (ℕ × List UInt8)) : Prop where
  holds : Holds hashFcn U (s.map Prod.fst)
  key : ∀ p ∈ s, U.key p.1 = p.2
  distinct : (s.map Prod.snd).Nodup

theorem Stands.null (hashFcn : List UInt8 → UInt32) : Stands hashFcn null [] :=
  ⟨.inl ⟨rfl, rfl, rfl⟩, fun _ h => absurd h List.not_mem_nil, List.nodup_nil⟩

/-- **One change**, unless there are too many elements or buckets then. -/
theorem Stands.step {s : List (ℕ × List UInt8)} {op : UtOp} (h : Stands hashFcn U s)
    (he : keyedList.enabled s op) (hlen : (keyedList.step s op).length < 4294967296)
    (hlog : (U.apply hashFcn op).tbl.log2NumBuckets < 32) : Stands hashFcn (U.apply hashFcn op) (keyedList.step s op) := by
  cases op with
  | add a key =>
    obtain ⟨ha, hkey⟩ := he
    refine ⟨?_, ?_, ?_⟩
    · show Holds hashFcn _ ((s ++ [(a, key)]).map Prod.fst)
      rw [List.map_append]
      have hlen : (s ++ [(a, key)]).length < 4294967296 := hlen
      rw [List.length_append] at hlen
      exact h.holds.add (by rwa [List.length_map]) ha key hlog
    · intro p hp
      rw [apply, hashAddKeyptr_key]
      rcases List.mem_append.1 hp with hps | hpa
      · rw [Function.update_of_ne, h.key p hps]
        rintro rfl
        exact ha (List.mem_map_of_mem hps)
      · rw [List.mem_singleton.1 hpa, Function.update_self]
    · show ((s ++ [(a, key)]).map Prod.snd).Nodup
      rw [List.map_append]
      refine List.nodup_append.2 ⟨h.distinct, List.nodup_singleton key, ?_⟩
      intro k hk k' hk' e
      rw [List.map_singleton, List.mem_singleton] at hk'
      subst hk'
      exact hkey (e ▸ hk)
  | delete a =>
    refine ⟨?_, ?_, ?_⟩
    · show Holds hashFcn _ ((s.filter fun p => p.1 ≠ a).map Prod.fst)
      have heq : (s.filter fun p => p.1 ≠ a).map Prod.fst = (s.map Prod.fst).erase a := by
        rw [h.holds.nodup.erase_eq_filter, List.filter_map]
        congr 1
        refine List.filter_congr fun p _ => ?_
        rw [Function.comp_apply, bne, Bool.beq_eq_decide_eq, ← decide_not]
      rw [heq]
      exact h.holds.delete he
    · intro p hp
      rw [apply, hashDelete_key]
      exact h.key p (List.mem_of_mem_filter hp)
    · exact h.distinct.sublist (List.filter_sublist.map Prod.snd)

/-- **The counters suffice**: at no time are there 2³² elements or 2³² buckets. -/
def CountersSuffice (hashFcn : List UInt8 → UInt32) (U : UtHash) (s : List (ℕ × List UInt8)) (ops : List UtOp) : Prop :=
  ∀ us, us <+: ops → (keyedList.exec s us).length < 4294967296 ∧
    (us.foldl (apply hashFcn) U).tbl.log2NumBuckets < 32

theorem CountersSuffice.first {s : List (ℕ × List UInt8)} {op : UtOp} {ops : List UtOp}
    (h : CountersSuffice hashFcn U s (op :: ops)) :
    (keyedList.step s op).length < 4294967296 ∧ (U.apply hashFcn op).tbl.log2NumBuckets < 32 :=
  h [op] ((List.prefix_cons_inj op).2 List.nil_prefix)

theorem CountersSuffice.rest {s : List (ℕ × List UInt8)} {op : UtOp} {ops : List UtOp}
    (h : CountersSuffice hashFcn U s (op :: ops)) :
    CountersSuffice hashFcn (U.apply hashFcn op) (keyedList.step s op) ops :=
  fun us hus => h (op :: us) ((List.prefix_cons_inj op).2 hus)

variable (hashFcn U) in
/-- A change doubles the number of buckets at most once. -/
theorem apply_log2_le (op : UtOp) : (U.apply hashFcn op).tbl.log2NumBuckets ≤ max 5 U.tbl.log2NumBuckets + 1 := by
  cases op with
  | add a key =>
    have hlink : (U.linkItem hashFcn a key).tbl.log2NumBuckets ≤ max 5 U.tbl.log2NumBuckets := by
      unfold linkItem appendItem
      cases U.head with
      | none => exact le_max_left 5 _
      | some _ => exact le_max_right 5 _
    show (U.hashAddKeyptr hashFcn a key).tbl.log2NumBuckets ≤ _
    unfold hashAddKeyptr hashAddToBkt
    dsimp only
    split
    · exact (unsigned_le _).trans (Nat.succ_le_succ hlink)
    · exact hlink.trans (Nat.le_succ _)
  | delete a =>
    have hdelete : (U.hashDelete a).tbl.log2NumBuckets = U.tbl.log2NumBuckets := by
      unfold hashDelete
      split
      · rfl
      · split <;> rfl
    rw [apply, hdelete]
    exact (le_max_right 5 _).trans (Nat.le_succ _)

variable (hashFcn U) in
theorem foldl_log2_le (ops : List UtOp) :
    (ops.foldl (apply hashFcn) U).tbl.log2NumBuckets ≤ max 5 U.tbl.log2NumBuckets + ops.length := by
  induction ops generalizing U with
  | nil => exact le_max_right 5 _
  | cons op ops ih =>
    have hone := apply_log2_le hashFcn U op
    refine (ih _).trans ?_
    rw [List.length_cons]
    omega

theorem length_exec_le (s : List (ℕ × List UInt8)) (ops : List UtOp) :
    (keyedList.exec s ops).length ≤ s.length + ops.length := by
  induction ops generalizing s with
  | nil => exact le_rfl
  | cons op ops ih =>
    have hone : (keyedList.step s op).length ≤ s.length + 1 := by
      cases op with
      | add a key => exact List.length_append.le
      | delete a => exact (List.length_filter_le _ _).trans (Nat.le_succ _)
    have hrest := ih (keyedList.step s op)
    rw [List.length_cons]
    exact hrest.trans (by omega)

/-- Few changes are always in range. -/
theorem countersSuffice_short (hashFcn : List UInt8 → UInt32) {ops : List UtOp} (h : ops.length < 27) :
    CountersSuffice hashFcn .null [] ops := by
  intro us hus
  have hle := hus.length_le
  have hlen := length_exec_le [] us
  have hlog := foldl_log2_le hashFcn .null us
  rw [List.length_nil] at hlen
  rw [show max 5 UtHash.null.tbl.log2NumBuckets = 5 from rfl] at hlog
  omega

/-- Any sequence of changes. -/
theorem Stands.run {s : List (ℕ × List UInt8)} {ops : List UtOp} (h : Stands hashFcn U s)
    (hr : keyedList.Runs s ops) (hrange : CountersSuffice hashFcn U s ops) :
    Stands hashFcn (ops.foldl (apply hashFcn) U) (keyedList.exec s ops) := by
  induction ops generalizing U s with
  | nil => exact h
  | cons op ops ih => exact ih (h.step hr.1 hrange.first.1 hrange.first.2) hr.2 hrange.rest

theorem Stands.key_injective {s : List (ℕ × List UInt8)} (h : Stands hashFcn U s) :
    ∀ a ∈ s.map Prod.fst, ∀ b ∈ s.map Prod.fst, U.key a = U.key b → a = b := by
  intro a ha b hb hab
  obtain ⟨p, hp, rfl⟩ := List.mem_map.1 ha
  obtain ⟨q, hq, rfl⟩ := List.mem_map.1 hb
  rw [h.key p hp, h.key q hq] at hab
  rw [List.inj_on_of_nodup_map h.distinct hp hq hab]

theorem Stands.find_key {s : List (ℕ × List UInt8)} (h : Stands hashFcn U s) (key : List UInt8) :
    (s.map Prod.fst).find? (fun a => U.key a = key) = (s.find? fun p => p.2 = key).map Prod.fst := by
  have hkeys : ∀ p ∈ s, ((fun a => decide (U.key a = key)) ∘ Prod.fst) p = decide (p.2 = key) := by
    intro p hp
    rw [Function.comp_apply, h.key p hp]
  rw [List.find?_map, List.find?_congr hkeys]

/-- Finding in a table that stands for an abstract one. -/
theorem Stands.find {s : List (ℕ × List UInt8)} (h : Stands hashFcn U s) (key : List UInt8) {fuel : ℕ}
    (hf : s.length ≤ fuel) : U.hashFind hashFcn fuel key = some ((s.find? fun p => p.2 = key).map Prod.fst) := by
  rw [h.holds.find h.key_injective key (by rwa [List.length_map]), h.find_key]

/-! ## The length of the chains -/

/-- Every chain is within its threshold, and the multipliers are one a bucket on average. -/
structure Light (n : ℕ) (B : ℕ → UtBucket) : Prop where
  count_le : ∀ b < n, (B b).count ≤ ((B b).expandMult + 1) * HASH_BKT_CAPACITY_THRESH
  count_lt : ∀ b < n, (B b).expandMult ≠ 0 →
    (B b).count < ((B b).expandMult + 1) * HASH_BKT_CAPACITY_THRESH
  mult_le : ∑ b ∈ Finset.range n, (B b).expandMult ≤ n

namespace Light

variable {B B' : ℕ → UtBucket}

theorem zero (n : ℕ) : Light n fun _ => .zero := by
  refine ⟨fun _ _ => Nat.zero_le _, fun _ _ h => absurd rfl h, ?_⟩
  show ∑ _b ∈ Finset.range n, 0 ≤ n
  rw [Finset.sum_const_zero]
  exact Nat.zero_le n

/-- Chains that got shorter, or longer within the threshold. -/
theorem mono (h : Light n B) (hmult : ∀ b < n, (B' b).expandMult = (B b).expandMult)
    (hcount : ∀ b < n, (B' b).count ≤ (B b).count ∨
      (B' b).count < ((B b).expandMult + 1) * HASH_BKT_CAPACITY_THRESH) : Light n B' := by
  refine ⟨?_, ?_, ?_⟩
  · intro b hb
    rw [hmult b hb]
    rcases hcount b hb with hle | hlt
    · exact hle.trans (h.count_le b hb)
    · exact hlt.le
  · intro b hb hne
    rw [hmult b hb] at hne ⊢
    rcases hcount b hb with hle | hlt
    · exact hle.trans_lt (h.count_lt b hb hne)
    · exact hlt
  · rw [Finset.sum_congr rfl fun b hb => hmult b (Finset.mem_range.1 hb)]
    exact h.mult_le

/-- **Fewer than twenty elements a bucket.** -/
theorem sum_lt (h : Light n B) (hn : 0 < n) :
    ∑ b ∈ Finset.range n, (B b).count < 2 * HASH_BKT_CAPACITY_THRESH * n := by
  have hsum : ∑ b ∈ Finset.range n, ((B b).expandMult + 1) * HASH_BKT_CAPACITY_THRESH =
      (∑ b ∈ Finset.range n, (B b).expandMult + n) * HASH_BKT_CAPACITY_THRESH := by
    rw [← Finset.sum_mul, Finset.sum_add_distrib, Finset.sum_const, Finset.card_range, smul_eq_mul, mul_one]
  have hmult := h.mult_le
  by_cases hz : ∃ b ∈ Finset.range n, (B b).expandMult ≠ 0
  · -- one bucket is below its threshold
    obtain ⟨c, hc, hne⟩ := hz
    have hlt := Finset.sum_lt_sum (fun b hb => h.count_le b (Finset.mem_range.1 hb))
      ⟨c, hc, h.count_lt c (Finset.mem_range.1 hc) hne⟩
    rw [hsum] at hlt
    rw [HASH_BKT_CAPACITY_THRESH] at *
    omega
  · have hzero : ∑ b ∈ Finset.range n, (B b).expandMult = 0 := by
      refine Finset.sum_eq_zero fun b hb => ?_
      by_contra hne
      exact hz ⟨b, hb, hne⟩
    have hle := Finset.sum_le_sum fun b hb => h.count_le b (Finset.mem_range.1 hb)
    rw [hsum, hzero] at hle
    rw [HASH_BKT_CAPACITY_THRESH] at *
    omega

/-- **After an expansion** that aimed at chains of at most ten handles. -/
theorem expand {ideal : ℕ} (hpos : 0 < ideal) (hideal : ideal ≤ HASH_BKT_CAPACITY_THRESH)
    (hmult : ∀ b, (B b).expandMult = Expansion.multOf ideal (B b).count)
    (hsum : ∑ b ∈ Finset.range n, (B b).count ≤ n * ideal) : Light n B := by
  have hlong : ∀ b, ideal < (B b).count → (B b).count < ((B b).expandMult + 1) * HASH_BKT_CAPACITY_THRESH := by
    intro b hb
    rw [hmult, Expansion.multOf, if_pos hb]
    calc (B b).count < ideal * ((B b).count / ideal + 1) := Nat.lt_mul_div_succ _ hpos
      _ = ((B b).count / ideal + 1) * ideal := Nat.mul_comm _ _
      _ ≤ ((B b).count / ideal + 1) * HASH_BKT_CAPACITY_THRESH := Nat.mul_le_mul_left _ hideal
  refine ⟨?_, ?_, ?_⟩
  · intro b _
    by_cases hb : ideal < (B b).count
    · exact (hlong b hb).le
    · refine (not_lt.1 hb).trans (hideal.trans ?_)
      exact Nat.le_mul_of_pos_left _ (Nat.succ_pos _)
  · intro b _ hne
    refine hlong b ?_
    by_contra hb
    exact hne (by rw [hmult, Expansion.multOf, if_neg hb])
  · have hle : ∀ b ∈ Finset.range n, (B b).expandMult * ideal ≤ (B b).count := by
      intro b _
      rw [hmult, Expansion.multOf]
      split
      · exact Nat.div_mul_le_self _ _
      · rw [Nat.zero_mul]
        exact Nat.zero_le _
    refine Nat.le_of_mul_le_mul_right ?_ hpos
    calc (∑ b ∈ Finset.range n, (B b).expandMult) * ideal
        = ∑ b ∈ Finset.range n, (B b).expandMult * ideal := Finset.sum_mul _ _ _
      _ ≤ ∑ b ∈ Finset.range n, (B b).count := Finset.sum_le_sum hle
      _ ≤ n * ideal := hsum

end Light

/-- The chains are short, unless expansion was switched off. -/
def Loaded (T : UtTable) : Prop := T.noexpand = false → Light T.numBuckets T.buckets

/-- **Expanding a table that is not too full** makes its chains short. -/
theorem Stored.expand_loaded {C : ℕ → List ℕ} (h : Stored hashFcn U items C) (hlog : U.tbl.log2NumBuckets + 1 < 32)
    (hfull : U.tbl.numItems ≤ U.tbl.numBuckets * 2 * HASH_BKT_CAPACITY_THRESH) :
    Loaded U.hashExpandBuckets.tbl := by
  intro _
  obtain ⟨C', hC', hmult, -⟩ := redistribute_spec h.chained h.length_lt hlog h.nodup h.nonempty h.numBuckets h.numItems
  have hideal := idealChainMaxlen_le h.numBuckets hlog (h.numItems ▸ h.length_lt)
  have hpos : 0 < idealChainMaxlen U.tbl := by
    refine Nat.pos_of_ne_zero fun h0 => h.nonempty (List.length_eq_zero_iff.1 ?_)
    have hz := (hideal 0).1 h0.le
    rw [h.numItems] at hz
    omega
  refine Light.expand hpos ((hideal _).2 hfull) hmult ?_
  have hk : unsigned (U.tbl.numBuckets * 2) = 2 ^ (U.tbl.log2NumBuckets + 1) := by
    rw [h.numBuckets, ← pow_succ, unsigned_of_lt (two_pow_lt hlog)]
  have hsum := (hk ▸ hC' : Chained _ _ (2 ^ (U.tbl.log2NumBuckets + 1)) _ _ _).sum_count hlog h.nodup
  show ∑ b ∈ Finset.range (unsigned (U.tbl.numBuckets * 2)), (U.redistribute.newBuckets b).count ≤
    unsigned (U.tbl.numBuckets * 2) * _
  rw [hk, hsum, ← h.numItems, pow_succ, ← h.numBuckets]
  exact (hideal _).1 le_rfl

variable (hashFcn) in
theorem linkItem_loaded (h : U.head ≠ none → Loaded U.tbl) (key : List UInt8) :
    Loaded (U.linkItem hashFcn a key).tbl := by
  unfold linkItem appendItem
  cases hhead : U.head with
  | none => exact fun _ => Light.zero _
  | some h0 => exact fun hne => h (by rw [hhead]; exact Option.some_ne_none h0) hne

theorem Holds.add_loaded (h : Holds hashFcn U items) (hl : U.head ≠ none → Loaded U.tbl)
    (hlen : items.length + 1 < 4294967296) (ha : a ∉ items) (key : List UInt8)
    (hlog : (U.hashAddKeyptr hashFcn a key).tbl.log2NumBuckets < 32) : Loaded (U.hashAddKeyptr hashFcn a key).tbl := by
  obtain ⟨C, hC⟩ := h.link hlen ha key
  obtain ⟨C', hC'⟩ := hC.stored h.nodup ha
  have hload := linkItem_loaded hashFcn (a := a) hl key
  have hpos : 0 < (U.linkItem hashFcn a key).tbl.numBuckets := by
    rw [hC.numBuckets]
    exact Nat.two_pow_pos _
  rw [linkItem_hashv, Function.update_self] at hC'
  revert hlog
  unfold hashAddKeyptr hashAddToBkt
  dsimp only
  generalize U.linkItem hashFcn a key = V at *
  generalize hashToBkt (hashFcn key) V.tbl.numBuckets = b at *
  split
  next hfull =>
    intro hlog
    refine hC'.expand_loaded (hC'.log2_succ hlog) ?_
    have hsum := (hC.numBuckets ▸ hC.chained : Chained _ _ (2 ^ V.tbl.log2NumBuckets) _ _ _).sum_count hC.log2_lt h.nodup
    have hlt := (hload hfull.2).sum_lt hpos
    rw [← hC.numBuckets] at hsum
    have hitems := hC.numItems
    show V.tbl.numItems ≤ V.tbl.numBuckets * 2 * HASH_BKT_CAPACITY_THRESH
    rw [hsum, HASH_BKT_CAPACITY_THRESH] at hlt
    rw [HASH_BKT_CAPACITY_THRESH]
    omega
  next hfull =>
    intro _ hne
    refine (hload hne).mono ?_ ?_
    · intro c _
      show (Function.update V.tbl.buckets b _ c).expandMult = _
      by_cases hc : c = b
      · rw [hc, Function.update_self]
      · rw [Function.update_of_ne hc]
    · intro c _
      show (Function.update V.tbl.buckets b _ c).count ≤ _ ∨ (Function.update V.tbl.buckets b _ c).count < _
      by_cases hc : c = b
      · subst hc
        rw [Function.update_self]
        -- the threshold that was compared is at most the exact one
        refine .inr (Nat.lt_of_not_le fun hge => hfull ⟨?_, hne⟩)
        rw [addToBkt_bucket]
        exact (unsigned_le _).trans ((Nat.mul_le_mul_right _ (unsigned_le _)).trans hge)
      · rw [Function.update_of_ne hc]
        exact .inl le_rfl

theorem Holds.delete_loaded (h : Holds hashFcn U items) (ha : a ∈ items) (hl : U.head ≠ none → Loaded U.tbl) :
    (U.hashDelete a).head ≠ none → Loaded (U.hashDelete a).tbl := by
  obtain ⟨rfl, -⟩ | ⟨C, hC⟩ := h
  · exact absurd ha List.not_mem_nil
  -- the bucket of the element has at least this one
  have hpred : unsignedPred (U.tbl.buckets (hashToBkt (U.hashv a) U.tbl.numBuckets)).count ≤
      (U.tbl.buckets (hashToBkt (U.hashv a) U.tbl.numBuckets)).count := by
    have hpos := List.length_pos_of_mem ((hC.chained.mem _ a).2 ⟨ha, rfl⟩)
    have hle := hC.chained.length_le (hashToBkt (U.hashv a) U.tbl.numBuckets)
    have hlt := hC.length_lt
    rw [hC.chained.count, unsignedPred_eq hpos (by omega)]
    exact Nat.sub_le _ _
  unfold hashDelete
  split
  next hhead => exact fun hne => absurd hhead hne
  next hhead =>
    split
    · exact fun hne => absurd rfl hne
    · intro _ hne
      refine (hl hhead hne).mono ?_ ?_
      · intro c _
        show (Function.update U.tbl.buckets _ _ c).expandMult = _
        by_cases hc : c = hashToBkt (U.hashv a) U.tbl.numBuckets
        · rw [hc, Function.update_self]
        · rw [Function.update_of_ne hc]
      · intro c _
        refine .inl ?_
        show (Function.update U.tbl.buckets _ _ c).count ≤ _
        by_cases hc : c = hashToBkt (U.hashv a) U.tbl.numBuckets
        · rw [hc, Function.update_self]
          exact hpred
        · rw [Function.update_of_ne hc]

theorem Stands.run_loaded {s : List (ℕ × List UInt8)} {ops : List UtOp} (h : Stands hashFcn U s)
    (hl : U.head ≠ none → Loaded U.tbl) (hr : keyedList.Runs s ops) (hrange : CountersSuffice hashFcn U s ops) :
    (ops.foldl (apply hashFcn) U).head ≠ none → Loaded (ops.foldl (apply hashFcn) U).tbl := by
  induction ops generalizing U s with
  | nil => exact hl
  | cons op ops ih =>
    obtain ⟨hlen, hlog⟩ := hrange.first
    refine ih (h.step hr.1 hlen hlog) ?_ hr.2 hrange.rest
    cases op with
    | add a key =>
      have hlen : (s ++ [(a, key)]).length < 4294967296 := hlen
      rw [List.length_append] at hlen
      exact fun _ => h.holds.add_loaded hl (by rwa [List.length_map]) hr.1.1 key hlog
    | delete a => exact h.holds.delete_loaded hr.1 hl

end UtHash

open UtHash

/-- **The hash table is the abstract one.** After any additions of new elements under new keys and
deletions of present elements, whatever the hash function: finding returns the element with the
key, or NULL, counting and iterating agree, every loop ends, and no pointer or division went wrong
on the way. The counters must suffice. -/
theorem uthash_refines (hashFcn : List UInt8 → UInt32) (ops : List UtOp) (hr : keyedList.Runs [] ops)
    (hrange : CountersSuffice hashFcn .null [] ops) :
    let s := keyedList.exec [] ops
    let U := ops.foldl (UtHash.apply hashFcn) .null
    U.fault = false ∧ U.hashCnt = s.length ∧
      ∀ fuel, s.length ≤ fuel → U.hashIterItems fuel = some (s.map Prod.fst) ∧
        ∀ key, U.hashFind hashFcn fuel key = some ((s.find? fun p => p.2 = key).map Prod.fst) := by
  have h := (Stands.null hashFcn).run hr hrange
  refine ⟨h.holds.fault, h.holds.count.trans (List.length_map _), fun fuel hfuel => ⟨?_, fun key => h.find key hfuel⟩⟩
  exact h.holds.iter (by rwa [List.length_map])

theorem uthash_refines_four :
    let ops := [UtOp.add 7 [1, 0, 0, 0], .add 9 [2, 0, 0, 0], .delete 7, .add 7 [3, 0, 0, 0]]
    let U := ops.foldl (UtHash.apply hashJen) .null
    keyedList.exec [] ops = [(9, [2, 0, 0, 0]), (7, [3, 0, 0, 0])] ∧ U.hashIterItems 2 = some [9, 7] ∧
      U.hashFind hashJen 2 [3, 0, 0, 0] = some (some 7) ∧ U.hashFind hashJen 2 [1, 0, 0, 0] = some none := by
  obtain ⟨-, -, hloops⟩ := uthash_refines hashJen
    [UtOp.add 7 [1, 0, 0, 0], .add 9 [2, 0, 0, 0], .delete 7, .add 7 [3, 0, 0, 0]] (by decide)
    (countersSuffice_short hashJen (by decide))
  obtain ⟨hiter, hfind⟩ := hloops 2 (by decide)
  exact ⟨rfl, hiter, hfind _, hfind _⟩

/-- **Lookups are short.** Unless expansion was switched off, a lookup has ended, with its element or
NULL, when it has compared at most ten times its bucket's multiplier plus one keys; the multipliers
are one a bucket on average, and the table has fewer than twenty elements a bucket. -/
theorem uthash_lookup_bound (hashFcn : List UInt8 → UInt32) (ops : List UtOp) (hr : keyedList.Runs [] ops)
    (hrange : CountersSuffice hashFcn .null [] ops) (hne : (ops.foldl (UtHash.apply hashFcn) .null).head ≠ none)
    (hexp : (ops.foldl (UtHash.apply hashFcn) .null).tbl.noexpand = false) :
    let U := ops.foldl (UtHash.apply hashFcn) .null
    (∀ key, U.hashFind hashFcn
        (((U.tbl.buckets (hashToBkt (hashFcn key) U.tbl.numBuckets)).expandMult + 1) * HASH_BKT_CAPACITY_THRESH) key =
        some (((keyedList.exec [] ops).find? fun p => p.2 = key).map Prod.fst)) ∧
      ∑ b ∈ Finset.range U.tbl.numBuckets, (U.tbl.buckets b).expandMult ≤ U.tbl.numBuckets ∧
      U.hashCnt < 2 * HASH_BKT_CAPACITY_THRESH * U.tbl.numBuckets := by
  have h := (Stands.null hashFcn).run hr hrange
  have hlight := (Stands.null hashFcn).run_loaded (fun e => absurd rfl e) hr hrange hne hexp
  generalize ops.foldl (UtHash.apply hashFcn) .null = U at *
  obtain ⟨-, hhead, -⟩ | ⟨C, hC⟩ := h.holds
  · exact absurd hhead hne
  have hsum := (hC.numBuckets ▸ hC.chained : Chained _ _ (2 ^ U.tbl.log2NumBuckets) _ _ _).sum_count hC.log2_lt hC.nodup
  rw [← hC.numBuckets] at hsum
  refine ⟨?_, hlight.mult_le, ?_⟩
  · intro key
    have hb : hashToBkt (hashFcn key) U.tbl.numBuckets < U.tbl.numBuckets := by
      rw [hC.numBuckets]
      exact hashToBkt_lt _ hC.log2_lt
    -- the whole chain is within the bound
    rw [hC.hashFind_eq key (hC.chained.count _ ▸ hlight.count_le _ hb), hC.find_chain h.key_injective, h.find_key]
  · rw [h.holds.count, ← hsum]
    refine hlight.sum_lt ?_
    rw [hC.numBuckets]
    exact Nat.two_pow_pos _

/-- Two keys in one bucket: ten comparisons suffice for a third key that is not there. -/
theorem uthash_lookup_bound_one :
    let ops := [UtOp.add 7 [1, 0, 0, 0], .add 9 [2, 0, 0, 0]]
    let U := ops.foldl (UtHash.apply fun _ => 5) .null
    U.hashFind (fun _ => 5) 10 [3, 0, 0, 0] = some none ∧ U.hashFind (fun _ => 5) 10 [1, 0, 0, 0] = some (some 7) ∧
      ∑ b ∈ Finset.range 32, (U.tbl.buckets b).expandMult ≤ 32 ∧ U.hashCnt < 2 * HASH_BKT_CAPACITY_THRESH * 32 := by
  intro ops U
  obtain ⟨hfind, hmult, hcount⟩ := uthash_lookup_bound (fun _ => 5) ops (by decide) (countersSuffice_short _ (by decide))
    (by decide) (by decide)
  have hbound : ((U.tbl.buckets (hashToBkt 5 U.tbl.numBuckets)).expandMult + 1) * HASH_BKT_CAPACITY_THRESH = 10 := by
    decide
  rw [hbound] at hfind
  exact ⟨hfind [3, 0, 0, 0], hfind [1, 0, 0, 0], hmult, hcount⟩

end Qsf
