import Qsf.Lib.Links
import Qsf.Lib.Machine

/-!
# The hash table under the session map (`net/uthash.h`)

The macros on one table, as `net/qsf_net_server.c` uses them. An element is the number that
stands for its address; its `hh` member is spread over the fields of `UtHash`: the links in
application order, the links of its bucket, the key it was added with and its hash value.

The hash function is a parameter, as `HASH_FCN` is in the source; `hashJen` is the one a build
without `HASH_FUNCTION` has. The counters wrap around as an `unsigned` does. `fuel` bounds the rounds
of a loop, and `none` is a loop that has not ended.
-/

set_option autoImplicit false

namespace Qsf

def HASH_INITIAL_NUM_BUCKETS : ℕ := 32

def HASH_INITIAL_NUM_BUCKETS_LOG2 : ℕ := 5

def HASH_BKT_CAPACITY_THRESH : ℕ := 10

/-- What an `unsigned` keeps of a number. -/
def unsigned (n : ℕ) : ℕ := n % 4294967296

/-- One less, which is the largest `unsigned` behind 0. -/
def unsignedPred (n : ℕ) : ℕ := unsigned (n + 4294967295)

/-! ## `HASH_JEN` -/

/-- `HASH_JEN_MIX`. -/
def hashJenMix (a b c : UInt32) : UInt32 × UInt32 × UInt32 :=
  let a := (a - b - c) ^^^ (c >>> 13)
  let b := (b - c - a) ^^^ (a <<< 8)
  let c := (c - a - b) ^^^ (b >>> 13)
  let a := (a - b - c) ^^^ (c >>> 12)
  let b := (b - c - a) ^^^ (a <<< 16)
  let c := (c - a - b) ^^^ (b >>> 5)
  let a := (a - b - c) ^^^ (c >>> 3)
  let b := (b - c - a) ^^^ (a <<< 10)
  let c := (c - a - b) ^^^ (b >>> 15)
  (a, b, c)

/-- Byte `i` of the key, shifted by `n`; nothing behind the end, where the `switch` does not go. -/
def keyByte (key : List UInt8) (i : ℕ) (n : UInt32) : UInt32 := (key.getD i 0).toUInt32 <<< n

/-- The sum of four bytes from `i` on. -/
def keyWord (key : List UInt8) (i : ℕ) : UInt32 :=
  keyByte key i 0 + keyByte key (i + 1) 8 + keyByte key (i + 2) 16 + keyByte key (i + 3) 24

/-- The loop of `HASH_JEN` and the `switch` behind it; `hashv` gets no byte in its lowest place
there. -/
def hashJenLoop (keylen : ℕ) (i j hashv : UInt32) (key : List UInt8) : UInt32 :=
  if 12 ≤ key.length then
    let (i, j, hashv) := hashJenMix (i + keyWord key 0) (j + keyWord key 4) (hashv + keyWord key 8)
    hashJenLoop keylen i j hashv (key.drop 12)
  else
    let hashv := hashv + UInt32.ofNat keylen + keyByte key 10 24 + keyByte key 9 16 + keyByte key 8 8
    (hashJenMix (i + keyWord key 0) (j + keyWord key 4) hashv).2.2
  termination_by key.length
  decreasing_by
    rw [List.length_drop]
    omega

/-- `HASH_JEN`. -/
def hashJen (key : List UInt8) : UInt32 := hashJenLoop key.length 0x9e3779b9 0x9e3779b9 0xfeedbeef key

/-! ## The table -/

/-- `UT_hash_bucket`. -/
structure UtBucket where
  hhHead : Option ℕ
  count : ℕ
  expandMult : ℕ

/-- A bucket after `memset`. -/
def UtBucket.zero : UtBucket := ⟨none, 0, 0⟩

/-- `UT_hash_table`. -/
structure UtTable where
  buckets : ℕ → UtBucket
  numBuckets : ℕ
  log2NumBuckets : ℕ
  numItems : ℕ
  tail : Option ℕ
  idealChainMaxlen : ℕ
  nonidealItems : ℕ
  ineffExpands : ℕ
  noexpand : Bool

/-- The head pointer, the table it leads to, and the handles of all elements. -/
structure UtHash where
  head : Option ℕ
  tbl : UtTable
  /-- `prev` and `next`. -/
  app : DLinks ℕ
  /-- `hh_prev` and `hh_next`. -/
  chain : DLinks ℕ
  key : ℕ → List UInt8
  hashv : ℕ → UInt32
  /-- A NULL pointer was followed, or a number divided by 0, or an expansion did not come to the end
  of a chain. -/
  fault : Bool

/-- `HASH_MAKE_TABLE` for the first element `a`. -/
def hashMakeTable (a : ℕ) : UtTable :=
  ⟨fun _ => .zero, HASH_INITIAL_NUM_BUCKETS, HASH_INITIAL_NUM_BUCKETS_LOG2, 0, some a, 0, 0, 0, false⟩

/-- `HASH_TO_BKT`. -/
def hashToBkt (hashv : UInt32) (numBkts : ℕ) : ℕ := hashv.toNat &&& unsignedPred numBkts

namespace UtTable

def setBucket (T : UtTable) (b : ℕ) (bkt : UtBucket) : UtTable :=
  { T with buckets := Function.update T.buckets b bkt }

end UtTable

/-! ## Expansion -/

/-- What `HASH_EXPAND_BUCKETS` works on. -/
structure Expansion where
  chain : DLinks ℕ
  newBuckets : ℕ → UtBucket
  nonidealItems : ℕ
  fault : Bool

/-- The body of the inner loop: `a` goes to the front of its new bucket. -/
def Expansion.move (hashv : ℕ → UInt32) (numBkts ideal : ℕ) (x : Expansion) (a : ℕ) : Expansion :=
  let b := hashToBkt (hashv a) numBkts
  let newbkt := { x.newBuckets b with count := unsigned ((x.newBuckets b).count + 1) }
  let beyond := ideal < newbkt.count
  let newbkt := if beyond then { newbkt with expandMult := newbkt.count / ideal } else newbkt
  { chain := x.chain.pushFront newbkt.hhHead a
    newBuckets := Function.update x.newBuckets b { newbkt with hhHead := some a }
    nonidealItems := if beyond then unsigned (x.nonidealItems + 1) else x.nonidealItems
    fault := x.fault || (beyond && ideal == 0) }

/-- The inner loop, over a chain from `thh` on. -/
def Expansion.moveChain (hashv : ℕ → UInt32) (numBkts ideal : ℕ) : ℕ → Expansion → Option ℕ → Expansion
  | _, x, none => x
  | 0, x, some _ => { x with fault := true }
  | fuel + 1, x, some thh =>
    let nxt := x.chain.next thh
    moveChain hashv numBkts ideal fuel (x.move hashv numBkts ideal thh) nxt

namespace UtHash

/-- `ideal_chain_maxlen` for twice the number of buckets. -/
def idealChainMaxlen (T : UtTable) : ℕ :=
  unsigned ((T.numItems >>> unsigned (T.log2NumBuckets + 1)) +
    if T.numItems &&& unsignedPred (unsigned (T.numBuckets * 2)) ≠ 0 then 1 else 0)

/-- The loops of `HASH_EXPAND_BUCKETS`. They have ended when no chain has more handles than the table
has items. -/
def redistribute (U : UtHash) : Expansion :=
  (List.range U.tbl.numBuckets).foldl
    (fun x i => x.moveChain U.hashv (unsigned (U.tbl.numBuckets * 2)) (idealChainMaxlen U.tbl) U.tbl.numItems
      (U.tbl.buckets i).hhHead)
    ⟨U.chain, fun _ => .zero, 0, U.fault⟩

/-- `HASH_EXPAND_BUCKETS`. -/
def hashExpandBuckets (U : UtHash) : UtHash :=
  let T := U.tbl
  let x := U.redistribute
  let ineff := if x.nonidealItems > T.numItems >>> 1 then unsigned (T.ineffExpands + 1) else 0
  { U with
    chain := x.chain
    fault := x.fault
    tbl := { T with
      buckets := x.newBuckets
      numBuckets := unsigned (T.numBuckets * 2)
      log2NumBuckets := unsigned (T.log2NumBuckets + 1)
      idealChainMaxlen := idealChainMaxlen T
      nonidealItems := x.nonidealItems
      ineffExpands := ineff
      noexpand := T.noexpand || decide (ineff > 1) } }

/-! ## Adding, finding, deleting -/

/-- `HASH_ADD_TO_BKT` without the expansion. -/
def addToBkt (U : UtHash) (b a : ℕ) : UtHash :=
  { U with
    chain := U.chain.pushFront (U.tbl.buckets b).hhHead a
    tbl := U.tbl.setBucket b ⟨some a, unsigned ((U.tbl.buckets b).count + 1), (U.tbl.buckets b).expandMult⟩ }

/-- `HASH_ADD_TO_BKT`. -/
def hashAddToBkt (U : UtHash) (b a : ℕ) : UtHash :=
  let U := U.addToBkt b a
  let bkt := U.tbl.buckets b
  if bkt.count ≥ unsigned (unsigned (bkt.expandMult + 1) * HASH_BKT_CAPACITY_THRESH) ∧ U.tbl.noexpand = false then
    U.hashExpandBuckets
  else U

/-- The application order with `a` behind the tail; or `a` is the head of a new table. -/
def appendItem (U : UtHash) (a : ℕ) : UtHash :=
  match U.head with
  | none => { U with head := some a, tbl := hashMakeTable a, app := U.app.pushBack none a }
  | some _ =>
    { U with
      app := U.app.pushBack U.tbl.tail a
      tbl := { U.tbl with tail := some a }
      fault := U.fault || U.tbl.tail.isNone }

/-- `HASH_ADD_KEYPTR`, until the element goes to its bucket. -/
def linkItem (hashFcn : List UInt8 → UInt32) (U : UtHash) (a : ℕ) (key : List UInt8) : UtHash :=
  let U := { U with key := Function.update U.key a key }.appendItem a
  { U with
    tbl := { U.tbl with numItems := unsigned (U.tbl.numItems + 1) }
    hashv := Function.update U.hashv a (hashFcn key) }

/-- `HASH_ADD_KEYPTR`. -/
def hashAddKeyptr (hashFcn : List UInt8 → UInt32) (U : UtHash) (a : ℕ) (key : List UInt8) : UtHash :=
  let U := U.linkItem hashFcn a key
  U.hashAddToBkt (hashToBkt (hashFcn key) U.tbl.numBuckets) a

/-- The loop of `HASH_FIND_IN_BKT` from `out` on, which compares at most `fuel` keys. -/
def hashFindInBkt (U : UtHash) (key : List UInt8) : ℕ → Option ℕ → Option (Option ℕ)
  | _, none => some none
  | 0, some _ => none
  | fuel + 1, some out => if U.key out = key then some (some out) else hashFindInBkt U key fuel (U.chain.next out)

/-- `HASH_FIND`. -/
def hashFind (hashFcn : List UInt8 → UInt32) (fuel : ℕ) (U : UtHash) (key : List UInt8) : Option (Option ℕ) :=
  match U.head with
  | none => some none
  | some _ => U.hashFindInBkt key fuel (U.tbl.buckets (hashToBkt (hashFcn key) U.tbl.numBuckets)).hhHead

/-- `HASH_DEL_IN_BKT`. -/
def hashDelInBkt (U : UtHash) (b a : ℕ) : UtHash :=
  let bkt := U.tbl.buckets b
  let head := if bkt.hhHead = some a then U.chain.next a else bkt.hhHead
  { U with
    chain := U.chain.unlink a
    tbl := U.tbl.setBucket b { bkt with hhHead := head, count := unsignedPred bkt.count } }

/-- `HASH_DELETE`. -/
def hashDelete (U : UtHash) (a : ℕ) : UtHash :=
  if U.head = none then { U with fault := true }
  else if U.app.prev a = none ∧ U.app.next a = none then
    { U with head := none } -- the buckets and the table are freed
  else
    let tail := if U.tbl.tail = some a then U.app.prev a else U.tbl.tail
    let head := if (U.app.prev a).isSome then U.head else U.app.next a
    let U := { U with head := head, app := U.app.unlink a, tbl := { U.tbl with tail := tail } }
    let U := U.hashDelInBkt (hashToBkt (U.hashv a) U.tbl.numBuckets) a
    { U with tbl := { U.tbl with numItems := unsignedPred U.tbl.numItems } }

/-- `HASH_COUNT`. -/
def hashCnt (U : UtHash) : ℕ := if U.head = none then 0 else U.tbl.numItems

/-- The elements `HASH_ITER` visits from `el` on. -/
def hashIterFrom (U : UtHash) : ℕ → Option ℕ → Option (List ℕ)
  | _, none => some []
  | 0, some _ => none
  | fuel + 1, some el => (hashIterFrom U fuel (U.app.next el)).map (el :: ·)

/-- The elements a `HASH_ITER` visits whose body leaves the table alone. -/
def hashIterItems (fuel : ℕ) (U : UtHash) : Option (List ℕ) := U.hashIterFrom fuel U.head

/-- A head pointer that is NULL, before the first element is added. -/
def null : UtHash :=
  ⟨none, ⟨fun _ => .zero, 0, 0, 0, none, 0, 0, 0, false⟩, ⟨fun _ => none, fun _ => none⟩,
    ⟨fun _ => none, fun _ => none⟩, fun _ => [], fun _ => 0, false⟩

end UtHash

/-! ## What the table is for -/

/-- A change of the table. -/
inductive UtOp
  | add (a : ℕ) (key : List UInt8)
  | delete (a : ℕ)

/-- The macro behind a change. -/
def UtHash.apply (hashFcn : List UInt8 → UInt32) (U : UtHash) : UtOp → UtHash
  | .add a key => U.hashAddKeyptr hashFcn a key
  | .delete a => U.hashDelete a

/-- The abstract table: the elements with their keys, in the order of addition. A caller adds
neither an element twice nor a key twice, and deletes only what is there. -/
def keyedList : Machine (List (ℕ × List UInt8)) UtOp where
  init s := s = []
  enabled s
    | .add a key => a ∉ s.map Prod.fst ∧ key ∉ s.map Prod.snd
    | .delete a => a ∈ s.map Prod.fst
  step s
    | .add a key => s ++ [(a, key)]
    | .delete a => s.filter (fun p => p.1 ≠ a)

instance (s : List (ℕ × List UInt8)) (op : UtOp) : Decidable (keyedList.enabled s op) :=
  match op with
  | .add a key => inferInstanceAs (Decidable (a ∉ s.map Prod.fst ∧ key ∉ s.map Prod.snd))
  | .delete a => inferInstanceAs (Decidable (a ∈ s.map Prod.fst))

end Qsf
