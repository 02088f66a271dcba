import Qsf.Spec.LuaHeap

/-!
# Extensions of `table` (`lib/table_ext.lua`)

`table.copy` and `table.clone`. A table is not assigned to while it is traversed, so a loop over
`pairs` is one over the entries it had.
-/

set_option autoImplicit false

namespace Qsf

section

-- what the `__pairs` metamethod of a table traverses
variable (traverse : LuaHeap → ℕ → Except LuaStop Entries)

/-- The body of the loop of `copyTable`; `copy` is `copyTable` itself. -/
def copyEntry (copy : LuaHeap → ℕ → Except LuaStop (ℕ × LuaHeap)) (tab : ℕ) (h : LuaHeap)
    (e : Σ _ : HeapValue, HeapValue) : Except LuaStop LuaHeap :=
  match e.2 with
  | .plain a => h.settable tab e.1 (.plain a)
  | .ref v => do
    let (u, h) ← copy h v
    h.settable tab e.1 (.ref u)

/-- `copyTable(st)`, where `st` is a table; what it returns, and the heap then. -/
def copyTable : ℕ → LuaHeap → ℕ → Except LuaStop (ℕ × LuaHeap)
  | 0, _, _ => .error .unfinished
  | fuel + 1, h, st => do
    let tab := h.count
    let h := h.newTable
    let es ← h.pairs traverse st
    let h ← es.entries.foldlM (copyEntry (copyTable fuel) tab) h
    .ok (tab, h)

/-- `if not nometa then setmetatable(u, getmetatable(t)) end`. -/
def copyMetatable (nometa : Bool) (h : LuaHeap) (u t : ℕ) : Except LuaStop LuaHeap :=
  if nometa then .ok h else h.setmetatable u (h.getmetatable t)

/-- `table.copy`. -/
def tableCopy (h : LuaHeap) (t : ℕ) (nometa : Bool) (fuel : ℕ) : Except LuaStop (ℕ × LuaHeap) := do
  let (u, h) ← copyTable traverse fuel h t
  let h ← copyMetatable nometa h u t
  .ok (u, h)

/-- The heap and the table `d` of `table.clone`. -/
structure CloneState where
  heap : LuaHeap
  d : ℕ → Option ℕ

/-- `o[k] = v`. -/
def CloneState.set (s : CloneState) (o : ℕ) (k v : HeapValue) : Except LuaStop CloneState :=
  (s.heap.settable o k v).map fun h => { s with heap := h }

/-- The body of the loop of `copy`; `copy` is the function itself. -/
def cloneEntry (copy : CloneState → ℕ → ℕ → Except LuaStop CloneState) (nometa : Bool) (o : ℕ) (s : CloneState)
    (e : Σ _ : HeapValue, HeapValue) : Except LuaStop CloneState :=
  match e.2 with
  | .plain a => s.set o e.1 (.plain a)
  | .ref v =>
    match s.d v with
    | some u => s.set o e.1 (.ref u)
    | none => do
      let u := s.heap.count
      let h ← copyMetatable nometa s.heap.newTable u v
      let s ← copy ⟨h, Function.update s.d v (some u)⟩ u v
      s.set o e.1 (.ref u)

/-- `copy(o, x)` of `table.clone`; it returns `o`. -/
def cloneCopy (nometa : Bool) : ℕ → CloneState → ℕ → ℕ → Except LuaStop CloneState
  | 0, _, _, _ => .error .unfinished
  | fuel + 1, s, o, x => do
    let es ← s.heap.pairs traverse x
    es.entries.foldlM (cloneEntry (cloneCopy nometa fuel) nometa o) s

/-- `table.clone`. -/
def tableClone (h : LuaHeap) (t : ℕ) (nometa : Bool) (fuel : ℕ) : Except LuaStop (ℕ × LuaHeap) := do
  let r := h.count
  let h ← copyMetatable nometa h.newTable r t
  let s ← cloneCopy traverse nometa fuel ⟨h, Function.update (fun _ => none) t (some r)⟩ r t
  .ok (r, s.heap)

end

end Qsf
