import Mathlib.Data.List.AList
import Qsf.Lib.ObjectGraph
import Qsf.Spec.LuaPattern

/-!
# The heap of Lua: tables and metatables

A table has entries, in the order in which `next` traverses them, and possibly a metatable.
What a metamethod does is not modelled, except for what a `__pairs` metamethod traverses.
-/

set_option autoImplicit false

namespace Qsf

open ObjectGraph (Value)

/-- A value of Lua that is neither `nil` nor a table. -/
def Scalar : Type := { v : LuaValue // v ≠ .nil }

instance : DecidableEq Scalar := inferInstanceAs (DecidableEq { v : LuaValue // v ≠ .nil })

/-- A value other than `nil`; a table is a reference. -/
abbrev HeapValue := Value Scalar ℕ

/-- The value is no reference to a table that does not exist. -/
def RefBelow (n : ℕ) : HeapValue → Prop
  | .plain _ => True
  | .ref r => r < n

instance (n : ℕ) : DecidablePred (RefBelow n)
  | .plain _ => isTrue trivial
  | .ref r => inferInstanceAs (Decidable (r < n))

/-- The entries of a table, in the order of `next`. -/
abbrev Entries := AList fun _ : HeapValue => HeapValue

structure TableObject where
  entries : Entries
  metatable : Option ℕ

/-- Tables below `count` exist. -/
structure LuaHeap where
  count : ℕ
  tables : ℕ → TableObject

/-- A string as a key. -/
def stringKey (s : List UInt8) : HeapValue := .plain ⟨.string s, by simp⟩

def PAIRS : HeapValue := stringKey (['_', '_', 'p', 'a', 'i', 'r', 's'].map ch)

def NEWINDEX : HeapValue := stringKey (['_', '_', 'n', 'e', 'w', 'i', 'n', 'd', 'e', 'x'].map ch)

def METATABLE : HeapValue := stringKey (['_', '_', 'm', 'e', 't', 'a', 't', 'a', 'b', 'l', 'e'].map ch)

namespace LuaHeap

variable (h : LuaHeap)

/-- `t[k]`, without metamethods; `none` is `nil`. -/
def rawget (t : ℕ) (k : HeapValue) : Option HeapValue := (h.tables t).entries.lookup k

/-- No table refers to one that does not exist. -/
structure Closed : Prop where
  entries : ∀ t, t < h.count → ∀ e ∈ (h.tables t).entries.entries, RefBelow h.count e.1 ∧ RefBelow h.count e.2
  metatable : ∀ t, t < h.count → ∀ m ∈ (h.tables t).metatable, m < h.count

/-- `luaL_getmetafield`. -/
def metafield (t : ℕ) (k : HeapValue) : Option HeapValue := (h.tables t).metatable.bind fun m => h.rawget m k

def setTable (t : ℕ) (o : TableObject) : LuaHeap := { h with tables := Function.update h.tables t o }

/-- An empty table: its reference is `h.count`. -/
def newTable : LuaHeap := { count := h.count + 1, tables := Function.update h.tables h.count ⟨∅, none⟩ }

/-- `rawset(t, k, v)`. -/
def rawset (t : ℕ) (k v : HeapValue) : LuaHeap :=
  h.setTable t { h.tables t with entries := (h.tables t).entries.insert k v }

/-- `t[k] = v`. -/
def settable (t : ℕ) (k v : HeapValue) : Except LuaStop LuaHeap :=
  if h.rawget t k = none ∧ h.metafield t NEWINDEX ≠ none then .error .metamethod
  else .ok (h.rawset t k v)

/-- `pairs(t)`; `traverse` is what the `__pairs` metamethod of a table traverses. -/
def pairs (traverse : LuaHeap → ℕ → Except LuaStop Entries) (t : ℕ) : Except LuaStop Entries :=
  if h.metafield t PAIRS = none then .ok (h.tables t).entries else traverse h t

/-- `getmetatable(t)`. -/
def getmetatable (t : ℕ) : Option HeapValue :=
  (h.tables t).metatable.map fun m => (h.rawget m METATABLE).getD (.ref m)

/-- `setmetatable(t, v)`. -/
def setmetatable (t : ℕ) (v : Option HeapValue) : Except LuaStop LuaHeap :=
  let set (m : Option ℕ) : Except LuaStop LuaHeap :=
    if h.metafield t METATABLE = none then .ok (h.setTable t { h.tables t with metatable := m })
    else .error (.raises (.error "cannot change a protected metatable" 0))
  match v with
  | none => set none
  | some (.ref m) => set (some m)
  | some (.plain _) => .error (.raises (.badArg 2 "nil or table expected"))

end LuaHeap

end Qsf
