import Qsf.Lib.Chain
import Qsf.Lib.Machine
import Qsf.Spec.Bytes

/-!
# The registry of nodes (`qsf_node.c`)

Nodes are objects in memory, linked into the list `node_ctx.list`. Every function below
follows its source through the pointers; `none` stands for an access to memory that is not
there, or for a loop that does not end. Each runs under `node_ctx.mutex`, so it is one
step.

An address is a number; which free address `malloc` returns, and what `uv_thread_create`
returns, is decided by the environment.
-/

set_option autoImplicit false

namespace Qsf

def MAX_ID_LENGTH : ℕ := 32

def MAX_PATH : ℕ := 260

def MAX_ARG_LENGTH : ℕ := 256

/-- `qsf_node_t`, the fields that the registry uses. -/
structure QsfNode where
  next : Option ℕ
  name : List UInt8
  path : List UInt8
  args : List UInt8

/-- `node_ctx`, and the nodes in memory. -/
structure NodeContext where
  count : ℤ
  list : Option ℕ
  heap : ℕ → Option QsfNode

namespace NodeContext

/-- The pointers of the list. -/
def links (ctx : NodeContext) : Links ℕ := ⟨ctx.list, fun a => (ctx.heap a).bind QsfNode.next⟩

/-- `*pph`. -/
def load (ctx : NodeContext) : Link ℕ → Option (Option ℕ)
  | .head => some ctx.list
  | .next a => (ctx.heap a).map QsfNode.next

/-- `*pph = q`. -/
def store (ctx : NodeContext) (pph : Link ℕ) (q : Option ℕ) : Option NodeContext :=
  match pph with
  | .head => some { ctx with list := q }
  | .next a => (ctx.heap a).map fun s =>
    { ctx with heap := Function.update ctx.heap a (some { s with next := q }) }

/-- `qsf_free`. -/
def free (ctx : NodeContext) (a : ℕ) : Option NodeContext :=
  (ctx.heap a).map fun _ => { ctx with heap := Function.update ctx.heap a none }

/-- Rounds that are enough for a walk over the list. -/
def fuel (ctx : NodeContext) : ℕ := ctx.count.toNat + 1

/-- The loop of `find_from_node_list`. -/
def findLoop (ctx : NodeContext) (name : CString) : ℕ → Option ℕ → Option (Option ℕ)
  | 0, _ => none
  | _ + 1, none => some none
  | n + 1, some phead => do
    let s ← ctx.heap phead
    if ← strcmpEq s.name name.stored then some (some phead)
    else findLoop ctx name n s.next

/-- `find_from_node_list`. -/
def findFromNodeList (ctx : NodeContext) (name : CString) : Option (Option ℕ) :=
  ctx.findLoop name ctx.fuel ctx.list

/-- The loop of `remove_from_node_list`. -/
def removeLoop (ctx : NodeContext) (s : ℕ) : ℕ → Link ℕ → Option NodeContext
  | 0, _ => none
  | n + 1, pph => do
    match ← ctx.load pph with
    | none => some ctx
    | some p =>
      let node ← ctx.heap p
      let given ← ctx.heap s
      if ← strcmpEq node.name given.name then
        let ctx ← ctx.store pph node.next
        let ctx ← ctx.free p
        some { ctx with count := ctx.count - 1 }
      else ctx.removeLoop s n (.next p)

/-- `remove_from_node_list`. -/
def removeFromNodeList (ctx : NodeContext) (s : ℕ) : Option NodeContext :=
  ctx.removeLoop s ctx.fuel .head

/-- The loop of `create_from_node_list`: the link at the end of the list. -/
def lastLoop (ctx : NodeContext) : ℕ → Link ℕ → Option (Link ℕ)
  | 0, _ => none
  | n + 1, pph => do
    match ← ctx.load pph with
    | none => some pph
    | some p => ctx.lastLoop n (.next p)

/-- `create_from_node_list`; `s` is the address that `malloc` returns. -/
def createFromNodeList (ctx : NodeContext) (s : ℕ) (name path args : CString) :
    Option NodeContext := do
  let node : QsfNode :=
    { next := none
      name := strncpy name MAX_ID_LENGTH
      path := strncpy path MAX_PATH
      args := strncpy args MAX_ARG_LENGTH }
  let ctx := { ctx with heap := Function.update ctx.heap s (some node) }
  let pph ← ctx.lastLoop ctx.fuel .head
  let ctx ← ctx.store pph (some s)
  some { ctx with count := ctx.count + 1 }

/-- `qsf_create_node`; `s` is the address that `malloc` returns, `r` the result of
`uv_thread_create`. -/
def qsfCreateNode (ctx : NodeContext) (name path args : CString) (s : ℕ) (r : ℤ) :
    Option (ℤ × NodeContext) :=
  if MAX_ID_LENGTH ≤ name.length then some (1, ctx) -- invalid name size
  else if name = .sys then some (2, ctx) -- reserved name
  else do
    match ← ctx.findFromNodeList name with
    | some _ => some (3, ctx) -- service already exist
    | none =>
      let ctx ← ctx.createFromNodeList s name path args
      if r < 0 then
        let ctx ← ctx.removeFromNodeList s
        some (r, ctx)
      else some (r, ctx)

/-- The part of `cleanup_node` under the mutex. -/
def cleanupNode (ctx : NodeContext) (s : ℕ) : Option NodeContext := ctx.removeFromNodeList s

end NodeContext

/-! ## Nodes that come and go -/

/-- The registry, and the threads that were created and have not cleaned up, in the order
of their creation, with the names they were created under. -/
structure NodeWorld where
  ctx : NodeContext
  threads : List (ℕ × CString)
  crashed : Bool

inductive NodeEvent
  | create (name path args : CString) (s : ℕ) (r : ℤ)
  | cleanup (s : ℕ)

namespace NodeWorld

/-- `qsf_node_init`. -/
def init : NodeWorld := ⟨⟨0, none, fun _ => none⟩, [], false⟩

/-- `malloc` returns memory that is not in use, `uv_thread_create` 0 or an error; a thread
cleans up once. -/
def enabled (w : NodeWorld) : NodeEvent → Prop
  | .create _ _ _ s r => w.ctx.heap s = none ∧ r ≤ 0
  | .cleanup s => s ∈ w.threads.map Prod.fst

def step (w : NodeWorld) : NodeEvent → NodeWorld
  | .create name path args s r =>
    match w.ctx.qsfCreateNode name path args s r with
    | none => { w with crashed := true }
    | some (ret, ctx) =>
      { w with ctx := ctx, threads := if ret = 0 then w.threads ++ [(s, name)] else w.threads }
  | .cleanup s =>
    match w.ctx.cleanupNode s with
    | none => { w with crashed := true }
    | some ctx => { w with ctx := ctx, threads := w.threads.filter (·.1 ≠ s) }

end NodeWorld

/-- Nodes are created by any thread, and terminate, in any order. -/
def nodeRegistry : Machine NodeWorld NodeEvent where
  init w := w = NodeWorld.init
  enabled := NodeWorld.enabled
  step := NodeWorld.step

end Qsf
