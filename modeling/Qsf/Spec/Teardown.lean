import Qsf.Spec.NodeRegistry

/-!
# Nodes at the end of the process (`qsf_node.c`, `qsf_start.c`)

A node is cleaned up by its own thread, at the end of `node_thread_callback`, and by
`qsf_node_exit`, which the main thread calls once (`qsf_exit`) and which walks the list of
nodes. One execution of `cleanup_node` is one step; the walk reads the next pointer in a
step before it. Threads end, run Lua code and create nodes at any time.

An address stands for one object here: `malloc` returns one that no node had before.
`cleaned` and `usedFreed` are records, read by the theorems only.
-/

set_option autoImplicit false

namespace Qsf

/-- Where the main thread is in `qsf_node_exit`. -/
inductive ExitWalk
  | before
  | loop (ctx : Option ℕ)           -- at `while (ctx)`
  | cleaning (p : ℕ) (ctx : Option ℕ)  -- before `cleanup_node(p)`
  | done
  deriving DecidableEq

/-- The registry, the threads that are still in `node_thread_callback`, and the walk. -/
structure Teardown where
  ctx : NodeContext
  threads : List (ℕ × CString)
  /-- The node objects there were so far. -/
  objects : List ℕ
  exit : ExitWalk
  /-- How often `cleanup_node` was executed on an object. -/
  cleaned : ℕ → ℕ
  /-- A step used an object after it was freed. -/
  usedFreed : Bool

inductive TeardownEvent
  | create (name path args : CString) (s : ℕ) (r : ℤ)
  | run (s : ℕ)         -- Lua code of the node looks at its node
  | terminate (s : ℕ)   -- the thread reaches the end of `node_thread_callback`
  | exit                -- the main thread calls `qsf_node_exit`
  | next                -- `p = ctx; ctx = ctx->next`, or the end of the loop
  | clean               -- `cleanup_node(p)`

namespace Teardown

/-- `qsf_node_init`. -/
def init : Teardown := ⟨⟨0, none, fun _ => none⟩, [], [], .before, fun _ => 0, false⟩

/-- The step uses the object at `s`. -/
def uses (w : Teardown) (s : ℕ) :
    Teardown := { w with usedFreed := w.usedFreed || (w.ctx.heap s).isNone }

/-- `cleanup_node`. No list is longer than the number of objects there were. -/
def cleanupNode (w : Teardown) (s : ℕ) : Teardown :=
  let w := { w.uses s with cleaned := Function.update w.cleaned s (w.cleaned s + 1) }
  match w.ctx.removeLoop s (w.objects.length + 1) .head with
  | none => { w with usedFreed := true }
  | some ctx => { w with ctx := ctx }

/-- One turn of the loop in `qsf_node_exit`, up to the call of `cleanup_node`. -/
def exitNext (w : Teardown) : Teardown :=
  match w.exit with
  | .loop none => { w with exit := .done, ctx := { w.ctx with count := 0 } }
  | .loop (some p) => { w.uses p with exit := .cleaning p ((w.ctx.heap p).bind QsfNode.next) }
  | _ => w

/-- The rest of that turn. -/
def exitClean (w : Teardown) : Teardown :=
  match w.exit with
  | .cleaning p ctx => { w.cleanupNode p with exit := .loop ctx }
  | _ => w

/-- Nodes are created by the main thread before it calls `qsf_exit`, and by nodes. A thread
terminates once, and `qsf_exit` is called once. -/
def enabled (w : Teardown) : TeardownEvent → Prop
  | .create _ _ _ s r => s ∉ w.objects ∧ r ≤ 0 ∧ (w.exit = .before ∨ w.threads ≠ [] ∧ w.exit ≠ .done)
  | .run s => s ∈ w.threads.map Prod.fst
  | .terminate s => s ∈ w.threads.map Prod.fst
  | .exit => w.exit = .before
  | .next => ∃ ctx, w.exit = .loop ctx
  | .clean => ∃ p ctx, w.exit = .cleaning p ctx

def step (w : Teardown) : TeardownEvent → Teardown
  | .create name path args s r =>
    match w.ctx.qsfCreateNode name path args s r with
    | none => { w with usedFreed := true }
    | some (ret, ctx) =>
      { w with
        ctx := ctx
        objects := s :: w.objects
        threads := if ret = 0 then w.threads ++ [(s, name)] else w.threads }
  | .run s => w.uses s
  | .terminate s => { w.cleanupNode s with threads := w.threads.filter (·.1 ≠ s) }
  | .exit => { w with exit := .loop w.ctx.list }
  | .next => w.exitNext
  | .clean => w.exitClean

end Teardown

/-- Nodes that come and go, and one call of `qsf_exit`. -/
def teardown : Machine Teardown TeardownEvent where
  init w := w = Teardown.init
  enabled := Teardown.enabled
  step := Teardown.step

end Qsf
