import Qsf.Spec.Lua

/-!
# Functions written in Lua

A loop or a recursion of Lua need not end. The model of such a function has fuel; it returns
when some fuel is enough, and then more fuel changes nothing.
-/

set_option autoImplicit false

universe u

namespace Qsf

/-- How a function of a script does not return. -/
inductive LuaStop
  | raises (e : LuaRaise)
  | metamethod                -- a metamethod is called: what happens then is not modelled
  | unfinished                -- the fuel is used up
  deriving DecidableEq

/-- The function returns `a`. -/
def Returns {α : Type u} (f : ℕ → Except LuaStop α) (a : α) : Prop := ∃ n, ∀ fuel, n ≤ fuel → f fuel = .ok a

/-- More fuel changes nothing. -/
theorem returns_of_mono {α : Type u} {f : ℕ → Except LuaStop α} {a : α} {n : ℕ}
    (hmono : ∀ fuel, f fuel = .ok a → f (fuel + 1) = .ok a) (hrun : f n = .ok a) : Returns f a := by
  refine ⟨n, ?_⟩
  intro fuel hle
  induction fuel, hle using Nat.le_induction with
  | base => exact hrun
  | succ fuel _ ih => exact hmono fuel ih

end Qsf
