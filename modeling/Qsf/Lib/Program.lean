import Mathlib.Logic.Basic
import Mathlib.Tactic

/-!
# Programs that call their environment

`Program C R α` is a sequential program that makes calls `c : C`, gets replies in `R c`,
and returns an `α`. A thread that is stopped between two calls is a `Program` again, so a
system of threads can keep its threads in its state.

* `Program.run`: the program alone, with an environment that answers every call or lets
  it wait for ever.
* `Program.Safe`: the program keeps to a contract, seen from a local state that only its
  own calls change.
-/

set_option autoImplicit false

universe u v w x

inductive Program (C : Type u) (R : C → Type v) (α : Type w) : Type (max u v w)
  | done (a : α)
  | call (c : C) (k : R c → Program C R α)

namespace Program

variable {C : Type u} {R : C → Type v} {α β : Type w} {σ : Type x}

def bind (p : Program C R α) (f : α → Program C R β) : Program C R β :=
  match p with
  | .done a => f a
  | .call c k => .call c fun r => (k r).bind f

instance : Monad (Program C R) where
  pure := .done
  bind := bind

/-- One call. -/
def ask (c : C) : Program C R (R c) := .call c .done

@[simp] theorem pure_eq (a : α) : (pure a : Program C R α) = .done a := rfl

@[simp] theorem done_bind (a : α) (f : α → Program C R β) : (.done a : Program C R α) >>= f = f a := rfl

@[simp] theorem call_bind (c : C) (k : R c → Program C R α) (f : α → Program C R β) :
    Program.call c k >>= f = .call c fun r => k r >>= f := rfl

/-! ## Alone -/

/-- The program in an environment that answers by `answer`; `none` when it waits for ever. -/
def run (answer : (c : C) → σ → Option (R c × σ)) : Program C R α → σ → Option (α × σ)
  | .done a, s => some (a, s)
  | .call c k, s => (answer c s).bind fun rs => (k rs.1).run answer rs.2

@[simp] theorem run_done (answer : (c : C) → σ → Option (R c × σ)) (a : α) (s : σ) :
    (done a : Program C R α).run answer s = some (a, s) := rfl

@[simp] theorem run_call (answer : (c : C) → σ → Option (R c × σ)) (c : C) (k : R c → Program C R α) (s : σ) :
    (call c k).run answer s = (answer c s).bind fun rs => (k rs.1).run answer rs.2 := rfl

/-! ## Among others -/

/-- What a thread must see to before a call, and what it may find after it. -/
structure Contract (C : Type u) (R : C → Type v) (σ : Type x) where
  pre : C → σ → Prop
  post : (c : C) → σ → R c → σ → Prop

/-- The program makes its calls in states where their preconditions hold, as long as the
replies are as promised, and ends in `Q`. -/
def Safe (K : Contract C R σ) (Q : α → σ → Prop) : Program C R α → σ → Prop
  | .done a, s => Q a s
  | .call c k, s => K.pre c s ∧ ∀ r s', K.post c s r s' → (k r).Safe K Q s'

variable {K : Contract C R σ} {Q : α → σ → Prop}

@[simp] theorem safe_done {a : α} {s : σ} : (done a : Program C R α).Safe K Q s ↔ Q a s := Iff.rfl

@[simp] theorem safe_call {c : C} {k : R c → Program C R α} {s : σ} :
    (call c k).Safe K Q s ↔ K.pre c s ∧ ∀ r s', K.post c s r s' → (k r).Safe K Q s' := Iff.rfl

end Program
