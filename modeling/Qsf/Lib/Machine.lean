import Mathlib.Data.List.Basic
import Mathlib.Tactic

/-!
# Machines, runs and invariants

A `Machine` is a total step function with two predicates around it: where runs
start, and which event the environment may deliver in a state.

* `Machine.Meets`: every step of a run meets a condition on state and event.
* `Machine.Along`: a property holds in every state a run passes through.
* `Machine.Reachable.invariant`: what holds at the start and is kept by every
  step holds in every reachable state.
* `Machine.along_iff_meets`: the exact form of a conditional invariant. If each
  step keeps the invariant when it meets the condition and breaks the property
  when it does not, a run has the property throughout iff all its steps meet the
  condition.
-/

universe u v

/-- A step function, the states where runs start, and the events the environment
may deliver. -/
structure Machine (σ : Type u) (ε : Type v) where
  init : σ → Prop
  enabled : σ → ε → Prop
  step : σ → ε → σ

namespace Machine

variable {σ : Type u} {ε : Type v} (M : Machine σ ε)

/-- The state after a list of events. -/
def exec (s : σ) (es : List ε) : σ := es.foldl M.step s

/-- Every step of the run meets `C`, in the state where it is taken. -/
def Meets (C : σ → ε → Prop) : σ → List ε → Prop
  | _, [] => True
  | s, e :: es => C s e ∧ Meets C (M.step s e) es

/-- `P` holds in every state the run passes through, both ends included. -/
def Along (P : σ → Prop) : σ → List ε → Prop
  | s, [] => P s
  | s, e :: es => P s ∧ Along P (M.step s e) es

/-- A run: every event is one the environment may deliver there. -/
def Runs (s : σ) (es : List ε) : Prop := M.Meets M.enabled s es

/-- The machine whose environment also keeps to `C`. -/
def restrict (C : σ → ε → Prop) : Machine σ ε :=
  { M with enabled := fun s e => M.enabled s e ∧ C s e }

/-- Some run from a start state ends in `s`. -/
inductive Reachable : σ → Prop
  | start {s : σ} : M.init s → Reachable s
  | next {s : σ} (e : ε) : Reachable s → M.enabled s e → Reachable (M.step s e)

/-- Runs on concrete events can be checked. -/
instance decidableMeets (C : σ → ε → Prop) [∀ s e, Decidable (C s e)] :
    ∀ (s : σ) (es : List ε), Decidable (M.Meets C s es)
  | _, [] => isTrue trivial
  | s, e :: es =>
    haveI := decidableMeets C (M.step s e) es
    inferInstanceAs (Decidable (C s e ∧ M.Meets C (M.step s e) es))

instance decidableRuns [∀ s e, Decidable (M.enabled s e)] (s : σ) (es : List ε) : Decidable (M.Runs s es) :=
  M.decidableMeets M.enabled s es

variable {M} {C D : σ → ε → Prop} {I P Q : σ → Prop}

theorem exec_append (s : σ) (es fs : List ε) : M.exec s (es ++ fs) = M.exec (M.exec s es) fs :=
  List.foldl_append

theorem Meets.of_append {s : σ} {es fs : List ε} (h : M.Meets C s (es ++ fs)) :
    M.Meets C s es ∧ M.Meets C (M.exec s es) fs := by
  induction es generalizing s with
  | nil => exact ⟨trivial, h⟩
  | cons e es ih =>
    have hrest := ih h.2
    exact ⟨⟨h.1, hrest.1⟩, hrest.2⟩

theorem Meets.and {s : σ} {es : List ε} (h₁ : M.Meets C s es) (h₂ : M.Meets D s es) :
    M.Meets (fun s e => C s e ∧ D s e) s es := by
  induction es generalizing s with
  | nil => trivial
  | cons e es ih => exact ⟨⟨h₁.1, h₂.1⟩, ih h₁.2 h₂.2⟩

/-- A condition on the events alone. -/
theorem meets_iff_forall {K : ε → Prop} {s : σ} {es : List ε} :
    M.Meets (fun _ e => K e) s es ↔ ∀ e ∈ es, K e := by
  induction es generalizing s with
  | nil => exact ⟨fun _ _ he => absurd he List.not_mem_nil, fun _ => trivial⟩
  | cons e es ih =>
    rw [List.forall_mem_cons]
    exact and_congr_right fun _ => ih

/-- **Run rule.** What every step keeps, a whole run keeps. -/
theorem Meets.invariant (hstep : ∀ s e, I s → C s e → I (M.step s e)) {s : σ} {es : List ε}
    (hs : I s) (hm : M.Meets C s es) : I (M.exec s es) := by
  induction es generalizing s with
  | nil => exact hs
  | cons e es ih => exact ih (hstep s e hs hm.1) hm.2

/-- The run rule, in every state passed through. -/
theorem Meets.along (hstep : ∀ s e, I s → C s e → I (M.step s e)) (hP : ∀ s, I s → P s) {s : σ}
    {es : List ε} (hs : I s) (hm : M.Meets C s es) : M.Along P s es := by
  induction es generalizing s with
  | nil => exact hP s hs
  | cons e es ih => exact ⟨hP s hs, ih (hstep s e hs hm.1) hm.2⟩

theorem Along.head {s : σ} {es : List ε} (h : M.Along P s es) : P s := by
  cases es with
  | nil => exact h
  | cons e es => exact h.1

theorem Along.last {s : σ} {es : List ε} (h : M.Along P s es) : P (M.exec s es) := by
  induction es generalizing s with
  | nil => exact h
  | cons e es ih => exact ih h.2

/-- **Invariant rule.** -/
theorem Reachable.invariant (hinit : ∀ s, M.init s → I s)
    (hstep : ∀ s e, I s → M.enabled s e → I (M.step s e)) {s : σ} (h : M.Reachable s) : I s := by
  induction h with
  | start hi => exact hinit _ hi
  | next e _ he ih => exact hstep _ e ih he

theorem Reachable.runs {s : σ} (h : M.Reachable s) {es : List ε} (hr : M.Runs s es) :
    M.Reachable (M.exec s es) :=
  Meets.invariant (I := M.Reachable) (fun _ e hs he => hs.next e he) h hr

/-- **Exact condition of an invariant over runs.** -/
theorem along_iff_meets (hgood : ∀ s e, I s → M.enabled s e → C s e → I (M.step s e))
    (hbad : ∀ s e, I s → M.enabled s e → ¬ C s e → ¬ P (M.step s e)) (hP : ∀ s, I s → P s)
    {s : σ} {es : List ε} (hs : I s) (hr : M.Runs s es) :
    M.Along P s es ↔ M.Meets C s es := by
  induction es generalizing s with
  | nil => exact ⟨fun _ => trivial, fun _ => hP s hs⟩
  | cons e es ih =>
    by_cases hc : C s e
    · have := ih (hgood s e hs hr.1 hc) hr.2
      exact ⟨fun h => ⟨hc, this.1 h.2⟩, fun h => ⟨hP s hs, this.2 h.2⟩⟩
    · exact ⟨fun h => absurd h.2.head (hbad s e hs hr.1 hc), fun h => absurd h.1 hc⟩

end Machine
