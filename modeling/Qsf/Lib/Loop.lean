import Mathlib.Data.List.Basic
import Mathlib.Tactic

/-!
# Loops that may stop

A loop over a list, whose body returns a state or stops. The invariant speaks of what is done and
of the state.

* `foldlM_total`: where the body returns, the loop does.
* `foldlM_partial`: what holds when the loop has returned.
-/

set_option autoImplicit false

universe u v w

namespace Loop

variable {α : Type u} {σ : Type v} {ε : Type w} {f : σ → α → Except ε σ} {l : List α} {s s' : σ}

/-- Two steps return when the first does and then the second. -/
theorem bind_eq_ok {β : Type u} {r : Except ε α} {k : α → Except ε β} {b : β} :
    (r >>= k) = .ok b ↔ ∃ a, r = .ok a ∧ k a = .ok b := by
  cases r with
  | error e =>
    constructor
    · intro h
      cases h
    · rintro ⟨a, h, -⟩
      cases h
  | ok a =>
    constructor
    · intro h
      exact ⟨a, rfl, h⟩
    · rintro ⟨a', h, hk⟩
      cases h
      exact hk

/-- A body that returns more often. -/
theorem foldlM_mono {f' : σ → α → Except ε σ} (hle : ∀ s e s', f s e = .ok s' → f' s e = .ok s')
    (hrun : l.foldlM f s = .ok s') : l.foldlM f' s = .ok s' := by
  induction l generalizing s with
  | nil => exact hrun
  | cons e l ih =>
    rw [List.foldlM_cons, bind_eq_ok] at hrun ⊢
    obtain ⟨s₁, hbody, hrest⟩ := hrun
    exact ⟨s₁, hle s e s₁ hbody, ih hrest⟩

/-- A loop whose body returns: what each round keeps holds at the end. -/
theorem foldlM_total (P : List α → σ → Prop) (hinit : P [] s)
    (hstep : ∀ done e s, done ++ [e] <+: l → P done s → ∃ s', f s e = .ok s' ∧ P (done ++ [e]) s') :
    ∃ s', l.foldlM f s = .ok s' ∧ P l s' := by
  induction l using List.reverseRecOn with
  | nil => exact ⟨s, rfl, hinit⟩
  | append_singleton l e ih =>
    obtain ⟨s₁, hrun, hP⟩ := ih (by
      intro done x s hpre
      exact hstep done x s (hpre.trans (List.prefix_append l [e])))
    obtain ⟨s₂, hlast, hP'⟩ := hstep l e s₁ (List.prefix_refl _) hP
    refine ⟨s₂, ?_, hP'⟩
    rw [List.foldlM_append, hrun]
    show (f s₁ e >>= fun s => pure s) = _
    rw [hlast]
    rfl

/-- A loop that returned: what each round that returned keeps holds at the end. -/
theorem foldlM_partial (P : List α → σ → Prop) (hinit : P [] s)
    (hstep : ∀ done e s s', done ++ [e] <+: l → P done s → f s e = .ok s' → P (done ++ [e]) s')
    (hrun : l.foldlM f s = .ok s') : P l s' := by
  induction l using List.reverseRecOn generalizing s' with
  | nil =>
    cases hrun
    exact hinit
  | append_singleton l e ih =>
    rw [List.foldlM_append, bind_eq_ok] at hrun
    obtain ⟨s₁, hl, hlast⟩ := hrun
    rw [List.foldlM_cons, bind_eq_ok] at hlast
    obtain ⟨s₂, hbody, hend⟩ := hlast
    cases hend
    apply hstep l e s₁ s' (List.prefix_refl _) _ hbody
    apply ih _ hl
    intro done x s s' hpre
    exact hstep done x s s' (hpre.trans (List.prefix_append l [e]))

end Loop
