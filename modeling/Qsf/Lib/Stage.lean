import Mathlib.Data.List.Basic
import Mathlib.Logic.Function.Basic
import Mathlib.Order.Nat

/-!
# Stages that are called with pieces

A stage is called with a piece, or with `none` at the end, and returns a piece, or `empty` when it
wants the next one, or `none` when it has ended.

* `Drains`: what it returns, from one piece until it wants the next one, or from the end on.
* `Feeds`, `Run`: piece after piece, and then the end.
* `Pass`, `Finish`: stages behind each other, each called as soon as there is a piece for it.
* `stream_of_runs`: **this is composition.** If each stage makes the pieces of the one before it
  into its own, all together make the first pieces into the last.
-/

set_option autoImplicit false

universe u v

/-- What a stage in state `s` may return when it is called, and its state then. -/
abbrev Stage (γ : Type u) (β : Type v) := γ → Option β → Option β → γ → Prop

namespace Stage

section One

variable {γ : Type u} {β : Type v} (S : Stage γ β) (empty : β)

/-- Called with `x` and then with `r` until it returns `r`, the stage returns these pieces. -/
inductive Drains (r : Option β) : γ → Option β → List β → γ → Prop
  | stop {s t : γ} {x : Option β} (h : S s x r t) : Drains r s x [] t
  | piece {s t u : γ} {x : Option β} {p : β} {ps : List β} (h : S s x (some p) t) (hp : p ≠ empty)
      (hps : Drains r t r ps u) : Drains r s x (p :: ps) u

/-- Called with one piece after the other. -/
inductive Feeds : γ → List β → List β → γ → Prop
  | nil {s : γ} : Feeds s [] [] s
  | cons {s t u : γ} {x : β} {xs ps qs : List β} (h : Drains S empty (some empty) s (some x) ps t)
      (hxs : Feeds t xs qs u) : Feeds s (x :: xs) (ps ++ qs) u

/-- All the pieces and the end. -/
structure Run (s : γ) (xs out : List β) (s' : γ) : Prop where
  parts : ∃ ps qs s₁, Feeds S empty s xs ps s₁ ∧ Drains S empty none s₁ none qs s' ∧ out = ps ++ qs

variable {S empty} {s s' : γ} {xs ys out : List β}

theorem Feeds.append {s₁ : γ} {out' : List β} (h : Feeds S empty s xs out s₁)
    (h' : Feeds S empty s₁ ys out' s') : Feeds S empty s (xs ++ ys) (out ++ out') s' := by
  induction h with
  | nil => exact h'
  | cons hx _ ih =>
    rw [List.cons_append, List.append_assoc]
    exact .cons hx (ih h')

/-- A stage that gives back nothing yet. -/
theorem Feeds.keep {t : γ} {x : β} (h : S s (some x) (some empty) t) (hxs : Feeds S empty t xs out s') :
    Feeds S empty s (x :: xs) out s' := .cons (.stop h) hxs

theorem Drains.ne_empty {r x : Option β} (h : Drains S empty r s x out s') : empty ∉ out := by
  induction h with
  | stop => exact List.not_mem_nil
  | piece _ hp _ ih => exact List.not_mem_cons_of_ne_of_not_mem hp.symm ih

theorem Feeds.ne_empty (h : Feeds S empty s xs out s') : empty ∉ out := by
  induction h with
  | nil => exact List.not_mem_nil
  | cons hx _ ih => exact fun hmem => (List.mem_append.1 hmem).elim hx.ne_empty ih

/-- A stage returns no empty piece. -/
theorem Run.ne_empty (h : Run S empty s xs out s') : empty ∉ out := by
  obtain ⟨ps, qs, s₁, hps, hqs, rfl⟩ := h.parts
  exact fun hmem => (List.mem_append.1 hmem).elim hps.ne_empty hqs.ne_empty

end One

/-! ## Stages behind each other -/

section Many

variable {γ : Type u} {β : Type v} (S : ℕ → Stage γ β) (empty : β) (n : ℕ)

/-- A piece for stage `i`, and what comes out behind stage `n` until stage `i` wants the next. -/
inductive Pass : ℕ → (ℕ → γ) → β → List β → (ℕ → γ) → Prop
  | more {i : ℕ} {c : ℕ → γ} {x : β} {s : γ} (h : S i (c i) (some x) (some empty) s) :
      Pass i c x [] (Function.update c i s)
  | out {c c' : ℕ → γ} {x p : β} {s : γ} {ps : List β} (h : S n (c n) (some x) (some p) s) (hp : p ≠ empty)
      (hps : Pass n (Function.update c n s) empty ps c') : Pass n c x (p :: ps) c'
  | pass {i : ℕ} {c c₁ c₂ : ℕ → γ} {x p : β} {s : γ} {ps qs : List β} (hi : i < n)
      (h : S i (c i) (some x) (some p) s) (hp : p ≠ empty) (hps : Pass (i + 1) (Function.update c i s) p ps c₁)
      (hqs : Pass i c₁ empty qs c₂) : Pass i c x (ps ++ qs) c₂

/-- Piece after piece for stage `i`. -/
inductive PassAll (i : ℕ) : (ℕ → γ) → List β → List β → (ℕ → γ) → Prop
  | nil {c : ℕ → γ} : PassAll i c [] [] c
  | cons {c c₁ c₂ : ℕ → γ} {x : β} {xs ps qs : List β} (h : Pass S empty n i c x ps c₁)
      (hxs : PassAll i c₁ xs qs c₂) : PassAll i c (x :: xs) (ps ++ qs) c₂

/-- The end for stage `i`, and what comes out behind stage `n` until all have ended. -/
inductive Finish : ℕ → (ℕ → γ) → List β → (ℕ → γ) → Prop
  | last {c : ℕ → γ} {s : γ} (h : S n (c n) none none s) : Finish n c [] (Function.update c n s)
  | out {c c' : ℕ → γ} {p : β} {s : γ} {ps : List β} (h : S n (c n) none (some p) s) (hp : p ≠ empty)
      (hps : Finish n (Function.update c n s) ps c') : Finish n c (p :: ps) c'
  | next {i : ℕ} {c c' : ℕ → γ} {s : γ} {ps : List β} (hi : i < n) (h : S i (c i) none none s)
      (hps : Finish (i + 1) (Function.update c i s) ps c') : Finish i c ps c'
  | pass {i : ℕ} {c c₁ c₂ : ℕ → γ} {p : β} {s : γ} {ps qs : List β} (hi : i < n)
      (h : S i (c i) none (some p) s) (hp : p ≠ empty) (hps : Pass S empty n (i + 1) (Function.update c i s) p ps c₁)
      (hqs : Finish i c₁ qs c₂) : Finish i c (ps ++ qs) c₂

variable {S empty n} {i k : ℕ} {c c' : ℕ → γ} {x : β} {xs ys ps out : List β} {s s' : γ}

theorem PassAll.append {c₁ : ℕ → γ} {out' : List β} (h : PassAll S empty n i c xs out c₁)
    (h' : PassAll S empty n i c₁ ys out' c') : PassAll S empty n i c (xs ++ ys) (out ++ out') c' := by
  induction h with
  | nil => exact h'
  | cons hx _ ih =>
    rw [List.cons_append, List.append_assoc]
    exact .cons hx (ih h')

theorem PassAll.split (h : PassAll S empty n i c (xs ++ ys) out c') :
    ∃ o₁ o₂ c₁, PassAll S empty n i c xs o₁ c₁ ∧ PassAll S empty n i c₁ ys o₂ c' ∧ out = o₁ ++ o₂ := by
  induction xs generalizing c out with
  | nil => exact ⟨[], out, c, .nil, h, rfl⟩
  | cons x xs ih =>
    cases h with
    | cons hx hxs =>
      obtain ⟨o₁, o₂, c₁, h₁, h₂, rfl⟩ := ih hxs
      exact ⟨_, o₂, c₁, .cons hx h₁, h₂, (List.append_assoc _ _ _).symm⟩

/-- **Stages in front are left alone.** -/
theorem Pass.update (h : Pass S empty n i c x out c') (hk : k < i) (s : γ) :
    Pass S empty n i (Function.update c k s) x out (Function.update c' k s) := by
  induction h with
  | more h =>
    rw [Function.update_comm hk.ne']
    exact .more (by rwa [Function.update_of_ne hk.ne'])
  | out h hp _ ih =>
    refine .out (by rwa [Function.update_of_ne hk.ne']) hp ?_
    rw [Function.update_comm hk.ne]
    exact ih hk
  | pass hi h hp _ _ ih₁ ih₂ =>
    refine .pass hi (by rwa [Function.update_of_ne hk.ne']) hp ?_ (ih₂ hk)
    rw [Function.update_comm hk.ne]
    exact ih₁ (hk.trans (Nat.lt_succ_self _))

theorem PassAll.update (h : PassAll S empty n i c xs out c') (hk : k < i) (s : γ) :
    PassAll S empty n i (Function.update c k s) xs out (Function.update c' k s) := by
  induction h with
  | nil => exact .nil
  | cons hx _ ih => exact .cons (hx.update hk s) ih

theorem Finish.update (h : Finish S empty n i c out c') (hk : k < i) (s : γ) :
    Finish S empty n i (Function.update c k s) out (Function.update c' k s) := by
  induction h with
  | last h =>
    rw [Function.update_comm hk.ne']
    exact .last (by rwa [Function.update_of_ne hk.ne'])
  | out h hp _ ih =>
    refine .out (by rwa [Function.update_of_ne hk.ne']) hp ?_
    rw [Function.update_comm hk.ne]
    exact ih hk
  | next hi h _ ih =>
    refine .next hi (by rwa [Function.update_of_ne hk.ne']) ?_
    rw [Function.update_comm hk.ne]
    exact ih (hk.trans (Nat.lt_succ_self _))
  | pass hi h hp hps _ ih =>
    refine .pass hi (by rwa [Function.update_of_ne hk.ne']) hp ?_ (ih hk)
    rw [Function.update_comm hk.ne]
    exact hps.update (hk.trans (Nat.lt_succ_self _)) s

/-! ### The last stage alone -/

theorem Pass.of_drains (h : Drains (S n) empty (some empty) s (some x) out s') (hs : c n = s) :
    Pass S empty n n c x out (Function.update c n s') := by
  generalize hx : some x = y at h
  induction h generalizing c x with
  | stop h =>
    subst hx hs
    exact .more h
  | @piece s s₁ s₂ y p ps h hp _ ih =>
    subst hx hs
    have htail := ih (c := Function.update c n s₁) (Function.update_self ..) rfl
    rw [Function.update_idem] at htail
    exact .out h hp htail

theorem PassAll.of_feeds (h : Feeds (S n) empty s xs out s') (hs : c n = s) :
    PassAll S empty n n c xs out (Function.update c n s') := by
  induction h generalizing c with
  | nil =>
    rw [← hs, Function.update_eq_self]
    exact .nil
  | @cons s s₁ s₂ x xs ps qs hx _ ih =>
    have htail := ih (c := Function.update c n s₁) (Function.update_self ..)
    rw [Function.update_idem] at htail
    exact .cons (.of_drains hx hs) htail

theorem Finish.of_drains {y : Option β} (h : Drains (S n) empty none s y out s') (hx : none = y) (hs : c n = s) :
    Finish S empty n n c out (Function.update c n s') := by
  induction h generalizing c with
  | stop h =>
    subst hx hs
    exact .last h
  | @piece s s₁ s₂ y p ps h hp _ ih =>
    subst hx hs
    have htail := ih (c := Function.update c n s₁) rfl (Function.update_self ..)
    rw [Function.update_idem] at htail
    exact .out h hp htail

/-! ### A stage before others -/

theorem Pass.cons (hi : i < n) (h : Drains (S i) empty (some empty) s (some x) ps s') (hs : c i = s)
    (hps : PassAll S empty n (i + 1) c ps out c') : Pass S empty n i c x out (Function.update c' i s') := by
  generalize hx : some x = y at h
  induction h generalizing c c' x out with
  | stop h =>
    subst hx hs
    cases hps
    exact .more h
  | @piece s s₁ s₂ y p ps h hp _ ih =>
    subst hx hs
    cases hps with
    -- the piece goes through the stages behind before this one is asked for the next
    | cons hp₁ hps₁ =>
      have htail := ih (Function.update_self ..) (hps₁.update (Nat.lt_succ_self i) s₁) rfl
      rw [Function.update_idem] at htail
      exact .pass hi h hp (hp₁.update (Nat.lt_succ_self i) s₁) htail

theorem PassAll.cons_stage (hi : i < n) (h : Feeds (S i) empty s xs ps s') (hs : c i = s)
    (hps : PassAll S empty n (i + 1) c ps out c') :
    PassAll S empty n i c xs out (Function.update c' i s') := by
  induction h generalizing c c' out with
  | nil =>
    cases hps
    rw [← hs, Function.update_eq_self]
    exact .nil
  | @cons s s₁ s₂ x xs ps qs hx _ ih =>
    obtain ⟨o₁, o₂, c₁, h₁, h₂, rfl⟩ := hps.split
    have htail := ih (Function.update_self i s₁ c₁) (h₂.update (Nat.lt_succ_self i) s₁)
    rw [Function.update_idem] at htail
    exact .cons (.cons hi hx hs h₁) htail

theorem Finish.cons (hi : i < n) {y : Option β} (h : Drains (S i) empty none s y ps s') (hx : none = y)
    (hs : c i = s) {c₁ : ℕ → γ} {o₁ o₂ : List β} (hps : PassAll S empty n (i + 1) c ps o₁ c₁)
    (hend : Finish S empty n (i + 1) c₁ o₂ c') :
    Finish S empty n i c (o₁ ++ o₂) (Function.update c' i s') := by
  induction h generalizing c c₁ c' o₁ with
  | @stop s s' y h =>
    subst hx hs
    cases hps
    exact .next hi h (hend.update (Nat.lt_succ_self i) s')
  | @piece s s₁ s₂ y p ps h hp _ ih =>
    subst hx hs
    cases hps with
    | cons hp₁ hps₁ =>
      have htail := ih rfl (Function.update_self ..) (hps₁.update (Nat.lt_succ_self i) s₁)
        (hend.update (Nat.lt_succ_self i) s₁)
      rw [Function.update_idem] at htail
      rw [List.append_assoc]
      exact .pass hi h hp (hp₁.update (Nat.lt_succ_self i) s₁) htail

/-- **Stages behind each other compose.** Each makes the pieces `m i` of the one before into
`m (i + 1)`; then the first pieces, fed in one after the other, come out as the last. -/
theorem stream_of_runs {m : ℕ → List β} {c : ℕ → γ} (hi : i ≤ n)
    (h : ∀ j, i ≤ j → j ≤ n → ∃ s, Run (S j) empty (c j) (m j) (m (j + 1)) s) :
    ∃ o₁ o₂ c₁ c₂, PassAll S empty n i c (m i) o₁ c₁ ∧ Finish S empty n i c₁ o₂ c₂ ∧ m (n + 1) = o₁ ++ o₂ := by
  -- on the stages behind stage `i`: they get its pieces, those of the chunks and then those of the end
  induction hk : n - i generalizing i with
  | zero =>
    obtain rfl : i = n := by omega
    obtain ⟨s, hrun⟩ := h i le_rfl le_rfl
    obtain ⟨ps, qs, s₁, hps, hqs, hout⟩ := hrun.parts
    exact ⟨ps, qs, _, _, .of_feeds hps rfl, (.of_drains hqs rfl (Function.update_self ..)), hout⟩
  | succ k ih =>
    have hlt : i < n := by omega
    obtain ⟨s, hrun⟩ := h i le_rfl hi
    obtain ⟨ps, qs, s₁, hps, hqs, hmid⟩ := hrun.parts
    obtain ⟨o₁, o₂, c₁, c₂, hall, hend, hout⟩ := ih hlt (fun j hj => h j (by omega)) (by omega)
    rw [hmid] at hall
    obtain ⟨oa, ob, ca, ha, hb, rfl⟩ := hall.split
    have hends := Finish.cons hlt hqs rfl (Function.update_self i s₁ ca) (hb.update (Nat.lt_succ_self i) s₁)
      (hend.update (Nat.lt_succ_self i) s₁)
    exact ⟨oa, ob ++ o₂, _, _, .cons_stage hlt hps rfl ha, hends, by rw [hout, List.append_assoc]⟩

end Many

end Stage
