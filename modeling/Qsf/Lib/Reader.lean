import Qsf.Lib.Program

/-!
# Programs that read a stream

A reader asks for numbers of elements and gets them from a list, or from a buffer that is
filled on demand.

* `read_append`: what a reader got does not depend on what follows; `read_prefix`: with less than
  it read, it gets nothing.
* `run_view`: **a buffer is as good as the list it stands for**, however it is filled.
-/

set_option autoImplicit false

universe u v w

namespace Program

/-- The list answers a request for `k` elements. -/
def answerTake {β : Type u} (k : ℕ) (bs : List β) : Option (List β × List β) :=
  if k ≤ bs.length then some (bs.take k, bs.drop k) else none

/-- What a reader returns, and the rest of the list. -/
def read {β : Type u} {α : Type w} (p : Program ℕ (fun _ => List β) α) (bs : List β) : Option (α × List β) :=
  p.run answerTake bs

section Reader

variable {β : Type u} {α γ : Type w} {τ : Type v} {p : Program ℕ (fun _ => List β) α} {bs q r : List β} {x : α}

@[simp] theorem read_done (a : α) (bs : List β) :
    (done a : Program ℕ (fun _ => List β) α).read bs = some (a, bs) := rfl

theorem read_call (k : ℕ) (f : List β → Program ℕ (fun _ => List β) α) (bs : List β) :
    (call k f).read bs = if k ≤ bs.length then (f (bs.take k)).read (bs.drop k) else none := by
  show (answerTake k bs).bind _ = _
  unfold answerTake
  split <;> rfl

/-- A request for exactly the elements in front. -/
theorem read_call_append {k : ℕ} {f : List β → Program ℕ (fun _ => List β) α} (h : bs.length = k) :
    (call k f).read (bs ++ q) = (f bs).read q := by
  rw [read_call, if_pos, List.take_left' h, List.drop_left' h]
  rw [List.length_append]
  omega

theorem read_bind (f : α → Program ℕ (fun _ => List β) γ) :
    (p >>= f).read bs = (p.read bs).bind fun s => (f s.1).read s.2 := by
  induction p generalizing bs with
  | done a => rfl
  | call k g ih =>
    rw [call_bind, read_call, read_call]
    split
    · exact ih _
    · rfl

/-- A reader consumes from the front. -/
theorem read_length_le (h : p.read bs = some (x, r)) : r.length ≤ bs.length := by
  induction p generalizing bs with
  | done a =>
    rw [read_done, Option.some_inj, Prod.mk.injEq] at h
    rw [h.2]
  | call k f ih =>
    rw [read_call] at h
    split at h
    · have hle := ih _ h
      rw [List.length_drop] at hle
      omega
    · cases h

/-- **More input changes nothing** about what was read. -/
theorem read_append (h : p.read bs = some (x, r)) (q : List β) : p.read (bs ++ q) = some (x, r ++ q) := by
  induction p generalizing bs with
  | done a =>
    rw [read_done, Option.some_inj, Prod.mk.injEq] at h
    rw [read_done, h.1, h.2]
  | call k f ih =>
    rw [read_call] at h ⊢
    split at h
    next hk =>
      rw [if_pos (by rw [List.length_append]; omega), List.take_append_of_le_length hk,
        List.drop_append_of_le_length hk]
      exact ih _ h
    next => cases h

/-- **Less input is not enough.** -/
theorem read_prefix (h : p.read (bs ++ q) = some (x, r)) (hr : r.length < q.length) : p.read bs = none := by
  cases hp : p.read bs with
  | none => rfl
  | some s =>
    rw [read_append hp q, Option.some_inj, Prod.mk.injEq] at h
    have hlen := congrArg List.length h.2
    rw [List.length_append] at hlen
    omega

/-- **A buffer that stands for a list** answers as the list does. -/
theorem run_view {view : τ → List β} {ok : τ → Prop} {take : ℕ → τ → Option (List β × τ)}
    (htake : ∀ k t, ok t → (take k t).map (fun s => (s.1, view s.2)) = answerTake k (view t) ∧
      ∀ s, take k t = some s → ok s.2) (p : Program ℕ (fun _ => List β) α) {t : τ} (ht : ok t) :
    (p.run take t).map (fun s => (s.1, view s.2)) = p.read (view t) ∧ ∀ s, p.run take t = some s → ok s.2 := by
  induction p generalizing t with
  | done a =>
    refine ⟨rfl, ?_⟩
    intro s hs
    rw [run_done, Option.some_inj] at hs
    exact hs ▸ ht
  | call k f ih =>
    obtain ⟨hview, hok⟩ := htake k t ht
    rw [run_call, read, run_call, ← hview]
    cases hs : take k t with
    | none => exact ⟨rfl, fun s h => by cases h⟩
    | some s => exact ih s.1 (hok s hs)

end Reader

end Program
