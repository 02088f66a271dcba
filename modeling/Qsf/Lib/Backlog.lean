import Mathlib.Data.List.Basic

/-!
# Answers in order

On a connection that answers requests in order, the answer that is read first is the oldest one. Of
an answer that is not read to its end, the rest is read in place of the next answers.

* `answers_eq`: as long as every answer is read to its end, a request gets its own.
* `backlog_ne_nil`, `backlog_eq_nil_iff`: what was left behind is never made up for.
-/

set_option autoImplicit false

namespace Qsf

variable {α : Type*} (left : α → List α)

/-- What is read behind a request with answer `t`, and what is unread after it. -/
def answer (q : List α) (t : α) : α × List α :=
  match q with
  | [] => (t, left t)
  | x :: xs => (x, left x ++ (xs ++ [t]))

/-- What is read behind these requests, one after the other. -/
def answers (q : List α) : List α → List α
  | [] => []
  | t :: ts => (answer left q t).1 :: answers (answer left q t).2 ts

/-- What is unread after these requests. -/
def backlog (q : List α) : List α → List α
  | [] => q
  | t :: ts => backlog (answer left q t).2 ts

variable {left} {q ts : List α}

theorem length_answers : (answers left q ts).length = ts.length := by
  induction ts generalizing q with
  | nil => rfl
  | cons t ts ih => exact congrArg (· + 1) ih

theorem answer_ne_nil (hq : q ≠ []) (t : α) : (answer left q t).2 ≠ [] := by
  cases q with
  | nil => exact absurd rfl hq
  | cons x xs => simp [answer]

theorem backlog_ne_nil (hq : q ≠ []) (ts : List α) : backlog left q ts ≠ [] := by
  induction ts generalizing q with
  | nil => exact hq
  | cons t ts ih => exact ih (answer_ne_nil hq t)

theorem backlog_eq_nil_iff : backlog left [] ts = [] ↔ ∀ t ∈ ts, left t = [] := by
  induction ts with
  | nil => exact iff_of_true rfl fun t ht => absurd ht List.not_mem_nil
  | cons t ts ih =>
    rw [List.forall_mem_cons]
    by_cases ht : left t = []
    · rw [and_iff_right ht, ← ih, backlog, answer, ht]
    · exact iff_of_false (backlog_ne_nil ht ts) fun h => ht h.1

/-- **Every request gets its own answer** as long as none is left half read. -/
theorem answers_eq (h : ∀ t ∈ ts.dropLast, left t = []) : answers left [] ts = ts := by
  induction ts with
  | nil => rfl
  | cons t ts ih =>
    rw [answers]
    cases ts with
    | nil => rfl
    | cons u us =>
      have ht : left t = [] := h t List.mem_cons_self
      rw [answer, ht, ih fun x hx => h x (List.mem_cons_of_mem t hx)]

/-- The answer that a request gets is unread from before it, if anything was. -/
theorem answers_append (us : List α) :
    answers left q (ts ++ us) = answers left q ts ++ answers left (backlog left q ts) us := by
  induction ts generalizing q with
  | nil => rfl
  | cons t ts ih => exact congrArg _ ih

end Qsf
