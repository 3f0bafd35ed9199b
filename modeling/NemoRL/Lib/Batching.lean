import Mathlib.Data.List.Basic
import Mathlib.Algebra.Order.Group.Nat

/-!
# Greedy batches

Items are taken into a batch until the sizes of the batch sum to more than a target, so a
batch may exceed the target by its last item. What is left at the end is a batch of its
own, unless it is empty.

## Main definitions

* `takeBatch` — the first batch of a list and what follows it.
* `batches` — all batches of a list.

## Main results

* `flatten_batches` — the batches hold all items in order.
* `batches_map` — batches only depend on the sizes.
-/

namespace NemoRL.Lib

variable {α β : Type*}

/-- The first batch, when the batch already has size `n`, and the items after it. -/
def takeBatch (size : α → ℕ) (target : ℕ) : ℕ → List α → List α × List α
  | _, [] => ([], [])
  | n, x :: xs =>
    if target < n + size x then ([x], xs)
    else (x :: (takeBatch size target (n + size x) xs).1,
      (takeBatch size target (n + size x) xs).2)

section
variable (size : α → ℕ) (target : ℕ)

theorem takeBatch_append (n : ℕ) (xs : List α) :
    (takeBatch size target n xs).1 ++ (takeBatch size target n xs).2 = xs := by
  induction xs generalizing n with
  | nil => rfl
  | cons x xs ih =>
    rw [takeBatch]
    by_cases hover : target < n + size x
    · simp [hover]
    · simp [hover, ih]

theorem length_takeBatch_lt (n : ℕ) (x : α) (xs : List α) :
    (takeBatch size target n (x :: xs)).2.length < (x :: xs).length := by
  rw [takeBatch]
  by_cases hover : target < n + size x
  · simp [hover]
  · have hlen := congrArg List.length (takeBatch_append size target (n + size x) xs)
    rw [List.length_append] at hlen
    simp only [if_neg hover, List.length_cons]
    omega

theorem takeBatch_ne_nil (n : ℕ) (x : α) (xs : List α) :
    (takeBatch size target n (x :: xs)).1 ≠ [] := by
  rw [takeBatch]
  by_cases hover : target < n + size x
  · simp [hover]
  · simp [hover]

/-- The batches of a list. -/
def batches : List α → List (List α)
  | [] => []
  | x :: xs =>
    (takeBatch size target 0 (x :: xs)).1 :: batches (takeBatch size target 0 (x :: xs)).2
termination_by xs => xs.length
decreasing_by exact length_takeBatch_lt size target 0 x xs

/-- The batches hold all items in order. -/
theorem flatten_batches (xs : List α) : (batches size target xs).flatten = xs := by
  induction xs using batches.induct size target with
  | case1 => rw [batches, List.flatten_nil]
  | case2 x xs ih => rw [batches, List.flatten_cons, ih, takeBatch_append]

end

theorem takeBatch_map (size : β → ℕ) (target n : ℕ) (f : α → β) (xs : List α) :
    takeBatch size target n (xs.map f) =
      ((takeBatch (fun x => size (f x)) target n xs).1.map f,
        (takeBatch (fun x => size (f x)) target n xs).2.map f) := by
  induction xs generalizing n with
  | nil => rfl
  | cons x xs ih =>
    rw [List.map_cons, takeBatch, takeBatch]
    by_cases hover : target < n + size (f x)
    · simp [hover]
    · simp [hover, ih]

/-- Batches only depend on the sizes of the items. -/
theorem batches_map (size : β → ℕ) (target : ℕ) (f : α → β) (xs : List α) :
    batches size target (xs.map f) =
      (batches (fun x => size (f x)) target xs).map fun batch => batch.map f := by
  induction xs using batches.induct (fun x => size (f x)) target with
  | case1 => simp [batches]
  | case2 x xs ih =>
    rw [batches, List.map_cons, batches, ← List.map_cons, takeBatch_map, ih, List.map_cons]

end NemoRL.Lib
