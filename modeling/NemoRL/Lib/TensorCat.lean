import Mathlib.Algebra.BigOperators.Ring.List
import Mathlib.Algebra.Ring.Nat
import NemoRL.Lib.Blocks

/-!
# Concatenating tensors

Tensors that agree in all dimensions but one are concatenated along it: in row-major order the
blocks of the tensors take turns.

## Main definitions

* `Tensor.sizeAt` — the size of a dimension.
* `Tensor.cat` — the concatenation of tensors of one shape around a dimension.
* `catAlong` — the concatenation along a dimension of tensors that agree in the others.
-/

namespace NemoRL.Lib

variable {α : Type}

/-- The size of a dimension. -/
def Tensor.sizeAt (d : ℕ) (t : Tensor α) : ℕ := t.shape.getD d 0

theorem sizeAt_length {before after : List ℕ} {t : Tensor α} {n : ℕ}
    (h : t.shape = before ++ n :: after) : t.sizeAt before.length = n := by
  simp [Tensor.sizeAt, h]

/-- The blocks of the tensors take turns. -/
def catData (before after : List ℕ) (ts : List (Tensor α)) : List α :=
  (List.range before.prod).flatMap fun i => ts.flatMap fun t =>
    block (t.sizeAt before.length * after.prod) i t.data

theorem length_catData {before after : List ℕ} {ts : List (Tensor α)}
    (h : ∀ t ∈ ts, t.shape = before ++ t.sizeAt before.length :: after) :
    (catData before after ts).length =
      (before ++ (ts.map (Tensor.sizeAt before.length)).sum :: after).prod := by
  have hblock : ∀ i < before.prod, ∀ t ∈ ts,
      (block (t.sizeAt before.length * after.prod) i t.data).length =
        t.sizeAt before.length * after.prod := by
    intro i hi t ht
    refine length_block (m := before.prod) ?_ hi
    rw [t.length_data, h t ht, List.prod_append, List.prod_cons]
  have hturn : ∀ i < before.prod, (ts.flatMap fun t =>
      block (t.sizeAt before.length * after.prod) i t.data).length =
        (ts.map (Tensor.sizeAt before.length)).sum * after.prod := by
    intro i hi
    rw [List.length_flatMap, List.map_congr_left (hblock i hi), List.sum_map_mul_right]
  rw [catData, length_flatMap_range hturn, List.prod_append, List.prod_cons]

/-- The concatenation of tensors of one shape around a dimension. -/
def Tensor.cat (before after : List ℕ) (ts : List (Tensor α))
    (h : ∀ t ∈ ts, t.shape = before ++ t.sizeAt before.length :: after) : Tensor α :=
  ⟨before ++ (ts.map (Tensor.sizeAt before.length)).sum :: after, catData before after ts,
    length_catData h⟩

/-- The concatenation along a dimension of tensors that agree in the others. -/
def catAlong (d : ℕ) (ts : List (Tensor α)) : Option (Tensor α) :=
  let shape := (ts.head?.map Tensor.shape).getD []
  let before := shape.take d
  let after := shape.drop (d + 1)
  if h : ∀ t ∈ ts, t.shape = before ++ t.sizeAt before.length :: after then
    some (Tensor.cat before after ts h)
  else none

theorem shape_ne_nil_of_catAlong {d : ℕ} {ts : List (Tensor α)} {t : Tensor α}
    (h : catAlong d ts = some t) : t.shape ≠ [] := by
  simp only [catAlong, Option.dite_none_right_eq_some] at h
  obtain ⟨hall, h⟩ := h
  rw [← Option.some.inj h]
  simp [Tensor.cat]

example : catAlong 1 [⟨[2, 1], [1, 4], rfl⟩, ⟨[2, 2], [2, 3, 5, 6], rfl⟩] =
    some (⟨[2, 3], [1, 2, 3, 4, 5, 6], rfl⟩ : Tensor ℕ) := by decide

end NemoRL.Lib
