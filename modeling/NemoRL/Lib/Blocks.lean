import NemoRL.Lib.Segments
import NemoRL.Lib.Tensor
import Mathlib.Algebra.BigOperators.Group.List.Basic

/-!
# Lists and tensors cut into blocks

A list whose length is a multiple of `n` is a row of blocks of length `n`. The last dimensions of
a tensor are its blocks, so that swapping the first two dimensions puts the blocks in another
order.

## Main definitions

* `block` — one block of a list.
* `Tensor.swapDims` — a tensor with its first two dimensions swapped.

## Main results

* `block_flatMap_range` — a block of blocks put together.
* `flatMap_block` — a list is its blocks put together.
* `block_block` — a block of a larger block.
-/

namespace NemoRL.Lib

variable {α : Type} {l : List α} {m n k : ℕ}

/-- The `k`th block of length `n` of a list. -/
def block (n k : ℕ) (l : List α) : List α := slice l (k * n) (k * n + n)

theorem block_end_le (n : ℕ) (hk : k < m) : k * n + n ≤ m * n := by
  rw [← Nat.succ_mul]
  exact Nat.mul_le_mul_right n hk

theorem length_block (hlen : l.length = m * n) (hk : k < m) : (block n k l).length = n := by
  have hend := block_end_le n hk
  rw [block, length_slice (by omega)]
  omega

theorem length_flatMap_range {f : ℕ → List α} (hf : ∀ i < m, (f i).length = n) :
    ((List.range m).flatMap f).length = m * n := by
  have hconst : (List.range m).map (fun i => (f i).length) = List.replicate m n := by
    rw [List.eq_replicate_iff]
    refine ⟨by simp, ?_⟩
    intro x hx
    obtain ⟨i, hi, rfl⟩ := List.mem_map.mp hx
    exact hf i (List.mem_range.mp hi)
  rw [List.length_flatMap, hconst, List.sum_replicate_nat]

/-- Of blocks put together each is found at its place. -/
theorem block_flatMap_range {f : ℕ → List α} (hf : ∀ i < m, (f i).length = n) (hk : k < m) :
    block n k ((List.range m).flatMap f) = f k := by
  obtain ⟨r, rfl⟩ : ∃ r, m = k + (1 + r) := ⟨m - (k + 1), by omega⟩
  have hbefore : ((List.range k).flatMap f).length = k * n :=
    length_flatMap_range fun i hi => hf i (by omega)
  have hthis : (f k).length = n := hf k hk
  rw [List.range_add, List.flatMap_append, List.flatMap_map, List.range_add,
    List.flatMap_append, block, slice, ← hbefore, List.drop_left, Nat.add_sub_cancel_left]
  have hone : ((List.range 1).flatMap fun i => f (k + i)) = f k := by
    rw [List.range_one, List.flatMap_singleton, Nat.add_zero]
  rw [hone, ← hthis, List.take_left]

/-- The first blocks of a list are its first items. -/
theorem flatMap_block_take (l : List α) (n m : ℕ) :
    ((List.range m).flatMap fun i => block n i l) = l.take (m * n) := by
  induction m with
  | zero => simp
  | succ m ih =>
    rw [List.range_succ, List.flatMap_append, ih, List.flatMap_singleton, block,
      take_append_slice l (Nat.le_add_right _ _), Nat.succ_mul]

/-- A list is its blocks put together. -/
theorem flatMap_block (hlen : l.length = m * n) :
    ((List.range m).flatMap fun i => block n i l) = l := by
  rw [flatMap_block_take, ← hlen, List.take_length]

/-- A block of a larger block. -/
theorem block_block (l : List α) (n k : ℕ) {i : ℕ} (hi : i < m) :
    block n i (block (m * n) k l) = block n (k * m + i) l := by
  have hend := block_end_le n hi
  have hstart : k * (m * n) + i * n = (k * m + i) * n := by
    rw [Nat.add_mul, Nat.mul_assoc]
  rw [block, block, slice_slice _ (by omega), block, ← hstart, Nat.add_assoc]

/-- A larger block is its smaller blocks put together. -/
theorem flatMap_block_add (l : List α) (n k : ℕ) (hlen : (block (m * n) k l).length = m * n) :
    ((List.range m).flatMap fun i => block n (k * m + i) l) = block (m * n) k l := by
  conv => rhs; rw [← flatMap_block hlen]
  refine List.flatMap_congr ?_
  intro i hi
  exact (block_block l n k (List.mem_range.mp hi)).symm

/-! ## Tensors -/

namespace Tensor

/-- The `i`th slice of a tensor along its first dimension. -/
def row (t : Tensor α) (i : ℕ) : List α := block t.shape.tail.prod i t.data

/-- Swap the first two dimensions. -/
def swapDims (t : Tensor α) : Tensor α :=
  match t with
  | ⟨a :: b :: rest, data, h⟩ =>
    ⟨b :: a :: rest,
      (List.range b).flatMap fun j => (List.range a).flatMap fun i =>
        block rest.prod (i * b + j) data, by
      rw [List.prod_cons, List.prod_cons]
      refine length_flatMap_range fun j hj => length_flatMap_range fun i hi => ?_
      have hlen : data.length = a * b * rest.prod := by
        rw [h, List.prod_cons, List.prod_cons, Nat.mul_assoc]
      refine length_block hlen ?_
      have hend := block_end_le b hi
      omega⟩
  | t => t

theorem data_swapDims {t : Tensor α} {a b : ℕ} {rest : List ℕ} (h : t.shape = a :: b :: rest) :
    t.swapDims.data =
      (List.range b).flatMap fun j => (List.range a).flatMap fun i =>
        block rest.prod (i * b + j) t.data := by
  obtain ⟨shape, data, hlen⟩ := t
  subst h
  rfl

end Tensor

end NemoRL.Lib
