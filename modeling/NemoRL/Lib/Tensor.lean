import Mathlib.Algebra.BigOperators.Group.List.Basic
import Mathlib.Algebra.Order.Group.Nat

/-!
# Tensors in row-major order

A tensor is a shape with as many elements. Cutting and padding along the first
dimension act on the elements as on a list. A batch of rows is either rectangular, all
rows of one shape, or jagged, the rows differing in their first dimension only.

## Main definitions

* `longest` — the largest entry of a list.
* `Tensor` — a shape and its elements.
* `Tensor.truncate`, `Tensor.padTo` — cut or pad along the first dimension.
* `Rect`, `Jagged` — batches of rows.
* `Jagged.toPadded` — pad every row to the longest.

## Main results

* `Tensor.padTo_padTo` — padding twice pads to the larger length.
-/

namespace NemoRL.Lib

/-! ## The longest of a list -/

/-- The largest entry, or zero. -/
def longest (l : List ℕ) : ℕ := l.foldl max 0

theorem foldl_max_le_iff (l : List ℕ) (a b : ℕ) : l.foldl max a ≤ b ↔ a ≤ b ∧ ∀ x ∈ l, x ≤ b := by
  induction l generalizing a with
  | nil => simp
  | cons x l ih => simp [ih, and_assoc]

theorem longest_le_iff {l : List ℕ} {b : ℕ} : longest l ≤ b ↔ ∀ x ∈ l, x ≤ b := by
  simp [longest, foldl_max_le_iff]

theorem le_longest {l : List ℕ} {x : ℕ} (h : x ∈ l) : x ≤ longest l :=
  longest_le_iff.mp le_rfl x h

theorem longest_mem {l : List ℕ} (h : l ≠ []) : longest l ∈ l := by
  have hmem : ∀ (l : List ℕ) (a : ℕ), l.foldl max a ∈ a :: l := by
    intro l
    induction l with
    | nil => simp
    | cons x l ih =>
      intro a
      rcases List.mem_cons.mp (ih (max a x)) with heq | hmem
      · rw [List.foldl_cons, heq]
        rcases max_choice a x with h | h <;> simp [h]
      · exact List.mem_cons_of_mem a (List.mem_cons_of_mem x hmem)
  cases l with
  | nil => exact (h rfl).elim
  | cons x l =>
    rw [longest, List.foldl_cons, max_eq_right (Nat.zero_le x)]
    exact hmem l x

/-! ## Tensors -/

/-- A tensor in row-major order. -/
@[ext] structure Tensor (α : Type) where
  shape : List ℕ
  data : List α
  length_data : data.length = shape.prod
  deriving DecidableEq

namespace Tensor
variable {α : Type}

/-- A tensor without dimensions. -/
def scalar (x : α) : Tensor α := ⟨[], [x], rfl⟩

/-- A tensor with one dimension. -/
def vector (l : List α) : Tensor α := ⟨[l.length], l, by simp⟩

/-- The size of the first dimension. -/
def width (t : Tensor α) : ℕ := t.shape.headD 0

/-- Keep at most the first `len` slices along the first dimension. -/
def truncate (len : ℕ) (t : Tensor α) : Tensor α :=
  match t with
  | ⟨[], data, h⟩ => ⟨[], data, h⟩
  | ⟨size :: rest, data, h⟩ => ⟨min len size :: rest, data.take (len * rest.prod), by
      rw [List.length_take, h, List.prod_cons, List.prod_cons, Nat.mul_min_mul_right]⟩

/-- Append slices filled with `pad` along the first dimension up to `len` slices. -/
def padTo (len : ℕ) (pad : α) (t : Tensor α) : Tensor α :=
  match t with
  | ⟨[], data, h⟩ => ⟨[], data, h⟩
  | ⟨size :: rest, data, h⟩ =>
    ⟨max len size :: rest, data ++ List.replicate ((len - size) * rest.prod) pad, by
      rw [List.length_append, h, List.length_replicate, List.prod_cons, List.prod_cons,
        ← Nat.add_mul]
      congr 1
      omega⟩

theorem shape_truncate {size : ℕ} {rest : List ℕ} {t : Tensor α} (h : t.shape = size :: rest)
    (len : ℕ) : (t.truncate len).shape = min len size :: rest := by
  obtain ⟨shape, data, hlen⟩ := t
  subst h
  rfl

theorem shape_padTo {size : ℕ} {rest : List ℕ} {t : Tensor α} (h : t.shape = size :: rest)
    (len : ℕ) (pad : α) : (t.padTo len pad).shape = max len size :: rest := by
  obtain ⟨shape, data, hlen⟩ := t
  subst h
  rfl

/-- Padding to a length that is already reached changes nothing. -/
theorem padTo_of_le {len : ℕ} {pad : α} {t : Tensor α} (h : len ≤ t.width) :
    t.padTo len pad = t := by
  obtain ⟨- | ⟨size, rest⟩, data, hlen⟩ := t
  · rfl
  · have h : len ≤ size := h
    ext1
    · exact congrArg (· :: rest) (max_eq_right h)
    · simp [padTo, Nat.sub_eq_zero_of_le h]

/-- Padding twice pads to the larger length. -/
theorem padTo_padTo (len len' : ℕ) (pad : α) (t : Tensor α) :
    (t.padTo len pad).padTo len' pad = t.padTo (max len' len) pad := by
  obtain ⟨- | ⟨size, rest⟩, data, hlen⟩ := t
  · rfl
  · ext1
    · simp only [padTo, List.cons.injEq, and_true]
      omega
    · simp only [padTo, List.append_assoc, List.replicate_append_replicate, ← Nat.add_mul]
      congr 3
      omega

theorem padTo_max_of_le {len' : ℕ} {t : Tensor α} (h : len' ≤ t.width) (len : ℕ) (pad : α) :
    t.padTo (max len len') pad = t.padTo len pad := by
  rw [← padTo_padTo, padTo_of_le h]

theorem width_truncate {size : ℕ} {rest : List ℕ} {t : Tensor α} (h : t.shape = size :: rest)
    {len : ℕ} (hlen : len ≤ size) : (t.truncate len).width = len := by
  rw [width, shape_truncate h, min_eq_left hlen]
  rfl

end Tensor

/-! ## Batches -/

/-- A batch of rows of one shape. -/
@[ext] structure Rect (α : Type) where
  rowShape : List ℕ
  rows : List (Tensor α)
  shape_rows : ∀ row ∈ rows, row.shape = rowShape
  deriving DecidableEq

/-- A batch of rows that differ in their first dimension only. -/
@[ext] structure Jagged (α : Type) where
  trailing : List ℕ
  rows : List (Tensor α)
  tail_rows : ∀ row ∈ rows, row.shape = row.width :: trailing
  deriving DecidableEq

variable {α : Type}

/-- The number of dimensions, with the batch dimension. -/
def Rect.dim (t : Rect α) : ℕ := t.rowShape.length + 1

/-- The size of the dimension after the batch dimension. -/
def Rect.width (t : Rect α) : ℕ := t.rowShape.headD 0

/-- A batch of scalars. -/
def Rect.ofScalars (l : List α) : Rect α := ⟨[], l.map Tensor.scalar, by simp [Tensor.scalar]⟩

/-- Pad every row along its first dimension. -/
def Rect.padTo (len : ℕ) (pad : α) (t : Rect α) : Rect α :=
  match t with
  | ⟨[], rows, h⟩ => ⟨[], rows, h⟩
  | ⟨size :: rest, rows, h⟩ => ⟨max len size :: rest, rows.map (Tensor.padTo len pad), by
      simp only [List.forall_mem_map]
      exact fun row hrow => Tensor.shape_padTo (h row hrow) len pad⟩

theorem Rect.rows_padTo (len : ℕ) (pad : α) (t : Rect α) :
    (t.padTo len pad).rows = t.rows.map (Tensor.padTo len pad) := by
  obtain ⟨- | ⟨size, rest⟩, rows, h⟩ := t
  · have hrows : ∀ row ∈ rows, Tensor.padTo len pad row = row := by
      intro row hrow
      obtain ⟨shape, data, hlen⟩ := row
      obtain rfl : shape = [] := h _ hrow
      rfl
    simp only [padTo]
    exact ((List.map_congr_left hrows).trans (List.map_id rows)).symm
  · rfl

theorem Rect.width_padTo {t : Rect α} (h : 2 ≤ t.dim) (len : ℕ) (pad : α) :
    (t.padTo len pad).width = max len t.width := by
  obtain ⟨- | ⟨size, rest⟩, rows, hrows⟩ := t
  · exact absurd h (by simp [dim])
  · rfl

theorem Rect.width_rows {t : Rect α} {row : Tensor α} (h : row ∈ t.rows) :
    row.width = t.width := by
  rw [Tensor.width, t.shape_rows row h, Rect.width]

/-- Padding changes no row that is long enough or has no dimension to pad. -/
theorem Rect.map_padTo_of_le {len : ℕ} {t : Rect α} (h : t.dim < 2 ∨ len ≤ t.width) (pad : α) :
    t.rows.map (Tensor.padTo len pad) = t.rows := by
  rcases h with hdim | hwidth
  · obtain ⟨- | ⟨size, rest⟩, rows, hrows⟩ := t
    · exact (Rect.rows_padTo len pad ⟨[], rows, hrows⟩).symm
    · simp only [Rect.dim, List.length_cons] at hdim
      omega
  · conv_rhs => rw [← List.map_id t.rows]
    exact List.map_congr_left fun row hrow =>
      Tensor.padTo_of_le ((Rect.width_rows hrow).symm ▸ hwidth)

/-- Keep the first `len` slices of every row. -/
def Rect.narrow (len : ℕ) (t : Rect α) : Rect α :=
  match t with
  | ⟨[], rows, h⟩ => ⟨[], rows, h⟩
  | ⟨size :: rest, rows, h⟩ => ⟨min len size :: rest, rows.map (Tensor.truncate len), by
      simp only [List.forall_mem_map]
      exact fun row hrow => Tensor.shape_truncate (h row hrow) len⟩

/-- The longest row of a jagged batch. -/
def Jagged.maxLen (t : Jagged α) : ℕ := longest (t.rows.map Tensor.width)

theorem Jagged.width_le_maxLen {t : Jagged α} {row : Tensor α} (h : row ∈ t.rows) :
    row.width ≤ t.maxLen :=
  le_longest (List.mem_map_of_mem h)

/-- Pad every row to the longest. -/
def Jagged.toPadded (pad : α) (t : Jagged α) : Rect α where
  rowShape := t.maxLen :: t.trailing
  rows := t.rows.map (Tensor.padTo t.maxLen pad)
  shape_rows := by
    simp only [List.forall_mem_map]
    intro row hrow
    rw [Tensor.shape_padTo (t.tail_rows row hrow), max_eq_left (t.width_le_maxLen hrow)]

end NemoRL.Lib
