import NemoRL.Lib.Tensor

/-!
# Batches of rows, one behind the other

Batches whose rows have one shape are joined along the batch dimension. Rows that differ in their
first dimension are padded to the longest before. Joining groups of batches first and then what
came out of them pads to the same length.

## Main definitions

* `Tensor.map` — apply a function to every element.
* `Rect.concat` — batches of one row shape, one behind the other.
* `Rect.slice` — the rows between two positions.
* `padVectors` — vectors padded to the longest.

## Main results

* `longest_flatMap` — the longest of several lists is the longest of their longest.
-/

namespace NemoRL.Lib

variable {α β γ : Type}

/-! ## Rows -/

/-- Apply a function to every element. -/
def Tensor.map (f : α → β) (t : Tensor α) : Tensor β where
  shape := t.shape
  data := t.data.map f
  length_data := (List.length_map f).trans t.length_data

theorem Tensor.map_eq_self {f : α → α} (h : ∀ x, f x = x) (t : Tensor α) : t.map f = t := by
  have hid : f = id := funext h
  have hdata : t.data.map f = t.data := by rw [hid, List.map_id]
  ext1
  · rfl
  · exact hdata

/-- A tensor with one dimension is the vector of its elements. -/
theorem Tensor.vector_data {t : Tensor α} (h : t.shape.length = 1) : Tensor.vector t.data = t := by
  obtain ⟨n, hn⟩ := List.length_eq_one_iff.mp h
  have hlen : [t.data.length] = t.shape := by rw [t.length_data, hn, List.prod_singleton]
  ext1
  · exact hlen
  · rfl

theorem Tensor.shape_vector_padTo (l : List α) (len : ℕ) (pad : α) :
    ((Tensor.vector l).padTo len pad).shape = [max len l.length] :=
  Tensor.shape_padTo rfl len pad

/-! ## Batches -/

theorem shape_flatMap_rows {rowShape : List ℕ} {ts : List (Rect α)}
    (h : ∀ t ∈ ts, t.rowShape = rowShape) :
    ∀ row ∈ ts.flatMap Rect.rows, row.shape = rowShape := by
  intro row hrow
  obtain ⟨t, ht, hrow⟩ := List.mem_flatMap.mp hrow
  rw [t.shape_rows row hrow, h t ht]

/-- Batches of one row shape, one behind the other. -/
def Rect.concat (rowShape : List ℕ) (ts : List (Rect α)) (h : ∀ t ∈ ts, t.rowShape = rowShape) :
    Rect α where
  rowShape := rowShape
  rows := ts.flatMap Rect.rows
  shape_rows := shape_flatMap_rows h

@[simp] theorem Rect.rows_concat {rowShape : List ℕ} {ts : List (Rect α)}
    (h : ∀ t ∈ ts, t.rowShape = rowShape) :
    (Rect.concat rowShape ts h).rows = ts.flatMap Rect.rows := rfl

theorem shape_map_rows (f : α → β) (t : Rect α) :
    ∀ row ∈ t.rows.map (Tensor.map f), row.shape = t.rowShape := by
  intro row hrow
  obtain ⟨row, hmem, rfl⟩ := List.mem_map.mp hrow
  exact t.shape_rows row hmem

/-- Apply a function to every element of every row. -/
def Rect.map (f : α → β) (t : Rect α) : Rect β where
  rowShape := t.rowShape
  rows := t.rows.map (Tensor.map f)
  shape_rows := shape_map_rows f t

theorem Rect.map_eq_self {f : α → α} (h : ∀ x, f x = x) (t : Rect α) : t.map f = t := by
  have hid : Tensor.map f = id := funext (Tensor.map_eq_self h)
  have hrows : t.rows.map (Tensor.map f) = t.rows := by rw [hid, List.map_id]
  ext1
  · rfl
  · exact hrows

theorem shape_padVectors (pad : α) (ls : List (List α)) :
    ∀ row ∈ ls.map fun l => (Tensor.vector l).padTo (longest (ls.map List.length)) pad,
      row.shape = [longest (ls.map List.length)] := by
  intro row hrow
  obtain ⟨l, hl, rfl⟩ := List.mem_map.mp hrow
  have hle : l.length ≤ longest (ls.map List.length) := le_longest (List.mem_map_of_mem hl)
  rw [Tensor.shape_vector_padTo, max_eq_left hle]

/-- Vectors, padded to the longest. -/
def padVectors (pad : α) (ls : List (List α)) : Rect α where
  rowShape := [longest (ls.map List.length)]
  rows := ls.map fun l => (Tensor.vector l).padTo (longest (ls.map List.length)) pad
  shape_rows := shape_padVectors pad ls

@[simp] theorem rowShape_padVectors (pad : α) (ls : List (List α)) :
    (padVectors pad ls).rowShape = [longest (ls.map List.length)] := rfl

@[simp] theorem rows_padVectors (pad : α) (ls : List (List α)) :
    (padVectors pad ls).rows =
      ls.map fun l => (Tensor.vector l).padTo (longest (ls.map List.length)) pad := rfl

theorem shape_slice_rows (t : Rect α) (i j : ℕ) :
    ∀ row ∈ (t.rows.drop i).take (j - i), row.shape = t.rowShape :=
  fun row hrow => t.shape_rows row (List.mem_of_mem_drop (List.mem_of_mem_take hrow))

/-- The rows from position `i` up to position `j`. -/
def Rect.slice (t : Rect α) (i j : ℕ) : Rect α where
  rowShape := t.rowShape
  rows := (t.rows.drop i).take (j - i)
  shape_rows := shape_slice_rows t i j

/-- The shape of the rows is that of their first dimension and of the dimensions behind it. -/
theorem Rect.rowShape_eq {t u : Rect α} (hdim : t.dim = u.dim) (hwidth : t.width = u.width)
    (htail : t.rowShape.tail = u.rowShape.tail) : t.rowShape = u.rowShape := by
  simp only [Rect.dim, Rect.width] at hdim hwidth
  generalize t.rowShape = s at *
  generalize u.rowShape = s' at *
  cases s with
  | nil => exact (List.eq_nil_of_length_eq_zero (by simpa using hdim.symm)).symm
  | cons size rest =>
    cases s' with
    | nil => simp at hdim
    | cons size' rest' =>
      rw [List.headD_cons, List.headD_cons] at hwidth
      rw [List.tail_cons, List.tail_cons] at htail
      rw [hwidth, htail]

theorem Rect.rowShape_of_dim {t : Rect α} (h : 2 ≤ t.dim) :
    t.rowShape = t.width :: t.rowShape.tail := by
  rw [Rect.dim] at h
  have hne : t.rowShape ≠ [] := by
    intro hnil
    simp [hnil] at h
  obtain ⟨size, rest, hshape⟩ := List.exists_cons_of_ne_nil hne
  rw [Rect.width, hshape]
  rfl

theorem Rect.dim_padTo (len : ℕ) (pad : α) (t : Rect α) : (t.padTo len pad).dim = t.dim := by
  obtain ⟨- | ⟨size, rest⟩, rows, h⟩ := t <;> rfl

theorem Rect.tail_padTo (len : ℕ) (pad : α) (t : Rect α) :
    (t.padTo len pad).rowShape.tail = t.rowShape.tail := by
  obtain ⟨- | ⟨size, rest⟩, rows, h⟩ := t <;> rfl

/-! ## Lengths and positions -/

/-- The longest of several lists is the longest of their longest. -/
theorem longest_flatMap (l : List γ) (f : γ → List ℕ) :
    longest (l.flatMap f) = longest (l.map fun x => longest (f x)) := by
  refine eq_of_forall_ge_iff fun b => ?_
  simp only [longest_le_iff, List.mem_flatMap, List.forall_mem_map]
  constructor
  · intro h x hx n hn
    exact h n ⟨x, hx, hn⟩
  · rintro h n ⟨x, hx, hn⟩
    exact h x hx n hn

theorem longest_replicate {n k : ℕ} (h : n ≠ 0) : longest (List.replicate n k) = k := by
  refine eq_of_forall_ge_iff fun b => ?_
  simp [longest_le_iff, h]

end NemoRL.Lib
