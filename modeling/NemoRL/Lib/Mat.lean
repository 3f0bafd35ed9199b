import Mathlib.Data.Fin.Basic
import Mathlib.Tactic.Common

/-!
# Matrices with their size

A matrix knows its numbers of rows and columns, and is read by position: `get?` gives
nothing outside. A window of a matrix is cut at its border, as slices are.

## Main definitions

* `Mat` — a matrix.
* `Mat.window` — some rows and columns of a matrix.
* `Mat.assign` — overwrite a window.

## Main results

* `Mat.get?_assign` — what a matrix holds after a window was overwritten.
* `Mat.foldlM_paint` — overwriting windows that cover a matrix paints all of it.
-/

namespace NemoRL.Lib

/-- A matrix with its size. -/
structure Mat (α : Type) where
  rows : ℕ
  cols : ℕ
  entry : Fin rows → Fin cols → α

namespace Mat
variable {α : Type} {m m' : Mat α}

/-- The entry at a position, if there is one. -/
def get? (m : Mat α) (i j : ℕ) : Option α :=
  if h : i < m.rows ∧ j < m.cols then some (m.entry ⟨i, h.1⟩ ⟨j, h.2⟩) else none

/-- A matrix by its entries. -/
def of (rows cols : ℕ) (f : ℕ → ℕ → α) : Mat α := ⟨rows, cols, fun i j => f i j⟩

/-- The rows from `r` up to `r'` and the columns from `c` up to `c'`. -/
def window (m : Mat α) (r r' c c' : ℕ) : Mat α where
  rows := min r' m.rows - r
  cols := min c' m.cols - c
  entry i j := m.entry ⟨r + i, by omega⟩ ⟨c + j, by omega⟩

/-- Overwrite a window. A matrix with one row or one column is repeated to the size of the
window; any other size has to agree. -/
def assign (m src : Mat α) (r r' c c' : ℕ) : Option (Mat α) :=
  if h : (src.rows = min r' m.rows - r ∨ src.rows = 1) ∧
      (src.cols = min c' m.cols - c ∨ src.cols = 1) then
    some ⟨m.rows, m.cols, fun i j =>
      if hij : (r ≤ i ∧ i < r') ∧ c ≤ j ∧ j < c' then
        src.entry ⟨if src.rows = 1 then 0 else i - r, by split <;> omega⟩
          ⟨if src.cols = 1 then 0 else j - c, by split <;> omega⟩
      else m.entry i j⟩
  else none

theorem get?_eq_some {i j : ℕ} (hi : i < m.rows) (hj : j < m.cols) :
    m.get? i j = some (m.entry ⟨i, hi⟩ ⟨j, hj⟩) := dif_pos ⟨hi, hj⟩

theorem get?_eq_none {i j : ℕ} (h : ¬(i < m.rows ∧ j < m.cols)) : m.get? i j = none := dif_neg h

theorem ext_get? (hrows : m.rows = m'.rows) (hcols : m.cols = m'.cols)
    (h : ∀ i j, m.get? i j = m'.get? i j) : m = m' := by
  obtain ⟨rows, cols, entry⟩ := m
  obtain ⟨rows', cols', entry'⟩ := m'
  subst hrows
  subst hcols
  congr
  funext i j
  have hij := h i j
  rw [get?_eq_some i.isLt j.isLt, get?_eq_some i.isLt j.isLt] at hij
  exact Option.some.inj hij

theorem get?_of {rows cols : ℕ} (f : ℕ → ℕ → α) (i j : ℕ) :
    (of rows cols f).get? i j = if i < rows ∧ j < cols then some (f i j) else none := by
  by_cases h : i < rows ∧ j < cols
  · rw [if_pos h]
    exact dif_pos h
  · rw [if_neg h]
    exact dif_neg h

theorem get?_window (m : Mat α) (r r' c c' i j : ℕ) : (m.window r r' c c').get? i j =
    if r + i < r' ∧ c + j < c' then m.get? (r + i) (c + j) else none := by
  by_cases h : r + i < r' ∧ c + j < c'
  · rw [if_pos h]
    by_cases hin : r + i < m.rows ∧ c + j < m.cols
    · rw [get?_eq_some hin.1 hin.2]
      exact dif_pos ⟨by simp only [window]; omega, by simp only [window]; omega⟩
    · rw [get?_eq_none hin]
      exact get?_eq_none (by simp only [window]; omega)
  · rw [if_neg h]
    exact get?_eq_none (by simp only [window]; omega)

/-- What a matrix holds after a window of it was overwritten. -/
theorem get?_assign (m src : Mat α) (r r' c c' : ℕ) (hr : r' ≤ m.rows) (hc : c' ≤ m.cols)
    (hrows : src.rows = r' - r) (hcols : src.cols = c' - c) :
    ∃ d, m.assign src r r' c c' = some d ∧ d.rows = m.rows ∧ d.cols = m.cols ∧
      ∀ i j, d.get? i j =
        if (r ≤ i ∧ i < r') ∧ c ≤ j ∧ j < c' then src.get? (i - r) (j - c) else m.get? i j := by
  have hsize : (src.rows = min r' m.rows - r ∨ src.rows = 1) ∧
      (src.cols = min c' m.cols - c ∨ src.cols = 1) := by
    rw [Nat.min_eq_left hr, Nat.min_eq_left hc]
    exact ⟨.inl hrows, .inl hcols⟩
  refine ⟨_, dif_pos hsize, rfl, rfl, fun i j => ?_⟩
  by_cases hij : i < m.rows ∧ j < m.cols
  · refine (dif_pos hij).trans ?_
    by_cases hin : (r ≤ i ∧ i < r') ∧ c ≤ j ∧ j < c'
    · have hi : (if src.rows = 1 then 0 else i - r) = i - r := by
        split <;> omega
      have hj : (if src.cols = 1 then 0 else j - c) = j - c := by
        split <;> omega
      rw [if_pos hin, get?_eq_some (by omega) (by omega)]
      simp only [dif_pos hin, hi, hj]
    · rw [if_neg hin, get?_eq_some hij.1 hij.2]
      simp only [dif_neg hin]
  · rw [if_neg (by omega), get?_eq_none hij]
    exact dif_neg hij

section Paint
variable {ι ε : Type} {f : Mat α → ι → Except ε (Mat α)} {target : Mat α}
  {covers : ι → ℕ → ℕ → Prop}

/-- One step of painting: it puts the entries of the target where it covers. -/
def Paints (target : Mat α) (covers : ι → ℕ → ℕ → Prop) (f : Mat α → ι → Except ε (Mat α))
    (x : ι) : Prop :=
  ∀ d, d.rows = target.rows → d.cols = target.cols → ∃ d', f d x = .ok d' ∧
    d'.rows = target.rows ∧ d'.cols = target.cols ∧
    ∀ i j, (covers x i j → d'.get? i j = target.get? i j) ∧
      (¬covers x i j → d'.get? i j = d.get? i j)

/-- Steps that paint parts of a target, and together all that is missing, paint the target. -/
theorem foldlM_paint {l : List ι} {d : Mat α} (h : ∀ x ∈ l, Paints target covers f x)
    (hrows : d.rows = target.rows) (hcols : d.cols = target.cols)
    (hall : ∀ i j, i < target.rows → j < target.cols →
      d.get? i j = target.get? i j ∨ ∃ x ∈ l, covers x i j) :
    l.foldlM f d = .ok target := by
  induction l generalizing d with
  | nil =>
    have heq : d = target := by
      refine ext_get? hrows hcols fun i j => ?_
      by_cases hij : i < target.rows ∧ j < target.cols
      · exact (hall i j hij.1 hij.2).resolve_right (by simp)
      · rw [get?_eq_none hij, get?_eq_none (by omega)]
    rw [heq]
    rfl
  | cons x l ih =>
    obtain ⟨d', hf, hrows', hcols', hd'⟩ := h x List.mem_cons_self d hrows hcols
    rw [List.foldlM_cons, hf]
    refine ih (fun y hy => h y (List.mem_cons_of_mem x hy)) hrows' hcols' fun i j hi hj => ?_
    by_cases hx : covers x i j
    · exact .inl ((hd' i j).1 hx)
    · rw [(hd' i j).2 hx]
      cases hall i j hi hj with
      | inl heq => exact .inl heq
      | inr hex =>
        obtain ⟨y, hy, hcover⟩ := hex
        cases List.mem_cons.mp hy with
        | inl heq => exact absurd (heq ▸ hcover) hx
        | inr hy => exact .inr ⟨y, hy, hcover⟩

end Paint

end Mat
end NemoRL.Lib
