import Mathlib.Data.List.Perm.Basic
import Mathlib.Tactic.Common

/-!
# Grids

A grid is a list of rows. Two of its cells can be exchanged by writing both of them, and a grid
with rows of one length keeps what is in it.

## Main definitions

* `getCell`, `setCell` — read and write a cell.

## Main results

* `grid_ext` — grids of one shape with the same cells are equal.
* `exchange_perm` — an exchange permutes the cells.
* `exchange_exchange` — an exchange undoes itself.
-/

namespace NemoRL.Lib

variable {α : Type*}

/-- The cell in a row and a column. -/
def getCell (grid : List (List α)) (p : ℕ × ℕ) : Option α := grid[p.1]?.bind fun row => row[p.2]?

/-- Write a cell. -/
def setCell (grid : List (List α)) (p : ℕ × ℕ) (v : α) : List (List α) :=
  grid.modify p.1 fun row => row.set p.2 v

/-- The lengths of the rows. -/
def gridShape (grid : List (List α)) : List ℕ := grid.map List.length

variable {grid : List (List α)} {p q : ℕ × ℕ} {v w : α}

@[simp] theorem gridShape_setCell (grid : List (List α)) (p : ℕ × ℕ) (v : α) :
    gridShape (setCell grid p v) = gridShape grid := by
  apply List.ext_getElem?
  intro i
  simp only [gridShape, setCell, List.getElem?_map, List.getElem?_modify]
  split <;> cases grid[i]? <;> simp

/-- What a cell holds after a write. -/
theorem getCell_setCell (grid : List (List α)) (p q : ℕ × ℕ) (v : α) :
    getCell (setCell grid p v) q =
      if p = q then (getCell grid q).map fun _ => v else getCell grid q := by
  simp only [getCell, setCell, List.getElem?_modify]
  by_cases hrow : p.1 = q.1
  · cases hget : grid[q.1]? with
    | none => simp [hrow]
    | some row =>
      by_cases hcol : p.2 = q.2
      · have hpq : p = q := Prod.ext hrow hcol
        simp [hpq, List.getElem?_set]
        split <;> simp_all
      · have hpq : p ≠ q := fun h => hcol (h ▸ rfl)
        simp [hrow, hpq, List.getElem?_set_ne hcol]
  · have hpq : p ≠ q := fun h => hrow (h ▸ rfl)
    simp [hrow, hpq]

/-- Grids of one shape with the same cells are equal. -/
theorem grid_ext {grid grid' : List (List α)} (hshape : gridShape grid = gridShape grid')
    (h : ∀ p, getCell grid p = getCell grid' p) : grid = grid' := by
  have hlength : grid.length = grid'.length := by
    simpa [gridShape] using congrArg List.length hshape
  apply List.ext_getElem hlength
  intro i hi hi'
  apply List.ext_getElem?
  intro j
  have hcell := h (i, j)
  simpa [getCell, hi, hi'] using hcell

/-- Writes to two cells commute. -/
theorem setCell_comm (h : p ≠ q) (v w : α) :
    setCell (setCell grid p v) q w = setCell (setCell grid q w) p v := by
  refine grid_ext (by simp) fun r => ?_
  simp only [getCell_setCell]
  by_cases hp : p = r
  · have hq : q ≠ r := fun hq => h (hp.trans hq.symm)
    simp [hp, hq]
  · simp [hp]

/-- The last write to a cell counts. -/
theorem setCell_setCell (grid : List (List α)) (p : ℕ × ℕ) (v w : α) :
    setCell (setCell grid p v) p w = setCell grid p w := by
  refine grid_ext (by simp) fun r => ?_
  simp only [getCell_setCell]
  split
  · rw [Option.map_map]
    rfl
  · rfl

/-- Writing what a cell holds changes nothing. -/
theorem setCell_getCell (h : getCell grid p = some v) : setCell grid p v = grid := by
  refine grid_ext (by simp) fun r => ?_
  rw [getCell_setCell]
  split
  · rename_i hpr
    rw [← hpr, h, Option.map_some]
  · rfl

/-- An exchange of two cells undoes itself. -/
theorem exchange_exchange (hpq : p ≠ q) (hp : getCell grid p = some v)
    (hq : getCell grid q = some w) :
    setCell (setCell (setCell (setCell grid p w) q v) q w) p v = grid := by
  rw [setCell_setCell, setCell_comm hpq w w, setCell_setCell, setCell_comm (Ne.symm hpq) w v,
    setCell_getCell hp, setCell_getCell hq]

/-! ## Rows of one length -/

/-- A write in the list of all cells. -/
theorem flatten_setCell {n : ℕ} (hrows : ∀ row ∈ grid, row.length = n) (hcol : p.2 < n) (v : α) :
    (setCell grid p v).flatten = grid.flatten.set (p.1 * n + p.2) v := by
  obtain ⟨r, c⟩ := p
  dsimp only at hcol
  unfold setCell
  dsimp only
  induction grid generalizing r with
  | nil => simp
  | cons row grid ih =>
    have hlength : row.length = n := hrows row List.mem_cons_self
    cases r with
    | zero =>
      rw [List.modify_zero_cons, List.flatten_cons, List.flatten_cons, List.set_append_left]
      · simp
      · omega
    | succ r =>
      have hindex : (r + 1) * n + c - row.length = r * n + c := by
        rw [hlength, Nat.add_mul]
        omega
      rw [List.modify_succ_cons, List.flatten_cons, List.flatten_cons,
        ih (fun row hrow => hrows row (List.mem_cons_of_mem _ hrow)),
        List.set_append_right, hindex]
      rw [hlength, Nat.add_mul]
      omega

/-- A cell in the list of all cells. -/
theorem getElem?_flatten_cells {n : ℕ} (hrows : ∀ row ∈ grid, row.length = n) (hcol : p.2 < n) :
    grid.flatten[p.1 * n + p.2]? = getCell grid p := by
  obtain ⟨r, c⟩ := p
  dsimp only at hcol
  unfold getCell
  dsimp only
  induction grid generalizing r with
  | nil => simp
  | cons row grid ih =>
    have hlength : row.length = n := hrows row List.mem_cons_self
    cases r with
    | zero =>
      rw [List.flatten_cons, List.getElem?_append_left (by omega)]
      simp
    | succ r =>
      have hindex : (r + 1) * n + c - row.length = r * n + c := by
        rw [hlength, Nat.add_mul]
        omega
      have hle : row.length ≤ (r + 1) * n + c := by
        rw [hlength, Nat.add_mul]
        omega
      rw [List.flatten_cons, List.getElem?_append_right hle, hindex,
        ih fun row hrow => hrows row (List.mem_cons_of_mem _ hrow)]
      simp

/-- An exchange of two cells permutes the cells. -/
theorem exchange_perm {n : ℕ} (hrows : ∀ row ∈ grid, row.length = n)
    (hp : getCell grid p = some v) (hq : getCell grid q = some w) (hpcol : p.2 < n)
    (hqcol : q.2 < n) : (setCell (setCell grid p w) q v).flatten.Perm grid.flatten := by
  have hrows' : ∀ row ∈ setCell grid p w, row.length = n := by
    intro row hrow
    have hmem : row.length ∈ gridShape (setCell grid p w) := List.mem_map_of_mem hrow
    rw [gridShape_setCell] at hmem
    obtain ⟨row', hrow', heq⟩ := List.mem_map.mp hmem
    rw [← heq, hrows row' hrow']
  rw [← getElem?_flatten_cells hrows hpcol] at hp
  rw [← getElem?_flatten_cells hrows hqcol] at hq
  obtain ⟨hplt, rfl⟩ := List.getElem?_eq_some_iff.mp hp
  obtain ⟨hqlt, rfl⟩ := List.getElem?_eq_some_iff.mp hq
  rw [flatten_setCell hrows' hqcol, flatten_setCell hrows hpcol]
  exact List.set_set_perm hplt hqlt

end NemoRL.Lib
