import NemoRL.Environments.SlidingPuzzle
import NemoRL.Lib.Grid
import Mathlib.Logic.Relation
import Mathlib.Data.List.Range

/-!
# Puzzles and their moves

A puzzle is a grid of tiles with the position of its empty space. A legal move slides a tile that
is next to the empty space. The tiles stay a permutation of the numbers, the position stays that
of the empty space, and every legal move is undone by another one, so that the solved grid can
always be reached again.

## Main definitions

* `Puzzle`, `LegalMove` — puzzles and their moves.
* `Consistent` — what holds of the puzzles of a game.

## Main results

* `LegalMove.symm`, `Reaches.symm` — every move can be undone.
* `consistent_solved` — the solved puzzle.
-/

namespace NemoRL.Environments.SlidingPuzzle

open Lib

/-! ## Puzzles -/

/-- The tiles of a game, and where the empty space is. -/
structure Puzzle where
  size : ℕ
  grid : List (List ℕ)
  solution : List (List ℕ)
  emptyPos : ℕ × ℕ
  deriving DecidableEq

/-- Slide the tile at a position into the empty space. -/
def Puzzle.slide (s : Puzzle) (p : ℕ × ℕ) : Puzzle :=
  { s with
    grid := setCell (setCell s.grid s.emptyPos ((getCell s.grid p).getD 0)) p 0
    emptyPos := p }

/-- The solved grid: the empty space is behind all numbers. -/
def solvedGrid (size : ℕ) : List (List ℕ) := setCell (numbered size) (size - 1, size - 1) 0

/-- The solved puzzle. -/
def Puzzle.solved (size : ℕ) : Puzzle :=
  ⟨size, solvedGrid size, solvedGrid size, (size - 1, size - 1)⟩

/-- Two positions are next to each other. -/
def Adjacent (p q : ℕ × ℕ) : Prop :=
  ((q.1 : ℤ) - p.1).natAbs + ((q.2 : ℤ) - p.2).natAbs = 1

/-- A tile next to the empty space slides into it. -/
inductive LegalMove (s : Puzzle) : Puzzle → Prop
  | slide (p : ℕ × ℕ) (hrow : p.1 < s.size) (hcol : p.2 < s.size)
      (hadjacent : Adjacent s.emptyPos p) : LegalMove s (s.slide p)

/-- The tiles are the numbers below the square of the size, and the empty space is where it is
said to be. -/
structure Consistent (s : Puzzle) : Prop where
  shape : gridShape s.grid = List.replicate s.size s.size
  perm : s.grid.flatten.Perm (List.range (s.size * s.size))
  empty : getCell s.grid s.emptyPos = some 0
  solution : s.solution = solvedGrid s.size

theorem Adjacent.symm {p q : ℕ × ℕ} (h : Adjacent p q) : Adjacent q p := by
  unfold Adjacent at *
  omega

theorem Adjacent.ne {p q : ℕ × ℕ} (h : Adjacent p q) : p ≠ q := by
  rintro rfl
  simp [Adjacent] at h

theorem Consistent.rows {s : Puzzle} (h : Consistent s) : ∀ row ∈ s.grid, row.length = s.size := by
  intro row hrow
  have hmem : row.length ∈ gridShape s.grid := List.mem_map_of_mem hrow
  rw [h.shape] at hmem
  exact List.eq_of_mem_replicate hmem

/-- Every position in the grid has a tile. -/
theorem Consistent.getCell_isSome {s : Puzzle} (h : Consistent s) {p : ℕ × ℕ}
    (hrow : p.1 < s.size) (hcol : p.2 < s.size) : ∃ t, getCell s.grid p = some t := by
  have hlength : s.grid.length = s.size := by
    simpa [gridShape] using congrArg List.length h.shape
  have hlt : p.1 < s.grid.length := hlength ▸ hrow
  have hcolumn : p.2 < s.grid[p.1].length := by
    rw [h.rows _ (List.getElem_mem hlt)]
    exact hcol
  exact ⟨s.grid[p.1][p.2], by simp [getCell, hlt, hcolumn]⟩

/-- A position with a tile is in the grid. -/
theorem Consistent.lt_of_getCell {s : Puzzle} (h : Consistent s) {p : ℕ × ℕ} {t : ℕ}
    (hp : getCell s.grid p = some t) : p.1 < s.size ∧ p.2 < s.size := by
  have hlength : s.grid.length = s.size := by
    simpa [gridShape] using congrArg List.length h.shape
  obtain ⟨row, hrow, hcell⟩ := Option.bind_eq_some_iff.mp hp
  have hcol := (List.getElem?_eq_some_iff.mp hcell).1
  have hlt := (List.getElem?_eq_some_iff.mp hrow).1
  rw [h.rows row (List.mem_of_getElem? hrow)] at hcol
  exact ⟨hlength ▸ hlt, hcol⟩

/-- A legal move keeps the tiles and finds the empty space. -/
theorem LegalMove.consistent {s s' : Puzzle} (h : LegalMove s s') (hs : Consistent s) :
    Consistent s' := by
  obtain ⟨p, hrow, hcol, hadjacent⟩ := h
  obtain ⟨t, ht⟩ := hs.getCell_isSome hrow hcol
  have hempty := hs.lt_of_getCell hs.empty
  refine ⟨?_, ?_, ?_, hs.solution⟩
  · simp only [Puzzle.slide, gridShape_setCell]
    exact hs.shape
  · simp only [Puzzle.slide, ht, Option.getD_some]
    exact (exchange_perm hs.rows hs.empty ht hempty.2 hcol).trans hs.perm
  · simp only [Puzzle.slide, getCell_setCell, if_true, if_neg hadjacent.ne, ht, Option.map_some]

/-- The tile that was slid slides back. -/
theorem Puzzle.slide_slide {s : Puzzle} (hs : Consistent s) {p : ℕ × ℕ} {t : ℕ}
    (hne : s.emptyPos ≠ p) (ht : getCell s.grid p = some t) :
    (s.slide p).slide s.emptyPos = s := by
  have hcell : getCell (s.slide p).grid s.emptyPos = some t := by
    simp only [Puzzle.slide, getCell_setCell, if_neg (Ne.symm hne), if_true, hs.empty, ht,
      Option.map_some, Option.getD_some]
  have hgrid : ((s.slide p).slide s.emptyPos).grid = s.grid := by
    rw [Puzzle.slide, hcell]
    simp only [Puzzle.slide, ht, Option.getD_some]
    exact exchange_exchange hne hs.empty ht
  rw [Puzzle.slide] at hgrid ⊢
  dsimp only at hgrid ⊢
  rw [hgrid]
  rfl

/-- Every legal move can be undone by a legal move. -/
theorem LegalMove.symm {s s' : Puzzle} (h : LegalMove s s') (hs : Consistent s) :
    LegalMove s' s := by
  obtain ⟨p, hrow, hcol, hadjacent⟩ := h
  obtain ⟨t, ht⟩ := hs.getCell_isSome hrow hcol
  have hempty := hs.lt_of_getCell hs.empty
  have hback := Puzzle.slide_slide hs hadjacent.ne ht
  have hmove : LegalMove (s.slide p) ((s.slide p).slide s.emptyPos) :=
    .slide s.emptyPos hempty.1 hempty.2 hadjacent.symm
  rwa [hback] at hmove

/-- A legal move changes the puzzle. -/
theorem LegalMove.ne {s s' : Puzzle} (h : LegalMove s s') : s' ≠ s := by
  obtain ⟨p, -, -, hadjacent⟩ := h
  intro heq
  exact hadjacent.ne (congrArg Puzzle.emptyPos heq).symm

/-- Puzzles that are reached by legal moves. -/
def Reaches : Puzzle → Puzzle → Prop := Relation.ReflTransGen LegalMove

theorem Reaches.consistent {s s' : Puzzle} (h : Reaches s s') (hs : Consistent s) :
    Consistent s' := by
  induction h with
  | refl => exact hs
  | tail _ hmove ih => exact hmove.consistent ih

/-- All moves can be undone. -/
theorem Reaches.symm {s s' : Puzzle} (h : Reaches s s') (hs : Consistent s) : Reaches s' s := by
  induction h with
  | refl => exact .refl
  | tail hreach hmove ih =>
    exact (Relation.ReflTransGen.single (hmove.symm (Reaches.consistent hreach hs))).trans ih

/-! ## The solved puzzle -/

theorem gridShape_numbered (size : ℕ) :
    gridShape (numbered size) = List.replicate size size := by
  simp [gridShape, numbered, Function.comp_def]

theorem length_of_mem_numbered {size : ℕ} {row : List ℕ} (h : row ∈ numbered size) :
    row.length = size := by
  have hmem : row.length ∈ gridShape (numbered size) := List.mem_map_of_mem h
  rw [gridShape_numbered] at hmem
  exact List.eq_of_mem_replicate hmem

theorem flatten_numbered (size : ℕ) :
    (numbered size).flatten = (List.range (size * size)).map (· + 1) := by
  have hrows : ∀ row ∈ numbered size, row.length = size := fun _ h => length_of_mem_numbered h
  have hlength : (numbered size).flatten.length = size * size := by
    rw [List.length_flatten]
    change (gridShape (numbered size)).sum = _
    simp [gridShape_numbered]
  apply List.ext_getElem?
  intro i
  by_cases hi : i < size * size
  · have hpos : 0 < size := by
      rcases Nat.eq_zero_or_pos size with h | h
      · simp [h] at hi
      · exact h
    have hcol : i % size < size := Nat.mod_lt i hpos
    have hrow : i / size < size := Nat.div_lt_of_lt_mul hi
    have hcell := getElem?_flatten_cells (p := (i / size, i % size)) hrows hcol
    have hindex : i / size * size + i % size = i := by
      rw [Nat.mul_comm]
      exact Nat.div_add_mod i size
    dsimp only at hcell
    rw [hindex] at hcell
    rw [hcell]
    simp [getCell, numbered, hrow, hcol, hi, hindex]
  · have hi' : size * size ≤ i := Nat.le_of_not_lt hi
    rw [List.getElem?_eq_none (by omega), List.getElem?_eq_none (by simpa using hi')]

theorem consistent_solved {size : ℕ} (hsize : 0 < size) : Consistent (Puzzle.solved size) := by
  have hrows : ∀ row ∈ numbered size, row.length = size := fun _ h => length_of_mem_numbered h
  have hlt : size - 1 < size := by omega
  refine ⟨?_, ?_, ?_, rfl⟩
  · simp only [Puzzle.solved, solvedGrid, gridShape_setCell, gridShape_numbered]
  · obtain ⟨m, hm⟩ : ∃ m, size * size = m + 1 := ⟨size * size - 1, by
      have := Nat.mul_pos hsize hsize
      omega⟩
    have hindex : (size - 1) * size + (size - 1) = m := by
      rw [Nat.sub_mul]
      have := Nat.le_mul_self size
      omega
    simp only [Puzzle.solved, solvedGrid]
    rw [flatten_setCell (p := (size - 1, size - 1)) hrows hlt, flatten_numbered, hm]
    dsimp only
    rw [hindex, List.range_succ, List.map_append, List.set_append_right _ _ (by simp)]
    simp only [List.length_map, List.length_range, Nat.sub_self, List.map_cons, List.map_nil,
      List.set_cons_zero]
    rw [← List.range_succ, List.range_succ_eq_map]
    exact List.perm_append_singleton 0 _
  · simp only [Puzzle.solved, solvedGrid, getCell_setCell, if_true]
    simp [getCell, numbered, hlt]

end NemoRL.Environments.SlidingPuzzle
