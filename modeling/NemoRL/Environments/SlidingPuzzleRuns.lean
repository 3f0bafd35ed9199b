import NemoRL.Environments.SlidingPuzzleSpec
import NemoRL.Lib.Except
import Mathlib.Data.List.Infix

/-!
# Games of the sliding puzzle

A game state in the heap represents a puzzle. A step represents a legal move or no move in a
state of its own: it makes objects and writes to those that it made, and leaves all others as
they are. Whatever actions are played, the puzzle is consistent and can be solved by more
actions.

## Main definitions

* `GridAt`, `Represents` — the grid of a list of rows, and the puzzle of a state.
* `MoveOrStay` — what an action does to a puzzle.

## Main results

* `deepcopy_spec` — a copy represents the same puzzle in objects of its own.
* `generate_spec`, `step_spec` — a new game, and an action.
* `games_stay_solvable` — all games.
-/

namespace NemoRL.Environments.SlidingPuzzle

open Lib

/-! ## Grids in the heap -/

/-- Rows hold tiles. -/
def RowsAt (h : Heap) (rows : List Addr) (tiles : List (List ℕ)) : Prop :=
  List.Forall₂ (fun a t => h[a]? = some (.row t)) rows tiles

/-- A list of different rows holds the tiles of a grid. -/
structure GridAt (h : Heap) (a : Addr) (rows : List Addr) (tiles : List (List ℕ)) : Prop where
  obj : h[a]? = some (.grid rows)
  rowsAt : RowsAt h rows tiles
  nodup : rows.Nodup

theorem getElem?_of_extends {h h' : Heap} (hp : h <+: h') {a : Addr} {o : Obj}
    (ha : h[a]? = some o) : h'[a]? = some o := by
  obtain ⟨t, rfl⟩ := hp
  rw [List.getElem?_append_left (List.getElem?_eq_some_iff.mp ha).1]
  exact ha

/-- A write behind the objects that there were leaves them as they are. -/
theorem prefix_set {h h' : Heap} (hp : h <+: h') {a : Addr} (ha : h.length ≤ a) (o : Obj) :
    h <+: h'.set a o := by
  obtain ⟨t, rfl⟩ := hp
  rw [List.set_append_right _ _ ha]
  exact List.prefix_append h _

theorem RowsAt.mono {h h' : Heap} (hp : h <+: h') {rows : List Addr} {tiles : List (List ℕ)}
    (hrows : RowsAt h rows tiles) : RowsAt h' rows tiles :=
  List.Forall₂.imp (fun _ _ ha => getElem?_of_extends hp ha) hrows

theorem GridAt.mono {h h' : Heap} (hp : h <+: h') {a : Addr} {rows : List Addr}
    {tiles : List (List ℕ)} (hgrid : GridAt h a rows tiles) : GridAt h' a rows tiles :=
  ⟨getElem?_of_extends hp hgrid.obj, hgrid.rowsAt.mono hp, hgrid.nodup⟩

/-- Different objects are at different places. -/
theorem ne_of_getElem? {h : Heap} {a b : Addr} {o o' : Obj} (ha : h[a]? = some o)
    (hb : h[b]? = some o') (ho : o ≠ o') : a ≠ b := by
  rintro rfl
  rw [ha, Option.some.injEq] at hb
  exact ho hb

/-- A write to another object than the rows leaves them as they are. -/
theorem RowsAt.set {h : Heap} {rows : List Addr} {tiles : List (List ℕ)}
    (hrows : RowsAt h rows tiles) {b : Addr} (hb : b ∉ rows) (o : Obj) :
    RowsAt (h.set b o) rows tiles := by
  induction hrows with
  | nil => exact .nil
  | @cons a t rows tiles ha _ ih =>
    have hba : b ≠ a := fun heq => hb (heq ▸ List.mem_cons_self)
    refine .cons ?_ (ih fun hmem => hb (List.mem_cons_of_mem a hmem))
    rw [List.getElem?_set_ne hba]
    exact ha

theorem GridAt.set {h : Heap} {a : Addr} {rows : List Addr} {tiles : List (List ℕ)}
    (hgrid : GridAt h a rows tiles) {b : Addr} (hba : b ≠ a) (hb : b ∉ rows) (o : Obj) :
    GridAt (h.set b o) a rows tiles where
  obj := by rw [List.getElem?_set_ne hba, hgrid.obj]
  rowsAt := hgrid.rowsAt.set hb o
  nodup := hgrid.nodup

theorem RowsAt.getElem? {h : Heap} {rows : List Addr} {tiles : List (List ℕ)}
    (hrows : RowsAt h rows tiles) {i : ℕ} {t : List ℕ} (ht : tiles[i]? = some t) :
    ∃ b, rows[i]? = some b ∧ h[b]? = some (.row t) := by
  obtain ⟨hi, rfl⟩ := List.getElem?_eq_some_iff.mp ht
  have hlength := hrows.length_eq
  have hi' : i < rows.length := by omega
  exact ⟨rows[i], List.getElem?_eq_getElem hi', (List.forall₂_iff_get.mp hrows).2 i hi' hi⟩

/-- The row and the tiles of a position. -/
theorem GridAt.exists_row {h : Heap} {a : Addr} {rows : List Addr} {tiles : List (List ℕ)}
    (hgrid : GridAt h a rows tiles) {p : ℕ × ℕ} {t : ℕ} (hp : getCell tiles p = some t) :
    ∃ b row, rows[p.1]? = some b ∧ tiles[p.1]? = some row ∧ h[b]? = some (.row row) ∧
      row[p.2]? = some t := by
  obtain ⟨row, hrow, hcell⟩ := Option.bind_eq_some_iff.mp hp
  obtain ⟨b, hb, hrowAt⟩ := hgrid.rowsAt.getElem? hrow
  exact ⟨b, row, hb, hrow, hrowAt, hcell⟩

theorem getTile_spec {h : Heap} {a : Addr} {rows : List Addr} {tiles : List (List ℕ)}
    (hgrid : GridAt h a rows tiles) {p : ℕ × ℕ} {t : ℕ} (hp : getCell tiles p = some t) :
    getTile h a p = .ok t := by
  obtain ⟨b, row, hb, -, hrow, hcell⟩ := hgrid.exists_row hp
  simp [getTile, getGrid, hgrid.obj, getItem, hb, getRow, hrow, hcell, bind, Except.bind]

theorem readGrid_spec {h : Heap} {a : Addr} {rows : List Addr} {tiles : List (List ℕ)}
    (hgrid : GridAt h a rows tiles) : readGrid h a = .ok tiles := by
  have hrows : rows.mapM (getRow h) = .ok tiles :=
    mapM_eq_ok.mpr (hgrid.rowsAt.imp fun b t hb => by simp [getRow, hb])
  simp [readGrid, getGrid, hgrid.obj, hrows, bind, Except.bind]

/-- A write to a row of a grid. -/
theorem RowsAt.set_row {h : Heap} {rows : List Addr} {tiles : List (List ℕ)}
    (hrows : RowsAt h rows tiles) (hnodup : rows.Nodup) {i : ℕ} {b : Addr} {row row' : List ℕ}
    (hb : rows[i]? = some b) (hrow : tiles[i]? = some row) (f : List ℕ → List ℕ)
    (hf : f row = row') : RowsAt (h.set b (.row row')) rows (tiles.modify i f) := by
  induction hrows generalizing i with
  | nil => cases hb
  | @cons a t rows tiles ha hrest ih =>
    cases i with
    | zero =>
      rw [List.getElem?_cons_zero, Option.some.injEq] at hb hrow
      subst hb hrow
      rw [List.modify_zero_cons, hf]
      refine .cons ?_ (RowsAt.set hrest (List.nodup_cons.mp hnodup).1 _)
      rw [List.getElem?_set_self (List.getElem?_eq_some_iff.mp ha).1]
    | succ i =>
      rw [List.getElem?_cons_succ] at hb hrow
      have hba : b ≠ a := by
        rintro rfl
        exact (List.nodup_cons.mp hnodup).1 (List.mem_of_getElem? hb)
      rw [List.modify_succ_cons]
      refine .cons ?_ (ih hnodup.of_cons hb hrow)
      rw [List.getElem?_set_ne hba]
      exact ha

/-- A tile is written to a row of its grid. -/
theorem setTile_spec {h : Heap} {a : Addr} {rows : List Addr} {tiles : List (List ℕ)}
    (hgrid : GridAt h a rows tiles) {p : ℕ × ℕ} {t : ℕ} (hp : getCell tiles p = some t)
    (v : ℕ) :
    ∃ b row o, b ∈ rows ∧ h[b]? = some (.row row) ∧ setTile h a p v = .ok (h.set b o) ∧
      GridAt (h.set b o) a rows (setCell tiles p v) := by
  obtain ⟨b, row, hb, htiles, hrow, hcell⟩ := hgrid.exists_row hp
  have hlt : p.2 < row.length := (List.getElem?_eq_some_iff.mp hcell).1
  refine ⟨b, row, .row (row.set p.2 v), List.mem_of_getElem? hb, hrow, ?_, ?_⟩
  · simp [setTile, getGrid, hgrid.obj, getItem, hb, getRow, hrow, hlt, bind, Except.bind, pure,
      Except.pure]
  · have hba : b ≠ a := ne_of_getElem? hrow hgrid.obj (by simp)
    refine ⟨?_, ?_, hgrid.nodup⟩
    · rw [List.getElem?_set_ne hba, hgrid.obj]
    · exact hgrid.rowsAt.set_row hgrid.nodup hb htiles (fun row => row.set p.2 v) rfl

/-! ## New objects -/

/-- Lists that were made behind a heap hold their tiles. -/
theorem rowsAt_append (h : Heap) (tiles : List (List ℕ)) :
    RowsAt (h ++ tiles.map Obj.row) (List.range' h.length tiles.length) tiles := by
  rw [RowsAt, List.forall₂_iff_get]
  refine ⟨by simp, fun i hi hi' => ?_⟩
  simp at hi
  simp [hi]

theorem allocRows_eq (tiles : List (List ℕ)) (h : Heap) :
    allocRows tiles h = (List.range' h.length tiles.length, h ++ tiles.map Obj.row) := by
  induction tiles generalizing h with
  | nil => simp [allocRows]
  | cons t tiles ih =>
    simp only [allocRows, alloc, ih]
    simp [List.range'_succ]

/-- A grid that was made of new rows. -/
theorem gridAt_alloc (h : Heap) (tiles : List (List ℕ)) :
    let rows := List.range' h.length tiles.length
    GridAt (h ++ tiles.map Obj.row ++ [.grid rows]) (h ++ tiles.map Obj.row).length rows tiles where
  obj := by simp
  rowsAt := (rowsAt_append h tiles).mono (List.prefix_append _ _)
  nodup := List.nodup_range'

/-- What is looked up was not copied. -/
theorem copyLeaf_spec {a : Addr} {s : Copy} {o : Obj} (hmemo : s.memo.lookup a = none)
    (ho : s.heap[a]? = some o) :
    copyLeaf a s = .ok (s.heap.length, ⟨(a, s.heap.length) :: s.memo, s.heap ++ [o]⟩) := by
  simp [copyLeaf, hmemo, ho, alloc]

theorem lookup_cons_of_ne {a b c : Addr} {memo : List (Addr × Addr)} (h : a ≠ b) :
    ((b, c) :: memo).lookup a = memo.lookup a := by
  have hbeq : (a == b) = false := by simpa using h
  simp [List.lookup_cons, hbeq]

/-- Rows that were not copied yet are copied one after the other. -/
theorem copyRows_spec {rows : List Addr} {tiles : List (List ℕ)} {s : Copy}
    (hrows : RowsAt s.heap rows tiles) (hnodup : rows.Nodup)
    (hmemo : ∀ a ∈ rows, s.memo.lookup a = none) :
    ∃ s', copyRows rows s = .ok (List.range' s.heap.length tiles.length, s') ∧
      s'.heap = s.heap ++ tiles.map Obj.row ∧
      ∀ a ∉ rows, s'.memo.lookup a = s.memo.lookup a := by
  induction rows generalizing tiles s with
  | nil =>
    cases hrows
    exact ⟨s, rfl, by simp, fun _ _ => rfl⟩
  | cons a rows ih =>
    cases hrows with
    | @cons _ t _ tiles ha hrest =>
      obtain ⟨ha', hnodup⟩ := List.nodup_cons.mp hnodup
      have hleaf := copyLeaf_spec (hmemo a List.mem_cons_self) ha
      obtain ⟨s', hcopy, hheap, hlookup⟩ := ih
        (s := ⟨(a, s.heap.length) :: s.memo, s.heap ++ [.row t]⟩)
        (RowsAt.mono (List.prefix_append _ _) hrest) hnodup (fun b hb => by
          have hba : b ≠ a := fun heq => ha' (heq ▸ hb)
          rw [lookup_cons_of_ne hba]
          exact hmemo b (List.mem_cons_of_mem a hb))
      refine ⟨s', ?_, ?_, ?_⟩
      · simp only [copyRows, hleaf, bind, Except.bind, hcopy, pure, Except.pure]
        simp [List.range'_succ]
      · rw [hheap]
        simp
      · intro b hb
        have hba : b ≠ a := fun heq => hb (heq ▸ List.mem_cons_self)
        rw [hlookup b fun hmem => hb (List.mem_cons_of_mem a hmem), lookup_cons_of_ne hba]

/-- A grid that was not copied yet is copied to new objects. -/
theorem copyGrid_spec {a : Addr} {rows : List Addr} {tiles : List (List ℕ)} {s : Copy}
    (hgrid : GridAt s.heap a rows tiles) (ha : s.memo.lookup a = none)
    (hmemo : ∀ b ∈ rows, s.memo.lookup b = none) :
    ∃ a' rows' s', copyGrid a s = .ok (a', s') ∧ s.heap <+: s'.heap ∧
      GridAt s'.heap a' rows' tiles ∧
      (∀ b ∈ a' :: rows', s.heap.length ≤ b ∧ b < s'.heap.length) ∧
      ∀ b, b ≠ a → b ∉ rows → s'.memo.lookup b = s.memo.lookup b := by
  obtain ⟨s', hcopy, hheap, hlookup⟩ := copyRows_spec hgrid.rowsAt hgrid.nodup hmemo
  have hnew := gridAt_alloc s.heap tiles
  dsimp only at hnew
  rw [← hheap] at hnew
  refine ⟨s'.heap.length, List.range' s.heap.length tiles.length,
    ⟨(a, s'.heap.length) :: s'.memo, s'.heap ++
      [.grid (List.range' s.heap.length tiles.length)]⟩, ?_, ?_, hnew, ?_, ?_⟩
  · simp [copyGrid, ha, getGrid, hgrid.obj, hcopy, bind, Except.bind, alloc, pure, Except.pure]
  · rw [hheap, List.append_assoc]
    exact List.prefix_append _ _
  · intro b hb
    have hlength : s'.heap.length = s.heap.length + tiles.length := by simp [hheap]
    rcases List.mem_cons.mp hb with rfl | hb
    · simp [hlength]
    · rw [List.mem_range'_1] at hb
      rw [List.length_append, hlength]
      exact ⟨hb.1, Nat.lt_succ_of_lt hb.2⟩
  · intro b hba hb
    rw [lookup_cons_of_ne hba, hlookup b hb]

/-! ## States in the heap -/

/-- Where the objects of a state are. -/
structure Layout where
  grid : Addr
  gridRows : List Addr
  solution : Addr
  solutionRows : List Addr
  commands : Addr

/-- A state represents a puzzle in objects that it shares with no other part of itself. -/
structure RepresentsAt (h : Heap) (a : Addr) (s : Puzzle) (l : Layout) : Prop where
  state : h[a]? = some (.state ⟨s.size, l.grid, l.solution, s.emptyPos, l.commands⟩)
  gridAt : GridAt h l.grid l.gridRows s.grid
  solutionAt : GridAt h l.solution l.solutionRows s.solution
  commandsAt : h[l.commands]? = some (.commands commands)
  ne : l.grid ≠ l.solution
  disjoint : ∀ b ∈ l.gridRows, b ∉ l.solutionRows

/-- A state represents a puzzle. -/
def Represents (h : Heap) (a : Addr) (s : Puzzle) : Prop := ∃ l, RepresentsAt h a s l

theorem RepresentsAt.mono {h h' : Heap} (hp : h <+: h') {a : Addr} {s : Puzzle} {l : Layout}
    (hs : RepresentsAt h a s l) : RepresentsAt h' a s l :=
  ⟨getElem?_of_extends hp hs.state, hs.gridAt.mono hp, hs.solutionAt.mono hp,
    getElem?_of_extends hp hs.commandsAt, hs.ne, hs.disjoint⟩

/-- A state that stays as it is represents what it did. -/
theorem Represents.mono {h h' : Heap} (hp : h <+: h') {a : Addr} {s : Puzzle}
    (hs : Represents h a s) : Represents h' a s := by
  obtain ⟨l, hl⟩ := hs
  exact ⟨l, hl.mono hp⟩

/-- The rows of a grid are not its other objects. -/
theorem GridAt.row_ne {h : Heap} {a b : Addr} {rows : List Addr} {tiles : List (List ℕ)}
    (hgrid : GridAt h a rows tiles) (hb : b ∈ rows) : ∃ row, h[b]? = some (.row row) := by
  obtain ⟨i, hi⟩ := List.mem_iff_getElem?.mp hb
  obtain ⟨hlt, rfl⟩ := List.getElem?_eq_some_iff.mp hi
  have hlength := hgrid.rowsAt.length_eq
  exact ⟨_, (List.forall₂_iff_get.mp hgrid.rowsAt).2 i hlt (by omega)⟩

/-- A copy represents the same puzzle in new objects, and everything else stays as it is. -/
theorem deepcopy_spec {h : Heap} {a : Addr} {s : Puzzle} (hs : Represents h a s) :
    ∃ a' h' l', deepcopy a h = .ok (a', h') ∧ h <+: h' ∧ RepresentsAt h' a' s l' ∧
      ∀ b ∈ a' :: l'.gridRows, h.length ≤ b := by
  obtain ⟨l, hl⟩ := hs
  have hcommands : ∀ rows tiles g, GridAt h g rows tiles → l.commands ≠ g ∧ l.commands ∉ rows := by
    intro rows tiles g hgrid
    refine ⟨ne_of_getElem? hl.commandsAt hgrid.obj (by simp), fun hmem => ?_⟩
    obtain ⟨row, hrow⟩ := hgrid.row_ne hmem
    exact ne_of_getElem? hl.commandsAt hrow (by simp) rfl
  have hsolution : l.solution ≠ l.grid ∧ l.solution ∉ l.gridRows := by
    refine ⟨Ne.symm hl.ne, fun hmem => ?_⟩
    obtain ⟨row, hrow⟩ := hl.gridAt.row_ne hmem
    exact ne_of_getElem? hl.solutionAt.obj hrow (by simp) rfl
  have hsolutionRows : ∀ b ∈ l.solutionRows, b ≠ l.grid ∧ b ∉ l.gridRows := by
    intro b hb
    obtain ⟨row, hrow⟩ := hl.solutionAt.row_ne hb
    exact ⟨ne_of_getElem? hrow hl.gridAt.obj (by simp), fun hmem => hl.disjoint b hmem hb⟩
  obtain ⟨grid', gridRows', s₁, hcopyGrid, hgrown₁, hgrid', hnew₁, hmemo₁⟩ :=
    copyGrid_spec (s := ⟨[], h⟩) hl.gridAt rfl fun _ _ => rfl
  obtain ⟨solution', solutionRows', s₂, hcopySolution, hgrown₂, hsolution', hnew₂, hmemo₂⟩ :=
    copyGrid_spec (s := s₁) (hl.solutionAt.mono hgrown₁)
      (hmemo₁ l.solution hsolution.1 hsolution.2)
      fun b hb => hmemo₁ b (hsolutionRows b hb).1 (hsolutionRows b hb).2
  have hleaf := copyLeaf_spec (s := s₂) (a := l.commands)
    (by
      obtain ⟨hne, hnot⟩ := hcommands _ _ _ hl.gridAt
      obtain ⟨hne', hnot'⟩ := hcommands _ _ _ hl.solutionAt
      rw [hmemo₂ _ hne' hnot', hmemo₁ _ hne hnot]
      rfl)
    (getElem?_of_extends (hgrown₁.trans hgrown₂) hl.commandsAt)
  let h₃ : Heap := s₂.heap ++ [.commands commands]
  let dict : StateDict := ⟨s.size, grid', solution', s.emptyPos, s₂.heap.length⟩
  have hgrown₃ : s₂.heap <+: h₃ ++ [.state dict] := by
    rw [List.append_assoc]
    exact List.prefix_append _ _
  refine ⟨h₃.length, h₃ ++ [.state dict],
    ⟨grid', gridRows', solution', solutionRows', s₂.heap.length⟩, ?_,
    (hgrown₁.trans hgrown₂).trans hgrown₃, ⟨?_, ?_, ?_, ?_, ?_, ?_⟩, ?_⟩
  · simp [deepcopy, getState, hl.state, hcopyGrid, hcopySolution, hleaf, bind, Except.bind, alloc,
      pure, Except.pure, h₃, dict]
  · simp [dict]
  · exact hgrid'.mono (hgrown₂.trans hgrown₃)
  · exact hsolution'.mono hgrown₃
  · simp [h₃]
  · have hlt : grid' < s₁.heap.length := (hnew₁ grid' List.mem_cons_self).2
    have hle : s₁.heap.length ≤ solution' := (hnew₂ solution' List.mem_cons_self).1
    exact Nat.ne_of_lt (hlt.trans_le hle)
  · intro b hb hb'
    have hlt : b < s₁.heap.length := (hnew₁ b (List.mem_cons_of_mem _ hb)).2
    have hle : s₁.heap.length ≤ b := (hnew₂ b (List.mem_cons_of_mem _ hb')).1
    exact absurd hlt (Nat.not_lt_of_le hle)
  · intro b hb
    rcases List.mem_cons.mp hb with rfl | hb
    · have hle := ((hgrown₁.trans hgrown₂).trans (List.prefix_append s₂.heap
        [.commands commands])).length_le
      exact hle
    · exact (hnew₁ b (List.mem_cons_of_mem _ hb)).1

/-! ## Writes to a state -/

/-- A tile of a state is written to a row of its grid. -/
theorem RepresentsAt.setTile {h : Heap} {a : Addr} {s : Puzzle} {l : Layout}
    (hs : RepresentsAt h a s l) {p : ℕ × ℕ} {t : ℕ} (hp : getCell s.grid p = some t) (v : ℕ) :
    ∃ b o, b ∈ l.gridRows ∧ SlidingPuzzle.setTile h l.grid p v = .ok (h.set b o) ∧
      RepresentsAt (h.set b o) a { s with grid := setCell s.grid p v } l := by
  obtain ⟨b, row, o, hb, hrow, hset, hgrid⟩ := setTile_spec hs.gridAt hp v
  have hstate : b ≠ a := ne_of_getElem? hrow hs.state (by simp)
  have hsolution : b ≠ l.solution := ne_of_getElem? hrow hs.solutionAt.obj (by simp)
  have hcommands : b ≠ l.commands := ne_of_getElem? hrow hs.commandsAt (by simp)
  refine ⟨b, o, hb, hset, ⟨?_, hgrid, ?_, ?_, hs.ne, hs.disjoint⟩⟩
  · rw [List.getElem?_set_ne hstate, hs.state]
  · exact hs.solutionAt.set hsolution (hs.disjoint b hb) o
  · rw [List.getElem?_set_ne hcommands, hs.commandsAt]

/-- The position of the empty space is written to the dictionary. -/
theorem RepresentsAt.setEmptyPos {h : Heap} {a : Addr} {s : Puzzle} {l : Layout}
    (hs : RepresentsAt h a s l) (p : ℕ × ℕ) :
    ∃ o, SlidingPuzzle.setEmptyPos h a p = .ok (h.set a o) ∧
      RepresentsAt (h.set a o) a { s with emptyPos := p } l := by
  have hgrid : a ≠ l.grid := ne_of_getElem? hs.state hs.gridAt.obj (by simp)
  have hsolution : a ≠ l.solution := ne_of_getElem? hs.state hs.solutionAt.obj (by simp)
  have hcommands : a ≠ l.commands := ne_of_getElem? hs.state hs.commandsAt (by simp)
  have hrows : ∀ rows tiles g, GridAt h g rows tiles → a ∉ rows := by
    intro rows tiles g hat hmem
    obtain ⟨row, hrow⟩ := hat.row_ne hmem
    exact ne_of_getElem? hs.state hrow (by simp) rfl
  refine ⟨.state ⟨s.size, l.grid, l.solution, p, l.commands⟩, ?_,
    ⟨?_, hs.gridAt.set hgrid (hrows _ _ _ hs.gridAt) _,
      hs.solutionAt.set hsolution (hrows _ _ _ hs.solutionAt) _, ?_, hs.ne, hs.disjoint⟩⟩
  · simp [SlidingPuzzle.setEmptyPos, getState, hs.state, bind, Except.bind, pure, Except.pure]
  · rw [List.getElem?_set_self (List.getElem?_eq_some_iff.mp hs.state).1]
  · rw [List.getElem?_set_ne hcommands, hs.commandsAt]

/-! ## A step -/

/-- What is returned after a move to a puzzle. -/
def Rewarded (s : Puzzle) (ret : StepReturn) : Prop :=
  (s.grid = s.solution ∧ ret.reward = 1 ∧ ret.isTerminated = true) ∨
    (s.grid ≠ s.solution ∧ ret.reward = 0 ∧ ret.isTerminated = false)

/-- What an action does to a puzzle: a legal move that is rewarded, or nothing. -/
def MoveOrStay (s s' : Puzzle) (ret : StepReturn) : Prop :=
  (s' = s ∧ ret.reward = 0 ∧ ret.isTerminated = false) ∨ (LegalMove s s' ∧ Rewarded s' ret)

theorem afterMove_spec {h : Heap} {a : Addr} {s : Puzzle} (hs : Represents h a s)
    (response : String) :
    ∃ ret, afterMove response a h = .ok (ret, h) ∧ ret.newState = a ∧ Rewarded s ret := by
  obtain ⟨l, hl⟩ := hs
  simp only [afterMove, getState, hl.state, readGrid_spec hl.gridAt, readGrid_spec hl.solutionAt,
    bind, Except.bind, pure, Except.pure]
  by_cases hsolved : s.grid = s.solution
  · rw [if_pos hsolved]
    exact ⟨_, rfl, rfl, .inl ⟨hsolved, rfl, rfl⟩⟩
  · rw [if_neg hsolved]
    exact ⟨_, rfl, rfl, .inr ⟨hsolved, rfl, rfl⟩⟩

/-- A tile slides in a new state, whose puzzle is that of the old one before. -/
theorem slideTile_spec {h₀ h : Heap} {a a' : Addr} {s : Puzzle} {l l' : Layout}
    (hold : RepresentsAt h₀ a s l) (hgrown : h₀ <+: h) (hnew : RepresentsAt h a' s l')
    (habove : ∀ b ∈ a' :: l'.gridRows, h₀.length ≤ b) (hs : Consistent s) {p : ℕ × ℕ}
    (hrow : p.1 < s.size) (hcol : p.2 < s.size) :
    ∃ tile h', slideTile ⟨s.size, l.grid, l.solution, s.emptyPos, l.commands⟩ a' p h =
        .ok (tile, h') ∧
      h₀ <+: h' ∧ Represents h' a' (s.slide p) := by
  obtain ⟨t, ht⟩ := hs.getCell_isSome hrow hcol
  obtain ⟨b₁, o₁, hb₁, hset₁, hs₁⟩ := hnew.setTile hs.empty t
  obtain ⟨t', ht'⟩ : ∃ t', getCell (setCell s.grid s.emptyPos t) p = some t' := by
    rw [getCell_setCell, ht]
    split
    · exact ⟨_, rfl⟩
    · exact ⟨_, rfl⟩
  obtain ⟨b₂, o₂, hb₂, hset₂, hs₂⟩ := hs₁.setTile ht' 0
  obtain ⟨o₃, hset₃, hs₃⟩ := hs₂.setEmptyPos p
  have hgrown₁ := prefix_set hgrown (habove b₁ (List.mem_cons_of_mem _ hb₁)) o₁
  have hgrown₂ := prefix_set hgrown₁ (habove b₂ (List.mem_cons_of_mem _ hb₂)) o₂
  have hgrown₃ := prefix_set hgrown₂ (habove a' List.mem_cons_self) o₃
  have htile : getTile h l.grid p = .ok t := getTile_spec (hold.gridAt.mono hgrown) ht
  have htile' : getTile (((h.set b₁ o₁).set b₂ o₂).set a' o₃) l.grid p = .ok t :=
    getTile_spec (hold.gridAt.mono hgrown₃) ht
  refine ⟨t, _, ?_, hgrown₃, l', ?_⟩
  · simp [slideTile, htile, getState, hnew.state, hset₁, hset₂, hset₃, htile', bind, Except.bind,
      pure, Except.pure]
  · simpa [Puzzle.slide, ht] using hs₃

/-- A tile next to the empty space slides, and the move is rewarded. -/
theorem move_spec {h₀ h : Heap} {a a' : Addr} {s : Puzzle} {l l' : Layout}
    (hold : RepresentsAt h₀ a s l) (hgrown : h₀ <+: h) (hnew : RepresentsAt h a' s l')
    (habove : ∀ b ∈ a' :: l'.gridRows, h₀.length ≤ b) (hs : Consistent s) {p : ℕ × ℕ}
    (hrow : p.1 < s.size) (hcol : p.2 < s.size) (response : ℕ → String) :
    ∃ ret h', (slideTile ⟨s.size, l.grid, l.solution, s.emptyPos, l.commands⟩ a' p h).bind
        (fun q => afterMove (response q.1) a' q.2) = .ok (ret, h') ∧
      h₀ <+: h' ∧ Represents h' ret.newState (s.slide p) ∧ Rewarded (s.slide p) ret := by
  obtain ⟨tile, h', hslide, hgrown', hrep⟩ := slideTile_spec hold hgrown hnew habove hs hrow hcol
  obtain ⟨ret, hafter, hstate, hrewarded⟩ := afterMove_spec hrep (response tile)
  refine ⟨ret, h', ?_, hgrown', hstate ▸ hrep, hrewarded⟩
  rw [hslide]
  exact hafter

theorem inGrid_iff {size : ℕ} {r c : ℤ} :
    inGrid size r c = true ↔ ∃ p : ℕ × ℕ, r = p.1 ∧ c = p.2 ∧ p.1 < size ∧ p.2 < size := by
  rw [inGrid, decide_eq_true_eq]
  constructor
  · rintro ⟨hr, hr', hc, hc'⟩
    exact ⟨(r.toNat, c.toNat), (Int.toNat_of_nonneg hr).symm, (Int.toNat_of_nonneg hc).symm,
      by omega, by omega⟩
  · rintro ⟨p, rfl, rfl, hrow, hcol⟩
    omega

/-- A direction leads to a position next to the empty space. -/
theorem adjacent_of_direction {emptyPos p : ℕ × ℕ} {action : String}
    (h : direction emptyPos action = some ((p.1 : ℤ), (p.2 : ℤ))) : Adjacent emptyPos p := by
  unfold direction at h
  unfold Adjacent
  split at h
  all_goals
    simp only [Option.some.injEq, Prod.mk.injEq, reduceCtorEq] at h
    try omega

/-- Every position next to the empty space has a direction. -/
theorem exists_direction {emptyPos p : ℕ × ℕ} (h : Adjacent emptyPos p) :
    ∃ action ∈ ["up", "down", "left", "right"],
      direction emptyPos action = some ((p.1 : ℤ), (p.2 : ℤ)) := by
  unfold Adjacent at h
  have hcases : (p.1 : ℤ) = emptyPos.1 + 1 ∧ (p.2 : ℤ) = emptyPos.2 ∨
      (p.1 : ℤ) = emptyPos.1 - 1 ∧ (p.2 : ℤ) = emptyPos.2 ∨
      (p.1 : ℤ) = emptyPos.1 ∧ (p.2 : ℤ) = emptyPos.2 + 1 ∨
      (p.1 : ℤ) = emptyPos.1 ∧ (p.2 : ℤ) = emptyPos.2 - 1 := by omega
  rcases hcases with ⟨hr, hc⟩ | ⟨hr, hc⟩ | ⟨hr, hc⟩ | ⟨hr, hc⟩
  · exact ⟨"up", by simp, by simp [direction, hr, hc]⟩
  · exact ⟨"down", by simp, by simp [direction, hr, hc]⟩
  · exact ⟨"left", by simp, by simp [direction, hr, hc]⟩
  · exact ⟨"right", by simp, by simp [direction, hr, hc]⟩

/-- An action makes objects and leaves those that there were as they are. Its new state is that
of a legal move, or of no move. -/
theorem step_spec (reader : Reader) (action : String) {h : Heap} {a : Addr} {s : Puzzle}
    (hrep : Represents h a s) (hs : Consistent s) :
    ∃ ret h' s', step reader action a h = .ok (ret, h') ∧ h <+: h' ∧
      Represents h' ret.newState s' ∧ MoveOrStay s s' ret := by
  obtain ⟨a', h₁, l', hcopy, hgrown, hnew, habove⟩ := deepcopy_spec hrep
  obtain ⟨l, hold⟩ := hrep
  have hstay : ∀ response, ∃ ret h' s', (Except.ok (⟨response, 0, false, a'⟩, h₁) :
      Except PyError (StepReturn × Heap)) = .ok (ret, h') ∧ h <+: h' ∧
      Represents h' ret.newState s' ∧ MoveOrStay s s' ret :=
    fun response => ⟨_, _, s, rfl, hgrown, ⟨l', hnew⟩, .inl ⟨rfl, rfl, rfl⟩⟩
  have hmove : ∀ (p : ℕ × ℕ) (response : ℕ → String), p.1 < s.size → p.2 < s.size →
      Adjacent s.emptyPos p → ∃ ret h' s',
        (slideTile ⟨s.size, l.grid, l.solution, s.emptyPos, l.commands⟩ a' p h₁).bind
          (fun q => afterMove (response q.1) a' q.2) = .ok (ret, h') ∧ h <+: h' ∧
        Represents h' ret.newState s' ∧ MoveOrStay s s' ret := by
    intro p response hrow hcol hadjacent
    obtain ⟨ret, h', heq, hgrown', hrep', hrewarded⟩ :=
      move_spec hold hgrown hnew habove hs hrow hcol response
    exact ⟨ret, h', _, heq, hgrown', hrep', .inr ⟨.slide p hrow hcol hadjacent, hrewarded⟩⟩
  simp only [step, getState, hold.state, hcopy, bind, Except.bind, pure, Except.pure]
  split
  · cases hposition : slidePosition reader action with
    | none => exact hstay _
    | some q =>
      obtain ⟨r, c⟩ := q
      dsimp only
      split
      · exact hstay _
      · rename_i hin
        rw [Bool.not_eq_true, Bool.not_eq_false] at hin
        obtain ⟨p, rfl, rfl, hrow, hcol⟩ := inGrid_iff.mp hin
        split
        · exact hstay _
        · rename_i hadjacent
          exact hmove p (fun tile => s!"Slid tile {tile} into the empty space.") hrow hcol
            (not_not.mp hadjacent)
  · cases hdirection : direction s.emptyPos action with
    | none => exact hstay _
    | some q =>
      obtain ⟨r, c⟩ := q
      dsimp only
      split
      · rename_i hin
        obtain ⟨p, rfl, rfl, hrow, hcol⟩ := inGrid_iff.mp hin
        exact hmove p (fun tile => s!"Slid tile {tile} {action}.") hrow hcol
          (adjacent_of_direction hdirection)
      · exact hstay _

/-- Every legal move is made by an action. -/
theorem exists_action (reader : Reader) {h : Heap} {a : Addr} {s s' : Puzzle}
    (hrep : Represents h a s) (hs : Consistent s) (hmove : LegalMove s s') :
    ∃ action ∈ ["up", "down", "left", "right"], ∃ ret h',
      step reader action a h = .ok (ret, h') ∧ h <+: h' ∧ Represents h' ret.newState s' := by
  obtain ⟨p, hrow, hcol, hadjacent⟩ := hmove
  obtain ⟨action, haction, hdirection⟩ := exists_direction hadjacent
  obtain ⟨a', h₁, l', hcopy, hgrown, hnew, habove⟩ := deepcopy_spec hrep
  obtain ⟨l, hold⟩ := hrep
  obtain ⟨ret, h', heq, hgrown', hrep', -⟩ := move_spec hold hgrown hnew habove hs hrow hcol
    fun tile => s!"Slid tile {tile} {action}."
  have hslide : "slide ".toList.isPrefixOf action.toList = false := by
    simp only [List.mem_cons, List.not_mem_nil, or_false] at haction
    rcases haction with rfl | rfl | rfl | rfl <;> rfl
  have hin : inGrid s.size (p.1 : ℤ) (p.2 : ℤ) = true := inGrid_iff.mpr ⟨p, rfl, rfl, hrow, hcol⟩
  refine ⟨action, haction, ret, h', ?_, hgrown', hrep'⟩
  simp only [step, getState, hold.state, hcopy, bind, Except.bind, pure, Except.pure, hslide,
    Bool.false_eq_true, if_false, hdirection, hin, if_true]
  exact heq

/-! ## A new game -/

/-- Objects outside some rows are as they were. -/
structure Frame (rows : List Addr) (h h' : Heap) : Prop where
  length : h'.length = h.length
  getElem? : ∀ b ∉ rows, h'[b]? = h[b]?

theorem Frame.refl (rows : List Addr) (h : Heap) : Frame rows h h := ⟨rfl, fun _ _ => rfl⟩

theorem Frame.trans {rows : List Addr} {h h' h'' : Heap} (hf : Frame rows h h')
    (hf' : Frame rows h' h'') : Frame rows h h'' :=
  ⟨hf'.length.trans hf.length, fun b hb => (hf'.getElem? b hb).trans (hf.getElem? b hb)⟩

theorem Frame.set {rows : List Addr} {b : Addr} (hb : b ∈ rows) (h : Heap) (o : Obj) :
    Frame rows h (h.set b o) where
  length := List.length_set
  getElem? := by
    intro c hc
    have hbc : b ≠ c := fun heq => hc (heq ▸ hb)
    rw [List.getElem?_set_ne hbc]

/-- Writes behind some objects leave them as they are. -/
theorem Frame.prefix {rows : List Addr} {h₀ h h' : Heap} (hf : Frame rows h h')
    (hgrown : h₀ <+: h) (habove : ∀ b ∈ rows, h₀.length ≤ b) : h₀ <+: h' := by
  rw [List.prefix_iff_getElem?]
  intro i hi
  have hnot : i ∉ rows := fun hmem => absurd hi (Nat.not_lt_of_le (habove i hmem))
  rw [hf.getElem? i hnot]
  exact getElem?_of_extends hgrown (List.getElem?_eq_getElem hi)

/-- Writes to other rows leave a grid as it is. -/
theorem Frame.gridAt {written : List Addr} {h h' : Heap} (hf : Frame written h h') {a : Addr}
    {rows : List Addr} {tiles : List (List ℕ)} (hgrid : GridAt h a rows tiles)
    (hout : ∀ b ∈ a :: rows, b ∉ written) : GridAt h' a rows tiles := by
  refine ⟨?_, ?_, hgrid.nodup⟩
  · rw [hf.getElem? a (hout a List.mem_cons_self), hgrid.obj]
  · have hrows := hgrid.rowsAt
    rw [RowsAt, List.forall₂_iff_get] at hrows ⊢
    refine ⟨hrows.1, fun i hi hi' => ?_⟩
    have hrow := hout (rows.get ⟨i, hi⟩) (List.mem_cons_of_mem _ (List.get_mem ..))
    rw [hf.getElem? _ hrow]
    exact hrows.2 i hi hi'

/-- The empty space is exchanged with a tile next to it. -/
theorem swapTiles_spec {h : Heap} {a : Addr} {rows : List Addr} {s : Puzzle}
    (hgrid : GridAt h a rows s.grid) (hs : Consistent s) {p : ℕ × ℕ} (hrow : p.1 < s.size)
    (hcol : p.2 < s.size) :
    ∃ h', swapTiles h a s.emptyPos p = .ok h' ∧ GridAt h' a rows (s.slide p).grid ∧
      Frame rows h h' := by
  obtain ⟨t, ht⟩ := hs.getCell_isSome hrow hcol
  obtain ⟨b₁, _, o₁, hb₁, -, hset₁, hgrid₁⟩ := setTile_spec hgrid hs.empty t
  obtain ⟨t', ht'⟩ : ∃ t', getCell (setCell s.grid s.emptyPos t) p = some t' := by
    rw [getCell_setCell, ht]
    split
    · exact ⟨_, rfl⟩
    · exact ⟨_, rfl⟩
  obtain ⟨b₂, _, o₂, hb₂, -, hset₂, hgrid₂⟩ := setTile_spec hgrid₁ ht' 0
  refine ⟨_, ?_, ?_, (Frame.set hb₁ h o₁).trans (Frame.set hb₂ _ o₂)⟩
  · simp [swapTiles, getTile_spec hgrid ht, getTile_spec hgrid hs.empty, hset₁, hset₂, bind,
      Except.bind]
  · simpa [Puzzle.slide, ht] using hgrid₂

theorem mem_possibleMoves {size : ℕ} {emptyPos p : ℕ × ℕ} (h : p ∈ possibleMoves size emptyPos) :
    p.1 < size ∧ p.2 < size ∧ Adjacent emptyPos p := by
  obtain ⟨d, hd, hp⟩ := List.mem_filterMap.mp h
  dsimp only at hp
  split at hp
  · rename_i hin
    rw [Option.some.injEq] at hp
    subst hp
    unfold Adjacent
    simp only [List.mem_cons, List.not_mem_nil, or_false] at hd
    rcases hd with rfl | rfl | rfl | rfl <;>
    · dsimp only at hin ⊢
      omega
  · cases hp

/-- Random moves are legal moves. -/
theorem shuffle_spec {a : Addr} {rows : List Addr} (choices : List ℕ) {h : Heap} {s : Puzzle}
    (hgrid : GridAt h a rows s.grid) (hs : Consistent s) :
    ∃ h' s', shuffle s.size a choices h s.emptyPos = .ok (h', s'.emptyPos) ∧
      GridAt h' a rows s'.grid ∧ Frame rows h h' ∧ Reaches s s' := by
  induction choices generalizing h s with
  | nil => exact ⟨h, s, rfl, hgrid, .refl _ _, .refl⟩
  | cons choice choices ih =>
    simp only [shuffle]
    cases hmove : (possibleMoves s.size s.emptyPos)[choice %
        (possibleMoves s.size s.emptyPos).length]? with
    | none => exact ih hgrid hs
    | some p =>
      obtain ⟨hrow, hcol, hadjacent⟩ := mem_possibleMoves (List.mem_of_getElem? hmove)
      obtain ⟨h₁, hswap, hgrid₁, hframe₁⟩ := swapTiles_spec hgrid hs hrow hcol
      have hlegal : LegalMove s (s.slide p) := .slide p hrow hcol hadjacent
      obtain ⟨h', s', hshuffle, hgrid', hframe, hreach⟩ := ih hgrid₁ (hlegal.consistent hs)
      refine ⟨h', s', ?_, hgrid', hframe₁.trans hframe, .head hlegal hreach⟩
      simp only [hswap, bind, Except.bind]
      exact hshuffle

theorem Reaches.same {s s' : Puzzle} (h : Reaches s s') :
    s'.size = s.size ∧ s'.solution = s.solution := by
  induction h with
  | refl => exact ⟨rfl, rfl⟩
  | tail _ hmove ih =>
    obtain ⟨p, -, -, -⟩ := hmove
    exact ih

/-- A new game is reached from the solved puzzle by legal moves. -/
theorem generate_spec (config : Config) (random : ℕ → ℕ) (h : Heap)
    (hsize : 0 < config.size.getD 4) :
    ∃ a h' s, generate config random h = .ok (a, h') ∧ h <+: h' ∧ Represents h' a s ∧
      Reaches (Puzzle.solved (config.size.getD 4)) s := by
  obtain ⟨size, hsize'⟩ : ∃ size, size = config.size.getD 4 := ⟨_, rfl⟩
  rw [← hsize'] at hsize ⊢
  have hsolved := consistent_solved hsize
  let gridRows := List.range' h.length (numbered size).length
  let h₁ : Heap := h ++ (numbered size).map Obj.row ++ [.grid gridRows]
  let grid : Addr := (h ++ (numbered size).map Obj.row).length
  have hgrid₁ : GridAt h₁ grid gridRows (numbered size) := gridAt_alloc h (numbered size)
  have hcorner : ∃ t, getCell (numbered size) (size - 1, size - 1) = some t := by
    have hlt : size - 1 < size := by omega
    exact ⟨_, by simp [getCell, numbered, hlt]; rfl⟩
  obtain ⟨t, ht⟩ := hcorner
  obtain ⟨b, _, o, hb, -, hset, hgrid₂⟩ := setTile_spec hgrid₁ ht 0
  let h₂ : Heap := h₁.set b o
  let solutionRows := List.range' h₂.length (solvedGrid size).length
  let h₃ : Heap := h₂ ++ (solvedGrid size).map Obj.row ++ [.grid solutionRows]
  let solution : Addr := (h₂ ++ (solvedGrid size).map Obj.row).length
  have hgrown₂₃ : h₂ <+: h₃ := by
    simp only [h₃, List.append_assoc]
    exact List.prefix_append _ _
  have hsolution₃ : GridAt h₃ solution solutionRows (solvedGrid size) :=
    gridAt_alloc h₂ (solvedGrid size)
  have hgrid₃ : GridAt h₃ grid gridRows (Puzzle.solved size).grid := hgrid₂.mono hgrown₂₃
  obtain ⟨h₄, s, hshuffle, hgrid₄, hframe, hreach⟩ := shuffle_spec
    ((List.range (config.shuffleMoves.getD 100).toNat).map random) hgrid₃ hsolved
  obtain ⟨hsame, hsolution⟩ := hreach.same
  -- the rows of the grid are older than all objects of the solution
  have hlt : ∀ b ∈ gridRows, b < h₂.length := by
    intro b hb
    have hmem := (List.mem_range'_1.mp hb).2
    simp only [h₂, h₁, List.length_set, List.length_append, List.length_map]
    omega
  have hout : ∀ b ∈ solution :: solutionRows, b ∉ gridRows := by
    intro b hb hmem
    have hle : h₂.length ≤ b := by
      rcases List.mem_cons.mp hb with rfl | hb
      · simp [solution]
      · exact (List.mem_range'_1.mp hb).1
    exact absurd (hlt b hmem) (Nat.not_lt_of_le hle)
  have hsolution₄ : GridAt h₄ solution solutionRows (solvedGrid size) :=
    hframe.gridAt hsolution₃ hout
  have habove : ∀ b ∈ gridRows, h.length ≤ b := fun b hb => (List.mem_range'_1.mp hb).1
  have hgrown₁ : h <+: h₁ := by
    simp only [h₁, List.append_assoc]
    exact List.prefix_append _ _
  have hgrown₄ : h <+: h₄ := hframe.prefix
    ((prefix_set hgrown₁ (habove b hb) o).trans hgrown₂₃) habove
  let h₅ : Heap := h₄ ++ [.commands commands]
  let dict : StateDict := ⟨size, grid, solution, s.emptyPos, h₄.length⟩
  have hgrown₄₅ : h₄ <+: h₅ ++ [.state dict] := by
    simp only [h₅, List.append_assoc]
    exact List.prefix_append _ _
  refine ⟨h₅.length, h₅ ++ [.state dict], s, ?_, hgrown₄.trans hgrown₄₅,
    ⟨⟨grid, gridRows, solution, solutionRows, h₄.length⟩, ?_, hgrid₄.mono hgrown₄₅, ?_, ?_, ?_,
      ?_⟩, hreach⟩
  · have hread : readGrid h₂ grid = .ok (solvedGrid size) := readGrid_spec hgrid₂
    have hrun : shuffle size grid ((List.range (config.shuffleMoves.getD 100).toNat).map random)
        h₃ (size - 1, size - 1) = .ok (h₄, s.emptyPos) := hshuffle
    simp only [h₃, h₂, solutionRows] at hrun
    simp only [generate, ← hsize', allocRows_eq, alloc]
    rw [hset]
    simp only [bind, Except.bind]
    rw [hread]
    simp only
    rw [hrun]
    rfl
  · rw [hsame]
    simp [dict, Puzzle.solved]
  · rw [hsolution]
    exact hsolution₄.mono hgrown₄₅
  · simp [h₅]
  · have hgridLt : grid < h₂.length := by simp [grid, h₂, h₁]
    have hle : h₂.length ≤ solution := by simp [solution]
    exact Nat.ne_of_lt (hgridLt.trans_le hle)
  · intro b hb hmem
    exact hout b (List.mem_cons_of_mem _ hmem) hb

/-! ## Games -/

/-- Actions lead to puzzles that are reached by legal moves. -/
theorem play_spec (reader : Reader) (actions : List String) {h : Heap} {a : Addr} {s : Puzzle}
    (hrep : Represents h a s) (hs : Consistent s) :
    ∃ a' h' s', play reader actions a h = .ok (a', h') ∧ h <+: h' ∧ Represents h' a' s' ∧
      Reaches s s' := by
  induction actions generalizing h a s with
  | nil => exact ⟨a, h, s, rfl, List.prefix_refl h, hrep, .refl⟩
  | cons action actions ih =>
    obtain ⟨ret, h₁, s₁, hstep, hgrown₁, hrep₁, hmove⟩ := step_spec reader action hrep hs
    have hreach : Reaches s s₁ := by
      rcases hmove with ⟨rfl, -⟩ | ⟨hlegal, -⟩
      · exact .refl
      · exact .single hlegal
    obtain ⟨a', h', s', hplay, hgrown, hrep', hreach'⟩ := ih hrep₁ (hreach.consistent hs)
    refine ⟨a', h', s', ?_, hgrown₁.trans hgrown, hrep', hreach.trans hreach'⟩
    simp only [play, hstep, bind, Except.bind]
    exact hplay

/-- Every puzzle that is reached by legal moves is reached by actions. -/
theorem exists_play (reader : Reader) {s s' : Puzzle} (hreach : Reaches s s') {h : Heap}
    {a : Addr} (hrep : Represents h a s) (hs : Consistent s) :
    ∃ moves, (∀ m ∈ moves, m ∈ ["up", "down", "left", "right"]) ∧
      ∃ a' h', play reader moves a h = .ok (a', h') ∧ Represents h' a' s' := by
  induction hreach using Relation.ReflTransGen.head_induction_on generalizing h a with
  | refl => exact ⟨[], by simp, a, h, rfl, hrep⟩
  | head hmove _ ih =>
    obtain ⟨action, haction, ret, h₁, hstep, -, hrep₁⟩ := exists_action reader hrep hs hmove
    obtain ⟨moves, hmoves, a', h', hplay, hrep'⟩ := ih hrep₁ (hmove.consistent hs)
    refine ⟨action :: moves, List.forall_mem_cons.mpr ⟨haction, hmoves⟩, a', h', ?_, hrep'⟩
    simp only [play, hstep, bind, Except.bind]
    exact hplay

/-- The puzzle of a state can be brought back to the solved one, by legal moves and by actions
that make them. -/
structure CanBeSolved (reader : Reader) (h : Heap) (a : Addr) (s : Puzzle) : Prop where
  reaches : Reaches s (Puzzle.solved s.size)
  play : ∃ moves, (∀ m ∈ moves, m ∈ ["up", "down", "left", "right"]) ∧
    ∃ a' h', SlidingPuzzle.play reader moves a h = .ok (a', h') ∧
      Represents h' a' (Puzzle.solved s.size)

/-- An action leaves the state as it is, and is rewarded and ends the game just for a legal move
to the solution. -/
def StepIsRight (reader : Reader) (h : Heap) (a : Addr) (s : Puzzle) (action : String) : Prop :=
  ∃ ret h' s', step reader action a h = .ok (ret, h') ∧ h <+: h' ∧ Represents h' a s ∧
    Represents h' ret.newState s' ∧ (s' = s ∨ LegalMove s s') ∧
    (ret.reward = 1 ↔ LegalMove s s' ∧ s'.grid = s'.solution) ∧
    (ret.isTerminated = true ↔ LegalMove s s' ∧ s'.grid = s'.solution) ∧
    (ret.reward = 0 ∨ ret.reward = 1)

theorem stepIsRight (reader : Reader) {h : Heap} {a : Addr} {s : Puzzle}
    (hrep : Represents h a s) (hs : Consistent s) (action : String) :
    StepIsRight reader h a s action := by
  obtain ⟨ret, h', s', hstep, hgrown, hrep', hmove⟩ := step_spec reader action hrep hs
  refine ⟨ret, h', s', hstep, hgrown, hrep.mono hgrown, hrep', ?_⟩
  rcases hmove with ⟨rfl, hreward, hterminated⟩ |
    ⟨hlegal, ⟨hsolved, hreward, hterminated⟩ | ⟨hsolved, hreward, hterminated⟩⟩
  · have hnot : ¬LegalMove s' s' := fun hlegal => hlegal.ne rfl
    simp [hreward, hterminated, hnot]
  · simp [hreward, hterminated, hlegal, hsolved]
  · simp [hreward, hterminated, hlegal, hsolved]

/-- Whatever actions are played after a new game, the tiles are a permutation, the empty space
is where it is said to be, the puzzle can be solved, and the next action does what it should. No
action changes a state that there was. -/
theorem games_stay_solvable (config : Config) (hsize : 0 < config.size.getD 4) (random : ℕ → ℕ)
    (reader : Reader) (h : Heap) (actions : List String) :
    ∃ a₀ h₀ a₁ h₁ s, generate config random h = .ok (a₀, h₀) ∧
      play reader actions a₀ h₀ = .ok (a₁, h₁) ∧ h₀ <+: h₁ ∧ Represents h₁ a₁ s ∧
      s.size = config.size.getD 4 ∧ Consistent s ∧ CanBeSolved reader h₁ a₁ s ∧
      ∀ action, StepIsRight reader h₁ a₁ s action := by
  obtain ⟨a₀, h₀, s₀, hgenerate, -, hrep₀, hreach₀⟩ := generate_spec config random h hsize
  have hsolved := consistent_solved hsize
  obtain ⟨a₁, h₁, s, hplay, hgrown, hrep, hreach₁⟩ := play_spec reader actions hrep₀
    (hreach₀.consistent hsolved)
  have hreach := hreach₀.trans hreach₁
  have hs := Reaches.consistent hreach hsolved
  have hsame : s.size = config.size.getD 4 := (Reaches.same hreach).1
  have hback : Reaches s (Puzzle.solved s.size) := hsame ▸ Reaches.symm hreach hsolved
  exact ⟨a₀, h₀, a₁, h₁, s, hgenerate, hplay, hgrown, hrep, hsame, hs,
    ⟨hback, exists_play reader hback hrep hs⟩, stepIsRight reader hrep hs⟩

/-- A reader of words between blanks and of decimal numbers. -/
def asciiReader : Reader where
  split action := (action.splitOn " ").filter fun word => word ≠ ""
  int := String.toInt?

/-- Three random moves and three actions on a grid of four tiles. -/
theorem games_stay_solvable_two :
    ∃ a₀ h₀ a₁ h₁ s, generate ⟨some 2, some 3⟩ (fun k => k + 1) [] = .ok (a₀, h₀) ∧
      play asciiReader ["up", "slide 1 1", "view"] a₀ h₀ = .ok (a₁, h₁) ∧ h₀ <+: h₁ ∧
      Represents h₁ a₁ s ∧ s.size = 2 ∧ Consistent s ∧ CanBeSolved asciiReader h₁ a₁ s ∧
      ∀ action, StepIsRight asciiReader h₁ a₁ s action :=
  games_stay_solvable ⟨some 2, some 3⟩ (by decide) (fun k => k + 1) asciiReader []
    ["up", "slide 1 1", "view"]

end NemoRL.Environments.SlidingPuzzle
