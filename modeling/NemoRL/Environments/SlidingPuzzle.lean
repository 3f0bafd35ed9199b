import NemoRL.Error
import Mathlib.Data.Int.Notation
import Mathlib.Data.Nat.Notation

/-!
# The sliding puzzle

A puzzle is a grid of tiles with an empty space, and a step slides a tile that is next to the
empty space into it. A game is made from the solved grid by random moves. The state of a game is
a dictionary whose grids are lists of rows, and a step returns a state of its own that it makes
by a deep copy of the one it is given.

Lists and dictionaries are objects in a heap, so that it can be said what a step writes to. How
an action is split into words and how a word is read as a number are parameters.

## Main definitions

* `SlidingPuzzle.generate` — a new game.
* `SlidingPuzzle.deepcopy` — a copy of a state.
* `SlidingPuzzle.step` — one action.
-/

namespace NemoRL.Environments.SlidingPuzzle

/-! ## Objects -/

/-- Where an object is in the heap. -/
abbrev Addr := ℕ

/-- The dictionary of a game. -/
structure StateDict where
  size : ℕ
  grid : Addr
  solution : Addr
  emptyPos : ℕ × ℕ
  commands : Addr
  deriving DecidableEq, Repr

/-- A list of tiles, a list of rows, or a dictionary. -/
inductive Obj
  | row (tiles : List ℕ)
  | grid (rows : List Addr)
  | commands (entries : List (String × String))
  | state (dict : StateDict)
  deriving DecidableEq, Repr

/-- The objects that were made, the oldest one first. -/
abbrev Heap := List Obj

/-- Make an object. -/
def alloc (h : Heap) (o : Obj) : Addr × Heap := (h.length, h ++ [o])

/-- What reading an object of another kind raises. -/
def notSubscriptable : PyError := ⟨.typeError, "object is not subscriptable"⟩

/-- The tiles of a row. -/
def getRow (h : Heap) (a : Addr) : Except PyError (List ℕ) :=
  match h[a]? with
  | some (.row tiles) => .ok tiles
  | _ => .error notSubscriptable

/-- The rows of a grid. -/
def getGrid (h : Heap) (a : Addr) : Except PyError (List Addr) :=
  match h[a]? with
  | some (.grid rows) => .ok rows
  | _ => .error notSubscriptable

/-- The dictionary of a game. -/
def getState (h : Heap) (a : Addr) : Except PyError StateDict :=
  match h[a]? with
  | some (.state dict) => .ok dict
  | _ => .error notSubscriptable

/-- The item of a list. -/
def getItem {α : Type} (xs : List α) (i : ℕ) : Except PyError α :=
  match xs[i]? with
  | some x => .ok x
  | none => .error ⟨.indexError, "list index out of range"⟩

/-- A tile of a grid: `grid[r][c]`. -/
def getTile (h : Heap) (grid : Addr) (p : ℕ × ℕ) : Except PyError ℕ := do
  let rows ← getGrid h grid
  let row ← getItem rows p.1
  let tiles ← getRow h row
  getItem tiles p.2

/-- Write a tile of a grid: `grid[r][c] = tile`. -/
def setTile (h : Heap) (grid : Addr) (p : ℕ × ℕ) (tile : ℕ) : Except PyError Heap := do
  let rows ← getGrid h grid
  let row ← getItem rows p.1
  let tiles ← getRow h row
  if p.2 < tiles.length then return h.set row (.row (tiles.set p.2 tile))
  else throw ⟨.indexError, "list assignment index out of range"⟩

/-- Write the position of the empty space. -/
def setEmptyPos (h : Heap) (a : Addr) (p : ℕ × ℕ) : Except PyError Heap := do
  let dict ← getState h a
  return h.set a (.state { dict with emptyPos := p })

/-- The tiles of a grid, by which grids are compared. -/
def readGrid (h : Heap) (grid : Addr) : Except PyError (List (List ℕ)) := do
  let rows ← getGrid h grid
  rows.mapM (getRow h)

/-! ## Copies -/

/-- A copy that is being made: what was copied to where, and the heap. -/
structure Copy where
  memo : List (Addr × Addr)
  heap : Heap

/-- Copy an object that refers to no other object. -/
def copyLeaf (a : Addr) (s : Copy) : Except PyError (Addr × Copy) :=
  match s.memo.lookup a with
  | some b => .ok (b, s)
  | none =>
    match s.heap[a]? with
    | none => .error notSubscriptable
    | some o =>
      let (b, heap) := alloc s.heap o
      .ok (b, ⟨(a, b) :: s.memo, heap⟩)

/-- Copy the rows of a grid. -/
def copyRows : List Addr → Copy → Except PyError (List Addr × Copy)
  | [], s => .ok ([], s)
  | row :: rows, s => do
    let (row, s) ← copyLeaf row s
    let (rows, s) ← copyRows rows s
    return (row :: rows, s)

/-- Copy a grid with its rows. -/
def copyGrid (a : Addr) (s : Copy) : Except PyError (Addr × Copy) :=
  match s.memo.lookup a with
  | some b => .ok (b, s)
  | none => do
    let rows ← getGrid s.heap a
    let (rows, s) ← copyRows rows s
    let (b, heap) := alloc s.heap (.grid rows)
    return (b, ⟨(a, b) :: s.memo, heap⟩)

/-- Copy a state with all its objects. -/
def deepcopy (a : Addr) (h : Heap) : Except PyError (Addr × Heap) := do
  let dict ← getState h a
  let (grid, s) ← copyGrid dict.grid ⟨[], h⟩
  let (solution, s) ← copyGrid dict.solution s
  let (commands, s) ← copyLeaf dict.commands s
  return alloc s.heap (.state
    { dict with grid := grid, solution := solution, commands := commands })

/-! ## A new game -/

/-- The configuration of a game. -/
structure Config where
  size : Option ℕ
  shuffleMoves : Option ℤ
  deriving DecidableEq, Repr

/-- The positions next to the empty space: right, down, left, up. -/
def possibleMoves (size : ℕ) (emptyPos : ℕ × ℕ) : List (ℕ × ℕ) :=
  [((0 : ℤ), (1 : ℤ)), (1, 0), (0, -1), (-1, 0)].filterMap fun d =>
    let nr : ℤ := emptyPos.1 + d.1
    let nc : ℤ := emptyPos.2 + d.2
    if 0 ≤ nr ∧ nr < size ∧ 0 ≤ nc ∧ nc < size then some (nr.toNat, nc.toNat) else none

/-- Exchange two tiles of a grid. -/
def swapTiles (h : Heap) (grid : Addr) (p q : ℕ × ℕ) : Except PyError Heap := do
  let first ← getTile h grid q
  let second ← getTile h grid p
  let h ← setTile h grid p first
  setTile h grid q second

/-- Move the empty space at random, once for each number. -/
def shuffle (size : ℕ) (grid : Addr) : List ℕ → Heap → ℕ × ℕ → Except PyError (Heap × (ℕ × ℕ))
  | [], h, emptyPos => .ok (h, emptyPos)
  | choice :: choices, h, emptyPos =>
    let moves := possibleMoves size emptyPos
    match moves[choice % moves.length]? with
    | none => shuffle size grid choices h emptyPos
    | some newPos => do
      let h ← swapTiles h grid emptyPos newPos
      shuffle size grid choices h newPos

/-- Make a list for each list of tiles. -/
def allocRows : List (List ℕ) → Heap → List Addr × Heap
  | [], h => ([], h)
  | tiles :: rest, h =>
    let (row, h) := alloc h (.row tiles)
    let (rows, h) := allocRows rest h
    (row :: rows, h)

/-- The commands of a game. -/
def commands : List (String × String) :=
  [("up", "Slide tile below empty space up"),
    ("down", "Slide tile above empty space down"),
    ("left", "Slide tile to the right of empty space left"),
    ("right", "Slide tile to the left of empty space right"),
    ("view", "View the current state of the board")]

/-- The numbers from 1 on in rows. -/
def numbered (size : ℕ) : List (List ℕ) :=
  (List.range size).map fun r => (List.range size).map fun c => r * size + c + 1

/-- Make a new game. The random numbers choose the moves. -/
def generate (config : Config) (random : ℕ → ℕ) (h : Heap) : Except PyError (Addr × Heap) := do
  let size := config.size.getD 4
  let shuffleMoves := (config.shuffleMoves.getD 100).toNat
  let (rows, h) := allocRows (numbered size) h
  let (grid, h) := alloc h (.grid rows)
  -- the bottom-right corner is the empty space
  let h ← setTile h grid (size - 1, size - 1) 0
  let solved ← readGrid h grid
  let (rows, h) := allocRows solved h
  let (solution, h) := alloc h (.grid rows)
  let (h, emptyPos) ← shuffle size grid ((List.range shuffleMoves).map random) h
    (size - 1, size - 1)
  let (commands, h) := alloc h (.commands commands)
  return alloc h (.state ⟨size, grid, solution, emptyPos, commands⟩)

/-! ## A step -/

/-- How an action is read: `str.split` and `int`. -/
structure Reader where
  split : String → List String
  int : String → Option ℤ

/-- What a step returns. -/
structure StepReturn where
  response : String
  reward : ℕ
  isTerminated : Bool
  newState : Addr
  deriving DecidableEq, Repr

/-- Slide the tile at a position into the empty space of a new state. -/
def slideTile (gameState : StateDict) (newState : Addr) (p : ℕ × ℕ) (h : Heap) :
    Except PyError (ℕ × Heap) := do
  let tile ← getTile h gameState.grid p
  let new ← getState h newState
  let h ← setTile h new.grid gameState.emptyPos tile
  let h ← setTile h new.grid p 0
  let h ← setEmptyPos h newState p
  let tile ← getTile h gameState.grid p
  return (tile, h)

/-- What a step returns after a move. -/
def afterMove (response : String) (newState : Addr) (h : Heap) :
    Except PyError (StepReturn × Heap) := do
  let new ← getState h newState
  let grid ← readGrid h new.grid
  let solution ← readGrid h new.solution
  if grid = solution then
    return (⟨"Congratulations! You've solved the puzzle!", 1, true, newState⟩, h)
  else return (⟨response, 0, false, newState⟩, h)

/-- Whether a position is in the grid. -/
def inGrid (size : ℕ) (r c : ℤ) : Bool := 0 ≤ r ∧ r < size ∧ 0 ≤ c ∧ c < size

/-- The position from which an action slides a tile. -/
def direction (emptyPos : ℕ × ℕ) : String → Option (ℤ × ℤ)
  | "up" => some (emptyPos.1 + 1, emptyPos.2)
  | "down" => some (emptyPos.1 - 1, emptyPos.2)
  | "left" => some (emptyPos.1, emptyPos.2 + 1)
  | "right" => some (emptyPos.1, emptyPos.2 - 1)
  | _ => none

/-- The row and the column of an action that names a tile, counted from 0. -/
def slidePosition (reader : Reader) (action : String) : Option (ℤ × ℤ) :=
  match reader.split action with
  | [_, r, c] => do
    let r ← reader.int r
    let c ← reader.int c
    return (r - 1, c - 1)
  | _ => none

/-- One action. -/
def step (reader : Reader) (action : String) (a : Addr) (h : Heap) :
    Except PyError (StepReturn × Heap) := do
  let gameState ← getState h a
  let size := gameState.size
  let (newState, h) ← deepcopy a h
  if "slide ".toList.isPrefixOf action.toList then
    match slidePosition reader action with
    | none => return (⟨"Invalid input format. Use: slide row col", 0, false, newState⟩, h)
    | some (r, c) =>
      if ¬inGrid size r c then
        return (⟨s!"Invalid position. Row/column must be between 1 and {size}.", 0, false,
          newState⟩, h)
      else if (r - gameState.emptyPos.1).natAbs + (c - gameState.emptyPos.2).natAbs ≠ 1 then
        return (⟨"Tile must be adjacent to the empty space.", 0, false, newState⟩, h)
      else do
        let (tile, h) ← slideTile gameState newState (r.toNat, c.toNat) h
        afterMove s!"Slid tile {tile} into the empty space." newState h
  else
    match direction gameState.emptyPos action with
    | none =>
      return (⟨"Unknown command. Type 'help' to see available commands.", 0, false, newState⟩, h)
    | some (r, c) =>
      if inGrid size r c then do
        let (tile, h) ← slideTile gameState newState (r.toNat, c.toNat) h
        afterMove s!"Slid tile {tile} {action}." newState h
      else return (⟨s!"Cannot slide {action}.", 0, false, newState⟩, h)

/-- Some actions, each on the state that the one before it returned. -/
def play (reader : Reader) : List String → Addr → Heap → Except PyError (Addr × Heap)
  | [], a, h => .ok (a, h)
  | action :: actions, a, h => do
    let (ret, h) ← step reader action a h
    play reader actions ret.newState h

end NemoRL.Environments.SlidingPuzzle
