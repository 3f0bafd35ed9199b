import NemoRL.Lib.Select
import Mathlib.Data.List.Range

/-!
# Strided views of storages

A matrix is a view of a storage: an entry lies at a place that grows by a stride with its row and
by another one with its column. A view with a stride of zero shows one place several times, and
two views may share a storage. A clone has a storage of its own, in which every entry has its own
place.

## Main definitions

* `View` — a matrix in a storage.
* `View.clone` — the matrix in a storage of its own.
* `View.modifySpan` — apply a function to entries of a row that follow each other, in place.

## Main results

* `View.read_clone` — a clone has the same entries.
* `View.read_modifySpan` — in a dense view only these entries change.
* `View.read_congr` — a view only depends on its storage.
-/

namespace NemoRL.Lib

variable {α : Type*}

/-! ## Modifying places of a list -/

/-- Apply a function to the entries at some places. -/
def modifyAll (f : α → α) (is : List ℕ) (l : List α) : List α :=
  is.foldl (fun l i => l.modify i f) l

theorem length_modifyAll (f : α → α) (is : List ℕ) (l : List α) :
    (modifyAll f is l).length = l.length := by
  induction is generalizing l with
  | nil => rfl
  | cons i is ih => rw [modifyAll, List.foldl_cons, ← modifyAll, ih, List.length_modify]

/-- Each of the places is modified once. -/
theorem getElem?_modifyAll (f : α → α) {is : List ℕ} (hnd : is.Nodup) (l : List α) (k : ℕ) :
    (modifyAll f is l)[k]? = if k ∈ is then l[k]?.map f else l[k]? := by
  induction is generalizing l with
  | nil => simp [modifyAll]
  | cons i is ih =>
    obtain ⟨hi, hnd⟩ := List.nodup_cons.mp hnd
    rw [modifyAll, List.foldl_cons, ← modifyAll, ih hnd]
    by_cases hik : i = k
    · subst hik
      simp [hi]
    · have hne : k ≠ i := Ne.symm hik
      simp [hik, hne]

/-! ## Views -/

/-- A matrix in a storage. -/
structure View where
  storage : ℕ
  offset : ℕ
  rows : ℕ
  cols : ℕ
  rowStride : ℕ
  colStride : ℕ
  deriving DecidableEq, Repr

namespace View
variable (v : View) {heap heap' : List (List α)}

/-- The place of an entry in the storage. -/
def index (i p : ℕ) : ℕ := v.offset + i * v.rowStride + p * v.colStride

/-- An entry of the matrix. -/
def read (heap : List (List α)) (i p : ℕ) : Option α :=
  if i < v.rows ∧ p < v.cols then heap[v.storage]?.bind fun s => s[v.index i p]? else none

/-- All entries lie in the storage. -/
structure Valid (heap : List (List α)) : Prop where
  storage_lt : v.storage < heap.length
  read_isSome : ∀ i < v.rows, ∀ p < v.cols, (v.read heap i p).isSome

/-- The entries lie row by row in a storage that has nothing else. -/
structure Dense (heap : List (List α)) : Prop where
  offset : v.offset = 0
  rowStride : v.rowStride = v.cols
  colStride : v.colStride = 1
  storage : ∃ s, heap[v.storage]? = some s ∧ s.length = v.rows * v.cols

/-- The matrix in a new storage, row by row. -/
def clone (heap : List (List α)) : View × List (List α) :=
  (⟨heap.length, 0, v.rows, v.cols, v.cols, 1⟩,
    heap ++ [select (heap[v.storage]?.getD [])
      ((List.range (v.rows * v.cols)).map fun k => v.index (k / v.cols) (k % v.cols))])

/-- Apply a function to the entries of a row from a column up to another one. -/
def modifySpan (heap : List (List α)) (i start stop : ℕ) (f : α → α) : List (List α) :=
  heap.modify v.storage
    (modifyAll f ((List.range' start (min stop v.cols - start)).map (v.index i)))

variable {v}

theorem read_eq_none {i p : ℕ} (h : ¬ (i < v.rows ∧ p < v.cols)) : v.read heap i p = none :=
  if_neg h

/-- A view only depends on its storage. -/
theorem read_congr (h : heap[v.storage]? = heap'[v.storage]?) (i p : ℕ) :
    v.read heap i p = v.read heap' i p := by
  rw [read, read, h]

/-! ## Clones -/

theorem storage_clone : (v.clone heap).1.storage = heap.length := rfl

theorem getElem?_clone {k : ℕ} (hk : k < heap.length) : (v.clone heap).2[k]? = heap[k]? :=
  List.getElem?_append_left hk

theorem indices_lt (h : v.Valid heap) :
    ∀ i ∈ (List.range (v.rows * v.cols)).map (fun k => v.index (k / v.cols) (k % v.cols)),
      i < (heap[v.storage]?.getD []).length := by
  simp only [List.forall_mem_map, List.mem_range]
  intro k hk
  have hcols : 0 < v.cols := Nat.pos_of_mul_pos_left (Nat.zero_lt_of_lt hk)
  have hrow : k / v.cols < v.rows := (Nat.div_lt_iff_lt_mul hcols).mpr hk
  have hread := h.read_isSome _ hrow _ (Nat.mod_lt k hcols)
  rw [read, if_pos ⟨hrow, Nat.mod_lt k hcols⟩, List.getElem?_eq_getElem h.storage_lt,
    Option.bind_some] at hread
  rw [List.getElem?_eq_getElem h.storage_lt, Option.getD_some]
  simpa using hread

theorem dense_clone (h : v.Valid heap) : (v.clone heap).1.Dense (v.clone heap).2 where
  offset := rfl
  rowStride := rfl
  colStride := rfl
  storage := by
    refine ⟨_, List.getElem?_concat_length, ?_⟩
    rw [length_select (indices_lt h), List.length_map, List.length_range]
    rfl

/-- A clone has the same entries. -/
theorem read_clone (h : v.Valid heap) (i p : ℕ) :
    (v.clone heap).1.read (v.clone heap).2 i p = v.read heap i p := by
  by_cases hin : i < v.rows ∧ p < v.cols
  · obtain ⟨hi, hp⟩ := hin
    have hplace : i * v.cols + p < v.rows * v.cols := by
      calc i * v.cols + p < i * v.cols + v.cols := by omega
        _ = (i + 1) * v.cols := by rw [Nat.succ_mul]
        _ ≤ v.rows * v.cols := Nat.mul_le_mul_right _ hi
    have hdiv : (i * v.cols + p) / v.cols = i := by
      rw [Nat.mul_comm, Nat.mul_add_div (by omega), Nat.div_eq_of_lt hp, Nat.add_zero]
    have hmod : (i * v.cols + p) % v.cols = p := by
      rw [Nat.mul_comm, Nat.mul_add_mod, Nat.mod_eq_of_lt hp]
    have hindex : (v.clone heap).1.index i p = i * v.cols + p := by
      simp [clone, index]
    rw [read, if_pos ⟨hi, hp⟩, storage_clone, hindex, clone, List.getElem?_concat_length,
      Option.bind_some, getElem?_select (indices_lt h), List.getElem?_map,
      List.getElem?_range hplace, Option.map_some, Option.bind_some, hdiv, hmod, read,
      if_pos ⟨hi, hp⟩, List.getElem?_eq_getElem h.storage_lt]
    rfl
  · rw [read_eq_none hin]
    exact read_eq_none hin

/-! ## Modifying a span -/

theorem getElem?_modifySpan {i start stop k : ℕ} {f : α → α} (hk : k ≠ v.storage) :
    (v.modifySpan heap i start stop f)[k]? = heap[k]? :=
  List.getElem?_modify_ne _ _ (Ne.symm hk)

theorem length_modifySpan {i start stop : ℕ} {f : α → α} :
    (v.modifySpan heap i start stop f).length = heap.length := List.length_modify _ _ _

theorem Dense.modifySpan (h : v.Dense heap) (i start stop : ℕ) (f : α → α) :
    v.Dense (v.modifySpan heap i start stop f) where
  offset := h.offset
  rowStride := h.rowStride
  colStride := h.colStride
  storage := by
    obtain ⟨s, hs, hlen⟩ := h.storage
    rw [View.modifySpan, List.getElem?_modify_eq, hs]
    exact ⟨_, rfl, (length_modifyAll _ _ s).trans hlen⟩

/-- The places of different entries differ. -/
theorem Dense.index_eq (h : v.Dense heap) (i p : ℕ) : v.index i p = i * v.cols + p := by
  rw [index, h.offset, h.rowStride, h.colStride, Nat.zero_add, Nat.mul_one]

theorem Dense.index_inj (h : v.Dense heap) {i i' p p' : ℕ} (hp : p < v.cols) (hp' : p' < v.cols) :
    v.index i p = v.index i' p' ↔ i = i' ∧ p = p' := by
  rw [h.index_eq, h.index_eq]
  constructor
  · intro heq
    have hdiv := congrArg (· / v.cols) heq
    have hmod := congrArg (· % v.cols) heq
    simp only [Nat.mul_comm _ v.cols, Nat.mul_add_div (Nat.zero_lt_of_lt hp), Nat.mul_add_mod,
      Nat.div_eq_of_lt hp, Nat.div_eq_of_lt hp', Nat.mod_eq_of_lt hp, Nat.mod_eq_of_lt hp',
      Nat.add_zero] at hdiv hmod
    exact ⟨hdiv, hmod⟩
  · rintro ⟨rfl, rfl⟩
    rfl

/-- In a dense view only the entries of the span change. -/
theorem read_modifySpan (h : v.Dense heap) (i start stop : ℕ) (f : α → α) (i' p' : ℕ) :
    v.read (v.modifySpan heap i start stop f) i' p' =
      if i' = i ∧ start ≤ p' ∧ p' < stop then (v.read heap i' p').map f else v.read heap i' p' := by
  by_cases hin : i' < v.rows ∧ p' < v.cols
  · obtain ⟨s, hs, -⟩ := h.storage
    have hnd : ((List.range' start (min stop v.cols - start)).map (v.index i)).Nodup := by
      refine List.Nodup.map_on ?_ List.nodup_range'
      intro p hp q hq heq
      rw [List.mem_range'_1] at hp hq
      exact ((h.index_inj (by omega) (by omega)).mp heq).2
    have hmem : v.index i' p' ∈ (List.range' start (min stop v.cols - start)).map (v.index i) ↔
        i' = i ∧ start ≤ p' ∧ p' < stop := by
      rw [List.mem_map]
      constructor
      · rintro ⟨p, hp, heq⟩
        rw [List.mem_range'_1] at hp
        obtain ⟨rfl, rfl⟩ := (h.index_inj (by omega) hin.2).mp heq
        omega
      · rintro ⟨rfl, hstart, hstop⟩
        exact ⟨p', List.mem_range'_1.mpr (by omega), rfl⟩
    rw [read, if_pos hin, modifySpan, List.getElem?_modify_eq, hs, Option.map_eq_map,
      Option.map_some, Option.bind_some, getElem?_modifyAll f hnd, read, if_pos hin, hs,
      Option.bind_some]
    simp only [hmem]
  · rw [read_eq_none hin, read_eq_none hin, Option.map_none, ite_self]

end View
end NemoRL.Lib
