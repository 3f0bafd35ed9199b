import Mathlib.Data.List.Nodup
import NemoRL.Error
import NemoRL.Lib.Dict
import NemoRL.Lib.MixedRadix
import NemoRL.Lib.Tensor

/-!
# Named sharding

The workers are arranged in an array whose axes have names. A worker is found in the array by
its rank, and its coordinates are read by the names of the axes.

## Main definitions

* `NamedSharding.init` — an arrangement, after its checks.
* `NamedSharding.getWorkerCoords` — the coordinates of a worker.
* `rowMajor` — ranks in row-major order.

## Main results

* `getWorkerCoords_rowMajor` — the coordinates of a worker of a row-major arrangement.
-/

namespace NemoRL.Distributed

open Lib

/-- An arrangement of ranks, all of them different, with a name for each axis. -/
structure NamedSharding where
  layout : Tensor ℤ
  names : List String
  ndim_eq : layout.shape.length = names.length
  nodup : layout.data.Nodup

/-- The ranks that occur several times. -/
def duplicateRanks (ranks : List ℤ) : List ℤ :=
  (ranks.mergeSort.dedup).filter fun rank => decide (1 < ranks.count rank)

/-- A dictionary whose keys are the names. Of axes with one name the last one counts. -/
def byName (names : List String) (values : List ℕ) : List (String × ℕ) :=
  (names.zip values).foldl (fun d p => dictSet d p.1 p.2) []

namespace NamedSharding

def init (layout : Tensor ℤ) (names : List String) : Except PyError NamedSharding :=
  if hndim : layout.shape.length = names.length then
    if hnodup : layout.data.Nodup then .ok ⟨layout, names, hndim, hnodup⟩
    else .error ⟨.valueError,
      s!"Duplicate ranks found in layout: {duplicateRanks layout.data}"⟩
  else .error ⟨.valueError, s!"Number of dimensions in layout ({layout.shape.length}) must " ++
    s!"match the number of names ({names.length})."⟩

variable (self : NamedSharding)

/-- The size of each axis. -/
def shape : List (String × ℕ) := byName self.names self.layout.shape

/-- The coordinates of a worker. -/
def getWorkerCoords (workerId : ℤ) : Except PyError (List (String × ℕ)) :=
  match self.layout.data.findIdx? (· = workerId) with
  | none => .error ⟨.valueError, s!"Worker ID {workerId} not found in sharding layout."⟩
  | some pos => .ok (byName self.names (unravel self.layout.shape pos))

/-- The size of an axis. -/
def getAxisSize (name : String) : Except PyError ℕ :=
  match self.shape.lookup name with
  | none => .error ⟨.keyError, s!"'{name}'"⟩
  | some size => .ok size

end NamedSharding

/-! ## Row-major arrangements -/

/-- All ranks in row-major order. -/
def rowMajor (sizes : List ℕ) : Tensor ℤ :=
  ⟨sizes, (List.range sizes.prod).map Int.ofNat, by simp⟩

theorem nodup_rowMajor (sizes : List ℕ) : (rowMajor sizes).data.Nodup :=
  List.Nodup.map (fun _ _ h => Int.ofNat.inj h) List.nodup_range

/-- The row-major arrangement along named axes. -/
def NamedSharding.ofSizes (names : List String) (sizes : List ℕ)
    (hlength : sizes.length = names.length) : NamedSharding :=
  ⟨rowMajor sizes, names, hlength, nodup_rowMajor sizes⟩

theorem NamedSharding.init_rowMajor {names : List String} {sizes : List ℕ}
    (hlength : sizes.length = names.length) :
    NamedSharding.init (rowMajor sizes) names = .ok (.ofSizes names sizes hlength) := by
  unfold NamedSharding.init
  rw [dif_pos (show (rowMajor sizes).shape.length = names.length from hlength),
    dif_pos (nodup_rowMajor sizes)]
  rfl

theorem getWorkerCoords_rowMajor {names : List String} {sizes : List ℕ}
    (hlength : sizes.length = names.length) {worker : ℕ} (hworker : worker < sizes.prod) :
    (NamedSharding.ofSizes names sizes hlength).getWorkerCoords worker =
      .ok (byName names (unravel sizes worker)) := by
  have hfind : (rowMajor sizes).data.findIdx? (· = (worker : ℤ)) = some worker := by
    rw [List.findIdx?_eq_some_iff_getElem]
    refine ⟨by simpa [rowMajor] using hworker, by simp [rowMajor], fun other hother => ?_⟩
    simp only [rowMajor, List.getElem_map, List.getElem_range, decide_eq_true_eq]
    intro heq
    have hnat : other = worker := Int.ofNat.inj heq
    omega
  unfold NamedSharding.getWorkerCoords
  simp only [NamedSharding.ofSizes, hfind]
  rfl

/-! ## Reading by name -/

/-- Of different names each has its value. -/
theorem lookup_byName {names : List String} {values : List ℕ} (hnodup : names.Nodup)
    (hlength : names.length = values.length) {i : ℕ} {name : String}
    (hname : names[i]? = some name) : (byName names values).lookup name = values[i]? := by
  have hkeys : (names.zip values).map Prod.fst = names :=
    List.map_fst_zip (le_of_eq hlength)
  obtain ⟨hi, rfl⟩ := List.getElem?_eq_some_iff.mp hname
  have hvalue : values[i]? = some (values[i]) := List.getElem?_eq_getElem (by omega)
  rw [hvalue]
  exact lookup_foldl_dictSet (hkeys.symm ▸ hnodup) (lookup_zip hnodup hi (by omega))

end NemoRL.Distributed
