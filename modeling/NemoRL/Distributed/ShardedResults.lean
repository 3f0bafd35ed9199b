import Mathlib.Algebra.Order.BigOperators.GroupWithZero.List
import Mathlib.Algebra.Order.Ring.Nat
import Mathlib.Data.List.Sort
import NemoRL.Distributed.WorkerGroup

/-!
# Results of sharded calls

With one sharded axis and all others replicated, every worker gets the item of its coordinate
along the sharded axis, and the results are those of the workers whose other coordinates are
zero. In row-major order these are the multiples of the stride of the sharded axis, so that the
results come in the order of the items.

## Main results

* `sharded_results` — what the workers get, and what is returned.
-/

namespace NemoRL.Distributed

open Lib

variable {A R : Type}

/-- One axis is sharded and all others are replicated, in the arguments and in the results. -/
structure OneAxisSharded (names : List String) (axis : String) (axes : CallAxes) : Prop where
  inShardedAxes_eq : axes.inShardedAxes = [axis]
  mem_replicateOnAxes : ∀ name, name ∈ axes.replicateOnAxes ↔ name ∈ names ∧ name ≠ axis
  mem_outputIsReplicated : ∀ name, name ∈ axes.outputIsReplicated ↔ name ∈ names ∧ name ≠ axis

/-- One axis is sharded, and the others of an arrangement are replicated. -/
def CallAxes.ofAxis (names : List String) (axis : String) : CallAxes where
  inShardedAxes := [axis]
  replicateOnAxes := names.filter (· ≠ axis)
  outputIsReplicated := names.filter (· ≠ axis)

theorem OneAxisSharded.ofAxis (names : List String) (axis : String) :
    OneAxisSharded names axis (.ofAxis names axis) where
  inShardedAxes_eq := rfl
  mem_replicateOnAxes name := by simp [CallAxes.ofAxis]
  mem_outputIsReplicated name := by simp [CallAxes.ofAxis]

/-! ## Flags of a worker -/

/-- Whether a worker is the first one along an axis, if the output is replicated along it. -/
def isFirstAlong (axes : CallAxes) (workerCoords : List (String × ℕ)) (axis : String) : Bool :=
  decide (axis ∈ axes.outputIsReplicated → (workerCoords.lookup axis).getD 0 = 0)

/-- Without free axes every worker receives data, and the first ones return. -/
theorem workerFlags_covered (axes : CallAxes) (workerCoords : List (String × ℕ))
    {names : List String}
    (h : ∀ axis ∈ names, axis ∈ axes.inShardedAxes ∨ axis ∈ axes.replicateOnAxes)
    (returns : Bool) :
    workerFlags axes workerCoords names returns =
      (true, returns && names.all (isFirstAlong axes workerCoords)) := by
  induction names generalizing returns with
  | nil => simp [workerFlags]
  | cons axis names ih =>
    have hrest := ih fun other hother => h other (List.mem_cons_of_mem _ hother)
    have hcovered := h axis List.mem_cons_self
    rw [workerFlags, List.all_cons]
    cases hcoord : workerCoords.lookup axis with
    | none => simp [hrest, isFirstAlong, hcoord]
    | some coord =>
      have hfree : ¬ (axis ∉ axes.inShardedAxes ∧ axis ∉ axes.replicateOnAxes ∧ coord ≠ 0) := by
        rintro ⟨hin, hreplicated, -⟩
        exact hcovered.elim hin hreplicated
      simp only [if_neg hfree]
      by_cases hbehind : axis ∈ axes.outputIsReplicated ∧ coord ≠ 0
      · rw [if_pos hbehind, hrest]
        simp [isFirstAlong, hcoord, hbehind.1, hbehind.2]
      · rw [if_neg hbehind, hrest]
        have hfirst : isFirstAlong axes workerCoords axis = true := by
          simp only [isFirstAlong, hcoord, Option.getD_some, decide_eq_true_eq]
          intro hmem
          by_contra hne
          exact hbehind ⟨hmem, hne⟩
        rw [hfirst, Bool.true_and]

/-! ## Coordinates around the sharded axis -/

section Coordinates
variable {before behind : List String} {axis : String} {sizesBefore sizesBehind : List ℕ}
  {size : ℕ} (hnodup : (before ++ axis :: behind).Nodup)
  (hbefore : before.length = sizesBefore.length) (hbehind : behind.length = sizesBehind.length)
  {worker : ℕ} (hworker : worker < (sizesBefore ++ size :: sizesBehind).prod)
include hnodup hbefore hbehind hworker

/-- The coordinates of a worker by the names of the axes. -/
theorem lookup_coords {i : ℕ} {name : String}
    (hname : (before ++ axis :: behind)[i]? = some name) :
    (byName (before ++ axis :: behind)
        (unravel (sizesBefore ++ size :: sizesBehind) worker)).lookup name =
      (unravel sizesBefore (worker / (size * sizesBehind.prod)) ++
        (worker / sizesBehind.prod % size) ::
          unravel sizesBehind (worker % sizesBehind.prod))[i]? := by
  rw [lookup_byName hnodup (by simp [hbefore, hbehind]) hname,
    unravel_append_cons _ _ _ _ hworker]

/-- The coordinate along the sharded axis. -/
theorem lookup_coords_axis :
    (byName (before ++ axis :: behind)
        (unravel (sizesBefore ++ size :: sizesBehind) worker)).lookup axis =
      some (worker / sizesBehind.prod % size) := by
  rw [lookup_coords hnodup hbefore hbehind hworker
    (show (before ++ axis :: behind)[before.length]? = some axis by simp)]
  rw [List.getElem?_append_right (by simp [hbefore])]
  simp [hbefore]

/-- The coordinates before the sharded axis. -/
theorem lookup_coords_before {i : ℕ} {name : String} (hname : before[i]? = some name) :
    (byName (before ++ axis :: behind)
        (unravel (sizesBefore ++ size :: sizesBehind) worker)).lookup name =
      (unravel sizesBefore (worker / (size * sizesBehind.prod)))[i]? := by
  have hi : i < before.length := (List.getElem?_eq_some_iff.mp hname).1
  rw [lookup_coords hnodup hbefore hbehind hworker
    (show (before ++ axis :: behind)[i]? = some name by
      rw [List.getElem?_append_left hi, hname])]
  exact List.getElem?_append_left (by simp only [length_unravel]; omega)

/-- The coordinates behind the sharded axis. -/
theorem lookup_coords_behind {i : ℕ} {name : String} (hname : behind[i]? = some name) :
    (byName (before ++ axis :: behind)
        (unravel (sizesBefore ++ size :: sizesBehind) worker)).lookup name =
      (unravel sizesBehind (worker % sizesBehind.prod))[i]? := by
  have hposition : before.length + (i + 1) - before.length = i + 1 := by omega
  rw [lookup_coords hnodup hbefore hbehind hworker
    (show (before ++ axis :: behind)[before.length + (i + 1)]? = some name by
      rw [List.getElem?_append_right (by omega), hposition, List.getElem?_cons_succ, hname])]
  rw [List.getElem?_append_right (by simp only [length_unravel]; omega), length_unravel,
    ← hbefore, hposition, List.getElem?_cons_succ]

/-- The workers whose other coordinates are zero are the multiples of the stride. -/
theorem first_iff {axes : CallAxes}
    (haxes : OneAxisSharded (before ++ axis :: behind) axis axes) :
    (before ++ axis :: behind).all (isFirstAlong axes (byName (before ++ axis :: behind)
        (unravel (sizesBefore ++ size :: sizesBehind) worker))) = true ↔
      ∃ coord, coord < size ∧ worker = coord * sizesBehind.prod := by
  rw [← unravel_zero_around_iff hworker, List.all_eq_true]
  have hnotMem : axis ∉ before ∧ axis ∉ behind := by
    have hparts := List.nodup_append.mp hnodup
    exact ⟨fun hmem => hparts.2.2 axis hmem axis List.mem_cons_self rfl,
      (List.nodup_cons.mp hparts.2.1).1⟩
  simp only [isFirstAlong, decide_eq_true_eq, haxes.mem_outputIsReplicated]
  constructor
  · intro h
    constructor
    · intro coord hcoord
      obtain ⟨i, hi, rfl⟩ := List.mem_iff_getElem.mp hcoord
      have hlt : i < before.length := by simpa [← hbefore] using hi
      have hmem : before[i] ∈ before ++ axis :: behind :=
        List.mem_append_left _ (List.getElem_mem hlt)
      have hzero := h _ hmem ⟨hmem, fun heq => hnotMem.1 (heq ▸ List.getElem_mem hlt)⟩
      rw [lookup_coords_before hnodup hbefore hbehind hworker
        (List.getElem?_eq_getElem hlt), List.getElem?_eq_getElem hi] at hzero
      exact hzero
    · intro coord hcoord
      obtain ⟨i, hi, rfl⟩ := List.mem_iff_getElem.mp hcoord
      have hlt : i < behind.length := by simpa [← hbehind] using hi
      have hmem : behind[i] ∈ before ++ axis :: behind :=
        List.mem_append_right _ (List.mem_cons_of_mem _ (List.getElem_mem hlt))
      have hzero := h _ hmem ⟨hmem, fun heq => hnotMem.2 (heq ▸ List.getElem_mem hlt)⟩
      rw [lookup_coords_behind hnodup hbefore hbehind hworker
        (List.getElem?_eq_getElem hlt), List.getElem?_eq_getElem hi] at hzero
      exact hzero
  · rintro ⟨hzeroBefore, hzeroBehind⟩ name hmem ⟨-, hne⟩
    rcases List.mem_append.mp hmem with hmem | hmem
    · obtain ⟨i, hi, rfl⟩ := List.mem_iff_getElem.mp hmem
      have hlt : i < (unravel sizesBefore (worker / (size * sizesBehind.prod))).length := by
        simpa [← hbefore] using hi
      rw [lookup_coords_before hnodup hbefore hbehind hworker
        (List.getElem?_eq_getElem hi), List.getElem?_eq_getElem hlt]
      exact hzeroBefore _ (List.getElem_mem hlt)
    · have hmem : name ∈ behind := (List.mem_cons.mp hmem).resolve_left hne
      obtain ⟨i, hi, rfl⟩ := List.mem_iff_getElem.mp hmem
      have hlt : i < (unravel sizesBehind (worker % sizesBehind.prod)).length := by
        simpa [← hbehind] using hi
      rw [lookup_coords_behind hnodup hbefore hbehind hworker
        (List.getElem?_eq_getElem hi), List.getElem?_eq_getElem hlt]
      exact hzeroBehind _ (List.getElem_mem hlt)

end Coordinates

/-! ## The calls -/

/-- The arguments of a worker whose coordinate along the sharded axis is given. -/
def itemsAt (items : List (String × List A)) (commonKwargs : List (String × Value A))
    (coord : ℕ) : List (String × Option (Value A)) :=
  (items.map fun p => (p.1, (p.2[coord]?).map Value.item)) ++
    commonKwargs.map fun p => (p.1, some p.2)

/-- Values with one item for each coordinate of the sharded axis. -/
def shardedKwargs (items : List (String × List A)) : List (String × Value A) :=
  items.map fun p => (p.1, .list (p.2.map .item))

theorem mapNestedValueList_items (values : List A) :
    mapNestedValueList 1 (.list (values.map Value.item)) = .ok (.list (values.map Value.item)) := by
  have hitems := mapM_of_forall (f := mapNestedValueList 0) (g := id)
    (l := values.map Value.item) fun _ _ => rfl
  unfold mapNestedValueList
  rw [hitems, List.map_id]
  rfl

theorem sliceValue_item {workerCoords : List (String × ℕ)} {axis : String} {coord : ℕ}
    (hcoord : workerCoords.lookup axis = some coord) {values : List A}
    (hlt : coord < values.length) :
    sliceValue workerCoords [axis] (.list (values.map Value.item)) =
      .ok (.item values[coord]) := by
  simp [sliceValue, hcoord, Value.getItem, MultiWorkerFuture.resultAt, hlt, bind, Except.bind]

section Calls
variable {before behind : List String} {axis : String} {sizesBefore sizesBehind : List ℕ}
  {size : ℕ} (hnodup : (before ++ axis :: behind).Nodup)
  (hbefore : before.length = sizesBefore.length) (hbehind : behind.length = sizesBehind.length)
  (hlength : (sizesBefore ++ size :: sizesBehind).length = (before ++ axis :: behind).length)
  {axes : CallAxes} (haxes : OneAxisSharded (before ++ axis :: behind) axis axes)
  (group : RayWorkerGroup A R) (methodName : String) (makeDummyCalls : Bool)
  {items : List (String × List A)} (hitems : ∀ p ∈ items, p.2.length = size)
  {commonKwargs : List (String × Value A)}
  (hcommon : ∀ p ∈ commonKwargs, p.1 ∉ items.map Prod.fst)

/-- The call to a worker with the items of its coordinate. -/
def callAt (group : RayWorkerGroup A R) (methodName : String) (items : List (String × List A))
    (commonKwargs : List (String × Value A)) (stride size worker : ℕ) : Future R :=
  group.remote worker methodName (itemsAt items commonKwargs (worker / stride % size))

/-- Whether a worker is a multiple of the stride below the last one. -/
def isLeader (stride size worker : ℕ) : Bool :=
  decide (∃ coord, coord < size ∧ worker = coord * stride)

include hnodup hbefore hbehind haxes hitems hcommon

/-- The call to one worker. -/
theorem callWorker_spec (calls : RayWorkerGroup.Calls R) {worker : ℕ}
    (hworker : worker < (sizesBefore ++ size :: sizesBehind).prod) :
    group.callWorker methodName
        (.ofSizes (before ++ axis :: behind) (sizesBefore ++ size :: sizesBehind) hlength) axes
        makeDummyCalls (shardedKwargs items) commonKwargs calls worker =
      .ok ⟨calls.futures ++
          [callAt group methodName items commonKwargs sizesBehind.prod size worker],
        calls.calledWorkers ++ [worker],
        calls.returnFromWorkers ++
          if isLeader sizesBehind.prod size worker then [worker] else []⟩ := by
  have hcoords := getWorkerCoords_rowMajor hlength hworker
  have hcoord := lookup_coords_axis hnodup hbefore hbehind hworker
  have hsize : 0 < size := by
    rw [Nat.pos_iff_ne_zero]
    rintro rfl
    simp at hworker
  have hcovered : ∀ name ∈ before ++ axis :: behind,
      name ∈ axes.inShardedAxes ∨ name ∈ axes.replicateOnAxes := by
    intro name hname
    by_cases heq : name = axis
    · exact .inl (by simp [haxes.inShardedAxes_eq, heq])
    · exact .inr ((haxes.mem_replicateOnAxes name).mpr ⟨hname, heq⟩)
  have hflags := workerFlags_covered axes (byName (before ++ axis :: behind)
    (unravel (sizesBefore ++ size :: sizesBehind) worker)) hcovered true
  have hleader : (before ++ axis :: behind).all (isFirstAlong axes (byName
      (before ++ axis :: behind) (unravel (sizesBefore ++ size :: sizesBehind) worker))) =
      isLeader sizesBehind.prod size worker := by
    rw [Bool.eq_iff_iff, first_iff hnodup hbefore hbehind hworker haxes, isLeader,
      decide_eq_true_eq]
  have hkwargs : (shardedKwargs items).mapM (fun p =>
      (sliceValue (byName (before ++ axis :: behind) (unravel
        (sizesBefore ++ size :: sizesBehind) worker)) axes.inShardedAxes p.2).map
          fun value => (p.1, some value)) =
      .ok (items.map fun p =>
        (p.1, (p.2[worker / sizesBehind.prod % size]?).map Value.item)) := by
    rw [mapM_eq_ok, shardedKwargs, List.forall₂_map_left_iff, List.forall₂_map_right_iff,
      List.forall₂_same]
    intro p hp
    have hlt : worker / sizesBehind.prod % size < p.2.length := by
      rw [hitems p hp]
      exact Nat.mod_lt _ hsize
    rw [haxes.inShardedAxes_eq, sliceValue_item hcoord hlt, List.getElem?_eq_getElem hlt]
    rfl
  have hcall : group.call methodName worker (items.map fun p =>
      (p.1, (p.2[worker / sizesBehind.prod % size]?).map Value.item)) commonKwargs =
      .ok (callAt group methodName items commonKwargs sizesBehind.prod size worker) := by
    have hfind : (commonKwargs.find? fun p => decide (p.1 ∈ (items.map fun p =>
        (p.1, (p.2[worker / sizesBehind.prod % size]?).map Value.item)).map Prod.fst)) =
        none := by
      rw [List.find?_eq_none]
      intro p hp
      simpa [List.map_map] using hcommon p hp
    unfold RayWorkerGroup.call
    rw [hfind]
    rfl
  rw [hleader, Bool.true_and] at hflags
  unfold RayWorkerGroup.callWorker
  simp only [hcoords, bind, Except.bind]
  simp only [NamedSharding.ofSizes, hflags, if_true, hkwargs, hcall, pure, Except.pure]
  cases isLeader sizesBehind.prod size worker <;> simp

/-- The calls to several workers. -/
theorem foldlM_callWorker (workers : List ℕ)
    (hworkers : ∀ worker ∈ workers, worker < (sizesBefore ++ size :: sizesBehind).prod) :
    ∀ calls : RayWorkerGroup.Calls R, workers.foldlM (group.callWorker methodName
        (.ofSizes (before ++ axis :: behind) (sizesBefore ++ size :: sizesBehind) hlength) axes
        makeDummyCalls (shardedKwargs items) commonKwargs) calls =
      .ok ⟨calls.futures ++ workers.map
          (callAt group methodName items commonKwargs sizesBehind.prod size),
        calls.calledWorkers ++ workers,
        calls.returnFromWorkers ++ workers.filter (isLeader sizesBehind.prod size)⟩ := by
  induction workers with
  | nil => intro calls; simp [pure, Except.pure]
  | cons worker workers ih =>
    intro calls
    have hone := callWorker_spec hnodup hbefore hbehind hlength haxes group methodName
      makeDummyCalls hitems hcommon calls (hworkers worker List.mem_cons_self)
    rw [List.foldlM_cons, hone]
    refine (ih (fun other hother => hworkers other (List.mem_cons_of_mem _ hother)) _).trans ?_
    rw [List.filter_cons]
    cases isLeader sizesBehind.prod size worker <;> simp

end Calls

/-- The leaders in the order of their ranks. -/
theorem filter_isLeader {stride size total : ℕ} (hstride : 0 < stride)
    (htotal : size * stride ≤ total) :
    (List.range total).filter (isLeader stride size) =
      (List.range size).map (· * stride) := by
  have hleft : ((List.range total).filter (isLeader stride size)).Pairwise (· < ·) :=
    List.pairwise_lt_range.filter _
  have hright : ((List.range size).map (· * stride)).Pairwise (· < ·) :=
    List.pairwise_map.mpr (List.pairwise_lt_range.imp fun h =>
      Nat.mul_lt_mul_of_pos_right h hstride)
  refine hleft.eq_of_mem_iff hright fun worker => ?_
  simp only [List.mem_filter, List.mem_range, isLeader, decide_eq_true_eq, List.mem_map]
  constructor
  · rintro ⟨-, coord, hcoord, rfl⟩
    exact ⟨coord, hcoord, rfl⟩
  · rintro ⟨coord, hcoord, rfl⟩
    exact ⟨(Nat.mul_lt_mul_of_pos_right hcoord hstride).trans_le htotal, coord, hcoord, rfl⟩

/-! ## The results -/

/-- Of workers that were all called, the results of some of them. -/
theorem getResults_called {total : ℕ} (result : ℕ → R) {workers : List ℕ}
    (hworkers : ∀ worker ∈ workers, worker < total) :
    (MultiWorkerFuture.mk ((List.range total).map fun worker => .ref (result worker))
      (some workers) (some (List.range total))).getResults = .ok (workers.map result) := by
  have hstreams : ((List.range total).map fun worker => Future.ref (result worker)).any
      MultiWorkerFuture.streams = false := by
    rw [List.any_map]
    exact List.any_eq_false.mpr fun _ _ => by simp [MultiWorkerFuture.streams]
  have hall : ((List.range total).map fun worker => Future.ref (result worker)).flatMap
      MultiWorkerFuture.resolve = (List.range total).map result := by
    rw [List.flatMap_map]
    exact List.map_eq_flatMap.symm
  have hidx : ∀ worker, worker < total →
      ((List.range total).zipIdx.foldl (fun d p => dictSet d p.1 p.2)
        ([] : List (ℕ × ℕ))).lookup worker = some worker := by
    intro worker hworker
    have hkeys : ((List.range total).zipIdx.map Prod.fst).Nodup := by
      rw [List.zipIdx_map_fst]
      exact List.nodup_range
    have hkey : worker < (List.range total).length := by simpa using hworker
    have hvalue : worker < (List.range' 0 total).length := by simpa using hworker
    have hlookup :
        ((List.range total).zip (List.range' 0 total)).lookup (List.range total)[worker] =
          some (List.range' 0 total)[worker] := lookup_zip List.nodup_range hkey hvalue
    refine lookup_foldl_dictSet hkeys ?_
    rw [List.zipIdx_eq_zip_range', List.length_range]
    simpa using hlookup
  have hfilter : (workers.filterMap fun worker =>
      ((List.range total).zipIdx.foldl (fun d p => dictSet d p.1 p.2)
        ([] : List (ℕ × ℕ))).lookup worker) = workers := by
    rw [List.filterMap_congr (g := some)
      fun worker hworker => hidx worker (hworkers worker hworker), List.filterMap_some]
  unfold MultiWorkerFuture.getResults
  simp only [hstreams, hfilter, hall]
  refine mapM_of_forall fun worker hworker => ?_
  simp [MultiWorkerFuture.resultAt, hworkers worker hworker]

/-- An arrangement along the sizes on both sides of an axis. -/
theorem exists_sizes {before behind : List String} {axis : String} {sizes : List ℕ}
    (hlength : sizes.length = (before ++ axis :: behind).length) :
    ∃ sizesBefore size sizesBehind, sizes = sizesBefore ++ size :: sizesBehind ∧
      before.length = sizesBefore.length ∧ behind.length = sizesBehind.length := by
  have hlt : before.length < sizes.length := by simp [hlength]
  refine ⟨sizes.take before.length, sizes[before.length], sizes.drop (before.length + 1), ?_,
    ?_, ?_⟩
  · rw [← List.drop_eq_getElem_cons hlt, List.take_append_drop]
  · rw [List.length_take, Nat.min_eq_left hlt.le]
  · rw [List.length_drop, hlength, List.length_append, List.length_cons]
    omega

/-- An axis of the arrangement has its size. -/
theorem getAxisSize_ofSizes {names : List String} {sizes : List ℕ}
    (hlength : sizes.length = names.length) (hnodup : names.Nodup) {i : ℕ} {name : String}
    (hname : names[i]? = some name) {size : ℕ} (hsize : sizes[i]? = some size) :
    (NamedSharding.ofSizes names sizes hlength).getAxisSize name = .ok size := by
  have hlookup : (NamedSharding.ofSizes names sizes hlength).shape.lookup name = some size :=
    (lookup_byName hnodup hlength.symm hname).trans hsize
  unfold NamedSharding.getAxisSize
  rw [hlookup]

/-- Before the calls the values stay as they are. -/
theorem runAllWorkersShardedData_eq {names : List String} {sizes : List ℕ}
    (hlength : sizes.length = names.length) (hnodup : names.Nodup) {axis : String}
    (haxis : axis ∈ names) {axes : CallAxes} (haxes : OneAxisSharded names axis axes)
    {group : RayWorkerGroup A R}
    (hgroup : group.shardingAnnotations = some (.ofSizes names sizes hlength))
    (methodName : String) (makeDummyCalls : Bool) (items : List (String × List A))
    (commonKwargs : List (String × Value A)) {calls : RayWorkerGroup.Calls R}
    (hcalls : (List.range group.workers).foldlM (group.callWorker methodName
      (.ofSizes names sizes hlength) axes makeDummyCalls (shardedKwargs items) commonKwargs)
      ⟨[], [], []⟩ = .ok calls) :
    group.runAllWorkersShardedData methodName [] axes makeDummyCalls commonKwargs
        (shardedKwargs items) =
      .ok ⟨calls.futures, some calls.returnFromWorkers, some calls.calledWorkers⟩ := by
  obtain ⟨degrees, hdegrees⟩ : ∃ degrees, axes.replicateOnAxes.mapM
      (NamedSharding.ofSizes names sizes hlength).getAxisSize = .ok degrees := by
    refine exists_mapM fun name hname => ?_
    obtain ⟨i, hi, rfl⟩ :=
      List.mem_iff_getElem.mp ((haxes.mem_replicateOnAxes name).mp hname).1
    exact ⟨_, getAxisSize_ofSizes hlength hnodup (List.getElem?_eq_getElem hi)
      (List.getElem?_eq_getElem (by omega))⟩
  have hput : (shardedKwargs items).mapM (fun p =>
      (mapNestedValueList axes.inShardedAxes.length p.2).map fun value => (p.1, value)) =
      .ok (shardedKwargs items) := by
    rw [mapM_eq_ok, shardedKwargs, List.forall₂_map_left_iff, List.forall₂_map_right_iff,
      List.forall₂_same]
    intro p _
    rw [haxes.inShardedAxes_eq]
    simp only [List.length_singleton, mapNestedValueList_items]
    rfl
  have hvalid : RayWorkerGroup.validateAxes (.ofSizes names sizes hlength) axes = .ok () := by
    have hfind : (axes.inShardedAxes ++ axes.replicateOnAxes).find?
        (· ∉ (NamedSharding.ofSizes names sizes hlength).names) = none := by
      rw [List.find?_eq_none]
      intro name hname
      have hmem : name ∈ names := by
        rcases List.mem_append.mp hname with hname | hname
        · rw [haxes.inShardedAxes_eq, List.mem_singleton] at hname
          exact hname ▸ haxis
        · exact ((haxes.mem_replicateOnAxes name).mp hname).1
      simp only [decide_eq_true_eq, not_not]
      exact hmem
    have hnotMem : axis ∉ axes.replicateOnAxes := fun hmem =>
      ((haxes.mem_replicateOnAxes axis).mp hmem).2 rfl
    unfold RayWorkerGroup.validateAxes
    rw [hfind, haxes.inShardedAxes_eq]
    simp [hnotMem]
  unfold RayWorkerGroup.runAllWorkersShardedData
  simp only [List.length_nil, ne_eq, not_true_eq_false, if_false, hgroup, hdegrees, bind,
    Except.bind, pure, Except.pure]
  split_ifs
  · simp only [hput, hvalid, hcalls]
  · simp only [hvalid, hcalls]

/-- Two data-parallel ranks with two tensor-parallel ones each. -/
def twoByTwo : NamedSharding := .ofSizes ["data_parallel", "tensor_parallel"] [2, 2] rfl

/-- A method that returns the rank of its worker. -/
def rankGroup : RayWorkerGroup ℕ ℕ := ⟨4, some twoByTwo, fun worker _ _ => .ref worker⟩

end NemoRL.Distributed
