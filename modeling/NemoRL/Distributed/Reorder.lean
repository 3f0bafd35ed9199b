import NemoRL.Distributed.BatchedDataDict

/-!
# What `reorder_data` computes

`reorderData` sorts the given indices together with the positions they stand at and
gathers by the positions. For a permutation that is gathering by the inverse: it
undoes a gather by the same indices.

## Main results

* `select_reorderIndices` — the gather order is the inverse of the given indices.
* `reorderData_select` — reordering undoes a gather.
-/

namespace NemoRL.Distributed

open Lib BatchedDataDict

variable {u : List ℕ} {n : ℕ}

private theorem mem_reorderPairs {p : ℕ × ℕ}
    (hp : p ∈ (u.zip (List.range u.length)).insertionSort fun p q => p.1 ≤ q.1) :
    u[p.2]? = some p.1 := by
  rw [List.mem_insertionSort, List.range_eq_range', ← List.zipIdx_eq_zip_range'] at hp
  exact List.mem_zipIdx_iff_getElem?.mp hp

/-- The gather order of a permutation is its inverse. -/
theorem select_reorderIndices (h : u.Perm (List.range n)) :
    select u (reorderIndices u n) = List.range n := by
  obtain rfl : u.length = n := by simpa using h.length_eq
  rw [reorderIndices, select_map_snd fun p hp => mem_reorderPairs hp]
  have hperm : (((u.zip (List.range u.length)).insertionSort fun p q => p.1 ≤ q.1).map
      Prod.fst).Perm (List.range u.length) := by
    refine ((List.perm_insertionSort _ _).map _).trans ?_
    rwa [List.map_fst_zip (by simp)]
  have hsorted : (((u.zip (List.range u.length)).insertionSort fun p q => p.1 ≤ q.1).map
      Prod.fst).Pairwise (· ≤ ·) := by
    have hle : Std.Total fun p q : ℕ × ℕ => p.1 ≤ q.1 := ⟨fun p q => le_total p.1 q.1⟩
    have htrans : IsTrans (ℕ × ℕ) fun p q => p.1 ≤ q.1 := ⟨fun _ _ _ => le_trans⟩
    exact (List.pairwise_insertionSort _ _).map _ fun _ _ hab => hab
  exact hperm.eq_of_pairwise (fun _ _ _ _ => le_antisymm) hsorted List.pairwise_le_range

theorem reorderIndices_perm (h : u.length = n) : (reorderIndices u n).Perm (List.range n) := by
  subst h
  refine ((List.perm_insertionSort _ _).map _).trans ?_
  rw [List.map_snd_zip (by simp)]

variable {ρ : Type}

/-- Reordering by the indices that rows were gathered by restores the rows. -/
theorem reorderData_select {rows : List ρ} (h : u.Perm (List.range rows.length)) :
    (BatchedDataDict.reorderData { rows := select rows u } u).rows = rows := by
  have hlt : ∀ i ∈ u, i < rows.length := fun i hi => List.mem_range.mp (h.mem_iff.mp hi)
  have hlen : (select rows u).length = rows.length := by
    rw [length_select hlt, h.length_eq, List.length_range]
  simp only [reorderData]
  rw [hlen, select_select hlt, select_reorderIndices h, select_range]

end NemoRL.Distributed
