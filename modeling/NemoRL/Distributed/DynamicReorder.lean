import NemoRL.Data.PackingTotal
import NemoRL.Distributed.DispatchOrder
import NemoRL.Distributed.Reorder

/-!
# Undoing dynamic batching

The indices that dynamic batching returns list the rows chunk by chunk, and within a chunk shard
by shard. The shards hold their rows shard by shard, and within a shard chunk by chunk. Both
orders are the same for one chunk or one shard, and then the indices undo the sharding.

## Main results

* `contiguousOrder_eq_range_iff` — when contiguous shards keep the order of the rows.
* `reorderData_dynamic_iff` — when the indices of dynamic batching undo it.
-/

namespace NemoRL.Distributed

open Lib Data.Packing BatchedDataDict

/-- The shards keep the order of the rows for one chunk or one shard. -/
theorem contiguousOrder_eq_range_iff {numChunks bs shards size : ℕ} (hshards : 0 < shards)
    (hsize : 0 < size) (hbs : bs = shards * size) :
    contiguousOrder numChunks bs shards size = List.range (numChunks * bs) ↔
      numChunks ≤ 1 ∨ shards = 1 := by
  subst hbs
  constructor
  · intro hrange
    by_contra hcon
    obtain ⟨hc, hs⟩ : 1 < numChunks ∧ shards ≠ 1 := by
      simpa [not_or] using hcon
    -- place 1 of the blocks receives block number `shards`
    have hone := getElem?_contiguousOrder (shards * size) (s := 0) (c := 1) hshards hc hsize
    have hplace : (0 * numChunks + 1) * size + 0 = size := by ring
    have hblock : 1 * (shards * size) + 0 * size + 0 = shards * size := by ring
    have hlt : size < numChunks * (shards * size) := by
      calc size < numChunks * size := by nlinarith
        _ ≤ numChunks * (shards * size) :=
          Nat.mul_le_mul_left _ (Nat.le_mul_of_pos_left size hshards)
    rw [hplace, hblock, hrange, List.getElem?_range hlt] at hone
    have hsame := Option.some.inj hone
    exact hs (Nat.eq_of_mul_eq_mul_right hsize (by rw [← hsame, Nat.one_mul]))
  · rintro (hle | rfl)
    · rcases Nat.le_one_iff_eq_zero_or_eq_one.mp hle with rfl | rfl
      · simp [contiguousOrder]
      · simp [contiguousOrder, flatMap_range']
    · simp [contiguousOrder, flatMap_range']

/-- Rows gathered by a permutation after another are put back by the indices of the other one just
if the permutation is the identity. -/
theorem reorderData_select_select_iff {ρ : Type} {rows : List ρ} {u v : List ℕ}
    (hrows : rows.Nodup) (hu : u.Perm (List.range rows.length))
    (hv : v.Perm (List.range rows.length)) :
    (reorderData { rows := select rows (select u v) } u).rows = rows ↔
      v = List.range rows.length := by
  have hulen := length_of_perm_range hu
  have hvlt : ∀ i ∈ v, i < u.length := hulen ▸ lt_of_perm_range hv
  have hperm : (select u v).Perm (List.range rows.length) := by
    rw [← hulen] at hv
    exact (select_perm hv).trans hu
  constructor
  · intro hback
    have hgather := reorderIndices_perm hulen
    have hlt := lt_of_perm_range hgather
    have hlength : (select rows (select u v)).length = rows.length := by
      rw [length_select (lt_of_perm_range hperm), length_of_perm_range hperm]
    simp only [reorderData, hlength] at hback
    rw [select_select (lt_of_perm_range hperm), select_eq_of_nodup hrows, select_select hvlt,
      ← select_reorderIndices hu] at hback
    · have hnodup : u.Nodup := hu.nodup_iff.mpr List.nodup_range
      have hsame : select v (reorderIndices u rows.length) = reorderIndices u rows.length := by
        refine select_injective hnodup (fun i hi => hvlt i ?_) (hulen ▸ hlt) hback
        obtain ⟨j, -, hj⟩ := List.mem_filterMap.mp hi
        exact List.mem_of_getElem? hj
      rw [select_eq_map_getD (by rwa [length_of_perm_range hv]) 0] at hsame
      have hfixed : ∀ i ∈ reorderIndices u rows.length, v.getD i 0 = i := by
        have hmap := hsame.trans (List.map_id _).symm
        exact fun i hi => List.map_inj_left.mp hmap i hi
      refine List.ext_getElem (by rw [length_of_perm_range hv, List.length_range]) ?_
      intro i hi hi'
      have hfix := hfixed i (hgather.mem_iff.mpr (by simpa using hi'))
      simpa [List.getD_eq_getElem?_getD, hi] using hfix
    · intro i hi
      obtain ⟨j, -, hj⟩ := List.mem_filterMap.mp hi
      exact lt_of_perm_range hperm i (List.mem_of_getElem? hj)
  · rintro rfl
    rw [select_range_of_length hulen]
    exact reorderData_select hu

/-- The indices of dynamic batching put the rows of the concatenated shards back in order when
there is one chunk or one shard, and for distinct rows only then. -/
theorem reorderData_dynamic_iff {ρ : Type} {d : BatchedDataDict ρ} {args : DynamicBatchingArgs ρ}
    {rand : Shuffle} {shards : ℕ} {batchSize : Option ℕ} {sharded : List (BatchedDataDict ρ)}
    {indices : List ℕ}
    (h : d.shardByBatchSize rand shards batchSize false (some args) none =
      .ok (sharded, some indices)) :
    (d.rows.length ≤ batchSize.getD d.rows.length ∨ shards = 1 →
      (reorderData { rows := sharded.flatMap BatchedDataDict.rows } indices).rows = d.rows) ∧
    (d.rows.Nodup →
      ((reorderData { rows := sharded.flatMap BatchedDataDict.rows } indices).rows = d.rows ↔
        d.rows.length ≤ batchSize.getD d.rows.length ∨ shards = 1)) := by
  obtain ⟨hflat, -⟩ := rows_dynamic h rfl
  obtain ⟨bs, hcheck, h⟩ := bind_eq_ok.mp h
  obtain ⟨hbs, hpos, hdvd, hshards, heven⟩ := checkShardArgs_ok hcheck
  obtain ⟨plans, -, h⟩ := bind_eq_ok.mp h
  obtain ⟨-, hindices⟩ := Prod.mk.inj (Except.ok.inj h)
  obtain rfl := Option.some.inj hindices
  rw [← hbs] at hflat ⊢
  obtain ⟨size, hsize⟩ := heven rfl
  have hsizepos : 0 < size := by
    rcases Nat.eq_zero_or_pos size with rfl | hlt
    · omega
    · exact hlt
  have hdiv : bs / shards = size := by rw [hsize, Nat.mul_div_cancel_left _ hshards]
  rw [hdiv] at hflat
  have horder : (dynamicOrder d.rows args.inputLengths (d.rows.length / bs) bs shards).Perm
      (List.range (d.rows.length / bs * bs)) := dynamicOrder_perm d.rows args.inputLengths hshards
  have hcontig := contiguousOrder_perm (d.rows.length / bs) hsize
  rw [Nat.div_mul_cancel hdvd] at horder hcontig
  have hcond : d.rows.length / bs ≤ 1 ∨ shards = 1 ↔ d.rows.length ≤ bs ∨ shards = 1 := by
    obtain ⟨n, hn⟩ := hdvd
    rw [hn, Nat.mul_div_cancel_left _ hpos]
    refine or_congr_left ⟨fun hle => ?_, fun hle => ?_⟩
    · exact (Nat.mul_le_mul_left bs hle).trans (Nat.mul_one bs).le
    · exact Nat.le_of_mul_le_mul_left (hle.trans (Nat.mul_one bs).ge) hpos
  have hidentity : contiguousOrder (d.rows.length / bs) bs shards size =
      List.range (d.rows.length / bs * bs) ↔ d.rows.length / bs ≤ 1 ∨ shards = 1 :=
    contiguousOrder_eq_range_iff hshards hsizepos hsize
  rw [Nat.div_mul_cancel hdvd, hcond] at hidentity
  rw [hflat, ← hidentity]
  refine ⟨fun hrange => ?_, fun hrows => reorderData_select_select_iff hrows horder hcontig⟩
  rw [hrange, select_range_of_length (length_of_perm_range horder)]
  exact reorderData_select horder

/-- Settings that put each row into a micro-batch of its own length. -/
def unitArgs : DynamicBatchingArgs ℕ := ⟨4, 1, 4, id⟩

/-- One chunk of four rows on two shards. -/
theorem reorderData_one_chunk :
    (reorderData { rows := [1, 3, 2, 4] } [0, 2, 1, 3]).rows = [1, 2, 3, 4] :=
  (@reorderData_dynamic_iff ℕ { rows := [1, 2, 3, 4] } unitArgs Shuffle.inOrder 2 none _ _ rfl).1
    (Or.inl (by decide))

/-- Two chunks of two rows on two shards: the second and the third row change places. -/
theorem reorderData_two_chunks :
    (∃ first second, shardByBatchSize { rows := [1, 2, 3, 4] } Shuffle.inOrder 2 (some 2) false
        (some unitArgs) none = .ok ([first, second], some [0, 1, 2, 3]) ∧
        first.rows ++ second.rows = [1, 3, 2, 4]) ∧
      (reorderData { rows := [1, 3, 2, 4] } [0, 1, 2, 3]).rows = [1, 3, 2, 4] :=
  ⟨⟨_, _, rfl, rfl⟩, rfl⟩

end NemoRL.Distributed
