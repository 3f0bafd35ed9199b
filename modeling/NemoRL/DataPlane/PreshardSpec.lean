import NemoRL.DataPlane.Preshard
import NemoRL.Distributed.DispatchOrder

/-!
# Fan-out and fan-in of batch metadata

The ranks together hold the samples of the batch in dispatch order. `reorderData`
undoes a gather by the indices it is given, and `shardMetaForDp` gives it the inverse
of the dispatch order, so it gathers by the dispatch order once more: the rows come
back in order exactly when gathering twice is the identity.

## Main definitions

* `dispatchOrder` — the dispatch order, from the lengths and the arguments.
* `restored` — the samples after the fan-out and the fan-in.

## Main results

* `shardMetaForDp_spec` — the ranks hold the samples in dispatch order.
* `shardMetaForDp_restores_iff` — when the fan-in restores the order.
-/

namespace NemoRL.DataPlane

open Lib Distributed Data.Packing

/-- The order in which the ranks together hold the samples, for chunks of `bs` rows. -/
def dispatchOrder (seqLens : List ℕ) (rand : Shuffle) (dpWorld bs : ℕ)
    (sequencePackingArgs : Option PackingConfig) (dynamicBatchingArgs : Option DynamicConfig) :
    List ℕ :=
  let numChunks := seqLens.length / bs
  match dynamicBatchingArgs, sequencePackingArgs with
  | none, none => contiguousOrder numChunks bs dpWorld (bs / dpWorld)
  | none, some cfg =>
    packedOrder cfg.algorithm cfg.maxTokensPerMicrobatch rand
      (seqLens.map fun len => roundUp len cfg.sequenceLengthPadMultiple) numChunks bs dpWorld
  | some _, _ =>
    select (dynamicOrder seqLens id numChunks bs dpWorld)
      (contiguousOrder numChunks bs dpWorld (bs / dpWorld))

section Fanout
variable {batch : KVBatchMeta} {rand : Shuffle} {dpWorld : ℕ} {batchSize : Option ℕ}
  {packing : Option PackingConfig} {dynamic : Option DynamicConfig} {metas : List KVBatchMeta}
  {unsorted : Option (List ℕ)}

/-- The skeleton of a batch. -/
def skeleton (seqLens : List ℕ) : BatchedDataDict SkeletonRow := { rows := seqLens.zipIdx }

/-- A fan-out that returned passed every check and sharded the skeleton. -/
theorem shardMetaForDp_cases
    (h : shardMetaForDp batch rand dpWorld batchSize packing dynamic = .ok (metas, unsorted)) :
    ∃ seqLens sharded order, batch.sequenceLengths = some seqLens ∧ seqLens ≠ [] ∧
      seqLens.length = batch.sampleIds.length ∧ ¬ (packing.isSome ∧ dynamic.isSome) ∧
      (skeleton seqLens).shardByBatchSize rand dpWorld batchSize false
        (dynamic.map DynamicConfig.args) (packing.map PackingConfig.args) =
          .ok (sharded, order) ∧
      metas = sharded.map (rankMeta batch seqLens) ∧
      unsorted =
        let flatIdx := sharded.flatMap fun shard => shard.rows.map Prod.snd
        if flatIdx = List.range batch.sampleIds.length then none
        else some (unsortedIndices flatIdx batch.sampleIds.length) := by
  simp only [shardMetaForDp] at h
  split at h
  case isTrue => exact nomatch h
  case isFalse hne =>
  split at h
  case h_1 => exact nomatch h
  case h_2 seqLens hlens =>
  split at h
  case isTrue => exact nomatch h
  case isFalse hlen =>
  split at h
  case isTrue => exact nomatch h
  case isFalse hboth =>
  obtain ⟨⟨sharded, order⟩, hshard, h⟩ := bind_eq_ok.mp h
  obtain ⟨rfl, rfl⟩ := Prod.mk.inj (Except.ok.inj h)
  have hlen : seqLens.length = batch.sampleIds.length := by simpa using hlen
  refine ⟨seqLens, sharded, order, hlens, ?_, hlen, hboth, hshard, rfl, rfl⟩
  rintro rfl
  exact hne hlen.symm

/-- The shards of a batch hold its rows in dispatch order. The width of the input ids has no part
in it. -/
theorem rows_sharded {ρ : Type} {d : BatchedDataDict ρ} (lengthOf : ρ → ℕ)
    (width : DynamicConfig → ℕ) {sharded : List (BatchedDataDict ρ)} {order : Option (List ℕ)}
    (hboth : ¬ (packing.isSome ∧ dynamic.isSome))
    (h : d.shardByBatchSize rand dpWorld batchSize false
      (dynamic.map fun cfg =>
        ⟨cfg.maxTokensPerMicrobatch, cfg.sequenceLengthRound, width cfg, lengthOf⟩)
      (packing.map fun cfg =>
        ⟨cfg.maxTokensPerMicrobatch, cfg.algorithm, lengthOf, cfg.sequenceLengthPadMultiple⟩) =
          .ok (sharded, order)) :
    let flatIdx := dispatchOrder (d.rows.map lengthOf) rand dpWorld
      (batchSize.getD d.rows.length) packing dynamic
    sharded.flatMap BatchedDataDict.rows = select d.rows flatIdx ∧
      flatIdx.Perm (List.range d.rows.length) := by
  rcases dynamic with - | dyn <;> rcases packing with - | cfg
  · simpa [dispatchOrder] using rows_contiguous h rfl
  · have hrows := rows_packed h rfl
    have hpadded : d.rows.map (paddedLengthOf ⟨cfg.maxTokensPerMicrobatch, cfg.algorithm, lengthOf,
        cfg.sequenceLengthPadMultiple⟩) =
        (d.rows.map lengthOf).map fun len => roundUp len cfg.sequenceLengthPadMultiple := by
      rw [List.map_map]
      rfl
    simp only [dispatchOrder, List.length_map]
    rwa [hpadded] at hrows
  · simpa [dispatchOrder, dynamicOrder_map] using rows_dynamic h rfl
  · exact (hboth ⟨rfl, rfl⟩).elim

/-- The shards of the skeleton hold its rows in dispatch order. -/
theorem rows_skeleton {seqLens : List ℕ} {sharded : List (BatchedDataDict SkeletonRow)}
    {order : Option (List ℕ)} (hboth : ¬ (packing.isSome ∧ dynamic.isSome))
    (h : (skeleton seqLens).shardByBatchSize rand dpWorld batchSize false
      (dynamic.map DynamicConfig.args) (packing.map PackingConfig.args) = .ok (sharded, order)) :
    let flatIdx := dispatchOrder seqLens rand dpWorld (batchSize.getD seqLens.length) packing
      dynamic
    sharded.flatMap BatchedDataDict.rows = select seqLens.zipIdx flatIdx ∧
      flatIdx.Perm (List.range seqLens.length) := by
  have hlen : (skeleton seqLens).rows.length = seqLens.length := List.length_zipIdx
  have hlengths : (skeleton seqLens).rows.map Prod.fst = seqLens := List.zipIdx_map_fst 0 seqLens
  have hrows := rows_sharded Prod.fst DynamicConfig.maxTokensPerMicrobatch hboth h
  rwa [hlengths, hlen] at hrows

/-- The ranks together hold the samples in dispatch order, each sample with its length. -/
theorem shardMetaForDp_spec
    (h : shardMetaForDp batch rand dpWorld batchSize packing dynamic = .ok (metas, unsorted)) :
    ∃ seqLens, batch.sequenceLengths = some seqLens ∧
      let n := batch.sampleIds.length
      let flatIdx := dispatchOrder seqLens rand dpWorld (batchSize.getD n) packing dynamic
      seqLens.length = n ∧ flatIdx.Perm (List.range n) ∧
      metas.flatMap KVBatchMeta.sampleIds = select batch.sampleIds flatIdx ∧
      (metas.flatMap fun m => m.sequenceLengths.getD []) = select seqLens flatIdx ∧
      unsorted = if flatIdx = List.range n then none else some (unsortedIndices flatIdx n) := by
  obtain ⟨seqLens, sharded, order, hlens, -, hlen, hboth, hshard, rfl, rfl⟩ :=
    shardMetaForDp_cases h
  obtain ⟨hrows, hperm⟩ := rows_skeleton hboth hshard
  rw [hlen] at hrows hperm
  have hflat : (sharded.flatMap fun shard => shard.rows.map Prod.snd) =
      dispatchOrder seqLens rand dpWorld (batchSize.getD batch.sampleIds.length) packing
        dynamic := by
    rw [← List.map_flatMap, hrows, ← select_map, List.zipIdx_map_snd, ← List.range_eq_range', hlen,
      select_of_range (lt_of_perm_range hperm)]
  refine ⟨seqLens, hlens, hlen, hperm, ?_, ?_, by rw [hflat]⟩
  · rw [List.flatMap_map, ← hflat, List.flatMap_def, List.flatMap_def, select_flatten, List.map_map]
    rfl
  · rw [List.flatMap_map, ← hflat, List.flatMap_def, List.flatMap_def, select_flatten, List.map_map]
    rfl

/-- The samples after the fan-out and the fan-in: the samples of the ranks, one rank
after the other, reordered by the indices that the fan-out returned. -/
def restored (metas : List KVBatchMeta) (unsorted : Option (List ℕ)) : List String :=
  let aggregated : BatchedDataDict String := { rows := metas.flatMap KVBatchMeta.sampleIds }
  match unsorted with
  | none => aggregated.rows
  | some unsortedIndices => (aggregated.reorderData unsortedIndices).rows

end Fanout

/-- Reordering by the inverse of an order gathers by the order. -/
theorem reorderIndices_unsortedIndices {flatIdx : List ℕ} {n : ℕ}
    (h : flatIdx.Perm (List.range n)) :
    BatchedDataDict.reorderIndices (unsortedIndices flatIdx n) n = flatIdx := by
  have hlen : (unsortedIndices flatIdx n).length = n := by simp [unsortedIndices]
  have hinv : select (unsortedIndices flatIdx n) flatIdx = List.range n := select_setAll h 0
  have hperm : (unsortedIndices flatIdx n).Perm (List.range n) := by
    have := select_perm (l := unsortedIndices flatIdx n) (u := flatIdx) (by rwa [hlen])
    rw [hinv] at this
    exact this.symm
  have hreorder := reorderIndices_perm hlen
  refine select_injective (hperm.nodup_iff.mpr List.nodup_range) ?_ ?_
    ((select_reorderIndices hperm).trans hinv.symm)
  · rw [hlen]
    exact lt_of_perm_range hreorder
  · rw [hlen]
    exact lt_of_perm_range h

/-- The fan-in gathers the samples by the dispatch order a second time. -/
theorem restored_eq {order : List ℕ} {metas : List KVBatchMeta} {unsorted : Option (List ℕ)}
    {l : List String} (hperm : order.Perm (List.range l.length))
    (hids : metas.flatMap KVBatchMeta.sampleIds = select l order)
    (hunsorted : unsorted = if order = List.range l.length then none
      else some (unsortedIndices order l.length)) :
    restored metas unsorted = select (select l order) order := by
  have hlen : (select l order).length = l.length := (select_perm hperm).length_eq
  subst hunsorted
  split
  case isTrue hid =>
    rw [restored, hids, hid, select_range, select_range]
  case isFalse hid =>
    simp only [restored, BatchedDataDict.reorderData]
    rw [hids, hlen, reorderIndices_unsortedIndices hperm]

/-- The sample two steps along the order is the sample itself. -/
def ReturnsAfterTwo (ids : List String) (order : List ℕ) : Prop :=
  ∀ i j k : ℕ, order[i]? = some j → order[j]? = some k → ids[k]? = ids[i]?

theorem select_select_eq_iff {l : List String} {order : List ℕ}
    (hperm : order.Perm (List.range l.length)) :
    select (select l order) order = l ↔ ReturnsAfterTwo l order := by
  have hlen : order.length = l.length := length_of_perm_range hperm
  have hlt := lt_of_perm_range hperm
  have hlt' : ∀ i ∈ order, i < (select l order).length := by
    rwa [(select_perm hperm).length_eq]
  constructor
  · intro h i j k hij hjk
    have := getElem?_select hlt' i
    rw [h, hij, Option.bind_some, getElem?_select hlt j, hjk, Option.bind_some] at this
    exact this.symm
  · intro h
    apply List.ext_getElem?
    intro i
    rw [getElem?_select hlt']
    cases hij : order[i]? with
    | none =>
      have : l.length ≤ i := by
        rw [← hlen]
        exact List.getElem?_eq_none_iff.mp hij
      simp [this]
    | some j =>
      have hj : j < order.length := by
        rw [hlen]
        exact hlt j (List.mem_of_getElem? hij)
      rw [Option.bind_some, getElem?_select hlt, List.getElem?_eq_getElem hj, Option.bind_some]
      exact h i j _ hij (List.getElem?_eq_getElem hj)

section Contract
variable {batch : KVBatchMeta} {rand : Shuffle} {dpWorld : ℕ} {batchSize : Option ℕ}
  {packing : Option PackingConfig} {dynamic : Option DynamicConfig} {metas : List KVBatchMeta}
  {unsorted : Option (List ℕ)}

/-- Every rank has a length for each of its samples. -/
theorem sequenceLengths_aligned
    (h : shardMetaForDp batch rand dpWorld batchSize packing dynamic = .ok (metas, unsorted)) :
    ∀ m ∈ metas, ∃ lens, m.sequenceLengths = some lens ∧ lens.length = m.sampleIds.length := by
  obtain ⟨seqLens, sharded, order, -, -, hlen, hboth, hshard, rfl, -⟩ := shardMetaForDp_cases h
  obtain ⟨hrows, hperm⟩ := rows_skeleton hboth hshard
  intro m hm
  obtain ⟨shard, hshard, rfl⟩ := List.mem_map.mp hm
  have hlt : ∀ i ∈ shard.rows.map Prod.snd, i < seqLens.length := by
    intro i hi
    obtain ⟨row, hrow, rfl⟩ := List.mem_map.mp hi
    have hmem : row ∈ sharded.flatMap BatchedDataDict.rows :=
      List.mem_flatMap.mpr ⟨shard, hshard, hrow⟩
    rw [hrows] at hmem
    have := (select_perm (l := seqLens.zipIdx) (by simpa using hperm)).mem_iff.mp hmem
    exact (List.getElem?_eq_some_iff.mp (List.mem_zipIdx_iff_getElem?.mp this)).1
  refine ⟨_, rfl, ?_⟩
  rw [length_select hlt]
  refine (length_select ?_).symm
  rwa [← hlen]

theorem flatMap_zip {l : List KVBatchMeta}
    (h : ∀ m ∈ l, ∃ lens, m.sequenceLengths = some lens ∧ lens.length = m.sampleIds.length) :
    (l.flatMap fun m => m.sampleIds.zip (m.sequenceLengths.getD [])) =
      (l.flatMap KVBatchMeta.sampleIds).zip (l.flatMap fun m => m.sequenceLengths.getD []) := by
  induction l with
  | nil => rfl
  | cons m l ih =>
    obtain ⟨lens, hlens, hlen⟩ := h m (by simp)
    simp only [List.flatMap_cons]
    rw [ih fun m' hm' => h m' (by simp [hm']), List.zip_append (by simp [hlens, hlen])]

/-- The ranks together hold the samples of the batch, each with its length. -/
theorem shardMetaForDp_perm
    (h : shardMetaForDp batch rand dpWorld batchSize packing dynamic = .ok (metas, unsorted)) :
    ∃ seqLens, batch.sequenceLengths = some seqLens ∧
      seqLens.length = batch.sampleIds.length ∧
      (metas.flatMap fun m => m.sampleIds.zip (m.sequenceLengths.getD [])).Perm
        (batch.sampleIds.zip seqLens) := by
  have haligned := sequenceLengths_aligned h
  obtain ⟨seqLens, hlens, hlen, hperm, hids, hlengths, -⟩ := shardMetaForDp_spec h
  refine ⟨seqLens, hlens, hlen, ?_⟩
  rw [flatMap_zip haligned, hids, hlengths, select_zip hlen.symm]
  exact select_perm (by simpa [hlen] using hperm)

/-- For distinct samples only the identity leads every sample back to itself. -/
theorem returnsAfterTwo_iff {l : List String} {order : List ℕ} (hl : l.Nodup)
    (hperm : order.Perm (List.range l.length)) :
    ReturnsAfterTwo l order ↔ SelfInverse order := by
  have hlt := lt_of_perm_range hperm
  have hlen := length_of_perm_range hperm
  have hlt' : ∀ i ∈ select order order, i < l.length := by
    intro i hi
    have := select_perm (l := order) (u := order) (by rwa [hlen])
    exact hlt i (this.mem_iff.mp hi)
  rw [← select_select_eq_iff hperm, select_select hlt, select_eq_of_nodup hl hlt',
    select_self_iff hperm]

/-- The fan-out permutes the samples together with their lengths. The fan-in restores the
order exactly when two steps along the dispatch order lead from every sample back to
itself. For distinct samples this says that the dispatch order is its own inverse, which
contiguous shards are for one chunk, one rank, or as many chunks as ranks. -/
theorem shardMetaForDp_restores_iff
    (h : shardMetaForDp batch rand dpWorld batchSize packing dynamic = .ok (metas, unsorted)) :
    ∃ seqLens, batch.sequenceLengths = some seqLens ∧
      (metas.flatMap fun m => m.sampleIds.zip (m.sequenceLengths.getD [])).Perm
        (batch.sampleIds.zip seqLens) ∧
      (∀ m ∈ metas, ∃ lens, m.sequenceLengths = some lens ∧
        lens.length = m.sampleIds.length) ∧
      let n := batch.sampleIds.length
      let bs := batchSize.getD n
      let order := dispatchOrder seqLens rand dpWorld bs packing dynamic
      (restored metas unsorted = batch.sampleIds ↔ ReturnsAfterTwo batch.sampleIds order) ∧
      (batch.sampleIds.Nodup →
        (restored metas unsorted = batch.sampleIds ↔ SelfInverse order)) ∧
      (packing = none → dynamic = none →
        (SelfInverse order ↔ n / bs = 1 ∨ dpWorld = 1 ∨ n / bs = dpWorld)) := by
  have haligned := sequenceLengths_aligned h
  obtain ⟨seqLens, hlens, hlen, hperm, hids, hlengths, hunsorted⟩ := shardMetaForDp_spec h
  obtain ⟨seqLens', _, _, hlens', hne, -, -, hshard, -, -⟩ := shardMetaForDp_cases h
  obtain rfl : seqLens = seqLens' := Option.some.inj (hlens.symm.trans hlens')
  refine ⟨seqLens, hlens, ?_, haligned, ?_, fun hnodup => ?_, fun hpacking hdynamic => ?_⟩
  · obtain ⟨seqLens', hlens', -, hpairs⟩ := shardMetaForDp_perm h
    obtain rfl : seqLens = seqLens' := Option.some.inj (hlens.symm.trans hlens')
    exact hpairs
  · rw [restored_eq hperm hids hunsorted, select_select_eq_iff hperm]
  · rw [restored_eq hperm hids hunsorted, select_select_eq_iff hperm,
      returnsAfterTwo_iff hnodup hperm]
  · subst hpacking hdynamic
    obtain ⟨bs, hcheck, -⟩ := bind_eq_ok.mp hshard
    obtain ⟨hbs, hpos, hdvd, hshards, heven⟩ := BatchedDataDict.checkShardArgs_ok hcheck
    have hrows : (skeleton seqLens).rows.length = batch.sampleIds.length := by
      simp [skeleton, hlen]
    rw [hrows] at hbs hdvd
    have hn : 0 < batch.sampleIds.length := hlen ▸ List.length_pos_iff.mpr hne
    simp only [dispatchOrder, ← hbs, hlen]
    exact selfInverse_contiguousOrder (Nat.div_pos (Nat.le_of_dvd hn hdvd) hpos) hshards
      (Nat.div_pos (Nat.le_of_dvd hpos (heven rfl)) hshards) (Nat.mul_div_cancel' (heven rfl)).symm

end Contract

/-- A batch of six samples of length one. -/
def sixSamples : KVBatchMeta where
  partitionId := "train"
  taskName := none
  sampleIds := ["a", "b", "c", "d", "e", "f"]
  fields := none
  sequenceLengths := some [1, 1, 1, 1, 1, 1]
  extraInfo := {}

/-- Three chunks over two ranks come back in the order of a second dispatch. -/
theorem sixSamples_not_restored :
    (shardMetaForDp sixSamples identityShuffle 2 (some 2) none none).map
      (fun result => restored result.1 result.2) = .ok ["a", "e", "d", "c", "b", "f"] ∧
      sixSamples.sampleIds = ["a", "b", "c", "d", "e", "f"] := by
  decide

theorem sixSamples_restores_iff :
    ∃ metas unsorted,
      shardMetaForDp sixSamples identityShuffle 2 (some 2) none none = .ok (metas, unsorted) ∧
      (restored metas unsorted = sixSamples.sampleIds ↔
        ReturnsAfterTwo sixSamples.sampleIds
          (dispatchOrder [1, 1, 1, 1, 1, 1] identityShuffle 2 2 none none)) := by
  have hreturns : ∃ result,
      shardMetaForDp sixSamples identityShuffle 2 (some 2) none none = .ok result := ⟨_, rfl⟩
  obtain ⟨⟨metas, unsorted⟩, h⟩ := hreturns
  obtain ⟨seqLens, hlens, -, -, hrestored, -, -⟩ := shardMetaForDp_restores_iff h
  obtain rfl : [1, 1, 1, 1, 1, 1] = seqLens := Option.some.inj hlens
  exact ⟨metas, unsorted, h, hrestored⟩

end NemoRL.DataPlane
