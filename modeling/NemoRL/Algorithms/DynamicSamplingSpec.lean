import NemoRL.Algorithms.DynamicSampling

/-!
# What dynamic sampling collects

Both trainers collect the rows with a deviation in the order in which they are generated, and
train on the first ones when there are enough. The trainer on the data plane discards the ids
of the others.

## Main definitions

* `keptRows`, `keptIds` — the rows of a batch with a deviation, and their ids.
* `SyncLoop.Holds`, `LegacyLoop.Holds` — what the two loops have collected.

## Main results

* `syncIteration_more`, `syncIteration_raise`, `syncIteration_complete` — an iteration of the
  loop on the data plane, by the number of rows that are collected.
* `legacyIteration_more`, `legacyIteration_raise`, `legacyIteration_complete` — an iteration of
  the legacy loop.
-/

namespace NemoRL.Algorithms

open Lib

variable {P K ρ : Type}

/-! ## What is collected -/

/-- The ids and the rows that are collected. -/
inductive Pending.Holds (pending : Pending P K ρ) : List String → List (KeptRow P K ρ) → Prop
  | empty (hmeta : pending.pendingMeta = none) (hcarry : pending.pendingCarry = none) :
      pending.Holds [] []
  | collected (pendingMeta : KVBatchMeta K) (rows : List (KeptRow P K ρ))
      (hmeta : pending.pendingMeta = some pendingMeta) (hcarry : pending.pendingCarry = some rows)
      (hpartition : pendingMeta.partitionId = tqPartitionId)
      (hlength : pendingMeta.sampleIds.length = rows.length) (hne : rows ≠ []) :
      pending.Holds pendingMeta.sampleIds rows

/-- What a loop on the data plane has collected. -/
structure SyncLoop.Holds (loop : SyncLoop P K ρ) (ids : List String)
    (rows : List (KeptRow P K ρ)) (unfilteredRewards : List K) (numGenBatches : ℕ) : Prop where
  pending : loop.pending.Holds ids rows
  unfiltered_eq : loop.pending.pendingUnfilteredRewards.flatten = unfilteredRewards
  numGenBatches_eq : loop.dynamicSamplingNumGenBatches = numGenBatches

/-- The calls that discard some ids. -/
structure Discards (calls : List (List String × String)) (ids : List String) : Prop where
  flatMap_eq : calls.flatMap Prod.fst = ids
  partition_eq : ∀ call ∈ calls, call.2 = tqPartitionId

theorem Pending.Holds.of_some {pending : Pending P K ρ} {pendingMeta : KVBatchMeta K}
    {ids : List String} {rows : List (KeptRow P K ρ)}
    (hmeta : pending.pendingMeta = some pendingMeta) (hcarry : pending.pendingCarry = some rows)
    (hpartition : pendingMeta.partitionId = tqPartitionId) (hids : pendingMeta.sampleIds = ids)
    (hlength : ids.length = rows.length) (hne : rows ≠ []) : pending.Holds ids rows := by
  subst hids
  exact .collected pendingMeta rows hmeta hcarry hpartition hlength hne

theorem Pending.Holds.length_eq {pending : Pending P K ρ} {ids : List String}
    {rows : List (KeptRow P K ρ)} (h : pending.Holds ids rows) : ids.length = rows.length := by
  cases h with
  | empty _ _ => rfl
  | collected _ _ _ _ _ hlength _ => exact hlength

theorem Pending.Holds.numPending {pending : Pending P K ρ} {ids : List String}
    {rows : List (KeptRow P K ρ)} (h : pending.Holds ids rows) :
    (pending.pendingMeta.map (·.sampleIds.length)).getD 0 = rows.length := by
  cases h with
  | empty hmeta _ => simp [hmeta]
  | collected _ _ hmeta _ _ hlength _ => simp [hmeta, hlength]

/-- What is held does not depend on the unfiltered rewards. -/
theorem Pending.Holds.withUnfiltered {pending : Pending P K ρ} {ids : List String}
    {rows : List (KeptRow P K ρ)} (h : pending.Holds ids rows) (unfiltered : List (List K)) :
    { pending with pendingUnfilteredRewards := unfiltered }.Holds ids rows := by
  cases h with
  | empty hmeta hcarry => exact .empty hmeta hcarry
  | collected m _ hmeta hcarry hpartition hlength hne =>
    exact .collected m _ hmeta hcarry hpartition hlength hne

/-! ## Selecting the rows -/

/-- Elements beside those that satisfy a test, by their positions. -/
theorem select_indicesWhere_zip {α β : Type} {l : List α} {l' : List β} (q : β → Bool)
    (hlength : l.length = l'.length) :
    select l (indicesWhere q l') = ((l.zip l').filter fun p => q p.2).map Prod.fst := by
  have hsnd : indicesWhere q l' = indicesWhere (fun p => q p.2) (l.zip l') := by
    rw [← indicesWhere_map q Prod.snd, List.map_snd_zip hlength.ge]
  have hfst : l = (l.zip l').map Prod.fst := (List.map_fst_zip hlength.le).symm
  rw [hsnd]
  conv_lhs => rw [hfst]
  rw [select_map, ← hfst, select_indicesWhere]

/-- The tags of some rows. -/
def tagsOf (rows : List (SampleRow P K ρ)) : List (Tag K) :=
  rows.map fun row => ⟨row.std, row.baseline⟩

theorem stampTags_rollout (rollout : Rollout (SampleRow P K ρ)) :
    (rollout.batchMeta : KVBatchMeta K).stampTags (rollout.rows.map (·.std))
        (rollout.rows.map (·.baseline)) =
      .ok { (rollout.batchMeta : KVBatchMeta K) with tags := some (tagsOf rollout.rows) } := by
  have hlength := rollout.length_sampleIds
  unfold KVBatchMeta.stampTags Rollout.batchMeta tagsOf
  simp [hlength, List.zipWith_map, List.zipWith_self]

variable [Field K] [DecidableEq K]


/-- The rows of a batch with a deviation. -/
def keptRows (rows : List (SampleRow P K ρ)) : List (KeptRow P K ρ) :=
  (rows.filter fun row => row.std ≠ 0).map SampleRow.keep

/-- The ids of the rows with a deviation. -/
def keptIds (rollout : Rollout (SampleRow P K ρ)) : List String :=
  ((rollout.sampleIds.zip rollout.rows).filter fun p => p.2.std ≠ 0).map Prod.fst

/-- The ids of the rows without a deviation. -/
def droppedIds (rollout : Rollout (SampleRow P K ρ)) : List String :=
  ((rollout.sampleIds.zip rollout.rows).filter fun p => p.2.std = 0).map Prod.fst

theorem dropKeys_eq (rollout : Rollout (SampleRow P K ρ)) :
    ((rollout.sampleIds.zip (tagsOf rollout.rows)).filter fun p => p.2.std = 0).map Prod.fst =
      droppedIds rollout := by
  rw [tagsOf, List.zip_map_right, List.filter_map, List.map_map]
  rfl

theorem length_keptIds (rollout : Rollout (SampleRow P K ρ)) :
    (keptIds rollout).length = (keptRows rollout.rows).length := by
  have hrows : rollout.rows = (rollout.sampleIds.zip rollout.rows).map Prod.snd :=
    (List.map_snd_zip rollout.length_sampleIds.ge).symm
  rw [keptIds, keptRows, List.length_map, List.length_map]
  conv_rhs => rw [hrows]
  rw [List.filter_map, List.length_map]
  rfl

/-- The rows with a deviation are appended to those that are collected. -/
theorem addSurvivors {pending : Pending P K ρ} {ids : List String} {rows : List (KeptRow P K ρ)}
    (h : pending.Holds ids rows) (rollout : Rollout (SampleRow P K ρ)) :
    let stamped := { (rollout.batchMeta : KVBatchMeta K) with tags := some (tagsOf rollout.rows) }
    let keepIdx := indicesWhere (fun t => decide (t.std ≠ 0)) (tagsOf rollout.rows)
    ∃ pending', (if keepIdx = [] then Except.ok pending
        else mergeSurvivors pending (stamped.subset keepIdx)
          ((select rollout.rows keepIdx).map SampleRow.keep)) = .ok pending' ∧
      pending'.Holds (ids ++ keptIds rollout) (rows ++ keptRows rollout.rows) ∧
      pending'.pendingUnfilteredRewards = pending.pendingUnfilteredRewards := by
  intro stamped keepIdx
  have hidx : keepIdx = indicesWhere (fun row => decide (row.std ≠ 0)) rollout.rows :=
    indicesWhere_map ..
  have hcarry : (select rollout.rows keepIdx).map SampleRow.keep = keptRows rollout.rows := by
    rw [hidx, select_indicesWhere]
    rfl
  have hids : select rollout.sampleIds keepIdx = keptIds rollout := by
    rw [hidx, select_indicesWhere_zip _ rollout.length_sampleIds]
    rfl
  by_cases hkeep : keepIdx = []
  · have hrows : keptRows rollout.rows = [] := by rw [← hcarry, hkeep]; rfl
    have hnone : keptIds rollout = [] := by rw [← hids, hkeep]; rfl
    rw [if_pos hkeep, hrows, hnone, List.append_nil, List.append_nil]
    exact ⟨pending, rfl, h, rfl⟩
  · have hne : keptRows rollout.rows ≠ [] := by
      intro hnil
      apply hkeep
      have hlength := congrArg List.length hnil
      rw [keptRows, List.length_map, ← length_indicesWhere, ← hidx] at hlength
      exact List.length_eq_zero_iff.mp hlength
    have hlength := length_keptIds rollout
    rw [if_neg hkeep, hcarry]
    cases h with
    | empty hmeta _ =>
      refine ⟨{ pending with
        pendingMeta := some (stamped.subset keepIdx)
        pendingCarry := some (keptRows rollout.rows) },
        by simp only [mergeSurvivors, hmeta], ?_, rfl⟩
      exact .of_some rfl rfl rfl hids hlength hne
    | collected pendingMeta rows hmeta hpending hpartition hsame hnil =>
      have hconcat : pendingMeta.concat (stamped.subset keepIdx) = .ok
          { pendingMeta with
            sampleIds := pendingMeta.sampleIds ++ keptIds rollout
            sequenceLengths := pendingMeta.sequenceLengths.bind fun s =>
              (stamped.subset keepIdx).sequenceLengths.map (s ++ ·)
            tags := pendingMeta.tags.bind fun t =>
              (stamped.subset keepIdx).tags.map (t ++ ·) } := by
        have hsame : ¬ (stamped.subset keepIdx).partitionId ≠ pendingMeta.partitionId :=
          not_not.mpr hpartition.symm
        rw [KVBatchMeta.concat, if_neg hsame, ← hids]
        rfl
      refine ⟨{ pending with
        pendingMeta := some
          { pendingMeta with
            sampleIds := pendingMeta.sampleIds ++ keptIds rollout
            sequenceLengths := pendingMeta.sequenceLengths.bind fun s =>
              (stamped.subset keepIdx).sequenceLengths.map (s ++ ·)
            tags := pendingMeta.tags.bind fun t => (stamped.subset keepIdx).tags.map (t ++ ·) }
        pendingCarry := some (rows ++ keptRows rollout.rows) }, ?_, ?_, rfl⟩
      · simp only [mergeSurvivors, hmeta, hpending, hconcat, bind, Except.bind, pure, Except.pure]
      · refine .of_some rfl rfl hpartition rfl ?_ (by simp [hnil])
        simp [hsame, hlength]

/-! ## Iterations on the data plane -/

/-- The calls for the rows without a deviation. -/
theorem discards_dropped (rollout : Rollout (SampleRow P K ρ)) :
    Discards (if droppedIds rollout = [] then [] else [(droppedIds rollout, tqPartitionId)])
      (droppedIds rollout) := by
  split_ifs with hnil
  · exact ⟨hnil.symm, fun call hcall => absurd hcall List.not_mem_nil⟩
  · exact ⟨by simp, by simp⟩

omit [Field K] [DecidableEq K] in
theorem Discards.append {calls : List (List String × String)} {ids more : List String}
    (h : Discards calls ids) : Discards (calls ++ [(more, tqPartitionId)]) (ids ++ more) := by
  refine ⟨by simp [h.flatMap_eq], fun call hcall => ?_⟩
  rcases List.mem_append.mp hcall with hcall | hcall
  · exact h.partition_eq call hcall
  · rw [List.mem_singleton.mp hcall]

section Iteration
variable {cfg : SamplingConfig} {loop : SyncLoop P K ρ} {rollout : Rollout (SampleRow P K ρ)}
  {ids : List String} {rows : List (KeptRow P K ρ)} {unfilteredRewards : List K}
  {numGenBatches : ℕ}

/-- The part of an iteration after the rows are merged. -/
theorem applyDynamicSampling_eq (hloop : loop.Holds ids rows unfilteredRewards numGenBatches)
    (rollout : Rollout (SampleRow P K ρ)) (trainPromptsSize num : ℕ) (maxGenBatches : ℤ) :
    ∃ pending', pending'.Holds (ids ++ keptIds rollout) (rows ++ keptRows rollout.rows) ∧
      pending'.pendingUnfilteredRewards.flatten =
        unfilteredRewards ++ rollout.rows.map (·.totalReward) ∧
      ∃ calls, Discards calls (droppedIds rollout) ∧
      applyDynamicSampling
          { (rollout.batchMeta : KVBatchMeta K) with tags := some (tagsOf rollout.rows) }
          rollout.rows loop.pending trainPromptsSize num maxGenBatches =
        if (rows ++ keptRows rollout.rows).length < trainPromptsSize then
          if (num : ℤ) > maxGenBatches then .error (maxGenBatchesError maxGenBatches)
          else .ok ⟨pending', false, none, none, calls⟩
        else completeStep pending' calls trainPromptsSize num := by
  obtain ⟨pending', hmerge, hholds, hunfiltered⟩ := addSurvivors (hloop.pending.withUnfiltered
    (loop.pending.pendingUnfilteredRewards ++ [rollout.rows.map (·.totalReward)])) rollout
  refine ⟨pending', hholds, ?_, _, discards_dropped rollout, ?_⟩
  · rw [hunfiltered, List.flatten_append, hloop.unfiltered_eq, List.flatten_singleton]
  · have hdrop : (((rollout.batchMeta : KVBatchMeta K).sampleIds.zip (tagsOf rollout.rows)).filter
        fun p => p.2.std = 0).map Prod.fst = droppedIds rollout := dropKeys_eq rollout
    unfold applyDynamicSampling
    simp only [hmerge, hdrop, bind, Except.bind, pure, Except.pure, hholds.numPending, throw,
      throwThe, MonadExceptOf.throw]
    rfl

/-- Without dynamic sampling a step trains on each batch. -/
theorem syncIteration_plain (hds : cfg.useDynamicSampling = false) (loop : SyncLoop P K ρ)
    (rollout : Rollout (SampleRow P K ρ)) :
    ∃ trained, syncIteration cfg loop rollout = .ok (⟨loop.pending, 0⟩, some trained, []) ∧
      trained.batchMeta.partitionId = tqPartitionId ∧
      trained.batchMeta.sampleIds = rollout.sampleIds ∧
      trained.rows = rollout.rows.map SampleRow.keep ∧
      trained.unfilteredRewards = rollout.rows.map (·.totalReward) := by
  refine ⟨⟨{ (rollout.batchMeta : KVBatchMeta K) with tags := some (tagsOf rollout.rows) },
    rollout.rows.map SampleRow.keep, rollout.rows.map (·.totalReward)⟩, ?_, rfl, rfl, rfl, rfl⟩
  unfold syncIteration
  simp only [stampTags_rollout, hds, bind, Except.bind, pure, Except.pure, Bool.not_false,
    if_true]

/-- Too few rows: the loop goes on with what it has collected. -/
theorem syncIteration_more (hds : cfg.useDynamicSampling = true)
    (hloop : loop.Holds ids rows unfilteredRewards numGenBatches)
    (hlt : (rows ++ keptRows rollout.rows).length < cfg.trainPromptsSize)
    (hmax : ((numGenBatches + 1 : ℕ) : ℤ) ≤ cfg.dynamicSamplingMaxGenBatches) :
    ∃ loop' calls, syncIteration cfg loop rollout = .ok (loop', none, calls) ∧
      loop'.Holds (ids ++ keptIds rollout) (rows ++ keptRows rollout.rows)
        (unfilteredRewards ++ rollout.rows.map (·.totalReward)) (numGenBatches + 1) ∧
      Discards calls (droppedIds rollout) := by
  obtain ⟨pending', hholds, hunfiltered, calls, hcalls, heq⟩ :=
    applyDynamicSampling_eq hloop rollout cfg.trainPromptsSize (numGenBatches + 1)
      cfg.dynamicSamplingMaxGenBatches
  rw [if_pos hlt, if_neg (not_lt.mpr hmax)] at heq
  refine ⟨⟨pending', numGenBatches + 1⟩, calls, ?_, ⟨hholds, hunfiltered, rfl⟩, hcalls⟩
  unfold syncIteration
  simp only [stampTags_rollout, hloop.numGenBatches_eq, hds, heq, bind, Except.bind, pure,
    Except.pure, Bool.not_true, Bool.false_eq_true, if_false]

/-- Too few rows after too many batches: the loop raises. -/
theorem syncIteration_raise (hds : cfg.useDynamicSampling = true)
    (hloop : loop.Holds ids rows unfilteredRewards numGenBatches)
    (hlt : (rows ++ keptRows rollout.rows).length < cfg.trainPromptsSize)
    (hmax : cfg.dynamicSamplingMaxGenBatches < ((numGenBatches + 1 : ℕ) : ℤ)) :
    syncIteration cfg loop rollout =
      .error (maxGenBatchesError cfg.dynamicSamplingMaxGenBatches) := by
  obtain ⟨pending', -, -, calls, -, heq⟩ :=
    applyDynamicSampling_eq hloop rollout cfg.trainPromptsSize (numGenBatches + 1)
      cfg.dynamicSamplingMaxGenBatches
  rw [if_pos hlt, if_pos hmax] at heq
  unfold syncIteration
  simp only [stampTags_rollout, hloop.numGenBatches_eq, hds, heq, bind, Except.bind,
    Bool.not_true, Bool.false_eq_true, if_false]

/-- Nothing is enough for a step without rows, but then the loop raises. -/
theorem syncIteration_nothing (hds : cfg.useDynamicSampling = true)
    (hloop : loop.Holds ids rows unfilteredRewards numGenBatches)
    (hle : cfg.trainPromptsSize ≤ (rows ++ keptRows rollout.rows).length)
    (hnil : rows ++ keptRows rollout.rows = []) :
    syncIteration cfg loop rollout = .error ⟨.assertionError, ""⟩ := by
  obtain ⟨pending', hholds, -, calls, -, heq⟩ :=
    applyDynamicSampling_eq hloop rollout cfg.trainPromptsSize (numGenBatches + 1)
      cfg.dynamicSamplingMaxGenBatches
  rw [if_neg (not_lt.mpr hle)] at heq
  rw [hnil] at hholds
  generalize ids ++ keptIds rollout = allIds at hholds
  cases hholds with
  | empty hmeta _ =>
    simp only [completeStep, hmeta] at heq
    unfold syncIteration
    simp only [stampTags_rollout, hloop.numGenBatches_eq, hds, heq, bind, Except.bind,
      Bool.not_true, Bool.false_eq_true, if_false]
  | collected _ _ _ _ _ _ hne => exact absurd rfl hne

/-- Enough rows: the step trains on the first ones, and the others are discarded. -/
theorem syncIteration_complete (hds : cfg.useDynamicSampling = true)
    (hloop : loop.Holds ids rows unfilteredRewards numGenBatches)
    (hle : cfg.trainPromptsSize ≤ (rows ++ keptRows rollout.rows).length)
    (hne : rows ++ keptRows rollout.rows ≠ []) :
    ∃ loop' trained calls, syncIteration cfg loop rollout = .ok (loop', some trained, calls) ∧
      loop'.Holds [] [] [] 0 ∧
      trained.batchMeta.partitionId = tqPartitionId ∧
      trained.batchMeta.sampleIds = (ids ++ keptIds rollout).take cfg.trainPromptsSize ∧
      trained.rows = (rows ++ keptRows rollout.rows).take cfg.trainPromptsSize ∧
      trained.unfilteredRewards =
        (unfilteredRewards ++ rollout.rows.map (·.totalReward)).take cfg.trainPromptsSize ∧
      Discards calls
        (droppedIds rollout ++ (ids ++ keptIds rollout).drop cfg.trainPromptsSize) := by
  obtain ⟨pending', hholds, hunfiltered, calls, hcalls, heq⟩ :=
    applyDynamicSampling_eq hloop rollout cfg.trainPromptsSize (numGenBatches + 1)
      cfg.dynamicSamplingMaxGenBatches
  rw [if_neg (not_lt.mpr hle)] at heq
  generalize hall : rows ++ keptRows rollout.rows = all at *
  generalize hallIds : ids ++ keptIds rollout = allIds at *
  cases hholds with
  | empty _ _ => exact absurd rfl hne
  | collected pendingMeta _ hmeta hcarry hpartition hlength _ =>
    unfold completeStep at heq
    simp only [hmeta, hcarry, hunfiltered] at heq
    by_cases hover : pendingMeta.sampleIds.length > cfg.trainPromptsSize
    · have hslice : sliceCarry all cfg.trainPromptsSize =
          .ok (all.take cfg.trainPromptsSize) := if_neg (not_lt.mpr hle)
      simp only [if_pos hover, hslice, bind, Except.bind, pure, Except.pure] at heq
      refine ⟨⟨⟨none, none, []⟩, 0⟩, ⟨pendingMeta.slice cfg.trainPromptsSize,
        all.take cfg.trainPromptsSize, _⟩, calls ++
          [(pendingMeta.sampleIds.drop cfg.trainPromptsSize, pendingMeta.partitionId)], ?_,
        ⟨.empty rfl rfl, rfl, rfl⟩, hpartition, rfl, rfl, rfl, ?_⟩
      · unfold syncIteration
        simp only [stampTags_rollout, hloop.numGenBatches_eq, hds, heq, bind, Except.bind, pure,
          Except.pure, Bool.not_true, Bool.false_eq_true, if_false, Option.getD_some]
      · rw [hpartition]
        exact hcalls.append
    · have hexact : all.length = cfg.trainPromptsSize := by omega
      simp only [if_neg hover, pure, Except.pure] at heq
      refine ⟨⟨⟨none, none, []⟩, 0⟩, ⟨pendingMeta, all, _⟩, calls, ?_,
        ⟨.empty rfl rfl, rfl, rfl⟩, hpartition, ?_, ?_, rfl, ?_⟩
      · unfold syncIteration
        simp only [stampTags_rollout, hloop.numGenBatches_eq, hds, heq, bind, Except.bind, pure,
          Except.pure, Bool.not_true, Bool.false_eq_true, if_false, Option.getD_some]
      · exact (List.take_of_length_le (Nat.le_of_not_lt hover)).symm
      · exact (List.take_of_length_le hexact.le).symm
      · rw [List.drop_of_length_le (by omega), List.append_nil]
        exact hcalls

end Iteration

/-! ## Iterations of the legacy loop -/

/-- What the legacy loop has collected: fewer rows than a step needs, and the rewards of the
batches that these rows are from. -/
structure LegacyLoop.Holds (loop : LegacyLoop P K ρ) (trainPromptsSize : ℕ)
    (rows : List (KeptRow P K ρ)) (totalReward : List K) (numGenBatches : ℕ) : Prop where
  batchCache : (loop.batchCache = none ∧ rows = [] ∧ totalReward = []) ∨
    (loop.batchCache = some ⟨rows, totalReward⟩ ∧ rows.length < trainPromptsSize)
  length_le : rows.length ≤ totalReward.length
  numGenBatches_eq : loop.dynamicSamplingNumGenBatches = numGenBatches

/-- The rewards that the legacy loop has after a batch. A batch without rows to keep has none
in them. -/
def legacyRewards (totalReward : List K) (batch : List (SampleRow P K ρ)) : List K :=
  if keptRows batch = [] then totalReward else totalReward ++ batch.map (·.totalReward)

section Legacy
variable {cfg : SamplingConfig} {loop : LegacyLoop P K ρ} {batch : List (SampleRow P K ρ)}
  {rows : List (KeptRow P K ρ)} {totalReward : List K} {numGenBatches : ℕ}

theorem length_keptRows_le (batch : List (SampleRow P K ρ)) :
    (keptRows batch).length ≤ batch.length := by
  rw [keptRows, List.length_map]
  exact List.length_filter_le _ _

theorem length_le_legacyRewards (h : rows.length ≤ totalReward.length)
    (batch : List (SampleRow P K ρ)) :
    (rows ++ keptRows batch).length ≤ (legacyRewards totalReward batch).length := by
  have hle := length_keptRows_le batch
  unfold legacyRewards
  split_ifs with hnil
  · simpa [hnil] using h
  · simp only [List.length_append, List.length_map]
    omega

/-- The rows that the legacy trainer selects. -/
theorem select_keepPromptIndices (batch : List (SampleRow P K ρ)) :
    (select batch (indicesWhere (fun std => decide (std ≠ 0)) (batch.map (·.std)))).map
      SampleRow.keep = keptRows batch := by
  rw [indicesWhere_map, select_indicesWhere]
  rfl

/-- The cache after a batch with rows to keep. -/
theorem append_batchCache (hloop : loop.Holds cfg.trainPromptsSize rows totalReward numGenBatches)
    (hkept : keptRows batch ≠ []) :
    LegacyBatch.mergeInto ⟨keptRows batch, batch.map (·.totalReward)⟩ loop.batchCache =
      ⟨rows ++ keptRows batch, legacyRewards totalReward batch⟩ := by
  rw [legacyRewards, if_neg hkept]
  rcases hloop.batchCache with ⟨hcache, rfl, rfl⟩ | ⟨hcache, -⟩
  · simp [hcache, LegacyBatch.mergeInto]
  · simp [hcache, LegacyBatch.mergeInto, LegacyBatch.append]

/-- Too few rows: the legacy loop goes on with what it has collected. -/
theorem legacyIteration_more (hds : cfg.useDynamicSampling = true)
    (hloop : loop.Holds cfg.trainPromptsSize rows totalReward numGenBatches)
    (hlt : (rows ++ keptRows batch).length < cfg.trainPromptsSize)
    (hmax : ((numGenBatches + 1 : ℕ) : ℤ) ≤ cfg.dynamicSamplingMaxGenBatches) :
    ∃ loop', legacyIteration cfg loop batch = .ok (loop', none) ∧
      loop'.Holds cfg.trainPromptsSize (rows ++ keptRows batch)
        (legacyRewards totalReward batch) (numGenBatches + 1) := by
  have hpos : ¬ cfg.dynamicSamplingMaxGenBatches ≤ 0 := by omega
  have hle := length_le_legacyRewards hloop.length_le batch
  by_cases hkept : keptRows batch = []
  · refine ⟨⟨loop.batchCache, numGenBatches + 1⟩, ?_, ?_, hle, rfl⟩
    · have hsize : 0 < cfg.trainPromptsSize := by omega
      have hnone : ¬ 0 > 0 := lt_irrefl 0
      unfold legacyIteration dynamicSampling
      simp only [hds, hloop.numGenBatches_eq, select_keepPromptIndices, hkept, hnone, hsize, hpos,
        hmax, bind, Except.bind, pure, Except.pure, Bool.not_true, Bool.false_eq_true, if_false,
        if_true, List.length_nil]
    · rw [legacyRewards, if_pos hkept, hkept, List.append_nil]
      exact hloop.batchCache
  · have hpositive : (keptRows batch).length > 0 := List.length_pos_iff.mpr hkept
    refine ⟨⟨some ⟨rows ++ keptRows batch, legacyRewards totalReward batch⟩, numGenBatches + 1⟩,
      ?_, .inr ⟨rfl, hlt⟩, hle, rfl⟩
    unfold legacyIteration dynamicSampling
    simp only [hds, hloop.numGenBatches_eq, select_keepPromptIndices, hpositive,
      append_batchCache hloop hkept, hlt, hpos, hmax, bind, Except.bind, pure, Except.pure,
      Bool.not_true, Bool.false_eq_true, if_false, if_true]

/-- Too few rows after too many batches: the legacy loop raises. -/
theorem legacyIteration_raise (hds : cfg.useDynamicSampling = true)
    (hloop : loop.Holds cfg.trainPromptsSize rows totalReward numGenBatches)
    (hlt : (rows ++ keptRows batch).length < cfg.trainPromptsSize)
    (hmax : cfg.dynamicSamplingMaxGenBatches < ((numGenBatches + 1 : ℕ) : ℤ)) :
    ∃ e, legacyIteration cfg loop batch = .error e := by
  have hnot : ¬ ((numGenBatches + 1 : ℕ) : ℤ) ≤ cfg.dynamicSamplingMaxGenBatches := not_le.mpr hmax
  unfold legacyIteration dynamicSampling
  by_cases hkept : keptRows batch = []
  · have hsize : 0 < cfg.trainPromptsSize := by omega
    have hnone : ¬ 0 > 0 := lt_irrefl 0
    by_cases hpos : cfg.dynamicSamplingMaxGenBatches ≤ 0
    · simp only [hds, select_keepPromptIndices, hkept, hnone, hsize, hpos, bind, Except.bind,
        Bool.not_true, Bool.false_eq_true, if_false, if_true, List.length_nil]
      exact ⟨_, rfl⟩
    · simp only [hds, hloop.numGenBatches_eq, select_keepPromptIndices, hkept, hnone, hsize, hpos,
        hnot, bind, Except.bind, Bool.not_true, Bool.false_eq_true, if_false, if_true,
        List.length_nil]
      exact ⟨_, rfl⟩
  · have hpositive : (keptRows batch).length > 0 := List.length_pos_iff.mpr hkept
    by_cases hpos : cfg.dynamicSamplingMaxGenBatches ≤ 0
    · simp only [hds, select_keepPromptIndices, hpositive, append_batchCache hloop hkept, hlt,
        hpos, bind, Except.bind, Bool.not_true, Bool.false_eq_true, if_false, if_true]
      exact ⟨_, rfl⟩
    · simp only [hds, hloop.numGenBatches_eq, select_keepPromptIndices, hpositive,
        append_batchCache hloop hkept, hlt, hpos, hnot, bind, Except.bind, Bool.not_true,
        Bool.false_eq_true, if_false, if_true]
      exact ⟨_, rfl⟩

/-- Enough rows: the step trains on the first ones. -/
theorem legacyIteration_complete (hds : cfg.useDynamicSampling = true)
    (hloop : loop.Holds cfg.trainPromptsSize rows totalReward numGenBatches)
    (hle : cfg.trainPromptsSize ≤ (rows ++ keptRows batch).length) :
    ∃ loop', legacyIteration cfg loop batch =
        .ok (loop', some ⟨(rows ++ keptRows batch).take cfg.trainPromptsSize,
          (legacyRewards totalReward batch).take cfg.trainPromptsSize⟩) ∧
      loop'.Holds cfg.trainPromptsSize [] [] 0 := by
  refine ⟨⟨none, 0⟩, ?_, .inl ⟨rfl, rfl, rfl⟩, le_rfl, rfl⟩
  by_cases hkept : keptRows batch = []
  · -- without rows to keep this is a step without rows
    have hsize : cfg.trainPromptsSize = 0 := by
      rw [hkept, List.append_nil] at hle
      rcases hloop.batchCache with ⟨-, hrows, -⟩ | ⟨-, hlt⟩
      · rw [hrows, List.length_nil] at hle
        omega
      · omega
    have hnone : ¬ 0 > 0 := lt_irrefl 0
    unfold legacyIteration dynamicSampling
    simp only [hds, select_keepPromptIndices, hkept, hnone, hsize, LegacyBatch.slice, sliceCarry,
      bind, Except.bind, pure, Except.pure, Bool.not_true, Bool.false_eq_true, if_false, if_true,
      List.length_nil, Nat.not_lt_zero, List.take_zero]
  have hrewards := length_le_legacyRewards hloop.length_le batch
  have hpositive : (keptRows batch).length > 0 := List.length_pos_iff.mpr hkept
  have hslice : LegacyBatch.slice ⟨rows ++ keptRows batch, legacyRewards totalReward batch⟩
      cfg.trainPromptsSize = .ok ⟨(rows ++ keptRows batch).take cfg.trainPromptsSize,
        (legacyRewards totalReward batch).take cfg.trainPromptsSize⟩ := by
    unfold LegacyBatch.slice sliceCarry
    simp only [not_lt.mpr (hle.trans hrewards), not_lt.mpr hle, if_false, bind, Except.bind, pure,
      Except.pure]
  unfold legacyIteration dynamicSampling
  simp only [hds, select_keepPromptIndices, hpositive, append_batchCache hloop hkept,
    not_lt.mpr hle, hslice, bind, Except.bind, pure, Except.pure, Bool.not_true,
    Bool.false_eq_true, if_false, if_true]

end Legacy

end NemoRL.Algorithms
