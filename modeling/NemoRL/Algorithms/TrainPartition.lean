import NemoRL.Algorithms.DynamicSamplingSpec
import NemoRL.Lib.Transition

/-!
# The train partition of the data plane

A rollout puts its rows under fresh ids into the train partition of the data plane. The trainer
takes ids out when it drops rows, when it has more rows than a step needs, and at the end of a
step. What it still needs is what it has collected; the rest of the partition is lost.

An epoch begins with nothing collected. The rows that the epoch before has collected without a
step are not discarded, so that they stay in the partition.

## Main definitions

* `grpoTrainSync` — the training loop, as batches and new epochs in any order.
* `NoOrphans` — the partition holds what is collected.
* `leaked` — the ids that a run loses.

## Main results

* `noOrphans_iff` — no ids are lost just in the runs in which no epoch ends with rows that are
  collected.
-/

namespace NemoRL.Algorithms

open Lib

variable {P K ρ : Type}

/-- The state of the training loop and of the train partition. -/
structure TrainState (P K ρ : Type) where
  live : List String := []
  loop : SyncLoop P K ρ := {}
  deriving DecidableEq, Repr

/-- What happens in the training loop: a batch is generated, or a new epoch begins. -/
inductive TrainAction (P K ρ : Type)
  | batch (rollout : Rollout (SampleRow P K ρ))
  | epoch

/-- The ids that are collected. -/
def SyncLoop.pendingIds (loop : SyncLoop P K ρ) : List String :=
  (loop.pending.pendingMeta.map (·.sampleIds)).getD []

/-- Put samples into the partition. -/
def putSamples (live sampleIds : List String) : List String := live ++ sampleIds

/-- Take samples out of the train partition. -/
def discardSamples (live : List String) (call : List String × String) : List String :=
  if call.2 = tqPartitionId then live.filter fun id => id ∉ call.1 else live

/-- Take the samples of a step out of the partition. -/
def finishStep (live : List String) (trained : TrainBatch P K ρ) : List String :=
  discardSamples live (trained.batchMeta.sampleIds, trained.batchMeta.partitionId)

section Step
variable [Field K] [DecidableEq K]

/-- An iteration of the loop, or the begin of an epoch. The ids of a batch are fresh. An
iteration that raises ends the training. -/
def trainStep (cfg : SamplingConfig) (s : TrainState P K ρ) :
    TrainAction P K ρ → Option (TrainState P K ρ)
  | .epoch => some { s with loop := {} }
  | .batch rollout =>
    if rollout.sampleIds.Nodup ∧ ∀ id ∈ rollout.sampleIds, id ∉ s.live then
      match syncIteration cfg s.loop rollout with
      | .error _ => none
      | .ok (loop, trained, discarded) =>
        let live := discarded.foldl discardSamples (putSamples s.live rollout.sampleIds)
        some ⟨(trained.map (finishStep live)).getD live, loop⟩
    else none

/-- The training loop, from an empty partition on. -/
def grpoTrainSync (cfg : SamplingConfig) : System (TrainState P K ρ) (TrainAction P K ρ) where
  init s := s = {}
  step := trainStep cfg

end Step

/-- The partition holds the ids that are collected and no others, and none where a step or an
epoch begins. -/
structure NoOrphans (s : TrainState P K ρ) : Prop where
  live_iff : ∀ id, id ∈ s.live ↔ id ∈ s.loop.pendingIds
  step_begins : s.loop.dynamicSamplingNumGenBatches = 0 → s.live = []

/-- The ids that are collected when an epoch ends. -/
def leaked (tr : List (TrainState P K ρ × TrainAction P K ρ)) : List String :=
  tr.flatMap fun p => match p.2 with
    | .epoch => p.1.loop.pendingIds
    | .batch _ => []

/-! ## The invariant -/

theorem SyncLoop.Holds.pendingIds_eq {loop : SyncLoop P K ρ} {ids : List String}
    {rows : List (KeptRow P K ρ)} {unfiltered : List K} {numGenBatches : ℕ}
    (h : loop.Holds ids rows unfiltered numGenBatches) : loop.pendingIds = ids := by
  cases h.pending with
  | empty hmeta _ => simp [SyncLoop.pendingIds, hmeta]
  | collected _ _ hmeta _ _ _ _ => simp [SyncLoop.pendingIds, hmeta]

theorem mem_discardSamples {live : List String} {calls : List (List String × String)}
    {ids : List String} (h : Discards calls ids) (id : String) :
    id ∈ calls.foldl discardSamples live ↔ id ∈ live ∧ id ∉ ids := by
  obtain ⟨rfl, hpartition⟩ := h
  induction calls generalizing live with
  | nil => simp
  | cons call calls ih =>
    obtain ⟨hcall, hcalls⟩ := List.forall_mem_cons.mp hpartition
    rw [List.foldl_cons, ih hcalls, discardSamples, if_pos hcall]
    simp [and_assoc]

section Rollout
variable [Field K] [DecidableEq K]

/-- The ids of a batch are those of the rows that are kept and of those that are dropped. -/
theorem mem_sampleIds_iff (rollout : Rollout (SampleRow P K ρ)) (id : String) :
    id ∈ rollout.sampleIds ↔ id ∈ keptIds rollout ∨ id ∈ droppedIds rollout := by
  have hids : rollout.sampleIds = (rollout.sampleIds.zip rollout.rows).map Prod.fst :=
    (List.map_fst_zip rollout.length_sampleIds.le).symm
  unfold keptIds droppedIds
  conv_lhs => rw [hids]
  simp only [List.mem_map, List.mem_filter, decide_eq_true_eq]
  constructor
  · rintro ⟨p, hp, rfl⟩
    by_cases hstd : p.2.std = 0
    · exact .inr ⟨p, ⟨hp, hstd⟩, rfl⟩
    · exact .inl ⟨p, ⟨hp, hstd⟩, rfl⟩
  · rintro (⟨p, ⟨hp, -⟩, rfl⟩ | ⟨p, ⟨hp, -⟩, rfl⟩)
    · exact ⟨p, hp, rfl⟩
    · exact ⟨p, hp, rfl⟩

/-- A row is not both kept and dropped. -/
theorem keptIds_disjoint {rollout : Rollout (SampleRow P K ρ)} (hnodup : rollout.sampleIds.Nodup)
    {id : String} (hkept : id ∈ keptIds rollout) : id ∉ droppedIds rollout := by
  intro hdropped
  simp only [keptIds, List.mem_map, List.mem_filter, decide_eq_true_eq] at hkept
  simp only [droppedIds, List.mem_map, List.mem_filter, decide_eq_true_eq] at hdropped
  obtain ⟨p, ⟨hp, hpstd⟩, rfl⟩ := hkept
  obtain ⟨q, ⟨hq, hqstd⟩, hsame⟩ := hdropped
  have hids : ((rollout.sampleIds.zip rollout.rows).map Prod.fst).Nodup := by
    rwa [List.map_fst_zip rollout.length_sampleIds.le]
  have hpq : q = p := List.inj_on_of_nodup_map hids hq hp hsame
  exact hpstd (hpq ▸ hqstd)

end Rollout

/-- What the loop has collected, and what is live, after the leaks of a run. -/
structure PartitionInvariant (cfg : SamplingConfig)
    (tr : List (TrainState P K ρ × TrainAction P K ρ)) (s : TrainState P K ρ) : Prop where
  loop : ∃ ids rows unfiltered numGenBatches, s.loop.Holds ids rows unfiltered numGenBatches ∧
    (numGenBatches = 0 → ids = []) ∧ (cfg.useDynamicSampling = false → rows = [])
  live_iff : ∀ id, id ∈ s.live ↔ id ∈ s.loop.pendingIds ∨ id ∈ leaked tr
  disjoint : ∀ id ∈ leaked tr, id ∉ s.loop.pendingIds

section Invariant
variable {cfg : SamplingConfig} {tr : List (TrainState P K ρ × TrainAction P K ρ)}
  {s s' : TrainState P K ρ}

/-- A new epoch loses what is collected. -/
theorem PartitionInvariant.epoch (h : PartitionInvariant cfg tr s) :
    PartitionInvariant cfg ((s, .epoch) :: tr) { s with loop := {} } := by
  refine ⟨⟨[], [], [], 0, ⟨.empty rfl rfl, rfl, rfl⟩, fun _ => rfl, fun _ => rfl⟩, ?_, ?_⟩
  · intro id
    rw [h.live_iff id]
    simp [leaked, SyncLoop.pendingIds]
  · intro id _
    exact List.not_mem_nil

/-- What is live after a batch, when the samples of its step are taken out. -/
theorem mem_finishStep {live : List String} {trained : TrainBatch P K ρ}
    (hpartition : trained.batchMeta.partitionId = tqPartitionId) (id : String) :
    id ∈ finishStep live trained ↔ id ∈ live ∧ id ∉ trained.batchMeta.sampleIds := by
  simp [finishStep, discardSamples, hpartition]

/-- The invariant after a batch, by what the batch adds to what is collected. -/
theorem PartitionInvariant.of_batch {rollout : Rollout (SampleRow P K ρ)}
    (h : PartitionInvariant cfg tr s) (hfresh : ∀ id ∈ rollout.sampleIds, id ∉ s.live)
    (hloop : ∃ ids rows unfiltered numGenBatches, s'.loop.Holds ids rows unfiltered numGenBatches ∧
      (numGenBatches = 0 → ids = []) ∧ (cfg.useDynamicSampling = false → rows = []))
    (hpending : ∀ id ∈ s'.loop.pendingIds, id ∈ s.loop.pendingIds ∨ id ∈ rollout.sampleIds)
    (hlive : ∀ id, id ∈ s'.live ↔ (id ∈ s.live ∨ id ∈ rollout.sampleIds) ∧
      (id ∈ s.loop.pendingIds ∨ id ∈ rollout.sampleIds → id ∈ s'.loop.pendingIds)) :
    PartitionInvariant cfg ((s, .batch rollout) :: tr) s' := by
  have hleaked : leaked ((s, .batch rollout) :: tr) = leaked tr := by simp [leaked]
  have hold : ∀ id ∈ leaked tr, id ∉ s.loop.pendingIds ∧ id ∉ rollout.sampleIds := fun id hid =>
    ⟨h.disjoint id hid, fun hnew => hfresh id hnew ((h.live_iff id).mpr (.inr hid))⟩
  refine ⟨hloop, fun id => ?_, fun id hid hnow => ?_⟩
  · rw [hleaked, hlive, h.live_iff]
    constructor
    · rintro ⟨(hid | hid) | hid, himp⟩
      · exact .inl (himp (.inl hid))
      · exact .inr hid
      · exact .inl (himp (.inr hid))
    · rintro (hid | hid)
      · refine ⟨?_, fun _ => hid⟩
        rcases hpending id hid with hid | hid
        · exact .inl (.inl hid)
        · exact .inr hid
      · obtain ⟨hnot, hnew⟩ := hold id hid
        exact ⟨.inl (.inr hid), fun h => (h.elim hnot hnew).elim⟩
  · rw [hleaked] at hid
    obtain ⟨hnot, hnew⟩ := hold id hid
    exact (hpending id hnow).elim hnot hnew

variable [Field K] [DecidableEq K]

/-- What an iteration leaves in the partition. -/
theorem trainStep_batch {rollout : Rollout (SampleRow P K ρ)}
    (hs : trainStep cfg s (.batch rollout) = some s') :
    (rollout.sampleIds.Nodup ∧ ∀ id ∈ rollout.sampleIds, id ∉ s.live) ∧
      ∃ trained calls, syncIteration cfg s.loop rollout = .ok (s'.loop, trained, calls) ∧
        s'.live = (trained.map (finishStep
          (calls.foldl discardSamples (putSamples s.live rollout.sampleIds)))).getD
          (calls.foldl discardSamples (putSamples s.live rollout.sampleIds)) := by
  unfold trainStep at hs
  dsimp only at hs
  split_ifs at hs with hfresh
  refine ⟨hfresh, ?_⟩
  split at hs
  · cases hs
  · rename_i loop trained calls heq
    rw [Option.some.injEq] at hs
    subst hs
    exact ⟨trained, calls, heq, rfl⟩

/-- A batch loses nothing. -/
theorem PartitionInvariant.batch {rollout : Rollout (SampleRow P K ρ)}
    (h : PartitionInvariant cfg tr s) (hs : trainStep cfg s (.batch rollout) = some s') :
    PartitionInvariant cfg ((s, .batch rollout) :: tr) s' := by
  obtain ⟨⟨hnodup, hfresh⟩, trained, calls, heq, hlive⟩ := trainStep_batch hs
  obtain ⟨ids, rows, unfiltered, num, hholds, hbegins, hplain⟩ := h.loop
  have hids := hholds.pendingIds_eq
  have hmem := mem_sampleIds_iff rollout
  have hold : ∀ id ∈ ids, id ∉ rollout.sampleIds := fun id hid hnew =>
    hfresh id hnew ((h.live_iff id).mpr (.inl (hids ▸ hid)))
  cases hds : cfg.useDynamicSampling with
  | false =>
    obtain ⟨step, hiteration, hpartition, hsamples, -, -⟩ :=
      syncIteration_plain hds s.loop rollout
    obtain ⟨hloop, rfl, rfl⟩ : (⟨s.loop.pending, 0⟩ : SyncLoop P K ρ) = s'.loop ∧
        some step = trained ∧ [] = calls := by
      simpa [hiteration] using heq
    obtain rfl : rows = [] := hplain hds
    obtain rfl : ids = [] := List.length_eq_zero_iff.mp hholds.pending.length_eq
    have hholds' : s'.loop.Holds [] [] unfiltered 0 :=
      hloop ▸ ⟨hholds.pending, hholds.unfiltered_eq, rfl⟩
    have hids' := hholds'.pendingIds_eq
    refine h.of_batch hfresh ⟨_, _, _, _, hholds', fun _ => rfl, fun _ => rfl⟩ ?_ ?_
    · intro id hid
      rw [hids'] at hid
      exact absurd hid List.not_mem_nil
    · intro id
      rw [hlive, Option.map_some, Option.getD_some, mem_finishStep hpartition, List.foldl_nil,
        putSamples, List.mem_append, hids, hids', hsamples]
      exact and_congr_right fun _ => ⟨fun hnot hid => hid.resolve_right hnot,
        fun himp hnew => List.not_mem_nil (himp (.inr hnew))⟩
  | true =>
    rcases lt_or_ge (rows ++ keptRows rollout.rows).length cfg.trainPromptsSize with hlt | hle
    · rcases le_or_gt ((num + 1 : ℕ) : ℤ) cfg.dynamicSamplingMaxGenBatches with hmax | hmax
      · obtain ⟨loop', calls', hiteration, hholds', hcalls⟩ :=
          syncIteration_more hds hholds hlt hmax
        obtain ⟨rfl, rfl, rfl⟩ : loop' = s'.loop ∧ none = trained ∧ calls' = calls := by
          simpa [hiteration] using heq
        have hids' := hholds'.pendingIds_eq
        refine h.of_batch hfresh ⟨_, _, _, _, hholds', fun h0 => absurd h0 (Nat.succ_ne_zero num),
          fun hfalse => absurd (hfalse.symm.trans hds) Bool.false_ne_true⟩ ?_ ?_
        · intro id hid
          rw [hids', List.mem_append] at hid
          exact hid.imp (hids ▸ ·) fun hkept => (hmem id).mpr (.inl hkept)
        · intro id
          rw [hlive, Option.map_none, Option.getD_none, mem_discardSamples hcalls, putSamples,
            List.mem_append, hids, hids', List.mem_append]
          refine and_congr_right fun _ => ⟨fun hnot hid => ?_, fun himp hdropped => ?_⟩
          · exact hid.imp_right fun hnew => ((hmem id).mp hnew).resolve_right hnot
          · have hnew := (hmem id).mpr (.inr hdropped)
            rcases himp (.inr hnew) with hid | hkept
            · exact hold id hid hnew
            · exact keptIds_disjoint hnodup hkept hdropped
      · rw [syncIteration_raise hds hholds hlt hmax] at heq
        cases heq
    · by_cases hnil : rows ++ keptRows rollout.rows = []
      · rw [syncIteration_nothing hds hholds hle hnil] at heq
        cases heq
      · obtain ⟨loop', step, calls', hiteration, hholds', hpartition, hsamples, -, -, hcalls⟩ :=
          syncIteration_complete hds hholds hle hnil
        obtain ⟨rfl, rfl, rfl⟩ : loop' = s'.loop ∧ some step = trained ∧ calls' = calls := by
          simpa [hiteration] using heq
        have hids' := hholds'.pendingIds_eq
        refine h.of_batch hfresh ⟨_, _, _, _, hholds', fun _ => rfl, fun _ => rfl⟩ ?_ ?_
        · intro id hid
          rw [hids'] at hid
          exact absurd hid List.not_mem_nil
        · intro id
          have hcut : id ∈ ids ++ keptIds rollout ↔
              id ∈ (ids ++ keptIds rollout).take cfg.trainPromptsSize ∨
                id ∈ (ids ++ keptIds rollout).drop cfg.trainPromptsSize := by
            rw [← List.mem_append, List.take_append_drop]
          rw [List.mem_append] at hcut
          rw [hlive, Option.map_some, Option.getD_some, mem_finishStep hpartition,
            mem_discardSamples hcalls, putSamples, List.mem_append, hids, hids', hsamples,
            List.mem_append, hmem id]
          rw [and_assoc]
          refine and_congr_right fun _ => ⟨?_, fun himp => ?_⟩
          · rintro ⟨hnot, htake⟩ hid
            exfalso
            rcases hid with hid | hkept | hdropped
            · exact (hcut.mp (.inl hid)).elim htake fun hdrop => hnot (.inr hdrop)
            · exact (hcut.mp (.inr hkept)).elim htake fun hdrop => hnot (.inr hdrop)
            · exact hnot (.inl hdropped)
          · have hnone : ¬ (id ∈ ids ∨ id ∈ keptIds rollout) := fun hid =>
              List.not_mem_nil (himp (hid.imp_right .inl))
            refine ⟨?_, fun htake => hnone (hcut.mpr (.inl htake))⟩
            rintro (hdropped | hdrop)
            · exact List.not_mem_nil (himp (.inr (.inr hdropped)))
            · exact hnone (hcut.mpr (.inr hdrop))

/-- The invariant holds in every run. -/
theorem partitionInvariant (h : (grpoTrainSync cfg).Run System.always tr s) :
    PartitionInvariant cfg tr s := by
  refine h.invariant_trace ?_ ?_
  · rintro s rfl
    exact ⟨⟨[], [], [], 0, ⟨.empty rfl rfl, rfl, rfl⟩, fun _ => rfl, fun _ => rfl⟩,
      fun id => by simp [leaked, SyncLoop.pendingIds], fun id hid => absurd hid List.not_mem_nil⟩
  · intro tr s a s' hinv _ hs
    cases a with
    | epoch =>
      obtain rfl : { s with loop := {} } = s' := Option.some.inj hs
      exact hinv.epoch
    | batch rollout => exact hinv.batch hs

/-- In every run the partition holds what is collected and nothing else, with nothing live where
a step begins, just when no epoch has ended with rows that were collected. -/
theorem noOrphans_iff (h : (grpoTrainSync cfg).Run System.always tr s) :
    NoOrphans s ↔ ∀ p ∈ tr, p.2 = .epoch → p.1.loop.pendingIds = [] := by
  have hinv := partitionInvariant h
  have hleaked : (∀ p ∈ tr, p.2 = .epoch → p.1.loop.pendingIds = []) ↔ leaked tr = [] := by
    rw [leaked, List.flatMap_eq_nil_iff]
    refine forall₂_congr fun p _ => ?_
    rcases p with ⟨t, _ | _⟩
    · simp
    · simp
  rw [hleaked]
  constructor
  · intro hnone
    apply List.eq_nil_iff_forall_not_mem.mpr
    intro id hid
    exact hinv.disjoint id hid ((hnone.live_iff id).mp ((hinv.live_iff id).mpr (.inr hid)))
  · intro hnil
    have hlive : ∀ id, id ∈ s.live ↔ id ∈ s.loop.pendingIds := by
      intro id
      rw [hinv.live_iff id, hnil]
      simp
    refine ⟨hlive, fun hbegins => ?_⟩
    obtain ⟨ids, rows, unfiltered, num, hholds, hempty, -⟩ := hinv.loop
    have hids : s.loop.pendingIds = [] :=
      hholds.pendingIds_eq.trans (hempty (hholds.numGenBatches_eq.symm.trans hbegins))
    apply List.eq_nil_iff_forall_not_mem.mpr
    intro id hid
    rw [hlive id, hids] at hid
    exact List.not_mem_nil hid

end Invariant

/-! ### Steps of two rows -/

/-- Steps of two rows, of one prompt. -/
def twoRows : SamplingConfig := ⟨true, 1, 2, 10⟩

/-- A batch of two rows with the given deviations. -/
def twoRowBatch (name : String) (std₁ std₂ : ℚ) : Rollout (SampleRow Unit ℚ Unit) :=
  ⟨[name ++ "_g0", name ++ "_g1"], none,
    [⟨⟨(), 1, ()⟩, 0, std₁⟩, ⟨⟨(), 0, ()⟩, 0, std₂⟩], rfl⟩

/-- A step of two batches, each of which has a row to keep. -/
theorem noOrphans_twoBatches :
    ∃ s, (grpoTrainSync twoRows).exec {} [.batch (twoRowBatch "u" 1 0),
        .batch (twoRowBatch "v" 0 1)] = some s ∧ NoOrphans s := by
  have hsome : ((grpoTrainSync twoRows).exec {} [.batch (twoRowBatch "u" 1 0),
      .batch (twoRowBatch "v" 0 1)]).isSome = true := by decide +kernel
  obtain ⟨s, hs⟩ := Option.isSome_iff_exists.mp hsome
  have hinit : (grpoTrainSync twoRows).Run System.always [] ({} : TrainState Unit ℚ Unit) :=
    .init rfl
  refine ⟨s, hs, (noOrphans_iff (hinit.exec _ (fun _ _ => trivial) hs)).mpr ?_⟩
  intro p hp hepoch
  rw [List.append_nil] at hp
  have hmem := System.mem_trace hp
  rw [hepoch] at hmem
  simp at hmem

/-- An epoch ends with one of two rows. The next step does not take it out. -/
theorem epochEnd_orphans :
    ∃ s : TrainState Unit ℚ Unit, (grpoTrainSync twoRows).Reachable System.always s ∧
      s.live = ["u_g0"] ∧ s.loop.pendingIds = [] ∧ ¬ NoOrphans s := by
  have hend : ((grpoTrainSync twoRows).exec {} [.batch (twoRowBatch "u" 1 0), .epoch,
      .batch (twoRowBatch "v" 1 1)]).any
        (fun s : TrainState Unit ℚ Unit =>
          decide (s.live = ["u_g0"] ∧ s.loop.pendingIds = [])) = true := by
    decide +kernel
  obtain ⟨s, hs, hlive⟩ := (Option.any_eq_true _ _).mp hend
  obtain ⟨hlive, hpending⟩ := of_decide_eq_true hlive
  refine ⟨s, System.Reachable.exec rfl _ hs, hlive, hpending, fun hnone => ?_⟩
  have hiff := hnone.live_iff "u_g0"
  rw [hlive, hpending] at hiff
  simp at hiff

end NemoRL.Algorithms
