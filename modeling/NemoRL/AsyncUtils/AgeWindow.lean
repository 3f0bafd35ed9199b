import NemoRL.AsyncUtils.Collector
import NemoRL.Lib.Threads

/-!
# The age window of new groups

A worker is started with a weight version and a target, and both were read at different times: the
target when the loop chose it for an older version, the version again when a refit was waited for.
The weight version of the collector only grows, because the trainer does not go on to the next
refit before the collector has executed the calls of the last one. So the target of a worker is
never further from its version than the age that the trainer accepts.

## Main definitions

* `InWindow` — a target within the maximal age of a version.
* `AsyncState.InTime` — the invariant.

## Main results

* `AsyncState.InTime.step` — every step of every thread keeps it.
-/

namespace NemoRL.AsyncUtils

open Lib

variable {α : Type*} {cfg : AsyncConfig}

/-- The target of a group can be trained on with weights of the version of the group. -/
def InWindow (cfg : AsyncConfig) (version target : ℤ) : Prop :=
  0 ≤ version ∧ target ≤ version + cfg.maxTrajectoryAgeSteps

/-- What the loop uses at a place is in the window of the version that was read, or of the version
that is going to be read. -/
def LoopPc.InTime (cfg : AsyncConfig) (current : ℤ) : LoopPc → Prop
  | .readLast _ version => 0 ≤ version ∧ version ≤ current
  | .reserve _ version _ targets =>
    version ≤ current ∧ 0 ≤ version ∧ ∀ target ∈ targets, InWindow cfg version target
  | .readNeeded _ version target => version ≤ current ∧ InWindow cfg version target
  | .openSpawning version target _ => version ≤ current ∧ InWindow cfg version target
  | .checkRefit version target _ => version ≤ current ∧ InWindow cfg version target
  | .waitRefit target _ => InWindow cfg current target
  | .readVersion target _ => InWindow cfg current target
  | .acquire version target _ => version ≤ current ∧ InWindow cfg version target
  | .addThread version target _ => version ≤ current ∧ InWindow cfg version target
  | .addSpawned version target _ => version ≤ current ∧ InWindow cfg version target
  | .start version target _ => version ≤ current ∧ InWindow cfg version target
  | _ => True

/-- The versions that the threads know of are behind the one of the trainer, and every group is in
the window of its version. -/
structure AsyncState.InTime (cfg : AsyncConfig) (s : AsyncState α) : Prop where
  nonneg : 0 ≤ s.collector.currentWeightVersion
  behind : s.collector.currentWeightVersion ≤ s.trainer.weightVersion
  /-- A version that is still to be set is the one of the trainer. -/
  calls : ∀ version, Call.setWeightVersion version ∈ s.trainer.calls →
    version = s.trainer.weightVersion
  /-- Before the weights are updated all calls were executed. -/
  refit : s.trainer.pc = .preparing ∨ s.trainer.pc = .refit → s.trainer.calls = []
  loop : s.loop.InTime cfg s.collector.currentWeightVersion
  workers : ∀ w ∈ s.workers, InWindow cfg w.version w.target

/-! ## The loop -/

theorem InWindow.mono {version current target : ℤ} (h : InWindow cfg version target)
    (hle : version ≤ current) : InWindow cfg current target := by
  have hnonneg := h.1
  have htarget := h.2
  constructor <;> omega

/-- What is in the window stays there when the weights get newer. -/
theorem LoopPc.InTime.mono {current current' : ℤ} {pc : LoopPc} (h : pc.InTime cfg current)
    (hle : current ≤ current') : pc.InTime cfg current' := by
  cases pc with
  | readLast batch version => exact ⟨h.1, h.2.trans hle⟩
  | reserve batch version lastConsumed targets => exact ⟨h.1.trans hle, h.2⟩
  | readNeeded batch version target => exact ⟨h.1.trans hle, h.2⟩
  | openSpawning version target remaining => exact ⟨h.1.trans hle, h.2⟩
  | checkRefit version target remaining => exact ⟨h.1.trans hle, h.2⟩
  | waitRefit target remaining => exact InWindow.mono h hle
  | readVersion target remaining => exact InWindow.mono h hle
  | acquire version target remaining => exact ⟨h.1.trans hle, h.2⟩
  | addThread version target remaining => exact ⟨h.1.trans hle, h.2⟩
  | addSpawned version target remaining => exact ⟨h.1.trans hle, h.2⟩
  | start version target remaining => exact ⟨h.1.trans hle, h.2⟩
  | _ => trivial

/-- Every target that a version generates for is in its window. -/
theorem inWindow_calculateTargetWeights {initial version target : ℤ} (hversion : 0 ≤ version)
    (h : target ∈ calculateTargetWeights cfg initial version) : InWindow cfg version target := by
  refine ⟨hversion, ?_⟩
  rw [calculateTargetWeights] at h
  split at h
  · obtain ⟨i, hi, rfl⟩ := List.mem_map.mp h
    rw [List.mem_range] at hi
    omega
  · obtain ⟨i, hi, rfl⟩ := List.mem_map.mp h
    rw [List.mem_range'_1] at hi
    omega

section Loop
variable {buffer : ReplayBufferImpl α} {newThread : ℕ} {alive : ℕ → Bool} {c c' : Collector}
  {pc pc' : LoopPc} {spawn : Option Spawn}

/-- A step of the loop leaves the version alone, stays in time, and starts a worker in its
window. -/
theorem LoopPc.InTime.loopRun (h : pc.InTime cfg c.currentWeightVersion)
    (hnonneg : 0 ≤ c.currentWeightVersion)
    (hs : AsyncUtils.loopRun cfg buffer newThread alive c pc = some (c', pc', spawn)) :
    c'.currentWeightVersion = c.currentWeightVersion ∧ pc'.InTime cfg c.currentWeightVersion ∧
      ∀ w ∈ spawn, InWindow cfg w.version w.target := by
  cases pc with
  | fetch => cases hs
  | processBatch batch =>
    cases hs
    exact ⟨rfl, ⟨hnonneg, le_rfl⟩, by simp⟩
  | readLast batch version =>
    cases hs
    exact ⟨rfl, ⟨h.2, h.1, fun target => inWindow_calculateTargetWeights h.1⟩, by simp⟩
  | reserve batch version lastConsumed targets =>
    cases targets with
    | nil =>
      cases hs
      exact ⟨rfl, trivial, by simp⟩
    | cons target targets =>
      obtain ⟨hle, hversion, htargets⟩ := h
      have hnext : LoopPc.InTime cfg c.currentWeightVersion
          (.reserve batch version lastConsumed targets) :=
        ⟨hle, hversion, fun T hT => htargets T (List.mem_cons_of_mem target hT)⟩
      rw [AsyncUtils.loopRun] at hs
      split_ifs at hs <;> cases hs
      · exact ⟨rfl, hnext, by simp⟩
      · exact ⟨rfl, hnext, by simp⟩
      · exact ⟨rfl, ⟨hle, htargets target List.mem_cons_self⟩, by simp⟩
      · exact ⟨rfl, hnext, by simp⟩
  | readNeeded batch version target =>
    rw [AsyncUtils.loopRun] at hs
    split at hs <;> cases hs
    · exact ⟨rfl, trivial, by simp⟩
    · exact ⟨rfl, h, by simp⟩
  | checkRefit version target remaining =>
    cases remaining with
    | zero =>
      cases hs
      exact ⟨rfl, trivial, by simp⟩
    | succ remaining =>
      rw [AsyncUtils.loopRun] at hs
      split at hs <;> cases hs
      · exact ⟨rfl, h, by simp⟩
      · exact ⟨rfl, h.2.mono h.1, by simp⟩
  | waitRefit target remaining =>
    rw [AsyncUtils.loopRun] at hs
    split at hs <;> cases hs
    exact ⟨rfl, h, by simp⟩
  | readVersion target remaining =>
    cases hs
    exact ⟨rfl, ⟨le_rfl, h⟩, by simp⟩
  | acquire version target remaining =>
    rw [AsyncUtils.loopRun] at hs
    split at hs <;> cases hs
    exact ⟨rfl, h, by simp⟩
  | start version target remaining =>
    cases hs
    exact ⟨rfl, h, by simpa using h.2⟩
  | close target ending =>
    cases hs
    exact ⟨rfl, trivial, by simp⟩
  | release target ending =>
    rw [AsyncUtils.loopRun] at hs
    split at hs
    · cases hs
      refine ⟨rfl, ?_, by simp⟩
      cases ending <;> trivial
    · case h_2 hdrop =>
      cases hs
      refine ⟨?_, trivial, by simp⟩
      rw [Collector.dropCounters] at hdrop
      split_ifs at hdrop
      cases hdrop
      rfl
  | discard target ending =>
    cases hs
    refine ⟨rfl, ?_, by simp⟩
    cases ending <;> trivial
  | addThread version target remaining =>
    cases hs
    exact ⟨rfl, h, by simp⟩
  | addSpawned version target remaining =>
    cases hs
    exact ⟨rfl, h, by simp⟩
  | openSpawning version target remaining =>
    cases hs
    exact ⟨rfl, h, by simp⟩
  | decideScan batch lastConsumed targets =>
    cases targets with
    | nil =>
      cases hs
      exact ⟨rfl, trivial, by simp⟩
    | cons target targets =>
      rw [AsyncUtils.loopRun] at hs
      split_ifs at hs <;> cases hs <;> exact ⟨rfl, trivial, by simp⟩
  | manualPause batch =>
    rw [AsyncUtils.loopRun] at hs
    split at hs <;> cases hs
    exact ⟨rfl, trivial, by simp⟩
  | refitPause batch =>
    rw [AsyncUtils.loopRun] at hs
    split at hs <;> cases hs
    exact ⟨rfl, trivial, by simp⟩
  | checkWarned batch =>
    rw [AsyncUtils.loopRun] at hs
    split at hs <;> cases hs <;> exact ⟨rfl, trivial, by simp⟩
  | limitPause batch =>
    rw [AsyncUtils.loopRun] at hs
    split at hs <;> cases hs
    exact ⟨rfl, trivial, by simp⟩
  | stopped => cases hs
  | _ =>
    cases hs
    exact ⟨rfl, trivial, by simp⟩

/-- The same for any step of the loop. -/
theorem LoopPc.InTime.loopStep {a : LoopAction} (h : pc.InTime cfg c.currentWeightVersion)
    (hnonneg : 0 ≤ c.currentWeightVersion)
    (hs : AsyncUtils.loopStep cfg buffer newThread alive c pc a = some (c', pc', spawn)) :
    c'.currentWeightVersion = c.currentWeightVersion ∧ pc'.InTime cfg c.currentWeightVersion ∧
      ∀ w ∈ spawn, InWindow cfg w.version w.target := by
  cases a with
  | run => exact h.loopRun hnonneg hs
  | next batch =>
    cases batch <;> rw [AsyncUtils.loopStep] at hs <;> split at hs <;> cases hs <;>
      exact ⟨rfl, trivial, by simp⟩
  | fail =>
    obtain ⟨pc'', hfail, heq⟩ := Option.map_eq_some_iff.mp hs
    cases heq
    refine ⟨rfl, ?_, by simp⟩
    cases pc <;> cases hfail <;> trivial

end Loop

/-! ## The workers, the calls and the trainer -/

/-- A worker keeps its version and its target, and leaves the version of the collector alone. -/
theorem workerStep_versions {thread : ℕ} {locked : Bool} {buffer buffer' : ReplayBufferImpl α}
    {c c' : Collector} {w w' : Worker α} {a : WorkerAction α}
    (hs : workerStep thread locked buffer c w a = some (buffer', c', w')) :
    c'.currentWeightVersion = c.currentWeightVersion ∧ w'.version = w.version ∧
      w'.target = w.target := by
  cases a with
  | run =>
    rw [workerStep, workerRun] at hs
    split at hs
    · cases hs
    · cases hs
      exact ⟨rfl, rfl, rfl⟩
    · split at hs <;> cases hs <;> exact ⟨rfl, rfl, rfl⟩
    · cases hs
      exact ⟨rfl, rfl, rfl⟩
    · cases hs
      exact ⟨rfl, rfl, rfl⟩
    · split at hs
      · cases hs
        exact ⟨rfl, rfl, rfl⟩
      · case h_2 hdrop =>
        cases hs
        refine ⟨?_, rfl, rfl⟩
        rw [Collector.dropCounters] at hdrop
        split_ifs at hdrop
        cases hdrop
        rfl
    · split at hs <;> cases hs
      exact ⟨rfl, rfl, rfl⟩
    · cases hs
      exact ⟨rfl, rfl, rfl⟩
    · cases hs
      exact ⟨rfl, rfl, rfl⟩
    · cases hs
  | generated group =>
    rw [workerStep] at hs
    split at hs <;> cases hs
    exact ⟨rfl, rfl, rfl⟩
  | fail =>
    rw [workerStep] at hs
    split at hs <;> cases hs <;> exact ⟨rfl, rfl, rfl⟩

namespace AsyncState

theorem inTime_init (cfg : AsyncConfig) (buffer : ReplayBufferImpl α) (startStep : ℕ) :
    (AsyncState.init cfg buffer startStep).InTime cfg where
  nonneg := Int.natCast_nonneg startStep
  behind := le_rfl
  calls version h := by simpa [AsyncState.init] using h
  refit h := by simp [AsyncState.init] at h
  loop := trivial
  workers w hw := absurd hw List.not_mem_nil

namespace InTime
variable {s s' : AsyncState α}

theorem call (h : s.InTime cfg) (hs : s.step cfg .call = some s') : s'.InTime cfg := by
  rw [AsyncState.step] at hs
  split at hs
  · cases hs
  · case h_2 call calls hcalls =>
    have hrefit : s.trainer.pc ≠ .preparing ∧ s.trainer.pc ≠ .refit := by
      constructor <;> intro hpc
      · rw [h.refit (.inl hpc)] at hcalls
        cases hcalls
      · rw [h.refit (.inr hpc)] at hcalls
        cases hcalls
    have hrest : ∀ version, Call.setWeightVersion version ∈ calls →
        version = s.trainer.weightVersion := fun version hversion =>
      h.calls version (hcalls ▸ List.mem_cons_of_mem call hversion)
    cases hs
    cases call with
    | setWeightVersion version =>
      have hversion := h.calls version (hcalls ▸ List.mem_cons_self)
      have hle : s.collector.currentWeightVersion ≤ version := hversion ▸ h.behind
      refine ⟨h.nonneg.trans hle, hversion.le, ?_, fun hpc => ?_, h.loop.mono hle, h.workers⟩
      · simpa [Call.execute] using hrest
      · exact absurd hpc (not_or.mpr hrefit)
    | _ =>
      exact ⟨h.nonneg, h.behind, hrest, fun hpc => absurd hpc (not_or.mpr hrefit), h.loop,
        h.workers⟩

theorem trainer {a : TrainerAction} (h : s.InTime cfg)
    (hs : s.step cfg (.trainer a) = some s') : s'.InTime cfg := by
  obtain ⟨⟨buffer, c, t⟩, hstep, heq⟩ := Option.map_eq_some_iff.mp hs
  cases heq
  cases a with
  | run =>
    rw [trainerStep] at hstep
    cases hpc : s.trainer.pc with
    | sampling =>
      simp only [hpc] at hstep
      split at hstep <;> cases hstep
      · exact ⟨h.nonneg, h.behind, h.calls, by simp, h.loop, h.workers⟩
      · exact ⟨h.nonneg, h.behind, h.calls, by simp [hpc], h.loop, h.workers⟩
      · exact ⟨h.nonneg, h.behind, h.calls, by simp, h.loop, h.workers⟩
    | training =>
      simp only [hpc] at hstep
      split at hstep
      · case isTrue hcalls =>
        cases hstep
        exact ⟨h.nonneg, h.behind, h.calls, fun _ => hcalls, h.loop, h.workers⟩
      · cases hstep
    | preparing =>
      have hcalls := h.refit (.inl hpc)
      simp only [hpc] at hstep
      split at hstep
      · cases hstep
        exact ⟨h.nonneg, h.behind, h.calls, fun _ => hcalls, h.loop, h.workers⟩
      · simp only [Option.some.injEq, Prod.mk.injEq] at hstep
        obtain ⟨-, rfl, rfl⟩ := hstep
        dsimp only
        split
        · exact ⟨h.nonneg, h.behind, h.calls, fun _ => hcalls, h.loop, h.workers⟩
        · exact ⟨h.nonneg, h.behind, h.calls, fun _ => hcalls, h.loop, h.workers⟩
    | refit =>
      have hcalls := h.refit (.inr hpc)
      simp only [hpc, Option.some.injEq, Prod.mk.injEq] at hstep
      obtain ⟨-, rfl, rfl⟩ := hstep
      refine ⟨h.nonneg, h.behind.trans (Int.le_add_one le_rfl), ?_, by simp, h.loop, h.workers⟩
      simp [hcalls]
    | synced =>
      simp only [hpc, Option.some.injEq, Prod.mk.injEq] at hstep
      obtain ⟨-, rfl, rfl⟩ := hstep
      exact ⟨h.nonneg, h.behind, h.calls, by simp, h.loop, h.workers⟩
    | validating =>
      simp only [hpc, Option.some.injEq, Prod.mk.injEq] at hstep
      obtain ⟨-, rfl, rfl⟩ := hstep
      exact ⟨h.nonneg, h.behind, by simpa using h.calls, by simp, h.loop, h.workers⟩
    | failed => simp [hpc] at hstep
  | validate =>
    rw [trainerStep] at hstep
    split at hstep <;> cases hstep
    exact ⟨h.nonneg, h.behind, by simpa using h.calls, by simp, h.loop, h.workers⟩

/-- Every step of every thread keeps the groups in their windows. -/
theorem step {a : AsyncAction α} (h : s.InTime cfg) (hs : s.step cfg a = some s') :
    s'.InTime cfg := by
  cases a with
  | loop a =>
    obtain ⟨⟨c, pc, spawn⟩, hstep, heq⟩ := Option.map_eq_some_iff.mp hs
    cases heq
    obtain ⟨hc, hpc, hspawn⟩ := h.loop.loopStep h.nonneg hstep
    refine ⟨hc ▸ h.nonneg, hc ▸ h.behind, h.calls, h.refit, hc ▸ hpc, fun w hw => ?_⟩
    obtain hw | hw := List.mem_append.mp hw
    · exact h.workers w hw
    · obtain ⟨spawned, hspawned, rfl⟩ := List.mem_map.mp hw
      exact hspawn spawned (Option.mem_toList.mp hspawned)
  | worker thread a =>
    obtain ⟨w, hw, hs⟩ := Option.bind_eq_some_iff.mp hs
    obtain ⟨⟨buffer, c, w'⟩, hstep, heq⟩ := Option.map_eq_some_iff.mp hs
    cases heq
    obtain ⟨hc, hversion, htarget⟩ := workerStep_versions hstep
    refine ⟨hc ▸ h.nonneg, hc ▸ h.behind, h.calls, h.refit, hc ▸ h.loop, ?_⟩
    refine forall_mem_set h.workers ?_
    rw [hversion, htarget]
    exact h.workers w (List.mem_of_getElem? hw)
  | call => exact h.call hs
  | trainer a => exact h.trainer hs

end InTime
end AsyncState
end NemoRL.AsyncUtils
