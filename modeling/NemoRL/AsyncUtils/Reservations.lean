import NemoRL.AsyncUtils.Collector
import NemoRL.Lib.Threads

/-!
# What the collector counts and reserves

The release of a target is a check and two blocks under two locks, so a target can lose its
reservation while new workers for it are running. Other things hold in every order of steps. The
counters of a target always tell how many of its workers are not completed: they are dropped only
when there is none. The permits of the semaphore that are gone are held by the workers that have
not finished, and by the loop while it starts one. And a target that is reserved has somebody who
is going to release it, so that no reservation is left behind when the loop and the workers are
done.

## Main definitions

* `LoopPc.view` — what the loop holds.
* `Accounted` — the invariant.

## Main results

* `Accounted.step` — every step of every thread keeps the invariant.
* `reservations_accounted` — what it says of every run.
-/

namespace NemoRL.AsyncUtils

open Lib

/-! ## What the threads hold -/

/-- What the loop holds: the target it has opened for spawning, the target it has counted a worker
for that does not run yet, the target it has to release, and whether it has a permit. -/
structure LoopView where
  spawning : Option ℤ
  counted : Option ℤ
  target : Option ℤ
  holdsSema : Bool

/-- What the loop holds at a place. -/
def LoopPc.view : LoopPc → LoopView
  | .readNeeded _ _ target => ⟨none, none, some target, false⟩
  | .unreserve target => ⟨none, none, some target, false⟩
  | .openSpawning _ target _ => ⟨none, none, some target, false⟩
  | .checkRefit _ target _ => ⟨some target, none, some target, false⟩
  | .waitRefit target _ => ⟨some target, none, some target, false⟩
  | .readVersion target _ => ⟨some target, none, some target, false⟩
  | .acquire _ target _ => ⟨some target, none, some target, false⟩
  | .addThread _ target _ => ⟨some target, none, some target, true⟩
  | .addSpawned _ target _ => ⟨some target, none, some target, true⟩
  | .start _ target _ => ⟨some target, some target, some target, true⟩
  | .undoThread target => ⟨some target, some target, some target, true⟩
  | .undoSpawned target => ⟨some target, some target, some target, true⟩
  | .undoAcquire target => ⟨some target, none, some target, true⟩
  | .close target .handled => ⟨none, none, some target, false⟩
  | .close target _ => ⟨some target, none, some target, false⟩
  | .release target _ => ⟨none, none, some target, false⟩
  | .discard target _ => ⟨none, none, some target, false⟩
  | _ => ⟨none, none, none, false⟩

/-- The worker is not completed. -/
def WorkerPc.unfinished {α : Type*} : WorkerPc α → Bool
  | .generate => true
  | .checkRunning _ => true
  | .add _ => true
  | .countBuffered => true
  | .countCompleted => true
  | _ => false

/-- The worker may still release its target. -/
def WorkerPc.releases {α : Type*} : WorkerPc α → Bool
  | .detach => false
  | .freeSema => false
  | .done => false
  | _ => true

variable {α : Type*} {cfg : AsyncConfig} {c c' : Collector} {pc pc' : LoopPc}
  {ws : List (Worker α)}

/-- The number of workers for a target that are not completed. -/
def unfinishedFor (ws : List (Worker α)) (target : ℤ) : ℕ :=
  ws.countP fun w => w.target = target && w.pc.unfinished

/-- The number of workers that have not finished. -/
def runningWorkers (ws : List (Worker α)) : ℕ := ws.countP fun w => !w.pc.isDone

/-- Some worker may still release a target. -/
def ReleasedBy (ws : List (Worker α)) (target : ℤ) : Prop :=
  ∃ w ∈ ws, w.target = target ∧ w.pc.releases = true

/-- What is counted, held and reserved agrees with where the threads are. -/
structure Accounted (cfg : AsyncConfig) (c : Collector) (pc : LoopPc) (ws : List (Worker α)) :
    Prop where
  /-- The target that is open for spawning is the one of the loop. -/
  spawning : ∀ target, target ∈ c.spawningTargets ↔ pc.view.spawning = some target
  /-- The counters tell how many workers are not completed. -/
  counts : ∀ target, c.spawnedPerTarget target = c.completedPerTarget target +
    unfinishedFor ws target + if pc.view.counted = some target then 1 else 0
  /-- Every permit is free or held. -/
  sema : c.inflightSema + runningWorkers ws + (if pc.view.holdsSema then 1 else 0) =
    cfg.maxInflight
  /-- Somebody is going to release a reserved target. -/
  reserved : ∀ target ∈ c.generatingTargets,
    pc.view.target = some target ∨ ReleasedBy ws target

/-! ## Single changes -/

namespace Accounted

/-- A step that holds the same and changes nothing that is counted. -/
theorem quiet (h : Accounted cfg c pc ws) (hview : pc'.view = pc.view)
    (hspawning : c'.spawningTargets = c.spawningTargets)
    (hspawned : c'.spawnedPerTarget = c.spawnedPerTarget)
    (hcompleted : c'.completedPerTarget = c.completedPerTarget)
    (hsema : c'.inflightSema = c.inflightSema)
    (hgenerating : c'.generatingTargets = c.generatingTargets) : Accounted cfg c' pc' ws := by
  constructor
  · rw [hview, hspawning]
    exact h.spawning
  · rw [hview, hspawned, hcompleted]
    exact h.counts
  · rw [hview, hsema]
    exact h.sema
  · rw [hview, hgenerating]
    exact h.reserved

/-- The loop moves on without holding anything else. -/
theorem goto (h : Accounted cfg c pc ws) (hview : pc'.view = pc.view) :
    Accounted cfg c pc' ws :=
  h.quiet hview rfl rfl rfl rfl rfl

/-- A target that is not open and whose workers are all completed has no worker left. -/
theorem unfinished_eq_zero (h : Accounted cfg c pc ws) {target : ℤ}
    (hle : c.spawnedPerTarget target ≤ c.completedPerTarget target) :
    unfinishedFor ws target = 0 ∧ pc.view.counted ≠ some target := by
  have hcounts := h.counts target
  constructor
  · omega
  · intro hcounted
    rw [if_pos hcounted] at hcounts
    omega

/-- The counters of a target are dropped. -/
theorem dropCounters (h : Accounted cfg c pc ws) {target : ℤ}
    (hdrop : c.dropCounters target = some c') (hview : pc'.view = pc.view) :
    Accounted cfg c' pc' ws := by
  rw [Collector.dropCounters] at hdrop
  split at hdrop
  · cases hdrop
  · split at hdrop
    · cases hdrop
    · case isFalse.isFalse hopen hle =>
      cases hdrop
      obtain ⟨hzero, hcounted⟩ := h.unfinished_eq_zero (not_lt.mp hle)
      constructor
      · intro T
        rw [hview, Finset.mem_erase, ← h.spawning T]
        refine ⟨fun hT => hT.2, fun hT => ⟨?_, hT⟩⟩
        rintro rfl
        exact hopen hT
      · intro T
        rw [hview]
        by_cases hT : T = target
        · subst hT
          simp [hzero, hcounted]
        · simpa [Function.update_of_ne hT] using h.counts T
      · rw [hview]
        exact h.sema
      · rw [hview]
        exact h.reserved

/-- Nobody drops the counters: the loop has the target open, or some worker is not completed, or
the loop is about to start one. -/
theorem released_of_dropCounters (h : Accounted cfg c pc ws) {target : ℤ}
    (hdrop : c.dropCounters target = none) :
    pc.view.spawning = some target ∨ 0 < unfinishedFor ws target ∨
      pc.view.counted = some target := by
  rw [Collector.dropCounters] at hdrop
  split at hdrop
  · case isTrue hopen => exact .inl ((h.spawning target).mp hopen)
  · split at hdrop
    · case isFalse.isTrue hlt =>
      have hcounts := h.counts target
      by_cases hcounted : pc.view.counted = some target
      · exact .inr (.inr hcounted)
      · rw [if_neg hcounted] at hcounts
        exact .inr (.inl (by omega))
    · cases hdrop

end Accounted

theorem releasedBy_of_unfinished {target : ℤ} (h : 0 < unfinishedFor ws target) :
    ReleasedBy ws target := by
  obtain ⟨w, hw, hpc⟩ := List.countP_pos_iff.mp h
  rw [Bool.and_eq_true, decide_eq_true_eq] at hpc
  refine ⟨w, hw, hpc.1, ?_⟩
  cases hw' : w.pc <;> simp_all [WorkerPc.unfinished, WorkerPc.releases]

/-- The loop has a target that it has to release, when it has opened it or counted a worker for
it. -/
theorem LoopPc.view_target (pc : LoopPc) :
    (∀ target, pc.view.spawning = some target → pc.view.target = some target) ∧
      ∀ target, pc.view.counted = some target → pc.view.spawning = some target := by
  cases pc with
  | close target ending => cases ending <;> simp [LoopPc.view]
  | _ => simp [LoopPc.view]

/-! ## The loop -/

/-- The worker that a loop step starts, as a list. -/
def Spawn.workers (spawn : Option Spawn) : List (Worker α) :=
  spawn.toList.map fun w => ⟨w.version, w.target, .generate⟩

@[simp] theorem Spawn.append_workers_none (ws : List (Worker α)) :
    ws ++ Spawn.workers none = ws :=
  List.append_nil ws

namespace Accounted

/-- The loop leaves a target for which nothing is to be released by it any more. -/
theorem leave (h : Accounted cfg c pc ws) {target : ℤ}
    (hfree : pc.view = ⟨none, none, some target, false⟩)
    (hreleased : target ∈ c.generatingTargets → ReleasedBy ws target)
    (hview : pc'.view = ⟨none, none, none, false⟩) : Accounted cfg c pc' ws := by
  obtain ⟨hspawning, hcounts, hsema, hreserved⟩ := h
  rw [hfree] at hspawning hcounts hsema hreserved
  constructor
  · rw [hview]
    exact hspawning
  · rw [hview]
    exact hcounts
  · rw [hview]
    exact hsema
  · intro T hT
    right
    obtain hT' | hT' := hreserved T hT
    · cases hT'
      exact hreleased hT
    · exact hT'

theorem discardTarget (h : Accounted cfg c pc ws) (target : ℤ) :
    Accounted cfg (c.discardTarget target) pc ws :=
  ⟨h.spawning, h.counts, h.sema, fun T hT => h.reserved T (Finset.mem_of_mem_erase hT)⟩

theorem next (h : Accounted cfg c pc ws) {target : ℤ}
    (hfree : pc.view = ⟨none, none, some target, false⟩)
    (hreleased : target ∈ c.generatingTargets → ReleasedBy ws target) (ending : Ending) :
    Accounted cfg c (ending.next target) ws := by
  cases ending with
  | normal => exact h.leave hfree hreleased rfl
  | raised => exact h.goto (by rw [hfree]; rfl)
  | handled => exact h.leave hfree hreleased rfl

/-- A step of the loop that starts no worker. -/
theorem loopRun {buffer : ReplayBufferImpl α} {newThread : ℕ} {alive : ℕ → Bool}
    (h : Accounted cfg c pc ws)
    (hs : AsyncUtils.loopRun cfg buffer newThread alive c pc = some (c', pc', none)) :
    Accounted cfg c' pc' ws := by
  cases pc with
  | fetch => cases hs
  | manualPause batch =>
    rw [AsyncUtils.loopRun] at hs
    split at hs <;> cases hs
    exact h.goto rfl
  | refitPause batch =>
    rw [AsyncUtils.loopRun] at hs
    split at hs <;> cases hs
    exact h.goto rfl
  | decide batch =>
    cases hs
    exact h.goto rfl
  | decideLast batch targets =>
    cases hs
    exact h.goto rfl
  | decideScan batch lastConsumed targets =>
    cases targets with
    | nil =>
      cases hs
      exact h.goto rfl
    | cons target targets =>
      rw [AsyncUtils.loopRun] at hs
      split_ifs at hs <;> cases hs <;> exact h.goto rfl
  | checkWarned batch =>
    rw [AsyncUtils.loopRun] at hs
    split at hs <;> cases hs <;> exact h.goto rfl
  | setWarned batch =>
    cases hs
    exact h.quiet rfl rfl rfl rfl rfl rfl
  | clearLimit batch =>
    cases hs
    exact h.quiet rfl rfl rfl rfl rfl rfl
  | limitPause batch =>
    rw [AsyncUtils.loopRun] at hs
    split at hs <;> cases hs
    exact h.goto rfl
  | processBatch batch =>
    cases hs
    exact h.goto rfl
  | readLast batch version =>
    cases hs
    exact h.goto rfl
  | reserve batch version lastConsumed targets =>
    cases targets with
    | nil =>
      cases hs
      exact h.goto rfl
    | cons target targets =>
      rw [AsyncUtils.loopRun] at hs
      split_ifs at hs <;> cases hs
      · exact h.goto rfl
      · exact h.goto rfl
      · refine ⟨h.spawning, h.counts, h.sema, fun T hT => ?_⟩
        rcases Finset.mem_insert.mp hT with rfl | hT
        · exact .inl rfl
        · obtain hnone | hreleased := h.reserved T hT
          · cases hnone
          · exact .inr hreleased
      · exact h.goto rfl
  | readNeeded batch version target =>
    rw [AsyncUtils.loopRun] at hs
    split at hs <;> cases hs <;> exact h.goto rfl
  | unreserve target =>
    cases hs
    exact (h.discardTarget target).leave rfl (fun hT => absurd hT (Finset.notMem_erase _ _)) rfl
  | openSpawning version target remaining =>
    cases hs
    refine ⟨fun T => ?_, h.counts, h.sema, h.reserved⟩
    have hspawning : T ∉ c.spawningTargets := fun hT => by
      have hnone := (h.spawning T).mp hT
      cases hnone
    simp [LoopPc.view, hspawning, eq_comm]
  | checkRefit version target remaining =>
    cases remaining with
    | zero =>
      cases hs
      exact h.goto rfl
    | succ remaining =>
      rw [AsyncUtils.loopRun] at hs
      split at hs <;> cases hs <;> exact h.goto rfl
  | waitRefit target remaining =>
    rw [AsyncUtils.loopRun] at hs
    split at hs <;> cases hs
    exact h.goto rfl
  | readVersion target remaining =>
    cases hs
    exact h.goto rfl
  | acquire version target remaining =>
    rw [AsyncUtils.loopRun] at hs
    split at hs
    · case isTrue hpos =>
      cases hs
      refine ⟨h.spawning, h.counts, ?_, h.reserved⟩
      have hsema := h.sema
      simp only [LoopPc.view, Bool.false_eq_true, if_false, if_true] at hsema ⊢
      omega
    · cases hs
  | addThread version target remaining =>
    cases hs
    exact h.quiet rfl rfl rfl rfl rfl rfl
  | addSpawned version target remaining =>
    cases hs
    refine ⟨h.spawning, fun T => ?_, h.sema, h.reserved⟩
    have hcounts := h.counts T
    simp only [LoopPc.view, reduceCtorEq, if_false, Option.some.injEq] at hcounts ⊢
    by_cases hT : T = target
    · subst hT
      rw [Function.update_self, if_pos rfl]
      omega
    · rw [Function.update_of_ne hT, if_neg (Ne.symm hT)]
      exact hcounts
  | start version target remaining => cases hs
  | undoThread target =>
    cases hs
    exact h.quiet rfl rfl rfl rfl rfl rfl
  | undoSpawned target =>
    cases hs
    refine ⟨h.spawning, fun T => ?_, h.sema, h.reserved⟩
    have hcounts := h.counts T
    simp only [LoopPc.view, reduceCtorEq, if_false, Option.some.injEq] at hcounts ⊢
    by_cases hT : T = target
    · subst hT
      rw [if_pos rfl] at hcounts
      rw [Function.update_self]
      omega
    · rw [if_neg (Ne.symm hT)] at hcounts
      rw [Function.update_of_ne hT]
      exact hcounts
  | undoAcquire target =>
    cases hs
    refine ⟨h.spawning, h.counts, ?_, h.reserved⟩
    have hsema := h.sema
    simp only [LoopPc.view, Bool.false_eq_true, if_false, if_true] at hsema ⊢
    omega
  | close target ending =>
    cases hs
    refine ⟨fun T => ?_, ?_, ?_, ?_⟩
    · have hspawning := h.spawning T
      cases ending <;> simp_all [LoopPc.view, eq_comm]
    · cases ending <;> exact h.counts
    · cases ending <;> exact h.sema
    · cases ending <;> exact h.reserved
  | release target ending =>
    rw [AsyncUtils.loopRun] at hs
    split at hs
    · case h_1 hdrop =>
      cases hs
      refine h.next rfl (fun hT => ?_) ending
      obtain hnone | hpos | hnone := h.released_of_dropCounters hdrop
      · cases hnone
      · exact releasedBy_of_unfinished hpos
      · cases hnone
    · case h_2 hdrop =>
      cases hs
      exact h.dropCounters hdrop rfl
  | discard target ending =>
    cases hs
    exact (h.discardTarget target).next rfl (fun hT => absurd hT (Finset.notMem_erase _ _)) ending
  | cleanup =>
    cases hs
    exact h.quiet rfl rfl rfl rfl rfl rfl
  | stopped => cases hs

theorem loopFail (h : Accounted cfg c pc ws) (hs : AsyncUtils.loopFail pc = some pc') :
    Accounted cfg c pc' ws := by
  cases pc <;> cases hs <;> exact h.goto rfl

/-- A worker starts: it takes over the permit and the count of the loop. -/
theorem start {version target : ℤ} {remaining : ℕ}
    (h : Accounted cfg c (.start version target remaining) ws) :
    Accounted cfg c (.checkRefit version target remaining)
      (ws ++ [⟨version, target, .generate⟩]) := by
  refine ⟨h.spawning, fun T => ?_, ?_, fun T hT => ?_⟩
  · have hcounts := h.counts T
    simp only [LoopPc.view, Option.some.injEq, unfinishedFor, reduceCtorEq, if_false] at hcounts ⊢
    rw [List.countP_append, List.countP_singleton]
    by_cases hT : target = T
    · simpa [hT, WorkerPc.unfinished, add_assoc] using hcounts
    · simpa [hT] using hcounts
  · have hrunning : runningWorkers (ws ++ [⟨version, target, .generate⟩]) =
        runningWorkers ws + 1 := by simp [runningWorkers, WorkerPc.isDone]
    have hsema := h.sema
    simp only [LoopPc.view, if_true, Bool.false_eq_true, if_false] at hsema ⊢
    omega
  · obtain htarget | ⟨w, hw, hreleases⟩ := h.reserved T hT
    · exact .inl htarget
    · exact .inr ⟨w, List.mem_append_left _ hw, hreleases⟩

end Accounted

/-- Only one step starts a worker. -/
theorem loopRun_spawn {buffer : ReplayBufferImpl α} {newThread : ℕ} {alive : ℕ → Bool}
    {spawn : Spawn} (hs : loopRun cfg buffer newThread alive c pc = some (c', pc', some spawn)) :
    ∃ remaining, pc = .start spawn.version spawn.target remaining ∧ c' = c ∧
      pc' = .checkRefit spawn.version spawn.target remaining := by
  revert hs
  fun_cases loopRun cfg buffer newThread alive c pc <;>
    simp only [Option.some.injEq, Prod.mk.injEq, reduceCtorEq, and_false, IsEmpty.forall_iff,
      and_imp]
  rintro rfl rfl rfl
  exact ⟨_, rfl, rfl, rfl⟩

theorem Accounted.loopStep {buffer : ReplayBufferImpl α} {newThread : ℕ} {alive : ℕ → Bool}
    {a : LoopAction} {spawn : Option Spawn} (h : Accounted cfg c pc ws)
    (hs : loopStep cfg buffer newThread alive c pc a = some (c', pc', spawn)) :
    Accounted cfg c' pc' (ws ++ Spawn.workers spawn) := by
  cases a with
  | run =>
    cases spawn with
    | none =>
      rw [Spawn.append_workers_none]
      exact h.loopRun hs
    | some spawn =>
      obtain ⟨remaining, rfl, rfl, rfl⟩ := loopRun_spawn hs
      exact h.start
  | next batch =>
    cases batch with
    | none =>
      rw [AsyncUtils.loopStep] at hs
      split at hs
      · case isTrue hfetch =>
        subst hfetch
        cases hs
        rw [Spawn.append_workers_none]
        exact h.quiet rfl rfl rfl rfl rfl rfl
      · cases hs
    | some batch =>
      rw [AsyncUtils.loopStep] at hs
      split at hs
      · case isTrue hfetch =>
        subst hfetch
        cases hs
        rw [Spawn.append_workers_none]
        exact h.goto rfl
      · cases hs
  | fail =>
    obtain ⟨pc'', hfail, heq⟩ := Option.map_eq_some_iff.mp hs
    cases heq
    rw [Spawn.append_workers_none]
    exact h.loopFail hfail

/-! ## The workers -/

section Workers
variable {buffer buffer' : ReplayBufferImpl α} {thread : ℕ} {locked : Bool} {w w' : Worker α}

theorem unfinishedFor_set (w' : Worker α) (hw : ws[thread]? = some w)
    (htarget : w'.target = w.target) (target : ℤ) : unfinishedFor (ws.set thread w') target +
      (if w.target = target ∧ w.pc.unfinished then 1 else 0) =
        unfinishedFor ws target + if w.target = target ∧ w'.pc.unfinished then 1 else 0 := by
  simpa [unfinishedFor, htarget] using
    countP_set_add (fun w => w.target = target && w.pc.unfinished) hw w'

theorem runningWorkers_set (w' : Worker α) (hw : ws[thread]? = some w) :
    runningWorkers (ws.set thread w') + (if w.pc.isDone = false then 1 else 0) =
      runningWorkers ws + if w'.pc.isDone = false then 1 else 0 := by
  simpa [runningWorkers] using countP_set_add (fun w => !w.pc.isDone) hw w'

/-- A target that others release is still released after a step of a worker that keeps releasing
it or had another target. -/
theorem ReleasedBy.set {target : ℤ} (h : ReleasedBy ws target) (hw : ws[thread]? = some w)
    (hset : w.target = target → w.pc.releases = true →
      w'.target = target ∧ w'.pc.releases = true) :
    ReleasedBy (ws.set thread w') target :=
  exists_mem_set hw h fun hP => hset hP.1 hP.2

namespace Accounted

/-- A worker moves on and changes nothing that is counted. -/
theorem worker_goto (h : Accounted cfg c pc ws) (hw : ws[thread]? = some w)
    (htarget : w'.target = w.target) (hunfinished : w'.pc.unfinished = w.pc.unfinished)
    (hreleases : w'.pc.releases = w.pc.releases) (hdone : w'.pc.isDone = w.pc.isDone) :
    Accounted cfg c pc (ws.set thread w') := by
  refine ⟨h.spawning, fun T => ?_, ?_, fun T hT => (h.reserved T hT).imp_right fun hreleased => ?_⟩
  · have hset := unfinishedFor_set w' hw htarget T
    rw [hunfinished] at hset
    rw [h.counts T]
    omega
  · have hset := runningWorkers_set w' hw
    rw [hdone] at hset
    have hsema := h.sema
    omega
  · exact hreleased.set hw fun hT hreleases' =>
      ⟨htarget.trans hT, hreleases.trans hreleases'⟩

/-- A worker counts itself as completed. -/
theorem worker_countCompleted (h : Accounted cfg c pc ws) (hw : ws[thread]? = some w)
    (hpc : w.pc = .countCompleted)
    (hc : c' = { c with
      completedPerTarget := Function.update c.completedPerTarget w.target
        (c.completedPerTarget w.target + 1) }) :
    Accounted cfg c' pc (ws.set thread { w with pc := .release }) := by
  subst hc
  refine ⟨h.spawning, fun T => ?_, ?_, fun T hT => (h.reserved T hT).imp_right fun hreleased => ?_⟩
  · have hset := unfinishedFor_set { w with pc := .release } hw rfl T
    have hcounts := h.counts T
    simp only [hpc, WorkerPc.unfinished, and_true, Bool.false_eq_true, and_false, if_false,
      add_zero] at hset
    dsimp only
    by_cases hT : T = w.target
    · subst hT
      rw [if_pos rfl] at hset
      rw [Function.update_self]
      omega
    · rw [if_neg (Ne.symm hT)] at hset
      rw [Function.update_of_ne hT]
      omega
  · have hset := runningWorkers_set { w with pc := .release } hw
    simp only [hpc, WorkerPc.isDone, if_true] at hset
    have hsema := h.sema
    dsimp only
    omega
  · exact hreleased.set hw fun hT _ => ⟨hT, rfl⟩

/-- A worker leaves its target when somebody else is going to release it. -/
theorem worker_detach (h : Accounted cfg c pc ws) (hw : ws[thread]? = some w)
    (hpc : w.pc = .release ∨ w.pc = .discard)
    (hreleased : w.target ∈ c.generatingTargets → pc.view.target = some w.target ∨
      ReleasedBy (ws.set thread { w with pc := .detach }) w.target) :
    Accounted cfg c pc (ws.set thread { w with pc := .detach }) := by
  have hunfinished : w.pc.unfinished = false := by rcases hpc with hpc | hpc <;> rw [hpc] <;> rfl
  have hdone : w.pc.isDone = false := by rcases hpc with hpc | hpc <;> rw [hpc] <;> rfl
  refine ⟨h.spawning, fun T => ?_, ?_, fun T hT => ?_⟩
  · have hset := unfinishedFor_set { w with pc := .detach } hw rfl T
    rw [hunfinished] at hset
    simp only [WorkerPc.unfinished, Bool.false_eq_true, and_false, if_false, add_zero] at hset
    rw [h.counts T, hset]
  · have hset := runningWorkers_set { w with pc := .detach } hw
    rw [hdone] at hset
    simp only [WorkerPc.isDone, if_true] at hset
    have hsema := h.sema
    omega
  · by_cases hTw : T = w.target
    · exact hTw ▸ hreleased (hTw ▸ hT)
    · refine (h.reserved T hT).imp_right fun hreleased => hreleased.set hw fun hw' => ?_
      exact absurd hw'.symm hTw

theorem worker_freeSema (h : Accounted cfg c pc ws) (hw : ws[thread]? = some w)
    (hpc : w.pc = .freeSema) :
    Accounted cfg { c with inflightSema := c.inflightSema + 1 } pc
      (ws.set thread { w with pc := .done }) := by
  refine ⟨h.spawning, fun T => ?_, ?_, fun T hT => (h.reserved T hT).imp_right fun hreleased => ?_⟩
  · have hset := unfinishedFor_set { w with pc := .done } hw rfl T
    simp only [hpc, WorkerPc.unfinished, Bool.false_eq_true, and_false, if_false,
      add_zero] at hset
    rw [h.counts T, hset]
  · have hset := runningWorkers_set { w with pc := .done } hw
    simp only [hpc, WorkerPc.isDone, if_true, Bool.true_eq_false, if_false] at hset
    have hsema := h.sema
    simp only
    omega
  · refine hreleased.set hw fun _ hreleases => ?_
    rw [hpc] at hreleases
    cases hreleases

theorem workerRun (h : Accounted cfg c pc ws) (hw : ws[thread]? = some w)
    (hs : AsyncUtils.workerRun thread locked buffer c w = some (buffer', c', w')) :
    Accounted cfg c' pc (ws.set thread w') := by
  rw [AsyncUtils.workerRun] at hs
  cases hpc : w.pc with
  | generate => simp [hpc] at hs
  | checkRunning group =>
    simp only [hpc, Option.some.injEq, Prod.mk.injEq] at hs
    obtain ⟨-, rfl, rfl⟩ := hs
    by_cases hrunning : c.running = true
    · exact h.worker_goto hw rfl (by simp [hpc, hrunning, WorkerPc.unfinished])
        (by simp [hpc, hrunning, WorkerPc.releases]) (by simp [hpc, hrunning, WorkerPc.isDone])
    · exact h.worker_goto hw rfl (by simp [hpc, hrunning, WorkerPc.unfinished])
        (by simp [hpc, hrunning, WorkerPc.releases]) (by simp [hpc, hrunning, WorkerPc.isDone])
  | add group =>
    simp only [hpc] at hs
    split at hs <;> cases hs <;>
      exact h.worker_goto hw rfl (by simp [hpc, WorkerPc.unfinished])
        (by simp [hpc, WorkerPc.releases]) (by simp [hpc, WorkerPc.isDone])
  | countBuffered =>
    simp only [hpc, Option.some.injEq, Prod.mk.injEq] at hs
    obtain ⟨-, rfl, rfl⟩ := hs
    refine Accounted.worker_goto (w := w) (h.quiet rfl rfl rfl rfl rfl rfl) hw rfl ?_ ?_ ?_
    · simp [hpc, WorkerPc.unfinished]
    · simp [hpc, WorkerPc.releases]
    · simp [hpc, WorkerPc.isDone]
  | countCompleted =>
    simp only [hpc, Option.some.injEq, Prod.mk.injEq] at hs
    obtain ⟨-, rfl, rfl⟩ := hs
    exact h.worker_countCompleted hw hpc rfl
  | release =>
    simp only [hpc] at hs
    split at hs
    · case h_1 hdrop =>
      cases hs
      refine h.worker_detach hw (.inl hpc) fun _ => ?_
      obtain hspawning | hpos | hcounted := h.released_of_dropCounters hdrop
      · exact .inl (pc.view_target.1 _ hspawning)
      · -- the worker that is not completed is another one
        right
        have hset := unfinishedFor_set { w with pc := .detach } hw rfl w.target
        simp only [hpc, WorkerPc.unfinished, Bool.false_eq_true, and_false, if_false,
          add_zero] at hset
        exact releasedBy_of_unfinished (hset ▸ hpos)
      · exact .inl (pc.view_target.1 _ (pc.view_target.2 _ hcounted))
    · case h_2 hdrop =>
      cases hs
      exact (h.dropCounters hdrop rfl).worker_goto hw rfl (by simp [hpc, WorkerPc.unfinished])
        (by simp [hpc, WorkerPc.releases]) (by simp [hpc, WorkerPc.isDone])
  | discard =>
    simp only [hpc] at hs
    split at hs
    · cases hs
    · cases hs
      exact (h.discardTarget w.target).worker_detach hw (.inr hpc) fun hT =>
        absurd hT (Finset.notMem_erase _ _)
  | detach =>
    simp only [hpc, Option.some.injEq, Prod.mk.injEq] at hs
    obtain ⟨-, rfl, rfl⟩ := hs
    refine Accounted.worker_goto (w := w) (h.quiet rfl rfl rfl rfl rfl rfl) hw rfl ?_ ?_ ?_
    · simp [hpc, WorkerPc.unfinished]
    · simp [hpc, WorkerPc.releases]
    · simp [hpc, WorkerPc.isDone]
  | freeSema =>
    simp only [hpc, Option.some.injEq, Prod.mk.injEq] at hs
    obtain ⟨-, rfl, rfl⟩ := hs
    exact h.worker_freeSema hw hpc
  | done => simp [hpc] at hs

theorem workerStep {a : WorkerAction α} (h : Accounted cfg c pc ws) (hw : ws[thread]? = some w)
    (hs : AsyncUtils.workerStep thread locked buffer c w a = some (buffer', c', w')) :
    Accounted cfg c' pc (ws.set thread w') := by
  cases a with
  | run => exact h.workerRun hw hs
  | generated group =>
    rw [AsyncUtils.workerStep] at hs
    split at hs
    · case h_1 hpc =>
      cases hs
      exact h.worker_goto hw rfl (by simp [hpc, WorkerPc.unfinished])
        (by simp [hpc, WorkerPc.releases]) (by simp [hpc, WorkerPc.isDone])
    · cases hs
  | fail =>
    rw [AsyncUtils.workerStep] at hs
    split at hs
    · case h_1 hpc =>
      cases hs
      exact h.worker_goto hw rfl (by simp [hpc, WorkerPc.unfinished])
        (by simp [hpc, WorkerPc.releases]) (by simp [hpc, WorkerPc.isDone])
    · case h_2 hpc =>
      cases hs
      exact h.worker_goto hw rfl (by simp [hpc, WorkerPc.unfinished])
        (by simp [hpc, WorkerPc.releases]) (by simp [hpc, WorkerPc.isDone])
    · cases hs

end Accounted

end Workers

/-! ## The trainer and its calls -/

/-- What the trainer and its calls leave alone. -/
structure SameAccounts (c c' : Collector) : Prop where
  spawning : c'.spawningTargets = c.spawningTargets
  spawned : c'.spawnedPerTarget = c.spawnedPerTarget
  completed : c'.completedPerTarget = c.completedPerTarget
  sema : c'.inflightSema = c.inflightSema
  generating : c'.generatingTargets = c.generatingTargets

theorem SameAccounts.refl (c : Collector) : SameAccounts c c := ⟨rfl, rfl, rfl, rfl, rfl⟩

theorem Accounted.same (h : Accounted cfg c pc ws) (hc : SameAccounts c c') :
    Accounted cfg c' pc ws :=
  h.quiet rfl hc.spawning hc.spawned hc.completed hc.sema hc.generating

theorem sameAccounts_execute (c : Collector) (call : Call) :
    SameAccounts c (call.execute c).1 := by
  cases call <;> exact ⟨rfl, rfl, rfl, rfl, rfl⟩

theorem sameAccounts_trainerStep {alive : ℕ → Bool} {buffer buffer' : ReplayBufferImpl α}
    {t t' : Trainer} {a : TrainerAction}
    (hs : trainerStep cfg alive buffer c t a = some (buffer', c', t')) : SameAccounts c c' := by
  cases a with
  | run =>
    rw [trainerStep] at hs
    cases hpc : t.pc with
    | sampling =>
      simp only [hpc] at hs
      split at hs <;> cases hs <;> exact .refl c
    | training =>
      simp only [hpc] at hs
      split at hs <;> cases hs
      exact ⟨rfl, rfl, rfl, rfl, rfl⟩
    | preparing =>
      simp only [hpc] at hs
      split at hs <;> cases hs
      · exact .refl c
      · exact ⟨rfl, rfl, rfl, rfl, rfl⟩
    | refit =>
      simp only [hpc, Option.some.injEq, Prod.mk.injEq] at hs
      obtain ⟨-, rfl, -⟩ := hs
      exact .refl c
    | synced =>
      simp only [hpc, Option.some.injEq, Prod.mk.injEq] at hs
      obtain ⟨-, rfl, -⟩ := hs
      exact .refl c
    | validating =>
      simp only [hpc, Option.some.injEq, Prod.mk.injEq] at hs
      obtain ⟨-, rfl, -⟩ := hs
      exact .refl c
    | failed => simp [hpc] at hs
  | validate =>
    rw [trainerStep] at hs
    split at hs <;> cases hs
    exact .refl c

/-! ## Every run -/

namespace AsyncState

/-- The invariant of a state. -/
def AccountedFor (cfg : AsyncConfig) (s : AsyncState α) : Prop :=
  Accounted cfg s.collector s.loop s.workers

theorem accountedFor_init (cfg : AsyncConfig) (buffer : ReplayBufferImpl α) (startStep : ℤ) :
    AccountedFor cfg (.init cfg buffer startStep) := by
  refine ⟨fun T => ?_, fun T => rfl, rfl, fun T hT => ?_⟩
  · simp [AsyncState.init, Collector.init, LoopPc.view]
  · simp [AsyncState.init, Collector.init] at hT

/-- Every step of every thread keeps the invariant. -/
theorem AccountedFor.step {s s' : AsyncState α} {a : AsyncAction α} (h : AccountedFor cfg s)
    (hs : s.step cfg a = some s') : AccountedFor cfg s' := by
  cases a with
  | loop a =>
    obtain ⟨⟨c, pc, spawn⟩, hstep, heq⟩ := Option.map_eq_some_iff.mp hs
    cases heq
    exact Accounted.loopStep h hstep
  | worker thread a =>
    obtain ⟨w, hw, hs⟩ := Option.bind_eq_some_iff.mp hs
    obtain ⟨⟨buffer, c, w'⟩, hstep, heq⟩ := Option.map_eq_some_iff.mp hs
    cases heq
    exact Accounted.workerStep h hw hstep
  | call =>
    rw [AsyncState.step] at hs
    split at hs
    · cases hs
    · case h_2 call calls hcalls =>
      cases hs
      exact Accounted.same h (sameAccounts_execute s.collector call)
  | trainer a =>
    obtain ⟨⟨buffer, c, t⟩, hstep, heq⟩ := Option.map_eq_some_iff.mp hs
    cases heq
    exact Accounted.same h (sameAccounts_trainerStep hstep)

end AsyncState

theorem LoopPc.not_holdsSema {pc : LoopPc} (h : pc.view.target = none) :
    pc.view.holdsSema = false := by
  cases pc with
  | close target ending => cases ending <;> cases h
  | _ => first | rfl | cases h

theorem releases_of_running {w : Worker α} (h : w.pc.isDone = true) : w.pc.releases = false := by
  cases hw : w.pc <;> simp_all [WorkerPc.isDone, WorkerPc.releases]

/-- In every order of steps, with workers that fail and threads that cannot be started: no more
workers run than there are permits; the counters of a target are dropped only when no worker for
it is under way; a reserved target has somebody who is going to release it; and when the loop is
between two batches and every worker has finished, nothing is reserved and every permit is back. -/
theorem reservations_accounted {checkpoint : Option (CheckpointState α)} {startStep : ℕ}
    {tr : List (AsyncState α × AsyncAction α)} {s : AsyncState α}
    (h : (asyncGrpo cfg checkpoint startStep).Run System.always tr s) :
    runningWorkers s.workers ≤ cfg.maxInflight ∧
    (∀ target c, s.collector.dropCounters target = some c →
      unfinishedFor s.workers target = 0 ∧ s.loop.view.counted ≠ some target) ∧
    (∀ target ∈ s.collector.generatingTargets,
      s.loop.view.target = some target ∨ ReleasedBy s.workers target) ∧
    (s.loop.view.target = none → runningWorkers s.workers = 0 →
      s.collector.generatingTargets = ∅ ∧ s.collector.inflightSema = cfg.maxInflight) := by
  have hinv : s.AccountedFor cfg := h.invariant
    (by
      rintro s ⟨buffer, -, rfl⟩
      exact AsyncState.accountedFor_init cfg buffer startStep)
    fun s a s' hs _ hstep => hs.step hstep
  refine ⟨?_, fun target c hdrop => ?_, hinv.reserved, fun htarget hrunning => ⟨?_, ?_⟩⟩
  · have hsema := hinv.sema
    omega
  · rw [Collector.dropCounters] at hdrop
    split at hdrop
    · cases hdrop
    · split at hdrop
      · cases hdrop
      · case isFalse.isFalse hle => exact hinv.unfinished_eq_zero (not_lt.mp hle)
  · refine Finset.eq_empty_of_forall_notMem fun target hT => ?_
    obtain hloop | ⟨w, hw, -, hreleases⟩ := hinv.reserved target hT
    · rw [htarget] at hloop
      cases hloop
    · have hdone : w.pc.isDone = true := by
        by_contra hdone
        exact (List.countP_pos_iff.mpr ⟨w, hw, by simpa using hdone⟩).ne' hrunning
      rw [releases_of_running hdone] at hreleases
      cases hreleases
  · have hsema := hinv.sema
    rw [hrunning, LoopPc.not_holdsSema htarget] at hsema
    simpa using hsema

/-- The loop takes a batch of one prompt, reserves the target and starts a worker for it. -/
def oneWorkerRun : List (AsyncAction ℕ) :=
  .loop (.next (some 1)) :: List.replicate 19 (.loop .run)

/-- In the state after `oneWorkerRun` one worker runs, with the only permit. -/
theorem reservations_accounted_oneWorker : ∃ s : AsyncState ℕ,
    s.collector.generatingTargets = {0} ∧ s.workers = [⟨0, 0, .generate⟩] ∧
      runningWorkers s.workers ≤ (AsyncConfig.mk 1 1 false).maxInflight := by
  have hinit : (asyncGrpo ⟨1, 1, false⟩ none 0).Run System.always []
      (AsyncState.init ⟨1, 1, false⟩ (⟨2, [], [], [], -1⟩ : ReplayBufferImpl ℕ) 0) :=
    .init ⟨_, rfl, rfl⟩
  have hrun := hinit.exec oneWorkerRun (fun _ _ => trivial) rfl
  exact ⟨_, rfl, rfl, (reservations_accounted hrun).1⟩

end NemoRL.AsyncUtils
