import NemoRL.AsyncUtils.AgeWindow
import NemoRL.AsyncUtils.ReplayBufferRestore

/-!
# Which groups are trained on

The eviction of the buffer looks at the version of a group and not at its target. Since every
group is in the window of its version, what it drops was meant for a step that is over. So whatever
the order of the steps, a group that is in the buffer is there until its own step is trained, and
the batch of a step consists of the first groups that were put in for it.

## Main definitions

* `Trainer.nextStep` — the step that is trained next.
* `AsyncState.added`, `AsyncState.trained` — the groups that a run puts in and its batches.
* `Balanced` — the invariant.

## Main results

* `Balanced.step` — every step of every thread keeps it.
* `trained_in_order` — what it says of every run.
-/

namespace NemoRL.AsyncUtils

open Lib ReplayBufferImpl

variable {α : Type*} {cfg : AsyncConfig} {es groups : List (Entry α)}

/-- The step that is trained next. -/
def Trainer.nextStep (t : Trainer) : ℤ :=
  match t.pc with
  | .training => t.weightVersion + 1
  | .preparing => t.weightVersion + 1
  | .refit => t.weightVersion + 1
  | _ => t.weightVersion

namespace AsyncState

/-- The groups that a step puts into the buffer. -/
def addedBy (s : AsyncState α) : AsyncAction α → List (Entry α)
  | .worker thread .run =>
    match s.workers[thread]? with
    | some ⟨version, target, .add group⟩ =>
      if (s.buffer.add group version target).1 = .success then [⟨group, version, target⟩] else []
    | _ => []
  | _ => []

/-- The batch that a step hands to the trainer, with the step that is trained. -/
def trainedBy (cfg : AsyncConfig) (s : AsyncState α) : AsyncAction α → List (ℤ × List α)
  | .trainer .run =>
    match s.trainer.pc, (s.buffer.sample cfg.numPromptsPerStep s.trainer.weightVersion
        cfg.maxTrajectoryAgeSteps).1 with
    | .sampling, .ok (some r) => [(s.trainer.weightVersion, r.trajectories)]
    | _, _ => []
  | _ => []

/-- The groups that a run puts into the buffer, in order. -/
def added : List (AsyncState α × AsyncAction α) → List (Entry α)
  | [] => []
  | (s, a) :: tr => added tr ++ s.addedBy a

/-- The batches of a run, in order. -/
def trained (cfg : AsyncConfig) : List (AsyncState α × AsyncAction α) → List (ℤ × List α)
  | [] => []
  | (s, a) :: tr => trained cfg tr ++ s.trainedBy cfg a

end AsyncState

/-! ## Upcoming groups -/

/-- The groups for a step or a later one. -/
def upcoming (step : ℤ) (es : List (Entry α)) : List (Entry α) :=
  es.filter fun e => decide (step ≤ e.target)

/-- The groups for a step whose weights were not newer. -/
def meantFor (step : ℤ) (es : List (Entry α)) : List (Entry α) :=
  es.filter fun e => decide (e.target = step ∧ e.version ≤ step)

/-- The eviction drops no upcoming group. -/
theorem upcoming_live {step : ℤ} (hes : ∀ e ∈ es, InWindow cfg e.version e.target) :
    upcoming step (live es step cfg.maxTrajectoryAgeSteps) = upcoming step es := by
  rw [upcoming, live, List.filter_filter, upcoming]
  refine List.filter_congr fun e he => ?_
  obtain ⟨hnonneg, htarget⟩ := hes e he
  rw [Bool.eq_iff_iff]
  simp only [Entry.stale, Bool.and_eq_true, decide_eq_true_eq, Bool.not_eq_true',
    decide_eq_false_iff_not]
  rw [minValidVersion]
  omega

theorem upcoming_of_lt {step next : ℤ} (h : step ≤ next)
    (heq : upcoming step es = upcoming step groups) : upcoming next es = upcoming next groups := by
  have hnarrow : ∀ l : List (Entry α), upcoming next l = upcoming next (upcoming step l) := by
    intro l
    rw [upcoming, upcoming, upcoming, List.filter_filter]
    refine List.filter_congr fun e _ => ?_
    rw [Bool.eq_iff_iff, Bool.and_eq_true, decide_eq_true_eq, decide_eq_true_eq]
    omega
  rw [hnarrow es, heq, ← hnarrow]

/-- A sample leaves the groups for the steps after it. -/
theorem upcoming_remaining {n : ℕ} {step : ℤ}
    (hes : ∀ e ∈ es, InWindow cfg e.version e.target) :
    upcoming (step + 1) (remaining es n step cfg.maxTrajectoryAgeSteps) =
      upcoming (step + 1) es := by
  have hsub : (upcoming (step + 1) (remaining es n step cfg.maxTrajectoryAgeSteps)).Sublist
      (upcoming (step + 1) es) := (remaining_sublist es n step _).filter _
  have hchosen : upcoming (step + 1) (chosen es n step cfg.maxTrajectoryAgeSteps) = [] := by
    refine List.filter_eq_nil_iff.mpr fun e he => ?_
    have heligible := (List.mem_filter.mp (List.mem_of_mem_take he)).2
    simp only [Entry.eligible, decide_eq_true_eq] at heligible ⊢
    omega
  have hlive : upcoming (step + 1) (live es step cfg.maxTrajectoryAgeSteps) =
      upcoming (step + 1) es := upcoming_of_lt (Int.le_add_one le_rfl) (upcoming_live hes)
  have hperm := (remaining_append_chosen es n step cfg.maxTrajectoryAgeSteps).filter
    fun e => decide (step + 1 ≤ e.target)
  have hlength := hperm.length_eq
  rw [List.filter_append, List.length_append] at hlength
  change (upcoming _ _).length + (upcoming _ _).length = (upcoming _ _).length at hlength
  rw [hchosen, hlive, List.length_nil, add_zero] at hlength
  exact hsub.eq_of_length hlength

/-- The groups that a sample may hand out are those that were put in for its step. -/
theorem filter_eligible_eq_meantFor {step : ℤ}
    (hgroups : ∀ e ∈ groups, InWindow cfg e.version e.target)
    (heq : upcoming step es = upcoming step groups) :
    (es.filter fun e => e.eligible step cfg.maxTrajectoryAgeSteps) = meantFor step groups := by
  have hnarrow : ∀ l : List (Entry α),
      (l.filter fun e => e.eligible step cfg.maxTrajectoryAgeSteps) =
        (upcoming step l).filter fun e => e.eligible step cfg.maxTrajectoryAgeSteps := by
    intro l
    rw [upcoming, List.filter_filter]
    refine List.filter_congr fun e _ => ?_
    rw [Bool.eq_iff_iff]
    simp only [Entry.eligible, Bool.and_eq_true, decide_eq_true_eq]
    omega
  rw [hnarrow es, heq, ← hnarrow groups, meantFor]
  refine List.filter_congr fun e he => ?_
  obtain ⟨hnonneg, htarget⟩ := hgroups e he
  rw [Bool.eq_iff_iff]
  simp only [Entry.eligible, decide_eq_true_eq]
  rw [minValidVersion]
  omega

/-! ## Batches -/

/-- A batch holds the first groups that were put in for its step, and as many as are asked for. -/
def IsBatch (cfg : AsyncConfig) (groups : List (Entry α)) (batch : ℤ × List α) : Prop :=
  batch.2.length = cfg.numPromptsPerStep ∧
    batch.2 = ((meantFor batch.1 groups).take cfg.numPromptsPerStep).map Entry.trajectory

/-- A batch stays what it is when more groups are put in. -/
theorem IsBatch.append {batch : ℤ × List α} (h : IsBatch cfg groups batch)
    (new : List (Entry α)) : IsBatch cfg (groups ++ new) batch := by
  obtain ⟨hlength, hbatch⟩ := h
  refine ⟨hlength, ?_⟩
  rw [hbatch, List.length_map, List.length_take] at hlength
  rw [hbatch, meantFor, meantFor, List.filter_append, List.take_append_of_le_length]
  exact inf_eq_left.mp hlength

/-! ## Steps that leave the buffer alone -/

section Quiet
variable {buffer buffer' : ReplayBufferImpl α} {c c' : Collector}

/-- Only a worker that adds its group changes the buffer. -/
theorem workerRun_buffer {thread : ℕ} {locked : Bool} {w w' : Worker α}
    (hpc : ∀ group, w.pc ≠ .add group)
    (hs : workerRun thread locked buffer c w = some (buffer', c', w')) : buffer' = buffer := by
  rw [workerRun] at hs
  split at hs
  · cases hs
  · cases hs
    rfl
  · case h_3 group hadd => exact absurd hadd (hpc group)
  · cases hs
    rfl
  · cases hs
    rfl
  · split at hs <;> cases hs <;> rfl
  · split at hs <;> cases hs
    rfl
  · cases hs
    rfl
  · cases hs
    rfl
  · cases hs

/-- Only a trainer that samples changes the buffer, or which step is the next. -/
theorem trainerStep_quiet {alive : ℕ → Bool} {t t' : Trainer} (hpc : t.pc ≠ .sampling)
    (hs : trainerStep cfg alive buffer c t .run = some (buffer', c', t')) :
    buffer' = buffer ∧ t'.nextStep = t.nextStep := by
  rw [trainerStep] at hs
  cases hpc' : t.pc with
  | sampling => exact absurd hpc' hpc
  | training =>
    simp only [hpc'] at hs
    split at hs <;> cases hs
    exact ⟨rfl, by rw [Trainer.nextStep, Trainer.nextStep, hpc']⟩
  | preparing =>
    simp only [hpc'] at hs
    split at hs
    · cases hs
      exact ⟨rfl, by rw [Trainer.nextStep, Trainer.nextStep, hpc']⟩
    · simp only [Option.some.injEq, Prod.mk.injEq] at hs
      obtain ⟨rfl, -, rfl⟩ := hs
      refine ⟨rfl, ?_⟩
      split
      · rw [Trainer.nextStep, Trainer.nextStep, hpc']
      · rfl
  | refit =>
    simp only [hpc', Option.some.injEq, Prod.mk.injEq] at hs
    obtain ⟨rfl, -, rfl⟩ := hs
    exact ⟨rfl, by rw [Trainer.nextStep, Trainer.nextStep, hpc']⟩
  | synced =>
    simp only [hpc', Option.some.injEq, Prod.mk.injEq] at hs
    obtain ⟨rfl, -, rfl⟩ := hs
    exact ⟨rfl, by rw [Trainer.nextStep, Trainer.nextStep, hpc']⟩
  | validating =>
    simp only [hpc', Option.some.injEq, Prod.mk.injEq] at hs
    obtain ⟨rfl, -, rfl⟩ := hs
    exact ⟨rfl, by rw [Trainer.nextStep, Trainer.nextStep, hpc']⟩
  | failed => simp [hpc'] at hs

end Quiet

/-! ## The invariant -/

/-- What was restored and put in, what the buffer holds and what was trained on. -/
structure Balanced (cfg : AsyncConfig) (startStep : ℕ) (groups : List (Entry α))
    (batches : List (ℤ × List α)) (s : AsyncState α) : Prop where
  inTime : s.InTime cfg
  windows : ∀ e ∈ groups, InWindow cfg e.version e.target
  held : ∃ es, s.buffer.Represents es ∧ es.Sublist groups ∧
    upcoming s.trainer.nextStep es = upcoming s.trainer.nextStep groups
  steps : batches.map Prod.fst = (List.range batches.length).map fun i : ℕ => (startStep + i : ℤ)
  next : s.trainer.nextStep = startStep + batches.length
  batch : ∀ b ∈ batches, IsBatch cfg groups b

namespace Balanced
variable {startStep : ℕ} {batches : List (ℤ × List α)} {s s' : AsyncState α}

/-- A step that leaves the buffer alone and trains on nothing. -/
theorem quiet (h : Balanced cfg startStep groups batches s) (hinTime : s'.InTime cfg)
    (hbuffer : s'.buffer = s.buffer) (hnext : s'.trainer.nextStep = s.trainer.nextStep) :
    Balanced cfg startStep groups batches s' := by
  refine ⟨hinTime, h.windows, ?_, h.steps, hnext ▸ h.next, h.batch⟩
  rw [hbuffer, hnext]
  exact h.held

/-- A worker puts its group into the buffer. -/
theorem add (h : Balanced cfg startStep groups batches s) {group : α} {version target : ℤ}
    (hwindow : InWindow cfg version target) (hinTime : s'.InTime cfg)
    (hsuccess : (s.buffer.add group version target).1 = .success)
    (hbuffer : s'.buffer = (s.buffer.add group version target).2) (ht : s'.trainer = s.trainer) :
    Balanced cfg startStep (groups ++ [⟨group, version, target⟩]) batches s' := by
  refine ⟨hinTime, fun e he => ?_, ?_, h.steps, ht ▸ h.next, fun b hb => (h.batch b hb).append _⟩
  · obtain he | he := List.mem_append.mp he
    · exact h.windows e he
    · rw [List.mem_singleton.mp he]
      exact hwindow
  · obtain ⟨es, hes, hsub, heq⟩ := h.held
    have hroom : s.buffer.trajectories.length < s.buffer.maxSize := by
      by_contra hfull
      rw [ReplayBufferImpl.add, if_pos (not_lt.mp hfull)] at hsuccess
      cases hsuccess
    refine ⟨es ++ [⟨group, version, target⟩], ?_, hsub.append (.refl _), ?_⟩
    · rw [hbuffer]
      exact (hes.add group version target hroom).2
    · rw [ht, upcoming, upcoming, List.filter_append, List.filter_append]
      exact congrArg (· ++ _) heq

/-- The trainer samples a batch. -/
theorem sample (h : Balanced cfg startStep groups batches s) {r : SampleResult α}
    (hpc : s.trainer.pc = .sampling) (hinTime : s'.InTime cfg)
    (hr : (s.buffer.sample cfg.numPromptsPerStep s.trainer.weightVersion
      cfg.maxTrajectoryAgeSteps).1 = .ok (some r))
    (hbuffer : s'.buffer = (s.buffer.sample cfg.numPromptsPerStep s.trainer.weightVersion
      cfg.maxTrajectoryAgeSteps).2)
    (hnext : s'.trainer.nextStep = s.trainer.weightVersion + 1) :
    Balanced cfg startStep groups (batches ++ [(s.trainer.weightVersion, r.trajectories)]) s' := by
  have hstep : s.trainer.nextStep = s.trainer.weightVersion := by rw [Trainer.nextStep, hpc]
  obtain ⟨es, hes, hsub, heq⟩ := h.held
  rw [hstep] at heq
  have hwindows : ∀ e ∈ es, InWindow cfg e.version e.target := fun e he =>
    h.windows e (hsub.subset he)
  have hversion : s.trainer.weightVersion = startStep + batches.length := by
    rw [← hstep, h.next]
  obtain ⟨⟨-, hlength⟩, ⟨avg, hok⟩, hrep, -⟩ | ⟨-, hnone, -, -⟩ :=
    hes.sample cfg.numPromptsPerStep s.trainer.weightVersion cfg.maxTrajectoryAgeSteps
  · rw [hr] at hok
    cases hok
    have hchosen := length_chosen hlength
    refine ⟨hinTime, h.windows, ⟨_, hbuffer ▸ hrep, (remaining_sublist _ _ _ _).trans hsub, ?_⟩,
      ?_, ?_, fun b hb => ?_⟩
    · rw [hnext, upcoming_remaining hwindows]
      exact upcoming_of_lt (Int.le_add_one le_rfl) heq
    · rw [List.map_append, h.steps, List.length_append, List.length_singleton, List.range_succ,
        List.map_append, List.map_singleton, List.map_singleton, hversion]
    · rw [hnext, hversion, List.length_append, List.length_singleton]
      omega
    · obtain hb | hb := List.mem_append.mp hb
      · exact h.batch b hb
      · rw [List.mem_singleton.mp hb]
        refine ⟨by rw [List.length_map, hchosen], ?_⟩
        dsimp only
        rw [chosen, filter_eligible_eq_meantFor h.windows heq]
  · exact absurd hr (hnone r)

/-- The trainer finds too few groups. -/
theorem evict (h : Balanced cfg startStep groups batches s)
    (hpc : s.trainer.pc = .sampling) (hinTime : s'.InTime cfg)
    (hr : ∀ r, (s.buffer.sample cfg.numPromptsPerStep s.trainer.weightVersion
      cfg.maxTrajectoryAgeSteps).1 ≠ .ok (some r))
    (hbuffer : s'.buffer = (s.buffer.sample cfg.numPromptsPerStep s.trainer.weightVersion
      cfg.maxTrajectoryAgeSteps).2)
    (hnext : s'.trainer.nextStep = s.trainer.weightVersion) :
    Balanced cfg startStep groups batches s' := by
  have hstep : s.trainer.nextStep = s.trainer.weightVersion := by rw [Trainer.nextStep, hpc]
  obtain ⟨es, hes, hsub, heq⟩ := h.held
  rw [hstep] at heq
  obtain ⟨-, ⟨avg, hok⟩, -, -⟩ | ⟨-, -, hrep, -⟩ :=
    hes.sample cfg.numPromptsPerStep s.trainer.weightVersion cfg.maxTrajectoryAgeSteps
  · exact absurd hok (hr _)
  · refine ⟨hinTime, h.windows, ⟨_, hbuffer ▸ hrep, List.filter_sublist.trans hsub, ?_⟩, h.steps,
      hnext ▸ hstep ▸ h.next, h.batch⟩
    rw [hnext]
    exact (upcoming_live fun e he => h.windows e (hsub.subset he)).trans heq

theorem worker {thread : ℕ} {a : WorkerAction α} (h : Balanced cfg startStep groups batches s)
    (hs : s.step cfg (.worker thread a) = some s') :
    Balanced cfg startStep (groups ++ s.addedBy (.worker thread a)) batches s' := by
  have hinTime := h.inTime.step hs
  obtain ⟨w, hw, hs⟩ := Option.bind_eq_some_iff.mp hs
  obtain ⟨⟨buffer, c, w'⟩, hstep, heq⟩ := Option.map_eq_some_iff.mp hs
  cases heq
  cases a with
  | run =>
    obtain ⟨version, target, pc⟩ := w
    cases pc with
    | add group =>
      rw [workerStep, workerRun] at hstep
      have hadded : s.addedBy (.worker thread .run) =
          if (s.buffer.add group version target).1 = .success then
            [⟨group, version, target⟩] else [] := by
        simp only [AsyncState.addedBy, hw]
      rw [hadded]
      dsimp only at hstep
      split at hstep
      · case h_1 hadd =>
        cases hstep
        rw [hadd, if_pos rfl]
        exact h.add (h.inTime.workers _ (List.mem_of_getElem? hw)) hinTime
          (congrArg Prod.fst hadd) (congrArg Prod.snd hadd).symm rfl
      · case h_2 hadd =>
        cases hstep
        rw [hadd, if_neg (by simp), List.append_nil]
        refine h.quiet hinTime ?_ rfl
        rw [ReplayBufferImpl.add] at hadd
        split at hadd <;> cases hadd
        rfl
    | _ =>
      have hadded : s.addedBy (.worker thread .run) = [] := by
        simp only [AsyncState.addedBy, hw]
      rw [hadded, List.append_nil]
      refine h.quiet hinTime ?_ rfl
      rw [workerStep] at hstep
      exact workerRun_buffer (by simp) hstep
  | generated group =>
    rw [workerStep] at hstep
    split at hstep <;> cases hstep
    rw [AsyncState.addedBy, List.append_nil]
    · exact h.quiet hinTime rfl rfl
    · simp
  | fail =>
    rw [workerStep] at hstep
    split at hstep <;> cases hstep <;> simp only [AsyncState.addedBy, List.append_nil] <;>
      exact h.quiet hinTime rfl rfl

theorem trainer {a : TrainerAction} (h : Balanced cfg startStep groups batches s)
    (hs : s.step cfg (.trainer a) = some s') :
    Balanced cfg startStep groups (batches ++ s.trainedBy cfg (.trainer a)) s' := by
  have hinTime := h.inTime.step hs
  obtain ⟨⟨buffer, c, t⟩, hstep, heq⟩ := Option.map_eq_some_iff.mp hs
  cases heq
  cases a with
  | run =>
    cases hpc : s.trainer.pc with
    | sampling =>
      rw [trainerStep] at hstep
      simp only [hpc] at hstep
      split at hstep
      · case h_1 r buffer hsample =>
        cases hstep
        have htrained : s.trainedBy cfg (.trainer .run) =
            [(s.trainer.weightVersion, r.trajectories)] := by
          simp only [AsyncState.trainedBy, hpc, hsample]
        rw [htrained]
        exact h.sample hpc hinTime (congrArg Prod.fst hsample) (congrArg Prod.snd hsample).symm rfl
      · case h_2 buffer hsample =>
        cases hstep
        have htrained : s.trainedBy cfg (.trainer .run) = [] := by
          simp only [AsyncState.trainedBy, hpc, hsample]
        rw [htrained, List.append_nil]
        refine h.evict hpc hinTime (fun r => ?_) (congrArg Prod.snd hsample).symm ?_
        · rw [hsample]
          simp
        · rw [Trainer.nextStep, hpc]
      · case h_3 e buffer hsample =>
        cases hstep
        have htrained : s.trainedBy cfg (.trainer .run) = [] := by
          simp only [AsyncState.trainedBy, hpc, hsample]
        rw [htrained, List.append_nil]
        refine h.evict hpc hinTime (fun r => ?_) (congrArg Prod.snd hsample).symm rfl
        rw [hsample]
        simp
    | _ =>
      have htrained : s.trainedBy cfg (.trainer .run) = [] := by
        simp only [AsyncState.trainedBy, hpc]
      rw [htrained, List.append_nil]
      obtain ⟨hbuffer, hnext⟩ := trainerStep_quiet (by simp [hpc]) hstep
      exact h.quiet hinTime hbuffer hnext
  | validate =>
    rw [trainerStep] at hstep
    split at hstep
    · case isTrue hpc =>
      cases hstep
      simp only [AsyncState.trainedBy, List.append_nil]
      refine h.quiet hinTime rfl ?_
      rw [Trainer.nextStep, Trainer.nextStep, hpc]
    · cases hstep

/-- Every step of every thread keeps the balance. -/
theorem step {a : AsyncAction α} (h : Balanced cfg startStep groups batches s)
    (hs : s.step cfg a = some s') :
    Balanced cfg startStep (groups ++ s.addedBy a) (batches ++ s.trainedBy cfg a) s' := by
  cases a with
  | loop a =>
    have hinTime := h.inTime.step hs
    obtain ⟨⟨c, pc, spawn⟩, hstep, heq⟩ := Option.map_eq_some_iff.mp hs
    cases heq
    simp only [AsyncState.addedBy, AsyncState.trainedBy, List.append_nil]
    exact h.quiet hinTime rfl rfl
  | worker thread a =>
    simp only [AsyncState.trainedBy, List.append_nil]
    exact h.worker hs
  | call =>
    have hinTime := h.inTime.step hs
    rw [AsyncState.step] at hs
    split at hs <;> cases hs
    simp only [AsyncState.addedBy, AsyncState.trainedBy, List.append_nil]
    exact h.quiet hinTime rfl rfl
  | trainer a =>
    simp only [AsyncState.addedBy, List.append_nil]
    exact h.trainer hs

end Balanced

/-! ## Every run -/

/-- The groups that the training starts with are in their windows. -/
theorem startBuffer_represents {checkpoint : Option (CheckpointState α)} {startStep : ℕ}
    {buffer : ReplayBufferImpl α} (h : startBuffer cfg checkpoint startStep = .ok buffer) :
    ∃ es, buffer.Represents es ∧ ∀ e ∈ es, InWindow cfg e.version e.target := by
  unfold startBuffer at h
  dsimp only at h
  split at h
  · cases h
  · case h_2 empty hinit =>
    obtain rfl : empty = buffer := Except.ok.inj h
    refine ⟨[], ?_, by simp⟩
    unfold ReplayBufferImpl.init at hinit
    split at hinit <;> cases hinit
    exact ⟨rfl, rfl, rfl⟩
  · case h_3 empty state hinit =>
    obtain ⟨haccept, hrefuse⟩ := loadStateDict_resume empty state cfg.numPromptsPerStep
      (startStep : ℤ) (cfg.maxTrajectoryAgeSteps : ℤ)
    by_cases hwell : state.WellFormed
    · obtain ⟨hok, -, -, is, hkeeps, hrep⟩ := haccept hwell
      split at h
      · case h_1 loaded hload =>
        cases h
        rw [hload] at hrep
        refine ⟨_, hrep, fun e he => ?_⟩
        have hmem := (select_sublist hkeeps.sublist).subset he
        have hrestorable := (List.mem_filter.mp hmem).2
        simp only [Entry.restorable, decide_eq_true_eq] at hrestorable
        constructor <;> omega
      · case h_2 e loaded hload =>
        rw [hload] at hok
        cases hok
    · obtain ⟨message, hload⟩ := hrefuse hwell
      rw [hload] at h
      cases h

theorem balanced_init {checkpoint : Option (CheckpointState α)} {startStep : ℕ}
    {buffer : ReplayBufferImpl α} (h : startBuffer cfg checkpoint startStep = .ok buffer) :
    Balanced cfg startStep (buffer.entries ++ AsyncState.added []) (AsyncState.trained cfg [])
      (.init cfg buffer startStep) := by
  obtain ⟨es, hes, hwindows⟩ := startBuffer_represents h
  rw [AsyncState.added, AsyncState.trained, List.append_nil, hes.entries_eq]
  refine ⟨AsyncState.inTime_init cfg buffer startStep, hwindows, ⟨es, hes, .refl es, rfl⟩, rfl,
    ?_, by simp⟩
  simp [AsyncState.init, Trainer.nextStep]

/-- In every order of steps, from an empty buffer or a checkpoint, the steps are trained one after
the other from the first on. The batch of a step holds the first groups that were restored or put
in for it and whose weights were not newer. Every group is at most as old as allowed when its step is
trained, and the buffer has all groups for the steps that are still to come. -/
theorem trained_in_order {checkpoint : Option (CheckpointState α)} {startStep : ℕ}
    {tr : List (AsyncState α × AsyncAction α)} {s : AsyncState α}
    (h : (asyncGrpo cfg checkpoint startStep).Run System.always tr s) :
    ∃ buffer, startBuffer cfg checkpoint startStep = .ok buffer ∧
      (AsyncState.trained cfg tr).map Prod.fst =
        ((List.range (AsyncState.trained cfg tr).length).map fun i : ℕ => (startStep + i : ℤ)) ∧
      (∀ batch ∈ AsyncState.trained cfg tr,
        IsBatch cfg (buffer.entries ++ AsyncState.added tr) batch) ∧
      (∀ e ∈ buffer.entries ++ AsyncState.added tr, InWindow cfg e.version e.target) ∧
      upcoming (startStep + (AsyncState.trained cfg tr).length) s.buffer.entries =
        upcoming (startStep + (AsyncState.trained cfg tr).length)
          (buffer.entries ++ AsyncState.added tr) := by
  obtain ⟨buffer, hbuffer, hbalanced⟩ := h.invariant_trace
    (P := fun tr s => ∃ buffer, startBuffer cfg checkpoint startStep = .ok buffer ∧
      Balanced cfg startStep (buffer.entries ++ AsyncState.added tr) (AsyncState.trained cfg tr) s)
    (by
      intro s hs
      obtain ⟨buffer, hbuffer, rfl⟩ := hs
      exact ⟨buffer, hbuffer, balanced_init hbuffer⟩)
    (by
      intro tr s a s' hs _ hstep
      obtain ⟨buffer, hbuffer, hbalanced⟩ := hs
      refine ⟨buffer, hbuffer, ?_⟩
      rw [AsyncState.added, AsyncState.trained, ← List.append_assoc]
      exact hbalanced.step hstep)
  obtain ⟨es, hes, -, heq⟩ := hbalanced.held
  refine ⟨buffer, hbuffer, hbalanced.steps, hbalanced.batch, hbalanced.windows, ?_⟩
  rw [hes.entries_eq, ← hbalanced.next]
  exact heq

/-- A worker is started for the first step and puts its group into the buffer, and the trainer
samples it. -/
def oneStepRun : List (AsyncAction ℕ) :=
  .loop (.next (some 1)) :: List.replicate 15 (.loop .run) ++
    [.worker 0 (.generated 7), .worker 0 .run, .worker 0 .run, .trainer .run, .trainer .run]

/-- The batch of `oneStepRun`. -/
theorem trained_in_order_oneStep : ∃ tr : List (AsyncState ℕ × AsyncAction ℕ),
    AsyncState.added tr = [⟨7, 0, 0⟩] ∧ AsyncState.trained ⟨1, 1, false⟩ tr = [(0, [7])] ∧
      ∃ buffer, startBuffer ⟨1, 1, false⟩ none 0 = .ok buffer ∧
        ∀ batch ∈ AsyncState.trained ⟨1, 1, false⟩ tr,
          IsBatch ⟨1, 1, false⟩ (buffer.entries ++ AsyncState.added tr) batch := by
  have hinit : (asyncGrpo ⟨1, 1, false⟩ none 0).Run System.always []
      (AsyncState.init ⟨1, 1, false⟩ (⟨2, [], [], [], -1⟩ : ReplayBufferImpl ℕ) 0) :=
    .init ⟨_, rfl, rfl⟩
  have hrun := hinit.exec oneStepRun (fun _ _ => trivial) rfl
  obtain ⟨buffer, hbuffer, -, hbatch, -, -⟩ := trained_in_order hrun
  exact ⟨_, rfl, rfl, buffer, hbuffer, hbatch⟩

end NemoRL.AsyncUtils
