import NemoRL.AsyncUtils.ReplayBufferSpec
import NemoRL.Lib.Transition
import Mathlib.Data.List.Perm.Subperm

/-!
# Runs of the replay buffer

Any sequence of calls on a fresh buffer is a run of `system`. The trace of a run
says what was put into the buffer and what was handed out, and the invariant
balances the two against what the buffer holds.

## Main definitions

* `Op`, `system` — the calls on a buffer, as a transition system.
* `inserted`, `added`, `returned` — what the calls of a run put in and hand out.

## Main results

* `Run.bufferInv` — the invariant along every run.
* `replayBuffer_run` — what every run guarantees.
-/

namespace NemoRL.AsyncUtils

open Lib

/-- A call on the buffer. -/
inductive Op (α : Type*)
  | add (trajectory : α) (weightVersion targetWeightVersion : ℤ)
  | sample (numPromptGroups : ℕ) (currentWeightVersion maxAgeSteps : ℤ)
  | clear
  | load (state : CheckpointState α) (numPromptsPerStep : Option ℕ)
      (currentTrainingStep maxAgeSteps : Option ℤ)

namespace ReplayBufferImpl
variable {α : Type*} {b : ReplayBufferImpl α} {tr : List (ReplayBufferImpl α × Op α)}

/-- The buffer after a call. -/
def apply (b : ReplayBufferImpl α) : Op α → ReplayBufferImpl α
  | .add t v T => (b.add t v T).2
  | .sample n c a => (b.sample n c a).2
  | .clear => b.clear
  | .load st n step age => (b.loadStateDict st n step age).2

/-- The buffer under any sequence of calls. -/
def system (α : Type*) : System (ReplayBufferImpl α) (Op α) where
  init b := ∃ maxSize, init maxSize = .ok b
  step b op := some (b.apply op)

/-- The entries that a call puts into the buffer or offers to it: an added group,
or the entries of an accepted checkpoint. -/
def putIn (b : ReplayBufferImpl α) : Op α → List (Entry α)
  | .add t v T => if (b.add t v T).1 = .success then [⟨t, v, T⟩] else []
  | .load st n step age =>
    match (b.loadStateDict st n step age).1 with
    | .ok _ => st.entries
    | .error _ => []
  | _ => []

/-- The groups that a call hands out. -/
def handOut (b : ReplayBufferImpl α) : Op α → List α
  | .sample n c a =>
    match (b.sample n c a).1 with
    | .ok (some r) => r.trajectories
    | _ => []
  | _ => []

/-- The entries put in along a trace, in order of insertion. -/
def inserted : List (ReplayBufferImpl α × Op α) → List (Entry α)
  | [] => []
  | (b, op) :: tr => inserted tr ++ putIn b op

/-- The groups put in by `add` along a trace. -/
def added : List (ReplayBufferImpl α × Op α) → List α
  | [] => []
  | (b, .add t v T) :: tr => added tr ++ (putIn b (.add t v T)).map Entry.trajectory
  | _ :: tr => added tr

/-- The groups handed out along a trace. -/
def returned : List (ReplayBufferImpl α × Op α) → List α
  | [] => []
  | (b, op) :: tr => returned tr ++ handOut b op

/-! ## The invariant -/

/-- A buffer holds at most its capacity, in order of insertion, and what was
handed out together with what it holds was put in. -/
structure BufferInv (tr : List (ReplayBufferImpl α × Op α)) (b : ReplayBufferImpl α) : Prop where
  aligned : b.Aligned
  size : b.trajectories.length ≤ b.maxSize
  order : b.entries.Sublist (inserted tr)
  balance : (returned tr ++ b.trajectories).Subperm ((inserted tr).map Entry.trajectory)

theorem Aligned.trajectories_eq (h : b.Aligned) :
    b.trajectories = b.entries.map Entry.trajectory := h.represents.trajectories

/-- The invariant after a step, in terms of the entries the step leaves. -/
theorem BufferInv.of_represents {b' : ReplayBufferImpl α} {es : List (Entry α)}
    (h : Represents b' es) (hsize : es.length ≤ b'.maxSize) (horder : es.Sublist (inserted tr))
    (hbalance : (returned tr ++ es.map Entry.trajectory).Subperm
      ((inserted tr).map Entry.trajectory)) : BufferInv tr b' := by
  refine ⟨h.aligned, by rwa [h.length_trajectories], by rwa [h.entries_eq], ?_⟩
  rwa [h.trajectories]

theorem bufferInv_init {maxSize : ℤ} (h : init maxSize = .ok b) : BufferInv [] b := by
  unfold init at h
  split at h
  · exact nomatch h
  · obtain rfl : _ = b := Except.ok.inj h
    have hempty : Represents ⟨maxSize.toNat, [], [], [], -1⟩ ([] : List (Entry α)) :=
      ⟨rfl, rfl, rfl⟩
    exact .of_represents hempty (by simp) (by simp [inserted]) (by simp [inserted, returned])

theorem BufferInv.add (h : BufferInv tr b) (t : α) (v T : ℤ) :
    BufferInv ((b, .add t v T) :: tr) (b.add t v T).2 := by
  by_cases hroom : b.trajectories.length < b.maxSize
  · obtain ⟨hok, hrep⟩ := h.aligned.represents.add t v T hroom
    have hput : putIn b (.add t v T) = [⟨t, v, T⟩] := by simp [putIn, hok]
    have hlen := h.aligned.represents.length_trajectories
    refine .of_represents hrep ?_ ?_ ?_
    · have hmax : (b.add t v T).2.maxSize = b.maxSize := by
        simp only [ReplayBufferImpl.add]; split <;> rfl
      rw [hmax, List.length_append, List.length_singleton]
      omega
    · simp only [inserted, hput]
      exact h.order.append (.refl _)
    · simp only [inserted, returned, handOut, hput, List.append_nil, List.map_append,
        ← List.append_assoc, ← h.aligned.trajectories_eq]
      exact h.balance.append (.refl _)
  · have hfull : b.add t v T = (.full, b) := by
      rw [ReplayBufferImpl.add, if_pos (by omega)]
    have hput : putIn b (.add t v T) = [] := by simp [putIn, hfull]
    rw [hfull]
    refine ⟨h.aligned, h.size, ?_, ?_⟩
    · simpa [inserted, hput] using h.order
    · simpa [inserted, returned, handOut, hput] using h.balance

theorem maxSize_sample (b : ReplayBufferImpl α) (n : ℕ) (c a : ℤ) :
    (b.sample n c a).2.maxSize = b.maxSize := by
  simp only [ReplayBufferImpl.sample]
  repeat' split
  all_goals rfl

theorem BufferInv.sample (h : BufferInv tr b) (n : ℕ) (c a : ℤ) :
    BufferInv ((b, .sample n c a) :: tr) (b.sample n c a).2 := by
  have hrep := h.aligned.represents
  have hsize : b.entries.length ≤ (b.sample n c a).2.maxSize := by
    rw [maxSize_sample, ← hrep.length_trajectories]
    exact h.size
  rcases hrep.sample n c a with ⟨-, ⟨avg, hok⟩, hrep', -⟩ | ⟨-, hnone, hrep', -⟩
  · have hsub := remaining_sublist b.entries n c a
    have hout : handOut b (.sample n c a) = (chosen b.entries n c a).map Entry.trajectory := by
      simp [handOut, hok]
    refine .of_represents hrep' (hsub.length_le.trans hsize) ?_ ?_
    · simpa [inserted, putIn] using hsub.trans h.order
    · have hperm : ((chosen b.entries n c a ++ remaining b.entries n c a).map
          Entry.trajectory).Subperm (b.entries.map Entry.trajectory) :=
        ((List.perm_append_comm.trans (remaining_append_chosen _ _ _ _)).map _).subperm.trans
          (List.filter_sublist.map _).subperm
      rw [List.map_append] at hperm
      have hbal := h.balance
      rw [h.aligned.trajectories_eq] at hbal
      simp only [inserted, putIn, List.append_nil, returned, hout, List.append_assoc]
      exact ((List.Subperm.refl _).append hperm).trans hbal
  · have hout : handOut b (.sample n c a) = [] := by
      simp only [handOut]
    have hsub : (live b.entries c a).Sublist b.entries := List.filter_sublist
    refine .of_represents hrep' (hsub.length_le.trans hsize) ?_ ?_
    · simpa [inserted, putIn] using hsub.trans h.order
    · simp only [inserted, putIn, List.append_nil, returned, hout]
      have hbal := h.balance
      rw [h.aligned.trajectories_eq] at hbal
      exact ((List.Subperm.refl _).append (hsub.map Entry.trajectory).subperm).trans hbal

theorem BufferInv.clear (h : BufferInv tr b) : BufferInv ((b, .clear) :: tr) b.clear := by
  refine .of_represents Represents.clear (by simp) (by simp) ?_
  simpa [inserted, returned, handOut, putIn] using
    (List.sublist_append_left _ _).subperm.trans h.balance

theorem BufferInv.load (h : BufferInv tr b) (st : CheckpointState α) (n : Option ℕ)
    (step age : Option ℤ) :
    BufferInv ((b, .load st n step age) :: tr) (b.loadStateDict st n step age).2 := by
  rcases loadStateDict_spec b st n step age with
    ⟨hok, hmax, ⟨es, hrep, hsub⟩, hsize⟩ | ⟨herr, hb⟩
  · have hput : putIn b (.load st n step age) = st.entries := by simp [putIn, hok]
    refine .of_represents hrep ?_ ?_ ?_
    · rw [hmax, ← hrep.length_trajectories]
      exact hsize
    · simp only [inserted, hput]
      exact hsub.trans (List.sublist_append_right _ _)
    · simp only [inserted, returned, handOut, hput, List.append_nil, List.map_append]
      exact ((List.sublist_append_left _ _).subperm.trans h.balance).append
        (hsub.map Entry.trajectory).subperm
  · have hput : putIn b (.load st n step age) = [] := by
      simp only [putIn]
      split
      · exact absurd ‹_› herr
      · rfl
    rw [hb]
    refine ⟨h.aligned, h.size, ?_, ?_⟩
    · simpa [inserted, hput] using h.order
    · simpa [inserted, returned, handOut, hput] using h.balance

/-- The invariant holds along every run. -/
theorem bufferInv_of_run (h : (system α).Run System.always tr b) : BufferInv tr b := by
  refine h.invariant_trace (fun b ⟨m, hm⟩ => bufferInv_init hm) ?_
  rintro tr b op b' hinv - hstep
  obtain rfl : b.apply op = b' := Option.some.inj hstep
  cases op with
  | add t v T => exact hinv.add t v T
  | sample n c a => exact hinv.sample n c a
  | clear => exact hinv.clear
  | load st n step age => exact hinv.load st n step age

/-! ## What every run guarantees -/

/-- What a call of `sample` guarantees. A successful call hands out the `n` earliest
entries that are meant for the step and inside its age window; it leaves the others
in their order, less the stale ones. A call that hands out nothing drops the stale
entries and no other. -/
def SampleContract (b : ReplayBufferImpl α) (n : ℕ) (c a : ℤ) : Prop :=
  (∀ r, (b.sample n c a).1 = .ok (some r) →
    r.trajectories = (chosen b.entries n c a).map Entry.trajectory ∧
    r.trajectories.length = n ∧
    (∀ e ∈ chosen b.entries n c a, e.target = c ∧ max 0 (c - a) ≤ e.version ∧ e.version ≤ c) ∧
    (b.sample n c a).2.entries.Sublist b.entries ∧
    ((b.sample n c a).2.entries ++ chosen b.entries n c a ++
      b.entries.filter fun e => decide (e.version < max 0 (c - a))).Perm b.entries) ∧
  ((∀ r, (b.sample n c a).1 ≠ .ok (some r)) →
    (b.sample n c a).2.entries = b.entries.filter fun e => !decide (e.version < max 0 (c - a)))

theorem Aligned.sampleContract (h : b.Aligned) (n : ℕ) (c a : ℤ) : SampleContract b n c a := by
  have heligible : ∀ e ∈ chosen b.entries n c a,
      e.target = c ∧ max 0 (c - a) ≤ e.version ∧ e.version ≤ c := by
    intro e he
    have := (List.mem_filter.mp (List.mem_of_mem_take he)).2
    simpa [Entry.eligible, minValidVersion] using this
  rcases h.represents.sample n c a with ⟨⟨-, hn⟩, ⟨avg, hok⟩, hrep, -⟩ | ⟨-, hnone, hrep, -⟩
  · refine ⟨fun r hr => ?_, fun hne => (hne _ hok).elim⟩
    obtain rfl : _ = r := Option.some.inj (Except.ok.inj (hok.symm.trans hr))
    rw [hrep.entries_eq]
    refine ⟨rfl, ?_, heligible, remaining_sublist _ _ _ _, ?_⟩
    · rw [List.length_map, length_chosen hn]
    · have hlive := (remaining_append_chosen b.entries n c a).append_right
        (b.entries.filter fun e => decide (e.version < max 0 (c - a)))
      exact hlive.trans (List.perm_append_comm.trans (List.filter_append_perm _ b.entries))
  · exact ⟨fun r hr => (hnone r hr).elim, fun _ => hrep.entries_eq⟩

/-- The watermark never decreases through `add` and `sample`. -/
theorem le_lastTarget_add (b : ReplayBufferImpl α) (t : α) (v T : ℤ) :
    b.lastTargetWeightAlreadyGenerated ≤ (b.add t v T).2.lastTargetWeightAlreadyGenerated := by
  simp only [ReplayBufferImpl.add]
  split <;> exact le_rfl

theorem Aligned.le_lastTarget_sample (h : b.Aligned) (n : ℕ) (c a : ℤ) :
    b.lastTargetWeightAlreadyGenerated ≤
      (b.sample n c a).2.lastTargetWeightAlreadyGenerated := by
  rcases h.represents.sample n c a with ⟨-, -, -, hlast⟩ | ⟨-, -, -, hlast⟩
  · rw [hlast]
    exact le_max_left _ _
  · exact hlast.ge

/-- After any sequence of calls on a fresh buffer: the lists have one length, at
most the capacity; the buffer lists entries that were put in, in order of insertion;
every entry put in, by `add` or by a checkpoint, is handed out at most once; every
call of `sample` meets its contract; and the watermark does not decrease. -/
theorem replayBuffer_run (h : (system α).Run System.always tr b) :
    (b.trajectories.length = b.trajectoryVersions.length ∧
      b.trajectoryVersions.length = b.targetWeightVersions.length ∧
      b.trajectories.length ≤ b.maxSize) ∧
    b.entries.Sublist (inserted tr) ∧
    (returned tr ++ b.trajectories).Subperm ((inserted tr).map Entry.trajectory) ∧
    (∀ n c a, SampleContract b n c a) ∧
    (∀ t v T, b.lastTargetWeightAlreadyGenerated ≤
      (b.add t v T).2.lastTargetWeightAlreadyGenerated) ∧
    (∀ n c a, b.lastTargetWeightAlreadyGenerated ≤
      (b.sample n c a).2.lastTargetWeightAlreadyGenerated) := by
  have hinv := bufferInv_of_run h
  exact ⟨⟨hinv.aligned.1, hinv.aligned.2, hinv.size⟩, hinv.order, hinv.balance,
    hinv.aligned.sampleContract, le_lastTarget_add b, hinv.aligned.le_lastTarget_sample⟩

/-- The calls of a run that restores a group after it was handed out. -/
def restoreRun : List (Op ℕ) :=
  [.add 7 0 0, .sample 1 0 0, .load ⟨some [7], some [0], some [0], some (-1)⟩ none none none,
    .sample 1 0 0]

/-- The run of `restoreRun` on a buffer of capacity 2. -/
theorem restoreRun_run :
    (system ℕ).Run System.always ((system ℕ).trace ⟨2, [], [], [], -1⟩ restoreRun)
      ⟨2, [], [], [], 0⟩ := by
  have hinit : (system ℕ).Run System.always [] ⟨2, [], [], [], -1⟩ := .init ⟨2, rfl⟩
  have hexec : (system ℕ).exec ⟨2, [], [], [], -1⟩ restoreRun = some ⟨2, [], [], [], 0⟩ := by
    decide
  simpa using hinit.exec restoreRun (fun _ _ => trivial) hexec

/-- The guarantees at the end of `restoreRun`. -/
theorem replayBuffer_run_restoreRun :
    (returned ((system ℕ).trace ⟨2, [], [], [], -1⟩ restoreRun) ++ []).Subperm
      ((inserted ((system ℕ).trace ⟨2, [], [], [], -1⟩ restoreRun)).map Entry.trajectory) :=
  (replayBuffer_run restoreRun_run).2.2.1

/-- A group that was added once can be handed out twice, when a checkpoint that lists
it is restored in between. -/
theorem not_returned_at_most_once :
    ¬ ∀ (tr : List (ReplayBufferImpl ℕ × Op ℕ)) (b : ReplayBufferImpl ℕ),
      (system ℕ).Run System.always tr b →
        ∀ t ∈ added tr, (returned tr).count t ≤ (added tr).count t := by
  intro h
  have := h _ _ restoreRun_run 7 (by decide)
  exact absurd this (by decide)

end ReplayBufferImpl
end NemoRL.AsyncUtils
