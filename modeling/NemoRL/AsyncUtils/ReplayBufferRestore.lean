import NemoRL.AsyncUtils.ReplayBufferSpec

/-!
# Resuming from a checkpoint

A restore for a known training step goes through three passes: past targets are dropped,
then entries that are stale for their own target, then the buffer is cut to its capacity.
On the abstract entries the first two passes are filters, and the third keeps the entries
of the lowest targets, in their old order.

## Main definitions

* `CheckpointState.WellFormed` — all keys are there and the lists are parallel.
* `Entry.restorable` — an entry that the filters keep.

## Main results

* `loadStateDict_resume` — what a restore for a training step leaves in the buffer.
-/

namespace NemoRL.AsyncUtils

open Lib

/-- A checkpoint with all keys whose lists have one length. -/
def CheckpointState.WellFormed {α : Type*} (st : CheckpointState α) : Prop :=
  ∃ trajectories trajectoryVersions targetWeightVersions lastTarget,
    st = ⟨some trajectories, some trajectoryVersions, some targetWeightVersions,
      some lastTarget⟩ ∧
    trajectories.length = trajectoryVersions.length ∧
    trajectoryVersions.length = targetWeightVersions.length

/-- An entry for step `s` or later that is in the age window of its own target. -/
def Entry.restorable {α : Type*} (s a : ℤ) (e : Entry α) : Bool :=
  decide (s ≤ e.target ∧ max 0 (e.target - a) ≤ e.version ∧ e.version ≤ e.target)

namespace ReplayBufferImpl
variable {α : Type*} {b : ReplayBufferImpl α} {es : List (Entry α)}

/-! ## The filters -/

namespace Represents

theorem prepareForTrainingStep (h : Represents b es) (s : ℤ) :
    Represents (b.prepareForTrainingStep s) (es.filter fun e => decide (s ≤ e.target)) := by
  have hindices : indicesWhere (fun t => decide (s ≤ t)) b.targetWeightVersions =
      indicesWhere (fun e : Entry α => decide (s ≤ e.target)) es := by
    rw [h.targets, indicesWhere_map]
  have hkept := h.keepIndices (indicesWhere (fun t => decide (s ≤ t)) b.targetWeightVersions)
  have hselect : select es (indicesWhere (fun t => decide (s ≤ t)) b.targetWeightVersions) =
      es.filter fun e => decide (s ≤ e.target) := by
    rw [hindices, select_indicesWhere]
  rw [hselect] at hkept
  simp only [ReplayBufferImpl.prepareForTrainingStep]
  split
  case isTrue => exact ⟨hkept.1, hkept.2, hkept.3⟩
  case isFalse hall =>
    rw [hindices, length_indicesWhere, h.length_trajectories, not_lt] at hall
    rw [List.filter_sublist.eq_of_length_le hall]
    exact ⟨h.1, h.2, h.3⟩

theorem removeStaleTrajectories (h : Represents b es) (a : ℤ) :
    Represents (b.removeStaleTrajectories a)
      (es.filter fun e => isValidForTarget e.version e.target (some a)) := by
  have hindices : indicesWhere (fun p : ℤ × ℤ => !isValidForTarget p.1 p.2 (some a))
      (b.trajectoryVersions.zip b.targetWeightVersions) =
      indicesWhere (fun e : Entry α => !isValidForTarget e.version e.target (some a)) es := by
    rw [h.zip_eq, indicesWhere_map]
  have hdrop := dropIndices_indicesWhere
    (fun e : Entry α => !isValidForTarget e.version e.target (some a)) es
  simp only [Bool.not_not] at hdrop
  have hremoved := h.removeIndices
    (indicesWhere (fun e : Entry α => !isValidForTarget e.version e.target (some a)) es)
  rw [popIndices_eq_dropIndices _ (nodup_indicesWhere _ _), hdrop] at hremoved
  simp only [ReplayBufferImpl.removeStaleTrajectories, hindices]
  split
  case isTrue hnone =>
    rw [hnone, dropIndices_nil] at hdrop
    rwa [← hdrop]
  case isFalse => exact hremoved

end Represents

/-- The two filters of a restore for a training step. -/
theorem Represents.restore (h : Represents b es) (n : ℕ) (s a : ℤ) :
    Represents ((b.restoreTargets (some n) (some s)).restoreAge (some n) (some s) (some a))
      (es.filter (Entry.restorable s a)) := by
  have hsplit : es.filter (Entry.restorable s a) =
      (es.filter fun e => decide (s ≤ e.target)).filter fun e =>
        isValidForTarget e.version e.target (some a) := by
    rw [List.filter_filter]
    refine List.filter_congr fun e _ => ?_
    simp [Entry.restorable, isValidForTarget, Bool.and_comm]
  have htargets := h.prepareForTrainingStep s
  rw [hsplit, restoreTargets, restoreAge]
  split
  case isTrue hnil =>
    have hempty := htargets.eq_nil_iff.mp hnil
    rw [hempty] at htargets ⊢
    exact htargets
  case isFalse => exact htargets.removeStaleTrajectories a

theorem lastTarget_restore (b : ReplayBufferImpl α) (n : ℕ) (s a : ℤ) :
    ((b.restoreTargets (some n) (some s)).restoreAge (some n) (some s)
      (some a)).lastTargetWeightAlreadyGenerated = s - 1 ∧
    ((b.restoreTargets (some n) (some s)).restoreAge (some n) (some s) (some a)).maxSize =
      b.maxSize := by
  have hprepare : (b.prepareForTrainingStep s).maxSize = b.maxSize := by
    simp only [prepareForTrainingStep]
    split <;> rfl
  rw [restoreTargets, restoreAge]
  split
  case isTrue => exact ⟨rfl, hprepare⟩
  case isFalse =>
    simp only [removeStaleTrajectories]
    split <;> exact ⟨rfl, hprepare⟩

/-! ## The capacity -/

/-- The positions that a truncation for a training step keeps: as many as fit, in order,
none with a larger target than one that is dropped. -/
structure KeepsLowest (es : List (Entry α)) (maxSize : ℕ) (is : List ℕ) : Prop where
  sublist : is.Sublist (List.range es.length)
  length : is.length = min maxSize es.length
  lowest : ∀ (i j : ℕ) (e d : Entry α), i ∈ is → j ∉ is → es[i]? = some e → es[j]? = some d →
    e.target ≤ d.target

theorem keepsLowest_range {maxSize : ℕ} (hle : es.length ≤ maxSize) :
    KeepsLowest es maxSize (List.range es.length) := by
  refine ⟨List.Sublist.refl _, by simp [hle], fun i j e d _ hj _ hd => ?_⟩
  obtain ⟨hlt, -⟩ := List.getElem?_eq_some_iff.mp hd
  exact (hj (List.mem_range.mpr hlt)).elim

/-- Taking the first positions of a list sorted by target. -/
theorem keepsLowest_of_sorted (maxSize : ℕ) {ps : List ℕ}
    (hperm : ps.Perm (List.range es.length))
    (hsorted : ps.Pairwise fun i j => ∀ e d, es[i]? = some e → es[j]? = some d →
      e.target ≤ d.target) :
    KeepsLowest es maxSize ((ps.take maxSize).insertionSort (· ≤ ·)) := by
  have hlen : ps.length = es.length := by simpa using hperm.length_eq
  have hnodup : ps.Nodup := hperm.nodup_iff.mpr List.nodup_range
  constructor
  · refine insertionSort_sublist_range (hnodup.sublist (List.take_sublist _ _)) fun i hi => ?_
    exact List.mem_range.mp (hperm.mem_iff.mp (List.mem_of_mem_take hi))
  · rw [List.length_insertionSort, List.length_take, hlen]
  · intro i j e d hi hj he hd
    rw [(List.perm_insertionSort (· ≤ ·) (ps.take maxSize)).mem_iff] at hi hj
    have hmem : j ∈ ps := by
      obtain ⟨hjlt, -⟩ := List.getElem?_eq_some_iff.mp hd
      exact hperm.mem_iff.mpr (List.mem_range.mpr hjlt)
    rw [← List.take_append_drop maxSize ps] at hsorted hmem
    have hdrop : j ∈ ps.drop maxSize := (List.mem_append.mp hmem).resolve_left hj
    exact (List.pairwise_append.mp hsorted).2.2 i hi j hdrop e d he hd

/-- Sorting by a key, positions breaking ties, sorts the key. -/
theorem pairwise_insertionSort_target (target : ℕ → ℤ) (is : List ℕ) :
    (is.insertionSort fun i j => target i < target j ∨ target i = target j ∧ i ≤ j).Pairwise
      fun i j => target i ≤ target j := by
  have htotal : Std.Total fun i j => target i < target j ∨ target i = target j ∧ i ≤ j :=
    ⟨fun i j => by omega⟩
  have htrans : IsTrans ℕ fun i j => target i < target j ∨ target i = target j ∧ i ≤ j :=
    ⟨fun i j k => by omega⟩
  refine (List.pairwise_insertionSort _ is).imp fun h => ?_
  omega

theorem Represents.truncateToMaxSize (h : Represents b es) (s : ℤ) :
    ∃ is, KeepsLowest es b.maxSize is ∧
      Represents (b.truncateToMaxSize (some s)) (select es is) := by
  rw [ReplayBufferImpl.truncateToMaxSize]
  split
  case isTrue hle =>
    rw [h.length_trajectories] at hle
    exact ⟨_, keepsLowest_range hle, by rwa [select_range]⟩
  case isFalse hgt =>
    rw [h.length_trajectories, not_le] at hgt
    simp only [h.length_trajectories]
    refine ⟨_, keepsLowest_of_sorted _ (List.perm_insertionSort _ _) ?_, h.keepIndices _⟩
    refine (pairwise_insertionSort_target _ _).imp fun {i j} hle e d he hd => ?_
    have htarget : ∀ i e, es[i]? = some e → b.targetWeightVersions.getD i 0 = e.target := by
      intro i e he
      rw [h.targets, List.getD_eq_getElem?_getD, List.getElem?_map, he]
      rfl
    rw [htarget i e he, htarget j d hd] at hle
    exact hle

theorem lastTarget_truncateToMaxSize (b : ReplayBufferImpl α) (step : Option ℤ) :
    (b.truncateToMaxSize step).lastTargetWeightAlreadyGenerated =
      b.lastTargetWeightAlreadyGenerated := by
  simp only [truncateToMaxSize]
  split <;> rfl

theorem maxSize_truncateToMaxSize (b : ReplayBufferImpl α) (step : Option ℤ) :
    (b.truncateToMaxSize step).maxSize = b.maxSize := by
  simp only [truncateToMaxSize]
  split <;> rfl

/-! ## The restore -/

/-- A restore for training step `s` accepts exactly the well-formed checkpoints. It keeps
the entries for step `s` or later in the age window of their target, as many as fit, in
order and none with a larger target than one it drops, and resumes at `s`. A malformed
checkpoint is refused with a `ValueError`, and the buffer stays as it was. -/
theorem loadStateDict_resume (b : ReplayBufferImpl α) (st : CheckpointState α) (n : ℕ) (s a : ℤ) :
    (st.WellFormed →
      (b.loadStateDict st (some n) (some s) (some a)).1 = .ok () ∧
      (b.loadStateDict st (some n) (some s) (some a)).2.lastTargetWeightAlreadyGenerated = s - 1 ∧
      (b.loadStateDict st (some n) (some s) (some a)).2.maxSize = b.maxSize ∧
      ∃ is, KeepsLowest (st.entries.filter (Entry.restorable s a)) b.maxSize is ∧
        Represents (b.loadStateDict st (some n) (some s) (some a)).2
          (select (st.entries.filter (Entry.restorable s a)) is)) ∧
    (¬st.WellFormed → ∃ message,
      b.loadStateDict st (some n) (some s) (some a) = (.error ⟨.valueError, message⟩, b)) := by
  constructor
  · rintro ⟨ts, vs, targets, last, rfl, hts, hvs⟩
    have hload : loadStateDict b ⟨some ts, some vs, some targets, some last⟩ (some n) (some s)
        (some a) =
        (.ok (), (((⟨b.maxSize, ts, vs, targets, last⟩ : ReplayBufferImpl α).restoreTargets
          (some n) (some s)).restoreAge (some n) (some s) (some a)).truncateToMaxSize
            (some s)) := by
      simp only [loadStateDict, if_pos (And.intro hts hvs)]
    have hloaded : Represents ⟨b.maxSize, ts, vs, targets, last⟩
        (CheckpointState.entries ⟨some ts, some vs, some targets, some last⟩) :=
      Represents.of_lengths hts hvs
    obtain ⟨hlast, hsize⟩ := lastTarget_restore ⟨b.maxSize, ts, vs, targets, last⟩ n s a
    obtain ⟨is, hkeeps, hrepresents⟩ := (hloaded.restore n s a).truncateToMaxSize s
    rw [hload]
    refine ⟨rfl, ?_, ?_, is, ?_, hrepresents⟩
    · rw [lastTarget_truncateToMaxSize, hlast]
    · rw [maxSize_truncateToMaxSize, hsize]
    · rwa [hsize] at hkeeps
  · intro hmalformed
    obtain ⟨_ | ts, _ | vs, _ | targets, _ | last⟩ := st
    case some.some.some.some =>
      have hlen : ¬(ts.length = vs.length ∧ vs.length = targets.length) := fun hlen =>
        hmalformed ⟨ts, vs, targets, last, rfl, hlen⟩
      exact ⟨_, by simp only [loadStateDict, if_neg hlen]; rfl⟩
    all_goals exact ⟨_, rfl⟩

end ReplayBufferImpl
end NemoRL.AsyncUtils
