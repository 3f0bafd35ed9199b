import NemoRL.AsyncUtils.ReplayBuffer

/-!
# The replay buffer as a list of entries

The purpose of the buffer is stated on one list of entries, oldest first. A
buffer `Represents` such a list when its three lists are the three columns of it,
and every method acts on the list by an operation that a reader can state in a
line: an eviction is a `filter`, a sample deletes the first groups meant for the
current step, a restore keeps a sublist of what the checkpoint lists.

## Main definitions

* `Entry`, `Represents` — the abstract entries and the representation relation.
* `live`, `chosen`, `remaining` — what a sample keeps, hands out and leaves.

## Main results

* `Represents.sample` — what a call of `sample` can do, in terms of entries.
* `loadStateDict_spec` — what a restore can do.
-/

namespace NemoRL.AsyncUtils

open Lib

/-- One prompt group with the versions recorded for it. -/
structure Entry (α : Type*) where
  trajectory : α
  version : ℤ
  target : ℤ
  deriving DecidableEq, Repr

/-- Whether an entry is below the age window of step `c`. -/
def Entry.stale {α : Type*} (c a : ℤ) (e : Entry α) : Bool :=
  decide (e.version < ReplayBufferImpl.minValidVersion c a)

/-- Whether an entry is meant for step `c` and inside its age window. -/
def Entry.eligible {α : Type*} (c a : ℤ) (e : Entry α) : Bool :=
  decide (e.target = c ∧ ReplayBufferImpl.minValidVersion c a ≤ e.version ∧ e.version ≤ c)

/-- The entries that a checkpoint lists. -/
def CheckpointState.entries {α : Type*} (st : CheckpointState α) : List (Entry α) :=
  List.zipWith (fun t p => ⟨t, p.1, p.2⟩) (st.trajectories.getD [])
    ((st.trajectoryVersions.getD []).zip (st.targetWeightVersions.getD []))

namespace ReplayBufferImpl
variable {α : Type*} {b : ReplayBufferImpl α} {es : List (Entry α)}

/-- The three lists of a buffer are the columns of one list of entries. -/
structure Represents (b : ReplayBufferImpl α) (es : List (Entry α)) : Prop where
  trajectories : b.trajectories = es.map Entry.trajectory
  versions : b.trajectoryVersions = es.map Entry.version
  targets : b.targetWeightVersions = es.map Entry.target

/-- The entries of a buffer, oldest first. -/
def entries (b : ReplayBufferImpl α) : List (Entry α) :=
  List.zipWith (fun t p => ⟨t, p.1, p.2⟩) b.trajectories
    (b.trajectoryVersions.zip b.targetWeightVersions)

/-! ## Each method on entries -/

namespace Represents

theorem length_trajectories (h : Represents b es) : b.trajectories.length = es.length := by
  rw [h.trajectories, List.length_map]

theorem eq_nil_iff (h : Represents b es) : b.trajectories = [] ↔ es = [] := by
  rw [h.trajectories, List.map_eq_nil_iff]

theorem entries_eq (h : Represents b es) : b.entries = es := by
  rw [entries, h.trajectories, h.versions, h.targets, List.zip_map', List.zipWith_map]
  simp

theorem zip_eq (h : Represents b es) :
    b.trajectoryVersions.zip b.targetWeightVersions = es.map fun e => (e.version, e.target) := by
  rw [h.versions, h.targets, List.zip_map']

/-- Three lists of equal length are the columns of their entries. -/
theorem of_lengths (h1 : b.trajectories.length = b.trajectoryVersions.length)
    (h2 : b.trajectoryVersions.length = b.targetWeightVersions.length) :
    Represents b b.entries := by
  constructor <;> apply List.ext_getElem <;> simp [entries] <;> omega

theorem add (h : Represents b es) (t : α) (v T : ℤ) (hroom : b.trajectories.length < b.maxSize) :
    (b.add t v T).1 = .success ∧ Represents (b.add t v T).2 (es ++ [⟨t, v, T⟩]) := by
  have hnot : ¬ b.maxSize ≤ b.trajectories.length := by omega
  rw [ReplayBufferImpl.add, if_neg hnot]
  exact ⟨rfl, by simp [h.trajectories], by simp [h.versions], by simp [h.targets]⟩

theorem removeIndices (h : Represents b es) (is : List ℕ) :
    Represents (b.removeIndices is) (popIndices es is) := by
  constructor <;>
    simp [ReplayBufferImpl.removeIndices, h.trajectories, h.versions, h.targets, popIndices_map]

theorem keepIndices (h : Represents b es) (is : List ℕ) :
    Represents (b.keepIndices is) (select es is) := by
  constructor <;>
    simp [ReplayBufferImpl.keepIndices, h.trajectories, h.versions, h.targets, select_map]

theorem evictOld (h : Represents b es) (c a : ℤ) :
    Represents (b.evictOld (minValidVersion c a)) (es.filter fun e => !e.stale c a) := by
  have hrem := h.removeIndices
    (indicesWhere (fun v => decide (v < minValidVersion c a)) b.trajectoryVersions)
  rw [popIndices_eq_dropIndices _ (nodup_indicesWhere _ _), h.versions, indicesWhere_map,
    dropIndices_indicesWhere] at hrem
  simpa only [ReplayBufferImpl.evictOld, Entry.stale, h.versions, indicesWhere_map] using hrem

theorem clear : Represents b.clear [] := ⟨rfl, rfl, rfl⟩

end Represents

/-- The entries that survive the eviction of a call of `sample`. -/
def live (es : List (Entry α)) (c a : ℤ) : List (Entry α) := es.filter fun e => !e.stale c a

/-- The entries that a successful call of `sample` hands out. -/
def chosen (es : List (Entry α)) (n : ℕ) (c a : ℤ) : List (Entry α) :=
  (es.filter fun e => e.eligible c a).take n

/-- The entries that a successful call of `sample` leaves. -/
def remaining (es : List (Entry α)) (n : ℕ) (c a : ℤ) : List (Entry α) :=
  dropIndices (live es c a) ((indicesWhere (fun e => e.eligible c a) (live es c a)).take n)

/-- Eviction never touches a group that the step may train on. -/
theorem filter_eligible_live (es : List (Entry α)) (c a : ℤ) :
    ((live es c a).filter fun e => e.eligible c a) = es.filter fun e => e.eligible c a := by
  rw [live, List.filter_filter]
  apply List.filter_congr
  intro e _
  rw [Bool.eq_iff_iff]
  simp only [Entry.eligible, Entry.stale, Bool.and_eq_true, decide_eq_true_eq, Bool.not_eq_true',
    decide_eq_false_iff_not]
  omega

theorem remaining_sublist (es : List (Entry α)) (n : ℕ) (c a : ℤ) :
    (remaining es n c a).Sublist es :=
  (dropIndices_sublist _ _).trans List.filter_sublist

/-- What is left and what is handed out make up what survived the eviction. -/
theorem remaining_append_chosen (es : List (Entry α)) (n : ℕ) (c a : ℤ) :
    (remaining es n c a ++ chosen es n c a).Perm (live es c a) := by
  have h := dropIndices_take_perm (fun e : Entry α => e.eligible c a) (live es c a) n
  rwa [filter_eligible_live] at h

theorem length_chosen {n : ℕ} {c a : ℤ}
    (h : n ≤ (es.filter fun e => e.eligible c a).length) : (chosen es n c a).length = n := by
  rw [chosen, List.length_take]
  omega

private theorem validIndices_eq (h : Represents b (live es c a)) :
    indicesWhere (fun v => decide (minValidVersion c a ≤ v ∧ v ≤ c)) b.trajectoryVersions =
      indicesWhere (fun e : Entry α => decide (minValidVersion c a ≤ e.version ∧ e.version ≤ c))
        (live es c a) := by
  rw [h.versions, indicesWhere_map]

private theorem intendedIndices_eq (h : Represents b (live es c a)) :
    ((indicesWhere (fun v => decide (minValidVersion c a ≤ v ∧ v ≤ c))
        b.trajectoryVersions).filter fun i =>
          (b.targetWeightVersions[i]?.map (fun t => decide (t = c))).getD false) =
      indicesWhere (fun e => e.eligible c a) (live es c a) := by
  have htest : ∀ i : ℕ, (b.targetWeightVersions[i]?.map fun t => decide (t = c)) =
      (live es c a)[i]?.map (fun e : Entry α => decide (e.target = c)) := by
    intro i
    rw [h.targets, List.getElem?_map, Option.map_map]
    rfl
  simp only [validIndices_eq h, htest]
  rw [filter_indicesWhere]
  congr 1
  funext e
  simp only [Entry.eligible, ← Bool.decide_and]
  exact decide_eq_decide.mpr and_comm

/-- What a call of `sample` can do: it hands out the first groups meant for the
step, or it only evicts. -/
theorem Represents.sample (h : Represents b es) (n : ℕ) (c a : ℤ) :
    ((0 < n ∧ n ≤ (es.filter fun e => e.eligible c a).length) ∧
      (∃ avg, (b.sample n c a).1 =
        .ok (some ⟨(chosen es n c a).map Entry.trajectory, avg⟩)) ∧
      Represents (b.sample n c a).2 (remaining es n c a) ∧
      (b.sample n c a).2.lastTargetWeightAlreadyGenerated =
        max b.lastTargetWeightAlreadyGenerated c) ∨
    (¬ (0 < n ∧ n ≤ (es.filter fun e => e.eligible c a).length) ∧
      (∀ r, (b.sample n c a).1 ≠ .ok (some r)) ∧
      Represents (b.sample n c a).2 (live es c a) ∧
      (b.sample n c a).2.lastTargetWeightAlreadyGenerated =
        b.lastTargetWeightAlreadyGenerated) := by
  have hlive : Represents (b.evictOld (minValidVersion c a)) (live es c a) := h.evictOld c a
  have hlast : (b.evictOld (minValidVersion c a)).lastTargetWeightAlreadyGenerated =
    b.lastTargetWeightAlreadyGenerated := rfl
  have hintended := intendedIndices_eq hlive
  have hcount : (indicesWhere (fun e => e.eligible c a) (live es c a)).length =
      (es.filter fun e => e.eligible c a).length := by
    rw [length_indicesWhere, filter_eligible_live]
  have hle : (indicesWhere (fun e => e.eligible c a) (live es c a)).length ≤
      (indicesWhere (fun v => decide (minValidVersion c a ≤ v ∧ v ≤ c))
        (b.evictOld (minValidVersion c a)).trajectoryVersions).length := by
    rw [← hintended]
    exact List.length_filter_le _ _
  simp only [ReplayBufferImpl.sample]
  split
  case isTrue hnil =>
    right
    obtain rfl : es = [] := h.eq_nil_iff.mp hnil
    exact ⟨by simp; omega, by simp, h, rfl⟩
  case isFalse hnil =>
    split
    case isTrue hvalid =>
      right
      rw [hvalid, List.length_nil] at hle
      exact ⟨by omega, by simp, hlive, hlast⟩
    case isFalse hvalid =>
      split
      case isTrue hshort => exact .inr ⟨by omega, by simp, hlive, hlast⟩
      case isFalse hshort =>
        simp only [hintended]
        split
        case isTrue hfew => exact .inr ⟨by omega, by simp, hlive, hlast⟩
        case isFalse hfew =>
          have hweights : select (b.evictOld (minValidVersion c a)).trajectoryVersions
              ((indicesWhere (fun e => e.eligible c a) (live es c a)).take n) =
              (chosen es n c a).map Entry.version := by
            rw [hlive.versions, select_map, select_take_indicesWhere, filter_eligible_live, chosen]
          have hitems : select (b.evictOld (minValidVersion c a)).trajectories
              ((indicesWhere (fun e => e.eligible c a) (live es c a)).take n) =
              (chosen es n c a).map Entry.trajectory := by
            rw [hlive.trajectories, select_map, select_take_indicesWhere, filter_eligible_live,
              chosen]
          have hlen : (chosen es n c a).length = n := length_chosen (by omega)
          rw [hweights, hitems]
          split
          case isTrue hzero =>
            right
            have : n = 0 := by rw [← hlen, List.map_eq_nil_iff.mp hzero, List.length_nil]
            exact ⟨by omega, by simp, hlive, hlast⟩
          case isFalse hzero =>
            left
            have hpos : 0 < n := by
              rw [← hlen]
              exact List.length_pos_iff.mpr fun hc => hzero (by rw [hc]; rfl)
            have hrem := hlive.removeIndices
              ((indicesWhere (fun e => e.eligible c a) (live es c a)).take n)
            rw [popIndices_eq_dropIndices _ (nodup_take_indicesWhere _ _ _)] at hrem
            exact ⟨⟨hpos, by omega⟩, ⟨_, rfl⟩, ⟨hrem.1, hrem.2, hrem.3⟩, rfl⟩

/-! ## Restoring a checkpoint -/

/-- `b'` holds a part of the entries of `b`, in the same order. -/
def ShrinksTo (b b' : ReplayBufferImpl α) : Prop :=
  b'.maxSize = b.maxSize ∧
    ∀ es, Represents b es → ∃ es', Represents b' es' ∧ es'.Sublist es

namespace ShrinksTo
variable {b' b'' : ReplayBufferImpl α}

theorem refl (b : ReplayBufferImpl α) : ShrinksTo b b := ⟨rfl, fun es h => ⟨es, h, .refl es⟩⟩

theorem trans (h : ShrinksTo b b') (h' : ShrinksTo b' b'') : ShrinksTo b b'' := by
  refine ⟨h'.1.trans h.1, fun es hes => ?_⟩
  obtain ⟨es', hes', hsub⟩ := h.2 es hes
  obtain ⟨es'', hes'', hsub'⟩ := h'.2 es' hes'
  exact ⟨es'', hes'', hsub'.trans hsub⟩

/-- Writing the watermark moves no entry. -/
theorem withLast (h : ShrinksTo b b') (v : ℤ) :
    ShrinksTo b { b' with lastTargetWeightAlreadyGenerated := v } := by
  refine ⟨h.1, fun es hes => ?_⟩
  obtain ⟨es', hes', hsub⟩ := h.2 es hes
  exact ⟨es', ⟨hes'.1, hes'.2, hes'.3⟩, hsub⟩

theorem keepIndices {is : List ℕ} (h : is.Sublist (List.range b.trajectories.length)) :
    ShrinksTo b (b.keepIndices is) := by
  refine ⟨rfl, fun es hes => ⟨select es is, hes.keepIndices is, select_sublist ?_⟩⟩
  rwa [← hes.length_trajectories]

theorem removeIndices {is : List ℕ} (h : is.Nodup) : ShrinksTo b (b.removeIndices is) := by
  refine ⟨rfl, fun es hes => ⟨popIndices es is, hes.removeIndices is, ?_⟩⟩
  rw [popIndices_eq_dropIndices es h]
  exact dropIndices_sublist es is

end ShrinksTo

/-- Three parallel lists of one length. -/
def Aligned (b : ReplayBufferImpl α) : Prop :=
  b.trajectories.length = b.trajectoryVersions.length ∧
    b.trajectoryVersions.length = b.targetWeightVersions.length

theorem Represents.aligned (h : Represents b es) : b.Aligned := by
  simp [Aligned, h.trajectories, h.versions, h.targets]

theorem Aligned.represents (h : b.Aligned) : Represents b b.entries := .of_lengths h.1 h.2

theorem ShrinksTo.aligned {b' : ReplayBufferImpl α} (h : ShrinksTo b b') (hb : b.Aligned) :
    b'.Aligned := by
  obtain ⟨es', hes', -⟩ := h.2 _ hb.represents
  exact hes'.aligned

private theorem shrinksTo_prepareForTrainingStep (hb : b.Aligned) (step : ℤ) :
    ShrinksTo b (b.prepareForTrainingStep step) := by
  have hsub := indicesWhere_sublist_range (fun t => decide (step ≤ t)) b.targetWeightVersions
  rw [← hb.2, ← hb.1] at hsub
  simp only [prepareForTrainingStep]
  split
  · exact (ShrinksTo.keepIndices hsub).withLast _
  · exact (ShrinksTo.refl b).withLast _

private theorem shrinksTo_removeIncompleteTargetSteps (hb : b.Aligned) (n : ℕ) :
    ShrinksTo b (b.removeIncompleteTargetSteps n) := by
  have hsub := indicesWhere_sublist_range
    (fun t => !decide (b.targetWeightVersions.count t < n)) b.targetWeightVersions
  rw [← hb.2, ← hb.1] at hsub
  simp only [removeIncompleteTargetSteps]
  split
  · exact (ShrinksTo.keepIndices hsub).withLast _
  · exact .refl b

private theorem shrinksTo_removeStaleTrajectories (a : ℤ) :
    ShrinksTo b (b.removeStaleTrajectories a) := by
  simp only [removeStaleTrajectories]
  split
  · exact .refl b
  · exact .removeIndices (nodup_indicesWhere _ _)

private theorem shrinksTo_restoreTargets (hb : b.Aligned) (n : Option ℕ) (step : Option ℤ) :
    ShrinksTo b (b.restoreTargets n step) := by
  rcases step with - | step <;> rcases n with - | n
  · exact .refl b
  · simp only [restoreTargets]
    split
    · exact .refl b
    · exact shrinksTo_removeIncompleteTargetSteps hb n
  · exact .refl b
  · exact shrinksTo_prepareForTrainingStep hb step

private theorem shrinksTo_restoreAge (hb : b.Aligned) (n : Option ℕ) (step age : Option ℤ) :
    ShrinksTo b (b.restoreAge n step age) := by
  rcases age with - | a
  · exact .refl b
  · have hstale := shrinksTo_removeStaleTrajectories (b := b) a
    simp only [restoreAge]
    split
    · exact .refl b
    · split
      · exact hstale.trans (shrinksTo_removeIncompleteTargetSteps (hstale.aligned hb) _)
      · exact hstale

/-- The positions that truncation keeps are distinct, in range, and at most as many
as the capacity. -/
private theorem truncateToMaxSize_spec (b : ReplayBufferImpl α) (step : Option ℤ) :
    ShrinksTo b (b.truncateToMaxSize step) ∧
      (b.truncateToMaxSize step).trajectories.length ≤ b.maxSize := by
  unfold truncateToMaxSize
  split
  case isTrue h => exact ⟨.refl b, h⟩
  case isFalse h =>
    have hkeep : ∀ is : List ℕ, is.Sublist (List.range b.trajectories.length) →
        is.length ≤ b.maxSize → ShrinksTo b (b.keepIndices is) ∧
          (b.keepIndices is).trajectories.length ≤ b.maxSize := by
      intro is hsub hlen
      refine ⟨.keepIndices hsub, le_trans (le_of_eq ?_) hlen⟩
      exact length_select fun i hi => List.mem_range.mp (hsub.subset hi)
    cases step with
    | none =>
      refine hkeep _ ?_ (by simp)
      have : List.range' (b.trajectories.length - b.maxSize) b.maxSize =
          (List.range b.trajectories.length).drop (b.trajectories.length - b.maxSize) := by
        rw [List.range_eq_range', List.drop_range', Nat.zero_add, Nat.mul_one,
          Nat.sub_sub_self (by omega)]
      rw [this]
      exact List.drop_sublist _ _
    | some s =>
      have hperm : ∀ r : ℕ → ℕ → Prop, ∀ [DecidableRel r],
          ((List.range b.trajectories.length).insertionSort r).Perm
            (List.range b.trajectories.length) := fun r _ => List.perm_insertionSort r _
      refine hkeep _ (insertionSort_sublist_range ?_ fun i hi => ?_) ?_
      · exact ((hperm _).nodup_iff.mpr List.nodup_range).sublist (List.take_sublist _ _)
      · exact List.mem_range.mp ((hperm _).mem_iff.mp (List.mem_of_mem_take hi))
      · rw [List.length_insertionSort]
        exact List.length_take_le _ _

/-- A checkpoint that is accepted leaves entries that it lists, in its order and
within the capacity; one that is refused changes nothing. -/
theorem loadStateDict_spec (b : ReplayBufferImpl α) (st : CheckpointState α) (n : Option ℕ)
    (step age : Option ℤ) :
    ((b.loadStateDict st n step age).1 = .ok () ∧
      (b.loadStateDict st n step age).2.maxSize = b.maxSize ∧
      (∃ es, Represents (b.loadStateDict st n step age).2 es ∧ es.Sublist st.entries) ∧
      (b.loadStateDict st n step age).2.trajectories.length ≤ b.maxSize) ∨
    ((b.loadStateDict st n step age).1 ≠ .ok () ∧ (b.loadStateDict st n step age).2 = b) := by
  obtain ⟨_ | ts, _ | vs, _ | targets, _ | last⟩ := st
  case some.some.some.some =>
    simp only [loadStateDict]
    split
    case isFalse hlen => exact .inr ⟨by simp, rfl⟩
    case isTrue hlen =>
      left
      have h₀ : Aligned ⟨b.maxSize, ts, vs, targets, last⟩ := hlen
      have h₁ := shrinksTo_restoreTargets h₀ n step
      have h₂ := shrinksTo_restoreAge (h₁.aligned h₀) n step age
      obtain ⟨h₃, hsize⟩ := truncateToMaxSize_spec _ step
      have h := (h₁.trans h₂).trans h₃
      exact ⟨rfl, h.1, h.2 _ h₀.represents, hsize.trans (h₁.trans h₂).1.le⟩
  all_goals exact .inr ⟨by simp [loadStateDict], rfl⟩

end ReplayBufferImpl
end NemoRL.AsyncUtils
