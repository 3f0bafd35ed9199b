import NemoRL.AsyncUtils.ReplayBufferRestore
import Mathlib.Data.List.TakeDrop

/-!
# Resuming without a training step

Without a training step a restore keeps the targets with a complete batch, and then cuts the
buffer to its capacity, oldest entries first. The cut does not look at targets: one that loses
some of its entries, but not all, may be left incomplete.

The watermark is lowered below the targets that are left whenever it is lowered.

## Main definitions

* `completeEntries` — the entries of the targets with a complete batch.
* `CutsWhole` — the cut leaves no target incomplete.
* `RestoresComplete` — what a restore promises.

## Main results

* `loadStateDict_restoresComplete_iff` — when the promise is kept.
-/

namespace NemoRL.AsyncUtils

open Lib

/-! ## What is promised -/

section Spec
variable {α : Type*}

/-- The number of entries for a target. -/
def countTarget (es : List (Entry α)) (t : ℤ) : ℕ := es.countP fun e => e.target = t

/-- The entries of the targets with at least `n` entries. -/
def completeTargets (n : ℕ) (es : List (Entry α)) : List (Entry α) :=
  es.filter fun e => decide (n ≤ countTarget es e.target)

/-- The entries of the targets with at least `n` entries that are not stale. -/
def completeEntries (n : ℕ) (age : Option ℤ) (es : List (Entry α)) : List (Entry α) :=
  completeTargets n (es.filter fun e => ReplayBufferImpl.isValidForTarget e.version e.target age)

/-- Of each target the entries beyond the capacity, the oldest ones, are all entries or leave at
least `n`. -/
def CutsWhole (maxSize n : ℕ) (es : List (Entry α)) : Prop :=
  ∀ e ∈ es, countTarget (es.take (es.length - maxSize)) e.target = countTarget es e.target ∨
    countTarget (es.take (es.length - maxSize)) e.target + n ≤ countTarget es e.target

/-- The checkpoint is accepted, every target that is left has at least `n` entries, and the
watermark is below each of them if it is lower than the one of the checkpoint. -/
structure RestoresComplete (b : ReplayBufferImpl α) (st : CheckpointState α) (n : ℕ)
    (age : Option ℤ) : Prop where
  accepted : (b.loadStateDict st (some n) none age).1 = .ok ()
  complete : ∀ t ∈ (b.loadStateDict st (some n) none age).2.targetWeightVersions,
    n ≤ (b.loadStateDict st (some n) none age).2.targetWeightVersions.count t
  lowered : ∀ last, st.lastTargetWeightAlreadyGenerated = some last →
    (b.loadStateDict st (some n) none age).2.lastTargetWeightAlreadyGenerated < last →
    ∀ t ∈ (b.loadStateDict st (some n) none age).2.targetWeightVersions,
      (b.loadStateDict st (some n) none age).2.lastTargetWeightAlreadyGenerated < t

end Spec

/-! ## Complete targets -/

section Complete
variable {α : Type*} {es : List (Entry α)} {n : ℕ}

theorem mem_completeTargets {e : Entry α} :
    e ∈ completeTargets n es ↔ e ∈ es ∧ n ≤ countTarget es e.target := by
  simp [completeTargets]

theorem countTarget_filter {p : Entry α → Bool} {t : ℤ}
    (h : ∀ e ∈ es, e.target = t → p e = true) :
    countTarget (es.filter p) t = countTarget es t := by
  rw [countTarget, countTarget, List.countP_filter]
  refine List.countP_congr fun e he => ?_
  by_cases htarget : e.target = t
  · simp [htarget, h e he htarget]
  · simp [htarget]

/-- A target with a complete batch keeps all its entries. -/
theorem countTarget_completeTargets {t : ℤ} (h : n ≤ countTarget es t) :
    countTarget (completeTargets n es) t = countTarget es t := by
  refine countTarget_filter fun e _ htarget => ?_
  rw [htarget]
  exact decide_eq_true h

/-- Removing incomplete targets before the stale entries and again behind is removing them once
behind. -/
theorem completeTargets_filter (p : Entry α → Bool) :
    completeTargets n ((completeTargets n es).filter p) = completeTargets n (es.filter p) := by
  have hcomm : (completeTargets n es).filter p =
      (es.filter p).filter fun e => decide (n ≤ countTarget es e.target) := by
    rw [completeTargets, List.filter_filter, List.filter_filter]
    exact List.filter_congr fun e _ => Bool.and_comm ..
  have hle : ∀ t, countTarget (es.filter p) t ≤ countTarget es t :=
    fun t => List.Sublist.countP_le List.filter_sublist
  rw [hcomm, completeTargets, completeTargets, List.filter_filter]
  refine List.filter_congr fun e he => ?_
  by_cases hcount : n ≤ countTarget es e.target
  · have heq : countTarget ((es.filter p).filter fun e => decide (n ≤ countTarget es e.target))
        e.target = countTarget (es.filter p) e.target := by
      refine countTarget_filter fun e' _ htarget => ?_
      rw [htarget]
      exact decide_eq_true hcount
    rw [heq, decide_eq_true hcount, Bool.and_true]
  · have hfew : ¬n ≤ countTarget (es.filter p) e.target := fun h => hcount (h.trans (hle _))
    rw [decide_eq_false hcount, decide_eq_false hfew, Bool.and_false]

theorem completeEntries_completeTargets (age : Option ℤ) :
    completeEntries n age (completeTargets n es) = completeEntries n age es :=
  completeTargets_filter _

theorem completeEntries_none : completeEntries n none es = completeTargets n es := by
  rw [completeEntries]
  congr 1
  exact List.filter_eq_self.mpr fun e _ => rfl

/-- A cut that leaves each target complete or without an entry. -/
theorem cutsWhole_iff {maxSize : ℕ} : CutsWhole maxSize n es ↔
    ∀ e ∈ es.drop (es.length - maxSize),
      n ≤ countTarget (es.drop (es.length - maxSize)) e.target := by
  have hsplit : ∀ t, countTarget es t = countTarget (es.take (es.length - maxSize)) t +
      countTarget (es.drop (es.length - maxSize)) t := by
    intro t
    rw [countTarget, countTarget, countTarget, ← List.countP_append, List.take_append_drop]
  constructor
  · intro h e he
    have hpos : 0 < countTarget (es.drop (es.length - maxSize)) e.target :=
      List.countP_pos_iff.mpr ⟨e, he, by simp⟩
    have hcut := h e (List.mem_of_mem_drop he)
    have hsum := hsplit e.target
    omega
  · intro h e _
    have hsum := hsplit e.target
    rcases Nat.eq_zero_or_pos (countTarget (es.drop (es.length - maxSize)) e.target) with
      hzero | hpos
    · omega
    · obtain ⟨e', he', htarget⟩ := List.countP_pos_iff.mp hpos
      have hge := h e' he'
      rw [of_decide_eq_true htarget] at hge
      omega

end Complete

namespace ReplayBufferImpl
variable {α : Type*} {b : ReplayBufferImpl α} {es : List (Entry α)}

/-! ## The passes of the restore -/

theorem Represents.count_targets (h : Represents b es) (t : ℤ) :
    b.targetWeightVersions.count t = countTarget es t := by
  rw [h.targets, countTarget, List.count_eq_countP, List.countP_map]
  exact List.countP_congr fun e _ => by simp

theorem Represents.removeIncompleteTargetSteps (h : Represents b es) (n : ℕ) :
    Represents (b.removeIncompleteTargetSteps n) (completeTargets n es) := by
  have hcount : (fun t => !decide (b.targetWeightVersions.count t < n)) =
      fun t => decide (n ≤ countTarget es t) := by
    funext t
    rw [h.count_targets t, ← decide_not, decide_eq_decide, not_lt]
  have hkept := h.keepIndices
    (indicesWhere (fun t => decide (n ≤ countTarget es t)) b.targetWeightVersions)
  have hselect : select es
      (indicesWhere (fun t => decide (n ≤ countTarget es t)) b.targetWeightVersions) =
        completeTargets n es := by
    rw [h.targets, indicesWhere_map]
    exact select_indicesWhere _ _
  rw [hselect] at hkept
  rw [ReplayBufferImpl.removeIncompleteTargetSteps]
  dsimp only
  split
  · rw [hcount]
    exact ⟨hkept.1, hkept.2, hkept.3⟩
  · next hall =>
    have hself : completeTargets n es = es := by
      refine List.filter_eq_self.mpr fun e he => ?_
      simp only [List.any_eq_true, decide_eq_true_eq, not_exists, not_and, not_lt] at hall
      have hge := hall e.target (h.targets ▸ List.mem_map_of_mem he)
      rw [h.count_targets] at hge
      exact decide_eq_true hge
    rw [hself]
    exact h

/-- The watermark stays or is lowered below all targets that are left. -/
theorem lastTarget_removeIncompleteTargetSteps (b : ReplayBufferImpl α) (n : ℕ) :
    (b.removeIncompleteTargetSteps n).lastTargetWeightAlreadyGenerated =
        b.lastTargetWeightAlreadyGenerated ∨
      ∀ t ∈ (b.removeIncompleteTargetSteps n).targetWeightVersions,
        (b.removeIncompleteTargetSteps n).lastTargetWeightAlreadyGenerated < t := by
  rw [ReplayBufferImpl.removeIncompleteTargetSteps]
  dsimp only
  split
  · right
    intro t ht
    dsimp only at ht ⊢
    split
    · next first hfirst =>
      have hle := (List.min?_eq_some_iff.mp hfirst).2 t ht
      omega
    · next hnone =>
      rw [List.min?_eq_none_iff] at hnone
      rw [hnone] at ht
      cases ht
  · exact .inl rfl

theorem Represents.truncateNewest (h : Represents b es) :
    Represents (b.truncateToMaxSize none) (es.drop (es.length - b.maxSize)) := by
  rw [ReplayBufferImpl.truncateToMaxSize, h.length_trajectories]
  split
  · next hle =>
    rw [Nat.sub_eq_zero_of_le hle, List.drop_zero]
    exact h
  · next hgt =>
    have hkept := h.keepIndices (List.range' (es.length - b.maxSize) b.maxSize)
    have hselect : select es (List.range' (es.length - b.maxSize) b.maxSize) =
        es.drop (es.length - b.maxSize) := by
      rw [select_range', List.take_of_length_le]
      rw [List.length_drop]
      omega
    rw [hselect] at hkept
    exact hkept

theorem maxSize_removeIncompleteTargetSteps (b : ReplayBufferImpl α) (n : ℕ) :
    (b.removeIncompleteTargetSteps n).maxSize = b.maxSize := by
  simp only [ReplayBufferImpl.removeIncompleteTargetSteps]
  split <;> rfl

theorem maxSize_restoreTargets (b : ReplayBufferImpl α) (n : ℕ) :
    (b.restoreTargets (some n) none).maxSize = b.maxSize := by
  rw [ReplayBufferImpl.restoreTargets]
  split
  · rfl
  · exact maxSize_removeIncompleteTargetSteps b n

theorem maxSize_restoreAge (b : ReplayBufferImpl α) (n : ℕ) (age : Option ℤ) :
    (b.restoreAge (some n) none age).maxSize = b.maxSize := by
  cases age with
  | none => rfl
  | some a =>
    rw [ReplayBufferImpl.restoreAge]
    split
    · rfl
    · have hstale : (b.removeStaleTrajectories a).maxSize = b.maxSize := by
        simp only [ReplayBufferImpl.removeStaleTrajectories]
        split <;> rfl
      exact (maxSize_removeIncompleteTargetSteps _ n).trans hstale

/-- The two passes before the cut leave the complete targets, and a watermark that stays or is
below all of them. -/
theorem Represents.restoreComplete (h : Represents b es) (n : ℕ) (age : Option ℤ) :
    Represents ((b.restoreTargets (some n) none).restoreAge (some n) none age)
        (completeEntries n age es) ∧
      (((b.restoreTargets (some n) none).restoreAge (some n) none
          age).lastTargetWeightAlreadyGenerated = b.lastTargetWeightAlreadyGenerated ∨
        ∀ e ∈ completeEntries n age es, ((b.restoreTargets (some n) none).restoreAge (some n) none
          age).lastTargetWeightAlreadyGenerated < e.target) := by
  have hfirst : Represents (b.restoreTargets (some n) none) (completeTargets n es) ∧
      ((b.restoreTargets (some n) none).lastTargetWeightAlreadyGenerated =
          b.lastTargetWeightAlreadyGenerated ∨
        ∀ e ∈ completeTargets n es,
          (b.restoreTargets (some n) none).lastTargetWeightAlreadyGenerated < e.target) := by
    rw [ReplayBufferImpl.restoreTargets]
    split
    · next hnil =>
      have hempty := h.eq_nil_iff.mp hnil
      rw [hempty] at h ⊢
      exact ⟨h, .inl rfl⟩
    · have hremoved := h.removeIncompleteTargetSteps n
      refine ⟨hremoved, (lastTarget_removeIncompleteTargetSteps b n).imp_right ?_⟩
      intro hbelow e he
      exact hbelow _ (hremoved.targets ▸ List.mem_map_of_mem he)
  obtain ⟨b₁, hb₁⟩ : ∃ b₁, b₁ = b.restoreTargets (some n) none := ⟨_, rfl⟩
  rw [← hb₁] at hfirst ⊢
  obtain ⟨hrep, hlast⟩ := hfirst
  rw [← completeEntries_completeTargets]
  obtain ⟨es₁, hes₁⟩ : ∃ es₁, es₁ = completeTargets n es := ⟨_, rfl⟩
  rw [← hes₁] at hrep hlast ⊢
  have hsub : ∀ e ∈ completeEntries n age es₁, e ∈ es₁ := fun e he =>
    List.mem_of_mem_filter (List.mem_of_mem_filter he)
  cases age with
  | none =>
    have hself : completeEntries n none es₁ = es₁ := by
      rw [completeEntries_none, hes₁, ← completeEntries_none, completeEntries_completeTargets,
        completeEntries_none]
    rw [hself]
    exact ⟨hrep, hlast⟩
  | some a =>
    rw [ReplayBufferImpl.restoreAge]
    dsimp only
    split
    · next hnil =>
      have hempty := hrep.eq_nil_iff.mp hnil
      rw [hempty] at hrep hlast ⊢
      exact ⟨hrep, hlast⟩
    · have hstale : (b₁.removeStaleTrajectories a).lastTargetWeightAlreadyGenerated =
          b₁.lastTargetWeightAlreadyGenerated := by
        simp only [ReplayBufferImpl.removeStaleTrajectories]
        split <;> rfl
      have hremoved := (hrep.removeStaleTrajectories a).removeIncompleteTargetSteps n
      refine ⟨hremoved, ?_⟩
      cases lastTarget_removeIncompleteTargetSteps (b₁.removeStaleTrajectories a) n with
      | inl heq =>
        rw [heq, hstale]
        exact hlast.imp_right fun hbelow e he => hbelow e (hsub e he)
      | inr hbelow =>
        exact .inr fun e he => hbelow _ (hremoved.targets ▸ List.mem_map_of_mem he)

/-! ## The restore -/

/-- What a restore of a well-formed checkpoint leaves. -/
theorem loadStateDict_complete (b : ReplayBufferImpl α) {st : CheckpointState α}
    (hst : st.WellFormed) (n : ℕ) (age : Option ℤ) :
    (b.loadStateDict st (some n) none age).1 = .ok () ∧
      Represents (b.loadStateDict st (some n) none age).2
        ((completeEntries n age st.entries).drop
          ((completeEntries n age st.entries).length - b.maxSize)) ∧
      ∀ last, st.lastTargetWeightAlreadyGenerated = some last →
        (b.loadStateDict st (some n) none age).2.lastTargetWeightAlreadyGenerated = last ∨
          ∀ e ∈ completeEntries n age st.entries,
            (b.loadStateDict st (some n) none age).2.lastTargetWeightAlreadyGenerated <
              e.target := by
  obtain ⟨ts, vs, targets, last, rfl, hts, hvs⟩ := hst
  have hload : loadStateDict b ⟨some ts, some vs, some targets, some last⟩ (some n) none age =
      (.ok (), (((⟨b.maxSize, ts, vs, targets, last⟩ : ReplayBufferImpl α).restoreTargets
        (some n) none).restoreAge (some n) none age).truncateToMaxSize none) := by
    simp only [loadStateDict, if_pos (And.intro hts hvs)]
  have hloaded : Represents ⟨b.maxSize, ts, vs, targets, last⟩
      (CheckpointState.entries ⟨some ts, some vs, some targets, some last⟩) :=
    Represents.of_lengths hts hvs
  obtain ⟨hrepresents, hlast⟩ := hloaded.restoreComplete n age
  have hsize : (((⟨b.maxSize, ts, vs, targets, last⟩ : ReplayBufferImpl α).restoreTargets
      (some n) none).restoreAge (some n) none age).maxSize = b.maxSize := by
    rw [maxSize_restoreAge, maxSize_restoreTargets]
  have htruncated := hrepresents.truncateNewest
  rw [hsize] at htruncated
  rw [hload, lastTarget_truncateToMaxSize]
  refine ⟨rfl, htruncated, fun last' h => ?_⟩
  cases h
  exact hlast

/-- A restore without a training step leaves complete targets exactly when the cut leaves none
incomplete. -/
theorem loadStateDict_restoresComplete_iff (b : ReplayBufferImpl α) (st : CheckpointState α)
    (hst : st.WellFormed) (n : ℕ) (age : Option ℤ) :
    RestoresComplete b st n age ↔ CutsWhole b.maxSize n (completeEntries n age st.entries) := by
  obtain ⟨haccepted, hrepresents, hlast⟩ := loadStateDict_complete b hst n age
  rw [cutsWhole_iff]
  constructor
  · intro h e he
    have hge := h.complete e.target (hrepresents.targets ▸ List.mem_map_of_mem he)
    rwa [hrepresents.count_targets] at hge
  · intro h
    refine ⟨haccepted, fun t ht => ?_, fun last hsome hlt t ht => ?_⟩
    · rw [hrepresents.targets] at ht
      obtain ⟨e, he, rfl⟩ := List.mem_map.mp ht
      rw [hrepresents.count_targets]
      exact h e he
    · rw [hrepresents.targets] at ht
      obtain ⟨e, he, rfl⟩ := List.mem_map.mp ht
      exact (hlast last hsome).resolve_left hlt.ne e (List.mem_of_mem_drop he)

/-- A checkpoint with two complete targets of two entries. -/
def twoTargets : CheckpointState ℕ :=
  ⟨some [0, 1, 2, 3], some [4, 4, 5, 5], some [5, 5, 6, 6], some 6⟩

theorem twoTargets_wellFormed : twoTargets.WellFormed :=
  ⟨[0, 1, 2, 3], [4, 4, 5, 5], [5, 5, 6, 6], 6, rfl, rfl, rfl⟩

/-- A capacity of two cuts one of them. -/
theorem loadStateDict_restoresComplete_two :
    RestoresComplete ⟨2, [], [], [], -1⟩ twoTargets 2 none := by
  refine (loadStateDict_restoresComplete_iff _ _ twoTargets_wellFormed 2 none).mpr ?_
  unfold CutsWhole
  decide

/-- A capacity of three leaves one entry of the first. -/
theorem loadStateDict_leaves_incomplete :
    (loadStateDict ⟨3, [], [], [], -1⟩ twoTargets (some 2) none none).2.targetWeightVersions =
        [5, 6, 6] ∧ ¬RestoresComplete ⟨3, [], [], [], -1⟩ twoTargets 2 none := by
  have htargets : (loadStateDict ⟨3, [], [], [], -1⟩ twoTargets (some 2) none
      none).2.targetWeightVersions = [5, 6, 6] := by
    decide
  refine ⟨htargets, fun h => ?_⟩
  have hcount := h.complete 5
  rw [htargets] at hcount
  exact absurd (hcount (by decide)) (by decide)

end ReplayBufferImpl
end NemoRL.AsyncUtils
