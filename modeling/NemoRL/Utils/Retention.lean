import NemoRL.Utils.CheckpointSpec
import NemoRL.Lib.TopK

/-!
# Which checkpoints are kept

The cleanup keeps the `keep_top_k` best checkpoints and the latest one. A missing metric counts
as the worst value there, an infinity, and equal values are told apart by the step. The best
checkpoint is chosen among those that have the metric.

Both agree unless every metric that is there is the infinity that stands for a missing one: then
newer checkpoints without a metric push out all that have one.

## Main definitions

* `getBestCheckpointPath` — the best checkpoint.
* `Better` — the ranking of the cleanup.
* `Retains` — what the cleanup keeps.

## Main results

* `removeOldCheckpoints_eq` — the checkpoint directory after the cleanup.
* `removeOldCheckpoints_retains_iff` — when the best metric is kept.
-/

namespace NemoRL.Utils

open Lib

/-! ## The best checkpoint -/

section Manager
variable {R : Type} (config : CheckpointingConfig)

/-- The metric of a checkpoint. -/
def metric? (checkpoint : ℕ × List (String × R)) : Option R :=
  config.metricName.bind fun metric => checkpoint.2.lookup metric

variable [LinearOrder R]

/-- The checkpoint with the best metric, or the latest one when none has the metric. -/
def getBestCheckpointPath (fs : FS R) : Option ℕ :=
  let checkpointHistory := loadCheckpointHistory fs
  if checkpointHistory.isEmpty then none
  else
    let validCheckpoints := checkpointHistory.filterMap fun checkpoint =>
      (metric? config checkpoint).map fun value => (value, checkpoint.1)
    if validCheckpoints.isEmpty then getLatestCheckpointPath fs
    else if config.higherIsBetter then
      (validCheckpoints.mergeSort fun c c' => c'.1 ≤ c.1).head?.map Prod.snd
    else (validCheckpoints.mergeSort fun c c' => c.1 ≤ c'.1).head?.map Prod.snd

/-- The best of the metrics that are there. -/
def IsBestMetric (history : List (ℕ × List (String × R))) (value : R) : Prop :=
  if config.higherIsBetter then IsGreatest {v | ∃ c ∈ history, metric? config c = some v} value
  else IsLeast {v | ∃ c ∈ history, metric? config c = some v} value

variable [BoundedOrder R]

/-- The value of a missing metric. -/
def missing (R : Type) [LinearOrder R] [BoundedOrder R] (config : CheckpointingConfig) : R :=
  if config.higherIsBetter then ⊥ else ⊤

/-- The value of a checkpoint. -/
def metricValue (checkpoint : ℕ × List (String × R)) : R :=
  (metric? config checkpoint).getD (missing R config)

/-- A checkpoint with a better value, or a newer one with the same value. -/
def Better (c c' : ℕ × List (String × R)) : Prop :=
  (if config.higherIsBetter then metricValue config c' < metricValue config c
    else metricValue config c < metricValue config c') ∨
    metricValue config c = metricValue config c' ∧ c'.1 < c.1

instance : DecidableRel (Better (R := R) config) := fun c c' => by
  unfold Better
  infer_instance

/-- A checkpoint that is one of the `k` best or the latest. -/
def Kept (k : ℕ) (history : List (ℕ × List (String × R))) (c : ℕ × List (String × R)) : Prop :=
  history.countP (fun c' => Better config c' c) < k ∨ ∀ c' ∈ history, c'.1 ≤ c.1

/-- The latest step is still there, the best checkpoints and the latest are kept, every other
directory is as before, and the best checkpoint has the best metric from before. -/
structure Retains (k : ℕ) (fs fs' : FS R) : Prop where
  latest : getLatestCheckpointPath fs' = getLatestCheckpointPath fs
  removed : ∀ c ∈ loadCheckpointHistory fs, ¬Kept config k (loadCheckpointHistory fs) c →
    fs'.lookup (.step c.1) = none
  others : ∀ path, (∀ c ∈ loadCheckpointHistory fs, path = .step c.1 →
    Kept config k (loadCheckpointHistory fs) c) → fs'.lookup path = fs.lookup path
  best : ∀ value, IsBestMetric config (loadCheckpointHistory fs) value →
    ∃ c ∈ loadCheckpointHistory fs', getBestCheckpointPath config fs' = some c.1 ∧
      metric? config c = some value

/-- Some metric is not the one that stands for a missing one, or one of the newest checkpoints
has a metric, if any has. -/
def MetricStands (k : ℕ) (history : List (ℕ × List (String × R))) : Prop :=
  (∀ c ∈ history, metric? config c = none) ∨
    (∃ c ∈ history, ∃ value, metric? config c = some value ∧ value ≠ missing R config) ∨
      ∃ c ∈ history, (metric? config c).isSome ∧ history.countP (fun c' => c.1 < c'.1) < k

end Manager

/-! ## The history -/

section History
variable {R : Type} {fs fs' : FS R}

theorem mem_loadCheckpointHistory {c : ℕ × List (String × R)} :
    c ∈ loadCheckpointHistory fs ↔
      ∃ d, fs.lookup (.step c.1) = some d ∧ d.entries.findSome? Entry.metrics? = some c.2 := by
  obtain ⟨n, metrics⟩ := c
  rw [loadCheckpointHistory, List.mem_filterMap]
  simp only [Option.bind_eq_bind, Option.bind_eq_some_iff, Option.pure_def, Option.some.injEq,
    Prod.mk.injEq]
  constructor
  · rintro ⟨n', -, d, hd, metrics', hmetrics, rfl, rfl⟩
    exact ⟨d, hd, hmetrics⟩
  · rintro ⟨d, hd, hmetrics⟩
    refine ⟨n, mem_stepDirs.mpr ?_, d, hd, metrics, hmetrics, rfl, rfl⟩
    rw [HasStep, hd]
    rfl

theorem eq_of_step_eq {c c' : ℕ × List (String × R)} (h : c ∈ loadCheckpointHistory fs)
    (h' : c' ∈ loadCheckpointHistory fs) (heq : c.1 = c'.1) : c = c' := by
  obtain ⟨d, hd, hmetrics⟩ := mem_loadCheckpointHistory.mp h
  obtain ⟨d', hd', hmetrics'⟩ := mem_loadCheckpointHistory.mp h'
  rw [heq, hd', Option.some.injEq] at hd
  subst hd
  rw [hmetrics', Option.some.injEq] at hmetrics
  exact Prod.ext heq hmetrics.symm

/-- A checkpoint whose directory is as before is still in the history. -/
theorem mem_history_of_lookup_eq {c : ℕ × List (String × R)}
    (h : fs'.lookup (.step c.1) = fs.lookup (.step c.1)) :
    c ∈ loadCheckpointHistory fs' ↔ c ∈ loadCheckpointHistory fs := by
  rw [mem_loadCheckpointHistory, mem_loadCheckpointHistory, h]

/-- A history that is not empty has a latest checkpoint. -/
theorem exists_latest_of_mem {c : ℕ × List (String × R)} (h : c ∈ loadCheckpointHistory fs) :
    ∃ latest ∈ loadCheckpointHistory fs, (∀ c' ∈ loadCheckpointHistory fs, c'.1 ≤ latest.1) ∧
      ((loadCheckpointHistory fs).map Prod.fst).max? = some latest.1 := by
  cases hmax : ((loadCheckpointHistory fs).map Prod.fst).max? with
  | none =>
    rw [List.max?_eq_none_iff, List.map_eq_nil_iff] at hmax
    rw [hmax] at h
    cases h
  | some n =>
    obtain ⟨hmem, hle⟩ := List.max?_eq_some_iff.mp hmax
    obtain ⟨latest, hlatest, rfl⟩ := List.mem_map.mp hmem
    exact ⟨latest, hlatest, fun c' hc' => hle c'.1 (List.mem_map_of_mem hc'), rfl⟩

end History

/-! ## The ranking -/

section Ranking
variable {R : Type} [LinearOrder R] [BoundedOrder R] {config : CheckpointingConfig}

theorem Better.asymm (c c' : ℕ × List (String × R)) (h : Better config c c') :
    ¬Better config c' c := by
  unfold Better at *
  split_ifs at * with hhigher
  · rintro (hlt | ⟨heq, hstep⟩)
    · cases h with
      | inl hlt' => exact lt_asymm hlt hlt'
      | inr heq => exact hlt.ne heq.1
    · cases h with
      | inl hlt' => exact hlt'.ne heq
      | inr heq' => omega
  · rintro (hlt | ⟨heq, hstep⟩)
    · cases h with
      | inl hlt' => exact lt_asymm hlt hlt'
      | inr heq => exact hlt.ne heq.1.symm
    · cases h with
      | inl hlt' => exact hlt'.ne heq.symm
      | inr heq' => omega

/-- The value as the sort reads it. -/
theorem metricValue_eq {metric : String} (hmetric : config.metricName = some metric)
    (c : ℕ × List (String × R)) :
    metricValue config c = (c.2.lookup metric).getD (missing R config) := by
  rw [metricValue, metric?, hmetric]
  rfl

/-- A sorted history of different steps is ordered by the ranking. -/
theorem pairwise_sortHistory {history : List (ℕ × List (String × R))}
    (hnodup : (history.map Prod.fst).Nodup) :
    (sortHistory config history).Pairwise (Better config) := by
  have hsteps : (sortHistory config history).Pairwise fun c c' => c.1 ≠ c'.1 :=
    List.pairwise_map.mp ((((sortHistory_perm history).map Prod.fst).nodup_iff).mpr hnodup)
  cases hmetric : config.metricName with
  | none =>
    have hvalue : ∀ c : ℕ × List (String × R), metricValue config c = missing R config := by
      intro c
      rw [metricValue, metric?, hmetric]
      rfl
    have hsorted : sortHistory config history = sortDesc Prod.fst history := by
      rw [sortHistory, hmetric]
      rfl
    rw [hsorted] at hsteps ⊢
    refine (hsteps.and (pairwise_sortDesc Prod.fst history)).imp fun {c c'} h => ?_
    exact .inr ⟨(hvalue c).trans (hvalue c').symm, lt_of_le_of_ne h.2 h.1.symm⟩
  | some metric =>
    have hvalue := metricValue_eq (R := R) hmetric
    by_cases hhigher : config.higherIsBetter = true
    · have hsorted : sortHistory config history =
          sortDesc (fun c => toLex ((c.2.lookup metric).getD ⊥, c.1)) history := by
        rw [sortHistory, hmetric]
        exact if_pos hhigher
      rw [hsorted] at hsteps ⊢
      refine (hsteps.and (pairwise_sortDesc _ history)).imp fun {c c'} h => ?_
      have hbottom : missing R config = ⊥ := if_pos hhigher
      obtain ⟨hne, hle⟩ := h
      rw [Prod.Lex.toLex_le_toLex] at hle
      dsimp only at hle
      rw [Better, if_pos hhigher, hvalue, hvalue, hbottom]
      exact hle.imp (fun hlt => hlt) fun heq => ⟨heq.1.symm, lt_of_le_of_ne heq.2 hne.symm⟩
    · have hpairwise : (sortHistory config history).Pairwise fun c c' =>
          toLex ((c.2.lookup metric).getD ⊤, -(c.1 : ℤ)) ≤
            toLex ((c'.2.lookup metric).getD ⊤, -(c'.1 : ℤ)) := by
        have hsorted : sortHistory config history = history.mergeSort fun c c' =>
            decide (toLex ((c.2.lookup metric).getD ⊤, -(c.1 : ℤ)) ≤
              toLex ((c'.2.lookup metric).getD ⊤, -(c'.1 : ℤ))) := by
          rw [sortHistory, hmetric]
          exact if_neg hhigher
        rw [hsorted]
        have htrans := before_trans (K := (R ×ₗ ℤ)ᵒᵈ) fun c : ℕ × List (String × R) =>
          OrderDual.toDual (toLex ((c.2.lookup metric).getD ⊤, -(c.1 : ℤ)))
        have htotal := before_total (K := (R ×ₗ ℤ)ᵒᵈ) fun c : ℕ × List (String × R) =>
          OrderDual.toDual (toLex ((c.2.lookup metric).getD ⊤, -(c.1 : ℤ)))
        simpa using List.pairwise_mergeSort htrans htotal history
      refine (hsteps.and hpairwise).imp fun {c c'} h => ?_
      have htop : missing R config = ⊤ := if_neg hhigher
      obtain ⟨hne, hle⟩ := h
      rw [Prod.Lex.toLex_le_toLex] at hle
      dsimp only at hle
      rw [Better, if_neg hhigher, hvalue, hvalue, htop]
      refine hle.imp (fun hlt => hlt) fun heq => ⟨heq.1, ?_⟩
      omega

end Ranking

/-! ## The cleanup -/

section Cleanup
variable {R : Type} {fs : FS R}

/-- Removing checkpoints one by one, except for the latest. -/
theorem outcome_forEach_rmtree (latestStep : Option ℕ) {l : List (ℕ × List (String × R))}
    (hsteps : ∀ c ∈ l, HasStep fs c.1) (hnodup : (l.map Prod.fst).Nodup) :
    ∃ fs', (Traced.forEach l fun checkpoint =>
        if true ∧ some checkpoint.1 = latestStep then (pure () : FsM R Unit)
        else rmtree (.step checkpoint.1)).outcome fs = .ok ((), fs') ∧
      (∀ c ∈ l, some c.1 ≠ latestStep → fs'.lookup (.step c.1) = none) ∧
      ∀ path, (∀ c ∈ l, path = .step c.1 → some c.1 = latestStep) →
        fs'.lookup path = fs.lookup path := by
  induction l generalizing fs with
  | nil =>
    refine ⟨fs, rfl, fun c hc => ?_, fun path _ => rfl⟩
    cases hc
  | cons c l ih =>
    obtain ⟨hnotin, hnodup⟩ := List.nodup_cons.mp hnodup
    have hne : ∀ c' ∈ l, c'.1 ≠ c.1 := by
      intro c' hc' heq
      exact hnotin (heq ▸ List.mem_map_of_mem hc')
    by_cases hlatest : some c.1 = latestStep
    · obtain ⟨fs', hout, hremoved, hothers⟩ :=
        ih (fun c' hc' => hsteps c' (List.mem_cons_of_mem c hc')) hnodup
      refine ⟨fs', ?_, ?_, fun path hpath => hothers path fun c' hc' =>
        hpath c' (List.mem_cons_of_mem c hc')⟩
      · rw [Traced.forEach, if_pos ⟨rfl, hlatest⟩]
        exact hout
      · intro c' hc' hc'Latest
        cases List.mem_cons.mp hc' with
        | inl heq => exact absurd (heq ▸ hlatest) hc'Latest
        | inr hc' => exact hremoved c' hc' hc'Latest
    · obtain ⟨d, hd⟩ := Option.isSome_iff_exists.mp (hsteps c List.mem_cons_self)
      obtain ⟨fs₁, hout₁, hnone, hoff, -, -⟩ := rmtree_eq hd
      have hsteps₁ : ∀ c' ∈ l, HasStep fs₁ c'.1 := by
        intro c' hc'
        exact (HasStep.congr (hoff (.step c'.1) (by simpa using hne c' hc'))).mpr
          (hsteps c' (List.mem_cons_of_mem c hc'))
      obtain ⟨fs', hout, hremoved, hothers⟩ := ih hsteps₁ hnodup
      refine ⟨fs', ?_, ?_, ?_⟩
      · rw [Traced.forEach, if_neg (by simpa using hlatest), Traced.outcome_bind hout₁]
        exact hout
      · intro c' hc' hc'Latest
        cases List.mem_cons.mp hc' with
        | inl heq =>
          rw [heq, hothers (.step c.1) fun c'' hc'' h => ?_, hnone]
          exact absurd (CheckpointPath.step.inj h).symm (hne c'' hc'')
        | inr hc' => exact hremoved c' hc' hc'Latest
      · intro path hpath
        have hpathNe : path ≠ .step c.1 := fun heq => hlatest (hpath c List.mem_cons_self heq)
        rw [hothers path fun c' hc' => hpath c' (List.mem_cons_of_mem c hc'), hoff path hpathNe]

variable [LinearOrder R] [BoundedOrder R] {config : CheckpointingConfig}

/-- The checkpoint directory after the cleanup. -/
theorem removeOldCheckpoints_eq (fs : FS R) {k : ℕ} (hkeep : config.keepTopK = some (k : ℤ)) :
    ∃ fs', (removeOldCheckpoints config true).outcome fs = .ok ((), fs') ∧
      (∀ c ∈ loadCheckpointHistory fs, ¬Kept config k (loadCheckpointHistory fs) c →
        fs'.lookup (.step c.1) = none) ∧
      ∀ path, (∀ c ∈ loadCheckpointHistory fs, path = .step c.1 →
        Kept config k (loadCheckpointHistory fs) c) → fs'.lookup path = fs.lookup path := by
  obtain ⟨history, hhistory⟩ : ∃ history, history = loadCheckpointHistory fs := ⟨_, rfl⟩
  have hslice : sliceFrom (k : ℤ) (sortHistory config history) =
      (sortHistory config history).drop k := by
    rw [sliceFrom, if_neg (by omega), Int.toNat_natCast]
  have hperm : (sortHistory config history).Perm history := sortHistory_perm history
  have hnodup : (history.map Prod.fst).Nodup := hhistory ▸ nodup_history
  -- a checkpoint behind the first ones has so many better ones
  have hdrop : ∀ c ∈ history, c ∈ (sortHistory config history).drop k ↔
      k ≤ history.countP fun c' => Better config c' c := by
    intro c hc
    rw [← hperm.countP_eq]
    exact mem_drop_iff_le_countP Better.asymm (pairwise_sortHistory hnodup)
      (hperm.mem_iff.mpr hc) k
  have hmem : ∀ c ∈ (sortHistory config history).drop k, c ∈ history :=
    fun c hc => hperm.mem_iff.mp (List.mem_of_mem_drop hc)
  have hlatest : ∀ c ∈ history, some c.1 = (history.map Prod.fst).max? ↔
      ∀ c' ∈ history, c'.1 ≤ c.1 := by
    intro c hc
    subst hhistory
    obtain ⟨latest, hlatest, hle, hmax⟩ := exists_latest_of_mem hc
    rw [hmax, Option.some.injEq]
    constructor
    · intro heq c' hc'
      rw [heq]
      exact hle c' hc'
    · intro hge
      exact le_antisymm (hle c hc) (hge latest hlatest)
  obtain ⟨fs', hout, hremoved, hothers⟩ := outcome_forEach_rmtree
    (l := (sortHistory config history).drop k) (history.map Prod.fst).max?
    (fun c hc => hasStep_of_mem_history (hhistory ▸ hmem c hc))
    (((List.drop_sublist _ _).map Prod.fst).nodup (((hperm.map Prod.fst).nodup_iff).mpr hnodup))
  rw [← hhistory]
  refine ⟨fs', ?_, ?_, ?_⟩
  · rw [removeOldCheckpoints, hkeep]
    refine (Traced.outcome_bind (Traced.outcome_read _ fs)).trans ?_
    rw [← hhistory, hslice]
    exact hout
  · intro c hc hkept
    rw [Kept, not_or, not_lt, ← hdrop c hc, ← hlatest c hc] at hkept
    exact hremoved c hkept.1 hkept.2
  · intro path hpath
    refine hothers path fun c hc heq => ?_
    have hkept := hpath c (hmem c hc) heq
    rw [Kept, ← hlatest c (hmem c hc)] at hkept
    exact hkept.resolve_left (not_lt.mpr ((hdrop c (hmem c hc)).mp hc))

end Cleanup

/-! ## The best metric -/

section Best
variable {R : Type} [LinearOrder R] {config : CheckpointingConfig} {fs : FS R} {value : R}

theorem IsBestMetric.exists_mem {history : List (ℕ × List (String × R))}
    (h : IsBestMetric config history value) : ∃ c ∈ history, metric? config c = some value := by
  rw [IsBestMetric] at h
  split_ifs at h
  · exact h.1
  · exact h.1

/-- Fewer checkpoints have the same best metric when one that has it is left. -/
theorem IsBestMetric.subset {history history' : List (ℕ × List (String × R))}
    (h : IsBestMetric config history value) (hsub : ∀ c ∈ history', c ∈ history)
    {c : ℕ × List (String × R)} (hc : c ∈ history') (hmetric : metric? config c = some value) :
    IsBestMetric config history' value := by
  rw [IsBestMetric] at *
  split_ifs at * with hhigher
  · exact ⟨⟨c, hc, hmetric⟩, fun v ⟨c', hc', hv⟩ => h.2 ⟨c', hsub c' hc', hv⟩⟩
  · exact ⟨⟨c, hc, hmetric⟩, fun v ⟨c', hc', hv⟩ => h.2 ⟨c', hsub c' hc', hv⟩⟩

omit [LinearOrder R] in
/-- The first of a list sorted by its values has a value that all are compared with. -/
theorem head_mergeSort (le : R → R → Prop) [DecidableRel le] {valid : List (R × ℕ)}
    (htrans : ∀ a b c, le a b → le b c → le a c) (htotal : ∀ a b, le a b ∨ le b a)
    (hne : valid ≠ []) :
    ∃ p ∈ valid, (valid.mergeSort fun c c' => le c.1 c'.1).head? = some p ∧
      ∀ p' ∈ valid, le p.1 p'.1 := by
  have htrans' : ∀ a b c : R × ℕ, decide (le a.1 b.1) = true → decide (le b.1 c.1) = true →
      decide (le a.1 c.1) = true := by
    intro a b c
    simp only [decide_eq_true_eq]
    exact htrans a.1 b.1 c.1
  have htotal' : ∀ a b : R × ℕ, (decide (le a.1 b.1) || decide (le b.1 a.1)) = true := by
    intro a b
    simpa using htotal a.1 b.1
  have hsorted := List.pairwise_mergeSort htrans' htotal' valid
  have hperm := List.mergeSort_perm valid fun c c' : R × ℕ => decide (le c.1 c'.1)
  cases hcons : valid.mergeSort fun c c' => decide (le c.1 c'.1) with
  | nil =>
    rw [hcons] at hperm
    exact absurd hperm.nil_eq.symm hne
  | cons p rest =>
    rw [hcons] at hperm hsorted
    refine ⟨p, hperm.mem_iff.mp List.mem_cons_self, rfl, fun p' hp' => ?_⟩
    cases List.mem_cons.mp (hperm.mem_iff.mpr hp') with
    | inl heq => exact heq ▸ (htotal p'.1 p'.1).elim id id
    | inr hmem => simpa using (List.pairwise_cons.mp hsorted).1 p' hmem

/-- The best checkpoint has the best metric. -/
theorem getBestCheckpointPath_eq (h : IsBestMetric config (loadCheckpointHistory fs) value) :
    ∃ c ∈ loadCheckpointHistory fs, getBestCheckpointPath config fs = some c.1 ∧
      metric? config c = some value := by
  obtain ⟨valid, hvalid⟩ : ∃ valid, valid = (loadCheckpointHistory fs).filterMap fun checkpoint =>
      (metric? config checkpoint).map fun v => (v, checkpoint.1) := ⟨_, rfl⟩
  have hmem : ∀ p, p ∈ valid ↔
      ∃ c ∈ loadCheckpointHistory fs, metric? config c = some p.1 ∧ c.1 = p.2 := by
    rintro ⟨v, n⟩
    simp only [hvalid, List.mem_filterMap, Option.map_eq_some_iff, Prod.mk.injEq]
    constructor
    · rintro ⟨c, hc, v', hv, rfl, rfl⟩
      exact ⟨c, hc, hv, rfl⟩
    · rintro ⟨c, hc, hv, rfl⟩
      exact ⟨c, hc, v, hv, rfl, rfl⟩
  obtain ⟨c, hc, hmetric⟩ := h.exists_mem
  have hcValid : (value, c.1) ∈ valid := (hmem _).mpr ⟨c, hc, hmetric, rfl⟩
  have hhistory : (loadCheckpointHistory fs).isEmpty = false :=
    List.isEmpty_eq_false_iff_exists_mem.mpr ⟨c, hc⟩
  have hvalidNe : valid.isEmpty = false := List.isEmpty_eq_false_iff_exists_mem.mpr ⟨_, hcValid⟩
  rw [getBestCheckpointPath, hhistory, ← hvalid]
  simp only [Bool.false_eq_true, if_false, hvalidNe]
  rw [IsBestMetric] at h
  split_ifs at h ⊢ with hhigher
  · obtain ⟨p, hp, hhead, hle⟩ := head_mergeSort (fun a b : R => b ≤ a)
      (fun a b c hab hbc => le_trans hbc hab) (fun a b => le_total b a)
      (List.ne_nil_of_mem hcValid)
    obtain ⟨c', hc', hv, hstep⟩ := (hmem p).mp hp
    have heq : p.1 = value := le_antisymm (h.2 ⟨c', hc', hv⟩) (hle _ hcValid)
    refine ⟨c', hc', ?_, heq ▸ hv⟩
    rw [hhead, hstep]
    rfl
  · obtain ⟨p, hp, hhead, hle⟩ := head_mergeSort (fun a b : R => a ≤ b)
      (fun a b c => le_trans) le_total (List.ne_nil_of_mem hcValid)
    obtain ⟨c', hc', hv, hstep⟩ := (hmem p).mp hp
    have heq : p.1 = value := le_antisymm (hle _ hcValid) (h.2 ⟨c', hc', hv⟩)
    refine ⟨c', hc', ?_, heq ▸ hv⟩
    rw [hhead, hstep]
    rfl

end Best

/-! ## When the best metric is kept -/

section Stands
variable {R : Type} [LinearOrder R] [BoundedOrder R] {config : CheckpointingConfig}
  {history : List (ℕ × List (String × R))} {value : R}

theorem metricValue_of_some {c : ℕ × List (String × R)} (h : metric? config c = some value) :
    metricValue config c = value := by
  rw [metricValue, h, Option.getD_some]

/-- No value is better than the best metric. -/
theorem IsBestMetric.not_better (h : IsBestMetric config history value)
    {c c' : ℕ × List (String × R)} (hc : metric? config c = some value) (hc' : c' ∈ history)
    (hbetter : Better config c' c) : metricValue config c' = value ∧ c.1 < c'.1 := by
  rw [Better, metricValue_of_some hc] at hbetter
  refine hbetter.resolve_left ?_
  rw [IsBestMetric] at h
  cases hmetric : metric? config c' with
  | none =>
    rw [metricValue, hmetric, Option.getD_none, missing]
    split_ifs
    · exact not_lt_bot
    · exact not_top_lt
  | some v =>
    rw [metricValue_of_some hmetric]
    split_ifs at h ⊢
    · exact not_lt.mpr (h.2 ⟨c', hc', hmetric⟩)
    · exact not_lt.mpr (h.2 ⟨c', hc', hmetric⟩)

omit [BoundedOrder R] in
/-- Of the checkpoints with the best metric there is a newest. -/
theorem exists_newest (h : ∃ c ∈ history, metric? config c = some value) :
    ∃ c ∈ history, metric? config c = some value ∧
      ∀ c' ∈ history, metric? config c' = some value → c'.1 ≤ c.1 := by
  obtain ⟨c, hc, hmetric⟩ := h
  have hmem : c ∈ (history.filter fun c' => metric? config c' = some value).toFinset := by
    simp [hc, hmetric]
  obtain ⟨newest, hnewest, hle⟩ := Finset.exists_max_image _ Prod.fst ⟨c, hmem⟩
  simp only [List.mem_toFinset, List.mem_filter, decide_eq_true_eq] at hnewest hle
  exact ⟨newest, hnewest.1, hnewest.2, fun c' hc' hv => hle c' ⟨hc', hv⟩⟩

/-- A checkpoint with the best metric is kept. -/
theorem exists_kept {k : ℕ} (hk : 0 < k) (hbest : IsBestMetric config history value)
    (hstands : MetricStands config k history) :
    ∃ c ∈ history, metric? config c = some value ∧ Kept config k history c := by
  by_cases hvalue : value = missing R config
  · obtain hnone | ⟨c, hc, v, hv, hne⟩ | ⟨c, hc, hsome, hnewest⟩ := hstands
    · obtain ⟨c, hc, hmetric⟩ := hbest.exists_mem
      rw [hnone c hc] at hmetric
      cases hmetric
    · -- the best of the metrics is not the worst value
      rw [IsBestMetric] at hbest
      rw [missing] at hvalue hne
      split_ifs at hbest hvalue hne
      · exact absurd (le_bot_iff.mp (hvalue ▸ hbest.2 ⟨c, hc, hv⟩)) hne
      · exact absurd (top_le_iff.mp (hvalue ▸ hbest.2 ⟨c, hc, hv⟩)) hne
    · obtain ⟨v, hv⟩ := Option.isSome_iff_exists.mp hsome
      have hmetric : metric? config c = some value := by
        rw [hv, Option.some.injEq]
        rw [IsBestMetric] at hbest
        rw [missing] at hvalue
        split_ifs at hbest hvalue
        · exact (le_bot_iff.mp (hvalue ▸ hbest.2 ⟨c, hc, hv⟩)).trans hvalue.symm
        · exact (top_le_iff.mp (hvalue ▸ hbest.2 ⟨c, hc, hv⟩)).trans hvalue.symm
      refine ⟨c, hc, hmetric, .inl (lt_of_le_of_lt ?_ hnewest)⟩
      refine List.countP_mono_left fun c' hc' hbetter => ?_
      exact decide_eq_true (hbest.not_better hmetric hc' (of_decide_eq_true hbetter)).2
  · obtain ⟨c, hc, hmetric, hnewest⟩ := exists_newest hbest.exists_mem
    refine ⟨c, hc, hmetric, .inl ?_⟩
    have hnone : history.countP (fun c' => Better config c' c) = 0 := by
      rw [List.countP_eq_zero]
      intro c' hc' hbetter
      obtain ⟨heq, hlt⟩ := hbest.not_better hmetric hc' (of_decide_eq_true hbetter)
      cases hmetric' : metric? config c' with
      | none =>
        rw [metricValue, hmetric', Option.getD_none] at heq
        exact hvalue heq.symm
      | some v =>
        rw [metricValue_of_some hmetric'] at heq
        exact absurd (hnewest c' hc' (heq ▸ hmetric')) (not_le.mpr hlt)
    rw [hnone]
    exact hk

/-- When the metric does not stand, the missing value is the best metric and no checkpoint that
has it is kept. -/
theorem not_kept_of_not_stands {k : ℕ} (hk : 0 < k) (hstands : ¬MetricStands config k history) :
    IsBestMetric config history (missing R config) ∧
      ∀ c ∈ history, (metric? config c).isSome → ¬Kept config k history c := by
  rw [MetricStands, not_or, not_or] at hstands
  obtain ⟨hsome, hmissing, hnewest⟩ := hstands
  push Not at hsome hmissing hnewest
  have hvalue : ∀ c ∈ history, metricValue config c = missing R config := by
    intro c hc
    cases hmetric : metric? config c with
    | none => rw [metricValue, hmetric, Option.getD_none]
    | some v => rw [metricValue_of_some hmetric, hmissing c hc v hmetric]
  constructor
  · obtain ⟨c, hc, hne⟩ := hsome
    obtain ⟨v, hv⟩ := Option.ne_none_iff_exists'.mp hne
    have hmetric : metric? config c = some (missing R config) := hmissing c hc v hv ▸ hv
    rw [IsBestMetric]
    split_ifs
    · exact ⟨⟨c, hc, hmetric⟩, fun v ⟨c', hc', hv⟩ => (hmissing c' hc' v hv).le⟩
    · exact ⟨⟨c, hc, hmetric⟩, fun v ⟨c', hc', hv⟩ => (hmissing c' hc' v hv).ge⟩
  · intro c hc hsome hkept
    have hcount : k ≤ history.countP fun c' => Better config c' c := by
      refine (hnewest c hc hsome).trans (List.countP_mono_left fun c' hc' hlt => ?_)
      exact decide_eq_true (.inr ⟨(hvalue c' hc').trans (hvalue c hc).symm, of_decide_eq_true hlt⟩)
    have hnone := hkept.resolve_left (not_lt.mpr hcount)
    have hzero : history.countP (fun c' => c.1 < c'.1) = 0 := by
      rw [List.countP_eq_zero]
      intro c' hc' hlt
      exact absurd (hnone c' hc') (not_le.mpr (of_decide_eq_true hlt))
    have hge := hnewest c hc hsome
    omega

section After
variable {fs fs' : FS R} {k : ℕ}
  (hremoved : ∀ c ∈ loadCheckpointHistory fs, ¬Kept config k (loadCheckpointHistory fs) c →
    fs'.lookup (.step c.1) = none)
  (hothers : ∀ path, (∀ c ∈ loadCheckpointHistory fs, path = .step c.1 →
    Kept config k (loadCheckpointHistory fs) c) → fs'.lookup path = fs.lookup path)
include hremoved hothers

/-- The history after the cleanup. -/
theorem mem_history_after {c : ℕ × List (String × R)} :
    c ∈ loadCheckpointHistory fs' ↔
      c ∈ loadCheckpointHistory fs ∧ Kept config k (loadCheckpointHistory fs) c := by
  by_cases hkept : ∀ c' ∈ loadCheckpointHistory fs, CheckpointPath.step c.1 = .step c'.1 →
      Kept config k (loadCheckpointHistory fs) c'
  · rw [mem_history_of_lookup_eq (hothers _ hkept)]
    exact ⟨fun hc => ⟨hc, hkept c hc rfl⟩, fun h => h.1⟩
  · push Not at hkept
    obtain ⟨c', hc', hstep, hnot⟩ := hkept
    have hnone := hremoved c' hc' hnot
    constructor
    · intro hc
      obtain ⟨d, hd, -⟩ := mem_loadCheckpointHistory.mp hc
      rw [hstep, hnone] at hd
      cases hd
    · rintro ⟨hc, hkept⟩
      rw [eq_of_step_eq hc hc' (CheckpointPath.step.inj hstep)] at hkept
      exact absurd hkept hnot

omit hremoved in
/-- The latest checkpoint is kept. -/
theorem getLatestCheckpointPath_after :
    getLatestCheckpointPath fs' = getLatestCheckpointPath fs := by
  have hsub : ∀ n, HasStep fs' n → HasStep fs n := by
    intro n hn
    by_cases hkept : ∀ c ∈ loadCheckpointHistory fs, CheckpointPath.step n = .step c.1 →
        Kept config k (loadCheckpointHistory fs) c
    · exact (HasStep.congr (hothers _ hkept)).mp hn
    · push Not at hkept
      obtain ⟨c, hc, hstep, -⟩ := hkept
      rw [CheckpointPath.step.inj hstep]
      exact hasStep_of_mem_history hc
  have hlatest : ∀ n, getLatestCheckpointPath fs = some n →
      getLatestCheckpointPath fs' = some n := by
    intro n hn
    rw [getLatestCheckpointPath_eq_some] at hn ⊢
    refine ⟨(HasStep.congr (hothers (.step n) ?_)).mpr hn.1, fun m hm => hn.2 m (hsub m hm)⟩
    intro c hc hstep
    refine .inr fun c' hc' => ?_
    rw [← CheckpointPath.step.inj hstep]
    exact hn.2 c'.1 (hasStep_of_mem_history hc')
  cases hget' : getLatestCheckpointPath fs' with
  | some n =>
    obtain ⟨m, hm, -⟩ := exists_latest (hsub n (getLatestCheckpointPath_eq_some.mp hget').1)
    rw [hm, ← hget', hlatest m hm]
  | none =>
    cases hget : getLatestCheckpointPath fs with
    | none => rfl
    | some m => rw [← hget', hlatest m hget]

end After

/-- What keeps its promise had a metric that stands. -/
theorem Retains.metricStands {fs fs' : FS R} {k : ℕ} (hretains : Retains config k fs fs')
    (hk : 0 < k) : MetricStands config k (loadCheckpointHistory fs) := by
  by_contra hstands
  obtain ⟨hbest, hnone⟩ := not_kept_of_not_stands hk hstands
  obtain ⟨c, hc, -, hmetric⟩ := hretains.best _ hbest
  obtain ⟨hmem, hkept⟩ := (mem_history_after hretains.removed hretains.others).mp hc
  refine hnone c hmem ?_ hkept
  rw [hmetric]
  rfl

/-- The cleanup does what it promises exactly when a metric is other than the value of a missing
one, or one of the newest checkpoints has it, or none has. -/
theorem removeOldCheckpoints_retains_iff (config : CheckpointingConfig) (fs : FS R) (k : ℕ)
    (hkeep : config.keepTopK = some (k : ℤ)) (hk : 0 < k) :
    (∃ fs', (removeOldCheckpoints config true).outcome fs = .ok ((), fs') ∧
      Retains config k fs fs') ↔ MetricStands config k (loadCheckpointHistory fs) := by
  constructor
  · rintro ⟨fs', -, hretains⟩
    exact hretains.metricStands hk
  · intro hstands
    obtain ⟨fs', hout, hremoved, hothers⟩ := removeOldCheckpoints_eq fs hkeep
    refine ⟨fs', hout, getLatestCheckpointPath_after hothers, hremoved, hothers, ?_⟩
    intro value hbest
    obtain ⟨c, hc, hmetric, hkept⟩ := exists_kept hk hbest hstands
    have hafter := fun c => mem_history_after (c := c) hremoved hothers
    exact getBestCheckpointPath_eq (hbest.subset (fun c' hc' => ((hafter c').mp hc').1)
      ((hafter c).mpr ⟨hc, hkept⟩) hmetric)

end Stands

/-! ## A loss that diverged -/

/-- Integers with the infinities. -/
abbrev Loss := WithBot (WithTop ℤ)

/-- A checkpoint with some metrics. -/
def checkpointDir (metrics : List (String × Loss)) : Dir Loss :=
  ⟨[.trainingInfo metrics], [.trainingInfo metrics], .trainingInfo metrics, by simp, rfl⟩

/-- A checkpoint with a loss, and a newer one that was not validated. -/
def unvalidated (loss : Loss) : FS Loss :=
  ((∅ : FS Loss).insert (.step 1) (checkpointDir [("loss", loss)])).insert (.step 2)
    (checkpointDir [])

/-- A manager that keeps the checkpoint with the lowest loss. -/
def keepLowestLoss : CheckpointingConfig := ⟨some "loss", false, some 1⟩

/-- With a finite loss the checkpoint that has it is kept. -/
theorem removeOldCheckpoints_retains_finite : ∃ fs',
    (removeOldCheckpoints keepLowestLoss true).outcome (unvalidated (3 : ℤ)) = .ok ((), fs') ∧
      Retains keepLowestLoss 1 (unvalidated (3 : ℤ)) fs' := by
  refine (removeOldCheckpoints_retains_iff keepLowestLoss _ 1 rfl Nat.one_pos).mpr ?_
  exact .inr (.inl ⟨(1, [("loss", (3 : ℤ))]), by decide, (3 : ℤ), rfl, by decide⟩)

/-- With an infinite loss the newer checkpoint takes its place. -/
theorem removeOldCheckpoints_not_retains : ¬∃ fs',
    (removeOldCheckpoints keepLowestLoss true).outcome (unvalidated ⊤) = .ok ((), fs') ∧
      Retains keepLowestLoss 1 (unvalidated ⊤) fs' := by
  rintro ⟨fs', -, hretains⟩
  have hhistory : loadCheckpointHistory (unvalidated ⊤) = [(2, []), (1, [("loss", ⊤)])] := by
    decide
  have hstands := hretains.metricStands Nat.one_pos
  rw [hhistory] at hstands
  obtain hnone | ⟨c, hc, value, hvalue, hne⟩ | ⟨c, hc, hsome, hnewest⟩ := hstands
  · exact absurd (hnone (1, [("loss", ⊤)]) (by simp)) (by decide)
  · simp only [List.mem_cons, List.not_mem_nil, or_false] at hc
    obtain rfl | rfl := hc
    · cases hvalue
    · exact hne (Option.some.inj hvalue).symm
  · simp only [List.mem_cons, List.not_mem_nil, or_false] at hc
    obtain rfl | rfl := hc
    · cases hsome
    · exact absurd hnewest (by decide)

end NemoRL.Utils
