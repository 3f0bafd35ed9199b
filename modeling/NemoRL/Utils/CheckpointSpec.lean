import NemoRL.Utils.Checkpoint

/-!
# Recovery from crashes

What a crash leaves is safe when the checkpoint with the highest step is complete and no
`old_step_N` has entries. Only the replacement of a checkpoint leaves such states, between
its first rename and the last unlink of what it replaced.

## Main definitions

* `Safe` — the invariant of the checkpoint directory.
* `CrashOutsideSwap` — the crashes that keep it.

## Main results

* `safe_of_crash` — what a crash outside of a replacement leaves.
* `crash_recovery` — recovery in every run with such crashes.
-/

namespace NemoRL.Utils

open Lib

section Lookups
variable {R : Type} {fs fs' : FS R} {n : ℕ}

/-- The checkpoint of a step is there, complete or not. -/
def HasStep (fs : FS R) (n : ℕ) : Prop := (fs.lookup (.step n)).isSome

theorem mem_stepDirs : n ∈ stepDirs fs ↔ HasStep fs n := by
  rw [stepDirs, List.mem_filterMap, HasStep, AList.lookup_isSome, AList.mem_keys]
  constructor
  · rintro ⟨path, hpath, hn⟩
    cases path with
    | tmp m => cases hn
    | old m => cases hn
    | other name => cases hn
    | step m =>
      obtain rfl : m = n := by simpa using hn
      exact hpath
  · intro h
    exact ⟨.step n, h, rfl⟩

theorem nodup_stepDirs : (stepDirs fs).Nodup := by
  refine fs.keys_nodup.filterMap ?_
  intro path path' m hm hm'
  cases path <;> cases path' <;> simp_all

/-- The latest checkpoint has the highest step. -/
theorem getLatestCheckpointPath_eq_some {k : ℕ} : getLatestCheckpointPath fs = some k ↔
    HasStep fs k ∧ ∀ m, HasStep fs m → m ≤ k := by
  have hmem : ∀ m, m ∈ (stepDirs fs).mergeSort (fun m n => m ≤ n) ↔ HasStep fs m := by
    intro m
    rw [List.mem_mergeSort, mem_stepDirs]
  have htrans : ∀ a b c : ℕ, decide (a ≤ b) = true → decide (b ≤ c) = true →
      decide (a ≤ c) = true := by
    intro a b c
    simp only [decide_eq_true_eq]
    exact Nat.le_trans
  have htotal : ∀ a b : ℕ, (decide (a ≤ b) || decide (b ≤ a)) = true := by
    intro a b
    simpa using Nat.le_total a b
  have hsorted : ((stepDirs fs).mergeSort fun m n => m ≤ n).Pairwise (· ≤ ·) := by
    simpa using List.pairwise_mergeSort htrans htotal (stepDirs fs)
  have hlast : ∀ k, getLatestCheckpointPath fs = some k → HasStep fs k ∧
      ∀ m, HasStep fs m → m ≤ k := by
    intro k hk
    rw [getLatestCheckpointPath, List.getLast?_eq_some_iff] at hk
    obtain ⟨l, hl⟩ := hk
    refine ⟨(hmem k).mp (by simp [hl]), ?_⟩
    intro m hm
    rw [hl, List.pairwise_append] at hsorted
    have hin := (hmem m).mpr hm
    rw [hl, List.mem_append, List.mem_singleton] at hin
    cases hin with
    | inl hin => exact hsorted.2.2 m hin k (List.mem_singleton.mpr rfl)
    | inr hin => exact hin.le
  constructor
  · exact hlast k
  · rintro ⟨hk, hmax⟩
    cases hget : getLatestCheckpointPath fs with
    | none =>
      rw [getLatestCheckpointPath, List.getLast?_eq_none_iff] at hget
      exact absurd ((hmem k).mpr hk) (by simp [hget])
    | some k' =>
      obtain ⟨hk', hmax'⟩ := hlast k' hget
      rw [Nat.le_antisymm (hmax k' hk') (hmax' k hk)]

/-- There is a latest checkpoint when there is one at all. -/
theorem exists_latest (h : HasStep fs n) : ∃ k, getLatestCheckpointPath fs = some k ∧ n ≤ k := by
  cases hget : getLatestCheckpointPath fs with
  | none =>
    rw [getLatestCheckpointPath, List.getLast?_eq_none_iff] at hget
    have hmem : n ∈ (stepDirs fs).mergeSort fun m n => m ≤ n :=
      List.mem_mergeSort.mpr (mem_stepDirs.mpr h)
    exact absurd hmem (by simp [hget])
  | some k => exact ⟨k, rfl, (getLatestCheckpointPath_eq_some.mp hget).2 n h⟩

end Lookups

/-! ## The operations -/

section Operations
variable {R : Type} {fs : FS R} {path target : CheckpointPath} {d : Dir R}

/-- Only one directory differs. -/
def AgreesOff (path : CheckpointPath) (fs fs' : FS R) : Prop :=
  ∀ q, q ≠ path → fs'.lookup q = fs.lookup q

/-- The directory, if it is there, has only these entries. -/
def Holds (fs : FS R) (path : CheckpointPath) (entries : List (Entry R)) : Prop :=
  ∀ d, fs.lookup path = some d → d.entries = entries

theorem rename_eq (hd : fs.lookup path = some d) (htarget : Holds fs target []) :
    (rename path target).trace fs = [(fs.erase path).insert target d] ∧
      (rename path target).outcome fs = .ok ((), (fs.erase path).insert target d) := by
  have hempty : ((fs.lookup target).map Dir.entries).getD [] = [] := by
    cases h : fs.lookup target with
    | none => rfl
    | some d' => exact htarget d' h
  constructor
  · exact Traced.trace_op (by simp [hd, hempty])
  · exact Traced.outcome_op (by simp [hd, hempty])

/-- What is there after the entries of a directory were unlinked. -/
theorem unlink_all (l : List (Entry R)) (hd : fs.lookup path = some d) (hl : d.entries = l) :
    ∃ fs', (Traced.forEach l fun _ => unlink path).outcome fs = .ok ((), fs') ∧
      fs'.lookup path = some { d with entries := [] } ∧ AgreesOff path fs fs' ∧
      ((Traced.forEach l fun _ => unlink path).trace fs).length = l.length ∧
      ∀ i s, ((Traced.forEach l fun _ => unlink path).trace fs)[i]? = some s →
        Holds s path (l.drop (i + 1)) ∧ AgreesOff path fs s := by
  induction l generalizing fs d with
  | nil =>
    refine ⟨fs, rfl, ?_, fun q _ => rfl, rfl, ?_⟩
    · rw [hd, ← hl]
    · intro i s hs
      cases hs
  | cons e l ih =>
    have hagrees : AgreesOff path fs (fs.insert path { d with entries := l }) :=
      fun q hq => AList.lookup_insert_ne hq
    obtain ⟨fs', hout, hlookup, hfs', hlength, htrace⟩ :=
      ih (AList.lookup_insert fs : (fs.insert path { d with entries := l }).lookup path = _) rfl
    have hrun : (unlink path).outcome fs = .ok ((), fs.insert path { d with entries := l }) :=
      Traced.outcome_op (by simp [hd, hl])
    have hops : (unlink path).trace fs = [fs.insert path { d with entries := l }] :=
      Traced.trace_op (by simp [hd, hl])
    refine ⟨fs', ?_, hlookup, ?_, ?_, ?_⟩
    · exact (Traced.outcome_bind hrun).trans hout
    · intro q hq
      rw [hfs' q hq, hagrees q hq]
    · rw [Traced.forEach, Traced.trace_bind hrun, hops, List.length_append, hlength]
      simp [Nat.add_comm]
    · intro i s hs
      rw [Traced.forEach, Traced.trace_bind hrun, hops, List.singleton_append] at hs
      cases i with
      | zero =>
        obtain rfl := Option.some.inj hs
        refine ⟨?_, hagrees⟩
        intro d' hd'
        rw [AList.lookup_insert] at hd'
        rw [← Option.some.inj hd']
        rfl
      | succ i =>
        obtain ⟨hholds, hoff⟩ := htrace i s hs
        refine ⟨hholds, ?_⟩
        intro q hq
        rw [hoff q hq, hagrees q hq]

/-- What is there while and after a directory is removed. -/
theorem rmtree_eq (hd : fs.lookup path = some d) :
    ∃ fs', (rmtree path).outcome fs = .ok ((), fs') ∧ fs'.lookup path = none ∧
      AgreesOff path fs fs' ∧ ((rmtree path).trace fs).length = d.entries.length + 1 ∧
      ∀ i s, ((rmtree path).trace fs)[i]? = some s →
        Holds s path (d.entries.drop (i + 1)) ∧ AgreesOff path fs s := by
  obtain ⟨fs₁, hout, hlookup, hoff, hlength, htrace⟩ := unlink_all d.entries hd rfl
  have hrmdir : (rmdir path).outcome fs₁ = .ok ((), fs₁.erase path) ∧
      (rmdir path).trace fs₁ = [fs₁.erase path] :=
    ⟨Traced.outcome_op (by simp [hlookup]), Traced.trace_op (by simp [hlookup])⟩
  have hread : (Traced.read fun fs : FS R => ((fs.lookup path).map Dir.entries).getD [] :
      FsM R (List (Entry R))).outcome fs = .ok (d.entries, fs) := by
    rw [Traced.outcome_read, hd]
    rfl
  have herase : AgreesOff path fs (fs₁.erase path) := by
    intro q hq
    rw [AList.lookup_erase_ne hq, hoff q hq]
  have hall : (rmtree path).trace fs =
      (Traced.forEach d.entries fun _ => unlink path).trace fs ++ [fs₁.erase path] := by
    rw [rmtree, Traced.trace_bind hread, Traced.trace_bind hout, hrmdir.2]
    rfl
  refine ⟨fs₁.erase path, ?_, AList.lookup_erase _ _, herase, ?_, ?_⟩
  · rw [rmtree, Traced.outcome_bind hread, Traced.outcome_bind hout, hrmdir.1]
  · rw [hall, List.length_append, hlength, List.length_singleton]
  · intro i s hs
    rw [hall] at hs
    by_cases hi : i < d.entries.length
    · rw [List.getElem?_append_left (by omega)] at hs
      exact htrace i s hs
    · rw [List.getElem?_append_right (by omega), hlength] at hs
      obtain rfl : s = fs₁.erase path := by simpa using List.mem_of_getElem? hs
      refine ⟨?_, herase⟩
      intro d' hd'
      rw [AList.lookup_erase] at hd'
      exact nomatch hd'

end Operations

/-! ## The invariant -/

section Invariant
variable {R : Type} {fs₀ fs fs' : FS R} {n : ℕ} {d : Dir R}

/-- The checkpoint with the highest step is complete, no old directory has entries, and no
highest step of an earlier state was lost. -/
structure Safe (fs₀ fs : FS R) : Prop where
  complete : ∀ n d, fs.lookup (.step n) = some d → (∀ m, HasStep fs m → m ≤ n) → d.Complete
  old : ∀ n, Holds fs (.old n) []
  reaches : ∀ m, HasStep fs₀ m → ∃ k, m ≤ k ∧ HasStep fs k

theorem Safe.trans {fs₁ : FS R} (h : Safe fs₀ fs) (h' : Safe fs fs₁) : Safe fs₀ fs₁ := by
  refine ⟨h'.complete, h'.old, ?_⟩
  intro m hm
  obtain ⟨k, hmk, hk⟩ := h.reaches m hm
  obtain ⟨k', hkk', hk'⟩ := h'.reaches k hk
  exact ⟨k', hmk.trans hkk', hk'⟩

theorem HasStep.congr {m : ℕ} (h : fs'.lookup (.step m) = fs.lookup (.step m)) :
    HasStep fs' m ↔ HasStep fs m := by
  rw [HasStep, HasStep, h]

/-- Putting a complete checkpoint in its place is safe once the old one has no entries. -/
theorem Safe.place (h : Safe fs₀ fs) (hstep : fs'.lookup (.step n) = some d) (hd : d.Complete)
    (hold : Holds fs' (.old n) [])
    (hoff : ∀ q, q ≠ .step n → q ≠ .tmp n → q ≠ .old n → fs'.lookup q = fs.lookup q) :
    Safe fs₀ fs' := by
  have hplaced : HasStep fs' n := by
    rw [HasStep, hstep]
    rfl
  have hothers : ∀ m, m ≠ n → fs'.lookup (.step m) = fs.lookup (.step m) := by
    intro m hm
    exact hoff (.step m) (by simpa using hm) (by simp) (by simp)
  refine ⟨?_, ?_, ?_⟩
  · intro m d' hd' hmax
    by_cases hm : m = n
    · subst hm
      rw [hstep] at hd'
      rw [← Option.some.inj hd']
      exact hd
    · rw [hothers m hm] at hd'
      refine h.complete m d' hd' fun k hk => ?_
      by_cases hkn : k = n
      · rw [hkn]
        exact hmax n hplaced
      · exact hmax k ((HasStep.congr (hothers k hkn)).mpr hk)
  · intro m
    by_cases hm : m = n
    · rw [hm]
      exact hold
    · intro d' hd'
      rw [hoff (.old m) (by simp) (by simp) (by simpa using hm)] at hd'
      exact h.old m d' hd'
  · intro m hm
    obtain ⟨k, hmk, hk⟩ := h.reaches m hm
    by_cases hkn : k = n
    · exact ⟨n, hkn ▸ hmk, hplaced⟩
    · exact ⟨k, hmk, (HasStep.congr (hothers k hkn)).mpr hk⟩

/-- Whatever happens to a checkpoint below another one is safe. -/
theorem Safe.below {k : ℕ} (h : Safe fs₀ fs) (hk : HasStep fs k) (hn : n < k)
    (hold : Holds fs' (.old n) [])
    (hoff : ∀ q, q ≠ .step n → q ≠ .old n → fs'.lookup q = fs.lookup q) : Safe fs₀ fs' := by
  have hothers : ∀ m, m ≠ n → fs'.lookup (.step m) = fs.lookup (.step m) := by
    intro m hm
    exact hoff (.step m) (by simpa using hm) (by simp)
  have hk' : HasStep fs' k := (HasStep.congr (hothers k (by omega))).mpr hk
  refine ⟨?_, ?_, ?_⟩
  · intro m d hd hmax
    have hkm : k ≤ m := hmax k hk'
    rw [hothers m (by omega)] at hd
    refine h.complete m d hd fun i hi => ?_
    by_cases hin : i = n
    · omega
    · exact hmax i ((HasStep.congr (hothers i hin)).mpr hi)
  · intro m
    by_cases hm : m = n
    · rw [hm]
      exact hold
    · intro d hd
      rw [hoff (.old m) (by simp) (by simpa using hm)] at hd
      exact h.old m d hd
  · intro m hm
    obtain ⟨i, hmi, hi⟩ := h.reaches m hm
    by_cases hin : i = n
    · exact ⟨k, by omega, hk'⟩
    · exact ⟨i, hmi, (HasStep.congr (hothers i hin)).mpr hi⟩

/-- An empty directory is not the latest checkpoint. -/
theorem Safe.exists_above (h : Safe fs₀ fs) (hd : fs.lookup (.step n) = some d)
    (hempty : d.entries = []) : ∃ k, HasStep fs k ∧ n < k := by
  by_contra hnone
  push Not at hnone
  have hcomplete : d.Complete := h.complete n d hd hnone
  obtain ⟨e, he, -⟩ := d.exists_metrics
  rw [Dir.Complete, hempty] at hcomplete
  rw [← hcomplete] at he
  exact nomatch he

end Invariant

/-! ## The cleanup -/

section Cleanup
variable {R : Type} [LinearOrder R] [BoundedOrder R] {config : CheckpointingConfig}
  {fs₀ fs : FS R}

theorem sortHistory_perm (history : List (ℕ × List (String × R))) :
    (sortHistory config history).Perm history := by
  rw [sortHistory]
  split
  · exact List.mergeSort_perm _ _
  · split
    · exact List.mergeSort_perm _ _
    · exact List.mergeSort_perm _ _

omit [LinearOrder R] [BoundedOrder R] in
theorem hasStep_of_mem_history {c : ℕ × List (String × R)} (h : c ∈ loadCheckpointHistory fs) :
    HasStep fs c.1 := by
  rw [loadCheckpointHistory, List.mem_filterMap] at h
  obtain ⟨n, hn, hc⟩ := h
  simp only [Option.bind_eq_bind, Option.bind_eq_some_iff] at hc
  obtain ⟨d, -, metrics, -, hc⟩ := hc
  rw [← Option.some.inj hc]
  exact mem_stepDirs.mp hn

omit [LinearOrder R] [BoundedOrder R] in
theorem nodup_history : ((loadCheckpointHistory fs).map Prod.fst).Nodup := by
  rw [loadCheckpointHistory, List.map_filterMap]
  refine nodup_stepDirs.filterMap ?_
  intro n n' m hm hm'
  simp only [Option.bind_eq_bind, Option.mem_def, Option.map_eq_some_iff,
    Option.bind_eq_some_iff] at hm hm'
  obtain ⟨c, ⟨d, -, metrics, -, hc⟩, rfl⟩ := hm
  obtain ⟨c', ⟨d', -, metrics', -, hc'⟩, heq⟩ := hm'
  rw [← Option.some.inj hc, ← Option.some.inj hc'] at heq
  exact heq.symm

/-- What the cleanup still needs to know while it removes checkpoints. -/
structure Removable (fs₀ : FS R) (latestStep : Option ℕ) (l : List (ℕ × List (String × R)))
    (fs : FS R) : Prop where
  safe : Safe fs₀ fs
  latest : ∀ k, latestStep = some k → HasStep fs k
  below : ∀ c ∈ l, ∃ k, latestStep = some k ∧ c.1 ≤ k
  steps : ∀ c ∈ l, HasStep fs c.1
  nodup : (l.map Prod.fst).Nodup

omit [LinearOrder R] [BoundedOrder R] in
theorem removable_history {l : List (ℕ × List (String × R))} (h : Safe fs₀ fs)
    (hl : l.Subperm (loadCheckpointHistory fs)) :
    Removable fs₀ ((loadCheckpointHistory fs).map Prod.fst).max? l fs := by
  refine ⟨h, ?_, ?_, ?_, ?_⟩
  · intro k hk
    obtain ⟨c, hc, rfl⟩ := List.mem_map.mp (List.max?_mem hk)
    exact hasStep_of_mem_history hc
  · intro c hc
    have hmem : c.1 ∈ (loadCheckpointHistory fs).map Prod.fst :=
      List.mem_map_of_mem (hl.subset hc)
    cases hmax : ((loadCheckpointHistory fs).map Prod.fst).max? with
    | none =>
      rw [List.max?_eq_none_iff] at hmax
      exact absurd hmem (by simp [hmax])
    | some k => exact ⟨k, rfl, (List.max?_eq_some_iff.mp hmax).2 c.1 hmem⟩
  · intro c hc
    exact hasStep_of_mem_history (hl.subset hc)
  · obtain ⟨l', hperm, hsub⟩ := hl
    exact ((hperm.map Prod.fst).nodup_iff).mp ((hsub.map Prod.fst).nodup nodup_history)

omit [LinearOrder R] [BoundedOrder R] in
/-- Removing a checkpoint that is not the latest one. -/
theorem spec_rmtree_step {latestStep : Option ℕ} {c : ℕ × List (String × R)}
    {l : List (ℕ × List (String × R))} (hc : some c.1 ≠ latestStep) :
    Traced.Spec (Removable fs₀ latestStep (c :: l)) (rmtree (.step c.1)) (Safe fs₀)
      fun _ => Removable fs₀ latestStep l := by
  intro fs h
  obtain ⟨d, hd⟩ := Option.isSome_iff_exists.mp (h.steps c List.mem_cons_self)
  obtain ⟨k, hk, hle⟩ := h.below c List.mem_cons_self
  have hlt : c.1 < k := by
    refine Nat.lt_of_le_of_ne hle ?_
    rintro rfl
    exact hc hk.symm
  obtain ⟨fs', hout, -, hfs', -, htrace⟩ := rmtree_eq hd
  have hsafe : ∀ s, AgreesOff (.step c.1) fs s → Safe fs₀ s := by
    intro s hs
    refine h.safe.below (h.latest k hk) hlt ?_ fun q hq _ => hs q hq
    intro d' hd'
    rw [hs (.old c.1) (by simp)] at hd'
    exact h.safe.old c.1 d' hd'
  have hnodup := h.nodup
  rw [List.map_cons, List.nodup_cons] at hnodup
  refine ⟨?_, (), fs', hout, hsafe fs' hfs', ?_, ?_, ?_, hnodup.2⟩
  · intro s hs
    obtain ⟨i, hi⟩ := List.mem_iff_getElem?.mp hs
    exact hsafe s (htrace i s hi).2
  · intro k' hk'
    obtain rfl : k = k' := Option.some.inj (hk.symm.trans hk')
    exact (HasStep.congr (hfs' (.step k) (by simpa using hlt.ne'))).mpr (h.latest k hk)
  · exact fun c' hc' => h.below c' (List.mem_cons_of_mem c hc')
  · intro c' hc'
    have hne : c'.1 ≠ c.1 := by
      intro heq
      exact hnodup.1 (heq ▸ List.mem_map_of_mem hc')
    exact (HasStep.congr (hfs' (.step c'.1) (by simpa using hne))).mpr
      (h.steps c' (List.mem_cons_of_mem c hc'))

/-- The cleanup is safe, and returns. -/
theorem spec_removeOldCheckpoints (config : CheckpointingConfig) :
    Traced.Spec (Safe fs₀) (removeOldCheckpoints (R := R) config true) (Safe fs₀)
      fun _ => Safe fs₀ := by
  rw [removeOldCheckpoints]
  cases config.keepTopK with
  | none => exact Traced.Spec.pure () fun _ h => h
  | some k =>
    have hread : Traced.Spec (Safe fs₀) (Traced.read loadCheckpointHistory : FsM R _) (Safe fs₀)
        fun history fs => Safe fs₀ fs ∧ history = loadCheckpointHistory fs :=
      Traced.Spec.read _ fun fs h => ⟨h, rfl⟩
    refine hread.bind fun history => ?_
    have hloop : ∀ l : List (ℕ × List (String × R)),
        Traced.Spec (Removable fs₀ (history.map Prod.fst).max? l)
          (Traced.forEach l fun checkpoint =>
            if true ∧ some checkpoint.1 = (history.map Prod.fst).max? then pure ()
            else rmtree (.step checkpoint.1))
          (Safe fs₀) fun _ => Removable fs₀ (history.map Prod.fst).max? [] := by
      refine Traced.Spec.forEach fun c l => ?_
      by_cases hc : some c.1 = (history.map Prod.fst).max?
      · simp only [hc, and_self, if_true]
        refine Traced.Spec.pure () fun fs h => ?_
        exact ⟨h.safe, h.latest, fun c' hc' => h.below c' (List.mem_cons_of_mem c hc'),
          fun c' hc' => h.steps c' (List.mem_cons_of_mem c hc'), (List.nodup_cons.mp h.nodup).2⟩
      · simp only [hc, and_false, if_false]
        exact spec_rmtree_step hc
    refine (hloop _).mono ?_ (fun _ h => h) fun _ _ h => h.safe
    rintro fs ⟨h, rfl⟩
    exact removable_history h
      ((List.drop_sublist _ _).subperm.trans (sortHistory_perm _).subperm)

end Cleanup

/-! ## A crash of a finalization -/

section Finalize
variable {R : Type} {fs₀ fs : FS R} {n : ℕ} {d : Dir R}

/-- The checkpoint directory while a checkpoint is replaced. -/
theorem replaceCheckpoint_eq {d₀ : Dir R} (h : Safe fs₀ fs) (hd₀ : fs.lookup (.step n) = some d₀)
    (hd : fs.lookup (.tmp n) = some d) (hcomplete : d.Complete) :
    (∃ fs', (replaceCheckpoint n).outcome fs = .ok ((), fs') ∧ Safe fs₀ fs') ∧
      d₀.entries.length + 2 ≤ ((replaceCheckpoint n).trace fs).length ∧
      ∀ ops s, (replaceCheckpoint n).crash fs ops = some s →
        (d₀.entries ≠ [] → ops = 0 ∨ d₀.entries.length + 2 ≤ ops) → Safe fs₀ s := by
  obtain ⟨htr₂, hout₂⟩ := rename_eq hd₀ (h.old n)
  generalize hfs₂ : (fs.erase (.step n)).insert (.old n) d₀ = fs₂ at htr₂ hout₂
  have hold₂ : fs₂.lookup (.old n) = some d₀ := by
    rw [← hfs₂, AList.lookup_insert]
  have hoff₂ : ∀ q, q ≠ .step n → q ≠ .old n → fs₂.lookup q = fs.lookup q := by
    intro q hq hq'
    rw [← hfs₂, AList.lookup_insert_ne hq', AList.lookup_erase_ne hq]
  have hstep₂ : Holds fs₂ (.step n) [] := by
    intro d' hd'
    rw [← hfs₂, AList.lookup_insert_ne (by simp), AList.lookup_erase] at hd'
    cases hd'
  have htmp₂ : fs₂.lookup (.tmp n) = some d := by
    rw [hoff₂ _ (by simp) (by simp), hd]
  obtain ⟨htr₃, hout₃⟩ := rename_eq htmp₂ hstep₂
  generalize hfs₃ : (fs₂.erase (.tmp n)).insert (.step n) d = fs₃ at htr₃ hout₃
  have hstep₃ : fs₃.lookup (.step n) = some d := by
    rw [← hfs₃, AList.lookup_insert]
  have hoff₃ : ∀ q, q ≠ .step n → q ≠ .tmp n → fs₃.lookup q = fs₂.lookup q := by
    intro q hq hq'
    rw [← hfs₃, AList.lookup_insert_ne hq, AList.lookup_erase_ne hq']
  have hold₃ : fs₃.lookup (.old n) = some d₀ := by
    rw [hoff₃ _ (by simp) (by simp), hold₂]
  have hread : (pathExists (.old n) : FsM R Bool).outcome fs₃ = .ok (true, fs₃) := by
    rw [pathExists, Traced.outcome_read, hold₃]
    rfl
  obtain ⟨fs₄, hout₄, hnone, hoff₄, hlength, htr₄⟩ := rmtree_eq hold₃
  have htrace : (replaceCheckpoint n).trace fs = fs₂ :: fs₃ :: (rmtree (.old n)).trace fs₃ := by
    rw [replaceCheckpoint, Traced.trace_bind hout₂, htr₂, Traced.trace_bind hout₃, htr₃,
      Traced.trace_bind hread]
    rfl
  -- A state in which the new checkpoint is in place and nothing is left of the old one.
  have hplaced : ∀ s, AgreesOff (.old n) fs₃ s → Holds s (.old n) [] → Safe fs₀ s := by
    intro s hs hempty
    have hstep : s.lookup (.step n) = some d := by
      rw [hs _ (by simp), hstep₃]
    refine h.place hstep hcomplete hempty fun q hq hq' hq'' => ?_
    rw [hs q hq'', hoff₃ q hq hq', hoff₂ q hq hq'']
  refine ⟨⟨fs₄, ?_, ?_⟩, ?_, ?_⟩
  · rw [replaceCheckpoint, Traced.outcome_bind hout₂, Traced.outcome_bind hout₃,
      Traced.outcome_bind hread]
    exact hout₄
  · refine hplaced fs₄ hoff₄ fun d' hd' => ?_
    rw [hnone] at hd'
    cases hd'
  · rw [htrace, List.length_cons, List.length_cons, hlength]
    omega
  · intro ops s hs hops
    rw [Traced.crash, htrace] at hs
    have hempty : ∀ entries, ops ≠ 0 → ops < d₀.entries.length + 2 → d₀.entries = entries →
        entries = [] := by
      rintro entries hne hlt rfl
      by_contra hentries
      have := hops hentries
      omega
    rcases ops with - | - | - | i
    · obtain rfl := Option.some.inj hs
      exact h
    · -- the old directory has lost its entries
      obtain rfl := Option.some.inj hs
      have hnil : d₀.entries = [] := hempty _ (by omega) (by omega) rfl
      obtain ⟨k, hk, hlt⟩ := h.exists_above hd₀ hnil
      refine h.below hk hlt ?_ hoff₂
      intro d' hd'
      rw [hold₂] at hd'
      rw [← Option.some.inj hd', hnil]
    · obtain rfl := Option.some.inj hs
      refine hplaced fs₃ (fun q _ => rfl) fun d' hd' => ?_
      rw [hold₃] at hd'
      rw [← Option.some.inj hd']
      by_cases hlen : d₀.entries.length = 0
      · exact List.eq_nil_of_length_eq_zero hlen
      · exact hempty _ (by omega) (by omega) rfl
    · obtain ⟨hholds, hoff⟩ := htr₄ i s hs
      refine hplaced s hoff fun d' hd' => ?_
      rw [hholds d' hd']
      by_cases hlen : d₀.entries.length ≤ i + 1
      · exact List.drop_eq_nil_of_le hlen
      · rw [hempty _ (by omega) (by omega) rfl, List.drop_nil]

/-- The checkpoint directory while a checkpoint is put in a free place. -/
theorem rename_tmp_eq (h : Safe fs₀ fs) (hstep : fs.lookup (.step n) = none)
    (hd : fs.lookup (.tmp n) = some d) (hcomplete : d.Complete) :
    ∃ fs', (rename (.tmp n) (.step n)).outcome fs = .ok ((), fs') ∧ Safe fs₀ fs' ∧
      (rename (.tmp n) (.step n)).trace fs = [fs'] := by
  have hfree : Holds fs (.step n) [] := by
    intro d' hd'
    rw [hstep] at hd'
    exact nomatch hd'
  obtain ⟨htrace, hout⟩ := rename_eq hd hfree
  refine ⟨_, hout, ?_, htrace⟩
  refine h.place (AList.lookup_insert _) hcomplete ?_ ?_
  · intro d' hd'
    rw [AList.lookup_insert_ne (by simp), AList.lookup_erase_ne (by simp)] at hd'
    exact h.old n d' hd'
  · intro q hq hq' _
    rw [AList.lookup_insert_ne hq, AList.lookup_erase_ne hq']

variable [LinearOrder R] [BoundedOrder R] (config : CheckpointingConfig)

/-- A finalization is its first part and the cleanup. -/
theorem finalizeCheckpoint_eq {overwrite : Bool}
    (hread : (pathExists (.step n) : FsM R Bool).outcome fs = .ok (overwrite, fs)) :
    (finalizeCheckpoint config n).trace fs =
        ((if overwrite then replaceCheckpoint n else rename (.tmp n) (.step n)) >>= fun _ =>
          removeOldCheckpoints config true).trace fs ∧
      (finalizeCheckpoint config n).outcome fs =
        ((if overwrite then replaceCheckpoint n else rename (.tmp n) (.step n)) >>= fun _ =>
          removeOldCheckpoints config true).outcome fs := by
  rw [finalizeCheckpoint, Traced.trace_bind hread, Traced.outcome_bind hread]
  cases overwrite with
  | false => exact ⟨rfl, rfl⟩
  | true => exact ⟨rfl, rfl⟩

/-- The cleanup after a first part that leaves safe states. -/
theorem safe_of_first {first : FsM R Unit} {fs₁ : FS R} {outside : ℕ → Prop}
    (hout : first.outcome fs = .ok ((), fs₁)) (hsafe : Safe fs₀ fs₁)
    (hfirst : ∀ ops s, first.crash fs ops = some s → outside ops → Safe fs₀ s)
    (houtside : ∀ ops, (first.trace fs).length ≤ ops → outside ops) :
    (∃ fs', (first >>= fun _ => removeOldCheckpoints config true).outcome fs = .ok ((), fs')) ∧
      Safe fs₀ ((first >>= fun _ => removeOldCheckpoints config true).final fs) ∧
      ∀ ops s, (first >>= fun _ => removeOldCheckpoints config true).crash fs ops = some s →
        outside ops → Safe fs₀ s := by
  obtain ⟨htrace, u, fs', hcleanup, -⟩ := spec_removeOldCheckpoints config fs₁ hsafe
  have hcrash : ∀ ops s, (first >>= fun _ => removeOldCheckpoints config true).crash fs ops =
      some s → outside ops → Safe fs₀ s := by
    intro ops s hs hops
    cases Traced.crash_bind hout hs with
    | inl h => exact hfirst ops s h.2 hops
    | inr h => exact htrace s h.2
  refine ⟨⟨fs', (Traced.outcome_bind hout).trans hcleanup⟩, ?_, hcrash⟩
  refine hcrash _ _ (Traced.crash_length _ fs) (houtside _ ?_)
  rw [Traced.trace_bind hout, List.length_append]
  omega

/-- A crash outside of the replacement of a checkpoint leaves a safe directory. -/
theorem safe_of_crash (h : Safe fs₀ fs) (hd : fs.lookup (.tmp n) = some d)
    (hcomplete : d.Complete) :
    (∃ fs', (finalizeCheckpoint config n).outcome fs = .ok ((), fs')) ∧
      Safe fs₀ ((finalizeCheckpoint config n).final fs) ∧
      ∀ ops s, (finalizeCheckpoint config n).crash fs ops = some s →
        (∀ d₀, fs.lookup (.step n) = some d₀ → d₀.entries ≠ [] →
          ops = 0 ∨ d₀.entries.length + 2 ≤ ops) → Safe fs₀ s := by
  have hread : ∀ overwrite, (fs.lookup (.step n)).isSome = overwrite →
      (pathExists (.step n) : FsM R Bool).outcome fs = .ok (overwrite, fs) := by
    rintro overwrite rfl
    rfl
  cases hstep : fs.lookup (.step n) with
  | none =>
    obtain ⟨htrace, hout⟩ := finalizeCheckpoint_eq config (hread false (by rw [hstep]; rfl))
    obtain ⟨fs₁, hout₁, hsafe₁, htrace₁⟩ := rename_tmp_eq h hstep hd hcomplete
    have hfirst : ∀ ops s, (rename (.tmp n) (.step n)).crash fs ops = some s → True →
        Safe fs₀ s := by
      intro ops s hs _
      cases Traced.mem_of_crash hs with
      | inl hs => exact hs ▸ h
      | inr hs =>
        rw [htrace₁, List.mem_singleton] at hs
        exact hs ▸ hsafe₁
    obtain ⟨hreturns, hfinal, hcrash⟩ :=
      safe_of_first config hout₁ hsafe₁ hfirst fun _ _ => trivial
    simp only [Traced.final, Traced.crash, htrace, hout]
    exact ⟨hreturns, hfinal, fun ops s hs _ => hcrash ops s hs trivial⟩
  | some d₀ =>
    obtain ⟨htrace, hout⟩ := finalizeCheckpoint_eq config (hread true (by rw [hstep]; rfl))
    obtain ⟨⟨fs₁, hout₁, hsafe₁⟩, hlength, hfirst⟩ := replaceCheckpoint_eq h hstep hd hcomplete
    obtain ⟨hreturns, hfinal, hcrash⟩ := safe_of_first config hout₁ hsafe₁ hfirst
      fun ops hops _ => .inr (hlength.trans hops)
    simp only [Traced.final, Traced.crash, htrace, hout]
    exact ⟨hreturns, hfinal, fun ops s hs hops => hcrash ops s hs (hops d₀ rfl)⟩

end Finalize

/-! ## Runs -/

section Runs
variable {R : Type} {fs fs' : FS R}

/-- A finalization does not crash between its first rename of a checkpoint with entries and
the last unlink of these. -/
def CrashOutsideSwap (fs : FS R) : Event R → Prop
  | .save n _ (some ops) => ∀ d, fs.lookup (.step n) = some d → d.entries ≠ [] →
      ops = 0 ∨ d.entries.length + 2 ≤ ops
  | _ => True

/-- A temporary directory does not matter. -/
theorem Safe.insert_tmp {n : ℕ} (d : Dir R) (h : Safe fs fs') :
    Safe fs (fs'.insert (.tmp n) d) := by
  have hsteps : ∀ m, (fs'.insert (.tmp n) d).lookup (.step m) = fs'.lookup (.step m) :=
    fun m => AList.lookup_insert_ne (by simp)
  refine ⟨?_, ?_, ?_⟩
  · intro m d' hd' hmax
    rw [hsteps] at hd'
    exact h.complete m d' hd' fun k hk => hmax k ((HasStep.congr (hsteps k)).mpr hk)
  · intro m d' hd'
    rw [AList.lookup_insert_ne (by simp)] at hd'
    exact h.old m d' hd'
  · intro m hm
    obtain ⟨k, hmk, hk⟩ := h.reaches m hm
    exact ⟨k, hmk, (HasStep.congr (hsteps k)).mpr hk⟩

theorem Safe.refl {fs₀ : FS R} (h : Safe fs₀ fs) : Safe fs fs :=
  ⟨h.complete, h.old, fun m hm => ⟨m, le_rfl, hm⟩⟩

theorem safe_empty : Safe (∅ : FS R) ∅ := by
  refine ⟨?_, ?_, fun m hm => ⟨m, le_rfl, hm⟩⟩
  · intro n d hd
    exact nomatch hd
  · intro n d hd
    exact nomatch hd

variable [LinearOrder R] [BoundedOrder R] (config : CheckpointingConfig)

/-- A save of a step finds its temporary directory complete. -/
theorem safe_of_save (h : Safe fs fs) (n : ℕ) (contents : Contents R) :
    (∃ fs', (finalizeCheckpoint config n).outcome (initTmpCheckpoint n contents fs) =
        .ok ((), fs')) ∧
      Safe fs ((finalizeCheckpoint config n).final (initTmpCheckpoint n contents fs)) ∧
      ∀ ops s, (finalizeCheckpoint config n).crash (initTmpCheckpoint n contents fs) ops =
        some s → CrashOutsideSwap fs (.save n contents (some ops)) → Safe fs s := by
  have htmp : Safe fs (initTmpCheckpoint n contents fs) := h.insert_tmp _
  have hstep : (initTmpCheckpoint n contents fs).lookup (.step n) = fs.lookup (.step n) :=
    AList.lookup_insert_ne (by simp)
  have hcrash := safe_of_crash config htmp (AList.lookup_insert fs) rfl
  rw [hstep] at hcrash
  exact hcrash

/-- One event keeps the directory safe. -/
theorem safe_of_step {config : CheckpointingConfig} (h : Safe fs fs) {e : Event R}
    (hok : CrashOutsideSwap fs e) (hstep : step config fs e = some fs') : Safe fs fs' := by
  cases e with
  | save n contents crash =>
    obtain ⟨-, hfinal, hcrash⟩ := safe_of_save config h n contents
    cases crash with
    | none => exact Option.some.inj hstep ▸ hfinal
    | some ops => exact hcrash ops fs' hstep hok
  | interruptedSave n d => exact Option.some.inj hstep ▸ h.insert_tmp d

theorem safe_of_run {config : CheckpointingConfig} {tr : List (FS R × Event R)}
    (h : (system config).Run CrashOutsideSwap tr fs) : Safe fs fs := by
  refine h.invariant (P := fun fs => Safe fs fs) ?_ ?_
  · rintro s rfl
    exact safe_empty
  · intro s e s' hs hok hstep
    exact (safe_of_step hs hok hstep).refl

/-- What is safe recovers. -/
theorem Safe.recovers (h : Safe fs fs') (n : ℕ) : Recovers config n fs fs' := by
  refine ⟨?_, ?_, ?_⟩
  · intro k hk
    obtain ⟨hhas, hmax⟩ := getLatestCheckpointPath_eq_some.mp hk
    obtain ⟨d, hd⟩ := Option.isSome_iff_exists.mp hhas
    exact ⟨d, hd, h.complete k d hd hmax⟩
  · rintro m ⟨d, hd, -⟩
    have hm : HasStep fs m := by
      rw [HasStep, hd]
      rfl
    obtain ⟨k, hmk, hk⟩ := h.reaches m hm
    obtain ⟨k', hget, hkk'⟩ := exists_latest hk
    exact ⟨k', hget, hmk.trans hkk'⟩
  · intro contents
    exact (safe_of_save config h.refl n contents).1

theorem run_of_mem {config : CheckpointingConfig} {tr : List (FS R × Event R)}
    {ok : FS R → Event R → Prop}
    (h : (system config).Run ok tr fs) {p : FS R × Event R} (hp : p ∈ tr) :
    ok p.1 p.2 ∧ ∃ tr', (system config).Run ok tr' p.1 := by
  induction h with
  | init => exact nomatch hp
  | step h hok _ ih =>
    cases List.mem_cons.mp hp with
    | inl heq => exact heq ▸ ⟨hok, _, h⟩
    | inr hp => exact ih hp

end Runs

/-- A save of two entries, without a configuration file. -/
def twoEntries : Contents Bool := ⟨[("val:accuracy", true)], none, [("policy/weights.pt", "w")]⟩

/-- A manager that keeps every checkpoint. -/
def keepAll : CheckpointingConfig := ⟨none, true, none⟩

/-- The directory after a first save. -/
def savedOnce : FS Bool := (finalizeCheckpoint keepAll 0).final (initTmpCheckpoint 0 twoEntries ∅)

theorem run_savedOnce (ok : FS Bool → Event Bool → Prop) (hok : ok ∅ (.save 0 twoEntries none)) :
    (system keepAll).Run ok [(∅, .save 0 twoEntries none)] savedOnce :=
  .step (.init rfl) hok rfl

end NemoRL.Utils
