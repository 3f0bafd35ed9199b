import NemoRL.Environments.NemoGym

/-!
# The results of NeMo-Gym by example

A task that completes is put into the row of its example, and a task that fails into the row
of its position among the completed ones. Every example gets its own result exactly when the
positions of the failed tasks are those of the failed examples.

## Main definitions

* `Attempt` — the tasks of one attempt in the order in which they complete.
* `IsResultOf` — a result belongs to an example.

## Main results

* `NemoGym.runRollouts_iff` — when every example gets its own result.
-/

namespace NemoRL.Environments

open Lib

variable {Tok Lp Route R : Type} {n : ℕ}

/-- The tasks of an attempt: an order of completion, and for every example the result that its
task resolves to, or none if it fails. -/
structure Attempt (n : ℕ) (Tok Lp Route R : Type) where
  order : List ℕ
  perm : order.Perm (List.range n)
  outcome : ℕ → Option (Except String (GymResult Tok Lp Route R))

namespace Attempt
variable (attempt : Attempt n Tok Lp Route R)

/-- The tasks as they complete. Those that resolve have the row of their example. -/
def tasks : List (Option (NemoGym.TaskResult Tok Lp Route R)) :=
  attempt.order.map fun i => (attempt.outcome i).map fun result => (i, result)

/-- The row that the task at a position gets. -/
def row (p i : ℕ) : ℕ := if (attempt.outcome i).isSome then i else p

/-- The rows of the tasks. -/
def rows : List ℕ := attempt.order.mapIdx attempt.row

theorem length_order : attempt.order.length = n := length_of_perm_range attempt.perm

theorem nodup_order : attempt.order.Nodup := attempt.perm.nodup_iff.mpr List.nodup_range

theorem lt_of_getElem? {p i : ℕ} (h : attempt.order[p]? = some i) : p < n ∧ i < n := by
  constructor
  · have hlt := (List.getElem?_eq_some_iff.mp h).1
    rwa [attempt.length_order] at hlt
  · exact lt_of_perm_range attempt.perm i (List.mem_of_getElem? h)

theorem length_rows : attempt.rows.length = n := by
  rw [rows, List.length_mapIdx, attempt.length_order]

theorem mem_rows {r : ℕ} :
    r ∈ attempt.rows ↔ ∃ p i, attempt.order[p]? = some i ∧ attempt.row p i = r := by
  simp only [rows, List.mem_mapIdx]
  constructor
  · rintro ⟨p, hp, rfl⟩
    exact ⟨p, attempt.order[p], List.getElem?_eq_getElem hp, rfl⟩
  · rintro ⟨p, i, hpi, rfl⟩
    obtain ⟨hp, rfl⟩ := List.getElem?_eq_some_iff.mp hpi
    exact ⟨p, hp, rfl⟩

theorem lt_of_mem_rows {r : ℕ} (h : r ∈ attempt.rows) : r < n := by
  obtain ⟨p, i, hpi, rfl⟩ := attempt.mem_rows.mp h
  obtain ⟨hp, hi⟩ := attempt.lt_of_getElem? hpi
  rw [row]
  split
  · exact hi
  · exact hp

/-- The tasks that fail complete at the positions of the examples that fail. -/
def FailInPlace : Prop :=
  ∀ p i, attempt.order[p]? = some i → attempt.outcome i = none → attempt.outcome p = none

/-- No two tasks get the same row if the failed tasks are at the positions of failed
examples. -/
theorem FailInPlace.row_ne {attempt : Attempt n Tok Lp Route R} (h : attempt.FailInPlace)
    {p q i j : ℕ} (hpi : attempt.order[p]? = some i) (hqj : attempt.order[q]? = some j)
    (hpq : p ≠ q) : attempt.row p i ≠ attempt.row q j := by
  have hij : i ≠ j := by
    intro heq
    subst heq
    have hlt := (List.getElem?_eq_some_iff.mp hpi).1
    exact hpq ((List.getElem?_inj hlt attempt.nodup_order).mp (hpi.trans hqj.symm))
  intro hrow
  cases hi : attempt.outcome i with
  | none =>
    have hp := h p i hpi hi
    cases hj : attempt.outcome j with
    | none => simp [row, hi, hj] at hrow; exact hpq hrow
    | some result =>
      -- the example whose task failed at its position has a task that resolves
      simp only [row, hi, hj, Option.isSome_none, Option.isSome_some, Bool.false_eq_true,
        if_false, if_true] at hrow
      rw [hrow, hj] at hp
      exact nomatch hp
  | some result =>
    cases hj : attempt.outcome j with
    | none =>
      have hq := h q j hqj hj
      simp only [row, hi, hj, Option.isSome_none, Option.isSome_some, Bool.false_eq_true,
        if_false, if_true] at hrow
      rw [← hrow, hi] at hq
      exact nomatch hq
    | some result' => simp [row, hi, hj] at hrow; exact hij hrow

theorem FailInPlace.nodup_rows {attempt : Attempt n Tok Lp Route R} (h : attempt.FailInPlace) :
    attempt.rows.Nodup := by
  rw [List.nodup_iff_getElem?_ne_getElem?]
  intro p q hpq hq
  rw [attempt.length_rows, ← attempt.length_order] at hq
  have hp : p < attempt.order.length := by omega
  rw [rows, List.getElem?_mapIdx, List.getElem?_mapIdx, List.getElem?_eq_getElem hp,
    List.getElem?_eq_getElem hq, Option.map_some, Option.map_some]
  intro hrow
  exact h.row_ne (List.getElem?_eq_getElem hp) (List.getElem?_eq_getElem hq) (by omega)
    (Option.some.inj hrow)

/-- Rows without repetition are all rows. -/
theorem rows_perm (h : attempt.rows.Nodup) : attempt.rows.Perm (List.range n) := by
  have hsub : attempt.rows.Subperm (List.range n) :=
    List.subperm_of_subset h fun r hr => List.mem_range.mpr (attempt.lt_of_mem_rows hr)
  refine hsub.perm_of_length_le ?_
  rw [attempt.length_rows, List.length_range]

/-- All rows are rows without repetition. -/
theorem nodup_rows (h : ∀ i < n, i ∈ attempt.rows) : attempt.rows.Nodup := by
  have hsub : (List.range n).Subperm attempt.rows :=
    List.subperm_of_subset List.nodup_range fun r hr => h r (List.mem_range.mp hr)
  have hperm := hsub.perm_of_length_le (by rw [attempt.length_rows, List.length_range])
  exact hperm.nodup_iff.mp List.nodup_range

/-- If every row is written, then the failed tasks are at the positions of failed examples. -/
theorem failInPlace_of_mem_rows (h : ∀ i < n, i ∈ attempt.rows) : attempt.FailInPlace := by
  intro p i hpi hfail
  cases hp : attempt.outcome p with
  | none => rfl
  | some result =>
    exfalso
    -- the task of the example at that position resolves elsewhere and gets the same row
    have hlt := (attempt.lt_of_getElem? hpi).1
    have hmem : p ∈ attempt.order := attempt.perm.mem_iff.mpr (List.mem_range.mpr hlt)
    obtain ⟨q, hq⟩ := List.mem_iff_getElem?.mp hmem
    have hrows : attempt.rows[p]? = attempt.rows[q]? := by
      rw [rows, List.getElem?_mapIdx, List.getElem?_mapIdx, hpi, hq]
      simp [row, hfail, hp]
    have hlen : p < attempt.rows.length := by rwa [attempt.length_rows]
    have hpq : p = q := (List.getElem?_inj hlen (attempt.nodup_rows h)).mp hrows
    subst hpq
    rw [hpi, Option.some.injEq] at hq
    rw [hq, hp] at hfail
    exact nomatch hfail

end Attempt

/-! ## Attempts -/

namespace NemoGym
variable [DecidableEq Tok] [ToString Tok] [Zero R] (self : NemoGym) (decode : List Tok → String)
  (isNan : Lp → Bool)

/-- The attempt whose results stand: the first one without NaN, or the last one. -/
def lastTrial (runExamples : ℕ → List (Option (TaskResult Tok Lp Route R))) : ℕ → ℕ → ℕ
  | 0, trial => trial
  | left + 1, trial =>
    if left = 0 then trial
    else if logprobContainsNan isNan (self.gatherResults decode (runExamples trial)) then
      lastTrial runExamples left (trial + 1)
    else trial

theorem rolloutAttempts_eq (runExamples : ℕ → List (Option (TaskResult Tok Lp Route R)))
    (left trial : ℕ) (results : List (ℕ × NemoRlResult Tok Lp Route R)) :
    self.rolloutAttempts decode isNan runExamples (left + 1) trial results =
      self.gatherResults decode
        (runExamples (self.lastTrial decode isNan runExamples (left + 1) trial)) := by
  induction left generalizing trial results with
  | zero => simp [rolloutAttempts, lastTrial]
  | succ left ih =>
    rw [rolloutAttempts, lastTrial, if_neg (Nat.succ_ne_zero left)]
    split
    · exact ih (trial + 1) _
    · rfl

/-! ## Rows -/

omit [DecidableEq Tok] [ToString Tok] [Zero R] in
/-- Results whose rows exist are written into them. -/
theorem foldlM_placeResult {results : List (ℕ × NemoRlResult Tok Lp Route R)}
    {slots : List (Option (NemoRlResult Tok Lp Route R))}
    (h : ∀ p ∈ results, p.1 < slots.length) :
    results.foldlM placeResult slots =
      .ok (setAll slots (results.map fun p => (p.1, some p.2))) := by
  induction results generalizing slots with
  | nil => rfl
  | cons p results ih =>
    have hp := h p List.mem_cons_self
    have hrest : ∀ q ∈ results, q.1 < (slots.set p.1 (some p.2)).length := by
      intro q hq
      rw [List.length_set]
      exact h q (List.mem_cons_of_mem p hq)
    rw [List.foldlM_cons, placeResult, if_pos hp]
    exact ih hrest

/-- The result that the task of an example gets. -/
def taskResult (attempt : Attempt n Tok Lp Route R) (i : ℕ) : NemoRlResult Tok Lp Route R :=
  self.processed decode ((attempt.outcome i).getD (.ok failedResult))

theorem gatherResults_tasks (attempt : Attempt n Tok Lp Route R) :
    self.gatherResults decode attempt.tasks =
      attempt.order.mapIdx fun p i => (attempt.row p i, self.taskResult decode attempt i) := by
  refine List.ext_getElem? fun p => ?_
  rw [gatherResults, Attempt.tasks, List.getElem?_mapIdx, List.getElem?_mapIdx, List.getElem?_map]
  cases attempt.order[p]? with
  | none => rfl
  | some i =>
    simp only [Option.map_some, Attempt.row, taskResult]
    cases attempt.outcome i <;> rfl

theorem rows_gatherResults (attempt : Attempt n Tok Lp Route R) :
    (self.gatherResults decode attempt.tasks).map Prod.fst = attempt.rows := by
  rw [gatherResults_tasks, Attempt.rows]
  refine List.ext_getElem? fun p => ?_
  simp only [List.getElem?_map, List.getElem?_mapIdx, Option.map_map]
  rfl

/-- A failed task gets a result that can be masked. -/
theorem messageLog_failedResult :
    (self.processed decode (.ok failedResult) : NemoRlResult Tok Lp Route R).messageLog = [] := by
  simp [processed, postprocessNemoGymToNemoRlResult, failedResult, bind, Except.bind, pure,
    Except.pure]

/-- An entry is the result of an example, or one that can be masked if the example failed. -/
def IsResultOf (attempt : Attempt n Tok Lp Route R) (i : ℕ)
    (entry : Option (NemoRlResult Tok Lp Route R)) : Prop :=
  match attempt.outcome i with
  | some result => entry = some (self.processed decode result)
  | none => ∃ dummy, entry = some dummy ∧ dummy.messageLog = []

/-- The results of an attempt by row. -/
def slots (attempt : Attempt n Tok Lp Route R) : List (Option (NemoRlResult Tok Lp Route R)) :=
  setAll (List.replicate n none)
    ((self.gatherResults decode attempt.tasks).map fun p => (p.1, some p.2))

/-- The attempt whose results stand. -/
def finalAttempt (runs : ℕ → Attempt n Tok Lp Route R) : Attempt n Tok Lp Route R :=
  runs (self.lastTrial decode isNan (fun trial => (runs trial).tasks)
    self.rolloutMaxAttemptsToAvoidLpNan 0)

/-- Rollouts return the results of the attempt that stands, if there are examples. -/
theorem runRollouts_eq (timerPrefix : String) (runs : ℕ → Attempt n Tok Lp Route R) :
    self.runRollouts decode isNan timerPrefix n (fun trial => (runs trial).tasks) =
      if n = 0 then .error ⟨.keyError, s!"'{timerPrefix}/postprocess_results'"⟩
      else .ok (self.slots decode (self.finalAttempt decode isNan runs)) := by
  obtain ⟨left, hleft⟩ := Nat.exists_eq_add_one.mpr self.attempts_pos
  have hresults : self.rolloutAttempts decode isNan (fun trial => (runs trial).tasks)
      self.rolloutMaxAttemptsToAvoidLpNan 0 [] =
      self.gatherResults decode (self.finalAttempt decode isNan runs).tasks := by
    rw [finalAttempt, hleft]
    exact self.rolloutAttempts_eq decode isNan _ left 0 []
  have hrows : ∀ p ∈ self.gatherResults decode (self.finalAttempt decode isNan runs).tasks,
      p.1 < (List.replicate n (none : Option (NemoRlResult Tok Lp Route R))).length := by
    intro p hp
    rw [List.length_replicate]
    refine (self.finalAttempt decode isNan runs).lt_of_mem_rows ?_
    rw [← self.rows_gatherResults decode]
    exact List.mem_map_of_mem hp
  have hlen : (runs 0).tasks.length = n := by
    rw [Attempt.tasks, List.length_map, Attempt.length_order]
  simp only [runRollouts, hresults, foldlM_placeResult hrows, bind, Except.bind, pure, Except.pure,
    List.isEmpty_iff_length_eq_zero, hlen]
  split
  · rfl
  · rfl

theorem length_slots (attempt : Attempt n Tok Lp Route R) :
    (self.slots decode attempt).length = n := by
  rw [slots, length_setAll, List.length_replicate]

/-- A row that no task gets stays empty. -/
theorem slots_of_notMem (attempt : Attempt n Tok Lp Route R) {i : ℕ} (hi : i < n)
    (h : i ∉ attempt.rows) : (self.slots decode attempt)[i]? = some none := by
  rw [slots, getElem?_setAll_of_notMem]
  · simp [hi]
  · rw [List.map_map]
    rwa [← self.rows_gatherResults decode] at h

/-- A row that one task gets has the result of its task. -/
theorem slots_of_order (attempt : Attempt n Tok Lp Route R) (hnd : attempt.rows.Nodup)
    {p i : ℕ} (hpi : attempt.order[p]? = some i) :
    (self.slots decode attempt)[attempt.row p i]? =
      some (some (self.taskResult decode attempt i)) := by
  have hmem : (attempt.row p i, self.taskResult decode attempt i) ∈
      self.gatherResults decode attempt.tasks := by
    rw [gatherResults_tasks]
    refine List.mem_of_getElem? (i := p) ?_
    rw [List.getElem?_mapIdx, hpi, Option.map_some]
  have hlt : attempt.row p i < n := attempt.lt_of_mem_rows (attempt.mem_rows.mpr ⟨p, i, hpi, rfl⟩)
  have hrows : ((self.gatherResults decode attempt.tasks).map
      (fun q => (q.1, some q.2))).map Prod.fst = attempt.rows := by
    rw [List.map_map]
    exact self.rows_gatherResults decode attempt
  refine getElem?_setAll (p := (attempt.row p i, some (self.taskResult decode attempt i))) ?_ ?_ ?_
  · rwa [hrows]
  · exact List.mem_map_of_mem (f := fun q => (q.1, some q.2)) hmem
  · rwa [List.length_replicate]

/-- Every example gets its own result exactly when there are examples and the tasks that fail
complete at the positions of the examples that fail. -/
theorem runRollouts_iff (timerPrefix : String) (runs : ℕ → Attempt n Tok Lp Route R) :
    (∃ results, self.runRollouts decode isNan timerPrefix n (fun trial => (runs trial).tasks) =
        .ok results ∧ results.length = n ∧
      ∀ i < n, ∃ entry, results[i]? = some entry ∧
        self.IsResultOf decode (self.finalAttempt decode isNan runs) i entry) ↔
      0 < n ∧ (self.finalAttempt decode isNan runs).FailInPlace := by
  rw [runRollouts_eq]
  generalize self.finalAttempt decode isNan runs = attempt
  constructor
  · rintro ⟨results, hresults, -, hentries⟩
    split at hresults
    · exact nomatch hresults
    · rename_i hn
      refine ⟨Nat.pos_of_ne_zero hn, attempt.failInPlace_of_mem_rows fun i hi => ?_⟩
      by_contra hmem
      obtain ⟨entry, hentry, hresult⟩ := hentries i hi
      rw [← Except.ok.inj hresults, self.slots_of_notMem decode attempt hi hmem,
        Option.some.injEq] at hentry
      subst hentry
      rw [IsResultOf] at hresult
      split at hresult
      · exact nomatch hresult
      · obtain ⟨dummy, hdummy, -⟩ := hresult
        exact nomatch hdummy
  · rintro ⟨hn, hfail⟩
    rw [if_neg (by omega)]
    refine ⟨_, rfl, self.length_slots decode attempt, fun i hi => ?_⟩
    have hmem := (attempt.rows_perm hfail.nodup_rows).mem_iff.mpr (List.mem_range.mpr hi)
    obtain ⟨p, j, hpj, rfl⟩ := attempt.mem_rows.mp hmem
    refine ⟨_, self.slots_of_order decode attempt hfail.nodup_rows hpj, ?_⟩
    cases hj : attempt.outcome j with
    | some result => simp [IsResultOf, Attempt.row, taskResult, hj]
    | none =>
      have hp := hfail p j hpj hj
      have hrow : attempt.row p j = p := by simp [Attempt.row, hj]
      rw [IsResultOf, hrow, hp]
      refine ⟨_, rfl, ?_⟩
      rw [taskResult, hj]
      exact self.messageLog_failedResult decode

/-- One attempt, and default patterns. -/
def oneAttempt : NemoGym := ⟨none, none, false, 1, Nat.one_pos⟩

/-- The second example fails and completes before the first one. -/
def secondFailsFirst : Attempt 2 ℕ ℕ ℕ ℕ where
  order := [1, 0]
  perm := .swap 0 1 []
  outcome := fun i => if i = 0 then some (.ok ⟨[], 5⟩) else none

/-- The task that fails at the first position leaves the row of the second example empty. -/
theorem runRollouts_secondFailsFirst :
    ¬ ∃ results, oneAttempt.runRollouts (fun _ => "") (fun _ => false) "timing/rollout" 2
        (fun _ => secondFailsFirst.tasks) = .ok results ∧ results.length = 2 ∧
      ∀ i < 2, ∃ entry, results[i]? = some entry ∧
        oneAttempt.IsResultOf (fun _ => "") secondFailsFirst i entry := by
  rintro ⟨results, hresults, -, hentries⟩
  have hrun : oneAttempt.runRollouts (fun _ => "") (fun _ => false) "timing/rollout" 2
      (fun _ => secondFailsFirst.tasks) =
      .ok [some ⟨[], [emptyUserMessage], ⟨5, []⟩⟩, none] := rfl
  obtain ⟨entry, hentry, dummy, hdummy, -⟩ := hentries 1 (by decide)
  rw [hrun, Except.ok.injEq] at hresults
  rw [← hresults, List.getElem?_cons_succ, List.getElem?_cons_zero, Option.some.injEq] at hentry
  rw [← hentry] at hdummy
  exact nomatch hdummy

end NemoGym
end NemoRL.Environments
