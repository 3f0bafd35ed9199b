import NemoRL.Lib.Distribute
import NemoRL.Lib.Select

/-!
# Loops over a shrinking set of rows

A loop steps all rows that are still active and drops those that are done. Every row takes
the steps that it would take alone. Two loops that step a state until it is done agree for
every bound on the number of steps exactly when they agree step by step, provided that every
step can be seen.

## Main definitions

* `runUntil` — step a state until it is done.
* `ActiveSet.run` — step the active rows of a list.
* `Lockstep` — the states that two loops reach together.

## Main results

* `ActiveSet.Valid.getElem?_run` — every row takes its own steps.
* `ActiveSet.writeBack_spec` — a row is written back, or stays as it is and is dropped.
* `runUntil_agree_iff` — two loops agree for every bound.
-/

namespace NemoRL.Lib

/-! ## One state -/

section RunUntil
variable {σ τ ω : Type}

/-- Step a state until it is done, at most `n` times. -/
def runUntil (f : σ → σ × Bool) : ℕ → σ → σ
  | 0, s => s
  | n + 1, s => if (f s).2 then (f s).1 else runUntil f n (f s).1

@[simp] theorem runUntil_zero (f : σ → σ × Bool) (s : σ) : runUntil f 0 s = s := rfl

theorem runUntil_succ_of_done {f : σ → σ × Bool} {s : σ} (h : (f s).2 = true) (n : ℕ) :
    runUntil f (n + 1) s = (f s).1 := by
  rw [runUntil, if_pos h]

theorem runUntil_succ_of_not_done {f : σ → σ × Bool} {s : σ} (h : (f s).2 = false) (n : ℕ) :
    runUntil f (n + 1) s = runUntil f n (f s).1 := by
  rw [runUntil, if_neg (by simp [h])]

theorem runUntil_one (f : σ → σ × Bool) (s : σ) : runUntil f 1 s = (f s).1 := by
  rw [runUntil]
  split <;> rfl

/-- The states that two loops reach together while neither is done. -/
inductive Lockstep (f : σ → σ × Bool) (g : τ → τ × Bool) (s : σ) (t : τ) : σ → τ → Prop
  | start : Lockstep f g s t s t
  | next {s' : σ} {t' : τ} : Lockstep f g s t s' t' → (f s').2 = false → (g t').2 = false →
      Lockstep f g s t (f s').1 (g t').1

theorem Lockstep.head {f : σ → σ × Bool} {g : τ → τ × Bool} {s s' : σ} {t t' : τ}
    (hf : (f s).2 = false) (hg : (g t).2 = false) (h : Lockstep f g (f s).1 (g t).1 s' t') :
    Lockstep f g s t s' t' := by
  induction h with
  | start => exact .next .start hf hg
  | next _ hf' hg' ih => exact .next ih hf' hg'

variable {f : σ → σ × Bool} {g : τ → τ × Bool} {obsF : σ → ω} {obsG : τ → ω}

/-- Loops that agree step by step agree for every bound. -/
theorem runUntil_agree {s : σ} {t : τ} (hstart : obsF s = obsG t)
    (hstep : ∀ s' t', Lockstep f g s t s' t' →
      obsF (f s').1 = obsG (g t').1 ∧ (f s').2 = (g t').2) (n : ℕ) :
    obsF (runUntil f n s) = obsG (runUntil g n t) := by
  induction n generalizing s t with
  | zero => exact hstart
  | succ n ih =>
    obtain ⟨hobs, hdone⟩ := hstep s t .start
    cases hf : (f s).2 with
    | true =>
      rw [runUntil_succ_of_done hf, runUntil_succ_of_done (hdone ▸ hf), hobs]
    | false =>
      have hg : (g t).2 = false := hdone ▸ hf
      rw [runUntil_succ_of_not_done hf, runUntil_succ_of_not_done hg]
      exact ih hobs fun s' t' h => hstep s' t' (h.head hf hg)

/-- Loops that agree for every bound agree at their first step. -/
theorem step_agree (size : ω → ℕ) (hf : ∀ s, size (obsF s) < size (obsF (f s).1))
    (hg : ∀ t, size (obsG t) < size (obsG (g t).1)) {s : σ} {t : τ}
    (h : ∀ n, obsF (runUntil f n s) = obsG (runUntil g n t)) :
    obsF (f s).1 = obsG (g t).1 ∧ (f s).2 = (g t).2 := by
  have hone : obsF (f s).1 = obsG (g t).1 := by
    have hobs := h 1
    rwa [runUntil_one, runUntil_one] at hobs
  have htwo := h 2
  refine ⟨hone, ?_⟩
  -- a loop that goes on takes a step that the other one does not take
  cases hfs : (f s).2 with
  | true =>
    cases hgt : (g t).2 with
    | true => rfl
    | false =>
      rw [runUntil_succ_of_done hfs, runUntil_succ_of_not_done hgt, runUntil_one] at htwo
      have hlt := hg (g t).1
      rw [← htwo, hone] at hlt
      exact absurd hlt (lt_irrefl _)
  | false =>
    cases hgt : (g t).2 with
    | false => rfl
    | true =>
      rw [runUntil_succ_of_not_done hfs, runUntil_succ_of_done hgt, runUntil_one] at htwo
      have hlt := hf (f s).1
      rw [htwo, ← hone] at hlt
      exact absurd hlt (lt_irrefl _)

/-- Loops that agree for every bound agree for every bound after a step. -/
theorem agree_next {s : σ} {t : τ} (hf : (f s).2 = false) (hg : (g t).2 = false)
    (h : ∀ n, obsF (runUntil f n s) = obsG (runUntil g n t)) (n : ℕ) :
    obsF (runUntil f n (f s).1) = obsG (runUntil g n (g t).1) := by
  have hobs := h (n + 1)
  rwa [runUntil_succ_of_not_done hf, runUntil_succ_of_not_done hg] at hobs

/-- Two loops agree for every bound exactly when they agree step by step. -/
theorem runUntil_agree_iff (obsF : σ → ω) (obsG : τ → ω) (size : ω → ℕ)
    (hf : ∀ s, size (obsF s) < size (obsF (f s).1))
    (hg : ∀ t, size (obsG t) < size (obsG (g t).1)) {s : σ} {t : τ} (hstart : obsF s = obsG t) :
    (∀ n, obsF (runUntil f n s) = obsG (runUntil g n t)) ↔
      ∀ s' t', Lockstep f g s t s' t' →
        obsF (f s').1 = obsG (g t').1 ∧ (f s').2 = (g t').2 := by
  refine ⟨fun h s' t' hreach => ?_, fun h => runUntil_agree hstart h⟩
  have hagree : ∀ n, obsF (runUntil f n s') = obsG (runUntil g n t') := by
    induction hreach with
    | start => exact h
    | next _ hf' hg' ih => exact agree_next hf' hg' ih
  exact step_agree size hf hg hagree

end RunUntil

/-! ## Many rows -/

section Rows
variable {σ : Type}

/-- Rows with the positions of those that are active. -/
structure ActiveSet (σ : Type) where
  rows : List σ
  active : List ℕ

namespace ActiveSet

/-- Write rows at the given positions. -/
def writeBack (rows : List σ) (active : List ℕ) (values : List σ) : List σ :=
  scatterFold Prod.fst (fun _ p => p.2) rows (active.zip values)

/-- The positions whose rows are not done. -/
def stillActive (active : List ℕ) (done : List Bool) : List ℕ :=
  ((active.zip done).filter fun p => !p.2).map Prod.fst

/-- Step every active row and drop those that are done. -/
def step (f : σ → σ × Bool) (st : ActiveSet σ) : ActiveSet σ where
  rows := writeBack st.rows st.active ((select st.rows st.active).map fun s => (f s).1)
  active := stillActive st.active ((select st.rows st.active).map fun s => (f s).2)

/-- Step the active rows until none is left, at most `n` times. -/
def run (f : σ → σ × Bool) : ℕ → ActiveSet σ → ActiveSet σ
  | 0, st => st
  | n + 1, st => if st.active.isEmpty then st else run f n (st.step f)

/-- The active positions are different positions of rows with a property. -/
structure Valid (P : σ → Prop) (st : ActiveSet σ) : Prop where
  nodup : st.active.Nodup
  rows : ∀ i ∈ st.active, ∃ s, st.rows[i]? = some s ∧ P s

variable {P : σ → Prop} {st : ActiveSet σ} {f : σ → σ × Bool} {rows : List σ} {active : List ℕ}

/-- The value that is written at a position. -/
theorem filter_zip_select {β : Type} (hnd : active.Nodup)
    (hrows : ∀ i ∈ active, i < rows.length) (h : σ → β) (i : ℕ) :
    (active.zip ((select rows active).map h)).filter (fun p => p.1 = i) =
      if i ∈ active then (rows[i]?.map fun s => (i, h s)).toList else [] := by
  induction active with
  | nil => rfl
  | cons j active ih =>
    have hj : j < rows.length := hrows j List.mem_cons_self
    have hrest := ih hnd.of_cons fun k hk => hrows k (List.mem_cons_of_mem j hk)
    rw [select_cons_of_lt hj, List.map_cons, List.zip_cons_cons, List.filter_cons, hrest]
    by_cases hji : j = i
    · subst hji
      have hnot : j ∉ active := (List.nodup_cons.mp hnd).1
      simp [hnot, List.getElem?_eq_getElem hj]
    · have hij : i ≠ j := Ne.symm hji
      simp [hji, hij]

theorem getElem?_writeBack (hnd : active.Nodup) (hrows : ∀ i ∈ active, i < rows.length)
    (h : σ → σ) (i : ℕ) :
    (writeBack rows active ((select rows active).map h))[i]? =
      if i ∈ active then rows[i]?.map h else rows[i]? := by
  rw [writeBack, getElem?_scatterFold]
  simp only [filter_zip_select hnd hrows]
  by_cases hi : i ∈ active
  · have hlt := hrows i hi
    simp [hi, List.getElem?_eq_getElem hlt]
  · simp [hi]

theorem stillActive_eq (hrows : ∀ i ∈ active, i < rows.length) (d : σ → Bool) :
    stillActive active ((select rows active).map d) =
      active.filter fun i => rows[i]?.map d = some false := by
  induction active with
  | nil => rfl
  | cons j active ih =>
    have hj : j < rows.length := hrows j List.mem_cons_self
    have hrest := ih fun k hk => hrows k (List.mem_cons_of_mem j hk)
    rw [stillActive] at hrest
    rw [stillActive, select_cons_of_lt hj, List.map_cons, List.zip_cons_cons, List.filter_cons,
      List.filter_cons, List.getElem?_eq_getElem hj, Option.map_some]
    cases hd : d rows[j] with
    | true => simpa using hrest
    | false => simpa using hrest

theorem writeBack_cons (rows : List σ) (j : ℕ) (active : List ℕ) (v : σ) (values : List σ) :
    writeBack rows (j :: active) (v :: values) =
      writeBack (rows.modify j fun _ => v) active values := rfl

theorem getElem?_writeBack_of_notMem {i : ℕ} (hi : i ∉ active) (values : List σ) :
    (writeBack rows active values)[i]? = rows[i]? := by
  induction active generalizing rows values with
  | nil => rfl
  | cons j active ih =>
    have hij : i ≠ j := fun h => hi (h ▸ List.mem_cons_self)
    have hmem : i ∉ active := fun h => hi (List.mem_cons_of_mem j h)
    cases values with
    | nil => rfl
    | cons v values =>
      rw [writeBack_cons, ih hmem, List.getElem?_modify_ne _ _ (Ne.symm hij)]

theorem mem_stillActive_cons {i j : ℕ} {d : Bool} {done : List Bool} :
    i ∈ stillActive (j :: active) (d :: done) ↔
      (i = j ∧ d = false) ∨ i ∈ stillActive active done := by
  cases d <;> simp [stillActive]

theorem mem_of_mem_stillActive {i : ℕ} {done : List Bool} (h : i ∈ stillActive active done) :
    i ∈ active := by
  obtain ⟨p, hp, rfl⟩ := List.mem_map.mp h
  exact (List.of_mem_zip (List.mem_filter.mp hp).1).1

theorem stillActive_nodup (hnd : active.Nodup) (done : List Bool) :
    (stillActive active done).Nodup := by
  refine List.Nodup.sublist ?_ hnd
  refine (List.filter_sublist.map Prod.fst).trans ?_
  induction active generalizing done with
  | nil => exact .slnil
  | cons i active ih =>
    cases done with
    | nil => exact List.nil_sublist _
    | cons d done => exact (ih hnd.of_cons done).cons_cons i

@[simp] theorem length_writeBack (rows : List σ) (active : List ℕ) (values : List σ) :
    (writeBack rows active values).length = rows.length := by
  induction active generalizing rows values with
  | nil => rfl
  | cons j active ih =>
    cases values with
    | nil => rfl
    | cons v values => rw [writeBack_cons, ih, List.length_modify]

/-- What becomes of a row when the results of the active ones are written back: it is one of
them, or it stays as it is and is not active any more. -/
theorem writeBack_spec {R : σ → σ → Bool → Prop} {results : List (σ × Bool)}
    (hnd : active.Nodup) (hrows : ∀ i ∈ active, i < rows.length)
    (hresults : ∀ (k : ℕ) s' d, results[k]? = some (s', d) →
      ∃ s, (select rows active)[k]? = some s ∧ R s s' d) {i : ℕ} {s : σ}
    (hi : rows[i]? = some s) :
    ∃ s', (writeBack rows active (results.map Prod.fst))[i]? = some s' ∧
      ((s' = s ∧ i ∉ stillActive active (results.map Prod.snd)) ∨
        ∃ d, R s s' d ∧ (i ∈ stillActive active (results.map Prod.snd) → d = false)) := by
  induction active generalizing rows results with
  | nil => exact ⟨s, hi, .inl ⟨rfl, List.not_mem_nil⟩⟩
  | cons j active ih =>
    obtain ⟨hj, hnd⟩ := List.nodup_cons.mp hnd
    have hjlt : j < rows.length := hrows j List.mem_cons_self
    cases results with
    | nil => exact ⟨s, hi, .inl ⟨rfl, by simp [stillActive]⟩⟩
    | cons r results =>
      obtain ⟨v, d⟩ := r
      rw [select_cons_of_lt hjlt] at hresults
      simp only [List.map_cons, writeBack_cons, mem_stillActive_cons]
      by_cases hij : i = j
      · subst hij
        obtain ⟨s', hs', hR⟩ := hresults 0 v d rfl
        rw [List.getElem?_cons_zero, Option.some.injEq] at hs'
        have hs : rows[i] = s := by
          rw [List.getElem?_eq_getElem hjlt, Option.some.injEq] at hi
          exact hi
        rw [hs] at hs'
        refine ⟨v, ?_, .inr ⟨d, hs' ▸ hR, ?_⟩⟩
        · rw [getElem?_writeBack_of_notMem hj, List.getElem?_modify_eq, hi]
          rfl
        · rintro (⟨-, hd⟩ | hmem)
          · exact hd
          · exact absurd (mem_of_mem_stillActive hmem) hj
      · have hselect : select (rows.modify j fun _ => v) active = select rows active := by
          refine List.filterMap_congr fun k hk => ?_
          have hjk : j ≠ k := fun h => hj (h ▸ hk)
          exact List.getElem?_modify_ne _ _ hjk
        have hi' : (rows.modify j fun _ => v)[i]? = some s := by
          rw [List.getElem?_modify_ne _ _ (Ne.symm hij), hi]
        have hrows' : ∀ k ∈ active, k < (rows.modify j fun _ => v).length := by
          simpa using fun k hk => hrows k (List.mem_cons_of_mem j hk)
        obtain ⟨s', hs', hcases⟩ := ih hnd hrows'
          (fun k s' d' hk => by
            rw [hselect]
            exact hresults (k + 1) s' d' hk) hi'
        refine ⟨s', hs', ?_⟩
        simpa [hij] using hcases

theorem Valid.lt_length (h : Valid P st) : ∀ i ∈ st.active, i < st.rows.length := by
  intro i hi
  obtain ⟨s, hs, -⟩ := h.rows i hi
  exact (List.getElem?_eq_some_iff.mp hs).1

theorem Valid.getElem?_step (h : Valid P st) (i : ℕ) :
    (st.step f).rows[i]? =
      if i ∈ st.active then st.rows[i]?.map fun s => (f s).1 else st.rows[i]? :=
  getElem?_writeBack h.nodup h.lt_length _ i

theorem Valid.mem_step_active (h : Valid P st) {i : ℕ} :
    i ∈ (st.step f).active ↔ i ∈ st.active ∧ st.rows[i]?.map (fun s => (f s).2) = some false := by
  rw [step, stillActive_eq h.lt_length, List.mem_filter, decide_eq_true_eq]

/-- A step keeps the rows that are still active valid. -/
theorem Valid.step (h : Valid P st) (hP : ∀ s, P s → (f s).2 = false → P (f s).1) :
    Valid P (st.step f) := by
  refine ⟨?_, fun i hi => ?_⟩
  · rw [ActiveSet.step, stillActive_eq h.lt_length]
    exact h.nodup.filter _
  · obtain ⟨hmem, hdone⟩ := h.mem_step_active.mp hi
    obtain ⟨s, hs, hPs⟩ := h.rows i hmem
    rw [hs, Option.map_some, Option.some.injEq] at hdone
    exact ⟨(f s).1, by rw [h.getElem?_step, if_pos hmem, hs, Option.map_some], hP s hPs hdone⟩

/-- Every row takes the steps that it would take alone. -/
theorem Valid.getElem?_run (h : Valid P st) (hP : ∀ s, P s → (f s).2 = false → P (f s).1)
    (n i : ℕ) :
    (run f n st).rows[i]? =
      if i ∈ st.active then st.rows[i]?.map (runUntil f n) else st.rows[i]? := by
  induction n generalizing st with
  | zero =>
    have hid : runUntil f 0 = id := rfl
    rw [run, hid, Option.map_id, id, ite_self]
  | succ n ih =>
    rw [run]
    split
    · rename_i hempty
      rw [List.isEmpty_iff.mp hempty, if_neg List.not_mem_nil]
    · rw [ih (h.step hP)]
      simp only [h.mem_step_active, h.getElem?_step]
      by_cases hi : i ∈ st.active
      · obtain ⟨s, hs, -⟩ := h.rows i hi
        rw [hs]
        cases hdone : (f s).2 with
        | true => simp [hi, hdone, runUntil_succ_of_done hdone]
        | false => simp [hi, hdone, runUntil_succ_of_not_done hdone]
      · simp [hi]

end ActiveSet
end Rows
end NemoRL.Lib
