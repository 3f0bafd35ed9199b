import NemoRL.DataPlane.NoOp
import Mathlib.Algebra.Order.Ring.Int
import Mathlib.Data.Finset.Union

/-!
# Runs of the in-memory data plane

Whatever operations come in whatever order, and whichever of them raise, what a claim returns can be
read off the operations before. It returns the samples that are ready and that the task has not
claimed since they were cleared, in the order in which they were first put.

## Main definitions

* `claimedBy` — the samples that a task has claimed and that have not been cleared since.

## Main results

* `claimRows_eq_ok` — what a claim takes.
* `claims_accounted` — no sample is claimed twice, and a claim takes all that it may.
-/

namespace NemoRL.DataPlane

open Lib

variable {α : Type} {intOf : String → Except PyError ℕ}

namespace NoOpStore

/-! ## What a claim takes -/

/-- A claim takes the first of the samples that are ready, at least one. -/
theorem claimRows_eq_ok {tags : List (String × Tag)} {consumed : Finset String}
    {requiredFields : List String} {batchSize : ℤ} {rows : Partition α} {taken : ℕ}
    {ready : List (String × ℕ)}
    (h : claimRows intOf tags consumed requiredFields batchSize rows taken = .ok ready) :
    ready.map Prod.fst = ((rows.filter (isReady consumed requiredFields)).map Prod.fst).take
      (max (batchSize - taken) 1).toNat := by
  induction rows generalizing taken ready with
  | nil =>
    obtain rfl := Except.ok.inj h
    simp
  | cons row rows ih =>
    rw [claimRows] at h
    by_cases hready : isReady consumed requiredFields row
    · rw [if_pos hready] at h
      rw [List.filter_cons_of_pos hready, List.map_cons]
      obtain ⟨seq, -, h⟩ := bind_eq_ok.mp h
      by_cases hlast : batchSize ≤ taken + 1
      · rw [if_pos hlast] at h
        obtain rfl := Except.ok.inj h
        have hone : (max (batchSize - taken) 1).toNat = 1 := by omega
        rw [hone, List.take_succ_cons, List.take_zero]
        rfl
      · rw [if_neg hlast] at h
        obtain ⟨later, hlater, h⟩ := bind_eq_ok.mp h
        obtain rfl := Except.ok.inj h
        have hmore : (max (batchSize - taken) 1).toNat =
            (max (batchSize - (taken + 1 : ℕ)) 1).toNat + 1 := by omega
        rw [hmore, List.take_succ_cons, List.map_cons, ih hlater]
    · rw [if_neg hready] at h
      rw [List.filter_cons_of_neg hready]
      exact ih h

end NoOpStore

/-! ## The claims of a run -/

/-- What an operation does to the samples that a task has claimed in a partition. -/
def claimedAfter (intOf : String → Except PyError ℕ) (partitionId taskName : String)
    (s : NoOpStore α) (claimed : List String) : StoreOp α → List String
  | .register pid _ => if pid = partitionId then [] else claimed
  | .claim pid task requiredFields batchSize =>
    if pid = partitionId ∧ task = taskName then
      match (s.claimMeta intOf pid task requiredFields batchSize).1 with
      | .ok batch => claimed ++ batch.sampleIds
      | .error _ => claimed
    else claimed
  | .put .. => claimed
  | .clear sampleIds pid =>
    if pid = partitionId then
      match sampleIds with
      | none => []
      | some ids => claimed.filter (· ∉ ids)
    else claimed
  | .close => if s.closed then claimed else []

/-- The samples that a task has claimed in a partition and that have not been cleared since, in the
order of the claims. -/
def claimedBy (intOf : String → Except PyError ℕ) (partitionId taskName : String) :
    List (NoOpStore α × StoreOp α) → List String
  | [] => []
  | (s, op) :: tr =>
    claimedAfter intOf partitionId taskName s (claimedBy intOf partitionId taskName tr) op

/-- What a partition holds of the claims of its tasks. -/
structure PartitionState.Accounts (rec' : PartitionState α) (claims : String → List String) :
    Prop where
  nodup_rows : (rec'.rows.map Prod.fst).Nodup
  nodup_claims : ∀ t, (claims t).Nodup
  stored : ∀ t, ∀ k ∈ claims t, k ∈ rec'.rows.map Prod.fst
  consumed : ∀ t c, rec'.consumed.lookup t = some c → ∀ k, k ∈ c ↔ k ∈ claims t
  unregistered : ∀ t, rec'.consumed.lookup t = none → claims t = []

/-- What the store holds of the claims. -/
def NoOpStore.Accounts (s : NoOpStore α) (claims : String → String → List String) : Prop :=
  ∀ pid, match s.partitions.lookup pid with
    | none => ∀ t, claims pid t = []
    | some rec' => rec'.Accounts (claims pid)

/-! ## One operation -/

namespace NoOpStore

/-- Writing samples keeps the samples that are there. -/
theorem keys_writeSamples {fields : TensorDict α} {samples : List (String × ℕ)}
    {rows : Partition α} (hnodup : (rows.map Prod.fst).Nodup) :
    ((writeSamples fields samples rows).2.map Prod.fst).Nodup ∧
      rows.map Prod.fst ⊆ (writeSamples fields samples rows).2.map Prod.fst := by
  induction samples generalizing rows with
  | nil => exact ⟨hnodup, List.Subset.refl _⟩
  | cons q samples ih =>
    obtain ⟨sid, i⟩ := q
    have hsub : ∀ row, rows.map Prod.fst ⊆ (dictSet rows sid row).map Prod.fst :=
      fun row k hk => mem_keys_dictSet.mpr (.inl hk)
    rw [writeSamples]
    cases (writeFields i fields ((rows.lookup sid).getD [])).1 with
    | some e => exact ⟨nodup_keys_dictSet hnodup _ _, hsub _⟩
    | none =>
      obtain ⟨hnodup', hsub'⟩ := ih (nodup_keys_dictSet hnodup sid _)
      exact ⟨hnodup', List.Subset.trans (hsub _) hsub'⟩

/-- The tasks of a new partition have claimed nothing. -/
theorem lookup_newTasks {tasks : List String} {d : List (String × Finset String)}
    (hd : ∀ t c, d.lookup t = some c → c = ∅) {t : String} {c : Finset String}
    (h : (tasks.foldl (fun d t => dictSet d t ∅) d).lookup t = some c) : c = ∅ := by
  induction tasks generalizing d with
  | nil => exact hd t c h
  | cons task tasks ih =>
    refine ih (fun t' c' h' => ?_) h
    rw [lookup_dictSet] at h'
    by_cases ht : t' = task
    · rw [if_pos ht] at h'
      exact (Option.some.inj h').symm
    · rw [if_neg ht] at h'
      exact hd t' c' h'

/-- Changing one partition. -/
theorem Accounts.dictSet {s : NoOpStore α} {claims claims' : String → String → List String}
    {pid : String} {rec' : PartitionState α} {closed : Bool} (h : s.Accounts claims)
    (hrec : rec'.Accounts (claims' pid)) (hother : ∀ p, p ≠ pid → claims' p = claims p) :
    (NoOpStore.mk (dictSet s.partitions pid rec') closed).Accounts claims' := by
  intro p
  rw [lookup_dictSet]
  by_cases hp : p = pid
  · rw [if_pos hp]
    exact hp ▸ hrec
  · rw [if_neg hp, hother p hp]
    exact h p

/-- A claim that returns adds new samples to those that its task has claimed. -/
theorem accounts_claim {rec' : PartitionState α} {claims : String → List String}
    (h : rec'.Accounts claims) {taskName : String} {requiredFields : List String} {batchSize : ℤ}
    {consumed : Finset String} (hconsumed : rec'.consumed.lookup taskName = some consumed)
    {ready : List (String × ℕ)}
    (hready : claimRows intOf rec'.tags consumed requiredFields batchSize rec'.rows 0 = .ok ready) :
    (PartitionState.mk rec'.rows rec'.tags (dictSet rec'.consumed taskName
      (consumed ∪ (ready.map Prod.fst).toFinset))).Accounts
      fun t => if t = taskName then claims t ++ ready.map Prod.fst else claims t := by
  have htaken := claimRows_eq_ok hready
  have hsub : (ready.map Prod.fst).Sublist
      ((rec'.rows.filter (isReady consumed requiredFields)).map Prod.fst) :=
    htaken ▸ List.take_sublist _ _
  have hnew : ∀ k ∈ ready.map Prod.fst, k ∈ rec'.rows.map Prod.fst ∧ k ∉ consumed := by
    intro k hk
    obtain ⟨row, hrow, rfl⟩ := List.mem_map.mp (hsub.subset hk)
    obtain ⟨hmem, hisReady⟩ := List.mem_filter.mp hrow
    rw [isReady, Bool.and_eq_true, decide_eq_true_eq] at hisReady
    exact ⟨List.mem_map_of_mem hmem, hisReady.1⟩
  have hnodup : (ready.map Prod.fst).Nodup :=
    hsub.nodup (h.nodup_rows.sublist (List.filter_sublist.map Prod.fst))
  constructor
  · exact h.nodup_rows
  · intro t
    by_cases ht : t = taskName
    · subst ht
      rw [if_pos rfl]
      exact List.nodup_append.mpr ⟨h.nodup_claims t, hnodup, fun a ha b hb hab =>
        (hnew b hb).2 ((h.consumed t consumed hconsumed b).mpr (hab ▸ ha))⟩
    · rw [if_neg ht]
      exact h.nodup_claims t
  · intro t k hk
    by_cases ht : t = taskName
    · rw [if_pos ht] at hk
      exact (List.mem_append.mp hk).elim (h.stored t k) fun hk => (hnew k hk).1
    · rw [if_neg ht] at hk
      exact h.stored t k hk
  · intro t c hc k
    rw [lookup_dictSet] at hc
    by_cases ht : t = taskName
    · subst ht
      rw [if_pos rfl] at hc ⊢
      rw [← Option.some.inj hc, Finset.mem_union, List.mem_toFinset, List.mem_append,
        h.consumed t consumed hconsumed k]
    · rw [if_neg ht] at hc ⊢
      exact h.consumed t c hc k
  · intro t hnone
    rw [lookup_dictSet] at hnone
    by_cases ht : t = taskName
    · rw [if_pos ht] at hnone
      cases hnone
    · rw [if_neg ht] at hnone ⊢
      exact h.unregistered t hnone

/-- Cleared samples are no longer claimed. -/
theorem accounts_clear {rec' : PartitionState α} {claims : String → List String}
    (h : rec'.Accounts claims) (ids : List String) :
    PartitionState.Accounts
      { rows := popAll rec'.rows ids
        tags := popAll rec'.tags ids
        consumed := rec'.consumed.map fun p => (p.1, p.2.filter (· ∉ ids)) }
      fun t => (claims t).filter (· ∉ ids) := by
  have hlookup : ∀ t, (rec'.consumed.map fun p => (p.1, p.2.filter (· ∉ ids))).lookup t =
      (rec'.consumed.lookup t).map fun c => c.filter (· ∉ ids) :=
    lookup_map rec'.consumed fun _ c => c.filter (· ∉ ids)
  constructor
  · rw [keys_popAll]
    exact h.nodup_rows.filter _
  · exact fun t => (h.nodup_claims t).filter _
  · intro t k hk
    obtain ⟨hk, hnot⟩ := List.mem_filter.mp hk
    rw [keys_popAll]
    exact List.mem_filter.mpr ⟨h.stored t k hk, hnot⟩
  · intro t c hc k
    dsimp only at hc
    rw [hlookup] at hc
    obtain ⟨c', hc', rfl⟩ := Option.map_eq_some_iff.mp hc
    rw [Finset.mem_filter, h.consumed t c' hc' k, List.mem_filter, decide_eq_true_eq]
  · intro t hnone
    dsimp only at hnone ⊢
    rw [hlookup, Option.map_eq_none_iff] at hnone
    rw [h.unregistered t hnone, List.filter_nil]

variable (intOf) in
/-- What an operation does to the claims. -/
theorem accounts_run {s : NoOpStore α} {claims : String → String → List String}
    (h : s.Accounts claims) (op : StoreOp α) :
    (s.run intOf op).Accounts fun pid t => claimedAfter intOf pid t s (claims pid t) op := by
  cases op with
  | register pid tasks =>
    refine h.dictSet ?_ fun p hp => ?_
    · simp only [claimedAfter, if_true]
      have hnone : ∀ t c, ([] : List (String × Finset String)).lookup t = some c → c = ∅ :=
        fun t c hc => absurd hc (by simp)
      exact ⟨List.nodup_nil, fun t => List.nodup_nil, fun t k hk => absurd hk List.not_mem_nil,
        fun t c hc k => by simp [lookup_newTasks hnone hc], fun t _ => rfl⟩
    · simp [claimedAfter, Ne.symm hp]
  | claim pid task requiredFields batchSize =>
    simp only [run, claimedAfter]
    have hpid := h pid
    unfold claimMeta
    cases hrec : s.partitions.lookup pid with
    | none => simpa using h
    | some rec' =>
      rw [hrec] at hpid
      cases hconsumed : rec'.consumed.lookup task with
      | none => simpa [hconsumed] using h
      | some consumed =>
        cases hready : claimRows intOf rec'.tags consumed requiredFields batchSize rec'.rows 0 with
        | error e => simpa [hconsumed, hready] using h
        | ok ready =>
          simp only [hconsumed, hready]
          refine h.dictSet ?_ fun p hp => ?_
          · have hclaim := accounts_claim hpid hconsumed hready
            simpa [eq_comm (a := task)] using hclaim
          · simp [Ne.symm hp]
  | put ids pid fields tags =>
    simp only [run, claimedAfter]
    have hpid := h pid
    unfold putSamples
    cases hrec : s.partitions.lookup pid with
    | none => exact h
    | some rec' =>
      rw [hrec] at hpid
      obtain ⟨hnodup, hsub⟩ := @keys_writeSamples α (fields.getD [])
        (if fields.isSome then ids.zipIdx else []) rec'.rows hpid.nodup_rows
      have hput : ∀ tags, PartitionState.Accounts
          { rows := (writeSamples (fields.getD []) (if fields.isSome then ids.zipIdx else [])
              rec'.rows).2
            tags := tags
            consumed := rec'.consumed } (claims pid) := fun tags =>
        ⟨hnodup, hpid.nodup_claims, fun t k hk => hsub (hpid.stored t k hk), hpid.consumed,
          hpid.unregistered⟩
      dsimp only
      split
      · exact h.dictSet (hput _) fun p _ => rfl
      · exact h.dictSet (hput _) fun p _ => rfl
  | clear ids pid =>
    simp only [run, claimedAfter]
    have hpid := h pid
    unfold clearSamples
    cases hrec : s.partitions.lookup pid with
    | none =>
      rw [hrec] at hpid
      intro p
      by_cases hp : pid = p
      · subst hp
        simp only [hrec, if_true, hpid]
        intro t
        cases ids <;> rfl
      · simpa only [if_neg hp] using h p
    | some rec' =>
      rw [hrec] at hpid
      cases ids with
      | none =>
        intro p
        dsimp only
        rw [lookup_popAll]
        by_cases hp : p = pid
        · simp [hp]
        · simpa [hp, Ne.symm hp] using h p
      | some ids =>
        refine h.dictSet ?_ fun p hp => ?_
        · simpa only [if_true] using accounts_clear hpid ids
        · simp [Ne.symm hp]
  | close =>
    simp only [run, claimedAfter, close]
    by_cases hclosed : s.closed
    · simpa [hclosed] using h
    · simp only [hclosed]
      exact fun pid t => rfl

end NoOpStore

/-! ## All runs -/

/-- After any operations the partitions account for the claims. -/
theorem accounts_of_run {tr : List (NoOpStore α × StoreOp α)} {s : NoOpStore α}
    (h : (noOpSystem α intOf).Run System.always tr s) :
    s.Accounts fun pid t => claimedBy intOf pid t tr := by
  refine h.invariant_trace (P := fun tr s => s.Accounts fun pid t => claimedBy intOf pid t tr)
    (fun s hs => ?_) fun tr s op s' hacc _ hstep => ?_
  · rw [show s = {} from hs]
    exact fun pid t => rfl
  · obtain rfl := Option.some.inj hstep
    exact NoOpStore.accounts_run intOf hacc op

/-- The samples of a partition that have all of some fields, in the order in which they were first
put. -/
def PartitionState.samplesWith (rec' : PartitionState α) (requiredFields : List String) :
    List String :=
  (rec'.rows.filter fun row => requiredFields.all fun f => (row.2.lookup f).isSome).map Prod.fst

/-- A task has claimed as many samples as there are exactly when it has claimed each of them. -/
theorem PartitionState.Accounts.hasConsumed_iff {rec' : PartitionState α}
    {claims : String → List String} (h : rec'.Accounts claims) (t : String) :
    NoOpStore.hasConsumed rec' t = true ↔ (rec'.consumed.lookup t).isSome ∧
      ∀ k ∈ rec'.rows.map Prod.fst, k ∈ claims t := by
  rw [NoOpStore.hasConsumed]
  cases hconsumed : rec'.consumed.lookup t with
  | none => simp
  | some consumed =>
    have hsub : consumed ⊆ (rec'.rows.map Prod.fst).toFinset := fun k hk =>
      List.mem_toFinset.mpr (h.stored t k ((h.consumed t _ hconsumed k).mp hk))
    have hcard : (rec'.rows.map Prod.fst).toFinset.card = rec'.rows.length := by
      rw [List.toFinset_card_of_nodup h.nodup_rows, List.length_map]
    simp only [decide_eq_true_eq, Option.isSome_some, true_and, ← h.consumed t _ hconsumed]
    constructor
    · intro hle k hk
      rw [Finset.eq_of_subset_of_card_le hsub (hcard.symm ▸ hle)]
      exact List.mem_toFinset.mpr hk
    · intro hmem
      rw [← hcard]
      exact Finset.card_le_card fun k hk => hmem k (List.mem_toFinset.mp hk)

/-- Whatever was done before, and whichever operations raised: no sample is claimed twice by a task
unless it was cleared in between, and a claim returns the first of those that have the fields and
that the task has not claimed. All samples are consumed exactly when each task has claimed each of
them. -/
theorem claims_accounted {tr : List (NoOpStore α × StoreOp α)} {s : NoOpStore α}
    (h : (noOpSystem α intOf).Run System.always tr s) (pid : String) :
    (∀ t, (claimedBy intOf pid t tr).Nodup) ∧
    (∀ t requiredFields batchSize batch,
      (s.claimMeta intOf pid t requiredFields batchSize).1 = .ok batch →
      ∃ rec', s.partitions.lookup pid = some rec' ∧
        batch.sampleIds = ((rec'.samplesWith requiredFields).filter
          (· ∉ claimedBy intOf pid t tr)).take (max batchSize 1).toNat) ∧
    ∀ tasks, s.checkConsumptionStatus pid tasks = .ok true ↔
      ∃ rec', s.partitions.lookup pid = some rec' ∧
        ∀ t ∈ tasks, (rec'.consumed.lookup t).isSome ∧
          ∀ k ∈ rec'.rows.map Prod.fst, k ∈ claimedBy intOf pid t tr := by
  have hpid := accounts_of_run h pid
  cases hrec : s.partitions.lookup pid with
  | none =>
    rw [hrec] at hpid
    refine ⟨fun t => ?_, fun t fields n batch hclaim => ?_, fun tasks => ?_⟩
    · rw [show claimedBy intOf pid t tr = [] from hpid t]
      exact List.nodup_nil
    · rw [NoOpStore.claimMeta, hrec] at hclaim
      cases hclaim
    · simp [NoOpStore.checkConsumptionStatus, hrec]
  | some rec' =>
    rw [hrec] at hpid
    refine ⟨hpid.nodup_claims, fun t fields n batch hclaim => ⟨rec', rfl, ?_⟩, fun tasks => ?_⟩
    · rw [NoOpStore.claimMeta, hrec] at hclaim
      dsimp only at hclaim
      cases hconsumed : rec'.consumed.lookup t with
      | none =>
        rw [hconsumed] at hclaim
        cases hclaim
      | some consumed =>
        rw [hconsumed] at hclaim
        dsimp only at hclaim
        cases hready : NoOpStore.claimRows intOf rec'.tags consumed fields n rec'.rows 0 with
        | error e =>
          rw [hready] at hclaim
          cases hclaim
        | ok ready =>
          rw [hready] at hclaim
          obtain rfl := Except.ok.inj hclaim
          have hisReady : rec'.rows.filter (NoOpStore.isReady consumed fields) =
              (rec'.rows.filter fun row => fields.all fun f => (row.2.lookup f).isSome).filter
                fun row => row.1 ∉ claimedBy intOf pid t tr := by
            rw [List.filter_filter]
            refine List.filter_congr fun row _ => ?_
            rw [NoOpStore.isReady]
            simp only [hpid.consumed t consumed hconsumed]
          dsimp only
          rw [NoOpStore.claimRows_eq_ok hready, hisReady, PartitionState.samplesWith,
            List.filter_map, Nat.cast_zero, Int.sub_zero]
          rfl
    · simp only [NoOpStore.checkConsumptionStatus, hrec, Except.ok.injEq, List.all_eq_true,
        hpid.hasConsumed_iff, Option.some.injEq, exists_eq_left']

/-- A sample is put, and its task has not claimed it. -/
theorem claims_accounted_oneSample :
    ((({} : NoOpStore ℕ).run (fun _ => .ok 0) (.register "p" ["t"])).run (fun _ => .ok 0)
      (.put ["a"] "p" (some []) none)).checkConsumptionStatus "p" ["t"] ≠ .ok true := by
  have hrun : (noOpSystem ℕ fun _ => .ok 0).Run System.always _
      ((({} : NoOpStore ℕ).run (fun _ => .ok 0) (.register "p" ["t"])).run (fun _ => .ok 0)
        (.put ["a"] "p" (some []) none)) :=
    .step (.step (.init rfl) trivial rfl) trivial rfl
  intro hstatus
  obtain ⟨rec', hrec, hall⟩ := ((claims_accounted hrun "p").2.2 ["t"]).mp hstatus
  have hclaimed := (hall "t" List.mem_cons_self).2 "a"
  obtain rfl := Option.some.inj hrec
  exact absurd (hclaimed (by decide)) (by decide)

end NemoRL.DataPlane
