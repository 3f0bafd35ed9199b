import NemoRL.DataPlane.ObservabilityRuns
import NemoRL.DataPlane.NoOpRuns

/-!
# The metrics around the in-memory data plane

Bytes are held only for samples in the store, as long as no partition is begun anew and the client is
not closed: the wrapper does not take notice of these two.

## Main definitions

* `NoOpStore.HasSample`, `MetricsClient.Holds` — a sample is in the store, bytes are held for it.

## Main results

* `held_keys_stored` — bytes are held only for samples in the store.
-/

namespace NemoRL.DataPlane

open Lib

variable {α σ : Type} {intOf : String → Except PyError ℕ} {elementSize : Leaf α → ℕ}

/-- A sample is in a partition of the store. -/
def NoOpStore.HasSample (s : NoOpStore α) (pid key : String) : Prop :=
  ∃ rec', s.partitions.lookup pid = some rec' ∧ key ∈ rec'.rows.map Prod.fst

/-- Bytes are held for a sample. -/
def MetricsClient.Holds (s : MetricsClient σ) (pid key : String) : Prop :=
  ∃ d, s.bytesByPartition.lookup pid = some d ∧ key ∈ d.map Prod.fst

namespace NoOpStore

theorem hasSample_dictSet {s : NoOpStore α} {pid : String} {rec' : PartitionState α}
    {closed : Bool} {partitionId key : String} :
    (NoOpStore.mk (dictSet s.partitions pid rec') closed).HasSample partitionId key ↔
      if partitionId = pid then key ∈ rec'.rows.map Prod.fst else s.HasSample partitionId key := by
  rw [HasSample, lookup_dictSet]
  by_cases hp : partitionId = pid
  · simp [hp]
  · simp [hp, HasSample]

theorem hasSample_of_lookup {s : NoOpStore α} {pid key : String} {rec' : PartitionState α}
    (h : s.partitions.lookup pid = some rec') :
    s.HasSample pid key ↔ key ∈ rec'.rows.map Prod.fst := by
  rw [HasSample, h]
  simp

/-- A claim keeps the samples. -/
theorem hasSample_claimMeta (s : NoOpStore α)
    (pid task : String) (requiredFields : List String) (batchSize : ℤ)
    {partitionId key : String} (h : s.HasSample partitionId key) :
    (s.claimMeta intOf pid task requiredFields batchSize).2.HasSample partitionId key := by
  unfold claimMeta
  cases hrec : s.partitions.lookup pid with
  | none => exact h
  | some rec' =>
    cases hconsumed : rec'.consumed.lookup task with
    | none => simpa only [hconsumed] using h
    | some consumed =>
      cases hready : claimRows intOf rec'.tags consumed requiredFields batchSize rec'.rows 0 with
      | error e => simpa only [hconsumed, hready] using h
      | ok ready =>
        simp only [hconsumed, hready]
        rw [hasSample_dictSet]
        by_cases hp : partitionId = pid
        · subst hp
          rw [if_pos rfl]
          exact (hasSample_of_lookup hrec).mp h
        · rw [if_neg hp]
          exact h

/-- Writing samples without an error writes all of them. -/
theorem subset_keys_writeSamples {fields : TensorDict α} {samples : List (String × ℕ)}
    {rows : Partition α} (hnodup : (rows.map Prod.fst).Nodup)
    (h : (writeSamples fields samples rows).1 = none) :
    samples.map Prod.fst ⊆ (writeSamples fields samples rows).2.map Prod.fst := by
  induction samples generalizing rows with
  | nil => exact List.nil_subset _
  | cons q samples ih =>
    obtain ⟨sid, i⟩ := q
    rw [writeSamples] at h ⊢
    cases hfields : (writeFields i fields ((rows.lookup sid).getD [])).1 with
    | some e =>
      rw [hfields] at h
      cases h
    | none =>
      rw [hfields] at h
      have hnodup' := nodup_keys_dictSet hnodup sid
        (writeFields i fields ((rows.lookup sid).getD [])).2
      obtain ⟨-, hkept⟩ := @keys_writeSamples α fields samples _ hnodup'
      exact List.cons_subset.mpr ⟨hkept (mem_keys_dictSet.mpr (.inr rfl)), ih hnodup' h⟩

/-- No partition has a sample twice. -/
def NodupSamples (s : NoOpStore α) : Prop :=
  ∀ pid rec', s.partitions.lookup pid = some rec' → (rec'.rows.map Prod.fst).Nodup

/-- A put keeps the samples, and one that returns adds its own. -/
theorem hasSample_putSamples {s : NoOpStore α} (hnodup : s.NodupSamples) (ids : List String)
    (pid : String) (fields : Option (TensorDict α)) (tags : Option (List Tag)) :
    (∀ partitionId key, s.HasSample partitionId key →
      (s.putSamples ids pid fields tags).2.HasSample partitionId key) ∧
    ∀ batch, (s.putSamples ids pid fields tags).1 = .ok batch → fields.isSome →
      ∀ key ∈ ids, (s.putSamples ids pid fields tags).2.HasSample pid key := by
  unfold putSamples
  cases hrec : s.partitions.lookup pid with
  | none => exact ⟨fun _ _ h => h, fun batch h => by cases h⟩
  | some rec' =>
    obtain ⟨-, hkept⟩ := @keys_writeSamples α (fields.getD [])
      (if fields.isSome then ids.zipIdx else []) rec'.rows (hnodup pid rec' hrec)
    have hold : ∀ partitionId key, s.HasSample partitionId key → if partitionId = pid then
        key ∈ (writeSamples (fields.getD []) (if fields.isSome then ids.zipIdx else [])
          rec'.rows).2.map Prod.fst else s.HasSample partitionId key := by
      intro partitionId key h
      by_cases hp : partitionId = pid
      · subst hp
        rw [if_pos rfl]
        exact hkept ((hasSample_of_lookup hrec).mp h)
      · rw [if_neg hp]
        exact h
    dsimp only
    cases hwritten : (writeSamples (fields.getD []) (if fields.isSome then ids.zipIdx else [])
        rec'.rows).1 with
    | some e =>
      exact ⟨fun p k h => hasSample_dictSet.mpr (hold p k h), fun batch h => by cases h⟩
    | none =>
      refine ⟨fun p k h => hasSample_dictSet.mpr (hold p k h), fun batch _ hfields key hkey => ?_⟩
      have hall := subset_keys_writeSamples (hnodup pid rec' hrec) hwritten
      rw [if_pos hfields, List.zipIdx_map_fst] at hall
      rw [hasSample_dictSet, if_pos rfl]
      simpa only [if_pos hfields] using hall hkey

/-- A clear keeps all other samples. -/
theorem hasSample_clearSamples {s : NoOpStore α} (ids : Option (List String)) (pid : String)
    {partitionId key : String} (h : s.HasSample partitionId key)
    (hother : ¬(pid = partitionId ∧ ∀ l ∈ ids, key ∈ l)) :
    (s.clearSamples ids pid).HasSample partitionId key := by
  unfold clearSamples
  cases hrec : s.partitions.lookup pid with
  | none => exact h
  | some rec' =>
    cases ids with
    | none =>
      have hp : partitionId ≠ pid := fun hp => hother ⟨hp.symm, by simp⟩
      obtain ⟨rec'', hlookup, hkey⟩ := h
      exact ⟨rec'', by rw [lookup_popAll, if_neg (by simpa using hp), hlookup], hkey⟩
    | some ids =>
      dsimp only
      rw [hasSample_dictSet]
      by_cases hp : partitionId = pid
      · subst hp
        have hkey : key ∉ ids := fun hmem => hother ⟨rfl, by simpa using hmem⟩
        rw [if_pos rfl, keys_popAll]
        exact List.mem_filter.mpr ⟨(hasSample_of_lookup hrec).mp h, by simpa using hkey⟩
      · rw [if_neg hp]
        exact h

end NoOpStore

namespace MetricsClient

/-- A put adds its own samples. -/
theorem holds_recordPut {s : MetricsClient σ} {pid : String} {keys : List String} {nBytes : ℕ}
    {partitionId key : String} (h : (s.recordPut pid keys nBytes).Holds partitionId key) :
    s.Holds partitionId key ∨ (partitionId = pid ∧ key ∈ keys ∧ nBytes ≠ 0) := by
  rw [recordPut] at h
  by_cases hnone : keys = [] ∨ nBytes = 0
  · rw [if_pos hnone] at h
    exact .inl h
  · rw [if_neg hnone] at h
    obtain ⟨d, hd, hkey⟩ := h
    dsimp only at hd
    rw [lookup_dictSet] at hd
    by_cases hp : partitionId = pid
    · rw [if_pos hp] at hd
      rw [← Option.some.inj hd, mem_keys_addAll] at hkey
      cases hkey with
      | inl hold =>
        cases hlookup : s.bytesByPartition.lookup pid with
        | none => simp [hlookup] at hold
        | some d => exact .inl ⟨d, hp ▸ hlookup, by simpa [hlookup] using hold⟩
      | inr hnew =>
        rw [List.map_map] at hnew
        refine .inr ⟨hp, ?_, fun hzero => hnone (.inr hzero)⟩
        rw [← List.zipIdx_map_fst 0 keys]
        exact hnew
    · rw [if_neg hp] at hd
      exact .inl ⟨d, hd, hkey⟩

/-- A clear removes its own samples. -/
theorem holds_recordClear {s : MetricsClient σ} (hs : s.Balanced) {pid : String}
    {keys : Option (List String)} {partitionId key : String}
    (h : (s.recordClear pid keys).Holds partitionId key) :
    s.Holds partitionId key ∧ ¬(pid = partitionId ∧ ∀ l ∈ keys, key ∈ l) := by
  have hpopped : (∃ d, (popAll s.bytesByPartition [pid]).lookup partitionId = some d ∧
      key ∈ d.map Prod.fst) → s.Holds partitionId key ∧ pid ≠ partitionId := by
    rintro ⟨d, hd, hkey⟩
    rw [lookup_popAll] at hd
    by_cases hp : partitionId ∈ [pid]
    · rw [if_pos hp] at hd
      cases hd
    · rw [if_neg hp] at hd
      exact ⟨⟨d, hd, hkey⟩, fun heq => hp (List.mem_singleton.mpr heq.symm)⟩
  unfold recordClear at h
  cases hlookup : s.bytesByPartition.lookup pid with
  | none =>
    rw [hlookup] at h
    refine ⟨h, fun hp => ?_⟩
    obtain ⟨d, hd, -⟩ := h
    rw [← hp.1, hlookup] at hd
    cases hd
  | some d =>
    rw [hlookup] at h
    cases keys with
    | none =>
      obtain ⟨hold, hp⟩ := hpopped h
      exact ⟨hold, fun heq => hp heq.1⟩
    | some keys =>
      obtain ⟨hdict, -⟩ := popBytes_spec keys (hs.nodup_keys pid d hlookup)
      simp only [hdict] at h
      by_cases hempty : popAll d keys = []
      · simp only [hempty, if_true] at h
        obtain ⟨hold, hp⟩ := hpopped h
        exact ⟨hold, fun heq => hp heq.1⟩
      · simp only [hempty, if_false] at h
        obtain ⟨d', hd', hkey⟩ := h
        dsimp only at hd'
        rw [lookup_dictSet] at hd'
        by_cases hp : partitionId = pid
        · rw [if_pos hp] at hd'
          rw [← Option.some.inj hd', keys_popAll, List.mem_filter, decide_eq_true_eq] at hkey
          exact ⟨⟨d, hp ▸ hlookup, hkey.1⟩, fun hall => hkey.2 (hall.2 keys rfl)⟩
        · rw [if_neg hp] at hd'
          exact ⟨⟨d', hd', hkey⟩, fun hall => hp hall.1.symm⟩

theorem SameBytes.holds {s s' : MetricsClient σ} (h : s.SameBytes s') (pid key : String) :
    s.Holds pid key ↔ s'.Holds pid key := by
  rw [Holds, Holds, h.bytes]

/-! ## The inner client -/

theorem inner_emit (s : MetricsClient σ) (op pid : String) (nKeys nBytes : ℕ)
    (status : EventStatus) : (s.emit op pid nKeys nBytes status).inner = s.inner := by
  unfold emit
  dsimp only
  split
  · rfl
  · split <;> rfl

theorem inner_report {ρ : Type} (s : MetricsClient σ) (op pid : String) (out : Outcome ρ × σ)
    (nKeys nBytes : ℕ) (keys bytes : ρ → ℕ) :
    (s.report op pid out nKeys nBytes keys bytes).inner = out.2 := by
  rw [report]
  cases out.1 <;> exact inner_emit ..

theorem inner_recordPut (s : MetricsClient σ) (pid : String) (keys : List String) (nBytes : ℕ) :
    (s.recordPut pid keys nBytes).inner = s.inner := by
  rw [recordPut]
  split <;> rfl

theorem inner_recordClear (s : MetricsClient σ) (pid : String) (keys : Option (List String)) :
    (s.recordClear pid keys).inner = s.inner := by
  unfold recordClear
  split <;> rfl

end MetricsClient

/-! ## All runs -/

/-- An operation that begins no partition anew and does not close the client. -/
def KeepsPartitions (s : MetricsClient (NoOpStore α)) : ClientOp α → Prop
  | .register pid _ _ => s.inner.partitions.lookup pid = none
  | .close => False
  | _ => True

/-- Bytes are held only for samples of the store, and the accounts are in order. -/
structure MetricsClient.HoldsStored (s : MetricsClient (NoOpStore α)) : Prop where
  balanced : s.Balanced
  nodup : ∃ claims, s.inner.Accounts claims
  stored : ∀ pid key, s.Holds pid key → s.inner.HasSample pid key

theorem NoOpStore.Accounts.nodupSamples {s : NoOpStore α} {claims : String → String → List String}
    (h : s.Accounts claims) : s.NodupSamples := by
  intro pid rec' hrec
  have hpid := h pid
  rw [hrec] at hpid
  exact hpid.nodup_rows

/-- An operation that is only reported, on a store that keeps its samples. -/
theorem MetricsClient.HoldsStored.report {s : MetricsClient (NoOpStore α)} (hs : s.HoldsStored)
    {ρ : Type} (op pid : String) (out : Outcome ρ × NoOpStore α) (nKeys nBytes : ℕ)
    (keys bytes : ρ → ℕ) (hnodup : ∃ claims, out.2.Accounts claims)
    (hkept : ∀ p k, s.inner.HasSample p k → out.2.HasSample p k) :
    (s.report op pid out nKeys nBytes keys bytes).HoldsStored := by
  have hsame := s.sameBytes_report op pid out nKeys nBytes keys bytes
  refine ⟨hsame.balanced hs.balanced, ?_, fun p k hk => ?_⟩
  · rw [MetricsClient.inner_report]
    exact hnodup
  · rw [MetricsClient.inner_report]
    exact hkept p k (hs.stored p k ((hsame.holds p k).mp hk))

theorem holdsStored_run {s : MetricsClient (NoOpStore α)} (hs : s.HoldsStored) (op : ClientOp α)
    (hop : KeepsPartitions s op) :
    (s.run (noOpInner intOf) elementSize op).HoldsStored := by
  obtain ⟨claims, haccounts⟩ := hs.nodup
  have hnodup := haccounts.nodupSamples
  cases op with
  | register pid numSamples tasks =>
    have haccounts' : ∃ claims, (s.inner.registerPartition pid tasks).Accounts claims :=
      ⟨_, NoOpStore.accounts_run intOf haccounts (.register pid tasks)⟩
    have hkept : ∀ p k, s.inner.HasSample p k →
        (s.inner.registerPartition pid tasks).HasSample p k := by
      rintro p k ⟨rec', hrec, hk⟩
      have hne : p ≠ pid := by
        rintro rfl
        rw [show s.inner.partitions.lookup p = none from hop] at hrec
        cases hrec
      refine NoOpStore.hasSample_dictSet.mpr ?_
      rw [if_neg hne]
      exact ⟨rec', hrec, hk⟩
    exact hs.report "register" pid ((noOpInner intOf).registerPartition s.inner pid tasks)
      numSamples 0 (fun _ => numSamples) (fun _ => 0) haccounts' hkept
  | claim pid task requiredFields batchSize =>
    have haccounts' : ∃ claims,
        (s.inner.claimMeta intOf pid task requiredFields batchSize).2.Accounts claims :=
      ⟨_, NoOpStore.accounts_run intOf haccounts (.claim pid task requiredFields batchSize)⟩
    exact hs.report _ _ ((noOpInner intOf).claimMeta s.inner pid task requiredFields batchSize) _ _
      _ _ haccounts' fun p k h => NoOpStore.hasSample_claimMeta _ _ _ _ _ h
  | getData batch selectFields =>
    exact hs.report _ _ _ _ _ _ _ hs.nodup fun _ _ => id
  | check pid tasks => exact hs.report _ _ _ _ _ _ _ hs.nodup fun _ _ => id
  | get ids pid selectFields => exact hs.report _ _ _ _ _ _ _ hs.nodup fun _ _ => id
  | close => exact hop.elim
  | put ids pid fields tags =>
    obtain ⟨hkept, hadded⟩ := NoOpStore.hasSample_putSamples hnodup ids pid fields tags
    have haccounts' : ∃ claims, (s.inner.putSamples ids pid fields tags).2.Accounts claims :=
      ⟨_, NoOpStore.accounts_run intOf haccounts (.put ids pid fields tags)⟩
    have hreport := hs.report "put" pid
      ((noOpInner intOf).putSamples s.inner ids pid fields tags) ids.length
      ((fields.map (tdBytes elementSize)).getD 0)
      (fun batch : KVBatchMeta => if ids = [] then batch.sampleIds.length else ids.length)
      (fun _ => (fields.map (tdBytes elementSize)).getD 0) haccounts' hkept
    rw [MetricsClient.run, MetricsClient.putSamples]
    cases hout : (s.inner.putSamples ids pid fields tags).1 with
    | error e =>
      simp only [noOpInner, hout, Outcome.ofExcept] at hreport ⊢
      exact hreport
    | ok batch =>
      simp only [noOpInner, hout, Outcome.ofExcept] at hreport ⊢
      obtain ⟨hbalanced, -, -⟩ := MetricsClient.recordPut_spec hreport.balanced pid ids
        ((fields.map (tdBytes elementSize)).getD 0)
      refine ⟨hbalanced, ?_, fun p k hk => ?_⟩
      · rw [MetricsClient.inner_recordPut]
        exact hreport.nodup
      · rw [MetricsClient.inner_recordPut]
        cases MetricsClient.holds_recordPut hk with
        | inl hold => exact hreport.stored p k hold
        | inr hnew =>
          obtain ⟨rfl, hkey, hbytes⟩ := hnew
          have hfields : fields.isSome := by
            cases fields with
            | none => exact (hbytes rfl).elim
            | some fields => rfl
          rw [MetricsClient.inner_report]
          exact hadded batch hout hfields k hkey
  | clear ids pid =>
    rw [MetricsClient.run, MetricsClient.clearSamples]
    simp only [noOpInner]
    have hsame := s.sameBytes_report "clear" pid
      (Outcome.returned (), s.inner.clearSamples ids pid) ((ids.map List.length).getD 0) 0
      (fun _ => (ids.map List.length).getD 0) fun _ => 0
    obtain ⟨hbalanced, -, -⟩ :=
      MetricsClient.recordClear_spec (hsame.balanced hs.balanced) pid ids
    refine ⟨hbalanced, ?_, fun p k hk => ?_⟩
    · rw [MetricsClient.inner_recordClear, MetricsClient.inner_report]
      exact ⟨_, NoOpStore.accounts_run intOf haccounts (.clear ids pid)⟩
    · rw [MetricsClient.inner_recordClear, MetricsClient.inner_report]
      obtain ⟨hold, hother⟩ :=
        MetricsClient.holds_recordClear (hsame.balanced hs.balanced) hk
      exact NoOpStore.hasSample_clearSamples ids pid
        (hs.stored p k ((hsame.holds p k).mp hold)) hother

/-- Around the in-memory client, in any run that begins no partition anew and does not close the
client: bytes are held only for samples that are in the store. -/
theorem held_keys_stored {tr : List (MetricsClient (NoOpStore α) × ClientOp α)}
    {s : MetricsClient (NoOpStore α)}
    (h : (metricsSystem (noOpInner intOf) elementSize (· = {})).Run KeepsPartitions tr s)
    (pid key : String) (hheld : 0 < s.bytesOf pid key) : s.inner.HasSample pid key := by
  have hinv : s.HoldsStored := by
    refine h.invariant (P := MetricsClient.HoldsStored) (fun s hs => ?_) fun s op s' hs hop hstep => ?_
    · obtain ⟨inner, rfl, rfl⟩ := hs
      refine ⟨⟨List.nodup_nil, fun _ _ hd => absurd hd (by simp), rfl, le_refl _⟩,
        ⟨fun _ _ => [], fun pid t => rfl⟩, fun pid key hk => ?_⟩
      obtain ⟨d, hd, -⟩ := hk
      cases hd
    · obtain rfl := Option.some.inj hstep
      exact holdsStored_run hs op hop
  refine hinv.stored pid key ?_
  rw [MetricsClient.bytesOf] at hheld
  cases hlookup : s.bytesByPartition.lookup pid with
  | none =>
    rw [hlookup] at hheld
    exact absurd hheld (Nat.lt_irrefl 0)
  | some d =>
    refine ⟨d, hlookup, ?_⟩
    by_contra hkey
    rw [hlookup, Option.getD_some, lookup_eq_none_iff_notMem.mpr hkey] at hheld
    exact absurd hheld (Nat.lt_irrefl 0)

/-- One sample is put. -/
theorem held_keys_stored_oneSample : afterPut.inner.HasSample "p" "a" := by
  have hfresh : KeepsPartitions (⟨{}, {}, [], []⟩ : MetricsClient (NoOpStore ℕ))
      (.register "p" 1 ["t"]) := rfl
  have hput : ∀ s : MetricsClient (NoOpStore ℕ),
      KeepsPartitions s (.put ["a"] "p" (some oneField) none) := fun _ => trivial
  have hrun : (metricsSystem (noOpInner fun _ => .ok 0) (fun _ => 4) (· = {})).Run KeepsPartitions _
      afterPut := .step (.step (.init ⟨{}, rfl, rfl⟩) hfresh rfl) (hput _) rfl
  exact held_keys_stored hrun "p" "a" (by decide)

end NemoRL.DataPlane
