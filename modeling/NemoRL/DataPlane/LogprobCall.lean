import NemoRL.DataPlane.PadSeqlen
import NemoRL.Data.PackingTotal
import NemoRL.DataPlane.WriteBack

/-!
# The whole call for log probabilities

The driver sends its plan to every rank whenever its settings ask for one, and the workers read
the same settings. No rank then makes a plan of its own, and since the ranks write different
samples and fetch other fields than they write, the order in which they are done has no influence.

## Main results

* `logprobMetas_spec` — what the driver sends to the ranks.
* `foldlM_aligned` — ranks that keep the places of their rows, one after another.
* `logprobs_aligned_iff` — when a rank writes back aligned, and that the whole call does.
-/

namespace NemoRL.DataPlane

open Lib Distributed Data.Packing

variable {α σ : Type}

/-! ## What the driver sends -/

@[simp] theorem stampPadSeqlen_partitionId (batch : KVBatchMeta) (dynamic : Option DynamicConfig) :
    (stampPadSeqlen batch dynamic).partitionId = batch.partitionId := by
  unfold stampPadSeqlen
  split <;> [rfl; rfl; split <;> rfl]

@[simp] theorem stampPadSeqlen_sampleIds (batch : KVBatchMeta) (dynamic : Option DynamicConfig) :
    (stampPadSeqlen batch dynamic).sampleIds = batch.sampleIds := by
  unfold stampPadSeqlen
  split <;> [rfl; rfl; split <;> rfl]

/-- Sharding with packing or dynamic batching plans every shard. -/
theorem planned_of_shardByBatchSize {ρ : Type} {d : BatchedDataDict ρ} {rand : Shuffle}
    {shards : ℕ} {batchSize : Option ℕ} {allowUneven : Bool}
    {dynamic : Option (DynamicBatchingArgs ρ)} {packing : Option (SequencePackingArgs ρ)}
    {sharded : List (BatchedDataDict ρ)} {order : Option (List ℕ)}
    (h : d.shardByBatchSize rand shards batchSize allowUneven dynamic packing =
      .ok (sharded, order)) (hargs : dynamic.isSome ∨ packing.isSome) :
    ∀ shard ∈ sharded, shard.microBatchIndices.isSome ∧ shard.microBatchLengths.isSome := by
  obtain ⟨bs, -, h⟩ := bind_eq_ok.mp h
  rcases dynamic with - | args
  · obtain ⟨args, rfl⟩ := Option.isSome_iff_exists.mp (hargs.resolve_left (by simp))
    obtain ⟨⟨sharded', order'⟩, hpacked, h⟩ := bind_eq_ok.mp h
    obtain ⟨chunks, -, -, hsharded, -⟩ := shardPacked_spec hpacked
    obtain ⟨rfl, -⟩ := Prod.mk.inj (Except.ok.inj h)
    rw [hsharded, List.forall_mem_map]
    exact fun _ _ => ⟨rfl, rfl⟩
  · obtain ⟨plans, -, h⟩ := bind_eq_ok.mp h
    obtain ⟨rfl, -⟩ := Prod.mk.inj (Except.ok.inj h)
    rw [List.forall_mem_map]
    exact fun _ _ => ⟨rfl, rfl⟩

/-- The seed fields are distinct, and the log probabilities are not among them. -/
theorem fieldsWithOptionalRoutedExperts_lpSeedFields (enabled : Bool) :
    let fields := fieldsWithOptionalRoutedExperts lpSeedFields enabled
    fields.Nodup ∧ fields ≠ [] ∧ "prev_logprobs" ∉ fields := by
  cases enabled <;> decide

/-- The metadata of the ranks: together they have the samples of the batch with their lengths,
and every rank has a plan unless the settings ask for none. -/
theorem logprobMetas_spec {policy : TQPolicy} {batch : KVBatchMeta} {taskName : String}
    {includeRouterReplay : Bool} {metas : List KVBatchMeta} (hids : batch.sampleIds.Nodup)
    (h : policy.logprobMetas batch taskName includeRouterReplay = .ok metas) :
    (∃ lens, batch.sequenceLengths = some lens ∧
      (metas.flatMap fun m => m.sampleIds.zip (m.sequenceLengths.getD [])).Perm
        (batch.sampleIds.zip lens)) ∧
    (metas.flatMap KVBatchMeta.sampleIds).Nodup ∧
    ∀ m ∈ metas, m.partitionId = batch.partitionId ∧
      (∃ lens, RankMeta m (fieldsWithOptionalRoutedExperts lpSeedFields
        (policy.routerReplayEnabled && includeRouterReplay)) lens) ∧
      (DriverPlanned m ∨ policy.cfg.dynamicBatching = none ∧
        policy.cfg.sequencePacking = none) := by
  obtain ⟨⟨metas', unsorted⟩, hshard, h⟩ := bind_eq_ok.mp h
  obtain rfl : metas' = metas := Except.ok.inj h
  obtain ⟨seqLens, hlens, -, hpairs⟩ := shardMetaForDp_perm hshard
  obtain ⟨_, -, -, hperm, hflat, -⟩ := shardMetaForDp_spec hshard
  have haligned := sequenceLengths_aligned hshard
  simp only [stampPadSeqlen_sampleIds, stampPadSeqlen_sequenceLengths] at hlens hpairs hperm hflat
  have hnodup : (metas'.flatMap KVBatchMeta.sampleIds).Nodup := by
    rw [hflat]
    exact (select_perm hperm).nodup_iff.mpr hids
  refine ⟨⟨seqLens, hlens, hpairs⟩, hnodup, fun m hm => ?_⟩
  obtain ⟨hndFields, hneFields, -⟩ := fieldsWithOptionalRoutedExperts_lpSeedFields
    (policy.routerReplayEnabled && includeRouterReplay)
  obtain ⟨lens, hlensM, hlength⟩ := haligned m hm
  have hndM : m.sampleIds.Nodup := (List.nodup_flatMap.mp hnodup).1 m hm
  obtain ⟨_, sharded, order, -, -, -, -, hsharded, rfl, -⟩ := shardMetaForDp_cases hshard
  obtain ⟨shard, hmem, rfl⟩ := List.mem_map.mp hm
  refine ⟨by simp [rankMeta], ⟨lens, rfl, hndFields, hneFields, hndM, hlensM, hlength⟩, ?_⟩
  by_cases hargs : policy.cfg.dynamicBatching = none ∧ policy.cfg.sequencePacking = none
  · exact .inr hargs
  · refine .inl ?_
    have hsome : ((policy.packingArgs .logprobMbTokens).2.map DynamicConfig.args).isSome ∨
        ((policy.packingArgs .logprobMbTokens).1.map PackingConfig.args).isSome := by
      simp only [TQPolicy.packingArgs]
      cases hdynamic : policy.cfg.dynamicBatching with
      | some dynbatch => exact .inl rfl
      | none =>
        cases hpacking : policy.cfg.sequencePacking with
        | some seqpack => exact .inr rfl
        | none => exact (hargs ⟨hdynamic, hpacking⟩).elim
    obtain ⟨hindices, hlengths⟩ := planned_of_shardByBatchSize hsharded hsome shard hmem
    obtain ⟨indices, hindices⟩ := Option.isSome_iff_exists.mp hindices
    obtain ⟨lengths, hlengths⟩ := Option.isSome_iff_exists.mp hlengths
    simp [DriverPlanned, rankMeta, hindices, hlengths]

/-! ## One rank after another -/

section Ranks
variable [Zero α] {client : DataPlaneClient α σ} {read : Reading α σ} {self : TQWorker α σ}
  {store store' : σ} {fields : List String} {ranks : List KVBatchMeta} {seqlen : ℕ}

/-- The row of a sample depends on the fetched fields only. -/
theorem ownRow_congr {batch : KVBatchMeta}
    (h : ∀ sid, ∀ key ∈ batch.fields.getD [],
      read store' batch.partitionId sid key = read store batch.partitionId sid key)
    (pads : List (String × α)) (sid : String) :
    ownRow read store' batch pads sid = ownRow read store batch pads sid := by
  funext key
  rw [ownRow, ownRow]
  by_cases hkey : key ∈ batch.fields.getD []
  · simp only [if_pos hkey, paddedWidth, h _ key hkey]
  · rw [if_neg hkey, if_neg hkey]

/-- Ranks with different samples that keep the places of their rows write back aligned, whatever
the order in which they are done. -/
theorem foldlM_aligned (hclient : StoreReads client read) (hdp : self.dpClient = some client)
    (hleader : self.isReplicaLeader = true)
    (hranks : ∀ m ∈ ranks, (∃ lens, RankMeta m fields lens) ∧
      ∀ store, KeepsPlaces read self m store seqlen)
    (hprev : "prev_logprobs" ∉ fields) (hnodup : (ranks.flatMap KVBatchMeta.sampleIds).Nodup)
    {f : Row α → Fin seqlen → α}
    (h : ranks.foldlM (self.getLogprobsPresharded f) store = .ok store') :
    ∀ m ∈ ranks, Aligned read self f m store store' := by
  refine (foldlM_invariant (P := fun done current =>
    (∀ m ∈ done, Aligned read self f m store current) ∧
      ∀ pid sid key, key ≠ "prev_logprobs" → read current pid sid key = read store pid sid key)
    h ⟨by simp, fun _ _ _ _ => rfl⟩ ?_).1
  intro done m todo current next hsplit ⟨hdone, hread⟩ hrun
  obtain ⟨⟨lens, hmeta⟩, hkeeps⟩ := hranks m (by simp [hsplit])
  obtain ⟨-, -, td, -, -, hkeys, -, hwritten⟩ :=
    written_of_getLogprobsPresharded hclient hdp hleader hmeta hrun
  refine ⟨fun m' hm' => ?_, fun pid sid key hkey => ?_⟩
  · rcases List.mem_append.mp hm' with hm' | hm'
    · intro i sid len hsid hlen
      rw [hwritten.unchanged m'.partitionId sid "prev_logprobs"]
      · exact hdone m' hm' i sid len hsid hlen
      · rintro ⟨-, hmem, -⟩
        rw [hsplit, List.flatMap_append] at hnodup
        refine (List.nodup_append.mp hnodup).2.2 sid ?_ sid ?_ rfl
        · exact List.mem_flatMap.mpr ⟨m', hm', List.mem_of_getElem? hsid⟩
        · exact List.mem_flatMap.mpr ⟨m, List.mem_cons_self, hmem⟩
    · obtain rfl := List.mem_singleton.mp hm'
      have haligned := aligned_of_keepsPlaces hclient hdp hleader hmeta (hkeeps current) hrun
      intro i sid len hsid hlen
      rw [haligned i sid len hsid hlen, ownRow_congr fun sid key hkey => hread _ sid key ?_]
      rw [hmeta.fields_eq, Option.getD_some] at hkey
      exact fun heq => hprev (heq ▸ hkey)
  · rw [hwritten.unchanged pid sid key, hread pid sid key hkey]
    rintro ⟨-, -, hmem⟩
    exact hkey (by simpa [hkeys] using hmem)

omit [Zero α] in
/-- A worker that has no plan to make returns. -/
theorem exists_prepared {batch : KVBatchMeta} (data : Columns α)
    (h : DriverPlanned batch ∨
      (self.cfg.map PolicyConfig.workerPackingArgs).getD (none, none) = (none, none)) :
    ∃ prepared, self.attachOrRepackPackMetadata data batch = .ok prepared := by
  unfold TQWorker.attachOrRepackPackMetadata
  split
  case h_1 => exact ⟨_, rfl⟩
  case h_2 hnone =>
    have hargs := h.resolve_left ?_
    · refine ⟨{ rows := rowsOf data }, ?_⟩
      rw [TQWorker.applyPackingPrep, hargs]
      rfl
    · rintro ⟨hindices, hlengths⟩
      obtain ⟨indices, hindices⟩ := Option.isSome_iff_exists.mp hindices
      obtain ⟨lengths, hlengths⟩ := Option.isSome_iff_exists.mp hlengths
      exact hnone indices lengths hindices hlengths

/-- Ranks return when their samples can be fetched. -/
theorem exists_foldlM_getLogprobsPresharded (hclient : StoreReads client read)
    (hdp : self.dpClient = some client) (hleader : self.isReplicaLeader = true)
    (hranks : ∀ m ∈ ranks, (∃ lens, RankMeta m fields lens) ∧ (DriverPlanned m ∨
      (self.cfg.map PolicyConfig.workerPackingArgs).getD (none, none) = (none, none)))
    (hprev : "prev_logprobs" ∉ fields)
    (hgets : ∀ m ∈ ranks, m.sampleIds ≠ [] ∧
      ∃ got, client.getSamples store m.sampleIds m.partitionId fields = .ok got)
    (f : Row α → Fin seqlen → α) :
    ∃ store', ranks.foldlM (self.getLogprobsPresharded f) store = .ok store' := by
  induction ranks generalizing store with
  | nil => exact ⟨store, rfl⟩
  | cons m ranks ih =>
    obtain ⟨⟨lens, hmeta⟩, hplan⟩ := hranks m List.mem_cons_self
    obtain ⟨hids, got, hgot⟩ := hgets m List.mem_cons_self
    have hfetch : self.fetch store m = .ok (materialize got self.padValueDict
        (m.extraInfo.globalForwardPadSeqlen.getD 0)) := by
      simp only [TQWorker.fetch, TQWorker.requireDpClient, hdp, hmeta.fields_eq, hgot, bind,
        Except.bind]
      rfl
    obtain ⟨prepared, hprep⟩ := exists_prepared _ hplan
    obtain ⟨next, td, hrun, hkeys, hwritten, -⟩ :=
      getLogprobsPresharded_written hclient hdp hleader hmeta hids hfetch hprep f
    have hnext : ∀ m' ∈ ranks, m'.sampleIds ≠ [] ∧
        ∃ got, client.getSamples next m'.sampleIds m'.partitionId fields = .ok got := by
      intro m' hm'
      obtain ⟨hids', got', hgot'⟩ := hgets m' (List.mem_cons_of_mem m hm')
      refine ⟨hids', got', hwritten.gets _ _ _ _ (fun key hkey hmem => ?_) hgot'⟩
      rw [hkeys, List.mem_singleton] at hmem
      exact hprev (hmem ▸ hkey)
    obtain ⟨store', hrest⟩ := ih (fun m' hm' => hranks m' (List.mem_cons_of_mem m hm')) hnext
    refine ⟨store', ?_⟩
    rw [List.foldlM_cons, hrun]
    exact hrest

end Ranks

/-- A rank writes back aligned just if its layout keeps the places of its rows. In the whole call
the workers read the settings of the driver, and then every rank writes back aligned, whatever the
order in which the ranks are done. Together they have the samples of the batch, each with its
recorded length. -/
theorem logprobs_aligned_iff [Zero α] [Nontrivial α] {client : DataPlaneClient α σ}
    {read : Reading α σ} {self : TQWorker α σ} (hclient : StoreReads client read)
    (hdp : self.dpClient = some client) (hleader : self.isReplicaLeader = true) (seqlen : ℕ) :
    (∀ store batch fields lens data prepared, RankMeta batch fields lens →
      self.fetch store batch = .ok data →
      self.attachOrRepackPackMetadata data batch = .ok prepared →
      (batch.sampleIds ≠ [] → ∀ f : Row α → Fin seqlen → α, ∃ store',
        self.getLogprobsPresharded f store batch = .ok store') ∧
      ((∀ (f : Row α → Fin seqlen → α) store',
          self.getLogprobsPresharded f store batch = .ok store' →
          Aligned read self f batch store store') ↔
        KeepsPlaces read self batch store seqlen)) ∧
    ∀ (policy : TQPolicy) (schedule : List KVBatchMeta → List KVBatchMeta) store batch metas,
      self.cfg = some policy.cfg → (∀ l, (schedule l).Perm l) → batch.sampleIds.Nodup →
      policy.logprobMetas batch "prev_lp" true = .ok metas →
      (∃ lens, batch.sequenceLengths = some lens ∧
        (metas.flatMap fun m => m.sampleIds.zip (m.sequenceLengths.getD [])).Perm
          (batch.sampleIds.zip lens)) ∧
      ((∀ m ∈ metas, m.sampleIds ≠ [] ∧ ∃ data, self.fetch store m = .ok data) →
        ∀ f : Row α → Fin seqlen → α, ∃ store',
          policy.getLogprobsFromMeta self f schedule store batch = .ok store') ∧
      ∀ (f : Row α → Fin seqlen → α) store',
        policy.getLogprobsFromMeta self f schedule store batch = .ok store' →
        ∀ m ∈ metas, Aligned read self f m store store' := by
  refine ⟨fun store batch fields lens data prepared hmeta hfetch hprep => ⟨fun hids f => ?_,
    aligned_iff_keepsPlaces seqlen hclient hdp hleader hmeta hfetch hprep⟩, ?_⟩
  · obtain ⟨store', -, hrun, -⟩ :=
      getLogprobsPresharded_written hclient hdp hleader hmeta hids hfetch hprep f
    exact ⟨store', hrun⟩
  · intro policy schedule store batch metas hcfg hschedule hids hmetas
    obtain ⟨hpairs, hnodup, hranks⟩ := logprobMetas_spec hids hmetas
    obtain ⟨-, -, hprev⟩ := fieldsWithOptionalRoutedExperts_lpSeedFields
      (policy.routerReplayEnabled && true)
    have hplan : ∀ m ∈ metas, DriverPlanned m ∨
        (self.cfg.map PolicyConfig.workerPackingArgs).getD (none, none) = (none, none) := by
      intro m hm
      refine (hranks m hm).2.2.imp_right ?_
      rintro ⟨hdynamic, hpacking⟩
      simp [hcfg, PolicyConfig.workerPackingArgs, hdynamic, hpacking]
    have hmem : ∀ m, m ∈ schedule metas ↔ m ∈ metas := fun m => (hschedule metas).mem_iff
    have hcall : ∀ (f : Row α → Fin seqlen → α),
        policy.getLogprobsFromMeta self f schedule store batch =
          (schedule metas).foldlM (self.getLogprobsPresharded f) store := by
      intro f
      rw [TQPolicy.getLogprobsFromMeta, hmetas]
      rfl
    refine ⟨hpairs, fun hgets f => ?_, fun f store' hrun m hm => ?_⟩
    · rw [hcall]
      refine exists_foldlM_getLogprobsPresharded hclient hdp hleader
        (fun m hm => ⟨(hranks m ((hmem m).mp hm)).2.1, hplan m ((hmem m).mp hm)⟩) hprev
        (fun m hm => ?_) f
      obtain ⟨hne, data, hdata⟩ := hgets m ((hmem m).mp hm)
      obtain ⟨lens, hmeta⟩ := (hranks m ((hmem m).mp hm)).2.1
      simp only [TQWorker.fetch, TQWorker.requireDpClient, hdp, hmeta.fields_eq] at hdata
      obtain ⟨_, hget, hdata⟩ := bind_eq_ok.mp hdata
      obtain rfl := Except.ok.inj hget
      obtain ⟨got, hgot, -⟩ := bind_eq_ok.mp hdata
      exact ⟨hne, got, hgot⟩
    · rw [hcall] at hrun
      refine foldlM_aligned hclient hdp hleader (fun m hm => ⟨(hranks m ((hmem m).mp hm)).2.1,
        fun store => keepsPlaces_of_planned seqlen (hplan m ((hmem m).mp hm))⟩) hprev ?_ hrun m
        ((hmem m).mpr hm)
      exact ((hschedule metas).flatMap_right _).nodup_iff.mpr hnodup

/-- A partition with two samples, the second the shorter one. -/
def shortSecond : List (String × Partition ℕ) :=
  [("train", [("a", [("input_ids", .vector [5, 6]), ("input_lengths", .scalar 2)]),
    ("b", [("input_ids", .vector [7]), ("input_lengths", .scalar 1)])])]

/-- The metadata of these samples for one rank. -/
def shortSecondMeta (extraInfo : ExtraInfo) : KVBatchMeta where
  partitionId := "train"
  taskName := none
  sampleIds := ["a", "b"]
  fields := some ["input_ids", "input_lengths"]
  sequenceLengths := some [2, 1]
  extraInfo := extraInfo

/-- A worker with dynamic batching. -/
def dynamicWorker : TQWorker ℕ (List (String × Partition ℕ)) :=
  ⟨some ⟨some ⟨1, 4, 4⟩, none, 1⟩, none, some noOpClient, true, id, Shuffle.inOrder⟩

/-- The first token of a row, at each position. -/
def firstToken (row : Row ℕ) (_ : Fin 2) : ℕ := ((row "input_ids").bind (·.data.head?)).getD 0

/-- With a plan of the driver the samples have the results of their own rows. -/
theorem shortSecond_planned : ∃ store', dynamicWorker.getLogprobsPresharded firstToken shortSecond
      (shortSecondMeta { microBatchIndices := some [[(0, 2)]], microBatchLengths := some [[2]] }) =
        .ok store' ∧
    Aligned noOpRead dynamicWorker firstToken
      (shortSecondMeta { microBatchIndices := some [[(0, 2)]], microBatchLengths := some [[2]] })
      shortSecond store' := by
  have hmeta : RankMeta (shortSecondMeta
      { microBatchIndices := some [[(0, 2)]], microBatchLengths := some [[2]] })
      ["input_ids", "input_lengths"] [2, 1] :=
    ⟨rfl, by decide, by decide, by decide, rfl, rfl⟩
  obtain ⟨hreturns, haligned⟩ := (@logprobs_aligned_iff ℕ _ _ _ noOpClient noOpRead dynamicWorker
    noOpClient_storeReads rfl rfl 2).1 shortSecond _ _ _ _ _ hmeta rfl rfl
  obtain ⟨store', hrun⟩ := hreturns (by decide) firstToken
  exact ⟨store', hrun, haligned.mpr (keepsPlaces_of_planned 2 (.inl ⟨rfl, rfl⟩)) firstToken store'
    hrun⟩

/-- Without one the worker lays out the shorter row first, and each sample has the result of the
other. -/
theorem shortSecond_swapped : ∃ store', dynamicWorker.getLogprobsPresharded firstToken shortSecond
      (shortSecondMeta {}) = .ok store' ∧
    noOpRead store' "train" "a" "prev_logprobs" = some (.vector [7, 7]) ∧
    noOpRead store' "train" "b" "prev_logprobs" = some (.vector [5]) ∧
    ¬Aligned noOpRead dynamicWorker firstToken (shortSecondMeta {}) shortSecond store' := by
  refine ⟨_, rfl, by decide, by decide, fun haligned => ?_⟩
  exact absurd (haligned 0 "a" 2 rfl rfl) (by decide)

end NemoRL.DataPlane
