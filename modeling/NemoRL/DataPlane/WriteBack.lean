import Mathlib
import NemoRL.DataPlane.PreshardSpec
import NemoRL.DataPlane.StoreReads
import NemoRL.DataPlane.WorkerMixin

/-!
# Whose log probabilities are stored

Row `i` of a result is written under sample id `i` of the metadata. It belongs to this sample when
the worker left the fetched rows in their places. It does so with the plan of the driver, and with
its own plan only if the layout of this plan keeps the places of the rows.

## Main definitions

* `ownRow` — the row of a sample as a rank fetches it.
* `layout` — the order in which a worker lays out its rows.
* `Aligned` — every sample has the log probabilities of its own row.

## Main results

* `rowsOf_fetch` — a rank fetches the rows of its samples in their order.
* `rows_attachOrRepackPackMetadata` — a worker lays out its rows in the order of `layout`.
* `logprobs_aligned_iff` — when a rank writes back aligned, and that the whole call does.
-/

namespace NemoRL.DataPlane

open Lib Distributed Data.Packing

variable {α σ : Type}

/-! ## Fetching -/

section Fetch
variable [Zero α] (read : Reading α σ) (store : σ) (batch : KVBatchMeta)

/-- The width that a rank pads a field to. -/
def paddedWidth (key : String) : ℕ :=
  max (batch.extraInfo.globalForwardPadSeqlen.getD 0) (longest (batch.sampleIds.map fun sid =>
    ((read store batch.partitionId sid key).map Tensor.width).getD 0))

/-- The row of a sample as a rank fetches it. -/
def ownRow (pads : List (String × α)) (sid : String) : Row α := fun key =>
  if key ∈ batch.fields.getD [] then
    (read store batch.partitionId sid key).map
      (Tensor.padTo (paddedWidth read store batch key) ((pads.lookup key).getD 0))
  else none

end Fetch

section Rank
variable [Zero α] {client : DataPlaneClient α σ} {read : Reading α σ} {self : TQWorker α σ}
  {store : σ} {batch : KVBatchMeta} {data : Columns α}

theorem getElem?_of_map_some {β γ : Type} {l : List β} {l' : List γ} {g : γ → Option β}
    (h : l.map some = l'.map g) {i : ℕ} {c : γ} (hi : l'[i]? = some c) : l[i]? = g c := by
  have hget := congrArg (·[i]?) h
  simp only [List.getElem?_map, hi, Option.map_some] at hget
  cases hl : l[i]? with
  | none => simp [hl] at hget
  | some b =>
    rw [hl] at hget
    exact Option.some.inj hget

/-- A rank fetches the rows of its samples in their order. -/
theorem rowsOf_fetch (hclient : StoreReads client read) (hdp : self.dpClient = some client)
    {fields : List String} (hfields : batch.fields = some fields) (hnd : fields.Nodup)
    (hne : fields ≠ []) (hids : batch.sampleIds ≠ []) (h : self.fetch store batch = .ok data) :
    rowsOf data = batch.sampleIds.map (ownRow read store batch self.padValueDict) := by
  simp only [TQWorker.fetch, TQWorker.requireDpClient, hdp, hfields] at h
  obtain ⟨_, hget, h⟩ := bind_eq_ok.mp h
  obtain rfl := Except.ok.inj hget
  obtain ⟨td, htd, h⟩ := bind_eq_ok.mp h
  obtain rfl := Except.ok.inj h
  obtain ⟨hkeys, hreads⟩ := hclient.getSamples htd hids hnd
  have hlength : ((materialize td self.padValueDict
      (batch.extraInfo.globalForwardPadSeqlen.getD 0)).head?.map fun c => c.2.rows.length).getD 0 =
        batch.sampleIds.length := by
    cases td with
    | nil => exact absurd hkeys.symm hne
    | cons field td =>
      have hrows := hreads field.1 field.2 (by rw [lookup_cons, if_pos rfl])
      have hlen : field.2.rows.length = batch.sampleIds.length := by
        simpa using congrArg List.length hrows
      simp [materialize, rows_materializeLeaf, hlen]
  rw [rowsOf, hlength]
  refine List.ext_getElem? fun i => ?_
  rw [List.getElem?_map, List.getElem?_map]
  rcases lt_or_ge i batch.sampleIds.length with hi | hi
  · obtain ⟨sid, hsid⟩ : ∃ sid, batch.sampleIds[i]? = some sid := ⟨_, List.getElem?_eq_getElem hi⟩
    rw [List.getElem?_range hi, hsid, Option.map_some, Option.map_some, Option.some_inj]
    funext key
    rw [ownRow, hfields, Option.getD_some]
    by_cases hkey : key ∈ fields
    · obtain ⟨leaf, hleaf⟩ := exists_lookup (hkeys.symm ▸ hkey)
      have hrows := hreads key leaf hleaf
      have hwidths : leaf.rows.map Tensor.width = batch.sampleIds.map fun sid =>
          ((read store batch.partitionId sid key).map Tensor.width).getD 0 := by
        have hmap := congrArg (List.map fun o => (o.map Tensor.width).getD 0) hrows
        simpa [List.map_map, Function.comp_def] using hmap
      rw [if_pos hkey, lookup_materialize hleaf, Option.bind_some, rows_materializeLeaf,
        List.getElem?_map, getElem?_of_map_some hrows hsid, hwidths]
      rfl
    · have hnone : (materialize td self.padValueDict
          (batch.extraInfo.globalForwardPadSeqlen.getD 0)).lookup key = none := by
        rw [materialize, lookup_map td fun key val => materializeLeaf
          ((self.padValueDict.lookup key).getD 0)
          (batch.extraInfo.globalForwardPadSeqlen.getD 0) val]
        cases hlookup : td.lookup key with
        | none => rfl
        | some leaf => exact (hkey (hkeys ▸ List.mem_map_of_mem (mem_of_lookup hlookup))).elim
      rw [if_neg hkey, hnone, Option.bind_none]
  · rw [List.getElem?_eq_none (by simpa using hi), List.getElem?_eq_none hi]
    rfl

/-! ## Laying out the rows -/

/-- The driver sent a plan. -/
def DriverPlanned (batch : KVBatchMeta) : Prop :=
  batch.extraInfo.microBatchIndices.isSome ∧ batch.extraInfo.microBatchLengths.isSome

instance (batch : KVBatchMeta) : Decidable (DriverPlanned batch) :=
  inferInstanceAs (Decidable (_ ∧ _))

/-- The order in which a worker lays out rows of the given lengths. -/
def layout (self : TQWorker α σ) (batch : KVBatchMeta) (lengths : List ℕ) : List ℕ :=
  if DriverPlanned batch then List.range lengths.length
  else
    let (packing, dynamic) := (self.cfg.map PolicyConfig.workerPackingArgs).getD (none, none)
    dispatchOrder lengths self.rand 1 lengths.length packing dynamic

/-- One contiguous shard keeps the order. -/
theorem dispatchOrder_one (lengths : List ℕ) (rand : Shuffle) :
    dispatchOrder lengths rand 1 lengths.length none none = List.range lengths.length := by
  rcases Nat.eq_zero_or_pos lengths.length with hzero | hpos
  · simp [dispatchOrder, contiguousOrder, hzero]
  · simp [dispatchOrder, contiguousOrder, Nat.div_self hpos, List.range_eq_range']

/-- One shard of dynamic batching holds the rows sorted by their lengths. -/
theorem dispatchOrder_dynamic (lengths : List ℕ) (rand : Shuffle) (cfg : DynamicConfig) :
    dispatchOrder lengths rand 1 lengths.length none (some cfg) =
      (List.range lengths.length).insertionSort fun i j =>
        (lengths[i]?).getD 0 ≤ (lengths[j]?).getD 0 := by
  rcases Nat.eq_zero_or_pos lengths.length with hzero | hpos
  · simp [dispatchOrder, dynamicOrder, contiguousOrder, hzero]
  · have hone : lengths.length / lengths.length = 1 := Nat.div_self hpos
    simp only [dispatchOrder, dynamicOrder, contiguousOrder, hone, List.range_one,
      List.flatMap_singleton, Nat.zero_mul, Nat.zero_add, Nat.add_zero, Nat.div_one, List.map_id',
      stride_one, Option.map_id, id_eq, ← List.range_eq_range']
    refine select_range_of_length ?_
    rw [List.length_insertionSort, List.length_range]

/-- It keeps the order of the rows just if their lengths do not decrease. -/
theorem dispatchOrder_dynamic_eq_range_iff (lengths : List ℕ) (rand : Shuffle)
    (cfg : DynamicConfig) :
    dispatchOrder lengths rand 1 lengths.length none (some cfg) = List.range lengths.length ↔
      lengths.Pairwise (· ≤ ·) := by
  have hpairwise : (List.range lengths.length).Pairwise
      (fun i j => (lengths[i]?).getD 0 ≤ (lengths[j]?).getD 0) ↔ lengths.Pairwise (· ≤ ·) := by
    conv_rhs => rw [← select_range lengths, select_eq_map_getD (by simp) 0, List.pairwise_map]
    simp
  rw [dispatchOrder_dynamic, ← hpairwise]
  constructor
  · intro hrange
    rw [← hrange]
    exact List.pairwise_insertionSort _ _
  · exact List.Pairwise.insertionSort_eq

/-- A worker packs or batches dynamically, not both. -/
theorem workerPackingArgs_exclusive (cfg : PolicyConfig) :
    ¬(cfg.workerPackingArgs.1.isSome ∧ cfg.workerPackingArgs.2.isSome) := by
  obtain ⟨dynamic, packing, multiple⟩ := cfg
  cases packing <;> cases dynamic <;> simp [PolicyConfig.workerPackingArgs]

omit [Zero α] in
/-- A worker lays out the rows it fetched in the order of `layout`. -/
theorem rows_attachOrRepackPackMetadata {prepared : BatchedDataDict (Row α)}
    (h : self.attachOrRepackPackMetadata data batch = .ok prepared) :
    let order := layout self batch ((rowsOf data).map (inputLengths self.intOf))
    prepared.rows = select (rowsOf data) order ∧ order.Perm (List.range (rowsOf data).length) := by
  have hkept : rowsOf data = select (rowsOf data)
      (List.range ((rowsOf data).map (inputLengths self.intOf)).length) := by
    rw [List.length_map, select_range]
  by_cases hplan : DriverPlanned batch
  · obtain ⟨hindices, hlengths⟩ := hplan
    obtain ⟨indices, hindices⟩ := Option.isSome_iff_exists.mp hindices
    obtain ⟨lengths, hlengths⟩ := Option.isSome_iff_exists.mp hlengths
    simp only [TQWorker.attachOrRepackPackMetadata, hindices, hlengths] at h
    obtain rfl := Except.ok.inj h
    rw [layout, if_pos (by simp [DriverPlanned, hindices, hlengths])]
    exact ⟨hkept, by rw [List.length_map]⟩
  · have hprep : self.applyPackingPrep data = .ok prepared := by
      rw [TQWorker.attachOrRepackPackMetadata] at h
      split at h
      case h_1 hindices hlengths => simp [DriverPlanned, hindices, hlengths] at hplan
      case h_2 => exact h
    rw [layout, if_neg hplan]
    simp only [TQWorker.applyPackingPrep] at hprep
    cases hargs : (self.cfg.map PolicyConfig.workerPackingArgs).getD (none, none) with
    | mk packing dynamic =>
    rw [hargs] at hprep
    split at hprep
    case h_1 heq =>
      obtain ⟨rfl, rfl⟩ := Prod.mk.inj heq
      obtain rfl := Except.ok.inj hprep
      simp only [dispatchOrder_one]
      exact ⟨hkept, by rw [List.length_map]⟩
    case h_2 heq =>
      obtain ⟨rfl, rfl⟩ := Prod.mk.inj heq
      obtain ⟨-, -, hprep⟩ := bind_eq_ok.mp hprep
      obtain ⟨inputIds, -, hprep⟩ := bind_eq_ok.mp hprep
      obtain ⟨⟨sharded, order⟩, hshard, hprep⟩ := bind_eq_ok.mp hprep
      have hboth : ¬(packing.isSome ∧ dynamic.isSome) := by
        cases hcfg : self.cfg with
        | none =>
          rw [hcfg] at hargs
          obtain ⟨rfl, rfl⟩ := Prod.mk.inj hargs
          simp
        | some cfg =>
          rw [hcfg, Option.map_some, Option.getD_some] at hargs
          have hexclusive := workerPackingArgs_exclusive cfg
          rwa [hargs] at hexclusive
      -- the only shard holds all rows
      have hone := length_sharded hshard
      have hrows := rows_sharded (inputLengths self.intOf) (fun _ => inputIds.width) hboth hshard
      obtain ⟨first, rfl⟩ := List.length_eq_one_iff.mp hone
      obtain rfl : first = prepared := Except.ok.inj hprep
      simpa using hrows

/-! ## Writing back -/

/-- What is stored of a row of log probabilities: the part of the recorded length, when the result
is wide enough for all of these. -/
def storedLogprobs (lens : List ℕ) (seqlen len : ℕ) (t : Tensor α) : Tensor α :=
  if longest lens ≤ seqlen then t.truncate len else t

omit [Zero α] in
theorem packJaggedFields_prevLogprobs {t : Rect α} {seqlen : ℕ} {lens : List ℕ}
    (hshape : t.rowShape = [seqlen]) (hlen : t.rows.length = lens.length) (hpos : 0 < lens.length) :
    ∃ leaf, packJaggedFields [("prev_logprobs", t)] (some lens) tokenAlignedFields =
        .ok [("prev_logprobs", leaf)] ∧ leaf.rows.length = lens.length ∧
      ∀ (i : ℕ) row len, t.rows[i]? = some row → lens[i]? = some len →
        leaf.rows[i]? = some (storedLogprobs lens seqlen len row) := by
  obtain ⟨leaf, hleaf, hrows⟩ := packField_ok (f := "prev_logprobs") hlen hpos
  have hlength : leaf.rows.length = lens.length := hrows ▸ length_wireRows hlen
  refine ⟨leaf, ?_, hlength, fun i row len hrow hl => ?_⟩
  · simp only [packJaggedFields, List.mapM_cons, List.mapM_nil, hleaf, bind, Except.bind, pure,
      Except.pure, tensorDict]
    exact if_pos (by simpa using hlength)
  · have htoken : PerToken "prev_logprobs" t lens ↔ longest lens ≤ seqlen := by
      simp [PerToken, tokenAlignedFields, Rect.dim, Rect.width, hshape]
    rw [hrows, wireRows, storedLogprobs]
    by_cases hwide : longest lens ≤ seqlen
    · have hpair : (t.rows.zip lens)[i]? = some (row, len) :=
        List.getElem?_zip_eq_some.mpr ⟨hrow, hl⟩
      rw [if_pos (htoken.mpr hwide), if_pos hwide, List.getElem?_map, hpair, Option.map_some]
    · rw [if_neg (mt htoken.mp hwide), if_neg hwide, hrow]

/-- The metadata of a rank: distinct samples with recorded lengths, and the fields to fetch. -/
structure RankMeta (batch : KVBatchMeta) (fields : List String) (lens : List ℕ) : Prop where
  fields_eq : batch.fields = some fields
  fields_nodup : fields.Nodup
  fields_ne : fields ≠ []
  ids_nodup : batch.sampleIds.Nodup
  lens_eq : batch.sequenceLengths = some lens
  length_lens : lens.length = batch.sampleIds.length

omit [Zero α] in
/-- Encoding keeps the fields and checks their rows. -/
theorem packJaggedFields_shape {fields : Columns α} {lens : List ℕ} {aligned : List String}
    {td : TensorDict α} (h : packJaggedFields fields (some lens) aligned = .ok td) :
    td.map Prod.fst = fields.map Prod.fst ∧
      ∀ field ∈ td, field.2.rows.length = lens.length := by
  obtain ⟨packed, hpacked, h⟩ := bind_eq_ok.mp h
  rw [tensorDict] at h
  split at h
  case isTrue hrows =>
    obtain rfl := Except.ok.inj h
    exact ⟨keys_of_mapM packField_key hpacked, hrows⟩
  case isFalse => cases h

/-- A rank that returned wrote its result and nothing else. -/
theorem written_of_getLogprobsPresharded {seqlen : ℕ} {fields : List String} {lens : List ℕ}
    {store' : σ} (hclient : StoreReads client read) (hdp : self.dpClient = some client)
    (hleader : self.isReplicaLeader = true) (hmeta : RankMeta batch fields lens)
    {f : Row α → Fin seqlen → α} (h : self.getLogprobsPresharded f store batch = .ok store') :
    ∃ data prepared td, self.fetch store batch = .ok data ∧
      self.attachOrRepackPackMetadata data batch = .ok prepared ∧
      td.map Prod.fst = ["prev_logprobs"] ∧
      packJaggedFields [("prev_logprobs", TQWorker.getLogprobs f prepared)] (some lens)
        tokenAlignedFields = .ok td ∧
      Written client read batch.partitionId batch.sampleIds td store store' := by
  obtain ⟨data, hfetch, h⟩ := bind_eq_ok.mp h
  obtain ⟨prepared, hprep, h⟩ := bind_eq_ok.mp h
  have hnot : ¬((!self.isReplicaLeader) = true ∨
      [("prev_logprobs", TQWorker.getLogprobs f prepared)] = []) := by simp [hleader]
  simp only [TQWorker.writeBackResultField, hdp, TQWorker.writeBack, if_neg hnot,
    TQWorker.requireDpClient] at h
  split at h
  case isTrue => exact nomatch h
  case isFalse =>
    obtain ⟨_, hget, h⟩ := bind_eq_ok.mp h
    obtain rfl := Except.ok.inj hget
    rw [TQWorker.writeColumns, if_neg (List.cons_ne_nil _ _), hmeta.lens_eq] at h
    obtain ⟨td, hpack, hput⟩ := bind_eq_ok.mp h
    obtain ⟨hkeys, hrows⟩ := packJaggedFields_shape hpack
    rw [hmeta.length_lens] at hrows
    exact ⟨data, prepared, td, hfetch, hprep, hkeys, hpack, hclient.putSamples hmeta.ids_nodup
      (by rw [hkeys]; exact List.nodup_singleton _) hrows hput⟩

/-- What a rank that prepared its rows writes: row `i` of its result under id `i`. -/
theorem getLogprobsPresharded_written {seqlen : ℕ} {fields : List String} {lens : List ℕ}
    {prepared : BatchedDataDict (Row α)} (hclient : StoreReads client read)
    (hdp : self.dpClient = some client) (hleader : self.isReplicaLeader = true)
    (hmeta : RankMeta batch fields lens) (hids : batch.sampleIds ≠ [])
    (hfetch : self.fetch store batch = .ok data)
    (hprep : self.attachOrRepackPackMetadata data batch = .ok prepared)
    (f : Row α → Fin seqlen → α) :
    ∃ store' td, self.getLogprobsPresharded f store batch = .ok store' ∧
      td.map Prod.fst = ["prev_logprobs"] ∧
      Written client read batch.partitionId batch.sampleIds td store store' ∧
      ∀ (i : ℕ) sid len row, batch.sampleIds[i]? = some sid → lens[i]? = some len →
        prepared.rows[i]? = some row → read store' batch.partitionId sid "prev_logprobs" =
          some (storedLogprobs lens seqlen len (TQWorker.rowLogprobs f row)) := by
  have hrows := rowsOf_fetch hclient hdp hmeta.fields_eq hmeta.fields_nodup hmeta.fields_ne hids
    hfetch
  have hlength : (rowsOf data).length = batch.sampleIds.length := by rw [hrows, List.length_map]
  obtain ⟨hlayout, hperm⟩ := rows_attachOrRepackPackMetadata hprep
  have hprepared : prepared.rows.length = batch.sampleIds.length := by
    rw [hlayout, (select_perm hperm).length_eq, hlength]
  have hresult : (TQWorker.getLogprobs f prepared).rows.length = lens.length := by
    rw [TQWorker.getLogprobs, List.length_map, hprepared, hmeta.length_lens]
  have hshape : (TQWorker.getLogprobs f prepared).rowShape = [seqlen] := rfl
  obtain ⟨leaf, hpack, hleaf, hstored⟩ := packJaggedFields_prevLogprobs hshape hresult
    (hmeta.length_lens ▸ List.length_pos_iff.mpr hids)
  obtain ⟨got, hgot⟩ : ∃ got, client.getSamples store batch.sampleIds batch.partitionId fields =
      .ok got := by
    simp only [TQWorker.fetch, TQWorker.requireDpClient, hdp, hmeta.fields_eq] at hfetch
    obtain ⟨_, hget, hfetch⟩ := bind_eq_ok.mp hfetch
    obtain rfl := Except.ok.inj hget
    obtain ⟨got, hgot, -⟩ := bind_eq_ok.mp hfetch
    exact ⟨got, hgot⟩
  have hbatch : ∀ field ∈ [("prev_logprobs", leaf)],
      field.2.rows.length = batch.sampleIds.length := by
    simpa [hmeta.length_lens] using hleaf
  obtain ⟨store', hput⟩ := hclient.canPut none (by simp) hbatch hids hgot
  have hwritten := hclient.putSamples hmeta.ids_nodup (by simp) hbatch hput
  refine ⟨store', _, ?_, rfl, hwritten, fun i sid len row hsid hlen hrow => ?_⟩
  · have hmatch : ¬(TQWorker.getLogprobs f prepared).rows.length ≠ batch.sampleIds.length := by
      rw [hresult, hmeta.length_lens]
      exact not_not.mpr rfl
    have hnot : ¬((!self.isReplicaLeader) = true ∨
        [("prev_logprobs", TQWorker.getLogprobs f prepared)] = []) := by simp [hleader]
    simp only [TQWorker.getLogprobsPresharded, hfetch, hprep, bind, Except.bind,
      TQWorker.writeBackResultField, hdp, if_neg hmatch, TQWorker.writeBack, if_neg hnot,
      TQWorker.requireDpClient, TQWorker.writeColumns, hmeta.lens_eq, hpack]
    simpa using hput
  · have hval : (TQWorker.getLogprobs f prepared).rows[i]? = some (TQWorker.rowLogprobs f row) := by
      rw [TQWorker.getLogprobs, List.getElem?_map, hrow, Option.map_some]
    rw [hwritten.written i sid "prev_logprobs" leaf hsid (by simp), hstored i _ len hval hlen]

/-! ## Aligned results -/

/-- Every sample of a rank has the log probabilities of its own row. -/
def Aligned {seqlen : ℕ} (read : Reading α σ) (self : TQWorker α σ) (f : Row α → Fin seqlen → α)
    (batch : KVBatchMeta) (store store' : σ) : Prop :=
  ∀ (i : ℕ) sid len, batch.sampleIds[i]? = some sid →
    (batch.sequenceLengths.getD [])[i]? = some len →
    read store' batch.partitionId sid "prev_logprobs" =
      some (storedLogprobs (batch.sequenceLengths.getD []) seqlen len
        (TQWorker.rowLogprobs f (ownRow read store batch self.padValueDict sid)))

/-- The layout of a worker keeps every row of which something is stored in its place. -/
def KeepsPlaces (read : Reading α σ) (self : TQWorker α σ) (batch : KVBatchMeta) (store : σ)
    (seqlen : ℕ) : Prop :=
  let rows := batch.sampleIds.map (ownRow read store batch self.padValueDict)
  let lens := batch.sequenceLengths.getD []
  ∀ (i : ℕ) row len, rows[i]? = some row → lens[i]? = some len →
    0 < (if longest lens ≤ seqlen then len else seqlen) →
    (select rows (layout self batch (rows.map (inputLengths self.intOf))))[i]? = some row

omit [Zero α] in
/-- Results that are stored alike begin alike, if something is stored. -/
theorem eq_of_storedLogprobs_eq {seqlen len : ℕ} {lens : List ℕ} {f : Row α → Fin seqlen → α}
    {row row' : Row α} (hlen : 0 < (if longest lens ≤ seqlen then len else seqlen))
    (hseqlen : 0 < seqlen)
    (h : storedLogprobs lens seqlen len (TQWorker.rowLogprobs f row) =
      storedLogprobs lens seqlen len (TQWorker.rowLogprobs f row')) :
    f row ⟨0, hseqlen⟩ = f row' ⟨0, hseqlen⟩ := by
  have hhead : ∀ row : Row α, (storedLogprobs lens seqlen len
      (TQWorker.rowLogprobs f row)).data.head? = some (f row ⟨0, hseqlen⟩) := by
    intro row
    obtain ⟨n, rfl⟩ := Nat.exists_eq_succ_of_ne_zero hseqlen.ne'
    rw [storedLogprobs]
    split
    case isTrue hwide =>
      rw [if_pos hwide] at hlen
      obtain ⟨m, rfl⟩ := Nat.exists_eq_succ_of_ne_zero hlen.ne'
      simp [TQWorker.rowLogprobs, Tensor.vector, Tensor.truncate, List.ofFn_succ]
    case isFalse => simp [TQWorker.rowLogprobs, Tensor.vector, List.ofFn_succ]
  exact Option.some.inj ((hhead row).symm.trans ((congrArg (·.data.head?) h).trans (hhead row')))

omit [Zero α] in
/-- If nothing is stored, all results are stored alike. -/
theorem storedLogprobs_eq {seqlen len : ℕ} {lens : List ℕ} (f : Row α → Fin seqlen → α)
    (hlen : ¬0 < (if longest lens ≤ seqlen then len else seqlen)) (row row' : Row α) :
    storedLogprobs lens seqlen len (TQWorker.rowLogprobs f row) =
      storedLogprobs lens seqlen len (TQWorker.rowLogprobs f row') := by
  rw [storedLogprobs, storedLogprobs]
  split at hlen
  case isTrue hwide =>
    obtain rfl : len = 0 := by omega
    rw [if_pos hwide, if_pos hwide]
    simp [TQWorker.rowLogprobs, Tensor.vector, Tensor.truncate]
  case isFalse hwide =>
    obtain rfl : seqlen = 0 := by omega
    rw [if_neg hwide, if_neg hwide]
    simp [TQWorker.rowLogprobs]

/-- The prepared rows of a rank are its own rows in the order of the layout. -/
theorem rows_prepared {fields : List String} {lens : List ℕ} {prepared : BatchedDataDict (Row α)}
    (hclient : StoreReads client read) (hdp : self.dpClient = some client)
    (hmeta : RankMeta batch fields lens) (hids : batch.sampleIds ≠ [])
    (hfetch : self.fetch store batch = .ok data)
    (hprep : self.attachOrRepackPackMetadata data batch = .ok prepared) :
    prepared.rows.length = batch.sampleIds.length ∧
      let rows := batch.sampleIds.map (ownRow read store batch self.padValueDict)
      prepared.rows = select rows (layout self batch (rows.map (inputLengths self.intOf))) := by
  have hrows := rowsOf_fetch hclient hdp hmeta.fields_eq hmeta.fields_nodup hmeta.fields_ne hids
    hfetch
  obtain ⟨hlayout, hperm⟩ := rows_attachOrRepackPackMetadata hprep
  refine ⟨?_, hrows ▸ hlayout⟩
  rw [hlayout, (select_perm hperm).length_eq, hrows, List.length_map]

/-- A rank whose layout keeps the places of the rows writes back aligned. -/
theorem aligned_of_keepsPlaces {seqlen : ℕ} {fields : List String} {lens : List ℕ} {store' : σ}
    (hclient : StoreReads client read) (hdp : self.dpClient = some client)
    (hleader : self.isReplicaLeader = true) (hmeta : RankMeta batch fields lens)
    (hkeeps : KeepsPlaces read self batch store seqlen) {f : Row α → Fin seqlen → α}
    (h : self.getLogprobsPresharded f store batch = .ok store') :
    Aligned read self f batch store store' := by
  intro i sid len hsid hlen
  have hids : batch.sampleIds ≠ [] := List.ne_nil_of_mem (List.mem_of_getElem? hsid)
  have hlens : batch.sequenceLengths.getD [] = lens := by rw [hmeta.lens_eq, Option.getD_some]
  obtain ⟨data, prepared, -, hfetch, hprep, -⟩ :=
    written_of_getLogprobsPresharded hclient hdp hleader hmeta h
  obtain ⟨store'', -, hrun, -, -, hwritten⟩ :=
    getLogprobsPresharded_written hclient hdp hleader hmeta hids hfetch hprep f
  obtain rfl : store'' = store' := Except.ok.inj (hrun.symm.trans h)
  obtain ⟨hlength, hlayout⟩ := rows_prepared hclient hdp hmeta hids hfetch hprep
  obtain ⟨row', hrow'⟩ : ∃ row', prepared.rows[i]? = some row' :=
    ⟨_, List.getElem?_eq_getElem (hlength ▸ (List.getElem?_eq_some_iff.mp hsid).1)⟩
  rw [hwritten i sid len row' hsid (hlens ▸ hlen) hrow', hlens]
  have hrow : (batch.sampleIds.map (ownRow read store batch self.padValueDict))[i]? =
      some (ownRow read store batch self.padValueDict sid) := by
    rw [List.getElem?_map, hsid, Option.map_some]
  by_cases hstored : 0 < (if longest lens ≤ seqlen then len else seqlen)
  · have hkept := hkeeps i _ len hrow hlen (by rwa [hlens])
    rw [← hlayout, hrow'] at hkept
    rw [Option.some.inj hkept]
  · rw [storedLogprobs_eq f hstored row' _]

/-- A rank writes back aligned for every function of the rows just if its layout keeps the places
of the rows. -/
theorem aligned_iff_keepsPlaces [Nontrivial α] (seqlen : ℕ) {fields : List String} {lens : List ℕ}
    {prepared : BatchedDataDict (Row α)} (hclient : StoreReads client read)
    (hdp : self.dpClient = some client) (hleader : self.isReplicaLeader = true)
    (hmeta : RankMeta batch fields lens) (hfetch : self.fetch store batch = .ok data)
    (hprep : self.attachOrRepackPackMetadata data batch = .ok prepared) :
    (∀ (f : Row α → Fin seqlen → α) store', self.getLogprobsPresharded f store batch = .ok store' →
        Aligned read self f batch store store') ↔
      KeepsPlaces read self batch store seqlen := by
  refine ⟨fun haligned i row len hrow hlen hstored => ?_, fun hkeeps f store' hrun =>
    aligned_of_keepsPlaces hclient hdp hleader hmeta hkeeps hrun⟩
  have hlens : batch.sequenceLengths.getD [] = lens := by rw [hmeta.lens_eq, Option.getD_some]
  rw [List.getElem?_map] at hrow
  obtain ⟨sid, hsid, rfl⟩ := Option.map_eq_some_iff.mp hrow
  have hids : batch.sampleIds ≠ [] := List.ne_nil_of_mem (List.mem_of_getElem? hsid)
  obtain ⟨hlength, hlayout⟩ := rows_prepared hclient hdp hmeta hids hfetch hprep
  obtain ⟨row', hrow'⟩ : ∃ row', prepared.rows[i]? = some row' :=
    ⟨_, List.getElem?_eq_getElem (hlength ▸ (List.getElem?_eq_some_iff.mp hsid).1)⟩
  rw [hlens] at hlen hstored
  rw [← hlayout]
  by_contra hmoved
  have hdiffer : row' ≠ ownRow read store batch self.padValueDict sid :=
    fun heq => hmoved (heq ▸ hrow')
  have hseqlen : 0 < seqlen := by
    split at hstored
    case isTrue hwide =>
      exact hstored.trans_le ((le_longest (List.mem_of_getElem? hlen)).trans hwide)
    case isFalse => exact hstored
  -- a function that tells the two rows apart
  obtain ⟨a, b, hab⟩ := exists_pair_ne α
  classical
  let f : Row α → Fin seqlen → α := fun r _ =>
    if r = ownRow read store batch self.padValueDict sid then a else b
  obtain ⟨store', td, hrun, -, -, hwritten⟩ :=
    getLogprobsPresharded_written hclient hdp hleader hmeta hids hfetch hprep f
  have hown := haligned f store' hrun i sid len hsid (hlens.symm ▸ hlen)
  rw [hwritten i sid len row' hsid hlen hrow', hlens] at hown
  have hsame := eq_of_storedLogprobs_eq hstored hseqlen (Option.some.inj hown)
  simp only [f, if_neg hdiffer, if_true] at hsame
  exact hab hsame.symm

/-- A layout that is the order of the rows keeps their places. -/
theorem keepsPlaces_of_layout (seqlen : ℕ)
    (h : ∀ lengths, lengths = (batch.sampleIds.map
        (ownRow read store batch self.padValueDict)).map (inputLengths self.intOf) →
      layout self batch lengths = List.range lengths.length) :
    KeepsPlaces read self batch store seqlen := by
  intro i row len hrow _ _
  rw [h _ rfl, List.length_map, select_range]
  exact hrow

/-- A worker keeps the places of its rows with the plan of the driver, and when it packs nothing
itself. -/
theorem keepsPlaces_of_planned (seqlen : ℕ)
    (h : DriverPlanned batch ∨
      (self.cfg.map PolicyConfig.workerPackingArgs).getD (none, none) = (none, none)) :
    KeepsPlaces read self batch store seqlen := by
  refine keepsPlaces_of_layout seqlen fun lengths _ => ?_
  by_cases hplan : DriverPlanned batch
  · rw [layout, if_pos hplan]
  · rw [layout, if_neg hplan, h.resolve_left hplan]
    exact dispatchOrder_one lengths self.rand

/-- With dynamic batching of its own it keeps them when their lengths do not decrease. -/
theorem keepsPlaces_of_sorted (seqlen : ℕ) {cfg : DynamicConfig}
    (hargs : (self.cfg.map PolicyConfig.workerPackingArgs).getD (none, none) = (none, some cfg))
    (hsorted : ((batch.sampleIds.map (ownRow read store batch self.padValueDict)).map
      (inputLengths self.intOf)).Pairwise (· ≤ ·)) :
    KeepsPlaces read self batch store seqlen := by
  refine keepsPlaces_of_layout seqlen fun lengths hlengths => ?_
  by_cases hplan : DriverPlanned batch
  · rw [layout, if_pos hplan]
  · rw [layout, if_neg hplan, hargs]
    exact (dispatchOrder_dynamic_eq_range_iff lengths self.rand cfg).mpr (hlengths ▸ hsorted)

end Rank

end NemoRL.DataPlane
