import Mathlib
import NemoRL.Distributed.PackedSharding
import NemoRL.Megatron.PackedLayout

/-!
# Packing under pipeline parallelism

All packed sequences of a step have the same length under pipeline parallelism. The length
comes from the micro-batch lengths that sharding recorded, which are sums of lengths that are
rounded up with the pad multiple of the policy. Packing rounds up with the same multiple, so
that every micro-batch fits, and what is left over goes to its last sequence.

## Main definitions

* `PacksTo` — a packed micro-batch of a given length.

## Main results

* `getPackSequenceParametersForMegatron_ok` — the parameters.
* `packSequencesForMegatron_packsTo` — packing with the parameters.
* `pipelinePacking_fits` — every micro-batch of a step.
-/

namespace NemoRL.Megatron

open Lib Distributed Data.Packing

/-! ## The parameters -/

theorem dvd_roundUp (value multiple : ℕ) : multiple ∣ roundUp value multiple :=
  Nat.dvd_mul_left _ _

theorem MegatronConfig.minimumPadFactor_pos (cfg : MegatronConfig) : 0 < cfg.minimumPadFactor := by
  rw [minimumPadFactor]
  refine Nat.mul_pos ?_ ?_
  · split <;> omega
  · split
    · rename_i h
      simp only [Bool.and_eq_true, decide_eq_true_eq] at h
      omega
    · omega

/-- A sequence is split over the context-parallel ranks. -/
theorem MegatronConfig.cp_dvd_minimumPadFactor {cfg : MegatronConfig}
    (h : 1 < cfg.contextParallelSize) : cfg.contextParallelSize * 2 ∣ cfg.minimumPadFactor := by
  rw [minimumPadFactor, if_pos h]
  exact Nat.dvd_mul_right _ _

/-- What a context-parallel rank holds is split over the tensor-parallel ranks. -/
theorem MegatronConfig.tp_dvd_minimumPadFactor {cfg : MegatronConfig}
    (htp : 0 < cfg.tensorModelParallelSize) (hcp : 0 < cfg.contextParallelSize)
    (hsp : cfg.sequenceParallel = true) :
    cfg.tensorModelParallelSize * cfg.contextParallelSize ∣ cfg.minimumPadFactor := by
  rw [minimumPadFactor, hsp, Bool.and_true, Nat.mul_comm]
  refine Nat.mul_dvd_mul ?_ ?_
  · by_cases h : cfg.contextParallelSize > 1
    · rw [if_pos h]
      exact Nat.dvd_mul_right _ _
    · rw [if_neg h, show cfg.contextParallelSize = 1 by omega]
  · by_cases h : cfg.tensorModelParallelSize > 1
    · rw [if_pos (decide_eq_true h)]
    · rw [if_neg (by simpa using h), show cfg.tensorModelParallelSize = 1 by omega]

/-- The parameters for a configuration, a pad multiple and the longest micro-batch. -/
structure ParametersFor (cfg : MegatronConfig) (padMultiple maxSeqLen : ℕ)
    (params : PackSequenceParameters) : Prop where
  individual : params.padIndividualSeqsToMultipleOf = padMultiple
  minimum : cfg.minimumPadFactor ∣ padMultiple
  multiple : params.padPackedSeqToMultipleOf = 1 ∨
    cfg.minimumPadFactor ∣ params.padPackedSeqToMultipleOf
  multiple_pos : 0 < params.padPackedSeqToMultipleOf
  padTo : 1 < cfg.pipelineModelParallelSize →
    params.padPackedSeqTo = some (roundUp maxSeqLen params.padPackedSeqToMultipleOf)

/-- What the function of the parameters returns. -/
theorem getPackSequenceParametersForMegatron_ok {cfg : MegatronConfig}
    {padMultiple maxSeqLen : ℕ} {params : PackSequenceParameters}
    (h : getPackSequenceParametersForMegatron cfg padMultiple maxSeqLen = .ok params) :
    ParametersFor cfg padMultiple maxSeqLen params := by
  rw [getPackSequenceParametersForMegatron] at h
  by_cases hmod : padMultiple % cfg.minimumPadFactor ≠ 0
  · rw [if_pos hmod] at h
    exact nomatch h
  rw [if_neg hmod] at h
  obtain ⟨-, -, h⟩ := bind_eq_ok.mp h
  obtain ⟨divisor, -, h⟩ := bind_eq_ok.mp h
  have hmin : cfg.minimumPadFactor ∣ padMultiple := Nat.dvd_of_mod_eq_zero (by simpa using hmod)
  set multiple := if divisor > 1 then divisor * cfg.minimumPadFactor else 1 with hmultiple
  have hor : multiple = 1 ∨ cfg.minimumPadFactor ∣ multiple := by
    rw [hmultiple]
    split
    · exact .inr (Nat.dvd_mul_left _ _)
    · exact .inl rfl
  have hpos : 0 < multiple := by
    rw [hmultiple]
    split
    · exact Nat.mul_pos (by omega) cfg.minimumPadFactor_pos
    · exact Nat.one_pos
  by_cases hpp : cfg.pipelineModelParallelSize > 1
  · rw [if_pos hpp, roundUpToMultiple_eq hpos] at h
    obtain rfl := Except.ok.inj h
    exact ⟨rfl, hmin, hor, hpos, fun _ => rfl⟩
  · rw [if_neg hpp] at h
    obtain rfl := Except.ok.inj h
    exact ⟨rfl, hmin, hor, hpos, fun hlt => absurd hlt hpp⟩

/-! ## Packing with the parameters -/

/-- A packed micro-batch of a given length. Every padded sequence holds its tokens and is
split over the context-parallel ranks, and the packed sequence is split over the
tensor-parallel ranks under sequence parallel. -/
structure PacksTo {T : Type} (cfg : MegatronConfig) (padTo : ℕ) (seqLengths : List ℕ)
    (packed : PackedSequences T) : Prop where
  length : packed.allInputIds.length = padTo
  rankLength : packed.packedInputIds.length * cfg.contextParallelSize = padTo
  difference : ∀ b start stop : ℕ, packed.cuSeqlensPadded[b]? = some start →
    packed.cuSeqlensPadded[b + 1]? = some stop → ∃ seqLen, seqLengths[b]? = some seqLen ∧
      start + seqLen ≤ stop ∧
      (1 < cfg.contextParallelSize → 2 * cfg.contextParallelSize ∣ stop - start)
  sequenceParallel : cfg.sequenceParallel = true →
    cfg.tensorModelParallelSize ∣ packed.allInputIds.length ∧
      cfg.tensorModelParallelSize ∣ packed.packedInputIds.length

section Pack
variable {cfg : MegatronConfig} {padMultiple maxSeqLen : ℕ} {params : PackSequenceParameters}
  {seqLengths : List ℕ}

theorem ParametersFor.needsPadding (h : ParametersFor cfg padMultiple maxSeqLen params)
    (hpp : 1 < cfg.pipelineModelParallelSize) : params.needsPadding = true := by
  simp [PackSequenceParameters.needsPadding, h.padTo hpp]

theorem ParametersFor.passesChecks (h : ParametersFor cfg padMultiple maxSeqLen params)
    (hpp : 1 < cfg.pipelineModelParallelSize) (hpad : 0 < padMultiple) (hne : seqLengths ≠ []) :
    PassesChecks params seqLengths := by
  refine ⟨?_, hne, fun _ => by rw [h.individual]; exact hpad⟩
  have hmod := Nat.mod_eq_zero_of_dvd (dvd_roundUp maxSeqLen params.padPackedSeqToMultipleOf)
  simp only [checkPadPackedSeqTo, h.padTo hpp, if_neg h.multiple_pos.ne', if_pos hmod]

theorem ParametersFor.fitsPadTo (h : ParametersFor cfg padMultiple maxSeqLen params)
    (hpp : 1 < cfg.pipelineModelParallelSize)
    (htotal : (seqLengths.map (roundUp · padMultiple)).sum ≤ maxSeqLen) :
    FitsPadTo params seqLengths := by
  intro padTo hpadTo
  rw [h.padTo hpp] at hpadTo
  obtain rfl := Option.some.inj hpadTo
  rw [paddedTotal, h.individual]
  exact htotal.trans (le_roundUp h.multiple_pos maxSeqLen)

theorem ParametersFor.paddedLengths_eq (h : ParametersFor cfg padMultiple maxSeqLen params)
    (hpp : 1 < cfg.pipelineModelParallelSize) :
    paddedLengths params seqLengths =
      extendLast (roundUp maxSeqLen params.padPackedSeqToMultipleOf -
        (seqLengths.map (roundUp · padMultiple)).sum)
        (seqLengths.map (roundUp · padMultiple)) := by
  simp only [paddedLengths, h.needsPadding hpp, if_true, paddedLengthsFrom, paddedTotal,
    h.individual, packedTotal, h.padTo hpp, Nat.zero_add]

/-- The padded sequences make up the length to pad to. -/
theorem ParametersFor.sum_paddedLengths (h : ParametersFor cfg padMultiple maxSeqLen params)
    (hpp : 1 < cfg.pipelineModelParallelSize) (hne : seqLengths ≠ [])
    (htotal : (seqLengths.map (roundUp · padMultiple)).sum ≤ maxSeqLen) :
    (paddedLengths params seqLengths).sum =
      roundUp maxSeqLen params.padPackedSeqToMultipleOf := by
  have hle := htotal.trans (le_roundUp h.multiple_pos maxSeqLen)
  rw [h.paddedLengths_eq hpp, sum_extendLast _ (by simpa using hne)]
  omega

/-- The length to pad to is split over the ranks. -/
theorem ParametersFor.dvd_padTo (h : ParametersFor cfg padMultiple maxSeqLen params)
    (hmax : cfg.minimumPadFactor ∣ maxSeqLen) :
    cfg.minimumPadFactor ∣ roundUp maxSeqLen params.padPackedSeqToMultipleOf := by
  rcases h.multiple with hone | hdvd
  · rw [hone, roundUp_one]
    exact hmax
  · exact hdvd.trans (dvd_roundUp _ _)

theorem dvd_sum_roundUp {d : ℕ} (hd : d ∣ padMultiple) (ns : List ℕ) :
    d ∣ (ns.map (roundUp · padMultiple)).sum := by
  induction ns with
  | nil => exact Nat.dvd_zero d
  | cons n ns ih =>
    rw [List.map_cons, List.sum_cons]
    exact Nat.dvd_add (hd.trans (dvd_roundUp n padMultiple)) ih

/-- Every padded sequence is split over the ranks, the last one too. -/
theorem ParametersFor.dvd_paddedLengths (h : ParametersFor cfg padMultiple maxSeqLen params)
    (hpp : 1 < cfg.pipelineModelParallelSize) (hmax : cfg.minimumPadFactor ∣ maxSeqLen) :
    ∀ n ∈ paddedLengths params seqLengths, cfg.minimumPadFactor ∣ n := by
  rw [h.paddedLengths_eq hpp]
  refine dvd_extendLast ?_ (Nat.dvd_sub (h.dvd_padTo hmax) (dvd_sum_roundUp h.minimum _))
  intro n hn
  obtain ⟨m, -, rfl⟩ := List.mem_map.mp hn
  exact h.minimum.trans (dvd_roundUp m padMultiple)

/-- Packing a micro-batch that is not longer than the longest one. -/
theorem packSequencesForMegatron_packsTo {T : Type} [Zero T] {inputIds : List (List T)}
    {cpRank : ℕ} (h : ParametersFor cfg padMultiple maxSeqLen params)
    (hpp : 1 < cfg.pipelineModelParallelSize) (htp : 0 < cfg.tensorModelParallelSize)
    (hrank : cpRank < cfg.contextParallelSize) (hpad : 0 < padMultiple) (hne : seqLengths ≠ [])
    (htotal : (seqLengths.map (roundUp · padMultiple)).sum ≤ maxSeqLen)
    (hmax : cfg.minimumPadFactor ∣ maxSeqLen)
    (hrows : List.Forall₂ (fun row seqLen => seqLen ≤ row.length) inputIds seqLengths) :
    ∃ packed, packSequencesForMegatron inputIds seqLengths params cpRank cfg.contextParallelSize =
        .ok packed ∧
      PacksTo cfg (roundUp maxSeqLen params.padPackedSeqToMultipleOf) seqLengths packed := by
  have hcp : 0 < cfg.contextParallelSize := by omega
  have hchecks : PassesChecks params seqLengths := h.passesChecks hpp hpad hne
  have hpadded := forall₂_le_paddedLengths hchecks
  have hdvd : ∀ n ∈ paddedLengths params seqLengths, cfg.minimumPadFactor ∣ n :=
    h.dvd_paddedLengths hpp hmax
  have hsum := h.sum_paddedLengths hpp hne htotal
  have hshard : cfg.contextParallelSize = 1 ∨ 1 < params.padIndividualSeqsToMultipleOf := by
    by_cases hone : 1 < cfg.contextParallelSize
    · have hle := Nat.le_of_dvd hpad ((cfg.cp_dvd_minimumPadFactor hone).trans h.minimum)
      rw [h.individual]
      omega
    · omega
  have hdivides : ∀ n ∈ paddedLengths params seqLengths, Divides cfg.contextParallelSize n := by
    intro n hn
    by_cases hone : 1 < cfg.contextParallelSize
    · exact .inr ((cfg.cp_dvd_minimumPadFactor hone).trans (hdvd n hn))
    · exact .inl (by omega)
  have hlens := lens_paddedParts 0 hrows hpadded
  have hlength : (paddedParts 0 inputIds seqLengths
      (paddedLengths params seqLengths)).flatten.length =
      roundUp maxSeqLen params.padPackedSeqToMultipleOf := by
    rw [List.length_flatten, hlens, hsum]
  have hrankLength := length_partsOnRank hlens hdivides hrank
  rw [hsum] at hrankLength
  refine ⟨_, packSequencesForMegatron_eq hchecks (h.fitsPadTo hpp htotal) hrows hcp hshard,
    hlength, hrankLength, fun b start stop hstart hstop => ?_, fun hsp => ?_⟩
  · have hlt : b < (paddedLengths params seqLengths).length := by
      have hb := (List.getElem?_eq_some_iff.mp hstop).1
      simpa using hb
    have hlt' : b < seqLengths.length := by
      rw [hpadded.length_eq]
      exact hlt
    rw [getElem?_cumulative 0 hlt.le, Option.some.injEq] at hstart
    rw [getElem?_cumulative 0 hlt, Option.some.injEq, List.sum_take_succ _ _ hlt] at hstop
    have hle : seqLengths[b] ≤ (paddedLengths params seqLengths)[b] :=
      (List.forall₂_iff_get.mp hpadded).2 b hlt' hlt
    refine ⟨seqLengths[b], List.getElem?_eq_getElem hlt', by omega, fun hone => ?_⟩
    have hdiff : stop - start = (paddedLengths params seqLengths)[b] := by omega
    rw [hdiff, Nat.mul_comm]
    exact (cfg.cp_dvd_minimumPadFactor hone).trans (hdvd _ (List.getElem_mem hlt))
  · have htpDvd := (cfg.tp_dvd_minimumPadFactor htp hcp hsp).trans (h.dvd_padTo hmax)
    refine ⟨?_, ?_⟩
    · rw [hlength]
      exact (Nat.dvd_mul_right _ _).trans htpDvd
    · rw [← hrankLength] at htpDvd
      exact Nat.dvd_of_mul_dvd_mul_right hcp htpDvd

end Pack

/-! ## The micro-batches of a step -/

section Step
variable {ρ : Type} {d data : BatchedDataDict ρ} {args : SequencePackingArgs ρ} {rand : Shuffle}
  {shards : ℕ} {batchSize : Option ℕ} {allowUneven : Bool}
  {sharded : List (BatchedDataDict ρ)} {order : Option (List ℕ)}

/-- The data of a step: a global batch of a shard, or a shard that is one global batch. -/
def IsStepOf (sharded : List (BatchedDataDict ρ)) (data : BatchedDataDict ρ) : Prop :=
  data ∈ sharded ∨ ∃ shard ∈ sharded, ∃ c batchSize, shard.getBatch c batchSize = .ok data

/-- The data of a step with the given bins. -/
def stepOf (rows : List ρ) (paddedLength : ρ → ℕ) (bins : List (List ℕ)) : BatchedDataDict ρ where
  rows := (bins.map (select rows)).flatten
  microBatchIndices := some [spans 0 (bins.map List.length)]
  microBatchLengths := some [bins.map fun bin => ((select rows bin).map paddedLength).sum]
  elemCountsPerGb := some [(bins.map List.length).sum]

/-- A shard whose micro-batches can be read is one global batch. -/
theorem exists_of_iterator {rows : List ρ} {paddedLength : ρ → ℕ} {bins : List (List (List ℕ))}
    {microbatches : List (BatchedDataDict ρ)}
    (h : (shardOf rows paddedLength bins).makeMicrobatchIteratorForPackableSequences =
      .ok microbatches) :
    ∃ chunk ∈ bins, shardOf rows paddedLength bins = stepOf rows paddedLength chunk := by
  cases bins with
  | nil => cases h
  | cons chunk rest =>
    cases rest with
    | nil => exact ⟨chunk, List.mem_singleton_self chunk, by simp [shardOf, stepOf]⟩
    | cons _ _ => cases h

/-- A global batch that can be read is one of the batches of the shard. -/
theorem exists_of_getBatch {rows : List ρ} {paddedLength : ρ → ℕ} {bins : List (List (List ℕ))}
    {c : ℕ} {batchSize : Option ℕ}
    (hlt : ∀ chunk ∈ bins, ∀ bin ∈ chunk, ∀ i ∈ bin, i < rows.length)
    (h : (shardOf rows paddedLength bins).getBatch c batchSize = .ok data) :
    ∃ chunk ∈ bins, data = stepOf rows paddedLength chunk := by
  cases hc : bins[c]? with
  | none =>
    have hcount : BatchedDataDict.getOrRaise
        (bins.map fun chunk => (chunk.map List.length).sum) c =
        .error ⟨.indexError, "list index out of range"⟩ := by
      simp [BatchedDataDict.getOrRaise, hc]
    simp [BatchedDataDict.getBatch, shardOf, hcount, bind, Except.bind] at h
  | some chunk =>
    rw [getBatch_shardOf paddedLength hc hlt] at h
    exact ⟨chunk, List.mem_of_getElem? hc, (Except.ok.inj h).symm⟩

/-- The micro-batches of a step are bins of the packer, with the sums of their padded
lengths. -/
theorem exists_bins {microbatches : List (BatchedDataDict ρ)}
    (hshard : d.shardByBatchSize rand shards batchSize allowUneven none (some args) =
      .ok (sharded, order)) (hdata : IsStepOf sharded data)
    (hraw : data.makeMicrobatchIteratorForPackableSequences = .ok microbatches) :
    ∃ bins, data = stepOf d.rows (paddedLengthOf args) bins ∧
      microbatches = bins.map (fun bin => { rows := select d.rows bin }) ∧
      (∀ bin ∈ bins, select d.rows bin ≠ []) := by
  obtain ⟨bs, chunks, -, hshards, hdvd, hbins, -, -, rfl, -⟩ := exists_shardOf hshard
  have hchunk : ∃ s < shards, ∃ chunk ∈ assigned bs shards chunks s,
      data = stepOf d.rows (paddedLengthOf args) chunk := by
    rcases hdata with hmem | ⟨shard, hmem, c, batchSize, hget⟩
    · obtain ⟨s, hs, rfl⟩ := List.mem_map.mp hmem
      obtain ⟨chunk, hchunk, heq⟩ := exists_of_iterator hraw
      exact ⟨s, List.mem_range.mp hs, chunk, hchunk, heq⟩
    · obtain ⟨s, hs, rfl⟩ := List.mem_map.mp hmem
      have hs := List.mem_range.mp hs
      obtain ⟨chunk, hchunk, heq⟩ :=
        exists_of_getBatch (lt_of_mem_assigned hbins hshards hdvd hs) hget
      exact ⟨s, hs, chunk, hchunk, heq⟩
  obtain ⟨s, hs, chunk, hmem, rfl⟩ := hchunk
  have hlt := lt_of_mem_assigned hbins hshards hdvd hs chunk hmem
  have hiter : BatchedDataDict.makeMicrobatchIteratorForPackableSequences
      (stepOf d.rows (paddedLengthOf args) chunk) =
      .ok (chunk.map fun bin => { rows := select d.rows bin }) := iterator_spans hlt (by simp)
  refine ⟨chunk, rfl, Except.ok.inj (hraw.symm.trans hiter), fun bin hbin hnil => ?_⟩
  -- a bin of the packer is not empty, and it holds positions of the batch
  have hlen : bin.length = 0 := by
    rw [← length_select (hlt bin hbin), hnil, List.length_nil]
  obtain rfl := List.length_eq_zero_iff.mp hlen
  obtain ⟨⟨packed, c⟩, hpacked, rfl⟩ := List.mem_map.mp hmem
  obtain ⟨bin, hbin, hempty⟩ := List.mem_map.mp hbin
  obtain rfl : bin = [] := List.map_eq_nil_iff.mp hempty
  exact hbins.nonempty (List.mem_of_getElem? (List.mem_zipIdx_iff_getElem?.mp hpacked))
    ((stride_sublist _ _ _).subset hbin)

/-- The longest micro-batch of a step. -/
theorem max?_of_stepOf {rows : List ρ} {paddedLength : ρ → ℕ} {bins : List (List ℕ)}
    {count longest : ℕ}
    (h : (stepOf rows paddedLength bins).getMicrobatchIteratorForPackableSequencesLen =
      .ok (count, longest)) :
    (bins.map fun bin => ((select rows bin).map paddedLength).sum).max? = some longest := by
  cases hmax : (bins.map fun bin => ((select rows bin).map paddedLength).sum).max? with
  | none =>
    simp [BatchedDataDict.getMicrobatchIteratorForPackableSequencesLen, stepOf,
      BatchedDataDict.getOrRaise, hmax, bind, Except.bind] at h
  | some longest' =>
    simp [BatchedDataDict.getMicrobatchIteratorForPackableSequencesLen, stepOf,
      BatchedDataDict.getOrRaise, hmax, bind, Except.bind, pure, Except.pure] at h
    exact congrArg some h.2

theorem mem_of_mem_select {rows : List ρ} {bin : List ℕ} {row : ρ} (h : row ∈ select rows bin) :
    row ∈ rows := by
  obtain ⟨i, -, hi⟩ := List.mem_filterMap.mp h
  exact List.mem_of_getElem? hi

/-- Under pipeline parallelism the length to pad to holds every micro-batch of a step, and
packing brings every micro-batch to that length. -/
theorem pipelinePacking_fits {T : Type} [Zero T] {cfg : MegatronConfig}
    {iter : MicrobatchIterator ρ} {microbatches : List (BatchedDataDict ρ)} {inputIds : ρ → List T}
    (hshard : d.shardByBatchSize rand shards batchSize allowUneven none (some args) =
      .ok (sharded, order)) (hdata : IsStepOf sharded data)
    (hiter : getMicrobatchIterator data cfg args.sequenceLengthPadMultiple = .ok iter)
    (hraw : iter.rawIterator = .ok microbatches)
    (hrows : ∀ row ∈ d.rows, args.inputLengths row ≤ (inputIds row).length)
    (hpp : 1 < cfg.pipelineModelParallelSize) (htp : 0 < cfg.tensorModelParallelSize) :
    ∃ padTo, iter.params.padPackedSeqTo = some padTo ∧ ∀ microbatch ∈ microbatches,
      paddedTotal iter.params (microbatch.rows.map args.inputLengths) ≤ padTo ∧
      ∀ cpRank < cfg.contextParallelSize, ∃ packed,
        packMicrobatch inputIds args.inputLengths iter.params cpRank cfg.contextParallelSize
          microbatch = .ok packed ∧
        PacksTo cfg padTo (microbatch.rows.map args.inputLengths) packed := by
  obtain ⟨⟨count, longest⟩, hlen, hiter⟩ := bind_eq_ok.mp hiter
  obtain ⟨params, hparams, hiter⟩ := bind_eq_ok.mp hiter
  obtain rfl := Except.ok.inj hiter
  have hfor := getPackSequenceParametersForMegatron_ok hparams
  obtain ⟨bins, rfl, rfl, hbins⟩ := exists_bins hshard hdata hraw
  obtain ⟨hmem, hmax⟩ := List.max?_eq_some_iff.mp (max?_of_stepOf hlen)
  have htotal : ∀ bin, ((select d.rows bin).map (paddedLengthOf args)).sum =
      (((select d.rows bin).map args.inputLengths).map
        (roundUp · args.sequenceLengthPadMultiple)).sum := by
    intro bin
    rw [List.map_map]
    rfl
  have hdvd : cfg.minimumPadFactor ∣ longest := by
    obtain ⟨bin, -, rfl⟩ := List.mem_map.mp hmem
    rw [htotal]
    exact dvd_sum_roundUp hfor.minimum _
  refine ⟨_, hfor.padTo hpp, fun microbatch hmicrobatch => ?_⟩
  obtain ⟨bin, hbin, rfl⟩ := List.mem_map.mp hmicrobatch
  have hne : select d.rows bin ≠ [] := hbins bin hbin
  have hle : (((select d.rows bin).map args.inputLengths).map
      (roundUp · args.sequenceLengthPadMultiple)).sum ≤ longest := by
    rw [← htotal]
    exact hmax _ (List.mem_map_of_mem hbin)
  have hpad : 0 < args.sequenceLengthPadMultiple := by
    obtain ⟨_, _, -, -, -, -, hpos, -⟩ := exists_shardOf hshard
    refine hpos fun hnil => hne ?_
    rw [hnil]
    exact List.eq_nil_iff_forall_not_mem.mpr fun row hrow => nomatch mem_of_mem_select hrow
  have hfits : List.Forall₂ (fun row seqLen => seqLen ≤ row.length)
      ((select d.rows bin).map inputIds) ((select d.rows bin).map args.inputLengths) := by
    rw [List.forall₂_map_left_iff, List.forall₂_map_right_iff, List.forall₂_same]
    exact fun row hrow => hrows row (mem_of_mem_select hrow)
  refine ⟨hfor.fitsPadTo hpp hle _ (hfor.padTo hpp), fun cpRank hrank => ?_⟩
  exact packSequencesForMegatron_packsTo hfor hpp htp hrank hpad (by simpa using hne) hle hdvd hfits

end Step

/-- Two context-parallel ranks in a pipeline of two stages. -/
def exampleConfig : MegatronConfig where
  tensorModelParallelSize := 1
  sequenceParallel := false
  pipelineModelParallelSize := 2
  contextParallelSize := 2

theorem pipelinePacking_fits_fourSequences :
    ∃ sharded order data iter microbatches,
      BatchedDataDict.shardByBatchSize { rows := [3, 1, 2, 5] } identityShuffle 1 none false none
        (some ⟨12, .concatenative, id, 4⟩) = .ok (sharded, order) ∧
      data ∈ sharded ∧ getMicrobatchIterator data exampleConfig 4 = .ok iter ∧
      iter.rawIterator = .ok microbatches ∧ microbatches.length = 2 ∧
      ∃ padTo, iter.params.padPackedSeqTo = some padTo ∧ ∀ microbatch ∈ microbatches,
        paddedTotal iter.params (microbatch.rows.map id) ≤ padTo ∧
        ∀ cpRank < exampleConfig.contextParallelSize, ∃ packed,
          packMicrobatch (fun n => List.replicate n 1) id iter.params cpRank
            exampleConfig.contextParallelSize microbatch = .ok packed ∧
          PacksTo exampleConfig padTo (microbatch.rows.map id) packed := by
  have hreturns : ∃ shard order iter microbatches, BatchedDataDict.shardByBatchSize
        { rows := [3, 1, 2, 5] } identityShuffle 1 none false none
        (some ⟨12, .concatenative, id, 4⟩) = .ok ([shard], order) ∧
      getMicrobatchIterator shard exampleConfig 4 = .ok iter ∧
      iter.rawIterator = .ok microbatches ∧ microbatches.length = 2 :=
    ⟨_, _, _, _, rfl, rfl, rfl, rfl⟩
  obtain ⟨shard, order, iter, microbatches, hshard, hiter, hraw, hlen⟩ := hreturns
  have hmem : shard ∈ [shard] := List.mem_singleton_self shard
  refine ⟨[shard], order, shard, iter, microbatches, hshard, hmem, hiter, hraw, hlen, ?_⟩
  exact pipelinePacking_fits hshard (.inl hmem) hiter hraw (by simp) (by decide) (by decide)

end NemoRL.Megatron
