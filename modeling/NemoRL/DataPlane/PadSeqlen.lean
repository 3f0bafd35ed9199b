import Mathlib
import NemoRL.DataPlane.Codec
import NemoRL.DataPlane.PreshardSpec
import NemoRL.Distributed.DynamicPlan

/-!
# The forward pad target under dynamic batching

The driver mints the forward pad target by rounding the longest sequence up to the
larger of two multiples. The planner of dynamic batching rounds up to one of them and
clips to the token limit. The target is wide enough for every micro-batch exactly when
the first rounding reaches the second.

## Main definitions

* `truncateTensors` — cut the tensors of a micro-batch to its length.
* `microBatchLengths` — the micro-batch lengths of a rank.

## Main results

* `stampPadSeqlen_wide_iff` — when the target is wide enough.
* `wide_of_dvd` — it is when one multiple divides the other.
-/

namespace NemoRL.DataPlane

open Lib Distributed Data.Packing

variable {α : Type}

/-- Narrow one tensor along the dimension after the batch dimension. -/
def narrowField (truncatedLen : ℕ) (field : String × Rect α) : Except PyError (String × Rect α) :=
  if 2 ≤ field.2.dim then
    if truncatedLen ≤ field.2.width then .ok (field.1, field.2.narrow truncatedLen)
    else .error ⟨.runtimeError,
      s!"start (0) + length ({truncatedLen}) exceeds dimension size ({field.2.width})."⟩
  else .ok field

/-- Truncate the tensors of a batch along the sequence dimension. -/
def truncateTensors (data : Columns α) (truncatedLen : ℕ) : Except PyError (Columns α) :=
  data.mapM (narrowField truncatedLen)

/-- The micro-batch lengths of a rank. -/
def microBatchLengths (rank : KVBatchMeta) : List ℕ :=
  (rank.extraInfo.microBatchLengths.getD []).flatten

/-! ## Truncating a materialized batch -/

/-- A tensor with a second dimension becomes as wide as the forward pad target. -/
theorem le_width_padToTarget {pad : α} {padToSeqlen : ℕ} {t : Rect α}
    (h : 2 ≤ (padToTarget pad padToSeqlen t).dim) :
    padToSeqlen ≤ (padToTarget pad padToSeqlen t).width := by
  rw [padToTarget] at h ⊢
  by_cases hpad : 0 < padToSeqlen ∧ 2 ≤ t.dim ∧ t.width < padToSeqlen
  · rw [if_pos hpad, Rect.width_padTo hpad.2.1]
    exact le_max_left _ _
  · rw [if_neg hpad] at h ⊢
    omega

/-- A tensor without columns becomes exactly as wide as the target. -/
theorem rowShape_padToTarget (pad : α) (padToSeqlen : ℕ) :
    (padToTarget pad padToSeqlen ⟨[0], [], by simp⟩).rowShape = [padToSeqlen] := by
  rw [padToTarget]
  by_cases hpos : 0 < padToSeqlen
  · rw [if_pos ⟨hpos, le_rfl, hpos⟩]
    exact congrArg (fun n => [n]) (Nat.max_zero padToSeqlen)
  · rw [if_neg fun h => hpos h.1, Nat.eq_zero_of_not_pos hpos]

theorem narrowField_ok {len : ℕ} {field : String × Rect α}
    (h : 2 ≤ field.2.dim → len ≤ field.2.width) : ∃ out, narrowField len field = .ok out := by
  rw [narrowField]
  by_cases hdim : 2 ≤ field.2.dim
  · rw [if_pos hdim, if_pos (h hdim)]
    exact ⟨_, rfl⟩
  · rw [if_neg hdim]
    exact ⟨_, rfl⟩

/-- Truncating to a length returns for every decoded batch exactly when the forward pad
target reaches that length. -/
theorem truncateTensors_materialize_iff [Zero α] (padToSeqlen len : ℕ) :
    (∀ (td : TensorDict α) (pads : List (String × α)), ∃ data,
      truncateTensors (materialize td pads padToSeqlen) len = .ok data) ↔ len ≤ padToSeqlen := by
  constructor
  · intro htruncate
    obtain ⟨data, hdata⟩ := htruncate [("", .rect ⟨[0], [], by simp⟩)] []
    obtain ⟨field, -, hfield⟩ := mem_of_mapM_mem hdata List.mem_cons_self
    have hleaf := rowShape_padToTarget (0 : α) padToSeqlen
    by_contra hlt
    simp only [narrowField, Rect.dim, Rect.width, materializeLeaf, toPaddedTensor, List.lookup_nil,
      Option.getD_none, hleaf, List.length_singleton, Nat.reduceAdd, le_refl, if_true,
      List.headD_cons, if_neg hlt] at hfield
    cases hfield
  · intro hle td pads
    refine exists_mapM fun field hfield => ?_
    obtain ⟨p, -, rfl⟩ := List.mem_map.mp hfield
    exact narrowField_ok fun hdim => hle.trans (le_width_padToTarget hdim)

/-! ## The two roundings -/

/-- A multiple that divides the other rounds up to no more. -/
theorem wide_of_dvd {value a b : ℕ} (ha : 0 < a) (h : a ∣ b) (hb : 0 < b) :
    roundUp value a ≤ roundUpSeqlen value b := by
  obtain ⟨k, rfl⟩ := h
  have hup : value ≤ (value + a * k - 1) / (a * k) * (a * k) := by
    have := Nat.lt_div_mul_add hb (a := value + a * k - 1)
    omega
  have hroundUp : roundUp value a ≤ (value + a * k - 1) / (a * k) * (a * k) := by
    have hmul : (value + a * k - 1) / (a * k) * (a * k) =
        (value + a * k - 1) / (a * k) * k * a := by ring
    rw [hmul] at hup ⊢
    refine Nat.mul_le_mul_right a ?_
    rw [← Nat.lt_succ_iff, Nat.div_lt_iff_lt_mul ha, Nat.succ_mul]
    omega
  rw [roundUpSeqlen]
  split
  case isTrue hone =>
    obtain ⟨rfl, rfl⟩ : a = 1 ∧ k = 1 := mul_eq_one.mp (by omega)
    simp [roundUp]
  case isFalse => exact hroundUp

/-! ## The stamped target -/

section Stamp
variable {batch : KVBatchMeta} {rand : Shuffle} {dpWorld : ℕ} {batchSize : Option ℕ}
  {dyn : DynamicConfig} {metas : List KVBatchMeta} {unsorted : Option (List ℕ)}

/-- The target that is minted for lengths `lens`. -/
def padTarget (batch : KVBatchMeta) (dyn : DynamicConfig) (lens : List ℕ) : ℕ :=
  roundUpSeqlen (longest lens)
    (max (batch.extraInfo.padToMultiple.getD 1) dyn.sequenceLengthRound)

@[simp] theorem stampPadSeqlen_sequenceLengths (batch : KVBatchMeta)
    (dynamic : Option DynamicConfig) :
    (stampPadSeqlen batch dynamic).sequenceLengths = batch.sequenceLengths := by
  rw [stampPadSeqlen]
  split
  case h_1 => rfl
  case h_2 => rfl
  case h_3 => split <;> rfl

theorem stampPadSeqlen_target {lens : List ℕ}
    (hstamp : batch.extraInfo.globalForwardPadSeqlen = none)
    (hlens : batch.sequenceLengths = some lens) (hne : lens ≠ []) :
    (stampPadSeqlen batch (some dyn)).extraInfo.globalForwardPadSeqlen =
      some (padTarget batch dyn lens) := by
  obtain ⟨len, rest, rfl⟩ := List.exists_cons_of_ne_nil hne
  rw [stampPadSeqlen, hlens]
  simp only [hstamp, Option.isSome_none, Bool.false_eq_true, if_false]
  rfl

/-- What the ranks get from a stamped batch. -/
theorem ranks_of_stamped (hstamp : batch.extraInfo.globalForwardPadSeqlen = none)
    (h : shardMetaForDp (stampPadSeqlen batch (some dyn)) rand dpWorld batchSize none (some dyn) =
      .ok (metas, unsorted)) :
    ∃ lens, batch.sequenceLengths = some lens ∧ metas ≠ [] ∧
      (∀ m ∈ metas, m.extraInfo.globalForwardPadSeqlen = some (padTarget batch dyn lens)) ∧
      ∀ b, (∀ m ∈ metas, ∀ len ∈ microBatchLengths m, len ≤ b) ↔
        min (roundUp (longest lens) dyn.sequenceLengthRound) dyn.maxTokensPerMicrobatch ≤ b := by
  obtain ⟨lens, sharded, order, hlens, hne, -, -, hshard, rfl, -⟩ := shardMetaForDp_cases h
  have hbatch : batch.sequenceLengths = some lens := by
    rwa [stampPadSeqlen_sequenceLengths] at hlens
  have hpad : (stampPadSeqlen batch (some dyn)).extraInfo.globalForwardPadSeqlen =
      some (padTarget batch dyn lens) := stampPadSeqlen_target hstamp hbatch hne
  obtain ⟨hsharded, lengths, hsame, hbound⟩ :=
    microBatchLengths_le_iff (by simpa [skeleton] using hne) hshard
  refine ⟨lens, hbatch, by simpa using hsharded, ?_, fun b => ?_⟩
  · simp only [List.forall_mem_map]
    exact fun shard _ => hpad
  · have hranks : ∀ m ∈ sharded.map (rankMeta (stampPadSeqlen batch (some dyn)) lens),
        microBatchLengths m = lengths.flatten := by
      simp only [List.forall_mem_map]
      intro shard hs
      rw [microBatchLengths, rankMeta, hsame shard hs]
      rfl
    have hrows : (skeleton lens).rows.map dyn.args.inputLengths = lens :=
      List.zipIdx_map_fst 0 lens
    have hclip := hbound b
    rw [hrows] at hclip
    refine Iff.trans ?_ hclip
    constructor
    · intro hall
      obtain ⟨shard, hs⟩ := List.exists_mem_of_ne_nil _ hsharded
      have := hall _ (List.mem_map_of_mem hs)
      rwa [hranks _ (List.mem_map_of_mem hs)] at this
    · intro hall m hm
      rw [hranks m hm]
      exact hall

/-- Every micro-batch length of every rank is at most the stamped target, and truncating
a materialized rank batch to it returns, exactly when the longest length, rounded up to
the sequence length round and clipped to the token limit, is at most the longest length
rounded up to the larger of the two multiples. -/
theorem stampPadSeqlen_wide_iff [Zero α] (hstamp : batch.extraInfo.globalForwardPadSeqlen = none)
    (h : shardMetaForDp (stampPadSeqlen batch (some dyn)) rand dpWorld batchSize none (some dyn) =
      .ok (metas, unsorted)) :
    ∃ lens pad, batch.sequenceLengths = some lens ∧
      (∀ m ∈ metas, m.extraInfo.globalForwardPadSeqlen = some pad) ∧
      ((∀ m ∈ metas, ∀ len ∈ microBatchLengths m, len ≤ pad) ↔
        min (roundUp (longest lens) dyn.sequenceLengthRound) dyn.maxTokensPerMicrobatch ≤
          roundUpSeqlen (longest lens)
            (max (batch.extraInfo.padToMultiple.getD 1) dyn.sequenceLengthRound)) ∧
      ((∀ m ∈ metas, ∀ len ∈ microBatchLengths m, ∀ (td : TensorDict α) (pads : List (String × α)),
          ∃ data, truncateTensors (materialize td pads pad) len = .ok data) ↔
        min (roundUp (longest lens) dyn.sequenceLengthRound) dyn.maxTokensPerMicrobatch ≤
          roundUpSeqlen (longest lens)
            (max (batch.extraInfo.padToMultiple.getD 1) dyn.sequenceLengthRound)) := by
  obtain ⟨lens, hlens, hne, hpad, hbound⟩ := ranks_of_stamped hstamp h
  refine ⟨lens, padTarget batch dyn lens, hlens, hpad, hbound _, ?_⟩
  simp only [truncateTensors_materialize_iff]
  exact hbound _

end Stamp

/-- One sample of five tokens, to be padded to a multiple of five. -/
def fiveTokens : KVBatchMeta where
  partitionId := "train"
  taskName := none
  sampleIds := ["a"]
  fields := none
  sequenceLengths := some [5]
  extraInfo := { padToMultiple := some 5 }

/-- With a sequence length round of four its micro-batch has length eight, the target is
five. -/
theorem fiveTokens_too_narrow :
    (shardMetaForDp (stampPadSeqlen fiveTokens (some ⟨8, 4⟩)) identityShuffle 1 none none
      (some ⟨8, 4⟩)).map (fun result => result.1.map fun rank =>
        (microBatchLengths rank, rank.extraInfo.globalForwardPadSeqlen)) =
      .ok [([8], some 5)] := by
  decide

theorem fiveTokens_wide_iff :
    ∃ metas unsorted pad,
      shardMetaForDp (stampPadSeqlen fiveTokens (some ⟨8, 4⟩)) identityShuffle 1 none none
        (some ⟨8, 4⟩) = .ok (metas, unsorted) ∧
      ((∀ m ∈ metas, ∀ len ∈ microBatchLengths m, len ≤ pad) ↔
        min (roundUp (longest [5]) 4) 8 ≤ roundUpSeqlen (longest [5]) (max 5 4)) := by
  have hreturns : ∃ result, shardMetaForDp (stampPadSeqlen fiveTokens (some ⟨8, 4⟩))
      identityShuffle 1 none none (some ⟨8, 4⟩) = .ok result := ⟨_, rfl⟩
  obtain ⟨⟨metas, unsorted⟩, h⟩ := hreturns
  have hwide := @stampPadSeqlen_wide_iff ℕ _ _ _ _ _ _ _ _ rfl h
  obtain ⟨lens, pad, hlens, -, hiff, -⟩ := hwide
  obtain rfl : [5] = lens := Option.some.inj hlens
  exact ⟨metas, unsorted, pad, h, hiff⟩

end NemoRL.DataPlane
