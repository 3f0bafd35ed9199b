import NemoRL.Distributed.DispatchOrder
import NemoRL.Lib.Tensor

/-!
# Lengths of dynamic micro-batches

The planner of dynamic batching rounds the longest sequence at each position of the
shards, clips it to the width of the input ids, and gives every micro-batch the largest
of its positions. The largest length over all micro-batches is therefore the longest
sequence of the batch, rounded and clipped.

## Main definitions

* `Covers` — the invariant of the planner.

## Main results

* `planChunk_spec` — what a plan says about the positions of its chunk.
* `microBatchLengths_le_iff` — the bounds of all micro-batch lengths.
-/

namespace NemoRL.Distributed

open Lib Data.Packing

variable {ρ : Type} {args : DynamicBatchingArgs ρ} {shards : List (List ρ)}

/-- The length that the planner gives to a position. -/
def DynamicBatchingArgs.clip (args : DynamicBatchingArgs ρ) (len : ℕ) : ℕ :=
  min (roundUp len args.sequenceLengthRound) args.inputWidth

theorem roundUp_mono (multiple : ℕ) {a b : ℕ} (h : a ≤ b) :
    roundUp a multiple ≤ roundUp b multiple :=
  Nat.mul_le_mul_right _ (Nat.div_le_div_right (by omega))

theorem DynamicBatchingArgs.clip_mono (args : DynamicBatchingArgs ρ) {a b : ℕ} (h : a ≤ b) :
    args.clip a ≤ args.clip b :=
  min_le_min_right _ (roundUp_mono _ h)

/-! ## One position -/

theorem foldlM_longerRow_le_iff {inputLengths : ρ → ℕ} {i a len : ℕ}
    (h : shards.foldlM (longerRow inputLengths i) a = .ok len) (b : ℕ) :
    len ≤ b ↔ a ≤ b ∧ ∀ shard ∈ shards, ∃ row, shard[i]? = some row ∧ inputLengths row ≤ b := by
  induction shards generalizing a with
  | nil =>
    obtain rfl : a = len := Except.ok.inj h
    simp
  | cons shard shards ih =>
    rw [List.foldlM_cons, longerRow] at h
    cases hrow : shard[i]? with
    | none =>
      rw [hrow] at h
      exact nomatch h
    | some row =>
      rw [hrow] at h
      rw [ih h]
      simp [hrow, and_assoc]

/-- The longest row at a position is the longest of the rows there. -/
theorem maxSeqlenAt_le_iff {inputLengths : ρ → ℕ} {i len : ℕ}
    (h : maxSeqlenAt shards inputLengths i = .ok len) (b : ℕ) :
    len ≤ b ↔ ∀ shard ∈ shards, ∃ row, shard[i]? = some row ∧ inputLengths row ≤ b := by
  simpa using foldlM_longerRow_le_iff h b

/-- A planner step that returned read the position, and either extends the current
micro-batch, whose padded tokens still fit, or opens a new one. -/
theorem planStep_cases {chunkStart i : ℕ} {plan plan' : MicroPlan}
    (h : planStep args shards chunkStart plan i = .ok plan') :
    ∃ len, maxSeqlenAt shards args.inputLengths (chunkStart + i) = .ok len ∧
      args.sequenceLengthRound ≠ 0 ∧ args.clip len ≤ args.maxTokensPerMicrobatch ∧
      ((plan.current.1.2 - plan.current.1.1 + 1) * max plan.maxSeqlenThisMb (args.clip len) ≤
            args.maxTokensPerMicrobatch ∧
          plan' = ⟨plan.closed, ((plan.current.1.1, plan.current.1.2 + 1),
            max plan.maxSeqlenThisMb (args.clip len)), max plan.maxSeqlenThisMb (args.clip len)⟩ ∨
        args.maxTokensPerMicrobatch < (plan.current.1.2 - plan.current.1.1 + 1) *
            max plan.maxSeqlenThisMb (args.clip len) ∧
          plan' = ⟨plan.closed ++ [plan.current], ((i, i + 1), args.clip len), args.clip len⟩) := by
  obtain ⟨len, hlen, h⟩ := bind_eq_ok.mp h
  refine ⟨len, hlen, ?_⟩
  split at h
  case isTrue => exact nomatch h
  case isFalse hround =>
    simp only at h
    split at h
    case isTrue => exact nomatch h
    case isFalse hfits =>
      refine ⟨hround, not_lt.mp hfits, ?_⟩
      split at h
      case isTrue hextend => exact .inl ⟨hextend, (Except.ok.inj h).symm⟩
      case isFalse hopen => exact .inr ⟨not_le.mp hopen, (Except.ok.inj h).symm⟩

/-! ## One chunk -/

/-- The micro-batches of a plan. -/
def MicroPlan.all (plan : MicroPlan) : List ((ℕ × ℕ) × ℕ) := plan.closed ++ [plan.current]

theorem MicroPlan.forall_all {plan : MicroPlan} {p : (ℕ × ℕ) × ℕ → Prop} :
    (∀ mb ∈ plan.all, p mb) ↔ (∀ mb ∈ plan.closed, p mb) ∧ p plan.current := by
  rw [all, List.forall_mem_append, List.forall_mem_singleton]

/-- The invariant of the planner after the positions `seen`: a length bounds all
micro-batches exactly when it bounds the length of every position. -/
structure Covers (args : DynamicBatchingArgs ρ) (shards : List (List ρ)) (chunkStart : ℕ)
    (seen : List ℕ) (plan : MicroPlan) : Prop where
  current : plan.current.2 = plan.maxSeqlenThisMb
  le_iff : ∀ b, (∀ mb ∈ plan.all, mb.2 ≤ b) ↔ ∀ i ∈ seen, ∃ len,
    maxSeqlenAt shards args.inputLengths (chunkStart + i) = .ok len ∧ args.clip len ≤ b

theorem Covers.step {chunkStart i : ℕ} {seen : List ℕ} {plan plan' : MicroPlan}
    (hplan : Covers args shards chunkStart seen plan)
    (h : planStep args shards chunkStart plan i = .ok plan') :
    Covers args shards chunkStart (i :: seen) plan' := by
  obtain ⟨len, hlen, -, -, ⟨-, rfl⟩ | ⟨-, rfl⟩⟩ := planStep_cases h
  · refine ⟨rfl, fun b => ?_⟩
    have hpos : (∃ len, maxSeqlenAt shards args.inputLengths (chunkStart + i) = .ok len ∧
        args.clip len ≤ b) ↔ args.clip len ≤ b := by simp [hlen]
    rw [List.forall_mem_cons, ← hplan.le_iff b, hpos, MicroPlan.forall_all, MicroPlan.forall_all,
      hplan.current, max_le_iff]
    tauto
  · refine ⟨rfl, fun b => ?_⟩
    have hpos : (∃ len, maxSeqlenAt shards args.inputLengths (chunkStart + i) = .ok len ∧
        args.clip len ≤ b) ↔ args.clip len ≤ b := by simp [hlen]
    rw [List.forall_mem_cons, ← hplan.le_iff b, hpos, MicroPlan.forall_all, MicroPlan.forall_all,
      List.forall_mem_append]
    simp only [List.forall_mem_singleton]
    tauto

/-- The lengths of a chunk's plan are bounded by `b` exactly when the rounded and clipped
length of every position is. -/
theorem planChunk_spec {shardSize chunkIdx : ℕ} {plan : List ((ℕ × ℕ) × ℕ)}
    (h : planChunk args shards shardSize chunkIdx = .ok plan) (b : ℕ) :
    (∀ mb ∈ plan, mb.2 ≤ b) ↔ ∀ i < shardSize, ∃ len,
      maxSeqlenAt shards args.inputLengths (chunkIdx * shardSize + i) = .ok len ∧
        args.clip len ≤ b := by
  obtain ⟨last, hfold, h⟩ := bind_eq_ok.mp h
  obtain rfl := Except.ok.inj h
  have hstart : Covers args shards (chunkIdx * shardSize) [] ⟨[], ((0, 0), 0), 0⟩ :=
    ⟨rfl, fun b => by simp [MicroPlan.all]⟩
  have hcovers := foldlM_seen (P := Covers args shards (chunkIdx * shardSize))
    (fun _ _ _ _ _ hplan hstep => hplan.step hstep) hstart hfold
  rw [← MicroPlan.all, hcovers.le_iff b]
  simp

/-- Planning read every position of the chunk. -/
theorem planChunk_reads {shardSize chunkIdx : ℕ} {plan : List ((ℕ × ℕ) × ℕ)}
    (h : planChunk args shards shardSize chunkIdx = .ok plan) {i : ℕ} (hi : i < shardSize) :
    ∃ len, maxSeqlenAt shards args.inputLengths (chunkIdx * shardSize + i) = .ok len := by
  have hall : ∀ mb ∈ plan, mb.2 ≤ longest (plan.map Prod.snd) :=
    fun mb hmb => le_longest (List.mem_map_of_mem hmb)
  obtain ⟨len, hlen, -⟩ := (planChunk_spec h _).mp hall i hi
  exact ⟨len, hlen⟩

/-! ## The whole batch -/

theorem length_shardRows {rows : List ρ} {numChunks bs shards size s : ℕ}
    (hrows : rows.length = numChunks * bs) (hbs : bs = shards * size) (hs : s < shards) :
    (shardRows rows numChunks bs size false s).length = numChunks * size := by
  have hlt : ∀ i ∈ (List.range numChunks).flatMap fun c => List.range' (c * bs + s * size) size,
      i < rows.length := by
    rw [hrows]
    intro i hi
    refine lt_of_perm_range (contiguousOrder_perm numChunks hbs) i ?_
    exact List.mem_flatMap.mpr ⟨s, List.mem_range.mpr hs, hi⟩
  rw [shardRows_eq, length_select hlt]
  simp [List.length_flatMap]

section Batch
variable {d : BatchedDataDict ρ} {rand : Shuffle} {shards : ℕ} {batchSize : Option ℕ}
  {sharded : List (BatchedDataDict ρ)} {order : Option (List ℕ)}

/-- The plans of a batch, with the shards they were made for. -/
theorem plans_of_shardByBatchSize
    (h : d.shardByBatchSize rand shards batchSize false (some args) none = .ok (sharded, order)) :
    ∃ numChunks size plans, batchSize.getD d.rows.length = shards * size ∧
      d.rows.length = numChunks * (shards * size) ∧ 0 < shards ∧ 0 < size ∧
      sharded.length = shards ∧
      (∀ shard ∈ sharded, shard.rows.length = numChunks * size ∧
        shard.microBatchIndices = some (plans.map (List.map Prod.fst)) ∧
        shard.microBatchLengths = some (plans.map (List.map Prod.snd)) ∧
        shard.elemCountsPerGb = none) ∧
      (List.range numChunks).mapM (planChunk args (sharded.map BatchedDataDict.rows) size) =
        .ok plans := by
  obtain ⟨bs, hcheck, h⟩ := bind_eq_ok.mp h
  obtain ⟨hget, hpos, hdvd, hshards, heven⟩ := BatchedDataDict.checkShardArgs_ok hcheck
  obtain ⟨plans, hplans, h⟩ := bind_eq_ok.mp h
  obtain ⟨rfl, -⟩ := Prod.mk.inj (Except.ok.inj h)
  have hbs : bs = shards * (bs / shards) := (Nat.mul_div_cancel' (heven rfl)).symm
  refine ⟨d.rows.length / bs, bs / shards, plans, hget.symm.trans hbs,
    by rw [← hbs, Nat.div_mul_cancel hdvd], hshards,
    Nat.div_pos (Nat.le_of_dvd hpos (heven rfl)) hshards, by simp, ?_, ?_⟩
  · rw [List.forall_mem_map, List.forall_mem_map]
    intro s hs
    refine ⟨length_shardRows ?_ hbs (List.mem_range.mp hs), rfl, rfl, rfl⟩
    rw [Nat.div_mul_cancel hdvd]
    have hperm : (dynamicOrder d.rows args.inputLengths (d.rows.length / bs) bs shards).Perm
        (List.range (d.rows.length / bs * bs)) :=
      dynamicOrder_perm d.rows args.inputLengths hshards
    rw [Nat.div_mul_cancel hdvd] at hperm
    exact (select_perm hperm).length_eq
  · rw [List.map_map]
    exact (congrArg (fun l => (List.range (d.rows.length / bs)).mapM
      (planChunk args l (bs / shards))) (List.map_id _)).trans hplans

/-- All shards of a batch have the same plan. Its lengths are bounded by `b` exactly when
the longest row, rounded and clipped, is. -/
theorem microBatchLengths_le_iff (hrows : d.rows ≠ [])
    (h : d.shardByBatchSize rand shards batchSize false (some args) none = .ok (sharded, order)) :
    sharded ≠ [] ∧ ∃ lengths, (∀ shard ∈ sharded, shard.microBatchLengths = some lengths) ∧
      ∀ b, (∀ len ∈ lengths.flatten, len ≤ b) ↔
        args.clip (longest (d.rows.map args.inputLengths)) ≤ b := by
  obtain ⟨hflat, hperm⟩ := rows_dynamic h rfl
  have hmem : ∀ row, (∃ shard ∈ sharded, row ∈ shard.rows) ↔ row ∈ d.rows := by
    intro row
    rw [← List.mem_flatMap, hflat]
    exact (select_perm hperm).mem_iff
  obtain ⟨numChunks, size, plans, -, -, hshards, hsize, hlen, hshard, hplans⟩ :=
    plans_of_shardByBatchSize h
  refine ⟨List.ne_nil_of_length_pos (hlen ▸ hshards), _, fun shard hs => (hshard shard hs).2.2.1,
    fun b => ?_⟩
  constructor
  · intro hbound
    obtain ⟨row, hrow, hlongest⟩ := List.mem_map.mp
      (longest_mem (l := d.rows.map args.inputLengths) (by simpa using hrows))
    obtain ⟨shard, hs, hrow⟩ := (hmem row).mpr hrow
    obtain ⟨k, hk⟩ := List.mem_iff_getElem?.mp hrow
    -- row `k` of the shard is position `k % size` of chunk `k / size`
    have hlt : k < numChunks * size := (hshard shard hs).1 ▸ (List.getElem?_eq_some_iff.mp hk).1
    have hchunk : k / size < numChunks :=
      Nat.div_lt_of_lt_mul (by rwa [Nat.mul_comm] at hlt)
    have hplace : k / size * size + k % size = k := Nat.div_add_mod' k size
    obtain ⟨plan, hplan, hmade⟩ := mem_of_mapM_mem hplans (List.mem_range.mpr hchunk)
    have hplanned : ∀ mb ∈ plan, mb.2 ≤ b := fun mb hmb =>
      hbound _ (List.mem_flatten.mpr
        ⟨_, List.mem_map_of_mem hplan, List.mem_map_of_mem hmb⟩)
    obtain ⟨len, hlen, hclip⟩ :=
      (planChunk_spec hmade b).mp hplanned (k % size) (Nat.mod_lt k hsize)
    rw [hplace] at hlen
    obtain ⟨row', hrow', hle⟩ :=
      (maxSeqlenAt_le_iff hlen len).mp le_rfl _ (List.mem_map_of_mem hs)
    obtain rfl : row = row' := Option.some.inj (hk.symm.trans hrow')
    rw [← hlongest]
    exact (args.clip_mono hle).trans hclip
  · intro hb len hlen
    obtain ⟨lens, hlens, hlen⟩ := List.mem_flatten.mp hlen
    obtain ⟨plan, hplan, rfl⟩ := List.mem_map.mp hlens
    obtain ⟨mb, hmb, rfl⟩ := List.mem_map.mp hlen
    obtain ⟨c, -, hmade⟩ := mem_of_mapM hplans hplan
    refine (planChunk_spec hmade b).mpr (fun i hi => ?_) mb hmb
    obtain ⟨len, hlen⟩ := planChunk_reads hmade hi
    refine ⟨len, hlen, (args.clip_mono ?_).trans hb⟩
    rw [maxSeqlenAt_le_iff hlen, List.forall_mem_map]
    intro shard hs
    obtain ⟨row, hrow, -⟩ := (maxSeqlenAt_le_iff hlen len).mp le_rfl _ (List.mem_map_of_mem hs)
    refine ⟨row, hrow, le_longest (List.mem_map_of_mem ?_)⟩
    exact (hmem row).mp ⟨shard, hs, List.mem_of_getElem? hrow⟩

end Batch

end NemoRL.Distributed
