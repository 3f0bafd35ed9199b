import NemoRL.Data.PackingTotal
import NemoRL.Distributed.DynamicPlan
import NemoRL.Lib.Segments

/-!
# Dynamic micro-batches cover a batch and fit

Dynamic batching plans the micro-batches of a chunk once for all shards. The ranges of a plan
follow each other from the first position to the last, every micro-batch holds at most the
allowed tokens, and its length reaches the end of each of its rows in each of the shards. The
micro-batches are cut to these lengths, so no token before the end of a row is lost.

## Main definitions

* `SequenceRow` — a row with the sequences that are cut.
* `makeMicrobatchIteratorWithDynamicShapes` — the micro-batches of a shard.
* `Planned` — the invariant of the planner.

## Main results

* `planChunk_planned` — the ranges of a plan tile its chunk, and its micro-batches fit.
* `shardByBatchSize_isOk_iff` — sharding returns just if every padded row fits.
* `dynamic_covers_and_fits` — the plans and the micro-batches of all shards.
-/

namespace NemoRL.Distributed

open Lib Data.Packing

/-! ## Micro-batches of dynamic shapes -/

/-- A row of a batch: its entries of the tensors that have a sequence dimension, and those of
the other columns. -/
structure SequenceRow (τ α : Type) where
  sequences : List (List τ)
  other : α
  deriving DecidableEq, Repr

/-- The first `length` entries of a sequence. -/
def narrow {τ : Type} (sequence : List τ) (length : ℕ) : Except PyError (List τ) :=
  if sequence.length < length then
    .error ⟨.runtimeError, s!"start (0) + length ({length}) exceeds dimension size " ++
      s!"({sequence.length})."⟩
  else .ok (sequence.take length)

namespace BatchedDataDict
variable {τ α : Type}

/-- Cut the tensors of a batch that have a sequence dimension to a length. -/
def truncateTensors (d : BatchedDataDict (SequenceRow τ α)) (truncatedLen : ℕ) :
    Except PyError (BatchedDataDict (SequenceRow τ α)) := do
  let rows ← d.rows.mapM fun row => do
    let sequences ← row.sequences.mapM (narrow · truncatedLen)
    return { row with sequences }
  return { d with rows }

/-- The micro-batches of a batch with one plan, each cut to its own length. -/
def makeMicrobatchIteratorWithDynamicShapes (d : BatchedDataDict (SequenceRow τ α)) :
    Except PyError (List (BatchedDataDict (SequenceRow τ α))) :=
  match d.microBatchIndices, d.microBatchLengths with
  | some [indices], some (lengths :: _) =>
    (lengths.zip indices).mapM fun (seqlen, startIdx, endIdx) => do
      let mb ← d.slice startIdx endIdx
      mb.truncateTensors seqlen
  | some [_], some [] => .error ⟨.indexError, "list index out of range"⟩
  | _, _ => .error ⟨.assertionError, ""⟩

end BatchedDataDict

/-! ## The planner -/

section Planner
variable {ρ : Type} {args : DynamicBatchingArgs ρ} {shards : List (List ρ)}

/-- What a micro-batch promises: its tokens fit, and its length reaches the longest row at each
of its positions. -/
structure Fits (args : DynamicBatchingArgs ρ) (shards : List (List ρ)) (chunkStart : ℕ)
    (mb : (ℕ × ℕ) × ℕ) : Prop where
  tokens : (mb.1.2 - mb.1.1) * mb.2 ≤ args.maxTokensPerMicrobatch
  reaches : ∀ i, mb.1.1 ≤ i → i < mb.1.2 → ∃ len, 0 < args.sequenceLengthRound ∧
    maxSeqlenAt shards args.inputLengths (chunkStart + i) = .ok len ∧ args.clip len ≤ mb.2

/-- The invariant of the planner after `n` positions: the closed ranges tile the positions before
the current one, and all micro-batches fit. Only before the first position is the current range
empty. -/
structure Planned (args : DynamicBatchingArgs ρ) (shards : List (List ρ)) (chunkStart n : ℕ)
    (plan : MicroPlan) : Prop where
  closed : Tiles ((plan.closed.map Prod.fst).map toSpan) 0 plan.current.1.1
  stop : plan.current.1.2 = n
  start : plan.current.1.1 < n ∨ plan.current.1.1 = 0 ∧ n = 0 ∧ plan.maxSeqlenThisMb = 0
  length : plan.current.2 = plan.maxSeqlenThisMb
  fits : ∀ mb ∈ plan.all, Fits args shards chunkStart mb

theorem planned_nil (args : DynamicBatchingArgs ρ) (shards : List (List ρ)) (chunkStart : ℕ) :
    Planned args shards chunkStart 0 ⟨[], ((0, 0), 0), 0⟩ where
  closed := rfl
  stop := rfl
  start := .inr ⟨rfl, rfl, rfl⟩
  length := rfl
  fits := by
    intro mb hmb
    obtain rfl : mb = ((0, 0), 0) := by simpa [MicroPlan.all] using hmb
    exact ⟨by simp, fun i _ hi => absurd hi (Nat.not_lt_zero i)⟩

/-- One position keeps the invariant. -/
theorem Planned.step {chunkStart n : ℕ} {plan plan' : MicroPlan}
    (hplan : Planned args shards chunkStart n plan)
    (h : planStep args shards chunkStart plan n = .ok plan') :
    Planned args shards chunkStart (n + 1) plan' := by
  obtain ⟨len, hlen, hround, hmax, ⟨htokens, rfl⟩ | ⟨hfull, rfl⟩⟩ := planStep_cases h
  · have hstop := hplan.stop
    have hstart := hplan.start
    obtain ⟨hclosed, hcurrent⟩ := MicroPlan.forall_all.mp hplan.fits
    refine ⟨hplan.closed, by simp [hstop], .inl (by simp only; omega), rfl, ?_⟩
    refine MicroPlan.forall_all.mpr ⟨hclosed, ⟨?_, fun i hi hi' => ?_⟩⟩
    · have hsize : plan.current.1.2 + 1 - plan.current.1.1 =
          plan.current.1.2 - plan.current.1.1 + 1 := by omega
      simpa only [hsize] using htokens
    · rcases Nat.lt_succ_iff_lt_or_eq.mp hi' with hlt | rfl
      · obtain ⟨len', hpos, hlen', hle⟩ := hcurrent.reaches i hi hlt
        exact ⟨len', hpos, hlen', (hle.trans hplan.length.le).trans (le_max_left _ _)⟩
      · exact ⟨len, Nat.pos_of_ne_zero hround, hstop ▸ hlen, le_max_right _ _⟩
  · have hstop := hplan.stop
    rcases hplan.start with hlt | ⟨hzero, rfl, hnone⟩
    · refine ⟨?_, rfl, .inl (Nat.lt_succ_self n), rfl, ?_⟩
      · rw [List.map_append, List.map_append, tiles_append]
        refine ⟨plan.current.1.1, hplan.closed, rfl, ?_, ?_⟩
        · rw [hstop]
          exact_mod_cast hlt
        · simp [Tiles, hstop]
      · refine MicroPlan.forall_all.mpr ⟨hplan.fits, ⟨?_, fun i hi hi' => ?_⟩⟩
        · simpa using hmax
        · obtain rfl : i = n := by
            simp only at hi hi'
            omega
          exact ⟨len, Nat.pos_of_ne_zero hround, hlen, le_rfl⟩
    · -- the first position is alone in its micro-batch, where it fits
      simp only [hstop, hzero, hnone, Nat.sub_self, Nat.zero_add, Nat.one_mul,
        Nat.zero_max] at hfull
      omega

/-- The ranges of a plan are non-empty and tile the positions of its chunk, and its
micro-batches fit. -/
theorem planChunk_planned {shardSize chunkIdx : ℕ} {plan : List ((ℕ × ℕ) × ℕ)}
    (hsize : 0 < shardSize) (h : planChunk args shards shardSize chunkIdx = .ok plan) :
    Tiles ((plan.map Prod.fst).map toSpan) 0 shardSize ∧
      ∀ mb ∈ plan, Fits args shards (chunkIdx * shardSize) mb := by
  obtain ⟨last, hfold, h⟩ := bind_eq_ok.mp h
  obtain rfl := Except.ok.inj h
  have hplanned :
      Planned args shards (chunkIdx * shardSize) (List.range shardSize).length last := by
    refine foldlM_invariant (P := fun seen plan =>
      Planned args shards (chunkIdx * shardSize) seen.length plan) hfold (planned_nil _ _ _) ?_
    intro pre i post plan plan' hrange hplan hstep
    have hlt : pre.length < shardSize := by
      rw [← List.length_range (n := shardSize), hrange, List.length_append, List.length_cons]
      omega
    obtain rfl : i = pre.length := by simpa [hrange] using List.getElem?_range hlt
    rw [List.length_append, List.length_singleton]
    exact hplan.step hstep
  rw [List.length_range] at hplanned
  have hstart := hplanned.start
  refine ⟨?_, hplanned.fits⟩
  rw [List.map_append, List.map_append, tiles_append]
  refine ⟨last.current.1.1, hplanned.closed, rfl, ?_, ?_⟩
  · rw [hplanned.stop]
    omega
  · simp [Tiles, hplanned.stop]

theorem exists_maxSeqlenAt {inputLengths : ρ → ℕ} {i : ℕ}
    (h : ∀ shard ∈ shards, i < shard.length) :
    ∃ len, maxSeqlenAt shards inputLengths i = .ok len := by
  refine exists_foldlM (fun shard hs longest => ?_) 0
  rw [longerRow, List.getElem?_eq_getElem (h shard hs)]
  exact ⟨_, rfl⟩

/-- The length of a position fits when the rows do. -/
theorem clip_maxSeqlenAt_le {i len b : ℕ} (hround : 0 < args.sequenceLengthRound)
    (hfits : ∀ shard ∈ shards, ∀ row ∈ shard, args.clip (args.inputLengths row) ≤ b)
    (h : maxSeqlenAt shards args.inputLengths i = .ok len) : args.clip len ≤ b := by
  rcases Nat.eq_zero_or_pos len with rfl | hlen
  · have hzero : (args.sequenceLengthRound - 1) / args.sequenceLengthRound = 0 :=
      Nat.div_eq_of_lt (by omega)
    simp [DynamicBatchingArgs.clip, roundUp, hzero]
  · -- a row of the greatest length is at the position
    have hall := maxSeqlenAt_le_iff h
    have hlongest : ¬ len ≤ len - 1 := by omega
    rw [hall (len - 1)] at hlongest
    push Not at hlongest
    obtain ⟨shard, hs, hlong⟩ := hlongest
    obtain ⟨row, hrow, -⟩ := (hall len).mp le_rfl shard hs
    have hle : len ≤ args.inputLengths row := by
      have hlt := hlong row hrow
      omega
    exact (args.clip_mono hle).trans (hfits shard hs row (List.mem_of_getElem? hrow))

/-- Planning returns when every padded row fits. -/
theorem exists_planChunk {shardSize chunkIdx : ℕ} (hround : 0 < args.sequenceLengthRound)
    (hlong : ∀ i < shardSize, ∀ shard ∈ shards, chunkIdx * shardSize + i < shard.length)
    (hfits : ∀ shard ∈ shards, ∀ row ∈ shard,
      args.clip (args.inputLengths row) ≤ args.maxTokensPerMicrobatch) :
    ∃ plan, planChunk args shards shardSize chunkIdx = .ok plan := by
  have hstep : ∀ i ∈ List.range shardSize, ∀ plan,
      ∃ plan', planStep args shards (chunkIdx * shardSize) plan i = .ok plan' := by
    intro i hi plan
    obtain ⟨len, hlen⟩ := exists_maxSeqlenAt (hlong i (List.mem_range.mp hi))
    have hmax := clip_maxSeqlenAt_le hround hfits hlen
    simp only [planStep, hlen, bind, Except.bind, if_neg hround.ne']
    rw [DynamicBatchingArgs.clip] at hmax
    rw [if_neg (not_lt.mpr hmax)]
    split <;> exact ⟨_, rfl⟩
  obtain ⟨last, hlast⟩ := exists_foldlM hstep ⟨[], ((0, 0), 0), 0⟩
  exact ⟨_, bind_eq_ok.mpr ⟨last, hlast, rfl⟩⟩

end Planner

/-! ## Sharding returns -/

section Batch
variable {ρ : Type} {d : BatchedDataDict ρ} {args : DynamicBatchingArgs ρ} {rand : Shuffle}
  {shards size numChunks : ℕ} {batchSize : Option ℕ}

theorem checkShardArgs_eq_ok {total : ℕ} (hsize : batchSize.getD total = shards * size)
    (hpos : 0 < shards * size) (htotal : shards * size ∣ total) :
    BatchedDataDict.checkShardArgs total shards batchSize false false = .ok (shards * size) := by
  have hshards : shards ≠ 0 := (Nat.pos_of_mul_pos_right hpos).ne'
  have hmod := Nat.mod_eq_zero_of_dvd htotal
  have hsize' : size ≠ 0 := (Nat.pos_of_mul_pos_left hpos).ne'
  simp [BatchedDataDict.checkShardArgs, hsize, hsize', hshards, hmod]

/-- Sharding for dynamic batching returns just if every padded row fits into a micro-batch. -/
theorem shardByBatchSize_isOk_iff (hsize : batchSize.getD d.rows.length = shards * size)
    (hpos : 0 < shards * size) (hrows : d.rows.length = numChunks * (shards * size))
    (hround : 0 < args.sequenceLengthRound) :
    (∃ result, d.shardByBatchSize rand shards batchSize false (some args) none = .ok result) ↔
      ∀ row ∈ d.rows, args.clip (args.inputLengths row) ≤ args.maxTokensPerMicrobatch := by
  have hshards : 0 < shards := Nat.pos_of_mul_pos_right hpos
  have hpositive : 0 < size := Nat.pos_of_mul_pos_left hpos
  constructor
  · rintro ⟨⟨sharded, order⟩, h⟩ row hrow
    have hne : d.rows ≠ [] := List.ne_nil_of_mem hrow
    obtain ⟨-, lengths, hlengths, hle⟩ := microBatchLengths_le_iff hne h
    obtain ⟨c, s, plans, -, -, -, hs, hcount, hshard, hplans⟩ := plans_of_shardByBatchSize h
    refine (args.clip_mono (le_longest (List.mem_map_of_mem hrow))).trans ((hle _).mp ?_)
    obtain ⟨shard, hmem⟩ := List.exists_mem_of_length_pos (hcount ▸ ‹0 < shards›)
    obtain rfl : lengths = plans.map (List.map Prod.snd) :=
      Option.some.inj ((hlengths shard hmem).symm.trans (hshard shard hmem).2.2.1)
    intro len hlen
    obtain ⟨lens, hlens, hlen⟩ := List.mem_flatten.mp hlen
    obtain ⟨plan, hplan, rfl⟩ := List.mem_map.mp hlens
    obtain ⟨mb, hmb, rfl⟩ := List.mem_map.mp hlen
    obtain ⟨chunkIdx, -, hmade⟩ := mem_of_mapM hplans hplan
    obtain ⟨htiles, hfits⟩ := planChunk_planned hs hmade
    -- a micro-batch has a row
    have hrange := htiles.mem (List.mem_map_of_mem (List.mem_map_of_mem hmb))
    have hcount : 0 < mb.1.2 - mb.1.1 := by
      simp only [toSpan] at hrange
      omega
    exact (Nat.le_mul_of_pos_left mb.2 hcount).trans (hfits mb hmb).tokens
  · intro hfits
    have horder : (dynamicOrder d.rows args.inputLengths numChunks (shards * size) shards).Perm
        (List.range d.rows.length) := by
      rw [hrows]
      exact dynamicOrder_perm d.rows args.inputLengths hshards
    have hlen := (select_perm horder).length_eq
    rw [hrows] at hlen
    obtain ⟨plans, hplans⟩ : ∃ plans, (List.range numChunks).mapM (planChunk args
        ((List.range shards).map (shardRows (select d.rows (dynamicOrder d.rows args.inputLengths
          numChunks (shards * size) shards)) numChunks (shards * size) size false)) size) =
          .ok plans := by
      refine exists_mapM fun c hc => exists_planChunk hround ?_ ?_
      · intro i hi shard hs
        obtain ⟨s, hs', rfl⟩ := List.mem_map.mp hs
        rw [length_shardRows hlen rfl (List.mem_range.mp hs')]
        calc c * size + i < (c + 1) * size := by rw [Nat.succ_mul]; omega
          _ ≤ numChunks * size := Nat.mul_le_mul_right size (List.mem_range.mp hc)
      · intro shard hs row hrow
        obtain ⟨s, -, rfl⟩ := List.mem_map.mp hs
        refine hfits row ((select_perm horder).mem_iff.mp ?_)
        rw [shardRows_eq] at hrow
        obtain ⟨i, -, hi⟩ := List.mem_filterMap.mp hrow
        exact List.mem_of_getElem? hi
    have hchunks : d.rows.length / (shards * size) = numChunks := by
      rw [hrows, Nat.mul_div_cancel _ hpos]
    have hshard : shards * size / shards = size := Nat.mul_div_cancel_left size hshards
    have hcheck := checkShardArgs_eq_ok hsize hpos (hrows ▸ Nat.dvd_mul_left _ numChunks)
    simp only [BatchedDataDict.shardByBatchSize, Option.isSome_none, Bool.and_false, hcheck,
      hchunks, hshard, hplans, bind, Except.bind, Bool.false_eq_true, if_false]
    exact ⟨_, rfl⟩

end Batch

/-! ## Reading the micro-batches -/

section Iterator
variable {τ α : Type} {args : DynamicBatchingArgs (SequenceRow τ α)}

/-- What is left of a row in its micro-batch: the other columns, and of each sequence a first part
that reaches the end of the row. -/
def KeepsTokens (args : DynamicBatchingArgs (SequenceRow τ α)) (row cut : SequenceRow τ α) :
    Prop :=
  cut.other = row.other ∧ List.Forall₂ (fun sequence kept =>
    kept <+: sequence ∧ min (args.inputLengths row) args.inputWidth ≤ kept.length)
    row.sequences cut.sequences

theorem narrow_eq_ok {sequence kept : List τ} {length : ℕ} :
    narrow sequence length = .ok kept ↔ length ≤ sequence.length ∧ sequence.take length = kept := by
  unfold narrow
  split
  case isTrue h => simp [h]
  case isFalse h => simp [not_lt.mp h]

/-- Rows that end before the cut keep their tokens. -/
theorem keepsTokens_of_truncateTensors {d cut : BatchedDataDict (SequenceRow τ α)} {len : ℕ}
    (hreach : ∀ row ∈ d.rows, min (args.inputLengths row) args.inputWidth ≤ len)
    (h : d.truncateTensors len = .ok cut) :
    List.Forall₂ (KeepsTokens args) d.rows cut.rows := by
  obtain ⟨rows, hrows, h⟩ := bind_eq_ok.mp h
  obtain rfl := Except.ok.inj h
  have hall := (List.forall₂_and_left _ _).mpr ⟨hreach, mapM_eq_ok.mp hrows⟩
  refine List.Forall₂.imp (fun row cut hcut => ?_) hall
  obtain ⟨hle, hcut⟩ := hcut
  obtain ⟨sequences, hsequences, hcut⟩ := bind_eq_ok.mp hcut
  obtain rfl := Except.ok.inj hcut
  refine ⟨rfl, List.Forall₂.imp (fun sequence kept hkept => ?_) (mapM_eq_ok.mp hsequences)⟩
  obtain ⟨hlen, rfl⟩ := narrow_eq_ok.mp hkept
  exact ⟨List.take_prefix len sequence, by rwa [List.length_take, Nat.min_eq_left hlen]⟩

theorem exists_truncateTensors {d : BatchedDataDict (SequenceRow τ α)} {len : ℕ}
    (h : ∀ row ∈ d.rows, ∀ sequence ∈ row.sequences, len ≤ sequence.length) :
    ∃ cut, d.truncateTensors len = .ok cut := by
  have hrows : ∀ row ∈ d.rows, ∃ cut, (do
      let sequences ← row.sequences.mapM (narrow · len)
      return { row with sequences } : Except PyError (SequenceRow τ α)) = .ok cut := by
    intro row hrow
    obtain ⟨sequences, hsequences⟩ := exists_mapM (f := (narrow · len)) fun sequence hs =>
      ⟨_, narrow_eq_ok.mpr ⟨h row hrow sequence hs, rfl⟩⟩
    exact ⟨_, bind_eq_ok.mpr ⟨sequences, hsequences, rfl⟩⟩
  obtain ⟨rows, hrows⟩ := exists_mapM hrows
  exact ⟨_, bind_eq_ok.mpr ⟨rows, hrows, rfl⟩⟩

theorem slice_eq_ok {d part : BatchedDataDict (SequenceRow τ α)} {start stop : ℕ} :
    d.slice start stop = .ok part ↔
      stop ≤ d.rows.length ∧ { rows := slice d.rows start stop } = part := by
  unfold BatchedDataDict.slice
  split
  case isTrue h => simp [h, sliceRows, slice]
  case isFalse h => simp [h]

/-- The micro-batches of a batch whose ranges tile it keep the tokens of all rows. -/
theorem keepsTokens_of_iterator {d : BatchedDataDict (SequenceRow τ α)} {ranges : List (ℕ × ℕ)}
    {lens : List ℕ} {mbs : List (BatchedDataDict (SequenceRow τ α))}
    (hlens : lens.length = ranges.length) (htiles : Tiles (ranges.map toSpan) 0 d.rows.length)
    (hreach : ∀ p ∈ lens.zip ranges, ∀ row ∈ slice d.rows p.2.1 p.2.2,
      min (args.inputLengths row) args.inputWidth ≤ p.1)
    (hindices : d.microBatchIndices = some [ranges]) (hlengths : d.microBatchLengths = some [lens])
    (h : d.makeMicrobatchIteratorWithDynamicShapes = .ok mbs) :
    List.Forall₂ (KeepsTokens args) d.rows (mbs.flatMap BatchedDataDict.rows) := by
  have hrows : (lens.zip ranges).flatMap (fun p => slice d.rows p.2.1 p.2.2) = d.rows := by
    have hzip : (lens.zip ranges).map Prod.snd = ranges := List.map_snd_zip hlens.ge
    have htile := flatMap_slice d.rows (i := 0) htiles
    rw [slice_length, List.drop_zero] at htile
    conv_rhs => rw [← htile, ← hzip, List.flatMap_map]
  simp only [BatchedDataDict.makeMicrobatchIteratorWithDynamicShapes, hindices, hlengths] at h
  have hparts : List.Forall₂ (fun p mb => List.Forall₂ (KeepsTokens args)
      (slice d.rows p.2.1 p.2.2) mb.rows) (lens.zip ranges) mbs := by
    refine List.Forall₂.imp (fun p mb hmb => ?_)
      ((List.forall₂_and_left _ _).mpr ⟨hreach, mapM_eq_ok.mp h⟩)
    obtain ⟨hle, hmb⟩ := hmb
    obtain ⟨part, hpart, hmb⟩ := bind_eq_ok.mp hmb
    obtain ⟨-, rfl⟩ := slice_eq_ok.mp hpart
    exact keepsTokens_of_truncateTensors hle hmb
  rw [← hrows, List.flatMap_def, List.flatMap_def]
  refine List.rel_flatten ?_
  rwa [List.forall₂_map_left_iff, List.forall₂_map_right_iff]

theorem exists_iterator {d : BatchedDataDict (SequenceRow τ α)} {ranges : List (ℕ × ℕ)}
    {lens : List ℕ} (htiles : Tiles (ranges.map toSpan) 0 d.rows.length)
    (hwide : ∀ p ∈ lens.zip ranges, ∀ row ∈ d.rows, ∀ sequence ∈ row.sequences,
      p.1 ≤ sequence.length)
    (hindices : d.microBatchIndices = some [ranges])
    (hlengths : d.microBatchLengths = some [lens]) :
    ∃ mbs, d.makeMicrobatchIteratorWithDynamicShapes = .ok mbs := by
  simp only [BatchedDataDict.makeMicrobatchIteratorWithDynamicShapes, hindices, hlengths]
  refine exists_mapM fun p hp => ?_
  have hrange := htiles.mem (List.mem_map_of_mem (List.of_mem_zip hp).2)
  have hstop : p.2.2 ≤ d.rows.length := Int.ofNat_le.mp hrange.2.2
  obtain ⟨cut, hcut⟩ := exists_truncateTensors (d := { rows := slice d.rows p.2.1 p.2.2 })
    fun row hrow => hwide p hp row (List.mem_of_mem_drop (List.mem_of_mem_take hrow))
  exact ⟨cut, bind_eq_ok.mpr ⟨_, slice_eq_ok.mpr ⟨hstop, rfl⟩, hcut⟩⟩

/-- The recorded length of a micro-batch reaches the end of its rows in every shard. -/
theorem Fits.reaches_row {ρ : Type} {args : DynamicBatchingArgs ρ} {shards : List (List ρ)}
    {chunkStart : ℕ} {mb : (ℕ × ℕ) × ℕ} (h : Fits args shards chunkStart mb)
    {shard : List ρ} (hs : shard ∈ shards) :
    ∀ row ∈ slice shard (chunkStart + mb.1.1) (chunkStart + mb.1.2),
      min (args.inputLengths row) args.inputWidth ≤ mb.2 := by
  intro row hrow
  obtain ⟨j, hj⟩ := List.mem_iff_getElem?.mp hrow
  have hlt := (List.getElem?_eq_some_iff.mp hj).1
  rw [slice, List.length_take] at hlt
  rw [slice, List.getElem?_take_of_lt (by omega), List.getElem?_drop, Nat.add_assoc] at hj
  obtain ⟨len, hround, hlen, hclip⟩ := h.reaches (mb.1.1 + j) (Nat.le_add_right _ _) (by omega)
  obtain ⟨row', hrow', hle⟩ := (maxSeqlenAt_le_iff hlen len).mp le_rfl shard hs
  obtain rfl : row = row' := Option.some.inj (hj.symm.trans hrow')
  calc min (args.inputLengths row) args.inputWidth
      ≤ args.clip (args.inputLengths row) := min_le_min_right _ (le_roundUp hround _)
    _ ≤ args.clip len := args.clip_mono hle
    _ ≤ mb.2 := hclip

/-- The recorded lengths are not longer than the tensors. -/
theorem planned_length_le {ρ : Type} {args : DynamicBatchingArgs ρ} {shards : List (List ρ)}
    {size c : ℕ} {plan : List ((ℕ × ℕ) × ℕ)} (h : planChunk args shards size c = .ok plan) :
    ∀ mb ∈ plan, mb.2 ≤ args.inputWidth := by
  refine (planChunk_spec h args.inputWidth).mpr fun i hi => ?_
  obtain ⟨len, hlen⟩ := planChunk_reads h hi
  exact ⟨len, hlen, min_le_right _ _⟩

end Iterator

/-! ## The whole batch -/

section Whole
variable {τ α : Type} {d : BatchedDataDict (SequenceRow τ α)}
  {args : DynamicBatchingArgs (SequenceRow τ α)} {rand : Shuffle}
  {shards size numChunks : ℕ} {batchSize : Option ℕ}

/-- What the ranges and lengths of one chunk promise to one shard: the ranges tile the chunk, the
tokens of each micro-batch fit, and its length reaches the end of its rows. -/
structure ChunkFits (args : DynamicBatchingArgs (SequenceRow τ α)) (size c : ℕ)
    (rows : List (SequenceRow τ α)) (ranges : List (ℕ × ℕ)) (lens : List ℕ) : Prop where
  length : lens.length = ranges.length
  tiles : Tiles (ranges.map toSpan) 0 size
  tokens : ∀ p ∈ lens.zip ranges, (p.2.2 - p.2.1) * p.1 ≤ args.maxTokensPerMicrobatch
  reaches : ∀ p ∈ lens.zip ranges, ∀ row ∈ slice rows (c * size + p.2.1) (c * size + p.2.2),
    min (args.inputLengths row) args.inputWidth ≤ p.1

/-- What the micro-batches of one chunk of a shard keep of its rows. The iterator returns when the
sequences are as wide as the input ids. -/
structure ChunkKeeps (args : DynamicBatchingArgs (SequenceRow τ α)) (size c : ℕ)
    (shard : BatchedDataDict (SequenceRow τ α)) : Prop where
  keeps : ∀ chunk mbs, shard.getBatch c (some size) = .ok chunk →
    chunk.makeMicrobatchIteratorWithDynamicShapes = .ok mbs →
    List.Forall₂ (KeepsTokens args) (slice shard.rows (c * size) ((c + 1) * size))
      (mbs.flatMap BatchedDataDict.rows)
  returns : (∀ row ∈ shard.rows, ∀ sequence ∈ row.sequences, args.inputWidth ≤ sequence.length) →
    ∃ chunk mbs, shard.getBatch c (some size) = .ok chunk ∧
      chunk.makeMicrobatchIteratorWithDynamicShapes = .ok mbs

theorem chunkFits_of_planChunk {shardRows : List (List (SequenceRow τ α))} {c : ℕ}
    {plan : List ((ℕ × ℕ) × ℕ)} {rows : List (SequenceRow τ α)} (hsize : 0 < size)
    (h : planChunk args shardRows size c = .ok plan) (hrows : rows ∈ shardRows) :
    ChunkFits args size c rows (plan.map Prod.fst) (plan.map Prod.snd) := by
  obtain ⟨htiles, hfits⟩ := planChunk_planned hsize h
  have hzip : ∀ p ∈ (plan.map Prod.snd).zip (plan.map Prod.fst), (p.2, p.1) ∈ plan := by
    intro p hp
    rw [List.zip_map'] at hp
    obtain ⟨mb, hmb, rfl⟩ := List.mem_map.mp hp
    exact hmb
  exact {
    length := by simp
    tiles := htiles
    tokens := fun p hp => (hfits _ (hzip p hp)).tokens
    reaches := fun p hp => (hfits _ (hzip p hp)).reaches_row hrows }

theorem getBatch_of_plans {shard : BatchedDataDict (SequenceRow τ α)}
    {indices : List (List (ℕ × ℕ))} {lengths : List (List ℕ)} {c : ℕ} {ranges : List (ℕ × ℕ)}
    {lens : List ℕ} (hcounts : shard.elemCountsPerGb = none)
    (hindices : shard.microBatchIndices = some indices) (hranges : indices[c]? = some ranges)
    (hlengths : shard.microBatchLengths = some lengths) (hlens : lengths[c]? = some lens)
    (hlen : (c + 1) * size ≤ shard.rows.length) :
    shard.getBatch c (some size) =
      .ok ⟨slice shard.rows (c * size) ((c + 1) * size), some [ranges], some [lens], none⟩ := by
  have hslice : shard.slice (c * size) ((c + 1) * size) =
      .ok { rows := slice shard.rows (c * size) ((c + 1) * size) } :=
    slice_eq_ok.mpr ⟨hlen, rfl⟩
  simp only [BatchedDataDict.getBatch, hcounts, Nat.mul_comm size, hslice,
    BatchedDataDict.withPlan, hindices, hlengths, BatchedDataDict.getOrRaise, hranges, hlens, bind,
    Except.bind, pure, Except.pure]

/-- The micro-batches of a chunk keep its tokens. -/
theorem ChunkFits.keeps {shard : BatchedDataDict (SequenceRow τ α)} {c : ℕ}
    {ranges : List (ℕ × ℕ)} {lens : List ℕ} (h : ChunkFits args size c shard.rows ranges lens)
    (hwide : ∀ len ∈ lens, len ≤ args.inputWidth) (hlen : (c + 1) * size ≤ shard.rows.length)
    (hbatch : shard.getBatch c (some size) =
      .ok ⟨slice shard.rows (c * size) ((c + 1) * size), some [ranges], some [lens], none⟩) :
    ChunkKeeps args size c shard := by
  have hend : (c + 1) * size = c * size + size := Nat.succ_mul c size
  have htiles : Tiles (ranges.map toSpan) 0
      (slice shard.rows (c * size) ((c + 1) * size)).length := by
    rw [length_slice hlen, hend, Nat.add_sub_cancel_left]
    exact h.tiles
  constructor
  · intro chunk mbs hchunk hmbs
    obtain rfl := Except.ok.inj (hbatch.symm.trans hchunk)
    refine keepsTokens_of_iterator h.length htiles ?_ rfl rfl hmbs
    intro p hp
    have hstop : p.2.2 ≤ size := Int.ofNat_le.mp
      (h.tiles.mem (List.mem_map_of_mem (List.of_mem_zip hp).2)).2.2
    rw [slice_slice _ (by omega)]
    exact h.reaches p hp
  · intro hsequences
    have hlong : ∀ p ∈ lens.zip ranges, ∀ row ∈ slice shard.rows (c * size) ((c + 1) * size),
        ∀ sequence ∈ row.sequences, p.1 ≤ sequence.length := by
      intro p hp row hrow sequence hseq
      refine (hwide p.1 (List.of_mem_zip hp).1).trans (hsequences row ?_ sequence hseq)
      exact List.mem_of_mem_drop (List.mem_of_mem_take hrow)
    obtain ⟨mbs, hmbs⟩ := exists_iterator (d := ⟨_, some [ranges], some [lens], none⟩)
      htiles hlong rfl rfl
    exact ⟨_, mbs, hbatch, hmbs⟩

/-- When lengths are rounded to a positive multiple, dynamic batching returns just if every padded
row fits into a micro-batch. Whenever it returns, all shards have the same ranges and lengths. In
every chunk the ranges are not empty and tile it, the tokens of each micro-batch fit, its length
reaches the end of each of its rows in each of the shards, and the micro-batches of the chunk are
its rows in order with all tokens before their ends. -/
theorem dynamic_covers_and_fits (hsize : batchSize.getD d.rows.length = shards * size)
    (hpos : 0 < shards * size) (hrows : d.rows.length = numChunks * (shards * size)) :
    (0 < args.sequenceLengthRound →
      ((∃ result, d.shardByBatchSize rand shards batchSize false (some args) none = .ok result) ↔
        ∀ row ∈ d.rows, args.clip (args.inputLengths row) ≤ args.maxTokensPerMicrobatch)) ∧
    ∀ sharded order,
      d.shardByBatchSize rand shards batchSize false (some args) none = .ok (sharded, order) →
      sharded.length = shards ∧ ∃ indices lengths,
        indices.length = numChunks ∧ lengths.length = numChunks ∧
        ∀ shard ∈ sharded, shard.rows.length = numChunks * size ∧
          shard.microBatchIndices = some indices ∧ shard.microBatchLengths = some lengths ∧
          ∀ c < numChunks, (∃ ranges lens, indices[c]? = some ranges ∧ lengths[c]? = some lens ∧
            ChunkFits args size c shard.rows ranges lens) ∧ ChunkKeeps args size c shard := by
  refine ⟨shardByBatchSize_isOk_iff hsize hpos hrows, fun sharded order h => ?_⟩
  obtain ⟨n, s, plans, hs, hn, hshards, -, hcount, hshard, hplans⟩ := plans_of_shardByBatchSize h
  obtain rfl : size = s := Nat.eq_of_mul_eq_mul_left hshards (hsize.symm.trans hs)
  obtain rfl : numChunks = n := Nat.eq_of_mul_eq_mul_right hpos (hrows.symm.trans hn)
  have hplansLen : plans.length = numChunks := by
    simpa using (mapM_eq_ok.mp hplans).length_eq.symm
  refine ⟨hcount, plans.map (List.map Prod.fst), plans.map (List.map Prod.snd),
    by simpa using hplansLen, by simpa using hplansLen, fun shard hmem => ?_⟩
  obtain ⟨hlen, hindices, hlengths, hcounts⟩ := hshard shard hmem
  refine ⟨hlen, hindices, hlengths, fun c hc => ?_⟩
  obtain ⟨plan, hplan⟩ : ∃ plan, plans[c]? = some plan :=
    ⟨_, List.getElem?_eq_getElem (hplansLen ▸ hc)⟩
  obtain ⟨c', hc', hmade⟩ := getElem?_of_mapM hplans hplan
  obtain rfl : c = c' := Option.some.inj ((List.getElem?_range hc).symm.trans hc')
  have hranges : (plans.map (List.map Prod.fst))[c]? = some (plan.map Prod.fst) := by
    rw [List.getElem?_map, hplan, Option.map_some]
  have hlens : (plans.map (List.map Prod.snd))[c]? = some (plan.map Prod.snd) := by
    rw [List.getElem?_map, hplan, Option.map_some]
  have hfits := chunkFits_of_planChunk (Nat.pos_of_mul_pos_left hpos) hmade
    (List.mem_map_of_mem hmem)
  have hend : (c + 1) * size ≤ shard.rows.length := hlen ▸ Nat.mul_le_mul_right size hc
  refine ⟨⟨_, _, hranges, hlens, hfits⟩, hfits.keeps (fun len hmb => ?_) hend
    (getBatch_of_plans hcounts hindices hranges hlengths hlens hend)⟩
  obtain ⟨mb, hmem, rfl⟩ := List.mem_map.mp hmb
  exact planned_length_le hmade mb hmem

end Whole

/-- Four rows of width five. -/
def fourRows : BatchedDataDict (SequenceRow ℕ ℕ) where
  rows := [⟨[[1, 2, 3, 0, 0]], 3⟩, ⟨[[4, 0, 0, 0, 0]], 1⟩, ⟨[[5, 6, 7, 8, 9]], 5⟩,
    ⟨[[1, 2, 0, 0, 0]], 2⟩]

/-- Micro-batches of at most six tokens, of even lengths. -/
def evenArgs : DynamicBatchingArgs (SequenceRow ℕ ℕ) := ⟨6, 2, 5, SequenceRow.other⟩

/-- Two shards of two rows. -/
theorem fourRows_fit : ∃ result, fourRows.shardByBatchSize Shuffle.inOrder 2 none false
    (some evenArgs) none = .ok result :=
  ((@dynamic_covers_and_fits ℕ ℕ fourRows evenArgs Shuffle.inOrder 2 2 1 none rfl (by decide)
    rfl).1 (by decide)).mpr (by decide)

end NemoRL.Distributed
