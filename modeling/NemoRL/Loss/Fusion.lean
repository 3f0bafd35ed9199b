import NemoRL.Distributed.PackedLogprobs
import NemoRL.Loss.Microbatch
import NemoRL.Loss.Prepare

/-!
# The fused loss of packed sequences

The log probabilities of a packed microbatch, unpacked into rows, begin with those that are
prepared for each sequence alone, and a loss does not depend on what is masked behind the
last token. So the loss of all sequences at once is the sum of the losses of the sequences.

## Main definitions

* `PackedMicrobatch` — a microbatch and its packed logits.

## Main results

* `preparePackedLossInput_eq` — the input of the fused loss.
* `prepareLossInput_eq` — the input of the loss of one sequence.
* `fusedLoss_eq_packedLoss` — the losses are the same.
-/

namespace NemoRL.Loss

open Distributed Lib

variable {L T K : Type}

/-! ## Packed microbatches -/

/-- A microbatch whose sequences are packed. The tokens behind the end of a sequence are
masked, and its padded length can be distributed over the ranks. A row of one column is not
cut off at the length of the sequence, so that the sequence needs a position. -/
structure PackedMicrobatch (L T K : Type) [Zero K] (cpSize B : ℕ) where
  data : Fin B → Sample T K
  width : ℕ
  seqLengths : Fin B → ℕ
  paddedLengths : Fin B → ℕ
  logits : List L
  cuSeqlensQPadded : Option (List ℕ)
  width_pos : 0 < width
  length_inputIds : ∀ i, (data i).inputIds.length = width
  length_tokenMask : ∀ i, (data i).tokenMask.length = width
  seqLengths_le : ∀ i, seqLengths i ≤ width
  le_paddedLengths : ∀ i, seqLengths i ≤ paddedLengths i
  paddedLengths_pos : width = 1 → ∀ i, 0 < paddedLengths i
  dvd_paddedLengths : 1 < cpSize → ∀ i, 2 * cpSize ∣ paddedLengths i
  masked : ∀ i t, seqLengths i ≤ t → (data i).tokenMask.getD t 0 = 0
  currLogprobsUnfiltered_eq : ∀ i, (data i).currLogprobsUnfiltered = none
  cuSeqlensQPadded_eq :
    cuSeqlensQPadded.getD (cumulative 0 ((List.finRange B).map seqLengths)) =
      cumulative 0 ((List.finRange B).map paddedLengths)
  length_logits : logits.length = ((List.finRange B).map paddedLengths).sum

namespace PackedMicrobatch

section Positions
variable [Zero T] [Zero K] {cpSize B : ℕ} (batch : PackedMicrobatch L T K cpSize B)

/-- The bounds of the sequences. -/
def cuSeqlensQ : List ℕ := cumulative 0 ((List.finRange B).map batch.seqLengths)

/-- The logits that a rank holds. -/
def logitsOnRank (rank : ℕ) : List L :=
  packedOnRank batch.logits (cumulative 0 ((List.finRange B).map batch.paddedLengths)) rank cpSize

/-- The padded token ids of a sequence. -/
def paddedIds (i : Fin B) : List T :=
  (batch.data i).inputIds.take (batch.seqLengths i) ++
    List.replicate (batch.paddedLengths i - batch.seqLengths i) 0

/-- Where a sequence starts and where it ends with its padding. -/
def position (i : Fin B) : ℕ × ℕ :=
  ((((List.finRange B).map batch.paddedLengths).take i).sum,
    (((List.finRange B).map batch.paddedLengths).take i).sum + batch.paddedLengths i)

omit [Zero T] in
theorem divides (n : ℕ) (hn : n ∈ (List.finRange B).map batch.paddedLengths)
    (hcp : 0 < cpSize) : Divides cpSize n := by
  obtain ⟨i, -, rfl⟩ := List.mem_map.mp hn
  by_cases hone : 1 < cpSize
  · exact .inr (Nat.mul_comm 2 cpSize ▸ batch.dvd_paddedLengths hone i)
  · exact .inl (by omega)

omit [Zero T] in
theorem getElem?_bounds (i : Fin B) :
    (bounds (cumulative 0 ((List.finRange B).map batch.paddedLengths)))[(i : ℕ)]? =
      some (batch.position i) := by
  rw [getElem?_bounds_cumulative]
  simp [position]

theorem length_paddedIds (i : Fin B) : (batch.paddedIds i).length = batch.paddedLengths i := by
  have hlength := batch.length_inputIds i
  have hseq := batch.seqLengths_le i
  have hpadded := batch.le_paddedLengths i
  rw [paddedIds, List.length_append, List.length_take, List.length_replicate]
  omega

theorem lens_paddedIds : ((List.finRange B).map batch.paddedIds).map List.length =
    (List.finRange B).map batch.paddedLengths := by
  rw [List.map_map]
  exact List.map_congr_left fun i _ => batch.length_paddedIds i

/-- The slice of the packed token ids at the position of a sequence. -/
theorem slice_paddedIds (i : Fin B) :
    slice ((List.finRange B).map batch.paddedIds).flatten (batch.position i).1
      (batch.position i).2 = batch.paddedIds i := by
  have hbound := batch.getElem?_bounds i
  rw [← batch.lens_paddedIds] at hbound
  have hslice := slice_bounds hbound
  rw [List.getElem?_map] at hslice
  simpa using hslice.symm

theorem map_slice_paddedIds :
    (bounds (cumulative 0 ((List.finRange B).map batch.paddedLengths))).map
      (fun p => slice ((List.finRange B).map batch.paddedIds).flatten p.1 p.2) =
      (List.finRange B).map batch.paddedIds := by
  have hslices := map_slice_bounds [] ((List.finRange B).map batch.paddedIds)
  rw [batch.lens_paddedIds] at hslices
  exact hslices

omit [Zero T] in
theorem map_position : (List.finRange B).map batch.position =
    bounds (cumulative 0 ((List.finRange B).map batch.paddedLengths)) := by
  refine List.ext_getElem? fun i => ?_
  by_cases hi : i < B
  · have hbound := batch.getElem?_bounds ⟨i, hi⟩
    rw [List.getElem?_map, hbound]
    simp [hi]
  · rw [List.getElem?_eq_none (by simpa using hi), List.getElem?_eq_none (by simpa using hi)]

/-! ## Targets -/

omit [Zero K] in
theorem paddedSequence_eq {inputIds : List T} {n p : ℕ} (hn : n ≤ inputIds.length)
    (hp : n ≤ p) :
    paddedSequence inputIds n p = .ok (inputIds.take n ++ List.replicate (p - n) 0) := by
  have hsplit : List.replicate p (0 : T) =
      [] ++ List.replicate n 0 ++ List.replicate (p - n) 0 := by
    rw [List.nil_append, List.replicate_append_replicate, Nat.add_sub_of_le hp]
  have hassign : assignSlice ([] ++ List.replicate n 0 ++ List.replicate (p - n) 0)
      ([] : List T).length (([] : List T).length + (List.replicate n (0 : T)).length)
        (inputIds.take n) = some ([] ++ inputIds.take n ++ List.replicate (p - n) 0) :=
    assignSlice_eq (by simpa using hn)
  rw [← hsplit, List.length_nil, Nat.zero_add, List.length_replicate] at hassign
  rw [paddedSequence, hassign]
  rfl

/-- The targets of a rank are its part of the rolled sequences. -/
theorem packInputIds_eq {rank : ℕ} (hrank : rank < cpSize) :
    packInputIds (((List.finRange B).map batch.data).map Sample.inputIds) batch.cuSeqlensQ
        (cumulative 0 ((List.finRange B).map batch.paddedLengths)) rank cpSize =
      .ok (partsOnRank (((List.finRange B).map batch.paddedIds).map fun part => part.rotate 1)
        rank cpSize) := by
  have hcp : 0 < cpSize := by omega
  have hdvd : ∀ n ∈ (List.finRange B).map batch.paddedLengths, Divides cpSize n :=
    fun n hn => batch.divides n hn hcp
  have hpart : ∀ i, (getTokensOnThisCpRank ((batch.paddedIds i).rotate 1) rank cpSize).length =
      batch.paddedLengths i / cpSize := by
    intro i
    have hlength : ((batch.paddedIds i).rotate 1).length = batch.paddedLengths i := by
      rw [List.length_rotate, batch.length_paddedIds]
    have hdvd' : Divides cpSize ((batch.paddedIds i).rotate 1).length :=
      hlength ▸ hdvd _ (List.mem_map_of_mem (List.mem_finRange i))
    rw [length_getTokens hdvd' hrank, hlength]
  have hparts : (List.finRange B).map (fun i =>
      (getTokensOnThisCpRank ((batch.paddedIds i).rotate 1) rank cpSize).length) =
      ((List.finRange B).map batch.paddedLengths).map (· / cpSize) := by
    rw [List.map_map]
    exact List.map_congr_left fun i _ => hpart i
  have hbounds : (List.finRange B).map (fun i =>
      ((batch.position i).1 / cpSize, (batch.position i).2 / cpSize)) =
      bounds (cumulative 0 ((List.finRange B).map fun i =>
        (getTokensOnThisCpRank ((batch.paddedIds i).rotate 1) rank cpSize).length)) := by
    rw [hparts, ← bounds_divides hdvd, ← batch.map_position, List.map_map]
    rfl
  have htotal : (cumulative 0 ((List.finRange B).map batch.paddedLengths)).getLastD 0 =
      ((List.finRange B).map batch.paddedLengths).sum := by
    rw [List.getLastD_eq_getLast?, getLast_cumulative, Nat.zero_add]
    rfl
  have hfold : (List.finRange B).foldlM (fun packed i => assignSlice packed
      ((batch.position i).1 / cpSize) ((batch.position i).2 / cpSize)
      (getTokensOnThisCpRank ((batch.paddedIds i).rotate 1) rank cpSize))
      (List.replicate (((List.finRange B).map batch.paddedLengths).sum / cpSize) 0) = some _ :=
    foldlM_assignSlice _ _ _ _ hbounds
      (by rw [List.length_replicate, hparts, sum_div hdvd])
  simp only [packInputIds, htotal, List.length_map, List.length_finRange]
  rw [← List.map_coe_finRange_eq_range, List.foldlM_map]
  refine (foldlM_of_some (fun i _ packed packed' hassign => ?_) hfold).trans ?_
  · have hbound := batch.getElem?_bounds i
    have hseq : (bounds batch.cuSeqlensQ)[(i : ℕ)]? =
        some ((((List.finRange B).map batch.seqLengths).take i).sum,
          (((List.finRange B).map batch.seqLengths).take i).sum + batch.seqLengths i) := by
      rw [cuSeqlensQ, getElem?_bounds_cumulative]
      simp
    have hids : (((List.finRange B).map batch.data).map Sample.inputIds).getD (i : ℕ) [] =
        (batch.data i).inputIds := by
      simp [List.getD_eq_getElem?_getD]
    have hpadded := paddedSequence_eq ((batch.seqLengths_le i).trans_eq
      (batch.length_inputIds i).symm) (batch.le_paddedLengths i)
    have hlength : (batch.position i).2 - (batch.position i).1 = batch.paddedLengths i :=
      Nat.add_sub_cancel_left _ _
    have hstop : (batch.position i).1 + batch.paddedLengths i = (batch.position i).2 := rfl
    simp only [item, hseq, hbound, hids, Nat.add_sub_cancel_left, hlength, hpadded, hstop, bind,
      Except.bind]
    rw [← paddedIds, hassign]
    rfl
  · rw [partsOnRank, List.map_map, List.flatMap_map]
    rfl

/-! ## Rows -/

/-- The row of a sequence. -/
def row (logprob : L → T → K) (i : Fin B) : List K :=
  serialRow logprob batch.logits ((List.finRange B).map batch.paddedIds).flatten batch.width
    (batch.position i)

/-- The logits at the position of a sequence. -/
def sequenceLogits (i : Fin B) : List L :=
  slice batch.logits (batch.position i).1 (batch.position i).2

omit [Zero T] in
theorem position_le (i : Fin B) : (batch.position i).2 ≤ batch.logits.length := by
  rw [batch.length_logits]
  exact le_sum_of_mem_bounds (List.mem_of_getElem? (batch.getElem?_bounds i))

omit [Zero T] in
theorem length_sequenceLogits (i : Fin B) :
    (batch.sequenceLogits i).length = batch.paddedLengths i := by
  have hle := batch.position_le i
  have hlength : (batch.position i).2 = (batch.position i).1 + batch.paddedLengths i := rfl
  rw [sequenceLogits, slice, List.length_take, List.length_drop]
  omega

/-- Up to its last token the row of a sequence has the log probabilities of its tokens. -/
theorem take_row (logprob : L → T → K) (i : Fin B) :
    (batch.row logprob i).take (batch.seqLengths i - 1) =
      List.zipWith logprob (batch.sequenceLogits i)
        (((batch.data i).inputIds.take (batch.seqLengths i)).drop 1) := by
  have hseq := batch.seqLengths_le i
  have hpadded := batch.le_paddedLengths i
  have hids := batch.length_inputIds i
  have hstop : (batch.position i).2 = (batch.position i).1 + batch.paddedLengths i := rfl
  refine List.ext_getElem? fun t => ?_
  rw [List.getElem?_take, List.getElem?_zipWith, List.getElem?_drop, Nat.add_comm 1 t,
    List.getElem?_take]
  by_cases ht : t < batch.seqLengths i - 1
  · have hlogit : t < (batch.sequenceLogits i).length := by
      rw [batch.length_sequenceLogits]
      omega
    have hlogits : batch.logits[(batch.position i).1 + t]? = (batch.sequenceLogits i)[t]? := by
      rw [sequenceLogits, getElem?_slice, if_pos (by omega)]
    have htoken : t + 1 < (batch.data i).inputIds.length := by omega
    have htokens : ((List.finRange B).map batch.paddedIds).flatten[(batch.position i).1 + t + 1]? =
        (batch.data i).inputIds[t + 1]? := by
      have hslice := congrArg (fun l => l[t + 1]?) (batch.slice_paddedIds i)
      simp only [getElem?_slice] at hslice
      rw [if_pos (by omega)] at hslice
      rw [Nat.add_assoc, hslice, paddedIds, List.getElem?_append_left, List.getElem?_take,
        if_pos (by omega)]
      rw [List.length_take]
      omega
    rw [if_pos ht, if_pos (by omega), row, serialRow, List.getElem?_map,
      List.getElem?_range (by omega), Option.map_some, if_pos (by omega), hlogits, htokens,
      List.getElem?_eq_getElem hlogit, List.getElem?_eq_getElem htoken]
  · rw [if_neg ht, if_neg (by omega)]
    cases (batch.sequenceLogits i)[t]? <;> rfl

end Positions

/-! ## Prepared input -/

section Input
variable [Zero T] [Field K] [DecidableEq K] {cpSize B : ℕ}
  (batch : PackedMicrobatch L T K cpSize B) (model : Model L T K) {cpRank : ℕ}

/-- The masked row of a sequence. -/
def maskedRow (i : Fin B) : List K :=
  model.maskRow (batch.row model.samplingLogprob i) (batch.data i)

/-- The row of a sequence without filtering, where it is needed. -/
def unfilteredRow (i : Fin B) : Option (List K) :=
  if model.needsUnfiltered then some (batch.row model.logprob i) else none

omit [Zero T] [DecidableEq K] in
/-- What a rank is given of the logits of a sequence. -/
theorem slice_logitsOnRank {rank : ℕ} (hrank : rank < cpSize) (i : Fin B) :
    slice (batch.logitsOnRank rank) ((batch.position i).1 / cpSize)
        ((batch.position i).2 / cpSize) =
      getTokensOnThisCpRank (batch.sequenceLogits i) rank cpSize := by
  obtain ⟨parts, -, hlens, hslices⟩ := exists_parts batch.length_logits
  have hpart : parts[(i : ℕ)]? = some (batch.sequenceLogits i) := by
    rw [← hslices, List.getElem?_map, batch.getElem?_bounds i]
    rfl
  rw [logitsOnRank, packedOnRank_eq hslices]
  exact slice_partsOnRank hlens (fun n hn => batch.divides n hn (by omega)) hrank
    (batch.getElem?_bounds i) hpart

omit [DecidableEq K] in
/-- The log probabilities of a sequence alone begin its row. -/
theorem sequenceLogprobs_eq (logprob : L → T → K) (hrank : cpRank < cpSize)
    {nextTokenLogits : ℕ → List L} (i : Fin B)
    (hlogits : ∀ rank < cpSize, nextTokenLogits rank =
      getTokensOnThisCpRank (batch.sequenceLogits i) rank cpSize) :
    getNextTokenLogprobsFromLogits logprob nextTokenLogits
        ((batch.data i).cut (batch.seqLengths i)).inputIds cpRank cpSize =
      .ok ((batch.row logprob i).take (batch.seqLengths i - 1)) := by
  have hids := batch.length_inputIds i
  have hseq := batch.seqLengths_le i
  have hpadded := batch.le_paddedLengths i
  have hwidth := batch.width_pos
  have hlength := batch.length_sequenceLogits i
  have hdvd : Divides cpSize (batch.sequenceLogits i).length :=
    hlength ▸ batch.divides _ (List.mem_map_of_mem (List.mem_finRange i)) (by omega)
  rw [batch.take_row]
  by_cases hone : batch.width = 1
  · -- a row of one column is not cut off, and has no token after the first one
    have hpos := batch.paddedLengths_pos hone i
    have hcut : ((batch.data i).cut (batch.seqLengths i)).inputIds = (batch.data i).inputIds := by
      rw [Sample.cut, cutTensor, if_neg (by omega)]
    have hnil : (batch.data i).inputIds.drop 1 = [] := by
      rw [List.drop_eq_nil_iff]
      omega
    rw [hcut, getNextTokenLogprobs_eq logprob hlogits hdvd hrank (by omega), hnil,
      List.drop_take, hnil, List.take_nil]
  · have hcut : ((batch.data i).cut (batch.seqLengths i)).inputIds =
        (batch.data i).inputIds.take (batch.seqLengths i) := by
      rw [Sample.cut, cutTensor, if_pos (by omega)]
    rw [hcut, getNextTokenLogprobs_eq logprob hlogits hdvd hrank]
    rw [List.length_take]
    omega

omit [Zero T] in
/-- Masking what begins a row. -/
theorem maskRow_take (i : Fin B) (logprobs : List K) :
    model.maskRow (logprobs.take (batch.seqLengths i - 1))
        ((batch.data i).cut (batch.seqLengths i)) =
      (model.maskRow logprobs (batch.data i)).take (batch.seqLengths i - 1) := by
  have hmask := batch.length_tokenMask i
  have hwidth := batch.width_pos
  cases hfiltering : model.filtering with
  | none => simp only [Model.maskRow, hfiltering]
  | some filtering =>
    simp only [Model.maskRow, hfiltering, maskOutNegInfLogprobs, Sample.cut, cutTensor]
    rw [List.take_zipWith]
    by_cases hone : batch.width = 1
    · have hnil : ((batch.data i).tokenMask.map (· * (batch.data i).sampleMask)).drop 1 = [] := by
        rw [List.drop_eq_nil_iff, List.length_map]
        omega
      rw [if_neg (by omega), hnil, List.take_nil]
    · rw [if_pos (by omega), List.map_take, List.drop_take]

/-- The input of the loss of one sequence. -/
theorem prepareLossInput_eq (hrank : cpRank < cpSize) {nextTokenLogits : ℕ → List L} (i : Fin B)
    (hlogits : ∀ rank < cpSize, nextTokenLogits rank =
      getTokensOnThisCpRank (batch.sequenceLogits i) rank cpSize) :
    prepareLossInput model cpRank cpSize nextTokenLogits
        ((batch.data i).cut (batch.seqLengths i)) =
      .ok ((batch.maskedRow model i).take (batch.seqLengths i - 1),
        ((batch.data i).cut (batch.seqLengths i)).withUnfiltered
          ((batch.unfilteredRow model i).map (List.take (batch.seqLengths i - 1)))) := by
  have hnone : ((batch.data i).cut (batch.seqLengths i)).withUnfiltered none =
      (batch.data i).cut (batch.seqLengths i) := by
    simp [Sample.withUnfiltered, Sample.cut, batch.currLogprobsUnfiltered_eq i]
  simp only [prepareLossInput, batch.sequenceLogprobs_eq _ hrank i hlogits, bind, Except.bind,
    pure, Except.pure, batch.maskRow_take]
  by_cases hneeds : model.needsUnfiltered
  · simp [hneeds, maskedRow, unfilteredRow]
  · simp [hneeds, maskedRow, unfilteredRow, hnone]

omit [DecidableEq K] in
/-- The rows that are unpacked from the logits of all sequences. -/
theorem packedRows_eq (logprob : L → T → K) (hrank : cpRank < cpSize) {target : ℕ → List T}
    (htarget : ∀ rank < cpSize, target rank =
      partsOnRank (((List.finRange B).map batch.paddedIds).map fun part => part.rotate 1) rank
        cpSize) :
    fromParallelLogitsToLogprobsPackedSequences logprob batch.logitsOnRank target
        (cumulative 0 ((List.finRange B).map batch.paddedLengths))
        (((((List.finRange B).map batch.data).map Sample.inputIds).map List.length).headD 1)
        cpRank cpSize true = .ok ((List.finRange B).map (batch.row logprob)) := by
  have hcp : 0 < cpSize := by omega
  have hwidths : (((List.finRange B).map batch.data).map Sample.inputIds).map List.length =
      List.replicate B batch.width := by
    simp [Function.comp_def, batch.length_inputIds]
  have hhead : 0 < (List.replicate B batch.width).headD 1 ∧
      ∀ i : Fin B, (List.replicate B batch.width).headD 1 = batch.width := by
    cases B with
    | zero => exact ⟨Nat.one_pos, fun i => i.elim0⟩
    | succ B => exact ⟨batch.width_pos, fun _ => rfl⟩
  have htokens : (((List.finRange B).map batch.paddedIds).flatten).length =
      ((List.finRange B).map batch.paddedLengths).sum := by
    rw [List.length_flatten, batch.lens_paddedIds]
  rw [hwidths]
  refine (packedLogprobs_eq logprob (fun n hn => batch.divides n hn hcp) batch.length_logits
    htokens hhead.1 hrank fun rank hr => ?_).trans ?_
  · rw [batch.map_slice_paddedIds, ← htarget rank hr]
    rfl
  · rw [serialLogprobs, ← batch.map_position, List.map_map]
    refine congrArg Except.ok (List.map_congr_left fun i _ => ?_)
    rw [hhead.2 i]
    rfl

/-- The input of the fused loss. -/
theorem preparePackedLossInput_eq (hrank : cpRank < cpSize) :
    preparePackedLossInput model cpRank cpSize batch.cuSeqlensQ
        (cumulative 0 ((List.finRange B).map batch.paddedLengths)) batch.logitsOnRank
        ((List.finRange B).map batch.data) =
      .ok ((List.finRange B).map (batch.maskedRow model), (List.finRange B).map fun i =>
        (batch.data i).withUnfiltered (batch.unfilteredRow model i)) := by
  have htargets : ∀ rank ∈ List.range cpSize, packInputIds
      (((List.finRange B).map batch.data).map Sample.inputIds) batch.cuSeqlensQ
      (cumulative 0 ((List.finRange B).map batch.paddedLengths)) rank cpSize =
      .ok (partsOnRank (((List.finRange B).map batch.paddedIds).map fun part => part.rotate 1)
        rank cpSize) :=
    fun rank hr => batch.packInputIds_eq (List.mem_range.mp hr)
  have htarget : ∀ rank < cpSize, ((List.range cpSize).map fun rank => partsOnRank
      (((List.finRange B).map batch.paddedIds).map fun part => part.rotate 1) rank
        cpSize).getD rank [] = partsOnRank
      (((List.finRange B).map batch.paddedIds).map fun part => part.rotate 1) rank cpSize := by
    intro rank hr
    rw [List.getD_eq_getElem?_getD, List.getElem?_map, List.getElem?_range hr]
    rfl
  have hrows : List.zipWith model.maskRow
      ((List.finRange B).map (batch.row model.samplingLogprob)) ((List.finRange B).map batch.data) =
      (List.finRange B).map (batch.maskedRow model) := by
    rw [List.zipWith_map, List.zipWith_self]
    rfl
  simp only [preparePackedLossInput, mapM_of_forall htargets, batch.packedRows_eq _ hrank htarget,
    hrows, bind, Except.bind, pure, Except.pure]
  by_cases hneeds : model.needsUnfiltered
  · have hunfiltered : List.zipWith (fun u sample => Sample.withUnfiltered (some u) sample)
        ((List.finRange B).map (batch.row model.logprob)) ((List.finRange B).map batch.data) =
        (List.finRange B).map fun i =>
          (batch.data i).withUnfiltered (batch.unfilteredRow model i) := by
      rw [List.zipWith_map, List.zipWith_self]
      simp only [unfilteredRow, if_pos hneeds]
    rw [if_pos hneeds, hunfiltered]
  · have hdata : (List.finRange B).map batch.data = (List.finRange B).map fun i =>
        (batch.data i).withUnfiltered (batch.unfilteredRow model i) := by
      refine List.map_congr_left fun i _ => ?_
      rw [unfilteredRow, if_neg hneeds, Sample.withUnfiltered, ← batch.currLogprobsUnfiltered_eq i]
    rw [if_neg hneeds, ← hdata]

theorem length_maskedRow (i : Fin B) :
    (batch.maskedRow model i).length = (batch.data i).tokenMask.length - 1 := by
  have hmask := batch.length_tokenMask i
  have hrow : ∀ logprob, (batch.row logprob i).length = batch.width - 1 := by
    intro logprob
    rw [row, serialRow, List.length_map, List.length_range]
  cases hfiltering : model.filtering with
  | none => simp only [maskedRow, Model.maskRow, hfiltering, hrow, hmask]
  | some filtering =>
    simp only [maskedRow, Model.maskRow, hfiltering, maskOutNegInfLogprobs, List.length_zipWith,
      hrow, List.length_drop, List.length_map, hmask, Nat.min_self]

/-- The microbatch with the input that is prepared for each sequence. -/
def preparedBatch (hrank : cpRank < cpSize) : PreparedBatch L batch.data where
  seqLengths := batch.seqLengths
  cuSeqlensQPadded := batch.cuSeqlensQPadded
  cpSize := cpSize
  prepareFn := prepareLossInput model cpRank cpSize
  nextTokenLogits := batch.logitsOnRank
  logprobs := batch.maskedRow model
  unfiltered := batch.unfilteredRow model
  length_logprobs := batch.length_maskedRow model
  masked := batch.masked
  length_padded := by
    rw [batch.cuSeqlensQPadded_eq]
    simp
  prepared i := by
    have hn : ((List.finRange B).map batch.seqLengths)[(i : ℕ)]? = some (batch.seqLengths i) := by
      simp
    have hp : ((List.finRange B).map batch.paddedLengths)[(i : ℕ)]? =
        some (batch.paddedLengths i) := by
      simp
    have hsample : ((List.finRange B).map batch.data)[(i : ℕ)]? = some (batch.data i) := by simp
    have hlength : ∀ rank < cpSize,
        (batch.position i).2 / cpSize ≤ (batch.logitsOnRank rank).length := by
      intro rank hr
      obtain ⟨parts, -, hlens, hslices⟩ := exists_parts batch.length_logits
      have htotal := length_partsOnRank hlens (fun n hn => batch.divides n hn (by omega)) hr
      rw [← packedOnRank_eq hslices, ← batch.length_logits] at htotal
      have hle := batch.position_le i
      rw [← htotal] at hle
      exact Nat.div_le_of_le_mul (hle.trans_eq (Nat.mul_comm _ _))
    rw [prepareSequence_eq batch.cuSeqlensQPadded_eq hn hp hsample hlength]
    refine batch.prepareLossInput_eq model hrank i fun rank hr => ?_
    rw [List.getD_eq_getElem?_getD, List.getElem?_map, List.getElem?_range hr]
    exact batch.slice_logitsOnRank hr i

/-- A loss to which each row adds its own loss is the same at once and for each sequence. -/
theorem fusionWrapper_eq_packingWrapper (hrank : cpRank < cpSize) {lossFn : LossFn T K}
    {value : List (Row K) → K} {force : Bool}
    (hvalue : ∀ logprobs data, lossFn logprobs data =
      .ok (value (List.zipWith (Sample.row force) logprobs data)))
    (hextends : ∀ row' row : Row K, row'.Extends row → value [row'] = value [row])
    (hsum : ∀ rows, value rows = (rows.map fun row => value [row]).sum) :
    ∃ loss, sequencePackingFusionLossWrapper lossFn batch.cuSeqlensQ batch.cuSeqlensQPadded
        (preparePackedLossInput model cpRank cpSize) batch.logitsOnRank
        ((List.finRange B).map batch.data) = .ok loss ∧
      sequencePackingLossWrapper lossFn batch.cuSeqlensQ batch.cuSeqlensQPadded cpSize
        (prepareLossInput model cpRank cpSize) batch.logitsOnRank
        ((List.finRange B).map batch.data) = .ok loss := by
  have hpacked := (batch.preparedBatch model hrank).packedLoss_eq_loss hvalue hextends hsum
  have hloss := (batch.preparedBatch model hrank).loss_eq hvalue
  have hcu : batch.cuSeqlensQPadded.getD batch.cuSeqlensQ =
      cumulative 0 ((List.finRange B).map batch.paddedLengths) := batch.cuSeqlensQPadded_eq
  refine ⟨_, ?_, hpacked.trans hloss⟩
  rw [sequencePackingFusionLossWrapper, hcu, batch.preparePackedLossInput_eq model hrank]
  exact hloss

end Input

end PackedMicrobatch

/-! ## The losses -/

section Losses
variable [Zero T] [Field K] [LinearOrder K] {cpSize B cpRank : ℕ}

end Losses

/-- Two sequences of three and two tokens, padded to four positions each, for two ranks. -/
def twoSequences : PackedMicrobatch ℕ ℕ ℚ 2 2 where
  data i := {
    inputIds := [[5, 6, 7], [8, 9, 0]].getD i []
    tokenMask := [[0, 1, 1], [0, 1, 0]].getD i []
    sampleMask := 1
    advantages := [1, 1, 1]
    prevLogprobs := [0, -1, -1]
    generationLogprobs := [0, -1, -1]
    referencePolicyLogprobs := [0, -1, -1] }
  width := 3
  seqLengths i := [3, 2].getD i 0
  paddedLengths _ := 4
  logits := List.range 8
  cuSeqlensQPadded := some [0, 4, 8]
  width_pos := by decide
  length_inputIds := by decide
  length_tokenMask := by decide
  seqLengths_le := by decide
  le_paddedLengths := by decide
  paddedLengths_pos := by decide
  dvd_paddedLengths := by decide
  masked := by
    intro i t ht
    match i, t with
    | 0, t + 3 => rfl
    | 1, 2 => rfl
    | 1, t + 3 => rfl
  currLogprobsUnfiltered_eq _ := rfl
  cuSeqlensQPadded_eq := by decide
  length_logits := by decide

end NemoRL.Loss
