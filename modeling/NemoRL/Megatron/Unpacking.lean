import NemoRL.Megatron.PackedLayout
import Mathlib.Algebra.GroupWithZero.WithZero

/-!
# Unpacking what was packed for Megatron

The output of the model has one element for each position of the packed sequence. Unpacking
cuts out what belongs to the tokens of each sequence. Where a sequence starts is looked up in
the running totals of the padded lengths under context parallelism, and in those of the
lengths without it. Packing pads the sequences in both cases. All batches that packing accepts
are considered, also those with a length to pad to that does not hold the tokens.

## Main definitions

* `unpackSequencesFromMegatron` — the output of the tokens of each sequence.
* `UndoesPacking` — each token has the output at its packed position.

## Main results

* `packSequencesForMegatron_held` — the layout of every packed sequence.
* `undoesPacking_iff` — when unpacking undoes packing.
-/

namespace NemoRL.Megatron

open Lib Distributed

/-! ## Unpacking -/

section Unpack
variable {V : Type} [Zero V]

/-- The output of the tokens of a sequence. -/
def tokenOutputs (outputTensor : List V) (cuSeqlens : List ℕ) (cuSeqlensPadded : Option (List ℕ))
    (cpSize b seqLen : ℕ) : Except PyError (List V) :=
  match if cpSize > 1 then cuSeqlensPadded else none with
  | some cuSeqlensPadded => do
    let startIdx ← entry cuSeqlensPadded b
    return slice outputTensor startIdx (startIdx + seqLen)
  | none => do
    let startIdx ← entry cuSeqlens b
    let endIdx ← entry cuSeqlens (b + 1)
    return slice outputTensor startIdx endIdx

/-- The output of the tokens of each sequence, filled up with zeros. -/
def unpackSequencesFromMegatron (outputTensor : List V) (seqLengths cuSeqlens : List ℕ)
    (cuSeqlensPadded : Option (List ℕ)) (originalBatchSize originalSeqLength cpSize : ℕ) :
    Except PyError (List (List V)) :=
  (List.range originalBatchSize).mapM fun b => do
    let seqLen ← entry seqLengths b
    let tokens ← tokenOutputs outputTensor cuSeqlens cuSeqlensPadded cpSize b seqLen
    match assignSlice (List.replicate originalSeqLength 0) 0 seqLen tokens with
    | some row => return row
    | none => throw ⟨.runtimeError, s!"The expanded size of the tensor ({seqLen}) must match " ++
        s!"the existing size ({tokens.length}) at non-singleton dimension 0."⟩

end Unpack

/-- A batch whose tokens are named by their sequence and their position in it. -/
def tokenNames (batchSize seqLength : ℕ) : List (List (WithZero (ℕ × ℕ))) :=
  (List.range batchSize).map fun b => (List.range seqLength).map fun t => ((b, t) : ℕ × ℕ)

/-- Where a token is in a packed batch of names. -/
def packedPosition (names : PackedSequences (WithZero (ℕ × ℕ))) (b t : ℕ) : ℕ :=
  names.allInputIds.idxOf (((b, t) : ℕ × ℕ) : WithZero (ℕ × ℕ))

/-- Unpacking returns for each token the output at its packed position. -/
def UndoesPacking {T V : Type} [Zero V] (output : List V) (seqLengths : List ℕ)
    (params : PackSequenceParameters) (cpRank cpSize seqLength : ℕ) (packed : PackedSequences T) :
    Prop :=
  ∃ names unpacked,
    packSequencesForMegatron (tokenNames seqLengths.length seqLength) seqLengths params cpRank
      cpSize = .ok names ∧
    unpackSequencesFromMegatron output seqLengths packed.cuSeqlens (some packed.cuSeqlensPadded)
      seqLengths.length seqLength cpSize = .ok unpacked ∧
    ∀ b seqLen t : ℕ, seqLengths[b]? = some seqLen → t < seqLen →
      ∃ row v, unpacked[b]? = some row ∧ row[t]? = some v ∧
        output[packedPosition names b t]? = some v

/-! ## What packing holds -/

section Held
variable {T : Type} [Zero T] {params : PackSequenceParameters} {seqLengths : List ℕ}
  {inputIds : List (List T)} {cpRank cpSize : ℕ}

/-- The length of a sequence that others follow. -/
def roundedLength (params : PackSequenceParameters) (seqLen : ℕ) : ℕ :=
  if params.needsPadding then roundUp seqLen params.padIndividualSeqsToMultipleOf else seqLen

/-- The lengths of sequences that are padded one by one, behind others of total length
`running`. A last sequence that does not fit is not cut off. -/
def heldLengthsFrom (params : PackSequenceParameters) (running : ℕ) : List ℕ → List ℕ
  | [] => []
  | [n] =>
    [max n (packedTotal params (running + roundUp n params.padIndividualSeqsToMultipleOf) -
      running)]
  | n :: m :: ns =>
    roundUp n params.padIndividualSeqsToMultipleOf ::
      heldLengthsFrom params (running + roundUp n params.padIndividualSeqsToMultipleOf) (m :: ns)

/-- The lengths that the sequences have in the packed sequence. -/
def heldLengths (params : PackSequenceParameters) (seqLengths : List ℕ) : List ℕ :=
  if params.padIndividualSeqsToMultipleOf > 1 then heldLengthsFrom params 0 seqLengths
  else if params.needsPadding then
    extendLast (packedTotal params seqLengths.sum - seqLengths.sum) seqLengths
  else seqLengths

theorem forall₂_le_heldLengthsFrom (hf : 0 < params.padIndividualSeqsToMultipleOf) (running : ℕ)
    (seqLengths : List ℕ) :
    List.Forall₂ (· ≤ ·) seqLengths (heldLengthsFrom params running seqLengths) := by
  fun_induction heldLengthsFrom params running seqLengths with
  | case1 => exact .nil
  | case2 running n => exact .cons (le_max_left ..) .nil
  | case3 running n m ns ih => exact .cons (le_roundUp hf n) ih

theorem forall₂_le_heldLengths (params : PackSequenceParameters) (seqLengths : List ℕ) :
    List.Forall₂ (· ≤ ·) seqLengths (heldLengths params seqLengths) := by
  have hself : List.Forall₂ (· ≤ ·) seqLengths seqLengths := List.forall₂_same.mpr fun _ _ => le_rfl
  rw [heldLengths]
  split_ifs with hf hneeds
  · exact forall₂_le_heldLengthsFrom (by omega) 0 seqLengths
  · exact forall₂_extendLast hself _
  · exact hself

/-- What is in front of a sequence has the rounded lengths. -/
theorem take_heldLengthsFrom (running : ℕ) (seqLengths : List ℕ) {b : ℕ}
    (hb : b < seqLengths.length) :
    (heldLengthsFrom params running seqLengths).take b =
      (seqLengths.take b).map (roundUp · params.padIndividualSeqsToMultipleOf) := by
  fun_induction heldLengthsFrom params running seqLengths generalizing b with
  | case1 => exact absurd hb (Nat.not_lt_zero b)
  | case2 running n =>
    obtain rfl : b = 0 := by simpa using hb
    rfl
  | case3 running n m ns ih =>
    cases b with
    | zero => rfl
    | succ b => rw [List.take_succ_cons, List.take_succ_cons, List.map_cons, ih (by simpa using hb)]

theorem take_extendLast (k : ℕ) {ns : List ℕ} {b : ℕ} (hb : b < ns.length) :
    (extendLast k ns).take b = ns.take b := by
  fun_induction extendLast k ns generalizing b with
  | case1 => exact absurd hb (Nat.not_lt_zero b)
  | case2 n =>
    obtain rfl : b = 0 := by simpa using hb
    rfl
  | case3 n m ns ih =>
    cases b with
    | zero => rfl
    | succ b => rw [List.take_succ_cons, List.take_succ_cons, ih (by simpa using hb)]

theorem take_heldLengths (h : PassesChecks params seqLengths) {b : ℕ}
    (hb : b < seqLengths.length) :
    (heldLengths params seqLengths).take b = (seqLengths.take b).map (roundedLength params) := by
  rw [heldLengths]
  split_ifs with hf hneeds
  · have hneeds : params.needsPadding = true := by simp [PackSequenceParameters.needsPadding, hf]
    rw [take_heldLengthsFrom 0 seqLengths hb]
    exact List.map_congr_left fun n _ => (if_pos hneeds).symm
  · have hone : params.padIndividualSeqsToMultipleOf = 1 := by
      have := h.padFactor hneeds
      omega
    have hrounded : ∀ n, roundedLength params n = n := fun n => by
      rw [roundedLength, if_pos hneeds, hone, roundUp_one]
    rw [take_extendLast _ hb, List.map_congr_left fun n _ => hrounded n, List.map_id']
  · have hrounded : ∀ n, roundedLength params n = n := fun n => if_neg hneeds
    rw [List.map_congr_left fun n _ => hrounded n, List.map_id']

omit [Zero T] in
/-- The padded length of the last sequence, also of one that does not fit. -/
theorem paddedSeqLen_last_eq (hneeds : params.needsPadding = true)
    (hf : 0 < params.padIndividualSeqsToMultipleOf) (running n : ℕ) :
    paddedSeqLen params true running n =
      .ok (packedTotal params (running + roundUp n params.padIndividualSeqsToMultipleOf) -
        running) := by
  rw [paddedSeqLen, Bool.true_and, if_pos hneeds, packedTotal]
  cases params.padPackedSeqTo with
  | some padTo => rfl
  | none =>
    by_cases hmultiple : params.padPackedSeqToMultipleOf > 1
    · simp only [if_pos hmultiple, roundUpToMultiple_eq hf, bind, Except.bind,
        roundUpToMultiple_eq (show 0 < params.padPackedSeqToMultipleOf by omega), pure,
        Except.pure]
    · simp only [if_neg hmultiple, roundUpToMultiple_eq hf, Nat.add_sub_cancel_left]

omit [Zero T] in
theorem padSequence_max {α : Type} (pad : α) (n k : ℕ) (tokens : List α) :
    padSequence pad n (max n k) tokens = padSequence pad n k tokens := by
  rcases le_total n k with hle | hle
  · rw [max_eq_right hle]
  · rw [max_eq_left hle, padSequence_self, padSequence, if_neg hle.not_gt]

/-- The loop pads the sequences to the lengths that they have in the packed sequence. -/
theorem padSequences_held (hneeds : params.needsPadding = true)
    (hf : 0 < params.padIndividualSeqsToMultipleOf) (running : ℕ)
    (hlen : inputIds.length = seqLengths.length) :
    padSequences params running (inputIds.zip seqLengths) =
      .ok (paddedParts 0 inputIds seqLengths (heldLengthsFrom params running seqLengths)) := by
  induction seqLengths generalizing inputIds running with
  | nil => simp [padSequences, paddedParts]
  | cons n ns ih =>
    obtain ⟨row, rows, rfl⟩ := List.exists_cons_of_length_eq_add_one hlen
    have hrows : rows.length = ns.length := by simpa using hlen
    rw [List.zip_cons_cons, padSequences_cons]
    cases ns with
    | nil =>
      obtain rfl : rows = [] := List.length_eq_zero_iff.mp hrows
      rw [List.zip_nil_right, List.isEmpty_nil, paddedSeqLen_last_eq hneeds hf]
      simp only [Except.bind, padSequences, heldLengthsFrom, paddedParts, List.zip_cons_cons,
        List.zip_nil_right, List.zipWith_cons_cons, List.zipWith_nil_right, padSequence_max]
    | cons m ns =>
      have hnotLast : (rows.zip (m :: ns)).isEmpty = false := by
        obtain ⟨row', rows', rfl⟩ := List.exists_cons_of_length_eq_add_one hrows
        rfl
      rw [hnotLast, paddedSeqLen_not_last hf]
      simp only [Except.bind, ih _ hrows, heldLengthsFrom, paddedParts_cons]

variable (cpRank cpSize) in
/-- All ranks together hold the sequences with these lengths. -/
theorem packTokens_held (h : PassesChecks params seqLengths)
    (hrows : List.Forall₂ (fun row seqLen => seqLen ≤ row.length) inputIds seqLengths) :
    ∃ packedInputIds, packTokens (inputIds.zip seqLengths) params cpRank cpSize =
      .ok ((paddedParts 0 inputIds seqLengths (heldLengths params seqLengths)).flatten,
        packedInputIds) := by
  have hlen := hrows.length_eq
  rw [packTokens, heldLengths]
  by_cases hf : params.padIndividualSeqsToMultipleOf > 1
  · have hneeds : params.needsPadding = true := by simp [PackSequenceParameters.needsPadding, hf]
    rw [if_pos hf, if_pos hf, padSequences_held hneeds (by omega) 0 hlen]
    exact ⟨_, rfl⟩
  · rw [if_neg hf, if_neg hf]
    dsimp only
    rw [length_flatten_take hrows]
    by_cases hneeds : params.needsPadding = true
    · rw [if_pos hneeds, padLen_eq hneeds, flatten_paddedParts_extendLast _ hlen h.nonempty]
      exact ⟨_, rfl⟩
    · rw [if_neg hneeds, padLen, if_neg hneeds, flatten_paddedParts_self hlen]
      exact ⟨_, by simp [bind, Except.bind, pure, Except.pure]; rfl⟩

omit [Zero T] in
/-- The running totals where the sequences start. -/
theorem paddedTotals_start (params : PackSequenceParameters) (seqLengths : List ℕ) :
    ∃ totals, paddedTotals params (seqLengths.map fun seqLen => (seqLen,
        if params.needsPadding then roundUp seqLen params.padIndividualSeqsToMultipleOf
        else seqLen)) = .ok totals ∧ totals.length = seqLengths.length + 1 ∧
      ∀ b, b < seqLengths.length →
        totals[b]? = some ((seqLengths.take b).map (roundedLength params)).sum := by
  have hfst : (seqLengths.map fun seqLen => (seqLen,
      if params.needsPadding then roundUp seqLen params.padIndividualSeqsToMultipleOf
      else seqLen)).map Prod.fst = seqLengths := map_fst_lengths _
  have hsnd : (seqLengths.map fun seqLen => (seqLen,
      if params.needsPadding then roundUp seqLen params.padIndividualSeqsToMultipleOf
      else seqLen)).map Prod.snd = seqLengths.map (roundedLength params) := by
    rw [List.map_map]
    rfl
  have hstart : ∀ b, b < seqLengths.length →
      (cumulative 0 (seqLengths.map (roundedLength params)))[b]? =
        some ((seqLengths.take b).map (roundedLength params)).sum := by
    intro b hb
    rw [getElem?_cumulative 0 (by simpa using hb.le), Nat.zero_add, List.map_take]
  have hlast : ∀ total, ((cumulative 0 (seqLengths.map (roundedLength params))).dropLast ++
      [total]).length = seqLengths.length + 1 ∧ ∀ b, b < seqLengths.length →
        ((cumulative 0 (seqLengths.map (roundedLength params))).dropLast ++ [total])[b]? =
          some ((seqLengths.take b).map (roundedLength params)).sum := by
    intro total
    refine ⟨by simp, fun b hb => ?_⟩
    rw [List.getElem?_append_left (by simpa using hb), List.getElem?_dropLast,
      if_pos (by simpa using hb), hstart b hb]
  rw [paddedTotals, hfst, hsnd]
  by_cases hneeds : params.needsPadding = true
  · rw [if_pos hneeds, padLastTotal]
    split
    · exact ⟨_, rfl, hlast _⟩
    · split
      · rw [roundUpToMultiple_eq (by omega)]
        exact ⟨_, rfl, hlast _⟩
      · exact ⟨_, rfl, by simp, hstart⟩
  · have hrounded : ∀ n, roundedLength params n = n := fun n => if_neg hneeds
    rw [List.map_congr_left fun n _ => hrounded n, List.map_id'] at hstart
    rw [if_neg hneeds]
    exact ⟨_, rfl, by simp, hstart⟩

omit [Zero T] in
theorem maxSeqlen_ok {totals : List ℕ} (h : 1 < totals.length) :
    ∃ seqlen, maxSeqlen totals = .ok seqlen := by
  obtain ⟨a, rest, rfl⟩ := List.exists_cons_of_length_pos (show 0 < totals.length by omega)
  obtain ⟨b, rest, rfl⟩ := List.exists_cons_of_length_pos
    (show 0 < rest.length by simpa using h)
  rw [maxSeqlen, bounds, List.tail_cons, List.zip_cons_cons, List.map_cons, List.max?_cons']
  exact ⟨_, rfl⟩

variable (cpRank cpSize) in
/-- The layout of every packed sequence, and where its sequences start. -/
theorem packSequencesForMegatron_held (h : PassesChecks params seqLengths)
    (hrows : List.Forall₂ (fun row seqLen => seqLen ≤ row.length) inputIds seqLengths) :
    ∃ packed, packSequencesForMegatron inputIds seqLengths params cpRank cpSize = .ok packed ∧
      packed.allInputIds = (layoutParts seqLengths (heldLengths params seqLengths)).flatten.map
        (valueAt 0 inputIds) ∧
      packed.cuSeqlens = cumulative 0 seqLengths ∧
      ∀ b, b < seqLengths.length → packed.cuSeqlensPadded[b]? =
        some ((seqLengths.take b).map (roundedLength params)).sum := by
  obtain ⟨totals, htotals, hlength, hstart⟩ := paddedTotals_start params seqLengths
  have hlong : 1 < totals.length := by
    rw [hlength]
    exact Nat.succ_lt_succ (List.length_pos_iff.mpr h.nonempty)
  obtain ⟨seqlen, hseqlen⟩ := maxSeqlen_ok hlong
  obtain ⟨packedInputIds, hpacked⟩ := packTokens_held cpRank cpSize h hrows
  have hlengths := sequenceLengths_eq h
  have hfst : (seqLengths.map fun seqLen => (seqLen,
      if params.needsPadding then roundUp seqLen params.padIndividualSeqsToMultipleOf
      else seqLen)).map Prod.fst = seqLengths := map_fst_lengths _
  rw [packSequencesForMegatron, h.padTo, hrows.length_eq, hlengths]
  simp only [bind, Except.bind, htotals, hseqlen, hfst, hpacked]
  refine ⟨_, rfl, ?_, rfl, hstart⟩
  rw [List.map_flatten, ← paddedParts_eq_map 0 hrows (forall₂_le_heldLengths params seqLengths)]

end Held

/-! ## Positions -/

section Positions
variable {params : PackSequenceParameters} {seqLengths : List ℕ} {seqLength cpRank cpSize : ℕ}

/-- Where a sequence starts in the packed sequence. -/
def packedStart (params : PackSequenceParameters) (seqLengths : List ℕ) (b : ℕ) : ℕ :=
  ((seqLengths.take b).map (roundedLength params)).sum

/-- Where unpacking looks for a sequence. -/
def unpackedStart (params : PackSequenceParameters) (seqLengths : List ℕ) (cpSize b : ℕ) : ℕ :=
  if cpSize > 1 then packedStart params seqLengths b else (seqLengths.take b).sum

theorem valueAt_tokenNames {b t : ℕ} (hb : b < seqLengths.length) (ht : t < seqLength) :
    valueAt 0 (tokenNames seqLengths.length seqLength) (some (b, t)) =
      (((b, t) : ℕ × ℕ) : WithZero (ℕ × ℕ)) := by
  simp [valueAt, tokenNames, hb, ht]

theorem getElem?_cumulative_heldLengths (h : PassesChecks params seqLengths) {b : ℕ}
    (hb : b < seqLengths.length) :
    (cumulative 0 (heldLengths params seqLengths))[b]? =
      some (packedStart params seqLengths b) := by
  have hlength := (forall₂_le_heldLengths params seqLengths).length_eq
  rw [getElem?_cumulative 0 (by omega), take_heldLengths h hb, Nat.zero_add]
  rfl

/-- The position of a token in every packed sequence. -/
theorem packedPosition_eq (h : PassesChecks params seqLengths)
    (hle : ∀ n ∈ seqLengths, n ≤ seqLength) {names : PackedSequences (WithZero (ℕ × ℕ))}
    (hnames : names.allInputIds =
      (layoutParts seqLengths (heldLengths params seqLengths)).flatten.map
        (valueAt 0 (tokenNames seqLengths.length seqLength)))
    {b n t : ℕ} (hb : seqLengths[b]? = some n) (ht : t < n) :
    packedPosition names b t = packedStart params seqLengths b + t := by
  have hlayout := isPackedLayout_flatten (forall₂_le_heldLengths params seqLengths)
  have hname : ∀ {b n t : ℕ}, seqLengths[b]? = some n → t < n →
      valueAt 0 (tokenNames seqLengths.length seqLength) (some (b, t)) =
        (((b, t) : ℕ × ℕ) : WithZero (ℕ × ℕ)) := by
    intro b n t hb ht
    exact valueAt_tokenNames (List.getElem?_eq_some_iff.mp hb).1
      (ht.trans_le (hle n (List.mem_of_getElem? hb)))
  have honly : ∀ i, names.allInputIds[i]? = some (((b, t) : ℕ × ℕ) : WithZero (ℕ × ℕ)) →
      i = packedStart params seqLengths b + t := by
    intro i hi
    rw [hnames, List.getElem?_map, Option.map_eq_some_iff] at hi
    obtain ⟨token, hi, hvalue⟩ := hi
    cases token with
    | none => exact absurd hvalue.symm WithZero.coe_ne_zero
    | some token =>
      obtain ⟨b', t'⟩ := token
      obtain ⟨n', start, hb', ht', hstart, rfl⟩ := hlayout.only i b' t' hi
      rw [hname hb' ht', WithZero.coe_inj] at hvalue
      obtain ⟨rfl, rfl⟩ := Prod.mk.inj hvalue
      rw [getElem?_cumulative_heldLengths h (List.getElem?_eq_some_iff.mp hb).1] at hstart
      rw [Option.some.inj hstart]
  obtain ⟨start, hstart, htoken⟩ := hlayout.token b n t hb ht
  have hmem : (((b, t) : ℕ × ℕ) : WithZero (ℕ × ℕ)) ∈ names.allInputIds := by
    rw [hnames, ← hname hb ht]
    exact List.mem_map_of_mem (List.mem_of_getElem? htoken)
  exact honly _ (List.getElem?_idxOf hmem)

/-- A sequence is inside of the packed sequence. -/
theorem packedStart_add_le (h : PassesChecks params seqLengths) {b n : ℕ}
    (hb : seqLengths[b]? = some n) : packedStart params seqLengths b + n ≤
      (layoutParts seqLengths (heldLengths params seqLengths)).flatten.length := by
  have hheld := forall₂_le_heldLengths params seqLengths
  have hlt := (List.getElem?_eq_some_iff.mp hb).1
  have hlength := hheld.length_eq
  have hk : (heldLengths params seqLengths)[b]? =
      some ((heldLengths params seqLengths).get ⟨b, by omega⟩) := List.getElem?_eq_getElem _
  have hnk : n ≤ (heldLengths params seqLengths).get ⟨b, by omega⟩ := by
    have hget := (List.forall₂_iff_get.mp hheld).2 b hlt (by omega)
    rwa [List.get_eq_getElem, (List.getElem?_eq_some_iff.mp hb).2] at hget
  have htotal : (heldLengths params seqLengths).sum =
      ((heldLengths params seqLengths).take b).sum +
        ((heldLengths params seqLengths).drop b).sum := by
    rw [← List.sum_append, List.take_append_drop]
  have hdrop : (heldLengths params seqLengths).get ⟨b, by omega⟩ ≤
      ((heldLengths params seqLengths).drop b).sum := by
    apply List.le_sum_of_mem
    rw [List.drop_eq_getElem_cons (by omega)]
    exact List.mem_cons_self
  rw [List.length_flatten, lens_layoutParts hlength, htotal, take_heldLengths h hlt]
  unfold packedStart
  omega

end Positions

/-! ## When unpacking undoes packing -/

section Undo
variable {V : Type} [Zero V] {params : PackSequenceParameters} {seqLengths : List ℕ}
  {seqLength cpRank cpSize : ℕ}

theorem unpackSequencesFromMegatron_eq {output : List V} {cuSeqlens : List ℕ}
    {cuSeqlensPadded : Option (List ℕ)} {start : ℕ → ℕ}
    (htokens : ∀ b n, seqLengths[b]? = some n →
      tokenOutputs output cuSeqlens cuSeqlensPadded cpSize b n =
        .ok (slice output (start b) (start b + n)))
    (hstart : ∀ b n, seqLengths[b]? = some n → start b + n ≤ output.length)
    (hle : ∀ n ∈ seqLengths, n ≤ seqLength) :
    unpackSequencesFromMegatron output seqLengths cuSeqlens cuSeqlensPadded seqLengths.length
        seqLength cpSize =
      .ok (seqLengths.mapIdx fun b n =>
        slice output (start b) (start b + n) ++ List.replicate (seqLength - n) 0) := by
  refine mapM_range fun b n hb => ?_
  have hn := hle n (List.mem_of_getElem? hb)
  have hlength : (slice output (start b) (start b + n)).length = n := by
    rw [length_slice (hstart b n hb), Nat.add_sub_cancel_left]
  have hassign : assignSlice (List.replicate seqLength (0 : V)) 0 n
      (slice output (start b) (start b + n)) =
        some (slice output (start b) (start b + n) ++ List.replicate (seqLength - n) 0) := by
    unfold assignSlice
    dsimp only
    rw [List.length_replicate, Nat.sub_zero, min_eq_left hn, if_pos hlength, List.take_zero,
      List.nil_append, Nat.zero_add, List.drop_replicate]
  simp only [entry_eq hb, htokens b n hb, bind, Except.bind]
  rw [hassign]
  rfl

omit [Zero V] in
theorem getElem?_slice {output : List V} {i n t : ℕ} (ht : t < n) :
    (slice output i (i + n))[t]? = output[i + t]? := by
  rw [slice, Nat.add_sub_cancel_left, List.getElem?_take_of_lt ht, List.getElem?_drop]

/-- A list without negative differences has the sum of its entries just when they agree. -/
theorem sum_map_eq_sum_iff {f : ℕ → ℕ} {l : List ℕ} (h : ∀ n ∈ l, n ≤ f n) :
    l.sum = (l.map f).sum ↔ ∀ n ∈ l, f n = n := by
  induction l with
  | nil => simp
  | cons n l ih =>
    obtain ⟨hn, hl⟩ := List.forall_mem_cons.mp h
    have hle : l.sum ≤ (l.map f).sum := by
      simpa using List.sum_le_sum hl
    rw [List.map_cons, List.sum_cons, List.sum_cons, List.forall_mem_cons, ← ih hl]
    omega

theorem roundUp_eq_self_iff {multiple : ℕ} (h : 0 < multiple) (value : ℕ) :
    roundUp value multiple = value ↔ multiple ∣ value := by
  constructor
  · intro heq
    rw [← heq]
    exact Nat.dvd_mul_left ..
  · rintro ⟨q, rfl⟩
    rw [roundUp, Nat.add_sub_assoc h, Nat.mul_add_div h, Nat.div_eq_of_lt (by omega),
      Nat.add_zero, Nat.mul_comm]

theorem le_roundedLength (h : PassesChecks params seqLengths) (n : ℕ) :
    n ≤ roundedLength params n := by
  rw [roundedLength]
  split_ifs with hneeds
  · exact le_roundUp (h.padFactor hneeds) n
  · exact le_rfl

theorem roundedLength_eq_self_iff (h : PassesChecks params seqLengths) (n : ℕ) :
    roundedLength params n = n ↔ params.padIndividualSeqsToMultipleOf ≤ 1 ∨
      params.padIndividualSeqsToMultipleOf ∣ n := by
  rw [roundedLength]
  by_cases hneeds : params.needsPadding = true
  · rw [if_pos hneeds, roundUp_eq_self_iff (h.padFactor hneeds), or_iff_right_of_imp]
    intro hle
    rw [show params.padIndividualSeqsToMultipleOf = 1 from le_antisymm hle (h.padFactor hneeds)]
    exact one_dvd n
  · have hle : params.padIndividualSeqsToMultipleOf ≤ 1 := by
      by_contra hgt
      exact hneeds (by simp [PackSequenceParameters.needsPadding, not_le.mp hgt])
    simp [if_neg hneeds, hle]

/-- Unpacking finds a sequence when it looks for it where it starts. -/
theorem unpackedStart_eq_iff (h : PassesChecks params seqLengths) (b : ℕ) :
    unpackedStart params seqLengths cpSize b = packedStart params seqLengths b ↔
      1 < cpSize ∨ ∀ n ∈ seqLengths.take b, params.padIndividualSeqsToMultipleOf ≤ 1 ∨
        params.padIndividualSeqsToMultipleOf ∣ n := by
  rw [unpackedStart]
  by_cases hcp : cpSize > 1
  · simp [hcp]
  · rw [if_neg hcp, packedStart, sum_map_eq_sum_iff fun n _ => le_roundedLength h n]
    simp only [roundedLength_eq_self_iff h]
    exact (or_iff_right hcp).symm

variable (cpSize) in
theorem unpackedStart_le (h : PassesChecks params seqLengths) (b : ℕ) :
    unpackedStart params seqLengths cpSize b ≤ packedStart params seqLengths b := by
  rw [unpackedStart]
  split_ifs
  · exact le_rfl
  · have hle := List.sum_le_sum (l := seqLengths.take b) (f := id) (g := roundedLength params)
      fun n _ => le_roundedLength h n
    rwa [List.map_id] at hle

variable {T : Type} [Zero T] {inputIds : List (List T)}

omit [Zero T] in
theorem forall₂_le_length (hbatch : inputIds.length = seqLengths.length)
    (hrow : ∀ row ∈ inputIds, row.length = seqLength) (hle : ∀ n ∈ seqLengths, n ≤ seqLength) :
    List.Forall₂ (fun row seqLen => seqLen ≤ row.length) inputIds seqLengths := by
  refine List.forall₂_iff_get.mpr ⟨hbatch, fun i hi hi' => ?_⟩
  rw [hrow _ (List.get_mem ..)]
  exact hle _ (List.get_mem ..)

theorem packedStart_add_le_length {packed : PackedSequences T}
    (hbatch : inputIds.length = seqLengths.length)
    (hrow : ∀ row ∈ inputIds, row.length = seqLength)
    (hle : ∀ n ∈ seqLengths, n ≤ seqLength)
    (hpack : packSequencesForMegatron inputIds seqLengths params cpRank cpSize = .ok packed)
    {b n : ℕ} (hb : seqLengths[b]? = some n) :
    packedStart params seqLengths b + n ≤ packed.allInputIds.length := by
  have h := PassesChecks.of_returns hbatch hpack
  obtain ⟨packed', hpack', hids, -⟩ := packSequencesForMegatron_held cpRank cpSize h
    (forall₂_le_length hbatch hrow hle)
  obtain rfl := Except.ok.inj (hpack.symm.trans hpack')
  rw [hids, List.length_map]
  exact packedStart_add_le h hb

/-- Unpacking undoes packing of one output when it has the same values where unpacking looks and
where the tokens are. -/
theorem undoesPacking_iff_getElem? {packed : PackedSequences T} {output : List V}
    (hbatch : inputIds.length = seqLengths.length)
    (hrow : ∀ row ∈ inputIds, row.length = seqLength)
    (hle : ∀ n ∈ seqLengths, n ≤ seqLength)
    (hpack : packSequencesForMegatron inputIds seqLengths params cpRank cpSize = .ok packed)
    (hlength : output.length = packed.allInputIds.length) :
    UndoesPacking output seqLengths params cpRank cpSize seqLength packed ↔
      ∀ b n t : ℕ, seqLengths[b]? = some n → t < n →
        output[unpackedStart params seqLengths cpSize b + t]? =
          output[packedStart params seqLengths b + t]? := by
  have h := PassesChecks.of_returns hbatch hpack
  have hnamesRows : List.Forall₂ (fun row seqLen => seqLen ≤ row.length)
      (tokenNames seqLengths.length seqLength) seqLengths :=
    forall₂_le_length (by simp [tokenNames]) (by simp [tokenNames]) hle
  obtain ⟨names, hnames, hnamesIds, -⟩ := packSequencesForMegatron_held cpRank cpSize h hnamesRows
  obtain ⟨packed', hpack', -, hcu, hpadded⟩ := packSequencesForMegatron_held cpRank cpSize h
    (forall₂_le_length hbatch hrow hle)
  obtain rfl := Except.ok.inj (hpack.symm.trans hpack')
  have hinside : ∀ b n, seqLengths[b]? = some n →
      packedStart params seqLengths b + n ≤ output.length := by
    intro b n hb
    rw [hlength]
    exact packedStart_add_le_length hbatch hrow hle hpack hb
  have hstart : ∀ b n, seqLengths[b]? = some n →
      unpackedStart params seqLengths cpSize b + n ≤ output.length := by
    intro b n hb
    have hearlier := unpackedStart_le cpSize h b
    have hlast := hinside b n hb
    omega
  have htokens : ∀ b n, seqLengths[b]? = some n →
      tokenOutputs output packed.cuSeqlens (some packed.cuSeqlensPadded) cpSize b n =
        .ok (slice output (unpackedStart params seqLengths cpSize b)
          (unpackedStart params seqLengths cpSize b + n)) := by
    intro b n hb
    have hlt := (List.getElem?_eq_some_iff.mp hb).1
    rw [tokenOutputs, unpackedStart]
    by_cases hcp : cpSize > 1
    · simp only [if_pos hcp, entry_eq (hpadded b hlt), bind, Except.bind, pure, Except.pure]
      rfl
    · have htake : (seqLengths.take (b + 1)).sum = (seqLengths.take b).sum + n := by
        rw [List.take_add_one, hb, List.sum_append]
        rfl
      simp only [if_neg hcp, hcu, entry_eq (getElem?_cumulative 0 hlt.le),
        entry_eq (getElem?_cumulative 0 hlt), bind, Except.bind, pure, Except.pure, htake,
        Nat.zero_add]
  have hunpack := unpackSequencesFromMegatron_eq htokens hstart hle
  have hvalue : ∀ b n t, seqLengths[b]? = some n → t < n → ∃ row v,
      (seqLengths.mapIdx fun b n => slice output (unpackedStart params seqLengths cpSize b)
        (unpackedStart params seqLengths cpSize b + n) ++
          List.replicate (seqLength - n) 0)[b]? = some row ∧ row[t]? = some v ∧
        output[unpackedStart params seqLengths cpSize b + t]? = some v := by
    intro b n t hb ht
    have hlt := hstart b n hb
    refine ⟨_, output.get ⟨unpackedStart params seqLengths cpSize b + t, by omega⟩, by
      rw [List.getElem?_mapIdx, hb, Option.map_some], ?_, List.getElem?_eq_getElem _⟩
    rw [List.getElem?_append_left (by rw [length_slice hlt]; omega), getElem?_slice ht]
    exact List.getElem?_eq_getElem _
  constructor
  · rintro ⟨names', unpacked, hnames', hunpack', hundoes⟩ b n t hb ht
    obtain rfl := Except.ok.inj (hnames'.symm.trans hnames)
    obtain rfl := Except.ok.inj (hunpack'.symm.trans hunpack)
    obtain ⟨row, v, hget, hv, hv'⟩ := hundoes b n t hb ht
    obtain ⟨row', v', hget', hw, hw'⟩ := hvalue b n t hb ht
    obtain rfl := Option.some.inj (hget.symm.trans hget')
    rw [packedPosition_eq h hle hnamesIds hb ht] at hv'
    rw [hw', hv', ← hv, hw]
  · intro hsame
    refine ⟨names, _, hnames, hunpack, fun b n t hb ht => ?_⟩
    obtain ⟨row, v, hget, hv, hout⟩ := hvalue b n t hb ht
    refine ⟨row, v, hget, hv, ?_⟩
    rw [packedPosition_eq h hle hnamesIds hb ht, ← hsame b n t hb ht, hout]

/-- Unpacking undoes packing of every output just under context parallelism, or when no padding
is in front of a token. -/
theorem undoesPacking_iff [Nontrivial V] {packed : PackedSequences T}
    (hbatch : inputIds.length = seqLengths.length)
    (hrow : ∀ row ∈ inputIds, row.length = seqLength)
    (hle : ∀ n ∈ seqLengths, n ≤ seqLength)
    (hpack : packSequencesForMegatron inputIds seqLengths params cpRank cpSize = .ok packed) :
    (∀ output : List V, output.length = packed.allInputIds.length →
      UndoesPacking output seqLengths params cpRank cpSize seqLength packed) ↔
    1 < cpSize ∨ seqLengths.Pairwise fun earlier later => 0 < later →
      params.padIndividualSeqsToMultipleOf ≤ 1 ∨
        params.padIndividualSeqsToMultipleOf ∣ earlier := by
  have h := PassesChecks.of_returns hbatch hpack
  have hstarts : (∀ output : List V, output.length = packed.allInputIds.length →
      UndoesPacking output seqLengths params cpRank cpSize seqLength packed) ↔
      ∀ b n : ℕ, seqLengths[b]? = some n → 0 < n →
        unpackedStart params seqLengths cpSize b = packedStart params seqLengths b := by
    constructor
    · intro hall b n hb hn
      by_contra hne
      have hlt := lt_of_le_of_ne (unpackedStart_le cpSize h b) hne
      -- an output that has a value of its own where the sequence starts
      obtain ⟨v, hv⟩ := exists_ne (0 : V)
      have hinside := packedStart_add_le_length hbatch hrow hle hpack hb
      have hset := hall ((List.replicate packed.allInputIds.length 0).set
        (packedStart params seqLengths b) v) (by simp)
      rw [undoesPacking_iff_getElem? hbatch hrow hle hpack (by simp)] at hset
      have hget := hset b n 0 hb hn
      rw [Nat.add_zero, Nat.add_zero, List.getElem?_set_ne hlt.ne',
        List.getElem?_set_self (by rw [List.length_replicate]; omega),
        List.getElem?_replicate_of_lt (by omega)] at hget
      exact hv (Option.some.inj hget).symm
    · intro hstart output hlength
      rw [undoesPacking_iff_getElem? hbatch hrow hle hpack hlength]
      intro b n t hb ht
      rw [hstart b n hb (by omega)]
  simp only [hstarts, unpackedStart_eq_iff h]
  by_cases hcp : 1 < cpSize
  · simp [hcp]
  · simp only [hcp, false_or]
    rw [List.pairwise_iff_getElem]
    constructor
    · intro hall i j hi hj hij hpos
      exact hall j _ (List.getElem?_eq_getElem hj) hpos _ (List.mem_take_iff_getElem.mpr
        ⟨i, by omega, rfl⟩)
    · intro hpair b n hb hn m hm
      obtain ⟨i, hi, rfl⟩ := List.mem_take_iff_getElem.mp hm
      obtain ⟨hlt, rfl⟩ := List.getElem?_eq_some_iff.mp hb
      exact hpair i b (by omega) hlt (by omega) hn

theorem undoesPacking_multiples :
    ∃ packed, packSequencesForMegatron [[11, 12, 13, 14], [21, 22, 0, 0]] [4, 2] ⟨4, 1, none⟩ 0 1 =
        .ok packed ∧
      ∀ output : List ℕ, output.length = packed.allInputIds.length →
        UndoesPacking output [4, 2] ⟨4, 1, none⟩ 0 1 4 packed := by
  have hrow : ∀ row ∈ [[11, 12, 13, 14], [21, 22, 0, 0]], row.length = 4 := by decide
  have hle : ∀ n ∈ [4, 2], n ≤ 4 := by decide
  refine ⟨_, rfl, ?_⟩
  exact (undoesPacking_iff (V := ℕ) rfl hrow hle rfl).mpr (.inr (by decide))

/-- Behind a sequence of three tokens that is padded to four, unpacking looks too early. -/
theorem not_undoesPacking_padded :
    ∃ packed, packSequencesForMegatron [[11, 12, 13, 0], [21, 22, 0, 0]] [3, 2] ⟨4, 1, none⟩ 0 1 =
        .ok packed ∧
      ¬UndoesPacking [10, 11, 12, 13, 14, 15, 16, 17] [3, 2] ⟨4, 1, none⟩ 0 1 4 packed := by
  have hrow : ∀ row ∈ [[11, 12, 13, 0], [21, 22, 0, 0]], row.length = 4 := by decide
  have hle : ∀ n ∈ [3, 2], n ≤ 4 := by decide
  refine ⟨_, rfl, fun hundoes => ?_⟩
  have hsame := (undoesPacking_iff_getElem? rfl hrow hle rfl (Eq.refl 8)).mp hundoes
  exact absurd (hsame 1 2 0 rfl (by decide)) (by decide)

end Undo

end NemoRL.Megatron
