import NemoRL.Error
import NemoRL.Lib.Blocks

/-!
# Exchanging vocabulary shards for rows

With a parallel vocabulary each rank holds, for all rows of the logits, a part of the
vocabulary. One exchange among the ranks gives each of them some of the rows with the whole
vocabulary, and another one gives the parts back.

In the exchange each rank sends to every other one a block of what it holds. A call on one rank
is a function of what all ranks hold.

## Main definitions

* `allToAllVp2sq`, `allToAllSq2vp` — the two exchanges.

## Main results

* `allToAllVp2sq_spec` — the rows that each rank holds after the first exchange, and that the
  second one gives the parts back.
-/

namespace NemoRL.Distributed

open Lib

variable {α : Type} {worldSize : ℕ}

/-- View data as a tensor of a shape. -/
def viewAs (shape : List ℕ) (data : List α) : Except PyError (Tensor α) :=
  if h : data.length = shape.prod then .ok ⟨shape, data, h⟩
  else .error ⟨.runtimeError, s!"shape '{shape}' is invalid for input of size {data.length}"⟩

/-- What a rank receives: of the data of each rank the block that is for it. -/
def allToAllSingle (worldSize : ℕ) (inputs : ℕ → List α) (rank : ℕ) : List α :=
  (List.range worldSize).flatMap fun source =>
    block ((inputs source).length / worldSize) rank (inputs source)

/-- From a part of the vocabulary to some of the rows. -/
def allToAllVp2sq (worldSize : ℕ) (vocabParallelLogits : ℕ → Tensor α) (rank : ℕ) :
    Except PyError (Tensor α) :=
  match (vocabParallelLogits rank).shape with
  | [bs, vLocal] =>
    if bs % worldSize ≠ 0 then
      .error ⟨.valueError,
        s!"BS={bs} must be divisible by tensor parallel size {worldSize}. " ++
        "Set policy.make_sequence_length_divisible_by to ensure divisibility."⟩
    else do
      let bsLocal := bs / worldSize
      let outputFlat := allToAllSingle worldSize (fun r => (vocabParallelLogits r).data) rank
      let outputTensor ← viewAs [worldSize, bsLocal, vLocal] outputFlat
      viewAs [bsLocal, worldSize * vLocal] outputTensor.swapDims.data
  | shape =>
    .error ⟨.valueError,
      "For all_to_all_vp2sq, vocab_parallel_logits must be a 2D tensor, " ++
      s!"got {shape.length}D tensor with shape torch.Size({shape})"⟩

/-- What a rank sends for its rows: the vocabulary split into parts, one after another. -/
def sq2vpInput (worldSize : ℕ) (seqParallelLogits : Tensor α) : Except PyError (List α) :=
  match seqParallelLogits.shape with
  | [bsLocal, v] =>
    if v % worldSize ≠ 0 then
      .error ⟨.valueError,
        s!"Vocabulary size {v} must be divisible by tensor parallel size {worldSize}"⟩
    else do
      let inputReshaped ← viewAs [bsLocal, worldSize, v / worldSize] seqParallelLogits.data
      return inputReshaped.swapDims.data
  | shape =>
    .error ⟨.valueError,
      "For all_to_all_sq2vp, seq_parallel_logits must be a 2D tensor, " ++
      s!"got {shape.length}D tensor with shape torch.Size({shape})"⟩

/-- From some of the rows to a part of the vocabulary. A rank that raises sends nothing. -/
def allToAllSq2vp (worldSize : ℕ) (seqParallelLogits : ℕ → Tensor α) (rank : ℕ) :
    Except PyError (Tensor α) := do
  let _ ← sq2vpInput worldSize (seqParallelLogits rank)
  let bsLocal := (seqParallelLogits rank).shape.headD 0
  let v := (seqParallelLogits rank).shape.tail.headD 0
  let outputFlat := allToAllSingle worldSize
    (fun r => (sq2vpInput worldSize (seqParallelLogits r)).toOption.getD []) rank
  viewAs [worldSize * bsLocal, v / worldSize] outputFlat

/-- A row of the whole logits: what the ranks hold of it. -/
def fullVocabRow (worldSize : ℕ) (vocabParallelLogits : ℕ → Tensor α) (i : ℕ) : List α :=
  (List.range worldSize).flatMap fun r => (vocabParallelLogits r).row i

/-! ## One exchange -/

theorem viewAs_eq {shape : List ℕ} {data : List α} (h : data.length = shape.prod) :
    viewAs shape data = .ok ⟨shape, data, h⟩ := dif_pos h

/-- What is received of blocks of one size. -/
theorem allToAllSingle_eq {n : ℕ} (inputs : ℕ → List α)
    (hlen : ∀ r < worldSize, (inputs r).length = worldSize * n) (rank : ℕ) :
    allToAllSingle worldSize inputs rank =
      (List.range worldSize).flatMap fun source => block n rank (inputs source) := by
  refine List.flatMap_congr ?_
  intro source hsource
  have hlt : source < worldSize := List.mem_range.mp hsource
  rw [hlen source hlt, Nat.mul_div_cancel_left n (by omega)]

section Parts
variable {logits : ℕ → Tensor α} {n v : ℕ}
  (hshape : ∀ r < worldSize, (logits r).shape = [worldSize * n, v])
include hshape

theorem length_part {r : ℕ} (hr : r < worldSize) :
    (logits r).data.length = worldSize * (n * v) := by
  rw [(logits r).length_data, hshape r hr]
  simp [Nat.mul_assoc]

theorem row_part {r : ℕ} (hr : r < worldSize) (i : ℕ) :
    (logits r).row i = block v i (logits r).data := by
  rw [Tensor.row, hshape r hr]
  simp

theorem length_row_part {r i : ℕ} (hr : r < worldSize) (hi : i < worldSize * n) :
    ((logits r).row i).length = v := by
  rw [row_part hshape hr]
  refine length_block ?_ hi
  rw [length_part hshape hr, Nat.mul_assoc]

theorem length_fullVocabRow {i : ℕ} (hi : i < worldSize * n) :
    (fullVocabRow worldSize logits i).length = worldSize * v :=
  length_flatMap_range fun _ hr => length_row_part hshape hr hi

/-- The rows for a rank, put together. -/
theorem length_rows {rank : ℕ} (hrank : rank < worldSize) :
    ((List.range n).flatMap fun i => fullVocabRow worldSize logits (rank * n + i)).length =
      [n, worldSize * v].prod := by
  have hend := block_end_le n hrank
  rw [length_flatMap_range (n := worldSize * v) fun i hi =>
    length_fullVocabRow hshape (by omega)]
  simp

/-- The rows that a rank holds after the first exchange. -/
theorem allToAllVp2sq_eq {rank : ℕ} (hrank : rank < worldSize) :
    allToAllVp2sq worldSize logits rank =
      .ok ⟨[n, worldSize * v],
        (List.range n).flatMap fun i => fullVocabRow worldSize logits (rank * n + i),
        length_rows hshape hrank⟩ := by
  have hpos : 0 < worldSize := by omega
  have hblock : ∀ q < worldSize, (block (n * v) rank (logits q).data).length = n * v :=
    fun q hq => length_block (length_part hshape hq) hrank
  have hflat := allToAllSingle_eq (fun r => (logits r).data)
    (fun r hr => length_part hshape hr) rank
  have hview : (allToAllSingle worldSize (fun r => (logits r).data) rank).length =
      [worldSize, n, v].prod := by
    rw [hflat, length_flatMap_range hblock]
    simp
  have hdata : (Tensor.swapDims ⟨[worldSize, n, v],
      allToAllSingle worldSize (fun r => (logits r).data) rank, hview⟩).data =
      (List.range n).flatMap fun i => fullVocabRow worldSize logits (rank * n + i) := by
    rw [Tensor.data_swapDims rfl]
    refine List.flatMap_congr fun i hi => List.flatMap_congr fun q hq => ?_
    rw [List.mem_range] at hi hq
    dsimp only
    rw [List.prod_singleton, ← block_block _ v q hi, hflat, block_flatMap_range hblock hq,
      block_block _ v rank hi, row_part hshape hq]
  have hdiv : worldSize * n / worldSize = n := Nat.mul_div_cancel_left n hpos
  rw [allToAllVp2sq, hshape rank hrank]
  simp only [Nat.mul_mod_right, ne_eq, not_true_eq_false, if_false, hdiv]
  rw [viewAs_eq hview, ← viewAs_eq (length_rows hshape hrank), ← hdata]
  rfl

/-- What a rank sends in the second exchange: for each rank its part of the rows. -/
theorem sq2vpInput_eq {rank : ℕ} (hrank : rank < worldSize) :
    sq2vpInput worldSize ⟨[n, worldSize * v],
        (List.range n).flatMap fun i => fullVocabRow worldSize logits (rank * n + i),
        length_rows hshape hrank⟩ =
      .ok ((List.range worldSize).flatMap fun q => block (n * v) rank (logits q).data) := by
  have hpos : 0 < worldSize := by omega
  have hend := block_end_le n hrank
  have hrow : ∀ i < n, (fullVocabRow worldSize logits (rank * n + i)).length = worldSize * v :=
    fun i hi => length_fullVocabRow hshape (by omega)
  have hview : ((List.range n).flatMap fun i =>
      fullVocabRow worldSize logits (rank * n + i)).length = [n, worldSize, v].prod := by
    rw [length_flatMap_range hrow]
    simp
  have hdata : (Tensor.swapDims ⟨[n, worldSize, v],
      (List.range n).flatMap fun i => fullVocabRow worldSize logits (rank * n + i),
      hview⟩).data =
      (List.range worldSize).flatMap fun q => block (n * v) rank (logits q).data := by
    rw [Tensor.data_swapDims rfl]
    refine List.flatMap_congr fun q hq => ?_
    rw [List.mem_range] at hq
    rw [← flatMap_block_add (logits q).data v rank
      (length_block (length_part hshape hq) hrank)]
    refine List.flatMap_congr fun i hi => ?_
    rw [List.mem_range] at hi
    have hpart : ∀ r < worldSize, ((logits r).row (rank * n + i)).length = v :=
      fun r hr => length_row_part hshape hr (by omega)
    dsimp only
    rw [List.prod_singleton, ← block_block _ v i hq, block_flatMap_range hrow hi, fullVocabRow,
      block_flatMap_range hpart hq, row_part hshape hq]
  have hdiv : worldSize * v / worldSize = v := Nat.mul_div_cancel_left v hpos
  rw [sq2vpInput]
  simp only [Nat.mul_mod_right, ne_eq, not_true_eq_false, if_false, hdiv]
  rw [viewAs_eq hview, ← hdata]
  rfl

end Parts

/-! ## Both exchanges -/

/-- After the first exchange on all ranks a rank holds its share of the rows, each with the
whole vocabulary in order, and the second exchange gives back the part that it had. -/
theorem allToAllVp2sq_spec (worldSize bs vLocal : ℕ) (logits : ℕ → Tensor α)
    (hshape : ∀ r < worldSize, (logits r).shape = [bs, vLocal]) (hdvd : worldSize ∣ bs) :
    ∃ seqParallel : ℕ → Tensor α, ∀ rank < worldSize,
      allToAllVp2sq worldSize logits rank = .ok (seqParallel rank) ∧
      (seqParallel rank).shape = [bs / worldSize, worldSize * vLocal] ∧
      (∀ i < bs / worldSize, (seqParallel rank).row i =
        fullVocabRow worldSize logits (rank * (bs / worldSize) + i)) ∧
      allToAllSq2vp worldSize seqParallel rank = .ok (logits rank) := by
  obtain ⟨n, rfl⟩ := hdvd
  -- Beyond the last rank there is no tensor, and nothing is said of it.
  let seqParallel : ℕ → Tensor α := fun rank =>
    if h : rank < worldSize then
      ⟨[n, worldSize * vLocal],
        (List.range n).flatMap fun i => fullVocabRow worldSize logits (rank * n + i),
        length_rows hshape h⟩
    else logits rank
  have hseq : ∀ {r : ℕ} (hr : r < worldSize), seqParallel r =
      ⟨[n, worldSize * vLocal],
        (List.range n).flatMap fun i => fullVocabRow worldSize logits (r * n + i),
        length_rows hshape hr⟩ := fun hr => dif_pos hr
  refine ⟨seqParallel, ?_⟩
  intro rank hrank
  have hpos : 0 < worldSize := by omega
  have hdiv : worldSize * n / worldSize = n := Nat.mul_div_cancel_left n hpos
  have hend := block_end_le n hrank
  rw [hdiv, hseq hrank]
  refine ⟨allToAllVp2sq_eq hshape hrank, rfl, ?_, ?_⟩
  · intro i hi
    have hrow : ∀ j < n, (fullVocabRow worldSize logits (rank * n + j)).length =
        worldSize * vLocal := fun j hj => length_fullVocabRow hshape (by omega)
    rw [Tensor.row]
    simp only [List.tail_cons, List.prod_singleton]
    exact block_flatMap_range hrow hi
  · have hsent : ∀ r < worldSize, sq2vpInput worldSize (seqParallel r) =
        .ok ((List.range worldSize).flatMap fun q => block (n * vLocal) r (logits q).data) := by
      intro r hr
      rw [hseq hr, sq2vpInput_eq hshape hr]
    have hparts : ∀ r < worldSize, ∀ q < worldSize,
        (block (n * vLocal) r (logits q).data).length = n * vLocal :=
      fun r hr q hq => length_block (length_part hshape hq) hr
    have hlen : ∀ r < worldSize,
        ((sq2vpInput worldSize (seqParallel r)).toOption.getD []).length =
          worldSize * (n * vLocal) := by
      intro r hr
      rw [hsent r hr]
      exact length_flatMap_range (hparts r hr)
    have hback : allToAllSingle worldSize
        (fun r => (sq2vpInput worldSize (seqParallel r)).toOption.getD []) rank =
          (logits rank).data := by
      rw [allToAllSingle_eq _ hlen]
      conv => rhs; rw [← flatMap_block (length_part hshape hrank)]
      refine List.flatMap_congr fun r hr => ?_
      rw [List.mem_range] at hr
      rw [hsent r hr]
      exact block_flatMap_range (hparts r hr) hrank
    have hview : (logits rank).data.length = [worldSize * n, vLocal].prod := by
      rw [length_part hshape hrank]
      simp [Nat.mul_assoc]
    have hsame : (⟨[worldSize * n, vLocal], (logits rank).data, hview⟩ : Tensor α) =
        logits rank := by
      ext1
      · exact (hshape rank hrank).symm
      · rfl
    rw [allToAllSq2vp, hsent rank hrank, hback, hseq hrank]
    simp only [List.headD_cons, List.tail_cons, Nat.mul_div_cancel_left vLocal hpos]
    rw [← hsame, ← viewAs_eq hview]
    rfl

/-- Two ranks, two rows and one entry of the vocabulary on each rank. -/
theorem allToAllVp2sq_spec_two :
    ∃ seqParallel : ℕ → Tensor ℕ, ∀ rank < 2,
      allToAllVp2sq 2 (fun r => ⟨[2, 1], [r, 10 + r], rfl⟩) rank = .ok (seqParallel rank) ∧
      allToAllSq2vp 2 seqParallel rank = .ok ⟨[2, 1], [rank, 10 + rank], rfl⟩ := by
  obtain ⟨seqParallel, h⟩ := allToAllVp2sq_spec 2 2 1
    (fun r => (⟨[2, 1], [r, 10 + r], rfl⟩ : Tensor ℕ)) (fun _ _ => rfl) (by decide)
  exact ⟨seqParallel, fun rank hrank => ⟨(h rank hrank).1, (h rank hrank).2.2.2⟩⟩

end NemoRL.Distributed
