import NemoRL.Data.PackingSpec
import NemoRL.Distributed.Reorder
import NemoRL.Lib.Except
import Mathlib.Data.Multiset.Bind

/-!
# Sharding by packed sequences

The loop of `shardPacked` updates accumulators shard by shard and chunk by chunk. What
it computes is stated by the bins that a shard holds: `assigned` lists them for each
chunk, as positions in the whole batch, and `shardOf` is the shard they determine.

## Main definitions

* `assigned` — the bins of a shard, chunk by chunk.
* `PackedSharding` — the contract of sharding with sequence packing.

## Main results

* `shardPacked_spec` — the loop computes the shards of the assigned bins.
* `shardByBatchSize_packed` — sharding with sequence packing meets its contract.
-/

namespace NemoRL.Distributed

open Lib Data.Packing

variable {ρ : Type}

/-- The ranges of consecutive parts with the given lengths. -/
def spans (start : ℕ) : List ℕ → List (ℕ × ℕ)
  | [] => []
  | n :: ns => (start, start + n) :: spans (start + n) ns

@[simp] theorem length_spans (start : ℕ) (ns : List ℕ) : (spans start ns).length = ns.length := by
  induction ns generalizing start with
  | nil => rfl
  | cons n ns ih => simp [spans, ih]

theorem spans_append (start : ℕ) (ns : List ℕ) (n : ℕ) :
    spans start (ns ++ [n]) =
      spans start ns ++ [(start + ns.sum, start + ns.sum + n)] := by
  induction ns generalizing start with
  | nil => simp [spans]
  | cons m ns ih => simp [spans, ih, Nat.add_assoc]

/-- Where the last of consecutive parts ends. -/
theorem getLast?_spans (start : ℕ) (ns : List ℕ) :
    ((spans start ns).getLast?.map Prod.snd).getD start = start + ns.sum := by
  rcases List.eq_nil_or_concat ns with rfl | ⟨ms, m, rfl⟩
  · simp [spans]
  · rw [List.concat_eq_append, spans_append]
    simp [Nat.add_assoc]

/-! ## The accumulators -/

/-- The positions of a bin of chunk `chunkIdx` in the whole batch. -/
def globalBin (batchSize chunkIdx : ℕ) (bin : List ℕ) : List ℕ :=
  bin.map (· + chunkIdx * batchSize)

/-- The bins that one shard holds of one chunk. -/
def chunkBins (batchSize shards shardIdx : ℕ) (chunk : List (List ℕ) × ℕ) : List (List ℕ) :=
  (stride chunk.1 shards shardIdx).map (globalBin batchSize chunk.2)

/-- The bins that one shard holds, chunk by chunk. -/
def assigned (batchSize shards : ℕ) (chunks : List (List (List ℕ))) (shardIdx : ℕ) :
    List (List (List ℕ)) :=
  chunks.zipIdx.map (chunkBins batchSize shards shardIdx)

/-- The accumulator of a shard that holds the given bins, with those of the chunk in
progress. -/
def accOf (rows : List ρ) (paddedLength : ρ → ℕ) (bins : List (List (List ℕ)))
    (current : List (List ℕ)) : ShardAcc ρ where
  data := (bins.flatten ++ current).map (select rows)
  globalIndices := (bins.flatten ++ current).flatten
  microIndices := bins.map fun chunk => spans 0 (chunk.map List.length)
  microLengths := bins.map (List.map fun bin => ((select rows bin).map paddedLength).sum)
  elemCountsPerGb := bins.map fun chunk => (chunk.map List.length).sum
  chunkMicroIndices := spans 0 (current.map List.length)
  chunkMicroLengths := current.map fun bin => ((select rows bin).map paddedLength).sum

variable {rows : List ρ} {paddedLength : ρ → ℕ} {bs : ℕ}

theorem addBin_accOf (bins : List (List (List ℕ))) (current : List (List ℕ)) (chunkIdx : ℕ)
    (bin : List ℕ) :
    addBin rows paddedLength (chunkIdx * bs) (accOf rows paddedLength bins current) bin =
      accOf rows paddedLength bins (current ++ [globalBin bs chunkIdx bin]) := by
  have hend := getLast?_spans 0 (current.map List.length)
  simp only [addBin, accOf, globalBin, hend, List.map_append, List.flatten_append, List.map_cons,
    List.map_nil, spans_append, List.length_map, List.append_assoc, List.flatten_cons,
    List.flatten_nil, List.append_nil]

theorem foldl_addBin_accOf (rows : List ρ) (paddedLength : ρ → ℕ) (bs : ℕ)
    (bins : List (List (List ℕ))) (current : List (List ℕ))
    (chunkIdx : ℕ) (dealt : List (List ℕ)) :
    dealt.foldl (addBin rows paddedLength (chunkIdx * bs)) (accOf rows paddedLength bins current) =
      accOf rows paddedLength bins (current ++ dealt.map (globalBin bs chunkIdx)) := by
  induction dealt generalizing current with
  | nil => simp
  | cons bin dealt ih =>
    rw [List.foldl_cons, addBin_accOf, ih, List.map_cons, List.append_assoc,
      List.singleton_append]

/-- Closing a chunk succeeds when the shard got a bin of it. -/
theorem closeChunk_accOf {bins : List (List (List ℕ))} {current : List (List ℕ)}
    {acc : ShardAcc ρ} (h : closeChunk (accOf rows paddedLength bins current) = .ok acc) :
    current ≠ [] ∧ acc = accOf rows paddedLength (bins ++ [current]) [] := by
  have hend := getLast?_spans 0 (current.map List.length)
  unfold closeChunk at h
  split at h
  case h_2 => exact nomatch h
  case h_1 start stop hlast =>
    have hstop : stop = (current.map List.length).sum := by
      simp only [accOf] at hlast
      simpa [hlast] using hend
    obtain rfl := Except.ok.inj h
    refine ⟨?_, by simp [accOf, hstop, spans]⟩
    rintro rfl
    simp [accOf, spans] at hlast

/-- Dealing out a chunk gives each shard its bins of the chunk, at least one. -/
theorem distributeChunk_spec {accs accs' : List (ShardAcc ρ)} {chunk : List (List ℕ) × ℕ}
    {bins : ℕ → List (List (List ℕ))}
    (haccs : accs = (List.range accs.length).map fun s => accOf rows paddedLength (bins s) [])
    (h : distributeChunk rows paddedLength bs accs chunk = .ok accs') :
    accs'.length = accs.length ∧
      (∀ s < accs.length, chunkBins bs accs.length s chunk ≠ []) ∧
      accs' = (List.range accs.length).map fun s =>
        accOf rows paddedLength (bins s ++ [chunkBins bs accs.length s chunk]) [] := by
  set n := accs.length with hn
  have hall := mapM_eq_ok.mp h
  have hlen : accs'.length = n := by
    rw [← hall.length_eq, length_scatterFold]
  have hacc : ∀ s acc', accs'[s]? = some acc' → s < n ∧
      closeChunk (accOf rows paddedLength (bins s) (chunkBins bs n s chunk)) = .ok acc' := by
    intro s acc' hs
    have hsn : s < n := by
      rw [← hlen]
      exact (List.getElem?_eq_some_iff.mp hs).1
    obtain ⟨acc, hget, hclose⟩ := getElem?_of_mapM h hs
    have hold : accs[s]? = some (accOf rows paddedLength (bins s) []) := by
      rw [haccs]
      simp [hsn]
    have hdealt : (chunk.1.zipIdx.filter fun bin => bin.2 % n = s).foldl
        (fun acc bin => addBin rows paddedLength (chunk.2 * bs) acc bin.1)
        (accOf rows paddedLength (bins s) []) =
        accOf rows paddedLength (bins s) (chunkBins bs n s chunk) := by
      have := foldl_addBin_accOf rows paddedLength bs (bins s) [] chunk.2 (stride chunk.1 n s)
      rwa [stride, List.foldl_map, List.nil_append] at this
    rw [getElem?_scatterFold, hold, Option.map_some, hdealt] at hget
    exact ⟨hsn, by rw [Option.some.inj hget]; exact hclose⟩
  have hget : ∀ s < n, ∃ acc', accs'[s]? = some acc' := fun s hs =>
    ⟨_, List.getElem?_eq_getElem (by omega)⟩
  refine ⟨hlen, fun s hs => ?_, ?_⟩
  · obtain ⟨acc', hs'⟩ := hget s hs
    exact (closeChunk_accOf (hacc s acc' hs').2).1
  · apply List.ext_getElem
    · simp [hlen]
    · intro s hs _
      have := (closeChunk_accOf (hacc s _ (List.getElem?_eq_getElem hs)).2).2
      simpa using this

/-- Dealing out a list of chunks. -/
theorem foldlM_distributeChunk_spec {n : ℕ} {accs accs' : List (ShardAcc ρ)}
    {chunks : List (List (List ℕ) × ℕ)} {bins : ℕ → List (List (List ℕ))}
    (haccs : accs = (List.range n).map fun s => accOf rows paddedLength (bins s) [])
    (h : chunks.foldlM (distributeChunk rows paddedLength bs) accs = .ok accs') :
    (∀ chunk ∈ chunks, ∀ s < n, chunkBins bs n s chunk ≠ []) ∧
      accs' = (List.range n).map fun s =>
        accOf rows paddedLength (bins s ++ chunks.map (chunkBins bs n s)) [] := by
  induction chunks generalizing accs bins with
  | nil =>
    obtain rfl : accs = accs' := Except.ok.inj h
    exact ⟨by simp, by simpa using haccs⟩
  | cons chunk chunks ih =>
    rw [List.foldlM_cons] at h
    obtain ⟨accs₁, hchunk, hrest⟩ := bind_eq_ok.mp h
    obtain rfl : accs.length = n := by simp [haccs]
    obtain ⟨hlen, hne, haccs₁⟩ := distributeChunk_spec haccs hchunk
    obtain ⟨hnes, haccs'⟩ := ih haccs₁ hrest
    refine ⟨?_, by simpa using haccs'⟩
    intro chunk' hchunk' s hs
    rcases List.mem_cons.mp hchunk' with rfl | hmem
    · exact hne s hs
    · exact hnes chunk' hmem s hs

/-! ## The shards -/

/-- The shard that holds the given bins. -/
def shardOf (rows : List ρ) (paddedLength : ρ → ℕ) (bins : List (List (List ℕ))) :
    BatchedDataDict ρ where
  rows := (bins.flatten.map (select rows)).flatten
  microBatchIndices := some (bins.map fun chunk => spans 0 (chunk.map List.length))
  microBatchLengths :=
    some (bins.map (List.map fun bin => ((select rows bin).map paddedLength).sum))
  elemCountsPerGb := some (bins.map fun chunk => (chunk.map List.length).sum)

/-- The padded length of a row under sequence packing. -/
def paddedLengthOf (args : SequencePackingArgs ρ) (row : ρ) : ℕ :=
  roundUp (args.inputLengths row) args.sequenceLengthPadMultiple

/-- The chunks are packed as the packer packs them. -/
def PackerBins (rows : List ρ) (args : SequencePackingArgs ρ) (rand : Shuffle)
    (shards numChunks bs : ℕ) (chunks : List (List (List ℕ))) : Prop :=
  ∃ packer, getPacker args.algorithm args.maxTokensPerMicrobatch (some shards) (some shards) =
      .ok packer ∧
    chunks.length = numChunks ∧
    ∀ c bins, chunks[c]? = some bins →
      packer.pack rand c ((sliceRows rows (c * bs) ((c + 1) * bs)).map (paddedLengthOf args)) =
        .ok bins

/-- The loop computes the shards of the bins that are dealt out in turn. -/
theorem shardPacked_spec {args : SequencePackingArgs ρ} {rand : Shuffle} {shards numChunks : ℕ}
    {sharded : List (BatchedDataDict ρ)} {order : List ℕ}
    (h : shardPacked rows args rand shards numChunks bs = .ok (sharded, order)) :
    ∃ chunks, PackerBins rows args rand shards numChunks bs chunks ∧
      (∀ chunk ∈ chunks.zipIdx, ∀ s < shards, chunkBins bs shards s chunk ≠ []) ∧
      sharded = (List.range shards).map (fun s =>
        shardOf rows (paddedLengthOf args) (assigned bs shards chunks s)) ∧
      order = (List.range shards).flatMap fun s =>
        (assigned bs shards chunks s).flatten.flatten := by
  obtain ⟨packer, hpacker, h⟩ := bind_eq_ok.mp h
  obtain ⟨chunks, hchunks, h⟩ := bind_eq_ok.mp h
  obtain ⟨accs, haccs, h⟩ := bind_eq_ok.mp h
  have hinit : List.replicate shards ({} : ShardAcc ρ) =
      (List.range shards).map fun _ => accOf rows (paddedLengthOf args) [] [] := by
    simp [accOf, spans]
  obtain ⟨hne, rfl⟩ := foldlM_distributeChunk_spec hinit haccs
  obtain ⟨hsharded, horder⟩ := Prod.mk.inj (Except.ok.inj h)
  refine ⟨chunks, ⟨packer, hpacker, ?_, ?_⟩, hne, ?_, ?_⟩
  · simpa using (mapM_eq_ok.mp hchunks).length_eq.symm
  · intro c bins hbins
    obtain ⟨c', hc', hpack⟩ := getElem?_of_mapM hchunks hbins
    obtain rfl : c = c' := by
      obtain ⟨_, heq⟩ := List.getElem?_eq_some_iff.mp hc'
      simpa using heq
    dsimp only at hpack
    split at hpack
    · exact nomatch hpack
    · exact hpack
  · rw [← hsharded, List.map_map]
    apply List.map_congr_left
    intro s _
    simp [shardOf, accOf, assigned]
  · rw [← horder, List.flatMap_map]
    apply List.flatMap_congr
    intro s _
    simp [accOf, assigned]

/-! ## Reading a shard back -/

private theorem sliceRows_middle (pre mid post : List ρ) :
    sliceRows (pre ++ mid ++ post) pre.length (pre.length + mid.length) = mid := by
  simp [sliceRows, List.append_assoc]

/-- Slicing at the spans of consecutive parts returns the parts. -/
theorem mapM_slice_spans (pre : List ρ) (parts : List (List ρ)) (lengths : List ℕ)
    (hlen : lengths.length = parts.length) :
    (lengths.zip (spans pre.length (parts.map List.length))).mapM
        (fun (_, start, stop) =>
          BatchedDataDict.slice { rows := pre ++ parts.flatten } start stop) =
      .ok (parts.map fun part => ({ rows := part } : BatchedDataDict ρ)) := by
  induction parts generalizing pre lengths with
  | nil => simp [spans, pure, Except.pure]
  | cons part parts ih =>
    obtain ⟨n, lengths, rfl⟩ := List.exists_cons_of_length_eq_add_one hlen
    have hslice : BatchedDataDict.slice { rows := pre ++ (part ++ parts.flatten) } pre.length
        (pre.length + part.length) = .ok { rows := part } := by
      have hmid := sliceRows_middle pre part parts.flatten
      rw [List.append_assoc] at hmid
      rw [BatchedDataDict.slice, if_pos (by simp), hmid]
    have hrest := ih (pre ++ part) lengths (by simpa using hlen)
    rw [List.append_assoc, List.length_append] at hrest
    simp only [List.map_cons, spans, List.zip_cons_cons, List.mapM_cons, List.flatten_cons, hslice,
      hrest]
    rfl

theorem getElem?_cumElemCount (total : ℕ) (counts : List ℕ) {i : ℕ} (hi : i ≤ counts.length) :
    (BatchedDataDict.cumElemCount total counts)[i]? = some (total + (counts.take i).sum) := by
  induction counts generalizing total i with
  | nil =>
    obtain rfl : i = 0 := by simpa using hi
    simp [BatchedDataDict.cumElemCount]
  | cons count counts ih =>
    cases i with
    | zero => simp [BatchedDataDict.cumElemCount]
    | succ i =>
      simp [BatchedDataDict.cumElemCount, ih (total + count) (i := i) (by simpa using hi),
        Nat.add_assoc]

/-- Reading a global batch of a shard that has all three parts of a plan. -/
theorem getBatch_of_plan (d : BatchedDataDict ρ) {indices : List (List (ℕ × ℕ))}
    {lengths : List (List ℕ)} {counts : List ℕ} {c n : ℕ} {spans : List (ℕ × ℕ)} {lens : List ℕ}
    (batchSize : Option ℕ) (hindices : d.microBatchIndices = some indices)
    (hlengths : d.microBatchLengths = some lengths) (hcounts : d.elemCountsPerGb = some counts)
    (hspans : indices[c]? = some spans) (hlens : lengths[c]? = some lens)
    (hn : counts[c]? = some n) :
    d.getBatch c batchSize =
      (d.slice (counts.take c).sum (counts.take (c + 1)).sum).map fun batch =>
        ⟨batch.rows, some [spans], some [lens], some [n]⟩ := by
  have hc : c < counts.length := (List.getElem?_eq_some_iff.mp hn).1
  have hstart := getElem?_cumElemCount 0 counts (i := c) (by omega)
  have hstop := getElem?_cumElemCount 0 counts (i := c + 1) hc
  rw [Nat.zero_add] at hstart hstop
  unfold BatchedDataDict.getBatch
  simp only [hcounts, hindices, Option.isNone_some, Bool.false_eq_true, if_false,
    BatchedDataDict.getOrRaise, hn, hstart, hstop, BatchedDataDict.withPlan, hlengths, hspans,
    hlens, bind, Except.bind]
  cases d.slice (counts.take c).sum (counts.take (c + 1)).sum <;> rfl

private theorem length_flatten_select {chunk : List (List ℕ)}
    (h : ∀ bin ∈ chunk, ∀ i ∈ bin, i < rows.length) :
    (chunk.map (select rows)).flatten.length = (chunk.map List.length).sum := by
  rw [List.length_flatten, List.map_map]
  congr 1
  exact List.map_congr_left fun bin hbin => length_select (h bin hbin)

/-- One global batch of a shard: the rows of its bins with the plan of their spans. -/
theorem getBatch_shardOf (paddedLength : ρ → ℕ) {bins : List (List (List ℕ))} {c : ℕ}
    {chunk : List (List ℕ)}
    (hc : bins[c]? = some chunk)
    (hlt : ∀ chunk ∈ bins, ∀ bin ∈ chunk, ∀ i ∈ bin, i < rows.length) (batchSize : Option ℕ) :
    (shardOf rows paddedLength bins).getBatch c batchSize = .ok {
      rows := (chunk.map (select rows)).flatten
      microBatchIndices := some [spans 0 (chunk.map List.length)]
      microBatchLengths := some [chunk.map fun bin => ((select rows bin).map paddedLength).sum]
      elemCountsPerGb := some [(chunk.map List.length).sum] } := by
  obtain ⟨hclt, rfl⟩ := List.getElem?_eq_some_iff.mp hc
  set parts : List (List ρ) := bins.map fun chunk => (chunk.map (select rows)).flatten with hparts
  have hrows : (bins.flatten.map (select rows)).flatten = parts.flatten := by
    rw [hparts, List.map_flatten, List.flatten_flatten, List.map_map]
    rfl
  have hcounts : (bins.map fun chunk => (chunk.map List.length).sum) = parts.map List.length := by
    rw [hparts, List.map_map]
    exact List.map_congr_left fun chunk hchunk => (length_flatten_select (hlt chunk hchunk)).symm
  have hclt' : c < parts.length := by simpa [hparts] using hclt
  have hsum : ∀ i, ((parts.map List.length).take i).sum ≤ parts.flatten.length := by
    intro i
    rw [← List.map_take, ← List.length_flatten]
    exact (List.take_sublist _ _).flatten.length_le
  have hslice : (shardOf rows paddedLength bins).slice ((parts.map List.length).take c).sum
      ((parts.map List.length).take (c + 1)).sum = .ok { rows := parts[c] } := by
    rw [BatchedDataDict.slice, show (shardOf rows paddedLength bins).rows = _ from hrows,
      if_pos (hsum _), sliceRows, ← List.drop_take, List.drop_take_succ_flatten_eq_getElem]
  have hspans : (bins.map fun chunk => spans 0 (chunk.map List.length))[c]? =
      some (spans 0 (bins[c].map List.length)) := by simp [hclt]
  have hlens : (bins.map (List.map fun bin => ((select rows bin).map paddedLength).sum))[c]? =
      some (bins[c].map fun bin => ((select rows bin).map paddedLength).sum) := by simp [hclt]
  have hn : (bins.map fun chunk => (chunk.map List.length).sum)[c]? =
      some (bins[c].map List.length).sum := by simp [hclt]
  rw [getBatch_of_plan (shardOf rows paddedLength bins) batchSize rfl rfl rfl hspans hlens hn,
    hcounts, hslice]
  simp [Except.map, hparts]

/-! ## The bins of one chunk -/

/-- The bins that shard `s` holds of chunk `c`, as positions in the whole batch. -/
def shardBins (bs shards : ℕ) (chunks : List (List (List ℕ))) (s c : ℕ) : List (List ℕ) :=
  (assigned bs shards chunks s).getD c []

section Chunk
variable {args : SequencePackingArgs ρ} {rand : Shuffle} {shards numChunks c : ℕ}
  {chunks : List (List (List ℕ))}

theorem getElem?_assigned {bins : List (List ℕ)} (s : ℕ) (hbins : chunks[c]? = some bins) :
    (assigned bs shards chunks s)[c]? = some (chunkBins bs shards s (bins, c)) := by
  simp [assigned, hbins]

theorem shardBins_eq {bins : List (List ℕ)} (s : ℕ) (hbins : chunks[c]? = some bins) :
    shardBins bs shards chunks s c = chunkBins bs shards s (bins, c) := by
  rw [shardBins, List.getD_eq_getElem?_getD, getElem?_assigned s hbins, Option.getD_some]

theorem length_sliceRows_chunk (hc : (c + 1) * bs ≤ rows.length) :
    (sliceRows rows (c * bs) ((c + 1) * bs)).length = bs := by
  have hwidth : (c + 1) * bs - c * bs = bs := by rw [Nat.add_mul]; omega
  have hfit : bs ≤ rows.length - c * bs := by rw [Nat.add_mul] at hc; omega
  simp [sliceRows, hwidth, hfit]

/-- What the packer guarantees for a chunk of the batch. -/
theorem PackerBins.chunk (h : PackerBins rows args rand shards numChunks bs chunks)
    (hshards : 0 < shards) (hc : c < numChunks) (hfit : numChunks * bs ≤ rows.length) :
    ∃ bins, chunks[c]? = some bins ∧ shards ∣ bins.length ∧ shards ≤ bins.length ∧
      bins.flatten.Perm (List.range bs) ∧
      ∀ bin ∈ bins, ((select rows (globalBin bs c bin)).map (paddedLengthOf args)).sum ≤
        args.maxTokensPerMicrobatch := by
  obtain ⟨packer, hpacker, hlen, hpack⟩ := h
  have hget : ∃ bins, chunks[c]? = some bins := ⟨_, List.getElem?_eq_getElem (by omega)⟩
  obtain ⟨bins, hbins⟩ := hget
  obtain ⟨hpacks, hmin, hmul⟩ := SequencePacker.pack_spec (hpack c bins hbins)
  unfold getPacker at hpacker
  split at hpacker
  · exact nomatch hpacker
  obtain rfl := Except.ok.inj hpacker
  have hcfit : (c + 1) * bs ≤ rows.length := (Nat.mul_le_mul_right bs hc).trans hfit
  have hchunk := length_sliceRows_chunk hcfit
  have hperm := hpacks.packing.perm
  rw [List.length_map, hchunk] at hperm
  refine ⟨bins, hbins, hmul _ rfl hshards, hmin _ rfl, hperm, fun bin hbin => ?_⟩
  have hlt : ∀ i ∈ bin, i < bs := fun i hi =>
    List.mem_range.mp (hperm.mem_iff.mp (List.mem_flatten.mpr ⟨bin, hbin, hi⟩))
  have hwidth : (c + 1) * bs - c * bs = bs := by rw [Nat.add_mul]; omega
  have hselect : select rows (globalBin bs c bin) =
      select (sliceRows rows (c * bs) ((c + 1) * bs)) bin := by
    rw [sliceRows, select_drop_take (by rwa [hwidth])]
    rfl
  have hweights : (select rows (globalBin bs c bin)).map (paddedLengthOf args) =
      bin.map (weight ((sliceRows rows (c * bs) ((c + 1) * bs)).map (paddedLengthOf args))) := by
    rw [hselect, ← select_map, select_eq_map_getD _ 0]
    · rfl
    · simpa [hchunk] using hlt
  rw [hweights]
  exact hpacks.packing.fits bin hbin

/-- Over all shards, the bins of a chunk hold every row of the chunk once. -/
theorem flatMap_chunkBins_perm {bins : List (List ℕ)} (hshards : 0 < shards)
    (hperm : bins.flatten.Perm (List.range bs)) :
    ((List.range shards).flatMap fun s => (chunkBins bs shards s (bins, c)).flatten).Perm
      (List.range' (c * bs) bs) := by
  have hmap : ∀ s, (chunkBins bs shards s (bins, c)).flatten =
      ((stride bins shards s).flatten).map (· + c * bs) := by
    intro s
    rw [chunkBins, List.map_flatten]
    rfl
  have hdeal : ((List.range shards).flatMap fun s => (stride bins shards s).flatten).Perm
      bins.flatten := by
    have := (flatMap_stride_perm bins hshards).flatten
    rwa [List.flatMap_def, List.flatten_flatten, List.map_map] at this
  simp only [hmap]
  rw [← List.map_flatMap]
  refine ((hdeal.trans hperm).map _).trans (List.Perm.of_eq ?_)
  have hshift := List.map_add_range' (a := c * bs) 0 bs 1
  rw [List.range_eq_range']
  simpa only [Nat.add_comm (c * bs), Nat.zero_add] using hshift

end Chunk

/-! ## The contract -/

theorem assigned_eq_map (bs shards : ℕ) (chunks : List (List (List ℕ))) (s : ℕ) :
    assigned bs shards chunks s =
      (List.range chunks.length).map (shardBins bs shards chunks s) := by
  apply List.ext_getElem
  · simp [assigned]
  · intro c hc _
    rw [List.getElem_map, List.getElem_range, shardBins, List.getD_eq_getElem?_getD,
      List.getElem?_eq_getElem hc, Option.getD_some]

/-- The rows of the shards, one shard after the other, are gathered in dispatch order. -/
theorem flatMap_rows_shardOf (paddedLength : ρ → ℕ) (shards : ℕ)
    (bins : ℕ → List (List (List ℕ))) :
    ((List.range shards).map fun s => shardOf rows paddedLength (bins s)).flatMap
        BatchedDataDict.rows =
      select rows ((List.range shards).flatMap fun s => (bins s).flatten.flatten) := by
  rw [List.flatMap_map, List.flatMap_def, List.flatMap_def, select_flatten, List.map_map]
  congr 1
  apply List.map_congr_left
  intro s _
  rw [Function.comp_apply, select_flatten]
  rfl

/-- The micro-batches of a global batch are its bins. -/
theorem iterator_spans {bins : List (List ℕ)} (hlt : ∀ bin ∈ bins, ∀ i ∈ bin, i < rows.length)
    {lengths counts : List ℕ} (hlengths : lengths.length = bins.length) :
    BatchedDataDict.makeMicrobatchIteratorForPackableSequences {
        rows := (bins.map (select rows)).flatten
        microBatchIndices := some [spans 0 (bins.map List.length)]
        microBatchLengths := some [lengths]
        elemCountsPerGb := some counts } =
      .ok (bins.map fun bin => { rows := select rows bin }) := by
  have hspans : bins.map List.length = (bins.map (select rows)).map List.length := by
    rw [List.map_map]
    exact List.map_congr_left fun bin hbin => (length_select (hlt bin hbin)).symm
  have hslices := mapM_slice_spans [] (bins.map (select rows)) lengths (by simpa using hlengths)
  rw [← hspans, List.map_map] at hslices
  exact hslices

/-- The dispatch order is a permutation of the positions of the batch. -/
theorem dispatchOrder_perm {shards : ℕ} {chunks : List (List (List ℕ))} (hshards : 0 < shards)
    (hchunks : ∀ bins ∈ chunks, bins.flatten.Perm (List.range bs)) :
    ((List.range shards).flatMap fun s => (assigned bs shards chunks s).flatten.flatten).Perm
      (List.range (chunks.length * bs)) := by
  have hflat : ∀ s, (assigned bs shards chunks s).flatten.flatten =
      (List.range chunks.length).flatMap fun c => (shardBins bs shards chunks s c).flatten := by
    intro s
    rw [assigned_eq_map, List.flatten_flatten, List.map_map, List.flatMap_def]
    rfl
  simp only [hflat]
  refine (flatMap_comm_perm _ _ _).trans ?_
  rw [← flatMap_range']
  refine List.Perm.flatMap_left _ fun c hc => ?_
  have hc : c < chunks.length := List.mem_range.mp hc
  have hbins := List.getElem?_eq_getElem hc
  simp only [shardBins_eq _ hbins]
  exact flatMap_chunkBins_perm hshards (hchunks _ (List.getElem_mem hc))

/-- The order of the packer's bins is a permutation of the positions of the batch. -/
theorem PackerBins.order_perm {args : SequencePackingArgs ρ} {rand : Shuffle} {shards : ℕ}
    {chunks : List (List (List ℕ))}
    (h : PackerBins rows args rand shards (rows.length / bs) bs chunks) (hshards : 0 < shards)
    (hdvd : bs ∣ rows.length) :
    ((List.range shards).flatMap fun s => (assigned bs shards chunks s).flatten.flatten).Perm
      (List.range rows.length) := by
  have hlen : chunks.length = rows.length / bs := by
    obtain ⟨_, _, hlen, _⟩ := h
    exact hlen
  have hmul : rows.length / bs * bs = rows.length := Nat.div_mul_cancel hdvd
  have hperm : ∀ bins ∈ chunks, bins.flatten.Perm (List.range bs) := by
    intro bins hmem
    obtain ⟨c, hc, rfl⟩ := List.getElem_of_mem hmem
    obtain ⟨bins, hget, -, -, hperm, -⟩ := h.chunk hshards (c := c) (by omega) hmul.le
    rw [List.getElem?_eq_getElem hc] at hget
    rwa [Option.some.inj hget]
  have horder := dispatchOrder_perm hshards hperm
  rwa [hlen, hmul] at horder

/-- No bin of the packer is empty. -/
theorem PackerBins.nonempty {args : SequencePackingArgs ρ} {rand : Shuffle} {shards numChunks : ℕ}
    {chunks : List (List (List ℕ))} (h : PackerBins rows args rand shards numChunks bs chunks)
    {bins : List (List ℕ)} (hbins : bins ∈ chunks) : [] ∉ bins := by
  obtain ⟨packer, -, -, hpack⟩ := h
  obtain ⟨c, hc⟩ := List.mem_iff_getElem?.mp hbins
  exact (SequencePacker.pack_spec (hpack c bins hc)).1.nonempty

/-- Packing rounds the lengths of the rows, which raises for a multiple of zero. -/
theorem shardPacked_padMultiple {args : SequencePackingArgs ρ} {rand : Shuffle}
    {shards numChunks : ℕ} {result : List (BatchedDataDict ρ) × List ℕ}
    (h : shardPacked rows args rand shards numChunks bs = .ok result) (hbs : 0 < bs)
    (hnum : 0 < numChunks) (hrows : rows ≠ []) : 0 < args.sequenceLengthPadMultiple := by
  obtain ⟨packer, -, h⟩ := bind_eq_ok.mp h
  obtain ⟨chunks, hchunks, -⟩ := bind_eq_ok.mp h
  obtain ⟨bins, -, hbins⟩ := mem_of_mapM_mem hchunks (List.mem_range.mpr hnum)
  refine Nat.pos_of_ne_zero fun hzero => ?_
  obtain ⟨row, rest, rfl⟩ := List.exists_cons_of_ne_nil hrows
  obtain ⟨k, rfl⟩ := Nat.exists_eq_add_of_lt hbs
  simp [sliceRows, hzero] at hbins

/-- Sharding with sequence packing that returned dealt out the bins of the packer. -/
theorem exists_shardOf {d : BatchedDataDict ρ} {args : SequencePackingArgs ρ}
    {rand : Shuffle} {shards : ℕ} {batchSize : Option ℕ} {allowUneven : Bool}
    {sharded : List (BatchedDataDict ρ)} {order : Option (List ℕ)}
    (h : d.shardByBatchSize rand shards batchSize allowUneven none (some args) =
      .ok (sharded, order)) :
    ∃ bs chunks, bs = batchSize.getD d.rows.length ∧ 0 < shards ∧ bs ∣ d.rows.length ∧
      PackerBins d.rows args rand shards (d.rows.length / bs) bs chunks ∧
      (d.rows ≠ [] → 0 < args.sequenceLengthPadMultiple) ∧
      (∀ chunk ∈ chunks.zipIdx, ∀ s < shards, chunkBins bs shards s chunk ≠ []) ∧
      sharded = (List.range shards).map (fun s =>
        shardOf d.rows (paddedLengthOf args) (assigned bs shards chunks s)) ∧
      order = some ((List.range shards).flatMap fun s =>
        (assigned bs shards chunks s).flatten.flatten) := by
  obtain ⟨bs, hcheck, h⟩ := bind_eq_ok.mp h
  obtain ⟨hbs, hpos, hdvd, hshards, -⟩ := BatchedDataDict.checkShardArgs_ok hcheck
  obtain ⟨⟨sharded', order'⟩, hpacked, h⟩ := bind_eq_ok.mp h
  obtain ⟨rfl, rfl⟩ := Prod.mk.inj (Except.ok.inj h)
  obtain ⟨chunks, hbins, hne, rfl, rfl⟩ := shardPacked_spec hpacked
  refine ⟨bs, chunks, hbs, hshards, hdvd, hbins, fun hrows => ?_, hne, rfl, rfl⟩
  have hlen : 0 < d.rows.length := List.length_pos_of_ne_nil hrows
  exact shardPacked_padMultiple hpacked hpos
    (Nat.div_pos (Nat.le_of_dvd hlen hdvd) hpos) hrows

/-- The bins of the shards hold positions of the batch. -/
theorem lt_of_mem_assigned {args : SequencePackingArgs ρ} {rand : Shuffle} {shards : ℕ}
    {chunks : List (List (List ℕ))}
    (h : PackerBins rows args rand shards (rows.length / bs) bs chunks) (hshards : 0 < shards)
    (hdvd : bs ∣ rows.length) {s : ℕ} (hs : s < shards) :
    ∀ chunk ∈ assigned bs shards chunks s, ∀ bin ∈ chunk, ∀ i ∈ bin, i < rows.length := by
  intro chunk hmem bin hbin i hi
  refine List.mem_range.mp ((h.order_perm hshards hdvd).mem_iff.mp
    (List.mem_flatMap.mpr ⟨s, List.mem_range.mpr hs, ?_⟩))
  exact List.mem_flatten.mpr ⟨bin, List.mem_flatten.mpr ⟨chunk, hmem, hbin⟩, hi⟩

/-- What sharding with sequence packing guarantees. The chunks are the bins of the
packer, and bin number `i` of a chunk goes to shard `i % shards`. -/
structure PackedContract (d : BatchedDataDict ρ) (args : SequencePackingArgs ρ) (rand : Shuffle)
    (shards bs : ℕ) (chunks : List (List (List ℕ))) (sharded : List (BatchedDataDict ρ))
    (order : List ℕ) : Prop where
  shardCount : sharded.length = shards
  packerBins : PackerBins d.rows args rand shards (d.rows.length / bs) bs chunks
  /-- Every row of a chunk is held once over all shards. -/
  partition : ∀ c < d.rows.length / bs,
    ((List.range shards).flatMap fun s => (shardBins bs shards chunks s c).flatten).Perm
      (List.range' (c * bs) bs)
  /-- Every shard holds the same number of micro-batches of a chunk, and at least one. -/
  sameCount : ∀ c < d.rows.length / bs, ∃ k, 0 < k ∧
    ∀ s < shards, (shardBins bs shards chunks s c).length = k
  /-- Reading a chunk of a shard back yields its bins, each with the sum of its padded
  lengths. -/
  readBack : ∀ s shard, sharded[s]? = some shard → ∀ c < d.rows.length / bs, ∃ batch,
    shard.getBatch c none = .ok batch ∧
    batch.rows = select d.rows (shardBins bs shards chunks s c).flatten ∧
    batch.makeMicrobatchIteratorForPackableSequences =
      .ok ((shardBins bs shards chunks s c).map fun bin => { rows := select d.rows bin }) ∧
    batch.microBatchLengths = some [(shardBins bs shards chunks s c).map fun bin =>
      ((select d.rows bin).map (paddedLengthOf args)).sum]
  /-- No micro-batch exceeds the token limit. -/
  fits : ∀ s < shards, ∀ c < d.rows.length / bs, ∀ bin ∈ shardBins bs shards chunks s c,
    ((select d.rows bin).map (paddedLengthOf args)).sum ≤ args.maxTokensPerMicrobatch
  /-- Reordering the concatenated shards restores the batch. -/
  restore : (BatchedDataDict.reorderData { rows := sharded.flatMap BatchedDataDict.rows }
    order).rows = d.rows

/-- Whenever sharding with sequence packing returns, with any of the four packers, it
meets its contract. -/
theorem shardByBatchSize_packed {d : BatchedDataDict ρ} {args : SequencePackingArgs ρ}
    {rand : Shuffle} {shards : ℕ} {batchSize : Option ℕ} {allowUneven : Bool}
    {sharded : List (BatchedDataDict ρ)} {order : Option (List ℕ)}
    (h : d.shardByBatchSize rand shards batchSize allowUneven none (some args) =
      .ok (sharded, order)) :
    ∃ chunks order', order = some order' ∧
      PackedContract d args rand shards (batchSize.getD d.rows.length) chunks sharded order' := by
  obtain ⟨bs, chunks, hbs, hshards, hdvd, hbins, -, -, rfl, rfl⟩ := exists_shardOf h
  rw [← hbs]
  set n := d.rows.length with hn
  have hchunk := fun c (hc : c < n / bs) => hbins.chunk hshards hc (Nat.div_mul_le_self n bs)
  have horder := hbins.order_perm hshards hdvd
  refine ⟨chunks, _, rfl, by simp, hbins, fun c hc => ?_, fun c hc => ?_,
    fun s shard hs c hc => ?_, fun s hs c hc bin hbin => ?_, ?_⟩
  · obtain ⟨bins, hget, -, -, hflat, -⟩ := hchunk c hc
    simp only [shardBins_eq _ hget]
    exact flatMap_chunkBins_perm hshards hflat
  · obtain ⟨bins, hget, ⟨k, hk⟩, hmin, -, -⟩ := hchunk c hc
    refine ⟨k, Nat.pos_of_ne_zero fun hzero => ?_, fun s hs => ?_⟩
    · rw [hk, hzero] at hmin
      omega
    · rw [shardBins_eq s hget, chunkBins, List.length_map, length_stride hk hs]
  · obtain ⟨hslt, rfl⟩ := List.getElem?_eq_some_iff.mp hs
    have hslt : s < shards := by simpa using hslt
    obtain ⟨bins, hget, -, -, -, -⟩ := hchunk c hc
    have hassigned : (assigned bs shards chunks s)[c]? = some (shardBins bs shards chunks s c) := by
      rw [getElem?_assigned s hget, shardBins_eq s hget]
    have hlt := lt_of_mem_assigned hbins hshards hdvd hslt
    have hread := getBatch_shardOf (paddedLengthOf args) hassigned hlt none
    simp only [List.getElem_map, List.getElem_range]
    refine ⟨_, hread, (select_flatten _ _).symm, ?_, rfl⟩
    exact iterator_spans (hlt _ (List.mem_of_getElem? hassigned)) (by simp)
  · obtain ⟨bins, hget, -, -, -, hfits⟩ := hchunk c hc
    rw [shardBins_eq s hget] at hbin
    obtain ⟨bin', hbin', rfl⟩ := List.mem_map.mp hbin
    exact hfits bin' ((stride_sublist _ _ _).subset hbin')
  · rw [flatMap_rows_shardOf]
    exact reorderData_select horder

theorem perm_of_identity : ∀ (_ : ℕ) (l : List (ℕ × ℕ)), l.Perm l := fun _ l => List.Perm.refl l

/-- A shuffle that leaves every list as it is. -/
def identityShuffle : Shuffle := ⟨fun _ l => l, perm_of_identity⟩

/-- Two chunks of four rows over two shards: the first fills two bins, the second gets
a second bin only for the sake of the second shard. -/
theorem shardByBatchSize_packed_two_chunks :
    ∃ sharded order chunks order',
      BatchedDataDict.shardByBatchSize { rows := [3, 1, 2, 2, 1, 0, 1, 1] } identityShuffle 2
        (some 4) false none (some ⟨4, .concatenative, id, 1⟩) = .ok (sharded, order) ∧
      order = some order' ∧
      PackedContract { rows := [3, 1, 2, 2, 1, 0, 1, 1] } ⟨4, .concatenative, id, 1⟩
        identityShuffle 2 4 chunks sharded order' := by
  have hreturns : ∃ result, BatchedDataDict.shardByBatchSize { rows := [3, 1, 2, 2, 1, 0, 1, 1] }
      identityShuffle 2 (some 4) false none (some ⟨4, .concatenative, id, 1⟩) = .ok result :=
    ⟨_, rfl⟩
  obtain ⟨⟨sharded, order⟩, h⟩ := hreturns
  obtain ⟨chunks, order', horder, hcontract⟩ := shardByBatchSize_packed h
  exact ⟨sharded, order, chunks, order', h, horder, hcontract⟩

end NemoRL.Distributed
