import NemoRL.Distributed.PackedSharding
import NemoRL.Lib.IndexPerm
import Mathlib.Tactic.Linarith
import Mathlib.Tactic.Positivity
import Mathlib.Tactic.Ring

/-!
# The order in which shards hold the rows

Concatenating the shards gathers the rows of the batch in an order that depends on the
lengths and the arguments only. This order is written down for each of the three ways
of sharding; it is always a permutation of the positions.

## Main definitions

* `contiguousOrder`, `packedOrder` — the order of contiguous and of packed shards.

## Main results

* `rows_contiguous`, `rows_dynamic`, `rows_packed` — the concatenated shards hold the
  rows in that order.
* `selfInverse_contiguousOrder` — when contiguous shards swap the rows in pairs.
-/

namespace NemoRL.Distributed

open Lib Data.Packing BatchedDataDict

variable {ρ : Type} {rows : List ρ} {numChunks bs shards size : ℕ}

/-! ## Contiguous shards -/

/-- Each shard holds its part of each chunk. -/
def contiguousOrder (numChunks bs shards size : ℕ) : List ℕ :=
  (List.range shards).flatMap fun s =>
    (List.range numChunks).flatMap fun c => List.range' (c * bs + s * size) size

theorem shardRows_eq (rows : List ρ) (numChunks bs size s : ℕ) :
    shardRows rows numChunks bs size false s =
      select rows ((List.range numChunks).flatMap fun c =>
        List.range' (c * bs + s * size) size) := by
  rw [List.flatMap_def, select_flatten, List.map_map, shardRows, List.flatMap_def]
  congr 1
  apply List.map_congr_left
  intro c _
  have hwidth : c * bs + (s + 1) * size - (c * bs + s * size) = size := by
    rw [Nat.add_mul]
    omega
  simp only [Bool.false_eq_true, if_false, sliceRows, hwidth]
  exact (select_range' rows _ _).symm

theorem flatMap_shardRows (rows : List ρ) (numChunks bs shards size : ℕ) :
    (List.range shards).flatMap (shardRows rows numChunks bs size false) =
      select rows (contiguousOrder numChunks bs shards size) := by
  rw [contiguousOrder, List.flatMap_def, List.flatMap_def, select_flatten, List.map_map]
  congr 1
  exact List.map_congr_left fun s _ => shardRows_eq rows numChunks bs size s

theorem contiguousOrder_perm (numChunks : ℕ) (hbs : bs = shards * size) :
    (contiguousOrder numChunks bs shards size).Perm (List.range (numChunks * bs)) := by
  refine (flatMap_comm_perm _ _ _).trans (List.Perm.of_eq ?_)
  rw [← flatMap_range']
  apply List.flatMap_congr
  intro c _
  have hshift : ∀ s, List.range' (c * bs + s * size) size =
      (List.range' (s * size) size).map (c * bs + ·) := fun s => (List.map_add_range' _ _ _).symm
  simp only [hshift]
  rw [← List.map_flatMap, flatMap_range', List.range_eq_range', List.map_add_range', hbs,
    Nat.add_zero]

/-! ## Dynamic batching -/

theorem dynamicOrder_perm (rows : List ρ) (inputLengths : ρ → ℕ) (hshards : 0 < shards) :
    (dynamicOrder rows inputLengths numChunks bs shards).Perm (List.range (numChunks * bs)) := by
  rw [← flatMap_range']
  refine List.Perm.flatMap_left _ fun c _ => ?_
  refine (flatMap_stride_perm _ hshards).trans ?_
  refine ((List.perm_insertionSort _ _).map _).trans (List.Perm.of_eq ?_)
  have hshift := List.map_add_range' (a := c * bs) 0 bs 1
  rw [List.range_eq_range']
  simpa only [Nat.add_comm (c * bs), Nat.zero_add] using hshift

/-- The order looks at the rows through their lengths only. -/
theorem dynamicOrder_map (rows : List ρ) (inputLengths : ρ → ℕ) :
    dynamicOrder rows inputLengths numChunks bs shards =
      dynamicOrder (rows.map inputLengths) id numChunks bs shards := by
  simp [dynamicOrder]

/-! ## Sequence packing -/

/-- The bins of chunk `c` for given padded lengths, as the packer packs them. -/
def binsOf (algorithm : PackingAlgorithm) (maxTokens : ℕ) (rand : Shuffle) (shards c : ℕ)
    (paddedLengths : List ℕ) : List (List ℕ) :=
  match (getPacker algorithm maxTokens (some shards) (some shards)).bind
      fun packer => packer.pack rand c paddedLengths with
  | .ok bins => bins
  | .error _ => []

/-- Each shard holds its bins of each chunk. -/
def packedOrder (algorithm : PackingAlgorithm) (maxTokens : ℕ) (rand : Shuffle)
    (paddedLengths : List ℕ) (numChunks bs shards : ℕ) : List ℕ :=
  (List.range shards).flatMap fun s => (List.range numChunks).flatMap fun c =>
    (chunkBins bs shards s (binsOf algorithm maxTokens rand shards c
      (sliceRows paddedLengths (c * bs) ((c + 1) * bs)), c)).flatten

theorem sliceRows_map {α β : Type} (f : α → β) (l : List α) (a b : ℕ) :
    sliceRows (l.map f) a b = (sliceRows l a b).map f := by
  simp [sliceRows, List.map_take, List.map_drop]

/-- The order computed by the packing loop is the one that the packer's bins determine. -/
theorem PackerBins.order_eq {args : SequencePackingArgs ρ} {rand : Shuffle}
    {chunks : List (List (List ℕ))} (h : PackerBins rows args rand shards numChunks bs chunks) :
    ((List.range shards).flatMap fun s => (assigned bs shards chunks s).flatten.flatten) =
      packedOrder args.algorithm args.maxTokensPerMicrobatch rand
        (rows.map (paddedLengthOf args)) numChunks bs shards := by
  obtain ⟨packer, hpacker, hlen, hpack⟩ := h
  apply List.flatMap_congr
  intro s _
  rw [assigned_eq_map, List.flatten_flatten, List.map_map, hlen, List.flatMap_def]
  congr 1
  apply List.map_congr_left
  intro c hc
  have hbins : chunks[c]? = some (chunks.getD c []) := by
    have : c < chunks.length := by rw [hlen]; exact List.mem_range.mp hc
    simp [this]
  have hbinsOf : binsOf args.algorithm args.maxTokensPerMicrobatch rand shards c
      (sliceRows (rows.map (paddedLengthOf args)) (c * bs) ((c + 1) * bs)) =
      chunks.getD c [] := by
    simp only [binsOf, hpacker, Except.bind, sliceRows_map, hpack c _ hbins]
  rw [Function.comp_apply, shardBins_eq s hbins, hbinsOf]

/-! ## The shards together -/

section Rows
variable {d : BatchedDataDict ρ} {rand : Shuffle} {batchSize : Option ℕ}
  {sharded : List (BatchedDataDict ρ)} {order : Option (List ℕ)}

/-- Without dynamic batching and packing the shards are contiguous parts. -/
theorem rows_contiguous
    (h : d.shardByBatchSize rand shards batchSize false none none = .ok (sharded, order))
    (hbs : batchSize.getD d.rows.length = bs) :
    let order := contiguousOrder (d.rows.length / bs) bs shards (bs / shards)
    sharded.flatMap BatchedDataDict.rows = select d.rows order ∧
      order.Perm (List.range d.rows.length) := by
  obtain ⟨bs', hcheck, h⟩ := bind_eq_ok.mp h
  obtain ⟨hbs', -, hdvd, -, heven⟩ := checkShardArgs_ok hcheck
  obtain rfl : bs' = bs := hbs'.trans hbs
  obtain ⟨rfl, -⟩ := Prod.mk.inj (Except.ok.inj h)
  constructor
  · rw [List.flatMap_map, ← flatMap_shardRows]
    simp [List.flatMap_map]
  · have := contiguousOrder_perm (d.rows.length / bs')
      (Nat.mul_div_cancel' (heven rfl)).symm
    rwa [Nat.div_mul_cancel hdvd] at this

/-- Dynamic batching lays the rows out before it takes contiguous parts. -/
theorem rows_dynamic {args : DynamicBatchingArgs ρ}
    (h : d.shardByBatchSize rand shards batchSize false (some args) none = .ok (sharded, order))
    (hbs : batchSize.getD d.rows.length = bs) :
    let order := select (dynamicOrder d.rows args.inputLengths (d.rows.length / bs) bs shards)
      (contiguousOrder (d.rows.length / bs) bs shards (bs / shards))
    sharded.flatMap BatchedDataDict.rows = select d.rows order ∧
      order.Perm (List.range d.rows.length) := by
  obtain ⟨bs', hcheck, h⟩ := bind_eq_ok.mp h
  obtain ⟨hbs', -, hdvd, hshards, heven⟩ := checkShardArgs_ok hcheck
  obtain rfl : bs' = bs := hbs'.trans hbs
  obtain ⟨plans, -, h⟩ := bind_eq_ok.mp h
  obtain ⟨rfl, -⟩ := Prod.mk.inj (Except.ok.inj h)
  have hperm : (dynamicOrder d.rows args.inputLengths (d.rows.length / bs') bs' shards).Perm
      (List.range (d.rows.length / bs' * bs')) :=
    dynamicOrder_perm d.rows args.inputLengths hshards
  have hcontig := contiguousOrder_perm (d.rows.length / bs')
    (Nat.mul_div_cancel' (heven rfl)).symm
  rw [Nat.div_mul_cancel hdvd] at hperm hcontig
  constructor
  · rw [List.flatMap_map, ← select_select (lt_of_perm_range hperm), ← flatMap_shardRows]
    simp [List.flatMap_map]
  · have hlen := length_of_perm_range hperm
    exact (select_perm (by rwa [hlen])).trans hperm

/-- With sequence packing each shard holds its bins. -/
theorem rows_packed {args : SequencePackingArgs ρ}
    (h : d.shardByBatchSize rand shards batchSize false none (some args) = .ok (sharded, order))
    (hbs : batchSize.getD d.rows.length = bs) :
    let order := packedOrder args.algorithm args.maxTokensPerMicrobatch rand
      (d.rows.map (paddedLengthOf args)) (d.rows.length / bs) bs shards
    sharded.flatMap BatchedDataDict.rows = select d.rows order ∧
      order.Perm (List.range d.rows.length) := by
  obtain ⟨bs', hcheck, h⟩ := bind_eq_ok.mp h
  obtain ⟨hbs', -, hdvd, hshards, -⟩ := checkShardArgs_ok hcheck
  obtain rfl : bs' = bs := hbs'.trans hbs
  obtain ⟨⟨sharded', order'⟩, hpacked, h⟩ := bind_eq_ok.mp h
  obtain ⟨rfl, -⟩ := Prod.mk.inj (Except.ok.inj h)
  obtain ⟨chunks, hbins, -, rfl, -⟩ := shardPacked_spec hpacked
  constructor
  · rw [flatMap_rows_shardOf, hbins.order_eq]
  · rw [← hbins.order_eq]
    exact hbins.order_perm hshards hdvd

/-- There are as many shards as asked for. -/
theorem length_sharded {allowUneven : Bool} {dynamic : Option (DynamicBatchingArgs ρ)}
    {packing : Option (SequencePackingArgs ρ)}
    (h : d.shardByBatchSize rand shards batchSize allowUneven dynamic packing =
      .ok (sharded, order)) : sharded.length = shards := by
  obtain ⟨bs, -, h⟩ := bind_eq_ok.mp h
  rcases dynamic with - | args
  · rcases packing with - | args
    · obtain ⟨rfl, -⟩ := Prod.mk.inj (Except.ok.inj h)
      simp
    · obtain ⟨⟨sharded', order'⟩, hpacked, h⟩ := bind_eq_ok.mp h
      obtain ⟨chunks, -, -, hsharded, -⟩ := shardPacked_spec hpacked
      obtain ⟨rfl, -⟩ := Prod.mk.inj (Except.ok.inj h)
      rw [hsharded, List.length_map, List.length_range]
  · obtain ⟨plans, -, h⟩ := bind_eq_ok.mp h
    obtain ⟨rfl, -⟩ := Prod.mk.inj (Except.ok.inj h)
    simp

end Rows

/-! ## Contiguous shards that swap rows in pairs -/

/-- Place `(s * numChunks + c) * size + o` of the dispatch order holds row `o` of the part
of chunk `c` that shard `s` gets. -/
theorem getElem?_contiguousOrder (bs : ℕ) {s c o : ℕ} (hs : s < shards) (hc : c < numChunks)
    (ho : o < size) :
    (contiguousOrder numChunks bs shards size)[(s * numChunks + c) * size + o]? =
      some (c * bs + s * size + o) := by
  have hindex : (s * numChunks + c) * size + o = s * (numChunks * size) + (c * size + o) := by
    ring
  have hinner : c * size + o < numChunks * size := by
    calc
      c * size + o < (c + 1) * size := by rw [Nat.add_mul]; omega
      _ ≤ numChunks * size := Nat.mul_le_mul_right size hc
  rw [hindex, contiguousOrder, getElem?_flatMap_range (fun s _ => by simp) hs hinner,
    getElem?_flatMap_range (fun c _ => by simp) hc ho]
  simp [ho]

/-- With `numChunks` chunks the dispatch order transposes a `shards × numChunks` grid of
blocks. It is its own inverse exactly for a grid of one row or column or a square one. -/
theorem selfInverse_contiguousOrder (hchunks : 0 < numChunks) (hshards : 0 < shards)
    (hsize : 0 < size) (hbs : bs = shards * size) :
    SelfInverse (contiguousOrder numChunks bs shards size) ↔
      numChunks = 1 ∨ shards = 1 ∨ numChunks = shards := by
  subst hbs
  constructor
  · intro hself
    by_contra hcon
    obtain ⟨hc, hs, hne⟩ : numChunks ≠ 1 ∧ shards ≠ 1 ∧ numChunks ≠ shards := by
      simpa [not_or] using hcon
    -- block 1 receives block `shards`, so block `shards` would have to receive block 1
    have hone := getElem?_contiguousOrder (shards * size) (s := 0) (c := 1) hshards
      (by omega : 1 < numChunks) hsize
    have hback := hself _ _ hone
    have hdiv : shards / numChunks < shards := Nat.div_lt_self hshards (by omega)
    have hmod : shards % numChunks < numChunks := Nat.mod_lt _ hchunks
    have hblock := getElem?_contiguousOrder (shards * size) hdiv hmod hsize
    have hplace : (shards / numChunks * numChunks + shards % numChunks) * size + 0 =
        1 * (shards * size) + 0 * size + 0 := by
      rw [Nat.div_add_mod']
      ring
    rw [hplace, hback] at hblock
    have hsum : size * 1 = size * (shards % numChunks * shards + shards / numChunks) := by
      have := Option.some.inj hblock
      linarith
    have hsum := Nat.eq_of_mul_eq_mul_left hsize hsum
    have hmain := Nat.div_add_mod shards numChunks
    generalize shards / numChunks = q at hsum hmain
    generalize shards % numChunks = r at hsum hmain
    obtain rfl : r = 0 := by
      by_contra hpos
      have : 1 * shards ≤ r * shards :=
        Nat.mul_le_mul_right shards (Nat.one_le_iff_ne_zero.mpr hpos)
      omega
    obtain rfl : q = 1 := by omega
    omega
  · intro hcases i j hij
    have hi : i < numChunks * (shards * size) := by
      have := (List.getElem?_eq_some_iff.mp hij).1
      rwa [length_of_perm_range (contiguousOrder_perm _ rfl)] at this
    obtain ⟨s, c, o, hs, hc, ho, rfl⟩ : ∃ s c o, s < shards ∧ c < numChunks ∧ o < size ∧
        i = (s * numChunks + c) * size + o := by
      refine ⟨i / size / numChunks, i / size % numChunks, i % size, ?_, Nat.mod_lt _ hchunks,
        Nat.mod_lt _ hsize, ?_⟩
      · rw [Nat.div_div_eq_div_mul, Nat.div_lt_iff_lt_mul (by positivity)]
        linarith
      · rw [Nat.div_add_mod', Nat.div_add_mod']
    have hplace := getElem?_contiguousOrder (shards * size) hs hc ho
    obtain rfl : c * (shards * size) + s * size + o = j :=
      Option.some.inj (hplace.symm.trans hij)
    have hj : c * (shards * size) + s * size + o = (c * shards + s) * size + o := by ring
    rcases hcases with rfl | rfl | rfl
    · obtain rfl : c = 0 := by omega
      simpa using hij
    · obtain rfl : s = 0 := by omega
      simpa using hij
    · rw [hj, getElem?_contiguousOrder _ hc hs ho]
      congr 1
      ring

end NemoRL.Distributed
