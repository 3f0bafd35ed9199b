import NemoRL.Distributed.ColumnSharding

/-!
# Which columns are put together again from the shards

Each kind of column is cut at the same rows. The blocks that the shards hold of a chunk follow
each other in it, so that the sub-batches of all shards make up the chunk. With uneven shards the
shards themselves make up the batch, unless there are so many that one of them is left without
rows: a packed tensor cannot be empty, and such a shard is given one that has as many missing
entries as the whole batch has rows.

## Main definitions

* `shardCells` — the rows of a column that a shard gets.
* `Reassembles` — the shards make up the batch again.

## Main results

* `exists_shardColumn` — the three kinds of columns are cut at the same rows.
* `shardByBatchSizePlain_reassembles_iff` — when the shards make up the batch again.
-/

namespace NemoRL.Distributed

open Lib

variable {ρ : Type}

/-! ## Pairs of lists -/

theorem flatMap_of_forall₂ {α β γ : Type} {f : β → List γ} {g : α → List γ} {l : List α}
    {l' : List β} (h : List.Forall₂ (fun a b => f b = g a) l l') :
    l'.flatMap f = l.flatMap g := by
  induction h with
  | nil => rfl
  | cons hab _ ih => rw [List.flatMap_cons, List.flatMap_cons, hab, ih]

/-- Mapping a list that is paired with another one. -/
theorem exists_mapM_of_forall₂ {α β γ : Type} {r : α → β → Prop} {r' : α → γ → Prop}
    {f : β → Except PyError γ} {l : List α} {l' : List β} (h : List.Forall₂ r l l')
    (hf : ∀ a ∈ l, ∀ b, r a b → ∃ c, f b = .ok c ∧ r' a c) :
    ∃ l'', l'.mapM f = .ok l'' ∧ List.Forall₂ r' l l'' := by
  induction h with
  | nil => exact ⟨[], mapM_eq_ok.mpr .nil, .nil⟩
  | @cons a b l l' hab _ ih =>
    obtain ⟨c, hc, hr⟩ := hf a List.mem_cons_self b hab
    obtain ⟨l'', hl'', hall⟩ := ih fun a' ha' => hf a' (List.mem_cons_of_mem a ha')
    exact ⟨c :: l'', mapM_eq_ok.mpr (.cons hc (mapM_eq_ok.mp hl'')), .cons hr hall⟩

theorem forall_of_forall₂ {α β : Type} {P : β → Prop} {l : List α} {l' : List β}
    (h : List.Forall₂ (fun _ b => P b) l l') : ∀ b ∈ l', P b := by
  induction h with
  | nil => simp
  | cons hb _ ih => exact List.forall_mem_cons.mpr ⟨hb, ih⟩

/-! ## Cutting a column -/

/-- Whether a column is a packed tensor. -/
def Column.IsPacked : Column ρ → Prop
  | .packed _ => True
  | _ => False

/-- The rows of a column that a shard gets for its ranges. -/
def shardCells (ranges : List (ℕ × ℕ)) (col : Column ρ) : List (Option ρ) :=
  match ranges, col with
  | [], .packed t => List.replicate t.tensors.length none
  | ranges, col => ranges.flatMap fun range => slice col.cells range.1 range.2

theorem shardCells_of_ne_nil {ranges : List (ℕ × ℕ)} (h : ranges ≠ []) (col : Column ρ) :
    shardCells ranges col = ranges.flatMap fun range => slice col.cells range.1 range.2 := by
  cases ranges with
  | nil => exact absurd rfl h
  | cons range ranges => rfl

theorem shardCells_of_not_packed {col : Column ρ} (h : ¬col.IsPacked) (ranges : List (ℕ × ℕ)) :
    shardCells ranges col = ranges.flatMap fun range => slice col.cells range.1 range.2 := by
  cases ranges with
  | cons range ranges => rfl
  | nil =>
    cases col with
    | packed t => exact absurd trivial h
    | tensor rows => rfl
    | list values => rfl

/-- The ranges lie in a column and none is empty. -/
def RangesIn (ranges : List (ℕ × ℕ)) (n : ℕ) : Prop :=
  ∀ range ∈ ranges, range.1 < range.2 ∧ range.2 ≤ n

theorem RangesIn.of_cons {range : ℕ × ℕ} {ranges : List (ℕ × ℕ)} {n : ℕ}
    (h : RangesIn (range :: ranges) n) : RangesIn ranges n :=
  fun other hother => h other (List.mem_cons_of_mem range hother)

theorem length_slice_range {α : Type} {l : List α} {range : ℕ × ℕ}
    (h : range.1 < range.2 ∧ range.2 ≤ l.length) :
    (slice l range.1 range.2).length = range.2 - range.1 := length_slice h.2

theorem copyRanges_eq {v : List ρ} (pre rest : List ρ) {ranges : List (ℕ × ℕ)}
    (h : RangesIn ranges v.length)
    (hrest : rest.length = (ranges.map fun range => range.2 - range.1).sum) :
    copyRanges v (pre ++ rest) pre.length ranges =
      .ok (pre ++ ranges.flatMap fun range => slice v range.1 range.2) := by
  induction ranges generalizing pre rest with
  | nil =>
    obtain rfl : rest = [] := by simpa using hrest
    simp [copyRanges]
  | cons range ranges ih =>
    obtain ⟨start, stop⟩ := range
    have hrange := h (start, stop) List.mem_cons_self
    have hspan : (slice v start stop).length = stop - start := length_slice_range hrange
    rw [List.map_cons, List.sum_cons] at hrest
    dsimp only at hrest
    have hmid : (slice v start stop).length = (rest.take (stop - start)).length := by
      rw [hspan, List.length_take]
      omega
    have hsplit : pre ++ rest = pre ++ rest.take (stop - start) ++ rest.drop (stop - start) := by
      rw [List.append_assoc, List.take_append_drop]
    have hassign : assignSlice (pre ++ rest.take (stop - start) ++ rest.drop (stop - start))
        pre.length (pre.length + (rest.take (stop - start)).length) (slice v start stop) =
          some (pre ++ slice v start stop ++ rest.drop (stop - start)) := assignSlice_eq hmid
    rw [← hsplit, ← hmid, hspan] at hassign
    have hlen : pre.length + (stop - start) = (pre ++ slice v start stop).length := by
      rw [List.length_append, hspan]
    rw [copyRanges, hassign]
    dsimp only
    rw [hlen, ih _ _ h.of_cons (by rw [List.length_drop]; omega), List.flatMap_cons,
      List.append_assoc]

theorem mapM_getOrRaise_range' {α : Type} {l : List α} {range : ℕ × ℕ}
    (h : range.1 < range.2 ∧ range.2 ≤ l.length) :
    (List.range' range.1 (range.2 - range.1)).mapM (BatchedDataDict.getOrRaise l) =
      .ok (slice l range.1 range.2) := by
  rw [mapM_eq_ok, List.forall₂_iff_get]
  refine ⟨by rw [List.length_range', length_slice_range h], ?_⟩
  intro i hi hi'
  rw [List.length_range'] at hi
  have hlt : range.1 + i < l.length := by omega
  simp [BatchedDataDict.getOrRaise, slice, List.getElem?_eq_getElem hlt]

theorem PackedTensor.ofTensors_eq {tensors : List (Option ρ)} (h : tensors ≠ []) (dim : ℤ) :
    ofTensors tensors dim = .ok ⟨tensors, dim, h⟩ := dif_neg h

theorem slice_ne_nil {α : Type} {l : List α} {range : ℕ × ℕ}
    (h : range.1 < range.2 ∧ range.2 ≤ l.length) : slice l range.1 range.2 ≠ [] := by
  rw [← List.length_pos_iff, length_slice_range h]
  omega

/-- Slicing a packed tensor at a range that holds an entry. -/
theorem PackedTensor.slice_eq (t : PackedTensor ρ) {range : ℕ × ℕ}
    (h : range.1 < range.2 ∧ range.2 ≤ t.tensors.length) :
    t.slice (List.range' range.1 (range.2 - range.1)) =
      .ok ⟨Lib.slice t.tensors range.1 range.2, t.dimToPack, slice_ne_nil h⟩ := by
  rw [PackedTensor.slice, mapM_getOrRaise_range' h]
  exact PackedTensor.ofTensors_eq _ _

/-- Joining packed tensors of one dimension joins their entries. -/
theorem PackedTensor.exists_concat {ts : List (PackedTensor ρ)} {dim : ℤ} (hne : ts ≠ [])
    (hdim : ∀ t ∈ ts, t.dimToPack = dim) :
    ∃ t, concat ts = .ok t ∧ t.tensors = ts.flatMap tensors ∧ t.dimToPack = dim := by
  cases ts with
  | nil => exact absurd rfl hne
  | cons t ts =>
    have hsame : (ts.all fun t' => t'.dimToPack = t.dimToPack) = true := by
      rw [List.all_eq_true]
      intro t' ht'
      rw [decide_eq_true_eq, hdim t' (List.mem_cons_of_mem t ht'), hdim t List.mem_cons_self]
    have htensors : (t :: ts).flatMap tensors ≠ [] := by
      rw [List.flatMap_cons]
      exact List.append_ne_nil_of_left_ne_nil t.tensors_ne _
    rw [concat, if_pos hsame, ofTensors_eq htensors]
    exact ⟨_, rfl, rfl, hdim t List.mem_cons_self⟩

/-- The three kinds of columns are cut at the same rows. -/
theorem exists_shardColumn (uninitialized : ρ) {ranges : List (ℕ × ℕ)} {col : Column ρ}
    (h : RangesIn ranges col.length) :
    ∃ col', shardColumn uninitialized ranges col = .ok col' ∧
      col'.cells = shardCells ranges col := by
  cases col with
  | tensor v =>
    have hin : RangesIn ranges v.length := by simpa [Column.length, Column.cells] using h
    have hcopy := copyRanges_eq [] (List.replicate (ranges.map fun range =>
      range.2 - range.1).sum uninitialized) hin List.length_replicate
    refine ⟨.tensor (ranges.flatMap fun range => slice v range.1 range.2), ?_, ?_⟩
    · rw [List.nil_append, List.length_nil, List.nil_append] at hcopy
      rw [shardColumn, hcopy]
      rfl
    · have hnot : ¬(Column.tensor v).IsPacked := id
      rw [shardCells_of_not_packed hnot]
      simp [Column.cells, List.map_flatMap, slice, List.map_take, List.map_drop]
  | list v =>
    have hin : RangesIn ranges v.length := by simpa [Column.length, Column.cells] using h
    have hread : (ranges.mapM fun range => (List.range' range.1 (range.2 - range.1)).mapM
        (BatchedDataDict.getOrRaise v)) =
          .ok (ranges.map fun range => slice v range.1 range.2) :=
      mapM_of_forall fun range hmem => mapM_getOrRaise_range' (hin range hmem)
    refine ⟨.list (ranges.flatMap fun range => slice v range.1 range.2), ?_, ?_⟩
    · rw [shardColumn, hread]
      rfl
    · have hnot : ¬(Column.list v).IsPacked := id
      rw [shardCells_of_not_packed hnot]
      simp [Column.cells, List.map_flatMap, slice, List.map_take, List.map_drop]
  | packed t =>
    have hin : RangesIn ranges t.tensors.length := h
    have hslices : ∀ range ∈ ranges, ∃ t',
        t.slice (List.range' range.1 (range.2 - range.1)) = .ok t' ∧
        t'.tensors = slice t.tensors range.1 range.2 ∧ t'.dimToPack = t.dimToPack := by
      intro range hmem
      exact ⟨_, PackedTensor.slice_eq t (hin range hmem), rfl, rfl⟩
    obtain ⟨slices, hmap, hall⟩ := exists_mapM_forall₂ hslices
    cases ranges with
    | nil => exact ⟨.packed t.emptyLike, rfl, rfl⟩
    | cons range ranges =>
      have hne : slices ≠ [] := by
        intro hnil
        rw [hnil] at hall
        cases hall
      have hdim : ∀ t' ∈ slices, t'.dimToPack = t.dimToPack :=
        forall_of_forall₂ (hall.imp fun _ _ hboth => hboth.2)
      have hentries := flatMap_of_forall₂ (hall.imp fun _ _ hboth => hboth.1)
      obtain ⟨joined, hconcat, htensors, -⟩ := PackedTensor.exists_concat hne hdim
      refine ⟨.packed joined, ?_, ?_⟩
      · rw [shardColumn, hmap]
        simp only [bind, Except.bind, pure, Except.pure, if_neg hne, hconcat]
      · rw [Column.cells, htensors, hentries,
          shardCells_of_ne_nil (List.cons_ne_nil range ranges)]
        rfl

/-- A column is sliced at the rows of a range that holds one. -/
theorem exists_sliceColumn (key : String) {col : Column ρ} {range : ℕ × ℕ}
    (h : range.1 < range.2 ∧ range.2 ≤ col.length) :
    ∃ col', sliceColumn key range.1 range.2 col = .ok col' ∧
      col'.cells = slice col.cells range.1 range.2 := by
  cases col with
  | tensor v =>
    have hle : range.2 ≤ v.length := by simpa [Column.length, Column.cells] using h.2
    refine ⟨_, if_pos hle, ?_⟩
    simp [Column.cells, slice, List.map_take, List.map_drop]
  | list v =>
    refine ⟨_, rfl, ?_⟩
    simp [Column.cells, slice, List.map_take, List.map_drop]
  | packed t =>
    have hslice := PackedTensor.slice_eq t h
    refine ⟨.packed ⟨Lib.slice t.tensors range.1 range.2, t.dimToPack, slice_ne_nil h⟩, ?_,
      rfl⟩
    rw [sliceColumn, hslice]
    rfl

/-! ## The columns of a batch -/

/-- The rows that a batch has under a key. -/
def cellsAt (key : String) (data : List (String × Column ρ)) : List (Option ρ) :=
  ((data.lookup key).map Column.cells).getD []

/-- A batch whose columns are those of another one, each with other rows. -/
def ColumnsFrom (rowsOf : Column ρ → List (Option ρ)) (data data' : List (String × Column ρ)) :
    Prop :=
  List.Forall₂ (fun p q => q.1 = p.1 ∧ q.2.cells = rowsOf p.2) data data'

variable {data data' : List (String × Column ρ)} {rowsOf : Column ρ → List (Option ρ)}

theorem ColumnsFrom.cellsAt_eq (h : ColumnsFrom rowsOf data data') (key : String) :
    cellsAt key data' = ((data.lookup key).map rowsOf).getD [] := by
  unfold cellsAt
  induction h with
  | nil => rfl
  | cons hpq _ ih =>
    rw [lookup_cons, lookup_cons, hpq.1]
    split
    case isTrue => exact hpq.2
    case isFalse => exact ih

/-- Mapping the columns of a batch. -/
theorem exists_mapM_columns (f : String → Column ρ → Except PyError (Column ρ))
    (h : ∀ p ∈ data, ∃ col, f p.1 p.2 = .ok col ∧ col.cells = rowsOf p.2) :
    ∃ data', (data.mapM fun p => do
      let col ← f p.1 p.2
      return (p.1, col)) = .ok data' ∧ ColumnsFrom rowsOf data data' := by
  refine exists_mapM_forall₂ ?_
  intro p hp
  obtain ⟨col, hf, hcells⟩ := h p hp
  refine ⟨(p.1, col), ?_, rfl, hcells⟩
  rw [hf]
  rfl

/-- Cutting the columns of a batch once more. -/
theorem ColumnsFrom.cut {data'' : List (String × Column ρ)}
    {g : List (Option ρ) → List (Option ρ)} {rowsOf' : Column ρ → List (Option ρ)}
    (h : ColumnsFrom rowsOf data data') (h' : ColumnsFrom (fun col => g col.cells) data' data'')
    (hg : ∀ p ∈ data, g (rowsOf p.2) = rowsOf' p.2) : ColumnsFrom rowsOf' data data'' := by
  unfold ColumnsFrom at h h' ⊢
  induction h generalizing data'' with
  | nil =>
    cases h'
    exact .nil
  | @cons p q data data' hpq _ ih =>
    cases h' with
    | cons hqr hrest =>
      refine .cons ⟨hqr.1.trans hpq.1, ?_⟩
        (ih hrest fun p' hp' => hg p' (List.mem_cons_of_mem p hp'))
      exact hqr.2.trans ((congrArg g hpq.2).trans (hg p List.mem_cons_self))

/-- The columns of a batch have one length. -/
def Aligned (n : ℕ) (data : List (String × Column ρ)) : Prop := ∀ p ∈ data, p.2.length = n

theorem ColumnsFrom.aligned {n : ℕ} (h : ColumnsFrom rowsOf data data')
    (hrows : ∀ p ∈ data, (rowsOf p.2).length = n) : Aligned n data' := by
  unfold ColumnsFrom at h
  induction h with
  | nil => simp [Aligned]
  | cons hpq _ ih =>
    refine List.forall_mem_cons.mpr ⟨?_, ih fun p hp => hrows p (List.mem_cons_of_mem _ hp)⟩
    rw [Column.length, hpq.2]
    exact hrows _ List.mem_cons_self

/-- The length of what a column was made into. -/
theorem length_of_columnsFrom {n : ℕ} (h : ColumnsFrom rowsOf data data')
    (haligned : Aligned n data') {p : String × Column ρ} (hp : p ∈ data) :
    (rowsOf p.2).length = n := by
  unfold ColumnsFrom at h
  induction h with
  | nil => simp at hp
  | @cons p' q _ _ hpq _ ih =>
    cases List.mem_cons.mp hp with
    | inl heq =>
      subst heq
      rw [← hpq.2]
      exact haligned q List.mem_cons_self
    | inr hmem => exact ih (fun q' hq' => haligned q' (List.mem_cons_of_mem q hq')) hmem

theorem aligned_of_totalBatchSize {n : ℕ} (h : totalBatchSize data = .ok n) :
    data ≠ [] ∧ Aligned n data := by
  rw [totalBatchSize] at h
  split at h
  case h_2 => simp at h
  case h_1 total hdedup =>
    obtain rfl := Except.ok.inj h
    constructor
    · rintro rfl
      simp at hdedup
    · intro p hp
      have hmem : p.2.length ∈ (data.map fun p => p.2.length).dedup :=
        List.mem_dedup.mpr (List.mem_map.mpr ⟨p, hp, rfl⟩)
      rw [hdedup] at hmem
      exact List.mem_singleton.mp hmem

/-! ## The ranges of a shard -/

section Ranges
variable {numChunks shards m k : ℕ}

/-- The start of the part that a shard takes of a chunk. -/
theorem shardStart_eq (c shards m k : ℕ) : c * (shards * m) + k * m = (c * shards + k) * m := by
  rw [Nat.add_mul, Nat.mul_assoc]

/-- Where the shards divide the chunks, a shard takes one block of each chunk. -/
theorem shardRanges_of_dvd (hm : 0 < m) (hk : k < shards) (allowUnevenShards : Bool) :
    shardRanges (numChunks * (shards * m)) numChunks (shards * m) m allowUnevenShards k =
      (List.range numChunks).map fun c =>
        ((c * shards + k) * m, (c * shards + k) * m + m) := by
  have hrange : ∀ c ∈ List.range numChunks,
      (if allowUnevenShards = true then
        (min (c * (shards * m) + k * m) (numChunks * (shards * m)),
          min (c * (shards * m) + (k + 1) * m) (numChunks * (shards * m)))
      else (c * (shards * m) + k * m, c * (shards * m) + (k + 1) * m)) =
        ((c * shards + k) * m, (c * shards + k) * m + m) := by
    intro c hc
    have hchunk := block_end_le (shards * m) (List.mem_range.mp hc)
    have hblock := block_end_le m hk
    rw [Nat.succ_mul, ← Nat.add_assoc, ← shardStart_eq]
    split
    case isTrue => rw [Nat.min_eq_left (by omega), Nat.min_eq_left (by omega)]
    case isFalse => rfl
  rw [shardRanges, List.map_congr_left hrange, List.filter_eq_self]
  intro range hmem
  obtain ⟨c, -, rfl⟩ := List.mem_map.mp hmem
  simpa using hm

/-- With uneven shards a shard takes what is left of one block. -/
theorem shardRanges_uneven {n : ℕ} (hm : 0 < m) :
    shardRanges n 1 n m true k = if k * m < n then [(k * m, min (k * m + m) n)] else [] := by
  rw [shardRanges, List.range_one, List.map_singleton]
  simp only [Nat.zero_mul, Nat.zero_add, if_true, Nat.succ_mul]
  by_cases h : k * m < n
  · rw [if_pos h, Nat.min_eq_left h.le, List.filter_eq_self]
    intro range hmem
    rw [List.mem_singleton] at hmem
    subst hmem
    rw [decide_eq_true_eq]
    omega
  · rw [if_neg h, List.filter_eq_nil_iff]
    intro range hmem
    rw [List.mem_singleton] at hmem
    subst hmem
    rw [decide_eq_true_eq]
    omega

/-- What a shard gets of a column in even shards. -/
theorem shardCells_of_dvd {col : Column ρ} (hm : 0 < m) (hk : k < shards)
    (hlen : col.length = numChunks * (shards * m)) (allowUnevenShards : Bool) :
    shardCells (shardRanges (numChunks * (shards * m)) numChunks (shards * m) m
      allowUnevenShards k) col =
        (List.range numChunks).flatMap fun c => block m (c * shards + k) col.cells := by
  have hor : shardRanges (numChunks * (shards * m)) numChunks (shards * m) m
      allowUnevenShards k ≠ [] ∨ ¬col.IsPacked := by
    rw [shardRanges_of_dvd hm hk]
    cases col with
    | tensor rows => exact .inr id
    | list values => exact .inr id
    | packed t =>
      refine .inl ?_
      intro hnil
      rw [List.map_eq_nil_iff, List.range_eq_nil] at hnil
      rw [hnil, Nat.zero_mul] at hlen
      exact t.tensors_ne (List.length_eq_zero_iff.mp hlen)
  have hcells : shardCells (shardRanges (numChunks * (shards * m)) numChunks (shards * m) m
      allowUnevenShards k) col = (shardRanges (numChunks * (shards * m)) numChunks (shards * m) m
        allowUnevenShards k).flatMap fun range => slice col.cells range.1 range.2 :=
    hor.elim (fun h => shardCells_of_ne_nil h col) fun h => shardCells_of_not_packed h _
  rw [hcells, shardRanges_of_dvd hm hk, List.flatMap_map]
  rfl

theorem slice_min_length {α : Type} (l : List α) (i j : ℕ) :
    slice l i (min j l.length) = slice l i j := by
  rw [slice, slice]
  cases Nat.le_total j l.length with
  | inl hle => rw [Nat.min_eq_left hle]
  | inr hle =>
    rw [Nat.min_eq_right hle, List.take_of_length_le (by rw [List.length_drop]),
      List.take_of_length_le (by rw [List.length_drop]; omega)]

/-- What a shard gets of a column in uneven shards, if it gets any rows or the column is no
packed tensor. -/
theorem shardCells_uneven {n : ℕ} {col : Column ρ} (hm : 0 < m) (hlen : col.length = n)
    (h : ¬col.IsPacked ∨ k * m < n) :
    shardCells (shardRanges n 1 n m true k) col = block m k col.cells := by
  rw [shardRanges_uneven hm]
  by_cases hlt : k * m < n
  · rw [if_pos hlt, shardCells_of_ne_nil (List.cons_ne_nil _ _), List.flatMap_singleton, ← hlen]
    exact slice_min_length _ _ _
  · have hnil : block m k col.cells = [] := by
      rw [block, slice, List.drop_eq_nil_of_le, List.take_nil]
      rw [← hlen] at hlt
      exact Nat.le_of_not_lt hlt
    rw [if_neg hlt, shardCells_of_not_packed (h.resolve_right hlt), hnil]
    rfl

/-- A packed tensor in a shard without rows has as many entries as the whole batch has rows. -/
theorem shardCells_empty_shard {n : ℕ} {col : Column ρ} (hm : 0 < m) (hpacked : col.IsPacked)
    (hlen : col.length = n) (h : n ≤ k * m) :
    (shardCells (shardRanges n 1 n m true k) col).length = n := by
  rw [shardRanges_uneven hm, if_neg (by omega)]
  cases col with
  | tensor rows => exact absurd hpacked id
  | list values => exact absurd hpacked id
  | packed t => exact List.length_replicate.trans hlen

/-- The ranges of a shard lie in the batch. -/
theorem rangesIn_shardRanges {n : ℕ} (hm : 0 < m) :
    RangesIn (shardRanges n 1 n m true k) n := by
  rw [shardRanges_uneven hm]
  split
  case isTrue h =>
    intro range hmem
    rw [List.mem_singleton] at hmem
    subst hmem
    dsimp only
    omega
  case isFalse => simp [RangesIn]

theorem rangesIn_shardRanges_of_dvd (hm : 0 < m) (hk : k < shards) (allowUnevenShards : Bool) :
    RangesIn (shardRanges (numChunks * (shards * m)) numChunks (shards * m) m
      allowUnevenShards k) (numChunks * (shards * m)) := by
  rw [shardRanges_of_dvd hm hk]
  intro range hmem
  obtain ⟨c, hc, rfl⟩ := List.mem_map.mp hmem
  have hchunk := block_end_le (shards * m) (List.mem_range.mp hc)
  have hblock := block_end_le m hk
  have hstart := shardStart_eq c shards m k
  dsimp only
  omega

end Ranges

/-! ## The shards -/

/-- The shards make up the batch again: where the shards divide the chunks, the sub-batches for a
chunk hold as many rows each and are the chunk together, and uneven shards are the whole batch
together, each with as many rows as the first one unless fewer are left. -/
structure Reassembles (data : List (String × Column ρ)) (total shards batchSize : ℕ)
    (allowUnevenShards : Bool) (result : List (List (String × Column ρ))) : Prop where
  chunks : shards ∣ batchSize → ∀ c < total / batchSize, ∃ batches,
    result.mapM (fun shard => getBatchPlain shard c (batchSize / shards)) = .ok batches ∧
    (∀ batch ∈ batches, Aligned (batchSize / shards) batch) ∧
    ∀ key, batches.flatMap (cellsAt key) =
      slice (cellsAt key data) (c * batchSize) ((c + 1) * batchSize)
  uneven : allowUnevenShards = true → (∀ key, result.flatMap (cellsAt key) = cellsAt key data) ∧
    ∃ shardSize, ∀ k shard, result[k]? = some shard →
      Aligned (min shardSize (total - k * shardSize)) shard

/-- The shards, each with its rows of every column. -/
def ShardsFrom (rowsOf : ℕ → Column ρ → List (Option ρ)) (data : List (String × Column ρ))
    (shards : ℕ) (result : List (List (String × Column ρ))) : Prop :=
  List.Forall₂ (fun k shard => ColumnsFrom (rowsOf k) data shard) (List.range shards) result

section Shards
variable {data : List (String × Column ρ)} {shards n m : ℕ}
  {result : List (List (String × Column ρ))} {rowsOf : ℕ → Column ρ → List (Option ρ)}

theorem ShardsFrom.flatMap_cellsAt (h : ShardsFrom rowsOf data shards result) (key : String) :
    result.flatMap (cellsAt key) =
      (List.range shards).flatMap fun k => ((data.lookup key).map (rowsOf k)).getD [] :=
  flatMap_of_forall₂ (h.imp fun _ _ hshard => hshard.cellsAt_eq key)

theorem ShardsFrom.getElem? (h : ShardsFrom rowsOf data shards result) {k : ℕ}
    {shard : List (String × Column ρ)} (hk : result[k]? = some shard) :
    k < shards ∧ ColumnsFrom (rowsOf k) data shard := by
  obtain ⟨hlen, hget⟩ := List.forall₂_iff_get.mp h
  obtain ⟨hlt, rfl⟩ := List.getElem?_eq_some_iff.mp hk
  have hk' : k < (List.range shards).length := by omega
  have hshard := hget k hk' hlt
  simp only [List.get_eq_getElem, List.getElem_range] at hshard
  exact ⟨by simpa using hk', hshard⟩

/-- Blocks that follow each other make up a larger one. -/
theorem flatMap_lookup_block {c numChunks : ℕ} (hdata : Aligned (numChunks * (shards * m)) data)
    (hc : c < numChunks) (key : String) :
    ((List.range shards).flatMap fun k =>
      ((data.lookup key).map fun col => block m (c * shards + k) col.cells).getD []) =
        slice (cellsAt key data) (c * (shards * m)) ((c + 1) * (shards * m)) := by
  rw [cellsAt, Nat.succ_mul]
  cases hcol : data.lookup key with
  | none => simp [slice]
  | some col =>
    have hlen := hdata _ (mem_of_lookup hcol)
    exact flatMap_block_add col.cells m c (length_block hlen hc)

/-- The sub-batches of the shards for a chunk. -/
theorem exists_batches {c numChunks : ℕ} (hm : 0 < m)
    (hdata : Aligned (numChunks * (shards * m)) data)
    (hresult : ShardsFrom (fun k col => (List.range numChunks).flatMap fun c =>
      block m (c * shards + k) col.cells) data shards result) (hc : c < numChunks) :
    ∃ batches, result.mapM (fun shard => getBatchPlain shard c m) = .ok batches ∧
      ShardsFrom (fun k col => block m (c * shards + k) col.cells) data shards batches := by
  refine exists_mapM_of_forall₂ hresult ?_
  intro k hk shard hshard
  rw [List.mem_range] at hk
  have hblocks : ∀ p ∈ data, ∀ c' < numChunks,
      (block m (c' * shards + k) p.2.cells).length = m := by
    intro p hp c' hc'
    have hlen : p.2.cells.length = numChunks * shards * m := by
      rw [Nat.mul_assoc]
      exact hdata p hp
    refine length_block hlen ?_
    have hend := block_end_le shards hc'
    omega
  have hbatch : ∀ q ∈ shard, ∃ col, sliceColumn q.1 (m * c) (m * (c + 1)) q.2 = .ok col ∧
      col.cells = block m c q.2.cells := by
    intro q hq
    have hlen := hshard.aligned (fun p hp => length_flatMap_range (hblocks p hp)) q hq
    have hend := block_end_le m hc
    have hin : (m * c, m * (c + 1)).1 < (m * c, m * (c + 1)).2 ∧
        (m * c, m * (c + 1)).2 ≤ q.2.length := by
      rw [hlen, Nat.mul_succ, Nat.mul_comm m c]
      exact ⟨by omega, hend⟩
    obtain ⟨col, hcol, hcells⟩ := exists_sliceColumn q.1 hin
    refine ⟨col, hcol, ?_⟩
    rw [hcells, block, Nat.mul_succ, Nat.mul_comm m c]
  have hcut : ∃ batch, getBatchPlain shard c m = .ok batch ∧
      ColumnsFrom (fun col => block m c col.cells) shard batch := by
    unfold getBatchPlain
    exact exists_mapM_columns (fun key => sliceColumn key (m * c) (m * (c + 1))) hbatch
  obtain ⟨batch, hget, hcolumns⟩ := hcut
  exact ⟨batch, hget, hshard.cut (g := block m c) hcolumns fun p hp =>
    block_flatMap_range (hblocks p hp) hc⟩

/-- The sub-batches for a chunk make it up. -/
theorem reassembles_chunk {c numChunks : ℕ} (hm : 0 < m)
    (hdata : Aligned (numChunks * (shards * m)) data)
    (hresult : ShardsFrom (fun k col => (List.range numChunks).flatMap fun c =>
      block m (c * shards + k) col.cells) data shards result) (hc : c < numChunks) :
    ∃ batches, result.mapM (fun shard => getBatchPlain shard c m) = .ok batches ∧
      (∀ batch ∈ batches, Aligned m batch) ∧
      ∀ key, batches.flatMap (cellsAt key) =
        slice (cellsAt key data) (c * (shards * m)) ((c + 1) * (shards * m)) := by
  obtain ⟨batches, hmap, hbatches⟩ := exists_batches hm hdata hresult hc
  refine ⟨batches, hmap, ?_, ?_⟩
  · intro batch hmem
    obtain ⟨k, hk⟩ := List.mem_iff_getElem?.mp hmem
    obtain ⟨hlt, hcolumns⟩ := hbatches.getElem? hk
    refine hcolumns.aligned fun p hp => length_block (m := numChunks * shards) ?_ ?_
    · rw [Nat.mul_assoc]
      exact hdata p hp
    · have hend := block_end_le shards hc
      omega
  · intro key
    rw [hbatches.flatMap_cellsAt]
    exact flatMap_lookup_block hdata hc key

/-- The number of rows of a block that may reach beyond the end. -/
theorem length_block_min {α : Type} (l : List α) (k m : ℕ) :
    (block m k l).length = min m (l.length - k * m) := by
  rw [block, slice, List.length_take, List.length_drop, Nat.add_sub_cancel_left]

/-- Uneven shards make up the batch. -/
theorem reassembles_uneven (hn : n ≤ shards * m) (hdata : Aligned n data)
    (hresult : ShardsFrom (fun k col => block m k col.cells) data shards result) :
    (∀ key, result.flatMap (cellsAt key) = cellsAt key data) ∧
      ∃ shardSize, ∀ k shard, result[k]? = some shard →
        Aligned (min shardSize (n - k * shardSize)) shard := by
  constructor
  · intro key
    rw [hresult.flatMap_cellsAt, cellsAt]
    cases hcol : data.lookup key with
    | none => simp
    | some col =>
      have hlen : col.cells.length = n := hdata _ (mem_of_lookup hcol)
      have htake := flatMap_block_take col.cells m shards
      rw [List.take_of_length_le (by omega)] at htake
      exact htake
  · refine ⟨m, ?_⟩
    intro k shard hk
    refine (hresult.getElem? hk).2.aligned fun p hp => ?_
    rw [length_block_min]
    exact congrArg (fun len => min m (len - k * m)) (hdata p hp)

theorem ShardsFrom.congr {rowsOf' : ℕ → Column ρ → List (Option ρ)}
    (h : ShardsFrom rowsOf data shards result)
    (hrows : ∀ k < shards, ∀ p ∈ data, rowsOf k p.2 = rowsOf' k p.2) :
    ShardsFrom rowsOf' data shards result := by
  have hmem : ∀ k ∈ List.range shards, ∀ shard, ColumnsFrom (rowsOf k) data shard →
      ColumnsFrom (rowsOf' k) data shard := by
    intro k hk shard hshard
    rw [List.mem_range] at hk
    unfold ColumnsFrom at hshard ⊢
    have hsame := hrows k hk
    clear hrows h
    induction hshard with
    | nil => exact .nil
    | @cons p q _ _ hpq _ ih =>
      refine .cons ⟨hpq.1, hpq.2.trans (hsame p List.mem_cons_self)⟩ ?_
      exact ih fun p' hp' => hsame p' (List.mem_cons_of_mem p hp')
  unfold ShardsFrom at h ⊢
  generalize List.range shards = ks at h hmem
  induction h with
  | nil => exact .nil
  | @cons k shard _ _ hshard _ ih =>
    exact .cons (hmem k List.mem_cons_self shard hshard)
      (ih fun k' hk' => hmem k' (List.mem_cons_of_mem k hk'))

/-- With every range in the batch the shards are returned. -/
theorem exists_shards (uninitialized : ρ) {ranges : ℕ → List (ℕ × ℕ)} (hdata : Aligned n data)
    (hranges : ∀ k < shards, RangesIn (ranges k) n)
    (hcells : ∀ k < shards, ∀ p ∈ data, shardCells (ranges k) p.2 = rowsOf k p.2) :
    ∃ result, ((List.range shards).mapM fun k => data.mapM fun p => do
      let col ← shardColumn uninitialized (ranges k) p.2
      return (p.1, col)) = .ok result ∧ ShardsFrom rowsOf data shards result := by
  refine exists_mapM_forall₂ ?_
  intro k hk
  rw [List.mem_range] at hk
  refine exists_mapM_columns (fun _ => shardColumn uninitialized (ranges k)) ?_
  intro p hp
  have hin : RangesIn (ranges k) p.2.length := hdata p hp ▸ hranges k hk
  obtain ⟨col, hcol, hrows⟩ := exists_shardColumn uninitialized hin
  exact ⟨col, hcol, hrows.trans (hcells k hk p hp)⟩

end Shards

/-! ## When the batch is put together again -/

section Plain
variable {data : List (String × Column ρ)} {shards n bs : ℕ} {batchSize : Option ℕ}
  {allowUnevenShards : Bool}

theorem batchSize_eq_none (haccept : BatchedDataDict.checkShardArgs n shards batchSize true
    false = .ok bs) : batchSize = none := by
  by_contra hsome
  rw [BatchedDataDict.checkShardArgs, if_pos ⟨rfl, hsome⟩] at haccept
  simp at haccept

theorem not_uneven_batchSize (haccept : BatchedDataDict.checkShardArgs n shards batchSize
    allowUnevenShards false = .ok bs) :
    ¬(allowUnevenShards = true ∧ batchSize ≠ none) := by
  rintro ⟨rfl, hsome⟩
  exact hsome (batchSize_eq_none haccept)

/-- The call on columns of one length with accepted arguments. -/
theorem shardByBatchSizePlain_eq (uninitialized : ρ) (hrows : totalBatchSize data = .ok n)
    (haccept : BatchedDataDict.checkShardArgs n shards batchSize allowUnevenShards false =
      .ok bs) :
    shardByBatchSizePlain uninitialized data shards batchSize allowUnevenShards =
      (List.range shards).mapM fun k => data.mapM fun p => do
        let col ← shardColumn uninitialized (shardRanges n (n / bs) bs
          (if allowUnevenShards then (bs + shards - 1) / shards else bs / shards)
          allowUnevenShards k) p.2
        return (p.1, col) := by
  rw [shardByBatchSizePlain, if_neg (not_uneven_batchSize haccept), hrows]
  simp only [bind, Except.bind, haccept]

/-- Rounding up the quotient of a multiple. -/
theorem div_roundUp_mul {m : ℕ} (hshards : 0 < shards) :
    (shards * m + shards - 1) / shards = m := by
  rw [Nat.add_sub_assoc hshards, Nat.mul_add_div hshards,
    Nat.div_eq_of_lt (Nat.sub_lt hshards Nat.one_pos), Nat.add_zero]

theorem le_mul_div_roundUp (n : ℕ) (hshards : 0 < shards) :
    n ≤ shards * ((n + shards - 1) / shards) := by
  have hdiv := Nat.div_add_mod (n + shards - 1) shards
  have hmod := Nat.mod_lt (n + shards - 1) hshards
  omega

/-- Shards that divide the chunks. -/
theorem exists_shards_of_dvd (uninitialized : ρ) (hrows : totalBatchSize data = .ok n)
    (haccept : BatchedDataDict.checkShardArgs n shards batchSize allowUnevenShards false =
      .ok bs) (hdvd : shards ∣ bs) :
    ∃ result, shardByBatchSizePlain uninitialized data shards batchSize allowUnevenShards =
        .ok result ∧
      ShardsFrom (fun k col => (List.range (n / bs)).flatMap fun c =>
        block (bs / shards) (c * shards + k) col.cells) data shards result := by
  obtain ⟨-, hpos, hchunks, hshards, -⟩ := BatchedDataDict.checkShardArgs_ok haccept
  obtain ⟨m, rfl⟩ := hdvd
  obtain ⟨numChunks, rfl⟩ := hchunks
  have hm : 0 < m := Nat.pos_of_mul_pos_left hpos
  have hdata := (aligned_of_totalBatchSize hrows).2
  have hsize : (if allowUnevenShards then (shards * m + shards - 1) / shards
      else shards * m / shards) = m := by
    rw [div_roundUp_mul hshards, Nat.mul_div_cancel_left m hshards, ite_self]
  rw [shardByBatchSizePlain_eq uninitialized hrows haccept, hsize,
    Nat.mul_div_cancel_left numChunks hpos, Nat.mul_div_cancel_left m hshards]
  rw [Nat.mul_comm (shards * m) numChunks] at hdata ⊢
  refine exists_shards uninitialized hdata ?_ ?_
  · intro k hk
    exact rangesIn_shardRanges_of_dvd hm hk allowUnevenShards
  · intro k hk p hp
    exact shardCells_of_dvd hm hk (hdata p hp) allowUnevenShards

/-- Uneven shards, with what a shard without rows gets of a packed tensor. -/
theorem exists_shards_uneven (uninitialized : ρ) (hrows : totalBatchSize data = .ok n)
    (haccept : BatchedDataDict.checkShardArgs n shards batchSize true false = .ok bs) :
    bs = n ∧ 0 < n ∧ 0 < shards ∧
    ∃ result, shardByBatchSizePlain uninitialized data shards batchSize true = .ok result ∧
      ShardsFrom (fun k => shardCells (shardRanges n 1 n ((n + shards - 1) / shards) true k))
        data shards result := by
  obtain ⟨hbs, hpos, -, hshards, -⟩ := BatchedDataDict.checkShardArgs_ok haccept
  rw [batchSize_eq_none haccept, Option.getD_none] at hbs
  subst hbs
  have hm : 0 < (bs + shards - 1) / shards := Nat.div_pos (by omega) hshards
  have hdata := (aligned_of_totalBatchSize hrows).2
  refine ⟨rfl, hpos, hshards, ?_⟩
  rw [shardByBatchSizePlain_eq uninitialized hrows haccept, Nat.div_self hpos]
  exact exists_shards uninitialized hdata (fun k _ => rangesIn_shardRanges hm) fun k _ p _ => rfl

/-- The sub-batches for the chunks of shards that divide them. -/
theorem reassembles_chunks {uninitialized : ρ} (hrows : totalBatchSize data = .ok n)
    (haccept : BatchedDataDict.checkShardArgs n shards batchSize allowUnevenShards false =
      .ok bs) {result : List (List (String × Column ρ))}
    (hresult : shardByBatchSizePlain uninitialized data shards batchSize allowUnevenShards =
      .ok result) (hdvd : shards ∣ bs) {c : ℕ} (hc : c < n / bs) :
    ∃ batches, result.mapM (fun shard => getBatchPlain shard c (bs / shards)) = .ok batches ∧
      (∀ batch ∈ batches, Aligned (bs / shards) batch) ∧
      ∀ key, batches.flatMap (cellsAt key) =
        slice (cellsAt key data) (c * bs) ((c + 1) * bs) := by
  obtain ⟨result', hresult', hshards⟩ :=
    exists_shards_of_dvd uninitialized hrows haccept hdvd
  obtain rfl : result' = result := Except.ok.inj (hresult'.symm.trans hresult)
  obtain ⟨-, hpos, hchunks, hshards', -⟩ := BatchedDataDict.checkShardArgs_ok haccept
  obtain ⟨m, rfl⟩ := hdvd
  obtain ⟨numChunks, rfl⟩ := hchunks
  have hdata := (aligned_of_totalBatchSize hrows).2
  rw [Nat.mul_div_cancel_left numChunks hpos] at hc hshards
  rw [Nat.mul_div_cancel_left m hshards'] at hshards ⊢
  rw [Nat.mul_comm] at hdata
  exact reassembles_chunk (Nat.pos_of_mul_pos_left hpos) hdata hshards hc

/-- Shards make up the batch again exactly if no packed tensor has to be cut for a shard that is
left without rows. -/
theorem shardByBatchSizePlain_reassembles_iff (uninitialized : ρ)
    (data : List (String × Column ρ)) (shards n bs : ℕ) (batchSize : Option ℕ)
    (allowUnevenShards : Bool) (hrows : totalBatchSize data = .ok n)
    (haccept : BatchedDataDict.checkShardArgs n shards batchSize allowUnevenShards false =
      .ok bs) :
    ∃ result, shardByBatchSizePlain uninitialized data shards batchSize allowUnevenShards =
        .ok result ∧
      (Reassembles data n shards bs allowUnevenShards result ↔
        ¬(allowUnevenShards = true ∧ (∃ p ∈ data, p.2.IsPacked) ∧
          n ≤ (shards - 1) * ((n + shards - 1) / shards))) := by
  cases allowUnevenShards with
  | false =>
    have hdvd := (BatchedDataDict.checkShardArgs_ok haccept).2.2.2.2 rfl
    obtain ⟨result, hresult, -⟩ := exists_shards_of_dvd uninitialized hrows haccept hdvd
    refine ⟨result, hresult, iff_of_true ⟨?_, by simp⟩ (by simp)⟩
    exact fun hdvd c hc => reassembles_chunks hrows haccept hresult hdvd hc
  | true =>
    obtain ⟨rfl, hpos, hshards, result, hresult, hfrom⟩ :=
      exists_shards_uneven uninitialized hrows haccept
    have hdata := (aligned_of_totalBatchSize hrows).2
    have hm : 0 < (bs + shards - 1) / shards := Nat.div_pos (by omega) hshards
    refine ⟨result, hresult, ?_, ?_⟩
    · rintro h ⟨-, ⟨p, hp, hpacked⟩, hempty⟩
      obtain ⟨-, shardSize, hsizes⟩ := h.uneven rfl
      obtain ⟨shard, hshard⟩ : ∃ shard, result[shards - 1]? = some shard := by
        have hlen := hfrom.length_eq
        rw [List.length_range] at hlen
        exact ⟨_, List.getElem?_eq_getElem (by omega)⟩
      have hlast := length_of_columnsFrom (hfrom.getElem? hshard).2 (hsizes _ _ hshard) hp
      rw [shardCells_empty_shard hm hpacked (hdata p hp) hempty] at hlast
      have hone : (shards - 1) * shardSize = 0 := by omega
      rcases Nat.mul_eq_zero.mp hone with hzero | hzero
      · rw [hzero, Nat.zero_mul] at hempty
        omega
      · omega
    · intro hnot
      have hcells : ∀ k < shards, ∀ p ∈ data,
          shardCells (shardRanges bs 1 bs ((bs + shards - 1) / shards) true k) p.2 =
            block ((bs + shards - 1) / shards) k p.2.cells := by
        intro k hk p hp
        refine shardCells_uneven hm (hdata p hp) ?_
        by_cases hpacked : p.2.IsPacked
        · refine .inr (lt_of_le_of_lt (Nat.mul_le_mul_right _ (Nat.le_sub_one_of_lt hk)) ?_)
          exact Nat.lt_of_not_le fun hempty => hnot ⟨rfl, ⟨p, hp, hpacked⟩, hempty⟩
        · exact .inl hpacked
      refine ⟨fun hdvd c hc => reassembles_chunks hrows haccept hresult hdvd hc, fun _ => ?_⟩
      exact reassembles_uneven (le_mul_div_roundUp bs hshards) hdata (hfrom.congr hcells)

/-- Two rows in two uneven shards. -/
theorem reassembles_two_rows :
    ∃ result, shardByBatchSizePlain 0 [("x", .tensor [1, 2]), ("y", .list [3, 4])] 2 none true =
        .ok result ∧
      (Reassembles [("x", .tensor [1, 2]), ("y", .list [3, 4])] 2 2 2 true result ↔
        ¬(true = true ∧ (∃ p ∈ [("x", Column.tensor [1, 2]), ("y", .list [3, 4])],
          p.2.IsPacked) ∧ 2 ≤ (2 - 1) * ((2 + 2 - 1) / 2))) :=
  shardByBatchSizePlain_reassembles_iff 0 [("x", .tensor [1, 2]), ("y", .list [3, 4])] 2 2 2 none
    true (by decide) (by decide)

/-- One row in two uneven shards: the second shard is given an entry that the batch has not. -/
theorem onePacked_not_reassembled :
    ∃ result, shardByBatchSizePlain 0 [("x", .packed ⟨[some 7], 0, by decide⟩)] 2 none true =
        .ok result ∧
      result.flatMap (cellsAt "x") = [some 7, none] ∧
      cellsAt "x" [("x", Column.packed ⟨[some 7], 0, by decide⟩)] = [some 7] ∧
      ¬Reassembles [("x", .packed ⟨[some 7], 0, by decide⟩)] 1 2 1 true result := by
  refine ⟨[[("x", .packed ⟨[some 7], 0, by decide⟩)], [("x", .packed ⟨[none], 0, by decide⟩)]],
    by rfl, by decide, by decide, ?_⟩
  intro h
  have hall := (h.uneven rfl).1 "x"
  revert hall
  decide

end Plain

end NemoRL.Distributed
