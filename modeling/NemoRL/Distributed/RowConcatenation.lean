import NemoRL.Distributed.MergedBatches

/-!
# Merging is concatenation of rows

The rows of a batch are found in the merged batch behind those of the batches before it, under
every key. They are the same rows, those of a tensor with more than one dimension padded. A slice
between the bounds of a batch is that batch up to padding, and merging groups of batches first
makes no difference.

Packed tensors hold at least one entry, so that a batch without rows cannot be sliced out where a
key is packed.

## Main definitions

* `RowConcatenation` — a batch with the rows of others, one batch behind the other.

## Main results

* `fromBatches_rowConcatenation` — merging is concatenation of rows.
-/

namespace NemoRL.Distributed.FromBatches

open Lib Data.Multimodal

variable {D K V : Type} [Zero K] {promotion : Promotion D K}
  {padValueDict : Option (List (String × K))} {batches : List (Batch D K V)}
  {merged : Batch D K V}

/-! ## Groups -/

omit [Zero K] in
theorem sortedKeys_congr {batches' : List (Batch D K V)}
    (h : ∀ k, k ∈ sortedKeys batches ↔ k ∈ sortedKeys batches') :
    sortedKeys batches = sortedKeys batches' := by
  refine congrArg (Finset.sort · (· ≤ ·)) (Finset.ext fun k => ?_)
  simpa [sortedKeys] using h k

omit [Zero K] in
theorem columnsAt_flatten (groups : List (List (Batch D K V))) (k : String) :
    columnsAt groups.flatten k = (groups.map fun group => columnsAt group k).flatten := by
  rw [columnsAt, List.filterMap_flatten]
  rfl

theorem merged_of_fromBatches (hpromotion : promotion.Lawful) (h : Mergeable batches)
    (hok : fromBatches promotion batches padValueDict = .ok merged) :
    Merged padValueDict batches merged := by
  obtain ⟨merged', hok', hm⟩ := exists_fromBatches hpromotion h padValueDict
  obtain rfl := Except.ok.inj (hok.symm.trans hok')
  exact hm

/-- The values of the parts are stacked from those of their groups. -/
theorem forall₂_columnsAt {groups : List (List (Batch D K V))} {parts : List (Batch D K V)}
    {k : String} {kind : Kind D}
    (h : List.Forall₂ (fun group part => ∃ c, part.lookup k = some c ∧
      Stacked (padValueOf padValueDict k) (columnsAt group k) kind c) groups parts) :
    List.Forall₂ (fun part group => Stacked (padValueOf padValueDict k) group kind part)
      (columnsAt parts k) (groups.map fun group => columnsAt group k) := by
  induction h with
  | nil => exact .nil
  | cons hpart _ ih =>
    obtain ⟨c, hc, hstacked⟩ := hpart
    rw [columnsAt, List.filterMap_cons_some hc, List.map_cons]
    exact .cons hstacked ih

section Groups
variable {groups : List (List (Batch D K V))} {parts : List (Batch D K V)}

omit [Zero K] in
/-- A key of the batches is a key of each group with rows. -/
theorem mem_sortedKeys_group (h : Mergeable batches) {group : List (Batch D K V)}
    (hgroup : Mergeable group) (hsub : ∀ item ∈ group, item ∈ batches) {k : String} :
    k ∈ sortedKeys group ↔ k ∈ sortedKeys batches := by
  constructor
  · intro hk
    obtain ⟨item, hitem, hsome⟩ := mem_sortedKeys.mp hk
    exact mem_sortedKeys.mpr ⟨item, hsub item hitem, hsome⟩
  · intro hk
    obtain ⟨item, hitem, hsome⟩ := mem_sortedKeys.mp hk
    obtain ⟨item', hitem', hne⟩ := hgroup.nonempty
    refine mem_sortedKeys.mpr ⟨item', hitem', ?_⟩
    exact h.keys item hitem item' (hsub item' hitem') hne k hsome

/-- Merged groups can be merged. -/
theorem mergeable_parts (h : Mergeable batches) (hbatches : groups.flatten = batches)
    (hrows : ∀ group ∈ groups, numRows group ≠ 0)
    (hparts : ∀ part ∈ parts, ∃ group ∈ groups, Merged padValueDict group part)
    (hne : parts ≠ []) : Mergeable parts := by
  have hsub : ∀ group ∈ groups, ∀ item ∈ group, item ∈ batches := by
    intro group hgroup item hitem
    rw [← hbatches]
    exact List.mem_flatten.mpr ⟨group, hgroup, hitem⟩
  have hmergeable : ∀ group ∈ groups, Mergeable group :=
    fun group hgroup => h.of_subset (hsub group hgroup) (hrows group hgroup)
  refine ⟨?_, ?_, ?_, ?_⟩
  · intro part hpart k c hc
    obtain ⟨group, hgroup, hm⟩ := hparts part hpart
    rw [hm.length_eq (hmergeable group hgroup) hc, hm.batchSize_eq (hmergeable group hgroup)]
  · intro part hpart part' hpart' _ k hsome
    obtain ⟨group, hgroup, hm⟩ := hparts part hpart
    obtain ⟨group', hgroup', hm'⟩ := hparts part' hpart'
    rw [hm.lookup_isSome, mem_sortedKeys_group h (hmergeable group hgroup) (hsub group hgroup)]
      at hsome
    rwa [hm'.lookup_isSome,
      mem_sortedKeys_group h (hmergeable group' hgroup') (hsub group' hgroup')]
  · intro k
    obtain ⟨kind, hkind⟩ := h.kinds k
    refine ⟨kind, fun part hpart c hc => ?_⟩
    obtain ⟨group, hgroup, hm⟩ := hparts part hpart
    exact (hm.stacked (k, c) (mem_of_lookup hc) kind
      fun item hitem => hkind item (hsub group hgroup item hitem)).kind
  · obtain ⟨part, hpart⟩ := List.exists_mem_of_ne_nil parts hne
    obtain ⟨group, hgroup, hm⟩ := hparts part hpart
    refine ⟨part, hpart, ?_⟩
    rw [hm.batchSize_eq (hmergeable group hgroup)]
    exact hrows group hgroup

/-- What is merged from merged groups is merged from their batches. -/
theorem Merged.flatten (h : Mergeable batches) (hbatches : groups.flatten = batches)
    (hrows : ∀ group ∈ groups, numRows group ≠ 0)
    (hpairs : List.Forall₂ (fun group part => group ∈ groups ∧ Merged padValueDict group part)
      groups parts) (hparts : ∀ part ∈ parts, ∃ group ∈ groups, Merged padValueDict group part)
    (hm : Merged padValueDict parts merged) : Merged padValueDict batches merged := by
  have hsub : ∀ group ∈ groups, ∀ item ∈ group, item ∈ batches := by
    intro group hgroup item hitem
    rw [← hbatches]
    exact List.mem_flatten.mpr ⟨group, hgroup, hitem⟩
  have hmergeable : ∀ group ∈ groups, Mergeable group :=
    fun group hgroup => h.of_subset (hsub group hgroup) (hrows group hgroup)
  have hkeys : ∀ group ∈ groups, ∀ part, Merged padValueDict group part → ∀ k,
      (part.lookup k).isSome ↔ k ∈ sortedKeys batches := by
    intro group hgroup part hpart k
    rw [hpart.lookup_isSome, mem_sortedKeys_group h (hmergeable group hgroup) (hsub group hgroup)]
  have hsorted : ∀ k, k ∈ sortedKeys parts ↔ k ∈ sortedKeys batches := by
    intro k
    rw [mem_sortedKeys]
    constructor
    · rintro ⟨part, hpart, hsome⟩
      obtain ⟨group, hgroup, hm'⟩ := hparts part hpart
      exact (hkeys group hgroup part hm' k).mp hsome
    · intro hk
      obtain ⟨item, hitem, -⟩ := h.nonempty
      rw [← hbatches] at hitem
      obtain ⟨group, hgroup, -⟩ := List.mem_flatten.mp hitem
      obtain ⟨i, hi, rfl⟩ := List.getElem_of_mem hgroup
      have hi' : i < parts.length := hpairs.length_eq ▸ hi
      refine ⟨parts[i], List.getElem_mem hi', (hkeys _ hgroup _ ?_ k).mpr hk⟩
      exact (hpairs.get hi hi').2
  refine ⟨hm.keys.trans (sortedKeys_congr hsorted), fun p hp kind hkind => ?_⟩
  have hk : p.1 ∈ sortedKeys batches :=
    (hsorted p.1).mp (hm.mem_sortedKeys_of_lookup (hm.lookup_of_mem hp))
  have hstacked : ∀ group ∈ groups, ∀ part, Merged padValueDict group part → ∀ c,
      part.lookup p.1 = some c →
        Stacked (padValueOf padValueDict p.1) (columnsAt group p.1) kind c := by
    intro group hgroup part hpart c hc
    exact hpart.stacked (p.1, c) (mem_of_lookup hc) kind
      fun item hitem => hkind item (hsub group hgroup item hitem)
  have hcolumns : List.Forall₂ (fun group part => ∃ c, part.lookup p.1 = some c ∧
      Stacked (padValueOf padValueDict p.1) (columnsAt group p.1) kind c) groups parts := by
    refine hpairs.imp ?_
    rintro group part ⟨hgroup, hpart⟩
    obtain ⟨c, hc⟩ := Option.isSome_iff_exists.mp ((hkeys group hgroup part hpart p.1).mpr hk)
    exact ⟨c, hc, hstacked group hgroup part hpart c hc⟩
  have hcells : ∀ c ∈ columnsAt parts p.1, c.cells ≠ [] := by
    intro c hc
    obtain ⟨part, hpart, hc⟩ := mem_columnsAt.mp hc
    obtain ⟨group, hgroup, hm'⟩ := hparts part hpart
    have hlen := hm'.length_eq (hmergeable group hgroup) hc
    have hne := hrows group hgroup
    rw [← List.length_pos_iff, BatchColumn.length_cells]
    omega
  have hwhole := hm.stacked p hp kind fun part hpart c hc => by
    obtain ⟨group, hgroup, hm'⟩ := hparts part hpart
    exact (hstacked group hgroup part hm' c hc).kind
  have hflat := Stacked.flatten (forall₂_columnsAt hcolumns) hcells hwhole
  rwa [← columnsAt_flatten, hbatches] at hflat

/-- Merging groups of batches with rows first makes no difference. -/
theorem exists_fromBatches_groups (hpromotion : promotion.Lawful) (h : Mergeable batches)
    (hok : fromBatches promotion batches padValueDict = .ok merged)
    (hbatches : groups.flatten = batches) (hrows : ∀ group ∈ groups, numRows group ≠ 0) :
    ∃ parts, groups.mapM (fun group => fromBatches promotion group padValueDict) = .ok parts ∧
      fromBatches promotion parts padValueDict = .ok merged := by
  have hmergeable : ∀ group ∈ groups, Mergeable group := by
    intro group hgroup
    refine h.of_subset (fun item hitem => ?_) (hrows group hgroup)
    rw [← hbatches]
    exact List.mem_flatten.mpr ⟨group, hgroup, hitem⟩
  have hall : ∀ group ∈ groups, ∃ part, fromBatches promotion group padValueDict = .ok part ∧
      group ∈ groups ∧ Merged padValueDict group part := by
    intro group hgroup
    obtain ⟨part, hpart, hm⟩ := exists_fromBatches hpromotion (hmergeable group hgroup) padValueDict
    exact ⟨part, hpart, hgroup, hm⟩
  obtain ⟨parts, hparts, hpairs⟩ := exists_mapM_forall₂ hall
  have hpart : ∀ part ∈ parts, ∃ group ∈ groups, Merged padValueDict group part := by
    intro part hpart
    obtain ⟨group, hgroup, hgroup'⟩ := mem_of_mapM hparts hpart
    exact ⟨group, hgroup, merged_of_fromBatches hpromotion (hmergeable group hgroup) hgroup'⟩
  have hne : parts ≠ [] := by
    rintro rfl
    cases hpairs
    obtain ⟨item, hitem, -⟩ := h.nonempty
    rw [← hbatches] at hitem
    cases hitem
  refine ⟨parts, hparts, ?_⟩
  obtain ⟨merged', hok', hm'⟩ := exists_fromBatches hpromotion
    (mergeable_parts h hbatches hrows hpart hne) padValueDict
  have hm := merged_of_fromBatches hpromotion h hok
  rw [hok', hm.unique h (Merged.flatten h hbatches hrows hpairs hpart hm')]

end Groups

/-! ## Concatenation of rows -/

/-- A batch with the rows of others, one batch behind the other. -/
structure RowConcatenation (padValueDict : Option (List (String × K)))
    (batches : List (Batch D K V)) (merged : Batch D K V) : Prop where
  keys : ∀ k, (merged.lookup k).isSome ↔ ∃ item ∈ batches, (item.lookup k).isSome
  /-- All keys have the rows of all batches. -/
  aligned : ∀ k c, merged.lookup k = some c → c.length = numRows batches
  /-- Tensors are padded to the longest. -/
  width : ∀ k c, merged.lookup k = some c →
    c.width = longest ((columnsAt batches k).flatMap BatchColumn.widths)
  rows : ∀ before item after, batches = before ++ item :: after → ∀ k c c',
    merged.lookup k = some c → item.lookup k = some c' → c.kind = c'.kind ∧
      ∀ j < batchSize item, c.cells[numRows before + j]? =
        (c'.cells[j]?).map (Cell.padTo c.width (padValueOf padValueDict k))
  /-- Lists, packed tensors and vectors are not padded. -/
  unpadded : ∀ before item after, batches = before ++ item :: after → ∀ k c c',
    merged.lookup k = some c → item.lookup k = some c' →
      (∀ t, c' = .tensor t → t.value.dim = 1) →
        ∀ j < batchSize item, c.cells[numRows before + j]? = c'.cells[j]?
  /-- A batch can be cut out unless it has no rows and a key is packed. -/
  slices : ∀ before item after, batches = before ++ item :: after →
    (batchSize item ≠ 0 ∨
      ∀ k c, merged.lookup k = some c → ∀ dim, c.kind ≠ some (.packed dim)) →
    ∃ sliced, slice merged (numRows before) (numRows before + batchSize item) = .ok sliced ∧
      ∀ k, (sliced.lookup k).isSome = (merged.lookup k).isSome ∧
        ∀ c s, merged.lookup k = some c → sliced.lookup k = some s →
          s.length = batchSize item ∧ ∀ c', item.lookup k = some c' → s.kind = c'.kind ∧
            s.cells = c'.cells.map (Cell.padTo c.width (padValueOf padValueDict k))

omit [Zero K] in
/-- A vector has no dimension to pad. -/
theorem BatchColumn.map_padTo_cells {c : BatchColumn D K V}
    (h : ∀ t, c = .tensor t → t.value.dim = 1) (len : ℕ) (padValue : K) :
    c.cells.map (Cell.padTo len padValue) = c.cells := by
  cases c with
  | list items => simp [cells, Cell.padTo]
  | packed t => simp [cells, Cell.padTo]
  | other type items => simp [cells, Cell.padTo]
  | tensor t =>
    have hdim := h t rfl
    have hrows : t.value.rows.map (Tensor.padTo len padValue) = t.value.rows :=
      Rect.map_padTo_of_le (.inl (by omega)) padValue
    rw [cells, BatchTensor.rows]
    conv_rhs => rw [← hrows]
    simp only [List.map_map]
    rfl

theorem Merged.getElem?_cells (h : Mergeable batches) (hm : Merged padValueDict batches merged)
    {before after : List (Batch D K V)} {item : Batch D K V}
    (hbatches : batches = before ++ item :: after) {k : String} {c c' : BatchColumn D K V}
    (hc : merged.lookup k = some c) (hc' : item.lookup k = some c') {j : ℕ}
    (hj : j < batchSize item) : c.cells[numRows before + j]? =
      (c'.cells[j]?).map (Cell.padTo c.width (padValueOf padValueDict k)) := by
  obtain ⟨cellsBefore, cellsAfter, hlen, hcells⟩ := hm.cells_eq h hbatches hc hc'
  have hitem : item ∈ batches := hbatches ▸ List.mem_append_right _ List.mem_cons_self
  have hj' : j < (c'.cells.map
      (Cell.padTo c.width (padValueOf padValueDict k))).length := by
    rw [List.length_map, BatchColumn.length_cells, h.aligned item hitem k c' hc']
    exact hj
  rw [hcells, ← hlen, List.append_assoc, List.getElem?_append_right (Nat.le_add_right _ j),
    Nat.add_sub_cancel_left, List.getElem?_append_left hj', List.getElem?_map]

theorem Merged.rowConcatenation (h : Mergeable batches)
    (hm : Merged padValueDict batches merged) : RowConcatenation padValueDict batches merged := by
  refine ⟨?_, fun k c => hm.length_eq h, ?_, ?_, ?_, ?_⟩
  · intro k
    rw [hm.lookup_isSome, mem_sortedKeys]
  · intro k c hc
    obtain ⟨kind, -, hstacked⟩ := hm.exists_stacked h hc
    exact hstacked.width
  · intro before item after hbatches k c c' hc hc'
    obtain ⟨kind, hkind, hstacked⟩ := hm.exists_stacked h hc
    have hitem : item ∈ batches := hbatches ▸ List.mem_append_right _ List.mem_cons_self
    refine ⟨hstacked.kind.trans (hkind item hitem c' hc').symm, fun j hj => ?_⟩
    exact hm.getElem?_cells h hbatches hc hc' hj
  · intro before item after hbatches k c c' hc hc' hdim j hj
    rw [hm.getElem?_cells h hbatches hc hc' hj, ← List.getElem?_map,
      BatchColumn.map_padTo_cells hdim]
  · intro before item after hbatches hpacked
    obtain ⟨sliced, hsliced, hall⟩ := hm.exists_slice h hbatches hpacked
    refine ⟨sliced, hsliced, fun k => ⟨(hall k).1, fun c s hc hs => ?_⟩⟩
    obtain ⟨hkind, hcells⟩ := (hall k).2 c s hc hs
    have hitem : item ∈ batches := hbatches ▸ List.mem_append_right _ List.mem_cons_self
    obtain ⟨kind, hkinds, hstacked⟩ := hm.exists_stacked h hc
    have hle : numRows before + batchSize item ≤ c.cells.length := by
      rw [BatchColumn.length_cells, hm.length_eq h hc, hbatches, numRows, numRows,
        List.map_append, List.sum_append, List.map_cons, List.sum_cons]
      omega
    refine ⟨?_, fun c' hc' => ⟨?_, ?_⟩⟩
    · rw [← BatchColumn.length_cells, hcells, length_slice hle]
      omega
    · rw [hkind, hstacked.kind, hkinds item hitem c' hc']
    · obtain ⟨cellsBefore, cellsAfter, hlen, heq⟩ := hm.cells_eq h hbatches hc hc'
      have hlen' : (c'.cells.map
          (Cell.padTo c.width (padValueOf padValueDict k))).length = batchSize item := by
        rw [List.length_map, BatchColumn.length_cells, h.aligned item hitem k c' hc']
      rw [hcells, heq, Lib.slice, Nat.add_sub_cancel_left, List.append_assoc, ← hlen,
        List.drop_left, ← hlen', List.take_left]

/-- Merging is concatenation of rows, and merging groups of batches first makes no difference. -/
theorem fromBatches_rowConcatenation (hpromotion : promotion.Lawful) (h : Mergeable batches)
    (padValueDict : Option (List (String × K))) :
    ∃ merged, fromBatches promotion batches padValueDict = .ok merged ∧
      RowConcatenation padValueDict batches merged ∧
      ∀ groups : List (List (Batch D K V)), groups.flatten = batches →
        (∀ group ∈ groups, numRows group ≠ 0) →
          ∃ parts, groups.mapM (fun group => fromBatches promotion group padValueDict) =
              .ok parts ∧
            fromBatches promotion parts padValueDict = .ok merged := by
  obtain ⟨merged, hok, hm⟩ := exists_fromBatches hpromotion h padValueDict
  refine ⟨merged, hok, hm.rowConcatenation h, fun groups hbatches hrows => ?_⟩
  exact exists_fromBatches_groups hpromotion h hok hbatches hrows

/-! ## Batches of one key -/

/-- Numbers of type `int64` and truth values. A number that is not zero is true. -/
def intOrBool : Promotion String ℤ where
  promote d d' := if d = d' then d else "int64"
  convert d d' x := if d = d' then x else if d' = "bool" then (if x = 0 then 0 else 1) else x

theorem lawful_intOrBool : intOrBool.Lawful :=
  ⟨fun _ => if_pos rfl, fun _ _ => if_pos rfl⟩

/-- A batch with token ids. -/
def ids (dtype : String) (rows : Rect ℤ) : Batch String ℤ Unit :=
  [("input_ids", .tensor ⟨dtype, "cpu", rows⟩)]

/-- A row of one token. -/
def oneToken (x : ℤ) : Rect ℤ := padVectors 0 [[x]]

/-- A row of two tokens. -/
def twoTokens : Rect ℤ := padVectors 0 [[5, 6]]

theorem lookup_ids (dtype : String) (rows : Rect ℤ) (k : String) :
    (ids dtype rows).lookup k =
      if k = "input_ids" then some (.tensor ⟨dtype, "cpu", rows⟩) else none := lookup_cons _ _ k

theorem mergeable_ids : Mergeable [[], ids "int64" (oneToken 4), ids "int64" twoTokens] := by
  have hitem : ∀ item ∈ [[], ids "int64" (oneToken 4), ids "int64" twoTokens],
      item = [] ∨ ∃ rows, item = ids "int64" rows ∧ rows.rows.length = 1 ∧ rows.dim = 2 := by
    intro item hitem
    simp only [List.mem_cons, List.not_mem_nil, or_false] at hitem
    rcases hitem with rfl | rfl | rfl
    · exact .inl rfl
    · exact .inr ⟨_, rfl, rfl, rfl⟩
    · exact .inr ⟨_, rfl, rfl, rfl⟩
  have hvalue : ∀ item ∈ [[], ids "int64" (oneToken 4), ids "int64" twoTokens], ∀ k c,
      item.lookup k = some c → k = "input_ids" ∧ ∃ rows, item = ids "int64" rows ∧
        c = .tensor ⟨"int64", "cpu", rows⟩ ∧ rows.dim = 2 := by
    intro item hmem k c hc
    rcases hitem item hmem with rfl | ⟨rows, rfl, -, hdim⟩
    · cases hc
    · rw [lookup_ids] at hc
      split at hc
      case isTrue hk => exact ⟨hk, rows, rfl, (Option.some.inj hc).symm, hdim⟩
      case isFalse => cases hc
  refine ⟨?_, ?_, ?_, ⟨ids "int64" twoTokens, by simp, by decide⟩⟩
  · intro item hmem k c hc
    obtain ⟨-, rows, rfl, rfl, -⟩ := hvalue item hmem k c hc
    rfl
  · intro item hmem item' hmem' hne k hsome
    obtain ⟨c, hc⟩ := Option.isSome_iff_exists.mp hsome
    obtain ⟨rfl, -⟩ := hvalue item hmem k c hc
    rcases hitem item' hmem' with rfl | ⟨rows, rfl, -⟩
    · exact absurd rfl hne
    · rw [lookup_ids, if_pos rfl]
      rfl
  · intro k
    refine ⟨.tensor "int64" "cpu" 2 [], fun item hmem c hc => ?_⟩
    obtain ⟨-, rows, rfl, rfl, hdim⟩ := hvalue item hmem k c hc
    have htail : rows.rowShape.tail = [] := by
      rw [Rect.dim] at hdim
      exact List.eq_nil_of_length_eq_zero (by rw [List.length_tail]; omega)
    rw [BatchColumn.kind, hdim, htail]

/-- A batch without keys and two of different lengths, padded with `7`. -/
theorem fromBatches_ids :
    ∃ merged, fromBatches intOrBool [[], ids "int64" (oneToken 4), ids "int64" twoTokens]
        (some [("input_ids", 7)]) = .ok merged ∧
      RowConcatenation (some [("input_ids", 7)])
        [[], ids "int64" (oneToken 4), ids "int64" twoTokens] merged ∧
      ∃ parts, [[[], ids "int64" (oneToken 4)], [ids "int64" twoTokens]].mapM (fun group =>
          fromBatches intOrBool group (some [("input_ids", 7)])) = .ok parts ∧
        fromBatches intOrBool parts (some [("input_ids", 7)]) = .ok merged := by
  obtain ⟨merged, hok, hrows, hgroups⟩ :=
    fromBatches_rowConcatenation lawful_intOrBool mergeable_ids (some [("input_ids", 7)])
  refine ⟨merged, hok, hrows, hgroups [[[], ids "int64" (oneToken 4)], [ids "int64" twoTokens]]
    rfl ?_⟩
  intro group hgroup
  simp only [List.mem_cons, List.not_mem_nil, or_false] at hgroup
  rcases hgroup with rfl | rfl <;> decide

/-- A batch with one packed image. -/
def image (dimToPack : ℤ) : Batch String ℤ Unit :=
  [("pixel_values", .packed ⟨[none], dimToPack, List.cons_ne_nil _ _⟩)]

/-- Packed tensors of different dimensions are refused, a batch without rows cannot be cut out
beside packed tensors, and the first matrix decides which type the numbers get. -/
theorem images_not_concatenated :
    fromBatches intOrBool [image 0, image 1] none =
        .error ⟨.assertionError, "All packed tensors must have the same dim_to_pack"⟩ ∧
      (∃ merged, fromBatches intOrBool [[], image 0] none = .ok merged ∧
        slice merged 0 (batchSize ([] : Batch String ℤ Unit)) =
          .error ⟨.assertionError, "Input tensors to PackedTensor must be a non-empty list"⟩) ∧
      ∃ merged c, fromBatches intOrBool [ids "bool" (oneToken 1), ids "int64" (oneToken 4)]
          none = .ok merged ∧ merged.lookup "input_ids" = some c ∧
        c.cells[1]? = some (.row ⟨"bool", "cpu", Tensor.vector [1]⟩) := by
  have himages : sortedKeys [image 0, image 1] = ["pixel_values"] := by simp [sortedKeys, image]
  have himage : sortedKeys [[], image 0] = ["pixel_values"] := by simp [sortedKeys, image]
  have hids : sortedKeys [ids "bool" (oneToken 1), ids "int64" (oneToken 4)] =
      ["input_ids"] := by simp [sortedKeys, ids]
  refine ⟨?_, ⟨image 0, ?_, rfl⟩, ids "bool" (padVectors 0 [[1], [1]]), _, ?_, rfl, rfl⟩
  · rw [fromBatches, himages]
    rfl
  · rw [fromBatches, himage]
    rfl
  · rw [fromBatches, hids]
    rfl

end NemoRL.Distributed.FromBatches
