import NemoRL.Distributed.StackedColumns

/-!
# Merged batches

Batches that have their keys in common and whose values of a key are of one kind can be merged.
The values of the merged batch are stacked from theirs, so that the rows of each batch follow those
of the batches before it under every key. Batches without rows are left aside as far as they lack a
key.

## Main definitions

* `Mergeable` — batches that have their keys in common.
* `Merged` — a batch whose values are stacked from those of others.

## Main results

* `exists_fromBatches` — mergeable batches are merged.
* `Merged.cells_eq` — where the rows of a batch are.
* `Merged.exists_slice` — slices of a merged batch.
-/

namespace NemoRL.Distributed.FromBatches

open Lib Data.Multimodal

variable {D K V : Type}

/-! ## Batches that can be merged -/

/-- Batches whose values have one number of rows, with the keys in common that any of them has,
and with values of one kind under each key. A batch without rows may lack keys. -/
structure Mergeable (batches : List (Batch D K V)) : Prop where
  aligned : ∀ item ∈ batches, ∀ k c, item.lookup k = some c → c.length = batchSize item
  keys : ∀ item ∈ batches, ∀ item' ∈ batches, batchSize item' ≠ 0 → ∀ k,
    (item.lookup k).isSome → (item'.lookup k).isSome
  kinds : ∀ k, ∃ kind, ∀ item ∈ batches, ∀ c, item.lookup k = some c → c.kind = some kind
  nonempty : ∃ item ∈ batches, batchSize item ≠ 0

/-- The number of rows of several batches. -/
def numRows (batches : List (Batch D K V)) : ℕ := (batches.map batchSize).sum

/-- The values of a key. -/
def columnsAt (batches : List (Batch D K V)) (k : String) : List (BatchColumn D K V) :=
  batches.filterMap fun item => item.lookup k

theorem mem_columnsAt {batches : List (Batch D K V)} {k : String} {c : BatchColumn D K V} :
    c ∈ columnsAt batches k ↔ ∃ item ∈ batches, item.lookup k = some c := List.mem_filterMap

theorem mem_sortedKeys {batches : List (Batch D K V)} {k : String} :
    k ∈ sortedKeys batches ↔ ∃ item ∈ batches, (item.lookup k).isSome := by
  rw [sortedKeys, Finset.mem_sort, List.mem_toFinset, List.mem_flatMap]
  refine exists_congr fun item => and_congr_right fun _ => ?_
  constructor
  · intro hk
    obtain ⟨c, hc⟩ := exists_lookup hk
    rw [hc]
    rfl
  · intro hsome
    obtain ⟨c, hc⟩ := Option.isSome_iff_exists.mp hsome
    exact List.mem_map_of_mem (mem_of_lookup hc)

namespace Mergeable
variable {batches : List (Batch D K V)} {k : String}

/-- A key that some batch has is lacked by batches without rows only. -/
theorem batchSize_of_none (h : Mergeable batches) (hk : k ∈ sortedKeys batches)
    {item : Batch D K V} (hitem : item ∈ batches) (hnone : item.lookup k = none) :
    batchSize item = 0 := by
  obtain ⟨item', hitem', hsome⟩ := mem_sortedKeys.mp hk
  by_contra hne
  have hsome' := h.keys item' hitem' item hitem hne k hsome
  rw [hnone] at hsome'
  cases hsome'

theorem missingNonemptyBatches_eq_nil (h : Mergeable batches) (hk : k ∈ sortedKeys batches) :
    missingNonemptyBatches batches k = [] := by
  rw [missingNonemptyBatches, List.map_eq_nil_iff, List.filter_eq_nil_iff]
  rintro ⟨item, i⟩ hmem hmissing
  have hitem : item ∈ batches := (List.mem_zipIdx' hmem).2 ▸ List.getElem_mem _
  rw [Bool.and_eq_true, Option.isNone_iff_eq_none, bne_iff_ne] at hmissing
  exact hmissing.2 (h.batchSize_of_none hk hitem hmissing.1)

/-- A batch with rows has a value with rows. -/
theorem exists_cells (h : Mergeable batches) (hk : k ∈ sortedKeys batches) :
    ∃ c ∈ columnsAt batches k, c.cells ≠ [] := by
  obtain ⟨item, hitem, hne⟩ := h.nonempty
  cases hc : item.lookup k with
  | none => exact absurd (h.batchSize_of_none hk hitem hc) hne
  | some c =>
    refine ⟨c, mem_columnsAt.mpr ⟨item, hitem, hc⟩, ?_⟩
    rw [← List.length_pos_iff, BatchColumn.length_cells, h.aligned item hitem k c hc]
    omega

/-- The rows of the values of a key are those of the batches. -/
theorem sum_length_columnsAt (h : Mergeable batches) (hk : k ∈ sortedKeys batches)
    {some' : List (Batch D K V)} (hsub : ∀ item ∈ some', item ∈ batches) :
    ((columnsAt some' k).map BatchColumn.length).sum = numRows some' := by
  induction some' with
  | nil => rfl
  | cons item rest ih =>
    have hitem := hsub item List.mem_cons_self
    have hrest := ih fun item' hitem' => hsub item' (List.mem_cons_of_mem item hitem')
    rw [numRows, List.map_cons, List.sum_cons, ← numRows, ← hrest, columnsAt]
    cases hc : item.lookup k with
    | none => rw [List.filterMap_cons_none hc, h.batchSize_of_none hk hitem hc, Nat.zero_add]; rfl
    | some c =>
      rw [List.filterMap_cons_some hc, List.map_cons, List.sum_cons,
        h.aligned item hitem k c hc]
      rfl

theorem numRows_ne_zero (h : Mergeable batches) : numRows batches ≠ 0 := by
  obtain ⟨item, hitem, hne⟩ := h.nonempty
  have hle : batchSize item ≤ numRows batches :=
    List.single_le_sum (by simp) _ (List.mem_map_of_mem hitem)
  omega

/-- Some of the batches can be merged when they have rows. -/
theorem of_subset (h : Mergeable batches) {group : List (Batch D K V)}
    (hsub : ∀ item ∈ group, item ∈ batches) (hne : numRows group ≠ 0) : Mergeable group := by
  refine ⟨fun item hitem => h.aligned item (hsub item hitem), ?_, ?_, ?_⟩
  · exact fun item hitem item' hitem' => h.keys item (hsub item hitem) item' (hsub item' hitem')
  · intro k
    obtain ⟨kind, hkind⟩ := h.kinds k
    exact ⟨kind, fun item hitem => hkind item (hsub item hitem)⟩
  · by_contra hnone
    push Not at hnone
    refine hne (List.sum_eq_zero ?_)
    simpa using hnone

end Mergeable

/-! ## Merging -/

section Merge
variable [Zero K] {promotion : Promotion D K} {padValueDict : Option (List (String × K))}
  {batches : List (Batch D K V)} {merged merged' : Batch D K V}

/-- A batch whose values are stacked from those of others. -/
structure Merged (padValueDict : Option (List (String × K))) (batches : List (Batch D K V))
    (merged : Batch D K V) : Prop where
  keys : merged.map Prod.fst = sortedKeys batches
  stacked : ∀ p ∈ merged, ∀ kind,
    (∀ item ∈ batches, ∀ c, item.lookup p.1 = some c → c.kind = some kind) →
      Stacked (padValueOf padValueDict p.1) (columnsAt batches p.1) kind p.2

theorem exists_mergeKey (hpromotion : promotion.Lawful) (h : Mergeable batches)
    (padValueDict : Option (List (String × K))) {k : String} (hk : k ∈ sortedKeys batches) :
    ∃ p, mergeKey promotion batches padValueDict k = .ok p ∧ p.1 = k ∧ ∀ kind,
      (∀ item ∈ batches, ∀ c, item.lookup p.1 = some c → c.kind = some kind) →
        Stacked (padValueOf padValueDict p.1) (columnsAt batches p.1) kind p.2 := by
  obtain ⟨kind, hkind⟩ := h.kinds k
  have hcolumns : ∀ c ∈ columnsAt batches k, c.kind = some kind := by
    intro c hc
    obtain ⟨item, hitem, hc⟩ := mem_columnsAt.mp hc
    exact hkind item hitem c hc
  obtain ⟨c, hstack, hstacked⟩ := exists_stackColumns hpromotion (padValueOf padValueDict k)
    hcolumns (h.exists_cells hk)
  refine ⟨(k, c), ?_, rfl, ?_⟩
  · rw [columnsAt] at hstack
    simp only [mergeKey, h.missingNonemptyBatches_eq_nil hk, hstack, ne_eq, not_true_eq_false,
      if_false, bind, Except.bind, pure, Except.pure]
  · intro kind' hkind'
    obtain ⟨c', hc', -⟩ := h.exists_cells hk
    obtain ⟨item, hitem, hc'⟩ := mem_columnsAt.mp hc'
    have heq := (hkind item hitem c' hc').symm.trans (hkind' item hitem c' hc')
    exact Option.some.inj heq ▸ hstacked

/-- What merges is merged. -/
theorem exists_fromBatches (hpromotion : promotion.Lawful) (h : Mergeable batches)
    (padValueDict : Option (List (String × K))) :
    ∃ merged, fromBatches promotion batches padValueDict = .ok merged ∧
      Merged padValueDict batches merged := by
  obtain ⟨merged, hmerged, hforall⟩ :=
    exists_mapM_forall₂ fun k hk => exists_mergeKey hpromotion h padValueDict (k := k) hk
  refine ⟨merged, hmerged, ?_, forall_of_forall₂ (hforall.imp fun _ _ hboth => hboth.2)⟩
  rw [← List.forall₂_eq_eq_eq, List.forall₂_map_left_iff]
  exact (hforall.imp fun _ _ hboth => hboth.1).flip

/-- There is one way to merge batches. -/
theorem Merged.unique (h : Mergeable batches) (hm : Merged padValueDict batches merged)
    (hm' : Merged padValueDict batches merged') : merged = merged' := by
  have hkeys : merged.map Prod.fst = merged'.map Prod.fst := hm.keys.trans hm'.keys.symm
  have hlen : merged.length = merged'.length := by simpa using congrArg List.length hkeys
  refine List.ext_getElem hlen fun i hi hi' => ?_
  have hkey : merged[i].1 = merged'[i].1 := by
    have hget := congrArg (fun l : List String => l[i]?) hkeys
    simpa [List.getElem?_eq_getElem hi, List.getElem?_eq_getElem hi'] using hget
  obtain ⟨kind, hkind⟩ := h.kinds merged[i].1
  have hstacked := hm.stacked _ (List.getElem_mem hi) kind hkind
  have hstacked' := hm'.stacked _ (List.getElem_mem hi') kind (hkey ▸ hkind)
  rw [← hkey] at hstacked'
  exact Prod.ext hkey (hstacked.unique hstacked')

namespace Merged

theorem lookup_isSome (hm : Merged padValueDict batches merged) (k : String) :
    (merged.lookup k).isSome ↔ k ∈ sortedKeys batches := by
  rw [← hm.keys]
  constructor
  · intro hsome
    obtain ⟨c, hc⟩ := Option.isSome_iff_exists.mp hsome
    exact List.mem_map_of_mem (mem_of_lookup hc)
  · intro hk
    obtain ⟨c, hc⟩ := exists_lookup hk
    rw [hc]
    rfl

theorem mem_sortedKeys_of_lookup (hm : Merged padValueDict batches merged) {k : String}
    {c : BatchColumn D K V} (hc : merged.lookup k = some c) : k ∈ sortedKeys batches := by
  rw [← hm.lookup_isSome, hc]
  rfl

/-- The value of a key is stacked from those of the batches. -/
theorem exists_stacked (h : Mergeable batches) (hm : Merged padValueDict batches merged)
    {k : String} {c : BatchColumn D K V} (hc : merged.lookup k = some c) :
    ∃ kind, (∀ item ∈ batches, ∀ c', item.lookup k = some c' → c'.kind = some kind) ∧
      Stacked (padValueOf padValueDict k) (columnsAt batches k) kind c := by
  obtain ⟨kind, hkind⟩ := h.kinds k
  exact ⟨kind, hkind, hm.stacked (k, c) (mem_of_lookup hc) kind hkind⟩

theorem lookup_of_mem (hm : Merged padValueDict batches merged) {p : String × BatchColumn D K V}
    (hp : p ∈ merged) : merged.lookup p.1 = some p.2 := by
  have hnd : (merged.map Prod.fst).Nodup := hm.keys ▸ Finset.sort_nodup _ _
  clear hm
  induction merged with
  | nil => cases hp
  | cons q merged ih =>
    rw [List.map_cons, List.nodup_cons] at hnd
    rw [lookup_cons]
    rcases List.mem_cons.mp hp with rfl | hp
    · rw [if_pos rfl]
    · have hne : p.1 ≠ q.1 := fun heq => hnd.1 (heq ▸ List.mem_map_of_mem hp)
      rw [if_neg hne]
      exact ih hp hnd.2

theorem length_eq (h : Mergeable batches) (hm : Merged padValueDict batches merged)
    {k : String} {c : BatchColumn D K V} (hc : merged.lookup k = some c) :
    c.length = numRows batches := by
  obtain ⟨kind, -, hstacked⟩ := hm.exists_stacked h hc
  rw [hstacked.length,
    h.sum_length_columnsAt (hm.mem_sortedKeys_of_lookup hc) fun _ hitem => hitem]

/-- A merged batch has the rows of all batches. -/
theorem batchSize_eq (h : Mergeable batches) (hm : Merged padValueDict batches merged) :
    batchSize merged = numRows batches := by
  obtain ⟨item, hitem, hne⟩ := h.nonempty
  cases merged with
  | nil =>
    cases item with
    | nil => exact absurd rfl hne
    | cons p item =>
      have hk : p.1 ∈ sortedKeys batches := by
        refine mem_sortedKeys.mpr ⟨p :: item, hitem, ?_⟩
        rw [lookup_cons, if_pos rfl]
        rfl
      rw [← hm.keys] at hk
      cases hk
  | cons p merged =>
    refine hm.length_eq h (k := p.1) ?_
    rw [lookup_cons, if_pos rfl]

/-- Where the rows of a batch are. -/
theorem cells_eq (h : Mergeable batches) (hm : Merged padValueDict batches merged)
    {before after : List (Batch D K V)} {item : Batch D K V}
    (hbatches : batches = before ++ item :: after) {k : String} {c c' : BatchColumn D K V}
    (hc : merged.lookup k = some c) (hc' : item.lookup k = some c') :
    ∃ cellsBefore cellsAfter, cellsBefore.length = numRows before ∧ c.cells =
      cellsBefore ++ c'.cells.map (Cell.padTo c.width (padValueOf padValueDict k)) ++
        cellsAfter := by
  obtain ⟨kind, -, hstacked⟩ := hm.exists_stacked h hc
  have hsub : ∀ item' ∈ before, item' ∈ batches := by
    intro item' hitem'
    rw [hbatches]
    exact List.mem_append_left _ hitem'
  have hcolumns : columnsAt batches k = columnsAt before k ++ c' :: columnsAt after k := by
    rw [hbatches, columnsAt, List.filterMap_append, List.filterMap_cons_some hc']
    rfl
  let padded (column : BatchColumn D K V) : List (Cell D K V) :=
    column.cells.map (Cell.padTo c.width (padValueOf padValueDict k))
  refine ⟨(columnsAt before k).flatMap padded, (columnsAt after k).flatMap padded, ?_, ?_⟩
  · rw [List.length_flatMap, ← h.sum_length_columnsAt (hm.mem_sortedKeys_of_lookup hc) hsub]
    simp only [padded, List.length_map, BatchColumn.length_cells]
  · rw [hstacked.cells, hcolumns, List.flatMap_append, List.flatMap_cons, List.append_assoc]

/-- The rows of a batch, cut out of the merged batch. -/
theorem exists_slice (h : Mergeable batches) (hm : Merged padValueDict batches merged)
    {before after : List (Batch D K V)} {item : Batch D K V}
    (hbatches : batches = before ++ item :: after)
    (hpacked : batchSize item ≠ 0 ∨
      ∀ k c, merged.lookup k = some c → ∀ dim, c.kind ≠ some (.packed dim)) :
    ∃ sliced, slice merged (numRows before) (numRows before + batchSize item) = .ok sliced ∧
      ∀ k, (sliced.lookup k).isSome = (merged.lookup k).isSome ∧
        ∀ c s, merged.lookup k = some c → sliced.lookup k = some s → s.kind = c.kind ∧
          s.cells = Lib.slice c.cells (numRows before) (numRows before + batchSize item) := by
  have hle : numRows before + batchSize item ≤ numRows batches := by
    rw [hbatches, numRows, numRows, List.map_append, List.sum_append, List.map_cons, List.sum_cons]
    omega
  have hall : ∀ p ∈ merged, ∃ q : String × BatchColumn D K V, (do
      let s ← sliceColumn p.1 (numRows before) (numRows before + batchSize item) p.2
      return (p.1, s)) = (.ok q : Except PyError _) ∧ q.1 = p.1 ∧ q.2.kind = p.2.kind ∧
        q.2.cells =
          Lib.slice p.2.cells (numRows before) (numRows before + batchSize item) := by
    intro p hp
    have hlookup := hm.lookup_of_mem hp
    obtain ⟨kind, -, hstacked⟩ := hm.exists_stacked h hlookup
    have hstop : numRows before + batchSize item ≤ p.2.length := by
      rw [hm.length_eq h hlookup]
      exact hle
    have hcut : numRows before < numRows before + batchSize item ∨ ∀ dim, kind ≠ .packed dim := by
      refine hpacked.imp (by omega) fun hnone dim heq => hnone p.1 p.2 hlookup dim ?_
      rw [hstacked.kind, heq]
    obtain ⟨s, hs, hkind, hcells⟩ := exists_sliceColumn p.1 hstacked.kind hstop hcut
    exact ⟨(p.1, s), by rw [hs]; rfl, rfl, hkind.trans hstacked.kind.symm, hcells⟩
  obtain ⟨sliced, hsliced, hforall⟩ := exists_mapM_forall₂ hall
  refine ⟨sliced, hsliced, fun k => ?_⟩
  have hrel : Option.Rel (fun c s : BatchColumn D K V => s.kind = c.kind ∧
      s.cells = Lib.slice c.cells (numRows before) (numRows before + batchSize item))
      (merged.lookup k) (sliced.lookup k) := lookup_of_forall₂ hforall k
  cases hc : merged.lookup k with
  | none =>
    rw [hc] at hrel
    generalize sliced.lookup k = o at hrel
    cases hrel with
    | none => simp
  | some c =>
    rw [hc] at hrel
    generalize sliced.lookup k = o at hrel
    cases hrel with
    | some hboth =>
      refine ⟨rfl, fun c' s' hc' hs' => ?_⟩
      obtain rfl := Option.some.inj hc'
      obtain rfl := Option.some.inj hs'
      exact hboth

end Merged

end Merge

end NemoRL.Distributed.FromBatches
