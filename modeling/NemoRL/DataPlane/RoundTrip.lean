import NemoRL.DataPlane.ColumnIO

/-!
# Round trip through the store

A batch is written once and any of its samples are read back. A per-token field comes
back with each row cut to its length and padded to the longest of the forward pad
target and the requested rows. Any other field comes back as it was written, except
that rows shorter than the forward pad target are padded as well.

## Main definitions

* `ReturnsStored` — what a store promises: it returns the rows stored under the ids.
* `IsFinalBatch` — a batch that can be written.

## Main results

* `noOpClient_returnsStored` — the in-memory store keeps the promise.
* `readColumns_kvFirstWrite` — the round trip.
-/

namespace NemoRL.DataPlane

open Lib

variable {α σ : Type}

/-- The store returns the rows that were put under the requested ids, in the requested
order. Positions `pos` say which rows these are. -/
def ReturnsStored (client : DataPlaneClient α σ) (store : σ) (partitionId : String) : Prop :=
  ∀ (sampleIds : List String) (td : TensorDict α) (tags : Option (List Tag)),
    (td.map Prod.fst).Nodup → (∀ field ∈ td, field.2.rows.length = sampleIds.length) →
    ∃ store', client.putSamples store sampleIds partitionId td tags = .ok store' ∧
      ∀ ids selectFields : List String, ids ⊆ sampleIds → selectFields.Nodup →
        selectFields ⊆ td.map Prod.fst →
        ∃ td' pos, client.getSamples store' ids partitionId selectFields = .ok td' ∧
          pos.map (sampleIds[·]?) = ids.map some ∧
          (ids ≠ [] → ∀ f ∈ selectFields, ∃ leaf leaf', td.lookup f = some leaf ∧
            td'.lookup f = some leaf' ∧ leaf'.rows = select leaf.rows pos)

/-- A batch of `n` rows that the first write takes. -/
structure IsFinalBatch (batch : Columns α) (n : ℕ) : Prop where
  keys : (batch.map Prod.fst).Nodup
  rows : ∀ c ∈ batch, c.2.rows.length = n
  pos : 0 < n
  sampleMask : "sample_mask" ∈ batch.map Prod.fst
  inputLengths : "input_lengths" ∈ batch.map Prod.fst

/-! ## Encoding -/

/-- A field that is cut to the lengths on the wire. -/
def PerToken (f : String) (t : Rect α) (lengths : List ℕ) : Prop :=
  f ∈ tokenAlignedFields ∧ 2 ≤ t.dim ∧ longest lengths ≤ t.width

instance (f : String) (t : Rect α) (lengths : List ℕ) : Decidable (PerToken f t lengths) :=
  inferInstanceAs (Decidable (_ ∧ _ ∧ _))

/-- The rows on the wire. -/
def wireRows (f : String) (t : Rect α) (lengths : List ℕ) : List (Tensor α) :=
  if PerToken f t lengths then (t.rows.zip lengths).map fun row => row.1.truncate row.2
  else t.rows

theorem toNestedByLength_ok {t : Rect α} {lengths : List ℕ} (hdim : 2 ≤ t.dim)
    (hlen : t.rows.length = lengths.length) :
    ∃ jagged, toNestedByLength t lengths = .ok jagged ∧
      jagged.rows = (t.rows.zip lengths).map fun row => row.1.truncate row.2 := by
  obtain ⟨- | ⟨size, rest⟩, rows, h⟩ := t
  · exact absurd hdim (by simp [Rect.dim])
  · have hne : ¬ lengths.length ≠ rows.length := not_not.mpr hlen.symm
    simp only [toNestedByLength, if_neg hne]
    exact ⟨_, rfl, rfl⟩

theorem packPerTokenField_ok {t : Rect α} {lengths : List ℕ}
    (hlen : t.rows.length = lengths.length) (hpos : 0 < lengths.length) :
    ∃ leaf, packPerTokenField t lengths = .ok leaf ∧
      leaf.rows = if 2 ≤ t.dim ∧ longest lengths ≤ t.width then
        (t.rows.zip lengths).map fun row => row.1.truncate row.2 else t.rows := by
  rw [packPerTokenField, if_neg (by omega)]
  by_cases hshape : 2 ≤ t.dim ∧ longest lengths ≤ t.width
  · rw [if_pos hshape, if_neg (by omega)]
    obtain ⟨jagged, hjagged, hrows⟩ := toNestedByLength_ok hshape.1 hlen
    exact ⟨.nested jagged, by rw [hjagged]; rfl, hrows⟩
  · rw [if_neg hshape, if_pos (by omega)]
    exact ⟨_, rfl, rfl⟩

theorem length_wireRows {f : String} {t : Rect α} {lengths : List ℕ}
    (h : t.rows.length = lengths.length) : (wireRows f t lengths).length = lengths.length := by
  rw [wireRows]
  split
  case isTrue => simp [h]
  case isFalse => exact h

theorem packField_ok {f : String} {t : Rect α} {lengths : List ℕ}
    (hlen : t.rows.length = lengths.length) (hpos : 0 < lengths.length) :
    ∃ leaf, packField (some lengths) tokenAlignedFields (f, t) = .ok (f, leaf) ∧
      leaf.rows = wireRows f t lengths := by
  by_cases hf : f ∈ tokenAlignedFields
  · obtain ⟨leaf, hleaf, hrows⟩ := packPerTokenField_ok hlen hpos
    refine ⟨leaf, ?_, ?_⟩
    · simp only [packField, if_pos hf, hleaf]
      rfl
    · simp only [hrows, wireRows, PerToken, hf, true_and]
  · refine ⟨.rect t, ?_, ?_⟩
    · simp only [packField, if_neg hf]
    · simp [wireRows, PerToken, hf, Leaf.rows]

theorem packField_key {lengths : Option (List ℕ)} {aligned : List String}
    (p : String × Rect α) (q : String × Leaf α) (h : packField lengths aligned p = .ok q) :
    q.1 = p.1 := by
  cases lengths with
  | none => exact (congrArg Prod.fst (Except.ok.inj h)).symm
  | some lengths =>
    simp only [packField] at h
    split at h
    case isTrue =>
      cases hpack : packPerTokenField p.2 lengths with
      | error e =>
        rw [hpack] at h
        exact nomatch h
      | ok leaf =>
        rw [hpack] at h
        exact (congrArg Prod.fst (Except.ok.inj h)).symm
    case isFalse => exact (congrArg Prod.fst (Except.ok.inj h)).symm

/-- Encoding keeps the fields and puts `wireRows` on the wire. -/
theorem packJaggedFields_ok {batch : Columns α} {lengths : List ℕ}
    (hbatch : IsFinalBatch batch lengths.length) :
    ∃ td, packJaggedFields batch (some lengths) tokenAlignedFields = .ok td ∧
      td.map Prod.fst = batch.map Prod.fst ∧
      (∀ field ∈ td, field.2.rows.length = lengths.length) ∧
      ∀ f t, batch.lookup f = some t →
        ∃ leaf, td.lookup f = some leaf ∧ leaf.rows = wireRows f t lengths := by
  have hfield : ∀ c ∈ batch, ∃ leaf, packField (some lengths) tokenAlignedFields c =
      .ok (c.1, leaf) ∧ leaf.rows = wireRows c.1 c.2 lengths := fun c hc =>
    packField_ok (hbatch.rows c hc) hbatch.pos
  have hreturns : ∀ c ∈ batch, ∃ q, packField (some lengths) tokenAlignedFields c = .ok q := by
    intro c hc
    obtain ⟨leaf, hleaf, -⟩ := hfield c hc
    exact ⟨_, hleaf⟩
  obtain ⟨td, htd⟩ := exists_mapM hreturns
  have hrows : ∀ field ∈ td, field.2.rows.length = lengths.length := by
    intro field hmem
    obtain ⟨c, hc, hpack⟩ := mem_of_mapM htd hmem
    obtain ⟨leaf, hleaf, hrows⟩ := hfield c hc
    obtain rfl : (c.1, leaf) = field := Except.ok.inj (hleaf.symm.trans hpack)
    exact hrows ▸ length_wireRows (hbatch.rows c hc)
  refine ⟨td, ?_, keys_of_mapM packField_key htd, hrows, ?_⟩
  · simp only [packJaggedFields, htd, bind, Except.bind, tensorDict]
    exact if_pos hrows
  · intro f t hlookup
    obtain ⟨leaf, hleaf, hpack⟩ := lookup_of_mapM packField_key htd hlookup
    obtain ⟨leaf', hleaf', hrows'⟩ := hfield _ (mem_of_lookup hlookup)
    obtain rfl : leaf' = leaf :=
      congrArg Prod.snd (Except.ok.inj (hleaf'.symm.trans hpack))
    exact ⟨leaf', hleaf, hrows'⟩

/-! ## Decoding -/

theorem rows_padToTarget (pad : α) (padToSeqlen : ℕ) (t : Rect α) :
    (padToTarget pad padToSeqlen t).rows = t.rows.map (Tensor.padTo padToSeqlen pad) := by
  rw [padToTarget]
  by_cases h : 0 < padToSeqlen ∧ 2 ≤ t.dim ∧ t.width < padToSeqlen
  · rw [if_pos h, Rect.rows_padTo]
  · rw [if_neg h, Rect.map_padTo_of_le (by omega)]

/-- Decoding pads every row to the longest of the forward pad target and the rows. -/
theorem rows_materializeLeaf (pad : α) (padToSeqlen : ℕ) (leaf : Leaf α) :
    (materializeLeaf pad padToSeqlen leaf).rows = leaf.rows.map
      (Tensor.padTo (max padToSeqlen (longest (leaf.rows.map Tensor.width))) pad) := by
  rw [materializeLeaf, rows_padToTarget]
  cases leaf with
  | nested t =>
    rw [toPaddedTensor, Jagged.toPadded, List.map_map]
    exact List.map_congr_left fun row _ => Tensor.padTo_padTo _ _ _ _
  | rect t =>
    have hlongest : longest (t.rows.map Tensor.width) ≤ t.width := by
      rw [longest_le_iff, List.forall_mem_map]
      exact fun row hrow => (Rect.width_rows hrow).le
    exact List.map_congr_left fun row hrow =>
      (Tensor.padTo_max_of_le ((Rect.width_rows hrow).symm ▸ hlongest) _ _).symm

theorem lookup_materialize [Zero α] {td : TensorDict α} {f : String} {leaf : Leaf α}
    (h : td.lookup f = some leaf) (pads : List (String × α)) (padToSeqlen : ℕ) :
    (materialize td pads padToSeqlen).lookup f =
      some (materializeLeaf ((pads.lookup f).getD 0) padToSeqlen leaf) := by
  rw [materialize, lookup_map td (fun key val =>
    materializeLeaf ((pads.lookup key).getD 0) padToSeqlen val), h]
  rfl

/-- The rows of a per-token field after the round trip. -/
theorem rows_perToken {f : String} {t : Rect α} {lengths pos : List ℕ} {leaf : Leaf α}
    (hlen : t.rows.length = lengths.length) (htoken : PerToken f t lengths)
    (hleaf : leaf.rows = select (wireRows f t lengths) pos) (pad : α) (padToSeqlen : ℕ) :
    (materializeLeaf pad padToSeqlen leaf).rows = (select (t.rows.zip lengths) pos).map fun row =>
      (row.1.truncate row.2).padTo (max padToSeqlen (longest (select lengths pos))) pad := by
  have hrows : leaf.rows = (select (t.rows.zip lengths) pos).map fun row =>
      row.1.truncate row.2 := by
    rw [hleaf, wireRows, if_pos htoken, select_map]
  have hwidth : leaf.rows.map Tensor.width = select lengths pos := by
    have hsnd : select lengths pos = (select (t.rows.zip lengths) pos).map Prod.snd := by
      rw [← select_map, List.map_snd_zip hlen.ge]
    rw [hrows, hsnd, List.map_map]
    apply List.map_congr_left
    intro row hrow
    obtain ⟨i, -, hi⟩ := List.mem_filterMap.mp hrow
    obtain ⟨hmem, hlens⟩ := List.of_mem_zip (List.mem_of_getElem? hi)
    obtain ⟨- | ⟨size, rest⟩, rows, h⟩ := t
    · exact absurd htoken.2.1 (by simp [Rect.dim])
    · exact Tensor.width_truncate (h _ hmem) ((le_longest hlens).trans htoken.2.2)
  rw [rows_materializeLeaf, hwidth, hrows, List.map_map]
  rfl

/-- The rows of any other field after the round trip. -/
theorem rows_rectangular {f : String} {t : Rect α} {lengths pos : List ℕ} {leaf : Leaf α}
    (htoken : ¬ PerToken f t lengths) (hleaf : leaf.rows = select (wireRows f t lengths) pos)
    (pad : α) (padToSeqlen : ℕ) :
    (materializeLeaf pad padToSeqlen leaf).rows =
      (select t.rows pos).map (Tensor.padTo padToSeqlen pad) := by
  rw [wireRows, if_neg htoken] at hleaf
  have hwidth : ∀ row ∈ select t.rows pos, row.width = t.width := by
    intro row hrow
    obtain ⟨i, -, hi⟩ := List.mem_filterMap.mp hrow
    exact Rect.width_rows (List.mem_of_getElem? hi)
  have hlongest : longest ((select t.rows pos).map Tensor.width) ≤ t.width := by
    rw [longest_le_iff, List.forall_mem_map]
    exact fun row hrow => (hwidth row hrow).le
  rw [rows_materializeLeaf, hleaf]
  exact List.map_congr_left fun row hrow =>
    Tensor.padTo_max_of_le (hlongest.trans (hwidth row hrow).ge) _ _

/-! ## The in-memory store -/

/-- Stacking rows of one tensor gives a tensor with these rows. -/
theorem stackOrNest_select (leaf : Leaf α) (pos : List ℕ) :
    ∃ leaf', stackOrNest (select leaf.rows pos) = .ok leaf' ∧
      leaf'.rows = select leaf.rows pos := by
  have hmem : ∀ t ∈ select leaf.rows pos, t ∈ leaf.rows := by
    intro t ht
    obtain ⟨i, -, hi⟩ := List.mem_filterMap.mp ht
    exact List.mem_of_getElem? hi
  cases hrows : select leaf.rows pos with
  | nil => exact ⟨_, rfl, rfl⟩
  | cons first rest =>
    rw [hrows] at hmem
    rw [stackOrNest]
    split
    case isTrue => exact ⟨_, rfl, rfl⟩
    case isFalse hshapes =>
      cases leaf with
      | rect t =>
        refine absurd (fun s hs => ?_) hshapes
        rw [t.shape_rows s (hmem s hs), t.shape_rows first (hmem first (by simp))]
      | nested t =>
        have htail : ∀ s ∈ first :: rest, s.shape = s.width :: first.shape.tail := by
          intro s hs
          rw [t.tail_rows first (hmem first (by simp))]
          exact t.tail_rows s (hmem s hs)
        rw [dif_pos htail]
        exact ⟨_, rfl, rfl⟩

section Store
variable {td : TensorDict α} {n : ℕ}

theorem rowAt_key {i : ℕ} (p : String × Leaf α) (q : String × Tensor α)
    (h : (match p.2.rows[i]? with
      | some val => .ok (p.1, val)
      | none => .error ⟨.indexError, "index out of range"⟩ :
        Except PyError (String × Tensor α)) = .ok q) : q.1 = p.1 := by
  split at h
  case h_1 => exact (congrArg Prod.fst (Except.ok.inj h)).symm
  case h_2 => exact nomatch h

/-- Row `i` holds the `i`-th tensor of every field. -/
theorem rowAt_ok (hrows : ∀ field ∈ td, field.2.rows.length = n) {i : ℕ} (hi : i < n) :
    ∃ row, rowAt td i = .ok row ∧ row.map Prod.fst = td.map Prod.fst ∧
      ∀ f leaf, td.lookup f = some leaf → row.lookup f = leaf.rows[i]? := by
  have hget : ∀ field ∈ td, ∃ val, field.2.rows[i]? = some val := fun field hfield =>
    ⟨_, List.getElem?_eq_getElem ((hrows field hfield).symm ▸ hi)⟩
  obtain ⟨row, hrow⟩ := exists_mapM (l := td) (f := fun field => match field.2.rows[i]? with
      | some val => .ok (field.1, val)
      | none => .error (⟨.indexError, "index out of range"⟩ : PyError)) (by
    intro field hfield
    obtain ⟨val, hval⟩ := hget field hfield
    simp [hval])
  refine ⟨row, hrow, keys_of_mapM rowAt_key hrow, ?_⟩
  intro f leaf hleaf
  obtain ⟨val, hval, hpick⟩ := lookup_of_mapM rowAt_key hrow hleaf
  obtain ⟨val', hval'⟩ := hget _ (mem_of_lookup hleaf)
  simp only [hval'] at hpick
  rw [hval, hval', (Prod.mk.inj (Except.ok.inj hpick)).2]

/-- What a partition holds for a sample after a put: row `i` of every field. -/
def Holds (td : TensorDict α) (rec : Partition α) (sid : String) (i : ℕ) : Prop :=
  ∃ row, rec.lookup sid = some row ∧
    ∀ f leaf, td.lookup f = some leaf → row.lookup f = leaf.rows[i]?

/-- The row of a sample after it was written. -/
theorem lookup_putRow (rec : Partition α) (sid : String) (row : List (String × Tensor α)) :
    (putRow rec sid row).lookup sid =
      some (row.foldl (fun d p => dictSet d p.1 p.2) ((rec.lookup sid).getD [])) := by
  rw [putRow, lookup_dictSet, if_pos rfl]

/-- A put overwrites the samples it is given one after another. -/
theorem foldlM_putSample (hnd : (td.map Prod.fst).Nodup)
    (hrows : ∀ field ∈ td, field.2.rows.length = n) {samples : List (String × ℕ)}
    (hsamples : ∀ p ∈ samples, p.2 < n) (rec : Partition α) :
    ∃ rec', samples.foldlM (putSample td) rec = .ok rec' ∧
      ∀ sid, (∃ i, (sid, i) ∈ samples ∧ Holds td rec' sid i) ∨
        (sid ∉ samples.map Prod.fst ∧ rec'.lookup sid = rec.lookup sid) := by
  induction samples generalizing rec with
  | nil => exact ⟨rec, rfl, fun sid => .inr ⟨List.not_mem_nil, rfl⟩⟩
  | cons p samples ih =>
    obtain ⟨row, hrow, hkeys, hvals⟩ := rowAt_ok hrows (hsamples p (by simp))
    obtain ⟨rec', hfold, hrec'⟩ := ih (fun q hq => hsamples q (by simp [hq])) (putRow rec p.1 row)
    refine ⟨rec', ?_, fun sid => ?_⟩
    · rw [List.foldlM_cons, putSample, hrow]
      exact hfold
    · rcases hrec' sid with ⟨i, hi, hholds⟩ | ⟨hnot, hsame⟩
      · exact .inl ⟨i, by simp [hi], hholds⟩
      · by_cases hsid : sid = p.1
        · subst hsid
          refine .inl ⟨p.2, by simp, _, hsame.trans (lookup_putRow rec p.1 row), ?_⟩
          intro f leaf hleaf
          obtain ⟨val, hval⟩ := exists_lookup (d := row) (k := f)
            (hkeys ▸ List.mem_map_of_mem (mem_of_lookup hleaf))
          rw [lookup_foldl_dictSet (hkeys ▸ hnd) hval, ← hvals f leaf hleaf, hval]
        · refine .inr ⟨by simp [hsid, hnot], ?_⟩
          rw [hsame, putRow, lookup_dictSet, if_neg hsid]

/-- The tensors of a sample that the partition holds. -/
theorem getRow_ok {rec : Partition α} {sid : String} {i : ℕ} (h : Holds td rec sid i)
    (hrows : ∀ field ∈ td, field.2.rows.length = n) (hi : i < n) {selectFields : List String}
    (hfields : selectFields ⊆ td.map Prod.fst) (partitionId : String) :
    ∃ row, getRow rec partitionId selectFields sid = .ok row ∧
      row.map some = selectFields.map fun f => (td.lookup f).bind fun leaf => leaf.rows[i]? := by
  obtain ⟨row, hrow, hvals⟩ := h
  have hget : ∀ f ∈ selectFields, ∃ leaf val, td.lookup f = some leaf ∧
      leaf.rows[i]? = some val ∧ row.lookup f = some val := by
    intro f hf
    obtain ⟨leaf, hleaf⟩ := exists_lookup (hfields hf)
    have hlt : i < leaf.rows.length := (hrows _ (mem_of_lookup hleaf)).symm ▸ hi
    exact ⟨leaf, _, hleaf, List.getElem?_eq_getElem hlt,
      (hvals f leaf hleaf).trans (List.getElem?_eq_getElem hlt)⟩
  simp only [getRow, hrow]
  clear hfields
  induction selectFields with
  | nil => exact ⟨[], rfl, rfl⟩
  | cons f fields ih =>
    obtain ⟨leaf, val, hleaf, hval, hlookup⟩ := hget f (by simp)
    obtain ⟨vals, hvals, hmap⟩ := ih fun g hg => hget g (by simp [hg])
    refine ⟨val :: vals, ?_, ?_⟩
    · rw [List.mapM_cons, hlookup, hvals]
      rfl
    · rw [List.map_cons, List.map_cons, hmap, hleaf, Option.bind_some, hval]

/-- Collecting one field over the samples selects the rows of that field. -/
theorem collect_eq {ids : List String} {rows : List (List (Tensor α))} {ix : String → ℕ}
    {selectFields : List String} (hnd : selectFields.Nodup)
    (h : List.Forall₂ (fun id row => row.map some = selectFields.map fun f =>
      (td.lookup f).bind fun leaf => leaf.rows[ix id]?) ids rows)
    {f : String} (hf : f ∈ selectFields) {leaf : Leaf α} (hleaf : td.lookup f = some leaf) :
    collect selectFields rows f = select leaf.rows (ids.map ix) := by
  induction h with
  | nil => rfl
  | cons hrow _ ih =>
    rw [collect] at ih ⊢
    rw [List.flatMap_cons, ih, filterMap_zip_keys hnd hrow hf, hleaf, List.map_cons, select_cons]
    rfl

theorem stackField_key {selectFields : List String} {rows : List (List (Tensor α))} (f : String)
    (q : String × Leaf α) (h : stackField selectFields rows f = .ok q) : q.1 = f := by
  obtain ⟨leaf, -, h⟩ := bind_eq_ok.mp h
  exact (congrArg Prod.fst (Except.ok.inj h)).symm

/-- Getting samples that the partition holds returns their rows. -/
theorem noOpGet_ok {rec : Partition α} {ids : List String} {ix : String → ℕ}
    (hholds : ∀ id ∈ ids, Holds td rec id (ix id) ∧ ix id < n)
    (hrows : ∀ field ∈ td, field.2.rows.length = n) {selectFields : List String}
    (hnd : selectFields.Nodup) (hfields : selectFields ⊆ td.map Prod.fst) (partitionId : String) :
    ∃ td', noOpGet rec partitionId ids selectFields = .ok td' ∧
      (ids ≠ [] → ∀ f ∈ selectFields, ∃ leaf leaf', td.lookup f = some leaf ∧
        td'.lookup f = some leaf' ∧ leaf'.rows = select leaf.rows (ids.map ix)) := by
  rw [noOpGet]
  split
  case isTrue hids => exact ⟨[], rfl, fun hne => (hne hids).elim⟩
  case isFalse hids =>
  obtain ⟨rows, hgot, hall⟩ := exists_mapM_forall₂ fun id hid =>
    getRow_ok (hholds id hid).1 hrows (hholds id hid).2 hfields partitionId
  have hstack : ∀ f ∈ selectFields, ∃ leaf leaf', td.lookup f = some leaf ∧
      stackField selectFields rows f = .ok (f, leaf') ∧
      leaf'.rows = select leaf.rows (ids.map ix) := by
    intro f hf
    obtain ⟨leaf, hleaf⟩ := exists_lookup (hfields hf)
    obtain ⟨leaf', hleaf', hrows'⟩ := stackOrNest_select leaf (ids.map ix)
    refine ⟨leaf, leaf', hleaf, ?_, hrows'⟩
    rw [stackField, collect_eq hnd hall hf hleaf, hleaf']
    rfl
  have hreturns : ∀ f ∈ selectFields, ∃ q, stackField selectFields rows f = .ok q := by
    intro f hf
    obtain ⟨leaf, leaf', -, hleaf', -⟩ := hstack f hf
    exact ⟨_, hleaf'⟩
  obtain ⟨td', htd'⟩ := exists_mapM hreturns
  have hbatch : ∀ field ∈ td', field.2.rows.length = ids.length := by
    intro field hfield
    obtain ⟨f, hf, hpick⟩ := mem_of_mapM htd' hfield
    obtain ⟨leaf, leaf', hleaf, hleaf', hrows'⟩ := hstack f hf
    obtain rfl : (f, leaf') = field := Except.ok.inj (hleaf'.symm.trans hpick)
    have hlt : ∀ i ∈ ids.map ix, i < leaf.rows.length := by
      simp only [List.forall_mem_map, hrows _ (mem_of_lookup hleaf)]
      exact fun id hid => (hholds id hid).2
    rw [hrows', length_select hlt, List.length_map]
  refine ⟨td', ?_, fun _ f hf => ?_⟩
  · rw [hgot, hnd.dedup]
    simp only [bind, Except.bind, htd', tensorDict]
    exact if_pos hbatch
  · obtain ⟨leaf, leaf', hleaf, hleaf', hrows'⟩ := hstack f hf
    obtain ⟨c, hc, hpick⟩ := lookup_of_mapM_keys stackField_key htd' hf
    obtain rfl : leaf' = c := congrArg Prod.snd (Except.ok.inj (hleaf'.symm.trans hpick))
    exact ⟨leaf, leaf', hleaf, hc, hrows'⟩

end Store

/-- The in-memory store returns the rows it was given, for a registered partition. -/
theorem noOpClient_returnsStored {store : List (String × Partition α)} {partitionId : String}
    {rec : Partition α} (h : store.lookup partitionId = some rec) :
    ReturnsStored noOpClient store partitionId := by
  intro sampleIds td tags hnd hrows
  have hsamples : ∀ p ∈ sampleIds.zipIdx, p.2 < sampleIds.length := by
    intro p hp
    exact (List.getElem?_eq_some_iff.mp (List.mem_zipIdx_iff_getElem?.mp hp)).1
  obtain ⟨rec', hput, hholds⟩ := foldlM_putSample hnd hrows hsamples rec
  have hix : ∀ id, ∃ i, id ∈ sampleIds →
      sampleIds[i]? = some id ∧ Holds td rec' id i ∧ i < sampleIds.length := by
    intro id
    rcases hholds id with ⟨i, hi, hheld⟩ | ⟨hnot, -⟩
    · exact ⟨i, fun _ => ⟨List.mem_zipIdx_iff_getElem?.mp hi, hheld, hsamples _ hi⟩⟩
    · rw [List.zipIdx_map_fst] at hnot
      exact ⟨0, fun hmem => (hnot hmem).elim⟩
  choose ix hix using hix
  refine ⟨dictSet store partitionId rec', ?_, ?_⟩
  · simp only [noOpClient, h, noOpPut, hput]
    rfl
  · intro ids selectFields hids hfields hsub
    obtain ⟨td', hget, hrows'⟩ := noOpGet_ok
      (fun id hid => (hix id (hids hid)).2) hrows hfields hsub partitionId
    refine ⟨td', ids.map ix, ?_, ?_, hrows'⟩
    · simp only [noOpClient, lookup_dictSet, if_pos]
      exact hget
    · rw [List.map_map]
      exact List.map_congr_left fun id hid => (hix id (hids hid)).1

/-! ## The round trip -/

/-- Field `f` after the round trip: `t` as written, `t'` as read back for the rows at
`pos`, with the pad value `pad` and the forward pad target `padToSeqlen`. -/
structure ReadBack (f : String) (lengths pos : List ℕ) (pad : α) (padToSeqlen : ℕ)
    (t t' : Rect α) : Prop where
  /-- The tokens of each row, padded to the longest of the target and the rows. -/
  perToken : PerToken f t lengths →
    t'.rows = (select (t.rows.zip lengths) pos).map fun row =>
      (row.1.truncate row.2).padTo (max padToSeqlen (longest (select lengths pos))) pad
  /-- The rows as written, padded to the target. -/
  rectangular : ¬ PerToken f t lengths →
    t'.rows = (select t.rows pos).map (Tensor.padTo padToSeqlen pad)
  /-- Rows that the target does not exceed are as written, and so is their shape. -/
  intact : ¬ PerToken f t lengths → t.dim < 2 ∨ padToSeqlen ≤ t.width →
    t'.rows = select t.rows pos ∧ t'.rowShape = t.rowShape

/-- Decoding the rows that were encoded. -/
theorem readBack_materializeLeaf {f : String} {t : Rect α} {lengths pos : List ℕ} {leaf : Leaf α}
    (hlen : t.rows.length = lengths.length) (hpos : pos ≠ [])
    (hlt : ∀ i ∈ pos, i < lengths.length) (hleaf : leaf.rows = select (wireRows f t lengths) pos)
    (pad : α) (padToSeqlen : ℕ) :
    ReadBack f lengths pos pad padToSeqlen t (materializeLeaf pad padToSeqlen leaf) := by
  refine ⟨fun htoken => rows_perToken hlen htoken hleaf pad padToSeqlen,
    fun htoken => rows_rectangular htoken hleaf pad padToSeqlen, fun htoken hshape => ?_⟩
  have hrows : (materializeLeaf pad padToSeqlen leaf).rows = select t.rows pos := by
    rw [rows_rectangular htoken hleaf pad padToSeqlen, ← select_map, Rect.map_padTo_of_le hshape]
  refine ⟨hrows, ?_⟩
  obtain ⟨i, rest, rfl⟩ := List.exists_cons_of_ne_nil hpos
  have hi : i < t.rows.length := hlen ▸ hlt i (by simp)
  have hmem : t.rows[i] ∈ (materializeLeaf pad padToSeqlen leaf).rows := by
    rw [hrows, select_cons_of_lt hi]
    exact List.mem_cons_self
  rw [← Rect.shape_rows _ _ hmem, t.shape_rows _ (List.getElem_mem hi)]

theorem column_ok {batch : Columns α} {key : String} {t : Rect α} (h : batch.lookup key = some t) :
    column batch key = .ok t := by
  rw [column, h]

section Write
variable [Zero α] {client : DataPlaneClient α σ} {store : σ} {partitionId : String}
  {batch : Columns α} {sampleIds : List String} {tags : Option (List Tag)}

/-- Writing a batch and reading fields of some of its samples back, in any order, from a
store that returns what is stored. -/
theorem readColumns_kvFirstWrite (hclient : ReturnsStored client store partitionId)
    (hbatch : IsFinalBatch batch sampleIds.length)
    (htags : ∀ ts ∈ tags, ts.length = sampleIds.length) (intOf : α → ℕ) (extraInfo : ExtraInfo)
    (taskName : String) (padToMultiple : ℕ) :
    ∃ inputLengths written store', batch.lookup "input_lengths" = some inputLengths ∧
      kvFirstWrite intOf batch sampleIds client store partitionId extraInfo taskName
        padToMultiple tags = .ok (written, store') ∧
      written.sampleIds = sampleIds ∧
      written.sequenceLengths = some (lengthsOf intOf inputLengths) ∧
      ∀ (requested : KVBatchMeta) (selectFields : List String) (pads : List (String × α)),
        requested.partitionId = partitionId → requested.sampleIds ⊆ sampleIds →
        selectFields.Nodup → selectFields ⊆ batch.map Prod.fst →
        ∃ data pos, readColumns client store' requested selectFields pads = .ok data ∧
          pos.map (sampleIds[·]?) = requested.sampleIds.map some ∧
          (requested.sampleIds ≠ [] → ∀ f ∈ selectFields, ∃ t t',
            batch.lookup f = some t ∧ data.lookup f = some t' ∧
            ReadBack f (lengthsOf intOf inputLengths) pos ((pads.lookup f).getD 0)
              (requested.extraInfo.globalForwardPadSeqlen.getD 0) t t') := by
  obtain ⟨sampleMask, hmask⟩ := exists_lookup hbatch.sampleMask
  obtain ⟨inputLengths, hinput⟩ := exists_lookup hbatch.inputLengths
  have hlen : (lengthsOf intOf inputLengths).length = sampleIds.length := by
    rw [lengthsOf, List.length_map]
    exact hbatch.rows _ (mem_of_lookup hinput)
  have hn : sampleMask.rows.length = sampleIds.length := hbatch.rows _ (mem_of_lookup hmask)
  have hsize : ¬ (sampleIds.length = 0 ∨ sampleIds.length ≠ sampleIds.length) := by
    have := hbatch.pos
    omega
  have htagged : ¬ ∃ ts ∈ tags, ts.length ≠ sampleIds.length := by
    rintro ⟨ts, hts, hne⟩
    exact hne (htags ts hts)
  obtain ⟨td, hpack, hkeys, hrows, hwire⟩ := packJaggedFields_ok (hlen ▸ hbatch)
  obtain ⟨store', hput, hget⟩ :=
    hclient sampleIds td tags (hkeys ▸ hbatch.keys) (hlen ▸ hrows)
  obtain ⟨written, hwrite, hids, hlengths⟩ : ∃ written,
      kvFirstWrite intOf batch sampleIds client store partitionId extraInfo taskName
        padToMultiple tags = .ok (written, store') ∧ written.sampleIds = sampleIds ∧
      written.sequenceLengths = some (lengthsOf intOf inputLengths) := by
    simp only [kvFirstWrite, column_ok hmask, column_ok hinput, bind, Except.bind, hn, hpack, hput]
    rw [if_neg hsize, if_neg htagged]
    exact ⟨_, rfl, rfl, rfl⟩
  refine ⟨inputLengths, written, store', hinput, hwrite, hids, hlengths, ?_⟩
  rintro requested selectFields pads rfl hids hnd hfields
  obtain ⟨td', pos, hgot, hpos, hread⟩ :=
    hget requested.sampleIds selectFields hids hnd (hkeys ▸ hfields)
  refine ⟨materialize td' pads (requested.extraInfo.globalForwardPadSeqlen.getD 0), pos, ?_, hpos,
    fun hne f hf => ?_⟩
  · simp only [readColumns, hgot, bind, Except.bind]
    rfl
  · obtain ⟨t, ht⟩ := exists_lookup (hfields hf)
    obtain ⟨leaf, leaf', hleaf, hleaf', hsel⟩ := hread hne f hf
    obtain ⟨leaf₀, hleaf₀, hwired⟩ := hwire f t ht
    obtain rfl : leaf₀ = leaf := Option.some.inj (hleaf₀.symm.trans hleaf)
    refine ⟨t, _, ht, lookup_materialize hleaf' pads _, ?_⟩
    have htlen : t.rows.length = (lengthsOf intOf inputLengths).length :=
      (hbatch.rows _ (mem_of_lookup ht)).trans hlen.symm
    refine readBack_materializeLeaf htlen ?_ ?_ (hwired ▸ hsel) _ _
    · rintro rfl
      exact hne (List.map_eq_nil_iff.mp hpos.symm)
    · intro i hi
      rw [hlen]
      have hmem : sampleIds[i]? ∈ requested.sampleIds.map some :=
        hpos ▸ List.mem_map_of_mem hi
      obtain ⟨id, -, hid⟩ := List.mem_map.mp hmem
      exact (List.getElem?_eq_some_iff.mp hid.symm).1

end Write

/-- A batch of two samples with three and one tokens and an image field. -/
def twoSamples : Columns ℕ :=
  [("input_ids", ⟨[3], [.vector [5, 6, 7], .vector [8, 0, 0]], by decide⟩),
    ("input_lengths", .ofScalars [3, 1]), ("sample_mask", .ofScalars [1, 1]),
    ("image_grid_thw", ⟨[3], [.vector [1, 2, 3], .vector [4, 5, 6]], by decide⟩)]

theorem twoSamples_isFinalBatch : IsFinalBatch twoSamples 2 :=
  ⟨by decide, by decide, by decide, by decide, by decide⟩

/-- With a forward pad target of four the image field comes back one column wider. -/
theorem twoSamples_image_widened :
    (kvFirstWrite id twoSamples ["a", "b"] noOpClient [("train", [])] "train" {} "train" 1
      none).bind (fun (written, store) => readColumns noOpClient store
        { written with extraInfo := { globalForwardPadSeqlen := some 4 } } ["image_grid_thw"] []) =
      .ok [("image_grid_thw", ⟨[4], [.vector [1, 2, 3, 0], .vector [4, 5, 6, 0]], by decide⟩)] ∧
    twoSamples.lookup "image_grid_thw" =
      some ⟨[3], [.vector [1, 2, 3], .vector [4, 5, 6]], by decide⟩ ∧
    "image_grid_thw" ∉ tokenAlignedFields := by
  decide

/-- Reading the second of the two samples alone, with a forward pad target of four. -/
theorem twoSamples_readBack :
    ∃ written store data pos,
      kvFirstWrite id twoSamples ["a", "b"] noOpClient [("train", [])] "train" {} "train" 1 none =
        .ok (written, store) ∧
      readColumns noOpClient store
        ⟨"train", none, ["b"], none, none, { globalForwardPadSeqlen := some 4 }, none⟩
        ["input_ids"] [("input_ids", 9)] = .ok data ∧
      pos.map (["a", "b"][·]?) = [some "b"] ∧
      ∃ t t', twoSamples.lookup "input_ids" = some t ∧ data.lookup "input_ids" = some t' ∧
        ReadBack "input_ids" [3, 1] pos 9 4 t t' := by
  have hclient : ReturnsStored (noOpClient : DataPlaneClient ℕ (List (String × Partition ℕ)))
      [("train", [])] "train" := noOpClient_returnsStored rfl
  have hbatch : IsFinalBatch twoSamples ["a", "b"].length := twoSamples_isFinalBatch
  have htags : ∀ ts ∈ (none : Option (List Tag)), ts.length = ["a", "b"].length := by simp
  obtain ⟨inputLengths, written, store, hinput, hwrite, -, -, hread⟩ :=
    readColumns_kvFirstWrite hclient hbatch htags id {} "train" 1
  obtain rfl : Rect.ofScalars [3, 1] = inputLengths := Option.some.inj hinput
  obtain ⟨data, pos, hdata, hpos, hfields⟩ := hread
    ⟨"train", none, ["b"], none, none, { globalForwardPadSeqlen := some 4 }, none⟩
    ["input_ids"] [("input_ids", 9)] rfl (by simp) (by simp) (by decide)
  exact ⟨written, store, data, pos, hwrite, hdata, hpos, hfields (by simp) "input_ids" (by simp)⟩

end NemoRL.DataPlane
