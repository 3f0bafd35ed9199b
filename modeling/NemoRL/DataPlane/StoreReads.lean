import Mathlib
import NemoRL.DataPlane.RoundTrip

/-!
# Reading a store

What a store promises, in terms of what is stored under a sample id and a field: getting returns
the rows of the requested ids in their order, and a put writes row `i` of each field under id `i`
and changes nothing else.

## Main definitions

* `StoreReads` — the promise.

## Main results

* `noOpClient_storeReads` — the in-memory store keeps it.
-/

namespace NemoRL.DataPlane

open Lib

variable {α σ : Type}

/-- What is stored under a partition, a sample id and a field. -/
abbrev Reading (α σ : Type) := σ → String → String → String → Option (Tensor α)

/-- What a put of fields under ids does to a store. -/
structure Written (client : DataPlaneClient α σ) (read : Reading α σ) (partitionId : String)
    (ids : List String) (td : TensorDict α) (store store' : σ) : Prop where
  written : ∀ (i : ℕ) sid f leaf, ids[i]? = some sid → td.lookup f = some leaf →
    read store' partitionId sid f = leaf.rows[i]?
  unchanged : ∀ pid sid f, ¬(pid = partitionId ∧ sid ∈ ids ∧ f ∈ td.map Prod.fst) →
    read store' pid sid f = read store pid sid f
  gets : ∀ ids' pid fields td', (∀ f ∈ fields, f ∉ td.map Prod.fst) →
    client.getSamples store ids' pid fields = .ok td' →
    client.getSamples store' ids' pid fields = .ok td'

/-- What a store promises. Samples that it returns can be written. -/
structure StoreReads (client : DataPlaneClient α σ) (read : Reading α σ) : Prop where
  getSamples : ∀ {store ids partitionId fields td},
    client.getSamples store ids partitionId fields = .ok td → ids ≠ [] → fields.Nodup →
    td.map Prod.fst = fields ∧ ∀ f leaf, td.lookup f = some leaf →
      leaf.rows.map some = ids.map fun sid => read store partitionId sid f
  putSamples : ∀ {store store' ids partitionId td} {tags : Option (List Tag)},
    ids.Nodup → (td.map Prod.fst).Nodup → (∀ field ∈ td, field.2.rows.length = ids.length) →
    client.putSamples store ids partitionId td tags = .ok store' →
    Written client read partitionId ids td store store'
  canPut : ∀ {store ids partitionId td fields got} (tags : Option (List Tag)),
    (td.map Prod.fst).Nodup → (∀ field ∈ td, field.2.rows.length = ids.length) → ids ≠ [] →
    client.getSamples store ids partitionId fields = .ok got →
    ∃ store', client.putSamples store ids partitionId td tags = .ok store'

/-! ## The in-memory store -/

/-- What a partition holds under a sample id and a field. -/
def readRow (rec : Partition α) (sid f : String) : Option (Tensor α) :=
  (rec.lookup sid).bind (·.lookup f)

/-- What the in-memory store holds. -/
def noOpRead : Reading α (List (String × Partition α)) := fun store partitionId sid f =>
  (store.lookup partitionId).bind fun rec => readRow rec sid f

section Put
variable {td : TensorDict α} {n : ℕ}

/-- Writing a row changes its fields only. -/
theorem readRow_putRow {rec : Partition α} {sid sid' f : String} {row : List (String × Tensor α)}
    (h : ¬(sid' = sid ∧ f ∈ row.map Prod.fst)) :
    readRow (putRow rec sid row) sid' f = readRow rec sid' f := by
  by_cases hsid : sid' = sid
  · subst hsid
    have hf : f ∉ row.map Prod.fst := fun hmem => h ⟨rfl, hmem⟩
    rw [readRow, lookup_putRow, Option.bind_some, lookup_foldl_dictSet_of_notMem hf, readRow]
    cases rec.lookup sid' <;> rfl
  · rw [readRow, putRow, lookup_dictSet, if_neg hsid, readRow]

/-- Writing a row keeps the samples. -/
theorem lookup_putRow_isSome {rec : Partition α} {sid sid' : String}
    {row : List (String × Tensor α)} (h : (rec.lookup sid').isSome) :
    ((putRow rec sid row).lookup sid').isSome := by
  rw [putRow, lookup_dictSet]
  split
  case isTrue => rfl
  case isFalse => exact h

/-- A put changes the fields of its samples only, and keeps the samples. -/
theorem readRow_foldlM_putSample {samples : List (String × ℕ)} {rec rec' : Partition α}
    (h : samples.foldlM (putSample td) rec = .ok rec') :
    (∀ sid f, ¬(sid ∈ samples.map Prod.fst ∧ f ∈ td.map Prod.fst) →
      readRow rec' sid f = readRow rec sid f) ∧
    ∀ sid, (rec.lookup sid).isSome → (rec'.lookup sid).isSome := by
  induction samples generalizing rec with
  | nil =>
    obtain rfl : rec = rec' := Except.ok.inj h
    exact ⟨fun _ _ _ => rfl, fun _ => id⟩
  | cons p samples ih =>
    rw [List.foldlM_cons] at h
    obtain ⟨mid, hput, h⟩ := bind_eq_ok.mp h
    obtain ⟨row, hrow, hput⟩ := bind_eq_ok.mp hput
    obtain rfl := Except.ok.inj hput
    have hkeys : row.map Prod.fst = td.map Prod.fst := keys_of_mapM rowAt_key hrow
    obtain ⟨hread, hkept⟩ := ih h
    refine ⟨fun sid f hnot => ?_, fun sid hsome => hkept sid (lookup_putRow_isSome hsome)⟩
    rw [hread sid f fun hmem => hnot ⟨List.mem_cons_of_mem _ hmem.1, hmem.2⟩]
    refine readRow_putRow fun hmem => hnot ⟨?_, hkeys ▸ hmem.2⟩
    exact hmem.1 ▸ List.mem_cons_self

/-- What a put of distinct ids holds under them. -/
theorem readRow_noOpPut {ids : List String} (rec : Partition α) (hids : ids.Nodup)
    (hnd : (td.map Prod.fst).Nodup) (hrows : ∀ field ∈ td, field.2.rows.length = ids.length) :
    ∃ rec', noOpPut rec ids td = .ok rec' ∧
      ∀ (i : ℕ) sid f leaf, ids[i]? = some sid → td.lookup f = some leaf →
        readRow rec' sid f = leaf.rows[i]? := by
  have hsamples : ∀ p ∈ ids.zipIdx, p.2 < ids.length := by
    intro p hp
    exact (List.getElem?_eq_some_iff.mp (List.mem_zipIdx_iff_getElem?.mp hp)).1
  obtain ⟨rec', hput, hholds⟩ := foldlM_putSample hnd hrows hsamples rec
  refine ⟨rec', hput, fun i sid f leaf hi hleaf => ?_⟩
  rcases hholds sid with ⟨j, hj, row, hrow, hvals⟩ | ⟨hnot, -⟩
  · have hj' := List.mem_zipIdx_iff_getElem?.mp hj
    obtain ⟨hlt, -⟩ := List.getElem?_eq_some_iff.mp hi
    obtain rfl : i = j := (List.getElem?_inj hlt hids).mp (hi.trans hj'.symm)
    rw [readRow, hrow, Option.bind_some, hvals f leaf hleaf]
  · rw [List.zipIdx_map_fst] at hnot
    exact (hnot (List.mem_of_getElem? hi)).elim

end Put

section Get
variable {rec rec' : Partition α} {partitionId : String} {fields : List String}

/-- The tensors of a sample are what is held under it. -/
theorem map_some_of_getRow {sid : String} {row : List (Tensor α)}
    (h : getRow rec partitionId fields sid = .ok row) :
    row.map some = fields.map fun f => readRow rec sid f := by
  rw [getRow] at h
  cases hsid : rec.lookup sid with
  | none =>
    rw [hsid] at h
    cases h
  | some stored =>
    rw [hsid] at h
    have hall := mapM_eq_ok.mp h
    clear h
    induction hall with
    | nil => rfl
    | @cons f val _ _ hval _ ih =>
      rw [List.map_cons, List.map_cons, ih, readRow, hsid, Option.bind_some]
      split at hval
      case h_1 val' hlookup => rw [hlookup, ← Except.ok.inj hval]
      case h_2 => cases hval

/-- A sample whose fields are unchanged is got as before. -/
theorem getRow_congr {sid : String} {row : List (Tensor α)}
    (h : getRow rec partitionId fields sid = .ok row)
    (hread : ∀ f ∈ fields, readRow rec' sid f = readRow rec sid f)
    (hkept : (rec.lookup sid).isSome → (rec'.lookup sid).isSome) :
    getRow rec' partitionId fields sid = .ok row := by
  rw [getRow] at h ⊢
  cases hsid : rec.lookup sid with
  | none =>
    rw [hsid] at h
    cases h
  | some stored =>
    obtain ⟨stored', hsid'⟩ := Option.isSome_iff_exists.mp (hkept (by rw [hsid]; rfl))
    rw [hsid] at h
    rw [hsid']
    have hsame : ∀ f ∈ fields, stored'.lookup f = stored.lookup f := by
      intro f hf
      simpa [readRow, hsid, hsid'] using hread f hf
    have hall := (List.forall₂_and_left _ _).mpr ⟨hsame, mapM_eq_ok.mp h⟩
    refine mapM_eq_ok.mpr (hall.imp fun f val hval => ?_)
    rw [hval.1]
    exact hval.2

/-- Collecting a field over the samples collects what is held under them. -/
theorem map_some_collect {read : String → String → Option (Tensor α)} {ids : List String}
    {rows : List (List (Tensor α))} (hnd : fields.Nodup)
    (h : List.Forall₂ (fun sid row => row.map some = fields.map (read sid)) ids rows)
    {f : String} (hf : f ∈ fields) :
    (collect fields rows f).map some = ids.map fun sid => read sid f := by
  induction h with
  | nil => rfl
  | @cons sid row _ _ hrow _ ih =>
    rw [collect] at ih ⊢
    rw [List.flatMap_cons, List.map_append, ih, filterMap_zip_keys hnd hrow hf, List.map_cons]
    have hsome : ∃ val, read sid f = some val := by
      have hmem : read sid f ∈ row.map some := hrow ▸ List.mem_map_of_mem hf
      obtain ⟨val, -, hval⟩ := List.mem_map.mp hmem
      exact ⟨val, hval.symm⟩
    obtain ⟨val, hval⟩ := hsome
    simp [hval]

theorem rows_of_stackOrNest {tensors : List (Tensor α)} {leaf : Leaf α}
    (h : stackOrNest tensors = .ok leaf) : leaf.rows = tensors := by
  cases tensors with
  | nil =>
    obtain rfl := Except.ok.inj h
    rfl
  | cons first rest =>
    rw [stackOrNest] at h
    split at h
    case isTrue =>
      obtain rfl := Except.ok.inj h
      rfl
    case isFalse =>
      split at h
      case isTrue =>
        obtain rfl := Except.ok.inj h
        rfl
      case isFalse => cases h

/-- Getting samples returns what is held under them. -/
theorem reads_of_noOpGet {ids : List String} {td : TensorDict α} (hnd : fields.Nodup)
    (hids : ids ≠ []) (h : noOpGet rec partitionId ids fields = .ok td) :
    td.map Prod.fst = fields ∧ ∀ f leaf, td.lookup f = some leaf →
      leaf.rows.map some = ids.map fun sid => readRow rec sid f := by
  rw [noOpGet, if_neg hids] at h
  obtain ⟨rows, hrows, h⟩ := bind_eq_ok.mp h
  obtain ⟨stacked, hstacked, h⟩ := bind_eq_ok.mp h
  rw [hnd.dedup] at hstacked
  obtain rfl : stacked = td := by
    rw [tensorDict] at h
    split at h
    case isTrue => exact Except.ok.inj h
    case isFalse => cases h
  have hkeys : stacked.map Prod.fst = fields := by
    have hall := (mapM_eq_ok.mp hstacked).imp fun f q hq => (stackField_key f q hq).symm
    exact (List.forall₂_eq_eq_eq ▸ List.forall₂_map_right_iff.mpr hall :
      fields = stacked.map Prod.fst).symm
  refine ⟨hkeys, fun f leaf hleaf => ?_⟩
  have hf : f ∈ fields := hkeys ▸ List.mem_map_of_mem (mem_of_lookup hleaf)
  obtain ⟨leaf', hleaf', hstack⟩ := lookup_of_mapM_keys stackField_key hstacked hf
  obtain rfl : leaf = leaf' := Option.some.inj (hleaf.symm.trans hleaf')
  obtain ⟨made, hmade, hpair⟩ := bind_eq_ok.mp hstack
  obtain rfl : made = leaf := congrArg Prod.snd (Except.ok.inj hpair)
  rw [rows_of_stackOrNest hmade]
  exact map_some_collect hnd ((mapM_eq_ok.mp hrows).imp fun sid row => map_some_of_getRow) hf

theorem noOpGet_congr {ids : List String} {td : TensorDict α}
    (h : noOpGet rec partitionId ids fields = .ok td)
    (hread : ∀ sid, ∀ f ∈ fields, readRow rec' sid f = readRow rec sid f)
    (hkept : ∀ sid, (rec.lookup sid).isSome → (rec'.lookup sid).isSome) :
    noOpGet rec' partitionId ids fields = .ok td := by
  rw [noOpGet] at h ⊢
  split
  case isTrue hids => rwa [if_pos hids] at h
  case isFalse hids =>
    rw [if_neg hids] at h
    obtain ⟨rows, hrows, h⟩ := bind_eq_ok.mp h
    refine bind_eq_ok.mpr ⟨rows, mapM_eq_ok.mpr ((mapM_eq_ok.mp hrows).imp ?_), h⟩
    exact fun sid row hrow => getRow_congr hrow (hread sid) (hkept sid)

end Get

/-- The in-memory store keeps the promise. -/
theorem noOpClient_storeReads : StoreReads (@noOpClient α) noOpRead where
  getSamples := by
    intro store ids partitionId fields td h hids hnd
    simp only [noOpClient] at h
    cases hrec : store.lookup partitionId with
    | none =>
      rw [hrec] at h
      cases h
    | some rec =>
      rw [hrec] at h
      simp only [noOpRead, hrec, Option.bind_some]
      exact reads_of_noOpGet hnd hids h
  putSamples := by
    intro store store' ids partitionId td tags hids hnd hrows h
    simp only [noOpClient] at h
    cases hrec : store.lookup partitionId with
    | none =>
      rw [hrec] at h
      cases h
    | some rec =>
      obtain ⟨rec', hput, hwritten⟩ := readRow_noOpPut rec hids hnd hrows
      obtain ⟨hread, hkept⟩ := readRow_foldlM_putSample hput
      rw [List.zipIdx_map_fst] at hread
      simp only [hrec, hput, bind, Except.bind] at h
      obtain rfl := Except.ok.inj h
      refine ⟨?_, ?_, ?_⟩
      · intro i sid f leaf hi hleaf
        rw [noOpRead, lookup_dictSet, if_pos rfl, Option.bind_some]
        exact hwritten i sid f leaf hi hleaf
      · intro pid sid f hnot
        rw [noOpRead, noOpRead, lookup_dictSet]
        split
        case isTrue hpid =>
          subst hpid
          rw [hrec, Option.bind_some, Option.bind_some]
          exact hread sid f fun hmem => hnot ⟨rfl, hmem⟩
        case isFalse => rfl
      · intro ids' pid fields' td' hfields hget
        simp only [noOpClient, lookup_dictSet] at hget ⊢
        by_cases hpid : pid = partitionId
        · subst hpid
          rw [hrec] at hget
          rw [if_pos rfl]
          exact noOpGet_congr hget
            (fun sid f hf => hread sid f fun hmem => hfields f hf hmem.2) hkept
        · rwa [if_neg hpid]
  canPut := by
    intro store ids partitionId td fields got tags hnd hrows hids hget
    simp only [noOpClient] at hget
    cases hrec : store.lookup partitionId with
    | none =>
      rw [hrec] at hget
      cases hget
    | some rec =>
      obtain ⟨store', hput, -⟩ := noOpClient_returnsStored hrec ids td tags hnd hrows
      exact ⟨store', hput⟩

end NemoRL.DataPlane
