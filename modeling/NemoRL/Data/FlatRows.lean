import Mathlib
import NemoRL.Data.MultimodalOrder

/-!
# The rows of flattened vectors

Where every message of a batch has a vector for a key, the row of a log is the concatenation of
the vectors of its messages, padded on the right.

## Main results

* `rows_of_vectors` — the rows of the column of a key with vectors.
-/

namespace NemoRL.Data.Multimodal

open Lib

variable {D K V : Type} {promote : D → D → D}

/-! ## Concatenating vectors -/

/-- An empty vector has no elements. -/
theorem data_eq_nil {t : Tensor K} (h : t.shape = [0]) : t.data = [] := by
  refine List.length_eq_zero_iff.mp ?_
  rw [t.length_data, h]
  rfl

/-- Vectors are concatenated to a vector. -/
theorem catAlong_vectors {ts : List (Tensor K)} {t : Tensor K} (h : catAlong 0 ts = some t)
    (hvec : ∀ x ∈ ts, ∃ l, x = Tensor.vector l) : t = Tensor.vector (ts.flatMap Tensor.data) := by
  have hafter : ((ts.head?.map Tensor.shape).getD []).drop (0 + 1) = [] := by
    cases ts with
    | nil => rfl
    | cons x ts =>
      obtain ⟨l, rfl⟩ := hvec x List.mem_cons_self
      rfl
  have hblock : ∀ x ∈ ts, block (x.sizeAt 0 * 1) 0 x.data = x.data := by
    intro x hx
    obtain ⟨l, rfl⟩ := hvec x hx
    simp [block, slice, Tensor.sizeAt, Tensor.vector]
  simp only [catAlong, hafter, List.take_zero, Option.dite_none_right_eq_some] at h
  obtain ⟨hall, h⟩ := h
  have hdata : t.data = ts.flatMap Tensor.data := by
    rw [← Option.some.inj h]
    simp only [Tensor.cat, catData, List.prod_nil, List.range_one, List.flatMap_singleton,
      List.length_nil]
    rw [List.flatMap, List.map_congr_left hblock]
    rfl
  have hshape : t.shape = [t.data.length] := by
    rw [t.length_data, ← Option.some.inj h]
    simp [Tensor.cat]
  ext1
  · rw [hshape, hdata]
    rfl
  · exact hdata

/-- The concatenation of vectors is a vector, whichever of them are left out. -/
theorem torchCat_vectors {ts : List (MessageTensor D K)} {t : MessageTensor D K}
    (h : torchCat promote 0 ts = .ok t) (hvec : ∀ x ∈ ts, ∃ l, x.value = Tensor.vector l) :
    t.value = Tensor.vector (ts.flatMap fun x => x.value.data) := by
  cases ts with
  | nil => cases h
  | cons first rest =>
    set kept := ((first :: rest).map MessageTensor.value).filter fun t => t.shape ≠ [0] with hkept
    have hdata : ∀ xs : List (MessageTensor D K),
        ((xs.map MessageTensor.value).filter fun t => t.shape ≠ [0]).flatMap Tensor.data =
          xs.flatMap fun x => x.value.data := by
      intro xs
      induction xs with
      | nil => rfl
      | cons x xs ih =>
        rw [List.map_cons, List.filter_cons, List.flatMap_cons]
        by_cases hx : x.value.shape = [0]
        · simp [hx, data_eq_nil hx, ← ih]
        · simp [hx, ← ih]
    have hvec' : ∀ x ∈ kept, ∃ l, x = Tensor.vector l := by
      intro x hx
      obtain ⟨y, hy, rfl⟩ := List.mem_map.mp (List.mem_of_mem_filter hx)
      exact hvec y hy
    rw [← hdata, ← hkept]
    unfold torchCat at h
    obtain ⟨_, -, h⟩ := bind_eq_ok.mp h
    simp only [lt_irrefl, if_false, ← hkept] at h
    split at h
    case isTrue hempty =>
      obtain rfl := Except.ok.inj h
      rw [List.isEmpty_iff.mp hempty]
      rfl
    case isFalse =>
      split at h
      case h_1 t' hcat =>
        obtain rfl := Except.ok.inj h
        exact catAlong_vectors hcat hvec'
      case h_2 => cases h

/-! ## The rows -/

/-- Every message of a log has a vector for a key. -/
def HasVectors (key : String) (items : Message D K V → List K) (log : List (Message D K V)) :
    Prop :=
  ∀ m ∈ log, ∃ dtype device,
    m.lookup key = some (.tensor ⟨dtype, device, Tensor.vector (items m)⟩)

theorem catElement_eq_ok {p : MessageValue D K V × ℕ} {t : MessageTensor D K} :
    catElement p = .ok t ↔ p.1 = .tensor t := by
  obtain ⟨v, i⟩ := p
  cases v <;> simp [catElement]

/-- The tensors that the messages of a log have for the key are its vectors. -/
theorem vectors_of_values {key : String} {items : Message D K V → List K}
    {log : List (Message D K V)} (hlog : HasVectors key items log)
    {ts : List (MessageTensor D K)}
    (h : log.filterMap (fun m => m.lookup key) = ts.map .tensor) :
    (∀ t ∈ ts, ∃ l, t.value = Tensor.vector l) ∧
      ts.flatMap (fun t => t.value.data) = log.flatMap items := by
  induction log generalizing ts with
  | nil =>
    obtain rfl : ts = [] := by simpa using h.symm
    simp
  | cons m log ih =>
    obtain ⟨dtype, device, hm⟩ := hlog m List.mem_cons_self
    rw [List.filterMap_cons_some hm] at h
    cases ts with
    | nil => cases h
    | cons t ts =>
      obtain ⟨ht, hrest⟩ := List.cons.inj h
      obtain rfl := MessageValue.tensor.inj ht
      obtain ⟨hvec, hflat⟩ := ih (fun m' hm' => hlog m' (List.mem_cons_of_mem m hm')) hrest
      rw [List.flatMap_cons, List.flatMap_cons, hflat]
      refine ⟨?_, rfl⟩
      simp only [List.forall_mem_cons]
      exact ⟨⟨_, rfl⟩, hvec⟩

theorem catValues_vectors {key : String} {items : Message D K V → List K}
    {log : List (Message D K V)} (hlog : HasVectors key items log) {t : MessageTensor D K}
    (h : catValues promote key (log.filterMap fun m => m.lookup key) = .ok t) :
    t.value = Tensor.vector (log.flatMap items) := by
  unfold catValues at h
  obtain ⟨ts, hts, h⟩ := bind_eq_ok.mp h
  have hvalues : (log.filterMap fun m => m.lookup key) = ts.map .tensor := by
    have hall := mapM_eq_ok.mp hts
    simp only [catElement_eq_ok] at hall
    have hsame : List.Forall₂ Eq
        ((log.filterMap fun m => m.lookup key).zipIdx.map Prod.fst) (ts.map .tensor) := by
      rw [List.forall₂_map_left_iff, List.forall₂_map_right_iff]
      exact hall
    rwa [List.forall₂_eq_eq_eq, List.zipIdx_map_fst] at hsame
  obtain ⟨hvec, hflat⟩ := vectors_of_values hlog hvalues
  rw [← hflat]
  split at h
  case h_1 t' hcat =>
    obtain rfl := Except.ok.inj h
    exact torchCat_vectors hcat hvec
  case h_2 =>
    split at h
    · cases h
    · cases h

/-- The vectors of a log, one after another. -/
theorem filledValue_of_vectors {key : String} {items : Message D K V → List K}
    {log : List (Message D K V)} {flat : FlatMessage D K V} (hlog : HasVectors key items log)
    (h : messageLogToFlatMessages promote log = .ok flat) :
    filledValue (flat.lookup key) = Tensor.vector (log.flatMap items) := by
  cases log with
  | nil =>
    obtain rfl := Except.ok.inj h
    rfl
  | cons m log =>
    obtain ⟨dtype, device, hm⟩ := hlog m List.mem_cons_self
    have hkey : key ∈ ((m :: log).flatMap fun msg => msg.map Prod.fst).dedup := by
      rw [List.mem_dedup, List.flatMap_cons]
      exact List.mem_append_left _ (List.mem_map_of_mem (mem_of_lookup hm))
    obtain ⟨c, hc, hvalue⟩ := lookup_of_mapM_keys (fun k q hq => by
      obtain ⟨v, -, hq⟩ := bind_eq_ok.mp hq
      rw [← Except.ok.inj hq]) h hkey
    obtain ⟨v, hv, hvalue⟩ := bind_eq_ok.mp hvalue
    obtain ⟨-, rfl⟩ := Prod.mk.inj (Except.ok.inj hvalue)
    have hhead : ((m :: log).filterMap fun m => m.lookup key).head? =
        some (.tensor ⟨dtype, device, Tensor.vector (items m)⟩) := by
      rw [List.filterMap_cons_some hm]
      rfl
    unfold concatValues at hv
    rw [hhead] at hv
    obtain ⟨t, ht, hv⟩ := bind_eq_ok.mp hv
    obtain rfl := Except.ok.inj hv
    rw [hc]
    exact catValues_vectors hlog ht

section Batch
variable [DecidableEq D] [ToString D] [Zero K] {padValueDict : Option (List (String × K))}
  {div : ℕ} {batch : List (List (Message D K V))} {cols : List (String × FlatColumn D K V)}
  {lens : List ℕ}

/-- A stacked column was stacked from the values of the flat messages. -/
theorem stackColumn_of_stacked
    (h : batchedMessageLogToFlatMessage promote padValueDict div batch = .ok (cols, lens))
    {key : String} {s : StackedTensor D K} (hcol : cols.lookup key = some (.stacked s)) :
    ∃ flats maxLen padValue, batch.mapM (messageLogToFlatMessages promote) = .ok flats ∧
      stackColumn promote maxLen padValue (columnValues flats key) = .ok (.stacked s) := by
  by_cases hne : batch = []
  · subst hne
    obtain ⟨rfl, -⟩ := Prod.mk.inj (Except.ok.inj h)
    cases hcol
  have hflat := h
  unfold batchedMessageLogToFlatMessage at hflat
  rw [if_neg (by simpa using hne)] at hflat
  obtain ⟨flats, hflats, hflat⟩ := bind_eq_ok.mp hflat
  obtain ⟨maxLen, hlen, -⟩ := bind_eq_ok.mp hflat
  clear hflat
  by_cases hany : flats.any hasTensor = true
  · rw [batched_tensor hne hflats hlen hany] at h
    obtain ⟨cols', hcols, heq⟩ := bind_eq_ok.mp h
    obtain ⟨rfl, -⟩ := Prod.mk.inj (Except.ok.inj heq)
    have hkey : key ∈ flatKeys flats := by
      by_contra hmissing
      rw [lookup_columns_none hcols hmissing] at hcol
      cases hcol
    obtain ⟨c, hc, hstack⟩ := lookup_columns hcols hkey
    obtain rfl := Option.some.inj (hc.symm.trans hcol)
    exact ⟨flats, maxLen, _, hflats, hstack⟩
  · rw [batched_firstValues hne hflats hlen hany] at h
    obtain ⟨cols', hcols, heq⟩ := bind_eq_ok.mp h
    obtain ⟨rfl, -⟩ := Prod.mk.inj (Except.ok.inj heq)
    obtain ⟨k, -, hk⟩ := mem_of_mapM hcols (mem_of_lookup hcol)
    obtain ⟨vs, -, hk⟩ := bind_eq_ok.mp hk
    cases (Prod.mk.inj (Except.ok.inj hk)).2

/-- The rows of the column of a key with vectors. -/
theorem rows_of_vectors
    (h : batchedMessageLogToFlatMessage promote padValueDict div batch = .ok (cols, lens))
    {key : String} {s : StackedTensor D K} (hcol : cols.lookup key = some (.stacked s))
    {items : Message D K V → List K} (hitems : ∀ log ∈ batch, HasVectors key items log) :
    ∃ maxLen padValue, s.value.rows = batch.map fun log =>
      (Tensor.vector (log.flatMap items)).padTo maxLen padValue := by
  obtain ⟨flats, maxLen, padValue, hflats, hstack⟩ := stackColumn_of_stacked h hcol
  have hdecision := decision_stackColumn hstack
  obtain ⟨first, hfirst⟩ := exists_of_decision_tensor hdecision.symm
  obtain ⟨s', hs', heq⟩ := (stackColumn_tensor hfirst).mp hstack
  obtain rfl := FlatColumn.stacked.inj heq
  obtain ⟨-, -, hrows⟩ := padAndStack_eq_ok.mp hs'
  refine ⟨maxLen, padValue, (stackRows_eq_ok.mp hrows).2.1.trans ?_⟩
  rw [columnValues, List.map_map]
  refine List.ext_getElem? fun i => ?_
  rw [List.getElem?_map, List.getElem?_map]
  cases hflat : flats[i]? with
  | none =>
    have hlength := (mapM_eq_ok.mp hflats).length_eq
    rw [List.getElem?_eq_none_iff] at hflat
    rw [List.getElem?_eq_none (by omega)]
    rfl
  | some flat =>
    obtain ⟨log, hlog, hf⟩ := getElem?_of_mapM hflats hflat
    rw [hlog, Option.map_some, Option.map_some]
    exact congrArg (fun t => some (t.padTo maxLen padValue))
      (filledValue_of_vectors (hitems log (List.mem_of_getElem? hlog)) hf)

end Batch
end NemoRL.Data.Multimodal
