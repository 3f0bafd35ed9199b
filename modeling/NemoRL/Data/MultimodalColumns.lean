import Mathlib
import NemoRL.Data.Multimodal
import NemoRL.Lib.IndexPerm

/-!
# The columns of a multimodal batch

What is done with a key is decided by the first log: its value is packed, is a tensor, or is
neither. Whether the values of a key can then be packed or stacked does not depend on their order.

## Main definitions

* `Decision`, `decision` — what the value of a log decides.
* `Stackable`, `Packable` — the values of a key that can be stacked or packed.
* `Permuted` — a column in another order of the logs.

## Main results

* `exists_stackColumn` — when there is a column.
* `permuted_iff` — when the columns of two orders agree.
-/

namespace NemoRL.Data.Multimodal

open Lib

variable {D K V : Type}

/-! ## Packing and stacking -/

/-- Values that can be packed. -/
structure Packable (promote : D → D → D) (values : List (Option (FlatValue D K V))) : Prop where
  packed : ∀ v ∈ values, ∃ p, v = some (.packed p)
  dimToPack : ∀ p p', some (.packed p) ∈ values → some (.packed p') ∈ values →
    p.dimToPack = p'.dimToPack
  asTensor : ∀ p, some (.packed p) ∈ values → ∃ t, p.asTensor promote = .ok t

/-- Values that can be stacked. A missing value is a vector. -/
structure Stackable (values : List (Option (FlatValue D K V))) : Prop where
  tensors : ∀ v, some v ∈ values → ∃ t, v = .tensor t
  agree : ∀ t t', some (.tensor t) ∈ values → some (.tensor t') ∈ values →
    t.dtype = t'.dtype ∧ t.device = t'.device ∧ t.value.shape.tail = t'.value.shape.tail
  missing : none ∈ values → ∀ t, some (.tensor t) ∈ values → t.value.shape.tail = []

variable {promote : D → D → D} {values : List (Option (FlatValue D K V))}

theorem asPacked_eq_ok {v : Option (FlatValue D K V)} {p : PackedTensor D K} :
    asPacked v = .ok p ↔ v = some (.packed p) := by
  rcases v with - | v
  · simp [asPacked]
  · cases v <;> simp [asPacked]

theorem sameDimToPack_eq_ok {ps : List (PackedTensor D K)} {d : ℤ} :
    sameDimToPack ps = .ok d ↔ ps ≠ [] ∧ ∀ p ∈ ps, p.dimToPack = d := by
  cases ps with
  | nil => simp [sameDimToPack]
  | cons first rest =>
    rw [sameDimToPack]
    split
    case isTrue h =>
      simp only [Except.ok.injEq, List.forall_mem_cons, ne_eq, reduceCtorEq, not_false_eq_true,
        true_and]
      constructor
      · rintro rfl
        exact ⟨rfl, h⟩
      · rintro ⟨rfl, -⟩
        rfl
    case isFalse h =>
      simp only [reduceCtorEq, List.forall_mem_cons, ne_eq, not_false_eq_true, true_and,
        false_iff]
      rintro ⟨rfl, hrest⟩
      exact h hrest

theorem init_eq_ok {tensors : List (Option (MessageTensor D K))} {d : ℤ} {p : PackedTensor D K} :
    PackedTensor.init tensors d = .ok p ↔ p.tensors = tensors ∧ p.dimToPack = d := by
  rw [PackedTensor.init]
  split
  case isTrue h =>
    simp only [reduceCtorEq, false_iff]
    rintro ⟨htensors, -⟩
    exact p.tensors_ne_nil (htensors.trans h)
  case isFalse h =>
    obtain ⟨ts, dim, hne⟩ := p
    rw [Except.ok.injEq, PackedTensor.mk.injEq]
    simp only [eq_comm]

theorem mapM_asPacked {ps : List (PackedTensor D K)} :
    values.mapM asPacked = .ok ps ↔ values = ps.map fun p => some (.packed p) := by
  rw [mapM_eq_ok, ← List.forall₂_eq_eq_eq, List.forall₂_map_right_iff]
  simp only [asPacked_eq_ok]

/-- What packing the values of a key returns. -/
theorem flattenedConcat_eq_ok {p : PackedTensor D K} :
    PackedTensor.flattenedConcat promote values = .ok p ↔
      ∃ ps : List (PackedTensor D K), values = ps.map (fun q => some (.packed q)) ∧
        (∀ q ∈ ps, q.dimToPack = p.dimToPack) ∧
        ps.mapM (PackedTensor.asTensor promote) = .ok p.tensors := by
  unfold PackedTensor.flattenedConcat
  constructor
  · intro h
    obtain ⟨ps, hps, h⟩ := bind_eq_ok.mp h
    obtain ⟨d, hd, h⟩ := bind_eq_ok.mp h
    obtain ⟨tensors, htensors, h⟩ := bind_eq_ok.mp h
    obtain ⟨rfl, rfl⟩ := init_eq_ok.mp h
    exact ⟨ps, mapM_asPacked.mp hps, (sameDimToPack_eq_ok.mp hd).2, htensors⟩
  · rintro ⟨ps, hps, hdim, htensors⟩
    have hne : ps ≠ [] := by
      rintro rfl
      exact p.tensors_ne_nil (Except.ok.inj htensors).symm
    refine bind_eq_ok.mpr ⟨ps, mapM_asPacked.mpr hps, bind_eq_ok.mpr ⟨p.dimToPack, ?_, ?_⟩⟩
    · exact sameDimToPack_eq_ok.mpr ⟨hne, hdim⟩
    · exact bind_eq_ok.mpr ⟨p.tensors, htensors, init_eq_ok.mpr ⟨rfl, rfl⟩⟩

/-- The values of a key are packed exactly when they can be. -/
theorem exists_flattenedConcat (hne : values ≠ []) :
    (∃ p, PackedTensor.flattenedConcat promote values = .ok p) ↔ Packable promote values := by
  constructor
  · rintro ⟨p, hp⟩
    obtain ⟨ps, rfl, hdim, htensors⟩ := flattenedConcat_eq_ok.mp hp
    have hmem : ∀ q, some (FlatValue.packed (V := V) q) ∈
        ps.map (fun q => some (FlatValue.packed q)) → q ∈ ps := by
      intro q hq
      obtain ⟨q', hq', heq⟩ := List.mem_map.mp hq
      simp only [Option.some.injEq, FlatValue.packed.injEq] at heq
      exact heq ▸ hq'
    refine ⟨?_, ?_, ?_⟩
    · intro v hv
      obtain ⟨q, -, rfl⟩ := List.mem_map.mp hv
      exact ⟨q, rfl⟩
    · intro q q' hq hq'
      rw [hdim q (hmem q hq), hdim q' (hmem q' hq')]
    · intro q hq
      obtain ⟨t, -, ht⟩ := mem_of_mapM_mem htensors (hmem q hq)
      exact ⟨t, ht⟩
  · intro h
    have hok : ∀ v ∈ values, ∃ p, asPacked v = .ok p := by
      intro v hv
      obtain ⟨p, hp⟩ := h.packed v hv
      exact ⟨p, asPacked_eq_ok.mpr hp⟩
    obtain ⟨ps, hps⟩ := exists_mapM hok
    obtain rfl := mapM_asPacked.mp hps
    obtain ⟨first, rest, rfl⟩ := List.exists_cons_of_ne_nil (by simpa using hne)
    have hmem : ∀ q ∈ first :: rest, some (FlatValue.packed (V := V) q) ∈
        (first :: rest).map (fun q => some (FlatValue.packed q)) :=
      fun q hq => List.mem_map_of_mem hq
    obtain ⟨tensors, htensors⟩ := exists_mapM fun q hq => h.asTensor q (hmem q hq)
    have htne : tensors ≠ [] := by
      rintro rfl
      have hlen := (mapM_eq_ok.mp htensors).length_eq
      simp at hlen
    refine ⟨⟨tensors, first.dimToPack, htne⟩, flattenedConcat_eq_ok.mpr ⟨_, rfl, ?_, htensors⟩⟩
    intro q hq
    exact h.dimToPack q first (hmem q hq) (hmem first List.mem_cons_self)

/-- In another order, the same tensors are returned in that order. -/
theorem flattenedConcat_select {p p' : PackedTensor D K} {order : List ℕ}
    (h : PackedTensor.flattenedConcat promote values = .ok p)
    (h' : PackedTensor.flattenedConcat promote (select values order) = .ok p') :
    p'.dimToPack = p.dimToPack ∧ p'.tensors = select p.tensors order := by
  obtain ⟨ps, rfl, hdim, htensors⟩ := flattenedConcat_eq_ok.mp h
  obtain ⟨ps', hps, hdim', htensors'⟩ := flattenedConcat_eq_ok.mp h'
  rw [select_map] at hps
  have hinj : Function.Injective fun q : PackedTensor D K =>
      some (FlatValue.packed (V := V) q) := by
    intro q q' heq
    simpa using heq
  obtain rfl := List.map_injective_iff.mpr hinj hps
  rw [select_mapM htensors order, Except.ok.injEq] at htensors'
  refine ⟨?_, htensors'.symm⟩
  have hne : select ps order ≠ [] := by
    intro hnil
    have htnil := (mapM_eq_ok.mp (select_mapM htensors order)).length_eq
    rw [hnil] at htnil
    exact p'.tensors_ne_nil (List.eq_nil_of_length_eq_zero (htensors' ▸ htnil.symm))
  obtain ⟨q, rest, hq⟩ := List.exists_cons_of_ne_nil hne
  have hmem : q ∈ select ps order := hq ▸ List.mem_cons_self
  obtain ⟨i, -, hi⟩ := List.mem_filterMap.mp hmem
  rw [← hdim q (List.mem_of_getElem? hi), ← hdim' q hmem]

theorem asMessageTensor_eq_ok {v : FlatValue D K V} {t : MessageTensor D K} :
    asMessageTensor v = .ok t ↔ v = .tensor t := by
  cases v <;> simp [asMessageTensor]

theorem stackRows_eq_ok {tensors : List (Tensor K)} {r : Rect K} :
    stackRows tensors = .ok r ↔
      tensors ≠ [] ∧ r.rows = tensors ∧ ∀ t ∈ tensors, t.shape = r.rowShape := by
  cases tensors with
  | nil => simp [stackRows]
  | cons first rest =>
    rw [stackRows]
    split
    case isTrue h =>
      rw [Except.ok.injEq]
      constructor
      · rintro rfl
        exact ⟨List.cons_ne_nil first rest, rfl, h⟩
      · rintro ⟨-, hrows, hshape⟩
        exact Rect.ext (hshape first List.mem_cons_self) hrows.symm
    case isFalse h =>
      simp only [reduceCtorEq, false_iff]
      rintro ⟨-, -, hshape⟩
      refine h fun t ht => ?_
      rw [hshape t ht, hshape first List.mem_cons_self]

/-- The shape of a row of a stack. -/
theorem shape_padTo_filledValue {maxLen : ℕ} {padValue : K} {v : Option (FlatValue D K V)}
    (hwidth : ∀ t, v = some (.tensor t) → t.value.shape ≠ [] ∧ t.value.width ≤ maxLen) :
    ((filledValue v).padTo maxLen padValue).shape = maxLen :: (filledValue v).shape.tail := by
  have hempty : ((Tensor.vector ([] : List K)).padTo maxLen padValue).shape = [maxLen] := by
    simp [Tensor.vector, Tensor.padTo]
  rcases v with - | (vs | t | p)
  · exact hempty
  · exact hempty
  · obtain ⟨hne, hle⟩ := hwidth t rfl
    obtain ⟨size, rest, hshape⟩ := List.exists_cons_of_ne_nil hne
    have hsize : size ≤ maxLen := by simpa [Tensor.width, hshape] using hle
    have hfilled : (filledValue (some (FlatValue.tensor (V := V) t))).shape = size :: rest := hshape
    rw [Tensor.shape_padTo hfilled, hfilled, max_eq_left hsize]
    rfl
  · exact hempty

section Stack
variable [DecidableEq D] [ToString D] {maxLen : ℕ} {padValue : K} {first : MessageTensor D K}

theorem validateTensorConsistency_eq_ok {tensors : List (MessageTensor D K)} :
    validateTensorConsistency first tensors = .ok () ↔
      ∀ t ∈ tensors, t.dtype = first.dtype ∧ t.device = first.device := by
  unfold validateTensorConsistency
  by_cases hdtype : ∀ t ∈ tensors, t.dtype = first.dtype
  · rw [if_neg (not_not.mpr hdtype)]
    by_cases hdevice : ∀ t ∈ tensors, t.device = first.device
    · rw [if_neg (not_not.mpr hdevice)]
      exact iff_of_true rfl fun t ht => ⟨hdtype t ht, hdevice t ht⟩
    · rw [if_pos hdevice]
      refine iff_of_false (by intro h; cases h) fun h => ?_
      exact hdevice fun t ht => (h t ht).2
  · rw [if_pos hdtype]
    refine iff_of_false (by intro h; cases h) fun h => ?_
    exact hdtype fun t ht => (h t ht).1

/-- What stacking the values of a key returns. -/
theorem padAndStack_eq_ok {s : StackedTensor D K} :
    padAndStack maxLen padValue first values = .ok s ↔
      (∀ v, some v ∈ values → ∃ t, v = .tensor t ∧ t.dtype = first.dtype ∧
        t.device = first.device) ∧
      (s.dtype = first.dtype ∧ s.device = first.device) ∧
      stackRows (values.map fun v => (filledValue v).padTo maxLen padValue) = .ok s.value := by
  have hmem : ∀ v, v ∈ values.filterMap id ↔ some v ∈ values := by
    intro v
    simp [List.mem_filterMap]
  unfold padAndStack
  constructor
  · intro h
    obtain ⟨tensors, htensors, h⟩ := bind_eq_ok.mp h
    obtain ⟨_, hvalid, h⟩ := bind_eq_ok.mp h
    obtain ⟨stacked, hstacked, h⟩ := bind_eq_ok.mp h
    obtain rfl := Except.ok.inj h
    refine ⟨fun v hv => ?_, ⟨rfl, rfl⟩, hstacked⟩
    obtain ⟨t, ht, hvt⟩ := mem_of_mapM_mem htensors ((hmem v).mpr hv)
    exact ⟨t, asMessageTensor_eq_ok.mp hvt, validateTensorConsistency_eq_ok.mp hvalid t ht⟩
  · rintro ⟨hvalues, ⟨hdtype, hdevice⟩, hstacked⟩
    have hok : ∀ v ∈ values.filterMap id, ∃ t, asMessageTensor v = .ok t := by
      intro v hv
      obtain ⟨t, ht, -⟩ := hvalues v ((hmem v).mp hv)
      exact ⟨t, asMessageTensor_eq_ok.mpr ht⟩
    obtain ⟨tensors, htensors⟩ := exists_mapM hok
    have hvalid : ∀ t ∈ tensors, t.dtype = first.dtype ∧ t.device = first.device := by
      intro t ht
      obtain ⟨v, hv, hvt⟩ := mem_of_mapM htensors ht
      obtain ⟨t', rfl, hagree⟩ := hvalues v ((hmem v).mp hv)
      obtain rfl := FlatValue.tensor.inj (asMessageTensor_eq_ok.mp hvt)
      exact hagree
    refine bind_eq_ok.mpr ⟨tensors, htensors, bind_eq_ok.mpr ⟨(), ?_, ?_⟩⟩
    · exact validateTensorConsistency_eq_ok.mpr hvalid
    · refine bind_eq_ok.mpr ⟨s.value, hstacked, ?_⟩
      rw [← hdtype, ← hdevice]
      rfl

/-- The values of a key are stacked exactly when they can be. -/
theorem exists_padAndStack (padValue : K) (hfirst : some (.tensor first) ∈ values)
    (hwidth : ∀ t, some (.tensor t) ∈ values → t.value.shape ≠ [] ∧ t.value.width ≤ maxLen) :
    (∃ s, padAndStack maxLen padValue first values = .ok s) ↔ Stackable values := by
  have hne : values.map (fun v => (filledValue v).padTo maxLen padValue) ≠ [] := by
    intro hnil
    rw [List.map_eq_nil_iff] at hnil
    simp [hnil] at hfirst
  have hrow : ∀ v ∈ values, ((filledValue v).padTo maxLen padValue).shape =
      maxLen :: (filledValue v).shape.tail := by
    intro v hv
    refine shape_padTo_filledValue fun t ht => hwidth t (ht ▸ hv)
  constructor
  · rintro ⟨s, hs⟩
    obtain ⟨hvalues, -, hstack⟩ := padAndStack_eq_ok.mp hs
    obtain ⟨-, -, hshape⟩ := stackRows_eq_ok.mp hstack
    have htail : ∀ v ∈ values, ∀ v' ∈ values,
        (filledValue v).shape.tail = (filledValue v').shape.tail := by
      intro v hv v' hv'
      have hsame := (hshape _ (List.mem_map_of_mem hv)).trans
        (hshape _ (List.mem_map_of_mem hv')).symm
      rw [hrow v hv, hrow v' hv'] at hsame
      exact (List.cons.inj hsame).2
    refine ⟨?_, ?_, ?_⟩
    · intro v hv
      obtain ⟨t, ht, -⟩ := hvalues v hv
      exact ⟨t, ht⟩
    · intro t t' ht ht'
      obtain ⟨u, hu, hdtype, hdevice⟩ := hvalues _ ht
      obtain ⟨u', hu', hdtype', hdevice'⟩ := hvalues _ ht'
      obtain rfl := FlatValue.tensor.inj hu
      obtain rfl := FlatValue.tensor.inj hu'
      exact ⟨hdtype.trans hdtype'.symm, hdevice.trans hdevice'.symm, htail _ ht _ ht'⟩
    · intro hnone t ht
      exact (htail _ ht _ hnone).trans rfl
  · intro h
    have htail : ∀ v ∈ values, (filledValue v).shape.tail = first.value.shape.tail := by
      intro v hv
      rcases v with - | v
      · exact (h.missing hv first hfirst).symm
      · obtain ⟨t, rfl⟩ := h.tensors v hv
        exact (h.agree t first hv hfirst).2.2
    have hstack : stackRows (values.map fun v => (filledValue v).padTo maxLen padValue) =
        .ok ⟨maxLen :: first.value.shape.tail,
          values.map fun v => (filledValue v).padTo maxLen padValue, by
            simp only [List.forall_mem_map]
            exact fun v hv => (hrow v hv).trans (by rw [htail v hv])⟩ := by
      refine stackRows_eq_ok.mpr ⟨hne, rfl, ?_⟩
      simp only [List.forall_mem_map]
      exact fun v hv => (hrow v hv).trans (by rw [htail v hv])
    refine ⟨⟨first.dtype, first.device, _⟩, padAndStack_eq_ok.mpr ⟨?_, ⟨rfl, rfl⟩, hstack⟩⟩
    intro v hv
    obtain ⟨t, rfl⟩ := h.tensors v hv
    have hagree := h.agree t first hv hfirst
    exact ⟨t, rfl, hagree.1, hagree.2.1⟩

/-- In another order, the same tensors are stacked in that order. -/
theorem padAndStack_select {first' : MessageTensor D K} {s s' : StackedTensor D K}
    {order : List ℕ} (h : padAndStack maxLen padValue first values = .ok s)
    (h' : padAndStack maxLen padValue first' (select values order) = .ok s')
    (hfirst' : some (.tensor first') ∈ values) :
    (s'.dtype = s.dtype ∧ s'.device = s.device) ∧ s'.value.rowShape = s.value.rowShape ∧
      s'.value.rows = select s.value.rows order := by
  obtain ⟨hvalues, ⟨hdtype, hdevice⟩, hstack⟩ := padAndStack_eq_ok.mp h
  obtain ⟨-, ⟨hdtype', hdevice'⟩, hstack'⟩ := padAndStack_eq_ok.mp h'
  obtain ⟨-, hrows, hshape⟩ := stackRows_eq_ok.mp hstack
  obtain ⟨hne', hrows', hshape'⟩ := stackRows_eq_ok.mp hstack'
  obtain ⟨t, ht, hfirstDtype, hfirstDevice⟩ := hvalues _ hfirst'
  obtain rfl := FlatValue.tensor.inj ht
  rw [← select_map] at hne' hrows' hshape'
  obtain ⟨row, rest, hrow⟩ := List.exists_cons_of_ne_nil hne'
  have hmem : row ∈ select (values.map fun v => (filledValue v).padTo maxLen padValue) order :=
    hrow ▸ List.mem_cons_self
  obtain ⟨i, -, hi⟩ := List.mem_filterMap.mp hmem
  refine ⟨⟨?_, ?_⟩, ?_, ?_⟩
  · rw [hdtype, hdtype', hfirstDtype]
  · rw [hdevice, hdevice', hfirstDevice]
  · rw [← hshape' row hmem, hshape row (List.mem_of_getElem? hi)]
  · rw [hrows', hrows]

end Stack

/-! ## What the first log decides -/

/-- How the values of a key are put together. -/
inductive Decision
  | list
  | tensor
  | packed
  deriving DecidableEq, Repr

/-- What the value of a log decides. -/
def decision : Option (FlatValue D K V) → Decision
  | some (.packed _) => .packed
  | some (.tensor _) => .tensor
  | _ => .list

/-- What is decided can be done with the values of a key. -/
def CanDo (promote : D → D → D) (values : List (Option (FlatValue D K V))) : Decision → Prop
  | .list => True
  | .tensor => Stackable values
  | .packed => Packable promote values

/-- A column in another order of the logs. -/
def Permuted (order : List ℕ) : FlatColumn D K V → FlatColumn D K V → Prop
  | .firstValues vs, .firstValues vs' => vs' = select vs order
  | .values vs, .values vs' => vs' = select vs order
  | .stacked t, .stacked t' => (t'.dtype = t.dtype ∧ t'.device = t.device) ∧
      t'.value.rowShape = t.value.rowShape ∧ t'.value.rows = select t.value.rows order
  | .packed p, .packed p' => p'.dimToPack = p.dimToPack ∧ p'.tensors = select p.tensors order
  | _, _ => False

/-- The number of rows of a column. -/
def FlatColumn.length : FlatColumn D K V → ℕ
  | .firstValues vs => vs.length
  | .values vs => vs.length
  | .stacked t => t.value.rows.length
  | .packed p => p.tensors.length

/-- The decision that a column shows. -/
def FlatColumn.decision : FlatColumn D K V → Decision
  | .stacked _ => .tensor
  | .packed _ => .packed
  | _ => .list

theorem mem_of_head?_join {v : FlatValue D K V} (h : values.head?.join = some v) :
    some v ∈ values := by
  rw [Option.join_eq_some_iff] at h
  exact List.mem_of_head? h

theorem exists_of_decision_tensor {v : Option (FlatValue D K V)} (h : decision v = .tensor) :
    ∃ t, v = some (.tensor t) := by
  rcases v with - | (vs | t | p)
  · cases h
  · cases h
  · exact ⟨t, rfl⟩
  · cases h

theorem exists_of_decision_packed {v : Option (FlatValue D K V)} (h : decision v = .packed) :
    ∃ p, v = some (.packed p) := by
  rcases v with - | (vs | t | p)
  · cases h
  · cases h
  · cases h
  · exact ⟨p, rfl⟩

theorem Permuted.decision_eq {order : List ℕ} {column column' : FlatColumn D K V}
    (h : Permuted order column column') :
    column.decision = column'.decision := by
  cases column <;> cases column' <;> first | rfl | exact h.elim

section Column
variable [DecidableEq D] [ToString D] {maxLen : ℕ} {padValue : K} {order : List ℕ}
  {column column' : FlatColumn D K V}

theorem stackColumn_list (h : decision values.head?.join = .list) :
    stackColumn promote maxLen padValue values = .ok (.values values) := by
  unfold stackColumn
  rcases hfirst : values.head?.join with - | (vs | t | p)
  · rfl
  · rfl
  · rw [hfirst] at h
    cases h
  · rw [hfirst] at h
    cases h

theorem stackColumn_tensor {first : MessageTensor D K}
    (h : values.head?.join = some (.tensor first)) :
    stackColumn promote maxLen padValue values = .ok column ↔
      ∃ s, padAndStack maxLen padValue first values = .ok s ∧ column = .stacked s := by
  unfold stackColumn
  rw [h]
  refine bind_eq_ok.trans (exists_congr fun s => and_congr_right fun _ => ?_)
  constructor
  · intro h
    exact (Except.ok.inj h).symm
  · rintro rfl
    rfl

theorem stackColumn_packed {p : PackedTensor D K} (h : values.head?.join = some (.packed p)) :
    stackColumn promote maxLen padValue values = .ok column ↔
      ∃ q, PackedTensor.flattenedConcat promote values = .ok q ∧ column = .packed q := by
  unfold stackColumn
  rw [h]
  refine bind_eq_ok.trans (exists_congr fun s => and_congr_right fun _ => ?_)
  constructor
  · intro h
    exact (Except.ok.inj h).symm
  · rintro rfl
    rfl

/-- A column shows the decision of the first log. -/
theorem decision_stackColumn (h : stackColumn promote maxLen padValue values = .ok column) :
    column.decision = decision values.head?.join := by
  cases hdecision : decision values.head?.join with
  | list =>
    rw [stackColumn_list hdecision] at h
    obtain rfl := Except.ok.inj h
    rfl
  | tensor =>
    obtain ⟨t, ht⟩ := exists_of_decision_tensor hdecision
    obtain ⟨s, -, rfl⟩ := (stackColumn_tensor ht).mp h
    rfl
  | packed =>
    obtain ⟨p, hp⟩ := exists_of_decision_packed hdecision
    obtain ⟨q, -, rfl⟩ := (stackColumn_packed hp).mp h
    rfl

/-- A column has a row for each log. -/
theorem length_stackColumn (h : stackColumn promote maxLen padValue values = .ok column) :
    column.length = values.length := by
  cases hdecision : decision values.head?.join with
  | list =>
    rw [stackColumn_list hdecision] at h
    obtain rfl := Except.ok.inj h
    rfl
  | tensor =>
    obtain ⟨t, ht⟩ := exists_of_decision_tensor hdecision
    obtain ⟨s, hs, rfl⟩ := (stackColumn_tensor ht).mp h
    obtain ⟨-, -, hstack⟩ := padAndStack_eq_ok.mp hs
    obtain ⟨-, hrows, -⟩ := stackRows_eq_ok.mp hstack
    rw [FlatColumn.length, hrows, List.length_map]
  | packed =>
    obtain ⟨p, hp⟩ := exists_of_decision_packed hdecision
    obtain ⟨q, hq, rfl⟩ := (stackColumn_packed hp).mp h
    obtain ⟨ps, rfl, -, htensors⟩ := flattenedConcat_eq_ok.mp hq
    rw [FlatColumn.length, ← (mapM_eq_ok.mp htensors).length_eq, List.length_map]

/-- There is a column where what the first log decides can be done. -/
theorem exists_stackColumn
    (hwidth : ∀ t, some (.tensor t) ∈ values → t.value.shape ≠ [] ∧ t.value.width ≤ maxLen) :
    (∃ c, stackColumn promote maxLen padValue values = .ok c) ↔
      CanDo promote values (decision values.head?.join) := by
  cases hdecision : decision values.head?.join with
  | list => exact iff_of_true ⟨_, stackColumn_list hdecision⟩ trivial
  | tensor =>
    obtain ⟨t, ht⟩ := exists_of_decision_tensor hdecision
    rw [CanDo, ← exists_padAndStack padValue (mem_of_head?_join ht) hwidth]
    simp only [stackColumn_tensor ht]
    constructor
    · rintro ⟨c, s, hs, -⟩
      exact ⟨s, hs⟩
    · rintro ⟨s, hs⟩
      exact ⟨_, s, hs, rfl⟩
  | packed =>
    obtain ⟨p, hp⟩ := exists_of_decision_packed hdecision
    rw [CanDo, ← exists_flattenedConcat (List.ne_nil_of_mem (mem_of_head?_join hp))]
    simp only [stackColumn_packed hp]
    constructor
    · rintro ⟨c, q, hq, -⟩
      exact ⟨q, hq⟩
    · rintro ⟨q, hq⟩
      exact ⟨_, q, hq, rfl⟩

/-- The columns of two orders agree where the first logs decide the same. -/
theorem permuted_iff (horder : order.Perm (List.range values.length))
    (h : stackColumn promote maxLen padValue values = .ok column)
    (h' : stackColumn promote maxLen padValue (select values order) = .ok column') :
    Permuted order column column' ↔
      decision values.head?.join = decision (select values order).head?.join := by
  have hmem : ∀ v, v ∈ select values order → v ∈ values := fun v => (select_perm horder).mem_iff.mp
  constructor
  · intro hperm
    rw [← decision_stackColumn h, ← decision_stackColumn h']
    exact hperm.decision_eq
  · intro hsame
    cases hdecision : decision values.head?.join with
    | list =>
      rw [stackColumn_list hdecision] at h
      rw [stackColumn_list (hsame.symm.trans hdecision)] at h'
      obtain rfl := Except.ok.inj h
      obtain rfl := Except.ok.inj h'
      rfl
    | tensor =>
      obtain ⟨t, ht⟩ := exists_of_decision_tensor hdecision
      obtain ⟨t', ht'⟩ := exists_of_decision_tensor (hsame.symm.trans hdecision)
      obtain ⟨s, hs, rfl⟩ := (stackColumn_tensor ht).mp h
      obtain ⟨s', hs', rfl⟩ := (stackColumn_tensor ht').mp h'
      exact padAndStack_select hs hs' (hmem _ (mem_of_head?_join ht'))
    | packed =>
      obtain ⟨p, hp⟩ := exists_of_decision_packed hdecision
      obtain ⟨p', hp'⟩ := exists_of_decision_packed (hsame.symm.trans hdecision)
      obtain ⟨q, hq, rfl⟩ := (stackColumn_packed hp).mp h
      obtain ⟨q', hq', rfl⟩ := (stackColumn_packed hp').mp h'
      exact flattenedConcat_select hq hq'

end Column

end NemoRL.Data.Multimodal
