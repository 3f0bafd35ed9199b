import Mathlib.Data.Finset.Sort
import Mathlib.Data.String.Basic
import NemoRL.Data.Multimodal
import NemoRL.Distributed.ColumnSharding
import NemoRL.Lib.RowConcat

/-!
# Merging batches

`fromBatches` merges a list of batches into one. The keys are merged one after another, in their
sorted order, and the first value of a key decides how its values are merged: lists and packed
tensors are joined, vectors are concatenated, matrices are taken apart into rows, which are padded
to the longest, and tensors with more dimensions are padded as they are to the longest sequence
and then concatenated. A batch without rows may lack a key.

Tensors have the batch dimension, a type of numbers and a device. What becomes of numbers when
types are mixed is a parameter. Values of another type have none of the attributes of a tensor;
arrays of other libraries are left out.

## Main definitions

* `BatchColumn`, `Batch` — the values of a batch.
* `fromBatches` — merge batches.
* `slice` — the rows of a batch from one position up to another.
-/

namespace NemoRL.Distributed.FromBatches

open Lib Data.Multimodal

variable {D K V : Type}

/-! ## Values -/

/-- A tensor with a batch dimension. -/
structure BatchTensor (D K : Type) where
  dtype : D
  device : String
  value : Rect K

/-- What becomes of numbers of different types. -/
structure Promotion (D K : Type) where
  /-- The type of a concatenation of numbers of two types. -/
  promote : D → D → D
  /-- A number of the first type as one of the second. -/
  convert : D → D → K → K

/-- The values of a batch under a key. -/
inductive BatchColumn (D K V : Type)
  | list (items : List (MessageValue D K V))
  | packed (t : Distributed.PackedTensor (MessageTensor D K))
  | tensor (t : BatchTensor D K)
  | other (type : String) (items : List (MessageValue D K V))

/-- A batch. -/
abbrev Batch (D K V : Type) := List (String × BatchColumn D K V)

/-- The rows of a tensor. -/
def BatchTensor.rows (t : BatchTensor D K) : List (MessageTensor D K) :=
  t.value.rows.map fun row => ⟨t.dtype, t.device, row⟩

namespace BatchColumn

/-- The name of the type of a value. -/
def typeName : BatchColumn D K V → String
  | list _ => "list"
  | packed _ => "PackedTensor"
  | tensor _ => "Tensor"
  | other type _ => type

/-- The number of rows. -/
def length : BatchColumn D K V → ℕ
  | list items => items.length
  | packed t => t.tensors.length
  | tensor t => t.value.rows.length
  | other _ items => items.length

/-- What a loop over a value goes through. -/
def iterate : BatchColumn D K V → Except PyError (List (MessageValue D K V))
  | list items => .ok items
  | packed _ => .error ⟨.typeError, "'PackedTensor' object is not iterable"⟩
  | tensor t => .ok (t.rows.map MessageValue.tensor)
  | other _ items => .ok items

/-- A value with a dimension to pack. -/
def asPacked : BatchColumn D K V → Except PyError (Distributed.PackedTensor (MessageTensor D K))
  | packed t => .ok t
  | c => .error ⟨.attributeError, s!"'{c.typeName}' object has no attribute 'dim_to_pack'"⟩

/-- A value with a shape. -/
def asTensor : BatchColumn D K V → Except PyError (BatchTensor D K)
  | tensor t => .ok t
  | c => .error ⟨.attributeError, s!"'{c.typeName}' object has no attribute 'shape'"⟩

/-- The number of dimensions. -/
def ndim : BatchColumn D K V → Except PyError ℕ
  | tensor t => .ok t.value.dim
  | c => .error ⟨.attributeError, s!"'{c.typeName}' object has no attribute 'ndim'"⟩

end BatchColumn

/-- The number of rows of a batch, that of its first value. -/
def batchSize : Batch D K V → ℕ
  | [] => 0
  | (_, value) :: _ => value.length

/-! ## Tensors -/

/-- Raise when tensors cannot be concatenated along the batch dimension. -/
def checkCat (first : BatchTensor D K) (rest : List (BatchTensor D K)) : Except PyError Unit := do
  if ¬∀ t ∈ rest, t.device = first.device then
    throw ⟨.runtimeError, "Expected all tensors to be on the same device"⟩
  if ¬∀ t ∈ rest, t.value.dim = first.value.dim then
    throw ⟨.runtimeError, "Tensors must have same number of dimensions"⟩

/-- The rows of a tensor as numbers of type `dtype`. -/
def BatchTensor.convert (promotion : Promotion D K) (dtype : D) (t : BatchTensor D K) : Rect K :=
  t.value.map (promotion.convert t.dtype dtype)

theorem rowShape_convert {first : BatchTensor D K} {rest : List (BatchTensor D K)}
    (promotion : Promotion D K) (dtype : D)
    (h : ∀ t ∈ rest, t.value.rowShape = first.value.rowShape) :
    ∀ r ∈ (first :: rest).map (BatchTensor.convert promotion dtype),
      r.rowShape = first.value.rowShape := by
  intro r hr
  obtain ⟨t, ht, rfl⟩ := List.mem_map.mp hr
  rcases List.mem_cons.mp ht with rfl | ht
  · rfl
  · exact h t ht

/-- Concatenate tensors along the batch dimension. -/
def cat (promotion : Promotion D K) :
    List (BatchTensor D K) → Except PyError (BatchTensor D K)
  | [] => .error ⟨.runtimeError, "torch.cat(): expected a non-empty list of Tensors"⟩
  | first :: rest => do
    let dtype := rest.foldl (fun d t => promotion.promote d t.dtype) first.dtype
    checkCat first rest
    if h : ∀ t ∈ rest, t.value.rowShape = first.value.rowShape then
      return ⟨dtype, first.device,
        Rect.concat first.value.rowShape _ (rowShape_convert promotion dtype h)⟩
    else throw ⟨.runtimeError, "Sizes of tensors must match except in dimension 0."⟩

/-- A tensor with one dimension, of the elements of `row`. -/
def flatten : MessageValue D K V → Except PyError (MessageTensor D K)
  | .tensor row => .ok { row with value := Tensor.vector row.value.data }
  | row => .error ⟨.attributeError, s!"'{row.typeName}' object has no attribute 'flatten'"⟩

/-- Stack vectors, padded to the longest. The first decides the type and the device. -/
def padSequence (promotion : Promotion D K) (paddingValue : K) :
    List (MessageTensor D K) → Except PyError (BatchTensor D K)
  | [] => .error ⟨.runtimeError, "received an empty list of sequences"⟩
  | first :: rest =>
    let converted := (first :: rest).map fun t =>
      t.value.data.map (promotion.convert t.dtype first.dtype)
    .ok ⟨first.dtype, first.device, padVectors paddingValue converted⟩

/-- Whether all values have one dimension. -/
def allVectors : List (BatchColumn D K V) → Except PyError Bool
  | [] => .ok true
  | c :: cs => do
    let ndim ← c.ndim
    if ndim = 1 then allVectors cs else return false

/-- The size of the dimension behind the batch dimension. -/
def seqLen (c : BatchColumn D K V) : Except PyError ℕ := do
  let t ← c.asTensor
  match t.value.rowShape with
  | [] => .error ⟨.indexError, "tuple index out of range"⟩
  | size :: _ => return size

/-- Pad tensors to the longest sequence and concatenate them. -/
def catPadded (promotion : Promotion D K) (padValue : K) (columns : List (BatchColumn D K V)) :
    Except PyError (BatchTensor D K) := do
  let lengths ← columns.mapM seqLen
  let tensors ← columns.mapM BatchColumn.asTensor
  cat promotion (tensors.map fun t => { t with value := t.value.padTo (longest lengths) padValue })

/-- Pad the rows of tensors to the longest and stack them. -/
def stackRows (promotion : Promotion D K) (padValue : K) (columns : List (BatchColumn D K V)) :
    Except PyError (BatchTensor D K) := do
  let rows ← columns.mapM fun c => do
    let rows ← c.iterate
    rows.mapM flatten
  padSequence promotion padValue rows.flatten

/-! ## Batches -/

/-- Merge the values of a key. -/
def stackColumns (promotion : Promotion D K) (padValue : K) (columns : List (BatchColumn D K V)) :
    Except PyError (BatchColumn D K V) :=
  match columns with
  | [] => .error ⟨.indexError, "list index out of range"⟩
  | .list _ :: _ => do
    let items ← columns.mapM BatchColumn.iterate
    return .list items.flatten
  | .packed _ :: _ => do
    let packed ← columns.mapM BatchColumn.asPacked
    let t ← PackedTensor.concat packed
    return .packed t
  | .other type _ :: _ =>
    .error ⟨.attributeError, s!"'{type}' object has no attribute 'ndim'"⟩
  | .tensor first :: _ => do
    if ← allVectors columns then
      let tensors ← columns.mapM BatchColumn.asTensor
      let t ← cat promotion tensors
      return .tensor t
    else if 3 ≤ first.value.dim then
      let t ← catPadded promotion padValue columns
      return .tensor t
    else
      let t ← stackRows promotion padValue columns
      return .tensor t

/-- The keys of all batches, sorted. -/
def sortedKeys (batches : List (Batch D K V)) : List String :=
  (batches.flatMap fun item => item.map Prod.fst).toFinset.sort (· ≤ ·)

/-- The batches with rows that lack a key. -/
def missingNonemptyBatches (batches : List (Batch D K V)) (k : String) : List ℕ :=
  (batches.zipIdx.filter fun p => (p.1.lookup k).isNone && batchSize p.1 != 0).map Prod.snd

/-- The value that a key is padded with. -/
def padValueOf [Zero K] (padValueDict : Option (List (String × K))) (k : String) : K :=
  ((padValueDict.getD []).lookup k).getD 0

/-- Merge the values of one key. -/
def mergeKey [Zero K] (promotion : Promotion D K) (batches : List (Batch D K V))
    (padValueDict : Option (List (String × K))) (k : String) :
    Except PyError (String × BatchColumn D K V) := do
  if missingNonemptyBatches batches k ≠ [] then
    throw ⟨.keyError,
      s!"Key '{k}' is missing from non-empty batches {missingNonemptyBatches batches k}."⟩
  let column ← stackColumns promotion (padValueOf padValueDict k)
    (batches.filterMap fun item => item.lookup k)
  return (k, column)

/-- Merge batches. -/
def fromBatches [Zero K] (promotion : Promotion D K) (batches : List (Batch D K V))
    (padValueDict : Option (List (String × K))) : Except PyError (Batch D K V) :=
  (sortedKeys batches).mapM (mergeKey promotion batches padValueDict)

/-! ## Slicing -/

/-- The rows of a value from `start` up to `stop`. -/
def sliceColumn (key : String) (start stop : ℕ) :
    BatchColumn D K V → Except PyError (BatchColumn D K V)
  | .packed t => do
    let t ← t.slice (List.range' start (stop - start))
    return .packed t
  | .tensor t =>
    if stop ≤ t.value.rows.length then
      .ok (.tensor { t with value := t.value.slice start stop })
    else
      .error ⟨.assertionError, s!"end: {stop} is greater than the shape of the tensor: " ++
        s!"{t.value.rows.length} for key: {key}"⟩
  | .list items => .ok (.list (Lib.slice items start stop))
  | .other type items => .ok (.other type (Lib.slice items start stop))

/-- The rows of a batch from `start` up to `stop`. -/
def slice (data : Batch D K V) (start stop : ℕ) : Except PyError (Batch D K V) :=
  data.mapM fun p => do
    let c ← sliceColumn p.1 start stop p.2
    return (p.1, c)

end NemoRL.Distributed.FromBatches
