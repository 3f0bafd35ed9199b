import Mathlib.Data.List.Dedup
import NemoRL.Error
import NemoRL.Lib.Dict
import NemoRL.Lib.TensorCat

/-!
# Multimodal message logs

Beside texts and tensors the messages of a log may hold packed tensors: lists of tensors, some of
them left out, with the dimension they are packed along. A batch of message logs is flattened as
for texts, where each key is handled by what the first log has for it: packed tensors are
flattened to one tensor a log, tensors are padded and stacked, anything else stays a list.

The tensors have any number of dimensions. How two types of numbers are promoted when tensors are
concatenated is a parameter.

## Main definitions

* `PackedTensor` — packed tensors.
* `messageLogToFlatMessages` — the flat message of one log.
* `batchedMessageLogToFlatMessage` — the flat messages of a batch.
-/

namespace NemoRL.Data.Multimodal

open Lib

variable {D K V : Type}

/-- A tensor of a message. -/
structure MessageTensor (D K : Type) where
  dtype : D
  device : String
  value : Tensor K
  deriving DecidableEq

/-- Packed tensors, with the dimension along which they are packed. -/
structure PackedTensor (D K : Type) where
  tensors : List (Option (MessageTensor D K))
  dimToPack : ℤ
  tensors_ne_nil : tensors ≠ []
  deriving DecidableEq

/-- Wrap tensors. -/
def PackedTensor.init (tensors : List (Option (MessageTensor D K))) (dimToPack : ℤ) :
    Except PyError (PackedTensor D K) :=
  if h : tensors = [] then
    .error ⟨.assertionError, "Input tensors to PackedTensor must be a non-empty list"⟩
  else .ok ⟨tensors, dimToPack, h⟩

/-- A value of a message. What is no tensor comes with the name of its type. -/
inductive MessageValue (D K V : Type)
  | other (type : String) (v : V)
  | tensor (t : MessageTensor D K)
  | packed (p : PackedTensor D K)
  deriving DecidableEq

/-- A message. -/
abbrev Message (D K V : Type) := List (String × MessageValue D K V)

/-- The name of the type of a value. -/
def MessageValue.typeName : MessageValue D K V → String
  | other type _ => type
  | tensor _ => "Tensor"
  | packed _ => "PackedTensor"

/-! ## Concatenation -/

/-- Raise when tensors cannot be concatenated along dimension `d` of `dims`. -/
def checkCat (dim d : ℤ) (dims : ℕ) (first : MessageTensor D K) (rest : List (MessageTensor D K))
    (kept : List (Tensor K)) : Except PyError Unit := do
  if (first :: rest).any fun t => t.value.shape.isEmpty then
    throw ⟨.runtimeError, "zero-dimensional tensor cannot be concatenated"⟩
  if ¬∀ t ∈ rest, t.device = first.device then
    throw ⟨.runtimeError, "Expected all tensors to be on the same device"⟩
  if d < 0 ∨ dims ≤ d then
    throw ⟨.indexError, s!"Dimension out of range (expected to be in range of [{-(dims : ℤ)}, " ++
      s!"{(dims : ℤ) - 1}], but got {dim})"⟩
  if ¬∀ t ∈ kept, t.shape.length = dims then
    throw ⟨.runtimeError, "Tensors must have same number of dimensions"⟩

/-- Concatenate tensors along a dimension. Empty vectors are left out. -/
def torchCat (promote : D → D → D) (dim : ℤ) :
    List (MessageTensor D K) → Except PyError (MessageTensor D K)
  | [] => .error ⟨.runtimeError, "torch.cat(): expected a non-empty list of Tensors"⟩
  | first :: rest => do
    let dtype := rest.foldl (fun d t => promote d t.dtype) first.dtype
    let kept := ((first :: rest).map MessageTensor.value).filter fun t => t.shape ≠ [0]
    let dims := ((kept.head?.map fun t => t.shape.length).getD 1 : ℕ)
    let d := if dim < 0 then dim + dims else dim
    checkCat dim d dims first rest kept
    if kept.isEmpty then return ⟨dtype, first.device, Tensor.vector []⟩
    match catAlong d.toNat kept with
    | some t => return ⟨dtype, first.device, t⟩
    | none => throw ⟨.runtimeError, s!"Sizes of tensors must match except in dimension {d}."⟩

/-- The tensors that are not left out, as one tensor. -/
def PackedTensor.asTensor (promote : D → D → D) (p : PackedTensor D K) :
    Except PyError (Option (MessageTensor D K)) := do
  let nonNoneTensors := p.tensors.filterMap id
  if nonNoneTensors.isEmpty then return none
  let t ← torchCat promote p.dimToPack nonNoneTensors
  return some t

/-- The packed tensors of values that are all packed and have one dimension to pack. -/
def sameDimToPack (ps : List (PackedTensor D K)) : Except PyError ℤ :=
  match ps with
  | [] => .error ⟨.assertionError, "All packed tensors must have the same dim_to_pack"⟩
  | first :: rest =>
    if ∀ p ∈ rest, p.dimToPack = first.dimToPack then .ok first.dimToPack
    else .error ⟨.assertionError, "All packed tensors must have the same dim_to_pack"⟩

/-- A value with a dimension to pack. -/
def MessageValue.asPacked : MessageValue D K V → Except PyError (PackedTensor D K)
  | packed p => .ok p
  | v => .error ⟨.attributeError, s!"'{v.typeName}' object has no attribute 'dim_to_pack'"⟩

/-- The tensors of packed tensors, packed together. -/
def PackedTensor.concat (fromPackedTensors : List (MessageValue D K V)) :
    Except PyError (PackedTensor D K) := do
  let packed ← fromPackedTensors.mapM MessageValue.asPacked
  let dimToPack ← sameDimToPack packed
  PackedTensor.init (packed.flatMap PackedTensor.tensors) dimToPack

/-! ## The flat message of a log -/

/-- A value of a flat message: the values of the messages that have the key, or their
concatenation. -/
inductive FlatValue (D K V : Type)
  | values (vs : List (MessageValue D K V))
  | tensor (t : MessageTensor D K)
  | packed (p : PackedTensor D K)
  deriving DecidableEq

/-- An element of a concatenation of tensors. -/
def catElement (p : MessageValue D K V × ℕ) : Except PyError (MessageTensor D K) :=
  match p.1 with
  | .tensor t => .ok t
  | v => .error ⟨.typeError,
      s!"expected Tensor as element {p.2} in argument 0, but got {v.typeName}"⟩

/-- The text of an error mentions a number of dimensions. -/
def mentionsDimensions (e : PyError) : Prop :=
  e.kind = .runtimeError ∧ (e.message.splitOn "same number of dimensions").length ≠ 1

instance (e : PyError) : Decidable (mentionsDimensions e) :=
  inferInstanceAs (Decidable (_ ∧ _))

/-- Concatenate the tensors of a key. -/
def catValues (promote : D → D → D) (key : String) (values : List (MessageValue D K V)) :
    Except PyError (MessageTensor D K) := do
  let tensors ← values.zipIdx.mapM catElement
  match torchCat promote 0 tensors with
  | .ok t => return t
  | .error e =>
    if mentionsDimensions e then
      let sizes := tensors.map fun t => s!"torch.Size({t.value.shape})"
      throw ⟨.runtimeError, s!"tensors for key='{key}' must have same number of dimensions: " ++
        s!"{sizes}"⟩
    else throw e

/-- The value of a key. -/
def concatValues (promote : D → D → D) (key : String) (values : List (MessageValue D K V)) :
    Except PyError (FlatValue D K V) :=
  match values.head? with
  | some (.tensor _) => do return .tensor (← catValues promote key values)
  | some (.packed _) =>
    match PackedTensor.concat values with
    | .ok p => .ok (.packed p)
    | .error _ => .error ⟨.runtimeError,
        s!"Error concatenating packed multimodal data for key='{key}'"⟩
  | _ => .ok (.values values)

/-- A flat message. -/
abbrev FlatMessage (D K V : Type) := List (String × FlatValue D K V)

/-- The flat message of a message log. -/
def messageLogToFlatMessages (promote : D → D → D) (messageLog : List (Message D K V)) :
    Except PyError (FlatMessage D K V) :=
  let allKeys := (messageLog.flatMap fun msg => msg.map Prod.fst).dedup
  allKeys.mapM fun key => do
    let value ← concatValues promote key (messageLog.filterMap fun msg => msg.lookup key)
    return (key, value)

/-! ## The flat messages of a batch -/

/-- Tensors that are padded and stacked. -/
structure StackedTensor (D K : Type) where
  dtype : D
  device : String
  value : Rect K
  deriving DecidableEq

/-- A column of a batch of flat messages. -/
inductive FlatColumn (D K V : Type)
  /-- The first values of the logs that have the key, of a batch without tensors. -/
  | firstValues (vs : List (Option (MessageValue D K V)))
  /-- The values of the logs that have the key. -/
  | values (vs : List (Option (FlatValue D K V)))
  | stacked (t : StackedTensor D K)
  | packed (p : PackedTensor D K)
  deriving DecidableEq

/-- The length of a tensor of a flat message. -/
def FlatValue.size : FlatValue D K V → ℕ
  | tensor t => t.value.width
  | _ => 0

/-- Whether a value of a flat message is a tensor. -/
def FlatValue.isTensor : FlatValue D K V → Bool
  | tensor _ => true
  | _ => false

/-- A value of a flat message with a dimension to pack. -/
def asPacked : Option (FlatValue D K V) → Except PyError (PackedTensor D K)
  | some (.packed p) => .ok p
  | some (.tensor _) => .error ⟨.attributeError, "'Tensor' object has no attribute 'dim_to_pack'"⟩
  | some (.values _) => .error ⟨.attributeError, "'list' object has no attribute 'dim_to_pack'"⟩
  | none => .error ⟨.attributeError, "'NoneType' object has no attribute 'dim_to_pack'"⟩

/-- One tensor for each of the packed tensors. -/
def PackedTensor.flattenedConcat (promote : D → D → D)
    (fromPackedTensors : List (Option (FlatValue D K V))) : Except PyError (PackedTensor D K) := do
  let packed ← fromPackedTensors.mapM asPacked
  let dimToPack ← sameDimToPack packed
  let tensors ← packed.mapM (PackedTensor.asTensor promote)
  PackedTensor.init tensors dimToPack

/-- A value with a type of numbers. -/
def asMessageTensor : FlatValue D K V → Except PyError (MessageTensor D K)
  | .tensor t => .ok t
  | .packed _ => .error ⟨.attributeError, "'PackedTensor' object has no attribute 'dtype'"⟩
  | .values _ => .error ⟨.attributeError, "'list' object has no attribute 'dtype'"⟩

/-- The tensor of a log, which is empty when the log has none. -/
def filledValue : Option (FlatValue D K V) → Tensor K
  | some (.tensor t) => t.value
  | _ => Tensor.vector []

/-- Stack tensors of one shape. -/
def stackRows (tensors : List (Tensor K)) : Except PyError (Rect K) :=
  match tensors with
  | [] => .error ⟨.runtimeError, "stack expects a non-empty TensorList"⟩
  | first :: rest =>
    if h : ∀ t ∈ first :: rest, t.shape = first.shape then .ok ⟨first.shape, first :: rest, h⟩
    else .error ⟨.runtimeError, "stack expects each tensor to be equal size"⟩

section Batch
variable [DecidableEq D] [ToString D]

/-- Raise when tensors differ in their types of numbers or in their devices. -/
def validateTensorConsistency (first : MessageTensor D K) (tensors : List (MessageTensor D K)) :
    Except PyError Unit := do
  if ¬∀ t ∈ tensors, t.dtype = first.dtype then
    throw ⟨.runtimeError,
      s!"expected consistent types but got: {tensors.map MessageTensor.dtype}"⟩
  if ¬∀ t ∈ tensors, t.device = first.device then
    throw ⟨.runtimeError,
      s!"expected tensors on the same device but got: {tensors.map MessageTensor.device}"⟩

/-- Pad and stack the tensors of the logs, the first of which has one. -/
def padAndStack (maxLen : ℕ) (padValue : K) (first : MessageTensor D K)
    (values : List (Option (FlatValue D K V))) : Except PyError (StackedTensor D K) := do
  let tensors ← (values.filterMap id).mapM asMessageTensor
  validateTensorConsistency first tensors
  let stacked ← stackRows (values.map fun v => (filledValue v).padTo maxLen padValue)
  return ⟨first.dtype, first.device, stacked⟩

/-- The column of a key, by what the first log has for it. -/
def stackColumn (promote : D → D → D) (maxLen : ℕ) (padValue : K)
    (values : List (Option (FlatValue D K V))) : Except PyError (FlatColumn D K V) :=
  match values.head?.join with
  | some (.packed _) => do return .packed (← PackedTensor.flattenedConcat promote values)
  | some (.tensor first) => do return .stacked (← padAndStack maxLen padValue first values)
  | _ => .ok (.values values)

/-- The first of the values of a key. -/
def firstValue : Option (FlatValue D K V) → Except PyError (Option (MessageValue D K V))
  | none => .ok none
  | some (.values (v :: _)) => .ok (some v)
  | some (.values []) => .error ⟨.indexError, "list index out of range"⟩
  -- read only in a batch without tensors
  | some (.tensor _) => .error ⟨.indexError, "index 0 is out of bounds for dimension 0"⟩
  | some (.packed _) => .error ⟨.typeError, "'PackedTensor' object is not subscriptable"⟩

/-- The length of the longest tensor of a flat message. -/
def seqLen (flat : FlatMessage D K V) : ℕ := longest (flat.map fun p => p.2.size)

/-- The length of the longest tensor, rounded up to a multiple. -/
def paddedMaxLen (sequencedLists : List (FlatMessage D K V))
    (makeSequenceLengthDivisibleBy : ℕ) : Except PyError ℕ :=
  let maxLen := longest (sequencedLists.map seqLen)
  if makeSequenceLengthDivisibleBy = 0 then
    .error ⟨.zeroDivisionError, "integer modulo by zero"⟩
  else if maxLen % makeSequenceLengthDivisibleBy ≠ 0 then
    .ok ((maxLen / makeSequenceLengthDivisibleBy + 1) * makeSequenceLengthDivisibleBy)
  else .ok maxLen

/-- Whether a flat message has a tensor. -/
def hasTensor (flat : FlatMessage D K V) : Bool := flat.any fun p => p.2.isTensor

/-- The first values of a key, with the key. -/
def firstValuesColumn (sequencedLists : List (FlatMessage D K V)) (key : String) :
    Except PyError (String × FlatColumn D K V) := do
  let vs ← sequencedLists.mapM fun seq => firstValue (seq.lookup key)
  return (key, .firstValues vs)

/-- The column of a key, with the key. -/
def flatColumn [Zero K] (promote : D → D → D) (padValueDict : Option (List (String × K)))
    (maxLen : ℕ) (sequencedLists : List (FlatMessage D K V)) (key : String) :
    Except PyError (String × FlatColumn D K V) := do
  let padValue := ((padValueDict.getD []).lookup key).getD 0
  let column ← stackColumn promote maxLen padValue (sequencedLists.map fun seq => seq.lookup key)
  return (key, column)

/-- The keys of flat messages. -/
def flatKeys (sequencedLists : List (FlatMessage D K V)) : List String :=
  (sequencedLists.flatMap fun seq => seq.map Prod.fst).dedup

/-- The flat messages of a batch, and the lengths of their longest tensors. -/
def batchedMessageLogToFlatMessage [Zero K] (promote : D → D → D)
    (padValueDict : Option (List (String × K))) (makeSequenceLengthDivisibleBy : ℕ)
    (messageLogBatch : List (List (Message D K V))) :
    Except PyError (List (String × FlatColumn D K V) × List ℕ) := do
  if messageLogBatch.isEmpty then return ([], [])
  let sequencedLists ← messageLogBatch.mapM (messageLogToFlatMessages promote)
  let allKeys := flatKeys sequencedLists
  let maxLen ← paddedMaxLen sequencedLists makeSequenceLengthDivisibleBy
  if ¬ sequencedLists.any hasTensor then
    let columns ← allKeys.mapM (firstValuesColumn sequencedLists)
    return (columns, [])
  let columns ← allKeys.mapM (flatColumn promote padValueDict maxLen sequencedLists)
  return (columns, sequencedLists.map seqLen)

end Batch
end NemoRL.Data.Multimodal
