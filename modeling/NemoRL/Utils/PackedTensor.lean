import Mathlib
import NemoRL.Error
import NemoRL.Lib.Batching
import NemoRL.Lib.Except

/-!
# Packed broadcast of weights

A refit sends all weights through a collective. The producer packs the bytes of tensors
into buffers and broadcasts a buffer once it exceeds a target size; the consumer derives
the same buffers from the metadata of the tensors, receives them and cuts them up again.
Both sides rotate through a number of buffers of their own.

A broadcast is a collective: the `i`-th one of the consumer receives the bytes of the
`i`-th one of the producer, and is out of step when the sizes differ.

## Main definitions

* `packLoop` — the loop of both sides.
* `packedBroadcastProducer`, `packedBroadcastConsumer` — the two sides.
* `InStep` — both sides return, broadcast by broadcast in step, and every tensor arrives.
-/

namespace NemoRL.Utils

open Lib

/-! ## Tensors as bytes -/

/-- The element types of weights. -/
inductive Dtype
  | float64
  | float32
  | float16
  | bfloat16
  | float8E4m3fn
  | float8E5m2
  | int64
  | int32
  | int16
  | int8
  | uint8
  | bool
  deriving DecidableEq, Repr

/-- The bytes of one element. -/
def Dtype.itemsize : Dtype → ℕ
  | float64 | int64 => 8
  | float32 | int32 => 4
  | float16 | bfloat16 | int16 => 2
  | float8E4m3fn | float8E5m2 | int8 | uint8 | bool => 1

/-- The name of an element type in messages. -/
def Dtype.scalarType : Dtype → String
  | float64 => "Double"
  | float32 => "Float"
  | float16 => "Half"
  | bfloat16 => "BFloat16"
  | float8E4m3fn => "Float8_e4m3fn"
  | float8E5m2 => "Float8_e5m2"
  | int64 => "Long"
  | int32 => "Int"
  | int16 => "Short"
  | int8 => "Char"
  | uint8 => "Byte"
  | bool => "Bool"

abbrev Bytes := List UInt8

/-- A tensor with the bytes of its elements, in order. -/
structure WeightTensor where
  shape : List ℕ
  dtype : Dtype
  bytes : Bytes
  length_bytes : bytes.length = shape.prod * dtype.itemsize
  deriving DecidableEq, Repr

/-- The number of bytes that the metadata of a tensor asks for. -/
def tensorSize (shape : List ℕ) (dtype : Dtype) : ℕ := shape.prod * dtype.itemsize

/-- Why one side stops: it raises, or it makes a broadcast of a size that the other side
does not make. -/
inductive Halt
  | raised (error : PyError)
  | outOfStep (size : ℕ) (sent : Option ℕ)
  deriving DecidableEq, Repr

/-- The bytes of a tensor as one row. A tensor without dimensions has no row to view with
another element size. -/
def linearize (t : WeightTensor) : Except Halt Bytes :=
  if t.shape = [] ∧ t.dtype.itemsize ≠ 1 then
    .error (.raised ⟨.runtimeError, "self.dim() cannot be 0 to view " ++ t.dtype.scalarType ++
      " as Byte (different element sizes)"⟩)
  else .ok t.bytes

/-- View bytes that start at an offset of their storage as a tensor. -/
def viewAs (offset : ℕ) (bytes : Bytes) (dtype : Dtype) (shape : List ℕ) :
    Except Halt WeightTensor :=
  let ratio := dtype.itemsize
  if ratio ≠ 1 ∧ bytes.length % ratio ≠ 0 then
    .error (.raised ⟨.runtimeError,
      s!"self.size(-1) must be divisible by {ratio} to view Byte as " ++
      dtype.scalarType ++ s!" (different element sizes), but got {bytes.length}"⟩)
  else if ratio ≠ 1 ∧ offset % ratio ≠ 0 then
    .error (.raised ⟨.runtimeError,
      s!"self.storage_offset() must be divisible by {ratio} to view Byte as " ++
      dtype.scalarType ++ s!" (different element sizes), but got {offset}"⟩)
  else if shape = [] then
    .error (.raised ⟨.typeError, "view() received an invalid combination of arguments"⟩)
  else if h : bytes.length = shape.prod * dtype.itemsize then .ok ⟨shape, dtype, bytes, h⟩
  else .error (.raised ⟨.runtimeError,
    s!"shape '{shape}' is invalid for input of size {bytes.length / ratio}"⟩)

/-! ## The loop -/

/-- What a buffer collects, and its size. -/
structure PackBuffer (ε : Type) where
  entries : List ε := []
  size : ℕ := 0

section Loop
variable {ι ε σ : Type} (entry : ι → ℕ → Except Halt (ε × ℕ))
  (flush : List ε → ℕ → σ → Except Halt σ) (target : ℕ)

/-- Fill buffer `i` from an iterator. Returns whether the iterator stopped before the
buffer exceeded the target, and the items that are left. -/
def fillBuffer (i : ℕ) : List (PackBuffer ε) → List ι →
    Except Halt (List (PackBuffer ε) × Bool × List ι)
  | buffers, [] => .ok (buffers, true, [])
  | buffers, x :: xs =>
    let buffer := buffers.getD i {}
    match entry x buffer.size with
    | .error e => .error e
    | .ok (item, n) =>
      let buffers := buffers.set i ⟨buffer.entries ++ [item], buffer.size + n⟩
      if target < buffer.size + n then .ok (buffers, false, xs)
      else fillBuffer i buffers xs

theorem length_fillBuffer_lt {i : ℕ} {buffers buffers' : List (PackBuffer ε)} {items rest : List ι}
    (h : fillBuffer entry target i buffers items = .ok (buffers', false, rest)) :
    rest.length < items.length := by
  induction items generalizing buffers with
  | nil => simp [fillBuffer] at h
  | cons x xs ih =>
    rw [fillBuffer] at h
    cases hentry : entry x (buffers.getD i {}).size with
    | error e =>
      simp only [hentry] at h
      exact nomatch h
    | ok p =>
      simp only [hentry] at h
      split at h
      case isTrue =>
        simp only [Except.ok.injEq, Prod.mk.injEq] at h
        simp [← h.2.2]
      case isFalse =>
        have := ih h
        simp only [List.length_cons]
        omega

/-- Move to the next buffer, fill it and flush it, until the iterator stops. What the last
buffer holds then is flushed as well. -/
def packLoop (i : ℕ) (buffers : List (PackBuffer ε)) (items : List ι) (st : σ) : Except Halt σ :=
  if buffers.length = 0 then .error (.raised ⟨.zeroDivisionError, "integer modulo by zero"⟩)
  else
    let next := (i + 1) % buffers.length
    match _h : fillBuffer entry target next (buffers.set next {}) items with
    | .error e => .error e
    | .ok (filled, false, rest) =>
      (flush (filled.getD next {}).entries (filled.getD next {}).size st).bind fun st =>
        packLoop next filled rest st
    | .ok (filled, true, _) =>
      if (filled.getD next {}).entries ≠ [] then
        flush (filled.getD next {}).entries (filled.getD next {}).size st
      else .ok st
termination_by items.length
decreasing_by exact length_fillBuffer_lt entry target _h

/-- One round of the loop. -/
theorem packLoop_round {i : ℕ} {buffers : List (PackBuffer ε)} (hne : buffers.length ≠ 0)
    (items : List ι) (st : σ) :
    packLoop entry flush target i buffers items st =
      (fillBuffer entry target ((i + 1) % buffers.length)
        (buffers.set ((i + 1) % buffers.length) {}) items).bind fun p =>
          let buffer := p.1.getD ((i + 1) % buffers.length) {}
          if p.2.1 then
            if buffer.entries ≠ [] then flush buffer.entries buffer.size st else .ok st
          else
            (flush buffer.entries buffer.size st).bind fun st =>
              packLoop entry flush target ((i + 1) % buffers.length) p.1 p.2.2 st := by
  rw [packLoop, if_neg hne]
  simp only
  split
  case h_1 e h => rw [h]; rfl
  case h_2 filled rest h => rw [h]; rfl
  case h_3 filled rest h => rw [h]; rfl

end Loop

/-! ## The producer -/

/-- Add a tensor to a buffer of the producer. -/
def producerEntry (postIterFunc : String × WeightTensor → WeightTensor)
    (item : String × WeightTensor) (_ : ℕ) : Except Halt (Bytes × ℕ) :=
  (linearize (postIterFunc item)).map fun tensor => (tensor, tensor.length)

/-- Broadcast a buffer. -/
def producerFlush (packing : List Bytes) (_ : ℕ) (sent : List Bytes) : Except Halt (List Bytes) :=
  .ok (sent ++ [packing.flatten])

/-- Broadcast the tensors of an iterator. Returns the bytes of every broadcast. -/
def packedBroadcastProducer (iterator : List (String × WeightTensor))
    (postIterFunc : String × WeightTensor → WeightTensor) (targetPackedTensorSize numBuffers : ℕ) :
    Except Halt (List Bytes) :=
  packLoop (producerEntry postIterFunc) producerFlush targetPackedTensorSize 0
    (List.replicate numBuffers {}) iterator []

/-! ## The consumer -/

/-- The metadata of a tensor in a buffer. -/
structure TensorMeta where
  name : String
  shape : List ℕ
  dtype : Dtype
  offset : ℕ
  tensorSize : ℕ

/-- The state of the consumer: the broadcasts to come, the sizes of those it made and the
lists of tensors it handed over. -/
structure Receiver where
  incoming : List Bytes
  sizes : List ℕ := []
  handed : List (List (String × WeightTensor)) := []

/-- Receive a broadcast into a buffer of a given size. -/
def Receiver.broadcast (size : ℕ) (r : Receiver) : Except Halt (Bytes × Receiver) :=
  match r.incoming with
  | [] => .error (.outOfStep size none)
  | packed :: incoming =>
    if packed.length = size then
      .ok (packed, { r with incoming := incoming, sizes := r.sizes ++ [size] })
    else .error (.outOfStep size (some packed.length))

/-- Cut bytes into pieces of given sizes. Each piece keeps its offset. -/
def splitWithSizes (offset : ℕ) (packed : Bytes) : List ℕ → List (ℕ × Bytes)
  | [] => []
  | n :: sizes => (offset, packed.take n) :: splitWithSizes (offset + n) (packed.drop n) sizes

/-- Unpack a buffer into the tensors of a metadata list. -/
def unpackTensor (packed : Bytes) (metaDataList : List TensorMeta) :
    Except Halt (List (String × WeightTensor)) :=
  let sizes := metaDataList.map TensorMeta.tensorSize
  if sizes.sum ≠ packed.length then
    .error (.raised ⟨.runtimeError,
      s!"split_with_sizes expects split_sizes to sum exactly to {packed.length} " ++
      s!"(input tensor's size at dimension 0), but got split_sizes={sizes}"⟩)
  else
    (metaDataList.zip (splitWithSizes 0 packed sizes)).mapM fun p =>
      (viewAs p.2.1 p.2.2 p.1.dtype p.1.shape).map fun tensor => (p.1.name, tensor)

/-- Add the metadata of a tensor to a buffer of the consumer. -/
def consumerEntry (item : String × List ℕ × Dtype) (offset : ℕ) : Except Halt (TensorMeta × ℕ) :=
  let size := tensorSize item.2.1 item.2.2
  .ok (⟨item.1, item.2.1, item.2.2, offset, size⟩, size)

/-- Receive a buffer, unpack it and hand its tensors over. -/
def consumerFlush (metaDataList : List TensorMeta) (size : ℕ) (r : Receiver) :
    Except Halt Receiver :=
  (r.broadcast size).bind fun p =>
    (unpackTensor p.1 metaDataList).map fun unpacked =>
      { p.2 with handed := p.2.handed ++ [unpacked] }

/-- Receive the tensors that the metadata of an iterator describes. -/
def packedBroadcastConsumer (iterator : List (String × List ℕ × Dtype))
    (targetPackedTensorSize numBuffers : ℕ) (incoming : List Bytes) : Except Halt Receiver :=
  packLoop consumerEntry consumerFlush targetPackedTensorSize 0 (List.replicate numBuffers {})
    iterator { incoming := incoming }

/-! ## Both sides -/

/-- What the consumer is told about the tensors. -/
def metadata (iterator : List (String × WeightTensor))
    (postIterFunc : String × WeightTensor → WeightTensor) : List (String × List ℕ × Dtype) :=
  iterator.map fun item => (item.1, (postIterFunc item).shape, (postIterFunc item).dtype)

/-- Both sides return after the same broadcasts, and the consumer hands over every tensor
once, in order, as the producer packed it. -/
def InStep (iterator : List (String × WeightTensor))
    (postIterFunc : String × WeightTensor → WeightTensor)
    (target producerBuffers consumerBuffers : ℕ) : Prop :=
  ∃ sent r, packedBroadcastProducer iterator postIterFunc target producerBuffers = .ok sent ∧
    packedBroadcastConsumer (metadata iterator postIterFunc) target consumerBuffers sent = .ok r ∧
    r.incoming = [] ∧ r.sizes = sent.map List.length ∧
    r.handed.flatten = iterator.map fun item => (item.1, postIterFunc item)

end NemoRL.Utils
