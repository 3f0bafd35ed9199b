import Mathlib
import NemoRL.Lib.Segments
import NemoRL.Lib.Transition
import NemoRL.Utils.PackedTensor

/-!
# Streaming weights between two processes

The producer packs weights into one half of a buffer while the consumer reads the other half.
A group of weights is sent as a handle to its half with the names of the weights; the consumer
finds their sizes in its own table and acknowledges the group once it has loaded it. The
producer waits for the acknowledgement of a group only before it sends the next one.

Both sides are steps of one transition system, so that they interleave in every way. The halves
are shared memory with any contents at first. A view of a half has no contents of its own: it
is read when the weight is loaded. The messages of the two directions are queues, and the
producer's socket refuses to send twice without a reply between. Timeouts are left out.

## Main definitions

* `streamWeightsViaIpcZmqImpl` — a step of the producer.
* `updateWeightsViaIpcZmq` — a step of the consumer.
* `ipcStream` — the system of both.
-/

namespace NemoRL.Utils

open Lib

/-- A size rounded up to the default alignment. -/
def calculateAlignedSize (sizeBytes : ℕ) : ℕ :=
  let alignment := 512
  (sizeBytes + alignment - 1) / alignment * alignment

/-- A weight with its name. -/
abbrev NamedWeight : Type := String × WeightTensor

/-- The two halves of the buffer. -/
inductive Half
  | a
  | b
  deriving DecidableEq, Repr

/-- The other half. -/
def Half.other : Half → Half
  | a => b
  | b => a

/-- What the producer sends. -/
inductive Request
  /-- A half of the buffer with the names of the weights in it, and the bytes used. -/
  | group (buffer : Half) (paramNames : List String) (usedBytes : ℕ)
  | complete
  deriving DecidableEq, Repr

/-- Where the producer is. A group is sent when there is no room for the next weight, and at
the end. -/
inductive ProducerPc
  | next
  | pack (weight : NamedWeight)
  /-- Before a group is sent, until the group before it is acknowledged. -/
  | awaitGroup (nextWeight : Option NamedWeight)
  | sendGroup (nextWeight : Option NamedWeight)
  | awaitLast
  | sendComplete
  | awaitComplete
  | done
  | failed (e : PyError)
  deriving DecidableEq, Repr

/-- The variables of the producer. -/
structure Producer where
  pc : ProducerPc
  params : List NamedWeight
  currentBuffer : Half := .a
  usedBytes : ℕ := 0
  paramNames : List String := []
  awaitRecv : Bool := false
  countOfGroups : ℕ := 0
  deriving DecidableEq, Repr

/-- A view of a half of the buffer. -/
structure View where
  key : String
  offset : ℕ
  shape : List ℕ
  dtype : Dtype
  deriving DecidableEq, Repr

/-- Where the consumer is, with the variables in use there. -/
inductive ConsumerPc
  | recv
  /-- Viewing the weights of a group. -/
  | view (buffer : Half) (keys : List String) (usedBytes offset : ℕ) (weights : List View)
  /-- Loading the weights that were viewed. -/
  | load (buffer : Half) (weights : List View)
  | finish
  | done
  | failed (e : PyError)
  deriving DecidableEq, Repr

/-- The state of both sides and of what they share. -/
structure IpcState where
  bufferA : Bytes
  bufferB : Bytes
  producer : Producer
  consumer : ConsumerPc
  requests : List Request := []
  /-- The acknowledgements on their way. -/
  acks : ℕ := 0
  /-- Whether the socket of the producer has a request without a reply. -/
  reqBusy : Bool := false
  /-- The weights that the consumer has loaded. -/
  loaded : List NamedWeight := []
  /-- The halves of the groups that were sent so far. -/
  sent : List Half := []
  /-- How many acknowledgements the producer has received. -/
  acksReceived : ℕ := 0
  deriving DecidableEq, Repr

namespace IpcState

/-- A half of the buffer. -/
def buffer (s : IpcState) : Half → Bytes
  | .a => s.bufferA
  | .b => s.bufferB

/-- Write a half of the buffer. -/
def setBuffer (s : IpcState) (bytes : Bytes) : Half → IpcState
  | .a => { s with bufferA := bytes }
  | .b => { s with bufferB := bytes }

/-- Move the producer on. -/
def goto (s : IpcState) (pc : ProducerPc) : IpcState :=
  { s with producer := { s.producer with pc := pc } }

/-- A socket used out of turn. -/
def outOfTurn : PyError :=
  ⟨.runtimeError,
    "ZMQ error during weight streaming: Operation cannot be accomplished in current state"⟩

/-- Wait for a reply. Nothing happens until there is one. -/
def recvReply (s : IpcState) (pc : ProducerPc) : Option IpcState :=
  if !s.reqBusy then some (s.goto (.failed outOfTurn))
  else if s.acks = 0 then none
  else some { s.goto pc with
    acks := s.acks - 1, reqBusy := false, acksReceived := s.acksReceived + 1 }

/-- Send a request. -/
def sendRequest (s : IpcState) (request : Request) : IpcState :=
  if s.reqBusy then s.goto (.failed outOfTurn)
  else { s with requests := s.requests ++ [request], reqBusy := true }

end IpcState

/-! ## The producer -/

/-- Write bytes into a buffer. -/
def writeAt (buffer : Bytes) (offset : ℕ) (bytes : Bytes) : Bytes :=
  buffer.take offset ++ bytes ++ buffer.drop (offset + bytes.length)

/-- Pack a weight into a buffer behind the bytes in use. -/
def packTensor (buffer : Bytes) (tensor : WeightTensor) (usedBytes : ℕ) : Except PyError Bytes :=
  if usedBytes + tensor.bytes.length ≤ buffer.length then
    .ok (writeAt buffer usedBytes tensor.bytes)
  else .error ⟨.runtimeError, s!"The size of tensor a ({buffer.length - usedBytes}) must match " ++
    s!"the size of tensor b ({tensor.bytes.length}) at non-singleton dimension 0"⟩

/-- The producer after a group was sent: with a weight that had no room, the other half takes
over. -/
def Producer.groupSent (p : Producer) : Option NamedWeight → Producer
  | none => { p with pc := .awaitLast, awaitRecv := true, countOfGroups := p.countOfGroups + 1 }
  | some weight =>
    { p with
      pc := .pack weight
      currentBuffer := p.currentBuffer.other
      usedBytes := 0
      paramNames := []
      awaitRecv := true
      countOfGroups := p.countOfGroups + 1 }

/-- A step of the producer. `half` is the size of a half of the buffer. -/
def streamWeightsViaIpcZmqImpl (half : ℕ) (s : IpcState) : Option IpcState :=
  let p := s.producer
  match p.pc with
  | .next =>
    match p.params with
    | [] => some (s.goto (if p.paramNames = [] then .awaitLast else .awaitGroup none))
    | (name, tensor) :: params =>
      let alignedSize := calculateAlignedSize tensor.bytes.length
      let s := { s with producer := { p with params := params } }
      if half < alignedSize then
        some (s.goto (.failed ⟨.assertionError,
          s!"Parameter {name} too large for buffer: {alignedSize} > {half}"⟩))
      else if half < p.usedBytes + alignedSize then
        some (s.goto (.awaitGroup (some (name, tensor))))
      else some (s.goto (.pack (name, tensor)))
  | .awaitGroup nextWeight =>
    if p.awaitRecv then s.recvReply (.sendGroup nextWeight)
    else some (s.goto (.sendGroup nextWeight))
  | .sendGroup nextWeight =>
    if s.reqBusy then some (s.goto (.failed IpcState.outOfTurn))
    else some { s.sendRequest (.group p.currentBuffer p.paramNames p.usedBytes) with
      producer := p.groupSent nextWeight
      sent := s.sent ++ [p.currentBuffer] }
  | .pack (name, tensor) =>
    match packTensor (s.buffer p.currentBuffer) tensor p.usedBytes with
    | .error e => some (s.goto (.failed e))
    | .ok bytes =>
      some { s.setBuffer bytes p.currentBuffer with
        producer := { p with
          pc := .next
          usedBytes := p.usedBytes + calculateAlignedSize tensor.bytes.length
          paramNames := p.paramNames ++ [name] } }
  | .awaitLast =>
    if p.awaitRecv then s.recvReply .sendComplete else some (s.goto .sendComplete)
  | .sendComplete =>
    if s.reqBusy then some (s.goto (.failed IpcState.outOfTurn))
    else some ((s.sendRequest .complete).goto .awaitComplete)
  | .awaitComplete => s.recvReply .done
  | .done => none
  | .failed _ => none

/-! ## The consumer -/

/-- What the consumer knows of the weights. -/
abbrev StateDictInfo : Type := List (String × List ℕ × Dtype)

/-- View the bytes of a weight in a buffer of some length. A slice ends where the buffer does. -/
def viewAt (bufferLength offset : ℕ) (key : String) (shape : List ℕ) (dtype : Dtype) :
    Except PyError View :=
  let length := min (offset + tensorSize shape dtype) bufferLength - min offset bufferLength
  if length % dtype.itemsize ≠ 0 then
    .error ⟨.runtimeError, s!"self.size(-1) must be divisible by {dtype.itemsize} to view Byte " ++
      "as " ++ dtype.scalarType ++ s!" (different element sizes), but got {length}"⟩
  else if offset % dtype.itemsize ≠ 0 then
    .error ⟨.runtimeError, s!"self.storage_offset() must be divisible by {dtype.itemsize} to " ++
      "view Byte as " ++ dtype.scalarType ++ s!" (different element sizes), but got {offset}"⟩
  else if length ≠ tensorSize shape dtype then
    .error ⟨.runtimeError,
      s!"shape '{shape}' is invalid for input of size {length / dtype.itemsize}"⟩
  else .ok ⟨key, offset, shape, dtype⟩

/-- The weight that a view shows at the moment. -/
def View.read (view : View) (buffer : Bytes) : Except PyError WeightTensor :=
  let bytes := slice buffer view.offset (view.offset + tensorSize view.shape view.dtype)
  if h : bytes.length = view.shape.prod * view.dtype.itemsize then
    .ok ⟨view.shape, view.dtype, bytes, h⟩
  else .error ⟨.runtimeError, "view out of bounds"⟩

/-- A step of the consumer. -/
def updateWeightsViaIpcZmq (stateDictInfo : StateDictInfo) (s : IpcState) : Option IpcState :=
  match s.consumer with
  | .recv =>
    match s.requests with
    | [] => none
    | .complete :: requests => some { s with requests := requests, consumer := .finish }
    | .group buffer keys usedBytes :: requests =>
      some { s with requests := requests, consumer := .view buffer keys usedBytes 0 [] }
  | .view buffer (key :: keys) usedBytes offset weights =>
    match stateDictInfo.lookup key with
    | none => some { s with consumer := .failed ⟨.keyError, s!"'{key}'"⟩ }
    | some (shape, dtype) =>
      match viewAt (s.buffer buffer).length offset key shape dtype with
      | .error e => some { s with consumer := .failed e }
      | .ok view =>
        let offset := offset + calculateAlignedSize (tensorSize shape dtype)
        some { s with consumer := .view buffer keys usedBytes offset (weights ++ [view]) }
  | .view buffer [] usedBytes offset weights =>
    if offset = usedBytes then some { s with consumer := .load buffer weights }
    else some { s with consumer := .failed ⟨.assertionError, "Offset is not equal to used " ++
      "bytes, usually indicate inaccurate info like keys or cached dtype in state_dict_info"⟩ }
  | .load buffer (view :: weights) =>
    match view.read (s.buffer buffer) with
    | .error e => some { s with consumer := .failed e }
    | .ok tensor =>
      some { s with consumer := .load buffer weights, loaded := s.loaded ++ [(view.key, tensor)] }
  | .load _ [] => some { s with consumer := .recv, acks := s.acks + 1 }
  | .finish => some { s with consumer := .done, acks := s.acks + 1 }
  | .done => none
  | .failed _ => none

/-! ## Both sides -/

/-- The side that takes a step. -/
inductive Side
  | producer
  | consumer
  deriving DecidableEq, Repr

/-- The two sides with a buffer for the given weights. The halves have any contents at first. -/
def ipcStream (bufferSizeBytes : ℕ) (stateDictInfo : StateDictInfo) (params : List NamedWeight) :
    System IpcState Side where
  init s := ∃ bytesA bytesB : Bytes,
    bytesA.length = calculateAlignedSize (bufferSizeBytes / 2) ∧
    bytesB.length = calculateAlignedSize (bufferSizeBytes / 2) ∧
    s = ⟨bytesA, bytesB, { pc := .next, params := params }, .recv, [], 0, false, [], [], 0⟩
  step s
    | .producer => streamWeightsViaIpcZmqImpl (bufferSizeBytes / 2) s
    | .consumer => updateWeightsViaIpcZmq stateDictInfo s

end NemoRL.Utils
