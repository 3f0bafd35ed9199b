import Mathlib.Data.List.Dedup
import NemoRL.Error
import NemoRL.Lib.Dict
import NemoRL.Lib.Segments

/-!
# Message logs on the data plane

A message log is a list of messages, which are dictionaries of texts and tensors. A batch of
message logs is flattened for the model: the tensors of a key are concatenated over the messages
of a log, padded on the right and stacked over the logs. On the data plane the roles, the
contents and the numbers of tokens of the messages travel beside the flat tensors, and the
message logs are built again from slices of the tensors.

The tensors of messages have one dimension. How two types of numbers are promoted when tensors
are concatenated is a parameter. Packed multimodal tensors are not modelled.

## Main definitions

* `messageLogToFlatMessages` — the flat message of one log.
* `batchedMessageLogToFlatMessage` — the flat messages of a batch, padded and stacked.
* `decomposeMessageLog` — the roles, the contents and the numbers of tokens.
* `reconstructMessageLog` — the message logs.
-/

namespace NemoRL.Data

open Lib

variable {D K : Type}

/-- A tensor with one dimension. -/
structure MessageTensor (D K : Type) where
  dtype : D
  device : String
  items : List K
  deriving DecidableEq

/-- A value of a message. -/
inductive MessageValue (D K : Type)
  | text (s : String)
  | tensor (t : MessageTensor D K)
  deriving DecidableEq

/-- A message. -/
abbrev Message (D K : Type) := List (String × MessageValue D K)

/-- The length of a text or of a tensor. -/
def MessageValue.length : MessageValue D K → ℕ
  | text s => s.length
  | tensor t => t.items.length

/-! ## Flattening -/

/-- A value of a flat message: the values of the messages that have the key, or their
concatenation. -/
inductive FlatValue (D K : Type)
  | values (vs : List (MessageValue D K))
  | tensor (t : MessageTensor D K)
  deriving DecidableEq

/-- Concatenate tensors. -/
def catTensors (promote : D → D → D) (first : MessageTensor D K) (rest : List (MessageValue D K)) :
    Except PyError (MessageTensor D K) :=
  rest.foldlM (fun acc v =>
    match v with
    | .text _ => throw ⟨.typeError, "expected Tensor as element in argument 0, but got str"⟩
    | .tensor t =>
      if t.device = acc.device then
        return ⟨promote acc.dtype t.dtype, acc.device, acc.items ++ t.items⟩
      else throw ⟨.runtimeError, "Expected all tensors to be on the same device"⟩) first

/-- The value of a key. -/
def concatValues (promote : D → D → D) :
    List (MessageValue D K) → Except PyError (FlatValue D K)
  | .tensor first :: rest => do return .tensor (← catTensors promote first rest)
  | vs => .ok (.values vs)

/-- The flat message of a message log. -/
def messageLogToFlatMessages (promote : D → D → D) (messageLog : List (Message D K)) :
    Except PyError (List (String × FlatValue D K)) :=
  let allKeys := (messageLog.flatMap fun msg => msg.map Prod.fst).dedup
  allKeys.mapM fun key => do
    let value ← concatValues promote (messageLog.filterMap fun msg => msg.lookup key)
    return (key, value)

/-- Tensors that are padded and stacked. -/
structure StackedTensor (D K : Type) where
  dtype : D
  device : String
  rows : List (List K)
  deriving DecidableEq

/-- A column of a batch of flat messages. -/
inductive FlatColumn (D K : Type)
  /-- The first values of the logs that have the key, of a batch without tensors. -/
  | firstValues (vs : List (Option (MessageValue D K)))
  /-- The values of the logs that have the key. -/
  | values (vs : List (Option (FlatValue D K)))
  | stacked (t : StackedTensor D K)
  deriving DecidableEq

/-- The length of a tensor of a flat message. -/
def FlatValue.size : FlatValue D K → ℕ
  | values _ => 0
  | tensor t => t.items.length

/-- Whether a value of a flat message is a tensor. -/
def FlatValue.isTensor : FlatValue D K → Bool
  | values _ => false
  | tensor _ => true

/-- Pad a tensor on the right. -/
def padTensor (items : List K) (maxLen : ℕ) (padValue : K) : List K :=
  items ++ List.replicate (maxLen - items.length) padValue

/-- A value to be stacked with `first`. A log without the key gets an empty tensor. -/
def filledValue (first : MessageTensor D K) :
    Option (FlatValue D K) → Except PyError (MessageTensor D K)
  | none => .ok ⟨first.dtype, first.device, []⟩
  | some (.tensor t) => .ok t
  | some (.values _) => .error ⟨.attributeError, "'list' object has no attribute 'dtype'"⟩

section Stack
variable [DecidableEq D] [ToString D]

/-- The column of a key. Tensors are stacked when the first log has one. -/
def stackColumn (maxLen : ℕ) (padValue : K) :
    List (Option (FlatValue D K)) → Except PyError (FlatColumn D K)
  | some (.tensor first) :: rest => do
    let tensors ← (some (.tensor first) :: rest).mapM (filledValue first)
    if ¬∀ t ∈ tensors, t.dtype = first.dtype then
      throw ⟨.runtimeError,
        s!"expected consistent types but got: {tensors.map MessageTensor.dtype}"⟩
    if ¬∀ t ∈ tensors, t.device = first.device then
      throw ⟨.runtimeError,
        s!"expected tensors on the same device but got: {tensors.map MessageTensor.device}"⟩
    return .stacked ⟨first.dtype, first.device,
      tensors.map fun t => padTensor t.items maxLen padValue⟩
  | values => .ok (.values values)

/-- The length of the longest tensor of a flat message. -/
def seqLen (flat : List (String × FlatValue D K)) : ℕ :=
  (flat.map fun p => p.2.size).foldr max 0

/-- The first values of a key. -/
def firstValue : FlatValue D K → Option (MessageValue D K)
  | .values vs => vs.head?
  | .tensor _ => none

/-- The length of the longest tensor, rounded up to a multiple. -/
def paddedMaxLen (sequencedLists : List (List (String × FlatValue D K)))
    (makeSequenceLengthDivisibleBy : ℕ) : Except PyError ℕ :=
  let maxLen := (sequencedLists.map seqLen).foldr max 0
  if makeSequenceLengthDivisibleBy = 0 then
    .error ⟨.zeroDivisionError, "integer modulo by zero"⟩
  else if maxLen % makeSequenceLengthDivisibleBy ≠ 0 then
    .ok ((maxLen / makeSequenceLengthDivisibleBy + 1) * makeSequenceLengthDivisibleBy)
  else .ok maxLen

/-- A key with its column. -/
def flatColumn [Zero K] (padValueDict : Option (List (String × K))) (maxLen : ℕ)
    (sequencedLists : List (List (String × FlatValue D K))) (key : String) :
    Except PyError (String × FlatColumn D K) := do
  let padValue := ((padValueDict.getD []).lookup key).getD 0
  let column ← stackColumn maxLen padValue (sequencedLists.map fun seq => seq.lookup key)
  return (key, column)

/-- The flat messages of a batch, and the lengths of their longest tensors. -/
def batchedMessageLogToFlatMessage [Zero K] (promote : D → D → D)
    (padValueDict : Option (List (String × K))) (makeSequenceLengthDivisibleBy : ℕ)
    (messageLogBatch : List (List (Message D K))) :
    Except PyError (List (String × FlatColumn D K) × List ℕ) := do
  if messageLogBatch.isEmpty then return ([], [])
  let sequencedLists ← messageLogBatch.mapM (messageLogToFlatMessages promote)
  let allKeys := (sequencedLists.flatMap fun seq => seq.map Prod.fst).dedup
  let maxLen ← paddedMaxLen sequencedLists makeSequenceLengthDivisibleBy
  if ¬(sequencedLists.any fun seq => seq.any fun p => p.2.isTensor) then
    return (allKeys.map fun key => (key,
      .firstValues (sequencedLists.map fun seq => (seq.lookup key).bind firstValue)), [])
  let columns ← allKeys.mapM (flatColumn padValueDict maxLen sequencedLists)
  return (columns, sequencedLists.map seqLen)

end Stack

/-! ## Taking message logs apart -/

/-- What is kept of message logs beside their tensors. -/
structure DecomposedMessageLog (D K : Type) where
  turnLengths : List (List ℕ)
  turnRoles : List (List (MessageValue D K))
  turnContents : List (List (MessageValue D K))
  responseTokenLengths : List ℕ
  deriving DecidableEq

/-- The role of a message. -/
def Message.role (m : Message D K) : Except PyError (MessageValue D K) :=
  match m.lookup "role" with
  | some role => .ok role
  | none => .error ⟨.keyError, "'role'"⟩

/-- The content of a message, which may be left out. -/
def Message.content (m : Message D K) : MessageValue D K := (m.lookup "content").getD (.text "")

/-- The number of tokens of a message. -/
def Message.numTokens (m : Message D K) : ℕ := ((m.lookup "token_ids").map (·.length)).getD 0

variable [DecidableEq D] [DecidableEq K]

/-- The number of tokens of the first message of the assistant that has tokens. -/
def responseLength (roles : List (MessageValue D K)) (lengths : List ℕ) : ℕ :=
  (roles.zip lengths).foldl (fun response p =>
    if p.1 = .text "assistant" ∧ response = 0 then p.2 else response) 0

/-- The roles, the contents and the numbers of tokens of the messages. -/
def decomposeMessageLog (messageLogBatch : List (List (Message D K))) :
    Except PyError (DecomposedMessageLog D K) := do
  let maxTurns := (messageLogBatch.map List.length).foldr max 0
  let turnRoles ← messageLogBatch.mapM fun ml => ml.mapM Message.role
  let lengths := messageLogBatch.map fun ml => ml.map Message.numTokens
  return {
    turnLengths := lengths.map fun l => l ++ List.replicate (maxTurns - l.length) 0
    turnRoles := turnRoles
    turnContents := messageLogBatch.map fun ml => ml.map Message.content
    responseTokenLengths := List.zipWith responseLength turnRoles lengths }

/-! ## Building message logs -/

/-- The tokens or the log probabilities of a message. -/
def sliceRow (t : StackedTensor D K) (i offset length : ℕ) : Except PyError (MessageValue D K) :=
  match t.rows[i]? with
  | some row => .ok (.tensor ⟨t.dtype, t.device, slice row offset (offset + length)⟩)
  | none => .error ⟨.indexError, "index is out of bounds for dimension 0"⟩

/-- One message. A message without tokens has no tensors. -/
def reconstructTurn (inputIds : StackedTensor D K) (generationLogprobs : Option (FlatColumn D K))
    (i offset : ℕ) (role content : MessageValue D K) (length : ℕ) :
    Except PyError (Message D K) := do
  let turn := [("role", role), ("content", content)]
  if length = 0 then return turn
  let tokenIds ← sliceRow inputIds i offset length
  let turn := turn ++ [("token_ids", tokenIds)]
  if role = .text "assistant" then
    match generationLogprobs with
    | none => return turn
    | some (.stacked t) => return turn ++ [("generation_logprobs", ← sliceRow t i offset length)]
    | some _ => throw ⟨.typeError, "list indices must be integers or slices, not tuple"⟩
  else return turn

/-- The messages of a log, from an offset on. -/
def reconstructTurns (inputIds : StackedTensor D K) (generationLogprobs : Option (FlatColumn D K))
    (i : ℕ) : ℕ → List (MessageValue D K) → List (MessageValue D K) → List ℕ →
      Except PyError (List (Message D K))
  | _, [], _, _ => .ok []
  | offset, role :: roles, content :: contents, length :: lengths => do
    let turn ← reconstructTurn inputIds generationLogprobs i offset role content length
    let turns ← reconstructTurns inputIds generationLogprobs i (offset + length) roles contents
      lengths
    return turn :: turns
  | _, _ :: _, _, _ => .error ⟨.indexError, "list index out of range"⟩

/-- The message logs. -/
def reconstructMessageLog (inputIds : FlatColumn D K) (turnLengths : List (List ℕ))
    (turnRoles turnContents : List (List (MessageValue D K)))
    (generationLogprobs : Option (FlatColumn D K)) :
    Except PyError (List (List (Message D K))) :=
  match inputIds with
  | .stacked inputIds =>
    (List.range inputIds.rows.length).mapM fun i =>
      match turnRoles[i]?, turnContents[i]?, turnLengths[i]? with
      | some roles, some contents, some lengths =>
        reconstructTurns inputIds generationLogprobs i 0 roles contents lengths
      | _, _, _ => .error ⟨.indexError, s!"index {i} is out of bounds for axis 0"⟩
  | _ => .error ⟨.attributeError, "'list' object has no attribute 'shape'"⟩

/-- Flatten and decompose message logs, and build them again. -/
def reconstructDecomposed [ToString D] [Zero K] (promote : D → D → D)
    (padValueDict : Option (List (String × K))) (makeSequenceLengthDivisibleBy : ℕ)
    (messageLogBatch : List (List (Message D K))) : Except PyError (List (List (Message D K))) := do
  let (flat, _) ← batchedMessageLogToFlatMessage promote padValueDict
    makeSequenceLengthDivisibleBy messageLogBatch
  let decomposed ← decomposeMessageLog messageLogBatch
  match flat.lookup "token_ids" with
  | none => throw ⟨.keyError, "'token_ids'"⟩
  | some inputIds =>
    reconstructMessageLog inputIds decomposed.turnLengths decomposed.turnRoles
      decomposed.turnContents (flat.lookup "generation_logprobs")

end NemoRL.Data
