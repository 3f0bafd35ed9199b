import NemoRL.Error
import NemoRL.Lib.Tensor

/-!
# Wire codec

Per-token fields travel as jagged batches, each row cut to its own length; every other
tensor travels as it is. `materialize` turns a batch from the wire into rectangular
tensors and pads them to the forward pad target.

## Main definitions

* `packJaggedFields` — encode a batch for the store.
* `materialize` — decode a batch from the store, in the padded layout.
* `stackOrNest` — the batch of given rows.
-/

namespace NemoRL.DataPlane

open Lib

variable {α : Type}

/-- A tensor on the wire. -/
inductive Leaf (α : Type)
  | rect (t : Rect α)
  | nested (t : Jagged α)
  deriving DecidableEq

/-- The rows of a tensor on the wire. -/
def Leaf.rows : Leaf α → List (Tensor α)
  | rect t => t.rows
  | nested t => t.rows

/-- Named tensors with one batch dimension. -/
abbrev TensorDict (α : Type) := List (String × Leaf α)

/-- The tensors of a batch. -/
abbrev Columns (α : Type) := List (String × Rect α)

/-- Build a `TensorDict`, which checks the batch dimension of its tensors. -/
def tensorDict (fields : TensorDict α) (batchSize : ℕ) : Except PyError (TensorDict α) :=
  if ∀ field ∈ fields, field.2.rows.length = batchSize then .ok fields
  else .error ⟨.runtimeError, "batch dimension mismatch"⟩

/-! ## Encoding -/

/-- Cut each row to its length, for lengths that do not exceed the width. -/
def toNestedByLength (padded : Rect α) (lengths : List ℕ) : Except PyError (Jagged α) :=
  match padded with
  | ⟨[], rows, _⟩ => .error ⟨.valueError,
      s!"to_nested_by_length expects (N, S, ...); got shape ({rows.length},)"⟩
  | ⟨size :: rest, rows, h⟩ =>
    if lengths.length ≠ rows.length then .error ⟨.valueError,
      s!"lengths shape ({lengths.length},) != ({rows.length},) (rows of padded)"⟩
    else .ok
      { trailing := rest
        rows := (rows.zip lengths).map fun row => row.1.truncate row.2
        tail_rows := by
          simp only [List.forall_mem_map]
          intro row hrow
          have hshape := Tensor.shape_truncate (h row.1 (List.of_mem_zip hrow).1) row.2
          rw [hshape, Tensor.width, hshape]
          rfl }

/-- Cut the rows of a per-token field. A tensor whose shape does not allow that stays
rectangular. -/
def packPerTokenField (val : Rect α) (lengths : List ℕ) : Except PyError (Leaf α) :=
  let n := lengths.length
  if n = 0 then .ok (.rect val)
  else
    let maxLen := longest lengths
    if val.dim < 2 ∨ val.rows.length ≠ n ∨ val.width < maxLen then .ok (.rect val)
    else (toNestedByLength val lengths).map .nested

/-- Encode one tensor of a batch. -/
def packField (lengths : Option (List ℕ)) (tokenAlignedFields : List String)
    (field : String × Rect α) : Except PyError (String × Leaf α) :=
  match lengths with
  | some lengths =>
    if field.1 ∈ tokenAlignedFields then (packPerTokenField field.2 lengths).map (field.1, ·)
    else .ok (field.1, .rect field.2)
  | none => .ok (field.1, .rect field.2)

/-- Encode the tensors of a batch. -/
def packJaggedFields (fields : Columns α) (lengths : Option (List ℕ))
    (tokenAlignedFields : List String) : Except PyError (TensorDict α) := do
  let n := (lengths.map List.length).getD 0
  let packed ← fields.mapM (packField lengths tokenAlignedFields)
  tensorDict packed n

/-! ## Decoding -/

/-- The batch of given rows: rectangular if they have one shape, else jagged. -/
def stackOrNest (tensors : List (Tensor α)) : Except PyError (Leaf α) :=
  match tensors with
  | [] => .ok (.rect ⟨[], [], by simp⟩)
  | first :: rest =>
    if h : ∀ t ∈ first :: rest, t.shape = first.shape then
      .ok (.rect ⟨first.shape, first :: rest, h⟩)
    else if h : ∀ t ∈ first :: rest, t.shape = t.width :: first.shape.tail then
      .ok (.nested ⟨first.shape.tail, first :: rest, h⟩)
    else .error ⟨.runtimeError, "tensors differ in more than the ragged dimension"⟩

/-- Pad a jagged tensor to its longest row. -/
def toPaddedTensor (pad : α) : Leaf α → Rect α
  | .nested t => t.toPadded pad
  | .rect t => t

/-- Pad any tensor with a second dimension to the forward pad target. -/
def padToTarget (pad : α) (padToSeqlen : ℕ) (padded : Rect α) : Rect α :=
  if 0 < padToSeqlen ∧ 2 ≤ padded.dim ∧ padded.width < padToSeqlen then
    padded.padTo padToSeqlen pad
  else padded

/-- Decode one tensor. -/
def materializeLeaf (pad : α) (padToSeqlen : ℕ) (val : Leaf α) : Rect α :=
  padToTarget pad padToSeqlen (toPaddedTensor pad val)

/-- Decode a batch. Fields without a pad value are padded with zeros. -/
def materialize [Zero α] (td : TensorDict α) (padValueDict : List (String × α))
    (padToSeqlen : ℕ) : Columns α :=
  td.map fun (key, val) =>
    (key, materializeLeaf ((padValueDict.lookup key).getD 0) padToSeqlen val)

end NemoRL.DataPlane
