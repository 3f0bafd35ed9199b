import NemoRL.Error
import NemoRL.Lib.Tensor

/-!
# Leaves on the Mooncake wire

The Mooncake backend stores no leaves of one dimension. They get a trailing dimension of size
one when they are put, and every trailing dimension of size one is dropped when leaves are
got. A leaf comes back as it was unless it had such a dimension of its own.

## Main definitions

* `TensorDict` — named leaves with one batch dimension.
* `promote1dLeaves`, `fromWire` — the two directions.

## Main results

* `fromWire_promote1dLeaves_iff` — when all leaves come back.
-/

namespace NemoRL.DataPlane.TransferQueue

open Lib

variable {α β : Type}

/-! ## Leaves -/

/-- Add a trailing dimension of size one. -/
def unsqueezeLast (t : Tensor α) : Tensor α where
  shape := t.shape ++ [1]
  data := t.data
  length_data := by simpa using t.length_data

/-- Drop the trailing dimension if it has size one. -/
def squeezeLast (t : Tensor α) : Tensor α where
  shape := if t.shape.getLast? = some 1 then t.shape.dropLast else t.shape
  data := t.data
  length_data := by
    rw [t.length_data]
    split
    case isTrue h =>
      obtain ⟨init, hinit⟩ := List.getLast?_eq_some_iff.mp h
      simp [hinit]
    case isFalse => rfl

@[simp] theorem shape_unsqueezeLast (t : Tensor α) : (unsqueezeLast t).shape = t.shape ++ [1] :=
  rfl

theorem shape_squeezeLast {t : Tensor α} (h : t.shape.getLast? = some 1) :
    (squeezeLast t).shape = t.shape.dropLast := if_pos h

/-- Dropping the dimension that was added gives the tensor back. -/
theorem squeezeLast_unsqueezeLast (t : Tensor α) : squeezeLast (unsqueezeLast t) = t := by
  ext1
  · rw [shape_squeezeLast (by simp)]
    simp
  · rfl

/-- A leaf: a tensor, a nested tensor, or something else. -/
inductive Leaf (α β : Type)
  | tensor (t : Tensor α)
  | nested (t : Jagged α)
  | nonTensor (value : β)
  deriving DecidableEq

/-- The first dimension of a leaf has the size of the batch. -/
def Leaf.BatchedBy (n : ℕ) : Leaf α β → Prop
  | tensor t => t.shape.head? = some n
  | nested t => t.rows.length = n
  | nonTensor _ => True

instance (n : ℕ) (leaf : Leaf α β) : Decidable (leaf.BatchedBy n) :=
  match leaf with
  | .tensor t => inferInstanceAs (Decidable (t.shape.head? = some n))
  | .nested t => inferInstanceAs (Decidable (t.rows.length = n))
  | .nonTensor _ => inferInstanceAs (Decidable True)

/-- Named leaves with one batch dimension. -/
@[ext] structure TensorDict (α β : Type) where
  batchSize : ℕ
  leaves : List (String × Leaf α β)
  nodup_keys : (leaves.map Prod.fst).Nodup
  batched : ∀ leaf ∈ leaves, leaf.2.BatchedBy batchSize

/-- Build a `TensorDict`, which checks the batch dimension of its leaves. -/
def tensorDict (leaves : List (String × Leaf α β)) (batchSize : ℕ) :
    Except PyError (TensorDict α β) :=
  if h : (leaves.map Prod.fst).Nodup ∧ ∀ leaf ∈ leaves, leaf.2.BatchedBy batchSize then
    .ok ⟨batchSize, leaves, h.1, h.2⟩
  else .error ⟨.runtimeError, "batch dimension mismatch"⟩

/-- Check that no leaf was dropped. -/
def assertNoKeyLoss (srcDict : List (String × Leaf α β)) (newTd : TensorDict α β)
    (fn : String) : Except PyError Unit :=
  let newKeys := newTd.leaves.map Prod.fst
  let srcKeys := srcDict.map Prod.fst
  if (∀ k ∈ srcKeys, k ∈ newKeys) ∧ ∀ k ∈ newKeys, k ∈ srcKeys then .ok ()
  else
    let dropped := (srcKeys.filter fun k => k ∉ newKeys).mergeSort
    .error ⟨.runtimeError, fn ++ " lost leaves through TensorDict rebuild: dropped=[" ++
      ", ".intercalate (dropped.map fun k => "'" ++ k ++ "'") ++ "]."⟩

/-- Change the leaves for which `f` has a new one. Without a change the batch is returned as
it is. -/
def rebuildLeaves (f : Leaf α β → Option (Leaf α β)) (fn : String) (td : TensorDict α β) :
    Except PyError (TensorDict α β) :=
  let newDict := td.leaves.map fun leaf => (leaf.1, (f leaf.2).getD leaf.2)
  if td.leaves.any fun leaf => (f leaf.2).isSome then do
    let newTd ← tensorDict newDict td.batchSize
    assertNoKeyLoss newDict newTd fn
    .ok newTd
  else .ok td

/-- A tensor with one dimension gets a trailing one. -/
def promoteLeaf : Leaf α β → Option (Leaf α β)
  | .tensor t => if t.shape.length = 1 then some (.tensor (unsqueezeLast t)) else none
  | _ => none

/-- A tensor with more dimensions loses a trailing dimension of size one. -/
def squeezeLeaf : Leaf α β → Option (Leaf α β)
  | .tensor t =>
    if 2 ≤ t.shape.length ∧ t.shape.getLast? = some 1 then some (.tensor (squeezeLast t))
    else none
  | _ => none

/-- Give leaves of one dimension a trailing one. -/
def promote1dLeaves (td : TensorDict α β) : Except PyError (TensorDict α β) :=
  rebuildLeaves promoteLeaf "_promote_1d_leaves" td

/-- Drop the trailing dimensions of size one. -/
def fromWire (td : TensorDict α β) : Except PyError (TensorDict α β) :=
  rebuildLeaves squeezeLeaf "_from_wire" td

/-! ## Rebuilding -/

/-- Rebuilding a batch changes its leaves, when the new leaves keep the batch dimension. -/
theorem rebuildLeaves_eq {f : Leaf α β → Option (Leaf α β)} (fn : String) (td : TensorDict α β)
    (h : ∀ n leaf leaf', leaf.BatchedBy n → f leaf = some leaf' → leaf'.BatchedBy n) :
    ∃ td', rebuildLeaves f fn td = .ok td' ∧ td'.batchSize = td.batchSize ∧
      td'.leaves = td.leaves.map fun leaf => (leaf.1, (f leaf.2).getD leaf.2) := by
  let newDict := td.leaves.map fun leaf => (leaf.1, (f leaf.2).getD leaf.2)
  have hkeys : newDict.map Prod.fst = td.leaves.map Prod.fst := by
    simp [newDict, Function.comp_def]
  have hbatched : ∀ leaf ∈ newDict, leaf.2.BatchedBy td.batchSize := by
    intro leaf hleaf
    obtain ⟨old, hold, rfl⟩ := List.mem_map.mp hleaf
    have hn := td.batched old hold
    cases hf : f old.2 with
    | none => simpa [hf] using hn
    | some new => simpa [hf] using h _ _ _ hn hf
  by_cases hany : td.leaves.any fun leaf => (f leaf.2).isSome
  · refine ⟨⟨td.batchSize, newDict, hkeys ▸ td.nodup_keys, hbatched⟩, ?_, rfl, rfl⟩
    rw [rebuildLeaves, if_pos hany, tensorDict, dif_pos ⟨hkeys ▸ td.nodup_keys, hbatched⟩]
    simp only [bind, Except.bind, assertNoKeyLoss]
    rw [if_pos ⟨fun _ => id, fun _ => id⟩]
  · refine ⟨td, ?_, rfl, ?_⟩
    · rw [rebuildLeaves, if_neg hany]
    · have hnone : ∀ leaf ∈ td.leaves, (leaf.1, (f leaf.2).getD leaf.2) = leaf := by
        intro leaf hleaf
        have hf : f leaf.2 = none := by
          rw [List.any_eq_true] at hany
          by_contra hsome
          exact hany ⟨leaf, hleaf, Option.isSome_iff_ne_none.mpr hsome⟩
        rw [hf, Option.getD_none]
      exact ((List.map_congr_left hnone).trans (List.map_id _)).symm

theorem batchedBy_promoteLeaf (n : ℕ) (leaf leaf' : Leaf α β) (hn : leaf.BatchedBy n)
    (h : promoteLeaf leaf = some leaf') : leaf'.BatchedBy n := by
  cases leaf with
  | tensor t =>
    rw [promoteLeaf] at h
    split at h
    · obtain rfl := Option.some.inj h
      rw [Leaf.BatchedBy] at hn
      simp only [Leaf.BatchedBy, shape_unsqueezeLast, List.head?_append, hn]
      rfl
    · exact nomatch h
  | _ => exact nomatch h

theorem batchedBy_squeezeLeaf (n : ℕ) (leaf leaf' : Leaf α β) (hn : leaf.BatchedBy n)
    (h : squeezeLeaf leaf = some leaf') : leaf'.BatchedBy n := by
  cases leaf with
  | tensor t =>
    rw [squeezeLeaf] at h
    split at h
    case isTrue hlast =>
      obtain rfl := Option.some.inj h
      obtain ⟨init, hinit⟩ := List.getLast?_eq_some_iff.mp hlast.2
      cases init with
      | nil => simp [hinit] at hlast
      | cons size rest =>
        rw [Leaf.BatchedBy, hinit] at hn
        rw [Leaf.BatchedBy, shape_squeezeLast hlast.2, hinit, List.dropLast_concat]
        exact hn
    case isFalse => exact nomatch h
  | _ => exact nomatch h

/-! ## There and back -/

/-- A leaf that is a tensor of more than one dimension whose last one has size one. -/
def Leaf.HasTrailingOne : Leaf α β → Prop
  | tensor t => 2 ≤ t.shape.length ∧ t.shape.getLast? = some 1
  | _ => False

/-- A leaf on the wire and back. -/
def roundTripLeaf (leaf : Leaf α β) : Leaf α β :=
  let wire := (promoteLeaf leaf).getD leaf
  (squeezeLeaf wire).getD wire

/-- A leaf comes back as it was unless it has a trailing dimension of size one. -/
theorem roundTripLeaf_eq_iff {n : ℕ} {leaf : Leaf α β} (hn : leaf.BatchedBy n) :
    roundTripLeaf leaf = leaf ↔ ¬leaf.HasTrailingOne := by
  cases leaf with
  | tensor t =>
    obtain ⟨rest, hshape⟩ : ∃ rest, t.shape = n :: rest := by
      rw [Leaf.BatchedBy, List.head?_eq_some_iff] at hn
      exact hn
    cases rest with
    | nil =>
      -- the dimension that was added is dropped again
      have hback : roundTripLeaf (.tensor t : Leaf α β) =
          .tensor (squeezeLast (unsqueezeLast t)) := by
        simp [roundTripLeaf, promoteLeaf, squeezeLeaf, unsqueezeLast, hshape]
      simp [hback, squeezeLast_unsqueezeLast, Leaf.HasTrailingOne, hshape]
    | cons size rest =>
      have hpromote : promoteLeaf (.tensor t : Leaf α β) = none := by
        simp [promoteLeaf, hshape]
      by_cases hlast : t.shape.getLast? = some 1
      · have hback : roundTripLeaf (.tensor t : Leaf α β) = .tensor (squeezeLast t) := by
          simp [roundTripLeaf, hpromote, squeezeLeaf, hshape ▸ hlast, hshape]
        have hlength : (squeezeLast t).shape.length < t.shape.length := by
          rw [shape_squeezeLast hlast, List.length_dropLast, hshape]
          simp
        have hne : squeezeLast t ≠ t := fun heq => by simp [heq] at hlength
        have htrailing : (Leaf.tensor t : Leaf α β).HasTrailingOne := ⟨by simp [hshape], hlast⟩
        simp [hback, hne, htrailing]
      · simp [roundTripLeaf, hpromote, squeezeLeaf, hlast, Leaf.HasTrailingOne]
  | nested t => simp [roundTripLeaf, promoteLeaf, squeezeLeaf, Leaf.HasTrailingOne]
  | nonTensor value => simp [roundTripLeaf, promoteLeaf, squeezeLeaf, Leaf.HasTrailingOne]

/-- All leaves of a batch come back from the wire as they were exactly when no tensor of more
than one dimension has a last dimension of size one. -/
theorem fromWire_promote1dLeaves_iff (td : TensorDict α β) :
    ∃ wire back, promote1dLeaves td = .ok wire ∧ fromWire wire = .ok back ∧
      (back = td ↔ ∀ leaf ∈ td.leaves, ¬leaf.2.HasTrailingOne) := by
  obtain ⟨wire, hwire, hsize, hleaves⟩ :=
    rebuildLeaves_eq "_promote_1d_leaves" td batchedBy_promoteLeaf
  obtain ⟨back, hback, hsize', hleaves'⟩ :=
    rebuildLeaves_eq "_from_wire" wire batchedBy_squeezeLeaf
  refine ⟨wire, back, hwire, hback, ?_⟩
  have hmap : back.leaves = td.leaves.map fun leaf => (leaf.1, roundTripLeaf leaf.2) := by
    rw [hleaves', hleaves, List.map_map]
    rfl
  have hsame : back = td ↔ ∀ leaf ∈ td.leaves, (leaf.1, roundTripLeaf leaf.2) = leaf := by
    rw [TensorDict.ext_iff, hmap, and_iff_right (hsize'.trans hsize), ← List.map_id td.leaves,
      List.map_map, List.map_inj_left]
    simp
  rw [hsame]
  refine forall₂_congr fun leaf hleaf => ?_
  rw [← roundTripLeaf_eq_iff (td.batched leaf hleaf), Prod.ext_iff, and_iff_right rfl]

/-- A leaf of two rows of one element comes back without its second dimension. -/
theorem trailingOne_lost :
    ∃ td : TensorDict ℕ Unit, td.leaves = [("values", .tensor ⟨[2, 1], [7, 8], rfl⟩)] ∧
      ∃ wire back, promote1dLeaves td = .ok wire ∧ fromWire wire = .ok back ∧
        back.leaves = [("values", .tensor ⟨[2], [7, 8], rfl⟩)] ∧ back ≠ td := by
  refine ⟨⟨2, [("values", .tensor ⟨[2, 1], [7, 8], rfl⟩)], by decide, by decide⟩, rfl, ?_⟩
  refine ⟨_, _, rfl, rfl, rfl, fun heq => ?_⟩
  exact absurd (congrArg TensorDict.leaves heq) (by decide)

end NemoRL.DataPlane.TransferQueue
