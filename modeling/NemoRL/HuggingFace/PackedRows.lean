import Mathlib.Algebra.Ring.Int.Defs
import NemoRL.HuggingFace.PackSequences

/-!
# What a packed row holds

A row holds the true tokens of its sequences back to back, and the positions start anew for each
of them. The mask is one lower triangle over the whole row, so that a sequence sees the sequences
in front of it. A row of vectors is split into its sequences; a row of tokens only where they
have one length, since the parts are padded by rows.

## Main definitions

* `SameSequence` — the sequence of two positions.
* `RowIsolated`, `RowsIsolated` — what the documentation says of the rows.

## Main results

* `rowsIsolated_iff` — for which groups of sequences it holds.
-/

namespace NemoRL.HuggingFace

open Lib

variable {K : Type}

/-! ## Sequences of a row -/

/-- Two positions lie in the same sequence of a row, which begins at `a`. -/
def SameSequenceFrom (a : ℕ) (lengths : List ℕ) (p q : ℕ) : Prop :=
  ∃ b ∈ bounds (cumulative a lengths), (b.1 ≤ p ∧ p < b.2) ∧ b.1 ≤ q ∧ q < b.2

/-- Two positions lie in the same sequence of a row. -/
def SameSequence (lengths : List ℕ) (p q : ℕ) : Prop := SameSequenceFrom 0 lengths p q

instance (a : ℕ) (lengths : List ℕ) (p q : ℕ) : Decidable (SameSequenceFrom a lengths p q) :=
  inferInstanceAs (Decidable (∃ b ∈ bounds (cumulative a lengths), _))

instance (lengths : List ℕ) (p q : ℕ) : Decidable (SameSequence lengths p q) :=
  inferInstanceAs (Decidable (SameSequenceFrom 0 lengths p q))

theorem sameSequenceFrom_cons {a n p q : ℕ} {lengths : List ℕ} :
    SameSequenceFrom a (n :: lengths) p q ↔
      ((a ≤ p ∧ p < a + n) ∧ a ≤ q ∧ q < a + n) ∨ SameSequenceFrom (a + n) lengths p q := by
  simp [SameSequenceFrom]

theorem SameSequenceFrom.le {a p q : ℕ} {lengths : List ℕ} (h : SameSequenceFrom a lengths p q) :
    (a ≤ p ∧ p < a + lengths.sum) ∧ a ≤ q ∧ q < a + lengths.sum := by
  induction lengths generalizing a with
  | nil => simp [SameSequenceFrom] at h
  | cons n lengths ih =>
    rw [List.sum_cons]
    rcases sameSequenceFrom_cons.mp h with hfirst | hrest
    · omega
    · have hbounds := ih hrest
      omega

theorem length_filter_pos {lengths : List ℕ} :
    (lengths.filter (0 < ·)).length = 0 ↔ lengths.sum = 0 := by
  induction lengths with
  | nil => simp
  | cons n lengths ih =>
    cases n with
    | zero => simpa using ih
    | succ n => simp

/-- Each position sees all positions in front of it within its own sequence exactly where at most
one sequence has tokens. -/
theorem sameSequenceFrom_triangle {a : ℕ} {lengths : List ℕ} :
    (∀ p q, a ≤ q → q ≤ p → p < a + lengths.sum → SameSequenceFrom a lengths p q) ↔
      (lengths.filter (0 < ·)).length ≤ 1 := by
  induction lengths generalizing a with
  | nil =>
    refine iff_of_true ?_ (by simp)
    intro p q hq hle hp
    simp only [List.sum_nil] at hp
    omega
  | cons n lengths ih =>
    cases n with
    | zero =>
      have hrest := @ih a
      simp only [sameSequenceFrom_cons, List.sum_cons, Nat.zero_add, Nat.add_zero] at hrest ⊢
      rw [List.filter_cons_of_neg (by simp), ← hrest]
      constructor
      · intro h p q hq hle hp
        rcases h p q hq hle hp with hfirst | hsame
        · omega
        · exact hsame
      · intro h p q hq hle hp
        exact Or.inr (h p q hq hle hp)
    | succ n =>
      rw [List.filter_cons_of_pos (by simp), List.length_cons]
      have hnone : (lengths.filter (0 < ·)).length + 1 ≤ 1 ↔ lengths.sum = 0 := by
        rw [← length_filter_pos]
        omega
      rw [hnone]
      simp only [sameSequenceFrom_cons, List.sum_cons]
      constructor
      · intro h
        by_contra hpos
        -- the first token of the rest would see the first token of the row
        rcases h (a + (n + 1)) a le_rfl (by omega) (by omega) with hfirst | hsame
        · omega
        · have hbounds := hsame.le
          omega
      · intro hzero p q hq hle hp
        exact Or.inl (by omega)

/-! ## Masks -/

/-- An entry of a mask. -/
def maskEntry (mask : List (List Bool)) (p q : ℕ) : Option Bool := mask[p]?.bind (·[q]?)

/-- A mask of zeros whose first rows and columns are a lower triangle. -/
theorem assignBlock_tril {size n : ℕ} (hn : n ≤ size) :
    ∃ mask, assignBlock (List.replicate size (List.replicate size false)) (tril n) = .ok mask ∧
      ∀ p < size, ∀ q < size, maskEntry mask p q = some (decide (p < n ∧ q ≤ p)) := by
  have hlen : (tril n).length = n := by simp [tril]
  refine ⟨_, if_neg (by simpa [hlen] using hn), ?_⟩
  intro p hp q hq
  by_cases hpn : p < n
  · have hrow : (tril n)[p]? = some ((List.range n).map fun q => decide (q ≤ p)) := by
      simp [tril, hpn]
    have hzero : (List.replicate size (List.replicate size false))[p]? =
        some (List.replicate size false) := by
      simp [hp]
    rw [maskEntry, List.getElem?_append_left (by simp [hlen]; omega), List.getElem?_zipWith,
      hrow, hzero]
    by_cases hqn : q < n
    · simp [List.getElem?_append_left, hqn, hpn]
    · have hle : ¬ q ≤ p := by omega
      rw [Option.bind_some, List.getElem?_append_right (by simp; omega)]
      simp only [hle, and_false, decide_false, List.drop_replicate, List.length_map,
        List.length_range]
      exact List.getElem?_replicate_of_lt (by omega)
  · rw [maskEntry, List.getElem?_append_right (by simp [hlen]; omega)]
    have hrow : ((List.replicate size (List.replicate size false)).drop (tril n).length)[p - n]? =
        some (List.replicate size false) := by
      rw [hlen, List.drop_replicate, List.getElem?_replicate_of_lt (by omega)]
    have hmin : min size n = n := by omega
    simp only [List.length_zipWith, List.length_replicate, hlen, hmin] at hrow ⊢
    rw [hrow]
    simp [hpn, hq]

/-! ## Groups -/

theorem groupsFrom_map {β γ : Type} (f : β → γ) (tensors : List β) (index : ℕ)
    (groupSizes : List ℕ) :
    groupsFrom (tensors.map f) index groupSizes =
      (groupsFrom tensors index groupSizes).map (List.map f) := by
  induction groupSizes generalizing index with
  | nil => rfl
  | cons size groupSizes ih => simp [groupsFrom, ih, slice, List.map_take, List.map_drop]

/-- The length of a packed row. -/
def rowLength (groups : List (List (List K))) (minSeqLen : ℕ) : ℕ :=
  max ((groups.map fun g => (g.map List.length).sum).foldr max 0) minSeqLen

theorem le_foldr_max {l : List ℕ} {n : ℕ} (hn : n ∈ l) : n ≤ l.foldr max 0 := by
  induction l with
  | nil => simp at hn
  | cons m l ih =>
    rw [List.foldr_cons]
    rcases List.mem_cons.mp hn with rfl | hn
    · exact le_max_left _ _
    · exact (ih hn).trans (le_max_right _ _)

theorem sum_le_rowLength {groups : List (List (List K))} {minSeqLen : ℕ} {g : List (List K)}
    (hg : g ∈ groups) : (g.map List.length).sum ≤ rowLength groups minSeqLen := by
  have hmem : (g.map List.length).sum ∈ groups.map fun g => (g.map List.length).sum :=
    List.mem_map_of_mem hg
  exact (le_foldr_max hmem).trans (le_max_left _ _)

/-- The rows are the concatenated groups, none of them empty, padded to one length. -/
theorem groupAndCatTensors_ok {tensors : List (List K)} {groupSizes : List ℕ} {paddingValue : K}
    {minSeqLen : ℕ} {rows : List (List K)}
    (h : groupAndCatTensors tensors groupSizes paddingValue minSeqLen = .ok rows) :
    (groupsFrom tensors 0 groupSizes ≠ [] ∧ ∀ g ∈ groupsFrom tensors 0 groupSizes, g ≠ []) ∧
      rows = (groupsFrom tensors 0 groupSizes).map fun g =>
        padRight (rowLength (groupsFrom tensors 0 groupSizes) minSeqLen) paddingValue
          g.flatten := by
  unfold groupAndCatTensors at h
  obtain ⟨grouped, hgrouped, h⟩ := bind_eq_ok.mp h
  have hcat : ∀ g ∈ groupsFrom tensors 0 groupSizes, g ≠ [] ∧ catTensors g = .ok g.flatten := by
    intro g hg
    obtain ⟨row, -, hrow⟩ := mem_of_mapM_mem hgrouped hg
    cases g with
    | nil => cases hrow
    | cons t g => exact ⟨List.cons_ne_nil t g, rfl⟩
  have heq : grouped = (groupsFrom tensors 0 groupSizes).map List.flatten :=
    Except.ok.inj (hgrouped.symm.trans (mapM_of_forall fun g hg => (hcat g hg).2))
  subst heq
  cases hgroups : groupsFrom tensors 0 groupSizes with
  | nil =>
    rw [hgroups] at h
    cases h
  | cons g groups =>
    rw [hgroups] at h hcat
    refine ⟨⟨List.cons_ne_nil g groups, fun g' hg' => (hcat g' hg').1⟩, ?_⟩
    rw [← Except.ok.inj h, List.map_map]
    refine List.map_congr_left fun g' _ => ?_
    simp [rowLength, Function.comp_def]

theorem length_padRight {maxLen : ℕ} {paddingValue : K} {t : List K} (h : t.length ≤ maxLen) :
    (padRight maxLen paddingValue t).length = maxLen := by
  rw [padRight, List.length_append, List.length_replicate]
  omega

theorem length_row {groups : List (List (List K))} {minSeqLen : ℕ} {paddingValue : K}
    {g : List (List K)} (hg : g ∈ groups) :
    (padRight (rowLength groups minSeqLen) paddingValue g.flatten).length =
      rowLength groups minSeqLen := by
  refine length_padRight ?_
  rw [List.length_flatten]
  exact sum_le_rowLength hg

theorem length_head_rows {groups : List (List (List K))} {minSeqLen : ℕ} {paddingValue : K}
    (hne : groups ≠ []) :
    ((groups.map fun g =>
      padRight (rowLength groups minSeqLen) paddingValue g.flatten).head?.map List.length).getD 0 =
      rowLength groups minSeqLen := by
  obtain ⟨g, groups', rfl⟩ := List.exists_cons_of_ne_nil hne
  simpa using length_row List.mem_cons_self

/-! ## Packed sequences -/

/-- The true tokens of the sequences. -/
def trueSequences (inputIds : List (List K)) (inputLengths : List ℕ) : List (List K) :=
  List.zipWith (fun row n => row.take n) inputIds inputLengths

/-- The sequences of each row. -/
def sequenceGroups (inputIds : List (List K)) (inputLengths packedSequenceSize : List ℕ) :
    List (List (List K)) :=
  groupsFrom (trueSequences inputIds inputLengths) 0 packedSequenceSize

/-- The positions of a row start anew for each sequence. -/
def restartedPositions (seqs : List (List K)) : List ℕ :=
  seqs.flatMap fun s => List.range s.length

section Pack
variable {inputIds : List (List K)} {inputLengths packedSequenceSize : List ℕ}
  {paddingValue : K} {returnAttentionMask : Bool} {minSeqLen size : ℕ} {packed : PackedSequences K}

theorem trueTokens_mapM {flat : List (List K)}
    (h : inputLengths.zipIdx.mapM (trueTokens inputIds) = .ok flat) :
    flat = trueSequences inputIds inputLengths ∧ inputLengths.length ≤ inputIds.length := by
  have hall := mapM_eq_ok.mp h
  have hlen := hall.length_eq
  rw [List.length_zipIdx] at hlen
  have hread : ∀ (i n : ℕ), inputLengths[i]? = some n →
      ∃ row : List K, inputIds[i]? = some row ∧ flat[i]? = some (row.take n) := by
    intro i n hn
    have hidx : inputLengths.zipIdx[i]? = some (n, i) := by simp [List.getElem?_zipIdx, hn]
    obtain ⟨hi, hget⟩ := List.getElem?_eq_some_iff.mp hidx
    rw [List.length_zipIdx] at hi
    have htokens := (List.forall₂_iff_get.mp hall).2 i (by simpa using hi) (by omega)
    simp only [List.get_eq_getElem, hget, trueTokens] at htokens
    split at htokens
    · cases htokens
    · rename_i row hrow
      exact ⟨row, hrow, List.getElem?_eq_some_iff.mpr ⟨by omega, (Except.ok.inj htokens).symm⟩⟩
  have hle : inputLengths.length ≤ inputIds.length := by
    by_contra hlt
    obtain ⟨row, hrow, -⟩ := hread inputIds.length _
      (List.getElem?_eq_getElem (by omega))
    simp at hrow
  refine ⟨List.ext_getElem? fun i => ?_, hle⟩
  rw [trueSequences, List.getElem?_zipWith]
  cases hn : inputLengths[i]? with
  | none =>
    have hi := List.getElem?_eq_none_iff.mp hn
    rw [List.getElem?_eq_none (by omega)]
    cases inputIds[i]? <;> rfl
  | some n =>
    obtain ⟨row, hrow, hflat⟩ := hread i n hn
    rw [hrow, hflat]

theorem map_length_trueSequences (hbatch : ∀ row ∈ inputIds, row.length = size)
    (hlengths : ∀ n ∈ inputLengths, n ≤ size) (hlen : inputLengths.length ≤ inputIds.length) :
    (trueSequences inputIds inputLengths).map List.length = inputLengths := by
  induction inputIds generalizing inputLengths with
  | nil =>
    obtain rfl : inputLengths = [] := by simpa using hlen
    rfl
  | cons row inputIds ih =>
    cases inputLengths with
    | nil => rfl
    | cons n inputLengths =>
      have hrow : row.length = size := hbatch row List.mem_cons_self
      have hn : n ≤ size := hlengths n List.mem_cons_self
      have hrest := ih (fun row' h => hbatch row' (List.mem_cons_of_mem row h))
        (fun m h => hlengths m (List.mem_cons_of_mem n h)) (by simpa using hlen)
      rw [trueSequences, List.zipWith_cons_cons, List.map_cons]
      refine congrArg₂ List.cons ?_ hrest
      rw [List.length_take]
      omega

/-- What packing returns. -/
theorem packSequences_ok (hbatch : ∀ row ∈ inputIds, row.length = size)
    (hlengths : ∀ n ∈ inputLengths, n ≤ size)
    (h : packSequences inputIds inputLengths packedSequenceSize paddingValue returnAttentionMask
      minSeqLen = .ok packed) :
    let groups := sequenceGroups inputIds inputLengths packedSequenceSize
    let maxLen := rowLength groups minSeqLen
    (groupsFrom inputLengths 0 packedSequenceSize = groups.map (List.map List.length) ∧
      ∀ g ∈ groups, g ≠ []) ∧
    (packed.inputIdsPacked = groups.map fun g => padRight maxLen paddingValue g.flatten) ∧
    (packed.positionIdsPacked = groups.map fun g => padRight maxLen 0 (restartedPositions g)) ∧
    (returnAttentionMask = false ∧ packed.attentionMask = none ∨
      returnAttentionMask = true ∧ ∃ masks, packed.attentionMask = some masks ∧
        List.Forall₂ (fun g mask => ∀ p < maxLen, ∀ q < maxLen, maskEntry mask p q =
          some (decide (p < (g.map List.length).sum ∧ q ≤ p))) groups masks) := by
  intro groups maxLen
  unfold packSequences at h
  obtain ⟨flat, hflat, h⟩ := bind_eq_ok.mp h
  obtain ⟨rfl, hlen⟩ := trueTokens_mapM hflat
  obtain ⟨ids, hids, h⟩ := bind_eq_ok.mp h
  obtain ⟨positions, hpositions, h⟩ := bind_eq_ok.mp h
  have hseqs := map_length_trueSequences hbatch hlengths hlen
  have hgroups : groupsFrom inputLengths 0 packedSequenceSize =
      groups.map (List.map List.length) := by
    nth_rewrite 1 [← hseqs]
    rw [groupsFrom_map]
    rfl
  obtain ⟨⟨hne, hnonempty⟩, hids⟩ := groupAndCatTensors_ok hids
  obtain ⟨-, hpositions⟩ := groupAndCatTensors_ok hpositions
  have hranges : inputLengths.map List.range =
      (trueSequences inputIds inputLengths).map fun s => List.range s.length := by
    nth_rewrite 1 [← hseqs]
    rw [List.map_map]
    rfl
  have hpositions : positions = groups.map fun g => padRight maxLen 0 (restartedPositions g) := by
    have hlens : ∀ g : List (List K),
        ((g.map fun s => List.range s.length).map List.length) = g.map List.length := by
      intro g
      simp [Function.comp_def]
    have hmax : rowLength (groups.map (List.map fun s => List.range s.length)) minSeqLen =
        maxLen := by
      simp only [rowLength, List.map_map, Function.comp_def, hlens, maxLen]
    rw [hpositions, hranges, groupsFrom_map, List.map_map]
    refine List.map_congr_left fun g _ => ?_
    exact congrArg₂ (fun n l => padRight n 0 l) hmax rfl
  refine ⟨⟨hgroups, hnonempty⟩, ?_⟩
  by_cases hflag : returnAttentionMask = true
  · rw [if_pos hflag] at h
    obtain ⟨masks, hmasks, h⟩ := bind_eq_ok.mp h
    rw [← Except.ok.inj h]
    refine ⟨hids, hpositions, .inr ⟨hflag, masks, rfl, ?_⟩⟩
    have hsize : (ids.head?.map List.length).getD 0 = maxLen := by
      rw [hids]
      exact length_head_rows hne
    rw [attentionMasks, hgroups, hsize, mapM_eq_ok, List.forall₂_map_left_iff] at hmasks
    have hsum : ∀ g ∈ groups, (g.map List.length).sum ≤ maxLen := fun g hg => sum_le_rowLength hg
    refine ((List.forall₂_and_left groups masks).mpr ⟨hsum, hmasks⟩).imp ?_
    rintro g mask ⟨hle, hmask⟩
    obtain ⟨mask', hmask', hentries⟩ := assignBlock_tril hle
    obtain rfl : mask' = mask := Except.ok.inj (hmask'.symm.trans hmask)
    exact hentries
  · rw [if_neg hflag] at h
    rw [← Except.ok.inj h]
    exact ⟨hids, hpositions, .inl ⟨Bool.eq_false_iff.mpr hflag, rfl⟩⟩

end Pack

/-! ## Unpacking -/

/-- The greatest of equal numbers. -/
theorem foldr_max_of_forall {l : List ℕ} {n : ℕ} (hn : n ∈ l) (h : ∀ m ∈ l, m = n) :
    l.foldr max 0 = n := by
  refine le_antisymm ?_ (le_foldr_max hn)
  clear hn
  induction l with
  | nil => exact Nat.zero_le n
  | cons m l ih =>
    rw [List.foldr_cons]
    exact max_le (h m List.mem_cons_self).le (ih fun m' h' => h m' (List.mem_cons_of_mem m h'))

section Unpack
variable [Zero K]

/-- A row of vectors is split into its sequences. -/
theorem unpackTensor_features {width : ℕ} {values : List (List (List K))} (hne : values ≠ [])
    (rest : List (List K)) :
    unpackTensor (.features width [values.flatten ++ rest]) (values.map List.length) =
      .ok (.features width (values.map
        (padRight ((values.map List.length).foldr max 0) (List.replicate width 0)))) := by
  have hsum : ¬ (Packed.features width [values.flatten ++ rest]).seqLen <
      (values.map List.length).sum := by
    simp [Packed.seqLen]
  have hempty : ¬ (values.map List.length).isEmpty := by simpa using hne
  have hparts := map_slice_bounds_append [] values rest
  rw [List.nil_append, List.length_nil] at hparts
  have hmap := congrArg (List.map fun part => part.1 ++ List.replicate
    ((values.map List.length).foldr max 0 - part.2) (List.replicate width (0 : K))) hparts
  rw [List.map_map, List.map_map] at hmap
  simp only [unpackTensor, if_neg hsum, if_neg hempty, splitRows, List.map_cons, List.map_nil]
  rw [← List.flatMap_def, ← List.map_eq_flatMap]
  exact congrArg (fun parts => Except.ok (Packed.features width parts)) hmap

/-- A row of tokens is split into its sequences exactly where they have one length. -/
theorem unpackTensor_tokens_iff {seqs : List (List K)} (hne : seqs ≠ []) (rest : List K) :
    unpackTensor (.tokens [seqs.flatten ++ rest]) (seqs.map List.length) =
      .ok (.tokens (seqs.map (padRight ((seqs.map List.length).foldr max 0) 0))) ↔
      ∀ n ∈ seqs.map List.length, ∀ m ∈ seqs.map List.length, n = m := by
  have hsum : ¬ (Packed.tokens [seqs.flatten ++ rest]).seqLen < (seqs.map List.length).sum := by
    simp [Packed.seqLen]
  have hempty : ¬ (seqs.map List.length).isEmpty := by simpa using hne
  simp only [unpackTensor, if_neg hsum, if_neg hempty]
  constructor
  · intro h
    split at h
    · rename_i hall
      intro n hn m hm
      rw [hall n hn, hall m hm]
    · cases h
  · intro hall
    have hmax : ∀ n ∈ seqs.map List.length, n = (seqs.map List.length).foldr max 0 :=
      fun n hn => (foldr_max_of_forall hn fun m hm => hall m hm n hn).symm
    have hnone : ∀ part ∈ seqs, (seqs.map List.length).foldr max 0 - part.length = 0 := by
      intro part hpart
      have hlen := hmax part.length (List.mem_map_of_mem hpart)
      omega
    have hparts := map_slice_bounds_append [] seqs rest
    rw [List.nil_append, List.length_nil] at hparts
    have hmap := congrArg (List.flatMap fun part => [part.1] ++ List.replicate
      ((seqs.map List.length).foldr max 0 - part.2) (List.replicate part.2 (0 : K))) hparts
    rw [List.flatMap_map, List.flatMap_map] at hmap
    rw [if_pos hmax]
    simp only [splitRows, List.map_cons, List.map_nil]
    rw [← List.flatMap_def, hmap,
      List.map_eq_flatMap (f := padRight ((seqs.map List.length).foldr max 0) 0)]
    refine congrArg (fun parts => Except.ok (Packed.tokens parts)) ?_
    refine List.flatMap_congr fun part hpart => ?_
    simp [padRight, hnone part hpart]

end Unpack

/-! ## Isolated rows -/

/-- A row holds the true tokens of its sequences, with positions that start anew for each of them;
vectors for its tokens are split into those of each sequence. -/
structure RowLaidOut (seqs : List (List K)) (paddingValue : K) (row : List K)
    (positionIds : List ℕ) : Prop where
  tokens : ∃ n, row = seqs.flatten ++ List.replicate n paddingValue
  positions : ∃ n, positionIds = restartedPositions seqs ++ List.replicate n 0
  length_eq : positionIds.length = row.length
  unpackValues : ∀ {V : Type} [Zero V] (width : ℕ) (values : List (List (List V)))
    (rest : List (List V)), values.map List.length = seqs.map List.length →
    unpackTensor (.features width [values.flatten ++ rest]) (seqs.map List.length) =
      .ok (.features width (values.map
        (padRight ((seqs.map List.length).foldr max 0) (List.replicate width 0))))

/-- The mask of a row is the lower triangle of each sequence. -/
def MaskIsolated (seqs : List (List K)) (row : List K) (mask : Option (List (List Bool))) : Prop :=
  ∀ m, mask = some m → ∀ p < row.length, ∀ q < row.length,
    maskEntry m p q = some (decide (SameSequence (seqs.map List.length) p q ∧ q ≤ p))

/-- A row is split into its sequences. -/
def RowUnpacks [Zero K] (seqs : List (List K)) (row : List K) : Prop :=
  unpackTensor (.tokens [row]) (seqs.map List.length) =
    .ok (.tokens (seqs.map (padRight ((seqs.map List.length).foldr max 0) 0)))

/-- What the documentation says of a row. -/
structure RowIsolated [Zero K] (seqs : List (List K)) (paddingValue : K) (row : List K)
    (positionIds : List ℕ) (mask : Option (List (List Bool))) : Prop where
  laidOut : RowLaidOut seqs paddingValue row positionIds
  maskIsolated : MaskIsolated seqs row mask
  unpacks : RowUnpacks seqs row

/-- There is a row for each group of sequences, and a property holds of every row. -/
structure ForRows (groups : List (List (List K))) (packed : PackedSequences K)
    (P : List (List K) → List K → List ℕ → Option (List (List Bool)) → Prop) : Prop where
  length_ids : packed.inputIdsPacked.length = groups.length
  length_positions : packed.positionIdsPacked.length = groups.length
  length_masks : ∀ masks, packed.attentionMask = some masks → masks.length = groups.length
  holds : ∀ (r : ℕ) seqs row positionIds, groups[r]? = some seqs →
    packed.inputIdsPacked[r]? = some row → packed.positionIdsPacked[r]? = some positionIds →
    P seqs row positionIds (packed.attentionMask.bind fun masks => masks[r]?)

/-- A property of the rows that is one of their sequences. -/
theorem forRows_iff {groups : List (List (List K))} {packed : PackedSequences K}
    {row : List (List K) → List K} {positionIds : List (List K) → List ℕ}
    {P : List (List K) → List K → List ℕ → Option (List (List Bool)) → Prop}
    {Q : List (List K) → Prop} (hids : packed.inputIdsPacked = groups.map row)
    (hpositions : packed.positionIdsPacked = groups.map positionIds)
    (hmasks : ∀ masks, packed.attentionMask = some masks → masks.length = groups.length)
    (hP : ∀ (r : ℕ) seqs, groups[r]? = some seqs →
      (P seqs (row seqs) (positionIds seqs) (packed.attentionMask.bind fun masks => masks[r]?) ↔
        Q seqs)) :
    ForRows groups packed P ↔ ∀ seqs ∈ groups, Q seqs := by
  constructor
  · intro h seqs hseqs
    obtain ⟨r, hr⟩ := List.mem_iff_getElem?.mp hseqs
    refine (hP r seqs hr).mp (h.holds r seqs _ _ hr ?_ ?_)
    · simp [hids, hr]
    · simp [hpositions, hr]
  · intro h
    refine ⟨by simp [hids], by simp [hpositions], hmasks, ?_⟩
    intro r seqs row' positionIds' hr hrow hpos
    rw [hids, List.getElem?_map, hr] at hrow
    rw [hpositions, List.getElem?_map, hr] at hpos
    obtain rfl := Option.some.inj hrow
    obtain rfl := Option.some.inj hpos
    exact (hP r seqs hr).mpr (h seqs (List.mem_of_getElem? hr))

theorem rowLaidOut {seqs : List (List K)} {maxLen : ℕ} {paddingValue : K} (hne : seqs ≠ [])
    (hle : (seqs.map List.length).sum ≤ maxLen) :
    RowLaidOut seqs paddingValue (padRight maxLen paddingValue seqs.flatten)
      (padRight maxLen 0 (restartedPositions seqs)) := by
  have hpos : (restartedPositions seqs).length = (seqs.map List.length).sum := by
    simp [restartedPositions, List.length_flatMap]
  refine ⟨⟨_, rfl⟩, ⟨_, rfl⟩, ?_, ?_⟩
  · rw [length_padRight (hpos ▸ hle), length_padRight (by rwa [List.length_flatten])]
  · intro V _ width values rest hvalues
    have hvals : values ≠ [] := by
      rintro rfl
      exact hne (by simpa using hvalues.symm)
    rw [← hvalues]
    exact unpackTensor_features hvals rest

/-- A triangle over the whole row is the triangle of each sequence exactly where at most one
sequence has tokens. -/
theorem maskIsolated_iff {seqs : List (List K)} {row : List K} {m : List (List Bool)}
    (hle : (seqs.map List.length).sum ≤ row.length)
    (hm : ∀ p < row.length, ∀ q < row.length, maskEntry m p q =
      some (decide (p < (seqs.map List.length).sum ∧ q ≤ p))) :
    MaskIsolated seqs row (some m) ↔ ((seqs.map List.length).filter (0 < ·)).length ≤ 1 := by
  rw [← sameSequenceFrom_triangle (a := 0)]
  constructor
  · intro h p q _ hqp hp
    have hentry := h m rfl p (by omega) q (by omega)
    rw [hm p (by omega) q (by omega), Option.some.injEq, decide_eq_decide] at hentry
    exact (hentry.mp ⟨by omega, hqp⟩).1
  · intro h m' hm' p hp q hq
    obtain rfl := Option.some.inj hm'
    rw [hm p hp q hq, Option.some.injEq, decide_eq_decide]
    constructor
    · rintro ⟨hsum, hqp⟩
      exact ⟨h p q (Nat.zero_le q) hqp (by omega), hqp⟩
    · rintro ⟨hsame, hqp⟩
      have hbounds := SameSequenceFrom.le hsame
      exact ⟨by omega, hqp⟩

section Pack
variable [Zero K] {inputIds : List (List K)} {inputLengths packedSequenceSize : List ℕ}
  {paddingValue : K} {returnAttentionMask : Bool} {minSeqLen size : ℕ} {packed : PackedSequences K}

/-- The rows of a padded batch are laid out as documented. Their masks are as documented exactly
where a mask is not asked for or no row has several sequences with tokens, and the rows can be
unpacked exactly where the sequences of each row have one length. -/
theorem rowsIsolated_iff (hbatch : ∀ row ∈ inputIds, row.length = size)
    (hlengths : ∀ n ∈ inputLengths, n ≤ size)
    (h : packSequences inputIds inputLengths packedSequenceSize paddingValue returnAttentionMask
      minSeqLen = .ok packed) :
    ForRows (sequenceGroups inputIds inputLengths packedSequenceSize) packed
      (fun seqs row positionIds _ => RowLaidOut seqs paddingValue row positionIds) ∧
    (ForRows (sequenceGroups inputIds inputLengths packedSequenceSize) packed
        (fun seqs row _ mask => MaskIsolated seqs row mask) ↔
      ∀ g ∈ groupsFrom inputLengths 0 packedSequenceSize,
        returnAttentionMask = true → (g.filter (0 < ·)).length ≤ 1) ∧
    (ForRows (sequenceGroups inputIds inputLengths packedSequenceSize) packed
        (fun seqs row _ _ => RowUnpacks seqs row) ↔
      ∀ g ∈ groupsFrom inputLengths 0 packedSequenceSize, ∀ n ∈ g, ∀ m ∈ g, n = m) ∧
    (ForRows (sequenceGroups inputIds inputLengths packedSequenceSize) packed
        (fun seqs row positionIds mask => RowIsolated seqs paddingValue row positionIds mask) ↔
      ∀ g ∈ groupsFrom inputLengths 0 packedSequenceSize,
        (returnAttentionMask = true → (g.filter (0 < ·)).length ≤ 1) ∧
          ∀ n ∈ g, ∀ m ∈ g, n = m) := by
  obtain ⟨⟨hgroups, hnonempty⟩, hids, hpositions, hmask⟩ := packSequences_ok hbatch hlengths h
  generalize hrows : sequenceGroups inputIds inputLengths packedSequenceSize = groups at *
  have hle : ∀ seqs ∈ groups, (seqs.map List.length).sum ≤ rowLength groups minSeqLen :=
    fun seqs hseqs => sum_le_rowLength hseqs
  have hmasks : ∀ masks, packed.attentionMask = some masks → masks.length = groups.length := by
    intro masks hsome
    rcases hmask with ⟨-, hnone⟩ | ⟨-, masks', hsome', hall⟩
    · rw [hnone] at hsome
      cases hsome
    · rw [hsome', Option.some.injEq] at hsome
      exact hsome ▸ hall.length_eq.symm
  have hlaid : ∀ (r : ℕ) seqs, groups[r]? = some seqs →
      RowLaidOut seqs paddingValue
        (padRight (rowLength groups minSeqLen) paddingValue seqs.flatten)
        (padRight (rowLength groups minSeqLen) 0 (restartedPositions seqs)) := by
    intro r seqs hr
    have hseqs := List.mem_of_getElem? hr
    exact rowLaidOut (hnonempty seqs hseqs) (hle seqs hseqs)
  have hisolated : ∀ (r : ℕ) seqs, groups[r]? = some seqs →
      (MaskIsolated seqs (padRight (rowLength groups minSeqLen) paddingValue seqs.flatten)
        (packed.attentionMask.bind fun masks => masks[r]?) ↔
        (returnAttentionMask = true → ((seqs.map List.length).filter (0 < ·)).length ≤ 1)) := by
    intro r seqs hr
    have hseqs := List.mem_of_getElem? hr
    rcases hmask with ⟨hflag, hnone⟩ | ⟨hflag, masks, hsome, hall⟩
    · rw [hnone]
      refine iff_of_true ?_ (by simp [hflag])
      intro m hm
      cases hm
    · obtain ⟨hi, rfl⟩ := List.getElem?_eq_some_iff.mp hr
      have hi' : r < masks.length := hall.length_eq ▸ hi
      have hentries := (List.forall₂_iff_get.mp hall).2 r hi hi'
      have hlength : (padRight (rowLength groups minSeqLen) paddingValue groups[r].flatten).length =
          rowLength groups minSeqLen := length_row hseqs
      rw [hsome, Option.bind_some, List.getElem?_eq_getElem hi', maskIsolated_iff]
      · simp [hflag]
      · rw [hlength]
        exact hle _ hseqs
      · rw [hlength]
        exact hentries
  have hunpack : ∀ (r : ℕ) seqs, groups[r]? = some seqs →
      (RowUnpacks seqs (padRight (rowLength groups minSeqLen) paddingValue seqs.flatten) ↔
        ∀ n ∈ seqs.map List.length, ∀ m ∈ seqs.map List.length, n = m) :=
    fun r seqs hr => unpackTensor_tokens_iff (hnonempty seqs (List.mem_of_getElem? hr)) _
  rw [hgroups]
  simp only [List.forall_mem_map (f := List.map List.length)]
  refine ⟨?_, ?_, ?_, ?_⟩
  · rw [forRows_iff (Q := fun _ => True) hids hpositions hmasks fun r seqs hr =>
      iff_of_true (hlaid r seqs hr) trivial]
    exact fun _ _ => trivial
  · exact forRows_iff hids hpositions hmasks hisolated
  · exact forRows_iff hids hpositions hmasks hunpack
  · refine forRows_iff hids hpositions hmasks fun r seqs hr => ?_
    rw [← hisolated r seqs hr, ← hunpack r seqs hr]
    constructor
    · intro hrow
      exact ⟨hrow.maskIsolated, hrow.unpacks⟩
    · rintro ⟨hmask, hunpacks⟩
      exact ⟨hlaid r seqs hr, hmask, hunpacks⟩

end Pack

/-- Two sequences, packed to a row each. -/
theorem rowsIsolated_iff_single :
    ForRows (sequenceGroups [[1, 0], [2, 3]] [1, 2] [1, 1]) (K := ℤ)
      ⟨[[1, 0], [2, 3]], [[0, 0], [0, 1]],
        some [[[true, false], [false, false]], [[true, false], [true, true]]]⟩
      (fun seqs row positionIds mask => RowIsolated seqs 0 row positionIds mask) := by
  have hbatch : ∀ row ∈ ([[1, 0], [2, 3]] : List (List ℤ)), row.length = 2 := by decide
  have hlengths : ∀ n ∈ [1, 2], n ≤ 2 := by decide
  have hpack : packSequences ([[1, 0], [2, 3]] : List (List ℤ)) [1, 2] [1, 1] 0 true 0 =
      .ok ⟨[[1, 0], [2, 3]], [[0, 0], [0, 1]],
        some [[[true, false], [false, false]], [[true, false], [true, true]]]⟩ := rfl
  exact (rowsIsolated_iff hbatch hlengths hpack).2.2.2.mpr (by decide)

/-- The third token of the row belongs to the second sequence and sees the first one. -/
theorem packedRow_leaks :
    ¬ ∀ packed : PackedSequences ℤ,
      packSequences [[1, 2], [3, 0]] [2, 1] [2] 0 true 0 = .ok packed →
      ForRows (sequenceGroups [[1, 2], [3, 0]] [2, 1] [2]) packed
        (fun seqs row positionIds mask => RowIsolated seqs 0 row positionIds mask) := by
  intro h
  have hrow := (h _ rfl).holds 0 [[1, 2], [3]] [1, 2, 3] [0, 1, 0] rfl rfl rfl
  have hentry := hrow.maskIsolated _ rfl 2 (by decide) 0 (by decide)
  revert hentry
  decide

end NemoRL.HuggingFace
