import NemoRL.Distributed.VocabTopk
import Mathlib.Algebra.BigOperators.Group.Finset.Piecewise
import Mathlib.Algebra.Order.Group.Nat
import Mathlib.Algebra.Ring.Int.Defs

/-!
# The largest logits are those of the whole rows

The largest entries of a whole row are among the largest entries of its parts, so that what the
ranks choose of the gathered entries is what one rank would choose of the whole row, with the
same indices. At these indices the logits of the whole row are read.

## Main definitions

* `largest` — the largest entries of a row.

## Main results

* `overChunks_eq` — going through a sequence in chunks goes through it.
* `positionTopk_eq` — the choice for one position.
* `positionLogits_eq` — the logits read for one position.
* `distributedVocabTopk_spec` — both calls, for every position.
-/

namespace NemoRL.Distributed

open Lib

/-! ## Chunks -/

theorem flatMap_seqChunks (seqLen chunkSize m : ℕ) :
    ((List.range m).flatMap fun i => List.range' (i * chunkSize)
      (min seqLen (i * chunkSize + chunkSize) - i * chunkSize)) =
        List.range (min seqLen (m * chunkSize)) := by
  induction m with
  | zero => simp
  | succ m ih =>
    rw [List.range_succ, List.flatMap_append, ih, List.flatMap_singleton, Nat.succ_mul]
    cases Nat.le_total seqLen (m * chunkSize) with
    | inl hle =>
      have hnone : min seqLen (m * chunkSize + chunkSize) - m * chunkSize = 0 := by omega
      rw [hnone, List.range'_zero, List.append_nil, Nat.min_eq_left hle,
        Nat.min_eq_left (by omega)]
    | inr hle =>
      have hsum : min seqLen (m * chunkSize + chunkSize) =
          m * chunkSize + (min seqLen (m * chunkSize + chunkSize) - m * chunkSize) := by omega
      rw [Nat.min_eq_right hle]
      conv => rhs; rw [hsum]
      rw [List.range_eq_range', List.range_eq_range', ← List.range'_append, Nat.zero_add,
        Nat.one_mul]

/-- The chunks of a sequence cover each position once, in order. -/
theorem flatMap_range'_seqChunks (seqLen : ℕ) {chunkSize : ℕ} (hchunk : 0 < chunkSize) :
    ((seqChunks seqLen chunkSize).flatMap fun p => List.range' p.1 (p.2 - p.1)) =
      List.range seqLen := by
  have hcover : seqLen ≤ (seqLen + chunkSize - 1) / chunkSize * chunkSize := by
    have hdiv := Nat.div_add_mod (seqLen + chunkSize - 1) chunkSize
    have hmod := Nat.mod_lt (seqLen + chunkSize - 1) hchunk
    rw [Nat.mul_comm] at hdiv
    omega
  rw [seqChunks, List.flatMap_map, flatMap_seqChunks, Nat.min_eq_left hcover]

theorem lt_of_mem_seqChunks {seqLen chunkSize s : ℕ} {p : ℕ × ℕ}
    (hp : p ∈ seqChunks seqLen chunkSize) (hs : s ∈ List.range' p.1 (p.2 - p.1)) :
    s < seqLen := by
  obtain ⟨i, -, rfl⟩ := List.mem_map.mp hp
  rw [List.mem_range'_1] at hs
  omega

/-- The positions of a chunk with what a sequence holds there. -/
theorem zipIdx_slice_map {β : Type} {seqLen chunkSize : ℕ} {p : ℕ × ℕ}
    (hp : p ∈ seqChunks seqLen chunkSize) {f : ℕ → β} :
    (slice ((List.range seqLen).map f) p.1 p.2).zipIdx p.1 =
      (List.range' p.1 (p.2 - p.1)).map fun s => (f s, s) := by
  obtain ⟨i, -, rfl⟩ := List.mem_map.mp hp
  dsimp only
  refine List.ext_getElem? ?_
  intro j
  rw [List.getElem?_zipIdx, List.getElem?_map, slice]
  cases Nat.lt_or_ge j (min seqLen (i * chunkSize + chunkSize) - i * chunkSize) with
  | inl hlt =>
    rw [List.getElem?_take_of_lt hlt, List.getElem?_drop, List.getElem?_map,
      List.getElem?_range (by omega), List.getElem?_range' hlt]
    simp
  | inr hge =>
    rw [List.getElem?_take_eq_none hge, List.getElem?_eq_none (by simpa using hge)]
    rfl

theorem entry_range {β : Type} {batch seqLen b s : ℕ} {f : ℕ → ℕ → β} (hb : b < batch)
    (hs : s < seqLen) :
    entry ((List.range batch).map fun b => (List.range seqLen).map (f b)) b s =
      some (f b s) := by
  rw [entry, List.getElem?_map, List.getElem?_range hb]
  simp [hs]

/-- Going through a sequence in chunks computes each position once. -/
theorem overChunks_eq {β : Type} {batch seqLen : ℕ} {chunkSize : Option ℕ}
    {chunk : ℕ → ℕ → Except PyError (List (List β))} {g : ℕ → ℕ → β} (hseq : 0 < seqLen)
    (hchunk : ∀ c ∈ chunkSize, 1 ≤ c)
    (h : ∀ p ∈ seqChunks seqLen (chunkSize.getD seqLen), chunk p.1 p.2 =
      .ok ((List.range batch).map fun b => (List.range' p.1 (p.2 - p.1)).map (g b))) :
    overChunks batch seqLen chunkSize chunk =
      .ok ((List.range batch).map fun b => (List.range seqLen).map (g b)) := by
  have hpos : 0 < chunkSize.getD seqLen := by
    cases chunkSize with
    | none => exact hseq
    | some c => exact hchunk c rfl
  have hcover := flatMap_range'_seqChunks seqLen hpos
  have hsome : seqChunks seqLen (chunkSize.getD seqLen) ≠ [] := by
    intro hnil
    rw [hnil, List.flatMap_nil] at hcover
    have hlen := congrArg List.length hcover
    rw [List.length_nil, List.length_range] at hlen
    omega
  rw [overChunks]
  simp only [if_neg hpos.ne']
  rw [mapM_of_forall h]
  simp only [bind, Except.bind, pure, Except.pure, List.map_eq_nil_iff, if_neg hsome]
  congr 1
  refine List.map_congr_left ?_
  intro b hb
  rw [List.mem_range] at hb
  rw [List.flatMap_map, ← hcover, List.map_flatMap]
  refine List.flatMap_congr ?_
  intro p _
  rw [List.getD_eq_getElem?_getD, List.getElem?_map, List.getElem?_range hb]
  rfl

/-! ## Parts of a row -/

section Rows
variable {K : Type} (x : ShardedLogits K)

theorem zipIdx_add (l : List K) (m : ℕ) :
    l.zipIdx.map (fun p => (p.1, p.2 + m)) = l.zipIdx m := by
  rw [List.zipIdx_eq_map_add (i := m)]
  simp [Nat.add_comm]

/-- The entries of the parts with their indices in the vocabulary are those of the whole
row. -/
theorem zipIdx_fullRow (b s : ℕ) :
    ((List.range x.worldSize).flatMap fun rank => (x.row rank b s).zipIdx (rank * x.vLocal)) =
      (x.fullRow b s).zipIdx := by
  rw [ShardedLogits.fullRow]
  induction x.worldSize with
  | zero => rfl
  | succ w ih =>
    have hlen : ((List.range w).flatMap fun rank => x.row rank b s).length = w * x.vLocal :=
      length_flatMap_range fun rank _ => x.length_row rank b s
    rw [List.range_succ, List.flatMap_append, List.flatMap_append, ih, List.flatMap_singleton,
      List.flatMap_singleton, List.zipIdx_append, hlen, Nat.zero_add]

theorem length_fullRow (b s : ℕ) : (x.fullRow b s).length = x.worldSize * x.vLocal :=
  length_flatMap_range fun rank _ => x.length_row rank b s

variable {x}

/-- An entry of the whole row is an entry of the part that it lies in. -/
theorem getElem?_fullRow {b s rank i : ℕ} (hrank : rank < x.worldSize) (hi : i < x.vLocal) :
    (x.fullRow b s)[rank * x.vLocal + i]? = (x.row rank b s)[i]? := by
  have hblock : block x.vLocal rank (x.fullRow b s) = x.row rank b s :=
    block_flatMap_range (fun r _ => x.length_row r b s) hrank
  rw [← hblock, block, slice, List.getElem?_take_of_lt (by omega), List.getElem?_drop]

/-- In a row of distinct entries the value of an entry tells its index. -/
theorem zipIdx_inj {l : List K} (hnd : l.Nodup) :
    ∀ p ∈ l.zipIdx, ∀ q ∈ l.zipIdx, p.1 = q.1 → p = q := by
  intro p hp q hq heq
  rw [List.mem_zipIdx_iff_getElem?] at hp hq
  rw [← heq] at hq
  have hlt : p.2 < l.length := (List.getElem?_eq_some_iff.mp hp).1
  exact Prod.ext heq ((List.getElem?_inj hlt hnd).mp (hp.trans hq.symm))

end Rows

/-! ## The choice for one position -/

section Topk
variable {K : Type} [LinearOrder K] {x : ShardedLogits K}

theorem torchTopk_eq {k : ℕ} {row : List K} (h : k ≤ row.length) :
    torchTopk k row =
      .ok ((topK Prod.fst k row.zipIdx).map Prod.fst,
        (topK Prod.fst k row.zipIdx).map Prod.snd) := by
  rw [torchTopk, if_neg (by omega)]

/-- The entries that a rank contributes, with their indices in the vocabulary. -/
def candidates (x : ShardedLogits K) (k b s rank : ℕ) : List (K × ℕ) :=
  topK Prod.fst k ((x.row rank b s).zipIdx (rank * x.vLocal))

omit [LinearOrder K] in
theorem length_zipIdx_row (b s rank m : ℕ) : ((x.row rank b s).zipIdx m).length = x.vLocal := by
  rw [List.length_zipIdx, x.length_row]

theorem localTopk_eq (k b s rank : ℕ) :
    localTopk x k (fun r => r * x.vLocal) b s rank =
      .ok ((candidates x k b s rank).map Prod.fst,
        (candidates x k b s rank).map fun p => (p.2 : ℤ)) := by
  have htop : (topK Prod.fst (min k x.vLocal) (x.row rank b s).zipIdx).map
      (fun p => (p.1, p.2 + rank * x.vLocal)) = candidates x k b s rank := by
    rw [map_topK Prod.fst Prod.fst, zipIdx_add, candidates, ← topK_min_length Prod.fst k,
      length_zipIdx_row]
    exact fun p _ => rfl
  have hfit : min k x.vLocal ≤ (x.row rank b s).length := by
    rw [x.length_row]
    omega
  rw [localTopk, torchTopk_eq hfit, ← htop]
  simp [bind, Except.bind, pure, Except.pure]

/-- The entries with the largest values among what the ranks contribute are those of the whole
row. -/
theorem topK_candidates {k b s : ℕ} (hnd : (x.fullRow b s).Nodup) :
    topK Prod.fst k ((List.range x.worldSize).flatMap (candidates x k b s)) =
      topK Prod.fst k (x.fullRow b s).zipIdx := by
  have hflat : ((List.range x.worldSize).map fun rank =>
      (x.row rank b s).zipIdx (rank * x.vLocal)).flatten = (x.fullRow b s).zipIdx := by
    rw [← zipIdx_fullRow]
    rfl
  have hinj := zipIdx_inj hnd
  rw [← hflat] at hinj ⊢
  rw [← topK_flatMap k hinj, List.flatMap_map]
  rfl

theorem topK_of_le {α : Type} {key : α → K} {j k : ℕ} {l l' : List α} (hjk : j ≤ k)
    (h : topK key k l = topK key k l') : topK key j l = topK key j l' := by
  have hl : ∀ m : List α, topK key j m = (topK key k m).take j := by
    intro m
    rw [topK, topK, List.take_take, Nat.min_eq_left hjk]
  rw [hl, hl, h]

/-- What the ranks choose for a position is what is largest in the whole row. -/
theorem positionTopk_eq {k b s : ℕ} (hvocab : 0 < x.worldSize * x.vLocal)
    (hnd : (x.fullRow b s).Nodup) :
    positionTopk x k (fun r => r * x.vLocal) b s =
      .ok ((topK Prod.fst (min k (x.worldSize * x.vLocal)) (x.fullRow b s).zipIdx).map Prod.fst,
        (topK Prod.fst (min k (x.worldSize * x.vLocal)) (x.fullRow b s).zipIdx).map
          fun p => (p.2 : ℤ)) := by
  let pool := (List.range x.worldSize).flatMap (candidates x k b s)
  have hgathered := mapM_of_forall (f := localTopk x k (fun r => r * x.vLocal) b s)
    fun rank (_ : rank ∈ List.range x.worldSize) => localTopk_eq (x := x) k b s rank
  have hkEff : min k (max 1 (x.vLocal * x.worldSize)) = min k (x.worldSize * x.vLocal) := by
    rw [Nat.mul_comm, max_eq_right hvocab]
  have hpool : min k (x.worldSize * x.vLocal) ≤ pool.length := by
    have htop := congrArg List.length (topK_candidates (k := k) hnd)
    rw [length_topK, length_topK, List.length_zipIdx, length_fullRow] at htop
    change min k pool.length = _ at htop
    omega
  have hchoice := topK_of_le (Nat.min_le_left k (x.worldSize * x.vLocal))
    (topK_candidates (k := k) hnd)
  -- Choosing positions in the pool and reading the indices there is choosing from the pool.
  have hread : (topK Prod.fst (min k (x.worldSize * x.vLocal)) (pool.map Prod.fst).zipIdx).map
      (fun p => (p.1, (pool.map fun p => (p.2 : ℤ)).getD p.2 0)) =
      (topK Prod.fst (min k (x.worldSize * x.vLocal)) pool).map fun p => (p.1, (p.2 : ℤ)) := by
    have hsame : (pool.map Prod.fst).zipIdx.map
        (fun p => (p.1, (pool.map fun p => (p.2 : ℤ)).getD p.2 0)) =
          pool.map fun p => (p.1, (p.2 : ℤ)) := by
      refine List.ext_getElem? ?_
      intro i
      rw [List.getElem?_map, List.getElem?_zipIdx, List.getElem?_map, List.getElem?_map]
      cases hi : pool[i]? with
      | none => rfl
      | some p => simp [List.getD_eq_getElem?_getD, hi]
    calc (topK Prod.fst (min k (x.worldSize * x.vLocal)) (pool.map Prod.fst).zipIdx).map
          (fun p => (p.1, (pool.map fun p => (p.2 : ℤ)).getD p.2 0))
        = topK Prod.fst (min k (x.worldSize * x.vLocal)) ((pool.map Prod.fst).zipIdx.map
            fun p => (p.1, (pool.map fun p => (p.2 : ℤ)).getD p.2 0)) :=
          map_topK Prod.fst Prod.fst _ fun _ _ => rfl
      _ = topK Prod.fst (min k (x.worldSize * x.vLocal)) (pool.map fun p => (p.1, (p.2 : ℤ))) := by
          rw [hsame]
      _ = (topK Prod.fst (min k (x.worldSize * x.vLocal)) pool).map
            fun p => (p.1, (p.2 : ℤ)) := by
          rw [map_topK Prod.fst Prod.fst]
          exact fun p _ => rfl
  have hvals := congrArg (List.map Prod.fst) hread
  have hidx := congrArg (List.map Prod.snd) hread
  simp only [List.map_map, Function.comp_def] at hvals hidx
  rw [positionTopk, hgathered]
  simp only [bind, Except.bind, pure, Except.pure, List.flatMap_map, hkEff]
  have hfst : ((List.range x.worldSize).flatMap fun rank =>
      (candidates x k b s rank).map Prod.fst) = pool.map Prod.fst := by
    rw [List.map_flatMap]
  have hsnd : ((List.range x.worldSize).flatMap fun rank =>
      (candidates x k b s rank).map fun p => (p.2 : ℤ)) = pool.map fun p => (p.2 : ℤ) := by
    rw [List.map_flatMap]
  rw [hfst, hsnd, torchTopk_eq (by rwa [List.length_map])]
  simp only [List.map_map, Function.comp_def]
  rw [hvals, hidx]
  rw [hchoice]

end Topk

/-! ## The logits of one position -/

section Gather
variable {K : Type} [Ring K] {x : ShardedLogits K}

/-- The rank that holds an index reads its logit, and every other rank reads zero. -/
theorem localLogit_eq {b s owner i : ℕ} {v : K} (hi : i < x.vLocal)
    (hv : (x.row owner b s)[i]? = some v) (rank : ℕ) :
    localLogit x (fun r => r * x.vLocal) (fun r => r * x.vLocal + x.vLocal) b s
        ((owner * x.vLocal + i : ℕ) : ℤ) rank = .ok (if rank = owner then v else 0) := by
  rw [localLogit]
  rcases Nat.lt_trichotomy rank owner with hlt | heq | hgt
  · have hend := block_end_le x.vLocal hlt
    have hli : min (max (((owner * x.vLocal + i : ℕ) : ℤ) - ((rank * x.vLocal : ℕ) : ℤ)) 0)
        ((x.vLocal : ℤ) - 1) = ((x.vLocal - 1 : ℕ) : ℤ) := by omega
    have hlast : x.vLocal - 1 < (x.row rank b s).length := by
      rw [x.length_row]
      omega
    have hout : ¬(((rank * x.vLocal : ℕ) : ℤ) ≤ ((owner * x.vLocal + i : ℕ) : ℤ) ∧
        ((owner * x.vLocal + i : ℕ) : ℤ) < ((rank * x.vLocal + x.vLocal : ℕ) : ℤ)) := by
      omega
    rw [hli, if_neg (by omega), Int.toNat_natCast, List.getElem?_eq_getElem hlast]
    simp only [if_neg hout, mul_zero, if_neg hlt.ne]
  · subst heq
    have hli : min (max (((rank * x.vLocal + i : ℕ) : ℤ) - ((rank * x.vLocal : ℕ) : ℤ)) 0)
        ((x.vLocal : ℤ) - 1) = (i : ℤ) := by omega
    have hin : ((rank * x.vLocal : ℕ) : ℤ) ≤ ((rank * x.vLocal + i : ℕ) : ℤ) ∧
        ((rank * x.vLocal + i : ℕ) : ℤ) < ((rank * x.vLocal + x.vLocal : ℕ) : ℤ) := by
      omega
    rw [hli, if_neg (by omega), Int.toNat_natCast, hv]
    simp only [if_pos hin, mul_one, if_true]
  · have hend := block_end_le x.vLocal hgt
    have hli : min (max (((owner * x.vLocal + i : ℕ) : ℤ) - ((rank * x.vLocal : ℕ) : ℤ)) 0)
        ((x.vLocal : ℤ) - 1) = ((0 : ℕ) : ℤ) := by omega
    have hfirst : 0 < (x.row rank b s).length := by
      rw [x.length_row]
      omega
    have hout : ¬(((rank * x.vLocal : ℕ) : ℤ) ≤ ((owner * x.vLocal + i : ℕ) : ℤ) ∧
        ((owner * x.vLocal + i : ℕ) : ℤ) < ((rank * x.vLocal + x.vLocal : ℕ) : ℤ)) := by
      omega
    rw [hli, if_neg (by omega), Int.toNat_natCast, List.getElem?_eq_getElem hfirst]
    simp only [if_neg hout, mul_zero, if_neg hgt.ne']

/-- Summing over the ranks leaves what the owner of an index reads. -/
theorem sum_range_ite {owner w : ℕ} (howner : owner < w) (v : K) :
    ((List.range w).map fun rank => if rank = owner then v else 0).sum = v := by
  rw [← List.sum_toFinset _ List.nodup_range, Finset.sum_ite_eq' _ _ fun _ => v,
    if_pos (List.mem_toFinset.mpr (List.mem_range.mpr howner))]

/-- At indices of the whole row its entries are read. -/
theorem positionLogits_eq {b s : ℕ} {entries : List (K × ℕ)}
    (h : ∀ p ∈ entries, (x.fullRow b s)[p.2]? = some p.1) :
    positionLogits x (fun r => r * x.vLocal) (fun r => r * x.vLocal + x.vLocal) b s
      (entries.map fun p => (p.2 : ℤ)) = .ok (entries.map Prod.fst) := by
  have hread : ∀ p ∈ entries,
      (List.range x.worldSize).mapM (localLogit x (fun r => r * x.vLocal)
        (fun r => r * x.vLocal + x.vLocal) b s (p.2 : ℤ)) =
          .ok ((List.range x.worldSize).map fun rank =>
            if rank = p.2 / x.vLocal then p.1 else 0) ∧ p.2 / x.vLocal < x.worldSize := by
    intro p hp
    have hget := h p hp
    have hlt : p.2 < x.worldSize * x.vLocal := by
      rw [← length_fullRow x b s]
      exact (List.getElem?_eq_some_iff.mp hget).1
    have hvocab : 0 < x.vLocal := by
      rcases Nat.eq_zero_or_pos x.vLocal with hzero | hpos
      · rw [hzero, Nat.mul_zero] at hlt
        omega
      · exact hpos
    have howner : p.2 / x.vLocal < x.worldSize := Nat.div_lt_of_lt_mul (by rwa [Nat.mul_comm])
    have hi : p.2 % x.vLocal < x.vLocal := Nat.mod_lt _ hvocab
    have hsplit : p.2 / x.vLocal * x.vLocal + p.2 % x.vLocal = p.2 := Nat.div_add_mod' _ _
    rw [← hsplit, getElem?_fullRow howner hi] at hget
    refine ⟨mapM_of_forall ?_, howner⟩
    intro rank _
    have hlogit := localLogit_eq hi hget rank
    rwa [hsplit] at hlogit
  rw [positionLogits, mapM_eq_ok, List.forall₂_map_left_iff, List.forall₂_map_right_iff,
    List.forall₂_same]
  intro p hp
  obtain ⟨hvals, howner⟩ := hread p hp
  rw [hvals]
  exact congrArg Except.ok (sum_range_ite howner p.1)

end Gather

/-! ## Both calls -/

section Both
variable {K : Type} [LinearOrder K] {x : ShardedLogits K} {chunkSize : Option ℕ}

/-- The largest entries of the row of a position with their indices. -/
def largestEntries (x : ShardedLogits K) (k b s : ℕ) : List (K × ℕ) :=
  topK Prod.fst (min k (x.worldSize * x.vLocal)) (x.fullRow b s).zipIdx

theorem getElem?_largestEntries {k b s : ℕ} {p : K × ℕ} (h : p ∈ largestEntries x k b s) :
    (x.fullRow b s)[p.2]? = some p.1 :=
  List.mem_zipIdx_iff_getElem?.mp (topK_subset _ _ _ h)

/-- The values of the largest entries are the largest values. -/
theorem map_fst_largestEntries (x : ShardedLogits K) (k b s : ℕ) :
    (largestEntries x k b s).map Prod.fst =
      topK id (min k (x.worldSize * x.vLocal)) (x.fullRow b s) := by
  rw [largestEntries, map_topK Prod.fst id, List.zipIdx_map_fst]
  exact fun p _ => rfl

theorem distributedVocabTopk_eq {k rank : ℕ} (hvocab : 0 < x.vLocal) (hworld : 0 < x.worldSize)
    (hseq : 0 < x.seqLen) (hchunk : ∀ c ∈ chunkSize, 1 ≤ c)
    (hnd : ∀ b < x.batch, ∀ s < x.seqLen, (x.fullRow b s).Nodup) :
    distributedVocabTopk x k (fun r => r * x.vLocal) (fun r => r * x.vLocal + x.vLocal)
        chunkSize rank =
      .ok ((List.range x.batch).map fun b => (List.range x.seqLen).map fun s =>
          (largestEntries x k b s).map Prod.fst,
        (List.range x.batch).map fun b => (List.range x.seqLen).map fun s =>
          (largestEntries x k b s).map fun p => (p.2 : ℤ)) := by
  have hall := Nat.mul_pos hworld hvocab
  have htopk : overChunks x.batch x.seqLen chunkSize (fun s0 s1 =>
      (List.range x.batch).mapM fun b =>
        (List.range' s0 (s1 - s0)).mapM (positionTopk x k (fun r => r * x.vLocal) b)) =
      .ok ((List.range x.batch).map fun b => (List.range x.seqLen).map fun s =>
        ((largestEntries x k b s).map Prod.fst,
          (largestEntries x k b s).map fun p => (p.2 : ℤ))) := by
    refine overChunks_eq hseq hchunk ?_
    intro p hp
    refine mapM_of_forall fun b hb => mapM_of_forall fun s hs => ?_
    exact positionTopk_eq hall (hnd b (List.mem_range.mp hb) s (lt_of_mem_seqChunks hp hs))
  rw [distributedVocabTopk, if_neg (by omega), htopk]
  simp [bind, Except.bind, pure, Except.pure, Function.comp_def]

theorem gatherLogitsAtGlobalIndices_eq [Ring K] {k : ℕ} (hseq : 0 < x.seqLen)
    (hchunk : ∀ c ∈ chunkSize, 1 ≤ c) (cpRank : ℕ) :
    gatherLogitsAtGlobalIndices (fun _ => x)
        ((List.range x.batch).map fun b => (List.range x.seqLen).map fun s =>
          (largestEntries x k b s).map fun p => (p.2 : ℤ))
        (fun r => r * x.vLocal) (fun r => r * x.vLocal + x.vLocal) chunkSize cpRank 1 =
      .ok ((List.range x.batch).map fun b => (List.range x.seqLen).map fun s =>
        (largestEntries x k b s).map Prod.fst) := by
  rw [gatherLogitsAtGlobalIndices, if_neg (by omega), gatherLocalLogits]
  refine overChunks_eq hseq hchunk ?_
  intro p hp
  refine mapM_of_forall fun b hb => ?_
  rw [List.mem_range] at hb
  have hslice : (slice (((List.range x.batch).map fun b => (List.range x.seqLen).map fun s =>
      (largestEntries x k b s).map fun p => (p.2 : ℤ)).getD b []) p.1 p.2).zipIdx p.1 =
        (List.range' p.1 (p.2 - p.1)).map fun s =>
          ((largestEntries x k b s).map fun p => (p.2 : ℤ), s) := by
    rw [List.getD_eq_getElem?_getD, List.getElem?_map, List.getElem?_range hb]
    exact zipIdx_slice_map hp
  rw [hslice, mapM_eq_ok, List.forall₂_map_left_iff, List.forall₂_map_right_iff,
    List.forall₂_same]
  intro s _
  exact positionLogits_eq fun p hp => getElem?_largestEntries hp

/-- On every rank and for every position, the call gives the largest logits of the whole row in
decreasing order with their indices in the vocabulary, and at these indices the same logits are
read. -/
theorem distributedVocabTopk_spec [Ring K] (x : ShardedLogits K) (k : ℕ)
    (chunkSize chunkSize' : Option ℕ) (hvocab : 0 < x.vLocal)
    (hchunk : ∀ c ∈ chunkSize, 1 ≤ c) (hchunk' : ∀ c ∈ chunkSize', 1 ≤ c)
    (hnd : ∀ b < x.batch, ∀ s < x.seqLen, (x.fullRow b s).Nodup) (b s rank : ℕ)
    (hb : b < x.batch) (hs : s < x.seqLen) (hrank : rank < x.worldSize) :
    ∃ vals indices,
      distributedVocabTopk x k (fun r => r * x.vLocal) (fun r => r * x.vLocal + x.vLocal)
        chunkSize rank = .ok (vals, indices) ∧
      entry vals b s = some (topK id (min k (x.worldSize * x.vLocal)) (x.fullRow b s)) ∧
      (∃ ids : List ℕ, entry indices b s = some (ids.map Nat.cast) ∧
        ids.map (fun i => (x.fullRow b s)[i]?) =
          (topK id (min k (x.worldSize * x.vLocal)) (x.fullRow b s)).map some) ∧
      gatherLogitsAtGlobalIndices (fun _ => x) indices (fun r => r * x.vLocal)
        (fun r => r * x.vLocal + x.vLocal) chunkSize' 0 1 = .ok vals := by
  have hseq : 0 < x.seqLen := by omega
  refine ⟨_, _, distributedVocabTopk_eq hvocab (by omega) hseq hchunk hnd, ?_, ?_,
    gatherLogitsAtGlobalIndices_eq hseq hchunk' 0⟩
  · rw [entry_range hb hs, map_fst_largestEntries]
  · refine ⟨(largestEntries x k b s).map Prod.snd, ?_, ?_⟩
    · rw [entry_range hb hs, List.map_map]
      rfl
    · rw [← map_fst_largestEntries, List.map_map, List.map_map]
      refine List.map_congr_left ?_
      intro p hp
      exact getElem?_largestEntries hp

/-- Two ranks with two logits each, in chunks of one position. -/
theorem distributedVocabTopk_spec_two :
    ∃ vals indices,
      distributedVocabTopk (K := ℤ)
        ⟨2, 1, 1, 2, fun rank _ _ => [rank, 5 - rank], fun _ _ _ => rfl⟩ 3 (fun r => r * 2)
        (fun r => r * 2 + 2) (some 1) 0 = .ok (vals, indices) ∧
      entry vals 0 0 = some (topK id 3 [0, 5, 1, 4]) := by
  obtain ⟨vals, indices, heq, hvals, -⟩ := distributedVocabTopk_spec (K := ℤ)
    ⟨2, 1, 1, 2, fun rank _ _ => [rank, 5 - rank], fun _ _ _ => rfl⟩ 3 (some 1) none
    (by decide) (by simp) (by simp) (by decide) 0 0 0 (by decide) (by decide) (by decide)
  exact ⟨vals, indices, heq, hvals⟩

end Both

end NemoRL.Distributed
