import Mathlib.Data.List.Nodup
import Mathlib.Data.List.Perm.Basic
import NemoRL.Lib.Segments

/-!
# Zig-zag distribution

To balance causal attention over `n` ranks, a sequence is cut into `2n` pieces of one size,
and rank `r` gets piece `r` and piece `2n - 1 - r`. Gathering undoes it: the pieces of all
ranks are sorted by their index and put one after another.

## Main definitions

* `piece` — one of the pieces.
* `zigzag` — what a rank gets.
* `gather` — what the ranks get back from all of them.

## Main results

* `zigzag_map`, `zigzag_zipWith` — a rank may work on its pieces alone.
* `gather_zigzag` — gathering gives the sequence back.
-/

namespace NemoRL.Lib

variable {α β γ : Type*} {n r s : ℕ}

/-! ## Pieces -/

/-- The piece with index `i` among the pieces of size `s`. -/
def piece (s i : ℕ) (xs : List α) : List α := slice xs (i * s) ((i + 1) * s)

theorem piece_eq (s i : ℕ) (xs : List α) : piece s i xs = (xs.drop (i * s)).take s := by
  rw [piece, slice, Nat.succ_mul, Nat.add_sub_cancel_left]

theorem length_piece {i k : ℕ} {xs : List α} (h : xs.length = k * s) (hi : i < k) :
    (piece s i xs).length = s := by
  have hle : (i + 1) * s ≤ k * s := Nat.mul_le_mul_right s hi
  rw [Nat.succ_mul] at hle
  rw [piece_eq, List.length_take, List.length_drop]
  omega

theorem piece_map (f : α → β) (i : ℕ) (xs : List α) :
    piece s i (xs.map f) = (piece s i xs).map f := by
  rw [piece_eq, piece_eq, List.map_take, List.map_drop]

theorem piece_zipWith (f : α → β → γ) (i : ℕ) (xs : List α) (ys : List β) :
    piece s i (List.zipWith f xs ys) = List.zipWith f (piece s i xs) (piece s i ys) := by
  rw [piece_eq, piece_eq, piece_eq, List.drop_zipWith, List.take_zipWith]

/-- All pieces one after another. -/
theorem flatten_pieces {k : ℕ} {xs : List α} (h : xs.length = k * s) :
    ((List.range k).map fun i => piece s i xs).flatten = xs := by
  induction k generalizing xs with
  | zero =>
    rw [Nat.zero_mul, List.length_eq_zero_iff] at h
    rw [h]
    rfl
  | succ k ih =>
    have hdrop : (xs.drop s).length = k * s := by
      rw [List.length_drop, h, Nat.succ_mul, Nat.add_sub_cancel]
    have hpiece : ∀ i, piece s (i + 1) xs = piece s i (xs.drop s) := by
      intro i
      rw [piece_eq, piece_eq, List.drop_drop, Nat.succ_mul, Nat.add_comm]
    rw [List.range_succ_eq_map, List.map_cons, List.map_map, List.flatten_cons]
    simp only [Function.comp_def, Nat.succ_eq_add_one, hpiece, ih hdrop]
    rw [piece_eq, Nat.zero_mul, List.drop_zero, List.take_append_drop]

/-! ## Distribution -/

/-- The pieces of rank `r` of `n`. -/
def zigzag (r n : ℕ) (xs : List α) : List α :=
  piece (xs.length / (n * 2)) r xs ++ piece (xs.length / (n * 2)) (n * 2 - r - 1) xs

theorem length_zigzag {xs : List α} (h : n * 2 ∣ xs.length) (hr : r < n) :
    (zigzag r n xs).length = xs.length / n := by
  obtain ⟨m, hm⟩ := h
  have hpos : 0 < n * 2 := by omega
  have hs : xs.length / (n * 2) = m := by rw [hm, Nat.mul_div_cancel_left m hpos]
  have hlen : xs.length = n * 2 * m := hm
  rw [zigzag, hs, List.length_append, length_piece hlen (by omega),
    length_piece hlen (by omega), hm, Nat.mul_assoc, Nat.mul_div_cancel_left _ (by omega)]
  omega

theorem zigzag_map (f : α → β) (xs : List α) : zigzag r n (xs.map f) = (zigzag r n xs).map f := by
  rw [zigzag, List.length_map, piece_map, piece_map, ← List.map_append, ← zigzag]

theorem zigzag_zipWith (f : α → β → γ) {xs : List α} {ys : List β} (h : xs.length = ys.length) :
    zigzag r n (List.zipWith f xs ys) = List.zipWith f (zigzag r n xs) (zigzag r n ys) := by
  have hpiece : ∀ i, (piece (ys.length / (n * 2)) i xs).length =
      (piece (ys.length / (n * 2)) i ys).length := by
    intro i
    rw [piece_eq, piece_eq, List.length_take, List.length_take, List.length_drop,
      List.length_drop, h]
  rw [zigzag, zigzag, zigzag, List.length_zipWith, h, Nat.min_self, piece_zipWith, piece_zipWith,
    List.zipWith_append (hpiece r)]

/-! ## Gathering -/

/-- Cut a list into two chunks, the first not shorter. One element makes a single chunk. -/
def chunkTwo (xs : List α) : List (List α) :=
  let size := (xs.length + 1) / 2
  if xs.length = 0 then [[], []]
  else if xs.length ≤ size then [xs]
  else [xs.take size, xs.drop size]

theorem chunkTwo_append {xs ys : List α} (h : xs.length = ys.length) :
    chunkTwo (xs ++ ys) = [xs, ys] := by
  have hsize : ((xs ++ ys).length + 1) / 2 = xs.length := by
    rw [List.length_append]
    omega
  simp only [chunkTwo, hsize]
  by_cases hzero : (xs ++ ys).length = 0
  · have hnil : xs = [] ∧ ys = [] := by simpa using hzero
    rw [if_pos hzero, hnil.1, hnil.2]
  · have hgt : ¬(xs ++ ys).length ≤ xs.length := by
      rw [List.length_append] at hzero ⊢
      omega
    rw [if_neg hzero, if_neg hgt, List.take_left, List.drop_left]

/-- The indices of the pieces in the order in which the ranks hold them. -/
def zigzagIndices (n : ℕ) : List ℕ := (List.range n).flatMap fun r => [r, 2 * n - r - 1]

theorem zigzagIndices_perm (n : ℕ) : (zigzagIndices n).Perm (List.range (2 * n)) := by
  have hnodup : (zigzagIndices n).Nodup := by
    rw [zigzagIndices, List.nodup_flatMap]
    constructor
    · intro r hr
      rw [List.mem_range] at hr
      simp only [List.nodup_cons, List.mem_singleton, List.not_mem_nil, not_false_eq_true,
        List.nodup_nil, and_true]
      omega
    · refine List.nodup_range.imp_of_mem fun {r r'} hr hr' hne => ?_
      rw [List.mem_range] at hr hr'
      simp only [Function.onFun, List.disjoint_left, List.mem_cons, List.not_mem_nil, or_false]
      omega
  refine (List.perm_ext_iff_of_nodup hnodup List.nodup_range).mpr fun i => ?_
  simp only [zigzagIndices, List.mem_flatMap, List.mem_range, List.mem_cons, List.not_mem_nil,
    or_false]
  constructor
  · rintro ⟨r, hr, rfl | rfl⟩ <;> omega
  · intro hi
    by_cases hlt : i < n
    · exact ⟨i, hlt, .inl rfl⟩
    · exact ⟨2 * n - i - 1, by omega, .inr (by omega)⟩

/-- Put the chunks of all ranks in the order of their indices. -/
def gather (n : ℕ) (ranks : List (List α)) : List α :=
  let chunks := ranks.flatMap chunkTwo
  let sorted := (chunks.zip (zigzagIndices n)).mergeSort fun p q => p.2 ≤ q.2
  (sorted.map Prod.fst).flatten

/-- Sorting items by their indices, when there is one for each index below a bound. -/
theorem mergeSort_indices {l : List ℕ} {k : ℕ} (hl : l.Perm (List.range k)) (f : ℕ → α) :
    ((l.map fun i => (f i, i)).mergeSort fun p q => p.2 ≤ q.2) =
      (List.range k).map fun i => (f i, i) := by
  have htrans : ∀ a b c : α × ℕ, decide (a.2 ≤ b.2) = true → decide (b.2 ≤ c.2) = true →
      decide (a.2 ≤ c.2) = true := by
    intro a b c
    simp only [decide_eq_true_eq]
    exact Nat.le_trans
  have htotal : ∀ a b : α × ℕ, (decide (a.2 ≤ b.2) || decide (b.2 ≤ a.2)) = true := by
    intro a b
    simpa using Nat.le_total a.2 b.2
  have hperm := List.mergeSort_perm (l.map fun i => (f i, i)) fun p q => p.2 ≤ q.2
  have hform : ∀ p ∈ (l.map fun i => (f i, i)).mergeSort (fun p q => p.2 ≤ q.2),
      p = (f p.2, p.2) := by
    intro p hp
    obtain ⟨i, -, rfl⟩ := List.mem_map.mp (hperm.mem_iff.mp hp)
    rfl
  have hsorted : ((l.map fun i => (f i, i)).mergeSort fun p q => p.2 ≤ q.2).Pairwise
      fun p q => p.2 ≤ q.2 := by
    simpa using List.pairwise_mergeSort htrans htotal (l.map fun i => (f i, i))
  have hrange : ((List.range k).map fun i => (f i, i)).Pairwise fun p q => p.2 ≤ q.2 := by
    rw [List.pairwise_map]
    exact List.pairwise_le_range
  refine List.Perm.eq_of_pairwise (fun p q hp hq hpq hqp => ?_) hsorted hrange
    (hperm.trans (hl.map _))
  obtain ⟨i, -, rfl⟩ := List.mem_map.mp hq
  rw [hform p hp, Nat.le_antisymm hpq hqp]

/-- Gathering what the ranks hold of a sequence gives the sequence. -/
theorem gather_zigzag {xs : List α} (hn : 0 < n) (h : n * 2 ∣ xs.length) :
    gather n ((List.range n).map fun r => zigzag r n xs) = xs := by
  obtain ⟨m, hm⟩ := h
  have hs : xs.length / (n * 2) = m := by rw [hm, Nat.mul_div_cancel_left m (by omega)]
  have hlen : xs.length = 2 * n * m := by rw [hm, Nat.mul_comm n 2]
  have hchunks : ((List.range n).map fun r => zigzag r n xs).flatMap chunkTwo =
      (zigzagIndices n).map fun i => piece m i xs := by
    rw [List.flatMap_map, zigzagIndices, List.map_flatMap]
    refine List.flatMap_congr fun r hr => ?_
    have hr := List.mem_range.mp hr
    rw [zigzag, hs, chunkTwo_append]
    · rw [Nat.mul_comm n 2]
      rfl
    · rw [length_piece hlen (by omega), length_piece hlen (by omega)]
  have hzip : ((zigzagIndices n).map fun i => piece m i xs).zip (zigzagIndices n) =
      (zigzagIndices n).map fun i => (piece m i xs, i) := by
    conv_lhs => rw [← List.map_id (zigzagIndices n), List.map_map, List.zip_map']
    rfl
  simp only [gather]
  rw [hchunks, hzip, mergeSort_indices (zigzagIndices_perm n), List.map_map]
  exact flatten_pieces hlen

end NemoRL.Lib
