import Mathlib.Data.List.SplitLengths
import NemoRL.Distributed.ModelUtils

/-!
# Packed log probabilities on every rank

The positions of a rank are a part of each sequence, and the log probabilities of a rank are
the same part of the log probabilities of each sequence. Gathering the parts of all ranks
gives the log probabilities of the whole sequences, so that every rank unpacks the rows that
it would unpack without context parallelism.

## Main results

* `rolledTargets_eq` — the targets of a rank.
* `gatherProbs_eq` — gathering gives the log probabilities of the sequences.
* `packedLogprobs_eq_serial` — the rows are those of the whole sequences.
* `getNextTokenLogprobs_eq` — the log probabilities of one sequence.
-/

namespace NemoRL.Distributed

open Lib

/-! ## The slice of a rank -/

section Tokens
variable {α β γ : Type} {rank cp : ℕ}

theorem getTokens_zipWith (f : α → β → γ) {xs : List α} {ys : List β}
    (h : xs.length = ys.length) :
    getTokensOnThisCpRank (List.zipWith f xs ys) rank cp =
      List.zipWith f (getTokensOnThisCpRank xs rank cp) (getTokensOnThisCpRank ys rank cp) := by
  by_cases hcp : cp = 1
  · simp [getTokensOnThisCpRank, hcp]
  · simp only [getTokensOnThisCpRank_eq hcp]
    exact zigzag_zipWith f h

/-- A sequence that can be distributed over the ranks. -/
def Divides (cp n : ℕ) : Prop := cp = 1 ∨ cp * 2 ∣ n

theorem Divides.dvd {n : ℕ} (h : Divides cp n) : cp ∣ n := by
  cases h with
  | inl h => exact h ▸ Nat.one_dvd n
  | inr h => exact (Nat.dvd_mul_right cp 2).trans h

theorem length_getTokens {xs : List α} (h : Divides cp xs.length) (hrank : rank < cp) :
    (getTokensOnThisCpRank xs rank cp).length = xs.length / cp := by
  by_cases hcp : cp = 1
  · simp [getTokensOnThisCpRank, hcp]
  · rw [getTokensOnThisCpRank_eq hcp]
    exact length_zigzag (h.resolve_left hcp) hrank

/-- Gathering what the ranks hold of a sequence. -/
theorem allgather_getTokens {xs : List α} (hcp : 1 < cp) (h : Divides cp xs.length) :
    allgatherCpShardedTensor cp ((List.range cp).map fun r => getTokensOnThisCpRank xs r cp) =
      xs := by
  simp only [getTokensOnThisCpRank_eq hcp.ne']
  exact gather_zigzag (by omega) (h.resolve_left hcp.ne')

end Tokens

/-! ## Packed sequences -/

section Parts
variable {α : Type} {lens : List ℕ} {xs : List α}

/-- Packed items are the concatenation of the sequences. -/
theorem exists_parts (h : xs.length = lens.sum) :
    ∃ parts : List (List α), parts.flatten = xs ∧ parts.map List.length = lens ∧
      (bounds (cumulative 0 lens)).map (fun p => slice xs p.1 p.2) = parts := by
  have hflat : (lens.splitLengths xs).flatten = xs := List.flatten_splitLengths _ _ h.le
  have hlens : (lens.splitLengths xs).map List.length = lens :=
    List.map_splitLengths_length _ _ h.ge
  refine ⟨lens.splitLengths xs, hflat, hlens, ?_⟩
  have hslices := map_slice_bounds [] (lens.splitLengths xs)
  rw [hlens, List.nil_append, hflat] at hslices
  exact hslices

theorem zipWith_flatten {β γ : Type} (f : α → β → γ) {as : List (List α)} {bs : List (List β)}
    (h : List.Forall₂ (fun a b => a.length = b.length) as bs) :
    List.zipWith f as.flatten bs.flatten = (List.zipWith (List.zipWith f) as bs).flatten := by
  induction h with
  | nil => rfl
  | cons hab _ ih =>
    rw [List.flatten_cons, List.flatten_cons, List.zipWith_append hab, ih]
    rfl

theorem forall₂_length {β : Type} {as : List (List α)} {bs : List (List β)}
    (h : as.map List.length = bs.map List.length) :
    List.Forall₂ (fun a b => a.length = b.length) as bs := by
  have hmap : List.Forall₂ (· = ·) (as.map List.length) (bs.map List.length) := by
    rw [List.forall₂_eq_eq_eq]
    exact h
  rw [List.forall₂_map_left_iff, List.forall₂_map_right_iff] at hmap
  exact hmap

end Parts

/-- What a rank holds of sequences that follow each other. -/
def partsOnRank {α : Type} (parts : List (List α)) (rank cp : ℕ) : List α :=
  parts.flatMap fun part => getTokensOnThisCpRank part rank cp

section Rows
variable {L T R : Type} [Zero T] [Zero R] (logprob : L → T → R) {lens : List ℕ}
  {cp rank : ℕ}

/-- Dividing the bounds by the number of ranks. -/
theorem bounds_divides (hdvd : ∀ n ∈ lens, Divides cp n) :
    (bounds (cumulative 0 lens)).map (fun p => (p.1 / cp, p.2 / cp)) =
      bounds (cumulative 0 (lens.map (· / cp))) := by
  have hdiv := bounds_div (fun n hn => (hdvd n hn).dvd) (Nat.dvd_zero cp)
  rwa [Nat.zero_div] at hdiv

theorem dvd_sum (hdvd : ∀ n ∈ lens, Divides cp n) : cp ∣ lens.sum := by
  induction lens with
  | nil => exact Nat.dvd_zero cp
  | cons n lens ih =>
    rw [List.sum_cons]
    exact Nat.dvd_add (hdvd n List.mem_cons_self).dvd
      (ih fun m hm => hdvd m (List.mem_cons_of_mem n hm))

theorem sum_div (hdvd : ∀ n ∈ lens, Divides cp n) : lens.sum / cp = (lens.map (· / cp)).sum := by
  induction lens with
  | nil => simp
  | cons n lens ih =>
    rw [List.sum_cons, List.map_cons, List.sum_cons,
      Nat.add_div_of_dvd_right (hdvd n List.mem_cons_self).dvd,
      ih fun m hm => hdvd m (List.mem_cons_of_mem n hm)]

omit [Zero R] in
/-- The targets of a rank are its slice of each rolled sequence. -/
theorem rolledTargets_eq {tokens : List T} {parts : List (List T)}
    (hparts : parts.flatten = tokens) (hlens : parts.map List.length = lens)
    (hslices : (bounds (cumulative 0 lens)).map (fun p => slice tokens p.1 p.2) = parts)
    (hdvd : ∀ n ∈ lens, Divides cp n) (hrank : rank < cp) :
    rolledTargets tokens (cumulative 0 lens) rank cp =
      .ok (partsOnRank (parts.map fun part => part.rotate 1) rank cp) := by
  have hlength : ∀ part ∈ parts, (getTokensOnThisCpRank (part.rotate 1) rank cp).length =
      part.length / cp := by
    intro part hpart
    rw [length_getTokens _ hrank, List.length_rotate]
    rw [List.length_rotate]
    exact hdvd _ (hlens ▸ List.mem_map_of_mem hpart)
  have hpieces : (bounds (cumulative 0 lens)).map (fun p =>
      (getTokensOnThisCpRank ((slice tokens p.1 p.2).rotate 1) rank cp).length) =
      lens.map (· / cp) := by
    have hmap := congrArg (List.map fun part =>
      (getTokensOnThisCpRank (part.rotate 1) rank cp).length) hslices
    rw [List.map_map] at hmap
    refine hmap.trans ?_
    rw [← hlens, List.map_map]
    exact List.map_congr_left hlength
  have hsum : (List.replicate (tokens.length / cp) (0 : T)).length =
      ((bounds (cumulative 0 lens)).map fun p =>
        (getTokensOnThisCpRank ((slice tokens p.1 p.2).rotate 1) rank cp).length).sum := by
    rw [hpieces, List.length_replicate, ← hparts, List.length_flatten, hlens, sum_div hdvd]
  have hfold := foldlM_assignSlice (bounds (cumulative 0 lens)) (fun p => p.1 / cp)
    (fun p => p.2 / cp)
    (fun p => getTokensOnThisCpRank ((slice tokens p.1 p.2).rotate 1) rank cp)
    (by rw [hpieces]; exact bounds_divides hdvd) hsum
  have hflat : (bounds (cumulative 0 lens)).flatMap (fun p =>
      getTokensOnThisCpRank ((slice tokens p.1 p.2).rotate 1) rank cp) =
      partsOnRank (parts.map fun part => part.rotate 1) rank cp := by
    rw [partsOnRank, List.flatMap_map, ← hslices, List.flatMap_map]
  simp only [rolledTargets]
  rw [hfold, hflat]

theorem lens_getTokens {α : Type} {parts : List (List α)} (hlens : parts.map List.length = lens)
    (hdvd : ∀ n ∈ lens, Divides cp n) (hrank : rank < cp) :
    (parts.map fun part => getTokensOnThisCpRank part rank cp).map List.length =
      lens.map (· / cp) := by
  rw [← hlens, List.map_map, List.map_map]
  refine List.map_congr_left fun part hpart => ?_
  exact length_getTokens (hdvd _ (hlens ▸ List.mem_map_of_mem hpart)) hrank

/-- The part of a sequence that a rank holds, found in what the rank holds of all. -/
theorem slice_partsOnRank {α : Type} {parts : List (List α)}
    (hlens : parts.map List.length = lens) (hdvd : ∀ n ∈ lens, Divides cp n) (hrank : rank < cp)
    {i : ℕ} {p : ℕ × ℕ} {part : List α} (hp : (bounds (cumulative 0 lens))[i]? = some p)
    (hpart : parts[i]? = some part) :
    slice (partsOnRank parts rank cp) (p.1 / cp) (p.2 / cp) =
      getTokensOnThisCpRank part rank cp := by
  have hbound : (bounds (cumulative 0 ((parts.map fun part =>
      getTokensOnThisCpRank part rank cp).map List.length)))[i]? = some (p.1 / cp, p.2 / cp) := by
    rw [lens_getTokens hlens hdvd hrank, ← bounds_divides hdvd, List.getElem?_map, hp]
    rfl
  have hslice := slice_bounds hbound
  rw [List.getElem?_map, hpart, Option.map_some, Option.some.injEq, ← List.flatMap_def] at hslice
  exact hslice.symm

theorem length_partsOnRank {α : Type} {parts : List (List α)}
    (hlens : parts.map List.length = lens) (hdvd : ∀ n ∈ lens, Divides cp n)
    (hrank : rank < cp) : (partsOnRank parts rank cp).length * cp = lens.sum := by
  rw [partsOnRank, List.flatMap_def, List.length_flatten, lens_getTokens hlens hdvd hrank,
    ← sum_div hdvd, Nat.div_mul_cancel (dvd_sum hdvd)]

/-- A sequence gathered from what all ranks hold of all sequences. -/
theorem allgather_slices {α : Type} {parts : List (List α)} (hone : 1 < cp)
    (hlens : parts.map List.length = lens) (hdvd : ∀ n ∈ lens, Divides cp n) :
    (bounds (cumulative 0 lens)).map (fun p => allgatherCpShardedTensor cp
      (((List.range cp).map fun r => partsOnRank parts r cp).map fun tensor =>
        slice tensor (p.1 / cp) (p.2 / cp))) = parts := by
  refine List.ext_getElem? fun i => ?_
  rw [List.getElem?_map]
  cases hp : (bounds (cumulative 0 lens))[i]? with
  | none =>
    rw [List.getElem?_eq_none_iff, length_bounds_cumulative, ← hlens, List.length_map] at hp
    rw [List.getElem?_eq_none hp]
    rfl
  | some p =>
    have hi : i < parts.length := by
      rw [← List.length_map List.length, hlens, ← length_bounds_cumulative 0 lens]
      exact (List.getElem?_eq_some_iff.mp hp).1
    have hpart := List.getElem?_eq_getElem hi
    rw [hpart, Option.map_some, List.map_map]
    have hranks : (List.range cp).map ((fun tensor => slice tensor (p.1 / cp) (p.2 / cp)) ∘
        fun r => partsOnRank parts r cp) =
        (List.range cp).map fun r => getTokensOnThisCpRank parts[i] r cp := by
      refine List.map_congr_left fun r hr => ?_
      exact slice_partsOnRank hlens hdvd (List.mem_range.mp hr) hp hpart
    rw [hranks, allgather_getTokens hone]
    exact hdvd _ (hlens ▸ List.mem_map_of_mem (List.getElem_mem hi))

/-- Gathering the log probabilities of all ranks gives those of the sequences. -/
theorem gatherProbs_eq {parts : List (List R)} (hlens : parts.map List.length = lens)
    (hdvd : ∀ n ∈ lens, Divides cp n) (hrank : rank < cp) :
    gatherProbs ((List.range cp).map fun r => partsOnRank parts r cp) (cumulative 0 lens) rank cp =
      .ok parts.flatten := by
  have hown : ((List.range cp).map fun r => partsOnRank parts r cp).getD rank [] =
      partsOnRank parts rank cp := by
    rw [List.getD_eq_getElem?_getD, List.getElem?_map, List.getElem?_range hrank]
    rfl
  simp only [gatherProbs, hown]
  by_cases hone : 1 < cp
  · have hpieces := allgather_slices hone hlens hdvd
    have hlength := congrArg (List.map List.length) hpieces
    rw [List.map_map, hlens] at hlength
    have hsize : (List.replicate ((partsOnRank parts rank cp).length * cp) (0 : R)).length =
        ((bounds (cumulative 0 lens)).map (List.length ∘ fun p => allgatherCpShardedTensor cp
          (((List.range cp).map fun r => partsOnRank parts r cp).map fun tensor =>
            slice tensor (p.1 / cp) (p.2 / cp)))).sum := by
      rw [hlength, List.length_replicate, length_partsOnRank hlens hdvd hrank]
    have hfold := foldlM_assignSlice (bounds (cumulative 0 lens)) Prod.fst Prod.snd
      (fun p => allgatherCpShardedTensor cp (((List.range cp).map fun r =>
        partsOnRank parts r cp).map fun tensor => slice tensor (p.1 / cp) (p.2 / cp)))
      ((List.map_id _).trans (congrArg (fun l => bounds (cumulative 0 l)) hlength.symm)) hsize
    rw [if_pos hone, hfold, List.flatMap_def, hpieces]
  · obtain rfl : cp = 1 := by omega
    rw [if_neg hone, partsOnRank]
    simp [getTokensOnThisCpRank]

/-- What a rank holds of packed items in terms of the sequences. -/
theorem packedOnRank_eq {α : Type} {items : List α} {parts : List (List α)}
    (hslices : (bounds (cumulative 0 lens)).map (fun p => slice items p.1 p.2) = parts) :
    packedOnRank items (cumulative 0 lens) rank cp = partsOnRank parts rank cp := by
  rw [packedOnRank, partsOnRank, ← hslices, List.flatMap_map]

omit [Zero T] [Zero R] in
/-- The log probabilities of a rank are its part of those of the sequences. -/
theorem zipWith_partsOnRank {as : List (List L)} {bs : List (List T)}
    (has : as.map List.length = lens) (hbs : bs.map List.length = lens)
    (hdvd : ∀ n ∈ lens, Divides cp n) (hrank : rank < cp) :
    List.zipWith logprob (partsOnRank as rank cp) (partsOnRank bs rank cp) =
      partsOnRank (List.zipWith (List.zipWith logprob) as bs) rank cp := by
  have hlens : List.Forall₂ (fun a b => a.length = b.length) as bs :=
    forall₂_length (has.trans hbs.symm)
  have hranks := forall₂_length ((lens_getTokens has hdvd hrank).trans
    (lens_getTokens hbs hdvd hrank).symm)
  rw [partsOnRank, partsOnRank, List.flatMap_def, List.flatMap_def, zipWith_flatten _ hranks,
    partsOnRank, List.flatMap_def]
  congr 1
  clear has hbs hranks
  induction hlens with
  | nil => rfl
  | cons hab _ ih => simp [ih, getTokens_zipWith logprob hab]

omit [Zero T] [Zero R] in
/-- The log probabilities of the sequences have the lengths of the sequences. -/
theorem lens_zipWith {as : List (List L)} {bs : List (List T)}
    (has : as.map List.length = lens) (hbs : bs.map List.length = lens) :
    (List.zipWith (List.zipWith logprob) as bs).map List.length = lens := by
  have hlens := forall₂_length (has.trans hbs.symm)
  rw [← has]
  clear has hbs
  induction hlens with
  | nil => rfl
  | cons hab _ ih => simp [ih, hab]

omit [Zero R] in
/-- The log probabilities that a rank computes, from targets that it rolls or that are rolled. -/
theorem localLogprobs_eq {as : List (List L)} {bs : List (List T)} {target : List T}
    {targetIsPreRolled : Bool} (has : as.map List.length = lens)
    (hbs : bs.map List.length = lens) (hdvd : ∀ n ∈ lens, Divides cp n) (hrank : rank < cp)
    (htarget : (if targetIsPreRolled then pure target
      else rolledTargets target (cumulative 0 lens) rank cp) = .ok (partsOnRank bs rank cp)) :
    localLogprobs logprob (partsOnRank as rank cp) target (cumulative 0 lens) rank cp
        targetIsPreRolled =
      .ok (partsOnRank (List.zipWith (List.zipWith logprob) as bs) rank cp) := by
  have hcp : 0 < cp := by omega
  have hlength : (partsOnRank as rank cp).length = (partsOnRank bs rank cp).length := by
    refine Nat.eq_of_mul_eq_mul_right hcp ?_
    rw [length_partsOnRank has hdvd hrank, length_partsOnRank hbs hdvd hrank]
  have hprobs := zipWith_partsOnRank logprob has hbs hdvd hrank
  cases targetIsPreRolled with
  | true =>
    obtain rfl : target = partsOnRank bs rank cp := Except.ok.inj htarget
    simp [localLogprobs, hlength, hprobs, bind, Except.bind, pure, Except.pure]
  | false =>
    have hrolled : rolledTargets target (cumulative 0 lens) rank cp =
      .ok (partsOnRank bs rank cp) := htarget
    simp [localLogprobs, hrolled, hlength, hprobs, bind, Except.bind, pure, Except.pure]

/-! ## Rows -/

theorem le_sum_of_mem_bounds {p : ℕ × ℕ} (hp : p ∈ bounds (cumulative 0 lens)) :
    p.2 ≤ lens.sum := by
  obtain ⟨i, hi⟩ := List.mem_iff_getElem?.mp hp
  rw [getElem?_bounds_cumulative, Option.map_eq_some_iff] at hi
  obtain ⟨n, hn, rfl⟩ := hi
  have htake : lens.take (i + 1) = lens.take i ++ [n] := by
    rw [List.take_add_one, hn]
    rfl
  have hsum := congrArg List.sum (List.take_append_drop (i + 1) lens)
  rw [List.sum_append, htake, List.sum_append, List.sum_singleton] at hsum
  simp only
  omega

omit [Zero T] [Zero R] in
theorem getElem?_slice {α : Type} (xs : List α) (i j t : ℕ) :
    (slice xs i j)[t]? = if i + t < j then xs[i + t]? else none := by
  rw [slice, List.getElem?_take, List.getElem?_drop]
  exact if_congr (by omega) rfl rfl

omit [Zero T] in
/-- The entries of a row. -/
theorem getElem?_unpackRow (probs : List R) (U : ℕ) (p : ℕ × ℕ) (t : ℕ) :
    (unpackRow probs U p)[t]? =
      if t < U - 1 then some (if p.1 + t + 1 < p.2 then probs[p.1 + t]?.getD 0 else 0)
      else none := by
  obtain ⟨s, e⟩ := p
  simp only [unpackRow]
  by_cases hpos : e - s > 0
  · have hlen : (slice probs s (e - 1)).length = min (e - 1 - s) (probs.length - s) := by
      rw [slice, List.length_take, List.length_drop]
    have htake : ((slice probs s (e - 1)).take
        (min (slice probs s (e - 1)).length (U - 1))).length =
        min (slice probs s (e - 1)).length (U - 1) := by
      rw [List.length_take]
      omega
    rw [if_pos hpos, List.getElem?_append, htake]
    by_cases ht : t < min (slice probs s (e - 1)).length (U - 1)
    · rw [if_pos ht, List.getElem?_take, if_pos ht, getElem?_slice, if_pos (by omega),
        if_pos (by omega), if_pos (by omega), List.getElem?_eq_getElem (by omega)]
      rfl
    · rw [if_neg ht, List.getElem?_replicate]
      by_cases hU : t < U - 1
      · rw [if_pos (by omega), if_pos hU]
        by_cases hs : s + t + 1 < e
        · rw [if_pos hs, List.getElem?_eq_none (by omega)]
          rfl
        · rw [if_neg hs]
      · rw [if_neg (by omega), if_neg hU]
  · rw [if_neg hpos, List.getElem?_replicate, if_neg (by omega : ¬s + t + 1 < e)]

omit [Zero T] in
/-- Unpacking the log probabilities of a sequence. -/
theorem unpackRow_eq {probs : List R} {logits : List L} {tokens : List T} (U : ℕ) {p : ℕ × ℕ}
    (h : slice probs p.1 p.2 =
      List.zipWith logprob (slice logits p.1 p.2) ((slice tokens p.1 p.2).rotate 1))
    (htokens : p.2 ≤ tokens.length) :
    unpackRow probs U p = serialRow logprob logits tokens U p := by
  refine List.ext_getElem? fun t => ?_
  rw [getElem?_unpackRow, serialRow, List.getElem?_map]
  by_cases ht : t < U - 1
  · rw [if_pos ht, List.getElem?_range ht, Option.map_some, Option.some.injEq]
    by_cases hs : p.1 + t + 1 < p.2
    · have hlen : (slice tokens p.1 p.2).length = p.2 - p.1 := by
        rw [slice, List.length_take, List.length_drop]
        omega
      have hrotate : ((slice tokens p.1 p.2).rotate 1)[t]? = tokens[p.1 + t + 1]? := by
        rw [List.getElem?_rotate (by omega), Nat.mod_eq_of_lt (by omega), getElem?_slice,
          if_pos (by omega)]
        rfl
      have hentry := congrArg (fun l => l[t]?) h
      simp only [getElem?_slice, List.getElem?_zipWith, hrotate] at hentry
      rw [if_pos (by omega), if_pos (by omega)] at hentry
      rw [if_pos hs, if_pos hs, hentry]
      cases logits[p.1 + t]? with
      | none => rfl
      | some row => cases tokens[p.1 + t + 1]? <;> rfl
    · rw [if_neg hs, if_neg hs]
  · rw [if_neg ht, List.getElem?_eq_none (by simpa using ht), Option.map_none]

omit [Zero T] [Zero R] in
/-- The log probabilities of a sequence, found in those of all sequences. -/
theorem slice_logprobs {logits : List L} {tokens : List T} {as : List (List L)}
    {bs : List (List T)} (has : as.map List.length = lens) (hbs : bs.map List.length = lens)
    (hlogits : (bounds (cumulative 0 lens)).map (fun p => slice logits p.1 p.2) = as)
    (htokens : (bounds (cumulative 0 lens)).map (fun p => slice tokens p.1 p.2) = bs)
    {p : ℕ × ℕ} (hp : p ∈ bounds (cumulative 0 lens)) :
    slice (List.zipWith (List.zipWith logprob) as (bs.map fun b => b.rotate 1)).flatten p.1 p.2 =
      List.zipWith logprob (slice logits p.1 p.2) ((slice tokens p.1 p.2).rotate 1) := by
  have hrotate : (bs.map fun b => b.rotate 1).map List.length = lens := by
    rw [List.map_map, ← hbs]
    exact List.map_congr_left fun b _ => List.length_rotate b 1
  obtain ⟨i, hi⟩ := List.mem_iff_getElem?.mp hp
  have hslice := slice_bounds (show (bounds (cumulative 0 ((List.zipWith (List.zipWith logprob) as
    (bs.map fun b => b.rotate 1)).map List.length)))[i]? = some p by
      rw [lens_zipWith logprob has hrotate, hi])
  have hlogit : as[i]? = some (slice logits p.1 p.2) := by
    rw [← hlogits, List.getElem?_map, hi, Option.map_some]
  have htoken : bs[i]? = some (slice tokens p.1 p.2) := by
    rw [← htokens, List.getElem?_map, hi, Option.map_some]
  rw [List.getElem?_zipWith, List.getElem?_map, hlogit, htoken] at hslice
  exact (Option.some.inj hslice).symm

/-- The rows that a rank computes from what it holds of the logits, with targets that it rolls
or that are rolled. -/
theorem packedLogprobs_eq {logits : List L} {tokens : List T} {target : ℕ → List T}
    {unpackedSeqlen : ℕ} {targetIsPreRolled : Bool}
    (hdvd : ∀ n ∈ lens, Divides cp n) (hlogits : logits.length = lens.sum)
    (htokens : tokens.length = lens.sum) (hU : 0 < unpackedSeqlen) (hrank : rank < cp)
    (htarget : ∀ r < cp, (if targetIsPreRolled then pure (target r)
      else rolledTargets (target r) (cumulative 0 lens) r cp) =
        .ok (partsOnRank (((bounds (cumulative 0 lens)).map fun p => slice tokens p.1 p.2).map
          fun part => part.rotate 1) r cp)) :
    fromParallelLogitsToLogprobsPackedSequences logprob
        (fun r => packedOnRank logits (cumulative 0 lens) r cp) target (cumulative 0 lens)
        unpackedSeqlen rank cp targetIsPreRolled =
      .ok (serialLogprobs logprob logits tokens (cumulative 0 lens) unpackedSeqlen) := by
  obtain ⟨as, -, has, hslicesA⟩ := exists_parts hlogits
  obtain ⟨bs, -, hbs, hslicesB⟩ := exists_parts htokens
  have hrotate : (bs.map fun b => b.rotate 1).map List.length = lens := by
    rw [List.map_map, ← hbs]
    exact List.map_congr_left fun b _ => List.length_rotate b 1
  have hlocal : ∀ r ∈ List.range cp, localLogprobs logprob
      (packedOnRank logits (cumulative 0 lens) r cp) (target r) (cumulative 0 lens) r cp
      targetIsPreRolled = .ok (partsOnRank (List.zipWith (List.zipWith logprob) as
        (bs.map fun b => b.rotate 1)) r cp) := by
    intro r hr
    have hr := List.mem_range.mp hr
    rw [packedOnRank_eq hslicesA]
    exact localLogprobs_eq logprob has hrotate hdvd hr (hslicesB ▸ htarget r hr)
  have hrows : (bounds (cumulative 0 lens)).map (unpackRow (List.zipWith (List.zipWith logprob) as
      (bs.map fun b => b.rotate 1)).flatten unpackedSeqlen) =
      serialLogprobs logprob logits tokens (cumulative 0 lens) unpackedSeqlen := by
    refine List.map_congr_left fun p hp => ?_
    refine unpackRow_eq logprob unpackedSeqlen
      (slice_logprobs logprob has hbs hslicesA hslicesB hp) ?_
    rw [htokens]
    exact le_sum_of_mem_bounds hp
  simp only [fromParallelLogitsToLogprobsPackedSequences, mapM_of_forall hlocal,
    gatherProbs_eq (lens_zipWith logprob has hrotate) hdvd hrank, bind, Except.bind]
  rw [if_neg (by omega), hrows]
  rfl

/-! ## One sequence -/

omit [Zero T] [Zero R] in
/-- Rolled targets give the tokens after the first one, except for the last position. -/
theorem take_zipWith_rotate (logits : List L) (x : T) (xs rest : List T) :
    (List.zipWith logprob logits ((x :: xs).rotate 1 ++ rest)).take xs.length =
      List.zipWith logprob logits xs := by
  refine List.ext_getElem? fun t => ?_
  rw [List.rotate_cons_succ, List.rotate_zero, List.append_assoc, List.getElem?_take,
    List.getElem?_zipWith, List.getElem?_zipWith]
  by_cases ht : t < xs.length
  · rw [if_pos ht, List.getElem?_append_left ht]
  · rw [if_neg ht, List.getElem?_eq_none (Nat.le_of_not_lt ht)]
    cases logits[t]? <;> rfl

omit [Zero R] in
/-- The log probabilities that a rank computes of one sequence. -/
theorem localTargetLogprobs_eq {logits : List L} {inputIds : List T}
    (hdvd : Divides cp logits.length) (hrank : rank < cp)
    (hle : inputIds.length ≤ logits.length) :
    localTargetLogprobs logprob (getTokensOnThisCpRank logits rank cp) inputIds rank cp =
      .ok (getTokensOnThisCpRank (List.zipWith logprob logits (inputIds.rotate 1 ++
        List.replicate (logits.length - inputIds.length) 0)) rank cp) := by
  have hlength : (inputIds.rotate 1 ++
      List.replicate (logits.length - inputIds.length) (0 : T)).length = logits.length := by
    rw [List.length_append, List.length_rotate, List.length_replicate]
    omega
  have hlocal := length_getTokens hdvd hrank
  have htarget := length_getTokens (hlength.symm ▸ hdvd) hrank
  simp only [localTargetLogprobs, hlocal, Nat.div_mul_cancel hdvd.dvd, List.length_rotate]
  rw [if_pos (by rw [htarget, hlength]), getTokens_zipWith logprob hlength.symm]

omit [Zero R] in
/-- The log probabilities of one sequence, gathered from what the ranks hold of its logits. -/
theorem getNextTokenLogprobs_eq {nextTokenLogits : ℕ → List L} {logits : List L}
    {inputIds : List T} (hlogits : ∀ r < cp, nextTokenLogits r = getTokensOnThisCpRank logits r cp)
    (hdvd : Divides cp logits.length) (hrank : rank < cp)
    (hle : inputIds.length ≤ logits.length) :
    getNextTokenLogprobsFromLogits logprob nextTokenLogits inputIds rank cp =
      .ok (List.zipWith logprob logits (inputIds.drop 1)) := by
  have hlength : (List.zipWith logprob logits (inputIds.rotate 1 ++
      List.replicate (logits.length - inputIds.length) (0 : T))).length = logits.length := by
    rw [List.length_zipWith, List.length_append, List.length_rotate, List.length_replicate]
    omega
  have hlocal : ∀ r ∈ List.range cp, localTargetLogprobs logprob (nextTokenLogits r) inputIds r
      cp = .ok (getTokensOnThisCpRank (List.zipWith logprob logits (inputIds.rotate 1 ++
        List.replicate (logits.length - inputIds.length) 0)) r cp) := by
    intro r hr
    have hr := List.mem_range.mp hr
    rw [hlogits r hr, localTargetLogprobs_eq logprob hdvd hr hle]
  have hgather : (if 1 < cp then allgatherCpShardedTensor cp ((List.range cp).map fun r =>
      getTokensOnThisCpRank (List.zipWith logprob logits (inputIds.rotate 1 ++
        List.replicate (logits.length - inputIds.length) 0)) r cp)
      else ((List.range cp).map fun r =>
        getTokensOnThisCpRank (List.zipWith logprob logits (inputIds.rotate 1 ++
          List.replicate (logits.length - inputIds.length) 0)) r cp).getD rank []) =
      List.zipWith logprob logits (inputIds.rotate 1 ++
        List.replicate (logits.length - inputIds.length) 0) := by
    by_cases hone : 1 < cp
    · rw [if_pos hone, allgather_getTokens hone (hlength.symm ▸ hdvd)]
    · obtain rfl : cp = 1 := by omega
      obtain rfl : rank = 0 := by omega
      simp [getTokensOnThisCpRank]
  simp only [getNextTokenLogprobsFromLogits, fromParallelLogitsToLogprobs, mapM_of_forall hlocal,
    bind, Except.bind, pure, Except.pure, hgather, hlength, hlogits rank hrank,
    length_getTokens hdvd hrank, Nat.div_mul_cancel hdvd.dvd, Nat.sub_sub_self hle]
  cases inputIds with
  | nil => simp
  | cons x xs =>
    have hdrop : ((List.zipWith logprob logits ((x :: xs).rotate 1 ++
        List.replicate (logits.length - (x :: xs).length) 0)).take (x :: xs).length).dropLast =
        List.zipWith logprob logits xs := by
      rw [List.dropLast_eq_take, List.length_take, hlength, List.take_take,
        ← take_zipWith_rotate logprob logits x xs
          (List.replicate (logits.length - (x :: xs).length) 0)]
      congr 1
      rw [List.length_cons] at hle ⊢
      omega
    rw [if_neg (by simp), hdrop, List.drop_one, List.tail_cons, List.take_of_length_le]
    rw [List.length_zipWith, List.length_cons]
    omega

/-! ## All rows -/

omit [Zero T] in
/-- The rows have the log probability of each token under the logits before it, up to the last
token or the end of the row, and zeros from there on. -/
theorem serialLogprobs_entries {logits : List L} {tokens : List T} (U : ℕ)
    (hlogits : logits.length = lens.sum) (htokens : tokens.length = lens.sum) {i n : ℕ}
    (hn : lens[i]? = some n) :
    ∃ row, (serialLogprobs logprob logits tokens (cumulative 0 lens) U)[i]? = some row ∧
      row.length = U - 1 ∧
      (∀ t < min (n - 1) (U - 1), ∃ logit token, logits[(lens.take i).sum + t]? = some logit ∧
        tokens[(lens.take i).sum + t + 1]? = some token ∧
        row[t]? = some (logprob logit token)) ∧
      ∀ t < U - 1, n - 1 ≤ t → row[t]? = some 0 := by
  have hp : (bounds (cumulative 0 lens))[i]? =
      some ((lens.take i).sum, (lens.take i).sum + n) := by
    rw [getElem?_bounds_cumulative, hn, Option.map_some, Nat.zero_add]
  have hle := le_sum_of_mem_bounds (List.mem_of_getElem? hp)
  refine ⟨serialRow logprob logits tokens U ((lens.take i).sum, (lens.take i).sum + n), ?_, ?_,
    ?_, ?_⟩
  · rw [serialLogprobs, List.getElem?_map, hp, Option.map_some]
  · rw [serialRow, List.length_map, List.length_range]
  · intro t ht
    have hlogit : (lens.take i).sum + t < logits.length := by omega
    have htoken : (lens.take i).sum + t + 1 < tokens.length := by omega
    refine ⟨logits[(lens.take i).sum + t], tokens[(lens.take i).sum + t + 1],
      List.getElem?_eq_getElem hlogit, List.getElem?_eq_getElem htoken, ?_⟩
    rw [serialRow, List.getElem?_map, List.getElem?_range (by omega), Option.map_some,
      if_pos (by omega), List.getElem?_eq_getElem hlogit, List.getElem?_eq_getElem htoken]
  · intro t ht hn
    rw [serialRow, List.getElem?_map, List.getElem?_range ht, Option.map_some,
      if_neg (by omega)]

/-- On every rank the log probabilities of packed sequences are those of the token after each
position under the logits at that position, as without context parallelism. -/
theorem packedLogprobs_eq_serial {logits : List L} {tokens : List T}
    {unpackedSeqlen cpRank cpSize : ℕ} (hdvd : ∀ n ∈ lens, 2 * cpSize ∣ n)
    (hlogits : logits.length = lens.sum) (htokens : tokens.length = lens.sum)
    (hU : 0 < unpackedSeqlen) (hrank : cpRank < cpSize) :
    ∃ out, fromParallelLogitsToLogprobsPackedSequences logprob
        (fun rank => packedOnRank logits (cumulative 0 lens) rank cpSize) (fun _ => tokens)
        (cumulative 0 lens) unpackedSeqlen cpRank cpSize false = .ok out ∧
      fromParallelLogitsToLogprobsPackedSequences logprob (fun _ => logits) (fun _ => tokens)
        (cumulative 0 lens) unpackedSeqlen 0 1 false = .ok out ∧
      out.length = lens.length ∧
      ∀ i n, lens[i]? = some n → ∃ row, out[i]? = some row ∧ row.length = unpackedSeqlen - 1 ∧
        (∀ t < min (n - 1) (unpackedSeqlen - 1), ∃ logit token,
          logits[(lens.take i).sum + t]? = some logit ∧
          tokens[(lens.take i).sum + t + 1]? = some token ∧
          row[t]? = some (logprob logit token)) ∧
        ∀ t < unpackedSeqlen - 1, n - 1 ≤ t → row[t]? = some 0 := by
  have hrun : ∀ {cp rank : ℕ}, (∀ n ∈ lens, Divides cp n) → rank < cp →
      fromParallelLogitsToLogprobsPackedSequences logprob
          (fun r => packedOnRank logits (cumulative 0 lens) r cp) (fun _ => tokens)
          (cumulative 0 lens) unpackedSeqlen rank cp false =
        .ok (serialLogprobs logprob logits tokens (cumulative 0 lens) unpackedSeqlen) := by
    intro cp rank hdvd hrank
    obtain ⟨bs, hflat, hbs, hslices⟩ := exists_parts htokens
    refine packedLogprobs_eq logprob hdvd hlogits htokens hU hrank fun r hr => ?_
    rw [hslices]
    exact rolledTargets_eq hflat hbs hslices hdvd hr
  have hwhole : ∀ r, packedOnRank logits (cumulative 0 lens) r 1 = logits := by
    intro r
    obtain ⟨as, hflat, -, hslices⟩ := exists_parts hlogits
    rw [packedOnRank_eq hslices, partsOnRank, ← hflat]
    simp [getTokensOnThisCpRank]
  have hone := hrun (fun n _ => Or.inl rfl) Nat.one_pos
  simp only [hwhole] at hone
  refine ⟨serialLogprobs logprob logits tokens (cumulative 0 lens) unpackedSeqlen,
    hrun (fun n hn => Or.inr (Nat.mul_comm 2 cpSize ▸ hdvd n hn)) hrank, hone, ?_, ?_⟩
  · rw [serialLogprobs, List.length_map, length_bounds_cumulative]
  · exact fun i n hn => serialLogprobs_entries logprob unpackedSeqlen hlogits htokens hn

/-- Two sequences of eight and four tokens on two ranks, with rows of seven entries. -/
theorem packedLogprobs_eq_serial_twoRanks :
    ∃ out, fromParallelLogitsToLogprobsPackedSequences (fun l t : ℕ => l * 100 + t)
        (fun rank => packedOnRank (List.range 12) (cumulative 0 [8, 4]) rank 2)
        (fun _ => List.range 12) (cumulative 0 [8, 4]) 8 1 2 false = .ok out ∧
      fromParallelLogitsToLogprobsPackedSequences (fun l t : ℕ => l * 100 + t)
        (fun _ => List.range 12) (fun _ => List.range 12) (cumulative 0 [8, 4]) 8 0 1 false =
          .ok out ∧ out.length = 2 := by
  have hdvd : ∀ n ∈ [8, 4], 2 * 2 ∣ n := by decide
  have hlength : (List.range 12).length = [8, 4].sum := by decide
  obtain ⟨out, hout, hserial, hrows, -⟩ := packedLogprobs_eq_serial (fun l t : ℕ => l * 100 + t)
    hdvd hlength hlength (by decide : 0 < 8) (by decide : 1 < 2)
  exact ⟨out, hout, hserial, hrows⟩

end Rows
end NemoRL.Distributed
