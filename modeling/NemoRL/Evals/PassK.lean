import NemoRL.Lib.Blocks
import NemoRL.Lib.Subsets
import Mathlib.Data.Rat.Floor

/-!
# The pass@k score

Every prompt is answered several times. Its score estimates how likely one of `k` answers is
right, from the number of right answers alone and without going through the subsets of the
answers. The score of a batch is the sum over its prompts.

Rewards are rational numbers, and a right answer has reward one.

## Main definitions

* `evalPassK` — the score of a batch.
* `passFraction` — the share of the subsets of the answers of a prompt that have a right one.

## Main results

* `evalPassK_eq` — the score is the sum of these shares.
-/

namespace NemoRL.Evals

open Lib

/-! ## The score -/

/-- Parts of a size, where the last one may be shorter. An empty tensor is one part. -/
def split {α : Type} (size : ℕ) (xs : List α) : List (List α) :=
  (List.range (max ((xs.length + size - 1) / size) 1)).map fun i => block size i xs

/-- The numbers from `start` on in steps of one, as far as they are before `stop`. -/
def arange (start stop : ℚ) : List ℚ :=
  (List.range ⌈stop - start⌉₊).map fun i : ℕ => start + i

/-- The score of a prompt with `n` answers that sum to `c`. -/
def evalSingleChunk (n : ℕ) (c : ℚ) (k : ℕ) : ℚ :=
  if n - c < k then 1
  else 1 - ((arange (n - c + 1) (n + 1)).map fun i : ℚ => 1 - k / i).prod

/-- The sum of the scores of all prompts. -/
def evalPassK (rewards : List ℚ) (numTestsPerPrompt k : ℕ) : ℚ :=
  (split numTestsPerPrompt rewards).foldl
    (fun passKScore groupReward =>
      passKScore + evalSingleChunk numTestsPerPrompt groupReward.sum k) 0

/-! ## The shares of the subsets -/

/-- Of the subsets of `k` of the `n` answers of a prompt, the share that has a right one. -/
def passFraction (rewards : List ℚ) (n k prompt : ℕ) : ℚ :=
  (((Finset.range n).powersetCard k).filter fun samples =>
      ∃ i ∈ samples, rewards[prompt * n + i]? = some 1).card /
    ((Finset.range n).powersetCard k).card

/-- The right answers of a prompt. -/
def rightAnswers (group : List ℚ) : Finset ℕ :=
  (Finset.range group.length).filter fun i => group[i]? = some 1

/-- Rewards of zero and one sum to the number of right answers. -/
theorem sum_eq_card_rightAnswers {group : List ℚ} (h : ∀ r ∈ group, r = 0 ∨ r = 1) :
    group.sum = (rightAnswers group).card := by
  rw [rightAnswers, Finset.card_filter, Nat.cast_sum]
  induction group using List.reverseRecOn with
  | nil => simp
  | append_singleton group r ih =>
    have hbefore : ∀ i ∈ Finset.range group.length,
        (((if (group ++ [r])[i]? = some 1 then 1 else 0 : ℕ)) : ℚ) =
          ((if group[i]? = some 1 then 1 else 0 : ℕ) : ℚ) := by
      intro i hi
      rw [List.getElem?_append_left (Finset.mem_range.mp hi)]
    have hlast : r = ((if (group ++ [r])[group.length]? = some 1 then 1 else 0 : ℕ) : ℚ) := by
      rcases h r (by simp) with rfl | rfl <;> simp
    rw [List.length_append, List.length_singleton, Finset.sum_range_succ,
      Finset.sum_congr rfl hbefore, ← ih fun r' hr' => h r' (by simp [hr']), List.sum_append,
      List.sum_singleton, ← hlast]

theorem card_rightAnswers_le (group : List ℚ) : (rightAnswers group).card ≤ group.length := by
  simpa [rightAnswers] using
    Finset.card_filter_le (Finset.range group.length) fun i => group[i]? = some 1

/-- Whole numbers in steps of one. -/
theorem arange_natCast (m d : ℕ) :
    arange (m + 1) (m + d + 1) = (List.range d).map fun i => ((m + 1 + i : ℕ) : ℚ) := by
  have hsteps : ((m : ℚ) + d + 1) - (m + 1) = (d : ℕ) := by ring
  rw [arange, hsteps, Nat.ceil_natCast]
  refine List.map_congr_left fun i _ => ?_
  push_cast
  ring

/-- The score of a prompt is the share of the subsets that have a right answer. -/
theorem evalSingleChunk_eq {group : List ℚ} {k : ℕ} (hk : k ≤ group.length)
    (h : ∀ r ∈ group, r = 0 ∨ r = 1) :
    evalSingleChunk group.length group.sum k =
      (((Finset.range group.length).powersetCard k).filter fun samples =>
        ∃ i ∈ samples, i ∈ rightAnswers group).card / (group.length.choose k : ℕ) := by
  set c := (rightAnswers group).card with hc
  have hle : c ≤ group.length := card_rightAnswers_le group
  obtain ⟨m, hm⟩ : ∃ m, group.length = m + c := ⟨group.length - c, by omega⟩
  have hwrong : (Finset.range group.length \ rightAnswers group).card = m := by
    have hsub : rightAnswers group ⊆ Finset.range group.length := Finset.filter_subset _ _
    rw [Finset.card_sdiff_of_subset hsub, Finset.card_range, ← hc]
    omega
  have hmeets := card_powersetCard_meets (Finset.range group.length) (rightAnswers group) k
  rw [hwrong, Finset.card_range] at hmeets
  have hchoose : (group.length.choose k : ℚ) ≠ 0 := Nat.cast_ne_zero.mpr (Nat.choose_pos hk).ne'
  have hcount : ((((Finset.range group.length).powersetCard k).filter fun samples =>
      ∃ i ∈ samples, i ∈ rightAnswers group).card : ℚ) =
        group.length.choose k - m.choose k := by
    rw [← hmeets]
    push_cast
    ring
  have hrest : (group.length : ℚ) - c = m := by
    rw [hm]
    push_cast
    ring
  rw [evalSingleChunk, sum_eq_card_rightAnswers h, ← hc, hrest, hcount, sub_div, div_self hchoose]
  by_cases hfew : m < k
  · rw [if_pos (by exact_mod_cast hfew), Nat.choose_eq_zero_of_lt hfew]
    simp
  · have hprod := prod_one_sub_div (K := ℚ) (not_lt.mp hfew) c
    rw [if_neg (by exact_mod_cast hfew), hm, Nat.cast_add, arange_natCast, List.map_map]
    exact congrArg (1 - ·) hprod

/-! ## The sum over the prompts -/

/-- A batch of whole prompts is split into its prompts. -/
theorem sum_split {n q : ℕ} (hn : 0 < n) {rewards : List ℚ} (hlen : rewards.length = q * n)
    {f : List ℚ → ℚ} (hnil : f [] = 0) :
    ((split n rewards).map f).sum = ∑ p ∈ Finset.range q, f (block n p rewards) := by
  have hceil : (q * n + n - 1) / n = q := by
    rw [show q * n + n - 1 = n - 1 + q * n by omega, Nat.add_mul_div_right _ _ hn,
      Nat.div_eq_of_lt (by omega), Nat.zero_add]
  have hsum : ∀ m, (((List.range m).map fun i => block n i rewards).map f).sum =
      ∑ p ∈ Finset.range m, f (block n p rewards) := by
    intro m
    induction m with
    | zero => rfl
    | succ m ih =>
      rw [Finset.sum_range_succ, ← ih, List.range_succ]
      simp
  rw [split, hlen, hceil, hsum]
  cases q with
  | zero =>
    -- an empty batch has one empty part
    have hempty : rewards = [] := List.length_eq_zero_iff.mp (by omega)
    simp [hempty, block, slice, hnil]
  | succ q => rw [max_eq_left (by omega)]

theorem evalSingleChunk_nil {n k : ℕ} (hkn : k ≤ n) :
    evalSingleChunk n ([] : List ℚ).sum k = 0 := by
  have hmany : ¬ (n : ℚ) < k := by exact_mod_cast not_lt.mpr hkn
  simp [evalSingleChunk, hmany, arange]

/-- The score of a batch is the sum over its prompts of the share of the subsets of `k` answers
that have a right one. -/
theorem evalPassK_eq (rewards : List ℚ) (n k : ℕ) (hk : 1 ≤ k) (hkn : k ≤ n)
    (hlen : n ∣ rewards.length) (h : ∀ r ∈ rewards, r = 0 ∨ r = 1) :
    evalPassK rewards n k =
      ∑ prompt ∈ Finset.range (rewards.length / n), passFraction rewards n k prompt := by
  obtain ⟨q, hq⟩ := hlen
  have hn : 0 < n := by omega
  have hlen : rewards.length = q * n := by rw [hq, Nat.mul_comm]
  have hfold : evalPassK rewards n k =
      ((split n rewards).map fun group => evalSingleChunk n group.sum k).sum := by
    rw [evalPassK, List.sum_eq_foldl, List.foldl_map]
  rw [hfold, sum_split hn hlen (evalSingleChunk_nil hkn), hlen, Nat.mul_div_cancel _ hn]
  refine Finset.sum_congr rfl fun prompt hprompt => ?_
  have hprompt := Finset.mem_range.mp hprompt
  have hblock : (block n prompt rewards).length = n := length_block hlen hprompt
  have hget : ∀ i < n, (block n prompt rewards)[i]? = rewards[prompt * n + i]? := by
    intro i hi
    rw [block, slice, List.getElem?_take_of_lt (by omega), List.getElem?_drop]
  have h01 : ∀ r ∈ block n prompt rewards, r = 0 ∨ r = 1 :=
    fun r hr => h r (List.mem_of_mem_drop (List.mem_of_mem_take hr))
  have hchosen : k ≤ (block n prompt rewards).length := by omega
  have hscore := evalSingleChunk_eq hchosen h01
  rw [hblock] at hscore
  rw [hscore, passFraction, Finset.card_powersetCard, Finset.card_range]
  have hsame : ∀ samples ∈ (Finset.range n).powersetCard k,
      ((∃ i ∈ samples, i ∈ rightAnswers (block n prompt rewards)) ↔
        ∃ i ∈ samples, rewards[prompt * n + i]? = some 1) := by
    intro samples hsamples
    have hlt : ∀ i ∈ samples, i < n := fun i hi =>
      Finset.mem_range.mp ((Finset.mem_powersetCard.mp hsamples).1 hi)
    refine exists_congr fun i => and_congr_right fun hi => ?_
    rw [rightAnswers, Finset.mem_filter, Finset.mem_range, hblock, hget i (hlt i hi)]
    exact and_iff_right (hlt i hi)
  rw [Finset.filter_congr hsame]

/-- Of two prompts with three answers each, the first has one right answer. -/
theorem evalPassK_eq_two : evalPassK [1, 0, 0, 0, 0, 0] 3 2 =
    ∑ prompt ∈ Finset.range (([1, 0, 0, 0, 0, 0] : List ℚ).length / 3),
      passFraction [1, 0, 0, 0, 0, 0] 3 2 prompt :=
  evalPassK_eq [1, 0, 0, 0, 0, 0] 3 2 (by decide) (by decide) (by decide) (by simp)

end NemoRL.Evals
