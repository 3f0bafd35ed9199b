import NemoRL.Data.PackingSpec

/-!
# When a packer raises

A call of `pack` raises a `ValueError` when a sequence is longer than a bin, when there are fewer
sequences than bins asked for, and, for the modified first-fit decreasing packer, when the
capacity is zero. Otherwise it returns a packing: a new bin always finds a bin from which a
sequence can be moved.

## Main definitions

* `lengthError`, `countError`, `capacityError` — what a call raises.
* `redistributionError` — the error of the adjustment that reports a bug.

## Main results

* `fillNewBins_ok` — the adjustment finds a sequence for each new bin.
* `pack_correct` — when a call raises, and what it returns otherwise.
-/

namespace NemoRL.Data.Packing

open Lib

/-! ## The errors -/

/-- A sequence that no bin can hold. -/
def lengthError (binCapacity length : ℕ) : PyError :=
  ⟨.valueError, s!"Sequence length {length} exceeds bin capacity {binCapacity}"⟩

/-- More bins than sequences. -/
def countError (target totalSequences : ℕ) : PyError :=
  ⟨.valueError, s!"Cannot create {target} bins with only {totalSequences} sequences. " ++
    "Each bin must contain at least one sequence. " ++
    "Either reduce min_bin_count/bin_count_multiple or provide more sequences."⟩

/-- A bin that holds nothing. -/
def capacityError : PyError := ⟨.valueError, "bin_capacity must be positive"⟩

/-- The error of the adjustment that reports a bug. -/
def redistributionError (additionalBinsNeeded : ℕ) : PyError :=
  ⟨.valueError,
    "Cannot create additional bins: insufficient sequences to redistribute. " ++
    s!"Need {additionalBinsNeeded} additional bins but cannot find enough " ++
    "bins with multiple sequences to redistribute from." ++
    "WARNING: Triggering this section of code is a bug. Please report it."⟩

/-- The first texts of the errors. -/
theorem redistributionError_prefix (n : ℕ) :
    "Cannot create a".toList <+: (redistributionError n).message.toList := by
  simp only [redistributionError, String.toList_append, List.append_assoc]
  have htext : "Cannot create a".toList <+:
      "Cannot create additional bins: insufficient sequences to redistribute. ".toList := by
    decide +kernel
  exact htext.trans (List.prefix_append _ _)

theorem lengthError_prefix (cap l : ℕ) : ['S'] <+: (lengthError cap l).message.toList := by
  simp only [lengthError, String.toList_append, List.append_assoc]
  have htext : ['S'] <+: (toString "Sequence length ").toList := by decide +kernel
  exact htext.trans (List.prefix_append _ _)

theorem countError_prefix (target total : ℕ) : ∃ c : Char, c.isDigit ∧
    "Cannot create ".toList ++ [c] <+: (countError target total).message.toList := by
  obtain ⟨c, cs, hdigits⟩ :=
    List.exists_cons_of_ne_nil (Nat.toDigits_ne_nil (n := target) (b := 10))
  have hdigit : c ∈ Nat.toDigits 10 target := by simp [hdigits]
  have htarget : (toString target).toList = c :: cs := Nat.toList_repr.trans hdigits
  refine ⟨c, Nat.isDigit_of_mem_toDigits (by decide) (by decide) hdigit, ?_⟩
  simp only [countError, String.toList_append, List.append_assoc, htarget]
  exact (List.prefix_append_right_inj _).mpr (List.cons_prefix_cons.mpr ⟨rfl, List.nil_prefix⟩)

/-- Two texts of one message agree. -/
theorem prefix_eq {α : Type} {l₁ l₂ l : List α} (h₁ : l₁ <+: l) (h₂ : l₂ <+: l)
    (hlength : l₁.length = l₂.length) : l₁ = l₂ :=
  (List.prefix_of_prefix_length_le h₁ h₂ hlength.le).eq_of_length hlength

/-- No other error reports the bug. -/
theorem ne_redistributionError (n : ℕ) :
    (∀ cap l, lengthError cap l ≠ redistributionError n) ∧ capacityError ≠ redistributionError n ∧
      ∀ target total, countError target total ≠ redistributionError n := by
  have htext := redistributionError_prefix n
  have hfirst : ['C'] <+: (redistributionError n).message.toList := by
    have hone : ['C'] <+: "Cannot create a".toList := by decide +kernel
    exact hone.trans htext
  refine ⟨fun cap l h => ?_, fun h => ?_, fun target total h => ?_⟩
  · have hlength := lengthError_prefix cap l
    rw [h] at hlength
    exact absurd (prefix_eq hlength hfirst rfl) (by decide)
  · have hcapacity : ['b'] <+: capacityError.message.toList := by decide +kernel
    rw [h] at hcapacity
    exact absurd (prefix_eq hcapacity hfirst rfl) (by decide)
  · obtain ⟨c, hdigit, hstart⟩ := countError_prefix target total
    have heq := prefix_eq (h ▸ hstart) htext (by simp)
    have hc : c = 'a' := by
      have hlast := congrArg List.getLast? heq
      simpa using hlast
    rw [hc] at hdigit
    exact absurd hdigit (by decide)

/-! ## The algorithms -/

section Algorithms
variable {cap : ℕ} {lens : List ℕ}

/-- A call returns, or it refuses a sequence that is too long. -/
def ReturnsUnlessTooLong (cap : ℕ) (lens : List ℕ) (result : Except PyError (List (List ℕ))) :
    Prop :=
  (∀ l ∈ lens, l ≤ cap) ∧ (∃ bins, result = .ok bins) ∨
    ∃ l ∈ lens, cap < l ∧ result = .error (lengthError cap l)

theorem validateSequenceLengths_cases (cap : ℕ) (lens : List ℕ) :
    (∀ l ∈ lens, l ≤ cap) ∧ validateSequenceLengths cap lens = .ok () ∨
      ∃ l ∈ lens, cap < l ∧ validateSequenceLengths cap lens = .error (lengthError cap l) := by
  unfold validateSequenceLengths
  split
  · next l hfind =>
    have hlong := List.find?_some hfind
    exact Or.inr ⟨l, List.mem_of_find?_eq_some hfind, by simpa using hlong, rfl⟩
  · next hnone =>
    refine Or.inl ⟨fun l hl => ?_, rfl⟩
    simpa using List.find?_eq_none.mp hnone l hl

theorem concatenativePack_cases (cap : ℕ) (lens : List ℕ) :
    ReturnsUnlessTooLong cap lens (concatenativePack cap lens) := by
  unfold concatenativePack
  rcases validateSequenceLengths_cases cap lens with ⟨hall, hvalid⟩ | ⟨l, hl, hlong, herror⟩
  · rw [hvalid]
    exact Or.inl ⟨hall, _, rfl⟩
  · rw [herror]
    exact Or.inr ⟨l, hl, hlong, rfl⟩

/-- First fit takes its sequences until one is too long. -/
theorem foldlM_firstFitStep_cases (cap : ℕ) (items : List (ℕ × ℕ)) (bins : List (List ℕ × ℕ)) :
    (∀ item ∈ items, item.1 ≤ cap) ∧ (∃ bins', items.foldlM (firstFitStep cap) bins = .ok bins') ∨
      ∃ item ∈ items, cap < item.1 ∧
        items.foldlM (firstFitStep cap) bins = .error (lengthError cap item.1) := by
  induction items generalizing bins with
  | nil => exact Or.inl ⟨by simp, bins, rfl⟩
  | cons item items ih =>
    rw [List.foldlM_cons]
    by_cases hlong : cap < item.1
    · refine Or.inr ⟨item, List.mem_cons_self, hlong, ?_⟩
      rw [firstFitStep, if_pos hlong]
      rfl
    · rw [firstFitStep, if_neg hlong]
      rcases ih (placeFirstFit cap item.1 item.2 bins) with ⟨hall, hok⟩ | ⟨other, hother, hrest⟩
      · refine Or.inl ⟨fun other hother => ?_, hok⟩
        rcases List.mem_cons.mp hother with rfl | hother
        · exact not_lt.mp hlong
        · exact hall other hother
      · exact Or.inr ⟨other, List.mem_cons_of_mem item hother, hrest⟩

theorem firstFitPack_cases {items : List (ℕ × ℕ)} (hitems : items.Perm lens.zipIdx) (cap : ℕ) :
    ReturnsUnlessTooLong cap lens (firstFitPack cap items) := by
  unfold firstFitPack
  rcases foldlM_firstFitStep_cases cap items [] with
    ⟨hall, bins, hok⟩ | ⟨item, hitem, hlong, herror⟩
  · rw [hok]
    refine Or.inl ⟨fun l hl => ?_, _, rfl⟩
    obtain ⟨i, hi⟩ := List.getElem?_of_mem hl
    exact hall (l, i) (hitems.mem_iff.mpr (List.mem_zipIdx_iff_getElem?.mpr hi))
  · rw [herror]
    exact Or.inr ⟨item.1, mem_of_mem_zipIdx (hitems.mem_iff.mp hitem), hlong, rfl⟩

/-- Phase 5 always has a bin. -/
theorem foldlM_ffdStep_ok (cap : ℕ) (items : List Item) {bins : List (List Item × ℕ)}
    (hbins : bins ≠ []) : ∃ bins', items.foldlM (ffdStep cap) bins = .ok bins' := by
  induction items generalizing bins with
  | nil => exact ⟨bins, rfl⟩
  | cons it items ih =>
    obtain ⟨⟨b, size⟩, rest, rfl⟩ := List.exists_cons_of_ne_nil hbins
    rw [List.foldlM_cons]
    simp only [ffdStep]
    refine ih fun hnil => ?_
    have hlength := congrArg List.length hnil
    rw [List.length_insertIdx_of_le_length (List.takeWhile_sublist _).length_le] at hlength
    simp at hlength

theorem modifiedFirstFitDecreasingPack_cases (hcap : 0 < cap) (hpos : 0 ∉ lens) :
    ReturnsUnlessTooLong cap lens (modifiedFirstFitDecreasingPack cap lens) := by
  have hany : ¬ lens.any (· = 0) := by
    simp only [List.any_eq_true, not_exists, not_and]
    intro l hl hzero
    exact hpos (of_decide_eq_true hzero ▸ hl)
  rw [modifiedFirstFitDecreasingPack, if_neg hcap.ne', if_neg hany]
  rcases validateSequenceLengths_cases cap lens with ⟨hall, hvalid⟩ | ⟨l, hl, hlong, herror⟩
  · rw [hvalid]
    obtain ⟨ffdBins, hffd⟩ := foldlM_ffdStep_ok cap
      (sortDescending (refillLargeBins cap (lens.zipIdx.map Prod.swap)).2)
      (List.cons_ne_nil ([], 0) [])
    refine Or.inl ⟨hall, ?_⟩
    simp only [bind, Except.bind, hffd]
    exact ⟨_, rfl⟩
  · rw [herror]
    exact Or.inr ⟨l, hl, hlong, rfl⟩

end Algorithms

/-! ## The number of bins -/

section Adjust
variable {bins bins' : List (List ℕ)} {sources sources' : List ℕ}

/-- All bins with more than one sequence are listed as sources. -/
def ListsSources (bins : List (List ℕ)) (sources : List ℕ) : Prop :=
  ∀ i, 1 < (bins.getD i []).length → i ∈ sources

/-- Without a sequence to take, no listed bin has more than one. -/
theorem length_le_of_takeSequence_none (h : takeSequence bins sources = none) :
    ∀ s ∈ sources, (bins.getD s []).length ≤ 1 := by
  induction sources with
  | nil => simp
  | cons source sources ih =>
    simp only [takeSequence] at h
    split at h
    · exact absurd h (by simp)
    · next hone =>
      intro s hs
      rcases List.mem_cons.mp hs with rfl | hs
      · exact not_lt.mp hone
      · exact ih h s hs

/-- Taking a sequence leaves one less in the bins, and the bins with more than one listed. -/
theorem takeSequence_sources {x : ℕ} (hlists : ListsSources bins sources)
    (h : takeSequence bins sources = some (x, bins', sources')) :
    ListsSources bins' sources' ∧ bins'.length = bins.length ∧
      (bins'.map List.length).sum + 1 = (bins.map List.length).sum := by
  induction sources with
  | nil => exact nomatch h
  | cons source sources ih =>
    simp only [takeSequence] at h
    split at h
    · next hlarge =>
      obtain ⟨-, hrest⟩ := Prod.mk.inj (Option.some.inj h)
      obtain ⟨rfl, rfl⟩ := Prod.mk.inj hrest
      have hsource : source < bins.length := by
        by_contra hge
        rw [List.getD_eq_getElem?_getD, List.getElem?_eq_none (by omega)] at hlarge
        simp at hlarge
      have hget : bins.getD source [] = bins[source] := by
        simp [List.getD_eq_getElem?_getD, hsource]
      refine ⟨fun i hi => hlists i ?_, by simp, ?_⟩
      · rcases eq_or_ne i source with rfl | hne
        · exact hlarge
        · rw [List.getD_eq_getElem?_getD, List.getElem?_set_ne hne.symm,
            ← List.getD_eq_getElem?_getD] at hi
          exact hi
      · rw [hget] at hlarge ⊢
        have hsplit : bins = bins.take source ++ bins[source] :: bins.drop (source + 1) := by
          rw [← List.drop_eq_getElem_cons hsource, List.take_append_drop]
        rw [List.set_eq_take_append_cons_drop, if_pos hsource]
        conv_rhs => rw [hsplit]
        simp only [List.map_append, List.map_cons, List.sum_append, List.sum_cons,
          List.length_dropLast]
        omega
    · next hone =>
      refine ih (fun i hi => (List.mem_cons.mp (hlists i hi)).resolve_left ?_) h
      rintro rfl
      exact hone hi

/-- Bins with at most one sequence hold no more sequences than there are bins. -/
theorem sum_length_le (h : ∀ i, (bins.getD i []).length ≤ 1) :
    (bins.map List.length).sum ≤ bins.length := by
  induction bins with
  | nil => exact le_rfl
  | cons b bins ih =>
    have hb := h 0
    have hrest := ih fun i => h (i + 1)
    simp only [List.map_cons, List.sum_cons, List.length_cons] at *
    simp at hb
    omega

/-- Every new bin gets a sequence: as long as there are more sequences than bins, some bin has
more than one, and it is listed. -/
theorem fillNewBins_ok {k : ℕ} (n : ℕ) (newBins : List (List ℕ))
    (hlists : ListsSources bins sources) (htotal : bins.length + k ≤ (bins.map List.length).sum) :
    ∃ bins', fillNewBins n k bins sources newBins = .ok bins' := by
  induction k generalizing bins sources newBins with
  | zero => exact ⟨_, rfl⟩
  | succ k ih =>
    simp only [fillNewBins]
    split
    · next x bins' sources' htake =>
      obtain ⟨hlists', hlength, hsum⟩ := takeSequence_sources hlists htake
      exact ih _ hlists' (by omega)
    · next hnone =>
      have hone := length_le_of_takeSequence_none hnone
      have hle : (bins.map List.length).sum ≤ bins.length := by
        refine sum_length_le fun i => ?_
        by_contra hlarge
        exact hlarge (hone i (hlists i (not_le.mp hlarge)))
      omega

variable {lens : List ℕ} {cap : ℕ}

theorem Packs.sum_length (h : Packs lens cap bins) :
    (bins.map List.length).sum = lens.length := by
  rw [← List.length_flatten, h.packing.perm.length_eq, List.length_range]

theorem Packs.length_le (h : Packs lens cap bins) : bins.length ≤ lens.length := by
  have hone : ∀ n ∈ bins.map List.length, 1 ≤ n := by
    intro n hn
    obtain ⟨b, hb, rfl⟩ := List.mem_map.mp hn
    refine List.length_pos_iff.mpr ?_
    rintro rfl
    exact h.nonempty hb
  have hle := List.length_le_sum_of_one_le _ hone
  rwa [List.length_map, h.sum_length] at hle

/-- The adjustment returns unless there are fewer sequences than bins asked for. -/
theorem adjustBinCount_cases (m k : Option ℕ) (hpack : Packs lens cap bins) :
    targetBinCount m k bins.length ≤ lens.length ∧
        (∃ bins', adjustBinCount m k bins = .ok bins') ∨
      lens.length < targetBinCount m k bins.length ∧
        adjustBinCount m k bins =
          .error (countError (targetBinCount m k bins.length) lens.length) := by
  have hle := hpack.length_le
  have htarget := le_targetBinCount m k bins.length
  simp only [adjustBinCount, hpack.sum_length]
  by_cases hsame : targetBinCount m k bins.length = bins.length
  · rw [if_pos hsame]
    exact Or.inl ⟨by omega, _, rfl⟩
  rw [if_neg hsame]
  by_cases hfew : lens.length < targetBinCount m k bins.length
  · rw [if_pos hfew]
    exact Or.inr ⟨hfew, rfl⟩
  rw [if_neg hfew]
  refine Or.inl ⟨by omega, fillNewBins_ok _ [] (fun i hi => ?_) ?_⟩
  · have hbin : i < bins.length := by
      by_contra hge
      rw [List.getD_eq_getElem?_getD, List.getElem?_eq_none (by omega)] at hi
      simp at hi
    have hperm := (List.perm_insertionSort pairGe (bins.map List.length).zipIdx).map Prod.snd
    rw [hperm.mem_iff, List.zipIdx_map_snd, List.length_map, List.mem_range'_1]
    omega
  · rw [hpack.sum_length]
    omega

end Adjust

/-! ## Every packer -/

theorem packImplementation_cases {p : SequencePacker} (rand : Shuffle) (call : ℕ) {lens : List ℕ}
    (hpos : p.algorithm = .modifiedFirstFitDecreasing → 0 < p.binCapacity ∧ 0 ∉ lens) :
    ReturnsUnlessTooLong p.binCapacity lens (p.packImplementation rand call lens) := by
  unfold SequencePacker.packImplementation
  split
  · exact concatenativePack_cases _ _
  · exact firstFitPack_cases (List.perm_insertionSort _ _) _
  · exact firstFitPack_cases (rand.perm call _) _
  · next halg =>
    obtain ⟨hcap, hzero⟩ := hpos halg
    exact modifiedFirstFitDecreasingPack_cases hcap hzero

/-- The sequences are fewer than the bins asked for. -/
def TooFew (p : SequencePacker) (rand : Shuffle) (call : ℕ) (lens : List ℕ) : Prop :=
  ∃ bins, p.packImplementation rand call lens = .ok bins ∧
    lens.length < targetBinCount p.minBinCount p.binCountMultiple bins.length

/-- The outcomes of a call: it refuses the capacity, a length or the count, or it returns. -/
theorem pack_cases {p : SequencePacker} (rand : Shuffle) (call : ℕ) {lens : List ℕ}
    (hpos : p.algorithm = .modifiedFirstFitDecreasing → 0 ∉ lens) :
    (p.algorithm = .modifiedFirstFitDecreasing ∧ p.binCapacity = 0 ∧
        p.pack rand call lens = .error capacityError) ∨
      (∃ l ∈ lens, p.binCapacity < l ∧
        p.pack rand call lens = .error (lengthError p.binCapacity l)) ∨
      (TooFew p rand call lens ∧
        ∃ target, p.pack rand call lens = .error (countError target lens.length)) ∨
      (¬ (p.algorithm = .modifiedFirstFitDecreasing ∧ p.binCapacity = 0) ∧
        (∀ l ∈ lens, l ≤ p.binCapacity) ∧ ¬ TooFew p rand call lens ∧
        ∃ bins, p.pack rand call lens = .ok bins) := by
  by_cases hzero : p.algorithm = .modifiedFirstFitDecreasing ∧ p.binCapacity = 0
  · refine Or.inl ⟨hzero.1, hzero.2, ?_⟩
    rw [SequencePacker.pack, SequencePacker.packImplementation, hzero.1, hzero.2]
    rfl
  have hvalid : p.algorithm = .modifiedFirstFitDecreasing → 0 < p.binCapacity ∧ 0 ∉ lens :=
    fun halg => ⟨Nat.pos_of_ne_zero fun hcap => hzero ⟨halg, hcap⟩, hpos halg⟩
  refine Or.inr ?_
  rw [SequencePacker.pack]
  rcases packImplementation_cases rand call hvalid with ⟨hall, bins, hok⟩ | ⟨l, hl, hlong, herror⟩
  · rw [hok]
    have hpacks := packs_packImplementation hok
    rcases adjustBinCount_cases p.minBinCount p.binCountMultiple hpacks with
      ⟨henough, hadjust⟩ | ⟨hfew, herror⟩
    · refine Or.inr (Or.inr ⟨hzero, hall, ?_, hadjust⟩)
      rintro ⟨bins', hok', hfew⟩
      rw [hok, Except.ok.injEq] at hok'
      subst hok'
      omega
    · exact Or.inr (Or.inl ⟨⟨bins, hok, hfew⟩, _, herror⟩)
  · rw [herror]
    exact Or.inl ⟨l, hl, hlong, rfl⟩

/-- A call of a packer raises just when the capacity of the modified first-fit decreasing packer is
zero, a sequence is longer than a bin, or there are fewer sequences than bins asked for. It raises
a `ValueError` then, never the one that reports a bug. Otherwise it returns bins that are not
empty, pack all positions within the capacity, and are as many as asked for. -/
theorem pack_correct {algorithm : PackingAlgorithm} {cap : ℕ} {m k : Option ℕ}
    {p : SequencePacker} (hp : getPacker algorithm cap m k = .ok p) (rand : Shuffle) (call : ℕ)
    {lens : List ℕ} (hpos : algorithm = .modifiedFirstFitDecreasing → 0 ∉ lens) :
    ((∃ error, p.pack rand call lens = .error error) ↔
      algorithm = .modifiedFirstFitDecreasing ∧ cap = 0 ∨ (∃ l ∈ lens, cap < l) ∨
        TooFew p rand call lens) ∧
    (∀ error, p.pack rand call lens = .error error →
      error.kind = .valueError ∧ ∀ n, error ≠ redistributionError n) ∧
    (∀ bins, p.pack rand call lens = .ok bins →
      Packs lens cap bins ∧ (∀ n, m = some n → n ≤ bins.length) ∧
        ∀ n, k = some n → n ∣ bins.length) := by
  unfold getPacker at hp
  split at hp
  · exact nomatch hp
  next hmultiple =>
  obtain rfl := Except.ok.inj hp
  have hcases := pack_cases (p := ⟨algorithm, cap, m, k⟩) rand call hpos
  refine ⟨?_, fun error herror => ?_, fun bins hbins => ?_⟩
  · rcases hcases with ⟨halg, hcap, herror⟩ | ⟨l, hl, hlong, herror⟩ | ⟨hfew, target, herror⟩ |
      ⟨hzero, hall, hfew, bins, hok⟩
    · exact iff_of_true ⟨_, herror⟩ (Or.inl ⟨halg, hcap⟩)
    · exact iff_of_true ⟨_, herror⟩ (Or.inr (Or.inl ⟨l, hl, hlong⟩))
    · exact iff_of_true ⟨_, herror⟩ (Or.inr (Or.inr hfew))
    · refine iff_of_false (fun h => ?_) fun h => ?_
      · obtain ⟨error, herror⟩ := h
        rw [hok] at herror
        exact nomatch herror
      · rcases h with h | ⟨l, hl, hlong⟩ | h
        · exact hzero h
        · exact absurd (hall l hl) (not_le.mpr hlong)
        · exact hfew h
  · have hne := ne_redistributionError
    rcases hcases with ⟨-, -, hraised⟩ | ⟨l, -, -, hraised⟩ | ⟨-, target, hraised⟩ |
      ⟨-, -, -, bins, hok⟩
    · rw [hraised, Except.error.injEq] at herror
      exact herror ▸ ⟨rfl, fun n => (hne n).2.1⟩
    · rw [hraised, Except.error.injEq] at herror
      exact herror ▸ ⟨rfl, fun n => (hne n).1 cap l⟩
    · rw [hraised, Except.error.injEq] at herror
      exact herror ▸ ⟨rfl, fun n => (hne n).2.2 target lens.length⟩
    · rw [hok] at herror
      exact nomatch herror
  · obtain ⟨hpacks, hmin, hmul⟩ := SequencePacker.pack_spec hbins
    refine ⟨hpacks, hmin, fun n hn => hmul n hn (Nat.pos_of_ne_zero ?_)⟩
    rintro rfl
    exact hmultiple hn

/-- The shuffle that keeps the order. -/
def Shuffle.inOrder : Shuffle := ⟨fun _ l => l, fun _ l => List.Perm.refl l⟩

/-- Three sequences in two bins. -/
theorem pack_three : Packs [4, 1, 3] 5 [[0, 1], [2]] ∧ (∀ n, some 1 = some n → n ≤ 2) ∧
    ∀ n, some 2 = some n → n ∣ 2 :=
  (@pack_correct .firstFitDecreasing 5 (some 1) (some 2)
    ⟨.firstFitDecreasing, 5, some 1, some 2⟩ rfl Shuffle.inOrder 0 [4, 1, 3] (by decide)).2.2 _ rfl

/-- Without a sequence, a capacity of zero is refused all the same. -/
theorem pack_zero_capacity :
    SequencePacker.pack ⟨.modifiedFirstFitDecreasing, 0, some 0, some 1⟩ Shuffle.inOrder 0 [] =
        .error capacityError ∧
      ¬ ((∃ l ∈ ([] : List ℕ), 0 < l) ∨
        TooFew ⟨.modifiedFirstFitDecreasing, 0, some 0, some 1⟩ Shuffle.inOrder 0 []) := by
  refine ⟨rfl, ?_⟩
  rintro (⟨l, hl, -⟩ | ⟨bins, hbins, -⟩)
  · exact absurd hl List.not_mem_nil
  · exact nomatch hbins

end NemoRL.Data.Packing
