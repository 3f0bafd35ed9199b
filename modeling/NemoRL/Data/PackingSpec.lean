import NemoRL.Data.Packing
import NemoRL.Lib.Distribute
import Mathlib.Tactic.SplitIfs

/-!
# Every packer packs

Each of the four algorithms, when it returns, packs the positions of its input: every
position is in one bin, no bin is empty and no bin exceeds the capacity. Adjusting the
number of bins keeps the packing and reaches the minimum and the multiple.

## Main definitions

* `weight` — the size of a position.
* `Packs` — a packing of all positions into bins that are not empty.

## Main results

* `packs_packImplementation` — all four algorithms pack.
* `SequencePacker.pack_spec` — what a call of `pack` returns.
-/

namespace NemoRL.Data.Packing

open Lib
open scoped List

/-- The size of the sequence at a position. -/
def weight (sequenceLengths : List ℕ) (i : ℕ) : ℕ := sequenceLengths.getD i 0

/-- The bins pack all positions, and no bin is empty. -/
structure Packs (sequenceLengths : List ℕ) (cap : ℕ) (bins : List (List ℕ)) : Prop where
  packing : IsPacking (weight sequenceLengths) cap (List.range sequenceLengths.length) bins
  nonempty : [] ∉ bins

variable {lens : List ℕ} {cap : ℕ} {bins : List (List ℕ)}

theorem weight_of_mem_zipIdx {p : ℕ × ℕ} (h : p ∈ lens.zipIdx) : weight lens p.2 = p.1 := by
  rw [weight, List.getD_eq_getElem?_getD, List.mem_zipIdx_iff_getElem?.mp h]
  rfl

theorem mem_of_mem_zipIdx {p : ℕ × ℕ} (h : p ∈ lens.zipIdx) : p.1 ∈ lens :=
  List.mem_of_getElem? (List.mem_zipIdx_iff_getElem?.mp h)

theorem map_snd_zipIdx_perm {l : List (ℕ × ℕ)} (h : l.Perm lens.zipIdx) :
    (l.map Prod.snd).Perm (List.range lens.length) := by
  have := h.map Prod.snd
  rwa [List.zipIdx_map_snd, ← List.range_eq_range'] at this

theorem le_of_validate (h : validateSequenceLengths cap lens = .ok ()) :
    ∀ l ∈ lens, l ≤ cap := by
  unfold validateSequenceLengths at h
  split at h
  case h_1 => exact nomatch h
  case h_2 hnone =>
    intro l hl
    simpa using List.find?_eq_none.mp hnone l hl

/-! ## Concatenative packing -/

/-- The loop invariant: the closed bins and the current one pack what was seen. -/
private structure ConcatInv (lens : List ℕ) (cap : ℕ) (seen : List (ℕ × ℕ))
    (st : ConcatState) : Prop where
  packing : IsPacking (weight lens) cap (seen.map Prod.snd) (st.bins ++ [st.currentBin])
  length : load (weight lens) st.currentBin = st.currentLength
  nonempty : [] ∉ st.bins

/-- The sequence limit is disabled, so only the capacity closes a bin. -/
private theorem concatStep_eq (st : ConcatState) (length i : ℕ) :
    concatStep cap st (length, i) =
      if cap < st.currentLength + length then
        ⟨if st.currentBin = [] then st.bins else st.bins ++ [st.currentBin], [i], length⟩
      else ⟨st.bins, st.currentBin ++ [i], st.currentLength + length⟩ := by
  simp [concatStep, maxSequencesPerBin]

private theorem concatStep_inv {seen : List (ℕ × ℕ)} {st : ConcatState} {item : ℕ × ℕ}
    (hmem : item ∈ lens.zipIdx) (hcap : item.1 ≤ cap) (h : ConcatInv lens cap seen st) :
    ConcatInv lens cap (item :: seen) (concatStep cap st item) := by
  obtain ⟨length, i⟩ := item
  have hw : weight lens i = length := weight_of_mem_zipIdx hmem
  have hpack := h.packing
  rw [concatStep_eq]
  split
  case isTrue =>
    by_cases hnil : st.currentBin = []
    · rw [if_pos hnil]
      rw [hnil] at hpack
      refine ⟨?_, by simp [hw], h.nonempty⟩
      exact hpack.place (x := i) (by rw [load_nil, hw]; exact hcap)
    · rw [if_neg hnil]
      refine ⟨hpack.openBin (by rw [hw]; exact hcap), by simp [hw], ?_⟩
      simpa using ⟨h.nonempty, hnil⟩
  case isFalse hroom =>
    refine ⟨hpack.place (x := i) ?_, by simp [hw, h.length], h.nonempty⟩
    rw [h.length, hw]
    omega

private theorem packs_concatenative (h : concatenativePack cap lens = .ok bins) :
    Packs lens cap bins := by
  unfold concatenativePack at h
  cases hval : validateSequenceLengths cap lens with
  | error e => rw [hval] at h; exact nomatch h
  | ok u =>
    rw [hval] at h
    have hcap := le_of_validate hval
    have hinit : ConcatInv lens cap [] ⟨[], [], 0⟩ := by
      refine ⟨⟨by simp, by simp⟩, rfl, by simp⟩
    have hinv := foldl_seen (f := concatStep cap) (fun seen st item hmem hst =>
      concatStep_inv hmem (hcap _ (mem_of_mem_zipIdx hmem)) hst) hinit
    set st := lens.zipIdx.foldl (concatStep cap) ⟨[], [], 0⟩
    have hseen : (lens.zipIdx.reverse ++ []).Perm lens.zipIdx := by simp
    have hpack := hinv.packing.of_perm (map_snd_zipIdx_perm hseen)
    obtain rfl : (if st.currentBin = [] then st.bins else st.bins ++ [st.currentBin]) = bins :=
      Except.ok.inj h
    split
    case isTrue hnil =>
      refine ⟨?_, hinv.nonempty⟩
      rw [hnil] at hpack
      exact ⟨by simpa using hpack.perm, fun b hb => hpack.fits b (by simp [hb])⟩
    case isFalse hnil =>
      exact ⟨hpack, by simpa using ⟨hinv.nonempty, hnil⟩⟩

/-! ## First fit -/

/-- A placement either extends a bin with room or opens a new bin. -/
private theorem placeFirstFit_cases (cap length idx : ℕ) (bins : List (List ℕ × ℕ)) :
    (∃ pre b r post, bins = pre ++ (b, r) :: post ∧ length ≤ r ∧
      placeFirstFit cap length idx bins = pre ++ (b ++ [idx], r - length) :: post) ∨
    placeFirstFit cap length idx bins = bins ++ [([idx], cap - length)] := by
  induction bins with
  | nil => exact .inr rfl
  | cons p bins ih =>
    obtain ⟨b, r⟩ := p
    unfold placeFirstFit
    split
    case isTrue hroom => exact .inl ⟨[], b, r, bins, rfl, hroom, rfl⟩
    case isFalse =>
      rcases ih with ⟨pre, b', r', post, hbins, hroom, hplace⟩ | hplace
      · exact .inl ⟨(b, r) :: pre, b', r', post, by rw [hbins]; rfl, hroom, by rw [hplace]; rfl⟩
      · exact .inr (by rw [hplace]; rfl)

/-- The loop invariant: the bins pack what was seen, with the right remaining
capacities. -/
private structure FirstFitInv (lens : List ℕ) (cap : ℕ) (seen : List (ℕ × ℕ))
    (bins : List (List ℕ × ℕ)) : Prop where
  packing : IsPacking (weight lens) cap (seen.map Prod.snd) (bins.map Prod.fst)
  remaining : ∀ p ∈ bins, p.2 + load (weight lens) p.1 = cap
  nonempty : [] ∉ bins.map Prod.fst

private theorem firstFitStep_inv {seen : List (ℕ × ℕ)} {bins bins' : List (List ℕ × ℕ)}
    {item : ℕ × ℕ} (hmem : item ∈ lens.zipIdx) (h : FirstFitInv lens cap seen bins)
    (hstep : firstFitStep cap bins item = .ok bins') :
    FirstFitInv lens cap (item :: seen) bins' := by
  obtain ⟨length, idx⟩ := item
  have hw : weight lens idx = length := weight_of_mem_zipIdx hmem
  simp only [firstFitStep] at hstep
  split at hstep
  case isTrue => exact nomatch hstep
  case isFalse hcap =>
    obtain rfl := Except.ok.inj hstep
    have hcap : length ≤ cap := by omega
    rcases placeFirstFit_cases cap length idx bins with
      ⟨pre, b, r, post, rfl, hroom, hplace⟩ | hplace
    · have hrem : r + load (weight lens) b = cap := h.remaining (b, r) (by simp)
      have hpack := h.packing
      simp only [List.map_append, List.map_cons] at hpack
      rw [hplace]
      refine ⟨?_, ?_, ?_⟩
      · simpa using hpack.place (x := idx) (by omega)
      · intro p hp
        rcases List.mem_append.mp hp with hp | hp
        · exact h.remaining p (by simp [hp])
        · rcases List.mem_cons.mp hp with rfl | hp
          · simp only [load_append, load_cons, load_nil]
            omega
          · exact h.remaining p (by simp [hp])
      · have := h.nonempty
        simp only [List.map_append, List.map_cons, List.mem_append, List.mem_cons] at this ⊢
        rintro (hp | hp | hp)
        · exact this (.inl hp)
        · simp at hp
        · exact this (.inr (.inr hp))
    · rw [hplace]
      refine ⟨?_, ?_, ?_⟩
      · simpa using h.packing.openBin (x := idx) (by omega)
      · intro p hp
        rcases List.mem_append.mp hp with hp | hp
        · exact h.remaining p hp
        · obtain rfl := List.mem_singleton.mp hp
          simp only [load_cons, load_nil]
          omega
      · simpa using h.nonempty

private theorem packs_firstFit {items : List (ℕ × ℕ)} (hitems : items.Perm lens.zipIdx)
    (h : firstFitPack cap items = .ok bins) : Packs lens cap bins := by
  unfold firstFitPack at h
  cases hfold : items.foldlM (firstFitStep cap) [] with
  | error e => rw [hfold] at h; exact nomatch h
  | ok packed =>
    rw [hfold] at h
    obtain rfl : packed.map Prod.fst = bins := Except.ok.inj h
    have hinit : FirstFitInv lens cap [] [] := ⟨.nil, by simp, by simp⟩
    have hinv := foldlM_seen (fun seen bins bins' item hmem hinv hstep =>
      firstFitStep_inv (hitems.mem_iff.mp hmem) hinv hstep) hinit hfold
    refine ⟨hinv.packing.of_perm (map_snd_zipIdx_perm ?_), hinv.nonempty⟩
    simpa using hitems

/-! ## Modified first-fit decreasing -/

/-- What a loop body over the bins may do with a bin and the items not yet packed:
items only move from the rest into the bin, and it stays within the capacity. -/
private def Refills (cap : ℕ) (f : List Item → List Item → List Item × List Item) : Prop :=
  ∀ b rest, ((f b rest).1 ++ (f b rest).2).Perm (b ++ rest) ∧
    (load Prod.snd b ≤ cap → load Prod.snd (f b rest).1 ≤ cap)

private theorem refills_threadBins {f : List Item → List Item → List Item × List Item}
    (hf : Refills cap f) (bins : List (List Item)) (rest : List Item) :
    ((threadBins f bins rest).1.flatten ++ (threadBins f bins rest).2).Perm
        (bins.flatten ++ rest) ∧
      ((∀ b ∈ bins, load Prod.snd b ≤ cap) →
        ∀ b ∈ (threadBins f bins rest).1, load Prod.snd b ≤ cap) := by
  induction bins generalizing rest with
  | nil => exact ⟨.refl _, fun _ => by simp [threadBins]⟩
  | cons b bins ih =>
    obtain ⟨hperm, hfits⟩ := hf b rest
    obtain ⟨ihperm, ihfits⟩ := ih (f b rest).2
    simp only [threadBins, List.flatten_cons, List.mem_cons, forall_eq_or_imp]
    refine ⟨?_, fun hb => ⟨hfits hb.1, ihfits hb.2⟩⟩
    calc
      (f b rest).1 ++ (threadBins f bins (f b rest).2).1.flatten ++
            (threadBins f bins (f b rest).2).2
          ~ (f b rest).1 ++ (bins.flatten ++ (f b rest).2) := by
        rw [List.append_assoc]
        exact ihperm.append_left _
      _ ~ bins.flatten ++ ((f b rest).1 ++ (f b rest).2) := by
        rw [← List.append_assoc, ← List.append_assoc]
        exact List.perm_append_comm.append_right _
      _ ~ bins.flatten ++ (b ++ rest) := hperm.append_left _
      _ ~ b ++ bins.flatten ++ rest := by
        rw [← List.append_assoc]
        exact List.perm_append_comm.append_right _

private theorem refills_addMedium (cap : ℕ) : Refills cap (addMedium cap) := by
  intro b rest
  unfold addMedium
  split
  case h_1 it rest' hpop =>
    obtain ⟨hroom, hperm⟩ := popFirst_eq_some hpop
    simp only [decide_eq_true_eq] at hroom
    refine ⟨?_, fun _ => by simp only [load_append, load_cons, load_nil]; omega⟩
    simpa using hperm.append_left b
  case h_2 => exact ⟨.refl _, id⟩

/-- The second small item is always found: the first candidate fits, or phase 3 would
have skipped the bin. -/
private theorem refills_addSmallPair (cap : ℕ) : Refills cap (addSmallPair cap) := by
  intro b rest
  unfold addSmallPair
  split
  case h_1 first second small =>
    split
    case isTrue => exact ⟨.refl _, id⟩
    case isFalse hskip =>
      split
      case h_1 it small' hpop =>
        obtain ⟨hroom, hperm⟩ := popLast_eq_some hpop
        simp only [decide_eq_true_eq] at hroom
        refine ⟨?_, fun _ => by simp only [load_append, load_cons, load_nil]; omega⟩
        simpa using (hperm.cons first).append_left b
      case h_2 hnone =>
        refine absurd hnone (popLast_ne_none (x := second) (by simp) ?_)
        simp only [not_or, not_lt] at hskip
        simp only [decide_eq_true_eq]
        omega
  case h_2 => exact ⟨.refl _, id⟩

private theorem refills_fillBin (cap : ℕ) : Refills cap (fillBin cap) := by
  intro b rest
  fun_induction fillBin cap b rest with
  | case1 => exact ⟨.refl _, id⟩
  | case2 => exact ⟨.refl _, id⟩
  | case3 => exact ⟨.refl _, id⟩
  | case4 b rest smallest hlast hroom it rest' hpop hlt ih =>
    obtain ⟨hfit, hperm⟩ := popFirst_eq_some hpop
    simp only [decide_eq_true_eq] at hfit
    refine ⟨ih.1.trans ?_, fun _ => ih.2 ?_⟩
    · simpa using hperm.append_left b
    · simp only [load_append, load_cons, load_nil]
      omega

/-- The invariant of phase 5: the bins pack what was seen, and their sizes are right. -/
structure FfdInv (cap : ℕ) (seen : List Item) (bins : List (List Item × ℕ)) : Prop where
  packing : IsPacking Prod.snd cap seen (bins.map Prod.fst)
  size : ∀ p ∈ bins, load Prod.snd p.1 = p.2

theorem ffdStep_inv {seen : List Item} {bins bins' : List (List Item × ℕ)} {it : Item}
    (hcap : it.2 ≤ cap) (h : FfdInv cap seen bins) (hstep : ffdStep cap bins it = .ok bins') :
    FfdInv cap (it :: seen) bins' := by
  have hinsert : ∀ (others : List (List Item × ℕ)) (p : List Item × ℕ),
      (others.insertIdx (others.takeWhile fun q => decide (q.2 ≤ p.2)).length p).Perm
        (p :: others) := fun others p =>
    List.perm_insertIdx _ _ (List.takeWhile_sublist _).length_le
  match bins, hstep with
  | (b, size) :: rest, hstep =>
    have hsize : load Prod.snd b = size := h.size (b, size) (by simp)
    simp only [ffdStep] at hstep
    split at hstep
    case isTrue hroom =>
      obtain rfl := Except.ok.inj hstep
      have hperm := hinsert rest (b ++ [it], size + it.2)
      have hbins : IsPacking Prod.snd cap seen ([] ++ b :: rest.map Prod.fst) := h.packing
      have hpack := hbins.place (x := it) (by omega)
      refine ⟨hpack.of_bins_perm (hperm.map Prod.fst), fun p hp => ?_⟩
      rcases List.mem_cons.mp (hperm.mem_iff.mp hp) with rfl | hp
      · simp [hsize]
      · exact h.size p (by simp [hp])
    case isFalse =>
      obtain rfl := Except.ok.inj hstep
      have hperm := hinsert ((b, size) :: rest) ([it], 0 + it.2)
      have hpack := h.packing.openBin hcap
      refine ⟨hpack.of_bins_perm ?_, fun p hp => ?_⟩
      · exact (hperm.map Prod.fst).trans (List.perm_append_singleton _ _).symm
      · rcases List.mem_cons.mp (hperm.mem_iff.mp hp) with rfl | hp
        · simp
        · exact h.size p hp

/-- The number of the class of an item. -/
private def itemClass (cap : ℕ) (it : Item) : ℕ :=
  if isLarge cap it then 0 else if isMedium cap it then 1 else if isSmall cap it then 2 else 3

/-- The four classes make up the items. -/
private theorem classify_perm (cap : ℕ) (items : List Item) :
    (items.filter (isLarge cap) ++ (items.filter (isMedium cap) ++ (items.filter (isSmall cap) ++
      items.filter (isTiny cap)))).Perm items := by
  have hclass : ∀ it : Item, itemClass cap it < 4 ∧
      (itemClass cap it = 0 ↔ isLarge cap it) ∧ (itemClass cap it = 1 ↔ isMedium cap it) ∧
      (itemClass cap it = 2 ↔ isSmall cap it) ∧ (itemClass cap it = 3 ↔ isTiny cap it) := by
    intro it
    simp only [itemClass, isLarge, isMedium, isSmall, isTiny, decide_eq_true_eq]
    grind
  have h := flatMap_filter_perm (itemClass cap) (l := items) fun it _ => (hclass it).1
  have hfilter : ∀ (i : ℕ) (q : Item → Bool), (∀ it, itemClass cap it = i ↔ q it) →
      (items.filter fun it => itemClass cap it = i) = items.filter q := fun i q hq =>
    List.filter_congr fun it _ => by rw [Bool.eq_iff_iff, decide_eq_true_eq, hq it]
  rw [← hfilter 0 _ fun it => (hclass it).2.1, ← hfilter 1 _ fun it => (hclass it).2.2.1,
    ← hfilter 2 _ fun it => (hclass it).2.2.2.1, ← hfilter 3 _ fun it => (hclass it).2.2.2.2]
  simpa [List.range_succ, List.flatMap_append] using h

private theorem sortAscending_perm (items : List Item) : (sortAscending items).Perm items :=
  List.perm_insertionSort _ _

theorem sortDescending_perm (items : List Item) : (sortDescending items).Perm items :=
  List.perm_insertionSort _ _

/-- Phases 0 to 4 lose no item and overfill no bin. -/
private theorem refillLargeBins_spec {items : List Item} (hcap : ∀ it ∈ items, it.2 ≤ cap) :
    ((refillLargeBins cap items).1.flatten ++ (refillLargeBins cap items).2).Perm items ∧
      ∀ b ∈ (refillLargeBins cap items).1, load Prod.snd b ≤ cap := by
  simp only [refillLargeBins]
  set large := sortDescending (items.filter (isLarge cap)) with hlarge
  set medium := sortDescending (items.filter (isMedium cap)) with hmedium
  set small := sortAscending (items.filter (isSmall cap)) with hsmall
  set tiny := sortAscending (items.filter (isTiny cap)) with htiny
  obtain ⟨hperm₂, hfits₂⟩ := refills_threadBins (refills_addMedium cap)
    (large.map fun it => [it]) medium
  set r₂ := threadBins (addMedium cap) (large.map fun it => [it]) medium
  obtain ⟨hperm₃, hfits₃⟩ := refills_threadBins (refills_addSmallPair cap)
    r₂.1.reverse small
  set r₃ := threadBins (addSmallPair cap) r₂.1.reverse small
  obtain ⟨hperm₄, hfits₄⟩ := refills_threadBins (refills_fillBin cap)
    r₃.1.reverse (sortDescending (r₂.2 ++ r₃.2 ++ tiny))
  have hlargeFits : ∀ b ∈ large.map fun it => [it], load Prod.snd b ≤ cap := by
    intro b hb
    obtain ⟨it, hit, rfl⟩ := List.mem_map.mp hb
    have hmem : it ∈ items :=
      List.mem_of_mem_filter ((sortDescending_perm _).mem_iff.mp (hlarge ▸ hit))
    simpa using hcap it hmem
  refine ⟨?_, hfits₄ fun b hb => ?_⟩
  · calc
      _ ~ r₃.1.reverse.flatten ++ sortDescending (r₂.2 ++ r₃.2 ++ tiny) := hperm₄
      _ ~ r₃.1.flatten ++ (r₂.2 ++ r₃.2 ++ tiny) :=
        (List.reverse_perm _).flatten.append (sortDescending_perm _)
      _ ~ (r₃.1.flatten ++ r₃.2) ++ (r₂.2 ++ tiny) := by
        simp only [List.append_assoc]
        refine List.Perm.append_left _ ?_
        rw [← List.append_assoc, ← List.append_assoc]
        exact List.perm_append_comm.append_right _
      _ ~ (r₂.1.reverse.flatten ++ small) ++ (r₂.2 ++ tiny) := hperm₃.append_right _
      _ ~ (r₂.1.flatten ++ small) ++ (r₂.2 ++ tiny) :=
        ((List.reverse_perm _).flatten.append_right _).append_right _
      _ ~ (r₂.1.flatten ++ r₂.2) ++ (small ++ tiny) := by
        simp only [List.append_assoc]
        refine List.Perm.append_left _ ?_
        rw [← List.append_assoc, ← List.append_assoc]
        exact List.perm_append_comm.append_right _
      _ ~ (large ++ medium) ++ (small ++ tiny) := by
        have hflat : (large.map fun it => [it]).flatten = large := by
          rw [← List.flatMap_def, List.flatMap_singleton']
        rw [hflat] at hperm₂
        exact hperm₂.append_right _
      _ ~ items := by
        rw [List.append_assoc]
        refine List.Perm.trans ?_ (classify_perm cap items)
        exact (sortDescending_perm _).append ((sortDescending_perm _).append
          ((sortAscending_perm _).append (sortAscending_perm _)))
  · exact hfits₃ (fun b hb => hfits₂ hlargeFits b (List.mem_reverse.mp hb)) b
      (List.mem_reverse.mp hb)

private theorem packs_modifiedFirstFitDecreasing
    (h : modifiedFirstFitDecreasingPack cap lens = .ok bins) : Packs lens cap bins := by
  unfold modifiedFirstFitDecreasingPack at h
  split at h
  case isTrue => exact nomatch h
  case isFalse =>
  split at h
  case isTrue => exact nomatch h
  case isFalse =>
  cases hval : validateSequenceLengths cap lens with
  | error e => rw [hval] at h; exact nomatch h
  | ok u =>
    rw [hval] at h
    set items : List Item := lens.zipIdx.map Prod.swap with hitems
    have hcap : ∀ it ∈ items, it.2 ≤ cap := by
      intro it hit
      obtain ⟨p, hp, rfl⟩ := List.mem_map.mp hit
      exact le_of_validate hval _ (mem_of_mem_zipIdx hp)
    obtain ⟨hperm, hfits⟩ := refillLargeBins_spec hcap
    set r := refillLargeBins cap items
    simp only [bind, Except.bind] at h
    split at h
    case h_1 => exact nomatch h
    case h_2 ffdBins hffd =>
    have hleftover : ∀ it ∈ sortDescending r.2, it.2 ≤ cap := by
      intro it hit
      refine hcap it (hperm.mem_iff.mp (List.mem_append.mpr (.inr ?_)))
      exact (sortDescending_perm r.2).mem_iff.mp hit
    have hinit : FfdInv cap [] [([], 0)] := ⟨⟨by simp, by simp⟩, by simp⟩
    have hinv := foldlM_seen (fun seen bins bins' it hit hinv hstep =>
      ffdStep_inv (hleftover it hit) hinv hstep) hinit hffd
    have hall : IsPacking Prod.snd cap items (r.1 ++ ffdBins.map Prod.fst) := by
      have hbins : IsPacking Prod.snd cap r.1.flatten r.1 := ⟨.refl _, hfits⟩
      refine (hbins.append hinv.packing).of_perm (List.Perm.trans (.append_left _ ?_) hperm)
      simpa using sortDescending_perm r.2
    have hweight : ∀ it ∈ items, weight lens it.1 = it.2 := by
      intro it hit
      obtain ⟨p, hp, rfl⟩ := List.mem_map.mp hit
      exact weight_of_mem_zipIdx hp
    have hmap := hall.filter_ne_nil.map hweight
    obtain rfl := Except.ok.inj h
    refine ⟨hmap.of_perm ?_, by simp⟩
    rw [hitems, List.map_map]
    exact map_snd_zipIdx_perm (.refl _)

/-! ## The number of bins -/

theorem le_targetBinCount (m k : Option ℕ) (n : ℕ) : n ≤ targetBinCount m k n := by
  cases m <;> cases k <;> grind [targetBinCount]

theorem minBinCount_le_targetBinCount (m : ℕ) (k : Option ℕ) (n : ℕ) :
    m ≤ targetBinCount (some m) k n := by
  cases k <;> grind [targetBinCount]

theorem dvd_targetBinCount (m : Option ℕ) {k : ℕ} (hk : 0 < k) (n : ℕ) :
    k ∣ targetBinCount m (some k) n := by
  have hround : ∀ t, k ∣ if t % k ≠ 0 then t + (k - t % k) else t := by
    intro t
    split_ifs with h
    · have := Nat.mod_lt t hk
      have hsum : t + (k - t % k) = k * (t / k + 1) := by
        have := Nat.div_add_mod t k
        rw [Nat.mul_add]
        omega
      exact ⟨_, hsum⟩
    · exact Nat.dvd_of_mod_eq_zero (by simpa using h)
  cases m with
  | none => exact hround n
  | some m => exact hround (max n m)

/-- A bin with at least two sequences is one of the bins. -/
private theorem exists_split_at {bins : List (List ℕ)} {s : ℕ}
    (h : 1 < (bins.getD s []).length) :
    ∃ pre b post, bins = pre ++ b :: post ∧ pre.length = s ∧ 1 < b.length := by
  have hs : s < bins.length := by
    by_contra hge
    rw [List.getD_eq_getElem?_getD, List.getElem?_eq_none (by omega)] at h
    simp at h
  refine ⟨bins.take s, bins[s], bins.drop (s + 1), ?_, by simp; omega, ?_⟩
  · rw [← List.drop_eq_getElem_cons hs, List.take_append_drop]
  · simpa [hs] using h

/-- Taking a sequence leaves the bins not empty, and the bins and the sequence pack
what they packed. -/
private theorem takeSequence_spec {bins bins' newBins : List (List ℕ)} {sources sources' : List ℕ}
    {x : ℕ} (hpack : Packs lens cap (bins ++ newBins))
    (h : takeSequence bins sources = some (x, bins', sources')) :
    Packs lens cap (bins' ++ (newBins ++ [[x]])) ∧ bins'.length = bins.length := by
  induction sources with
  | nil => exact nomatch h
  | cons source sources ih =>
    simp only [takeSequence] at h
    split at h
    case isFalse => exact ih h
    case isTrue hlen =>
      obtain ⟨rfl, hrest⟩ := Prod.mk.inj (Option.some.inj h)
      obtain ⟨rfl, rfl⟩ := Prod.mk.inj hrest
      obtain ⟨pre, b, post, rfl, rfl, hb⟩ := exists_split_at hlen
      have hne : b ≠ [] := by rintro rfl; simp at hb
      have hget : (pre ++ b :: post).getD pre.length [] = b := by simp
      have hset : ∀ c, (pre ++ b :: post).set pre.length c = pre ++ c :: post := by simp
      simp only [hget, hset]
      have hsplit := hpack.packing
      rw [List.append_assoc, List.cons_append] at hsplit
      have hsplit := hsplit.split hne
      refine ⟨⟨by simpa using hsplit, ?_⟩, by simp⟩
      have hnil : b.dropLast ≠ [] := by
        intro hdrop
        have := congrArg List.length hdrop
        simp only [List.length_dropLast, List.length_nil] at this
        omega
      have := hpack.nonempty
      simp only [List.mem_append, List.mem_cons, not_or] at this ⊢
      exact ⟨⟨this.1.1, hnil.symm, this.1.2.2⟩, this.2, by simp⟩

private theorem fillNewBins_spec {total k : ℕ} {bins bins' newBins : List (List ℕ)}
    {sources : List ℕ} (hpack : Packs lens cap (bins ++ newBins))
    (h : fillNewBins total k bins sources newBins = .ok bins') :
    Packs lens cap bins' ∧ bins'.length = bins.length + newBins.length + k := by
  induction k generalizing bins sources newBins with
  | zero =>
    obtain rfl := Except.ok.inj h
    exact ⟨hpack, by simp⟩
  | succ k ih =>
    simp only [fillNewBins] at h
    split at h
    case h_1 x bins₁ sources₁ htake =>
      obtain ⟨hpack₁, hlen₁⟩ := takeSequence_spec hpack htake
      obtain ⟨hpack', hlen'⟩ := ih hpack₁ h
      refine ⟨hpack', ?_⟩
      rw [hlen', hlen₁, List.length_append, List.length_singleton]
      omega
    case h_2 => exact nomatch h

/-- The adjustment keeps the packing and reaches the number of bins asked for. -/
theorem adjustBinCount_spec {m k : Option ℕ} {bins' : List (List ℕ)} (hpack : Packs lens cap bins)
    (h : adjustBinCount m k bins = .ok bins') :
    Packs lens cap bins' ∧ bins'.length = targetBinCount m k bins.length := by
  simp only [adjustBinCount] at h
  split at h
  case isTrue heq =>
    obtain rfl := Except.ok.inj h
    exact ⟨hpack, heq.symm⟩
  case isFalse =>
    split at h
    case isTrue => exact nomatch h
    case isFalse =>
      have hinit : Packs lens cap (bins ++ []) := by simpa using hpack
      obtain ⟨hpack', hlen⟩ := fillNewBins_spec hinit h
      refine ⟨hpack', ?_⟩
      have := le_targetBinCount m k bins.length
      rw [hlen, List.length_nil]
      omega

/-! ## Every packer -/

/-- All four algorithms pack. -/
theorem packs_packImplementation {p : SequencePacker} {rand : Shuffle} {k : ℕ}
    (h : p.packImplementation rand k lens = .ok bins) : Packs lens p.binCapacity bins := by
  unfold SequencePacker.packImplementation at h
  split at h
  · exact packs_concatenative h
  · exact packs_firstFit (List.perm_insertionSort _ _) h
  · exact packs_firstFit (rand.perm k _) h
  · exact packs_modifiedFirstFitDecreasing h

/-- What a call of `pack` returns: a packing of all positions into bins that are not
empty, whose number is at least the minimum and divisible by the multiple. -/
theorem SequencePacker.pack_spec {p : SequencePacker} {rand : Shuffle} {k : ℕ}
    (h : p.pack rand k lens = .ok bins) :
    Packs lens p.binCapacity bins ∧
      (∀ m, p.minBinCount = some m → m ≤ bins.length) ∧
      (∀ n, p.binCountMultiple = some n → 0 < n → n ∣ bins.length) := by
  simp only [pack, bind, Except.bind] at h
  split at h
  case h_1 => exact nomatch h
  case h_2 packed hpacked =>
    obtain ⟨hpack, hlen⟩ := adjustBinCount_spec (packs_packImplementation hpacked) h
    refine ⟨hpack, fun m hm => ?_, fun n hn hpos => ?_⟩
    · rw [hlen, hm]
      exact minBinCount_le_targetBinCount _ _ _
    · rw [hlen, hn]
      exact dvd_targetBinCount _ hpos _

end NemoRL.Data.Packing
